import GradidoBlockchain.Index.Marks

/-!
# An add to the index can be repeated

Once the day is noted and the index opened, every step of an add only opens entries and puts the one
offset into sets. What a step has done is there to be seen and stays there, so a repetition passes
over it and goes on at the step that was refused.
-/

namespace GradidoBlockchain

open Fallible Fallible.Call

variable {A : Arnm}

/-- A set that has gained nothing but perhaps an offset. -/
structure Gains (offset : Nat) (set later : A.Bitmap) : Prop where
  mono : ∀ value, A.contains set value = true → A.contains later value = true
  only : ∀ value, A.contains later value = true → A.contains set value = true ∨ value = offset

theorem Gains.refl (offset : Nat) (set : A.Bitmap) : Gains offset set set :=
  ⟨fun _ h => h, fun _ h => .inl h⟩

theorem Gains.add {offset : Nat} {set later : A.Bitmap} (hgains : Gains offset set later) :
    Gains offset set (A.add later offset) := by
  refine ⟨fun value h => ?_, fun value h => ?_⟩
  · rw [A.contains_add, hgains.mono value h, Bool.or_true]
  · rw [A.contains_add, Bool.or_eq_true, decide_eq_true_eq] at h
    exact h.elim .inr (hgains.only value)

/-- A set that ends at an offset still ends there when it has been given that offset. -/
theorem Gains.setEndsAt {offset : Nat} {set later : A.Bitmap} (hgains : Gains offset set later)
    (hends : A.setEndsAt set offset = true) : A.setEndsAt later offset = true := by
  rw [A.setEndsAt_iff] at hends ⊢
  refine ⟨hgains.mono offset hends.1, fun other hother => ?_⟩
  rcases hgains.only other hother with hbefore | rfl
  · exact hends.2 other hbefore
  · exact Nat.le_refl _

namespace AddressSets

structure Gains (offset : Nat) (sets later : AddressSets A) : Prop where
  balance : GradidoBlockchain.Gains offset sets.balance later.balance
  signed : GradidoBlockchain.Gains offset sets.signed later.signed
  other : GradidoBlockchain.Gains offset sets.other later.other

theorem Gains.refl (offset : Nat) (sets : AddressSets A) : Gains offset sets sets :=
  ⟨.refl .., .refl .., .refl ..⟩

/-- The third role of a key is noted, or one of the first two makes that superfluous. -/
def Named (offset : Nat) (sets : AddressSets A) : Prop :=
  (A.setEndsAt sets.signed offset || A.setEndsAt sets.balance offset) = true ∨
    A.contains sets.other offset = true

theorem Gains.named {offset : Nat} {sets later : AddressSets A} (hgains : Gains offset sets later)
    (hnamed : sets.Named offset) : later.Named offset := by
  refine hnamed.imp (fun hends => ?_) (hgains.other.mono offset)
  rw [Bool.or_eq_true] at hends ⊢
  exact hends.imp hgains.signed.setEndsAt hgains.balance.setEndsAt

end AddressSets

namespace Transactions

/-! ### Onward -/

/-- What the steps after the opening of the index may have changed. -/
structure Onward (offset : Nat) (start index : Transactions A) : Prop where
  same : SameButSets start index
  addresses : Keyed.Carries (AddressSets.Gains offset) start.addresses index.addresses
  coins : Keyed.Carries (Gains offset) start.coins index.coins
  foreign : Gains offset start.foreign index.foreign

theorem Onward.refl (offset : Nat) (index : Transactions A) : Onward offset index index :=
  ⟨.refl index, .refl (.refl offset) _, .refl (.refl offset) _, .refl offset _⟩

section Steps

variable {offset : Nat} (start : Transactions A)

theorem setsForKey_onward (key : PublicKey) : Keeps (Onward offset start) (setsForKey key) := by
  intro index room honward
  refine ⟨honward.same.trans rfl, ?_, honward.coins, honward.foreign⟩
  exact honward.addresses.onward
    (Keyed.slotForKey_extends AddressSets.blank key index.addresses room)

theorem coinSetForUuid_onward (uuid : Uuid) :
    Keeps (Onward offset start) (coinSetForUuid uuid) := by
  intro index room honward
  refine ⟨honward.same.trans rfl, honward.addresses, ?_, honward.foreign⟩
  exact honward.coins.onward (Keyed.slotForKey_extends A.blank uuid index.coins room)

theorem Onward.markAddress {index : Transactions A} (honward : Onward offset start index) (id : Nat)
    {change : AddressSets A → AddressSets A}
    (hchange : ∀ sets other, AddressSets.Gains offset sets other →
      AddressSets.Gains offset sets (change other)) :
    Onward offset start (index.markAddress id change) :=
  ⟨honward.same.trans rfl, honward.addresses.modify hchange, honward.coins, honward.foreign⟩

theorem markKey_onward (key : PublicKey) {change : AddressSets A → AddressSets A}
    (hchange : ∀ sets other, AddressSets.Gains offset sets other →
      AddressSets.Gains offset sets (change other)) :
    Keeps (Onward offset start) (markKey key change) :=
  .ite (.pure ())
    ((setsForKey_onward start key).bind fun id =>
      .grow fun _ honward => honward.markAddress start id hchange)

theorem noteSignature_onward (pair : SignaturePair) :
    Keeps (Onward offset start) (noteSignature offset pair) :=
  markKey_onward start _ fun _ _ hgains => ⟨hgains.balance, hgains.signed.add, hgains.other⟩

theorem noteBalanceKey_onward (balance : AccountBalance) :
    Keeps (Onward offset start) (noteBalanceKey offset balance) :=
  markKey_onward start _ fun _ _ hgains => ⟨hgains.balance.add, hgains.signed, hgains.other⟩

theorem noteBalanceCoin_onward (balance : AccountBalance) :
    Keeps (Onward offset start) (noteBalanceCoin offset balance) := by
  refine (Keeps.gets _).bind fun home => .ite (.pure ()) ?_
  refine (coinSetForUuid_onward start _).bind fun id =>
    .bind (.grow fun index honward => ?_) fun _ => .grow fun index honward => ?_
  · exact ⟨honward.same.trans rfl, honward.addresses,
      honward.coins.modify fun _ _ hgains => hgains.add, honward.foreign⟩
  · exact ⟨honward.same.trans rfl, honward.addresses, honward.coins, honward.foreign.add⟩

theorem noteBalance_onward (balance : AccountBalance) :
    Keeps (Onward offset start) (noteBalance offset balance) :=
  (noteBalanceKey_onward start balance).bind fun _ => noteBalanceCoin_onward start balance

theorem noteNamed_onward (key : PublicKey) :
    Keeps (Onward offset start) (noteNamed offset key) := by
  refine .ite (.pure ())
    ((setsForKey_onward start key).bind fun id =>
      (Keeps.gets _).bind fun marked =>
        .ite (.pure ()) (.grow fun _ honward => honward.markAddress start id fun _ _ hgains => ?_))
  exact ⟨hgains.balance, hgains.signed, hgains.other.add⟩

end Steps

/-! ### Traces -/

/-- The entry of a key is open and has been through a step, unless the key is blank. -/
def KeyDone (done : AddressSets A → Prop) (key : PublicKey) (index : Transactions A) : Prop :=
  isEmpty key = true ∨
    ∃ id sets, index.addresses.OpenAt key id ∧ index.addresses.entries.get? id = some sets ∧
      done sets

/-- The coin of a balance has been noted, unless it is the chain's own. -/
def CoinDone (offset : Nat) (balance : AccountBalance) (index : Transactions A) : Prop :=
  balance.communityUuid = index.chainCommunityUuid ∨
    (∃ id set, index.coins.OpenAt balance.communityUuid id ∧
        index.coins.entries.get? id = some set ∧ A.contains set offset = true) ∧
      A.contains index.foreign offset = true

/-- The day of a transaction is in the table. -/
def DayDone (seconds : Int64) (offset : Nat) (index : Transactions A) : Prop :=
  (index.transactionCount = 0 → index.firstDay = dayOfSecond seconds) ∧
    ∃ position, dayIndex (dayOfSecond seconds) index = .ok position ∧
      position < index.dayMaxTx.size ∧ (offset + 1) % 2 ^ 32 ≤ index.daySlot position

/-- An empty index has been opened with a transaction. -/
def OpenDone (tx : CompleteTransaction) (index : Transactions A) : Prop :=
  index.transactionCount = 0 → index.minTxNr = tx.nr ∧ index.chainCommunityUuid = tx.txCommunityUuid

section Traces

variable {offset : Nat} {start index : Transactions A} (honward : Onward offset start index)

include honward

theorem Onward.keyDone {done : AddressSets A → Prop} {key : PublicKey}
    (hdone : ∀ sets later, AddressSets.Gains offset sets later → done sets → done later)
    (hkey : KeyDone done key start) : KeyDone done key index := by
  refine hkey.imp_right ?_
  rintro ⟨id, sets, hopen, hget, hsets⟩
  obtain ⟨later, hlater, hgains⟩ := honward.addresses.entry id sets hget
  exact ⟨id, later, hopen.carried honward.addresses, hlater, hdone sets later hgains hsets⟩

theorem Onward.coinDone {balance : AccountBalance} (hcoin : CoinDone offset balance start) :
    CoinDone offset balance index := by
  refine hcoin.imp (fun heq => ?_) ?_
  · rw [honward.same]
    exact heq
  · rintro ⟨⟨id, set, hopen, hget, hset⟩, hforeign⟩
    obtain ⟨later, hlater, hgains⟩ := honward.coins.entry id set hget
    exact ⟨⟨id, later, hopen.carried honward.coins, hlater, hgains.mono offset hset⟩,
      honward.foreign.mono offset hforeign⟩

theorem Onward.dayDone {seconds : Int64} (hday : DayDone seconds offset start) :
    DayDone seconds offset index := by
  rw [honward.same]
  exact hday

theorem Onward.openDone {tx : CompleteTransaction}
    (hopen : OpenDone tx start) : OpenDone tx index := by
  rw [honward.same]
  exact hopen

end Traces

/-! ### Retrying the steps -/

section Retry

variable {offset : Nat}

theorem setsForKey_retryable (key : PublicKey) :
    Retryable (fun _ : Transactions A => True) ArnmResult.outOfMemory (setsForKey key)
      (fun id index => index.addresses.OpenAt key id) :=
  .within addresses putAddresses (fun _ _ => rfl) (fun _ => rfl) (fun _ _ _ => rfl)
    (Keyed.slotForKey_retryable .blank key)

theorem coinSetForUuid_retryable (uuid : Uuid) :
    Retryable (fun _ : Transactions A => True) ArnmResult.outOfMemory (coinSetForUuid uuid)
      (fun id index => index.coins.OpenAt uuid id) :=
  .within coins putCoins (fun _ _ => rfl) (fun _ => rfl) (fun _ _ _ => rfl)
    (Keyed.slotForKey_retryable A.blank uuid)

/-- Writing to the open entry of a key, where a second write changes nothing. -/
private theorem markAddress_retryable {key : PublicKey} {id : Nat} {inv : Transactions A → Prop}
    {change : AddressSets A → AddressSets A} {done : AddressSets A → Prop}
    (hopen : ∀ index, inv index → index.addresses.OpenAt key id)
    (hkeeps : ∀ index, inv index → inv (index.markAddress id change))
    (hdone : ∀ sets, done (change sets)) (hidle : ∀ sets, done sets → change sets = sets) :
    Retryable inv ArnmResult.outOfMemory (grow .outOfMemory (markAddress id change))
      (fun _ index => ∃ sets, index.addresses.entries.get? id = some sets ∧ done sets) := by
  refine .grow hkeeps (fun index hinv => ?_) (fun index _ hsets => ?_)
  · obtain ⟨sets, hget⟩ := Bvec.get?_isSome (hopen index hinv).2
    refine ⟨change sets, ?_, hdone sets⟩
    change (index.addresses.entries.modify id change).get? id = _
    rw [Bvec.get?_modify, if_pos rfl, hget]
    rfl
  · obtain ⟨sets, hget, hsets⟩ := hsets
    rw [markAddress, Keyed.modify_eq_self hget (hidle sets hsets)]
    rfl

theorem markKey_retryable (key : PublicKey) {change : AddressSets A → AddressSets A}
    {done : AddressSets A → Prop} (hdone : ∀ sets, done (change sets))
    (hidle : ∀ sets, done sets → change sets = sets) :
    Retryable (fun _ => True) ArnmResult.outOfMemory (markKey key change)
      (fun _ => KeyDone done key) := by
  rw [markKey]
  split
  · exact (Retryable.pure ()).settling (fun _ _ _ _ => .inl ‹_›) (fun _ _ _ _ => rfl)
  · have hmark : ∀ id, Retryable
        (fun index : Transactions A => True ∧ index.addresses.OpenAt key id) ArnmResult.outOfMemory
        (grow .outOfMemory (markAddress id change))
        (fun _ index => ∃ sets, index.addresses.entries.get? id = some sets ∧ done sets) :=
      fun id =>
        markAddress_retryable (fun _ hinv => hinv.2) (fun _ hinv => ⟨trivial, hinv.2.modify⟩) hdone
          hidle
    refine ((setsForKey_retryable key).bind hmark).settling ?_ ?_
    · rintro - index - ⟨id, hopen, sets, hget, hsets⟩
      exact .inr ⟨id, sets, hopen, hget, hsets⟩
    · rintro - index - (hempty | ⟨id, sets, hopen, hget, hsets⟩)
      · exact absurd hempty ‹_›
      · exact ⟨id, hopen, sets, hget, hsets⟩

theorem noteSignature_retryable (pair : SignaturePair) :
    Retryable (fun _ : Transactions A => True) ArnmResult.outOfMemory (noteSignature offset pair)
      (fun _ => KeyDone (fun sets => A.contains sets.signed offset = true) pair.publicKey) :=
  markKey_retryable _ (fun sets => by simp [A.contains_add]) fun sets hset => by
    rw [A.add_of_contains _ _ hset]

theorem noteBalanceKey_retryable (balance : AccountBalance) :
    Retryable (fun _ : Transactions A => True) ArnmResult.outOfMemory
      (noteBalanceKey offset balance)
      (fun _ => KeyDone (fun sets => A.contains sets.balance offset = true) balance.pubkey) :=
  markKey_retryable _ (fun sets => by simp [A.contains_add]) fun sets hset => by
    rw [A.add_of_contains _ _ hset]

theorem noteBalanceCoin_retryable (balance : AccountBalance) :
    Retryable (fun _ : Transactions A => True) ArnmResult.outOfMemory
      (noteBalanceCoin offset balance) (fun _ => CoinDone offset balance) := by
  have hcoin : ∀ home id, Retryable
      (fun index : Transactions A =>
        (True ∧ index.chainCommunityUuid = home) ∧ index.coins.OpenAt balance.communityUuid id)
      ArnmResult.outOfMemory (grow .outOfMemory (markCoin id offset))
      (fun _ index =>
        ∃ set, index.coins.entries.get? id = some set ∧ A.contains set offset = true) := by
    intro home id
    refine .grow (fun index hinv => ⟨hinv.1, hinv.2.modify⟩) (fun index hinv => ?_)
      (fun index _ hset => ?_)
    · obtain ⟨set, hget⟩ := Bvec.get?_isSome hinv.2.2
      refine ⟨A.add set offset, ?_, by simp [A.contains_add]⟩
      change (index.coins.entries.modify id _).get? id = _
      rw [Bvec.get?_modify, if_pos rfl, hget]
      rfl
    · obtain ⟨set, hget, hset⟩ := hset
      rw [markCoin, Keyed.modify_eq_self hget (A.add_of_contains set offset hset)]
      rfl
  have hforeign : ∀ home id, Retryable
      (fun index : Transactions A =>
        ((True ∧ index.chainCommunityUuid = home) ∧ index.coins.OpenAt balance.communityUuid id) ∧
          ∃ set, index.coins.entries.get? id = some set ∧ A.contains set offset = true)
      ArnmResult.outOfMemory (grow .outOfMemory (markForeign offset))
      (fun _ index => A.contains index.foreign offset = true) := by
    intro home id
    refine .grow (fun index hinv => hinv) (fun index _ => ?_) (fun index _ hset => ?_)
    · exact Eq.trans (A.contains_add index.foreign offset offset) (by simp)
    · rw [markForeign, A.add_of_contains _ _ hset]
  have hslot : ∀ home, Retryable
      (fun index : Transactions A => True ∧ index.chainCommunityUuid = home) ArnmResult.outOfMemory
      (coinSetForUuid balance.communityUuid)
      (fun id index => index.coins.OpenAt balance.communityUuid id) :=
    fun home => (coinSetForUuid_retryable _).given fun _ _ hinv => hinv
  have hnoted : ∀ home, Retryable (fun index : Transactions A => True ∧ index.chainCommunityUuid = home) ArnmResult.outOfMemory
      (if balance.communityUuid = home then pure ()
        else do
          let id ← coinSetForUuid balance.communityUuid
          grow .outOfMemory (markCoin id offset)
          grow .outOfMemory (markForeign offset))
      (fun _ => CoinDone offset balance) := by
    intro home
    refine .ite (fun hhome => ?_) fun hhome => ?_
    · refine (Retryable.pure ()).settling (fun _ index hinv _ => .inl ?_) (fun _ _ _ _ => rfl)
      rw [hhome, hinv.2]
    · refine ((hslot home).bind fun id => (hcoin home id).bind fun _ => hforeign home id).settling
        ?_ ?_
      · rintro - index - ⟨id, hopen, -, ⟨set, hget, hset⟩, hforeign⟩
        exact .inr ⟨⟨id, set, hopen, hget, hset⟩, hforeign⟩
      · rintro - index hinv (hown | ⟨⟨id, set, hopen, hget, hset⟩, hforeign⟩)
        · exact absurd (hown.trans hinv.2) hhome
        · exact ⟨id, hopen, (), ⟨set, hget, hset⟩, hforeign⟩
  refine ((Retryable.gets chainCommunityUuid).bind hnoted).settling ?_ ?_
  · exact fun _ _ _ ⟨_, _, hdone⟩ => hdone
  · exact fun _ index _ hdone => ⟨index.chainCommunityUuid, rfl, hdone⟩

theorem noteBalance_retryable (balance : AccountBalance) :
    Retryable (fun _ : Transactions A => True) ArnmResult.outOfMemory (noteBalance offset balance)
      (fun _ index =>
        KeyDone (fun sets => A.contains sets.balance offset = true) balance.pubkey index ∧
          CoinDone offset balance index) := by
  have hcoin : Retryable
      (fun index : Transactions A =>
        True ∧ KeyDone (fun sets => A.contains sets.balance offset = true) balance.pubkey index)
      ArnmResult.outOfMemory (noteBalanceCoin offset balance)
      (fun _ => CoinDone offset balance) := by
    refine (noteBalanceCoin_retryable balance).given
      (.of_onward (fun start => noteBalanceCoin_onward start balance) (.refl offset)
        fun state left honward hinv => ⟨trivial, honward.keyDone ?_ hinv.2⟩)
    exact fun _ _ hgains => hgains.balance.mono offset
  refine ((noteBalanceKey_retryable balance).bind fun _ => hcoin).settling ?_ ?_
  · exact fun _ _ _ ⟨_, hkey, hcoin⟩ => ⟨hkey, hcoin⟩
  · exact fun _ _ _ ⟨hkey, hcoin⟩ => ⟨(), hkey, hcoin⟩

theorem noteNamed_retryable (key : PublicKey) :
    Retryable (fun _ : Transactions A => True) ArnmResult.outOfMemory (noteNamed offset key)
      (fun _ => KeyDone (AddressSets.Named offset) key) := by
  rw [noteNamed]
  split
  · exact (Retryable.pure ()).settling (fun _ _ _ _ => .inl ‹_›) (fun _ _ _ _ => rfl)
  -- The test looks at the first two roles and the step writes the third, so the step does not turn
  -- its own test.
  have hmark : ∀ id (marked : Bool), ¬marked = true →
      Retryable (fun index : Transactions A =>
        (True ∧ index.addresses.OpenAt key id) ∧ index.alreadyMarked id offset = marked)
        ArnmResult.outOfMemory
        (grow .outOfMemory
          (markAddress id fun sets => { sets with other := A.add sets.other offset }))
        (fun _ index =>
          ∃ sets, index.addresses.entries.get? id = some sets ∧ sets.Named offset) := by
    intro id marked hmarked
    have hgrow : Retryable
        (fun index : Transactions A =>
          (True ∧ index.addresses.OpenAt key id) ∧ index.alreadyMarked id offset = marked)
        ArnmResult.outOfMemory
        (grow .outOfMemory
          (markAddress id fun sets => { sets with other := A.add sets.other offset }))
        (fun _ index =>
          ∃ sets, index.addresses.entries.get? id = some sets ∧
            A.contains sets.other offset = true) := by
      refine markAddress_retryable (fun _ hinv => hinv.1.2)
        (fun index hinv => ⟨⟨trivial, hinv.1.2.modify⟩, ?_⟩)
        (fun sets => by simp [A.contains_add]) fun sets hset => by rw [A.add_of_contains _ _ hset]
      obtain ⟨sets, hget⟩ := Bvec.get?_isSome hinv.1.2.2
      rw [← hinv.2, alreadyMarked_eq hget]
      have hwritten : (index.markAddress id fun sets =>
            { sets with other := A.add sets.other offset }).addresses.entries.get? id =
          some { sets with other := A.add sets.other offset } := by
        change (index.addresses.entries.modify id _).get? id = _
        rw [Bvec.get?_modify, if_pos rfl, hget]
        rfl
      exact Eq.trans (alreadyMarked_eq hwritten) rfl
    refine hgrow.settling (fun _ _ _ hnoted => ?_) ?_
    · obtain ⟨sets, hget, hset⟩ := hnoted
      exact ⟨sets, hget, .inr hset⟩
    rintro - index hinv ⟨sets, hget, hends | hset⟩
    · rw [← hinv.2, alreadyMarked_eq hget] at hmarked
      exact absurd hends hmarked
    · exact ⟨sets, hget, hset⟩
  have hnamed : ∀ id, Retryable (fun index : Transactions A => True ∧ index.addresses.OpenAt key id) ArnmResult.outOfMemory
      (do
        let marked ← gets fun index => index.alreadyMarked id offset
        if marked then pure ()
        else grow .outOfMemory (markAddress id fun sets => { sets with other := A.add sets.other offset }))
      (fun _ index => ∃ sets, index.addresses.entries.get? id = some sets ∧ sets.Named offset) := by
    intro id
    refine ((Retryable.gets fun index : Transactions A => index.alreadyMarked id offset).bind
      fun marked => .ite (fun hmarked => ?_) (hmark id marked)).settling (fun _ _ _ hmarked => ?_)
      fun _ index _ hdone => ⟨_, rfl, hdone⟩
    rotate_left
    · obtain ⟨_, _, hdone⟩ := hmarked
      exact hdone
    refine (Retryable.pure ()).settling (fun _ index hinv _ => ?_) (fun _ _ _ _ => rfl)
    obtain ⟨sets, hget⟩ := Bvec.get?_isSome hinv.1.2.2
    refine ⟨sets, hget, .inl ?_⟩
    rw [← alreadyMarked_eq hget, hinv.2, hmarked]
  refine ((setsForKey_retryable key).bind hnamed).settling ?_ ?_
  · rintro - index - ⟨id, hopen, sets, hget, hsets⟩
    exact .inr ⟨id, sets, hopen, hget, hsets⟩
  · rintro - index - (hempty | ⟨id, sets, hopen, hget, hsets⟩)
    · exact absurd hempty ‹_›
    · exact ⟨id, hopen, sets, hget, hsets⟩

/-! ### The day -/

private theorem raise_le (offset noted : Nat) : (offset + 1) % 2 ^ 32 ≤ raise offset noted := by
  rw [raise]
  split <;> omega

private theorem raise_eq_self {noted : Nat} (hle : (offset + 1) % 2 ^ 32 ≤ noted) :
    raise offset noted = noted := by
  rw [raise, if_neg (by omega)]

/-- No check of a day is a refusal of room. -/
theorem dayIndex_ne_oom (day : Int) (index : Transactions A) :
    dayIndex day index ≠ .error .outOfMemory := by
  rw [dayIndex]
  split
  · intro hcode
    cases hcode
  · split <;> intro hcode <;> cases hcode

private theorem raiseDay_retryable {inv : Transactions A → Prop} {position : Nat}
    (hkeeps : ∀ index, inv index →
      inv (index.putDayMaxTx (index.dayMaxTx.modify position (raise offset))))
    (hlt : ∀ index, inv index → position < index.dayMaxTx.size) :
    Retryable inv ArnmResult.outOfMemory
      (write fun index => index.putDayMaxTx (index.dayMaxTx.modify position (raise offset)))
      (fun _ index => (offset + 1) % 2 ^ 32 ≤ index.daySlot position) := by
  refine .write hkeeps (fun index hinv => ?_) (fun index hinv hslot => ?_)
  · obtain ⟨noted, hnoted⟩ := Bvec.get?_isSome (hlt index hinv)
    change _ ≤ ((index.dayMaxTx.modify position (raise offset)).get? position).getD 0
    rw [Bvec.get?_modify, if_pos rfl, hnoted]
    exact raise_le offset noted
  · obtain ⟨noted, hnoted⟩ := Bvec.get?_isSome (hlt index hinv)
    rw [daySlot, hnoted] at hslot
    rw [Bvec.modify_eq_self hnoted (raise_eq_self hslot)]
    rfl

theorem noteDay_retryable (seconds : Int64) :
    Retryable (fun _ : Transactions A => True) ArnmResult.outOfMemory (noteDay seconds offset)
      (fun _ => DayDone seconds offset) := by
  have hopen : Retryable (fun _ : Transactions A => True) ArnmResult.outOfMemory
      (write (openDay (dayOfSecond seconds)))
      (fun _ index => index.transactionCount = 0 → index.firstDay = dayOfSecond seconds) := by
    refine .write (fun _ h => h) (fun index _ hcount => if_pos hcount) (fun index _ hday => ?_)
    rw [openDay]
    split
    · rw [← hday ‹_›]
    · rfl
  have hcheck : Retryable
      (fun index : Transactions A =>
        True ∧ (index.transactionCount = 0 → index.firstDay = dayOfSecond seconds))
      ArnmResult.outOfMemory (check (dayIndex (dayOfSecond seconds)))
      (fun position index => dayIndex (dayOfSecond seconds) index = .ok position) :=
    .check fun index _ => dayIndex_ne_oom _ index
  have hgrow : ∀ position, Retryable
      (fun index : Transactions A =>
        (True ∧ (index.transactionCount = 0 → index.firstDay = dayOfSecond seconds)) ∧
          dayIndex (dayOfSecond seconds) index = .ok position) ArnmResult.outOfMemory
      (within dayMaxTx putDayMaxTx (Bvec.growPast 0 position))
      (fun _ index => position < index.dayMaxTx.size) := by
    intro position
    have htable : Retryable (fun _ : Bvec Nat => True) ArnmResult.outOfMemory
        (Bvec.growPast 0 position) (fun _ vec => position < vec.size) :=
      Bvec.growPast_retryable position fun _ _ h => h
    have hwithin : Retryable (fun _ : Transactions A => True) ArnmResult.outOfMemory
        (within dayMaxTx putDayMaxTx (Bvec.growPast 0 position))
        (fun _ index => position < index.dayMaxTx.size) :=
      .within dayMaxTx putDayMaxTx (fun _ _ => rfl) (fun _ => rfl) (fun _ _ _ => rfl) htable
    exact hwithin.given fun index room hinv => hinv
  refine (hopen.bind fun _ => hcheck.bind fun position => (hgrow position).bind fun _ =>
    raiseDay_retryable (fun index hinv => ⟨hinv.1, ?_⟩) (fun _ hinv => hinv.2)).settling ?_ ?_
  · change position < (index.dayMaxTx.modify position (raise offset)).size
    rw [Bvec.size_modify]
    exact hinv.2
  · exact fun _ _ _ ⟨_, hday, position, hposition, _, hlt, hslot⟩ => ⟨hday, position, hposition,
      hlt, hslot⟩
  · exact fun _ _ _ ⟨hday, position, hposition, hlt, hslot⟩ => ⟨(), hday, position, hposition, (),
      hlt, hslot⟩

theorem openWith_retryable (tx : CompleteTransaction) {inv : Transactions A → Prop}
    (hkeeps : ∀ index, inv index → inv (openWith tx index)) :
    Retryable inv ArnmResult.outOfMemory (write (openWith tx)) (fun _ => OpenDone tx) := by
  refine .write hkeeps (fun index _ hcount => ⟨if_pos hcount, if_pos hcount⟩)
    (fun index _ hopen => ?_)
  rw [openWith]
  split
  · obtain ⟨hmin, hhome⟩ := hopen ‹_›
    rw [← hmin, ← hhome]
  · rfl

end Retry

/-! ### The whole add -/

/-- What a step beyond the opening of the index cannot undo. -/
def Lasts (offset : Nat) (inv : Transactions A → Prop) : Prop :=
  ∀ start index, Onward offset start index → inv start → inv index

section Whole

variable {offset : Nat}

theorem Lasts.and {inv other : Transactions A → Prop} (hinv : Lasts offset inv)
    (hother : Lasts offset other) : Lasts offset fun index => inv index ∧ other index :=
  fun start index honward => And.imp (hinv start index honward) (hother start index honward)

theorem Lasts.all {α : Type} {items : List α} {done : α → Transactions A → Prop}
    (hdone : ∀ item, Lasts offset (done item)) :
    Lasts offset fun index => ∀ item ∈ items, done item index :=
  fun start index honward hall item hitem => hdone item start index honward (hall item hitem)

theorem Lasts.keeps {α : Type} {inv : Transactions A → Prop}
    {call : Call ArnmResult (Transactions A) α} (hinv : Lasts offset inv)
    (honward : ∀ start, Keeps (Onward offset start) call) : Keeps inv call :=
  .of_onward honward (.refl offset) hinv

/-- A loop whose rounds go onward and leave traces that last. -/
private theorem loop_retryable {α : Type} {items : List α}
    {body : α → Call ArnmResult (Transactions A) Unit} {done : α → Transactions A → Prop}
    (honward : ∀ start item, Keeps (Onward offset start) (body item))
    (hdone : ∀ item, Lasts offset (done item))
    (hbody : ∀ item,
      Retryable (fun _ => True) ArnmResult.outOfMemory (body item) (fun _ => done item))
    {inv : Transactions A → Prop} (hinv : Lasts offset inv) :
    Retryable inv ArnmResult.outOfMemory (items.forM body)
      (fun _ index => ∀ item ∈ items, done item index) :=
  .forM (fun item _ => (hbody item).given (hinv.keeps fun start => honward start item))
    fun item _ other _ => (hinv.and (hdone item)).keeps fun start => honward start other

theorem mark_resumable (tx : CompleteTransaction) :
    Resumable (fun _ : Transactions A => True) ArnmResult.outOfMemory (mark tx offset) := by
  refine (noteDay_retryable _).bindResumable fun _ => ?_
  refine (openWith_retryable tx fun index hinv => ?_).bindResumable fun _ => ?_
  · exact hinv
  have hopened : Lasts offset fun index : Transactions A =>
      (True ∧ DayDone tx.confirmedAt.seconds offset index) ∧ OpenDone tx index :=
        fun start index honward hinv =>
    ⟨⟨trivial, honward.dayDone hinv.1.2⟩, honward.openDone hinv.2⟩
  have hsigned : ∀ pair : SignaturePair, Lasts offset fun index : Transactions A =>
      KeyDone (fun sets => A.contains sets.signed offset = true) pair.publicKey index :=
        fun pair start index honward =>
    honward.keyDone fun _ _ hgains => hgains.signed.mono offset
  have hbalance : ∀ balance : AccountBalance, Lasts offset fun index : Transactions A =>
      KeyDone (fun sets => A.contains sets.balance offset = true) balance.pubkey index ∧
          CoinDone offset balance index :=
    fun balance start index honward hdone =>
      ⟨honward.keyDone (fun _ _ hgains => hgains.balance.mono offset) hdone.1,
        honward.coinDone hdone.2⟩
  have hnamed : ∀ key : PublicKey, Lasts offset fun index : Transactions A => KeyDone (AddressSets.Named offset) key index :=
    fun key start index honward => honward.keyDone fun _ _ hgains => hgains.named
  refine (loop_retryable noteSignature_onward hsigned noteSignature_retryable hopened).bindResumable
    fun _ => ?_
  refine (loop_retryable noteBalance_onward hbalance noteBalance_retryable
    (hopened.and (.all hsigned))).bindResumable fun _ => ?_
  refine (loop_retryable noteNamed_onward hnamed noteNamed_retryable
    ((hopened.and (.all hsigned)).and (.all hbalance))).bindResumable fun _ => ?_
  exact .grow _

/-- What marking leaves as it was. -/
structure Unmoved (start index : Transactions A) : Prop where
  ready : index.ready = start.ready
  base : index.baseTxNr = start.baseTxNr
  max : index.maxTxNr = start.maxTxNr
  count : index.transactionCount = start.transactionCount
  min : start.transactionCount ≠ 0 → index.minTxNr = start.minTxNr
  firstDay : start.transactionCount ≠ 0 → index.firstDay = start.firstDay

theorem Unmoved.refl (index : Transactions A) : Unmoved index index :=
  ⟨rfl, rfl, rfl, rfl, fun _ => rfl, fun _ => rfl⟩

theorem lasts_unmoved (start : Transactions A) : Lasts offset (Unmoved start) := by
  intro before index honward hunmoved
  rw [honward.same]
  exact ⟨hunmoved.ready, hunmoved.base, hunmoved.max, hunmoved.count, hunmoved.min,
    hunmoved.firstDay⟩

/-- The steps after the opening, which go onward. -/
private theorem rest_keeps {inv : Transactions A → Prop} (tx : CompleteTransaction)
    (hinv : Lasts offset inv)
    (htype : ∀ index, inv index → inv (markType tx.transactionType offset index)) : Keeps inv (do
      tx.signaturePairs.forM (noteSignature offset)
      tx.accountBalances.forM (noteBalance offset)
      (named tx).forM (noteNamed offset)
      grow .outOfMemory (markType tx.transactionType offset) : Call ArnmResult (Transactions A) Unit) := by
  have hloop : ∀ {α : Type} {items : List α} {body : α → Call ArnmResult (Transactions A) Unit},
      (∀ start item, Keeps (Onward offset start) (body item)) → Keeps inv (items.forM body) :=
    fun honward => .forM fun item _ => hinv.keeps fun start => honward start item
  exact .bind (hloop noteSignature_onward) fun _ => .bind (hloop noteBalance_onward) fun _ =>
    .bind (hloop noteNamed_onward) fun _ => .grow htype

theorem noteDay_unmoved (seconds : Int64) (start : Transactions A) :
    Keeps (Unmoved start) (noteDay seconds offset) := by
  refine .bind (.write fun index hunmoved => ?_) fun _ =>
    .bind (.check _) fun position => .bind ?_ fun _ => .write fun index hunmoved => ?_
  · refine ⟨hunmoved.ready, hunmoved.base, hunmoved.max, hunmoved.count, hunmoved.min,
      fun hcount => ?_⟩
    change (if index.transactionCount = 0 then dayOfSecond seconds else index.firstDay) = _
    rw [if_neg (by rwa [hunmoved.count])]
    exact hunmoved.firstDay hcount
  · intro index room hunmoved
    exact ⟨hunmoved.ready, hunmoved.base, hunmoved.max, hunmoved.count, hunmoved.min,
      hunmoved.firstDay⟩
  · exact ⟨hunmoved.ready, hunmoved.base, hunmoved.max, hunmoved.count, hunmoved.min,
      hunmoved.firstDay⟩

theorem openWith_unmoved (tx : CompleteTransaction) {start index : Transactions A}
    (hunmoved : Unmoved start index) : Unmoved start (openWith tx index) := by
  refine ⟨hunmoved.ready, hunmoved.base, hunmoved.max, hunmoved.count, fun hcount => ?_,
    hunmoved.firstDay⟩
  change (if index.transactionCount = 0 then tx.nr else index.minTxNr) = _
  rw [if_neg (by rwa [hunmoved.count])]
  exact hunmoved.min hcount

theorem mark_unmoved (tx : CompleteTransaction) (start : Transactions A) :
    Keeps (Unmoved start) (mark tx offset) :=
  .bind (noteDay_unmoved _ start) fun _ => .bind (.write fun _ => openWith_unmoved tx) fun _ =>
    rest_keeps tx (lasts_unmoved start) fun _ hunmoved =>
      ⟨hunmoved.ready, hunmoved.base, hunmoved.max, hunmoved.count, hunmoved.min, hunmoved.firstDay⟩

/-- The checks of an add look at nothing a mark writes. -/
theorem Unmoved.offsetOf {start index : Transactions A} (hunmoved : Unmoved start index)
    (tx : CompleteTransaction) :
    Transactions.offsetOf tx index = Transactions.offsetOf tx start := by
  rw [Transactions.offsetOf, Transactions.offsetOf, hunmoved.ready, hunmoved.base, hunmoved.max,
    hunmoved.count]

theorem offsetOf_ne_oom (tx : CompleteTransaction) (index : Transactions A) :
    Transactions.offsetOf tx index ≠ .error .outOfMemory := by
  rw [Transactions.offsetOf]
  split_ifs <;> intro hcode <;> cases hcode

/-- Refused room anywhere, an add can be repeated. -/
theorem add_resumable (tx : CompleteTransaction) :
    Resumable (fun _ : Transactions A => True) ArnmResult.outOfMemory (add tx) := by
  refine (Retryable.check fun index _ => offsetOf_ne_oom tx index).bindResumable fun offset => ?_
  refine Resumable.andThen ((mark_resumable tx).given fun index room hinv => ⟨trivial, ?_⟩)
    fun _ _ => nofun
  have hunmoved : Unmoved index (mark tx offset index room).2.1 :=
    mark_unmoved tx index index room (.refl index)
  rw [hunmoved.offsetOf]
  exact hinv.2

/-- Between two indices one transaction has been counted. -/
structure Moved (tx : CompleteTransaction) (before after : Transactions A) : Prop where
  placed : ∃ offset, offsetOf tx before = .ok offset
  ready : after.ready = before.ready
  base : after.baseTxNr = before.baseTxNr
  max : after.maxTxNr = tx.nr
  count : after.transactionCount = (before.transactionCount + 1) % 2 ^ 32
  min : after.minTxNr = if before.transactionCount = 0 then tx.nr else before.minTxNr
  firstDay : after.firstDay =
    if before.transactionCount = 0 then dayOfSecond tx.confirmedAt.seconds else before.firstDay

/-- An add that succeeds has counted the transaction. -/
theorem add_ok_moved {tx : CompleteTransaction} {index left : Transactions A} {room rest : Room}
    (hrun : add tx index room = (.ok (), left, rest)) : Moved tx index left := by
  obtain ⟨offset, same, _, hcheck, hrun⟩ := bind_ok.1 hrun
  obtain ⟨hoffset, rfl, rfl⟩ := check_ok.1 hcheck
  obtain ⟨_, marked, _, hmark, hcommit⟩ := bind_ok.1 hrun
  obtain ⟨rfl, -⟩ := write_ok.1 hcommit
  obtain ⟨_, noted, _, hday, hmark⟩ := bind_ok.1 hmark
  obtain ⟨_, opened, between, hopen, hmark⟩ := bind_ok.1 hmark
  obtain ⟨rfl, -⟩ := write_ok.1 hopen
  have hnoted : Unmoved index noted := by
    have hkept : Unmoved index (noteDay tx.confirmedAt.seconds offset index room).2.1 :=
      noteDay_unmoved _ index index room (.refl index)
    rwa [hday] at hkept
  have hdone := (noteDay_retryable _).settles trivial hday
  have hlasts : Lasts offset fun middle : Transactions A => Unmoved index middle ∧
      DayDone tx.confirmedAt.seconds offset middle ∧ OpenDone tx middle :=
    (lasts_unmoved index).and fun start middle honward hinv => ⟨honward.dayDone hinv.1,
      honward.openDone hinv.2⟩
  have hkept :=
    rest_keeps tx hlasts
      (fun middle hinv => ⟨⟨hinv.1.ready, hinv.1.base, hinv.1.max, hinv.1.count, hinv.1.min,
          hinv.1.firstDay⟩, hinv.2⟩) (openWith tx noted) between
      ⟨openWith_unmoved tx hnoted, hdone, fun hcount => ⟨if_pos hcount, if_pos hcount⟩⟩
  rw [hmark] at hkept
  obtain ⟨hunmoved, hdayDone, hopenDone⟩ := hkept
  refine ⟨⟨offset, hoffset⟩, hunmoved.ready, hunmoved.base, rfl, ?_, ?_, ?_⟩
  · rw [← hunmoved.count]
    rfl
  · change marked.minTxNr = _
    split
    · exact (hopenDone (hunmoved.count.trans ‹_›)).1
    · exact hunmoved.min ‹_›
  · change marked.firstDay = _
    split
    · exact hdayDone.1 (hunmoved.count.trans ‹_›)
    · exact hunmoved.firstDay ‹_›

/-- An add that fails has not moved the index. -/
theorem add_error_unmoved {tx : CompleteTransaction} {index left : Transactions A}
    {room rest : Room} {code : ArnmResult}
    (hrun : add tx index room = (.error code, left, rest)) : Unmoved index left := by
  rcases bind_error.1 hrun with hcheck | ⟨offset, same, _, hcheck, hrun⟩
  · obtain ⟨-, rfl, -⟩ := check_error.1 hcheck
    exact .refl _
  · obtain ⟨-, rfl, rfl⟩ := check_ok.1 hcheck
    rcases bind_error.1 hrun with hmark | ⟨_, marked, _, _, hcommit⟩
    · have hunmoved : Unmoved index (mark tx offset index room).2.1 :=
        mark_unmoved tx index index room (.refl index)
      rwa [hmark] at hunmoved
    · cases hcommit

end Whole

end Transactions

end GradidoBlockchain
