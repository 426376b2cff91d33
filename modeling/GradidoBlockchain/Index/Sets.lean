import GradidoBlockchain.Arnm.Whole
import GradidoBlockchain.Index.Refusals

/-!
# What the sets of an index agree on while one is written

An add writes to the sets one after the other and may be refused between any two of them, so that
the sets are ahead of the counters by the one transaction that is being added. What they agree on
all the while is followed through the steps, for a transaction with its offset; whether a step comes
to an end decides only what can be said of that offset.
-/

namespace GradidoBlockchain

open Fallible Fallible.Call

variable {A : Arnm} {tx : CompleteTransaction} {low k : Nat}

/-- The offsets from `low` on that have been counted, and the one at `k` that is being written. -/
def Within (low k offset : Nat) : Prop := offset = k ∨ low ≤ offset ∧ offset < k

theorem Within.le {offset : Nat} (hwithin : Within low k offset) : offset ≤ k := by
  obtain rfl | ⟨-, hlt⟩ := hwithin
  · exact Nat.le_refl _
  · exact Nat.le_of_lt hlt

/-! ### The sets of an address -/

/-- The three sets of a key, the transaction at `k` being written: nothing is beyond it, and the
third role is that of no signer and no balance. -/
structure AddressSets.Marking (tx : CompleteTransaction) (low k : Nat) (key : PublicKey)
    (sets : AddressSets A) : Prop where
  within : ∀ offset, sets.involves offset → Within low k offset
  apart : ∀ offset, A.contains sets.other offset = true →
    A.contains sets.signed offset = false ∧ A.contains sets.balance offset = false
  third : A.contains sets.other k = true → ¬ tx.SignedBy key ∧ ¬ tx.ListsBalance key

namespace AddressSets.Marking

variable {key : PublicKey} {sets : AddressSets A}

theorem contains_add_false {set : A.Bitmap} {offset : Nat} (hne : offset ≠ k)
    (h : A.contains set offset = false) : A.contains (A.add set k) offset = false := by
  rw [A.contains_add, h, decide_eq_false hne]
  rfl

theorem contains_add_cases {set : A.Bitmap} {offset : Nat}
    (h : A.contains (A.add set k) offset = true) : offset = k ∨ A.contains set offset = true := by
  rwa [A.contains_add, Bool.or_eq_true, decide_eq_true_eq] at h

/-- A signer is not in the third role. -/
theorem signed (hmarking : Marking tx low k key sets) (hsigner : tx.SignedBy key) :
    Marking tx low k key { sets with signed := A.add sets.signed k } := by
  refine ⟨fun offset h => ?_, fun offset h => ?_, hmarking.third⟩
  · obtain hbalance | hsigned | hother := h
    · exact hmarking.within offset (.inl hbalance)
    · obtain rfl | hbefore := contains_add_cases hsigned
      · exact .inl rfl
      · exact hmarking.within offset (.inr (.inl hbefore))
    · exact hmarking.within offset (.inr (.inr hother))
  · have hapart := hmarking.apart offset h
    refine ⟨contains_add_false (fun heq => ?_) hapart.1, hapart.2⟩
    exact (hmarking.third (heq ▸ h)).1 hsigner

theorem balance (hmarking : Marking tx low k key sets) (hlisted : tx.ListsBalance key) :
    Marking tx low k key { sets with balance := A.add sets.balance k } := by
  refine ⟨fun offset h => ?_, fun offset h => ?_, hmarking.third⟩
  · obtain hbalance | hsigned | hother := h
    · obtain rfl | hbefore := contains_add_cases hbalance
      · exact .inl rfl
      · exact hmarking.within offset (.inl hbefore)
    · exact hmarking.within offset (.inr (.inl hsigned))
    · exact hmarking.within offset (.inr (.inr hother))
  · have hapart := hmarking.apart offset h
    refine ⟨hapart.1, contains_add_false (fun heq => ?_) hapart.2⟩
    exact (hmarking.third (heq ▸ h)).2 hlisted

/-- Looking at the last element of two sets is enough: nothing is beyond the offset. -/
theorem setEndsAt_eq_contains {set : A.Bitmap}
    (hle : ∀ offset, A.contains set offset = true → offset ≤ k) :
    A.setEndsAt set k = A.contains set k := by
  rw [Bool.eq_iff_iff, A.setEndsAt_iff]
  exact and_iff_left_of_imp fun _ => hle

theorem other (hmarking : Marking tx low k key sets)
    (hsigners : tx.SignedBy key → A.contains sets.signed k = true)
    (hlisted : tx.ListsBalance key → A.contains sets.balance k = true)
    (hunmarked : ¬(A.setEndsAt sets.signed k || A.setEndsAt sets.balance k) = true) :
    Marking tx low k key { sets with other := A.add sets.other k } := by
  rw [setEndsAt_eq_contains fun offset h => (hmarking.within offset (.inr (.inl h))).le,
    setEndsAt_eq_contains fun offset h => (hmarking.within offset (.inl h)).le, Bool.or_eq_true,
    not_or, Bool.not_eq_true, Bool.not_eq_true] at hunmarked
  obtain ⟨hsigned, hbalance⟩ := hunmarked
  refine ⟨fun offset h => ?_, fun offset h => ?_, fun _ => ⟨fun hsigner => ?_, fun hlists => ?_⟩⟩
  · obtain hbalance | hsigned | hother := h
    · exact hmarking.within offset (.inl hbalance)
    · exact hmarking.within offset (.inr (.inl hsigned))
    · obtain rfl | hbefore := contains_add_cases hother
      · exact .inl rfl
      · exact hmarking.within offset (.inr (.inr hbefore))
  · obtain rfl | hbefore := contains_add_cases h
    · exact ⟨hsigned, hbalance⟩
    · exact hmarking.apart offset hbefore
  · rw [hsigners hsigner] at hsigned
    cases hsigned
  · rw [hlisted hlists] at hbalance
    cases hbalance

end AddressSets.Marking

namespace Transactions

/-! ### All sets -/

/-- The community of the chain, once the transaction has been let in. -/
def homeOf (tx : CompleteTransaction) (index : Transactions A) : Uuid :=
  if index.transactionCount = 0 then tx.txCommunityUuid else index.chainCommunityUuid

/-- What the sets agree on, the transaction at `k` being written. A coin is noted before the union
of the coins is, so that the union may lack this one offset. -/
structure Marking (tx : CompleteTransaction) (low k : Nat) (index : Transactions A) : Prop where
  addresses : index.addresses.Whole
  coins : index.coins.Whole
  sets : ∀ key, (index.addresses.read .blank key).Marking tx low k key
  coin_within : ∀ uuid offset, A.contains (index.coins.read A.blank uuid) offset = true →
    Within low k offset
  coin_of_foreign : ∀ offset, A.contains index.foreign offset = true →
    ∃ uuid, A.contains (index.coins.read A.blank uuid) offset = true
  foreign_of_coin : ∀ uuid offset, A.contains (index.coins.read A.blank uuid) offset = true →
    A.contains index.foreign offset = true ∨ offset = k ∧ tx.CarriesForeign (homeOf tx index)

namespace Marking

variable {index : Transactions A}

theorem putAddresses (hmarking : Marking tx low k index) {addresses : Keyed A 32 (AddressSets A)}
    (hwhole : addresses.Whole) (hsets : ∀ key, (addresses.read .blank key).Marking tx low k key) :
    Marking tx low k (index.putAddresses addresses) :=
  ⟨hwhole, hmarking.coins, hsets, hmarking.coin_within, hmarking.coin_of_foreign,
    hmarking.foreign_of_coin⟩

theorem markAddress (hmarking : Marking tx low k index) {key : PublicKey} {id : Nat}
    (hopen : index.addresses.OpenAt key id) {change : AddressSets A → AddressSets A}
    (hchange : (change (index.addresses.read .blank key)).Marking tx low k key) :
    Marking tx low k (index.markAddress id change) := by
  apply hmarking.putAddresses (hmarking.addresses.modify id change)
  intro other
  rw [Keyed.read_modify hopen.1 hopen.2]
  split
  · rename_i heq
    rw [heq]
    exact hchange
  · exact hmarking.sets other

end Marking

theorem setsForKey_marking (key : PublicKey) :
    Keeps (Marking tx low k) (setsForKey key : Call ArnmResult (Transactions A) Nat) := by
  intro index room hmarking
  have hreads :=
    Keyed.slotForKey_readsAs .blank key index.addresses index.addresses room
      ⟨hmarking.addresses, fun _ => rfl⟩
  apply hmarking.putAddresses hreads.1
  intro other
  rw [hreads.2]
  exact hmarking.sets other

theorem markKey_marking {key : PublicKey} {change : AddressSets A → AddressSets A}
    (hchange : key ≠ zeroBytes 32 →
      ∀ sets, AddressSets.Marking tx low k key sets →
        AddressSets.Marking tx low k key (change sets)) :
    Keeps (Marking tx low k) (markKey key change) := by
  rw [markKey]
  split
  · exact .pure ()
  · rename_i hempty
    have hkey : key ≠ zeroBytes 32 := isEmpty_eq_false_iff.1 (by simpa using hempty)
    refine (setsForKey_marking key).bindSettled
      (fun _ hrun => (setsForKey_retryable key).settles trivial hrun) ?_
    intro id index room hmarking hopen
    obtain hleft | hleft := grow_left ArnmResult.outOfMemory (markAddress id change) index room
    · rw [hleft]
      exact hmarking
    · rw [hleft]
      exact hmarking.markAddress hopen (hchange hkey _ (hmarking.sets key))

theorem noteSignature_marking {pair : SignaturePair} (hpair : pair ∈ tx.signaturePairs) :
    Keeps (Marking tx low k) (noteSignature k pair : Call ArnmResult (Transactions A) Unit) :=
  markKey_marking fun hkey _ hsets => hsets.signed ⟨hkey, pair, hpair, rfl⟩

theorem noteBalanceKey_marking {balance : AccountBalance}
    (hbalance : balance ∈ tx.accountBalances) :
    Keeps (Marking tx low k) (noteBalanceKey k balance : Call ArnmResult (Transactions A) Unit) :=
  markKey_marking fun hkey _ hsets => hsets.balance ⟨hkey, balance, hbalance, rfl⟩

/-! ### Coins -/

/-- The transaction has been let in: the community of the chain is its own if it is the first
one. -/
def Homed (tx : CompleteTransaction) (index : Transactions A) : Prop :=
  homeOf tx index = index.chainCommunityUuid

theorem Marking.markCoin {index : Transactions A} (hmarking : Marking tx low k index) {uuid : Uuid}
    {id : Nat} (hopen : index.coins.OpenAt uuid id)
    (hforeign : tx.CarriesForeign (homeOf tx index)) : Marking tx low k (index.markCoin id k) := by
  have hread : ∀ other, (index.markCoin id k).coins.read A.blank other =
      if other = uuid then A.add (index.coins.read A.blank uuid) k
        else index.coins.read A.blank other := fun other => Keyed.read_modify hopen.1 hopen.2 other
  have hcases : ∀ other offset, A.contains ((index.markCoin id k).coins.read A.blank other) offset =
        true → offset = k ∨ A.contains (index.coins.read A.blank other) offset = true := by
    intro other offset h
    rw [hread] at h
    split at h
    · rename_i heq
      rw [heq]
      exact AddressSets.Marking.contains_add_cases h
    · exact .inr h
  refine ⟨hmarking.addresses, hmarking.coins.modify id _, hmarking.sets, fun other offset h => ?_,
    fun offset h => ?_, fun other offset h => ?_⟩
  · obtain rfl | hbefore := hcases other offset h
    · exact .inl rfl
    · exact hmarking.coin_within other offset hbefore
  · obtain ⟨other, hother⟩ := hmarking.coin_of_foreign offset h
    refine ⟨other, ?_⟩
    rw [hread]
    split
    · rename_i heq
      rw [A.contains_add, ← heq, hother, Bool.or_true]
    · exact hother
  · obtain rfl | hbefore := hcases other offset h
    · exact .inr ⟨rfl, hforeign⟩
    · exact hmarking.foreign_of_coin other offset hbefore

theorem Marking.markForeign {index : Transactions A} (hmarking : Marking tx low k index)
    {uuid : Uuid} (hcoin : A.contains (index.coins.read A.blank uuid) k = true) :
    Marking tx low k (index.markForeign k) := by
  refine ⟨hmarking.addresses, hmarking.coins, hmarking.sets, hmarking.coin_within,
    fun offset h => ?_, fun other offset h => ?_⟩
  · obtain rfl | hbefore := AddressSets.Marking.contains_add_cases h
    · exact ⟨uuid, hcoin⟩
    · exact hmarking.coin_of_foreign offset hbefore
  · refine (hmarking.foreign_of_coin other offset h).imp_left fun hbefore => ?_
    change A.contains (A.add index.foreign k) offset = true
    rw [A.contains_add, hbefore, Bool.or_true]

theorem coinSetForUuid_marking (uuid : Uuid) :
    Keeps
      (fun index : Transactions A => Marking tx low k index ∧ tx.CarriesForeign (homeOf tx index))
      (coinSetForUuid uuid) := by
  intro index room hinv
  obtain ⟨hmarking, hforeign⟩ := hinv
  have hreads :=
    Keyed.slotForKey_readsAs A.blank uuid index.coins index.coins room
      ⟨hmarking.coins, fun _ => rfl⟩
  refine ⟨⟨hmarking.addresses, hreads.1, hmarking.sets, fun other offset h => ?_,
      fun offset h => ?_, fun other offset h => ?_⟩, hforeign⟩
  · exact hmarking.coin_within other offset (hreads.2 other ▸ h)
  · obtain ⟨other, hother⟩ := hmarking.coin_of_foreign offset h
    exact ⟨other, (hreads.2 other).symm ▸ hother⟩
  · exact hmarking.foreign_of_coin other offset (hreads.2 other ▸ h)

/-- Of a foreign coin and the union, only the union may lack the offset. -/
theorem noteForeign_marking (uuid : Uuid) :
    Keeps (fun index : Transactions A => Marking tx low k index ∧ tx.CarriesForeign (homeOf tx index)) (do
      let id ← coinSetForUuid uuid
      grow .outOfMemory (markCoin id k)
      grow .outOfMemory (markForeign k) : Call ArnmResult (Transactions A) Unit) := by
  refine (coinSetForUuid_marking uuid).bindSettled
    (fun _ hrun => (coinSetForUuid_retryable uuid).settles trivial hrun) ?_
  intro id index room hinv hopen
  obtain ⟨hmarking, hforeign⟩ := hinv
  rcases hcoin : grow ArnmResult.outOfMemory (markCoin id k) index room
    with ⟨code | _, middle, between⟩
  · rw [bind_run_error hcoin, (grow_error hcoin).2]
    exact ⟨hmarking, hforeign⟩
  rw [bind_run_ok hcoin, ← grow_ok hcoin]
  have hmarked := hmarking.markCoin hopen hforeign
  have hread : A.contains ((index.markCoin id k).coins.read A.blank uuid) k = true := by
    change A.contains ((index.coins.modify id _).read A.blank uuid) k = true
    rw [Keyed.read_modify hopen.1 hopen.2, if_pos rfl, A.contains_add, decide_eq_true rfl,
      Bool.true_or]
  obtain hleft | hleft :=
    grow_left ArnmResult.outOfMemory (markForeign k) (index.markCoin id k) between
  · rw [hleft]
    exact ⟨hmarked, hforeign⟩
  · rw [hleft]
    exact ⟨hmarked.markForeign hread, hforeign⟩

theorem noteBalanceCoin_marking {balance : AccountBalance} (hbalance : balance ∈ tx.accountBalances)
    {index : Transactions A} (hmarking : Marking tx low k index) (hhomed : Homed tx index)
    (room : Room) : Marking tx low k (noteBalanceCoin k balance index room).2.1 := by
  rw [noteBalanceCoin, bind_run_ok (gets_run _ _ _)]
  by_cases hown : balance.communityUuid = index.chainCommunityUuid
  · rw [if_pos hown]
    exact hmarking
  · rw [if_neg hown]
    exact (noteForeign_marking balance.communityUuid index room
      ⟨hmarking, balance, hbalance, hhomed.symm ▸ hown⟩).1

/-! ### Named keys -/

/-- Every signer has the offset in its set, and every key of a balance. -/
def RolesNoted (tx : CompleteTransaction) (k : Nat) (index : Transactions A) : Prop :=
  ∀ key, (tx.SignedBy key → A.contains (index.addresses.read .blank key).signed k = true) ∧
    (tx.ListsBalance key → A.contains (index.addresses.read .blank key).balance k = true)

theorem setsForKey_rolesNoted (key : PublicKey) :
    Keeps (fun index : Transactions A => Marking tx low k index ∧ RolesNoted tx k index)
      (setsForKey key) := by
  intro index room hinv
  have hreads :=
    Keyed.slotForKey_readsAs .blank key index.addresses index.addresses room
      ⟨hinv.1.addresses, fun _ => rfl⟩
  refine ⟨setsForKey_marking key index room hinv.1, fun other => ?_⟩
  change (_ →
      A.contains ((Keyed.slotForKey .blank key index.addresses room).2.1.read .blank other).signed
          k = true) ∧
    (_ →
      A.contains ((Keyed.slotForKey .blank key index.addresses room).2.1.read .blank other).balance
          k = true)
  rw [hreads.2]
  exact hinv.2 other

theorem noteNamed_marking (key : PublicKey) :
    Keeps (fun index : Transactions A => Marking tx low k index ∧ RolesNoted tx k index)
      (noteNamed k key) := by
  rw [noteNamed]
  split
  · exact .pure ()
  refine (setsForKey_rolesNoted key).bindSettled
    (fun _ hrun => (setsForKey_retryable key).settles trivial hrun) ?_
  intro id index room hinv hopen
  obtain ⟨hmarking, hnoted⟩ := hinv
  obtain ⟨sets, hget, hlookup⟩ := hopen.lookup
  have hread : index.addresses.read .blank key = sets := Keyed.read_of_lookup .blank hlookup
  rw [bind_run_ok (gets_run _ _ _), alreadyMarked_eq hget, ← hread]
  split
  · exact ⟨hmarking, hnoted⟩
  rename_i hunmarked
  obtain hleft | hleft :=
    grow_left ArnmResult.outOfMemory
      (markAddress id fun sets : AddressSets A => { sets with other := A.add sets.other k }) index
      room
  · rw [hleft]
    exact ⟨hmarking, hnoted⟩
  · rw [hleft]
    refine ⟨hmarking.markAddress hopen
        ((hmarking.sets key).other (hnoted key).1 (hnoted key).2 hunmarked), fun other => ?_⟩
    have hmodified : (index.markAddress id fun sets : AddressSets A => { sets with other := A.add sets.other k }).addresses.read .blank other =
        if other = key then { index.addresses.read .blank key with other := A.add (index.addresses.read .blank key).other k }
        else index.addresses.read .blank other := Keyed.read_modify hopen.1 hopen.2 other
    rw [hmodified]
    split
    · rename_i heq
      rw [heq]
      exact hnoted key
    · exact hnoted other

/-! ### The whole of the marks -/

/-- Only the day table may differ. -/
def SameButDay (before after : Transactions A) : Prop :=
  after = { before with firstDay := after.firstDay, dayMaxTx := after.dayMaxTx }

theorem noteDay_sameButDay (seconds : Int64) (start : Transactions A) :
    Keeps (SameButDay start) (noteDay seconds k) := by
  have hput : ∀ day table (index : Transactions A), SameButDay start index →
      SameButDay start { index with firstDay := day, dayMaxTx := table } := by
    intro day table index hsame
    rw [SameButDay] at hsame ⊢
    rw [hsame]
  refine .bind (.write fun index hsame => hput _ index.dayMaxTx index hsame) fun _ =>
    .bind (.check _) fun position =>
      .bind ?_ fun _ => .write fun index hsame => hput index.firstDay _ index hsame
  exact fun index room hsame => hput index.firstDay _ index hsame

/-- Marked up to the types, whose sets are as they were. -/
def MarkingSets (tx : CompleteTransaction) (low k : Nat)
    (types : Vector A.Bitmap TransactionType.count) (index : Transactions A) : Prop :=
  Marking tx low k index ∧ index.perType = types

theorem SameButDay.markingSets {types : Vector A.Bitmap TransactionType.count}
    {before after : Transactions A} (hsame : SameButDay before after)
    (hsets : MarkingSets tx low k types before) : MarkingSets tx low k types after := by
  obtain ⟨hmarking, htypes⟩ := hsets
  rw [SameButDay] at hsame
  rw [hsame]
  exact ⟨⟨hmarking.addresses, hmarking.coins, hmarking.sets, hmarking.coin_within,
      hmarking.coin_of_foreign, hmarking.foreign_of_coin⟩, htypes⟩

theorem noteDay_markingSets {types : Vector A.Bitmap TransactionType.count} (seconds : Int64) :
    Keeps (MarkingSets tx low k types)
      (noteDay seconds k : Call ArnmResult (Transactions A) Unit) :=
  .of_onward (noteDay_sameButDay seconds) (fun _ => rfl) fun _ _ hsame => hsame.markingSets

theorem homeOf_openWith (tx : CompleteTransaction) (index : Transactions A) :
    homeOf tx (openWith tx index) = homeOf tx index := by
  change (if index.transactionCount = 0 then _
      else if index.transactionCount = 0 then _ else index.chainCommunityUuid) =
    if index.transactionCount = 0 then _ else index.chainCommunityUuid
  split <;> rfl

theorem homed_openWith (tx : CompleteTransaction) (index : Transactions A) :
    Homed tx (openWith tx index) :=
  homeOf_openWith tx index

theorem Marking.openWith {index : Transactions A} (hmarking : Marking tx low k index) :
    Marking tx low k (Transactions.openWith tx index) := by
  refine ⟨hmarking.addresses, hmarking.coins, hmarking.sets, hmarking.coin_within,
    hmarking.coin_of_foreign, ?_⟩
  rw [homeOf_openWith]
  exact hmarking.foreign_of_coin

/-- Marking goes on with the transaction let in and the types as they were. -/
structure MarkingOn (tx : CompleteTransaction) (low k : Nat)
    (types : Vector A.Bitmap TransactionType.count) (index : Transactions A) : Prop where
  marking : Marking tx low k index
  homed : Homed tx index
  types : index.perType = types

variable {types : Vector A.Bitmap TransactionType.count}

/-- What the steps after the opening do not change. -/
theorem lasts_homed :
    Lasts k fun index : Transactions A => Homed tx index ∧ index.perType = types := by
  intro start index honward hinv
  rw [honward.same]
  exact hinv

theorem MarkingOn.step {call : Call ArnmResult (Transactions A) Unit}
    (honward : ∀ start, Keeps (Onward k start) call) {index : Transactions A} {room : Room}
    (hmarking : Marking tx low k (call index room).2.1) (hon : MarkingOn tx low k types index) :
    MarkingOn tx low k types (call index room).2.1 := by
  have hlasts : Keeps (fun index : Transactions A => Homed tx index ∧ index.perType = types) call :=
    lasts_homed.keeps honward
  obtain ⟨hhomed, htypes⟩ := hlasts index room ⟨hon.homed, hon.types⟩
  exact ⟨hmarking, hhomed, htypes⟩

theorem noteSignature_markingOn {pair : SignaturePair} (hpair : pair ∈ tx.signaturePairs) :
    Keeps (MarkingOn tx low k types)
      (noteSignature k pair : Call ArnmResult (Transactions A) Unit) :=
  fun index room hon =>
    hon.step (fun start => noteSignature_onward start pair)
      (noteSignature_marking hpair index room hon.marking)

theorem noteBalance_markingOn {balance : AccountBalance} (hbalance : balance ∈ tx.accountBalances) :
    Keeps (MarkingOn tx low k types)
      (noteBalance k balance : Call ArnmResult (Transactions A) Unit) := by
  apply Keeps.bind
  · exact fun index room hon =>
      hon.step (fun start => noteBalanceKey_onward start balance)
        (noteBalanceKey_marking hbalance index room hon.marking)
  · exact fun _ index room hon =>
      hon.step (fun start => noteBalanceCoin_onward start balance)
        (noteBalanceCoin_marking hbalance hon.marking hon.homed room)

theorem noteNamed_markingOn (key : PublicKey) :
    Keeps (fun index => MarkingOn tx low k types index ∧ RolesNoted tx k index)
      (noteNamed k key : Call ArnmResult (Transactions A) Unit) := by
  intro index room hinv
  obtain ⟨hmarking, hnoted⟩ := noteNamed_marking key index room ⟨hinv.1.marking, hinv.2⟩
  exact ⟨hinv.1.step (fun start => noteNamed_onward start key) hmarking, hnoted⟩

end Transactions

end GradidoBlockchain
