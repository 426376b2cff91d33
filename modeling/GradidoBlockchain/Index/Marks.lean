import GradidoBlockchain.Index.Transactions
import GradidoBlockchain.Ledger
import GradidoBlockchain.Lib.Outcome

/-!
# What adding a transaction writes

Read through the sets, one successful add puts the offset of the transaction into exactly the sets
the transaction belongs to and leaves every other number where it was. The loops are read one after
the other, each with the part of its list it has done.
-/

namespace GradidoBlockchain

open Fallible Fallible.Call

variable {A : Arnm}

/-- Whether one of the three sets of an address holds an offset. -/
def AddressSets.involves (sets : AddressSets A) (offset : Nat) : Prop :=
  A.contains sets.balance offset = true ∨ A.contains sets.signed offset = true ∨
    A.contains sets.other offset = true

namespace Transactions

/-- Between two tables of addresses, `offset` has been put where the three predicates say and
nothing else has changed. The third role is only known together with the other two. -/
structure AddressMarks (offset : Nat) (signed balance involved : PublicKey → Prop)
    (before after : Keyed A 32 (AddressSets A)) : Prop where
  dense : after.Dense
  signed : ∀ key other, A.contains (after.read .blank key).signed other = true ↔
    A.contains (before.read .blank key).signed other = true ∨ other = offset ∧ signed key
  balance : ∀ key other, A.contains (after.read .blank key).balance other = true ↔
    A.contains (before.read .blank key).balance other = true ∨ other = offset ∧ balance key
  involved : ∀ key other, (after.read .blank key).involves other ↔
    (before.read .blank key).involves other ∨ other = offset ∧ involved key

/-- The same for the sets of foreign coins and their union. -/
structure CoinMarks (offset : Nat) (coin : Uuid → Prop) (foreign : Prop)
    (before after : Transactions A) : Prop where
  dense : after.coins.Dense
  coin : ∀ uuid other, A.contains (after.coins.read A.blank uuid) other = true ↔
    A.contains (before.coins.read A.blank uuid) other = true ∨ other = offset ∧ coin uuid
  foreign : ∀ other, A.contains after.foreign other = true ↔
    A.contains before.foreign other = true ∨ other = offset ∧ foreign

/-- Only the sets of addresses and coins may differ. -/
def SameButSets (before after : Transactions A) : Prop :=
  after =
    { before with addresses := after.addresses, coins := after.coins, foreign := after.foreign }

theorem SameButSets.refl (index : Transactions A) : SameButSets index index := rfl

theorem SameButSets.trans {before middle after : Transactions A}
    (hfirst : SameButSets before middle) (hsecond : SameButSets middle after) :
    SameButSets before after := by
  rw [SameButSets] at *
  rw [hsecond, hfirst]

theorem AddressMarks.refl {offset : Nat} {before : Keyed A 32 (AddressSets A)}
    (hdense : before.Dense) :
    AddressMarks offset (fun _ => False) (fun _ => False) (fun _ => False) before before where
  dense := hdense
  signed := by simp
  balance := by simp
  involved := by simp

theorem CoinMarks.refl {offset : Nat} {before : Transactions A} (hdense : before.coins.Dense) :
    CoinMarks offset (fun _ => False) False before before where
  dense := hdense
  coin := by simp
  foreign := by simp

theorem AddressMarks.congr {offset : Nat}
    {signed balance involved signed' balance' involved' : PublicKey → Prop}
    {before after : Keyed A 32 (AddressSets A)}
    (hmarks : AddressMarks offset signed balance involved before after)
    (hsigned : ∀ key, signed key ↔ signed' key) (hbalance : ∀ key, balance key ↔ balance' key)
    (hinvolved : ∀ key, involved key ↔ involved' key) :
    AddressMarks offset signed' balance' involved' before after where
  dense := hmarks.dense
  signed := fun key other => by rw [hmarks.signed, hsigned]
  balance := fun key other => by rw [hmarks.balance, hbalance]
  involved := fun key other => by rw [hmarks.involved, hinvolved]

theorem CoinMarks.congr {offset : Nat} {coin coin' : Uuid → Prop} {foreign foreign' : Prop}
    {before after : Transactions A} (hmarks : CoinMarks offset coin foreign before after)
    (hcoin : ∀ uuid, coin uuid ↔ coin' uuid) (hforeign : foreign ↔ foreign') :
    CoinMarks offset coin' foreign' before after where
  dense := hmarks.dense
  coin := fun uuid other => by rw [hmarks.coin, hcoin]
  foreign := fun other => by rw [hmarks.foreign, hforeign]

theorem AddressMarks.trans {offset : Nat}
    {signed balance involved signed' balance' involved' : PublicKey → Prop}
    {before middle after : Keyed A 32 (AddressSets A)}
    (hfirst : AddressMarks offset signed balance involved before middle)
    (hsecond : AddressMarks offset signed' balance' involved' middle after) :
    AddressMarks offset (fun key => signed key ∨ signed' key)
      (fun key => balance key ∨ balance' key) (fun key => involved key ∨ involved' key) before
      after where
  dense := hsecond.dense
  signed := fun key other => by rw [hsecond.signed, hfirst.signed, or_assoc, ← and_or_left]
  balance := fun key other => by rw [hsecond.balance, hfirst.balance, or_assoc, ← and_or_left]
  involved := fun key other => by rw [hsecond.involved, hfirst.involved, or_assoc, ← and_or_left]

/-! ### Single steps -/

theorem setsForKey_ok {key : PublicKey} {index left : Transactions A} {room rest : Room} {id : Nat}
    (hrun : setsForKey key index room = (.ok id, left, rest)) (hdense : index.addresses.Dense) :
    left = index.putAddresses left.addresses ∧
      Keyed.Opened .blank key index.addresses id left.addresses := by
  obtain ⟨addresses, hslot, rfl⟩ := within_ok.1 hrun
  exact ⟨rfl, Keyed.slotForKey_ok hslot hdense⟩

theorem coinSetForUuid_ok {uuid : Uuid} {index left : Transactions A} {room rest : Room} {id : Nat}
    (hrun : coinSetForUuid uuid index room = (.ok id, left, rest)) (hdense : index.coins.Dense) :
    left = index.putCoins left.coins ∧ Keyed.Opened A.blank uuid index.coins id left.coins := by
  obtain ⟨coins, hslot, rfl⟩ := within_ok.1 hrun
  exact ⟨rfl, Keyed.slotForKey_ok hslot hdense⟩

theorem markKey_ok {key : PublicKey} {change : AddressSets A → AddressSets A}
    {index left : Transactions A} {room rest : Room}
    (hrun : markKey key change index room = (.ok (), left, rest)) (hdense : index.addresses.Dense) :
    left = index.putAddresses left.addresses ∧ left.addresses.Dense ∧
      ∀ other, left.addresses.read .blank other =
        if key ≠ zeroBytes 32 ∧ other = key then change (index.addresses.read .blank key)
          else index.addresses.read .blank other := by
  rw [markKey] at hrun
  split at hrun
  · rename_i hempty
    obtain ⟨-, rfl, -⟩ := pure_ok.1 hrun
    refine ⟨rfl, hdense, fun other => ?_⟩
    rw [if_neg fun h => h.1 (isEmpty_iff.1 hempty)]
  · rename_i hempty
    have hkey : key ≠ zeroBytes 32 := isEmpty_eq_false_iff.1 (by simpa using hempty)
    obtain ⟨id, middle, between, hslot, hgrow⟩ := bind_ok.1 hrun
    obtain ⟨hmiddle, hopened⟩ := setsForKey_ok hslot hdense
    have hleft := grow_ok hgrow
    subst hleft
    rw [hmiddle]
    refine ⟨rfl, Keyed.modify_dense hopened.dense, fun other => ?_⟩
    simp only [hkey, ne_eq, not_false_eq_true, true_and]
    exact hopened.read_modify change other

theorem alreadyMarked_eq {index : Transactions A} {id offset : Nat} {sets : AddressSets A}
    (hget : index.addresses.entries.get? id = some sets) :
    index.alreadyMarked id offset =
      (A.setEndsAt sets.signed offset || A.setEndsAt sets.balance offset) := by
  rw [alreadyMarked, hget]

theorem noteNamed_ok {offset : Nat} {key : PublicKey} {index left : Transactions A}
    {room rest : Room}
    (hrun : noteNamed offset key index room = (.ok (), left, rest)) (hdense : index.addresses.Dense)
      :
    left = index.putAddresses left.addresses ∧ left.addresses.Dense ∧
      ∀ other, left.addresses.read .blank other =
      if key ≠ zeroBytes 32 ∧ other = key ∧ ¬(A.setEndsAt (index.addresses.read .blank key).signed offset ||
        A.setEndsAt (index.addresses.read .blank key).balance offset)
      then { index.addresses.read .blank key with other := A.add (index.addresses.read .blank key).other offset }
      else index.addresses.read .blank other := by
  rw [noteNamed] at hrun
  split at hrun
  · rename_i hempty
    obtain ⟨-, rfl, -⟩ := pure_ok.1 hrun
    refine ⟨rfl, hdense, fun other => ?_⟩
    rw [if_neg fun h => h.1 (isEmpty_iff.1 hempty)]
  · rename_i hempty
    have hkey : key ≠ zeroBytes 32 := isEmpty_eq_false_iff.1 (by simpa using hempty)
    obtain ⟨id, middle, between, hslot, hrun⟩ := bind_ok.1 hrun
    obtain ⟨hmiddle, hopened⟩ := setsForKey_ok hslot hdense
    obtain ⟨marked, same, _, hgets, hrun⟩ := bind_ok.1 hrun
    obtain ⟨hmarked, rfl, -⟩ := gets_ok.1 hgets
    rw [alreadyMarked_eq hopened.entry] at hmarked
    rw [hmarked]
    cases marked with
    | true =>
        obtain ⟨-, rfl, -⟩ := pure_ok.1 hrun
        refine ⟨hmiddle, hopened.dense, fun other => ?_⟩
        rw [if_neg (by simp), hopened.read]
    | false =>
        have hleft := grow_ok hrun
        subst hleft
        rw [hmiddle]
        refine ⟨rfl, Keyed.modify_dense hopened.dense, fun other => ?_⟩
        simp only [hkey, ne_eq, not_false_eq_true, true_and, Bool.false_eq_true, and_true]
        exact hopened.read_modify _ other

theorem noteBalanceCoin_ok {offset : Nat} {balance : AccountBalance} {index left : Transactions A}
    {room rest : Room} (hrun : noteBalanceCoin offset balance index room = (.ok (), left, rest))
    (hdense : index.coins.Dense) :
    SameButSets index left ∧ left.addresses = index.addresses ∧
      CoinMarks offset
        (fun uuid =>
          balance.communityUuid ≠ index.chainCommunityUuid ∧ uuid = balance.communityUuid)
        (balance.communityUuid ≠ index.chainCommunityUuid) index left := by
  obtain ⟨home, same, _, hgets, hrun⟩ := bind_ok.1 hrun
  obtain ⟨rfl, rfl, -⟩ := gets_ok.1 hgets
  split at hrun
  · rename_i hhome
    obtain ⟨-, rfl, -⟩ := pure_ok.1 hrun
    refine ⟨.refl index, rfl, (CoinMarks.refl hdense).congr ?_ ?_⟩
    · simp [hhome]
    · simp [hhome]
  · rename_i hhome
    obtain ⟨id, middle, between, hslot, hrun⟩ := bind_ok.1 hrun
    obtain ⟨hmiddle, hopened⟩ := coinSetForUuid_ok hslot hdense
    obtain ⟨_, coined, _, hcoin, hforeign⟩ := bind_ok.1 hrun
    have hcoined := grow_ok hcoin
    have hleft := grow_ok hforeign
    subst hcoined hleft
    rw [hmiddle]
    refine ⟨rfl, rfl, Keyed.modify_dense hopened.dense, fun uuid other => ?_, fun other => ?_⟩
    · change A.contains ((middle.coins.modify id _).read A.blank uuid) other = true ↔ _
      rw [hopened.read_modify]
      by_cases huuid : uuid = balance.communityUuid
      · rw [if_pos huuid, A.contains_add]
        simp [huuid, hhome, or_comm]
      · simp [huuid]
    · change A.contains (A.add index.foreign offset) other = true ↔ _
      rw [A.contains_add]
      simp [hhome, or_comm]

/-! ### Steps as marks -/

private theorem contains_add_iff {set : A.Bitmap} {offset other : Nat} :
    A.contains (A.add set offset) other = true ↔ A.contains set other = true ∨ other = offset := by
  rw [A.contains_add, Bool.or_eq_true, decide_eq_true_eq, or_comm]

private theorem involves_signed {sets : AddressSets A} {offset other : Nat} :
    AddressSets.involves { sets with signed := A.add sets.signed offset } other ↔
      sets.involves other ∨ other = offset := by
  simp only [AddressSets.involves, A.contains_add, Bool.or_eq_true, decide_eq_true_eq]
  tauto

private theorem involves_balance {sets : AddressSets A} {offset other : Nat} :
    AddressSets.involves { sets with balance := A.add sets.balance offset } other ↔
      sets.involves other ∨ other = offset := by
  simp only [AddressSets.involves, A.contains_add, Bool.or_eq_true, decide_eq_true_eq]
  tauto

private theorem involves_other {sets : AddressSets A} {offset other : Nat} :
    AddressSets.involves { sets with other := A.add sets.other offset } other ↔
      sets.involves other ∨ other = offset := by
  simp only [AddressSets.involves, A.contains_add, Bool.or_eq_true, decide_eq_true_eq]
  tauto

/-- A set that ends at an offset holds it, so a key that is already marked is already involved. -/
private theorem involves_of_marked {sets : AddressSets A} {offset : Nat}
    (hmarked : (A.setEndsAt sets.signed offset || A.setEndsAt sets.balance offset) =
      true) : sets.involves offset := by
  rw [Bool.or_eq_true] at hmarked
  rcases hmarked with hsigned | hbalance
  · exact .inr (.inl (A.setEndsAt_iff.1 hsigned).1)
  · exact .inl (A.setEndsAt_iff.1 hbalance).1

section Steps

variable {offset : Nat} {signed balance involved : PublicKey → Prop}
  {before : Keyed A 32 (AddressSets A)} {index left : Transactions A} {room rest : Room}

/-- A change that adds the offset to what is seen of some sets adds it for the key whose
sets are changed. -/
private theorem seen_of_added (seen : AddressSets A → Nat → Prop)
    (change : AddressSets A → AddressSets A) {marked : PublicKey → Prop}
    {after : Keyed A 32 (AddressSets A)} {name : PublicKey}
    (hadds : ∀ sets other, seen (change sets) other ↔ seen sets other ∨ other = offset)
    (hmarked : ∀ key other, seen (index.addresses.read .blank key) other ↔
      seen (before.read .blank key) other ∨ other = offset ∧ marked key)
    (hread : ∀ key, after.read .blank key =
      if name ≠ zeroBytes 32 ∧ key = name then change (index.addresses.read .blank name)
        else index.addresses.read .blank key) (key : PublicKey) (other : Nat) :
    seen (after.read .blank key) other ↔
      seen (before.read .blank key) other ∨
        other = offset ∧ (marked key ∨ key ≠ zeroBytes 32 ∧ name = key) := by
  rw [hread]
  by_cases hkey : name ≠ zeroBytes 32 ∧ key = name
  · obtain ⟨hne, rfl⟩ := hkey
    rw [if_pos ⟨hne, rfl⟩, hadds, hmarked]
    have hnamed : key ≠ zeroBytes 32 ∧ key = key := ⟨hne, rfl⟩
    tauto
  · have hnot : ¬(key ≠ zeroBytes 32 ∧ name = key) := fun h => hkey ⟨h.2 ▸ h.1, h.2.symm⟩
    rw [if_neg hkey, hmarked, or_iff_left hnot]

/-- A change that keeps what is seen of some sets keeps what has been marked. -/
private theorem seen_of_kept (seen : AddressSets A → Nat → Prop)
    (change : AddressSets A → AddressSets A) {marked changed : PublicKey → Prop}
    [DecidablePred changed] {after : Keyed A 32 (AddressSets A)} {name : PublicKey}
    (hname : ∀ key, changed key → key = name)
    (hkeeps : ∀ sets other, seen (change sets) other ↔ seen sets other)
    (hmarked : ∀ key other, seen (index.addresses.read .blank key) other ↔
      seen (before.read .blank key) other ∨ other = offset ∧ marked key)
    (hread : ∀ key, after.read .blank key =
      if changed key then change (index.addresses.read .blank name)
        else index.addresses.read .blank key) (key : PublicKey) (other : Nat) :
    seen (after.read .blank key) other ↔
      seen (before.read .blank key) other ∨ other = offset ∧ marked key := by
  rw [hread]
  by_cases hkey : changed key
  · rw [if_pos hkey, hkeeps, ← hname key hkey, hmarked]
  · rw [if_neg hkey, hmarked]

theorem noteSignature_marks {pair : SignaturePair}
    (hmarks : AddressMarks offset signed balance involved before index.addresses)
    (hrun : noteSignature offset pair index room = (.ok (), left, rest)) :
    left = index.putAddresses left.addresses ∧
      AddressMarks offset (fun key => signed key ∨ key ≠ zeroBytes 32 ∧ pair.publicKey = key)
        balance (fun key => involved key ∨ key ≠ zeroBytes 32 ∧ pair.publicKey = key) before
        left.addresses := by
  obtain ⟨hleft, hdense, hread⟩ := markKey_ok hrun hmarks.dense
  let change : AddressSets A → AddressSets A :=
    fun sets => { sets with signed := A.add sets.signed offset }
  refine ⟨hleft, hdense, ?_, ?_, ?_⟩
  · exact seen_of_added (fun sets other => A.contains sets.signed other = true) change (fun _ _ =>
      contains_add_iff) hmarks.signed hread
  · exact seen_of_kept (fun sets other => A.contains sets.balance other = true) change (fun _ h => h.2) (fun _ _ => Iff.rfl) hmarks.balance hread
  · exact seen_of_added AddressSets.involves change (fun _ _ => involves_signed) hmarks.involved
      hread

theorem noteBalanceKey_marks {entry : AccountBalance}
    (hmarks : AddressMarks offset signed balance involved before index.addresses)
    (hrun : noteBalanceKey offset entry index room = (.ok (), left, rest)) :
    left = index.putAddresses left.addresses ∧
      AddressMarks offset signed (fun key => balance key ∨ key ≠ zeroBytes 32 ∧ entry.pubkey = key)
        (fun key => involved key ∨ key ≠ zeroBytes 32 ∧ entry.pubkey = key) before
        left.addresses := by
  obtain ⟨hleft, hdense, hread⟩ := markKey_ok hrun hmarks.dense
  let change : AddressSets A → AddressSets A :=
    fun sets => { sets with balance := A.add sets.balance offset }
  refine ⟨hleft, hdense, ?_, ?_, ?_⟩
  · exact seen_of_kept (fun sets other => A.contains sets.signed other = true) change (fun _ h => h.2) (fun _ _ => Iff.rfl) hmarks.signed hread
  · exact seen_of_added (fun sets other => A.contains sets.balance other = true) change (fun _ _ =>
      contains_add_iff) hmarks.balance hread
  · exact seen_of_added AddressSets.involves change (fun _ _ => involves_balance) hmarks.involved
      hread

theorem noteNamed_marks {name : PublicKey}
    (hmarks : AddressMarks offset signed balance involved before index.addresses)
    (hrun : noteNamed offset name index room = (.ok (), left, rest)) :
    left = index.putAddresses left.addresses ∧
      AddressMarks offset signed balance (fun key => involved key ∨ key ≠ zeroBytes 32 ∧ name = key)
        before left.addresses := by
  obtain ⟨hleft, hdense, hread⟩ := noteNamed_ok hrun hmarks.dense
  let change : AddressSets A → AddressSets A :=
    fun sets => { sets with other := A.add sets.other offset }
  refine ⟨hleft, hdense, ?_, ?_, fun key other => ?_⟩
  · exact seen_of_kept (fun sets other => A.contains sets.signed other = true) change (fun _ h => h.2.1) (fun _ _ => Iff.rfl) hmarks.signed hread
  · exact seen_of_kept (fun sets other => A.contains sets.balance other = true) change (fun _ h => h.2.1) (fun _ _ => Iff.rfl) hmarks.balance hread
  by_cases hmarked : (A.setEndsAt (index.addresses.read .blank name).signed offset ||
      A.setEndsAt (index.addresses.read .blank name).balance offset) = true
  · -- Left out of the third set, the key is in one of the other two.
    have hinvolved := (hmarks.involved name offset).1 (involves_of_marked hmarked)
    rw [hread, if_neg fun h => h.2.2 hmarked, hmarks.involved]
    constructor
    · rintro (h | h)
      · exact .inl h
      · exact .inr ⟨h.1, .inl h.2⟩
    · rintro (h | ⟨rfl, h | ⟨-, rfl⟩⟩)
      · exact .inl h
      · exact .inr ⟨rfl, h⟩
      · exact hinvolved
  · have hreads : ∀ key, left.addresses.read .blank key =
        if name ≠ zeroBytes 32 ∧ key = name then change (index.addresses.read .blank name)
          else index.addresses.read .blank key := by
      intro key
      rw [hread]
      exact if_congr (and_congr_right' (and_iff_left hmarked)) rfl rfl
    exact seen_of_added AddressSets.involves change (fun _ _ => involves_other) hmarks.involved
      hreads key other

end Steps

/-! ### Loops -/

section Loops

variable {offset : Nat} {index left : Transactions A} {room rest : Room}

theorem signatures_marks {pairs : List SignaturePair} (hdense : index.addresses.Dense)
    (hrun : pairs.forM (noteSignature offset) index room = (.ok (), left, rest)) :
    left = index.putAddresses left.addresses ∧
      AddressMarks offset (fun key => key ≠ zeroBytes 32 ∧ ∃ pair ∈ pairs, pair.publicKey = key)
        (fun _ => False) (fun key => key ≠ zeroBytes 32 ∧ ∃ pair ∈ pairs, pair.publicKey = key)
        index.addresses left.addresses := by
  refine forM_ok
    (fun done middle =>
      middle = index.putAddresses middle.addresses ∧
        AddressMarks offset (fun key => key ≠ zeroBytes 32 ∧ ∃ pair ∈ done, pair.publicKey = key)
          (fun _ => False) (fun key => key ≠ zeroBytes 32 ∧ ∃ pair ∈ done, pair.publicKey = key)
          index.addresses middle.addresses) ?_ ?_ hrun
  · exact ⟨rfl, (AddressMarks.refl hdense).congr (by simp) (by simp) (by simp)⟩
  · rintro done pair _ middle state room rest - ⟨hstate, hmarks⟩ hround
    obtain ⟨hmiddle, hmarked⟩ := noteSignature_marks hmarks hround
    refine ⟨by rw [hmiddle, hstate]; rfl, hmarked.congr ?_ (by simp) ?_⟩ <;>
    · intro key
      simp only [List.mem_append, List.mem_singleton, or_and_right, exists_or, exists_eq_left]
      exact and_or_left.symm

theorem balances_marks {balances : List AccountBalance} (hdense : index.addresses.Dense)
    (hcoins : index.coins.Dense)
    (hrun : balances.forM (noteBalance offset) index room = (.ok (), left, rest)) :
    SameButSets index left ∧
      AddressMarks offset (fun _ => False)
        (fun key => key ≠ zeroBytes 32 ∧ ∃ balance ∈ balances, balance.pubkey = key)
        (fun key => key ≠ zeroBytes 32 ∧ ∃ balance ∈ balances, balance.pubkey = key) index.addresses
        left.addresses ∧
      CoinMarks offset
        (fun uuid =>
          uuid ≠ index.chainCommunityUuid ∧ ∃ balance ∈ balances, balance.communityUuid = uuid)
        (∃ balance ∈ balances, balance.communityUuid ≠ index.chainCommunityUuid) index left := by
  refine forM_ok
    (fun done middle =>
      SameButSets index middle ∧
        AddressMarks offset (fun _ => False)
          (fun key => key ≠ zeroBytes 32 ∧ ∃ balance ∈ done, balance.pubkey = key)
          (fun key => key ≠ zeroBytes 32 ∧ ∃ balance ∈ done, balance.pubkey = key) index.addresses
          middle.addresses ∧
        CoinMarks offset
          (fun uuid =>
            uuid ≠ index.chainCommunityUuid ∧ ∃ balance ∈ done, balance.communityUuid = uuid)
          (∃ balance ∈ done, balance.communityUuid ≠ index.chainCommunityUuid) index middle) ?_ ?_
    hrun
  · exact ⟨.refl index, (AddressMarks.refl hdense).congr (by simp) (by simp) (by simp),
      (CoinMarks.refl hcoins).congr (by simp) (by simp)⟩
  · rintro done balance _ middle state room rest - ⟨hstate, hmarks, hcoined⟩ hround
    obtain ⟨_, keyed, _, hkey, hcoin⟩ := bind_ok.1 hround
    obtain ⟨hkeyed, hkeyMarks⟩ := noteBalanceKey_marks hmarks hkey
    have hkeyedCoins : keyed.coins = state.coins := by rw [hkeyed]; rfl
    have hkeyedForeign : keyed.foreign = state.foreign := by rw [hkeyed]; rfl
    have hkeyedSame : SameButSets index keyed := hstate.trans (by rw [SameButSets, hkeyed]; rfl)
    have hhome : keyed.chainCommunityUuid = index.chainCommunityUuid := by rw [hkeyedSame]
    obtain ⟨hcoinSame, haddresses, hcoinMarks⟩ :=
      noteBalanceCoin_ok hcoin (by rw [hkeyedCoins]; exact hcoined.dense)
    refine ⟨hkeyedSame.trans hcoinSame, ?_, hcoinMarks.dense, fun uuid other => ?_, fun other => ?_⟩
    · rw [haddresses]
      refine hkeyMarks.congr (by simp) ?_ ?_ <;>
      · intro key
        simp only [List.mem_append, List.mem_singleton, or_and_right, exists_or, exists_eq_left]
        exact and_or_left.symm
    · rw [hcoinMarks.coin, hkeyedCoins, hcoined.coin, hhome]
      simp only [List.mem_append, List.mem_singleton, or_and_right, exists_or, exists_eq_left]
      constructor
      · rintro ((h | ⟨h, hne, hmem⟩) | ⟨h, hne, rfl⟩)
        · exact .inl h
        · exact .inr ⟨h, hne, .inl hmem⟩
        · exact .inr ⟨h, hne, .inr rfl⟩
      · rintro (h | ⟨h, hne, hmem | rfl⟩)
        · exact .inl (.inl h)
        · exact .inl (.inr ⟨h, hne, hmem⟩)
        · exact .inr ⟨h, hne, rfl⟩
    · rw [hcoinMarks.foreign, hkeyedForeign, hcoined.foreign, hhome]
      simp only [List.mem_append, List.mem_singleton, or_and_right, exists_or, exists_eq_left]
      rw [or_assoc, ← and_or_left]

theorem named_marks {names : List PublicKey} {signed balance involved : PublicKey → Prop}
    {before : Keyed A 32 (AddressSets A)}
    (hbefore : AddressMarks offset signed balance involved before index.addresses)
    (hrun : names.forM (noteNamed offset) index room = (.ok (), left, rest)) :
    left = index.putAddresses left.addresses ∧
      AddressMarks offset signed balance
        (fun key => involved key ∨ key ≠ zeroBytes 32 ∧ key ∈ names) before left.addresses := by
  refine forM_ok
    (fun done middle =>
      middle = index.putAddresses middle.addresses ∧
        AddressMarks offset signed balance
          (fun key => involved key ∨ key ≠ zeroBytes 32 ∧ key ∈ done) before middle.addresses) ?_ ?_
    hrun
  · exact ⟨rfl, hbefore.congr (by simp) (by simp) (by simp)⟩
  · rintro done name _ middle state room rest - ⟨hstate, hmarks⟩ hround
    obtain ⟨hmiddle, hmarked⟩ := noteNamed_marks hmarks hround
    refine ⟨by rw [hmiddle, hstate]; rfl, hmarked.congr (by simp) (by simp) fun key => ?_⟩
    simp only [List.mem_append, List.mem_singleton, eq_comm (a := key)]
    tauto

end Loops

/-! ### The day -/

/-- Between two indices a day has been noted for an offset. -/
structure NotedDay (day : Int) (offset : Nat) (before after : Transactions A) : Prop where
  same : after = { before with firstDay := after.firstDay, dayMaxTx := after.dayMaxTx }
  firstDay : after.firstDay = if before.transactionCount = 0 then day else before.firstDay
  slots : ∃ position : Nat, day - after.firstDay = position ∧ position ≤ uint32Max ∧
    position < after.dayMaxTx.size ∧ before.dayMaxTx.size ≤ after.dayMaxTx.size ∧
    ∀ other, after.daySlot other =
      if other = position then raise offset (before.daySlot other) else before.daySlot other

theorem dayIndex_ok {day : Int} {index : Transactions A} {position : Nat}
    (hrun : dayIndex day index = .ok position) :
    day - index.firstDay = position ∧ position ≤ uint32Max := by
  rw [dayIndex, Outcome.guard_ok, Outcome.guard_ok] at hrun
  obtain ⟨hfirst, hfar, hrun⟩ := hrun
  cases hrun
  omega

private theorem getD_append_replicate {vec : Bvec Nat} (count position : Nat) :
    ((vec.append (List.replicate count 0)).get? position).getD 0 = (vec.get? position).getD 0 := by
  by_cases hlt : position < vec.size
  · rw [Bvec.get?_append_left hlt]
  · have hnone : vec.get? position = none := Bvec.get?_eq_none (by omega)
    rw [hnone, Bvec.get?, Bvec.append, List.getElem?_append_right (by rw [Bvec.size] at hlt; omega),
      List.take_replicate, List.getElem?_replicate]
    split <;> rfl

private theorem getD_modify {vec : Bvec Nat} {position : Nat} (hlt : position < vec.size)
    (change : Nat → Nat) (other : Nat) :
    ((vec.modify position change).get? other).getD 0 =
      if other = position then change ((vec.get? other).getD 0) else (vec.get? other).getD 0 := by
  rw [Bvec.get?_modify]
  by_cases heq : other = position
  · subst heq
    obtain ⟨noted, hnoted⟩ := Bvec.get?_isSome hlt
    rw [if_pos rfl, if_pos rfl, hnoted]
    rfl
  · rw [if_neg heq, if_neg (Ne.symm heq)]

theorem noteDay_ok {seconds : Int64} {offset : Nat} {index left : Transactions A} {room rest : Room}
    (hrun : noteDay seconds offset index room = (.ok (), left, rest)) :
    NotedDay (dayOfSecond seconds) offset index left := by
  obtain ⟨_, dated, _, hdate, hrun⟩ := bind_ok.1 hrun
  obtain ⟨rfl, -⟩ := write_ok.1 hdate
  obtain ⟨position, same, _, hcheck, hrun⟩ := bind_ok.1 hrun
  obtain ⟨hposition, rfl, -⟩ := check_ok.1 hcheck
  obtain ⟨hday, hbound⟩ := dayIndex_ok hposition
  obtain ⟨_, grown, _, hgrow, hraise⟩ := bind_ok.1 hrun
  obtain ⟨table, htable, rfl⟩ := within_ok.1 hgrow
  obtain ⟨hlt, rfl⟩ := Bvec.growPast_ok htable
  obtain ⟨rfl, -⟩ := write_ok.1 hraise
  refine ⟨rfl, rfl, position, hday, hbound, ?_, ?_, fun other => ?_⟩
  · change position < (Bvec.modify _ position _).size
    rw [Bvec.size_modify]
    exact hlt
  · change index.dayMaxTx.size ≤ (Bvec.modify _ position _).size
    rw [Bvec.size_modify]
    change index.dayMaxTx.size ≤ (index.dayMaxTx.append _).size
    simp only [Bvec.size, Bvec.append, List.length_append]
    omega
  · refine (getD_modify hlt (raise offset) other).trans ?_
    have hbefore : ((index.dayMaxTx.append
          (List.replicate (position + 1 - index.dayMaxTx.size) 0)).get? other).getD 0 =
        index.daySlot other := getD_append_replicate _ other
    rw [← hbefore]
    rfl

/-! ### The whole -/

/-- Between two indices one transaction has been added. -/
structure Added (tx : CompleteTransaction) (before after : Transactions A) : Prop where
  placed : offsetOf tx before = .ok (tx.nr - before.baseTxNr)
  ready : after.ready = true
  base : after.baseTxNr = before.baseTxNr
  min : after.minTxNr = if before.transactionCount = 0 then tx.nr else before.minTxNr
  max : after.maxTxNr = tx.nr
  count : after.transactionCount = (before.transactionCount + 1) % 2 ^ 32
  home : after.chainCommunityUuid =
    if before.transactionCount = 0 then tx.txCommunityUuid else before.chainCommunityUuid
  day : ∃ noted, NotedDay (dayOfSecond tx.confirmedAt.seconds) (tx.nr - before.baseTxNr) before
      noted ∧ after.firstDay = noted.firstDay ∧ after.dayMaxTx = noted.dayMaxTx
  addresses : AddressMarks (tx.nr - before.baseTxNr) tx.SignedBy tx.ListsBalance tx.Involves
    before.addresses after.addresses
  coins : CoinMarks (tx.nr - before.baseTxNr)
    (fun uuid => uuid ≠ after.chainCommunityUuid ∧ tx.CarriesCoin uuid)
    (tx.CarriesForeign after.chainCommunityUuid) before after
  types : ∀ type other, A.contains (after.typeSet type) other = true ↔
    A.contains (before.typeSet type) other = true ∨
      other = tx.nr - before.baseTxNr ∧ type = tx.transactionType

theorem offsetOf_ok {tx : CompleteTransaction} {index : Transactions A} {offset : Nat}
    (hoffset : offsetOf tx index = .ok offset) :
    index.ready = true ∧ index.baseTxNr ≤ tx.nr ∧
      (index.transactionCount ≠ 0 → tx.nr = (index.maxTxNr + 1) % 2 ^ 64) ∧
      tx.nr - index.baseTxNr ≤ uint32Max ∧ tx.transactionType.code < TransactionType.count ∧
      offset = tx.nr - index.baseTxNr := by
  rw [offsetOf, Outcome.guard_ok, Outcome.guard_ok, Outcome.guard_ok, Outcome.guard_ok,
    Outcome.guard_ok] at hoffset
  obtain ⟨hready, hbase, hnext, hfar, htype, hoffset⟩ := hoffset
  cases hoffset
  refine ⟨by simpa using hready, by omega, fun hcount => ?_, by omega, by omega, rfl⟩
  by_contra hne
  exact hnext ⟨hcount, hne⟩

theorem bodyNames_iff {tx : CompleteTransaction} {key : PublicKey} :
    tx.BodyNames key ↔ key ≠ zeroBytes 32 ∧ key ∈ named tx := by
  cases htype : tx.transactionType <;> simp [CompleteTransaction.BodyNames, named, htype]

theorem typeSet_markType {type : TransactionType} {offset : Nat} {index : Transactions A}
    (hknown : type.code < TransactionType.count) (other : TransactionType) :
    (index.markType type offset).typeSet other =
      if other = type then A.add (index.typeSet type) offset else index.typeSet other := by
  rw [typeSet, markType]
  by_cases heq : other = type
  · subst heq
    rw [if_pos rfl, Vector.getElem?_setIfInBounds_self_of_lt hknown]
    rfl
  · rw [if_neg heq,
      Vector.getElem?_setIfInBounds_ne
        (fun hcode => heq (TransactionType.code_injective hcode).symm)]
    rfl

theorem add_ok {tx : CompleteTransaction} {index left : Transactions A} {room rest : Room}
    (hrun : add tx index room = (.ok (), left, rest)) (haddresses : index.addresses.Dense)
    (hcoins : index.coins.Dense) : Added tx index left := by
  obtain ⟨offset, same, _, hcheck, hrun⟩ := bind_ok.1 hrun
  obtain ⟨hoffset, rfl, -⟩ := check_ok.1 hcheck
  obtain ⟨hready, -, -, -, htype, rfl⟩ := offsetOf_ok hoffset
  obtain ⟨_, marked, _, hmark, hcommit⟩ := bind_ok.1 hrun
  obtain ⟨rfl, -⟩ := write_ok.1 hcommit
  obtain ⟨_, noted, _, hday, hmark⟩ := bind_ok.1 hmark
  obtain ⟨_, opened, _, hopen, hmark⟩ := bind_ok.1 hmark
  obtain ⟨hopened, -⟩ := write_ok.1 hopen
  obtain ⟨_, signed, _, hsigned, hmark⟩ := bind_ok.1 hmark
  obtain ⟨_, balanced, _, hbalanced, hmark⟩ := bind_ok.1 hmark
  obtain ⟨_, names, _, hnames, htypes⟩ := bind_ok.1 hmark
  have htyped := grow_ok htypes
  have hnoted := noteDay_ok hday
  have hcount : noted.transactionCount = index.transactionCount := by rw [hnoted.same]
  have hnotedAddresses : noted.addresses = index.addresses := by rw [hnoted.same]
  have hnotedCoins : noted.coins = index.coins := by rw [hnoted.same]
  subst hopened
  obtain ⟨hsignedSame, hsignedMarks⟩ :=
    signatures_marks (by rw [openWith, hnotedAddresses]; exact haddresses) hsigned
  obtain ⟨hbalancedSame, hbalancedMarks, hcoinMarks⟩ := balances_marks hsignedMarks.dense
    (by rw [hsignedSame]; change noted.coins.Dense; rw [hnotedCoins]; exact hcoins) hbalanced
  obtain ⟨hnamesSame, hnamesMarks⟩ := named_marks (hsignedMarks.trans hbalancedMarks) hnames
  have hsame : SameButSets (openWith tx noted) names := by
    have hfirst : SameButSets (openWith tx noted) signed := by
      rw [SameButSets, hsignedSame]
      rfl
    refine hfirst.trans (hbalancedSame.trans ?_)
    rw [SameButSets, hnamesSame]
    rfl
  have hhome : names.chainCommunityUuid = (openWith tx noted).chainCommunityUuid := by rw [hsame]
  have hsignedHome : signed.chainCommunityUuid = names.chainCommunityUuid := by
    rw [hhome, hsignedSame]; rfl
  subst htyped
  refine ⟨hoffset, ?_, ?_, ?_, rfl, ?_, ?_, ⟨noted, hnoted, ?_, ?_⟩, ?_,
    ⟨?_, fun uuid other => ?_, fun other => ?_⟩, fun type other => ?_⟩
  · change names.ready = true
    rw [hsame, openWith, hnoted.same]
    exact hready
  · change names.baseTxNr = index.baseTxNr
    rw [hsame, openWith, hnoted.same]
  · change names.minTxNr = _
    rw [hsame, openWith, hnoted.same]
  · change (names.transactionCount + 1) % 2 ^ 32 = _
    rw [hsame, openWith, hcount]
  · change names.chainCommunityUuid = _
    rw [hsame, openWith, hnoted.same]
  · change names.firstDay = noted.firstDay
    rw [hsame, openWith]
  · change names.dayMaxTx = noted.dayMaxTx
    rw [hsame, openWith]
  · change AddressMarks _ _ _ _ index.addresses names.addresses
    rw [← hnotedAddresses]
    refine hnamesMarks.congr ?_ ?_ ?_ <;> intro key
    · simp [CompleteTransaction.SignedBy]
    · simp [CompleteTransaction.ListsBalance]
    · rw [CompleteTransaction.Involves, CompleteTransaction.SignedBy,
        CompleteTransaction.ListsBalance, bodyNames_iff, or_assoc]
  · change names.coins.Dense
    rw [hnamesSame]
    exact hcoinMarks.dense
  · change A.contains (names.coins.read A.blank uuid) other = true ↔
      A.contains (index.coins.read A.blank uuid) other = true ∨
        other = tx.nr - index.baseTxNr ∧ uuid ≠ names.chainCommunityUuid ∧ tx.CarriesCoin uuid
    rw [← hsignedHome, hnamesSame]
    refine (hcoinMarks.coin uuid other).trans ?_
    rw [hsignedSame, ← hnotedCoins]
    rfl
  · change A.contains names.foreign other = true ↔ A.contains index.foreign other = true ∨
      other = tx.nr - index.baseTxNr ∧ tx.CarriesForeign names.chainCommunityUuid
    rw [← hsignedHome, hnamesSame]
    refine (hcoinMarks.foreign other).trans ?_
    rw [hsignedSame, show index.foreign = noted.foreign by rw [hnoted.same]]
    rfl
  · have htypeSame : ∀ type, names.typeSet type = index.typeSet type := by
      intro type
      rw [typeSet, hsame, openWith, hnoted.same]
      rfl
    change A.contains ((names.markType tx.transactionType _).typeSet type) other = true ↔ _
    rw [typeSet_markType htype]
    split
    · rename_i heq
      rw [A.contains_add, htypeSame]
      simp [heq, or_comm]
    · rename_i hne
      rw [htypeSame]
      simp [hne]

end Transactions

end GradidoBlockchain
