import GradidoBlockchain.Index.Reset
import GradidoBlockchain.Index.Sets
import GradidoBlockchain.Lib.Ends

/-!
# The representation of an index

What holds in every state of an index, whatever has been added to it, refused and added again.
Between an add that is refused memory and its repetition the sets are ahead of the counters, but
only by the offset of the transaction that is waiting.
-/

namespace GradidoBlockchain

open Fallible Fallible.Call

variable {A : Arnm} {tx : CompleteTransaction} {low k : Nat}
  {types : Vector A.Bitmap TransactionType.count}

namespace Transactions

/-! ### Marks that come to an end, and marks that do not -/

/-- The union has the offset if a coin has it. -/
def ForeignNoted (k : Nat) (index : Transactions A) : Prop :=
  ∀ uuid, A.contains (index.coins.read A.blank uuid) k = true → A.contains index.foreign k = true

/-- The sets of the types with one more number. -/
def typesWith (types : Vector A.Bitmap TransactionType.count) (type : TransactionType)
    (offset : Nat) : Vector A.Bitmap TransactionType.count :=
  types.setIfInBounds type.code (A.add ((types[type.code]?).getD A.blank) offset)

theorem signatures_ends :
    Ends (MarkingOn tx low k types) (tx.signaturePairs.forM (noteSignature k))
      (MarkingOn tx low k types)
      (fun _ index =>
        MarkingOn tx low k types index ∧
          ∀ key, tx.SignedBy key →
            A.contains (index.addresses.read .blank key).signed k = true) := by
  apply Ends.of_keeps (Keeps.forM fun pair hpair => noteSignature_markingOn hpair)
  intro index left room rest _ hon hrun hkept
  obtain ⟨-, hmarks⟩ := signatures_marks hon.marking.addresses.dense hrun
  exact ⟨hkept, fun key hsigner => (hmarks.signed key k).2 (.inr ⟨rfl, hsigner⟩)⟩

theorem balances_ends :
    Ends (fun index =>
      MarkingOn tx low k types index ∧
        ∀ key, tx.SignedBy key → A.contains (index.addresses.read .blank key).signed k = true)
      (tx.accountBalances.forM (noteBalance k)) (MarkingOn tx low k types)
      (fun _ index =>
        (MarkingOn tx low k types index ∧ RolesNoted tx k index) ∧ ForeignNoted k index) := by
  have hkeeps : Keeps (MarkingOn tx low k types) (tx.accountBalances.forM (noteBalance k)) :=
    .forM fun balance hbalance => noteBalance_markingOn hbalance
  intro index room hstart
  have hkept := hkeeps index room hstart.1
  rcases hrun : tx.accountBalances.forM (noteBalance k) index room
    with ⟨code | _, left, rest⟩ <;> rw [hrun] at hkept
  · exact hkept
  obtain ⟨hsame, hmarks, hcoins⟩ :=
    balances_marks hstart.1.marking.addresses.dense hstart.1.marking.coins.dense hrun
  refine ⟨⟨hkept, fun key => ⟨fun hsigner => ?_, fun hlists => ?_⟩⟩, fun uuid hcoin => ?_⟩
  · exact (hmarks.signed key k).2 (.inl (hstart.2 key hsigner))
  · exact (hmarks.balance key k).2 (.inr ⟨rfl, hlists⟩)
  · obtain hforeign | ⟨-, hcarries⟩ := hkept.marking.foreign_of_coin uuid k hcoin
    · exact hforeign
    · refine (hcoins.foreign k).2 (.inr ⟨rfl, ?_⟩)
      have hhome : left.chainCommunityUuid = index.chainCommunityUuid := by rw [hsame]
      rwa [hkept.homed, hhome] at hcarries

theorem named_ends :
    Ends
      (fun index => (MarkingOn tx low k types index ∧ RolesNoted tx k index) ∧ ForeignNoted k index)
      ((named tx).forM (noteNamed k)) (MarkingOn tx low k types)
      (fun _ index => MarkingOn tx low k types index ∧ ForeignNoted k index) := by
  have hkeeps : Keeps (fun index => MarkingOn tx low k types index ∧ RolesNoted tx k index)
      ((named tx).forM (noteNamed k)) := .forM fun key _ => noteNamed_markingOn key
  intro index room hstart
  have hkept := hkeeps index room hstart.1
  rcases hrun : (named tx).forM (noteNamed k) index room
    with ⟨code | _, left, rest⟩ <;> rw [hrun] at hkept
  · exact hkept.1
  refine ⟨hkept.1, fun uuid hcoin => ?_⟩
  obtain ⟨hsame, -⟩ := named_marks (AddressMarks.refl hstart.1.1.marking.addresses.dense) hrun
  rw [hsame] at hcoin ⊢
  exact hstart.2 uuid hcoin

theorem MarkingOn.markingSets {index : Transactions A} (hon : MarkingOn tx low k types index) :
    MarkingSets tx low k types index :=
  ⟨hon.marking, hon.types⟩

theorem openWith_ends :
    Ends (MarkingSets tx low k types) (write (openWith tx) : Call ArnmResult (Transactions A) Unit)
      (MarkingSets tx low k types) (fun _ => MarkingOn tx low k types) :=
  .write fun index hsets => ⟨hsets.1.openWith, homed_openWith tx index, hsets.2⟩

/-- Refused, marking leaves the types as they were; ended, it has marked one of them. -/
theorem mark_ends :
    Ends (MarkingSets tx low k types) (mark tx k) (MarkingSets tx low k types)
      (fun _ index =>
        Marking tx low k index ∧ ForeignNoted k index ∧
          index.perType = typesWith types tx.transactionType k) := by
  rw [mark]
  refine (Ends.of_keeps (noteDay_markingSets tx.confirmedAt.seconds) fun _ _ hkept => hkept).bind
    fun _ => ?_
  refine openWith_ends.bind fun _ => ?_
  refine (signatures_ends.mono (fun _ h => h) (fun _ => MarkingOn.markingSets) fun _ _ h => h).bind
    fun _ => ?_
  refine (balances_ends.mono (fun _ h => h) (fun _ => MarkingOn.markingSets) fun _ _ h => h).bind
    fun _ => ?_
  refine (named_ends.mono (fun _ h => h) (fun _ => MarkingOn.markingSets) fun _ _ h => h).bind
    fun _ => ?_
  refine Ends.grow (fun _ h => h.1.markingSets) fun index h => ?_
  obtain ⟨⟨⟨haddresses, hcoins, hsets, hle, hcoin, hforeign⟩, -, htypes⟩, hnoted⟩ := h
  refine ⟨⟨haddresses, hcoins, hsets, hle, hcoin, hforeign⟩, hnoted, ?_⟩
  rw [markType, typeSet, htypes, typesWith]

/-! ### The representation -/

/-- An offset is in the set of some foreign coin. -/
def InCoin (index : Transactions A) (offset : Nat) : Prop :=
  ∃ id set, index.coins.entries.get? id = some set ∧ A.contains set offset = true

/-- An offset is in some set of some address. -/
def InAddress (index : Transactions A) (offset : Nat) : Prop :=
  ∃ id sets, index.addresses.entries.get? id = some sets ∧ sets.involves offset

/-- An offset is in the set of some type. -/
def InType (index : Transactions A) (offset : Nat) : Prop :=
  ∃ type : Fin TransactionType.count, A.contains index.perType[type] offset = true

/-- An offset is that of a transaction that has been counted. -/
def Counted (index : Transactions A) (offset : Nat) : Prop :=
  index.transactionCount ≠ 0 ∧ index.minTxNr - index.baseTxNr ≤ offset ∧
    offset ≤ index.maxTxNr - index.baseTxNr

/-- An offset is that of the transaction that has been refused memory and is to be added again. -/
def Waiting (pending : Option CompleteTransaction) (index : Transactions A) (offset : Nat) : Prop :=
  ∃ tx, pending = some tx ∧ offset = tx.nr - index.baseTxNr

/-- A filter is answered as one that nothing is known of. -/
def AnswersUnknown (index : Transactions A) (filter : TransactionsFilter) : Prop :=
  index.count filter = .ok 0 ∧ index.newest filter = none ∧
    ∀ skip size descending, size ≤ pageMax → index.listing filter skip size descending = .ok ([], 0)

/-- What holds of an index, with the transaction that waits to be added again. -/
structure Represents (pending : Option CompleteTransaction) (index : Transactions A) : Prop where
  foreign_inCoin : ∀ offset, A.contains index.foreign offset = true → index.InCoin offset
  inCoin_foreign : ∀ offset, index.InCoin offset →
    A.contains index.foreign offset = true ∨ Waiting pending index offset
  other_apart : ∀ id sets offset, index.addresses.entries.get? id = some sets →
    A.contains sets.other offset = true →
    A.contains sets.signed offset = false ∧ A.contains sets.balance offset = false
  types_apart : ∀ (type other : Fin TransactionType.count) offset, A.contains index.perType[type]
        offset = true → A.contains index.perType[other] offset = true → type = other
  types_counted : ∀ offset, index.InType offset ↔ index.Counted offset
  ahead : ∀ offset, index.InAddress offset ∨ index.InCoin offset ∨
      A.contains index.foreign offset = true ∨ index.InType offset →
    index.Counted offset ∨ Waiting pending index offset
  waiting_next : ∀ offset, Waiting pending index offset → index.transactionCount ≠ 0 →
    offset = index.maxTxNr - index.baseTxNr + 1
  addresses_known : ∀ key id, A.find index.addresses.keys key = some id →
    id < index.addresses.entries.size ∨
      index.addresses.lookup key = none ∧
        ∀ filter, filter.role ≠ .none → filter.publicKey = key → index.AnswersUnknown filter
  coins_known : ∀ uuid id, A.find index.coins.keys uuid = some id →
    id < index.coins.entries.size ∨
      ∀ filter, filter.coinCommunity = some uuid → uuid ≠ index.chainCommunityUuid →
        index.AnswersUnknown filter

/-! ### Counters -/

/-- The counters of an index into which so many transactions have been counted. -/
structure Counts (counted : Nat) (index : Transactions A) : Prop where
  ready : index.ready = true
  size : index.transactionCount = counted
  span : counted ≠ 0 →
    index.baseTxNr ≤ index.minTxNr ∧ index.maxTxNr + 1 = index.minTxNr + counted ∧
      index.maxTxNr < 2 ^ 64 ∧ index.maxTxNr - index.baseTxNr ≤ uint32Max

theorem Counts.of_unmoved {counted : Nat} {index left : Transactions A}
    (hcounts : Counts counted index) (hunmoved : Unmoved index left) : Counts counted left := by
  refine ⟨hunmoved.ready.trans hcounts.ready, hunmoved.count.trans hcounts.size, fun hne => ?_⟩
  rw [hunmoved.base, hunmoved.max, hunmoved.min (by rwa [hcounts.size])]
  exact hcounts.span hne

theorem counted_of_unmoved {index left : Transactions A} (hunmoved : Unmoved index left)
    (offset : Nat) : left.Counted offset ↔ index.Counted offset := by
  rw [Counted, Counted, hunmoved.count, hunmoved.base, hunmoved.max]
  apply and_congr_right
  intro hcount
  rw [hunmoved.min hcount]

/-- The number of a transaction that is let in is the next one. -/
theorem Counts.next {counted : Nat} {index : Transactions A} (hcounts : Counts counted index)
    {offset : Nat} (hoffset : offsetOf tx index = .ok offset) (hne : counted ≠ 0) :
    tx.nr = index.maxTxNr + 1 := by
  obtain ⟨-, hbase, hnext, -, -, -⟩ := offsetOf_ok hoffset
  obtain ⟨hmin, hmax, hbound, hinside⟩ := hcounts.span hne
  have hnr := hnext (by rwa [hcounts.size])
  rw [uint32Max] at hinside
  omega

theorem Counts.of_moved {counted : Nat} {index left : Transactions A}
    (hcounts : Counts counted index) (hmoved : Moved tx index left) (hfew : counted + 1 < 2 ^ 32) :
    Counts (counted + 1) left := by
  obtain ⟨offset, hoffset⟩ := hmoved.placed
  obtain ⟨-, hbase, -, hinside, -, -⟩ := offsetOf_ok hoffset
  refine ⟨hmoved.ready.trans hcounts.ready, ?_, fun _ => ?_⟩
  · rw [hmoved.count, hcounts.size, Nat.mod_eq_of_lt hfew]
  · rw [hmoved.base, hmoved.max, hmoved.min, hcounts.size]
    refine ⟨?_, ?_, tx.nr_lt, hinside⟩
    · split
      · exact hbase
      · rename_i hne
        exact (hcounts.span hne).1
    · split
      · rename_i hzero
        rw [hzero]
      · rename_i hne
        rw [hcounts.next hoffset hne, (hcounts.span hne).2.1, Nat.add_assoc]

theorem counted_of_moved {counted : Nat} {index left : Transactions A}
    (hcounts : Counts counted index) (hmoved : Moved tx index left) (hfew : counted + 1 < 2 ^ 32)
    (offset : Nat) :
    left.Counted offset ↔ offset = tx.nr - index.baseTxNr ∨ index.Counted offset := by
  obtain ⟨_, hoffset⟩ := hmoved.placed
  obtain ⟨-, hbase, -, -, -, -⟩ := offsetOf_ok hoffset
  have hcount : left.transactionCount ≠ 0 := by
    rw [hmoved.count, hcounts.size, Nat.mod_eq_of_lt hfew]
    exact Nat.succ_ne_zero _
  rw [Counted, Counted, hmoved.base, hmoved.max, hmoved.min, hcounts.size, and_iff_right hcount]
  by_cases hzero : counted = 0
  · rw [if_pos hzero]
    omega
  · obtain ⟨hmin, hmax, -, -⟩ := hcounts.span hzero
    rw [if_neg hzero, hcounts.next hoffset hzero]
    omega

/-! ### Between two transactions -/

/-- The sets of an index to which nothing is waiting to be added again. -/
structure Settled (index : Transactions A) : Prop where
  addresses : index.addresses.Whole
  coins : index.coins.Whole
  counted : ∀ key offset, (index.addresses.read .blank key).involves offset → index.Counted offset
  apart : ∀ key offset, A.contains (index.addresses.read .blank key).other offset = true →
    A.contains (index.addresses.read .blank key).signed offset = false ∧
      A.contains (index.addresses.read .blank key).balance offset = false
  coin_counted : ∀ uuid offset, A.contains (index.coins.read A.blank uuid) offset = true →
    index.Counted offset
  coin_of_foreign : ∀ offset, A.contains index.foreign offset = true →
    ∃ uuid, A.contains (index.coins.read A.blank uuid) offset = true
  foreign_of_coin : ∀ uuid offset, A.contains (index.coins.read A.blank uuid) offset = true →
    A.contains index.foreign offset = true

/-- The first offset there is, which that of a first transaction is. -/
def startOf (tx : CompleteTransaction) (index : Transactions A) : Nat :=
  if index.transactionCount = 0 then tx.nr - index.baseTxNr else index.minTxNr - index.baseTxNr

theorem startOf_of_unmoved {index left : Transactions A} (hunmoved : Unmoved index left)
    (tx : CompleteTransaction) : startOf tx left = startOf tx index := by
  rw [startOf, startOf, hunmoved.count, hunmoved.base]
  split
  · rfl
  · rename_i hcount
    rw [hunmoved.min hcount]

/-- What has been counted lies before the transaction that is let in. -/
theorem Counts.within_iff {counted : Nat} {index : Transactions A} (hcounts : Counts counted index)
    {offset : Nat} (hoffset : offsetOf tx index = .ok offset) (other : Nat) :
    Within (startOf tx index) (tx.nr - index.baseTxNr) other ↔
      other = tx.nr - index.baseTxNr ∨ index.Counted other := by
  rw [Within, Counted, startOf, hcounts.size]
  apply or_congr_right
  by_cases hzero : counted = 0
  · rw [if_pos hzero]
    omega
  · obtain ⟨hmin, hmax, -, -⟩ := hcounts.span hzero
    rw [if_neg hzero, hcounts.next hoffset hzero]
    omega

theorem Counts.not_counted {counted : Nat} {index : Transactions A} (hcounts : Counts counted index)
    {offset : Nat} (hoffset : offsetOf tx index = .ok offset) :
    ¬ index.Counted (tx.nr - index.baseTxNr) := by
  rintro ⟨hcount, -, hle⟩
  rw [hcounts.size] at hcount
  obtain ⟨hmin, hmax, -, -⟩ := hcounts.span hcount
  rw [hcounts.next hoffset hcount] at hle
  omega

/-- Any transaction that is let in may be marked. -/
theorem Settled.marking {counted : Nat} {index : Transactions A} (hsettled : Settled index)
    (hcounts : Counts counted index) {offset : Nat} (hoffset : offsetOf tx index = .ok offset) :
    Marking tx (startOf tx index) (tx.nr - index.baseTxNr) index where
  addresses := hsettled.addresses
  coins := hsettled.coins
  sets := by
    intro key
    refine ⟨fun other h => ?_, hsettled.apart key, fun h => ?_⟩
    · exact (hcounts.within_iff hoffset other).2 (.inr (hsettled.counted key other h))
    · exact absurd (hsettled.counted key _ (.inr (.inr h))) (hcounts.not_counted hoffset)
  coin_within :=
    fun uuid other h =>
      (hcounts.within_iff hoffset other).2 (.inr (hsettled.coin_counted uuid other h))
  coin_of_foreign := hsettled.coin_of_foreign
  foreign_of_coin := fun uuid other h => .inl (hsettled.foreign_of_coin uuid other h)

theorem Marking.settled {index : Transactions A} (hmarking : Marking tx low k index)
    (hnoted : ForeignNoted k index)
    (hcounted : ∀ offset, Within low k offset → (commit tx index).Counted offset) :
    Settled (commit tx index) where
  addresses := hmarking.addresses
  coins := hmarking.coins
  counted := fun key offset h => hcounted offset ((hmarking.sets key).within offset h)
  apart := fun key => (hmarking.sets key).apart
  coin_counted := fun uuid offset h => hcounted offset (hmarking.coin_within uuid offset h)
  coin_of_foreign := hmarking.coin_of_foreign
  foreign_of_coin := by
    intro uuid offset h
    obtain hforeign | ⟨rfl, -⟩ := hmarking.foreign_of_coin uuid offset h
    · exact hforeign
    · exact hnoted uuid h

/-- The types of the transactions that have been counted. -/
structure Typed (index : Transactions A) : Prop where
  apart : ∀ (type other : Fin TransactionType.count) offset, A.contains index.perType[type] offset =
      true → A.contains index.perType[other] offset = true → type = other
  counted : ∀ offset, index.InType offset ↔ index.Counted offset

theorem Typed.of_unmoved {index left : Transactions A} (htyped : Typed index)
    (hunmoved : Unmoved index left) (htypes : left.perType = index.perType) : Typed left := by
  refine ⟨fun type other offset => ?_, fun offset => ?_⟩
  · rw [htypes]
    exact htyped.apart type other offset
  · rw [InType, htypes, counted_of_unmoved hunmoved]
    exact htyped.counted offset

theorem contains_typesWith {type : TransactionType} (hknown : type.code < TransactionType.count)
    (position : Fin TransactionType.count) (offset other : Nat) :
    A.contains (typesWith types type offset)[position] other = true ↔
      position.val = type.code ∧ other = offset ∨ A.contains types[position] other = true := by
  have hread : (types[type.code]?).getD A.blank = types[type.code] := by
    rw [Vector.getElem?_eq_getElem hknown, Option.getD_some]
  simp only [typesWith, hread, Fin.getElem_fin, Vector.getElem_setIfInBounds]
  by_cases heq : type.code = position.val
  · simp only [heq, if_true, A.contains_add, Bool.or_eq_true, decide_eq_true_eq, true_and]
  · simp only [heq, if_false, Ne.symm heq, false_and, false_or]

theorem Typed.of_moved {counted : Nat} {index left : Transactions A} (htyped : Typed index)
    (hcounts : Counts counted index) (hmoved : Moved tx index left) (hfew : counted + 1 < 2 ^ 32)
    (htypes : left.perType =
      typesWith index.perType tx.transactionType (tx.nr - index.baseTxNr)) : Typed left := by
  obtain ⟨_, hoffset⟩ := hmoved.placed
  obtain ⟨-, -, -, -, hknown, -⟩ := offsetOf_ok hoffset
  have hfresh : ∀ type : Fin TransactionType.count,
      ¬ A.contains index.perType[type] (tx.nr - index.baseTxNr) = true :=
    fun type h => hcounts.not_counted hoffset ((htyped.counted _).1 ⟨type, h⟩)
  refine ⟨fun type other offset htype hother => ?_, fun offset => ?_⟩
  · rw [htypes, contains_typesWith hknown] at htype hother
    obtain ⟨hcode, rfl⟩ | hbefore := htype
    · obtain ⟨hcode', -⟩ | hbefore' := hother
      · exact Fin.ext (hcode.trans hcode'.symm)
      · exact absurd hbefore' (hfresh other)
    · obtain ⟨-, rfl⟩ | hbefore' := hother
      · exact absurd hbefore (hfresh type)
      · exact htyped.apart type other offset hbefore hbefore'
  · rw [counted_of_moved hcounts hmoved hfew, ← htyped.counted, InType, htypes]
    simp only [contains_typesWith hknown]
    constructor
    · rintro ⟨type, ⟨-, rfl⟩ | hbefore⟩
      · exact .inl rfl
      · exact .inr ⟨type, hbefore⟩
    · rintro (rfl | ⟨type, hbefore⟩)
      · exact ⟨⟨tx.transactionType.code, hknown⟩, .inl ⟨rfl, rfl⟩⟩
      · exact ⟨type, .inr hbefore⟩

end Transactions

end GradidoBlockchain
