import GradidoBlockchain.Index.Marks
import GradidoBlockchain.Lib.Alongside

/-!
# What a filled index holds

The invariant of an index that has been filled without a refusal: each of its sets holds the
offsets of just the transactions that belong to it, and the slot of each day one more than the
largest offset of that day.
-/

namespace GradidoBlockchain

open Fallible Fallible.Call

variable {A : Arnm}

namespace Transactions

/-- An index prepared over `base` to which the transactions have been added one after the other,
whatever room there was. -/
inductive Filled (base : Nat) : List CompleteTransaction → Transactions A → Prop
  | init {options : TransactionsOptions} {start index : Transactions A} {room rest : Room} :
      options.baseTxNr = base → init options start room = (.ok (), index, rest) →
      Filled base [] index
  | add {txs : List CompleteTransaction} {tx : CompleteTransaction} {index left : Transactions A}
      {room rest : Room} : Filled base txs index → add tx index room = (.ok (), left, rest) →
      Filled base (txs ++ [tx]) left

theorem filled_fresh (base : Nat) : Filled base [] (fresh base : Transactions A) :=
  @Filled.init _ _ ⟨base, 0, 0⟩ zero _ [] [] rfl rfl

/-- A series of transactions that are all taken. -/
theorem Filled.series {base : Nat} {done : List CompleteTransaction}
    {steps : List (CompleteTransaction × Room)} {index : Transactions A}
    (hfilled : Filled base done index)
    (hresults : (Fallible.series Transactions.add steps index).1 = steps.map fun _ => .ok ()) :
    Filled base (done ++ steps.map Prod.fst) (Fallible.series Transactions.add steps index).2 := by
  induction steps generalizing done index with
  | nil => rwa [List.map_nil, List.append_nil]
  | cons step steps ih =>
    obtain ⟨tx, room⟩ := step
    obtain ⟨hresult, hresults⟩ := List.cons.inj hresults
    have hrun : Transactions.add tx index room =
        (.ok (), (Transactions.add tx index room).2.1, (Transactions.add tx index room).2.2) :=
      Prod.ext hresult rfl
    have hlast := ih (hfilled.add hrun) hresults
    rwa [List.append_assoc] at hlast

/-- The day table of the transactions: each has its place in it, and a slot that is not zero is that
of the largest offset of its day. -/
structure DayTable (txs : List CompleteTransaction) (index : Transactions A) : Prop where
  first : ∀ tx, txs.head? = some tx → index.firstDay = dayOfSecond tx.confirmedAt.seconds
  placed : ∀ tx ∈ txs, ∃ position : Nat, dayOfSecond tx.confirmedAt.seconds - index.firstDay =
      position ∧ position < index.dayMaxTx.size ∧
    tx.nr - index.baseTxNr + 1 ≤ index.daySlot position
  noted : ∀ position, index.daySlot position ≠ 0 →
    ∃ tx ∈ txs, dayOfSecond tx.confirmedAt.seconds - index.firstDay = position ∧
      index.daySlot position = tx.nr - index.baseTxNr + 1

structure Holds (txs : List CompleteTransaction) (index : Transactions A) : Prop where
  denseAddresses : index.addresses.Dense
  denseCoins : index.coins.Dense
  ready : index.ready = true
  count : index.transactionCount = txs.length
  numbers : txs.map CompleteTransaction.nr = List.range' index.minTxNr txs.length
  inside : ∀ tx ∈ txs, index.baseTxNr ≤ tx.nr ∧ tx.nr - index.baseTxNr < uint32Max
  max : txs ≠ [] → index.maxTxNr + 1 = index.minTxNr + txs.length
  known : ∀ tx ∈ txs, tx.transactionType.code < TransactionType.count
  home : ∀ tx, txs.head? = some tx → index.chainCommunityUuid = tx.txCommunityUuid
  balance : ∀ key offset, A.contains (index.addresses.read .blank key).balance offset = true ↔
    ∃ tx ∈ txs, offset = tx.nr - index.baseTxNr ∧ tx.ListsBalance key
  involved : ∀ key offset, (index.addresses.read .blank key).involves offset ↔
    ∃ tx ∈ txs, offset = tx.nr - index.baseTxNr ∧ tx.Involves key
  coin : ∀ uuid offset, A.contains (index.coins.read A.blank uuid) offset = true ↔
    ∃ tx ∈ txs, offset = tx.nr - index.baseTxNr ∧ uuid ≠ index.chainCommunityUuid ∧
      tx.CarriesCoin uuid
  foreign : ∀ offset, A.contains index.foreign offset = true ↔
    ∃ tx ∈ txs, offset = tx.nr - index.baseTxNr ∧ tx.CarriesForeign index.chainCommunityUuid
  types : ∀ type offset, A.contains (index.typeSet type) offset = true ↔
    ∃ tx ∈ txs, offset = tx.nr - index.baseTxNr ∧ type = tx.transactionType
  days : DayTable txs index

/-! ### The empty index -/

theorem init_ok {options : TransactionsOptions} {start left : Transactions A} {room rest : Room}
    (hrun : init options start room = (.ok (), left, rest)) : left = fresh options.baseTxNr := by
  obtain ⟨_, _, _, -, hrun⟩ := bind_ok.1 hrun
  obtain ⟨_, _, _, -, hrun⟩ := bind_ok.1 hrun
  have hlast : ∀ {state : Transactions A} {room rest : Room},
      (write (fun _ => fresh options.baseTxNr) : Call ArnmResult (Transactions A) Unit) state room =
        (.ok (), left, rest) →
        left = fresh options.baseTxNr := fun hwrite => (write_ok.1 hwrite).1.symm
  split at hrun <;> split at hrun
  all_goals
    repeat obtain ⟨_, _, _, -, hrun⟩ := bind_ok.1 hrun
    exact hlast hrun

private theorem typeSet_fresh (base : Nat) (type : TransactionType) :
    (fresh base : Transactions A).typeSet type = A.blank := by
  change ((Vector.replicate _ A.blank)[type.code]?).getD A.blank = A.blank
  rw [Vector.getElem?_replicate]
  split <;> rfl

private theorem daySlot_fresh (base position : Nat) :
    (fresh base : Transactions A).daySlot position = 0 :=
  rfl

theorem holds_fresh (base : Nat) : Holds [] (fresh base : Transactions A) where
  denseAddresses := Keyed.empty_dense
  denseCoins := Keyed.empty_dense
  ready := rfl
  count := rfl
  numbers := rfl
  inside := by simp
  max := by simp
  known := by simp
  home := by simp
  balance := fun key offset => by
    change A.contains ((Keyed.empty : Keyed A 32 (AddressSets A)).read .blank key).balance offset =
        true ↔ _
    rw [Keyed.read_empty]
    simp [AddressSets.blank, A.contains_blank]
  involved := fun key offset => by
    change AddressSets.involves ((Keyed.empty : Keyed A 32 (AddressSets A)).read .blank key)
        offset ↔ _
    rw [Keyed.read_empty]
    simp [AddressSets.blank, AddressSets.involves, A.contains_blank]
  coin := fun uuid offset => by
    change A.contains ((Keyed.empty : Keyed A 16 A.Bitmap).read A.blank uuid) offset = true ↔ _
    rw [Keyed.read_empty]
    simp [A.contains_blank]
  foreign := fun offset => by
    change A.contains A.blank offset = true ↔ _
    simp [A.contains_blank]
  types := fun type offset => by
    rw [typeSet_fresh]
    simp [A.contains_blank]
  days := ⟨by simp, by simp, fun position hslot => absurd (daySlot_fresh base position) hslot⟩

/-! ### One more transaction -/

/-- A gapless run that starts at or above the base and ends within the span of an index is as
long as it looks. -/
theorem Holds.length_le {txs : List CompleteTransaction} {index : Transactions A}
    (hholds : Holds txs index) : txs.length ≤ uint32Max := by
  rcases List.eq_nil_or_concat txs with rfl | ⟨front, last, rfl⟩
  · exact Nat.zero_le _
  · have hnumbers := hholds.numbers
    have hlast := hholds.inside last (by simp)
    have hfirst : (front.concat last).map CompleteTransaction.nr ≠ [] := by simp
    have hnr : last.nr = index.minTxNr + front.length := by
      have hget := congrArg (·[front.length]?) hnumbers
      simpa [List.getElem?_range'] using hget
    have hmin : index.baseTxNr ≤ index.minTxNr := by
      have hmem : index.minTxNr ∈ (front.concat last).map CompleteTransaction.nr := by
        rw [hnumbers, List.mem_range'_1]
        simp
      obtain ⟨tx, htx, hnr⟩ := List.mem_map.1 hmem
      rw [← hnr]
      exact (hholds.inside tx htx).1
    simp only [List.concat_eq_append, List.length_append, List.length_singleton]
    omega

/-- The number of the next transaction, when there is one before it. -/
theorem Holds.next {txs : List CompleteTransaction} {index left : Transactions A}
    {tx : CompleteTransaction} (hholds : Holds txs index) (hadded : Added tx index left)
    (hne : txs ≠ []) : tx.nr = index.minTxNr + txs.length := by
  obtain ⟨-, hbase, hnext, -, -, -⟩ := offsetOf_ok hadded.placed
  have hmax := hholds.max hne
  have hcount : index.transactionCount ≠ 0 := by
    rw [hholds.count]
    simpa using hne
  have hnr := hnext hcount
  obtain ⟨last, hlast⟩ := List.exists_mem_of_ne_nil txs hne
  have hinside := hholds.inside last hlast
  have hlength := hholds.length_le
  have hmin : last.nr < index.minTxNr + txs.length ∧ index.minTxNr ≤ last.nr := by
    have hmem : last.nr ∈ txs.map CompleteTransaction.nr := List.mem_map_of_mem hlast
    rw [hholds.numbers, List.mem_range'_1] at hmem
    exact hmem.symm
  have htx := tx.nr_lt
  have hlastNr := last.nr_lt
  rw [uint32Max] at *
  by_cases hwrap : index.maxTxNr + 1 < 2 ^ 64
  · rw [hnr, Nat.mod_eq_of_lt hwrap, hmax]
  · omega

private theorem exists_append {txs : List CompleteTransaction} {tx : CompleteTransaction}
    {p : CompleteTransaction → Prop} :
    (∃ other ∈ txs ++ [tx], p other) ↔ (∃ other ∈ txs, p other) ∨ p tx := by
  simp only [List.mem_append, List.mem_singleton, or_and_right, exists_or, exists_eq_left]

theorem DayTable.add {txs : List CompleteTransaction} {tx : CompleteTransaction}
    {index left : Transactions A} (hdays : DayTable txs index)
    (hcount : index.transactionCount = txs.length) (hadded : Added tx index left)
    (hinside : tx.nr - index.baseTxNr < uint32Max) : DayTable (txs ++ [tx]) left := by
  obtain ⟨noted, hnoted, hfirstDay, hdayMaxTx⟩ := hadded.day
  obtain ⟨position, hposition, hbound, hlt, hsize, hslots⟩ := hnoted.slots
  rw [← hfirstDay] at hposition
  rw [← hdayMaxTx] at hlt hsize
  have hslot : ∀ other, left.daySlot other =
      if other = position then max (index.daySlot other) (tx.nr - index.baseTxNr + 1)
        else index.daySlot other := by
    intro other
    rw [daySlot, hdayMaxTx]
    refine (hslots other).trans ?_
    rw [raise, Nat.mod_eq_of_lt (by rw [uint32Max] at hinside; omega)]
    split
    · split <;> omega
    · rfl
  have hfirst : txs ≠ [] → left.firstDay = index.firstDay := by
    intro hne
    rw [hfirstDay, hnoted.firstDay, hcount, if_neg (by simpa using hne)]
  refine ⟨?_, ?_, ?_⟩
  · intro first hhead
    rcases txs with _ | ⟨head, txs⟩
    · rw [hfirstDay, hnoted.firstDay, hcount, List.length_nil, if_pos rfl]
      cases hhead
      rfl
    · rw [hfirst (by simp)]
      exact hdays.first first hhead
  · intro other hother
    rcases List.mem_append.1 hother with hmem | hmem
    · obtain ⟨place, hplace, hin, hle⟩ := hdays.placed other hmem
      refine ⟨place, ?_, by omega, ?_⟩
      · rw [hfirst (List.ne_nil_of_mem hmem)]
        exact hplace
      · rw [hslot, hadded.base]
        split <;> omega
    · rw [List.mem_singleton.1 hmem]
      refine ⟨position, hposition, hlt, ?_⟩
      rw [hslot, if_pos rfl, hadded.base]
      omega
  · intro place hne
    rw [hslot] at hne ⊢
    rw [exists_append, hadded.base]
    by_cases hnew : place = position ∧ index.daySlot place < tx.nr - index.baseTxNr + 1
    · right
      obtain ⟨rfl, hless⟩ := hnew
      refine ⟨hposition, ?_⟩
      rw [if_pos rfl]
      omega
    · left
      have hold : (if place = position then max (index.daySlot place) (tx.nr - index.baseTxNr + 1)
          else index.daySlot place) = index.daySlot place := by
        split
        · omega
        · rfl
      rw [hold] at hne ⊢
      obtain ⟨other, hmem, hday, heq⟩ := hdays.noted place hne
      refine ⟨other, hmem, ?_, heq⟩
      rw [hfirst (List.ne_nil_of_mem hmem)]
      exact hday

theorem Holds.add {txs : List CompleteTransaction} {tx : CompleteTransaction}
    {index left : Transactions A} (hholds : Holds txs index) (hadded : Added tx index left)
    (hinside : tx.nr - index.baseTxNr < uint32Max) : Holds (txs ++ [tx]) left := by
  obtain ⟨-, hbase, -, -, htype, -⟩ := offsetOf_ok hadded.placed
  have hempty : index.transactionCount = 0 ↔ txs = [] := by
    rw [hholds.count, List.length_eq_zero_iff]
  have hmin : txs ≠ [] → left.minTxNr = index.minTxNr := by
    intro hne
    rw [hadded.min, if_neg (by rwa [hempty])]
  have hhome : txs ≠ [] → left.chainCommunityUuid = index.chainCommunityUuid := by
    intro hne
    rw [hadded.home, if_neg (by rwa [hempty])]
  have hnr : tx.nr = left.minTxNr + txs.length := by
    by_cases hne : txs = []
    · rw [hadded.min, if_pos (hempty.2 hne), hne]
      rfl
    · rw [hmin hne]
      exact hholds.next hadded hne
  have hnumbers : (txs ++ [tx]).map CompleteTransaction.nr =
      List.range' left.minTxNr (txs ++ [tx]).length := by
    rw [List.map_append, List.length_append, List.length_singleton, List.range'_concat]
    congr 1
    · by_cases hne : txs = []
      · rw [hne]
        rfl
      · rw [hmin hne]
        exact hholds.numbers
    · simp [hnr]
  have hinsideAll : ∀ other ∈ txs ++ [tx], left.baseTxNr ≤ other.nr ∧
      other.nr - left.baseTxNr < uint32Max := by
    intro other hother
    rw [hadded.base]
    rcases List.mem_append.1 hother with hmem | hmem
    · exact hholds.inside other hmem
    · rw [List.mem_singleton.1 hmem]
      exact ⟨hbase, hinside⟩
  have hshort : txs.length + 1 < 2 ^ 32 := by
    have hlength := hholds.length_le
    by_cases hne : txs = []
    · rw [hne]
      decide
    · obtain ⟨other, hother⟩ := List.exists_mem_of_ne_nil txs hne
      have hother' := (hholds.inside other hother).1
      have hmem : other.nr ∈ txs.map CompleteTransaction.nr := List.mem_map_of_mem hother
      rw [hholds.numbers, List.mem_range'_1] at hmem
      have hleft : index.baseTxNr ≤ index.minTxNr := by
        have hfirst : index.minTxNr ∈ txs.map CompleteTransaction.nr := by
          rw [hholds.numbers, List.mem_range'_1]
          omega
        obtain ⟨least, hleast, heq⟩ := List.mem_map.1 hfirst
        rw [← heq]
        exact (hholds.inside least hleast).1
      rw [hmin hne] at hnr
      rw [uint32Max] at hinside
      omega
  refine ⟨hadded.addresses.dense, hadded.coins.dense, hadded.ready, ?_, hnumbers, hinsideAll, ?_,
    ?_, ?_, ?_, ?_, ?_, ?_, ?_, hholds.days.add hholds.count hadded hinside⟩
  · rw [hadded.count, hholds.count, List.length_append, List.length_singleton,
      Nat.mod_eq_of_lt hshort]
  · intro _
    rw [hadded.max, hnr, List.length_append, List.length_singleton]
    omega
  · intro other hother
    rcases List.mem_append.1 hother with hmem | hmem
    · exact hholds.known other hmem
    · rw [List.mem_singleton.1 hmem]
      exact htype
  · intro first hhead
    rcases txs with _ | ⟨head, txs⟩
    · rw [hadded.home, if_pos (hempty.2 rfl)]
      cases hhead
      rfl
    · rw [hhome (by simp)]
      exact hholds.home first hhead
  · intro key offset
    rw [hadded.addresses.balance, hholds.balance, exists_append, hadded.base]
  · intro key offset
    rw [hadded.addresses.involved, hholds.involved, exists_append, hadded.base]
  · intro uuid offset
    rw [hadded.coins.coin, hholds.coin, exists_append, hadded.base]
    by_cases hne : txs = []
    · subst hne
      simp
    · rw [hhome hne]
  · intro offset
    rw [hadded.coins.foreign, hholds.foreign, exists_append, hadded.base]
    by_cases hne : txs = []
    · subst hne
      simp
    · rw [hhome hne]
  · intro type offset
    rw [hadded.types, hholds.types, exists_append, hadded.base]

/-! ### Runs -/

theorem Filled.base {base : Nat} {txs : List CompleteTransaction} {index : Transactions A}
    (hfilled : Filled base txs index) :
    index.baseTxNr = base ∧ index.addresses.Dense ∧ index.coins.Dense := by
  induction hfilled with
  | init hbase hrun =>
      rw [init_ok hrun]
      exact ⟨hbase, Keyed.empty_dense, Keyed.empty_dense⟩
  | add _ hrun ih =>
      have hadded := add_ok hrun ih.2.1 ih.2.2
      exact ⟨hadded.base.trans ih.1, hadded.addresses.dense, hadded.coins.dense⟩

/-- An index filled with numbers less than 2^32 - 1 above its base holds what it has
been filled with. -/
theorem Filled.holds {base : Nat} {txs : List CompleteTransaction} {index : Transactions A}
    (hfilled : Filled base txs index)
    (hinside : ∀ tx ∈ txs, tx.nr - base < uint32Max) : Holds txs index := by
  induction hfilled with
  | init hbase hrun =>
      rw [init_ok hrun]
      exact holds_fresh _
  | @add txs tx index left room rest hfilled hrun ih =>
      have hholds := ih fun other hother => hinside other (List.mem_append_left _ hother)
      refine hholds.add (add_ok hrun hholds.denseAddresses hholds.denseCoins) ?_
      rw [hfilled.base.1]
      exact hinside tx (by simp)

end Transactions

end GradidoBlockchain
