import GradidoBlockchain.Index.Scan

/-!
# When a range of days is exact

The day table answers for the days of a ledger if the days never go back, no number is 2^32 - 1
above the base, where the slot wraps to zero, and no second is one of the first day of the 64-bit
range. Each of the three is needed: a ledger without it has a span the table gets wrong.
-/

namespace GradidoBlockchain

open Fallible

variable {A : Arnm} {index : Transactions A} {txs : List CompleteTransaction}

/-- A bound that is not 0 and falls on the day of a given second. -/
private theorem exists_bound {seconds : Int64} (hfits : DayFits seconds) :
    ∃ bound : Int64, bound ≠ 0 ∧ DayFits bound ∧ utcDay bound = utcDay seconds := by
  by_cases hzero : seconds = 0
  · exact ⟨1, by decide, by decide, by rw [hzero]; decide⟩
  · exact ⟨seconds, hzero, hfits, rfl⟩

namespace Transactions

/-- A slot is 32 bits wide. -/
theorem Filled.daySlot_lt {base : Nat} (hfilled : Filled base txs index) (position : Nat) :
    index.daySlot position < 2 ^ 32 := by
  induction hfilled with
  | init _ hrun =>
      rw [init_ok hrun]
      exact Nat.two_pow_pos 32
  | @add _ tx index _ _ _ hfilled hrun ih =>
      obtain ⟨-, haddresses, hcoins⟩ := hfilled.base
      obtain ⟨noted, hnoted, -, hdayMaxTx⟩ := (add_ok hrun haddresses hcoins).day
      obtain ⟨place, -, -, -, -, hslots⟩ := hnoted.slots
      rw [daySlot, hdayMaxTx]
      refine (hslots position).trans_lt ?_
      have hmod := Nat.mod_lt (tx.nr - index.baseTxNr + 1) (Nat.two_pow_pos 32)
      rw [raise]
      split_ifs
      · exact hmod
      · exact ih
      · exact ih

theorem rangeOfDays_high_lt {base : Nat} (hfilled : Filled base txs index)
    {fromSecond toSecond : Int64} {low high : Nat}
    (hrange : index.rangeOfDays fromSecond toSecond =
      some (low, high)) : high - base < uint32Max := by
  obtain ⟨first, last, cursor, -, hslot, -, rfl⟩ := rangeOfDays_eq_some hrange
  have hlt := hfilled.daySlot_lt cursor
  rw [hfilled.base.1, uint32Max]
  omega

/-- Without a first day the span starts at the first number of the index. -/
theorem rangeOfDays_low {toSecond : Int64} {low high : Nat}
    (hrange : index.rangeOfDays 0 toSecond = some (low, high)) :
    low = index.baseTxNr + (index.minTxNr - index.baseTxNr) := by
  obtain ⟨first, last, cursor, hspan, -, rfl, -⟩ := rangeOfDays_eq_some hrange
  have hfirst : first = 0 := by
    rw [spanOfDays] at hspan
    simp only [ne_eq, not_true_eq_false, if_false] at hspan
    split_ifs at hspan <;> cases hspan <;> rfl
  rw [hfirst]
  rfl

/-! ### Each condition is needed -/

section Needed

variable {base : Nat}

/-- Every span between seconds whose day can be computed is exact. -/
def ExactRanges (txs : List CompleteTransaction) (index : Transactions A) : Prop :=
  ∀ fromSecond toSecond, DayFits fromSecond → DayFits toSecond →
    ExactDays utcDay txs fromSecond toSecond (index.rangeOfDays fromSecond toSecond)

theorem ExactRanges.exists_range (hexact : ExactRanges txs index) {toSecond : Int64}
    (hto : DayFits toSecond) {tx : CompleteTransaction} (htx : tx ∈ txs)
    (hspan : CompleteTransaction.InSpan utcDay 0 toSecond tx) :
    ∃ low high, index.rangeOfDays 0 toSecond = some (low, high) ∧
      ∀ other ∈ txs, (low ≤ other.nr ∧ other.nr ≤ high) ↔
        CompleteTransaction.InSpan utcDay 0 toSecond other := by
  have hanswer := hexact 0 toSecond (by decide) hto
  rcases hrange : index.rangeOfDays 0 toSecond with _ | ⟨low, high⟩
  · rw [hrange] at hanswer
    exact absurd hspan (hanswer tx htx)
  · rw [hrange] at hanswer
    exact ⟨low, high, rfl, hanswer.2⟩

theorem ExactRanges.inside (hexact : ExactRanges txs index) (hfilled : Filled base txs index)
    {tx : CompleteTransaction} (htx : tx ∈ txs) : tx.nr - base < uint32Max := by
  have hspan : CompleteTransaction.InSpan utcDay 0 0 tx :=
    ⟨fun h => absurd rfl h, fun h => absurd rfl h⟩
  obtain ⟨low, high, hrange, hall⟩ := hexact.exists_range (by decide) htx hspan
  have hlt := rangeOfDays_high_lt hfilled hrange
  have hle := ((hall tx htx).2 hspan).2
  omega

theorem ExactRanges.fits (hexact : ExactRanges txs index) (hholds : Holds txs index)
    {tx : CompleteTransaction} (htx : tx ∈ txs) : DayFits tx.confirmedAt.seconds := by
  by_contra hfits
  have hspan : CompleteTransaction.InSpan utcDay 0 earliestFit tx :=
    ⟨fun h => absurd rfl h, fun _ => utcDay_le_earliestFit hfits⟩
  obtain ⟨low, high, hrange, -⟩ := hexact.exists_range (by decide) htx hspan
  have hfirst := firstDay_le_of_rangeOfDays (by decide) hrange
  obtain ⟨position, hposition, hlt, -⟩ := hholds.days.placed tx htx
  have hfar := dayOfSecond_of_not_fits hfits
  have hsize := index.dayMaxTx.size_le
  rw [show dayOfSecond earliestFit = -106751991167300 by decide] at hfirst
  rw [uint32Max] at hsize
  omega

theorem ExactRanges.ascend (hexact : ExactRanges txs index) (hholds : Holds txs index)
    (hfits : ∀ tx ∈ txs, DayFits tx.confirmedAt.seconds) : DaysAscend utcDay txs := by
  rw [DaysAscend, List.pairwise_iff_getElem]
  intro i j hi hj hlt
  by_contra hback
  obtain ⟨bound, hne, hbound, hday⟩ := exists_bound (hfits txs[j] (List.getElem_mem hj))
  have hspan : CompleteTransaction.InSpan utcDay 0 bound txs[j] :=
    ⟨fun h => absurd rfl h, fun _ => Int.le_of_eq hday.symm⟩
  -- The span up to the day of the later transaction begins at the first number, so it takes the
  -- earlier one in.
  obtain ⟨low, high, hrange, hall⟩ := hexact.exists_range hbound (List.getElem_mem hj) hspan
  have hlow := rangeOfDays_low hrange
  have hnr : ∀ k (hk : k < txs.length), txs[k].nr = index.minTxNr + k := by
    intro k hk
    have hget := congrArg (·[k]?) hholds.numbers
    simpa [hk, List.getElem?_range'] using hget
  have hend := ((hall _ (List.getElem_mem hj)).2 hspan).2
  have hbase := (hholds.ends (List.ne_nil_of_mem (List.getElem_mem hj))).1
  have hearlier :=
    (hall _ (List.getElem_mem hi)).1
      ⟨by rw [hnr i hi]; omega, by rw [hnr i hi]; rw [hnr j hj] at hend; omega⟩
  have hle := hearlier.2 hne
  omega

end Needed

/-- A range of days is exact for every span just when the days of the transactions never go back, no
number is 2^32 - 1 above the base and no second lies in the first day of the 64-bit range. -/
theorem rangeOfDays_exact_iff {base : Nat} (hfilled : Filled base txs index) :
    ExactRanges txs index ↔ DaysAscend utcDay txs ∧ (∀ tx ∈ txs, tx.nr - base < uint32Max) ∧
      ∀ tx ∈ txs, DayFits tx.confirmedAt.seconds := by
  constructor
  · intro hexact
    have hinside : ∀ tx ∈ txs, tx.nr - base < uint32Max := fun tx htx => hexact.inside hfilled htx
    have hholds := hfilled.holds hinside
    have hfits : ∀ tx ∈ txs, DayFits tx.confirmedAt.seconds := fun tx htx => hexact.fits hholds htx
    exact ⟨hexact.ascend hholds hfits, hinside, hfits⟩
  · rintro ⟨hascend, hinside, hfits⟩ fromSecond toSecond hfrom hto
    have hcoded := (daysAscend_congr fun tx htx => dayOfSecond_eq (hfits tx htx)).2 hascend
    have hexact := rangeOfDays_exact (hfilled.holds hinside) hcoded fromSecond toSecond
    have hsame : ∀ tx ∈ txs, CompleteTransaction.InSpan dayOfSecond fromSecond toSecond tx ↔
        CompleteTransaction.InSpan utcDay fromSecond toSecond tx := fun tx htx =>
      inSpan_congr (dayOfSecond_eq hfrom) (dayOfSecond_eq hto) (dayOfSecond_eq (hfits tx htx))
    rcases hrange : index.rangeOfDays fromSecond toSecond with _ | ⟨low, high⟩
    · rw [hrange] at hexact
      exact fun tx htx hspan => hexact tx htx ((hsame tx htx).2 hspan)
    · rw [hrange] at hexact
      obtain ⟨⟨tx, htx, hspan⟩, hall⟩ := hexact
      exact ⟨⟨tx, htx, (hsame tx htx).1 hspan⟩,
        fun other hother => (hall other hother).trans (hsame other hother)⟩

theorem rangeOfDays_exact_iff_market :
    ExactRanges marketDays marketIndex ↔
      DaysAscend utcDay marketDays ∧ (∀ tx ∈ marketDays, tx.nr - 3 < uint32Max) ∧
        ∀ tx ∈ marketDays, DayFits tx.confirmedAt.seconds :=
  rangeOfDays_exact_iff marketIndex_filled

/-- Days 10, 12 and 11, in this order. -/
def backIndex : Transactions Arnm.reference :=
  (add (.bare 3 950400) (add (.bare 2 1036800) (add (.bare 1 864000) (fresh 0) []).2.1 []).2.1
    []).2.1

theorem backIndex_filled : Filled 0 [.bare 1 864000, .bare 2 1036800, .bare 3 950400] backIndex :=
  @Filled.add _ _ [.bare 1 864000, .bare 2 1036800] _ _ _ [] []
    (@Filled.add _ _ [.bare 1 864000] _ _ _ [] []
      (@Filled.add _ _ [] _ _ _ [] [] (filled_fresh 0) rfl) rfl) rfl

/-- Asked for day 11, the table answers with a span that holds the transaction of day 12. -/
theorem rangeOfDays_not_exact_back :
    ¬∀ (base : Nat) (txs : List CompleteTransaction) (index : Transactions Arnm.reference), Filled
        base txs index →
      ∀ fromSecond toSecond,
        ExactDays utcDay txs fromSecond toSecond (index.rangeOfDays fromSecond toSecond) := by
  intro hall
  have hanswer := hall _ _ _ backIndex_filled 950400 950400
  rw [show backIndex.rangeOfDays 950400 950400 = some (2, 3) by rfl] at hanswer
  have hsecond := hanswer.2 (.bare 2 1036800) (by decide)
  exact absurd (hsecond.1 (by decide)) (by decide)

end Transactions

end GradidoBlockchain
