import GradidoBlockchain.Index.Holds

/-!
# Days as numbers

The day table turns a span of days into a span of numbers. It keeps one offset for each day, the
largest, and takes the start of a span from the day before it, which is right as long as the days of
the transactions do not go back.
-/

namespace GradidoBlockchain

/-- In a gapless ledger whose days ascend, a smaller number has no later day. -/
theorem DaysAscend.day_le {day : Int64 → Int} {first : Nat} {txs : List CompleteTransaction}
    (hnumbers : txs.map CompleteTransaction.nr = List.range' first txs.length)
    (hascend : DaysAscend day txs) {earlier later : CompleteTransaction} (hearlier : earlier ∈ txs)
    (hlater : later ∈ txs) (hle : earlier.nr ≤ later.nr) :
    day earlier.confirmedAt.seconds ≤ day later.confirmedAt.seconds := by
  obtain ⟨i, hi, rfl⟩ := List.getElem_of_mem hearlier
  obtain ⟨j, hj, rfl⟩ := List.getElem_of_mem hlater
  have hnr : ∀ k (hk : k < txs.length), txs[k].nr = first + k := by
    intro k hk
    have hget := congrArg (·[k]?) hnumbers
    simpa [hk, List.getElem?_range'] using hget
  rw [hnr, hnr] at hle
  rcases Nat.lt_or_eq_of_le (show i ≤ j by omega) with hlt | rfl
  · exact List.pairwise_iff_getElem.1 hascend i j hi hj hlt
  · exact Int.le_refl _

namespace Transactions

variable {A : Arnm} {index : Transactions A}

/-! ### Walking the table -/

theorem lastNoted_eq_some {low high position : Nat}
    (hfound : index.lastNoted low high = some position) :
    low ≤ position ∧ position < high ∧ index.daySlot position ≠ 0 ∧
      ∀ other, position < other → other < high → index.daySlot other = 0 := by
  induction high with
  | zero => cases hfound
  | succ cursor ih =>
      rw [lastNoted] at hfound
      split at hfound
      · cases hfound
      · split at hfound
        · rename_i hlow hslot
          cases hfound
          exact ⟨by omega, by omega, hslot, fun other _ _ => by omega⟩
        · rename_i hlow hslot
          obtain ⟨hle, hlt, hne, habove⟩ := ih hfound
          refine ⟨hle, by omega, hne, fun other hother hless => ?_⟩
          by_cases heq : other = cursor
          · rw [heq]
            exact not_not.1 hslot
          · exact habove other hother (by omega)

theorem lastNoted_eq_none {low high : Nat} (hfound : index.lastNoted low high = none) :
    ∀ other, low ≤ other → other < high → index.daySlot other = 0 := by
  induction high with
  | zero => exact fun other _ hlt => absurd hlt (Nat.not_lt_zero other)
  | succ cursor ih =>
      rw [lastNoted] at hfound
      split at hfound
      · exact fun other _ _ => by omega
      · split at hfound
        · cases hfound
        · rename_i hlow hslot
          intro other hother hless
          by_cases heq : other = cursor
          · rw [heq]
            exact not_not.1 hslot
          · exact ih hfound other hother (by omega)

/-! ### Spans -/

/-- The position of a day of the table is inside the span the dates name. -/
def InDates (index : Transactions A) (fromSecond toSecond : Int64) (position : Nat) : Prop :=
  (fromSecond ≠ 0 → dayOfSecond fromSecond ≤ index.firstDay + position) ∧
    (toSecond ≠ 0 → index.firstDay + position ≤ dayOfSecond toSecond)

theorem spanOfDays_eq_some {fromSecond toSecond : Int64} {first last : Nat}
    (hspan : index.spanOfDays fromSecond toSecond = some (first, last)) {position : Nat}
    (hposition : position < index.dayMaxTx.size) :
    (first ≤ position ∧ position ≤ last) ↔ index.InDates fromSecond toSecond position := by
  rw [spanOfDays] at hspan
  dsimp only at hspan
  rw [InDates]
  by_cases hto : toSecond = 0 <;> by_cases hfrom : fromSecond = 0 <;>
  · simp only [hto, hfrom, ne_eq, not_true_eq_false, not_false_eq_true, if_true, if_false,
      false_implies, true_implies, true_and, and_true, iff_true] at hspan ⊢
    split_ifs at hspan <;> cases hspan <;> omega

theorem spanOfDays_eq_none {fromSecond toSecond : Int64}
    (hspan : index.spanOfDays fromSecond toSecond = none) {position : Nat}
    (hposition : position < index.dayMaxTx.size) : ¬index.InDates fromSecond toSecond position := by
  rw [spanOfDays] at hspan
  dsimp only at hspan
  rw [InDates]
  by_cases hto : toSecond = 0 <;> by_cases hfrom : fromSecond = 0 <;>
  · simp only [hto, hfrom, ne_eq, not_true_eq_false, not_false_eq_true, if_true, if_false,
      false_implies, true_implies, true_and, and_true] at hspan ⊢
    split_ifs at hspan <;> omega

theorem rangeOfDays_eq_some {fromSecond toSecond : Int64} {low high : Nat}
    (hrange : index.rangeOfDays fromSecond toSecond = some (low, high)) :
    ∃ first last cursor, index.spanOfDays fromSecond toSecond = some (first, last) ∧
      index.daySlot cursor ≠ 0 ∧ low = index.baseTxNr + index.startOffset first ∧
      high = index.baseTxNr + (index.daySlot cursor - 1) := by
  rw [rangeOfDays] at hrange
  split at hrange
  · cases hrange
  rcases hspan : index.spanOfDays fromSecond toSecond with _ | ⟨first, last⟩
  · rw [hspan] at hrange
    cases hrange
  rw [hspan] at hrange
  dsimp only at hrange
  rcases hcursor : index.lastNoted first (last + 1) with _ | cursor
  · rw [hcursor] at hrange
    cases hrange
  rw [hcursor] at hrange
  dsimp only at hrange
  split at hrange
  · cases hrange
  · cases hrange
    exact ⟨first, last, cursor, rfl, (lastNoted_eq_some hcursor).2.2.1, rfl, rfl⟩

/-- With a last day before the first day of the table there is no span. -/
theorem firstDay_le_of_rangeOfDays {fromSecond toSecond : Int64} {low high : Nat}
    (hto : toSecond ≠ 0) (hrange : index.rangeOfDays fromSecond toSecond = some (low, high)) :
    index.firstDay ≤ dayOfSecond toSecond := by
  obtain ⟨first, last, cursor, hspan, -, -, -⟩ := rangeOfDays_eq_some hrange
  rw [spanOfDays] at hspan
  dsimp only at hspan
  rw [if_pos hto] at hspan
  split at hspan
  · cases hspan
  · omega

theorem inSpan_iff {tx : CompleteTransaction} {fromSecond toSecond : Int64} {position : Nat}
    (hposition : dayOfSecond tx.confirmedAt.seconds - index.firstDay = position) :
    CompleteTransaction.InSpan dayOfSecond fromSecond toSecond tx ↔
      index.InDates fromSecond toSecond position := by
  rw [CompleteTransaction.InSpan, InDates,
    show index.firstDay + position = dayOfSecond tx.confirmedAt.seconds by omega]

/-! ### The range of a span -/

/-- What the end of a span is computed from: its last day that holds anything, with the
transaction noted there. -/
structure SpanEnd (txs : List CompleteTransaction) (index : Transactions A) (last cursor : Nat)
    (tx : CompleteTransaction) : Prop where
  le : cursor ≤ last
  mem : tx ∈ txs
  day : dayOfSecond tx.confirmedAt.seconds - index.firstDay = cursor
  slot : index.daySlot cursor = tx.nr - index.baseTxNr + 1
  above : ∀ other, cursor < other → other ≤ last → index.daySlot other = 0

section Exact

variable {txs : List CompleteTransaction} (hholds : Holds txs index)

include hholds

/-- Up to the last day of a span, the transactions are those numbered up to the one
noted at its end. -/
theorem SpanEnd.nr_le_iff {last cursor : Nat} {noted : CompleteTransaction}
    (hnoted : SpanEnd txs index last cursor noted) (hascend : DaysAscend dayOfSecond txs)
    {tx : CompleteTransaction} (htx : tx ∈ txs) {position : Nat}
    (hposition : dayOfSecond tx.confirmedAt.seconds - index.firstDay = position) :
    tx.nr ≤ noted.nr ↔ position ≤ last := by
  obtain ⟨place, hplace, hin, hslot⟩ := hholds.days.placed tx htx
  obtain rfl : place = position := by omega
  have hle := hnoted.le
  have hday := hnoted.day
  have hend := hnoted.slot
  constructor
  · intro hnr
    have hmono := DaysAscend.day_le hholds.numbers hascend htx hnoted.mem hnr
    omega
  · intro hlast
    by_contra hless
    have hmono := DaysAscend.day_le hholds.numbers hascend hnoted.mem htx (by omega)
    have hinside := hholds.inside tx htx
    have hinsideNoted := hholds.inside noted hnoted.mem
    rcases Nat.lt_or_ge cursor place with hlt | hge
    · have hzero := hnoted.above place hlt hlast
      omega
    · obtain rfl : place = cursor := by omega
      omega

/-- The transactions from the first day of a span on are those numbered from its start on. -/
theorem startOffset_le_iff (hascend : DaysAscend dayOfSecond txs) {first : Nat}
    {tx : CompleteTransaction} (htx : tx ∈ txs) {position : Nat}
    (hposition : dayOfSecond tx.confirmedAt.seconds - index.firstDay = position) :
    index.startOffset first ≤ tx.nr - index.baseTxNr ↔ first ≤ position := by
  have hinside := hholds.inside tx htx
  rw [startOffset]
  rcases hbefore : index.lastNoted 0 first with _ | before
  · have hnone := lastNoted_eq_none hbefore
    obtain ⟨place, hplace, hin, hslot⟩ := hholds.days.placed tx htx
    obtain rfl : place = position := by omega
    have hmem : tx.nr ∈ txs.map CompleteTransaction.nr := List.mem_map_of_mem htx
    rw [hholds.numbers, List.mem_range'_1] at hmem
    refine ⟨fun _ => ?_, fun _ => Nat.sub_le_sub_right hmem.1 _⟩
    by_contra hless
    have hzero := hnone place (Nat.zero_le _) (by omega)
    omega
  · obtain ⟨-, hlt, hne, habove⟩ := lastNoted_eq_some hbefore
    obtain ⟨noted, hmem, hday, hslot⟩ := hholds.days.noted before hne
    have hnoted : SpanEnd txs index (first - 1) before noted :=
      ⟨by omega, hmem, hday, hslot, fun other hother hle => habove other hother (by omega)⟩
    have hiff := hnoted.nr_le_iff hholds hascend htx hposition
    have hinsideNoted := hholds.inside noted hmem
    change index.daySlot before ≤ _ ↔ _
    rw [hslot]
    omega

theorem rangeOfDays_exact (hascend : DaysAscend dayOfSecond txs) (fromSecond toSecond : Int64) :
    ExactDays dayOfSecond txs fromSecond toSecond (index.rangeOfDays fromSecond toSecond) := by
  rw [rangeOfDays]
  by_cases hempty : ¬index.ready ∨ index.transactionCount = 0
  · rw [if_pos hempty]
    have hcount : txs = [] := by
      have hlength := hholds.count
      have hready := hholds.ready
      rcases hempty with hnot | hzero
      · exact absurd hready hnot
      · rw [hzero] at hlength
        exact List.length_eq_zero_iff.1 hlength.symm
    intro tx htx
    rw [hcount] at htx
    cases htx
  rw [if_neg hempty]
  rcases hspan : index.spanOfDays fromSecond toSecond with _ | ⟨first, last⟩
  · intro tx htx
    obtain ⟨position, hposition, hin, -⟩ := hholds.days.placed tx htx
    rw [inSpan_iff hposition]
    exact spanOfDays_eq_none hspan hin
  have hmatch : ∀ tx ∈ txs, ∀ position : Nat, dayOfSecond tx.confirmedAt.seconds - index.firstDay =
        position →
      ((first ≤ position ∧ position ≤ last) ↔
        CompleteTransaction.InSpan dayOfSecond fromSecond toSecond tx) := by
    intro tx htx position hposition
    obtain ⟨place, hplace, hin, -⟩ := hholds.days.placed tx htx
    obtain rfl : place = position := by omega
    rw [inSpan_iff hposition]
    exact spanOfDays_eq_some hspan hin
  dsimp only
  rcases hcursor : index.lastNoted first (last + 1) with _ | cursor
  · intro tx htx
    obtain ⟨position, hposition, hin, hslot⟩ := hholds.days.placed tx htx
    rw [← hmatch tx htx position hposition]
    rintro ⟨hlow, hhigh⟩
    have hzero := lastNoted_eq_none hcursor position hlow (by omega)
    omega
  obtain ⟨hlow, hhigh, hne, habove⟩ := lastNoted_eq_some hcursor
  obtain ⟨noted, hmem, hday, hslot⟩ := hholds.days.noted cursor hne
  have hnoted : SpanEnd txs index last cursor noted :=
    ⟨by omega, hmem, hday, hslot, fun other hother hle => habove other hother (by omega)⟩
  have hstart := (startOffset_le_iff hholds hascend hmem hday).2 hlow
  have hinsideNoted := hholds.inside noted hmem
  dsimp only
  rw [hslot, Nat.add_sub_cancel, if_neg (by omega)]
  refine ⟨⟨noted, hmem, (hmatch noted hmem cursor hday).1 ⟨hlow, by omega⟩⟩, fun tx htx => ?_⟩
  obtain ⟨position, hposition, -, -⟩ := hholds.days.placed tx htx
  have hend := hnoted.nr_le_iff hholds hascend htx hposition
  have hbegin : _ ↔ first ≤ position := startOffset_le_iff hholds hascend htx hposition
  have hinside := hholds.inside tx htx
  rw [← hmatch tx htx position hposition, ← hend, ← hbegin]
  omega

theorem minTxNr_le_startOffset (first : Nat) :
    index.minTxNr - index.baseTxNr ≤ index.startOffset first := by
  rw [startOffset]
  rcases hbefore : index.lastNoted 0 first with _ | before
  · exact Nat.le_refl _
  · obtain ⟨noted, hmem, -, hslot⟩ := hholds.days.noted before (lastNoted_eq_some hbefore).2.2.1
    have hnr : noted.nr ∈ txs.map CompleteTransaction.nr := List.mem_map_of_mem hmem
    rw [hholds.numbers, List.mem_range'_1] at hnr
    dsimp only
    omega

/-- Of the numbers that fall in a span, a range names the first and the last. -/
theorem rangeOfDays_eq_outermost (hascend : DaysAscend dayOfSecond txs)
    (fromSecond toSecond : Int64) :
    index.rangeOfDays fromSecond toSecond =
      outermost (numbersIn dayOfSecond fromSecond toSecond txs) := by
  have hexact := rangeOfDays_exact hholds hascend fromSecond toSecond
  have hin : ∀ number, number ∈ numbersIn dayOfSecond fromSecond toSecond txs ↔
      ∃ tx ∈ txs, CompleteTransaction.InSpan dayOfSecond fromSecond toSecond tx ∧
        tx.nr = number := by
    simp [numbersIn, and_assoc]
  rcases hrange : index.rangeOfDays fromSecond toSecond with _ | ⟨low, high⟩
  · rw [hrange] at hexact
    symm
    rw [outermost_eq_none, List.eq_nil_iff_forall_not_mem]
    intro number hnumber
    obtain ⟨tx, htx, hspan, -⟩ := (hin number).1 hnumber
    exact hexact tx htx hspan
  · rw [hrange] at hexact
    obtain ⟨⟨some, hsome, hspan⟩, hall⟩ := hexact
    have hbetween := (hall some hsome).2 hspan
    obtain ⟨first, last, cursor, -, hslot, hlow, hhigh⟩ := rangeOfDays_eq_some hrange
    obtain ⟨noted, hnoted, -, hnr⟩ := hholds.days.noted cursor hslot
    have hstart := minTxNr_le_startOffset hholds first
    have hnotedInside := hholds.inside noted hnoted
    have hsomeNr : some.nr ∈ txs.map CompleteTransaction.nr := List.mem_map_of_mem hsome
    -- The first number is one of the ledger's, as those have no gap.
    have hlowNr : low ∈ txs.map CompleteTransaction.nr := by
      rw [hholds.numbers, List.mem_range'_1] at hsomeNr ⊢
      omega
    obtain ⟨begin, hbegin, rfl⟩ := List.mem_map.1 hlowNr
    have hend : noted.nr = high := by omega
    symm
    rw [outermost_eq_some, hin, hin]
    refine ⟨⟨begin, hbegin, (hall begin hbegin).1 ⟨Nat.le_refl _, by omega⟩, rfl⟩,
      ⟨noted, hnoted, (hall noted hnoted).1 ⟨by omega, by omega⟩, hend⟩, fun number hnumber => ?_⟩
    obtain ⟨tx, htx, hinside, rfl⟩ := (hin number).1 hnumber
    exact (hall tx htx).2 hinside

end Exact

end Transactions

end GradidoBlockchain
