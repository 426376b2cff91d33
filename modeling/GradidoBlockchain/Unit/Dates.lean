import GradidoBlockchain.Lib.Drift
import GradidoBlockchain.Unit.Balances

/-!
# The decay along dates

Decay starts at one date for everyone, and between two dates it counts the seconds after that start.
A balance that is brought up to date at one date after the other stays close to one that is left
alone until the last of them.
-/

namespace GradidoBlockchain

namespace GrddUnit

open Halving

/-- `DECAY_START_TIME`, the answer of `grdd_unit_decay_start_time`. -/
def decayStartTime : Int64 := 1620927991

/-- A date, brought up to the start of the decay. -/
def started (date : Int64) : Int64 := if decayStartTime < date then date else decayStartTime

/-- `grdd_unit_calculate_duration_seconds`, with `none` where it returns false. -/
def calculateDurationSeconds (startTime endTime : Int64) : Option Int64 :=
  if endTime < startTime then none
  else if started startTime = started endTime then some 0
  else some (started endTime - started startTime)

/-- What an amount of one date has become at another. -/
def decayBetween (gdd startTime endTime : Int64) : Option Int64 :=
  (calculateDurationSeconds startTime endTime).bind fun duration =>
    (calculateDecay gdd duration).toOption

/-- An amount that is brought up to date at one date after the other. -/
def decayAlong : Int64 → Int64 → List Int64 → Option Int64
  | gdd, _, [] => some gdd
  | gdd, date, next :: dates =>
      (decayBetween gdd date next).bind fun left => decayAlong left next dates

/-! ### Between two dates -/

theorem toInt_started (date : Int64) : (started date).toInt = max date.toInt 1620927991 := by
  have hstart : decayStartTime.toInt = 1620927991 := by decide
  rw [started]
  split
  next hlt =>
    rw [Int64.lt_iff_toInt_lt, hstart] at hlt
    omega
  next hle =>
    rw [Int64.lt_iff_toInt_lt, hstart] at hle
    omega

/-- The seconds between two dates in which amounts decay. -/
def span (startTime endTime : Int64) : ℕ :=
  ((started endTime).toInt - (started startTime).toInt).toNat

theorem calculateDurationSeconds_of_lt {startTime endTime : Int64} (hlt : endTime < startTime) :
    calculateDurationSeconds startTime endTime = none := if_pos hlt

/-- From a date to a later one there is no overflow, and no duration is negative. -/
theorem calculateDurationSeconds_of_le {startTime endTime : Int64} (hle : startTime ≤ endTime) :
    ∃ duration : Int64, calculateDurationSeconds startTime endTime = some duration ∧ 0 ≤ duration ∧
      duration.toInt.toNat = span startTime endTime := by
  have hstart := toInt_started startTime
  have hend := toInt_started endTime
  have hendlt := Int64.toInt_lt endTime
  rw [calculateDurationSeconds, if_neg (Int64.not_lt.2 hle)]
  rw [Int64.le_iff_toInt_le] at hle
  split
  next heq => exact ⟨0, rfl, Int64.le_refl 0, by simp [span, heq]⟩
  next =>
    have hval : (started endTime - started startTime).toInt =
        ((span startTime endTime : ℕ) : ℤ) := by
      rw [Int64.toInt_sub, span, ← bmod_of_lt (by omega), Int.toNat_of_nonneg (by omega)]
    refine ⟨_, rfl, ?_, ?_⟩
    · rw [Int64.le_iff_toInt_le, hval, Int64.toInt_zero]
      exact Int.natCast_nonneg _
    · rw [hval, Int.toNat_natCast]

theorem decayBetween_of_lt (gdd : Int64) {startTime endTime : Int64} (hlt : endTime < startTime) :
    decayBetween gdd startTime endTime = none := by
  rw [decayBetween, calculateDurationSeconds_of_lt hlt, Option.bind_none]

/-- The law of the decay on whole numbers. -/
def decayedFor (amount seconds : ℕ) : ℕ := decayed (2 ^ 63) yearSeconds powerOf amount seconds

theorem decayBetween_of_le {gdd startTime endTime : Int64} (hgdd : 0 ≤ gdd)
    (hle : startTime ≤ endTime) :
    ∃ left : Int64, decayBetween gdd startTime endTime = some left ∧
      left.toInt = decayedFor gdd.toInt.toNat (span startTime endTime) := by
  obtain ⟨duration, hduration, hnonneg, hspan⟩ := calculateDurationSeconds_of_le hle
  obtain ⟨left, hleft, hval⟩ := calculateDecay_eq hgdd hnonneg
  refine ⟨left, ?_, ?_⟩
  · rw [decayBetween, hduration, Option.bind_some, hleft]
    rfl
  · rw [hval, hspan, decayedFor]

/-! ### Along the dates -/

/-- The spans from each date to the next. -/
def spans : Int64 → List Int64 → List ℕ
  | _, [] => []
  | date, next :: dates => span date next :: spans next dates

theorem span_add {first second third : Int64} (hfirst : first ≤ second) (hsecond : second ≤ third) :
    span first second + span second third = span first third := by
  rw [Int64.le_iff_toInt_le] at hfirst hsecond
  rw [span, span, span, toInt_started, toInt_started, toInt_started]
  omega

/-- The spans of dates that ascend add up to the span of them all. -/
theorem sum_spans {date : Int64} {dates : List Int64} (hascend : (date :: dates).IsChain (· ≤ ·)) :
    date ≤ dates.getLastD date ∧ (spans date dates).sum = span date (dates.getLastD date) := by
  induction dates generalizing date with
  | nil => simp [spans, span]
  | cons next dates ih =>
    obtain ⟨hle, hrest⟩ := List.isChain_cons_cons.1 hascend
    obtain ⟨hlast, hsum⟩ := ih hrest
    rw [spans, List.sum_cons, List.getLastD_cons, hsum]
    exact ⟨Int64.le_trans hle hlast, span_add hle hlast⟩

theorem length_spans (date : Int64) (dates : List Int64) :
    (spans date dates).length = dates.length := by
  induction dates generalizing date with
  | nil => rfl
  | cons next dates ih => rw [spans, List.length_cons, List.length_cons, ih]

theorem nonneg_of_toInt {left : Int64} {amount : ℕ} (hval : left.toInt = amount) : 0 ≤ left := by
  rw [Int64.le_iff_toInt_le, hval, Int64.toInt_zero]
  exact Int.natCast_nonneg _

/-- A run along dates that ascend is the law, applied for one span after the other. -/
theorem decayAlong_of_isChain {gdd date : Int64} {dates : List Int64} (hgdd : 0 ≤ gdd)
    (hascend : (date :: dates).IsChain (· ≤ ·)) :
    ∃ left : Int64, decayAlong gdd date dates = some left ∧
      left.toInt = (((spans date dates).foldl decayedFor gdd.toInt.toNat : ℕ) : ℤ) := by
  induction dates generalizing gdd date with
  | nil => exact ⟨gdd, rfl, (toInt_nonneg hgdd).symm⟩
  | cons next dates ih =>
    obtain ⟨hle, hrest⟩ := List.isChain_cons_cons.1 hascend
    obtain ⟨between, hbetween, hval⟩ := decayBetween_of_le hgdd hle
    obtain ⟨left, hleft, hrun⟩ := ih (nonneg_of_toInt hval) hrest
    refine ⟨left, ?_, ?_⟩
    · rw [decayAlong, hbetween, Option.bind_some, hleft]
    · rw [hrun, hval, Int.toNat_natCast, spans, List.foldl_cons]

/-- A run stops at the first date that lies before the one it follows. -/
theorem decayAlong_eq_none {gdd date : Int64} {dates : List Int64} (hgdd : 0 ≤ gdd)
    (hascend : ¬ (date :: dates).IsChain (· ≤ ·)) : decayAlong gdd date dates = none := by
  induction dates generalizing gdd date with
  | nil => exact absurd (List.isChain_singleton date) hascend
  | cons next dates ih =>
    rw [decayAlong]
    by_cases hle : date ≤ next
    · obtain ⟨between, hbetween, hval⟩ := decayBetween_of_le hgdd hle
      rw [hbetween, Option.bind_some]
      exact ih (nonneg_of_toInt hval) fun hrest => hascend (List.isChain_cons_cons.2 ⟨hle, hrest⟩)
    · rw [decayBetween_of_lt gdd (Int64.not_le.1 hle), Option.bind_none]

/-! ### Close to one step -/

theorem twice_near {amount first second : ℕ} (hamount : amount ≤ 2 ^ 56)
    (hlt : first + second < yearSeconds) :
    decayedFor (decayedFor amount first) second ≤ decayedFor amount (first + second) + 1 ∧
      decayedFor amount (first + second) ≤ decayedFor (decayedFor amount first) second + 1 := by
  have hyear : yearSeconds < 2 ^ 25 := by decide
  obtain ⟨hbelow, habove⟩ := powerOf_add_near (show first + second < 2 ^ 25 by omega)
  rw [decayedFor, decayedFor, decayedFor, decayed_of_lt hlt,
    decayed_of_lt (show first < yearSeconds by omega),
    decayed_of_lt (show second < yearSeconds by omega)]
  apply nearest_twice hamount (powerOf_le (by omega))
  · exact_mod_cast hbelow
  · exact_mod_cast habove

/-- Within a year, and up to `2 ^ 56` units, a duration may be cut in two for a unit. -/
theorem decayedFor_lossy : Drift.Lossy decayedFor (2 ^ 56) yearSeconds where
  zero amount := powerOf_law.decayed_zero amount
  le amount duration := powerOf_law.decayed_le amount duration
  twice_le hamount hlt := (twice_near hamount hlt).1
  le_twice hamount hlt := (twice_near hamount hlt).2

/-- A run that goes through is, within a year, at most a unit away from a single step for every date
after the second. -/
structure Settled (gdd date : Int64) (dates : List Int64) (left : Int64) : Prop where
  nonneg : 0 ≤ left
  le : left ≤ gdd
  near : gdd.toInt ≤ 2 ^ 56 →
    (started (dates.getLastD date)).toInt - (started date).toInt < secondsPerYear.toInt →
    ∃ once : Int64, decayBetween gdd date (dates.getLastD date) = some once ∧
      |left.toInt - once.toInt| ≤ ((dates.length - 1 : ℕ) : ℤ)

theorem settled_of_isChain {gdd date left : Int64} {dates : List Int64} (hgdd : 0 ≤ gdd)
    (hascend : (date :: dates).IsChain (· ≤ ·))
    (hleft : left.toInt = (((spans date dates).foldl decayedFor gdd.toInt.toNat : ℕ) : ℤ)) :
    Settled gdd date dates left where
  nonneg := nonneg_of_toInt hleft
  le := by
    have hle := Drift.foldl_le powerOf_law.decayed_le (spans date dates) gdd.toInt.toNat
    have hgddval := toInt_nonneg hgdd
    rw [Int64.le_iff_toInt_le, hleft, ← hgddval]
    exact Int.ofNat_le.2 hle
  near hamount hyear := by
    obtain ⟨hlast, hsum⟩ := sum_spans hascend
    obtain ⟨once, honce, hval⟩ := decayBetween_of_le hgdd hlast
    refine ⟨once, honce, ?_⟩
    rw [show secondsPerYear.toInt = (yearSeconds : ℤ) by decide] at hyear
    have hspan : span date (dates.getLastD date) < yearSeconds := by
      have hpos : 0 < yearSeconds := by decide
      rw [span]
      omega
    rw [← hsum] at hspan hval
    rw [hleft, hval, ← length_spans date dates, abs_le]
    generalize spans date dates = steps at hspan ⊢
    cases steps with
    | nil => simp [decayedFor_lossy.zero]
    | cons first rest =>
      rw [List.sum_cons] at hspan ⊢
      rw [List.foldl_cons, List.length_cons]
      have hnear :=
        decayedFor_lossy.foldl_near first rest (show gdd.toInt.toNat ≤ 2 ^ 56 by omega) hspan
      omega

/-- An amount can be brought up to date along dates just when they ascend, and is then settled. -/
theorem decayAlong_settles {gdd : Int64} (hgdd : 0 ≤ gdd) (date : Int64) (dates : List Int64) :
    ((decayAlong gdd date dates).isSome ↔ (date :: dates).IsChain (· ≤ ·)) ∧
      ∀ left, decayAlong gdd date dates = some left → Settled gdd date dates left := by
  by_cases hascend : (date :: dates).IsChain (· ≤ ·)
  · obtain ⟨left, hrun, hval⟩ := decayAlong_of_isChain hgdd hascend
    rw [hrun]
    refine ⟨by simp [hascend], ?_⟩
    intro answer heq
    rw [← Option.some.inj heq]
    exact settled_of_isChain hgdd hascend hval
  · rw [decayAlong_eq_none hgdd hascend]
    simp [hascend]

/-- A date before the start, the start, an hour and a day after it. -/
theorem decayAlong_settles_day :
    ((decayAlong 70000000 1500000000 [1620927991, 1620931591, 1621014391]).isSome ↔
        ([1500000000, 1620927991, 1620931591, 1621014391] : List Int64).IsChain (· ≤ ·)) ∧
      ∀ left, decayAlong 70000000 1500000000 [1620927991, 1620931591, 1621014391] = some left →
        Settled 70000000 1500000000 [1620927991, 1620931591, 1621014391] left :=
  decayAlong_settles (show (0 : Int64) ≤ 70000000 by decide) 1500000000
    [1620927991, 1620931591, 1621014391]

end GrddUnit

end GradidoBlockchain
