import GradidoBlockchain.Types

/-!
# Days

The index counts confirmations in days since the epoch, going down for seconds before it. The day is
computed in 64 bits. Negating a second or rounding it up leaves these 64 bits for the very first day
a second can name, and the sum wraps to the far end of time.
-/

namespace GradidoBlockchain

/-- `INDEX_SECONDS_PER_DAY`. -/
def secondsPerDay : Int64 := 86400

/-- `day_of_second`. -/
def dayOfSecond (seconds : Int64) : Int :=
  (if 0 ≤ seconds then seconds / secondsPerDay
    else -((-seconds + secondsPerDay - 1) / secondsPerDay)).toInt

/-- The UTC day a second falls in. -/
def utcDay (seconds : Int64) : Int := seconds.toInt / 86400

/-- The seconds whose day is computed without leaving 64 bits. -/
def DayFits (seconds : Int64) : Prop := -2 ^ 63 + 86400 ≤ seconds.toInt

instance (seconds : Int64) : Decidable (DayFits seconds) := by
  unfold DayFits
  infer_instance

private theorem bmod_eq {value : Int} (hlow : -2 ^ 63 ≤ value) (hhigh : value < 2 ^ 63) :
    value.bmod (2 ^ 64) = value :=
  Int.bmod_eq_of_le (by omega) (by omega)

theorem toInt_secondsPerDay : secondsPerDay.toInt = 86400 := by decide

private theorem toInt_div_day (value : Int64) :
    (value / secondsPerDay).toInt = value.toInt.tdiv 86400 := by
  rw [Int64.toInt_div_of_ne_right _ _ (by decide), toInt_secondsPerDay]

private theorem tdiv_day (value : Int) :
    value.tdiv 86400 = if 0 ≤ value then value / 86400 else -(-value / 86400) := by
  by_cases hnonneg : 0 ≤ value
  · rw [if_pos hnonneg, Int.tdiv_eq_ediv_of_nonneg hnonneg]
  · have hneg := Int.neg_tdiv (-value) 86400
    rw [Int.neg_neg, Int.tdiv_eq_ediv_of_nonneg (a := -value) (by omega)] at hneg
    rw [if_neg hnonneg, hneg]

private theorem toInt_neg_div_day (value : Int64) :
    (-(value / secondsPerDay)).toInt = -value.toInt.tdiv 86400 := by
  have hlow := value.le_toInt
  have hhigh := value.toInt_lt
  rw [Int64.toInt_neg, toInt_div_day, tdiv_day]
  split <;> exact bmod_eq (by omega) (by omega)

private theorem toInt_round_up (seconds : Int64) :
    (-seconds + secondsPerDay - 1).toInt = (-seconds.toInt + 86399).bmod (2 ^ 64) := by
  rw [Int64.toInt_sub, Int64.toInt_add, Int64.toInt_neg, toInt_secondsPerDay, show (1 : Int64).toInt = 1 by decide,
    Int.bmod_sub_bmod, Int.add_sub_assoc, Int.bmod_add_bmod]
  rfl

/-- Inside 64 bits the code computes the UTC day. -/
theorem dayOfSecond_eq {seconds : Int64} (hfits : DayFits seconds) :
    dayOfSecond seconds = utcDay seconds := by
  have hhigh := seconds.toInt_lt
  rw [DayFits] at hfits
  rw [dayOfSecond, utcDay]
  by_cases hnonneg : 0 ≤ seconds
  · have hpos : 0 ≤ seconds.toInt := Int64.le_iff_toInt_le.1 hnonneg
    rw [if_pos hnonneg, toInt_div_day, tdiv_day, if_pos hpos]
  · have hneg : ¬0 ≤ seconds.toInt := fun h => hnonneg (Int64.le_iff_toInt_le.2 h)
    rw [if_neg hnonneg, toInt_neg_div_day, toInt_round_up, bmod_eq (by omega) (by omega), tdiv_day,
      if_pos (by omega)]
    omega

/-- The first day of the range comes out as one of its last two. -/
theorem dayOfSecond_of_not_fits {seconds : Int64} (hfits : ¬DayFits seconds) :
    106751991167299 ≤ dayOfSecond seconds := by
  have hlow := seconds.le_toInt
  rw [DayFits] at hfits
  have hneg : ¬0 ≤ seconds := by
    rw [Int64.le_iff_toInt_le]
    change ¬0 ≤ seconds.toInt
    omega
  have hwrap : (-seconds.toInt + 86399).bmod (2 ^ 64) = -seconds.toInt + 86399 - 2 ^ 64 := by
    exact (Int.sub_bmod_right _ (2 ^ 64)).symm.trans (bmod_eq (by omega) (by omega))
  rw [dayOfSecond, if_neg hneg, toInt_neg_div_day, toInt_round_up, hwrap, tdiv_day,
    if_neg (by omega)]
  omega

theorem utcDay_mono {first second : Int64} (hle : first.toInt ≤ second.toInt) :
    utcDay first ≤ utcDay second := by
  rw [utcDay, utcDay]
  omega

/-- The first second whose day is computed right. -/
def earliestFit : Int64 := Int64.ofInt (-2 ^ 63 + 86400)

theorem utcDay_le_earliestFit {seconds : Int64} (hfits : ¬DayFits seconds) :
    utcDay seconds ≤ utcDay earliestFit := by
  refine utcDay_mono ?_
  rw [DayFits] at hfits
  rw [show earliestFit.toInt = -2 ^ 63 + 86400 by decide]
  omega

end GradidoBlockchain
