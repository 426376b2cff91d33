import GradidoBlockchain.Types

/-!
# Points in time

`timestamp.c`: sums and differences of timestamps. Seconds are pinned to the ends of their
range, and whole seconds are moved out of the nanoseconds, of which nothing on the way bounds
the ones that come in.
-/

namespace GradidoBlockchain

/-- `NANOS_PER_SECOND`. -/
def nanosPerSecond : ℤ := 1000000000

/-- `seconds_add`. -/
def secondsAdd (a b : Int64) : Int64 :=
  if 0 < b ∧ Int64.maxValue - b < a then Int64.maxValue
  else if b < 0 ∧ a < Int64.minValue - b then Int64.minValue
  else a + b

/-- `seconds_sub`. -/
def secondsSub (a b : Int64) : Int64 :=
  if b < 0 ∧ Int64.maxValue + b < a then Int64.maxValue
  else if 0 < b ∧ a < Int64.minValue + b then Int64.minValue
  else a - b

namespace Timestamp

/-- `normalize`. The division truncates, so that a negative remainder still owes a whole second. -/
def normalize (seconds nanos : Int64) : Timestamp :=
  let carry := nanos / 1000000000
  let rest := (nanos % 1000000000).toInt32
  if rest < 0 then ⟨secondsAdd seconds (carry - 1), rest + 1000000000⟩
    else ⟨secondsAdd seconds carry, rest⟩

/-- `grdd_timestamp_minus`. -/
def minus (t1 t2 : Timestamp) : Timestamp :=
  normalize (secondsSub t1.seconds t2.seconds) (t1.nanos.toInt64 - t2.nanos.toInt64)

/-- `grdd_timestamp_plus`. -/
def plus (t1 t2 : Timestamp) : Timestamp :=
  normalize (secondsAdd t1.seconds t2.seconds) (t1.nanos.toInt64 + t2.nanos.toInt64)

/-! ### What a timestamp denotes -/

/-- The nanoseconds since the epoch. -/
def total (t : Timestamp) : ℤ := t.seconds.toInt * nanosPerSecond + t.nanos.toInt

/-- The nanoseconds lie within their second. -/
def Normal (t : Timestamp) : Prop := 0 ≤ t.nanos.toInt ∧ t.nanos.toInt < nanosPerSecond

instance (t : Timestamp) : Decidable t.Normal := inferInstanceAs (Decidable (_ ∧ _))

end Timestamp

/-- A number of seconds that a timestamp can hold. -/
def SecondsFit (seconds : ℤ) : Prop := -2 ^ 63 ≤ seconds ∧ seconds < 2 ^ 63

instance (seconds : ℤ) : Decidable (SecondsFit seconds) := inferInstanceAs (Decidable (_ ∧ _))

/-- A number of seconds pinned to the ends of their range. -/
def pinned (seconds : ℤ) : ℤ := max (-2 ^ 63) (min (2 ^ 63 - 1) seconds)

theorem pinned_eq {seconds : ℤ} (hfit : SecondsFit seconds) : pinned seconds = seconds := by
  obtain ⟨hlow, hhigh⟩ := hfit
  rw [pinned]
  omega

/-! ### Seconds -/

theorem secondsFit_toInt (a : Int64) : SecondsFit a.toInt := ⟨a.le_toInt, a.toInt_lt⟩

private theorem bmod_eq_self {value : ℤ} (hfit : SecondsFit value) :
    value.bmod (2 ^ 64) = value := by
  obtain ⟨hlow, hhigh⟩ := hfit
  apply Int.bmod_eq_of_le <;> omega

private theorem toInt_maxValue : Int64.maxValue.toInt = 2 ^ 63 - 1 := by decide

private theorem toInt_minValue : Int64.minValue.toInt = -2 ^ 63 := by decide

private theorem toInt_zero : (0 : Int64).toInt = 0 := by decide

/-- A step that the guards let pass stays in range, and one that they stop would leave it at
the end they name. -/
private theorem toInt_guarded {a step : ℤ} {above below : Prop} [Decidable above] [Decidable below]
    {moved : Int64} (ha : SecondsFit a) (hstep : -2 ^ 63 ≤ step ∧ step ≤ 2 ^ 63)
    (hguard : above ↔ 0 < step ∧ (2 ^ 63 - 1 - step).bmod (2 ^ 64) < a)
    (hguard' : below ↔ step < 0 ∧ a < (-2 ^ 63 - step).bmod (2 ^ 64))
    (hmoved : moved.toInt = (a + step).bmod (2 ^ 64)) :
    (if above then Int64.maxValue else if below then Int64.minValue else moved).toInt =
      pinned (a + step) := by
  obtain ⟨hlow, hhigh⟩ := ha
  have habove : above ↔ 2 ^ 63 - 1 < a + step := by
    rw [hguard]
    by_cases hpos : 0 < step
    · rw [bmod_eq_self ⟨by omega, by omega⟩]
      omega
    · omega
  have hbelow : below ↔ a + step < -2 ^ 63 := by
    rw [hguard']
    by_cases hneg : step < 0
    · rw [bmod_eq_self ⟨by omega, by omega⟩]
      omega
    · omega
  rw [pinned]
  split
  case isTrue h =>
    rw [habove] at h
    rw [toInt_maxValue]
    omega
  case isFalse h =>
    rw [habove] at h
    split
    case isTrue h' =>
      rw [hbelow] at h'
      rw [toInt_minValue]
      omega
    case isFalse h' =>
      rw [hbelow] at h'
      have hfit : SecondsFit (a + step) := ⟨by omega, by omega⟩
      rw [hmoved, bmod_eq_self hfit, ← pinned, pinned_eq hfit]

theorem toInt_secondsAdd (a b : Int64) : (secondsAdd a b).toInt = pinned (a.toInt + b.toInt) := by
  obtain ⟨hlow, hhigh⟩ := secondsFit_toInt b
  rw [secondsAdd]
  apply toInt_guarded (secondsFit_toInt a) ⟨hlow, Int.le_of_lt hhigh⟩
  · rw [Int64.lt_iff_toInt_lt, Int64.lt_iff_toInt_lt, Int64.toInt_sub, toInt_maxValue, toInt_zero]
  · rw [Int64.lt_iff_toInt_lt, Int64.lt_iff_toInt_lt, Int64.toInt_sub, toInt_minValue, toInt_zero]
  · exact Int64.toInt_add a b

theorem toInt_secondsSub (a b : Int64) : (secondsSub a b).toInt = pinned (a.toInt - b.toInt) := by
  obtain ⟨hlow, hhigh⟩ := secondsFit_toInt b
  rw [secondsSub, Int.sub_eq_add_neg]
  apply toInt_guarded (secondsFit_toInt a) ⟨by omega, by omega⟩
  · rw [Int64.lt_iff_toInt_lt, Int64.lt_iff_toInt_lt, Int64.toInt_add, toInt_maxValue, toInt_zero,
      Int.neg_pos, Int.sub_neg]
  · rw [Int64.lt_iff_toInt_lt, Int64.lt_iff_toInt_lt, Int64.toInt_add, toInt_minValue, toInt_zero,
      Int.neg_neg_iff_pos, Int.sub_neg]
  · rw [Int64.toInt_sub, Int.sub_eq_add_neg]

namespace Timestamp

/-! ### Normalising -/

/-- Division that truncates, put right where it has left a negative remainder. -/
private theorem floor_of_truncated (nanos : ℤ) :
    (nanos.tmod 1000000000 < 0 →
        nanos / 1000000000 = nanos.tdiv 1000000000 - 1 ∧
          nanos % 1000000000 = nanos.tmod 1000000000 + 1000000000) ∧
      (0 ≤ nanos.tmod 1000000000 →
        nanos / 1000000000 = nanos.tdiv 1000000000 ∧
          nanos % 1000000000 = nanos.tmod 1000000000) := by
  have hsum := Int.mul_tdiv_add_tmod nanos 1000000000
  have hlow : -1000000000 < nanos.tmod 1000000000 := Int.lt_tmod_of_pos nanos (by decide)
  have hhigh : nanos.tmod 1000000000 < 1000000000 := Int.tmod_lt_of_pos nanos (by decide)
  constructor
  · intro hneg
    omega
  · intro hnonneg
    omega

/-- The seconds gain the whole seconds of the nanoseconds, which keep the rest. -/
theorem normalize_eq (seconds nanos : Int64) :
    (normalize seconds nanos).seconds.toInt =
        pinned (seconds.toInt + nanos.toInt / nanosPerSecond) ∧
      (normalize seconds nanos).nanos.toInt = nanos.toInt % nanosPerSecond := by
  obtain ⟨hlow, hhigh⟩ := secondsFit_toInt nanos
  obtain ⟨hneg, hnonneg⟩ := floor_of_truncated nanos.toInt
  have hrest : (nanos % 1000000000).toInt32.toInt = nanos.toInt.tmod 1000000000 := by
    have hbelow := Int.lt_tmod_of_pos nanos.toInt (show (0 : ℤ) < 1000000000 by decide)
    have habove := Int.tmod_lt_of_pos nanos.toInt (show (0 : ℤ) < 1000000000 by decide)
    rw [Int64.toInt_toInt32, Int64.toInt_mod,
      show (1000000000 : Int64).toInt = 1000000000 by decide]
    apply Int.bmod_eq_of_le <;> omega
  have hcarry : (nanos / 1000000000).toInt = nanos.toInt.tdiv 1000000000 := by
    rw [Int64.toInt_div, show (1000000000 : Int64).toInt = 1000000000 by decide,
      bmod_eq_self ⟨by omega, by omega⟩]
  have hzero : (0 : Int32).toInt = 0 := by decide
  rw [normalize, nanosPerSecond]
  simp only [Int32.lt_iff_toInt_lt, hrest, hzero]
  split
  case isTrue hrestneg =>
    obtain ⟨hdiv, hmod⟩ := hneg hrestneg
    have hless : (nanos / 1000000000 - 1).toInt = nanos.toInt / 1000000000 := by
      rw [Int64.toInt_sub, hcarry, show (1 : Int64).toInt = 1 by decide, ← hdiv,
        bmod_eq_self ⟨by omega, by omega⟩]
    constructor
    · show (secondsAdd seconds (nanos / 1000000000 - 1)).toInt = _
      rw [toInt_secondsAdd, hless]
    · show ((nanos % 1000000000).toInt32 + 1000000000).toInt = _
      rw [Int32.toInt_add, hrest, show (1000000000 : Int32).toInt = 1000000000 by decide, ← hmod]
      apply Int.bmod_eq_of_le <;> omega
  case isFalse hrestnonneg =>
    obtain ⟨hdiv, hmod⟩ := hnonneg (by omega)
    constructor
    · show (secondsAdd seconds (nanos / 1000000000)).toInt = _
      rw [toInt_secondsAdd, hcarry, hdiv]
    · rw [hrest, hmod]

/-! ### Sums and differences -/

/-- The sum of the seconds fits, and so does the sum with the whole seconds of the nanoseconds. -/
def SumFits (a b : Timestamp) : Prop :=
  SecondsFit (a.seconds.toInt + b.seconds.toInt) ∧
    SecondsFit
      (a.seconds.toInt + b.seconds.toInt + (a.nanos.toInt + b.nanos.toInt) / nanosPerSecond)

/-- The same of a difference. -/
def DifferenceFits (a b : Timestamp) : Prop :=
  SecondsFit (a.seconds.toInt - b.seconds.toInt) ∧
    SecondsFit
      (a.seconds.toInt - b.seconds.toInt + (a.nanos.toInt - b.nanos.toInt) / nanosPerSecond)

instance (a b : Timestamp) : Decidable (SumFits a b) := inferInstanceAs (Decidable (_ ∧ _))

instance (a b : Timestamp) : Decidable (DifferenceFits a b) := inferInstanceAs (Decidable (_ ∧ _))

theorem plus_eq (a b : Timestamp) :
    (plus a b).seconds.toInt =
        pinned (pinned (a.seconds.toInt + b.seconds.toInt) +
          (a.nanos.toInt + b.nanos.toInt) / nanosPerSecond) ∧
      (plus a b).nanos.toInt = (a.nanos.toInt + b.nanos.toInt) % nanosPerSecond := by
  have hnanos : (a.nanos.toInt64 + b.nanos.toInt64).toInt = a.nanos.toInt + b.nanos.toInt := by
    have ha := a.nanos.le_toInt
    have ha' := a.nanos.toInt_lt
    have hb := b.nanos.le_toInt
    have hb' := b.nanos.toInt_lt
    rw [Int64.toInt_add, Int32.toInt_toInt64, Int32.toInt_toInt64,
      bmod_eq_self ⟨by omega, by omega⟩]
  have hnormal := normalize_eq (secondsAdd a.seconds b.seconds) (a.nanos.toInt64 + b.nanos.toInt64)
  rw [toInt_secondsAdd, hnanos] at hnormal
  exact hnormal

theorem minus_eq (a b : Timestamp) :
    (minus a b).seconds.toInt =
        pinned (pinned (a.seconds.toInt - b.seconds.toInt) +
          (a.nanos.toInt - b.nanos.toInt) / nanosPerSecond) ∧
      (minus a b).nanos.toInt = (a.nanos.toInt - b.nanos.toInt) % nanosPerSecond := by
  have hnanos : (a.nanos.toInt64 - b.nanos.toInt64).toInt = a.nanos.toInt - b.nanos.toInt := by
    have ha := a.nanos.le_toInt
    have ha' := a.nanos.toInt_lt
    have hb := b.nanos.le_toInt
    have hb' := b.nanos.toInt_lt
    rw [Int64.toInt_sub, Int32.toInt_toInt64, Int32.toInt_toInt64,
      bmod_eq_self ⟨by omega, by omega⟩]
  have hnormal := normalize_eq (secondsSub a.seconds b.seconds) (a.nanos.toInt64 - b.nanos.toInt64)
  rw [toInt_secondsSub, hnanos] at hnormal
  exact hnormal

theorem normal_of_nanos {t : Timestamp} {nanos : ℤ}
    (hnanos : t.nanos.toInt = nanos % nanosPerSecond) : Normal t := by
  rw [Normal, hnanos, nanosPerSecond]
  omega

theorem plus_total {a b : Timestamp} (hfits : SumFits a b) :
    (plus a b).total = a.total + b.total := by
  obtain ⟨hseconds, hnanos⟩ := plus_eq a b
  rw [pinned_eq hfits.1, pinned_eq hfits.2] at hseconds
  simp only [total, hseconds, hnanos, nanosPerSecond]
  omega

theorem minus_total {a b : Timestamp} (hfits : DifferenceFits a b) :
    (minus a b).total = a.total - b.total := by
  obtain ⟨hseconds, hnanos⟩ := minus_eq a b
  rw [pinned_eq hfits.1, pinned_eq hfits.2] at hseconds
  simp only [total, hseconds, hnanos, nanosPerSecond]
  omega

/-- Sums and differences come with their nanoseconds in range. They are exact where their seconds
fit, and what has been added can then be taken away again. -/
theorem arithmetic_exact (a b : Timestamp) :
    (Normal (plus a b) ∧ Normal (minus a b)) ∧
      (SumFits a b → (plus a b).total = a.total + b.total) ∧
      (DifferenceFits a b → (minus a b).total = a.total - b.total) ∧
      (SumFits a b → DifferenceFits (plus a b) b →
        Normal (minus (plus a b) b) ∧ (minus (plus a b) b).total = a.total) := by
  refine ⟨⟨normal_of_nanos (plus_eq a b).2, normal_of_nanos (minus_eq a b).2⟩, plus_total,
    minus_total, fun hsum hdifference => ?_⟩
  refine ⟨normal_of_nanos (minus_eq (plus a b) b).2, ?_⟩
  rw [minus_total hdifference, plus_total hsum]
  omega

/-- At the end of the range, with nanoseconds of either sign. -/
theorem arithmetic_exact_negative :
    (minus (plus ⟨Int64.minValue, 2000000001⟩ ⟨0, -5⟩) ⟨0, -5⟩).total =
      (⟨Int64.minValue, 2000000001⟩ : Timestamp).total :=
  ((arithmetic_exact ⟨Int64.minValue, 2000000001⟩ ⟨0, -5⟩).2.2.2 (by decide) (by decide)).2

end Timestamp

end GradidoBlockchain
