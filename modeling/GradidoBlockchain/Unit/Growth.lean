import GradidoBlockchain.Unit.Balances

/-!
# Backwards in time

A negative duration asks for the amount that decays to the given one: the amount is divided by the
factor. The years are not taken off first, so that the exponent can leave the table, the factor can
vanish and the product can leave its 128 bits.
-/

namespace GradidoBlockchain

namespace GrddUnit

open Halving

variable {gdd duration : Int64}

/-! ### The factor -/

theorem exponent_of_neg (hneg : duration < 0) : exponent duration = (-duration.toInt).toNat := by
  rw [Int64.lt_iff_toInt_lt, Int64.toInt_zero] at hneg
  rw [exponent, R128.toNat_magnitude]
  omega

/-- The seconds after which no unit of a factor is left. -/
def vanishing : ℕ := 2019644928

theorem powerOf_pos {seconds : ℕ} (hlt : seconds < vanishing) : 0 < powerOf seconds := by
  have hlast : 0 < powerOf (vanishing - 1) := by decide
  rw [vanishing] at hlt hlast
  exact hlast.trans_le (powerOf_antitone (by omega) (by decide))

theorem powerOf_eq_zero {seconds : ℕ} (hle : vanishing ≤ seconds)
    (hlt : seconds < 2 ^ 32) : powerOf seconds = 0 := by
  have hfirst : powerOf vanishing = 0 := by decide
  exact Nat.le_zero.1 (hfirst ▸ powerOf_antitone hle hlt)

theorem decayFactor_of_neg (hneg : duration < 0) (hlt : (-duration.toInt).toNat < 2 ^ 32) :
    ∃ factor : R128, decayFactor duration = .ok factor ∧
      factor.value = powerOf (-duration.toInt).toNat := by
  rw [decayFactor, exponent_of_neg hneg]
  exact decayLoop_eq 64 0 (by decide) (by decide) hlt le_rfl

theorem calculateDecay_of_neg (hgdd : 0 ≤ gdd) (hneg : duration < 0) :
    calculateDecay gdd duration = decaySeconds gdd gdd duration := by
  have hzero : duration ≠ 0 := by
    intro heq
    rw [heq] at hneg
    exact absurd hneg (by decide)
  have hyear : ¬ secondsPerYear ≤ duration := by
    rw [Int64.not_le]
    exact Int64.lt_trans hneg (by decide)
  rw [calculateDecay, if_neg hzero, if_neg (Int64.not_lt.2 hgdd), if_neg hyear]

/-! ### Inside the table -/

/-- The run ends with an answer, and nothing has been divided by zero on the way. -/
def StaysInside (gdd duration : Int64) : Prop :=
  (∃ left, calculateDecay gdd duration = .ok left) ∧
    ∀ factor, duration < 0 → decayFactor duration = .ok factor → factor ≠ R128.zero

/-- A duration stays inside the table unless it goes back 64 years or more. -/
theorem staysInside_iff (hgdd : 0 ≤ gdd) :
    StaysInside gdd duration ↔ -(vanishing : ℤ) < duration.toInt := by
  by_cases hneg : duration < 0
  · have hsign := hneg
    rw [Int64.lt_iff_toInt_lt, Int64.toInt_zero] at hsign
    have hbound := duration.le_toInt
    rw [StaysInside, calculateDecay_of_neg hgdd hneg]
    constructor
    · intro ⟨⟨left, hrun⟩, hnonzero⟩
      by_contra hlong
      by_cases hlt : (-duration.toInt).toNat < 2 ^ 32
      · obtain ⟨factor, hfactor, hvalue⟩ := decayFactor_of_neg hneg hlt
        apply hnonzero factor hneg hfactor
        apply R128.value_injective
        rw [hvalue, powerOf_eq_zero (by rw [vanishing] at hlong ⊢; omega) hlt]
        rfl
      · obtain ⟨j, herror, -⟩ := @decayLoop_error 64 (exponent duration) 0 R128.one
          (by rw [exponent_of_neg hneg]; omega) (by rw [exponent_of_neg hneg]; omega)
        rw [decaySeconds, decayFactor, herror] at hrun
        cases hrun
    · intro hshort
      have hseconds : (-duration.toInt).toNat < vanishing := by
        rw [vanishing] at hshort ⊢
        omega
      obtain ⟨factor, hfactor, hvalue⟩ :=
        decayFactor_of_neg hneg (by rw [vanishing] at hseconds; omega)
      refine ⟨⟨if 0 < gdd ∧ applyFactor gdd (R128.div R128.one factor) < 0 then maxAmount
            else applyFactor gdd (R128.div R128.one factor),
          by simp only [decaySeconds, hfactor, if_pos hneg]⟩, ?_⟩
      intro other _ hother hzero
      rw [hother, Except.ok.injEq] at hfactor
      have hpos := powerOf_pos hseconds
      rw [← hvalue, ← hfactor, hzero] at hpos
      exact absurd hpos (by decide)
  · have hnonneg : 0 ≤ duration := Int64.not_lt.1 hneg
    have hsign := Int64.le_iff_toInt_le.1 hnonneg
    rw [Int64.toInt_zero] at hsign
    obtain ⟨left, hrun, -⟩ := calculateDecay_eq hgdd hnonneg
    refine ⟨fun _ => by rw [vanishing]; omega,
      fun _ => ⟨⟨left, hrun⟩, fun _ hback _ => absurd hback hneg⟩⟩

theorem staysInside_year :
    StaysInside 10000 (-31556952) ↔ -(vanishing : ℤ) < (-31556952 : Int64).toInt :=
  staysInside_iff (by decide)

/-- A duration of 2 ^ 32 seconds reads the entry after the last one. -/
theorem not_staysInside : ¬ ∀ gdd duration : Int64, 0 ≤ gdd → StaysInside gdd duration := by
  intro hinside
  have hrun : calculateDecay 10000 (-4294967296) = .error (.index 32) := by decide
  obtain ⟨⟨left, hleft⟩, -⟩ := hinside 10000 (-4294967296) (by decide)
  rw [hrun] at hleft
  cases hleft

/-! ### The amount before -/

/-- What a negative duration makes of an amount, with the largest amount for a product that
reads as negative. -/
def grownBy (gdd : Int64) (growth : R128) : Int64 :=
  if 0 < gdd ∧ applyFactor gdd growth < 0 then maxAmount else applyFactor gdd growth

theorem calculateDecay_grown (hgdd : 0 ≤ gdd) (hneg : duration < 0)
    (hlt : (-duration.toInt).toNat < 2 ^ 32) :
    ∃ factor : R128, decayFactor duration = .ok factor ∧
      factor.value = powerOf (-duration.toInt).toNat ∧
      calculateDecay gdd duration = .ok (grownBy gdd (R128.div R128.one factor)) := by
  obtain ⟨factor, hfactor, hvalue⟩ := decayFactor_of_neg hneg hlt
  refine ⟨factor, hfactor, hvalue, ?_⟩
  rw [calculateDecay_of_neg hgdd hneg]
  simp only [decaySeconds, hfactor, if_pos hneg, grownBy]

/-- A product that fits is not taken for an overflow. -/
theorem grownBy_of_lt {growth : R128} (hgdd : 0 ≤ gdd)
    (hfits : gdd.toInt.toNat * growth.value < 2 ^ 127 - 2 ^ 63) :
    (grownBy gdd growth).toInt = nearest (2 ^ 63) (gdd.toInt.toNat * growth.value) := by
  have happlied := applyFactor_of_lt hgdd hfits
  have hsign : ¬ applyFactor gdd growth < 0 := by
    rw [Int64.lt_iff_toInt_lt, happlied, Int64.toInt_zero]
    exact Int.not_lt.2 (Int.natCast_nonneg _)
  rw [grownBy, if_neg (fun hflip => hsign hflip.2), happlied]

/-- Within a year the factor stays above one half. -/
theorem powerOf_within {seconds : ℕ} (hpos : 0 < seconds) (hlt : seconds < yearSeconds) :
    2 ^ 63 < powerOf seconds ∧ powerOf seconds < 2 ^ 64 := by
  have hlast : 2 ^ 63 < powerOf (yearSeconds - 1) := by decide
  have hfirst : powerOf 1 < 2 ^ 64 := by decide
  rw [yearSeconds] at hlt hlast
  exact ⟨hlast.trans_le (powerOf_antitone (by omega) (by decide)),
    (powerOf_antitone hpos (by omega)).trans_lt hfirst⟩

theorem toInt_neg_of_pos (hpos : 0 < duration) : (-duration).toInt = -duration.toInt := by
  have hlt := duration.toInt_lt
  rw [Int64.lt_iff_toInt_lt, Int64.toInt_zero] at hpos
  rw [Int64.toInt_neg, Int.bmod_def]
  omega

/-- An amount that grows back in time for less than a year and then decays again is at
most one unit off. -/
theorem calculateDecay_undoes (hgdd : 0 ≤ gdd) (hhalf : gdd.toInt ≤ maxAmount.toInt / 2)
    (hpos : 0 < duration) (hyear : duration < secondsPerYear) :
    ∃ grown back : Int64, calculateDecay gdd (-duration) = .ok grown ∧
      calculateDecay grown duration = .ok back ∧ |back.toInt - gdd.toInt| ≤ 1 := by
  have hwithin := within_year (Int64.le_of_lt hpos) (Int64.not_le.2 hyear)
  have hsign := Int64.lt_iff_toInt_lt.1 hpos
  rw [Int64.toInt_zero] at hsign
  have hnegated := toInt_neg_of_pos hpos
  have hneg : -duration < 0 := by
    rw [Int64.lt_iff_toInt_lt, hnegated, Int64.toInt_zero]
    omega
  have hseconds : (-(-duration).toInt).toNat = duration.toInt.toNat := by rw [hnegated, Int.neg_neg]
  obtain ⟨factor, -, hvalue, hgrow⟩ :=
    calculateDecay_grown hgdd hneg (by rw [hseconds, yearSeconds] at *; omega)
  obtain ⟨habove, hbelow⟩ := powerOf_within (show 0 < duration.toInt.toNat by omega) hwithin
  rw [hseconds] at hvalue
  obtain ⟨hhi, hlo⟩ := R128.hi_eq_zero (show factor.value < 2 ^ 64 by omega)
  obtain ⟨hupper, hlower⟩ := R128.div_one_near hhi (by omega)
  rw [hlo, hvalue] at hupper hlower
  generalize hgrowth : R128.div R128.one factor = growth at hupper hlower hgrow
  have hamount : gdd.toInt.toNat < 2 ^ 62 := by
    rw [show maxAmount.toInt / 2 = 2 ^ 62 - 1 by decide] at hhalf
    omega
  have hsmall : growth.value < 2 ^ 65 := by
    by_contra hlarge
    have hmul : 2 ^ 65 * powerOf duration.toInt.toNat ≤
        growth.value * powerOf duration.toInt.toNat := Nat.mul_le_mul_right _ (by omega)
    omega
  have hfits : gdd.toInt.toNat * growth.value < 2 ^ 127 - 2 ^ 63 := by
    have hmul : gdd.toInt.toNat * growth.value ≤ (2 ^ 62 - 1) * 2 ^ 65 :=
      Nat.mul_le_mul (by omega) hsmall.le
    omega
  have hgrown := grownBy_of_lt hgdd hfits
  have hgrownpos : 0 ≤ grownBy gdd growth := by
    rw [Int64.le_iff_toInt_le, hgrown, Int64.toInt_zero]
    exact Int.natCast_nonneg _
  obtain ⟨back, hback, hleft⟩ := calculateDecay_eq hgrownpos (Int64.le_of_lt hpos)
  rw [decayed_of_lt hwithin, hgrown, Int.toNat_natCast] at hleft
  have hproduct : gdd.toInt.toNat * powerOf duration.toInt.toNat ≤ 2 ^ 62 * 2 ^ 64 :=
    Nat.mul_le_mul hamount.le hbelow.le
  obtain ⟨hle, hge⟩ :=
    @nearest_undone (2 ^ 63) gdd.toInt.toNat growth.value (powerOf duration.toInt.toNat)
      (Nat.two_pow_pos 63) (by omega) hupper hlower (by omega)
  refine ⟨grownBy gdd growth, back, hgrow, hback, ?_⟩
  have hnonneg := toInt_nonneg hgdd
  rw [hleft, abs_le]
  omega

theorem calculateDecay_undoes_hour :
    ∃ grown back : Int64, calculateDecay 10000000 (-3600) = .ok grown ∧
      calculateDecay grown 3600 = .ok back ∧ |back.toInt - (10000000 : Int64).toInt| ≤ 1 :=
  calculateDecay_undoes (by decide) (by decide) (by decide) (by decide)

/-! ### Saturation -/

/-- The growth factor of a number of seconds, in units of `2 ^ -64`. -/
def growthOf (seconds : ℕ) : ℕ := (R128.div R128.one ⟨.ofNat (powerOf seconds), 0⟩).value

/-- The amount does not shrink, and it is the rounded product of the amount and the growth factor as
far as an amount can hold that. -/
def Saturates (gdd duration : Int64) : Prop :=
  ∃ factor grown, decayFactor duration = .ok factor ∧ calculateDecay gdd duration = .ok grown ∧
    gdd ≤ grown ∧
    grown.toInt =
      min maxAmount.toInt (nearest (2 ^ 63) (gdd.toInt.toNat * (R128.div R128.one factor).value))

/-- A product that does not fit becomes the largest amount if its low 128 bits read as negative or
round to that amount. -/
theorem grownBy_eq_max_iff {growth : R128} (hgdd : 0 ≤ gdd)
    (hlarge : 2 ^ 127 - 2 ^ 63 ≤ gdd.toInt.toNat * growth.value) :
    (grownBy gdd growth).toInt = maxAmount.toInt ↔
      2 ^ 127 - 3 * 2 ^ 63 ≤ gdd.toInt.toNat * growth.value % 2 ^ 128 ∧
        gdd.toInt.toNat * growth.value % 2 ^ 128 ≤ 2 ^ 128 - 2 ^ 63 := by
  have hpos : 0 < gdd := by
    have hnonneg := toInt_nonneg hgdd
    rw [Int64.lt_iff_toInt_lt, Int64.toInt_zero]
    by_contra hzero
    rw [show gdd.toInt.toNat = 0 by omega, Nat.zero_mul] at hlarge
    omega
  have happlied := toInt_applyFactor hgdd growth
  have hlt := Nat.mod_lt (gdd.toInt.toNat * growth.value) (Nat.two_pow_pos 128)
  generalize gdd.toInt.toNat * growth.value % 2 ^ 128 = low at happlied hlt ⊢
  have hmax : maxAmount.toInt = 2 ^ 63 - 1 := by decide
  rw [Int.bmod_def] at happlied
  rw [grownBy]
  simp only [hpos, true_and, Int64.lt_iff_toInt_lt, Int64.toInt_zero]
  by_cases hupper : 2 ^ 127 ≤ low
  · rw [if_pos hupper] at happlied
    split <;> omega
  · rw [if_neg hupper] at happlied
    split <;> omega

/-- For up to `2 ^ 30` seconds the growth saturates unless its product wraps round to
a positive amount. -/
theorem saturates_iff (hgdd : 0 ≤ gdd) (hlong : -2 ^ 30 ≤ duration.toInt) (hneg : duration < 0) :
    Saturates gdd duration ↔ gdd.toInt.toNat * growthOf (-duration.toInt).toNat < 2 ^ 127 - 2 ^ 63 ∨
      (2 ^ 127 - 3 * 2 ^ 63 ≤ gdd.toInt.toNat * growthOf (-duration.toInt).toNat % 2 ^ 128 ∧
        gdd.toInt.toNat * growthOf (-duration.toInt).toNat % 2 ^ 128 ≤ 2 ^ 128 - 2 ^ 63) := by
  have hsign := hneg
  rw [Int64.lt_iff_toInt_lt, Int64.toInt_zero] at hsign
  obtain ⟨factor, hfactor, hvalue, hrun⟩ := calculateDecay_grown hgdd hneg (by omega)
  -- the factor has two units at least, so that the reciprocal is not below one
  have htwo : 2 ≤ powerOf (-duration.toInt).toNat := by
    have hlast : 2 ≤ powerOf (2 ^ 30) := by decide
    exact hlast.trans (powerOf_antitone (by omega) (by decide))
  have hbelow : powerOf (-duration.toInt).toNat < 2 ^ 64 := by
    have hfirst : powerOf 1 < 2 ^ 64 := by decide
    exact (powerOf_antitone (by omega) (by omega)).trans_lt hfirst
  obtain ⟨hhi, hlo⟩ := R128.hi_eq_zero (show factor.value < 2 ^ 64 by omega)
  have hgrows := R128.one_le_div_one hhi (by omega)
  have hgrowth : growthOf (-duration.toInt).toNat = (R128.div R128.one factor).value := by
    rw [growthOf, ← hvalue, ← hlo, UInt64.ofNat_toNat, ← hhi]
  have hsaturates : Saturates gdd duration ↔
      gdd ≤ grownBy gdd (R128.div R128.one factor) ∧
        (grownBy gdd (R128.div R128.one factor)).toInt =
          min maxAmount.toInt
            (nearest (2 ^ 63) (gdd.toInt.toNat * (R128.div R128.one factor).value)) := by
    simp only [Saturates, hfactor, hrun, Except.ok.injEq, exists_eq_left', ↓existsAndEq, true_and]
  rw [hsaturates, hgrowth]
  generalize R128.div R128.one factor = growth at hgrows
  have hmax : maxAmount.toInt = 2 ^ 63 - 1 := by decide
  have hnonneg := toInt_nonneg hgdd
  have hamount := gdd.toInt_lt
  rw [Int64.le_iff_toInt_le]
  by_cases hfits : gdd.toInt.toNat * growth.value < 2 ^ 127 - 2 ^ 63
  · -- a product that fits is the answer, and not below the amount
    have hkept : gdd.toInt.toNat ≤ nearest (2 ^ 63) (gdd.toInt.toNat * growth.value) := by
      rw [le_nearest_iff (Nat.two_pow_pos 63)]
      have hmul : gdd.toInt.toNat * 2 ^ 64 ≤ gdd.toInt.toNat * growth.value :=
        Nat.mul_le_mul_left _ hgrows
      omega
    have hsmall : nearest (2 ^ 63) (gdd.toInt.toNat * growth.value) < 2 ^ 63 :=
      (nearest_lt_iff (Nat.two_pow_pos 63)).2 (by omega)
    rw [grownBy_of_lt hgdd hfits, min_eq_right (by omega)]
    exact iff_of_true ⟨by omega, rfl⟩ (Or.inl hfits)
  · have hlarge : 2 ^ 63 ≤ nearest (2 ^ 63) (gdd.toInt.toNat * growth.value) :=
      (le_nearest_iff (Nat.two_pow_pos 63)).2 (by omega)
    have hmaxiff := grownBy_eq_max_iff hgdd (Nat.le_of_not_lt hfits)
    rw [min_eq_left (by omega), or_iff_right hfits, ← hmaxiff]
    exact and_iff_right_of_imp (fun heq => by omega)

theorem saturates_year :
    Saturates maxAmount (-31556952) ↔
      maxAmount.toInt.toNat * growthOf (-(-31556952 : Int64).toInt).toNat < 2 ^ 127 - 2 ^ 63 ∨
        (2 ^ 127 - 3 * 2 ^ 63 ≤
            maxAmount.toInt.toNat * growthOf (-(-31556952 : Int64).toInt).toNat % 2 ^ 128 ∧
          maxAmount.toInt.toNat * growthOf (-(-31556952 : Int64).toInt).toNat % 2 ^ 128 ≤
            2 ^ 128 - 2 ^ 63) :=
  saturates_iff (by decide) (by decide) (by decide)

/-- Two years before, an amount of `2 ^ 62` units was far beyond the largest one; the code
answers 83439472 units. -/
theorem not_saturates :
    ¬ ∀ gdd duration : Int64, 0 ≤ gdd → -2 ^ 30 ≤ duration.toInt → duration < 0 → Saturates gdd
      duration := by
  intro hsaturates
  have hrun : calculateDecay 4611686018427387904 (-63113904) = .ok 83439472 := by decide
  obtain ⟨factor, grown, -, hgrown, hle, -⟩ :=
    hsaturates 4611686018427387904 (-63113904) (by decide) (by decide) (by decide)
  rw [hrun, Except.ok.injEq] at hgrown
  rw [← hgrown] at hle
  exact absurd hle (by decide)

end GrddUnit

end GradidoBlockchain
