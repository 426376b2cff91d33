import GradidoBlockchain.Unit.Law

/-!
# The code follows the law

For a duration that is not negative, both functions answer with what the law leaves of the amount,
and no read leaves a table.
-/

namespace GradidoBlockchain

namespace GrddUnit

open Truncated Halving

/-! ### The loops -/

theorem readPower_of_lt {i : ℕ} (hlt : i < 32) :
    ∃ power : R128, readPower i = .ok power ∧ power.hi = 0 ∧ power.value = decayPower i := by
  have hin : i < decayPowers.length := hlt
  refine ⟨⟨decayPowers[i], 0⟩, ?_, rfl, ?_⟩
  · rw [readPower, List.getElem?_eq_getElem hin]
  · rw [R128.value, decayPower, List.getD_eq_getElem?_getD, List.getElem?_eq_getElem hin]
    simp

theorem readPower_of_le {i : ℕ} (hle : 32 ≤ i) : readPower i = .error (.index i) := by
  have hout : decayPowers.length ≤ i := hle
  rw [readPower, List.getElem?_eq_none hout]

theorem value_mul_of_le {factor power : R128} (hhi : power.hi = 0)
    (hfactor : factor.value ≤ 2 ^ 64) :
    (R128.mulSpecializedFactor factor power).value = factor.value * power.value / 2 ^ 64 := by
  have hlo := power.lo.toNat_lt
  have hpower : power.value = power.lo.toNat := by
    rw [R128.value, hhi, UInt64.toNat_zero, Nat.zero_mul, Nat.zero_add]
  rw [R128.mulSpecializedFactor_eq factor hhi, R128.value_mulPrecise, Nat.mod_eq_of_lt]
  rw [Nat.div_lt_iff_lt_mul (Nat.two_pow_pos 64), hpower]
  calc factor.value * power.lo.toNat ≤ 2 ^ 64 * power.lo.toNat := Nat.mul_le_mul_right _ hfactor
    _ < _ := by omega

/-- The loop over the bits is the chain over the binary digits, as long as they stay
inside the table. -/
theorem decayLoop_eq {digits exp : ℕ} {factor : R128} (rounds i : ℕ) (hrounds : digits ≤ rounds)
    (htable : i + digits ≤ 32) (hexp : exp < 2 ^ digits) (hfactor : factor.value ≤ 2 ^ 64) :
    ∃ product : R128, decayLoop rounds exp i factor = .ok product ∧
      product.value =
        chain (2 ^ 64) 2 (bitFactor (2 ^ 64) decayPower) digits i exp factor.value := by
  induction digits generalizing rounds exp i factor with
  | zero =>
    have hzero : exp = 0 := by
      rw [Nat.pow_zero] at hexp
      omega
    refine ⟨factor, ?_, rfl⟩
    cases rounds with
    | zero => rfl
    | succ rounds => rw [decayLoop, if_neg (by omega)]
  | succ digits ih =>
    obtain ⟨rounds, rfl⟩ : ∃ rest, rounds = rest + 1 := ⟨rounds - 1, by omega⟩
    have hhalf : exp / 2 < 2 ^ digits := by
      rw [Nat.pow_succ] at hexp
      omega
    rw [decayLoop, chain]
    by_cases hpos : 0 < exp
    · rw [if_pos hpos]
      by_cases hodd : exp % 2 = 1
      · obtain ⟨power, hread, hhi, hpower⟩ := readPower_of_lt (show i < 32 by omega)
        have hnext := value_mul_of_le hhi hfactor
        have hle : (R128.mulSpecializedFactor factor power).value ≤ 2 ^ 64 := by
          rw [hnext, hpower]
          apply Nat.div_le_of_le_mul
          exact Nat.mul_le_mul hfactor (decayPower_squares.power_le i)
        simp only [hread, hodd]
        obtain ⟨product, hrun, hproduct⟩ := ih rounds (i + 1) (by omega) (by omega) hhalf hle
        refine ⟨product, hrun, ?_⟩
        rw [hproduct, hnext, hpower]
        rfl
      · have heven : exp % 2 = 0 := by omega
        rw [if_neg hodd, heven, show bitFactor (2 ^ 64) decayPower i 0 = 2 ^ 64 from rfl,
          Nat.mul_div_cancel _ (Nat.two_pow_pos 64)]
        exact ih rounds (i + 1) (by omega) (by omega) hhalf hfactor
    · have hzero : exp = 0 := by omega
      subst hzero
      refine ⟨factor, by rw [if_neg hpos], ?_⟩
      rw [Nat.zero_mod, Nat.zero_div, show bitFactor (2 ^ 64) decayPower i 0 = 2 ^ 64 from rfl,
        Nat.mul_div_cancel _ (Nat.two_pow_pos 64), chain_zero (Nat.two_pow_pos 64) (fun _ => rfl)]

/-- An exponent with a bit behind the end of the table ends in a read there. -/
theorem decayLoop_error {rounds exp i : ℕ} {factor : R128} (hrounds : exp < 2 ^ rounds)
    (htable : 2 ^ (32 - i) ≤ exp) :
    ∃ j, decayLoop rounds exp i factor = .error (.index j) ∧ 32 ≤ j := by
  induction rounds generalizing exp i factor with
  | zero =>
    have hunit := Nat.two_pow_pos (32 - i)
    omega
  | succ rounds ih =>
    have hunit := Nat.two_pow_pos (32 - i)
    have hhalf : exp / 2 < 2 ^ rounds := by
      rw [Nat.pow_succ] at hrounds
      omega
    rw [decayLoop, if_pos (by omega)]
    by_cases hin : i < 32
    · have hnext : 2 ^ (32 - (i + 1)) ≤ exp / 2 := by
        rw [show 32 - i = 32 - (i + 1) + 1 by omega, Nat.pow_succ] at htable
        omega
      by_cases hodd : exp % 2 = 1
      · obtain ⟨power, hread, -⟩ := readPower_of_lt hin
        simp only [if_pos hodd, hread]
        exact ih hhalf hnext
      · rw [if_neg hodd]
        exact ih hhalf hnext
    · by_cases hodd : exp % 2 = 1
      · exact ⟨i, by simp only [if_pos hodd, readPower_of_le (Nat.le_of_not_lt hin)],
          Nat.le_of_not_lt hin⟩
      · rw [if_neg hodd]
        apply ih hhalf
        rw [show 32 - (i + 1) = 0 by omega]
        omega

theorem value_readWindow (window digit : ℕ) :
    (readWindow window digit).value = (readWindow window digit).lo.toNat := by
  rw [R128.value, show (readWindow window digit).hi = 0 from rfl, UInt64.toNat_zero, Nat.zero_mul,
    Nat.zero_add]

theorem windowLoop_succ (windows window seconds : ℕ) (factor : R128) :
    windowLoop (windows + 1) window seconds factor =
      windowLoop windows (window + 1) seconds
        (if seconds / 2 ^ (window * 5) % 2 ^ 5 = 0 then factor
          else R128.mulSpecializedFactor factor
            (readWindow window (seconds / 2 ^ (window * 5) % 2 ^ 5))) :=
  rfl

/-- The loop over the windows is the chain over the digits of five bits. -/
theorem windowLoop_eq (windows window seconds : ℕ) {factor : R128}
    (hfactor : factor.value ≤ 2 ^ 64) :
    (windowLoop windows window seconds factor).value =
      chain (2 ^ 64) (2 ^ 5) windowEntry windows window (seconds / 2 ^ (window * 5))
        factor.value := by
  induction windows generalizing window factor with
  | zero => rfl
  | succ windows ih =>
    have hshift : seconds / 2 ^ (window * 5) / 2 ^ 5 = seconds / 2 ^ ((window + 1) * 5) := by
      rw [Nat.div_div_eq_div_mul, ← Nat.pow_add, Nat.add_mul, Nat.one_mul]
    rw [windowLoop_succ, chain, hshift, windowEntry]
    generalize seconds / 2 ^ (window * 5) % 2 ^ 5 = digit
    by_cases hdigit : digit = 0
    · rw [if_pos hdigit, if_pos hdigit, Nat.mul_div_cancel _ (Nat.two_pow_pos 64)]
      exact ih (window + 1) hfactor
    · have hlo := (readWindow window digit).lo.toNat_lt
      have hhi : (readWindow window digit).hi = 0 := rfl
      have hnext := value_mul_of_le hhi hfactor
      rw [value_readWindow] at hnext
      rw [if_neg hdigit, if_neg hdigit, ih, hnext]
      rw [hnext]
      apply Nat.div_le_of_le_mul
      exact Nat.mul_le_mul hfactor hlo.le

/-! ### The amounts -/

theorem bmod_mod (n : ℕ) : ((n % 2 ^ 64 : ℕ) : ℤ).bmod (2 ^ 64) = (n : ℤ).bmod (2 ^ 64) := by
  rw [Int.natCast_mod]
  exact Int.emod_bmod _ _

/-- The product keeps 128 bits, is rounded by its sign there, and the word before the point is
read with a sign. -/
theorem toInt_applyFactor {amount : Int64} (hamount : 0 ≤ amount) (factor : R128) :
    (applyFactor amount factor).toInt =
      (((amount.toInt.toNat * factor.value % 2 ^ 128 + 2 ^ 63 - (if 2 ^ 127 ≤ amount.toInt.toNat * factor.value % 2 ^ 128 then 1 else 0)) / 2 ^ 64 : ℕ) :
        ℤ).bmod (2 ^ 64) := by
  have hproduct : (R128.mulPrecise (R128.fromInt amount) factor).value =
      amount.toInt.toNat * factor.value % 2 ^ 128 := by
    rw [R128.value_mulPrecise, R128.value_fromInt hamount, Nat.mul_right_comm,
      Nat.mul_div_cancel _ (Nat.two_pow_pos 64)]
  rw [applyFactor, R128.toInt_round, R128.toNat_hi_round, hproduct, bmod_mod]

/-- A product that fits is rounded to the nearest whole number. -/
theorem applyFactor_of_lt {amount : Int64} {factor : R128} (hamount : 0 ≤ amount)
    (hfits : amount.toInt.toNat * factor.value < 2 ^ 127 - 2 ^ 63) :
    (applyFactor amount factor).toInt = nearest (2 ^ 63) (amount.toInt.toNat * factor.value) := by
  rw [toInt_applyFactor hamount, Nat.mod_eq_of_lt (by omega), if_neg (by omega), nearest,
    Int.bmod_def]
  generalize amount.toInt.toNat * factor.value = product at hfits ⊢
  omega

/-- The amount times a factor that is not above one, rounded. -/
theorem applyFactor_of_le {amount : Int64} {factor : R128} (hamount : 0 ≤ amount)
    (hfactor : factor.value ≤ 2 ^ 64) :
    (applyFactor amount factor).toInt = nearest (2 ^ 63) (amount.toInt.toNat * factor.value) := by
  have hlt := amount.toInt_lt
  apply applyFactor_of_lt hamount
  calc amount.toInt.toNat * factor.value ≤ amount.toInt.toNat * 2 ^ 64 :=
    Nat.mul_le_mul_left _ hfactor
    _ < _ := by omega

theorem toInt_nonneg {x : Int64} (hnonneg : 0 ≤ x) : ((x.toInt.toNat : ℕ) : ℤ) = x.toInt := by
  rw [Int64.le_iff_toInt_le, Int64.toInt_zero] at hnonneg
  exact Int.toNat_of_nonneg hnonneg

theorem bmod_of_lt {n : ℕ} (hlt : n < 2 ^ 63) : (n : ℤ).bmod (2 ^ 64) = n := by
  rw [Int.bmod_def]
  omega

theorem toInt_halved {gdd : Int64} (hgdd : 0 ≤ gdd) (times : UInt64) :
    (halved gdd times).toInt = ((gdd.toInt.toNat / 2 ^ times.toNat : ℕ) : ℤ) := by
  have hlt := gdd.toInt_lt
  have hle := Nat.div_le_self gdd.toInt.toNat (2 ^ times.toNat)
  have hshift : gdd.toInt >>> times.toNat = ((gdd.toInt.toNat / 2 ^ times.toNat : ℕ) : ℤ) := by
    rw [← toInt_nonneg hgdd, Int.shiftRight_eq_div_pow, Int.toNat_natCast]
    rfl
  rw [halved, Int64.toInt_ofInt, hshift]
  exact bmod_of_lt (by omega)

theorem halved_nonneg {gdd : Int64} (hgdd : 0 ≤ gdd) (times : UInt64) : 0 ≤ halved gdd times := by
  rw [Int64.le_iff_toInt_le, toInt_halved hgdd, Int64.toInt_zero]
  exact Int.natCast_nonneg _

theorem toInt_years {duration : Int64} (hduration : 0 ≤ duration) :
    (duration / secondsPerYear).toInt = ((duration.toInt.toNat / yearSeconds : ℕ) : ℤ) := by
  have hlt := duration.toInt_lt
  have hle := Nat.div_le_self duration.toInt.toNat yearSeconds
  rw [Int64.toInt_div, ← toInt_nonneg hduration, show secondsPerYear.toInt = (yearSeconds : ℤ) by decide, ← Int.ofNat_tdiv,
    Int.toNat_natCast]
  exact bmod_of_lt (by omega)

theorem toNat_wholeYears {duration : Int64} (hduration : 0 ≤ duration) :
    (wholeYears duration).toNat = duration.toInt.toNat / yearSeconds := by
  have hnonneg : 0 ≤ duration / secondsPerYear := by
    rw [Int64.le_iff_toInt_le, toInt_years hduration, Int64.toInt_zero]
    exact Int.natCast_nonneg _
  rw [wholeYears, Int64.toNat_toUInt64_of_le hnonneg, Int64.toNatClampNeg, toInt_years hduration,
    Int.toNat_natCast]

theorem toInt_remainder {duration : Int64} (hduration : 0 ≤ duration) :
    (remainder duration).toInt = ((duration.toInt.toNat % yearSeconds : ℕ) : ℤ) := by
  have hyears : (wholeYears duration).toInt64 = duration / secondsPerYear :=
    Int64.toInt64_toUInt64 _
  have hlt := duration.toInt_lt
  have hdivmod := Nat.div_add_mod duration.toInt.toNat yearSeconds
  have hnonneg := toInt_nonneg hduration
  rw [remainder, hyears, Int64.toInt_sub, Int64.toInt_mul, toInt_years hduration,
    show secondsPerYear.toInt = (yearSeconds : ℤ) by decide]
  rw [yearSeconds] at hdivmod ⊢
  generalize duration.toInt.toNat / 31556952 = years at hdivmod ⊢
  generalize duration.toInt.toNat % 31556952 = rest at hdivmod ⊢
  push_cast
  rw [Int.bmod_def, Int.bmod_def]
  omega

theorem exponent_of_nonneg {duration : Int64} (hduration : 0 ≤ duration) :
    exponent duration = duration.toInt.toNat := by
  rw [Int64.le_iff_toInt_le, Int64.toInt_zero] at hduration
  rw [exponent, R128.toNat_magnitude]
  omega

/-! ### The functions -/

theorem decayFactor_of_nonneg {duration : Int64} (hduration : 0 ≤ duration)
    (hlt : duration.toInt.toNat < 2 ^ 32) :
    ∃ factor : R128, decayFactor duration = .ok factor ∧
      factor.value = powerOf duration.toInt.toNat := by
  rw [decayFactor, exponent_of_nonneg hduration]
  exact decayLoop_eq 64 0 (by decide) (by decide) hlt le_rfl

theorem powerOf_le {seconds : ℕ} (hlt : seconds < 2 ^ 32) : powerOf seconds ≤ 2 ^ 64 := by
  apply (powerOf_antitone (Nat.zero_le seconds) hlt).trans
  rw [powerOf_law.start]
  exact le_rfl

theorem decaySeconds_of_nonneg (gdd : Int64) {temp duration : Int64} (htemp : 0 ≤ temp)
    (hduration : 0 ≤ duration) (hlt : duration.toInt.toNat < 2 ^ 32) :
    ∃ left : Int64, decaySeconds gdd temp duration = .ok left ∧
      left.toInt = nearest (2 ^ 63) (temp.toInt.toNat * powerOf duration.toInt.toNat) := by
  obtain ⟨factor, hrun, hvalue⟩ := decayFactor_of_nonneg hduration hlt
  have hneg : ¬ duration < 0 := Int64.not_lt.2 hduration
  refine ⟨applyFactor temp factor, by simp only [decaySeconds, hrun, if_neg hneg], ?_⟩
  rw [applyFactor_of_le htemp (hvalue ▸ powerOf_le hlt), hvalue]

variable {gdd duration : Int64}

theorem amount_lt (amount : Int64) : amount.toInt.toNat < 2 ^ 63 := by
  have hlt := amount.toInt_lt
  omega

theorem mod_lt_of_years (seconds : ℕ) : seconds % yearSeconds < 2 ^ 25 := by
  have hlt := Nat.mod_lt seconds (show 0 < yearSeconds by decide)
  rw [yearSeconds] at hlt ⊢
  omega

/-- After more than 63 years nothing is left, since an amount has 63 bits. -/
theorem decayed_eq_zero {factor : ℕ → ℕ} {amount seconds : ℕ} (hamount : amount < 2 ^ 63)
    (hyears : 63 < seconds / yearSeconds) :
    decayed (2 ^ 63) yearSeconds factor amount seconds = 0 := by
  have hpow : 2 ^ 63 ≤ 2 ^ (seconds / yearSeconds) := Nat.pow_le_pow_right Nat.two_pos hyears.le
  rw [decayed, Nat.div_eq_of_lt (hamount.trans_le hpow), Nat.zero_mul]
  rfl

/-- What the whole years leave of the amount and of the duration. -/
theorem reduced (hgdd : 0 ≤ gdd) (hduration : 0 ≤ duration) :
    (halved gdd (wholeYears duration)).toInt.toNat =
        gdd.toInt.toNat / 2 ^ (duration.toInt.toNat / yearSeconds) ∧ 0 ≤ remainder duration ∧
      (remainder duration).toInt.toNat = duration.toInt.toNat % yearSeconds := by
  have hremainder := toInt_remainder hduration
  refine ⟨?_, ?_, ?_⟩
  · rw [toInt_halved hgdd, toNat_wholeYears hduration, Int.toNat_natCast]
  · rw [Int64.le_iff_toInt_le, hremainder, Int64.toInt_zero]
    exact Int.natCast_nonneg _
  · rw [hremainder, Int.toNat_natCast]

theorem within_year (hduration : 0 ≤ duration) (hyear : ¬ secondsPerYear ≤ duration) :
    duration.toInt.toNat < yearSeconds := by
  rw [Int64.le_iff_toInt_le, show secondsPerYear.toInt = (yearSeconds : ℤ) by decide] at hyear
  have hnonneg := toInt_nonneg hduration
  omega

/-- `grdd_unit_calculate_decay` follows the law of the bits. -/
theorem calculateDecay_eq (hgdd : 0 ≤ gdd) (hduration : 0 ≤ duration) :
    ∃ left : Int64, calculateDecay gdd duration = .ok left ∧
      left.toInt = decayed (2 ^ 63) yearSeconds powerOf gdd.toInt.toNat duration.toInt.toNat := by
  have hneg : ¬ gdd < 0 := Int64.not_lt.2 hgdd
  rw [calculateDecay]
  by_cases hzero : duration = 0
  · refine ⟨gdd, by rw [if_pos hzero], ?_⟩
    rw [hzero, Int64.toInt_zero, Int.toNat_zero, powerOf_law.decayed_zero, toInt_nonneg hgdd]
  · rw [if_neg hzero, if_neg hneg]
    by_cases hyear : secondsPerYear ≤ duration
    · rw [if_pos hyear]
      by_cases hlong : 63 < wholeYears duration
      · refine ⟨0, by rw [if_pos hlong], ?_⟩
        rw [UInt64.lt_iff_toNat_lt, toNat_wholeYears hduration] at hlong
        rw [decayed_eq_zero (amount_lt gdd) hlong]
        rfl
      · obtain ⟨hamount, hnonneg, hseconds⟩ := reduced hgdd hduration
        rw [if_neg hlong, decayed, ← hamount, ← hseconds]
        by_cases hnone : remainder duration = 0
        · refine ⟨halved gdd (wholeYears duration), by rw [if_pos hnone], ?_⟩
          rw [hnone, Int64.toInt_zero, Int.toNat_zero, powerOf_law.start,
            nearest_mul (Nat.two_pow_pos 63), toInt_nonneg (halved_nonneg hgdd _)]
        · rw [if_neg hnone]
          apply decaySeconds_of_nonneg gdd (halved_nonneg hgdd _) hnonneg
          have hlt := mod_lt_of_years duration.toInt.toNat
          omega
    · have hwithin := within_year hduration hyear
      rw [if_neg hyear, decayed, Nat.div_eq_of_lt hwithin, Nat.mod_eq_of_lt hwithin, Nat.pow_zero,
        Nat.div_one]
      apply decaySeconds_of_nonneg gdd hgdd hduration
      rw [yearSeconds] at hwithin
      omega

theorem value_windowFactor (hduration : 0 ≤ duration) :
    (windowFactor duration).value = windowPowerOf duration.toInt.toNat := by
  have hrun := windowLoop_eq 5 0 duration.toUInt64.toNat (show R128.one.value ≤ 2 ^ 64 by decide)
  rw [Nat.zero_mul, Nat.pow_zero, Nat.div_one, Int64.toNat_toUInt64_of_le hduration,
    Int64.toNatClampNeg] at hrun
  rw [windowFactor, Int64.toNat_toUInt64_of_le hduration, Int64.toNatClampNeg]
  exact hrun

theorem applyFactor_window {amount seconds : Int64} (hamount : 0 ≤ amount) (hseconds : 0 ≤ seconds)
    (hlt : seconds.toInt.toNat < yearSeconds) :
    (applyFactor amount (windowFactor seconds)).toInt
      = nearest (2 ^ 63) (amount.toInt.toNat * windowPowerOf seconds.toInt.toNat) := by
  have hvalue := value_windowFactor hseconds
  rw [applyFactor_of_le hamount (hvalue ▸ windowPowerOf_law.factor_le hlt), hvalue]

/-- `grdd_unit_calculate_decay_windowed` follows the law of the windows. -/
theorem calculateDecayWindowed_eq (hgdd : 0 ≤ gdd) (hduration : 0 ≤ duration) :
    ∃ left : Int64, calculateDecayWindowed gdd duration = .ok left ∧
      left.toInt =
        decayed (2 ^ 63) yearSeconds windowPowerOf gdd.toInt.toNat duration.toInt.toNat := by
  have hneg : ¬ gdd < 0 := Int64.not_lt.2 hgdd
  have hforward : ¬ duration < 0 := Int64.not_lt.2 hduration
  rw [calculateDecayWindowed, if_neg hneg, if_neg hforward]
  by_cases hzero : duration = 0
  · refine ⟨gdd, by rw [if_pos hzero], ?_⟩
    rw [hzero, Int64.toInt_zero, Int.toNat_zero, windowPowerOf_law.decayed_zero, toInt_nonneg hgdd]
  · rw [if_neg hzero]
    by_cases hyear : secondsPerYear ≤ duration
    · rw [if_pos hyear]
      by_cases hlong : 63 < wholeYears duration
      · refine ⟨0, by rw [if_pos hlong], ?_⟩
        rw [UInt64.lt_iff_toNat_lt, toNat_wholeYears hduration] at hlong
        rw [decayed_eq_zero (amount_lt gdd) hlong]
        rfl
      · obtain ⟨hamount, hnonneg, hseconds⟩ := reduced hgdd hduration
        refine ⟨applyFactor (halved gdd (wholeYears duration)) (windowFactor (remainder duration)),
          by rw [if_neg hlong], ?_⟩
        rw [decayed, ← hamount, ← hseconds]
        apply applyFactor_window (halved_nonneg hgdd _) hnonneg
        rw [hseconds]
        exact Nat.mod_lt _ (by decide)
    · have hwithin := within_year hduration hyear
      refine ⟨applyFactor gdd (windowFactor duration), by rw [if_neg hyear], ?_⟩
      rw [decayed, Nat.div_eq_of_lt hwithin, Nat.mod_eq_of_lt hwithin, Nat.pow_zero, Nat.div_one]
      exact applyFactor_window hgdd hduration hwithin

end GrddUnit

end GradidoBlockchain
