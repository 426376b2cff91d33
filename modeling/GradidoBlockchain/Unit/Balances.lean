import GradidoBlockchain.Unit.Refined

/-!
# What happens to a balance

A balance is decayed whenever it is touched, in parts and in steps. Less of it for longer leaves
less, and neither splitting an amount nor splitting a duration moves more than a unit or two.
-/

namespace GradidoBlockchain

namespace GrddUnit

open Truncated Halving

/-- A function on amounts that follows the law of a factor, for durations that are not negative. -/
def Follows (decay : Int64 → Int64 → Except Fault Int64) (factor : ℕ → ℕ) : Prop :=
  ∀ gdd duration, 0 ≤ gdd → 0 ≤ duration → ∃ left : Int64, decay gdd duration = .ok left ∧
    left.toInt = decayed (2 ^ 63) yearSeconds factor gdd.toInt.toNat duration.toInt.toNat

theorem calculateDecay_follows : Follows calculateDecay powerOf :=
  fun _ _ hgdd hduration => calculateDecay_eq hgdd hduration

theorem calculateDecayWindowed_follows : Follows calculateDecayWindowed windowPowerOf :=
  fun _ _ hgdd hduration => calculateDecayWindowed_eq hgdd hduration

theorem toNat_le_toNat {x y : Int64} (hle : x ≤ y) : x.toInt.toNat ≤ y.toInt.toNat :=
  Int.toNat_le_toNat (Int64.le_iff_toInt_le.1 hle)

/-! ### Less, for longer -/

/-- The smaller amount, after the longer time, is not above the larger one after the shorter time,
which has not grown. -/
def LeavesLess (decay : Int64 → Int64 → Except Fault Int64)
    (small large short long : Int64) : Prop :=
  ∃ less more, decay small long = .ok less ∧ decay large short = .ok more ∧ 0 ≤ less ∧ less ≤ more ∧
    more ≤ large

theorem Follows.leavesLess {decay : Int64 → Int64 → Except Fault Int64} {factor : ℕ → ℕ}
    (hfollows : Follows decay factor) (hlaw : Law (2 ^ 63) yearSeconds factor)
    {small large short long : Int64} (hsmall : 0 ≤ small) (hamount : small ≤ large)
    (hshort : 0 ≤ short) (htime : short ≤ long) : LeavesLess decay small large short long := by
  have hlarge := Int64.le_trans hsmall hamount
  obtain ⟨less, hless, hlessval⟩ := hfollows small long hsmall (Int64.le_trans hshort htime)
  obtain ⟨more, hmore, hmoreval⟩ := hfollows large short hlarge hshort
  refine ⟨less, more, hless, hmore, ?_, ?_, ?_⟩
  · rw [Int64.le_iff_toInt_le, hlessval, Int64.toInt_zero]
    exact Int.natCast_nonneg _
  · rw [Int64.le_iff_toInt_le, hlessval, hmoreval]
    apply Int.ofNat_le.2
    exact (Law.decayed_mono (toNat_le_toNat hamount)).trans
      (hlaw.decayed_antitone (toNat_le_toNat htime))
  · rw [Int64.le_iff_toInt_le, hmoreval, ← toInt_nonneg hlarge]
    exact Int.ofNat_le.2 (hlaw.decayed_le _ _)

/-- Decay is monotone in the amount and in the time, with either table. -/
theorem decay_leavesLess {small large short long : Int64} (hsmall : 0 ≤ small)
    (hamount : small ≤ large) (hshort : 0 ≤ short) (htime : short ≤ long) :
    LeavesLess calculateDecay small large short long ∧
      LeavesLess calculateDecayWindowed small large short long :=
  ⟨calculateDecay_follows.leavesLess powerOf_law hsmall hamount hshort htime,
    calculateDecayWindowed_follows.leavesLess windowPowerOf_law hsmall hamount hshort htime⟩

/-- Over the end of a year. -/
theorem decay_leavesLess_year : LeavesLess calculateDecay 9999 10000 31556951 31556952 ∧
    LeavesLess calculateDecayWindowed 9999 10000 31556951 31556952 :=
  decay_leavesLess (by decide) (by decide) (by decide) (by decide)

/-! ### Splitting an amount -/

/-- An amount that is split before it decays has a unit more or two units less. -/
theorem calculateDecay_split {left right duration : Int64} (hleft : 0 ≤ left) (hright : 0 ≤ right)
    (hsum : left.toInt + right.toInt ≤ maxAmount.toInt) (hduration : 0 ≤ duration) :
    ∃ whole first second : Int64, calculateDecay (left + right) duration = .ok whole ∧
      calculateDecay left duration = .ok first ∧ calculateDecay right duration = .ok second ∧
      -1 ≤ whole.toInt - first.toInt - second.toInt ∧
      whole.toInt - first.toInt - second.toInt ≤ 2 := by
  have hmax : maxAmount.toInt = 2 ^ 63 - 1 := by decide
  have hleftval := toInt_nonneg hleft
  have hrightval := toInt_nonneg hright
  have hwhole : (left + right).toInt = ((left.toInt.toNat + right.toInt.toNat : ℕ) : ℤ) := by
    rw [Int64.toInt_add, ← hleftval, ← hrightval, ← Int.natCast_add, Int.toNat_natCast,
      Int.toNat_natCast]
    exact bmod_of_lt (by omega)
  have hnonneg : 0 ≤ left + right := by
    rw [Int64.le_iff_toInt_le, hwhole, Int64.toInt_zero]
    exact Int.natCast_nonneg _
  obtain ⟨whole, hrun, hval⟩ := calculateDecay_eq hnonneg hduration
  obtain ⟨first, hfirst, hfirstval⟩ := calculateDecay_eq hleft hduration
  obtain ⟨second, hsecond, hsecondval⟩ := calculateDecay_eq hright hduration
  refine ⟨whole, first, second, hrun, hfirst, hsecond, ?_⟩
  rw [hwhole, Int.toNat_natCast] at hval
  have hsplit := powerOf_law.decayed_split left.toInt.toNat right.toInt.toNat duration.toInt.toNat
  omega

theorem calculateDecay_split_hour :
    ∃ whole first second : Int64, calculateDecay (70000 + 50001) 3600 = .ok whole ∧
      calculateDecay 70000 3600 = .ok first ∧ calculateDecay 50001 3600 = .ok second ∧
      -1 ≤ whole.toInt - first.toInt - second.toInt ∧
      whole.toInt - first.toInt - second.toInt ≤ 2 :=
  calculateDecay_split (by decide) (by decide) (by decide) (by decide)

/-! ### Splitting a duration -/

theorem exactPower_nonneg (seconds : ℕ) : 0 ≤ exactPower seconds :=
  ideal_nonneg 2 Squares.bitWeight_nonneg 25 0 seconds

theorem exactPower_le_one (seconds : ℕ) : exactPower seconds ≤ 1 :=
  ideal_le_one 2 Squares.bitWeight_nonneg decayPower_squares.bitWeight_le 25 0 seconds

/-- Every carry of the sum puts an entry of the table in the place of a square. -/
theorem exactPower_add {first second : ℕ} (hlt : first + second < 2 ^ 25) :
    exactPower (first + second) ≤ exactPower first * exactPower second ∧
      exactPower first * exactPower second ≤ exactPower (first + second) + 25 / 2 ^ 64 := by
  have hcarry :=
    decayPower_squares.ideal_add 0 (Nat.zero_le 1) (show first + second + 0 < 2 ^ 25 by omega)
  simp only [Nat.add_zero, pow_zero, mul_one] at hcarry
  rw [exactPower, exactPower, exactPower]
  norm_num at hcarry ⊢
  exact hcarry

/-- The factors of two durations multiplied, against the factor of their sum. -/
theorem powerOf_add_near {first second : ℕ} (hlt : first + second < 2 ^ 25) :
    (powerOf first * powerOf second : ℚ) ≤ 2 ^ 64 * (powerOf (first + second) + 49) ∧
      2 ^ 64 * (powerOf (first + second) : ℚ) ≤ powerOf first * powerOf second + 2 ^ 64 * 48 := by
  obtain ⟨hfirst, hfirstnear⟩ := powerOf_near (show first < 2 ^ 25 by omega)
  obtain ⟨hsecond, hsecondnear⟩ := powerOf_near (show second < 2 ^ 25 by omega)
  obtain ⟨hsum, hsumnear⟩ := powerOf_near hlt
  obtain ⟨hbelow, hcarry⟩ := exactPower_add hlt
  have hfirstone : exactPower first ≤ 1 := exactPower_le_one first
  have hfirstpos : 0 ≤ exactPower first := exactPower_nonneg first
  have hfirstle : (powerOf first : ℚ) ≤ 2 ^ 64 := by linarith
  have hsecondle : (powerOf second : ℚ) ≤ 2 ^ 64 := by linarith [exactPower_le_one second]
  have hsecondpos : (0 : ℚ) ≤ powerOf second := Nat.cast_nonneg _
  constructor
  · calc (powerOf first * powerOf second : ℚ) ≤
        2 ^ 64 * exactPower first * (2 ^ 64 * exactPower second) := by
          apply mul_le_mul hfirst hsecond hsecondpos
          positivity
      _ = 2 ^ 64 * (2 ^ 64 * (exactPower first * exactPower second)) := by ring
      _ ≤ 2 ^ 64 * (2 ^ 64 * (exactPower (first + second) + 25 / 2 ^ 64)) := by gcongr
      _ ≤ _ := by linarith
  · calc 2 ^ 64 * (powerOf (first + second) : ℚ) ≤
        2 ^ 64 * (2 ^ 64 * exactPower (first + second)) := by gcongr
      _ ≤ 2 ^ 64 * (2 ^ 64 * (exactPower first * exactPower second)) := by gcongr
      _ = 2 ^ 64 * exactPower first * (2 ^ 64 * exactPower second) := by ring
      _ ≤ 2 ^ 64 * exactPower first * (powerOf second + 24) := by gcongr
      _ = 2 ^ 64 * exactPower first * powerOf second + 2 ^ 64 * exactPower first * 24 := by ring
      _ ≤ (powerOf first + 24) * powerOf second + 2 ^ 64 * 1 * 24 := by gcongr
      _ ≤ _ := by linarith

/-- Rounded twice on the way, and once. -/
theorem nearest_twice {amount first second sum : ℕ} (hamount : amount ≤ 2 ^ 56)
    (hsecond : second ≤ 2 ^ 64) (hbelow : first * second ≤ 2 ^ 64 * (sum + 49))
    (habove : 2 ^ 64 * sum ≤ first * second + 2 ^ 64 * 48) :
    nearest (2 ^ 63) (nearest (2 ^ 63) (amount * first) * second) ≤
        nearest (2 ^ 63) (amount * sum) + 1 ∧
      nearest (2 ^ 63) (amount * sum) ≤
        nearest (2 ^ 63) (nearest (2 ^ 63) (amount * first) * second) + 1 := by
  have hpos := Nat.two_pow_pos 63
  have hfirstle := nearest_mul_le (n := amount * first) hpos
  have hfirstlt := lt_nearest_mul (n := amount * first) hpos
  generalize nearest (2 ^ 63) (amount * first) = between at hfirstle hfirstlt ⊢
  have hlastle := nearest_mul_le (n := between * second) hpos
  have hlastlt := lt_nearest_mul (n := between * second) hpos
  have hsumle := nearest_mul_le (n := amount * sum) hpos
  have hsumlt := lt_nearest_mul (n := amount * sum) hpos
  generalize nearest (2 ^ 63) (between * second) = twice at hlastle hlastlt ⊢
  generalize nearest (2 ^ 63) (amount * sum) = once at hsumle hsumlt ⊢
  have hscaledle : between * (2 * 2 ^ 63) * second ≤ (amount * first + 2 ^ 63) * second :=
    Nat.mul_le_mul_right second hfirstle
  have hscaledlt : (amount * first + 2 ^ 63) * second ≤ (between + 1) * (2 * 2 ^ 63) * second :=
    Nat.mul_le_mul_right second hfirstlt.le
  have hproductle : amount * (first * second) ≤ amount * (2 ^ 64 * (sum + 49)) :=
    Nat.mul_le_mul_left amount hbelow
  have hproductlt : amount * (2 ^ 64 * sum) ≤ amount * (first * second + 2 ^ 64 * 48) :=
    Nat.mul_le_mul_left amount habove
  constructor
  · by_contra hnot
    have hapart : once + 2 ≤ twice := by omega
    nlinarith
  · by_contra hnot
    have hapart : twice + 2 ≤ once := by omega
    nlinarith

/-- Decay in two steps is decay in one, up to a unit. -/
theorem calculateDecay_steps {gdd first second : Int64} (hgdd : 0 ≤ gdd)
    (hamount : gdd.toInt ≤ 2 ^ 56) (hfirst : 0 ≤ first) (hsecond : 0 ≤ second)
    (hsum : first.toInt + second.toInt < secondsPerYear.toInt) :
    ∃ between twice once : Int64, calculateDecay gdd first = .ok between ∧
      calculateDecay between second = .ok twice ∧ calculateDecay gdd (first + second) = .ok once ∧
      |twice.toInt - once.toInt| ≤ 1 := by
  have hfirstval := toInt_nonneg hfirst
  have hsecondval := toInt_nonneg hsecond
  have hgddval := toInt_nonneg hgdd
  have hsumval : (first + second).toInt = ((first.toInt.toNat + second.toInt.toNat : ℕ) : ℤ) := by
    rw [show secondsPerYear.toInt = 31556952 by decide] at hsum
    rw [Int64.toInt_add, ← hfirstval, ← hsecondval, ← Int.natCast_add, Int.toNat_natCast,
      Int.toNat_natCast]
    exact bmod_of_lt (by omega)
  have hlt : first.toInt.toNat + second.toInt.toNat < yearSeconds := by
    rw [show secondsPerYear.toInt = (yearSeconds : ℤ) by decide] at hsum
    omega
  have hnonneg : 0 ≤ first + second := by
    rw [Int64.le_iff_toInt_le, hsumval, Int64.toInt_zero]
    exact Int.natCast_nonneg _
  obtain ⟨between, hbetween, hbetweenval⟩ := calculateDecay_eq hgdd hfirst
  have hbetweennonneg : 0 ≤ between := by
    rw [Int64.le_iff_toInt_le, hbetweenval, Int64.toInt_zero]
    exact Int.natCast_nonneg _
  obtain ⟨twice, htwice, htwiceval⟩ := calculateDecay_eq hbetweennonneg hsecond
  obtain ⟨once, honce, honceval⟩ := calculateDecay_eq hgdd hnonneg
  refine ⟨between, twice, once, hbetween, htwice, honce, ?_⟩
  rw [hsumval, Int.toNat_natCast] at honceval
  rw [hbetweenval, Int.toNat_natCast] at htwiceval
  rw [decayed_of_lt (show first.toInt.toNat < yearSeconds by omega),
    decayed_of_lt (show second.toInt.toNat < yearSeconds by omega)] at htwiceval
  rw [decayed_of_lt hlt] at honceval
  have hbits : first.toInt.toNat + second.toInt.toNat < 2 ^ 25 := by
    rw [yearSeconds] at hlt
    omega
  obtain ⟨hbelow, habove⟩ := powerOf_add_near hbits
  have hnear :=
    nearest_twice (show gdd.toInt.toNat ≤ 2 ^ 56 by omega)
      (powerOf_le (show second.toInt.toNat < 2 ^ 32 by omega)) (by exact_mod_cast hbelow)
      (by exact_mod_cast habove)
  rw [abs_le]
  omega

theorem calculateDecay_steps_day :
    ∃ between twice once : Int64, calculateDecay 70000000 86400 = .ok between ∧
      calculateDecay between 4000 = .ok twice ∧ calculateDecay 70000000 (86400 + 4000) = .ok once ∧
      |twice.toInt - once.toInt| ≤ 1 :=
  calculateDecay_steps (by decide) (by decide) (by decide) (by decide) (by decide)

end GrddUnit

end GradidoBlockchain
