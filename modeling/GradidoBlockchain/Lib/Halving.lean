import Mathlib.Algebra.Order.Ring.Nat
import Mathlib.Data.Rat.Cast.Order
import Mathlib.Tactic.Common
import Mathlib.Tactic.Linarith
import Mathlib.Tactic.Ring

/-!
# Amounts that are halved

An amount loses half of itself in every period. Whole periods are shifted off, which cuts, and for
the time within a period the rest is multiplied by a factor in fixed point and rounded to the
nearest whole number. The fixed point has `2 * half` units to one.
-/

namespace Halving

/-! ### Rounding -/

/-- The nearest whole number, the upper one in the middle. -/
def nearest (half n : ℕ) : ℕ := (n + half) / (2 * half)

variable {half period : ℕ} {factor other : ℕ → ℕ} {n m k : ℕ}

theorem le_nearest_iff (hpos : 0 < half) : k ≤ nearest half n ↔ k * (2 * half) ≤ n + half := by
  rw [nearest, Nat.le_div_iff_mul_le (by omega)]

theorem nearest_lt_iff (hpos : 0 < half) : nearest half n < k ↔ n + half < k * (2 * half) := by
  rw [nearest, Nat.div_lt_iff_lt_mul (by omega)]

theorem nearest_mul_le (hpos : 0 < half) : nearest half n * (2 * half) ≤ n + half :=
  (le_nearest_iff hpos).1 le_rfl

theorem lt_nearest_mul (hpos : 0 < half) : n + half < (nearest half n + 1) * (2 * half) :=
  (nearest_lt_iff hpos).1 (Nat.lt_succ_self _)

theorem nearest_mono (hle : n ≤ m) : nearest half n ≤ nearest half m :=
  Nat.div_le_div_right (Nat.add_le_add_right hle half)

theorem nearest_mul (hpos : 0 < half) (k : ℕ) : nearest half (k * (2 * half)) = k := by
  rw [nearest, Nat.add_comm, Nat.add_mul_div_right _ _ (by omega), Nat.div_eq_of_lt (by omega),
    Nat.zero_add]

theorem nearest_le_add (hpos : 0 < half) (hle : n ≤ m + k * (2 * half)) :
    nearest half n ≤ nearest half m + k := by
  apply (nearest_mono hle).trans
  rw [nearest, nearest, Nat.add_right_comm, Nat.add_mul_div_right _ _ (by omega)]

/-- A middle between two whole numbers lies above one of the numbers and not above the other. -/
def Parted (half n m : ℕ) : Prop :=
  ∃ k, n < (2 * k + 1) * half ∧ (2 * k + 1) * half ≤ m ∨
    m < (2 * k + 1) * half ∧ (2 * k + 1) * half ≤ n

theorem nearest_lt_nearest_iff (hpos : 0 < half) :
    nearest half n < nearest half m ↔ ∃ k, n < (2 * k + 1) * half ∧ (2 * k + 1) * half ≤ m := by
  have hmiddle : ∀ k, (2 * k + 1) * half + half = (k + 1) * (2 * half) := fun k => by ring
  constructor
  · intro hlt
    refine ⟨nearest half n, ?_, ?_⟩
    · have hup := lt_nearest_mul (n := n) hpos
      have heq := hmiddle (nearest half n)
      omega
    · have hle := (le_nearest_iff hpos).1 (Nat.succ_le_of_lt hlt)
      have heq := hmiddle (nearest half n)
      rw [Nat.succ_eq_add_one] at hle
      omega
  · intro ⟨k, hbelow, habove⟩
    have heq := hmiddle k
    have hn : nearest half n < k + 1 := (nearest_lt_iff hpos).2 (by omega)
    have hm : k + 1 ≤ nearest half m := (le_nearest_iff hpos).2 (by omega)
    exact hn.trans_le hm

/-- Two numbers are rounded to the same one unless a middle parts them. -/
theorem nearest_eq_iff (hpos : 0 < half) : nearest half n = nearest half m ↔ ¬ Parted half n m := by
  have hparted : Parted half n m ↔
      nearest half n < nearest half m ∨ nearest half m < nearest half n := by
    rw [nearest_lt_nearest_iff hpos, nearest_lt_nearest_iff hpos, ← exists_or]
    rfl
  rw [hparted]
  omega

/-- No middle between two whole numbers lies above the one bound and not above the other. -/
def NoMiddle (half : ℕ) (low high : ℚ) : Prop :=
  ∀ k : ℕ, ¬(low < ((2 * k + 1) * half : ℕ) ∧ (((2 * k + 1) * half : ℕ) : ℚ) ≤ high)

/-- Only the middles next to the band can lie in it. -/
theorem noMiddle_of_between {low high : ℚ} (hbelow : (((2 * k + 1) * half : ℕ) : ℚ) ≤ low)
    (habove : high < ((2 * (k + 1) + 1) * half : ℕ)) : NoMiddle half low high := by
  intro other ⟨hlow, hhigh⟩
  have hleft : (2 * k + 1) * half < (2 * other + 1) * half := by exact_mod_cast hbelow.trans_lt hlow
  have hright : (2 * other + 1) * half < (2 * (k + 1) + 1) * half := by
    exact_mod_cast hhigh.trans_lt habove
  have hgreater := Nat.lt_of_mul_lt_mul_right hleft
  have hless := Nat.lt_of_mul_lt_mul_right hright
  omega

/-- Numbers between two bounds that no middle parts are rounded to the same one. -/
theorem NoMiddle.nearest_eq {low high : ℚ} (hclear : NoMiddle half low high) (hpos : 0 < half)
    (hn : low ≤ n ∧ (n : ℚ) ≤ high) (hm : low ≤ m ∧ (m : ℚ) ≤ high) :
    nearest half n = nearest half m := by
  rw [nearest_eq_iff hpos]
  rintro ⟨k, ⟨hbelow, habove⟩ | ⟨hbelow, habove⟩⟩
  · exact hclear k ⟨hn.1.trans_lt (Nat.cast_lt.2 hbelow), (Nat.cast_le.2 habove).trans hm.2⟩
  · exact hclear k ⟨hm.1.trans_lt (Nat.cast_lt.2 hbelow), (Nat.cast_le.2 habove).trans hn.2⟩

/-- An amount that grows by a reciprocal of the factor and then decays by the factor is back, and at
most one unit short. -/
theorem nearest_undone {amount growth factor : ℕ} (hpos : 0 < half) (hfactor : factor < 2 * half)
    (hupper : growth * factor ≤ (2 * half) ^ 2) (hlower : (2 * half) ^ 2 < (growth + 3) * factor)
    (hamount : 3 * (amount * factor) ≤ (2 * half) ^ 2) :
    nearest half (nearest half (amount * growth) * factor) ≤ amount ∧
      amount ≤ nearest half (nearest half (amount * growth) * factor) + 1 := by
  have hgrown := nearest_mul_le (n := amount * growth) hpos
  have hgrown' := lt_nearest_mul (n := amount * growth) hpos
  generalize nearest half (amount * growth) = grown at hgrown hgrown' ⊢
  have hback := nearest_mul_le (n := grown * factor) hpos
  have hback' := lt_nearest_mul (n := grown * factor) hpos
  generalize nearest half (grown * factor) = back at hback hback' ⊢
  have hlost : half * factor ≤ 2 * half ^ 2 := by nlinarith
  constructor
  · -- both roundings add less than a half each
    have hscaled : back * (2 * half) ^ 2 ≤
        amount * (growth * factor) + half * factor + 2 * half ^ 2 := by
      calc back * (2 * half) ^ 2 = back * (2 * half) * (2 * half) := by ring
        _ ≤ (grown * factor + half) * (2 * half) := Nat.mul_le_mul_right _ hback
        _ = grown * (2 * half) * factor + 2 * half ^ 2 := by ring
        _ ≤ (amount * growth + half) * factor + 2 * half ^ 2 :=
          Nat.add_le_add_right (Nat.mul_le_mul_right _ hgrown) _
        _ = _ := by ring
    have hstrict : half * factor < 2 * half ^ 2 := by nlinarith
    have hkept : amount * (growth * factor) ≤ amount * (2 * half) ^ 2 :=
      Nat.mul_le_mul_left amount hupper
    apply Nat.le_of_lt_succ
    apply Nat.lt_of_mul_lt_mul_right (a := (2 * half) ^ 2)
    rw [Nat.succ_eq_add_one]
    nlinarith
  · -- both roundings lose at most a half each, and the reciprocal less than one
    have hscaled : amount * (growth * factor) + 2 * half ^ 2 <
        (back + 1) * (2 * half) ^ 2 + half * factor := by
      have hless : (amount * growth + half) * factor ≤ (grown + 1) * (2 * half) * factor :=
        Nat.mul_le_mul_right _ hgrown'.le
      have hless' : (grown * factor + half) * (2 * half) < (back + 1) * (2 * half) * (2 * half) :=
        Nat.mul_lt_mul_of_pos_right hback' (by omega)
      nlinarith
    have hkept : amount * (2 * half) ^ 2 ≤ amount * ((growth + 3) * factor) :=
      Nat.mul_le_mul_left amount hlower.le
    apply Nat.le_of_lt_succ
    apply Nat.lt_of_mul_lt_mul_right (a := (2 * half) ^ 2)
    rw [Nat.succ_eq_add_one]
    nlinarith

/-! ### The law -/

/-- Within a period the factor falls from one to not less than a half. -/
structure Law (half period : ℕ) (factor : ℕ → ℕ) : Prop where
  half_pos : 0 < half
  period_pos : 0 < period
  start : factor 0 = 2 * half
  antitone : ∀ early late, early ≤ late → late < period → factor late ≤ factor early
  half_le : ∀ time < period, half ≤ factor time

/-- What is left of an amount. -/
def decayed (half period : ℕ) (factor : ℕ → ℕ) (amount duration : ℕ) : ℕ :=
  nearest half (amount / 2 ^ (duration / period) * factor (duration % period))

theorem decayed_of_lt {amount duration : ℕ} (hlt : duration < period) :
    decayed half period factor amount duration = nearest half (amount * factor duration) := by
  rw [decayed, Nat.div_eq_of_lt hlt, Nat.mod_eq_of_lt hlt, Nat.pow_zero, Nat.div_one]

namespace Law

variable {amount left right duration short long : ℕ}

theorem factor_le (hlaw : Law half period factor) {time : ℕ}
    (htime : time < period) : factor time ≤ 2 * half := by
  rw [← hlaw.start]
  exact hlaw.antitone 0 time (Nat.zero_le time) htime

theorem nearest_factor_le (hlaw : Law half period factor) {time : ℕ} (htime : time < period)
    (amount : ℕ) : nearest half (amount * factor time) ≤ amount := by
  have hle : amount * factor time ≤ amount * (2 * half) :=
    Nat.mul_le_mul_left amount (hlaw.factor_le htime)
  exact (nearest_mono hle).trans (nearest_mul hlaw.half_pos amount).le

theorem half_le_nearest_factor (hlaw : Law half period factor) {time : ℕ} (htime : time < period)
    (amount : ℕ) : amount / 2 ≤ nearest half (amount * factor time) := by
  rw [le_nearest_iff hlaw.half_pos]
  have htwice := Nat.div_mul_le_self amount 2
  have hfactor : amount * half ≤ amount * factor time :=
    Nat.mul_le_mul_left amount (hlaw.half_le time htime)
  nlinarith

/-- Without any time an amount stays what it is. -/
theorem decayed_zero (hlaw : Law half period factor) (amount : ℕ) :
    decayed half period factor amount 0 = amount := by
  rw [decayed, Nat.zero_div, Nat.zero_mod, hlaw.start, Nat.pow_zero, Nat.div_one,
    nearest_mul hlaw.half_pos]

theorem decayed_le (hlaw : Law half period factor) (amount duration : ℕ) :
    decayed half period factor amount duration ≤ amount :=
  (hlaw.nearest_factor_le (Nat.mod_lt _ hlaw.period_pos) _).trans (Nat.div_le_self _ _)

theorem decayed_mono (hle : left ≤ right) :
    decayed half period factor left duration ≤ decayed half period factor right duration := by
  apply nearest_mono
  apply Nat.mul_le_mul_right
  exact Nat.div_le_div_right hle

/-- The longer an amount lies, the less is left of it. -/
theorem decayed_antitone (hlaw : Law half period factor) (hle : short ≤ long) :
    decayed half period factor amount long ≤ decayed half period factor amount short := by
  have hperiods : short / period ≤ long / period := Nat.div_le_div_right hle
  have hshort := Nat.mod_lt short hlaw.period_pos
  have hlong := Nat.mod_lt long hlaw.period_pos
  obtain heq | hlt := Nat.eq_or_lt_of_le hperiods
  · have htime : short % period ≤ long % period := by
      have hsplit := Nat.div_add_mod short period
      have hsplit' := Nat.div_add_mod long period
      rw [heq] at hsplit
      omega
    rw [decayed, decayed, heq]
    apply nearest_mono
    exact Nat.mul_le_mul_left _ (hlaw.antitone _ _ htime hlong)
  · -- a period more takes a half, and the factor of the shorter time leaves at least that
    calc decayed half period factor amount long ≤ amount / 2 ^ (long / period) :=
      hlaw.nearest_factor_le hlong _
      _ ≤ amount / 2 ^ (short / period + 1) :=
        Nat.div_le_div_left (Nat.pow_le_pow_right Nat.two_pos hlt) (Nat.two_pow_pos _)
      _ = amount / 2 ^ (short / period) / 2 := by rw [Nat.pow_succ, Nat.div_div_eq_div_mul]
      _ ≤ _ := hlaw.half_le_nearest_factor hshort _

/-- Two amounts that decay apart have at most one unit more than together, and at most two less. -/
theorem decayed_split (hlaw : Law half period factor) (left right duration : ℕ) :
    decayed half period factor left duration + decayed half period factor right duration ≤
        decayed half period factor (left + right) duration + 1 ∧
      decayed half period factor (left + right) duration ≤
        decayed half period factor left duration + decayed half period factor right duration +
          2 := by
  have hpos := hlaw.half_pos
  have hfactor := hlaw.factor_le (Nat.mod_lt duration hlaw.period_pos)
  have hbelow : left / 2 ^ (duration / period) + right / 2 ^ (duration / period) ≤
      (left + right) / 2 ^ (duration / period) := by
    rw [Nat.add_div (Nat.two_pow_pos _)]
    omega
  have habove : (left + right) / 2 ^ (duration / period)
      ≤ left / 2 ^ (duration / period) + right / 2 ^ (duration / period) + 1 := by
    rw [Nat.add_div (Nat.two_pow_pos _)]
    split <;> omega
  simp only [decayed]
  generalize left / 2 ^ (duration / period) = a at hbelow habove ⊢
  generalize right / 2 ^ (duration / period) = b at hbelow habove ⊢
  generalize (left + right) / 2 ^ (duration / period) = c at hbelow habove ⊢
  generalize factor (duration % period) = f at hfactor ⊢
  have hlow : a * f + b * f ≤ c * f := by
    rw [← Nat.add_mul]
    exact Nat.mul_le_mul_right f hbelow
  have hhigh : c * f ≤ a * f + b * f + 2 * half := by
    have hmul : c * f ≤ (a + b + 1) * f := Nat.mul_le_mul_right f habove
    rw [Nat.add_mul, Nat.add_mul, Nat.one_mul] at hmul
    omega
  have hale := nearest_mul_le (n := a * f) hpos
  have hble := nearest_mul_le (n := b * f) hpos
  have hcle := nearest_mul_le (n := c * f) hpos
  have halt := lt_nearest_mul (n := a * f) hpos
  have hblt := lt_nearest_mul (n := b * f) hpos
  have hclt := lt_nearest_mul (n := c * f) hpos
  constructor
  · apply Nat.le_of_lt_succ
    apply Nat.lt_of_mul_lt_mul_right (a := 2 * half)
    simp only [Nat.succ_eq_add_one, Nat.add_mul] at *
    omega
  · apply Nat.le_of_lt_succ
    apply Nat.lt_of_mul_lt_mul_right (a := 2 * half)
    simp only [Nat.succ_eq_add_one, Nat.add_mul] at *
    omega

end Law

/-- Factors that lie close to each other leave about the same of an amount. -/
theorem decayed_le_add (hpos : 0 < half) (hperiod : 0 < period) {amount slack : ℕ}
    (hslack : amount * slack ≤ k * (2 * half))
    (hnear : ∀ time < period, factor time ≤ other time + slack) (duration : ℕ) :
    decayed half period factor amount duration ≤ decayed half period other amount duration + k := by
  have hle := Nat.div_le_self amount (2 ^ (duration / period))
  have hfactor := hnear _ (Nat.mod_lt duration hperiod)
  rw [decayed, decayed]
  generalize amount / 2 ^ (duration / period) = rest at hle ⊢
  apply nearest_le_add hpos
  calc rest * factor (duration % period) ≤ rest * (other (duration % period) + slack) :=
    Nat.mul_le_mul_left rest hfactor
    _ = rest * other (duration % period) + rest * slack := Nat.mul_add _ _ _
    _ ≤ _ := Nat.add_le_add_left ((Nat.mul_le_mul_right slack hle).trans hslack) _

end Halving
