import Mathlib.Algebra.Order.Field.Rat
import Mathlib.Algebra.Order.Floor.Semiring
import Mathlib.Data.Nat.Cast.Order.Field
import Mathlib.Data.Rat.Cast.Order
import Mathlib.Tactic.Common
import Mathlib.Tactic.FieldSimp
import Mathlib.Tactic.Linarith
import Mathlib.Tactic.LinearCombination
import Mathlib.Tactic.Positivity
import Mathlib.Tactic.Ring

/-!
# Powers by their digits, in fixed point

A power of a number below one is multiplied together from a table, one factor for each digit of the
exponent, and every product is cut off after the point. How far the result lies below the exact
product, and that it does not grow with the exponent, follows from a few comparisons of neighbouring
entries of the table.
-/

namespace Truncated

/-! ### The chain of multiplications -/

/-- A number in units of `1 / one`, multiplied by the factors of the digits of an exponent, the
lowest digit first. -/
def chain (one base : ℕ) (factor : ℕ → ℕ → ℕ) : ℕ → ℕ → ℕ → ℕ → ℕ
  | 0, _, _, x => x
  | digits + 1, position, exponent, x =>
    chain one base factor digits (position + 1) (exponent / base)
      (x * factor position (exponent % base) / one)

/-- The exact product of the weights of the digits of an exponent. -/
def ideal (base : ℕ) (weight : ℕ → ℕ → ℚ) : ℕ → ℕ → ℕ → ℚ
  | 0, _, _ => 1
  | digits + 1, position, exponent =>
    weight position (exponent % base) * ideal base weight digits (position + 1) (exponent / base)

variable {one base : ℕ} {factor : ℕ → ℕ → ℕ} {weight : ℕ → ℕ → ℚ}

theorem chain_mono {digits position exponent x y : ℕ} (hle : x ≤ y) :
    chain one base factor digits position exponent x ≤
      chain one base factor digits position exponent y := by
  induction digits generalizing position exponent x y with
  | zero => exact hle
  | succ digits ih =>
    apply ih
    exact Nat.div_le_div_right (Nat.mul_le_mul_right _ hle)

theorem chain_zero (hpos : 0 < one) (hzero : ∀ position, factor position 0 = one)
    (digits position x : ℕ) : chain one base factor digits position 0 x = x := by
  induction digits generalizing position x with
  | zero => rfl
  | succ digits ih => rw [chain, Nat.zero_mod, Nat.zero_div, hzero, Nat.mul_div_cancel _ hpos, ih]

/-- Digits in front of an exponent change nothing. -/
theorem chain_of_lt (hpos : 0 < one) (hzero : ∀ position, factor position 0 = one) {few many : ℕ}
    (hle : few ≤ many) {exponent : ℕ} (hlt : exponent < base ^ few) (position x : ℕ) :
    chain one base factor many position exponent x =
      chain one base factor few position exponent x := by
  induction few generalizing many position exponent x with
  | zero =>
    have hexponent : exponent = 0 := by
      rw [Nat.pow_zero] at hlt
      omega
    rw [hexponent, chain_zero hpos hzero, chain]
  | succ few ih =>
    obtain ⟨many, rfl⟩ : ∃ rest, many = rest + 1 := ⟨many - 1, by omega⟩
    rw [chain, chain]
    apply ih (by omega)
    apply Nat.div_lt_of_lt_mul
    rw [← Nat.pow_succ']
    exact hlt

/-! ### A larger exponent -/

/-- The product of the factors of the largest digit at the first positions. -/
def fullChain (one base : ℕ) (factor : ℕ → ℕ → ℕ) : ℕ → ℕ
  | 0 => one
  | position + 1 => fullChain one base factor position * factor position (base - 1) / one

/-- An entry of the table is not above the one before it, even after all the positions below
have been filled up. -/
structure Falling (one base positions : ℕ) (factor : ℕ → ℕ → ℕ) : Prop where
  one_pos : 0 < one
  base_pos : 0 < base
  zero_digit : ∀ position, factor position 0 = one
  next_le : ∀ position < positions, ∀ digit, digit + 1 < base →
    factor position (digit + 1) ≤ fullChain one base factor position * factor position digit / one

namespace Falling

variable {positions : ℕ}

theorem one_mul_div (hfalling : Falling one base positions factor) (position : ℕ) :
    one * factor position 0 / one = one := by
  rw [hfalling.zero_digit, Nat.mul_div_cancel_left one hfalling.one_pos]

/-- From one exponent to the next: digits at their largest fall back to zero, and the first one that
is not takes one more. -/
theorem chain_succ_le_full (hfalling : Falling one base positions factor)
    {digits position exponent : ℕ} (hpositions : position + digits = positions)
    (hlt : exponent + 1 < base ^ digits) :
    chain one base factor digits position (exponent + 1) one ≤
      chain one base factor digits position exponent (fullChain one base factor position) := by
  induction digits generalizing position exponent with
  | zero =>
    exfalso
    rw [Nat.pow_zero] at hlt
    exact Nat.not_lt_zero _ (Nat.lt_of_succ_lt_succ hlt)
  | succ digits ih =>
    have hbase := hfalling.base_pos
    have hdigit := Nat.mod_lt exponent hbase
    have hdivmod := Nat.div_add_mod exponent base
    rw [chain, chain]
    by_cases hlast : exponent % base + 1 < base
    · have hdiv : (exponent + 1) / base = exponent / base := by
        apply Nat.div_eq_of_lt_le
        · rw [Nat.mul_comm]
          omega
        · rw [Nat.mul_comm, Nat.mul_succ]
          omega
      have hmod : (exponent + 1) % base = exponent % base + 1 := by
        have hsum := Nat.div_add_mod (exponent + 1) base
        rw [hdiv] at hsum
        omega
      rw [hdiv, hmod, Nat.mul_div_cancel_left _ hfalling.one_pos]
      apply chain_mono
      exact hfalling.next_le position (by omega) _ hlast
    · have hfull : exponent % base = base - 1 := by omega
      have hnext : exponent + 1 = base * (exponent / base + 1) := by
        rw [Nat.mul_add, Nat.mul_one]
        omega
      have hdiv : (exponent + 1) / base = exponent / base + 1 := by
        rw [hnext, Nat.mul_div_cancel_left _ hbase]
      have hmod : (exponent + 1) % base = 0 := by
        rw [hnext, Nat.mul_mod_right]
      rw [hdiv, hmod, hfull, hfalling.one_mul_div]
      apply ih (by omega)
      rw [hnext, Nat.pow_succ, Nat.mul_comm] at hlt
      exact Nat.lt_of_mul_lt_mul_right hlt

theorem chain_succ_le (hfalling : Falling one base positions factor) {exponent : ℕ}
    (hlt : exponent + 1 < base ^ positions) :
    chain one base factor positions 0 (exponent + 1) one ≤
      chain one base factor positions 0 exponent one :=
  hfalling.chain_succ_le_full (Nat.zero_add positions) hlt

/-- A larger exponent does not give a larger power. -/
theorem chain_antitone (hfalling : Falling one base positions factor) {small large : ℕ}
    (hle : small ≤ large) (hlt : large < base ^ positions) :
    chain one base factor positions 0 large one ≤ chain one base factor positions 0 small one := by
  induction large, hle using Nat.le_induction with
  | base => exact le_rfl
  | succ large _ ih => exact (hfalling.chain_succ_le hlt).trans (ih (Nat.lt_of_succ_lt hlt))

end Falling

/-! ### What is cut off -/

theorem ideal_nonneg (base : ℕ) (hnonneg : ∀ position digit, 0 ≤ weight position digit)
    (digits position exponent : ℕ) : 0 ≤ ideal base weight digits position exponent := by
  induction digits generalizing position exponent with
  | zero => exact zero_le_one
  | succ digits ih => exact mul_nonneg (hnonneg _ _) (ih _ _)

theorem ideal_le_one (base : ℕ) (hnonneg : ∀ position digit, 0 ≤ weight position digit)
    (hle : ∀ position digit, weight position digit ≤ 1) (digits position exponent : ℕ) :
    ideal base weight digits position exponent ≤ 1 := by
  induction digits generalizing position exponent with
  | zero => exact le_rfl
  | succ digits ih => exact mul_le_one₀ (hle _ _) (ideal_nonneg base hnonneg _ _ _) (ih _ _)

/-- A quotient of natural numbers lies less than one below the exact one. -/
theorem div_le_and_near (numerator : ℕ) {unit : ℕ} (hpos : 0 < unit) :
    ((numerator / unit : ℕ) : ℚ) ≤ numerator / unit ∧
      (numerator : ℚ) / unit ≤ (numerator / unit : ℕ) + 1 := by
  have hunit : (0 : ℚ) < unit := Nat.cast_pos.2 hpos
  refine ⟨Nat.cast_div_le, ?_⟩
  rw [div_le_iff₀ hunit]
  have hlt := Nat.lt_mul_div_succ numerator hpos
  have hcast : (numerator : ℚ) < unit * ((numerator / unit : ℕ) + 1) := by exact_mod_cast hlt
  linarith

/-- A number in units of `1 / one` is multiplied together from a number of factors up to one, in
whatever grouping, and cut off after every multiplication. -/
structure Product (one value : ℕ) (exact : ℚ) (factors : ℕ) : Prop where
  exact_nonneg : 0 ≤ exact
  exact_le : exact ≤ 1
  below : (value : ℚ) ≤ one * exact
  near : one * exact ≤ value + (factors - 1 : ℕ)
  empty : factors = 0 → value = one ∧ exact = 1

namespace Product

variable {x y factors factors' : ℕ} {exact exact' : ℚ}

theorem start (one : ℕ) : Product one one 1 0 :=
  ⟨zero_le_one, le_rfl, (mul_one _).ge, by simp, fun _ => ⟨rfl, rfl⟩⟩

/-- An entry of a table of which nothing was cut off. -/
theorem single (hpos : 0 < one) (hle : x ≤ one) : Product one x (x / one) 1 := by
  have hone : (0 : ℚ) < one := Nat.cast_pos.2 hpos
  have hexact : (one : ℚ) * (x / one) = x := mul_div_cancel₀ _ hone.ne'
  refine ⟨by positivity, ?_, hexact.ge, ?_, fun h => absurd h one_ne_zero⟩
  · rw [div_le_one hone]
    exact Nat.cast_le.2 hle
  · simp [hexact]

/-- One multiplication cuts off less than one unit. -/
theorem mul (hpos : 0 < one) (hleft : Product one x exact factors)
    (hright : Product one y exact' factors') :
    Product one (x * y / one) (exact * exact') (factors + factors') := by
  rcases Nat.eq_zero_or_pos factors with rfl | hsome
  · obtain ⟨rfl, rfl⟩ := hleft.empty rfl
    rwa [Nat.mul_div_cancel_left _ hpos, one_mul, Nat.zero_add]
  rcases Nat.eq_zero_or_pos factors' with rfl | hsome'
  · obtain ⟨rfl, rfl⟩ := hright.empty rfl
    rwa [Nat.mul_div_cancel _ hpos, mul_one, Nat.add_zero]
  have hone : (0 : ℚ) < one := Nat.cast_pos.2 hpos
  obtain ⟨hcut, hcutnear⟩ := div_le_and_near (x * y) hpos
  have hcount : ((factors + factors' - 1 : ℕ) : ℚ) =
      (factors - 1 : ℕ) + (factors' - 1 : ℕ) + 1 := by
    rw [← Nat.cast_add, ← Nat.cast_succ]
    congr 1
    omega
  have hslack : (0 : ℚ) ≤ (factors - 1 : ℕ) := Nat.cast_nonneg _
  have hslack' : (0 : ℚ) ≤ (factors' - 1 : ℕ) := Nat.cast_nonneg _
  have hx : (0 : ℚ) ≤ x := Nat.cast_nonneg x
  have hxone : (x : ℚ) ≤ one := hleft.below.trans (mul_le_of_le_one_right hone.le hleft.exact_le)
  push_cast at hcut hcutnear
  refine ⟨mul_nonneg hleft.exact_nonneg hright.exact_nonneg,
    mul_le_one₀ hleft.exact_le hright.exact_nonneg hright.exact_le, ?_, ?_, fun h => by omega⟩
  · calc ((x * y / one : ℕ) : ℚ) ≤ x * y / one := hcut
      _ ≤ one * exact * (one * exact') / one := by
          gcongr
          · exact hx.trans hleft.below
          · exact hleft.below
          · exact hright.below
      _ = _ := by field_simp
  · calc one * (exact * exact') = one * exact * exact' := by ring
      _ ≤ (x + (factors - 1 : ℕ)) * exact' :=
        mul_le_mul_of_nonneg_right hleft.near hright.exact_nonneg
      _ ≤ x * exact' + (factors - 1 : ℕ) := by
          rw [add_mul]
          exact add_le_add le_rfl (mul_le_of_le_one_right hslack hright.exact_le)
      _ = x * (one * exact') / one + (factors - 1 : ℕ) := by field_simp
      _ ≤ x * (y + (factors' - 1 : ℕ)) / one + (factors - 1 : ℕ) := by
          gcongr
          exact hright.near
      _ = x * y / one + x / one * (factors' - 1 : ℕ) + (factors - 1 : ℕ) := by ring
      _ ≤ ((x * y / one : ℕ) + 1) + (factors' - 1 : ℕ) + (factors - 1 : ℕ) := by
          gcongr
          exact mul_le_of_le_one_left hslack' ((div_le_one hone).2 hxone)
      _ = _ := by
          rw [hcount]
          ring

/-- Two ways to multiply the same factors are less than one unit for each multiplication apart. -/
theorem close (hleft : Product one x exact factors) (hright : Product one y exact factors) :
    x ≤ y + (factors - 1) := by
  exact_mod_cast hleft.below.trans hright.near

/-- Where the multiple of a product lies. -/
theorem scaled (hproduct : Product one x exact factors) (amount : ℕ) :
    amount * (one * exact - (factors - 1 : ℕ)) ≤ ((amount * x : ℕ) : ℚ) ∧
      ((amount * x : ℕ) : ℚ) ≤ amount * (one * exact) := by
  have hnear := hproduct.near
  push_cast
  refine ⟨mul_le_mul_of_nonneg_left ?_ (Nat.cast_nonneg _),
    mul_le_mul_of_nonneg_left hproduct.below (Nat.cast_nonneg _)⟩
  linarith

end Product

/-! ### Counting the factors -/

/-- What is counted for the digits of an exponent, together. -/
def total (base : ℕ) (count : ℕ → ℕ) : ℕ → ℕ → ℕ
  | 0, _ => 0
  | digits + 1, exponent => count (exponent % base) + total base count digits (exponent / base)

/-- A digit that is not zero brings one factor. -/
def significant (digit : ℕ) : ℕ := if digit = 0 then 0 else 1

theorem total_significant_le (base digits exponent : ℕ) :
    total base significant digits exponent ≤ digits := by
  induction digits generalizing exponent with
  | zero => exact le_rfl
  | succ digits ih =>
    have hrest := ih (exponent / base)
    rw [total, significant]
    split <;> omega

theorem chain_of_no_factor (hpos : 0 < one) (hzero : ∀ position, factor position 0 = one)
    {digits exponent : ℕ} (hnone : total base significant digits exponent = 0) (position x : ℕ) :
    chain one base factor digits position exponent x = x := by
  induction digits generalizing position exponent x with
  | zero => rfl
  | succ digits ih =>
    rw [total, Nat.add_eq_zero_iff] at hnone
    have hdigit : exponent % base = 0 := by
      by_contra hdigit
      rw [significant, if_neg hdigit] at hnone
      exact one_ne_zero hnone.1
    rw [chain, hdigit, hzero, Nat.mul_div_cancel _ hpos, ih hnone.2]

/-- A group with one factor cuts where this factor cuts. -/
theorem chain_of_one_factor (hpos : 0 < one) (hzero : ∀ position, factor position 0 = one)
    {digits exponent : ℕ} (hone : total base significant digits exponent ≤ 1) (position x : ℕ) :
    chain one base factor digits position exponent x =
      x * chain one base factor digits position exponent one / one := by
  induction digits generalizing position exponent with
  | zero => rw [chain, chain, Nat.mul_div_cancel _ hpos]
  | succ digits ih =>
    rw [total, significant] at hone
    rw [chain, chain, Nat.mul_div_cancel_left _ hpos]
    split at hone
    next hdigit =>
      rw [hdigit, hzero, Nat.mul_div_cancel _ hpos]
      exact ih (by omega) _
    next =>
      have hnone : total base significant digits (exponent / base) = 0 := by omega
      rw [chain_of_no_factor hpos hzero hnone, chain_of_no_factor hpos hzero hnone]

/-- A chain multiplies as many factors as are counted for its digits. -/
theorem Product.chain {count : ℕ → ℕ} {positions : ℕ} (hpos : 0 < one) (hbase : 0 < base)
    (hentry : ∀ position < positions,
      ∀ digit < base, Product one (factor position digit) (weight position digit) (count digit))
    {digits x factors : ℕ} {exact : ℚ} (position exponent : ℕ)
    (hpositions : position + digits ≤ positions) (hstart : Product one x exact factors) :
    Product one (chain one base factor digits position exponent x)
      (exact * ideal base weight digits position exponent)
      (factors + total base count digits exponent) := by
  induction digits generalizing position exponent x exact factors with
  | zero => simpa [Truncated.chain, ideal, total] using hstart
  | succ digits ih =>
    have hdigit := hentry position (by omega) _ (Nat.mod_lt exponent hbase)
    have hrest := ih (position + 1) (exponent / base) (by omega) (hstart.mul hpos hdigit)
    rwa [Truncated.chain, ideal, total, ← mul_assoc, ← Nat.add_assoc]

/-! ### Digits in groups -/

/-- The digits of the low part of an exponent, and of its high part. -/
theorem digits_cut (base low exponent : ℕ) :
    exponent % base ^ (low + 1) % base = exponent % base ∧
      exponent % base ^ (low + 1) / base = exponent / base % base ^ low ∧
      exponent / base ^ (low + 1) = exponent / base / base ^ low := by
  refine ⟨Nat.mod_mod_of_dvd exponent (dvd_pow_self base (Nat.succ_ne_zero low)), ?_, ?_⟩
  · rw [Nat.pow_succ', Nat.mod_mul_right_div_self]
  · rw [Nat.pow_succ', Nat.div_div_eq_div_mul]

theorem ideal_split (low high position exponent : ℕ) :
    ideal base weight (low + high) position exponent =
      ideal base weight low position (exponent % base ^ low) *
        ideal base weight high (position + low) (exponent / base ^ low) := by
  induction low generalizing position exponent with
  | zero => simp [ideal]
  | succ low ih =>
    obtain ⟨hmod, hdiv, hrest⟩ := digits_cut base low exponent
    rw [show low + 1 + high = (low + high) + 1 by omega, ideal, ideal, ih, hmod, hdiv, hrest, mul_assoc,
      show position + 1 + low = position + (low + 1) by omega]

/-- The weight of a group of digits, taken as one digit of a larger base. -/
def groupWeight (base : ℕ) (weight : ℕ → ℕ → ℚ) (size position digit : ℕ) : ℚ :=
  ideal base weight size (size * position) digit

theorem ideal_groups (size groups position exponent : ℕ) :
    ideal (base ^ size) (groupWeight base weight size) groups position exponent
      = ideal base weight (size * groups) (size * position) exponent := by
  induction groups generalizing position exponent with
  | zero => simp [ideal]
  | succ groups ih =>
    rw [ideal, ih, groupWeight, show size * (groups + 1) = size + size * groups by ring, ideal_split,
      show size * (position + 1) = size * position + size by ring]

theorem total_split {count : ℕ → ℕ} (low high exponent : ℕ) :
    total base count (low + high) exponent =
      total base count low (exponent % base ^ low) +
        total base count high (exponent / base ^ low) := by
  induction low generalizing exponent with
  | zero => simp [total]
  | succ low ih =>
    obtain ⟨hmod, hdiv, hrest⟩ := digits_cut base low exponent
    rw [show low + 1 + high = (low + high) + 1 by omega, total, total, ih, hmod, hdiv, hrest,
      Nat.add_assoc]

theorem total_groups {count : ℕ → ℕ} (size groups exponent : ℕ) :
    total (base ^ size) (total base count size) groups exponent =
      total base count (size * groups) exponent := by
  induction groups generalizing exponent with
  | zero => simp [total]
  | succ groups ih =>
      rw [total, ih, show size * (groups + 1) = size + size * groups by ring, total_split]

theorem chain_split (low high position exponent x : ℕ) :
    chain one base factor (low + high) position exponent x
      = chain one base factor high (position + low) (exponent / base ^ low)
        (chain one base factor low position (exponent % base ^ low) x) := by
  induction low generalizing position exponent x with
  | zero => simp [chain]
  | succ low ih =>
    obtain ⟨hmod, hdiv, hrest⟩ := digits_cut base low exponent
    rw [show low + 1 + high = (low + high) + 1 by omega, chain, chain, ih, hmod, hdiv, hrest,
      show position + 1 + low = position + (low + 1) by omega]

/-- The entries of a table of groups are the chains of their digits. -/
def Grouped (one base : ℕ) (factor groupFactor : ℕ → ℕ → ℕ) (size groups : ℕ) : Prop :=
  ∀ group < groups, ∀ digit < base ^ size,
    groupFactor group digit = chain one base factor size (size * group) digit one

namespace Grouped

variable {groupFactor : ℕ → ℕ → ℕ} {size groups : ℕ}

/-- In groups the same factors are multiplied. -/
theorem product {positions : ℕ} (hgrouped : Grouped one base factor groupFactor size groups)
    (hpos : 0 < one) (hbase : 0 < base) (hpositions : size * groups ≤ positions)
    (hentry : ∀ position < positions, ∀ digit < base,
      Product one (factor position digit) (weight position digit) (significant digit))
    (exponent : ℕ) :
    Product one (chain one (base ^ size) groupFactor groups 0 exponent one)
      (ideal base weight (size * groups) 0 exponent)
      (total base significant (size * groups) exponent) := by
  have hgroup : ∀ group < groups, ∀ digit < base ^ size, Product one (groupFactor group digit)
      (groupWeight base weight size group digit) (total base significant size digit) := by
    intro group hlt digit hdigit
    have hlast : size * group + size ≤ positions := by nlinarith
    have hproduct := Product.chain hpos hbase hentry (size * group) digit hlast (Product.start one)
    rwa [one_mul, Nat.zero_add, ← hgrouped group hlt digit hdigit] at hproduct
  have hproduct :=
    Product.chain hpos (Nat.pow_pos hbase) hgroup 0 exponent (Nat.zero_add groups).le
      (Product.start one)
  rwa [one_mul, Nat.zero_add, ideal_groups, total_groups, Nat.mul_zero] at hproduct

/-- Where every group above the lowest one that is not zero has one factor, the groups cut off just
what their digits cut off. -/
theorem chain_eq (hgrouped : Grouped one base factor groupFactor size groups) (hpos : 0 < one)
    (hbase : 0 < base) (hzero : ∀ position, factor position 0 = one) {rest group exponent x : ℕ}
    (hlast : group + rest ≤ groups)
    (hcuts : ∀ next < rest, x = one ∧ exponent % (base ^ size) ^ next = 0 ∨
      total base significant size (exponent / (base ^ size) ^ next % base ^ size) ≤ 1) :
    chain one (base ^ size) groupFactor rest group exponent x =
      chain one base factor (size * rest) (size * group) exponent x := by
  induction rest generalizing group exponent x with
  | zero => rfl
  | succ rest ih =>
    have hdigit := Nat.mod_lt exponent (Nat.pow_pos (n := size) hbase)
    have hentry := hgrouped group (by omega) _ hdigit
    have hhere : x * groupFactor group (exponent % base ^ size) / one
        = chain one base factor size (size * group) (exponent % base ^ size) x := by
      rw [hentry]
      rcases hcuts 0 (Nat.succ_pos rest) with ⟨rfl, -⟩ | hsingle
      · rw [Nat.mul_div_cancel_left _ hpos]
      · rw [Nat.pow_zero, Nat.div_one] at hsingle
        exact (chain_of_one_factor hpos hzero hsingle _ x).symm
    rw [chain, hhere, show size * (rest + 1) = size + size * rest by ring, chain_split,
      show size * group + size = size * (group + 1) by ring]
    apply ih (by omega)
    intro next hnext
    rw [Nat.div_div_eq_div_mul, ← Nat.pow_succ']
    refine (hcuts (next + 1) (by omega)).imp (fun ⟨hx, hmod⟩ => ?_) id
    have hlow : exponent % base ^ size = 0 := by
      rw [Nat.pow_succ'] at hmod
      rw [← Nat.mod_mul_right_mod exponent (base ^ size) ((base ^ size) ^ next), hmod, Nat.zero_mod]
    refine ⟨?_, ?_⟩
    · rw [hlow, hx, chain_zero hpos hzero]
    · rw [← Nat.mod_mul_right_div_self, ← Nat.pow_succ', hmod, Nat.zero_div]

end Grouped

/-! ### Powers by squaring -/

/-- The factor of a binary digit. -/
def bitFactor (one : ℕ) (powers : ℕ → ℕ) (position digit : ℕ) : ℕ :=
  if digit = 0 then one else powers position

def bitWeight (one : ℕ) (powers : ℕ → ℕ) (position digit : ℕ) : ℚ :=
  ((powers position : ℚ) / one) ^ digit

/-- Every entry of the table is the square of the one before it, cut off after the point. -/
structure Squares (one : ℕ) (powers : ℕ → ℕ) : Prop where
  one_pos : 0 < one
  first_le : powers 0 ≤ one
  square : ∀ position, powers (position + 1) = powers position * powers position / one

namespace Squares

variable {powers : ℕ → ℕ}

theorem power_le (hsquares : Squares one powers) (position : ℕ) : powers position ≤ one := by
  induction position with
  | zero => exact hsquares.first_le
  | succ position ih =>
    rw [hsquares.square]
    exact Nat.div_le_of_le_mul (Nat.mul_le_mul ih ih)

theorem power_le_fullChain (hsquares : Squares one powers) (position : ℕ) :
    powers position ≤ fullChain one 2 (bitFactor one powers) position := by
  induction position with
  | zero => exact hsquares.first_le
  | succ position ih =>
    rw [hsquares.square, fullChain]
    apply Nat.div_le_div_right
    exact Nat.mul_le_mul_right _ ih

theorem falling (hsquares : Squares one powers) (positions : ℕ) :
    Falling one 2 positions (bitFactor one powers) where
  one_pos := hsquares.one_pos
  base_pos := Nat.two_pos
  zero_digit _ := rfl
  next_le position _ digit hdigit := by
    have hzero : digit = 0 := by omega
    subst hzero
    rw [show bitFactor one powers position 0 = one from rfl, Nat.mul_div_cancel _ hsquares.one_pos]
    exact hsquares.power_le_fullChain position

theorem weight_nonneg (position : ℕ) : (0 : ℚ) ≤ (powers position : ℚ) / one := by positivity

theorem weight_le (hsquares : Squares one powers) (position : ℕ) :
    (powers position : ℚ) / one ≤ 1 := by
  rw [div_le_one (Nat.cast_pos.2 hsquares.one_pos)]
  exact Nat.cast_le.2 (hsquares.power_le position)

theorem bitWeight_nonneg (position digit : ℕ) : 0 ≤ bitWeight one powers position digit :=
  pow_nonneg (weight_nonneg position) digit

theorem bitWeight_le (hsquares : Squares one powers) (position digit : ℕ) :
    bitWeight one powers position digit ≤ 1 :=
  pow_le_one₀ (weight_nonneg position) (hsquares.weight_le position)

theorem entry (hsquares : Squares one powers) (position digit : ℕ) (hdigit : digit < 2) :
    Product one (bitFactor one powers position digit) (bitWeight one powers position digit)
      (significant digit) := by
  obtain rfl | rfl : digit = 0 ∨ digit = 1 := by omega
  · rw [bitFactor, if_pos rfl, bitWeight, pow_zero]
    exact .start one
  · rw [bitFactor, if_neg one_ne_zero, bitWeight, pow_one]
    exact .single hsquares.one_pos (hsquares.power_le position)

/-- A square is the next entry but for what was cut off. -/
theorem square_near (hsquares : Squares one powers) (position : ℕ) :
    (powers (position + 1) : ℚ) / one ≤ ((powers position : ℚ) / one) ^ 2 ∧
      ((powers position : ℚ) / one) ^ 2 ≤ (powers (position + 1) : ℚ) / one + 1 / one := by
  have hpos : (0 : ℚ) < one := Nat.cast_pos.2 hsquares.one_pos
  obtain ⟨hbelow, hnear⟩ := div_le_and_near (powers position * powers position) hsquares.one_pos
  rw [← hsquares.square] at hbelow hnear
  have hpow : ((powers position : ℚ) / one) ^ 2 =
      ((powers position * powers position : ℕ) : ℚ) / one / one := by
    push_cast
    field_simp
  rw [hpow, ← add_div]
  exact ⟨div_le_div_of_nonneg_right hbelow hpos.le, div_le_div_of_nonneg_right hnear hpos.le⟩

theorem squares_near (hsquares : Squares one powers) (position : ℕ) {carry : ℕ}
    (hcarry : carry ≤ 1) :
    ((powers (position + 1) : ℚ) / one) ^ carry ≤ (((powers position : ℚ) / one) ^ 2) ^ carry ∧
      (((powers position : ℚ) / one) ^ 2) ^ carry ≤
        ((powers (position + 1) : ℚ) / one) ^ carry + 1 / one := by
  obtain rfl | rfl : carry = 0 ∨ carry = 1 := by omega
  · simp only [pow_zero]
    exact ⟨le_rfl, le_add_of_nonneg_right (by positivity)⟩
  · simp only [pow_one]
    exact hsquares.square_near position

/-- The power of a sum against the product of the powers: every carry puts one entry in the
place of a square. -/
theorem ideal_add (hsquares : Squares one powers) {digits left right carry : ℕ} (position : ℕ) (hcarry : carry ≤ 1)
    (hlt : left + right + carry < 2 ^ digits) :
    let product := ideal 2 (bitWeight one powers) digits position left * ideal 2 (bitWeight one powers) digits position right
      * ((powers position : ℚ) / one) ^ carry
    ideal 2 (bitWeight one powers) digits position (left + right + carry) ≤ product ∧
      product ≤ ideal 2 (bitWeight one powers) digits position (left + right + carry) + digits * (1 / one) := by
  induction digits generalizing position left right carry with
  | zero =>
    have hzero : carry = 0 := by omega
    subst hzero
    simp [ideal]
  | succ digits ih =>
    obtain ⟨sum, hsum⟩ : ∃ sum, sum = left % 2 + right % 2 + carry := ⟨_, rfl⟩
    have hmod : (left + right + carry) % 2 = sum % 2 := by omega
    have hdiv : (left + right + carry) / 2 = left / 2 + right / 2 + sum / 2 := by omega
    have hnext : left / 2 + right / 2 + sum / 2 < 2 ^ digits := by
      rw [Nat.pow_succ] at hlt
      omega
    have hcarry' : sum / 2 ≤ 1 := by omega
    obtain ⟨ihbelow, ihnear⟩ := ih (position + 1) hcarry' hnext
    obtain ⟨hsquare, hclose⟩ := hsquares.squares_near position hcarry'
    have hnonneg : ∀ position digit, 0 ≤ bitWeight one powers position digit := bitWeight_nonneg
    have hle := hsquares.bitWeight_le
    have hleft := ideal_nonneg 2 hnonneg digits (position + 1) (left / 2)
    have hright := ideal_nonneg 2 hnonneg digits (position + 1) (right / 2)
    have hleftone := ideal_le_one 2 hnonneg hle digits (position + 1) (left / 2)
    have hrightone := ideal_le_one 2 hnonneg hle digits (position + 1) (right / 2)
    have hpower : (0 : ℚ) ≤ powers position / one := weight_nonneg position
    have hpowerone := hsquares.weight_le position
    simp only [ideal, hmod, hdiv, bitWeight]
    generalize ideal 2 (bitWeight one powers) digits (position + 1)
        (left / 2 + right / 2 + sum / 2) = rest at ihbelow ihnear ⊢
    generalize ideal 2 (bitWeight one powers) digits (position + 1) (left / 2) =
      leftRest at ihbelow ihnear hleft hleftone ⊢
    generalize ideal 2 (bitWeight one powers) digits (position + 1) (right / 2) =
      rightRest at ihbelow ihnear hright hrightone ⊢
    generalize (powers position : ℚ) / one = power at hsquare hclose hpower hpowerone ⊢
    have hproduct :
        power ^ (left % 2) * leftRest * (power ^ (right % 2) * rightRest) * power ^ carry =
          power ^ (sum % 2) * ((power ^ 2) ^ (sum / 2) * (leftRest * rightRest)) := by
      have hexponent : power ^ (left % 2) * power ^ (right % 2) * power ^ carry =
          power ^ (sum % 2) * (power ^ 2) ^ (sum / 2) := by
        rw [← pow_add, ← pow_add, ← pow_mul, ← pow_add, ← hsum, Nat.mod_add_div]
      linear_combination leftRest * rightRest * hexponent
    have hlow : 0 ≤ power ^ (sum % 2) := pow_nonneg hpower _
    have hlowone : power ^ (sum % 2) ≤ 1 := pow_le_one₀ hpower hpowerone
    have hboth : 0 ≤ leftRest * rightRest := mul_nonneg hleft hright
    have hbothone : leftRest * rightRest ≤ 1 := mul_le_one₀ hleftone hright hrightone
    have hunit : (0 : ℚ) ≤ 1 / one := by positivity
    rw [hproduct]
    constructor
    · apply mul_le_mul_of_nonneg_left _ hlow
      nlinarith
    · have hrest : (power ^ 2) ^ (sum / 2) * (leftRest * rightRest) ≤
          rest + (digits + 1 : ℕ) * (1 / one) := by
        push_cast
        nlinarith
      have hcut : (0 : ℚ) ≤ (digits + 1 : ℕ) * (1 / one) := by positivity
      calc _ ≤ power ^ (sum % 2) * (rest + (digits + 1 : ℕ) * (1 / one)) :=
        mul_le_mul_of_nonneg_left hrest hlow
        _ = power ^ (sum % 2) * rest + power ^ (sum % 2) * ((digits + 1 : ℕ) * (1 / one)) :=
          mul_add _ _ _
        _ ≤ _ := add_le_add le_rfl (mul_le_of_le_one_left hcut hlowone)

end Squares

end Truncated
