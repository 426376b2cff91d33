import Mathlib.Algebra.Order.Ring.Nat
import Mathlib.Tactic.Common
import Mathlib.Tactic.Linarith
import Mathlib.Tactic.Ring

/-!
# Long division, one digit at a time

A digit of a quotient is estimated from the leading digit of the divisor and corrected with the
digit after it. The estimate is never too small and the correction stops at the digit, as long as
the remainder it is compared with has not been cut to one digit.
-/

namespace LongDivision

/-- The correction of an estimate: it is lowered while the product with the second digit of the
divisor is above the remainder and the next digit of the dividend, and no longer than the remainder
fits in one digit. -/
def refine (base lead second next : ℕ) : ℕ → ℕ → ℕ
  | 0, _ => 0
  | estimate + 1, remainder =>
    if remainder * base + next < (estimate + 1) * second then
      if remainder < (base - lead) % base then
          refine base lead second next estimate (remainder + lead)
        else estimate
    else estimate + 1

variable {base lead second next top estimate remainder : ℕ}

theorem lt_complement_iff (hpos : 0 < lead) (hlt : lead < base) :
    remainder < (base - lead) % base ↔ remainder + lead < base := by
  rw [Nat.mod_eq_of_lt (by omega)]
  omega

theorem refine_le : refine base lead second next estimate remainder ≤ estimate := by
  induction estimate generalizing remainder with
  | zero => exact le_rfl
  | succ estimate ih =>
    rw [refine]
    split
    · split
      · exact ih.trans (Nat.le_succ estimate)
      · exact Nat.le_succ estimate
    · exact le_rfl

/-- An estimate that is not too small is corrected to the digit. -/
theorem refine_eq (hpos : 0 < lead) (hlt : lead < base) (hsecond : second < base)
    (hestimate : estimate ≤ base) (htop : estimate * lead + remainder = top)
    (hle : (top * base + next) / (lead * base + second) ≤ estimate) :
    refine base lead second next estimate remainder =
      (top * base + next) / (lead * base + second) := by
  have hdivisor : 0 < lead * base + second := by
    have hbase : 0 < base := by omega
    positivity
  induction estimate generalizing remainder with
  | zero => rw [refine, Nat.le_zero.1 hle]
  | succ estimate ih =>
    rw [refine]
    by_cases htest : remainder * base + next < (estimate + 1) * second
    · have hsmall : (top * base + next) / (lead * base + second) ≤ estimate := by
        apply Nat.le_of_lt_succ
        rw [Nat.div_lt_iff_lt_mul hdivisor, ← htop]
        nlinarith
      rw [if_pos htest]
      by_cases hfits : remainder < (base - lead) % base
      · rw [if_pos hfits]
        exact ih (by omega) (by rw [← htop]; ring) hsmall
      · rw [if_neg hfits]
        rw [lt_complement_iff hpos hlt, not_lt] at hfits
        apply le_antisymm _ hsmall
        rw [Nat.le_div_iff_mul_le hdivisor, ← htop]
        have hcut : estimate * second ≤ (remainder + lead) * base :=
          Nat.mul_le_mul (by omega) hsecond.le |>.trans (Nat.mul_le_mul_right base hfits)
        nlinarith
    · rw [if_neg htest]
      apply le_antisymm _ hle
      rw [Nat.le_div_iff_mul_le hdivisor, ← htop]
      nlinarith

/-- The quotient by the leading digit alone, corrected. -/
theorem refine_quotient (hlt : lead < base) (hsecond : second < base) (hnext : next < base)
    (htop : top < lead * base) :
    refine base lead second next (top / lead) (top % lead) =
      (top * base + next) / (lead * base + second) := by
  have hpos : 0 < lead := by
    apply Nat.pos_of_ne_zero
    intro hzero
    rw [hzero, Nat.zero_mul] at htop
    exact Nat.not_lt_zero _ htop
  apply refine_eq hpos hlt hsecond
  · exact (Nat.div_lt_of_lt_mul htop).le
  · exact Nat.div_add_mod' top lead
  · rw [Nat.le_div_iff_mul_le hpos]
    have hquotient := Nat.div_mul_le_self (top * base + next) (lead * base + second)
    generalize (top * base + next) / (lead * base + second) = quotient at hquotient ⊢
    have hscaled : quotient * lead * base < (top + 1) * base := by
      rw [Nat.mul_add, ← Nat.mul_assoc] at hquotient
      rw [Nat.add_mul, Nat.one_mul]
      omega
    exact Nat.le_of_lt_succ (Nat.lt_of_mul_lt_mul_right hscaled)

/-- With a leading digit of at least half the base the correction takes two steps at most. -/
theorem le_refine_add_two (hhalf : base ≤ 2 * lead) (hlt : lead < base) :
    estimate ≤ refine base lead second next estimate remainder + 2 := by
  have hpos : 0 < lead := by omega
  have hstop : ¬ remainder + lead < (base - lead) % base := by
    rw [lt_complement_iff hpos hlt]
    omega
  match estimate with
  | 0 => exact Nat.zero_le _
  | 1 => exact Nat.le_add_left_of_le (by omega)
  | estimate + 2 =>
    rw [refine]
    split
    · split
      · rw [refine]
        split <;> omega
      · omega
    · omega

end LongDivision
