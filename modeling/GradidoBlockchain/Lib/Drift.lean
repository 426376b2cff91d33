import Mathlib.Algebra.Order.Group.Nat
import Mathlib.Algebra.BigOperators.Group.List.Basic
import Mathlib.Algebra.Ring.Nat

/-!
# Acting in many steps

An action of durations on amounts that takes two steps for one up to a unit takes any number of
steps for one up to a unit for every step after the first.
-/

namespace Drift

/-- An action that loses a unit or gains one when a duration is cut in two, for the amounts up to
`most` and the durations below `limit`. -/
structure Lossy (act : ℕ → ℕ → ℕ) (most limit : ℕ) : Prop where
  zero amount : act amount 0 = amount
  le amount duration : act amount duration ≤ amount
  twice_le {amount first second : ℕ} (hamount : amount ≤ most) (hlt : first + second < limit) :
    act (act amount first) second ≤ act amount (first + second) + 1
  le_twice {amount first second : ℕ} (hamount : amount ≤ most) (hlt : first + second < limit) :
    act amount (first + second) ≤ act (act amount first) second + 1

variable {act : ℕ → ℕ → ℕ}

theorem foldl_le (hle : ∀ amount duration, act amount duration ≤ amount) (durations : List ℕ)
    (amount : ℕ) : durations.foldl act amount ≤ amount := by
  induction durations generalizing amount with
  | nil => exact le_rfl
  | cons duration durations ih => exact (ih (act amount duration)).trans (hle amount duration)

variable {most limit : ℕ}

/-- Every step after the first costs a unit. -/
theorem Lossy.foldl_near (hlossy : Lossy act most limit) (duration : ℕ) (durations : List ℕ)
    {amount : ℕ} (hamount : amount ≤ most) (hlt : duration + durations.sum < limit) :
    durations.foldl act (act amount duration) ≤
        act amount (duration + durations.sum) + durations.length ∧
      act amount (duration + durations.sum) ≤
        durations.foldl act (act amount duration) + durations.length := by
  induction durations generalizing amount duration with
  | nil => simp
  | cons next durations ih =>
    rw [List.sum_cons] at hlt ⊢
    rw [List.foldl_cons, List.length_cons]
    have hrest := ih next ((hlossy.le amount duration).trans hamount) (by omega)
    have hbelow := hlossy.twice_le hamount hlt
    have habove := hlossy.le_twice hamount hlt
    omega

end Drift
