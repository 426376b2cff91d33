import Mathlib.Algebra.Ring.Nat
import Mathlib.Data.List.Basic
import Mathlib.Tactic.Common

/-!
# Scanning a list step by step

A scanner takes a piece off the front of what is left, again and again, until nothing is left.
As long as every step takes something, the scan comes to an end by itself, and it can be
followed piece by piece.
-/

namespace Scan

variable {α σ : Type}

/-- What a scanner does with the front of a list. -/
abbrev Step (α σ : Type) : Type := σ → List α → Option (σ × List α)

def run (step : Step α σ) : Nat → σ → List α → Option σ
  | _, state, [] => some state
  | 0, _, _ :: _ => none
  | fuel + 1, state, item :: items => do
      let (state, rest) ← step state (item :: items)
      run step fuel state rest

def scan (step : Step α σ) (state : σ) (items : List α) : Option σ :=
  run step items.length state items

/-- Every step takes something. -/
def Shortens (step : Step α σ) : Prop :=
  ∀ state items after rest, step state items = some (after, rest) → rest.length < items.length

variable {step : Step α σ}

theorem run_of_le (hshortens : Shortens step) {fuel : Nat} {state : σ} {items : List α}
    (hle : items.length ≤ fuel) : run step fuel state items = scan step state items := by
  induction fuel using Nat.strongRecOn generalizing state items with
  | ind fuel ih =>
      cases items with
      | nil =>
          cases fuel
          · rfl
          · rfl
      | cons item items =>
          cases fuel with
          | zero => exact absurd hle (Nat.not_succ_le_zero _)
          | succ fuel =>
              rw [scan, List.length_cons, run, run]
              cases hstep : step state (item :: items) with
              | none => rfl
              | some taken =>
                  obtain ⟨after, rest⟩ := taken
                  have hlt := hshortens _ _ _ _ hstep
                  rw [List.length_cons] at hle hlt
                  change run step fuel after rest = run step items.length after rest
                  rw [ih fuel (Nat.lt_succ_self _) (by omega)]
                  rcases Nat.lt_or_ge items.length (fuel + 1) with hsmall | hlarge
                  · exact (ih items.length hsmall (by omega)).symm
                  · omega

/-- A scan takes the first piece and goes on with what is left. -/
theorem scan_cons (hshortens : Shortens step) (state : σ) (item : α) (items : List α) :
    scan step state (item :: items) =
      (step state (item :: items)).bind fun taken => scan step taken.1 taken.2 := by
  rw [scan, List.length_cons, run]
  cases hstep : step state (item :: items) with
  | none => rfl
  | some taken =>
      have hlt := hshortens _ _ _ _ hstep
      rw [List.length_cons] at hlt
      exact run_of_le hshortens (Nat.le_of_lt_succ hlt)

/-- What holds of an empty rest and goes from each rest to the one before it holds from the
start. -/
theorem scan_induct {motive : σ → List α → σ → Prop} (hshortens : Shortens step)
    (hdone : ∀ state, motive state [] state)
    (hstep : ∀ state item items after rest final, step state (item :: items) = some (after, rest) →
      scan step after rest = some final → motive after rest final →
      motive state (item :: items) final) {state final : σ} {items : List α}
    (hscan : scan step state items = some final) : motive state items final := by
  induction hlength : items.length using Nat.strongRecOn generalizing state items with
  | ind length ih =>
      cases items with
      | nil =>
          cases hscan
          exact hdone _
      | cons item items =>
          rw [scan_cons hshortens] at hscan
          obtain ⟨⟨after, rest⟩, htaken, hrest⟩ := Option.bind_eq_some_iff.1 hscan
          have hlt := hshortens _ _ _ _ htaken
          exact hstep _ _ _ _ _ _ htaken hrest (ih _ (hlength ▸ hlt) hrest rfl)

end Scan
