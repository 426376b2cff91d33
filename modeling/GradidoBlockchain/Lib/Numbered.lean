import Mathlib.Data.List.Basic
import Mathlib.Tactic.Common

/-!
# Runs of numbers without gaps

Items that carry a number each, one after the other from a first number on, are found by
their distance from it.
-/

namespace Numbered

variable {α : Type} {nr : α → Nat} {first : Nat} {items : List α} {item : α}

/-- The items are numbered from `first` on. -/
def Run (nr : α → Nat) (first : Nat) (items : List α) : Prop :=
  ∀ position item, items[position]? = some item → nr item = first + position

theorem Run.nil : Run nr first [] := fun _ _ h => by simp at h

theorem Run.concat (hrun : Run nr first items) (hnext : nr item = first + items.length) :
    Run nr first (items ++ [item]) := by
  intro position other hget
  rcases Nat.lt_or_ge position items.length with hlt | hge
  · rw [List.getElem?_append_left hlt] at hget
    exact hrun position other hget
  · rw [List.getElem?_append_right hge] at hget
    obtain ⟨hzero, hother⟩ := List.getElem?_eq_some_iff.1 hget
    simp only [List.length_singleton] at hzero
    simp only [List.getElem_singleton] at hother
    rw [← hother, hnext]
    omega

/-- A number of the run has its item at its distance from the first one. -/
theorem Run.at_distance {number : Nat} (hrun : Run nr first items) (hle : first ≤ number)
    (hlt : number < first + items.length) :
    ∃ item, items[number - first]? = some item ∧ nr item = number := by
  have hposition : number - first < items.length := by omega
  refine ⟨items[number - first], List.getElem?_eq_getElem hposition, ?_⟩
  rw [hrun _ _ (List.getElem?_eq_getElem hposition)]
  omega

/-- No two items have one number. -/
theorem Run.unique {other : α} (hrun : Run nr first items) (hitem : item ∈ items)
    (hother : other ∈ items) (hsame : nr item = nr other) : item = other := by
  obtain ⟨position, hposition⟩ := List.getElem?_of_mem hitem
  obtain ⟨place, hplace⟩ := List.getElem?_of_mem hother
  rw [hrun _ _ hposition, hrun _ _ hplace] at hsame
  rw [Nat.add_left_cancel hsame, hplace] at hposition
  exact (Option.some.inj hposition).symm

end Numbered
