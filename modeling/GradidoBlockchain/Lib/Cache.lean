import Mathlib.Logic.Function.Basic
import Mathlib.Tactic.Common

/-!
# A cache of one item

A cache keeps what it has read last of a source under its key. It is coherent as long as the source
still says so; a write to the source keeps it coherent just when the new row says what is kept, if
it is the row of that key at all.
-/

namespace Cache

variable {κ β ν : Type} {means : β → ν → Prop} {source : κ → Option β} {slot : Option (κ × ν)}

/-- What is kept under a key is what the row of the key says. -/
def Coherent (means : β → ν → Prop) (source : κ → Option β) (slot : Option (κ × ν)) : Prop :=
  ∀ key value, slot = some (key, value) → ∃ row, source key = some row ∧ means row value

theorem Coherent.empty : Coherent means source none := by
  intro key value hslot
  cases hslot

theorem Coherent.fill {key : κ} {value : ν} {row : β} (hrow : source key = some row)
    (hmeans : means row value) : Coherent means source (some (key, value)) := by
  intro other found hslot
  cases hslot
  exact ⟨row, hrow, hmeans⟩

/-- A write keeps a cache coherent just when the row it writes says what is kept of it. -/
theorem Coherent.update_iff [DecidableEq κ] (hcoherent : Coherent means source slot) {key : κ}
    {row : β} :
    Coherent means (Function.update source key (some row)) slot ↔
      ∀ value, slot = some (key, value) → means row value := by
  constructor
  · intro hafter value hslot
    obtain ⟨other, hrow, hmeans⟩ := hafter key value hslot
    rw [Function.update_self] at hrow
    cases hrow
    exact hmeans
  · intro hmeans other value hslot
    by_cases hkey : other = key
    · subst hkey
      exact ⟨row, Function.update_self .., hmeans value hslot⟩
    · rw [Function.update_of_ne hkey]
      exact hcoherent other value hslot

end Cache
