import Mathlib.Data.List.Forall2

/-!
# Outcomes

What a chain of steps that came to its end says about each of them.
-/

namespace Outcome

variable {ε α β : Type}

theorem bind_ok {outcome : Except ε α} {next : α → Except ε β} {result : β} :
    (outcome >>= next) = .ok result ↔ ∃ value, outcome = .ok value ∧ next value = .ok result := by
  cases outcome with
  | error code =>
      constructor
      · intro h
        cases h
      · intro h
        obtain ⟨value, hvalue, -⟩ := h
        cases hvalue
  | ok value =>
      constructor
      · exact fun h => ⟨value, rfl, h⟩
      · intro h
        obtain ⟨other, hother, hnext⟩ := h
        rwa [Except.ok.inj hother]

/-- A check that has been passed. -/
theorem guard_ok {refused : Prop} [Decidable refused] {code : ε} {outcome : Except ε α}
    {result : α} :
    (if refused then .error code else outcome) = .ok result ↔ ¬refused ∧ outcome = .ok result := by
  by_cases h : refused
  · rw [if_pos h]
    exact iff_of_false (fun herror => nomatch herror) fun hpassed => hpassed.1 h
  · rw [if_neg h, and_iff_right h]

/-- Each value of a list has come to its result. -/
theorem mapM_ok {each : α → Except ε β} {values : List α} {results : List β}
    (hrun : values.mapM each = .ok results) :
    List.Forall₂ (fun value result => each value = .ok result) values results := by
  induction values generalizing results with
  | nil =>
      cases hrun
      exact .nil
  | cons value values ih =>
      rw [List.mapM_cons] at hrun
      obtain ⟨result, hresult, hrun⟩ := bind_ok.1 hrun
      obtain ⟨rest, hrest, hrun⟩ := bind_ok.1 hrun
      cases hrun
      exact .cons hresult (ih hrest)

/-- A value of the list has come to one of the results. -/
theorem exists_of_forall₂ {rel : α → β → Prop} {values : List α} {results : List β}
    (hall : List.Forall₂ rel values results) {value : α} (hmem : value ∈ values) :
    ∃ result ∈ results, rel value result := by
  induction hall with
  | nil => exact absurd hmem List.not_mem_nil
  | cons hresult _ ih =>
      obtain rfl | hmem := List.mem_cons.1 hmem
      · exact ⟨_, List.mem_cons_self, hresult⟩
      · obtain ⟨result, hresult, hrel⟩ := ih hmem
        exact ⟨result, List.mem_cons_of_mem _ hresult, hrel⟩

/-- Where each value comes to its result, so does the list. -/
theorem mapM_of_forall₂ {each : α → Except ε β} {values : List α} {results : List β}
    (hall : List.Forall₂ (fun value result => each value = .ok result) values results) :
    values.mapM each = .ok results := by
  induction hall with
  | nil => rfl
  | cons hresult _ ih => rw [List.mapM_cons, hresult, ih]; rfl

end Outcome
