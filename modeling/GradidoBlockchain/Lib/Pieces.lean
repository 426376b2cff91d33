import GradidoBlockchain.Lib.Scan

/-!
# Scanning what has been put together

A list that is written piece by piece is scanned piece by piece, whatever comes after it.
-/

namespace Scan

variable {α σ : Type} {step : Step α σ}

/-- More turns than a run has needed change nothing. -/
theorem run_some_of_le {fuel more : Nat} {state final : σ} {items : List α} (hle : fuel ≤ more)
    (hrun : run step fuel state items = some final) : run step more state items = some final := by
  induction fuel generalizing more state items with
  | zero =>
      cases items with
      | nil =>
          cases hrun
          cases more <;> rfl
      | cons item items => cases hrun
  | succ fuel ih =>
      cases items with
      | nil =>
          cases hrun
          cases more <;> rfl
      | cons item items =>
          obtain ⟨more, rfl⟩ := Nat.exists_eq_add_of_lt (Nat.lt_of_succ_le hle)
          rw [run] at hrun
          obtain ⟨⟨after, rest⟩, hstep, hrest⟩ := Option.bind_eq_some_iff.1 hrun
          rw [run, hstep]
          exact ih (Nat.le_add_right _ _) hrest

/-- What every step keeps holds in the end. -/
theorem run_keeps {holds : σ → Prop}
    (hkeeps : ∀ state items after rest, holds state → step state items = some (after, rest) →
      holds after) {fuel : Nat} {state final : σ} {items : List α} (hstate : holds state)
    (hrun : run step fuel state items = some final) : holds final := by
  induction fuel generalizing state items with
  | zero =>
      cases items with
      | nil =>
          cases hrun
          exact hstate
      | cons item items => cases hrun
  | succ fuel ih =>
      cases items with
      | nil =>
          cases hrun
          exact hstate
      | cons item items =>
          obtain ⟨⟨after, rest⟩, hstep, hrest⟩ := Option.bind_eq_some_iff.1 hrun
          exact ih (hkeeps _ _ _ _ hstate hstep) hrest

/-- Scanners that take the same steps come to the same state. -/
theorem scan_map {τ : Type} {other : Step α τ} (join : σ → τ)
    (hstep : ∀ state items,
      other (join state) items = (step state items).map fun taken => (join taken.1, taken.2))
    (state : σ) (items : List α) :
    scan other (join state) items = (scan step state items).map join := by
  have hrun : ∀ fuel state items,
      run other fuel (join state) items = (run step fuel state items).map join := by
    intro fuel
    induction fuel with
    | zero =>
        intro state items
        cases items <;> rfl
    | succ fuel ih =>
        intro state items
        cases items with
        | nil => rfl
        | cons item items =>
            rw [run, run, hstep]
            cases step state (item :: items) with
            | none => rfl
            | some taken => exact ih taken.1 taken.2
  exact hrun items.length state items

/-- The piece is taken in one step, whatever comes after it. -/
def Takes (step : Step α σ) (piece : List α) (state after : σ) : Prop :=
  ∀ rest, step state (piece ++ rest) = some (after, rest)

/-- The pieces before the rest are passed over on the way from one state to the other. -/
def Leads (step : Step α σ) (pieces rest : List α) (state after : σ) : Prop :=
  ∀ final, scan step after rest = some final → scan step state (pieces ++ rest) = some final

variable {state between after : σ} {pieces others rest : List α}

theorem leads_of_step (hne : pieces ≠ [])
    (hstep : step state (pieces ++ rest) = some (after, rest)) :
    Leads step pieces rest state after := by
  intro final hrest
  obtain ⟨item, items, rfl⟩ := List.exists_cons_of_ne_nil hne
  rw [List.cons_append] at hstep
  rw [List.cons_append, scan, List.length_cons, run, hstep]
  apply run_some_of_le _ hrest
  rw [List.length_append]
  exact Nat.le_add_left _ _

theorem Takes.leads (htakes : Takes step pieces state after) (hne : pieces ≠ []) (rest : List α) :
    Leads step pieces rest state after :=
  leads_of_step hne (htakes rest)

namespace Leads

theorem nil (rest : List α) (state : σ) : Leads step [] rest state state := fun _ hrest => hrest

theorem append (hfirst : Leads step pieces (others ++ rest) state between)
    (hsecond : Leads step others rest between after) :
    Leads step (pieces ++ others) rest state after := by
  intro final hrest
  rw [List.append_assoc]
  exact hfirst _ (hsecond _ hrest)

/-- Items that are written one after the other, each of which leads on. -/
theorem flatMap {ι : Type} {write : ι → List α} {reached : List ι → σ} (items before : List ι)
    (hitem : ∀ before, ∀ item ∈ items,
      ∀ rest, Leads step (write item) rest (reached before) (reached (before ++ [item]))) :
    Leads step (items.flatMap write) rest (reached before) (reached (before ++ items)) := by
  induction items generalizing before with
  | nil =>
      rw [List.append_nil]
      exact nil _ _
  | cons item items ih =>
      have hrest :=
        ih (before ++ [item]) fun before other hother =>
          hitem before other (List.mem_cons_of_mem _ hother)
      rw [List.append_assoc] at hrest
      exact (hitem before item List.mem_cons_self _).append hrest

theorem scan_eq (hleads : Leads step pieces [] state after) :
    scan step state pieces = some after := by
  have hscan := hleads after rfl
  rwa [List.append_nil] at hscan

end Leads

end Scan
