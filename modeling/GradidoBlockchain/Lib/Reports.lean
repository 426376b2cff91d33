import GradidoBlockchain.Lib.Call

/-!
# Calls that report a refusal

A call that is refused room may go on and end with something else. One that reports says so: it
fails with the code of a refusal as soon as one of the answers it has used is one.
-/

namespace Fallible

open Call

variable {ε σ τ α β : Type} {oom : ε}

/-- One of the answers between the two rooms is a refusal. -/
def Refusal (room rest : Room) : Prop := ∃ used, room = used ++ rest ∧ false ∈ used

/-- The answers a call uses are the first of its room, and it fails with `oom` if one of
them is a refusal. -/
def Reports (oom : ε) (call : Call ε σ α) : Prop :=
  ∀ state room,
    ∃ used, room = used ++ (call state room).2.2 ∧ (false ∈ used → (call state room).1 = .error oom)

namespace Reports

theorem refusal {call : Call ε σ α} (hreports : Reports oom call) {state : σ} {room : Room}
    (hrefusal : Refusal room (call state room).2.2) : (call state room).1 = .error oom := by
  obtain ⟨used, hused, hcode⟩ := hreports state room
  obtain ⟨other, hother, hmem⟩ := hrefusal
  exact hcode (List.append_cancel_right (hused.symm.trans hother) ▸ hmem)

theorem plain (step : σ → Except ε α × σ) : Reports oom (Call.plain step) :=
  fun _ _ => ⟨[], rfl, fun h => nomatch h⟩

theorem pure (value : α) : Reports oom (Pure.pure value : Call ε σ α) := plain _

theorem fail (code : ε) : Reports oom (Call.fail code : Call ε σ α) := plain _

theorem gets (part : σ → α) : Reports oom (Call.gets part : Call ε σ α) := plain _

theorem check (test : σ → Except ε α) : Reports oom (Call.check test) := plain _

theorem write (change : σ → σ) : Reports oom (Call.write change : Call ε σ Unit) := plain _

theorem ask : Reports oom (Call.ask oom : Call ε σ Unit) := by
  intro state room
  rcases room with _ | ⟨_ | _, room⟩
  · exact ⟨[], rfl, fun h => nomatch h⟩
  · exact ⟨[false], rfl, fun _ => rfl⟩
  · refine ⟨[true], rfl, fun h => ?_⟩
    rw [List.mem_singleton] at h
    cases h

/-- Answers without a refusal, and those that are used after them. -/
private theorem used_append {room rest last : Room} {used : List Bool} {outcome : Prop}
    (hused : room = used ++ rest) (hgranted : false ∉ used)
    (hmore : ∃ more, rest = more ++ last ∧ (false ∈ more → outcome)) :
    ∃ all, room = all ++ last ∧ (false ∈ all → outcome) := by
  obtain ⟨more, hrest, houtcome⟩ := hmore
  refine ⟨used ++ more, ?_, fun hmem => houtcome ((List.mem_append.1 hmem).resolve_left hgranted)⟩
  rw [List.append_assoc, ← hrest]
  exact hused

/-- What has come to an end has been refused nothing. -/
theorem bind {call : Call ε σ α} {next : α → Call ε σ β} (hcall : Reports oom call)
    (hnext : ∀ value, Reports oom (next value)) : Reports oom (call >>= next) := by
  intro state room
  obtain ⟨used, hused, hcode⟩ := hcall state room
  rcases hrun : call state room with ⟨code | value, left, rest⟩ <;> rw [hrun] at hused hcode
  · rw [bind_run_error hrun]
    exact ⟨used, hused, fun hmem => by rw [Except.error.inj (hcode hmem)]⟩
  · rw [bind_run_ok hrun]
    exact used_append hused (fun hmem => nomatch hcode hmem) (hnext value left rest)

theorem grow (change : σ → σ) : Reports oom (Call.grow oom change) := ask.bind fun _ => write change

theorem growWith (change : σ → α × σ) : Reports oom (Call.growWith oom change) :=
  ask.bind fun _ => plain _

theorem within {part : σ → τ} {put : τ → σ → σ} {call : Call ε τ α} (hcall : Reports oom call) :
    Reports oom (Call.within part put call) := fun state room => hcall (part state) room

theorem andRelease {call : Call ε σ α} {release : σ → σ} (hcall : Reports oom call) :
    Reports oom (Call.andRelease call release) :=
  hcall

theorem ite {condition : Prop} [Decidable condition] {call other : Call ε σ α}
    (hcall : Reports oom call) (hother : Reports oom other) :
    Reports oom (if condition then call else other) := by
  split
  · exact hcall
  · exact hother

theorem forM {body : α → Call ε σ Unit} {items : List α} (hbody : ∀ item, Reports oom (body item)) :
    Reports oom (items.forM body) := by
  induction items with
  | nil => exact pure ()
  | cons item items ih => exact (hbody item).bind fun _ => ih

/-- A call whose outcome is looked at reports if what follows a failure answers that failure. -/
theorem bindAttempt {call : Call ε σ α} {next : Except ε α → Call ε σ β} (hcall : Reports oom call)
    (hnext : ∀ value, Reports oom (next (.ok value)))
    (hfailed : ∀ {state left room rest code}, call state room = (.error code, left, rest) →
      ∃ last, next (.error code) left rest = (.error code, last, rest)) :
    Reports oom (attempt call >>= next) := by
  intro state room
  obtain ⟨used, hused, hcode⟩ := hcall state room
  rcases hrun : call state room with ⟨code | value, left, rest⟩ <;> rw [hrun] at hused hcode
  · obtain ⟨last, hlast⟩ := hfailed hrun
    rw [bind_run_ok (attempt_run_eq hrun), hlast]
    exact ⟨used, hused, fun hmem => by rw [Except.error.inj (hcode hmem)]⟩
  · rw [bind_run_ok (attempt_run_eq hrun)]
    exact used_append hused (fun hmem => nomatch hcode hmem) (hnext value left rest)

end Reports

end Fallible
