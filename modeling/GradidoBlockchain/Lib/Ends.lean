import GradidoBlockchain.Lib.Call

/-!
# How a call ends

A call ends with a value or is refused, and in both cases it leaves a state. `Ends` says of a call
what is left in either case, and is put together from what is said of its parts.
-/

namespace Fallible

open Call

variable {ε σ α β : Type}

/-- From a state with `before` the call is refused in one with `refused`, or ends in one with
`done` of its value. -/
def Ends (before : σ → Prop) (call : Call ε σ α) (refused : σ → Prop)
    (done : α → σ → Prop) : Prop :=
  ∀ state room, before state →
    match call state room with
    | (.ok value, left, _) => done value left
    | (.error _, left, _) => refused left

namespace Ends

variable {before refused : σ → Prop} {done : α → σ → Prop} {call : Call ε σ α}

theorem ok (hends : Ends before call refused done) {state left : σ} {room rest : Room} {value : α}
    (hbefore : before state)
    (hrun : call state room = (.ok value, left, rest)) : done value left := by
  have hleft := hends state room hbefore
  rwa [hrun] at hleft

theorem error (hends : Ends before call refused done) {state left : σ} {room rest : Room} {code : ε}
    (hbefore : before state)
    (hrun : call state room = (.error code, left, rest)) : refused left := by
  have hleft := hends state room hbefore
  rwa [hrun] at hleft

theorem write {done : Unit → σ → Prop} {change : σ → σ}
    (hdone : ∀ state, before state → done () (change state)) :
    Ends before (Call.write change : Call ε σ Unit) refused done :=
  fun state _ hbefore => hdone state hbefore

theorem grow {done : Unit → σ → Prop} {oom : ε} {change : σ → σ}
    (hrefused : ∀ state, before state → refused state)
    (hdone : ∀ state, before state → done () (change state)) :
    Ends before (Call.grow oom change) refused done := by
  intro state room hbefore
  rcases hrun : Call.grow oom change state room with ⟨code | _, left, rest⟩
  · rw [(grow_error hrun).2]
    exact hrefused state hbefore
  · rw [← grow_ok hrun]
    exact hdone state hbefore

/-- A call that keeps what it starts with leaves it in both cases, and what it has done besides is
known if it ends. -/
theorem of_keeps (hkeeps : Keeps before call)
    (hdone : ∀ {state left room rest value}, before state →
      call state room = (.ok value, left, rest) → before left → done value left) :
    Ends before call before done := by
  intro state room hbefore
  have hkept := hkeeps state room hbefore
  rcases hrun : call state room with ⟨code | value, left, rest⟩
  · rw [hrun] at hkept
    exact hkept
  · rw [hrun] at hkept
    exact hdone hbefore hrun hkept

theorem mono {before' refused' : σ → Prop} {done' : α → σ → Prop}
    (hends : Ends before call refused done) (hbefore : ∀ state, before' state → before state)
    (hrefused : ∀ state, refused state → refused' state)
    (hdone : ∀ value state, done value state → done' value state) :
    Ends before' call refused' done' := by
  intro state room hstart
  have hleft := hends state room (hbefore state hstart)
  rcases hrun : call state room with ⟨code | value, left, rest⟩
  · rw [hrun] at hleft
    exact hrefused left hleft
  · rw [hrun] at hleft
    exact hdone value left hleft

theorem bind {next : α → Call ε σ β} {last : β → σ → Prop} (hends : Ends before call refused done)
    (hnext : ∀ value, Ends (done value) (next value) refused last) :
    Ends before (call >>= next) refused last := by
  intro state room hbefore
  have hleft := hends state room hbefore
  rw [bind_run]
  rcases hrun : call state room with ⟨code | value, left, rest⟩
  · rw [hrun] at hleft
    exact hleft
  · rw [hrun] at hleft
    exact hnext value left rest hleft

end Ends

end Fallible
