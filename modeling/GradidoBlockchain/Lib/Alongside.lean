import GradidoBlockchain.Lib.Call

/-!
# Two calls run alongside each other

A relation between states tells which states a user of them cannot tell apart. Two calls run
alongside when, begun in such states with the same room, they end alike and in such states again.
-/

namespace Fallible

open Call

variable {ε σ τ σ' τ' α β : Type}

/-- From related states and with the same room the calls end alike, in related states. -/
def Alongside (rel : σ → τ → Prop) (call : Call ε σ α) (other : Call ε τ α) : Prop :=
  ∀ ⦃state : σ⦄ ⦃twin : τ⦄ (room : Room), rel state twin →
    (call state room).1 = (other twin room).1 ∧ (call state room).2.2 = (other twin room).2.2 ∧
      rel (call state room).2.1 (other twin room).2.1

namespace Alongside

variable {rel : σ → τ → Prop}

theorem plain {step : σ → Except ε α × σ} {other : τ → Except ε α × τ}
    (hresult : ∀ state twin, rel state twin → (step state).1 = (other twin).1)
    (hstep : ∀ state twin, rel state twin → rel (step state).2 (other twin).2) :
    Alongside rel (Call.plain step) (Call.plain other) :=
  fun _ _ _ hrel => ⟨hresult _ _ hrel, rfl, hstep _ _ hrel⟩

theorem pure (value : α) :
    Alongside rel (Pure.pure value : Call ε σ α) (Pure.pure value : Call ε τ α) :=
  plain (fun _ _ _ => rfl) fun _ _ hrel => hrel

theorem fail (code : ε) :
    Alongside rel (Call.fail code : Call ε σ α) (Call.fail code : Call ε τ α) :=
  plain (fun _ _ _ => rfl) fun _ _ hrel => hrel

theorem gets {part : σ → α} {other : τ → α}
    (hpart : ∀ state twin, rel state twin → part state = other twin) :
    Alongside rel (Call.gets part : Call ε σ α) (Call.gets other : Call ε τ α) :=
  plain (fun state twin hrel => congrArg Except.ok (hpart state twin hrel)) fun _ _ hrel => hrel

theorem check {test : σ → Except ε α} {other : τ → Except ε α}
    (htest : ∀ state twin, rel state twin → test state = other twin) :
    Alongside rel (Call.check test) (Call.check other) := plain htest fun _ _ hrel => hrel

theorem write {change : σ → σ} {other : τ → τ}
    (hchange : ∀ state twin, rel state twin → rel (change state) (other twin)) :
    Alongside rel (Call.write change : Call ε σ Unit) (Call.write other : Call ε τ Unit) :=
  plain (fun _ _ _ => rfl) hchange

theorem bind {call : Call ε σ α} {other : Call ε τ α} {next : α → Call ε σ β}
    {onward : α → Call ε τ β} (hcall : Alongside rel call other)
    (hnext : ∀ value, Alongside rel (next value) (onward value)) :
    Alongside rel (call >>= next) (other >>= onward) := by
  intro state twin room hrel
  obtain ⟨hresult, hroom, hleft⟩ := hcall room hrel
  rw [bind_run, bind_run]
  rcases hrun : call state room with ⟨code | value, left, rest⟩ <;>
    rcases hother : other twin room with ⟨code' | value', left', rest'⟩ <;>
    rw [hrun, hother] at hresult hroom hleft <;> cases hresult <;> cases hroom
  · exact ⟨rfl, rfl, hleft⟩
  · exact hnext value rest hleft

theorem ask (oom : ε) : Alongside rel (Call.ask oom) (Call.ask oom) := by
  intro state twin room hrel
  rcases room with _ | ⟨_ | _, room⟩ <;> exact ⟨rfl, rfl, hrel⟩

theorem grow {oom : ε} {change : σ → σ} {other : τ → τ}
    (hchange : ∀ state twin, rel state twin → rel (change state) (other twin)) :
    Alongside rel (Call.grow oom change) (Call.grow oom other) :=
  (ask oom).bind fun _ => write hchange

theorem growWith {oom : ε} {change : σ → α × σ} {other : τ → α × τ}
    (hvalue : ∀ state twin, rel state twin → (change state).1 = (other twin).1)
    (hchange : ∀ state twin, rel state twin → rel (change state).2 (other twin).2) :
    Alongside rel (Call.growWith oom change) (Call.growWith oom other) :=
  (ask oom).bind fun _ =>
    plain (fun state twin hrel => congrArg Except.ok (hvalue state twin hrel)) hchange

theorem ite {condition : Prop} [Decidable condition] {call call' : Call ε σ α}
    {other other' : Call ε τ α} (hcall : Alongside rel call other)
    (hcall' : Alongside rel call' other') :
    Alongside rel (if condition then call else call') (if condition then other else other') := by
  split
  · exact hcall
  · exact hcall'

theorem forM {body : α → Call ε σ Unit} {other : α → Call ε τ Unit} {items : List α}
    (hbody : ∀ item, Alongside rel (body item) (other item)) :
    Alongside rel (items.forM body) (items.forM other) := by
  induction items with
  | nil => exact pure ()
  | cons item items ih => exact (hbody item).bind fun _ => ih

/-- Calls on parts, where the parts are related and related parts may be put back. -/
theorem within {part : σ → σ'} {put : σ' → σ → σ} {part' : τ → τ'} {put' : τ' → τ → τ}
    {inner : σ' → τ' → Prop} {call : Call ε σ' α} {other : Call ε τ' α}
    (hcall : Alongside inner call other)
    (hpart : ∀ state twin, rel state twin → inner (part state) (part' twin))
    (hput : ∀ state twin left left', rel state twin → inner left left' →
      rel (put left state) (put' left' twin)) :
    Alongside rel (Call.within part put call) (Call.within part' put' other) := by
  intro state twin room hrel
  obtain ⟨hresult, hroom, hleft⟩ := hcall room (hpart state twin hrel)
  exact ⟨hresult, hroom, hput state twin _ _ hrel hleft⟩

theorem orUndo {call : Call ε σ α} {other : Call ε τ α} {undo : σ → σ} {undo' : τ → τ}
    (hcall : Alongside rel call other)
    (hundo : ∀ state twin, rel state twin → rel (undo state) (undo' twin)) :
    Alongside rel (Call.orUndo call undo) (Call.orUndo other undo') := by
  intro state twin room hrel
  obtain ⟨hresult, hroom, hleft⟩ := hcall room hrel
  rw [Call.orUndo, Call.orUndo]
  rcases hrun : call state room with ⟨code | value, left, rest⟩ <;>
    rcases hother : other twin room with ⟨code' | value', left', rest'⟩ <;>
    rw [hrun, hother] at hresult hroom hleft <;> cases hresult <;> cases hroom
  · exact ⟨rfl, rfl, hundo _ _ hleft⟩
  · exact ⟨rfl, rfl, hleft⟩

theorem attempt {call : Call ε σ α} {other : Call ε τ α} (hcall : Alongside rel call other) :
    Alongside rel (Call.attempt call) (Call.attempt other) := by
  intro state twin room hrel
  obtain ⟨hresult, hroom, hleft⟩ := hcall room hrel
  exact ⟨congrArg Except.ok hresult, hroom, hleft⟩

theorem andRelease {call : Call ε σ α} {other : Call ε τ α} {release : σ → σ} {release' : τ → τ}
    (hcall : Alongside rel call other)
    (hrelease : ∀ state twin, rel state twin → rel (release state) (release' twin)) :
    Alongside rel (Call.andRelease call release) (Call.andRelease other release') := by
  intro state twin room hrel
  obtain ⟨hresult, hroom, hleft⟩ := hcall room hrel
  exact ⟨hresult, hroom, hrelease _ _ hleft⟩

/-- A call does alongside itself what it does. -/
theorem refl (call : Call ε σ α) : Alongside (· = ·) call call := by
  rintro state _ room rfl
  exact ⟨rfl, rfl, rfl⟩

end Alongside

/-! ### One call after the other -/

variable {ι : Type}

/-- Calls one after the other, each with room of its own: their results, and the
state they leave. -/
def series (call : ι → Call ε σ Unit) : List (ι × Room) → σ → List (Except ε Unit) × σ
  | [], state => ([], state)
  | (item, room) :: steps, state =>
      let (result, left, _) := call item state room
      let (results, last) := series call steps left
      (result :: results, last)

/-- Alongside each other, the calls of two series end alike to the last. -/
theorem Alongside.series {rel : σ → τ → Prop} {call : ι → Call ε σ Unit} {other : ι → Call ε τ Unit}
    (hcall : ∀ item, Alongside rel (call item) (other item)) (steps : List (ι × Room)) {state : σ}
    {twin : τ} (hrel : rel state twin) :
    (Fallible.series call steps state).1 = (Fallible.series other steps twin).1 ∧
      rel (Fallible.series call steps state).2 (Fallible.series other steps twin).2 := by
  induction steps generalizing state twin with
  | nil => exact ⟨rfl, hrel⟩
  | cons step steps ih =>
      obtain ⟨hresult, -, hleft⟩ := hcall step.1 step.2 hrel
      obtain ⟨hresults, hlast⟩ := ih hleft
      exact ⟨congrArg₂ List.cons hresult hresults, hlast⟩

end Fallible
