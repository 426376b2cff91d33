import Mathlib.Data.List.Basic
import Mathlib.Tactic.Common

/-!
# Calls that may be refused room

A call works on a state and asks an allocator for room on its way. The allocator's answers are a
list, one for each request still to come; past the end of the list every request is granted. A call
that fails keeps the state it has reached, as a function that returns early does.
-/

namespace Fallible

/-- The allocator's answers to the requests still to come. -/
abbrev Room := List Bool

/-- A call over the states `σ`: its outcome, the state it leaves, and the answers it has not
used. -/
abbrev Call (ε σ α : Type) : Type := σ → Room → Except ε α × σ × Room

variable {ε δ σ τ α β : Type}

namespace Call

/-- A step that asks for no room. -/
def plain (step : σ → Except ε α × σ) : Call ε σ α :=
  fun state room => ((step state).1, (step state).2, room)

protected def bind (call : Call ε σ α) (next : α → Call ε σ β) : Call ε σ β := fun state room =>
  match call state room with
  | (.ok value, left, rest) => next value left rest
  | (.error code, left, rest) => (.error code, left, rest)

instance : Monad (Call ε σ) where
  pure value := plain fun state => (.ok value, state)
  bind := Call.bind

/-- Stops with `code`, everything written so far standing. -/
def fail (code : ε) : Call ε σ α := plain fun state => (.error code, state)

/-- Reads a part of the state. -/
def gets (part : σ → α) : Call ε σ α := plain fun state => (.ok (part state), state)

/-- Writes to room the state already has. -/
def write (change : σ → σ) : Call ε σ Unit := plain fun state => (.ok (), change state)

/-- A test of the state that changes nothing. -/
def check (test : σ → Except ε α) : Call ε σ α := plain fun state => (test state, state)

/-- One request for room; a refusal ends the call with `oom`. -/
def ask (oom : ε) : Call ε σ Unit := fun state room =>
  match room with
  | [] => (.ok (), state, [])
  | true :: rest => (.ok (), state, rest)
  | false :: rest => (.error oom, state, rest)

/-- A growth that a refusal leaves undone. -/
def grow (oom : ε) (change : σ → σ) : Call ε σ Unit := do
  ask oom
  write change

/-- The same with a result. -/
def growWith (oom : ε) (change : σ → α × σ) : Call ε σ α := do
  ask oom
  plain fun state => (.ok (change state).1, (change state).2)

/-- A call on one part of the state, the rest of it left as it is. -/
def within (part : σ → τ) (put : τ → σ → σ) (call : Call ε τ α) : Call ε σ α := fun state room =>
  match call (part state) room with
  | (outcome, left, rest) => (outcome, put left state, rest)

/-- A call that takes a step back when it fails. -/
def orUndo (call : Call ε σ α) (undo : σ → σ) : Call ε σ α := fun state room =>
  match call state room with
  | (.ok value, left, rest) => (.ok value, left, rest)
  | (.error code, left, rest) => (.error code, undo left, rest)

/-- A call that gives back what it has taken, however it ends. -/
def andRelease (call : Call ε σ α) (release : σ → σ) : Call ε σ α := fun state room =>
  ((call state room).1, release (call state room).2.1, (call state room).2.2)

/-- A call whose outcome its caller looks at. -/
def attempt (call : Call ε σ α) : Call ε σ (Except ε α) :=
  fun state room => (.ok (call state room).1, (call state room).2)

/-- A call whose outcome its caller does not look at. -/
def unchecked (call : Call ε σ α) : Call ε σ Unit := fun state room =>
  (.ok (), (call state room).2.1, (call state room).2.2)

/-- A call whose codes are told apart in another way. -/
def mapError (rename : ε → δ) (call : Call ε σ α) : Call δ σ α := fun state room =>
  ((call state room).1.mapError rename, (call state room).2)

/-! ### Running -/

theorem pure_run (value : α) (state : σ) (room : Room) :
    (pure value : Call ε σ α) state room = (.ok value, state, room) := rfl

theorem bind_run (call : Call ε σ α) (next : α → Call ε σ β) (state : σ) (room : Room) :
    (call >>= next) state room = match call state room with
      | (.ok value, left, rest) => next value left rest
      | (.error code, left, rest) => (.error code, left, rest) := rfl

theorem bind_run_ok {call : Call ε σ α} {next : α → Call ε σ β} {state left : σ} {room rest : Room}
    {value : α} (hcall : call state room = (.ok value, left, rest)) :
    (call >>= next) state room = next value left rest := by
  rw [bind_run, hcall]

theorem bind_run_error {call : Call ε σ α} {next : α → Call ε σ β} {state left : σ}
    {room rest : Room} {code : ε} (hcall : call state room = (.error code, left, rest)) :
    (call >>= next) state room = (.error code, left, rest) := by
  rw [bind_run, hcall]

theorem bind_fst_error {call : Call ε σ α} {next : α → Call ε σ β} {state : σ} {room : Room}
    {code : ε} (hcall : (call state room).1 = .error code) :
    ((call >>= next) state room).1 = .error code := by
  rw [bind_run_error (Prod.ext hcall rfl)]

@[simp] theorem gets_run (part : σ → α) (state : σ) (room : Room) :
    (gets part : Call ε σ α) state room = (.ok (part state), state, room) := rfl

@[simp] theorem write_run (change : σ → σ) (state : σ) (room : Room) :
    (write change : Call ε σ Unit) state room = (.ok (), change state, room) := rfl

@[simp] theorem check_run (test : σ → Except ε α) (state : σ) (room : Room) :
    (check test : Call ε σ α) state room = (test state, state, room) := rfl

@[simp] theorem growWith_run_nil (oom : ε) (change : σ → α × σ) (state : σ) :
    growWith oom change state [] = (.ok (change state).1, (change state).2, []) := rfl

@[simp] theorem grow_run_nil (oom : ε) (change : σ → σ) (state : σ) :
    grow oom change state [] = (.ok (), change state, []) := rfl

theorem within_run (part : σ → τ) (put : τ → σ → σ) (call : Call ε τ α) (state : σ) (room : Room) :
    within part put call state room =
      ((call (part state) room).1, put (call (part state) room).2.1 state,
        (call (part state) room).2.2) :=
  rfl

theorem within_run_eq {part : σ → τ} {put : τ → σ → σ} {call : Call ε τ α} {state : σ} {left : τ}
    {room rest : Room} {outcome : Except ε α}
    (hcall : call (part state) room = (outcome, left, rest)) :
    within part put call state room = (outcome, put left state, rest) := by
  rw [within_run, hcall]

theorem attempt_run_eq {call : Call ε σ α} {state left : σ} {room rest : Room}
    {outcome : Except ε α} (hcall : call state room = (outcome, left, rest)) :
    attempt call state room = (.ok outcome, left, rest) := by
  rw [attempt, hcall]

/-! ### Taking a run apart

What a call that came to an end did, read back from its outcome. -/

theorem pure_ok {value result : α} {state left : σ} {room rest : Room} :
    (pure value : Call ε σ α) state room = (.ok result, left, rest) ↔
      value = result ∧ state = left ∧ room = rest := by
  rw [pure_run]
  simp

theorem bind_ok {call : Call ε σ α} {next : α → Call ε σ β} {state left : σ} {room rest : Room}
    {result : β} :
    (call >>= next) state room = (.ok result, left, rest) ↔
      ∃ value middle between, call state room = (.ok value, middle, between) ∧
        next value middle between = (.ok result, left, rest) := by
  rw [bind_run]
  rcases hrun : call state room with ⟨_ | value, middle, between⟩
  · simp
  · simp

theorem bind_error {call : Call ε σ α} {next : α → Call ε σ β} {state left : σ} {room rest : Room}
    {code : ε} :
    (call >>= next) state room = (.error code, left, rest) ↔
      call state room = (.error code, left, rest) ∨
        ∃ value middle between, call state room = (.ok value, middle, between) ∧
          next value middle between = (.error code, left, rest) := by
  rw [bind_run]
  rcases hrun : call state room with ⟨_ | value, middle, between⟩
  · simp
  · simp

theorem gets_ok {part : σ → α} {value : α} {state left : σ} {room rest : Room} :
    (gets part : Call ε σ α) state room = (.ok value, left, rest) ↔
      part state = value ∧ state = left ∧ room = rest := by
  simp

theorem write_ok {change : σ → σ} {state left : σ} {room rest : Room} {value : Unit} :
    (write change : Call ε σ Unit) state room = (.ok value, left, rest) ↔
      change state = left ∧ room = rest := by
  simp

theorem check_ok {test : σ → Except ε α} {value : α} {state left : σ} {room rest : Room} :
    (check test : Call ε σ α) state room = (.ok value, left, rest) ↔
      test state = .ok value ∧ state = left ∧ room = rest := by
  simp

theorem check_error {test : σ → Except ε α} {state left : σ} {room rest : Room} {code : ε} :
    (check test : Call ε σ α) state room = (.error code, left, rest) ↔
      test state = .error code ∧ state = left ∧ room = rest := by
  simp

theorem grow_ok {oom : ε} {change : σ → σ} {state left : σ} {room rest : Room} {value : Unit}
    (hrun : grow oom change state room = (.ok value, left, rest)) : change state = left := by
  rcases room with _ | ⟨_ | _, room⟩
  · exact congrArg (·.2.1) hrun
  · cases hrun
  · exact congrArg (·.2.1) hrun

theorem grow_error {oom code : ε} {change : σ → σ} {state left : σ} {room rest : Room}
    (hrun : grow oom change state room = (.error code, left, rest)) :
    code = oom ∧ left = state := by
  rcases room with _ | ⟨_ | _, room⟩ <;> cases hrun
  exact ⟨rfl, rfl⟩

/-- A growth that is refused has changed nothing. -/
theorem grow_left (oom : ε) (change : σ → σ) (state : σ) (room : Room) :
    (grow oom change state room).2.1 = state ∨ (grow oom change state room).2.1 = change state := by
  rcases room with _ | ⟨_ | _, room⟩
  · exact .inr rfl
  · exact .inl rfl
  · exact .inr rfl

theorem growWith_ok {oom : ε} {change : σ → α × σ} {state left : σ} {room rest : Room} {value : α}
    (hrun : growWith oom change state room = (.ok value, left, rest)) :
    change state = (value, left) := by
  rcases room with _ | ⟨_ | _, room⟩ <;> cases hrun <;> rfl

theorem growWith_error {oom code : ε} {change : σ → α × σ} {state left : σ} {room rest : Room}
    (hrun : growWith oom change state room = (.error code, left, rest)) :
    code = oom ∧ left = state := by
  rcases room with _ | ⟨_ | _, room⟩ <;> cases hrun
  exact ⟨rfl, rfl⟩

theorem within_ok {part : σ → τ} {put : τ → σ → σ} {call : Call ε τ α} {state left : σ}
    {room rest : Room} {value : α} :
    within part put call state room = (.ok value, left, rest) ↔
      ∃ inner, call (part state) room = (.ok value, inner, rest) ∧ put inner state = left := by
  rw [within_run]
  rcases call (part state) room with ⟨outcome, inner, answers⟩
  simp only [Prod.mk.injEq]
  constructor
  · rintro ⟨rfl, rfl, rfl⟩
    exact ⟨inner, ⟨rfl, rfl, rfl⟩, rfl⟩
  · rintro ⟨_, ⟨rfl, rfl, rfl⟩, rfl⟩
    exact ⟨rfl, rfl, rfl⟩

theorem within_error {part : σ → τ} {put : τ → σ → σ} {call : Call ε τ α} {state left : σ}
    {room rest : Room} {code : ε} :
    within part put call state room = (.error code, left, rest) ↔
      ∃ inner, call (part state) room = (.error code, inner, rest) ∧ put inner state = left := by
  rw [within_run]
  rcases call (part state) room with ⟨outcome, inner, answers⟩
  simp only [Prod.mk.injEq]
  constructor
  · rintro ⟨rfl, rfl, rfl⟩
    exact ⟨inner, ⟨rfl, rfl, rfl⟩, rfl⟩
  · rintro ⟨_, ⟨rfl, rfl, rfl⟩, rfl⟩
    exact ⟨rfl, rfl, rfl⟩

theorem orUndo_ok {call : Call ε σ α} {undo : σ → σ} {state left : σ} {room rest : Room}
    {value : α} :
    orUndo call undo state room = (.ok value, left, rest) ↔
      call state room = (.ok value, left, rest) := by
  rw [orUndo]
  rcases call state room with ⟨_ | result, middle, answers⟩
  · simp
  · simp

theorem orUndo_error {call : Call ε σ α} {undo : σ → σ} {state left : σ} {room rest : Room}
    {code : ε} :
    orUndo call undo state room = (.error code, left, rest) ↔
      ∃ middle, call state room = (.error code, middle, rest) ∧ undo middle = left := by
  rw [orUndo]
  rcases call state room with ⟨_ | result, middle, answers⟩
  · simp only [Prod.mk.injEq, Except.error.injEq]
    constructor
    · rintro ⟨rfl, rfl, rfl⟩
      exact ⟨middle, ⟨rfl, rfl, rfl⟩, rfl⟩
    · rintro ⟨_, ⟨rfl, rfl, rfl⟩, rfl⟩
      exact ⟨rfl, rfl, rfl⟩
  · simp

theorem andRelease_ok {call : Call ε σ α} {release : σ → σ} {state left : σ} {room rest : Room}
    {value : α} :
    andRelease call release state room = (.ok value, left, rest) ↔
      ∃ middle, call state room = (.ok value, middle, rest) ∧ release middle = left := by
  rw [andRelease]
  rcases call state room with ⟨outcome, middle, answers⟩
  simp only [Prod.mk.injEq]
  constructor
  · rintro ⟨rfl, rfl, rfl⟩
    exact ⟨middle, ⟨rfl, rfl, rfl⟩, rfl⟩
  · rintro ⟨_, ⟨rfl, rfl, rfl⟩, rfl⟩
    exact ⟨rfl, rfl, rfl⟩

theorem mapError_ok {rename : ε → δ} {call : Call ε σ α} {state left : σ} {room rest : Room}
    {value : α} :
    mapError rename call state room = (.ok value, left, rest) ↔
      call state room = (.ok value, left, rest) := by
  rw [mapError]
  rcases call state room with ⟨_ | result, middle, answers⟩
  · simp [Except.mapError]
  · simp [Except.mapError]

theorem mapError_error {rename : ε → δ} {call : Call ε σ α} {state left : σ} {room rest : Room}
    {code : δ} :
    mapError rename call state room = (.error code, left, rest) ↔
      ∃ inner, call state room = (.error inner, left, rest) ∧ rename inner = code := by
  rw [mapError]
  rcases call state room with ⟨inner | result, middle, answers⟩
  · simp only [Except.mapError, Prod.mk.injEq, Except.error.injEq]
    constructor
    · rintro ⟨rfl, rfl, rfl⟩
      exact ⟨inner, ⟨rfl, rfl, rfl⟩, rfl⟩
    · rintro ⟨_, ⟨rfl, rfl, rfl⟩, rfl⟩
      exact ⟨rfl, rfl, rfl⟩
  · simp [Except.mapError]

/-- What a loop over a list that came to an end has done: an invariant of the part of the list done
so far, kept by every round. -/
theorem forM_ok {body : α → Call ε σ Unit} (done : List α → σ → Prop) {items : List α}
    {state left : σ} {room rest : Room} (hstart : done [] state)
    (hround : ∀ before item after middle state room rest, items = before ++ item :: after →
      done before state → body item state room = (.ok (), middle, rest) →
      done (before ++ [item]) middle)
    (hrun : items.forM body state room = (.ok (), left, rest)) : done items left := by
  suffices hsuffix : ∀ before after state room, items = before ++ after → done before state →
      after.forM body state room = (.ok (), left, rest) → done items left from
    hsuffix [] items state room rfl hstart hrun
  intro before after
  induction after generalizing before with
  | nil =>
      intro state room hitems hdone hrun
      obtain ⟨-, rfl, -⟩ := pure_ok.1 hrun
      rw [hitems, List.append_nil]
      exact hdone
  | cons item after ih =>
      intro state room hitems hdone hrun
      obtain ⟨_, middle, between, hbody, hrest⟩ := bind_ok.1 hrun
      exact ih (before ++ [item]) middle between (by rw [hitems, List.append_assoc]; rfl)
        (hround _ _ _ _ _ _ _ hitems hdone hbody) hrest

end Call

/-! ### What a call can fail with -/

/-- The call fails for want of room and for nothing else. -/
def FailsOnly (oom : ε) (call : Call ε σ α) : Prop :=
  ∀ ⦃state left room rest code⦄, call state room = (.error code, left, rest) → code = oom

namespace FailsOnly

open Call

variable {oom : ε}

theorem pure (value : α) : FailsOnly oom (Pure.pure value : Call ε σ α) := nofun

theorem gets (part : σ → α) : FailsOnly oom (Call.gets part) := nofun

theorem write (change : σ → σ) : FailsOnly oom (Call.write change) := nofun

theorem grow (change : σ → σ) : FailsOnly oom (Call.grow oom change) :=
  fun _ _ _ _ _ hrun => (grow_error hrun).1

theorem growWith (change : σ → α × σ) : FailsOnly oom (Call.growWith oom change) :=
  fun _ _ _ _ _ hrun => (growWith_error hrun).1

theorem bind {call : Call ε σ α} {next : α → Call ε σ β} (hcall : FailsOnly oom call)
    (hnext : ∀ value, FailsOnly oom (next value)) : FailsOnly oom (call >>= next) := by
  intro state left room rest code hrun
  rcases bind_error.1 hrun with hfirst | ⟨value, middle, between, -, hsecond⟩
  · exact hcall hfirst
  · exact hnext value hsecond

theorem within {part : σ → τ} {put : τ → σ → σ} {call : Call ε τ α} (hcall : FailsOnly oom call) :
    FailsOnly oom (Call.within part put call) := by
  intro state left room rest code hrun
  obtain ⟨inner, hinner, -⟩ := within_error.1 hrun
  exact hcall hinner

theorem forM {body : α → Call ε σ Unit} {items : List α}
    (hbody : ∀ item ∈ items, FailsOnly oom (body item)) : FailsOnly oom (items.forM body) := by
  induction items with
  | nil => exact pure ()
  | cons item items ih =>
      exact (hbody item List.mem_cons_self).bind fun _ =>
        ih fun other hother => hbody other (List.mem_cons_of_mem _ hother)

theorem ite {condition : Prop} [Decidable condition] {call other : Call ε σ α}
    (hcall : FailsOnly oom call) (hother : FailsOnly oom other) :
    FailsOnly oom (if condition then call else other) := by
  split
  · exact hcall
  · exact hother

end FailsOnly

/-! ### What a call keeps -/

/-- Whatever becomes of the call, `inv` still holds of the state it leaves. -/
def Keeps (inv : σ → Prop) (call : Call ε σ α) : Prop :=
  ∀ state room, inv state → inv (call state room).2.1

namespace Keeps

open Call

variable {inv : σ → Prop}

theorem plain {step : σ → Except ε α × σ} (hstep : ∀ state, inv state → inv (step state).2) :
    Keeps inv (Call.plain step) := fun state _ hinv => hstep state hinv

theorem pure (value : α) : Keeps inv (Pure.pure value : Call ε σ α) := fun _ _ hinv => hinv

theorem fail (code : ε) : Keeps inv (Call.fail code : Call ε σ α) := fun _ _ hinv => hinv

theorem gets (part : σ → α) : Keeps inv (Call.gets part : Call ε σ α) := fun _ _ hinv => hinv

theorem check (test : σ → Except ε α) : Keeps inv (Call.check test) := fun _ _ hinv => hinv

theorem write {change : σ → σ} (hchange : ∀ state, inv state → inv (change state)) :
    Keeps inv (Call.write change : Call ε σ Unit) := plain hchange

theorem bind {call : Call ε σ α} {next : α → Call ε σ β} (hcall : Keeps inv call)
    (hnext : ∀ value, Keeps inv (next value)) : Keeps inv (call >>= next) := by
  intro state room hinv
  have hleft := hcall state room hinv
  rw [bind_run]
  rcases hrun : call state room with ⟨_ | value, middle, between⟩
  · rw [hrun] at hleft
    exact hleft
  · rw [hrun] at hleft
    exact hnext value middle between hleft

/-- What has been settled by the first part of a call is known to the second. -/
theorem bindSettled {call : Call ε σ α} {next : α → Call ε σ β} {settled : α → σ → Prop}
    (hcall : Keeps inv call)
    (hsettles : ∀ {state left room rest value}, inv state →
      call state room = (.ok value, left, rest) → settled value left)
    (hnext : ∀ value,
      ∀ state room, inv state → settled value state → inv (next value state room).2.1) :
    Keeps inv (call >>= next) := by
  intro state room hinv
  have hleft := hcall state room hinv
  rw [bind_run]
  rcases hrun : call state room with ⟨_ | value, middle, between⟩
  · rw [hrun] at hleft
    exact hleft
  · rw [hrun] at hleft
    exact hnext value middle between hleft (hsettles hinv hrun)

theorem attempt {call : Call ε σ α} (hcall : Keeps inv call) : Keeps inv (Call.attempt call) :=
  hcall

theorem ask (oom : ε) : Keeps inv (Call.ask oom) := by
  intro state room hinv
  rcases room with _ | ⟨_ | _, room⟩ <;> exact hinv

theorem grow {oom : ε} {change : σ → σ} (hchange : ∀ state, inv state → inv (change state)) :
    Keeps inv (Call.grow oom change) := (ask oom).bind fun _ => write hchange

theorem growWith {oom : ε} {change : σ → α × σ}
    (hchange : ∀ state, inv state → inv (change state).2) : Keeps inv (Call.growWith oom change) :=
  (ask oom).bind fun _ => plain hchange

theorem forM {body : α → Call ε σ Unit} {items : List α}
    (hbody : ∀ item ∈ items, Keeps inv (body item)) : Keeps inv (items.forM body) := by
  induction items with
  | nil => exact pure ()
  | cons item items ih =>
      exact (hbody item List.mem_cons_self).bind fun _ =>
        ih fun other hother => hbody other (List.mem_cons_of_mem _ hother)

theorem within {part : σ → τ} {put : τ → σ → σ} {inner : τ → Prop} {call : Call ε τ α}
    (hcall : Keeps inner call) (hpart : ∀ state, inv state → inner (part state))
    (hput : ∀ state left, inv state → inner left → inv (put left state)) :
    Keeps inv (within part put call) :=
  fun state room hinv => hput state _ hinv (hcall _ room (hpart state hinv))

/-- A call whose every step leads onward keeps what going onward keeps. -/
theorem of_onward {onward : σ → σ → Prop} {call : Call ε σ α}
    (hcall : ∀ start, Keeps (onward start) call) (hrefl : ∀ state, onward state state)
    (hinv : ∀ state left, onward state left → inv state → inv left) : Keeps inv call :=
  fun state room hstate => hinv state _ (hcall state state room (hrefl state)) hstate

theorem ite {condition : Prop} [Decidable condition] {call other : Call ε σ α}
    (hcall : Keeps inv call) (hother : Keeps inv other) :
    Keeps inv (if condition then call else other) := by
  split
  · exact hcall
  · exact hother

end Keeps

/-- Whatever becomes of the call, it leads from `pre` to `post`. -/
def Leads (pre post : σ → Prop) (call : Call ε σ α) : Prop :=
  ∀ state room, pre state → post (call state room).2.1

/-- What holds until the last part of a call is begun, and what holds after it. -/
theorem Keeps.leads {pre post : σ → Prop} {call : Call ε σ α} {next : α → Call ε σ β}
    (hcall : Keeps pre call) (hpost : ∀ state, pre state → post state)
    (hnext : ∀ value, Leads pre post (next value)) : Leads pre post (call >>= next) := by
  intro state room hpre
  have hleft := hcall state room hpre
  rw [Call.bind_run]
  rcases hrun : call state room with ⟨_ | value, middle, between⟩
  · rw [hrun] at hleft
    exact hpost middle hleft
  · rw [hrun] at hleft
    exact hnext value middle between hleft

end Fallible
