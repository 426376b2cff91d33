import GradidoBlockchain.Lib.Call
import Mathlib.Algebra.Ring.Nat

/-!
# Calls whose requests are foretold

What becomes of a call that makes a known number of requests depends on the allocator's answers
alone: it comes to its end where they are granted, and is refused where one of them is.
-/

namespace Fallible

open Call

/-- So many requests granted one after the other, and what is left of the answers; none
where one is refused. -/
def granted : Nat → Room → Option Room
  | 0, room => some room
  | requests + 1, room => match room with
    | [] => granted requests []
    | true :: rest => granted requests rest
    | false :: _ => none

theorem granted_nil (requests : Nat) : granted requests [] = some [] := by
  induction requests with
  | zero => rfl
  | succ requests ih => exact ih

theorem granted_add (requests more : Nat) (room : Room) :
    granted (requests + more) room = (granted requests room).bind (granted more) := by
  induction requests generalizing room with
  | zero => rw [Nat.zero_add]; rfl
  | succ requests ih =>
      rw [Nat.succ_add]
      rcases room with _ | ⟨_ | _, room⟩
      · exact ih []
      · rfl
      · exact ih room

theorem granted_of_ask {ε σ : Type} {oom : ε} {state left : σ} {room rest : Room} {value : Unit}
    (hrun : ask oom state room = (.ok value, left, rest)) : granted 1 room = some rest := by
  rcases room with _ | ⟨_ | _, room⟩ <;> cases hrun <;> rfl

/-- A growth that comes to its end has had its request granted. -/
theorem granted_of_grow {ε σ : Type} {oom : ε} {change : σ → σ} {state left : σ} {room rest : Room}
    {value : Unit} (hrun : grow oom change state room = (.ok value, left, rest)) :
    granted 1 room = some rest := by
  rcases room with _ | ⟨_ | _, room⟩ <;> cases hrun <;> rfl

/-- The call ends and leaves what is foretold for the requests it makes, or is refused memory where
one that counts is refused. -/
def Follows {ε σ κ : Type} (oom : ε) (call : Call ε σ Unit) (state : σ) (room : Room)
    (served : Option (κ × Room)) (ending : Except ε Unit) (left : κ → σ) : Prop :=
  match served with
  | none => (call state room).1 = .error oom
  | some (loss, rest) => call state room = (ending, left loss, rest)

namespace Follows

variable {ε σ τ κ : Type} {oom : ε} {call next : Call ε σ Unit} {state middle : σ} {room : Room}
  {ending : Except ε Unit} {left : κ → σ}

theorem grow (oom : ε) (change : σ → σ) (state : σ) (room : Room) :
    Follows oom (Call.grow oom change) state room ((granted 1 room).map (Prod.mk ())) (.ok ())
      fun _ => change state := by
  rcases room with _ | ⟨_ | _, room⟩ <;> rfl

/-- After requests of which some may be lost comes what follows from the state they leave. -/
theorem bind {ι : Type} {served : Option (ι × Room)} {onward : ι → σ}
    {after : ι × Room → Option (κ × Room)}
    (hcall : Follows oom call state room served (.ok ()) onward)
    (hnext : ∀ loss rest, Follows oom next (onward loss) rest (after (loss, rest)) ending left) :
    Follows oom (call >>= fun _ => next) state room (served.bind after) ending left := by
  rcases served with _ | ⟨loss, rest⟩
  · exact bind_fst_error hcall
  · have hbind : (call >>= fun _ => next) state room = next (onward loss) rest := bind_run_ok hcall
    have hfollows := hnext loss rest
    rw [Option.bind_some]
    rcases hserved : after (loss, rest) with _ | ⟨other, last⟩
    · rw [hserved] at hfollows
      exact (congrArg Prod.fst hbind).trans hfollows
    · rw [hserved] at hfollows
      exact hbind.trans hfollows

/-- The same after requests that all count. -/
theorem andThen {requests : Nat} {after : Room → Option (κ × Room)}
    (hcall : Follows oom call state room ((granted requests room).map (Prod.mk ())) (.ok ())
      fun _ => middle) (hnext : ∀ rest, Follows oom next middle rest (after rest) ending left) :
    Follows oom (call >>= fun _ => next) state room ((granted requests room).bind after) ending
      left := by
  have hboth : Follows oom (call >>= fun _ => next) state room
      (((granted requests room).map (Prod.mk ())).bind fun out => after out.2) ending left :=
    hcall.bind fun _ rest => hnext rest
  rw [Option.bind_map] at hboth
  exact hboth

theorem thenWrite {served : Option (κ × Room)} {change : σ → σ}
    (hcall : Follows oom call state room served (.ok ()) left) :
    Follows oom (call >>= fun _ => write change) state room served (.ok ()) fun loss =>
      change (left loss) := by
  rcases served with _ | ⟨loss, rest⟩
  · exact bind_fst_error hcall
  · exact bind_run_ok hcall

theorem afterWrite {served : Option (κ × Room)} {change : σ → σ}
    (hnext : Follows oom next (change state) room served ending left) :
    Follows oom (write change >>= fun _ => next) state room served ending left :=
  hnext

theorem within {part : σ → τ} {put : τ → σ → σ} {inner : Call ε τ Unit} {served : Option (κ × Room)}
    (left : κ → τ) (hinner : Follows oom inner (part state) room served ending left) :
    Follows oom (Call.within part put inner) state room served ending fun loss =>
      put (left loss) state := by
  rcases served with _ | ⟨loss, rest⟩
  · exact hinner
  · exact within_run_eq hinner

end Follows

/-- The call makes so many requests, and where they are granted it makes the change. -/
def Takes {ε σ : Type} (oom : ε) (requests : Nat) (change : σ → σ) (call : Call ε σ Unit) : Prop :=
  ∀ state room, Follows oom call state room ((granted requests room).map (Prod.mk ())) (.ok ())
    fun _ => change state

namespace Takes

variable {ε σ α : Type} {oom : ε} {requests more : Nat} {change other : σ → σ}
  {call next : Call ε σ Unit}

theorem ok (htakes : Takes oom requests change call) {state : σ} {room rest : Room}
    (hgranted : granted requests room = some rest) :
    call state room = (.ok (), change state, rest) := by
  have hfollows := htakes state room
  rw [hgranted] at hfollows
  exact hfollows

theorem refused (htakes : Takes oom requests change call) {state : σ} {room : Room}
    (hgranted : granted requests room = none) : (call state room).1 = .error oom := by
  have hfollows := htakes state room
  rw [hgranted] at hfollows
  exact hfollows

theorem congr (htakes : Takes oom requests change call) (hrequests : requests = more)
    (hchange : change = other) : Takes oom more other call :=
  hrequests ▸ hchange ▸ htakes

theorem pure : Takes oom 0 id (Pure.pure () : Call ε σ Unit) := fun _ _ => rfl

theorem write (change : σ → σ) : Takes oom 0 change (Call.write change : Call ε σ Unit) :=
  fun _ _ => rfl

theorem grow (change : σ → σ) : Takes oom 1 change (Call.grow oom change) := Follows.grow oom change

theorem bind (hcall : Takes oom requests change call) (hnext : Takes oom more other next) :
    Takes oom (requests + more) (other ∘ change) (call >>= fun _ => next) := by
  intro state room
  have hboth := (hcall state room).andThen fun rest => hnext (change state) rest
  rw [granted_add, Option.map_bind]
  exact hboth

/-- A loop whose rounds leave the state as it is. -/
theorem forM {body : α → Call ε σ Unit} {cost : α → Nat} {items : List α}
    (hbody : ∀ item ∈ items, Takes oom (cost item) id (body item)) :
    Takes oom (items.map cost).sum id (items.forM body) := by
  induction items with
  | nil => exact pure
  | cons item items ih =>
      exact (hbody item List.mem_cons_self).bind
        (ih fun other hother => hbody other (List.mem_cons_of_mem _ hother))

end Takes

/-- A run of the call that comes to its end does the same where every request is granted. -/
def Steady {ε σ α : Type} (call : Call ε σ α) : Prop :=
  ∀ ⦃state left room rest value⦄, call state room = (.ok value, left, rest) →
    call state [] = (.ok value, left, [])

namespace Steady

variable {ε σ τ α β : Type} {call : Call ε σ α}

theorem fail (code : ε) : Steady (Call.fail code : Call ε σ α) := by
  intro state left room rest value hrun
  cases hrun

theorem write (change : σ → σ) : Steady (Call.write change : Call ε σ Unit) := by
  intro state left room rest value hrun
  obtain ⟨rfl, -⟩ := write_ok.1 hrun
  rfl

theorem grow (oom : ε) (change : σ → σ) : Steady (Call.grow oom change) := by
  intro state left room rest value hrun
  rw [grow_run_nil, grow_ok hrun]

theorem bind {next : α → Call ε σ β} (hcall : Steady call)
    (hnext : ∀ value, Steady (next value)) : Steady (call >>= next) := by
  intro state left room rest result hrun
  obtain ⟨value, middle, between, hfirst, hsecond⟩ := bind_ok.1 hrun
  rw [bind_run_ok (hcall hfirst)]
  exact hnext value hsecond

theorem within {part : σ → τ} {put : τ → σ → σ} {call : Call ε τ α} (hcall : Steady call) :
    Steady (Call.within part put call) := by
  intro state left room rest value hrun
  obtain ⟨inner, hinner, rfl⟩ := within_ok.1 hrun
  exact within_run_eq (hcall hinner)

end Steady

end Fallible
