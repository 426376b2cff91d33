import Mathlib.Data.List.Basic
import Mathlib.Data.List.Nodup
import Mathlib.Data.List.Perm.Basic
import Mathlib.Tactic.Common

/-!
# What is opened and given back

Resources are opened one after the other and given back through their handles. Nothing keeps a
handle from being given back twice or from being forgotten, so that both can be said of a program:
somebody holds every resource that is live, and nobody holds one that is not.
-/

namespace Ownership

/-- A resource, by who opened it and how many had been opened before. -/
structure Handle (ω : Type) where
  opener : ω
  nr : Nat
  deriving DecidableEq, Repr

/-- What has been opened and what has been given back, the last one first. -/
structure Supply (ω : Type) where
  opened : List (Handle ω)
  released : List (Handle ω)
  deriving DecidableEq, Repr

variable {ω : Type}

namespace Supply

def empty : Supply ω := ⟨[], []⟩

/-- The handle that is opened next. -/
def next (supply : Supply ω) (opener : ω) : Handle ω := ⟨opener, supply.opened.length⟩

def openNext (supply : Supply ω) (opener : ω) : Supply ω :=
  { supply with opened := supply.next opener :: supply.opened }

/-- Gives a resource back; a handle to nothing is passed over. -/
def release (supply : Supply ω) (handle : Option (Handle ω)) : Supply ω :=
  match handle with
  | some handle => { supply with released := handle :: supply.released }
  | none => supply

/-- Opened and not given back. -/
def Live (supply : Supply ω) (handle : Handle ω) : Prop :=
  handle ∈ supply.opened ∧ handle ∉ supply.released

end Supply

/-- Somebody holds every live resource, once, and no resource has been given back twice. -/
structure Owns (supply : Supply ω) (held : List (Handle ω)) : Prop where
  numbered : ∀ handle ∈ supply.opened, handle.nr < supply.opened.length
  heldOnce : held.Nodup
  mem_held : ∀ handle, handle ∈ held ↔ supply.Live handle
  releasedOnce : supply.released.Nodup
  released_opened : ∀ handle ∈ supply.released, handle ∈ supply.opened

namespace Owns

variable {supply : Supply ω} {held other : List (Handle ω)}

theorem empty : Owns (Supply.empty : Supply ω) [] where
  numbered := by simp [Supply.empty]
  heldOnce := List.nodup_nil
  mem_held := by simp [Supply.Live, Supply.empty]
  releasedOnce := List.nodup_nil
  released_opened := by simp [Supply.empty]

theorem perm (howns : Owns supply held) (hperm : held.Perm other) : Owns supply other where
  numbered := howns.numbered
  heldOnce := hperm.nodup_iff.1 howns.heldOnce
  mem_held handle := by rw [← hperm.mem_iff, howns.mem_held]
  releasedOnce := howns.releasedOnce
  released_opened := howns.released_opened

theorem next_not_opened (howns : Owns supply held) (opener : ω) :
    supply.next opener ∉ supply.opened := by
  intro hmem
  have hlt := howns.numbered _ hmem
  exact Nat.lt_irrefl _ hlt

/-- Who opens a resource holds it. -/
theorem openNext (howns : Owns supply held) (opener : ω) :
    Owns (supply.openNext opener) (supply.next opener :: held) := by
  have hnew := howns.next_not_opened opener
  refine ⟨fun handle hmem => ?_,
    List.nodup_cons.2 ⟨fun hmem => hnew ((howns.mem_held _).1 hmem).1, howns.heldOnce⟩,
    fun handle => ?_, howns.releasedOnce,
    fun handle hmem => List.mem_cons_of_mem _ (howns.released_opened handle hmem)⟩
  · rcases List.mem_cons.1 hmem with rfl | hmem
    · exact Nat.lt_succ_self _
    · exact Nat.lt_succ_of_lt (howns.numbered handle hmem)
  · rw [List.mem_cons, howns.mem_held, Supply.Live, Supply.Live, Supply.openNext, List.mem_cons]
    constructor
    · rintro (rfl | ⟨hopened, hreleased⟩)
      · exact ⟨.inl rfl, fun hmem => hnew (howns.released_opened _ hmem)⟩
      · exact ⟨.inr hopened, hreleased⟩
    · rintro ⟨rfl | hopened, hreleased⟩
      · exact .inl rfl
      · exact .inr ⟨hopened, hreleased⟩

/-- Who gives a resource back holds it no more. -/
theorem release {handle : Handle ω} (howns : Owns supply (handle :: held)) :
    Owns (supply.release (some handle)) held := by
  obtain ⟨hnot, honce⟩ := List.nodup_cons.1 howns.heldOnce
  have hlive := (howns.mem_held handle).1 List.mem_cons_self
  refine ⟨howns.numbered, honce, fun other => ?_, List.nodup_cons.2 ⟨hlive.2, howns.releasedOnce⟩,
    fun other hmem => ?_⟩
  · have hheld := howns.mem_held other
    rw [List.mem_cons, Supply.Live] at hheld
    rw [Supply.Live, Supply.release, List.mem_cons, not_or]
    constructor
    · intro hmem
      have hboth := hheld.1 (.inr hmem)
      exact ⟨hboth.1, fun heq => hnot (heq ▸ hmem), hboth.2⟩
    · rintro ⟨hopened, hne, hreleased⟩
      exact (hheld.2 ⟨hopened, hreleased⟩).resolve_left hne
  · rcases List.mem_cons.1 hmem with rfl | hmem
    · exact hlive.1
    · exact howns.released_opened other hmem

/-- A handle to nothing is given back for free. -/
theorem releaseOption {handle : Option (Handle ω)} (howns : Owns supply (handle.toList ++ held)) :
    Owns (supply.release handle) held := by
  cases handle with
  | none => exact howns
  | some handle => exact howns.release

/-- Everything on a list is given back, one after the other. -/
theorem releaseAll {handles : List (Option (Handle ω))}
    (howns : Owns supply (handles.filterMap id ++ held)) :
    Owns (handles.foldl Supply.release supply) held := by
  induction handles generalizing supply with
  | nil => exact howns
  | cons handle handles ih =>
      apply ih
      apply releaseOption
      cases handle with
      | none => exact howns
      | some handle => exact howns

end Owns

end Ownership
