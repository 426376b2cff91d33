import Mathlib.Data.List.Basic
import Mathlib.Data.List.Infix
import Mathlib.Tactic.Common

/-!
# Records linked backwards

Many lists kept in one growing row: every record has the position of the one before it in its list,
and a list is known by the position of its newest record. A loop follows the links until it meets
the position that stands for none.
-/

namespace Backlinks

variable {R : Type} {link : R → Nat} {stop : Nat}

/-- The records a loop meets that starts at `position` and goes on at the link of each, in at
most `rounds` rounds. -/
def follow (get : Nat → Option R) (link : R → Nat) (stop : Nat) : Nat → Nat → List R
  | 0, _ => []
  | rounds + 1, position =>
      if position = stop then []
      else
        match get position with
        | none => []
        | some record => record :: follow get link stop rounds (link record)

/-- The links from `position` on go back through `records` and end. -/
inductive Trail (get : Nat → Option R) (link : R → Nat) (stop : Nat) : Nat → List R → Prop
  | done : Trail get link stop stop []
  | step {position : Nat} {record : R} {records : List R} : position ≠ stop →
      get position = some record → (link record ≠ stop → link record < position) →
      Trail get link stop (link record) records → Trail get link stop position (record :: records)

theorem follow_stop {get : Nat → Option R} (rounds : Nat) :
    follow get link stop rounds stop = [] := by
  cases rounds with
  | zero => rfl
  | succ rounds => rw [follow, if_pos rfl]

theorem follow_step {get : Nat → Option R} {rounds position : Nat} {record : R}
    (hne : position ≠ stop) (hget : get position = some record) :
    follow get link stop (rounds + 1) position =
      record :: follow get link stop rounds (link record) := by
  rw [follow, if_neg hne, hget]

/-- In a row that has grown a loop meets at least what it met before. -/
theorem follow_prefix {get later : Nat → Option R}
    (hlater : ∀ position record, get position = some record → later position = some record)
    {rounds more : Nat} (hle : rounds ≤ more) (position : Nat) :
    follow get link stop rounds position <+: follow later link stop more position := by
  induction rounds generalizing more position with
  | zero => exact List.nil_prefix
  | succ rounds ih =>
      obtain ⟨more, rfl⟩ : ∃ fewer, more = fewer + 1 := ⟨more - 1, by omega⟩
      by_cases hstop : position = stop
      · rw [hstop, follow_stop]
        exact List.nil_prefix
      · rcases hget : get position with _ | record
        · rw [follow, if_neg hstop, hget]
          exact List.nil_prefix
        · rw [follow_step hstop hget, follow_step hstop (hlater _ _ hget)]
          exact List.cons_prefix_cons.2 ⟨rfl, ih (Nat.le_of_succ_le_succ hle) _⟩

namespace Trail

variable {get later : Nat → Option R} {position : Nat} {records : List R}

theorem mono (htrail : Trail get link stop position records)
    (hlater : ∀ position record, get position = some record → later position = some record) :
    Trail later link stop position records := by
  induction htrail with
  | done => exact .done
  | step hne hget hback _ ih => exact .step hne (hlater _ _ hget) hback ih

/-- Links go back, so a loop that may make more rounds than its start has positions below
meets the whole list. -/
theorem follow_eq (htrail : Trail get link stop position records) {rounds : Nat}
    (hrounds : position ≠ stop → position < rounds) :
    follow get link stop rounds position = records := by
  induction htrail generalizing rounds with
  | done => exact follow_stop rounds
  | @step position record records hne hget hback _ ih =>
      obtain ⟨fewer, rfl⟩ : ∃ fewer, rounds = fewer + 1 :=
        ⟨rounds - 1, by have := hrounds hne; omega⟩
      rw [follow_step hne hget, ih fun hlink => by have := hback hlink; have := hrounds hne; omega]

end Trail

end Backlinks
