import GradidoBlockchain.Arnm.Clearing

/-!
# Tables whose entries all have a key

Ids are handed out to keys one after the other, so that every entry of a table is that of a key,
also after a refusal has left some keys without one. What is said of the entry of every key is then
said of every entry.
-/

namespace GradidoBlockchain

open Fallible Fallible.Call

variable {A : Arnm} {size : Nat} {V : Type}

namespace Keyed

/-- Every id that has been handed out is that of a key, and every entry stands at one. -/
structure Whole (table : Keyed A size V) : Prop where
  dense : table.Dense
  owned : ∀ id < A.keyCount table.keys, ∃ key, A.find table.keys key = some id

theorem empty_whole : (empty : Keyed A size V).Whole where
  dense := empty_dense
  owned := by
    intro id hlt
    rw [empty, A.keyCount_noKeys] at hlt
    exact absurd hlt (Nat.not_lt_zero id)

theorem clear_whole (C : Clearing A) (table : Keyed A size V) : (table.clear C).Whole where
  dense := Nat.zero_le _
  owned := by
    intro id hlt
    rw [clear, C.keyCount_clear] at hlt
    exact absurd hlt (Nat.not_lt_zero id)

theorem Whole.modify {table : Keyed A size V} (hwhole : table.Whole) (id : Nat) (change : V → V) :
    (table.modify id change).Whole :=
  ⟨modify_dense hwhole.dense, hwhole.owned⟩

/-- An entry is what some key reads. -/
theorem Whole.exists_read {table : Keyed A size V} (hwhole : table.Whole) (blank : V) {id : Nat}
    {slot : V} (hget : table.entries.get? id = some slot) :
    ∃ key, A.find table.keys key = some id ∧ table.read blank key = slot := by
  have hlt : id < A.keyCount table.keys :=
    Nat.lt_of_lt_of_le (Bvec.get?_eq_some_lt hget) hwhole.dense
  obtain ⟨key, hfind⟩ := hwhole.owned id hlt
  exact ⟨key, hfind, read_of_lookup blank (lookup_eq_some.2 ⟨id, hfind, hget⟩)⟩

/-- What a key reads is blank or an entry. -/
theorem read_cases (blank : V) (table : Keyed A size V) (key : Bytes size) :
    table.read blank key = blank ∨ ∃ id, table.entries.get? id = some (table.read blank key) := by
  rcases hlookup : table.lookup key with _ | slot
  · rw [read, hlookup]
    exact .inl rfl
  · obtain ⟨id, -, hget⟩ := lookup_eq_some.1 hlookup
    rw [read_of_lookup blank hlookup]
    exact .inr ⟨id, hget⟩

/-- A new key owns the id it has been given. -/
theorem Whole.putKeys {table : Keyed A size V} (hwhole : table.Whole) (key : Bytes size) :
    (table.putKeys (A.getOrInsert table.keys key).1).Whole := by
  have hcount := A.keyCount_le_getOrInsert table.keys key
  refine ⟨Nat.le_trans hwhole.dense hcount, fun id hlt => ?_⟩
  rcases hfind : A.find table.keys key with _ | known
  · obtain ⟨-, hnext, hall⟩ := A.getOrInsert_new _ _ hfind
    change id < A.keyCount (A.getOrInsert table.keys key).1 at hlt
    by_cases hnew : id = A.keyCount table.keys
    · refine ⟨key, ?_⟩
      change A.find (A.getOrInsert table.keys key).1 key = some id
      rw [hall, if_pos rfl, hnew]
    · obtain ⟨other, hother⟩ := hwhole.owned id (by omega)
      refine ⟨other, ?_⟩
      change A.find (A.getOrInsert table.keys key).1 other = some id
      rw [hall, if_neg, hother]
      intro heq
      rw [heq, hfind] at hother
      cases hother
  · rw [A.getOrInsert_known _ _ _ hfind] at hlt ⊢
    exact hwhole.owned id hlt

/-- A table that reads as another one does. -/
def ReadsAs (blank : V) (start table : Keyed A size V) : Prop :=
  table.Whole ∧ ∀ key, table.read blank key = start.read blank key

/-- Opening an entry is seen by no reader, whether it succeeds or not. -/
theorem slotForKey_readsAs (blank : V) (key : Bytes size) (start : Keyed A size V) :
    Keeps (ReadsAs blank start) (slotForKey blank key) := by
  intro table room hreads
  obtain ⟨hwhole, hread⟩ := hreads
  have hinserted : ReadsAs blank start (table.putKeys (A.getOrInsert table.keys key).1) :=
    ⟨hwhole.putKeys key, fun other => (read_putKeys hwhole.dense key other).trans (hread other)⟩
  rcases hinsert : getOrInsert key table room with ⟨code | id, middle, between⟩
  · rw [slotForKey, bind_run_error hinsert, (growWith_error hinsert).2]
    exact ⟨hwhole, hread⟩
  · have hkeys := growWith_ok hinsert
    rw [Prod.mk.injEq] at hkeys
    obtain ⟨rfl, rfl⟩ := hkeys
    obtain ⟨made, hmade, hleft⟩ :=
      Bvec.growPast_made blank (A.getOrInsert table.keys key).2 table.entries between
    have hid := A.find_lt _ _ _ (A.find_getOrInsert table.keys key)
    have hgrown : ReadsAs blank start ((table.putKeys (A.getOrInsert table.keys key).1).putEntries
        (table.entries.append (List.replicate made blank))) := by
      refine ⟨⟨?_, hinserted.1.owned⟩,
        fun other => Eq.trans (read_append_blank other) (hinserted.2 other)⟩
      have hsize : (table.entries.append (List.replicate made blank)).size ≤
          table.entries.size + made := by
        simp only [Bvec.size, Bvec.append, List.length_append, List.length_take,
          List.length_replicate]
        omega
      have hdense : table.entries.size ≤ A.keyCount (A.getOrInsert table.keys key).1 :=
        hinserted.1.dense
      change (table.entries.append (List.replicate made blank)).size ≤
        A.keyCount (A.getOrInsert table.keys key).1
      omega
    rw [slotForKey, bind_run_ok hinsert]
    rcases hgrow : within entries putEntries (Bvec.growPast blank (A.getOrInsert table.keys key).2)
      (table.putKeys (A.getOrInsert table.keys key).1) between with ⟨code | _, last, after⟩
    · obtain ⟨inner, hinner, rfl⟩ := within_error.1 hgrow
      change Bvec.growPast blank (A.getOrInsert table.keys key).2 table.entries between =
        _ at hinner
      rw [hinner] at hleft
      rw [bind_run_error hgrow, show inner = _ from hleft]
      exact hgrown
    · obtain ⟨inner, hinner, rfl⟩ := within_ok.1 hgrow
      change Bvec.growPast blank (A.getOrInsert table.keys key).2 table.entries between =
        _ at hinner
      rw [hinner] at hleft
      rw [bind_run_ok hgrow, pure_run, show inner = _ from hleft]
      exact hgrown

end Keyed

end GradidoBlockchain
