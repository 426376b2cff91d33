import GradidoBlockchain.Arnm.Interface
import GradidoBlockchain.Arnm.Bvec

/-!
# Entries found by key

A map from keys to dense ids and a vector with an entry at each id. The indices keep their
addresses, their coin communities and the address register in this shape, and open an entry on first
sight of its key. Ids are handed out before the entry they name exists, so after a refusal the
vector may be shorter than the map.
-/

namespace GradidoBlockchain

open Fallible Fallible.Call

variable {A : Arnm} {size : Nat} {V : Type}

structure Keyed (A : Arnm) (size : Nat) (V : Type) where
  keys : A.KeyMap size
  entries : Bvec V

namespace Keyed

def empty : Keyed A size V := ⟨A.noKeys, .empty⟩

/-- The entry of a key, as the readers of an index find it: an id without an entry counts as no
id. -/
def lookup (table : Keyed A size V) (key : Bytes size) : Option V :=
  (A.find table.keys key).bind table.entries.get?

/-- The entry of a key, blank before the key is seen. -/
def read (blank : V) (table : Keyed A size V) (key : Bytes size) : V :=
  (table.lookup key).getD blank

def putKeys (keys : A.KeyMap size) (table : Keyed A size V) : Keyed A size V := { table with keys }

def putEntries (entries : Bvec V) (table : Keyed A size V) : Keyed A size V :=
  { table with entries }

/-- `arnm_key_map_get_or_insert`. -/
def getOrInsert (key : Bytes size) : Call ArnmResult (Keyed A size V) Nat :=
  growWith .outOfMemory fun table =>
    ((A.getOrInsert table.keys key).2, table.putKeys (A.getOrInsert table.keys key).1)

/-- What `sets_for_key`, `coin_set_for_uuid` and `entry_for_key` have in common: the id of a key,
its entry opened on first sight. -/
def slotForKey (blank : V) (key : Bytes size) : Call ArnmResult (Keyed A size V) Nat := do
  let id ← getOrInsert key
  within entries putEntries (Bvec.growPast blank id)
  pure id

/-- A write through the pointer to an entry. -/
def modify (id : Nat) (change : V → V) (table : Keyed A size V) : Keyed A size V :=
  { table with entries := table.entries.modify id change }

/-- No entry stands at an id the map has not handed out. -/
def Dense (table : Keyed A size V) : Prop := table.entries.size ≤ A.keyCount table.keys

/-- `later` still has every key and every entry of `table`. -/
structure Extends (table later : Keyed A size V) : Prop where
  find : ∀ key id, A.find table.keys key = some id → A.find later.keys key = some id
  entry : ∀ id slot, table.entries.get? id = some slot → later.entries.get? id = some slot

theorem empty_dense : (empty : Keyed A size V).Dense := Nat.zero_le _

@[simp] theorem lookup_empty (key : Bytes size) : (empty : Keyed A size V).lookup key = none := by
  rw [lookup, empty, A.find_noKeys]
  rfl

@[simp] theorem read_empty (blank : V) (key : Bytes size) :
    (empty : Keyed A size V).read blank key = blank := by
  rw [read, lookup_empty]
  rfl

theorem lookup_eq_some {table : Keyed A size V} {key : Bytes size} {slot : V} :
    table.lookup key = some slot ↔
      ∃ id, A.find table.keys key = some id ∧ table.entries.get? id = some slot := by
  rw [lookup, Option.bind_eq_some_iff]

theorem read_of_lookup {table : Keyed A size V} {key : Bytes size} {slot : V} (blank : V)
    (hlookup : table.lookup key = some slot) : table.read blank key = slot := by
  rw [read, hlookup]
  rfl

/-! ### Growing -/

namespace Extends

theorem refl (table : Keyed A size V) : Extends table table := ⟨fun _ _ h => h, fun _ _ h => h⟩

theorem trans {table middle later : Keyed A size V} (hfirst : Extends table middle)
    (hsecond : Extends middle later) : Extends table later :=
  ⟨fun key id h => hsecond.find key id (hfirst.find key id h),
    fun id slot h => hsecond.entry id slot (hfirst.entry id slot h)⟩

end Extends

private theorem extends_putKeys (table : Keyed A size V) (key : Bytes size) :
    Extends table (table.putKeys (A.getOrInsert table.keys key).1) := by
  refine ⟨fun other id hfind => ?_, fun _ _ h => h⟩
  by_cases heq : other = key
  · subst heq
    change A.find (A.getOrInsert table.keys other).1 other = some id
    rw [A.getOrInsert_known _ _ _ hfind, hfind]
  · exact (A.find_getOrInsert_other _ heq).trans hfind

private theorem extends_append (table : Keyed A size V) (more : List V) :
    Extends table (table.putEntries (table.entries.append more)) := by
  refine ⟨fun _ _ h => h, fun id slot hget => ?_⟩
  exact (Bvec.get?_append_left (Bvec.get?_eq_some_lt hget)).trans hget

/-- Whether it succeeds or not, opening an entry takes nothing away. -/
theorem slotForKey_extends (blank : V) (key : Bytes size) (table : Keyed A size V) (room : Room) :
    Extends table (slotForKey blank key table room).2.1 := by
  have hkeeps : Keeps (Extends table) (slotForKey (A := A) blank key) :=
    .bind ?_ fun id => .bind ?_ fun _ => .pure id
  · exact hkeeps table room (.refl table)
  · exact .growWith fun middle hmiddle => hmiddle.trans (extends_putKeys middle key)
  · intro middle room hmiddle
    rw [within_run]
    have hgrow :
        Keeps (fun vec => Extends table (middle.putEntries vec)) (Bvec.growPast blank id) :=
      Bvec.growPast_keeps id fun vec count hvec =>
        hvec.trans (extends_append (middle.putEntries vec) _)
    exact hgrow middle.entries room hmiddle

/-- What a call that opened an entry leaves: the key has its id and its entry, and every
key reads as before. -/
structure Opened (blank : V) (key : Bytes size) (table : Keyed A size V) (id : Nat)
    (later : Keyed A size V) : Prop where
  dense : later.Dense
  find : A.find later.keys key = some id
  entry : later.entries.get? id = some (table.read blank key)
  read : ∀ other, later.read blank other = table.read blank other

theorem read_append_blank {blank : V} {table : Keyed A size V} {count : Nat} (other : Bytes size) :
    (table.putEntries (table.entries.append (List.replicate count blank))).read blank other =
      table.read blank other := by
  simp only [Keyed.read, lookup, putEntries]
  rcases A.find table.keys other with _ | id
  · rfl
  · simp only [Option.bind_some]
    by_cases hlt : id < table.entries.size
    · rw [Bvec.get?_append_left hlt]
    · have hnone : table.entries.get? id = none := Bvec.get?_eq_none (by omega)
      rw [hnone, Bvec.get?, Bvec.append,
        List.getElem?_append_right (by rw [Bvec.size] at hlt; omega), List.take_replicate,
        List.getElem?_replicate]
      split <;> rfl

theorem read_putKeys {blank : V} {table : Keyed A size V} (hdense : table.Dense)
    (key other : Bytes size) :
    (table.putKeys (A.getOrInsert table.keys key).1).read blank other = table.read blank other := by
  by_cases heq : other = key
  · subst heq
    rcases hfind : A.find table.keys other with _ | id
    · have hnew := A.getOrInsert_new _ _ hfind
      simp only [Keyed.read, lookup, putKeys, hnew.2.2, hfind, if_pos, Option.bind_some,
        Option.bind_none]
      rw [Bvec.get?_eq_none hdense]
    · simp only [Keyed.read, lookup, putKeys, A.getOrInsert_known _ _ _ hfind]
  · simp only [Keyed.read, lookup, putKeys, A.find_getOrInsert_other _ heq]

theorem slotForKey_ok {blank : V} {key : Bytes size} {table later : Keyed A size V} {id : Nat}
    {room rest : Room} (hrun : slotForKey blank key table room = (.ok id, later, rest))
    (hdense : table.Dense) : Opened blank key table id later := by
  obtain ⟨found, middle, between, hinsert, hrun⟩ := bind_ok.1 hrun
  obtain ⟨_, last, after, hgrow, hpure⟩ := bind_ok.1 hrun
  obtain ⟨rfl, rfl, -⟩ := pure_ok.1 hpure
  have hkeys := growWith_ok hinsert
  simp only [Prod.mk.injEq] at hkeys
  obtain ⟨rfl, rfl⟩ := hkeys
  obtain ⟨vec, hvec, rfl⟩ := within_ok.1 hgrow
  obtain ⟨hlt, rfl⟩ := Bvec.growPast_ok hvec
  have hfind := A.find_getOrInsert table.keys key
  have hread : ∀ other, ((table.putKeys (A.getOrInsert table.keys key).1).putEntries
        (table.entries.append
          (List.replicate ((A.getOrInsert table.keys key).2 + 1 - table.entries.size) blank))).read
        blank other = table.read blank other :=
    fun other => Eq.trans (read_append_blank other) (read_putKeys hdense key other)
  refine ⟨?_, hfind, ?_, hread⟩
  · -- The vector ends at the id just asked for, or where it ended before.
    have hid := A.find_lt _ _ _ hfind
    have hcount := A.keyCount_le_getOrInsert table.keys key
    have hlength : (table.entries.append
        (List.replicate ((A.getOrInsert table.keys key).2 + 1 - table.entries.size) blank)).size ≤
          table.entries.size + ((A.getOrInsert table.keys key).2 + 1 - table.entries.size) := by
      simp only [Bvec.size, Bvec.append, List.length_append, List.length_take,
        List.length_replicate]
      omega
    have hbefore : table.entries.size ≤ A.keyCount table.keys := hdense
    change (table.entries.append
        (List.replicate ((A.getOrInsert table.keys key).2 + 1 - table.entries.size) blank)).size ≤
      A.keyCount (A.getOrInsert table.keys key).1
    omega
  · obtain ⟨slot, hslot⟩ := Bvec.get?_isSome hlt
    have hkey := hread key
    rw [Keyed.read, lookup_eq_some.2 ⟨_, hfind, hslot⟩, Option.getD_some] at hkey
    rw [← hkey]
    exact hslot

/-! ### Writing -/

@[simp] theorem modify_keys (id : Nat) (change : V → V) (table : Keyed A size V) :
    (table.modify id change).keys = table.keys := rfl

theorem modify_dense {id : Nat} {change : V → V} {table : Keyed A size V} (hdense : table.Dense) :
    (table.modify id change).Dense := by
  change (table.entries.modify id change).size ≤ _
  rw [Bvec.size_modify]
  exact hdense

theorem lookup_modify {id : Nat} {change : V → V} {table : Keyed A size V} {key : Bytes size}
    {slot : V} (hlookup : table.lookup key = some slot) :
    (table.modify id change).lookup key =
      some (if A.find table.keys key = some id then change slot else slot) := by
  obtain ⟨found, hfind, hget⟩ := lookup_eq_some.1 hlookup
  refine lookup_eq_some.2 ⟨found, hfind, ?_⟩
  change (table.entries.modify id change).get? found = _
  rw [Bvec.get?_modify, hget, hfind]
  by_cases heq : id = found
  · simp [heq]
  · rw [if_neg heq, if_neg (fun h => heq (Option.some.inj h).symm)]

theorem lookup_modify_eq_none {id : Nat} {change : V → V} {table : Keyed A size V}
    {key : Bytes size} (hlookup : table.lookup key = none) :
    (table.modify id change).lookup key = none := by
  rw [lookup] at hlookup ⊢
  rw [modify_keys]
  rcases hfind : A.find table.keys key with _ | found
  · rfl
  · rw [hfind, Option.bind_some] at hlookup
    change (table.entries.modify id change).get? found = none
    rw [Bvec.get?_modify, hlookup]
    split <;> rfl

/-- A write to the entry of `key` is seen under that key alone. -/
theorem read_modify {blank : V} {id : Nat} {change : V → V} {table : Keyed A size V}
    {key : Bytes size} (hfind : A.find table.keys key = some id) (hlt : id < table.entries.size)
    (other : Bytes size) :
    (table.modify id change).read blank other =
      if other = key then change (table.read blank key) else table.read blank other := by
  by_cases heq : other = key
  · subst heq
    obtain ⟨slot, hslot⟩ := Bvec.get?_isSome hlt
    have hlookup : table.lookup other = some slot := lookup_eq_some.2 ⟨id, hfind, hslot⟩
    rw [if_pos rfl, read_of_lookup blank hlookup, read, lookup_modify hlookup, if_pos hfind,
      Option.getD_some]
  · rw [if_neg heq]
    rcases hlookup : table.lookup other with _ | slot
    · rw [read, lookup_modify_eq_none hlookup, read, hlookup]
    · rw [read, lookup_modify hlookup,
        if_neg (fun hother => heq (A.find_injective _ _ _ _ hother hfind)), read, hlookup]

/-- Opened and then written, the entry of a key is what the write makes of it, and no other
entry has changed. -/
theorem Opened.read_modify {blank : V} {key : Bytes size} {table opened : Keyed A size V} {id : Nat}
    (hopened : Opened blank key table id opened) (change : V → V) (other : Bytes size) :
    (opened.modify id change).read blank other =
      if other = key then change (table.read blank key) else table.read blank other := by
  rw [Keyed.read_modify hopened.find (Bvec.get?_eq_some_lt hopened.entry), hopened.read,
    hopened.read]

theorem modify_eq_self {id : Nat} {change : V → V} {table : Keyed A size V} {slot : V}
    (hget : table.entries.get? id = some slot) (hsame : change slot = slot) :
    table.modify id change = table := by
  rw [modify, Bvec.modify_eq_self hget hsame]

/-! ### Carrying entries on -/

/-- Every key and every entry of `table` is still there in `later`, the entry
related to what it was. -/
structure Carries (rel : V → V → Prop) (table later : Keyed A size V) : Prop where
  find : ∀ key id, A.find table.keys key = some id → A.find later.keys key = some id
  entry : ∀ id slot, table.entries.get? id = some slot →
    ∃ other, later.entries.get? id = some other ∧ rel slot other

namespace Carries

variable {rel : V → V → Prop} {start table later : Keyed A size V}

theorem refl (hrel : ∀ slot, rel slot slot) (table : Keyed A size V) : Carries rel table table :=
  ⟨fun _ _ h => h, fun _ slot h => ⟨slot, h, hrel slot⟩⟩

theorem onward (hcarries : Carries rel start table)
    (hextends : Extends table later) : Carries rel start later := by
  refine ⟨fun key id h => hextends.find key id (hcarries.find key id h), fun id slot h => ?_⟩
  obtain ⟨other, hother, hrel⟩ := hcarries.entry id slot h
  exact ⟨other, hextends.entry id other hother, hrel⟩

theorem modify {id : Nat} {change : V → V} (hcarries : Carries rel start table)
    (hchange : ∀ slot other, rel slot other → rel slot (change other)) :
    Carries rel start (table.modify id change) := by
  refine ⟨hcarries.find, fun position slot h => ?_⟩
  obtain ⟨other, hother, hrel⟩ := hcarries.entry position slot h
  change ∃ next, (table.entries.modify id change).get? position = some next ∧ rel slot next
  rw [Bvec.get?_modify, hother]
  by_cases heq : id = position
  · exact ⟨change other, by rw [if_pos heq]; rfl, hchange slot other hrel⟩
  · exact ⟨other, if_neg heq, hrel⟩

end Carries

/-! ### Opening again -/

/-- The entry of a key is open at `id`. -/
def OpenAt (key : Bytes size) (id : Nat) (table : Keyed A size V) : Prop :=
  A.find table.keys key = some id ∧ id < table.entries.size

theorem OpenAt.lookup {key : Bytes size} {id : Nat} {table : Keyed A size V}
    (hopen : table.OpenAt key id) :
    ∃ slot, table.entries.get? id = some slot ∧ table.lookup key = some slot := by
  obtain ⟨slot, hslot⟩ := Bvec.get?_isSome hopen.2
  exact ⟨slot, hslot, lookup_eq_some.2 ⟨id, hopen.1, hslot⟩⟩

theorem OpenAt.carried {rel : V → V → Prop} {key : Bytes size} {id : Nat}
    {table later : Keyed A size V} (hopen : table.OpenAt key id)
    (hcarries : Carries rel table later) : later.OpenAt key id := by
  obtain ⟨slot, hslot, -⟩ := hopen.lookup
  obtain ⟨other, hother, -⟩ := hcarries.entry id slot hslot
  exact ⟨hcarries.find key id hopen.1, Bvec.get?_eq_some_lt hother⟩

theorem OpenAt.modify {key : Bytes size} {id other : Nat} {change : V → V} {table : Keyed A size V}
    (hopen : table.OpenAt key id) : (table.modify other change).OpenAt key id := by
  refine ⟨hopen.1, ?_⟩
  change id < (table.entries.modify other change).size
  rw [Bvec.size_modify]
  exact hopen.2

theorem slotForKey_failsOnly (blank : V) (key : Bytes size) :
    FailsOnly .outOfMemory (slotForKey (A := A) blank key) :=
  .bind (.growWith _) fun id => .bind (.within (Bvec.growPast_failsOnly blank id)) fun _ => .pure id

theorem slotForKey_retryable (blank : V) (key : Bytes size) :
    Retryable (fun _ => True) ArnmResult.outOfMemory (slotForKey (A := A) blank key)
      (fun id => OpenAt key id) := by
  have hinsert : Retryable (fun _ => True) ArnmResult.outOfMemory
      (getOrInsert (A := A) (V := V) key) (fun id table => A.find table.keys key = some id) := by
    refine .growWith (fun _ h => h) (fun table _ => A.find_getOrInsert table.keys key) ?_
    intro table id _ hfind
    rw [A.getOrInsert_known _ _ _ hfind]
    rfl
  have hgrow : ∀ id, Retryable (fun table => True ∧ A.find table.keys key = some id) ArnmResult.outOfMemory
      (do within entries putEntries (Bvec.growPast blank id); pure id : Call ArnmResult (Keyed A size V) Nat)
      (fun result table => result = id ∧ id < table.entries.size) := by
    intro id
    have hvec : Retryable (fun _ => True) ArnmResult.outOfMemory (Bvec.growPast blank id)
        (fun _ vec => id < vec.size) := Bvec.growPast_retryable id fun _ _ h => h
    have hwithin : Retryable (fun _ => True) ArnmResult.outOfMemory
        (within entries putEntries (Bvec.growPast blank id) : Call ArnmResult (Keyed A size V) Unit)
        (fun _ table => id < table.entries.size) :=
      .within entries putEntries (fun _ _ => rfl) (fun _ => rfl) (fun _ _ _ => rfl) hvec
    have hunder : Retryable (fun table => True ∧ A.find table.keys key = some id)
        ArnmResult.outOfMemory
        (within entries putEntries (Bvec.growPast blank id) : Call ArnmResult (Keyed A size V) Unit)
        (fun _ table => id < table.entries.size) :=
      hwithin.under fun table room hinv => ⟨trivial, by rw [within_run]; exact hinv.2⟩
    exact (hunder.bind fun _ => .pure id).settling
      (fun _ _ _ h => ⟨h.choose_spec.2, h.choose_spec.1⟩) (fun _ _ _ h => ⟨(), h.2, h.1⟩)
  refine (hinsert.bind hgrow).settling ?_ ?_
  · rintro id table - ⟨found, hfind, rfl, hlt⟩
    exact ⟨hfind, hlt⟩
  · rintro id table - ⟨hfind, hlt⟩
    exact ⟨id, hfind, rfl, hlt⟩

end Keyed

end GradidoBlockchain
