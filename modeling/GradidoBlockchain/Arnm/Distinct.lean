import GradidoBlockchain.Arnm.Whole
import Mathlib.Data.Finset.Card

/-!
# How many keys a table has

A map counts the ids it has handed out. No key has two of them and no id is left without a key, so
the count is that of the distinct keys the map has been asked for.
-/

namespace GradidoBlockchain

open Fallible Fallible.Call

variable {A : Arnm} {size : Nat} {V : Type}

namespace Keyed

/-- The key has an id, whether its entry has been opened or not. -/
def Known (key : Bytes size) (table : Keyed A size V) : Prop :=
  ∃ id, A.find table.keys key = some id

theorem OpenAt.known {key : Bytes size} {id : Nat} {table : Keyed A size V}
    (hopen : table.OpenAt key id) : table.Known key :=
  ⟨id, hopen.1⟩

theorem Known.of_lookup {key : Bytes size} {table : Keyed A size V}
    (hsome : (table.lookup key).isSome) : table.Known key := by
  obtain ⟨slot, hslot⟩ := Option.isSome_iff_exists.1 hsome
  obtain ⟨id, hfind, -⟩ := lookup_eq_some.1 hslot
  exact ⟨id, hfind⟩

theorem not_known_empty (key : Bytes size) : ¬(empty : Keyed A size V).Known key := by
  intro hknown
  obtain ⟨id, hfind⟩ := hknown
  rw [empty, A.find_noKeys] at hfind
  cases hfind

theorem not_known_clear (C : Clearing A) (table : Keyed A size V) (key : Bytes size) :
    ¬(table.clear C).Known key := by
  intro hknown
  obtain ⟨id, hfind⟩ := hknown
  rw [clear, C.find_clear] at hfind
  cases hfind

/-! ### Counting -/

/-- The id of a key, 0 for a key that has none. -/
private def idOf (table : Keyed A size V) (key : Bytes size) : Nat := (A.find table.keys key).getD 0

/-- No two keys share an id, so there are at least as many ids as known keys. -/
theorem card_le_keyCount {keys : Finset (Bytes size)} {table : Keyed A size V}
    (hknown : ∀ key ∈ keys, table.Known key) : keys.card ≤ A.keyCount table.keys := by
  rw [← Finset.card_range (A.keyCount table.keys)]
  apply Finset.card_le_card_of_injOn (idOf table)
  · intro key hkey
    obtain ⟨id, hfind⟩ := hknown key hkey
    rw [idOf, hfind, Finset.coe_range]
    exact A.find_lt _ _ _ hfind
  · intro key hkey other hother hsame
    obtain ⟨id, hfind⟩ := hknown key hkey
    obtain ⟨otherId, hotherFind⟩ := hknown other hother
    rw [idOf, idOf, hfind, hotherFind] at hsame
    obtain rfl : id = otherId := hsame
    exact A.find_injective _ _ _ _ hfind hotherFind

/-- Every id has been given to a key, so there are no more ids than known keys. -/
theorem Whole.keyCount_le_card {keys : Finset (Bytes size)} {table : Keyed A size V}
    (hwhole : table.Whole) (honly : ∀ key, table.Known key → key ∈ keys) :
    A.keyCount table.keys ≤ keys.card := by
  rw [← Finset.card_range (A.keyCount table.keys)]
  apply Finset.card_le_card_of_surjOn (idOf table)
  intro id hid
  rw [Finset.coe_range] at hid
  obtain ⟨key, hfind⟩ := hwhole.owned id hid
  refine ⟨key, honly key ⟨id, hfind⟩, ?_⟩
  rw [idOf, hfind]
  rfl

/-! ### Which keys become known -/

theorem known_putKeys {key other : Bytes size} {table : Keyed A size V}
    (hknown : (table.putKeys (A.getOrInsert table.keys key).1).Known other) :
    other = key ∨ table.Known other := by
  apply or_iff_not_imp_left.2
  intro hne
  obtain ⟨id, hfind⟩ := hknown
  exact ⟨id, (A.find_getOrInsert_other table.keys hne).symm.trans hfind⟩

/-- Opening an entry makes no key known but its own, whether it succeeds or not. -/
theorem slotForKey_knownOnly {allowed : Bytes size → Prop} {key : Bytes size} (blank : V)
    (hkey : allowed key) :
    Keeps (fun table : Keyed A size V => ∀ other, table.Known other → allowed other)
      (slotForKey blank key) := by
  refine .bind (.growWith fun table honly other hknown => ?_) fun id => .bind ?_ fun _ => .pure id
  · obtain rfl | hbefore := known_putKeys hknown
    · exact hkey
    · exact honly other hbefore
  · exact fun table room honly => honly

end Keyed

end GradidoBlockchain
