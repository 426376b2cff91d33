import GradidoBlockchain.Arnm.Interface
import Mathlib.Data.List.Nodup

/-!
# Containers to run the model with

The plainest containers that obey the laws: a set is the list of its numbers, a map the list of its
keys in the order of their ids.
-/

namespace GradidoBlockchain

namespace Reference

def add (set : List Nat) (value : Nat) : List Nat := if value ∈ set then set else value :: set

def contains (set : List Nat) (value : Nat) : Bool := decide (value ∈ set)

def queryListing (query : RoaringQuery (List Nat)) (skip size : Nat)
    (descending : Bool) : List Nat × Nat :=
  (Page.page skip size (Page.oriented descending (query.answers contains)),
    (query.answers contains).length)

/-- Every key once, at the place of its id. -/
abbrev KeyMap (size : Nat) : Type := {keys : List (Bytes size) // keys.Nodup}

variable {size : Nat}

def find (keys : KeyMap size) (key : Bytes size) : Option Nat :=
  if key ∈ keys.val then some (keys.val.idxOf key) else none

private theorem nodup_append {keys : KeyMap size} {key : Bytes size} (hnew : key ∉ keys.val) :
    (keys.val ++ [key]).Nodup :=
  List.Nodup.append keys.property (List.nodup_singleton key) (by simpa using hnew)

def getOrInsert (keys : KeyMap size) (key : Bytes size) : KeyMap size × Nat :=
  if hmem : key ∈ keys.val then (keys, keys.val.idxOf key)
  else (⟨keys.val ++ [key], nodup_append hmem⟩, keys.val.length)

theorem contains_add (set : List Nat) (value other : Nat) :
    contains (add set value) other = (decide (other = value) || contains set other) := by
  by_cases hmem : value ∈ set
  · rw [add, if_pos hmem]
    by_cases heq : other = value
    · simp [contains, heq, hmem]
    · simp [heq]
  · simp [add, contains, hmem]

theorem find_lt (keys : KeyMap size) (key : Bytes size) (id : Nat)
    (hfind : find keys key = some id) : id < keys.val.length := by
  rw [find] at hfind
  split at hfind
  · rw [← Option.some.inj hfind]
    exact List.idxOf_lt_length_of_mem ‹_›
  · cases hfind

theorem find_injective (keys : KeyMap size) (key other : Bytes size) (id : Nat)
    (hkey : find keys key = some id) (hother : find keys other = some id) : key = other := by
  rw [find] at hkey hother
  by_cases hmem : key ∈ keys.val
  · by_cases hmemOther : other ∈ keys.val
    · rw [if_pos hmem] at hkey
      rw [if_pos hmemOther, ← hkey] at hother
      exact ((List.idxOf_inj hmemOther).1 (Option.some.inj hother)).symm
    · rw [if_neg hmemOther] at hother
      cases hother
  · rw [if_neg hmem] at hkey
    cases hkey

theorem getOrInsert_known (keys : KeyMap size) (key : Bytes size) (id : Nat)
    (hfind : find keys key = some id) : getOrInsert keys key = (keys, id) := by
  rw [find] at hfind
  split at hfind
  · rw [getOrInsert, dif_pos ‹_›, Option.some.inj hfind]
  · cases hfind

theorem getOrInsert_new (keys : KeyMap size) (key : Bytes size) (hfind : find keys key = none) :
    (getOrInsert keys key).2 = keys.val.length ∧
      (getOrInsert keys key).1.val.length = keys.val.length + 1 ∧
      ∀ other, find (getOrInsert keys key).1 other =
        if other = key then some keys.val.length else find keys other := by
  have hnew : key ∉ keys.val := by
    intro hmem
    rw [find, if_pos hmem] at hfind
    cases hfind
  have hinsert : (getOrInsert keys key).1.val = keys.val ++ [key] := by
    rw [getOrInsert, dif_neg hnew]
  refine ⟨by rw [getOrInsert, dif_neg hnew], by rw [hinsert]; simp, fun other => ?_⟩
  rw [find, hinsert]
  by_cases heq : other = key
  · subst heq
    rw [if_pos (by simp), if_pos rfl, List.idxOf_append_of_notMem hnew]
    simp
  · rw [if_neg heq, find]
    by_cases hmem : other ∈ keys.val
    · rw [if_pos (by simp [hmem]), if_pos hmem, List.idxOf_append_of_mem hmem]
    · rw [if_neg (by simp [hmem, heq]), if_neg hmem]

end Reference

/-- The reference choice of containers. -/
def Arnm.reference : Arnm where
  Bitmap := List Nat
  blank := []
  add := Reference.add
  contains := Reference.contains
  maximum := List.max?
  queryCardinality := fun query => .ok (query.answers Reference.contains).length
  queryListing :=
    fun query skip size descending => .ok (Reference.queryListing query skip size descending)
  queryPage :=
    fun query skip size descending => .ok (Reference.queryListing query skip size descending).1
  KeyMap := Reference.KeyMap
  noKeys := ⟨[], List.nodup_nil⟩
  find := Reference.find
  getOrInsert := Reference.getOrInsert
  keyCount := fun keys => keys.val.length
  contains_blank := fun _ => rfl
  contains_add := Reference.contains_add
  add_of_contains :=
    fun set value hmem => by rw [Reference.add, if_pos (by simpa [Reference.contains] using hmem)]
  maximum_eq_some := fun set value => by
    rw [List.max?_eq_some_iff]
    simp [Reference.contains]
  queryCardinality_eq := fun _ _ => rfl
  queryListing_eq := fun _ _ _ _ _ => rfl
  queryPage_eq := fun _ _ _ _ _ => rfl
  keyCount_noKeys := fun _ => rfl
  find_lt := Reference.find_lt
  find_injective := Reference.find_injective
  getOrInsert_known := Reference.getOrInsert_known
  getOrInsert_new := Reference.getOrInsert_new

end GradidoBlockchain
