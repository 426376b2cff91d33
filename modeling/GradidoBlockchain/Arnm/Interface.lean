import GradidoBlockchain.Types
import GradidoBlockchain.Lib.Page

/-!
# The containers of arnm

The indices are built on roaring bitmaps, queries over them, and maps from byte keys to dense ids.
Their code is not part of this repository, so they are a parameter: the operations the indices use,
with what the headers and the tests of this repository say of them as laws.
-/

namespace GradidoBlockchain

/-- `arnm_roaring_query`: the numbers of a span that are in every set of `all`, in some set of `any`
if there is one, and in no set of `none`. -/
structure RoaringQuery (Bitmap : Type) where
  all : List Bitmap
  any : List Bitmap
  none : List Bitmap
  min : Nat
  max : Nat

namespace RoaringQuery

variable {Bitmap : Type}

def admits (contains : Bitmap → Nat → Bool) (query : RoaringQuery Bitmap) (value : Nat) : Bool :=
  query.all.all (contains · value) && (query.any.isEmpty || query.any.any (contains · value)) &&
    !query.none.any (contains · value)

/-- What a query asks for, smallest first. -/
def answers (contains : Bitmap → Nat → Bool) (query : RoaringQuery Bitmap) : List Nat :=
  (Page.span query.min query.max).filter (query.admits contains)

end RoaringQuery

/-- A choice of arnm's containers. Adding to a set or to a map may be refused for want of room; that
is a matter of the calls that add, not of these functions. -/
structure Arnm where
  /-- `arnm_roaring_bitmap`; all zero bytes are the empty one. -/
  Bitmap : Type
  blank : Bitmap
  add : Bitmap → Nat → Bitmap
  contains : Bitmap → Nat → Bool
  maximum : Bitmap → Option Nat
  queryCardinality : RoaringQuery Bitmap → Except ArnmResult Nat
  queryListing : RoaringQuery Bitmap → Nat → Nat → Bool → Except ArnmResult (List Nat × Nat)
  queryPage : RoaringQuery Bitmap → Nat → Nat → Bool → Except ArnmResult (List Nat)
  /-- `arnm_key_map` for keys of a size. -/
  KeyMap : Nat → Type
  noKeys : {size : Nat} → KeyMap size
  find : {size : Nat} → KeyMap size → Bytes size → Option Nat
  getOrInsert : {size : Nat} → KeyMap size → Bytes size → KeyMap size × Nat
  keyCount : {size : Nat} → KeyMap size → Nat
  contains_blank : ∀ value, contains blank value = false
  contains_add : ∀ set value other,
    contains (add set value) other = (decide (other = value) || contains set other)
  /-- Adding a number that is there already changes nothing. -/
  add_of_contains : ∀ set value, contains set value = true → add set value = set
  maximum_eq_some : ∀ set value, maximum set = some value ↔
    contains set value = true ∧ ∀ other, contains set other = true → other ≤ value
  /-- A query answers when it names a set to look in. -/
  queryCardinality_eq : ∀ query, query.all ≠ [] ∨ query.any ≠ [] →
    queryCardinality query = .ok (query.answers contains).length
  queryListing_eq : ∀ query skip size descending, query.all ≠ [] ∨ query.any ≠ [] →
    queryListing query skip size descending =
      .ok (Page.page skip size (Page.oriented descending (query.answers contains)),
        (query.answers contains).length)
  queryPage_eq : ∀ query skip size descending, query.all ≠ [] ∨ query.any ≠ [] →
    queryPage query skip size descending =
      .ok (Page.page skip size (Page.oriented descending (query.answers contains)))
  keyCount_noKeys : ∀ size, keyCount (noKeys : KeyMap size) = 0
  find_lt : ∀ {size} (keys : KeyMap size) key id, find keys key = some id → id < keyCount keys
  /-- An id belongs to one key. -/
  find_injective : ∀ {size} (keys : KeyMap size) key other id,
    find keys key = some id → find keys other = some id → key = other
  getOrInsert_known : ∀ {size} (keys : KeyMap size) key id, find keys key = some id →
    getOrInsert keys key = (keys, id)
  /-- A new key takes the next id. -/
  getOrInsert_new : ∀ {size} (keys : KeyMap size) key, find keys key = none →
    (getOrInsert keys key).2 = keyCount keys ∧
      keyCount (getOrInsert keys key).1 = keyCount keys + 1 ∧
      ∀ other, find (getOrInsert keys key).1 other =
        if other = key then some (keyCount keys) else find keys other

namespace Arnm

variable (A : Arnm)

theorem find_noKeys {size : Nat} (key : Bytes size) :
    A.find (A.noKeys : A.KeyMap size) key = none := by
  rcases hfind : A.find (A.noKeys : A.KeyMap size) key with _ | id
  · rfl
  · have hlt := A.find_lt _ _ _ hfind
    rw [A.keyCount_noKeys] at hlt
    omega

theorem find_getOrInsert {size : Nat} (keys : A.KeyMap size) (key : Bytes size) :
    A.find (A.getOrInsert keys key).1 key = some (A.getOrInsert keys key).2 := by
  rcases hfind : A.find keys key with _ | id
  · obtain ⟨hid, -, hall⟩ := A.getOrInsert_new keys key hfind
    rw [hall, if_pos rfl, hid]
  · rw [A.getOrInsert_known keys key id hfind, hfind]

theorem find_getOrInsert_other {size : Nat} (keys : A.KeyMap size) {key other : Bytes size}
    (hne : other ≠ key) : A.find (A.getOrInsert keys key).1 other = A.find keys other := by
  rcases hfind : A.find keys key with _ | id
  · rw [(A.getOrInsert_new keys key hfind).2.2, if_neg hne]
  · rw [A.getOrInsert_known keys key id hfind]

theorem keyCount_le_getOrInsert {size : Nat} (keys : A.KeyMap size) (key : Bytes size) :
    A.keyCount keys ≤ A.keyCount (A.getOrInsert keys key).1 := by
  rcases hfind : A.find keys key with _ | id
  · rw [(A.getOrInsert_new keys key hfind).2.1]
    omega
  · rw [A.getOrInsert_known keys key id hfind]

/-- `set_ends_at`: whether `offset` is the largest value of a set. -/
def setEndsAt (set : A.Bitmap) (offset : Nat) : Bool :=
  match A.maximum set with
  | some maximum => maximum == offset
  | none => false

theorem setEndsAt_iff {set : A.Bitmap} {offset : Nat} :
    A.setEndsAt set offset = true ↔
      A.contains set offset = true ∧ ∀ other, A.contains set other = true → other ≤ offset := by
  rw [← A.maximum_eq_some, setEndsAt]
  rcases A.maximum set with _ | maximum
  · simp
  · simp

end Arnm

end GradidoBlockchain
