import Mathlib.Algebra.BigOperators.Group.List.Basic
import Mathlib.Algebra.Ring.Nat
import Mathlib.Data.List.Basic
import Mathlib.Tactic.Common

/-!
# Documents of JSON

A document is a tree. Its members stand in the order they have been written in, and nothing
keeps two of them from having one name. The shortest text of a tree bounds from below whatever
a writer makes of it.
-/

/-- A JSON value; a number that is no integer is kept as its text. -/
inductive Json
  | null
  | bool (value : Bool)
  | number (value : Int)
  | real (text : String)
  | string (text : String)
  | array (items : List Json)
  | object (members : List (String × Json))

namespace Json

/-! ### Deciding equality -/

mutual

def decEq : (left right : Json) → Decidable (left = right)
  | .null, .null => isTrue rfl
  | .bool left, .bool right => decidable_of_iff (left = right) (by rw [Json.bool.injEq])
  | .number left, .number right => decidable_of_iff (left = right) (by rw [Json.number.injEq])
  | .real left, .real right => decidable_of_iff (left = right) (by rw [Json.real.injEq])
  | .string left, .string right => decidable_of_iff (left = right) (by rw [Json.string.injEq])
  | .array left, .array right =>
      haveI := decEqItems left right
      decidable_of_iff (left = right) (by rw [Json.array.injEq])
  | .object left, .object right =>
      haveI := decEqMembers left right
      decidable_of_iff (left = right) (by rw [Json.object.injEq])
  | .null, .bool _ | .null, .number _ | .null, .real _ | .null, .string _ | .null, .array _ |
      .null, .object _
  | .bool _, .null | .bool _, .number _ | .bool _, .real _ | .bool _, .string _ |
      .bool _, .array _ | .bool _, .object _
  | .number _, .null | .number _, .bool _ | .number _, .real _ | .number _, .string _ |
      .number _, .array _ | .number _, .object _
  | .real _, .null | .real _, .bool _ | .real _, .number _ | .real _, .string _ |
      .real _, .array _ | .real _, .object _
  | .string _, .null | .string _, .bool _ | .string _, .number _ | .string _, .real _ |
      .string _, .array _ | .string _, .object _
  | .array _, .null | .array _, .bool _ | .array _, .number _ | .array _, .real _ |
      .array _, .string _ | .array _, .object _
  | .object _, .null | .object _, .bool _ | .object _, .number _ | .object _, .real _ | .object _, .string _ | .object _, .array _ =>
      isFalse nofun

def decEqItems : (left right : List Json) → Decidable (left = right)
  | [], [] => isTrue rfl
  | [], _ :: _ | _ :: _, [] => isFalse nofun
  | left :: lefts, right :: rights =>
      haveI := decEq left right
      haveI := decEqItems lefts rights
      decidable_of_iff (left = right ∧ lefts = rights) (by rw [List.cons.injEq])

def decEqMembers : (left right : List (String × Json)) → Decidable (left = right)
  | [], [] => isTrue rfl
  | [], _ :: _ | _ :: _, [] => isFalse nofun
  | (key, left) :: lefts, (other, right) :: rights =>
      haveI := decEq left right
      haveI := decEqMembers lefts rights
      decidable_of_iff ((key = other ∧ left = right) ∧ lefts = rights)
        (by rw [List.cons.injEq, Prod.mk.injEq])

end

instance : DecidableEq Json := decEq

def isNull : Json → Bool
  | null => true
  | _ => false

/-! ### Members -/

/-- Every member under the key replaced by `null`. -/
def nullOut (key : String) (members : List (String × Json)) : List (String × Json) :=
  members.map fun member => if member.1 = key then (key, null) else member

/-- Every member under the key left out. -/
def without (key : String) (members : List (String × Json)) : List (String × Json) :=
  members.filter fun member => decide (member.1 ≠ key)

/-- The values of an object's members under the key; what is no object has none. -/
def under (key : String) : Json → List Json
  | object members => (members.filter fun member => member.1 == key).map Prod.snd
  | _ => []

/-- No member under the key is anything but `null`. -/
def Lacks (key : String) (json : Json) : Prop := ∀ value ∈ json.under key, value = null

/-- The object under `outer` lacks the key. -/
def LacksIn (outer key : String) (json : Json) : Prop := ∀ value ∈ json.under outer, value.Lacks key

/-- The items of what may be an array. -/
def items : Option Json → List Json
  | some (array items) => items
  | _ => []

/-- There is a list under `list`, and an element of it lacks the key. -/
def LacksInElement (list key : String) (json : Json) : Prop :=
  json.under list ≠ [] ∧ ∀ value ∈ json.under list, ∃ item ∈ items (some value), item.Lacks key

/-! ### The shortest text -/

/-- A string between its quotes, nothing in it escaped. -/
def quoted (text : String) : List Char := '"' :: text.toList ++ ['"']

mutual

/-- The text without blanks. -/
def text : Json → List Char
  | null => "null".toList
  | bool value => (if value then "true" else "false").toList
  | number value => value.repr.toList
  | real text => text.toList
  | string text => quoted text
  | array items => '[' :: itemsText items ++ [']']
  | object members => '{' :: membersText members ++ ['}']

def itemsText : List Json → List Char
  | [] => []
  | [item] => item.text
  | item :: next :: items => item.text ++ ',' :: itemsText (next :: items)

def membersText : List (String × Json) → List Char
  | [] => []
  | [(key, value)] => quoted key ++ ':' :: value.text
  | (key, value) :: next :: members =>
      quoted key ++ ':' :: value.text ++ ',' :: membersText (next :: members)

end

/-- The characters of an item and of the comma after it. -/
def itemLength (item : Json) : ℕ := item.text.length + 1

/-- The characters of a member and of the comma after it. -/
def memberLength (member : String × Json) : ℕ := member.1.length + 4 + member.2.text.length

theorem length_quoted (text : String) : (quoted text).length = text.length + 2 := by
  rw [quoted, List.length_append, List.length_cons, String.length_toList]
  rfl

theorem length_itemsText (items : List Json) :
    (itemsText items).length = (items.map itemLength).sum - 1 := by
  induction items with
  | nil => rfl
  | cons item items ih =>
      cases items with
      | nil => simp [itemsText, itemLength]
      | cons next items =>
          rw [itemsText, List.length_append, List.length_cons, ih]
          simp only [List.map_cons, List.sum_cons, itemLength]
          omega

theorem length_membersText (members : List (String × Json)) :
    (membersText members).length = (members.map memberLength).sum - 1 := by
  induction members with
  | nil => rfl
  | cons member members ih =>
      obtain ⟨key, value⟩ := member
      cases members with
      | nil =>
          simp only [membersText, List.length_append, List.length_cons, length_quoted,
            List.map_cons, List.map_nil, List.sum_cons, List.sum_nil, memberLength]
          omega
      | cons next members =>
          rw [membersText, List.length_append, List.length_cons, List.length_append,
            List.length_cons, length_quoted, ih]
          simp only [List.map_cons, List.sum_cons, memberLength]
          omega

theorem length_string (text : String) : (string text).text.length = text.length + 2 := by
  rw [Json.text, length_quoted]

theorem length_array (items : List Json) :
    (array items).text.length = (items.map itemLength).sum - 1 + 2 := by
  rw [Json.text, List.length_append, List.length_cons, length_itemsText]
  rfl

theorem length_object (members : List (String × Json)) :
    (object members).text.length = (members.map memberLength).sum - 1 + 2 := by
  rw [Json.text, List.length_append, List.length_cons, length_membersText]
  rfl

/-! ### Nodes -/

mutual

/-- The values of a document, the keys of its members counted with them. -/
def nodes : Json → ℕ
  | array items => 1 + itemsNodes items
  | object members => 1 + membersNodes members
  | _ => 1

def itemsNodes : List Json → ℕ
  | [] => 0
  | item :: items => item.nodes + itemsNodes items

def membersNodes : List (String × Json) → ℕ
  | [] => 0
  | (_, value) :: members => 1 + value.nodes + membersNodes members

end

theorem one_le_nodes (json : Json) : 1 ≤ json.nodes := by
  cases json <;> simp only [nodes] <;> omega

theorem length_le_itemsNodes (items : List Json) : items.length ≤ itemsNodes items := by
  induction items with
  | nil => exact Nat.le_refl _
  | cons item items ih =>
      have hitem := one_le_nodes item
      rw [itemsNodes, List.length_cons]
      omega

theorem length_items_le (json : Json) : (items (some json)).length ≤ json.nodes := by
  cases json with
  | array items =>
      have hitems := length_le_itemsNodes items
      simp only [Json.items, nodes]
      omega
  | _ => exact Nat.zero_le _

theorem nodes_le_membersNodes {members : List (String × Json)} {member : String × Json}
    (hmem : member ∈ members) : member.2.nodes ≤ membersNodes members := by
  induction members with
  | nil => exact absurd hmem List.not_mem_nil
  | cons first members ih =>
      rw [membersNodes]
      obtain rfl | hmem := List.mem_cons.1 hmem
      · omega
      · have hle := ih hmem
        omega

theorem mem_under {members : List (String × Json)} {key : String} {value : Json} :
    value ∈ (object members).under key ↔ (key, value) ∈ members := by
  simp only [under, List.mem_map, List.mem_filter, beq_iff_eq]
  constructor
  · intro h
    obtain ⟨member, ⟨hmem, hkey⟩, rfl⟩ := h
    rwa [← hkey]
  · exact fun hmem => ⟨_, ⟨hmem, rfl⟩, rfl⟩

theorem under_without (key : String) (members : List (String × Json)) :
    (object (without key members)).under key = [] := by
  apply List.eq_nil_iff_forall_not_mem.2
  intro value hvalue
  have hkept := (List.mem_filter.1 (mem_under.1 hvalue)).2
  exact absurd rfl (of_decide_eq_true hkept)

/-- The value of a member has fewer nodes than its object. -/
theorem nodes_under_le {json value : Json} {key : String} (hmem : value ∈ json.under key) :
    value.nodes ≤ json.nodes := by
  cases json with
  | object members =>
      have hle := nodes_le_membersNodes (mem_under.1 hmem)
      rw [nodes]
      exact Nat.le_add_left_of_le hle
  | _ => exact absurd hmem List.not_mem_nil

end Json
