import GradidoBlockchain.Lib.WireBytes

/-!
# Messages part by part

A field ends with its content, whatever comes after it: the fields of a message that has been put
together are those of its parts.
-/

namespace WireFormat

open Scan

variable {bytes rest : List UInt8} {number : Nat}

/-! ### Contents -/

theorem varintFrom_append {value offset : Nat}
    (hread : varintFrom value offset bytes = some (number, rest)) (more : List UInt8) :
    varintFrom value offset (bytes ++ more) = some (number, rest ++ more) := by
  induction bytes generalizing value offset with
  | nil => cases hread
  | cons byte bytes ih =>
      rw [varintFrom] at hread
      rw [List.cons_append, varintFrom]
      split at hread
      · cases hread
        rw [if_pos ‹_›]
      · rw [if_neg ‹_›]
        split at hread
        · rw [if_pos ‹_›]
          exact ih hread
        · cases hread

theorem varintFrom_split {value offset : Nat}
    (hread : varintFrom value offset bytes = some (number, rest)) :
    ∃ front, bytes = front ++ rest ∧ varintFrom value offset front = some (number, []) := by
  induction bytes generalizing value offset with
  | nil => cases hread
  | cons byte bytes ih =>
      rw [varintFrom] at hread
      split at hread
      · cases hread
        refine ⟨[byte], rfl, ?_⟩
        rw [varintFrom, if_pos ‹_›]
      · split at hread
        · obtain ⟨front, rfl, hfront⟩ := ih hread
          refine ⟨byte :: front, rfl, ?_⟩
          rw [varintFrom, if_neg ‹_›, if_pos ‹_›]
          exact hfront
        · cases hread

theorem varint_append (hread : varint bytes = some (number, rest)) (more : List UInt8) :
    varint (bytes ++ more) = some (number, rest ++ more) :=
  varintFrom_append hread more

theorem varint_split (hread : varint bytes = some (number, rest)) :
    ∃ front, bytes = front ++ rest ∧ varint front = some (number, []) :=
  varintFrom_split hread

theorem after_split {count : Nat} (hafter : after count bytes = some rest) :
    ∃ front, bytes = front ++ rest ∧ after count front = some [] := by
  obtain ⟨hle, rfl⟩ := after_eq_some hafter
  refine ⟨bytes.take count, (List.take_append_drop count bytes).symm, ?_⟩
  rw [after, List.length_take, Nat.min_eq_left hle, if_pos (Nat.le_refl count), List.drop_take,
    Nat.sub_self, List.take_zero]

theorem length_of_after_nil {count : Nat}
    (hafter : after count bytes = some []) : bytes.length = count := by
  obtain ⟨hle, hdrop⟩ := after_eq_some hafter
  exact Nat.le_antisymm (List.drop_eq_nil_iff.1 hdrop.symm) hle

variable {wire : Nat} {held : Option Nat}

theorem content_split (hcontent : content wire bytes = some (held, rest)) :
    ∃ front, bytes = front ++ rest ∧ content wire front = some (held, []) := by
  unfold content at hcontent
  split at hcontent
  · obtain ⟨⟨value, left⟩, hread, hpair⟩ := Option.map_eq_some_iff.1 hcontent
    cases hpair
    obtain ⟨front, rfl, hfront⟩ := varint_split hread
    refine ⟨front, rfl, ?_⟩
    rw [content, hfront]
    rfl
  · obtain ⟨left, hafter, hpair⟩ := Option.map_eq_some_iff.1 hcontent
    cases hpair
    obtain ⟨front, rfl, hfront⟩ := after_split hafter
    refine ⟨front, rfl, ?_⟩
    rw [content, hfront]
    rfl
  · obtain ⟨⟨length, between⟩, hread, hrest⟩ := Option.bind_eq_some_iff.1 hcontent
    obtain ⟨left, hafter, hpair⟩ := Option.map_eq_some_iff.1 hrest
    cases hpair
    obtain ⟨head, rfl, hhead⟩ := varint_split hread
    obtain ⟨inner, rfl, hinner⟩ := after_split hafter
    refine ⟨head ++ inner, (List.append_assoc _ _ _).symm, ?_⟩
    rw [content, varint_append hhead, Option.bind_some, List.nil_append, hinner]
    rfl
  · obtain ⟨left, hafter, hpair⟩ := Option.map_eq_some_iff.1 hcontent
    cases hpair
    obtain ⟨front, rfl, hfront⟩ := after_split hafter
    refine ⟨front, rfl, ?_⟩
    rw [content, hfront]
    rfl
  · cases hcontent

/-! ### Parts -/

/-- The bytes are those of the fields, one after the other. -/
inductive Parts : List UInt8 → List Field → Prop
  | nil : Parts [] []
  | field {head inner rest : List UInt8} {tag : Nat} {held : Option Nat} {found : List Field}
      (hhead : varint head = some (tag, [])) (hinner : content (tag % 8) inner = some (held, []))
      (hrest : Parts rest found) :
      Parts (head ++ (inner ++ rest)) (⟨tag, held⟩ :: found)

theorem parts_of_fields {found : List Field}
    (hfields : fields bytes = some found) : Parts bytes found := by
  have hscan : ∃ others, found = [] ++ others ∧ Parts bytes others := by
    refine scan_induct
      (motive := fun earlier bytes found =>
        ∃ others, found = earlier ++ others ∧ Parts bytes others) fieldStep_shortens
      (fun earlier => ⟨[], (List.append_nil _).symm, .nil⟩)
      (fun earlier byte bytes after rest found hstep _ ih => ?_) hfields
    obtain ⟨others, rfl, hparts⟩ := ih
    obtain ⟨⟨tag, between⟩, htag, hcontent⟩ := Option.bind_eq_some_iff.1 hstep
    obtain ⟨⟨held, left⟩, hheld, hpair⟩ := Option.map_eq_some_iff.1 hcontent
    cases hpair
    obtain ⟨head, hbytes, hhead⟩ := varint_split htag
    obtain ⟨inner, rfl, hinner⟩ := content_split hheld
    refine ⟨⟨tag, held⟩ :: others, List.append_assoc _ _ _, ?_⟩
    rw [hbytes]
    exact .field hhead hinner hparts
  obtain ⟨others, rfl, hparts⟩ := hscan
  exact hparts

theorem ne_nil_of_varint (hread : varint bytes = some (number, rest)) : bytes ≠ [] := by
  intro hnil
  rw [hnil] at hread
  cases hread

/-! ### Written parts -/

theorem varint_whole {value : Nat} (hvalue : value < wordSize) :
    varint (varintBytes value) = some (value, []) := by
  have hread := varint_varintBytes hvalue []
  rwa [List.append_nil] at hread

/-- What a field of bytes holds after its tag. -/
theorem content_bytes (hsmall : bytes.length < wordSize) :
    content 2 (varintBytes bytes.length ++ bytes) = some (some bytes.length, []) := by
  rw [content, varint_varintBytes hsmall, Option.bind_some, Nat.mod_eq_of_lt hsmall, after,
    if_pos (Nat.le_refl _), List.drop_length]
  rfl

/-- The varint of a smaller number is no longer. -/
theorem varintBytesOf_length_mono (turns : Nat) {small large : Nat} (hle : small ≤ large) :
    (varintBytesOf turns small).length ≤ (varintBytesOf turns large).length := by
  induction turns generalizing small large with
  | zero => exact Nat.le_refl _
  | succ turns ih =>
      rw [varintBytesOf, varintBytesOf]
      by_cases hlarge : large < 128
      · rw [if_pos hlarge, if_pos (Nat.lt_of_le_of_lt hle hlarge)]
        exact Nat.le_refl _
      · rw [if_neg hlarge, List.length_cons]
        split
        · exact Nat.le_add_left _ _
        · exact Nat.succ_le_succ (ih (Nat.div_le_div_right hle))

theorem bytesField_length_mono (number : Nat) {small large : List UInt8}
    (hle : small.length ≤ large.length) :
    (bytesField number small).length ≤ (bytesField number large).length := by
  have hvarint := varintBytesOf_length_mono 9 hle
  rw [bytesField, bytesField, List.length_append, List.length_append, List.length_append,
    List.length_append]
  change (varintBytes small.length).length ≤ (varintBytes large.length).length at hvarint
  omega

end WireFormat
