import GradidoBlockchain.Lib.Scan

/-!
# The wire format of messages

The top level of a message: each field has a tag and a content that its wire type
measures. A varint has ten bytes at most, which can hold more than 64 bits; a reader of 64
bits drops what is past them.
-/

namespace WireFormat

open Scan

/-! ### Varints -/

/-- The varint that goes on at a bit, with all the bits it has. -/
def varintFrom (value offset : Nat) : List UInt8 → Option (Nat × List UInt8)
  | [] => none
  | byte :: rest =>
      if byte.toNat < 128 then some (value ||| (byte.toNat % 128) <<< offset, rest)
      else if offset + 7 < 64 then
        varintFrom (value ||| (byte.toNat % 128) <<< offset) (offset + 7) rest
      else none

def varint : List UInt8 → Option (Nat × List UInt8) := varintFrom 0 0

/-- The most a reader of 64 bits makes of a varint. -/
def wordSize : Nat := 2 ^ 64

theorem varintFrom_shortens {value offset number : Nat} {bytes rest : List UInt8}
    (hread : varintFrom value offset bytes = some (number, rest)) : rest.length < bytes.length := by
  induction bytes generalizing value offset with
  | nil => cases hread
  | cons byte bytes ih =>
      rw [varintFrom] at hread
      split at hread
      · cases hread
        exact Nat.lt_succ_self _
      · split at hread
        · exact Nat.lt_succ_of_lt (ih hread)
        · cases hread

theorem varint_shortens {number : Nat} {bytes rest : List UInt8}
    (hread : varint bytes = some (number, rest)) : rest.length < bytes.length :=
  varintFrom_shortens hread

/-! ### Fields -/

/-- A field: its tag, and the number that is its content or the length of it. -/
structure Field where
  tag : Nat
  content : Option Nat
  deriving DecidableEq, Repr

namespace Field

def wire (field : Field) : Nat := field.tag % 8

/-- No varint of the field has more than 64 bits. -/
def Fits (field : Field) : Prop :=
  field.tag < wordSize ∧ ∀ number ∈ field.content, number < wordSize

instance : DecidablePred Fits := fun field => by unfold Fits; infer_instance

end Field

/-- The rest after so many bytes, when there are so many. -/
def after (count : Nat) (bytes : List UInt8) : Option (List UInt8) :=
  if count ≤ bytes.length then some (bytes.drop count) else none

/-- The content of a field, and what comes after it. -/
def content (wire : Nat) (bytes : List UInt8) : Option (Option Nat × List UInt8) :=
  match wire with
  | 0 => (varint bytes).map fun read => (some read.1, read.2)
  | 1 => (after 8 bytes).map fun rest => (none, rest)
  | 2 =>
      (varint bytes).bind fun read =>
        (after (read.1 % wordSize) read.2).map fun rest => (some read.1, rest)
  | 5 => (after 4 bytes).map fun rest => (none, rest)
  | _ => none

def fieldStep : Step UInt8 (List Field) := fun fields bytes =>
  (varint bytes).bind fun tag =>
    (content (tag.1 % 8) tag.2).map fun read => (fields ++ [⟨tag.1, read.1⟩], read.2)

/-- The fields of a message, as far as it is one. -/
def fields (bytes : List UInt8) : Option (List Field) := scan fieldStep [] bytes

theorem after_eq_some {count : Nat} {bytes rest : List UInt8}
    (hafter : after count bytes = some rest) : count ≤ bytes.length ∧ rest = bytes.drop count := by
  rw [after] at hafter
  split at hafter
  · exact ⟨‹_›, (Option.some.inj hafter).symm⟩
  · cases hafter

theorem after_le {count : Nat} {bytes rest : List UInt8} (hafter : after count bytes = some rest) :
    rest.length ≤ bytes.length := by
  rw [(after_eq_some hafter).2, List.length_drop]
  exact Nat.sub_le _ _

theorem content_le {wire : Nat} {number : Option Nat} {bytes rest : List UInt8}
    (hcontent : content wire bytes = some (number, rest)) : rest.length ≤ bytes.length := by
  unfold content at hcontent
  split at hcontent
  · obtain ⟨read, hread, hpair⟩ := Option.map_eq_some_iff.1 hcontent
    cases hpair
    exact Nat.le_of_lt (varint_shortens hread)
  · obtain ⟨left, hafter, hpair⟩ := Option.map_eq_some_iff.1 hcontent
    cases hpair
    exact after_le hafter
  · obtain ⟨read, hread, hrest⟩ := Option.bind_eq_some_iff.1 hcontent
    obtain ⟨left, hafter, hpair⟩ := Option.map_eq_some_iff.1 hrest
    cases hpair
    exact Nat.le_trans (after_le hafter) (Nat.le_of_lt (varint_shortens hread))
  · obtain ⟨left, hafter, hpair⟩ := Option.map_eq_some_iff.1 hcontent
    cases hpair
    exact after_le hafter
  · cases hcontent

theorem fieldStep_shortens : Shortens fieldStep := by
  intro fields bytes grown rest hstep
  obtain ⟨tag, htag, hcontent⟩ := Option.bind_eq_some_iff.1 hstep
  obtain ⟨read, hread, hpair⟩ := Option.map_eq_some_iff.1 hcontent
  cases hpair
  exact Nat.lt_of_le_of_lt (content_le hread) (varint_shortens htag)

end WireFormat
