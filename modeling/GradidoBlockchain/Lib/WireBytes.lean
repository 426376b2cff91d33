import GradidoBlockchain.Lib.Pieces
import GradidoBlockchain.Lib.WireFormat
import Mathlib.Algebra.Ring.Nat

/-!
# Writing the wire format

The bytes of a varint and of a field, each in the shortest form, and that they are read back
whatever comes after them.
-/

namespace WireFormat

open Scan

/-! ### Varints -/

/-- Seven bits a byte from the lowest on; after so many bytes there is one more at most. -/
def varintBytesOf : Nat → Nat → List UInt8
  | 0, value => [UInt8.ofNat value]
  | turns + 1, value =>
      if value < 128 then [UInt8.ofNat value]
        else UInt8.ofNat (value % 128 + 128) :: varintBytesOf turns (value / 128)

/-- The varint of a number of 64 bits. -/
def varintBytes (value : Nat) : List UInt8 := varintBytesOf 9 value

theorem varintBytesOf_length (turns value : Nat) :
    0 < (varintBytesOf turns value).length ∧ (varintBytesOf turns value).length ≤ turns + 1 := by
  induction turns generalizing value with
  | zero => exact ⟨Nat.one_pos, Nat.le_refl _⟩
  | succ turns ih =>
      rw [varintBytesOf]
      split
      · exact ⟨Nat.one_pos, Nat.le_add_left _ _⟩
      · exact ⟨Nat.succ_pos _, Nat.succ_le_succ (ih _).2⟩

theorem varintBytes_ne_nil (value : Nat) : varintBytes value ≠ [] :=
  List.length_pos_iff.1 (varintBytesOf_length 9 value).1

theorem varintBytes_length_le (value : Nat) : (varintBytes value).length ≤ 10 :=
  (varintBytesOf_length 9 value).2

/-- The lowest seven bits of a number and the others make it up. -/
theorem bits_shiftLeft (value offset : Nat) :
    (value % 128) <<< offset ||| (value / 128) <<< (offset + 7) = value <<< offset := by
  rw [Nat.add_comm offset, Nat.shiftLeft_add, ← Nat.shiftLeft_or_distrib]
  congr 1
  have hlow : value % 128 < 2 ^ 7 := Nat.mod_lt value (by decide)
  rw [Nat.or_comm, Nat.shiftLeft_eq, Nat.mul_comm, ← Nat.two_pow_add_eq_or_of_lt hlow (value / 128)]
  exact Nat.div_add_mod value 128

/-- The last byte of a varint ends it. -/
theorem varintFrom_last {number : Nat} (hnumber : number < 128) (bits offset : Nat)
    (rest : List UInt8) :
    varintFrom bits offset (UInt8.ofNat number :: rest) =
      some (bits ||| number <<< offset, rest) := by
  have hbyte : (UInt8.ofNat number).toNat = number :=
    UInt8.toNat_ofNat_of_lt' (Nat.lt_trans hnumber (by decide))
  rw [varintFrom, hbyte, if_pos hnumber, Nat.mod_eq_of_lt hnumber]

/-- A varint is read from its bytes into whatever bits have been read before. -/
theorem varintFrom_varintBytesOf {turns number offset : Nat} (bits : Nat) (rest : List UInt8)
    (hnumber : number < 128 ^ (turns + 1)) (hoffset : offset + 7 * turns < 64) :
    varintFrom bits offset (varintBytesOf turns number ++ rest) =
      some (bits ||| number <<< offset, rest) := by
  induction turns generalizing number bits offset with
  | zero => exact varintFrom_last (by simpa using hnumber) bits offset rest
  | succ turns ih =>
      rw [varintBytesOf]
      split
      · exact varintFrom_last ‹_› bits offset rest
      · have hbyte : (UInt8.ofNat (number % 128 + 128)).toNat = number % 128 + 128 :=
          UInt8.toNat_ofNat_of_lt' (by change _ < 256; omega)
        have hsmaller : number / 128 < 128 ^ (turns + 1) :=
          Nat.div_lt_of_lt_mul (by rwa [Nat.pow_succ'] at hnumber)
        rw [List.cons_append, varintFrom, hbyte, if_neg (by omega), if_pos (by omega),
          Nat.add_mod_right, Nat.mod_mod,
          ih (bits ||| (number % 128) <<< offset) hsmaller (by omega), Nat.or_assoc, bits_shiftLeft]

theorem varint_varintBytes {number : Nat} (hnumber : number < wordSize) (rest : List UInt8) :
    varint (varintBytes number ++ rest) = some (number, rest) := by
  have hlt : number < 128 ^ (9 + 1) := Nat.lt_of_lt_of_le hnumber (by decide)
  have hread : varintFrom 0 0 (varintBytes number ++ rest) = some (0 ||| number <<< 0, rest) :=
    varintFrom_varintBytesOf 0 rest hlt (by decide)
  rwa [Nat.zero_or, Nat.shiftLeft_zero] at hread

/-! ### Fields -/

/-- A field that holds a varint. -/
def varintField (number value : Nat) : List UInt8 := varintBytes (number * 8) ++ varintBytes value

/-- A field that holds bytes. -/
def bytesField (number : Nat) (bytes : List UInt8) : List UInt8 :=
  varintBytes (number * 8 + 2) ++ (varintBytes bytes.length ++ bytes)

/-- A field that is left out where its number is zero. -/
def varintUnlessZero (number value : Nat) : List UInt8 :=
  if value = 0 then [] else varintField number value

/-- A field that is left out where it holds no bytes. -/
def bytesUnlessEmpty (number : Nat) (bytes : List UInt8) : List UInt8 :=
  if bytes = [] then [] else bytesField number bytes

/-- A message in a field, which is left out where there is none. -/
def messageField {α : Type} (number : Nat) (bytes : α → List UInt8)
    (message : Option α) : List UInt8 :=
  message.elim [] fun inner => bytesField number (bytes inner)

/-- Messages in fields of the same number. -/
def messageFields {α : Type} (number : Nat) (bytes : α → List UInt8)
    (items : List α) : List UInt8 :=
  items.flatMap fun item => bytesField number (bytes item)

theorem varintField_ne_nil (number value : Nat) : varintField number value ≠ [] := by
  rw [varintField]
  exact fun h => varintBytes_ne_nil _ (List.append_eq_nil_iff.1 h).1

theorem bytesField_ne_nil (number : Nat) (bytes : List UInt8) : bytesField number bytes ≠ [] := by
  rw [bytesField]
  exact fun h => varintBytes_ne_nil _ (List.append_eq_nil_iff.1 h).1

theorem length_le_bytesField (number : Nat) (bytes : List UInt8) :
    bytes.length ≤ (bytesField number bytes).length := by
  rw [bytesField, List.length_append, List.length_append]
  omega

theorem length_le_bytesUnlessEmpty (number : Nat) (bytes : List UInt8) :
    bytes.length ≤ (bytesUnlessEmpty number bytes).length := by
  rw [bytesUnlessEmpty]
  split
  · rw [‹bytes = []›]
  · exact length_le_bytesField number bytes

theorem length_le_messageFields {α : Type} (number : Nat) (bytes : α → List UInt8) {items : List α}
    {item : α} (hmem : item ∈ items) :
    (bytes item).length ≤ (messageFields number bytes items).length := by
  obtain ⟨before, after, rfl⟩ := List.append_of_mem hmem
  have hlength := length_le_bytesField number (bytes item)
  rw [messageFields, List.flatMap_append, List.flatMap_cons, List.length_append, List.length_append]
  omega

end WireFormat
