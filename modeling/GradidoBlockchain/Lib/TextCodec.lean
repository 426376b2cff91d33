import Mathlib.Algebra.Ring.Nat
import Mathlib.Data.List.Basic
import Mathlib.Tactic.Common

/-!
# Bytes as text

Hex writes a byte as two characters, base64 three bytes as four. Both are read back as what they
were written from, and the number of characters says how many bytes there were.
-/

namespace TextCodec

/-! ### Hex -/

def hexDigits : List Char := "0123456789abcdef".toList

def hexDigit (value : ℕ) : Char := hexDigits.getD value '0'

def hexValue (digit : Char) : Option ℕ := hexDigits.idxOf? digit

def toHex : List UInt8 → List Char
  | [] => []
  | byte :: bytes => hexDigit (byte.toNat / 16) :: hexDigit (byte.toNat % 16) :: toHex bytes

def ofHex : List Char → Option (List UInt8)
  | [] => some []
  | [_] => none
  | high :: low :: digits => do
      let high ← hexValue high
      let low ← hexValue low
      let bytes ← ofHex digits
      some (UInt8.ofNat (16 * high + low) :: bytes)

theorem hexValue_hexDigit : ∀ value < 16, hexValue (hexDigit value) = some value := by decide

theorem ofHex_toHex (bytes : List UInt8) : ofHex (toHex bytes) = some bytes := by
  induction bytes with
  | nil => rfl
  | cons byte bytes ih =>
      have hbyte := byte.toNat_lt
      rw [toHex, ofHex, hexValue_hexDigit _ (by omega), hexValue_hexDigit _ (by omega), ih]
      show some (UInt8.ofNat (16 * (byte.toNat / 16) + byte.toNat % 16) :: bytes) =
        some (byte :: bytes)
      rw [Nat.div_add_mod, UInt8.ofNat_toNat]

theorem length_toHex (bytes : List UInt8) : (toHex bytes).length = 2 * bytes.length := by
  induction bytes with
  | nil => rfl
  | cons byte bytes ih =>
      rw [toHex, List.length_cons, List.length_cons, List.length_cons, ih]
      omega

theorem dash_notMem_toHex (bytes : List UInt8) : '-' ∉ toHex bytes := by
  have hdigit : ∀ value < 16, '-' ≠ hexDigit value := by decide
  induction bytes with
  | nil => exact List.not_mem_nil
  | cons byte bytes ih =>
      have hbyte := byte.toNat_lt
      rw [toHex, List.mem_cons, List.mem_cons, not_or, not_or]
      exact ⟨hdigit _ (by omega), hdigit _ (by omega), ih⟩

/-! ### Uuids -/

/-- Thirty-two digits in the five groups of a uuid. -/
def dashed (digits : List Char) : List Char :=
  digits.take 8 ++
    '-' ::
      ((digits.drop 8).take 4 ++
        '-' ::
          ((digits.drop 12).take 4 ++ '-' :: ((digits.drop 16).take 4 ++ '-' :: digits.drop 20)))

def toUuid (bytes : List UInt8) : List Char := dashed (toHex bytes)

def ofUuid (text : List Char) : Option (List UInt8) :=
  if dashed (text.filter (· ≠ '-')) = text then ofHex (text.filter (· ≠ '-')) else none

theorem filter_dashed {digits : List Char} (hdash : '-' ∉ digits) :
    (dashed digits).filter (· ≠ '-') = digits := by
  have hkept : ∀ part : List Char, (∀ digit ∈ part, digit ∈ digits) →
      part.filter (· ≠ '-') = part := by
    intro part hpart
    apply List.filter_eq_self.2
    intro digit hmem
    exact decide_eq_true fun heq => hdash (heq ▸ hpart digit hmem)
  have htaken : ∀ start count,
      ((digits.drop start).take count).filter (· ≠ '-') = (digits.drop start).take count :=
    fun start count => hkept _ fun digit hmem => List.mem_of_mem_drop (List.mem_of_mem_take hmem)
  have hfirst : (digits.take 8).filter (· ≠ '-') = digits.take 8 :=
    hkept _ fun digit hmem => List.mem_of_mem_take hmem
  have hlast : (digits.drop 20).filter (· ≠ '-') = digits.drop 20 :=
    hkept _ fun digit hmem => List.mem_of_mem_drop hmem
  have hnone : ∀ rest : List Char, ('-' :: rest).filter (· ≠ '-') = rest.filter (· ≠ '-') :=
    fun rest => rfl
  simp only [dashed, List.filter_append, hnone, hfirst, htaken, hlast]
  have hjoin : ∀ start count,
      (digits.drop start).take count ++ digits.drop (start + count) = digits.drop start :=
    fun start count => by rw [← List.drop_drop, List.take_append_drop]
  have hfourth : (digits.drop 16).take 4 ++ digits.drop 20 = digits.drop 16 := hjoin 16 4
  have hthird : (digits.drop 12).take 4 ++ digits.drop 16 = digits.drop 12 := hjoin 12 4
  have hsecond : (digits.drop 8).take 4 ++ digits.drop 12 = digits.drop 8 := hjoin 8 4
  rw [hfourth, hthird, hsecond, List.take_append_drop]

theorem ofUuid_toUuid (bytes : List UInt8) : ofUuid (toUuid bytes) = some bytes := by
  rw [ofUuid, toUuid, filter_dashed (dash_notMem_toHex bytes), if_pos rfl, ofHex_toHex]

theorem length_toUuid {bytes : List UInt8} (hsize : bytes.length = 16) :
    (toUuid bytes).length = 36 := by
  have hlength := length_toHex bytes
  rw [hsize] at hlength
  simp only [toUuid, dashed, List.length_append, List.length_cons, List.length_take,
    List.length_drop, hlength]
  omega

/-! ### Base64 -/

def alphabet : List Char :=
  "ABCDEFGHIJKLMNOPQRSTUVWXYZabcdefghijklmnopqrstuvwxyz0123456789+/".toList

def sextet (value : ℕ) : Char := alphabet.getD value 'A'

def sextetValue (digit : Char) : Option ℕ := alphabet.idxOf? digit

def toBase64 : List UInt8 → List Char
  | [] => []
  | [first] => [sextet (first.toNat / 4), sextet (first.toNat % 4 * 16), '=', '=']
  | [first, second] =>
      [sextet (first.toNat / 4), sextet (first.toNat % 4 * 16 + second.toNat / 16),
        sextet (second.toNat % 16 * 4), '=']
  | first :: second :: third :: bytes =>
      sextet (first.toNat / 4) :: sextet (first.toNat % 4 * 16 + second.toNat / 16) ::
        sextet (second.toNat % 16 * 4 + third.toNat / 64) :: sextet (third.toNat % 64) ::
        toBase64 bytes

def ofBase64 : List Char → Option (List UInt8)
  | [] => some []
  | first :: second :: third :: fourth :: digits => do
      let first ← sextetValue first
      let second ← sextetValue second
      if digits = [] ∧ fourth = '=' then
        if third = '=' then some [UInt8.ofNat (first * 4 + second / 16)]
        else do
          let third ← sextetValue third
          some [UInt8.ofNat (first * 4 + second / 16), UInt8.ofNat (second % 16 * 16 + third / 4)]
      else do
        let third ← sextetValue third
        let fourth ← sextetValue fourth
        let bytes ← ofBase64 digits
        some (UInt8.ofNat (first * 4 + second / 16) :: UInt8.ofNat (second % 16 * 16 + third / 4) ::
          UInt8.ofNat (third % 4 * 64 + fourth) :: bytes)
  | _ => none

theorem sextetValue_sextet : ∀ value < 64, sextetValue (sextet value) = some value := by decide

theorem sextet_ne_pad : ∀ value < 64, sextet value ≠ '=' := by decide +kernel

private theorem firstByte (byte : UInt8) {rest : ℕ} (hrest : rest < 16) :
    UInt8.ofNat (byte.toNat / 4 * 4 + (byte.toNat % 4 * 16 + rest) / 16) = byte := by
  rw [show byte.toNat / 4 * 4 + (byte.toNat % 4 * 16 + rest) / 16 = byte.toNat by omega,
    UInt8.ofNat_toNat]

private theorem secondByte (byte : UInt8) (first : ℕ) {rest : ℕ} (hrest : rest < 4) :
    UInt8.ofNat ((first * 16 + byte.toNat / 16) % 16 * 16 + (byte.toNat % 16 * 4 + rest) / 4) =
      byte := by
  have hbyte := byte.toNat_lt
  rw [show (first * 16 + byte.toNat / 16) % 16 * 16 + (byte.toNat % 16 * 4 + rest) / 4 = byte.toNat by omega, UInt8.ofNat_toNat]

private theorem thirdByte (byte : UInt8) (second : ℕ) :
    UInt8.ofNat ((second * 4 + byte.toNat / 64) % 4 * 64 + byte.toNat % 64) = byte := by
  have hbyte := byte.toNat_lt
  rw [show (second * 4 + byte.toNat / 64) % 4 * 64 + byte.toNat % 64 = byte.toNat by omega,
    UInt8.ofNat_toNat]

theorem ofBase64_toBase64 (bytes : List UInt8) : ofBase64 (toBase64 bytes) = some bytes := by
  fun_induction toBase64 bytes with
  | case1 => rfl
  | case2 first =>
      have hfirst := first.toNat_lt
      rw [ofBase64, sextetValue_sextet _ (by omega), sextetValue_sextet _ (by omega)]
      show some [UInt8.ofNat (first.toNat / 4 * 4 + first.toNat % 4 * 16 / 16)] = some [first]
      rw [← Nat.add_zero (first.toNat % 4 * 16), firstByte first (by omega)]
  | case3 first second =>
      have hfirst := first.toNat_lt
      have hsecond := second.toNat_lt
      rw [ofBase64, sextetValue_sextet _ (by omega), sextetValue_sextet _ (by omega)]
      simp only [Option.bind_eq_bind, Option.bind_some, and_self, if_true,
        if_neg (sextet_ne_pad _ (show second.toNat % 16 * 4 < 64 by omega)),
        sextetValue_sextet _ (show second.toNat % 16 * 4 < 64 by omega)]
      rw [firstByte first (by omega), ← Nat.add_zero (second.toNat % 16 * 4),
        secondByte second _ (by omega)]
  | case4 first second third bytes ih =>
      have hfirst := first.toNat_lt
      have hsecond := second.toNat_lt
      have hthird := third.toNat_lt
      rw [ofBase64, sextetValue_sextet _ (by omega), sextetValue_sextet _ (by omega)]
      have hnot : ¬(toBase64 bytes = [] ∧ sextet (third.toNat % 64) = '=') :=
        fun h => sextet_ne_pad _ (by omega) h.2
      simp only [Option.bind_eq_bind, Option.bind_some, if_neg hnot, ih,
        sextetValue_sextet _ (show second.toNat % 16 * 4 + third.toNat / 64 < 64 by omega),
        sextetValue_sextet _ (show third.toNat % 64 < 64 by omega)]
      rw [firstByte first (by omega), secondByte second _ (by omega), thirdByte]

theorem length_toBase64 (bytes : List UInt8) :
    (toBase64 bytes).length = 4 * ((bytes.length + 2) / 3) := by
  fun_induction toBase64 bytes with
  | case1 => rfl
  | case2 first => simp
  | case3 first second => simp
  | case4 first second third bytes ih =>
      simp only [List.length_cons, ih]
      omega

end TextCodec
