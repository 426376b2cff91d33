import GradidoBlockchain.Lib.Halving
import Mathlib.Data.List.TakeWhile

/-!
# Decimal text

Numbers as text in base ten, one byte for each digit: the value of digits, the digits of a number,
and what is left of a number when it is rounded to a few places after the point.
-/

namespace Decimal

open Halving

def minus : UInt8 := 45

def plus : UInt8 := 43

def point : UInt8 := 46

def isDigit (c : UInt8) : Bool := 48 ≤ c && c ≤ 57

def digitValue (c : UInt8) : ℕ := c.toNat - 48

/-- The number that digits stand for. -/
def value (digits : List UInt8) : ℕ := digits.foldl (fun n c => n * 10 + digitValue c) 0

variable {left right : List UInt8} {c : UInt8} {k m n : ℕ}

theorem isDigit_iff : isDigit c = true ↔ 48 ≤ c.toNat ∧ c.toNat ≤ 57 := by
  rw [isDigit, Bool.and_eq_true, decide_eq_true_iff, decide_eq_true_iff, UInt8.le_iff_toNat_le,
    UInt8.le_iff_toNat_le]
  rfl

theorem digitValue_lt (hdigit : isDigit c = true) : digitValue c < 10 := by
  obtain ⟨-, hupper⟩ := isDigit_iff.1 hdigit
  rw [digitValue]
  omega

/-! ### The value of digits -/

theorem foldl_value (digits : List UInt8) (start : ℕ) :
    digits.foldl (fun n c => n * 10 + digitValue c) start =
      start * 10 ^ digits.length + value digits := by
  induction digits generalizing start with
  | nil =>
      rw [value, List.foldl_nil, List.foldl_nil, List.length_nil, Nat.pow_zero, Nat.mul_one,
        Nat.add_zero]
  | cons c digits ih =>
    rw [value, List.foldl_cons, List.foldl_cons, ih, ih (0 * 10 + digitValue c), List.length_cons]
    ring

theorem value_nil : value [] = 0 := rfl

theorem value_append (left right : List UInt8) :
    value (left ++ right) = value left * 10 ^ right.length + value right := by
  rw [value, List.foldl_append, foldl_value]
  rfl

theorem value_singleton (c : UInt8) : value [c] = digitValue c := by
  rw [value, List.foldl_cons, List.foldl_nil, Nat.zero_mul, Nat.zero_add]

theorem value_cons (c : UInt8) (digits : List UInt8) :
    value (c :: digits) = digitValue c * 10 ^ digits.length + value digits := by
  rw [← List.singleton_append, value_append, value_singleton]

theorem value_lt {digits : List UInt8} (hdigits : ∀ c ∈ digits, isDigit c = true) :
    value digits < 10 ^ digits.length := by
  induction digits with
  | nil => exact Nat.one_pos
  | cons c digits ih =>
    have hfirst := digitValue_lt (hdigits c List.mem_cons_self)
    have hrest := ih fun other hother => hdigits other (List.mem_cons_of_mem c hother)
    rw [value_cons, List.length_cons, Nat.pow_succ]
    nlinarith

/-! ### Rounding -/

/-- `n / 10 ^ k`, rounded to a number of places; the upper one in the middle. -/
def rounded (places k n : ℕ) : ℕ := nearest (10 ^ k) (2 * (n * 10 ^ places))

/-- A whole part stays what it is. -/
theorem rounded_add (places k whole n : ℕ) :
    rounded places k (whole * 10 ^ k + n) = whole * 10 ^ places + rounded places k n := by
  have hpos : 0 < 2 * 10 ^ k := Nat.mul_pos Nat.two_pos (Nat.pow_pos (by decide))
  have hsplit : 2 * ((whole * 10 ^ k + n) * 10 ^ places) + 10 ^ k
      = 2 * (n * 10 ^ places) + 10 ^ k + 2 * 10 ^ k * (whole * 10 ^ places) := by ring
  rw [rounded, nearest, hsplit, Nat.add_mul_div_left _ _ hpos, Nat.add_comm]
  rfl

/-- A fraction is rounded to one at most. -/
theorem rounded_le (places : ℕ) (hlt : n < 10 ^ k) : rounded places k n ≤ 10 ^ places := by
  have hpos : 0 < 10 ^ k := Nat.pow_pos (by decide)
  apply Nat.le_of_lt_succ
  rw [rounded, nearest_lt_iff hpos]
  have hmul : n * 10 ^ places ≤ 10 ^ k * 10 ^ places := Nat.mul_le_mul_right _ hlt.le
  nlinarith

/-- Places that are not there are zeros. -/
theorem rounded_of_le {places : ℕ} (hle : k ≤ places) (n : ℕ) :
    rounded places k n = n * 10 ^ (places - k) := by
  have hpow : 10 ^ places = 10 ^ (places - k) * 10 ^ k := by
    rw [← Nat.pow_add, Nat.sub_add_cancel hle]
  have hpos : 0 < 10 ^ k := Nat.pow_pos (by decide)
  rw [rounded, hpow,
    show 2 * (n * (10 ^ (places - k) * 10 ^ k)) = n * 10 ^ (places - k) * (2 * 10 ^ k) by ring,
    nearest_mul hpos]

/-- The digit after the last place decides. -/
theorem rounded_append {first later : List UInt8} (hlater : ∀ c ∈ later, isDigit c = true)
    (hdigit : isDigit c = true) :
    rounded first.length (first ++ c :: later).length (value (first ++ c :: later)) =
      value first + (if 5 ≤ digitValue c then 1 else 0) := by
  have hlt := value_lt hlater
  have hsmall := digitValue_lt hdigit
  have hpos : 0 < 10 ^ later.length := Nat.pow_pos (by decide)
  have hfirst : 0 < 10 ^ first.length := Nat.pow_pos (by decide)
  rw [value_append, value_cons, List.length_append, List.length_cons, rounded, nearest]
  generalize value later = rest at hlt ⊢
  have hsplit : 2 *
          ((value first * 10 ^ (later.length + 1) + (digitValue c * 10 ^ later.length + rest)) *
            10 ^ first.length) + 10 ^ (first.length + (later.length + 1)) =
      (2 * (digitValue c * 10 ^ later.length + rest) + 10 * 10 ^ later.length +
          20 * 10 ^ later.length * value first) * 10 ^ first.length := by ring
  have hdivisor : 2 * 10 ^ (first.length + (later.length + 1)) =
      20 * 10 ^ later.length * 10 ^ first.length := by ring
  rw [hsplit, hdivisor, Nat.mul_div_mul_right _ _ hfirst, Nat.add_mul_div_left _ _ (by omega),
    Nat.add_comm]
  congr 1
  generalize 10 ^ later.length = unit at hlt hpos ⊢
  by_cases hup : 5 ≤ digitValue c
  · rw [if_pos hup]
    apply Nat.div_eq_of_lt_le <;> nlinarith
  · rw [if_neg hup]
    apply Nat.div_eq_of_lt
    nlinarith

/-- For the places that an amount has itself, the rounding adds a half and cuts. -/
theorem rounded_eq_div {places rest : ℕ} (hrest : 0 < rest) (n : ℕ) :
    rounded places (places + rest) n = (n + 10 ^ rest / 2) / 10 ^ rest := by
  obtain ⟨rest, rfl⟩ := Nat.exists_eq_succ_of_ne_zero hrest.ne'
  have hhalf : 10 ^ (rest + 1) / 2 = 5 * 10 ^ rest := by
    rw [Nat.pow_succ]
    omega
  have hsplit : 2 * (n * 10 ^ places) + 10 ^ (places + (rest + 1)) =
      (n + 5 * 10 ^ rest) * (2 * 10 ^ places) := by ring
  have hdivisor : 2 * 10 ^ (places + (rest + 1)) = 10 ^ (rest + 1) * (2 * 10 ^ places) := by ring
  rw [Nat.succ_eq_add_one, rounded, nearest, hhalf, hsplit, hdivisor,
    Nat.mul_div_mul_right _ _ (Nat.mul_pos Nat.two_pos (Nat.pow_pos (by decide)))]

/-! ### Printing -/

def digit (d : ℕ) : UInt8 := .ofNat (48 + d)

/-- The digits of a number. -/
def print (n : ℕ) : List UInt8 := (Nat.toDigits 10 n).map Char.toUInt8

/-- The last digits of a number, as many as asked for. -/
def fixed : ℕ → ℕ → List UInt8
  | 0, _ => []
  | places + 1, n => fixed places (n / 10) ++ [digit (n % 10)]

def signText (negative : Bool) : List UInt8 := if negative then [minus] else []

/-- The text of `n / 10 ^ places`, without a point if there are no places. -/
def text (negative : Bool) (places n : ℕ) : List UInt8 :=
  signText negative ++
    (print (n / 10 ^ places) ++ if places = 0 then [] else point :: fixed places n)

/-- The plain form of a number with a sign. -/
def printInt (n : ℤ) : List UInt8 := signText (n < 0) ++ print n.natAbs

theorem toUInt8_digitChar {d : ℕ} (hlt : d < 10) : d.digitChar.toUInt8 = digit d := by
  revert d
  decide

theorem print_of_lt (hlt : n < 10) : print n = [digit n] := by
  rw [print, Nat.toDigits_of_lt_base hlt, List.map_singleton, toUInt8_digitChar hlt]

theorem print_of_le (hle : 10 ≤ n) : print n = print (n / 10) ++ [digit (n % 10)] := by
  rw [print, Nat.toDigits_of_base_le (by decide) hle, List.map_append, List.map_singleton,
    toUInt8_digitChar (Nat.mod_lt n (by decide))]
  rfl

theorem length_print_pos (n : ℕ) : 0 < (print n).length := by
  rw [print, List.length_map]
  exact Nat.length_toDigits_pos

theorem length_print_le_iff (hk : 0 < k) : (print n).length ≤ k ↔ n < 10 ^ k := by
  rw [print, List.length_map]
  exact Nat.length_toDigits_le_iff (by decide) hk

theorem length_fixed (places n : ℕ) : (fixed places n).length = places := by
  induction places generalizing n with
  | zero => rfl
  | succ places ih => rw [fixed, List.length_append, ih, List.length_singleton]

theorem length_text (negative : Bool) (places n : ℕ) :
    (text negative places n).length =
      (signText negative).length + (print (n / 10 ^ places)).length +
        (if places = 0 then 0 else places + 1) := by
  rw [text, List.length_append, List.length_append, Nat.add_assoc]
  by_cases hnone : places = 0
  · rw [if_pos hnone, if_pos hnone]
    rfl
  · rw [if_neg hnone, if_neg hnone, List.length_cons, length_fixed]

/-- With zeros before it, a number is its whole part and its last digits. -/
theorem print_padded (places n : ℕ) :
    List.replicate (places + 1 - (print n).length) 48 ++ print n =
      print (n / 10 ^ places) ++ fixed places n := by
  induction places generalizing n with
  | zero =>
    have hlength := length_print_pos n
    rw [show 0 + 1 - (print n).length = 0 by omega, Nat.pow_zero, Nat.div_one, fixed,
      List.append_nil]
    rfl
  | succ places ih =>
    rw [fixed, Nat.pow_succ', ← Nat.div_div_eq_div_mul, ← List.append_assoc, ← ih]
    by_cases hlt : n < 10
    · rw [Nat.div_eq_of_lt hlt, Nat.mod_eq_of_lt hlt, print_of_lt hlt,
        print_of_lt (by decide : 0 < 10), List.length_singleton, List.length_singleton,
        Nat.add_sub_cancel, Nat.add_sub_cancel, List.replicate_succ']
      rfl
    · rw [print_of_le (Nat.le_of_not_lt hlt), List.length_append, List.length_singleton,
        Nat.add_sub_add_right, List.append_assoc]

theorem fixed_zero (places : ℕ) : fixed places 0 = List.replicate places 48 := by
  induction places with
  | zero => rfl
  | succ places ih =>
    rw [fixed, ih, List.replicate_succ']
    rfl

/-- With zeros before it, a number that has no more digits than places fills all of them. -/
theorem padded_eq_fixed (hlt : n < 10 ^ k) (hk : 0 < k) :
    List.replicate (k - (print n).length) 48 ++ print n = fixed k n := by
  induction k generalizing n with
  | zero => exact absurd hk (Nat.lt_irrefl 0)
  | succ k ih =>
    rw [fixed]
    by_cases hsmall : n < 10
    · rw [print_of_lt hsmall, List.length_singleton, Nat.add_sub_cancel, Nat.div_eq_of_lt hsmall,
        Nat.mod_eq_of_lt hsmall, fixed_zero]
    · have hlater : n / 10 < 10 ^ k := Nat.div_lt_of_lt_mul (by rwa [← Nat.pow_succ'])
      have hpos : 0 < k := by
        apply Nat.pos_of_ne_zero
        intro hzero
        rw [hzero] at hlater
        omega
      rw [print_of_le (Nat.le_of_not_lt hsmall), List.length_append, List.length_singleton,
        Nat.add_sub_add_right, ← List.append_assoc, ih hlater hpos]

/-- Without its last digits a number has fewer places. -/
theorem take_fixed (places cut n : ℕ) :
    (fixed (places + cut) n).take places = fixed places (n / 10 ^ cut) := by
  induction cut generalizing n with
  | zero =>
    rw [Nat.add_zero, Nat.pow_zero, Nat.div_one, List.take_of_length_le]
    rw [length_fixed]
  | succ cut ih =>
    rw [← Nat.add_assoc, fixed, List.take_append_of_le_length (by rw [length_fixed]; omega), ih,
      Nat.div_div_eq_div_mul, Nat.pow_succ']

/-! ### Printed digits are read back -/

theorem isDigit_digit {d : ℕ} (hlt : d < 10) : isDigit (digit d) = true := by
  revert d
  decide

theorem digitValue_digit {d : ℕ} (hlt : d < 10) : digitValue (digit d) = d := by
  revert d
  decide

theorem isDigit_print (n : ℕ) : ∀ c ∈ print n, isDigit c = true := by
  induction n using Nat.strong_induction_on with
  | h n ih =>
    by_cases hlt : n < 10
    · rw [print_of_lt hlt, List.forall_mem_singleton]
      exact isDigit_digit hlt
    · rw [print_of_le (Nat.le_of_not_lt hlt), List.forall_mem_append, List.forall_mem_singleton]
      exact ⟨ih (n / 10) (by omega), isDigit_digit (Nat.mod_lt n (by decide))⟩

theorem value_print (n : ℕ) : value (print n) = n := by
  induction n using Nat.strong_induction_on with
  | h n ih =>
    by_cases hlt : n < 10
    · rw [print_of_lt hlt, value_singleton, digitValue_digit hlt]
    · rw [print_of_le (Nat.le_of_not_lt hlt), value_append, ih (n / 10) (by omega), value_singleton,
        digitValue_digit (Nat.mod_lt n (by decide)), List.length_singleton]
      omega

theorem isDigit_fixed (places n : ℕ) : ∀ c ∈ fixed places n, isDigit c = true := by
  induction places generalizing n with
  | zero => exact List.forall_mem_nil _
  | succ places ih =>
    rw [fixed, List.forall_mem_append, List.forall_mem_singleton]
    exact ⟨ih (n / 10), isDigit_digit (Nat.mod_lt n (by decide))⟩

/-- No byte of a printed number ends a text. -/
theorem ne_zero_of_isDigit (hdigit : isDigit c = true) : c ≠ 0 := by
  intro hzero
  rw [hzero] at hdigit
  exact absurd hdigit (by decide)

theorem ne_zero_of_mem_printInt {n : ℤ} (hmem : c ∈ printInt n) : c ≠ 0 := by
  rw [printInt, List.mem_append] at hmem
  obtain hsign | hprint := hmem
  · rw [signText] at hsign
    split at hsign
    · rw [List.mem_singleton.1 hsign]
      decide
    · exact absurd hsign List.not_mem_nil
  · exact ne_zero_of_isDigit (isDigit_print _ c hprint)

theorem value_fixed (places n : ℕ) : value (fixed places n) = n % 10 ^ places := by
  induction places generalizing n with
  | zero => rw [fixed, value_nil, Nat.pow_zero, Nat.mod_one]
  | succ places ih =>
    rw [fixed, value_append, ih, value_singleton, digitValue_digit (Nat.mod_lt n (by decide)),
      List.length_singleton, Nat.pow_one, Nat.pow_succ', Nat.mod_mul]
    omega

end Decimal
