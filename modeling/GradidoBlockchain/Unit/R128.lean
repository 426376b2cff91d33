import GradidoBlockchain.Lib.LongDivision
import Mathlib.Algebra.Order.Ring.Nat
import Mathlib.Data.Nat.ModEq
import Mathlib.Tactic.Common
import Mathlib.Tactic.Linarith
import Mathlib.Tactic.Ring

/-!
# Fixed-point numbers

`r128.h` as far as the decay uses it, in the portable form that `R128_STDC_ONLY` selects, and the
two multiplications that `unit.c` brings itself. Words of 64 bits that are shifted together are
written as one number of 128 bits.
-/

namespace GradidoBlockchain

/-- A number of 64 bits before the point and 64 after it. -/
structure R128 where
  lo : UInt64
  hi : UInt64
  deriving DecidableEq, Repr

namespace R128

/-- The number in units of `2 ^ -64`, read without a sign. -/
def value (x : R128) : ℕ := x.hi.toNat * 2 ^ 64 + x.lo.toNat

/-- Two words, cut to 64 bits. -/
def ofWords (lo hi : ℕ) : R128 := ⟨.ofNat lo, .ofNat hi⟩

def zero : R128 := ⟨0, 0⟩

def one : R128 := ⟨0, 1⟩

def min : R128 := ⟨0, 0x8000000000000000⟩

def max : R128 := ⟨0xffffffffffffffff, 0x7fffffffffffffff⟩

def isNeg (x : R128) : Bool := x.hi.toInt64 < 0

def neg (x : R128) : R128 := if x.lo ≠ 0 then ⟨~~~x.lo + 1, ~~~x.hi⟩ else ⟨0, ~~~x.hi + 1⟩

def fromInt (v : Int64) : R128 := ⟨0, v.toUInt64⟩

def toInt (x : R128) : Int64 :=
  if x.hi.toInt64 < 0 then x.hi.toInt64 + (if x.lo ≠ 0 then 1 else 0) else x.hi.toInt64

def round (x : R128) : R128 :=
  ⟨0, x.hi + (if 0x8000000000000000 + (if x.hi.toInt64 < 0 then 1 else 0) ≤ x.lo then 1 else 0)⟩

/-! ### Multiplication -/

/-- `r128Mul_specialized_factor`, whose second factor has nothing before the point, in numbers: no
sum of its words overflows. -/
def mulSpecializedFactor (a b : R128) : R128 :=
  let p1 := a.hi.toNat * b.lo.toNat
  let low := a.lo.toNat * b.lo.toNat / 2 ^ 64 + p1 % 2 ^ 64
  ofWords low (p1 / 2 ^ 64 + low / 2 ^ 64)

/-- `r128Mul_precise`, in numbers as well. -/
def mulPrecise (a b : R128) : R128 :=
  let p1 := a.hi.toNat * b.lo.toNat
  let p2 := a.lo.toNat * b.hi.toNat
  let low := a.lo.toNat * b.lo.toNat / 2 ^ 64 + p1 % 2 ^ 64 + p2 % 2 ^ 64
  ofWords low (p1 / 2 ^ 64 + p2 / 2 ^ 64 + a.hi.toNat * b.hi.toNat + low / 2 ^ 64)

/-! ### Division -/

/-- One line of `r128__clz64`. -/
def clzStep (shift : ℕ) (state : ℕ × ℕ) : ℕ × ℕ :=
  if state.2 / 2 ^ shift ≠ 0 then (state.1 - shift, state.2 / 2 ^ shift) else state

/-- `r128__clz64`. -/
def clz64 (x : ℕ) : ℕ :=
  let state := clzStep 1 (clzStep 2 (clzStep 4 (clzStep 8 (clzStep 16 (clzStep 32 (64, x))))))
  state.1 - state.2

/-- `r128__udiv64`. -/
def udiv64 (nlo nhi d : ℕ) : ℕ × ℕ := ((nhi * 2 ^ 32 + nlo) / d % 2 ^ 32, (nhi * 2 ^ 32 + nlo) % d)

/-- A digit of a quotient and what is left of the dividend, as `r128__udiv128` finds both of its
digits and `r128__udiv` does. -/
def divDigit (base : ℕ) (estimate : ℕ → ℕ → ℕ → ℕ × ℕ) (n2 n1 n0 d1 d0 : ℕ) : ℕ × ℕ :=
  let estimated := if n2 < d1 then estimate n1 n2 d1 else (base - 1, (n1 + d1) % base)
  let q := LongDivision.refine base d1 d0 n0 estimated.1 estimated.2
  (q, (n1 * base + n0 + base ^ 2 - (q * d0 + q * d1 * base % base ^ 2) % base ^ 2) % base ^ 2)

/-- `r128__udiv128`: the quotient and the remainder. -/
def udiv128 (nlo nhi d : ℕ) : ℕ × ℕ :=
  let shift := clz64 d
  let n := (nhi * 2 ^ 64 + nlo) * 2 ^ shift % 2 ^ 128
  let d := d * 2 ^ shift % 2 ^ 64
  let first :=
    divDigit (2 ^ 32) udiv64 (n / 2 ^ 96) (n / 2 ^ 64 % 2 ^ 32) (n / 2 ^ 32 % 2 ^ 32) (d / 2 ^ 32)
      (d % 2 ^ 32)
  let second :=
    divDigit (2 ^ 32) udiv64 (first.2 / 2 ^ 32) (first.2 % 2 ^ 32) (n % 2 ^ 32) (d / 2 ^ 32)
      (d % 2 ^ 32)
  (first.1 * 2 ^ 32 + second.1, second.2 / 2 ^ shift)

/-- What `r128__norm` leaves: a dividend of three words, the highest one by itself, and the
divisor. -/
structure Scaled where
  above : ℕ
  dividend : ℕ
  divisor : ℕ

/-- `r128__norm`; `none` is its overflow. A shift by nothing, which it keeps apart,
moves no bit here. -/
def norm (n d : R128) : Option Scaled :=
  if d.hi ≠ 0 then
    let shift := clz64 d.hi.toNat
    some
      ⟨n.value * 2 ^ shift / 2 ^ 128, n.value * 2 ^ shift % 2 ^ 128, d.value * 2 ^ shift % 2 ^ 128⟩
  else
    let shift := clz64 d.lo.toNat
    if clz64 n.hi.toNat ≤ shift then none
    else some ⟨n.value * 2 ^ shift / 2 ^ 64 % 2 ^ 64, n.lo.toNat * 2 ^ shift % 2 ^ 64 * 2 ^ 64,
      d.lo.toNat * 2 ^ shift % 2 ^ 64 * 2 ^ 64⟩

/-- `r128__udiv`. -/
def udiv (dividend divisor : R128) : R128 :=
  match norm dividend divisor with
  | none => max
  | some scaled =>
    let d1 := scaled.divisor / 2 ^ 64
    let d0 := scaled.divisor % 2 ^ 64
    let first :=
      divDigit (2 ^ 64) udiv128 scaled.above (scaled.dividend / 2 ^ 64) (scaled.dividend % 2 ^ 64)
        d1 d0
    let second := divDigit (2 ^ 64) udiv128 (first.2 / 2 ^ 64) (first.2 % 2 ^ 64) 0 d1 d0
    ofWords second.1 first.1

/-- `r128Div`. -/
def div (a b : R128) : R128 :=
  let n := if a.isNeg then a.neg else a
  if b.lo = 0 ∧ b.hi = 0 then if a.isNeg then min else max
  else
    let d := if b.isNeg then b.neg else b
    let q := udiv n d
    if a.isNeg ≠ b.isNeg then q.neg else q

/-! ### What the words say -/

variable {a b : R128}

theorem value_ofWords (lo hi : ℕ) : (ofWords lo hi).value = hi % 2 ^ 64 * 2 ^ 64 + lo % 2 ^ 64 := by
  rw [value, ofWords, UInt64.toNat_ofNat', UInt64.toNat_ofNat']

theorem value_injective : Function.Injective value := by
  intro ⟨leftLo, leftHi⟩ ⟨rightLo, rightHi⟩ hvalue
  have hleft := leftLo.toNat_lt
  have hright := rightLo.toNat_lt
  simp only [value] at hvalue
  rw [R128.mk.injEq, ← UInt64.toNat_inj, ← UInt64.toNat_inj]
  omega

theorem hi_eq_zero {x : R128} (hlt : x.value < 2 ^ 64) : x.hi = 0 ∧ x.lo.toNat = x.value := by
  have hlo := x.lo.toNat_lt
  rw [value] at hlt ⊢
  have hhi : x.hi.toNat = 0 := by omega
  refine ⟨?_, by omega⟩
  rw [← UInt64.toNat_inj, hhi, UInt64.toNat_zero]

theorem value_fromInt {v : Int64} (hnonneg : 0 ≤ v) :
    (fromInt v).value = v.toInt.toNat * 2 ^ 64 := by
  rw [value, fromInt, Int64.toNat_toUInt64_of_le hnonneg, UInt64.toNat_zero, Nat.add_zero,
    Int64.toNatClampNeg]

/-- The product of the numbers, cut off after the point and to 128 bits. -/
theorem value_mulPrecise (a b : R128) :
    (mulPrecise a b).value = a.value * b.value / 2 ^ 64 % 2 ^ 128 := by
  have hproduct : a.value * b.value = a.hi.toNat * b.hi.toNat * 2 ^ 128
      + (a.hi.toNat * b.lo.toNat + a.lo.toNat * b.hi.toNat) * 2 ^ 64 + a.lo.toNat * b.lo.toNat := by
    rw [value, value]
    ring
  rw [mulPrecise, value_ofWords, hproduct]
  generalize a.hi.toNat * b.hi.toNat = high
  generalize a.hi.toNat * b.lo.toNat = p1
  generalize a.lo.toNat * b.hi.toNat = p2
  generalize a.lo.toNat * b.lo.toNat = bottom
  omega

theorem toInt_toInt64 (x : UInt64) : x.toInt64.toInt = (x.toNat : ℤ).bmod (2 ^ 64) :=
  BitVec.toInt_eq_toNat_bmod _

theorem toInt64_neg_iff (x : UInt64) : x.toInt64 < 0 ↔ 2 ^ 63 ≤ x.toNat := by
  have hlt := x.toNat_lt
  rw [Int64.lt_iff_toInt_lt, toInt_toInt64, Int64.toInt_zero, Int.bmod_def]
  omega

/-- A number without its sign, as the code takes it off. -/
theorem toNat_magnitude (x : Int64) :
    (if x < 0 then -x.toUInt64 else x.toUInt64).toNat = x.toInt.natAbs := by
  have hvalue : x.toInt = (x.toUInt64.toNat : ℤ).bmod (2 ^ 64) := by
    rw [← toInt_toInt64, Int64.toInt64_toUInt64]
  have hlt := x.toUInt64.toNat_lt
  have hsign : x < 0 ↔ x.toInt < 0 := by rw [Int64.lt_iff_toInt_lt, Int64.toInt_zero]
  rw [hvalue, Int.bmod_def] at hsign
  rw [hvalue, Int.bmod_def]
  by_cases hneg : x < 0
  · have hlow := hsign.1 hneg
    rw [if_pos hneg, UInt64.toNat_neg]
    simp only [UInt64.size]
    omega
  · have hlow := mt hsign.2 hneg
    rw [if_neg hneg]
    omega

/-- The word that a rounded number has before the point; a number read as negative is rounded away
from zero as well. -/
theorem toNat_hi_round (x : R128) :
    x.round.hi.toNat =
      (x.value + 2 ^ 63 - (if 2 ^ 127 ≤ x.value then 1 else 0)) / 2 ^ 64 % 2 ^ 64 := by
  have hlo := x.lo.toNat_lt
  have hhi := x.hi.toNat_lt
  have hneg : (2 ^ 127 ≤ x.value) ↔ x.hi.toInt64 < 0 := by
    rw [toInt64_neg_iff, value]
    omega
  simp only [hneg]
  rw [round, value]
  simp only [UInt64.le_iff_toNat_le]
  by_cases hsign : x.hi.toInt64 < 0
  · rw [if_pos hsign, if_pos hsign]
    by_cases hup : (0x8000000000000000 + 1 : UInt64).toNat ≤ x.lo.toNat
    · rw [if_pos hup, UInt64.toNat_add, UInt64.toNat_one]
      rw [show (0x8000000000000000 + 1 : UInt64).toNat = 2 ^ 63 + 1 from rfl] at hup
      omega
    · rw [if_neg hup, UInt64.toNat_add, UInt64.toNat_zero]
      rw [show (0x8000000000000000 + 1 : UInt64).toNat = 2 ^ 63 + 1 from rfl] at hup
      omega
  · rw [if_neg hsign, if_neg hsign]
    by_cases hup : (0x8000000000000000 + 0 : UInt64).toNat ≤ x.lo.toNat
    · rw [if_pos hup, UInt64.toNat_add, UInt64.toNat_one]
      rw [show (0x8000000000000000 + 0 : UInt64).toNat = 2 ^ 63 from rfl] at hup
      omega
    · rw [if_neg hup, UInt64.toNat_add, UInt64.toNat_zero]
      rw [show (0x8000000000000000 + 0 : UInt64).toNat = 2 ^ 63 from rfl] at hup
      omega

theorem toInt_round (x : R128) : x.round.toInt.toInt = (x.round.hi.toNat : ℤ).bmod (2 ^ 64) := by
  have hlo : x.round.lo = 0 := rfl
  rw [toInt, hlo, ← toInt_toInt64]
  simp only [ne_eq, not_true_eq_false, if_false, Int64.add_zero, ite_self]

theorem mulSpecializedFactor_eq (a : R128) {b : R128} (hhi : b.hi = 0) :
    mulSpecializedFactor a b = mulPrecise a b := by
  have hzero : b.hi.toNat = 0 := by rw [hhi]; rfl
  simp only [mulSpecializedFactor, mulPrecise, hzero, Nat.mul_zero, Nat.zero_mod, Nat.zero_div,
    Nat.add_zero]

end R128

end GradidoBlockchain
