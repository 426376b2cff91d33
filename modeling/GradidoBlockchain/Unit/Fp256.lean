import Mathlib.Algebra.Order.Ring.Nat
import Mathlib.Tactic.Common
import Mathlib.Tactic.Linarith
import Mathlib.Tactic.Ring

/-!
# Products of 256 bits

`fp256_mul.c`: the product of two numbers of four words each, row by row, out of products of two
words that are put together from their halves. No carry is lost on the way.
-/

namespace GradidoBlockchain

/-- Four words, the lowest first. -/
structure Fp256 where
  d0 : UInt64
  d1 : UInt64
  d2 : UInt64
  d3 : UInt64
  deriving DecidableEq, Repr

namespace Fp256

def value (x : Fp256) : ℕ :=
  x.d0.toNat + 2 ^ 64 * (x.d1.toNat + 2 ^ 64 * (x.d2.toNat + 2 ^ 64 * x.d3.toNat))

theorem value_mk (d0 d1 d2 d3 : UInt64) :
    value ⟨d0, d1, d2, d3⟩ =
      d0.toNat + 2 ^ 64 * (d1.toNat + 2 ^ 64 * (d2.toNat + 2 ^ 64 * d3.toNat)) :=
  rfl

/-- The carry of a sum, which is asked for as `sum < part` once the sum has been cut to a word. -/
def carry (sum part : UInt64) : UInt64 := if sum < part then 1 else 0

/-- `LL_MUL64`: the upper and the lower word of a product. -/
def llMul64 (a b : UInt64) : UInt64 × UInt64 :=
  let ah := a >>> 32
  let al := a &&& 0xffffffff
  let bh := b >>> 32
  let bl := b &&& 0xffffffff
  let t1 := al * bh
  let t2 := ah * bl
  let rl := al * bl
  let rh := ah * bh
  let t1 := t1 + (rl >>> 32)
  let rl := rl &&& 0xffffffff
  let t1 := t1 + t2
  let rh := if t1 < t2 then rh + 0x100000000 else rh
  (rh + (t1 >>> 32), rl ||| (t1 <<< 32))

/-- A product in the first row: what is carried on, and the word at its place. -/
def firstPlace (a b carried : UInt64) : UInt64 × UInt64 :=
  let (hi, r) := llMul64 a b
  let r := r + carried
  (hi + carry r carried, r)

/-- The lowest product of a later row, on top of the word that the rows before it have left. -/
def lowestPlace (a b r : UInt64) : UInt64 × UInt64 :=
  let (hi, lo) := llMul64 a b
  let r := r + lo
  (hi + carry r lo, r)

/-- Another product of a later row. -/
def laterPlace (a b r carried : UInt64) : UInt64 × UInt64 :=
  let (hi, lo) := llMul64 a b
  let r := r + carried
  let hi := hi + carry r carried
  let r := r + lo
  (hi + carry r lo, r)

/-- The row of `bd[0]` in `ll_u256_mul`: the word it settles, and the four above it. -/
def firstRow (a : Fp256) (b : UInt64) : UInt64 × Fp256 :=
  let (hi, rd) := llMul64 a.d0 b
  let (t, r1) := firstPlace a.d1 b hi
  let (hi, r2) := firstPlace a.d2 b t
  let (r0, r3) := firstPlace a.d3 b hi
  (rd, ⟨r1, r2, r3, r0⟩)

/-- The rows of `bd[1]`, `bd[2]` and `bd[3]`, in each of which the registers are
one further round. -/
def laterRow (a : Fp256) (b : UInt64) (r : Fp256) : UInt64 × Fp256 :=
  let (hi, rd) := lowestPlace a.d0 b r.d0
  let (t, r1) := laterPlace a.d1 b r.d1 hi
  let (hi, r2) := laterPlace a.d2 b r.d2 t
  let (r0, r3) := laterPlace a.d3 b r.d3 hi
  (rd, ⟨r1, r2, r3, r0⟩)

/-- `fp256_mul` with the `ll_u256_mul` it calls: the upper and the lower half of the product. -/
def mul (a b : Fp256) : Fp256 × Fp256 :=
  let (rd0, r) := firstRow a b.d0
  let (rd1, r) := laterRow a b.d1 r
  let (rd2, r) := laterRow a b.d2 r
  let (rd3, r) := laterRow a b.d3 r
  (r, ⟨rd0, rd1, rd2, rd3⟩)

/-! ### Products of two words -/

variable {a b r carried : UInt64}

theorem toNat_add_carry (x y : UInt64) :
    (x + y).toNat + 2 ^ 64 * (carry (x + y) y).toNat = x.toNat + y.toNat := by
  have hx := x.toNat_lt
  have hy := y.toNat_lt
  simp only [carry, UInt64.lt_iff_toNat_lt, UInt64.toNat_add]
  by_cases hcarry : (x.toNat + y.toNat) % 2 ^ 64 < y.toNat
  · rw [if_pos hcarry, UInt64.toNat_one]
    omega
  · rw [if_neg hcarry, UInt64.toNat_zero]
    omega

theorem toNat_upperHalf (x : UInt64) : (x >>> 32).toNat = x.toNat / 2 ^ 32 := by
  rw [UInt64.toNat_shiftRight, show (32 : UInt64).toNat % 64 = 32 from rfl,
    Nat.shiftRight_eq_div_pow]

theorem toNat_lowerHalf (x : UInt64) : (x &&& 0xffffffff).toNat = x.toNat % 2 ^ 32 := by
  rw [UInt64.toNat_and, show (0xffffffff : UInt64).toNat = 2 ^ 32 - 1 from rfl,
    Nat.and_two_pow_sub_one_eq_mod]

theorem toNat_halves (x y : UInt64) :
    ((x &&& (0xffffffff : UInt64)) ||| (y <<< (32 : UInt64))).toNat =
      x.toNat % 2 ^ 32 + 2 ^ 32 * (y.toNat % 2 ^ 32) := by
  have hshifted : (y <<< 32).toNat = 2 ^ 32 * (y.toNat % 2 ^ 32) := by
    rw [UInt64.toNat_shiftLeft, show (32 : UInt64).toNat % 64 = 32 from rfl, Nat.shiftLeft_eq]
    omega
  rw [UInt64.toNat_or, hshifted, toNat_lowerHalf, Nat.or_comm,
    ← Nat.two_pow_add_eq_or_of_lt (Nat.mod_lt _ (Nat.two_pow_pos 32)), Nat.add_comm]

theorem half_mul_half_le {x y : ℕ} (hx : x < 2 ^ 32) (hy : y < 2 ^ 32) :
    x * y ≤ (2 ^ 32 - 1) * (2 ^ 32 - 1) :=
  Nat.mul_le_mul (by omega) (by omega)

theorem llMul64_exact (a b : UInt64) :
    (llMul64 a b).2.toNat + 2 ^ 64 * (llMul64 a b).1.toNat = a.toNat * b.toNat := by
  have hah : a.toNat / 2 ^ 32 < 2 ^ 32 := Nat.div_lt_of_lt_mul a.toNat_lt
  have hbh : b.toNat / 2 ^ 32 < 2 ^ 32 := Nat.div_lt_of_lt_mul b.toNat_lt
  have hal : a.toNat % 2 ^ 32 < 2 ^ 32 := Nat.mod_lt _ (Nat.two_pow_pos 32)
  have hbl : b.toNat % 2 ^ 32 < 2 ^ 32 := Nat.mod_lt _ (Nat.two_pow_pos 32)
  have hproduct : a.toNat * b.toNat = (a.toNat / 2 ^ 32) * (b.toNat / 2 ^ 32) * 2 ^ 64
      + ((a.toNat % 2 ^ 32) * (b.toNat / 2 ^ 32) + (a.toNat / 2 ^ 32) * (b.toNat % 2 ^ 32)) * 2 ^ 32
      + (a.toNat % 2 ^ 32) * (b.toNat % 2 ^ 32) := by
    conv_lhs => rw [← Nat.div_add_mod a.toNat (2 ^ 32), ← Nat.div_add_mod b.toNat (2 ^ 32)]
    ring
  have hhigh := half_mul_half_le hah hbh
  have hcross := half_mul_half_le hal hbh
  have hcross' := half_mul_half_le hah hbl
  have hlow := half_mul_half_le hal hbl
  rw [hproduct]
  simp only [llMul64, toNat_halves, UInt64.toNat_add, toNat_upperHalf, apply_ite UInt64.toNat,
    UInt64.lt_iff_toNat_lt, UInt64.toNat_mul, toNat_lowerHalf,
    show (0x100000000 : UInt64).toNat = 2 ^ 32 from rfl]
  generalize (a.toNat / 2 ^ 32) * (b.toNat / 2 ^ 32) = high at hhigh ⊢
  generalize (a.toNat % 2 ^ 32) * (b.toNat / 2 ^ 32) = t1 at hcross ⊢
  generalize (a.toNat / 2 ^ 32) * (b.toNat % 2 ^ 32) = t2 at hcross' ⊢
  generalize (a.toNat % 2 ^ 32) * (b.toNat % 2 ^ 32) = low at hlow ⊢
  rw [Nat.mod_eq_of_lt (by omega : high < 2 ^ 64), Nat.mod_eq_of_lt (by omega : t1 < 2 ^ 64),
    Nat.mod_eq_of_lt (by omega : t2 < 2 ^ 64), Nat.mod_eq_of_lt (by omega : low < 2 ^ 64),
    Nat.mod_eq_of_lt (by omega : t1 + low / 2 ^ 32 < 2 ^ 64)]
  split <;> omega

/-! ### Rows

At each place a product of two words, and at most two words added to it, fit in two words. -/

/-- What a sum loses at its word it carries: the word above takes it in, as long as the sum of all
parts fits in two words. -/
theorem carried_exact {hi r part : UInt64} {total : ℕ}
    (htotal : r.toNat + part.toNat + 2 ^ 64 * hi.toNat = total) (hfits : total < 2 ^ 64 * 2 ^ 64) :
    (r + part).toNat + 2 ^ 64 * (hi + carry (r + part) part).toNat = total := by
  have hsum := toNat_add_carry r part
  rw [UInt64.toNat_add hi, Nat.mod_eq_of_lt (by omega)]
  omega

theorem product_le (a b : UInt64) : a.toNat * b.toNat ≤ (2 ^ 64 - 1) * (2 ^ 64 - 1) :=
  Nat.mul_le_mul (Nat.le_sub_one_of_lt a.toNat_lt) (Nat.le_sub_one_of_lt b.toNat_lt)

theorem firstPlace_exact (a b carried : UInt64) :
    (firstPlace a b carried).2.toNat + 2 ^ 64 * (firstPlace a b carried).1.toNat =
      a.toNat * b.toNat + carried.toNat := by
  have hproduct := llMul64_exact a b
  have hbound := product_le a b
  have hcarried := carried.toNat_lt
  show ((llMul64 a b).2 + carried).toNat +
      2 ^ 64 * ((llMul64 a b).1 + carry ((llMul64 a b).2 + carried) carried).toNat = _
  apply carried_exact <;> omega

theorem lowestPlace_exact (a b r : UInt64) :
    (lowestPlace a b r).2.toNat + 2 ^ 64 * (lowestPlace a b r).1.toNat =
      a.toNat * b.toNat + r.toNat := by
  have hproduct := llMul64_exact a b
  have hbound := product_le a b
  have hr := r.toNat_lt
  show (r + (llMul64 a b).2).toNat +
      2 ^ 64 * ((llMul64 a b).1 + carry (r + (llMul64 a b).2) (llMul64 a b).2).toNat = _
  apply carried_exact <;> omega

theorem laterPlace_exact (a b r carried : UInt64) :
    (laterPlace a b r carried).2.toNat + 2 ^ 64 * (laterPlace a b r carried).1.toNat
      = a.toNat * b.toNat + r.toNat + carried.toNat := by
  have hproduct := llMul64_exact a b
  have hbound := product_le a b
  have hr := r.toNat_lt
  have hcarried := carried.toNat_lt
  -- the word that was carried here, and then the lower one of the product
  have hfirst : (r + carried).toNat + 2 ^ 64 * ((llMul64 a b).1 + carry (r + carried) carried).toNat
      = r.toNat + carried.toNat + 2 ^ 64 * (llMul64 a b).1.toNat := carried_exact rfl (by omega)
  show (r + carried + (llMul64 a b).2).toNat +
      2 ^ 64 *
        ((llMul64 a b).1 + carry (r + carried) carried +
          carry (r + carried + (llMul64 a b).2) (llMul64 a b).2).toNat = _
  apply carried_exact <;> omega

theorem firstRow_exact (a : Fp256) (b : UInt64) :
    (firstRow a b).1.toNat + 2 ^ 64 * (firstRow a b).2.value = a.value * b.toNat := by
  have hlowest := llMul64_exact a.d0 b
  have hsecond := firstPlace_exact a.d1 b (llMul64 a.d0 b).1
  have hthird := firstPlace_exact a.d2 b (firstPlace a.d1 b (llMul64 a.d0 b).1).1
  have hfourth :=
    firstPlace_exact a.d3 b (firstPlace a.d2 b (firstPlace a.d1 b (llMul64 a.d0 b).1).1).1
  simp only [firstRow, value, Nat.add_mul, Nat.mul_assoc]
  omega

theorem laterRow_exact (a : Fp256) (b : UInt64) (r : Fp256) :
    (laterRow a b r).1.toNat + 2 ^ 64 * (laterRow a b r).2.value = a.value * b.toNat + r.value := by
  have hlowest := lowestPlace_exact a.d0 b r.d0
  have hsecond := laterPlace_exact a.d1 b r.d1 (lowestPlace a.d0 b r.d0).1
  have hthird := laterPlace_exact a.d2 b r.d2 (laterPlace a.d1 b r.d1 (lowestPlace a.d0 b r.d0).1).1
  have hfourth :=
    laterPlace_exact a.d3 b r.d3
      (laterPlace a.d2 b r.d2 (laterPlace a.d1 b r.d1 (lowestPlace a.d0 b r.d0).1).1).1
  simp only [laterRow, value, Nat.add_mul, Nat.mul_assoc]
  omega

/-- The product is exact, in eight words. -/
theorem mul_exact (a b : Fp256) :
    (mul a b).2.value + 2 ^ 256 * (mul a b).1.value = a.value * b.value := by
  have hfirst := firstRow_exact a b.d0
  have hsecond := laterRow_exact a b.d1 (firstRow a b.d0).2
  have hthird := laterRow_exact a b.d2 (laterRow a b.d1 (firstRow a b.d0).2).2
  have hfourth := laterRow_exact a b.d3 (laterRow a b.d2 (laterRow a b.d1 (firstRow a b.d0).2).2).2
  have hproduct : a.value * b.value =
      a.value * b.d0.toNat +
        2 ^ 64 *
          (a.value * b.d1.toNat +
            2 ^ 64 * (a.value * b.d2.toNat + 2 ^ 64 * (a.value * b.d3.toNat))) := by
    rw [show b.value =
      b.d0.toNat + 2 ^ 64 * (b.d1.toNat + 2 ^ 64 * (b.d2.toNat + 2 ^ 64 * b.d3.toNat)) from rfl]
    ring
  rw [hproduct]
  simp only [mul, value_mk]
  omega

end Fp256

end GradidoBlockchain
