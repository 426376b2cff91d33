import GradidoBlockchain.Unit.Fp256
import GradidoBlockchain.Unit.R128

/-!
# The multiplications of the two builds

`unit.c` multiplies in words of 128 bits where the compiler has them, and with `fp256_mul` where it
has not. Here each build is read with the widths that its words have; both compute what
`R128.mulPrecise` and `R128.mulSpecializedFactor` say in numbers.
-/

namespace GradidoBlockchain

namespace R128

/-! ### With `__int128` -/

namespace Int128

/-- A cast to `__uint128_t`. -/
def wide (x : UInt64) : BitVec 128 := x.toBitVec.setWidth 128

/-- A cast to `uint64_t`. -/
def word (x : BitVec 128) : UInt64 := .ofBitVec (x.setWidth 64)

/-- `r128Mul_specialized_factor`. -/
def mulSpecializedFactor (a b : R128) : R128 :=
  let p1 := wide a.hi * wide b.lo
  let low := ((wide a.lo * wide b.lo) >>> 64) + wide (word p1)
  ⟨word low, word ((p1 >>> 64) + (low >>> 64))⟩

/-- `r128Mul_precise`. The sum for `lo` is kept in 128 bits, and its upper word is what it
carries into `hi`. The destination may be one of the factors: once `dst->lo` has been written,
only `hi` is read of them. -/
def mulPrecise (a b : R128) : R128 :=
  let p1 := wide a.hi * wide b.lo
  let p2 := wide a.lo * wide b.hi
  let low := ((wide a.lo * wide b.lo) >>> 64) + wide (word p1) + wide (word p2)
  ⟨word low, word ((p1 >>> 64) + (p2 >>> 64) + wide a.hi * wide b.hi + (low >>> 64))⟩

end Int128

/-! ### With `fp256_mul` -/

namespace Portable

/-- A number as `fa` and `fb` hold it. -/
def toFp256 (x : R128) : Fp256 := ⟨x.lo, x.hi, 0, 0⟩

/-- `r128Mul_precise`. -/
def mulPrecise (a b : R128) : R128 :=
  let (_, rlo) := Fp256.mul (toFp256 a) (toFp256 b)
  ⟨rlo.d1, rlo.d2⟩

/-- `r128Mul_specialized_factor`. -/
def mulSpecializedFactor (a b : R128) : R128 := mulPrecise a b

end Portable

/-! ### What they compute -/

namespace Int128

theorem toNat_wide (x : UInt64) : (wide x).toNat = x.toNat := by
  have hlt := x.toNat_lt
  rw [wide, BitVec.toNat_setWidth, UInt64.toNat_toBitVec, Nat.mod_eq_of_lt (by omega)]

theorem toNat_word (x : BitVec 128) : (word x).toNat = x.toNat % 2 ^ 64 := by
  rw [word, UInt64.toNat_ofBitVec, BitVec.toNat_setWidth]

/-- A product of two words fits. -/
theorem toNat_wide_mul (x y : UInt64) : (wide x * wide y).toNat = x.toNat * y.toNat := by
  have hbound := Fp256.product_le x y
  rw [BitVec.toNat_mul, toNat_wide, toNat_wide, Nat.mod_eq_of_lt (by omega)]

theorem toNat_upperWord (x : BitVec 128) : (x >>> 64).toNat = x.toNat / 2 ^ 64 := by
  rw [BitVec.toNat_ushiftRight, Nat.shiftRight_eq_div_pow]

theorem eq_ofWords {lo hi : UInt64} {low high : ℕ} (hlo : lo.toNat = low % 2 ^ 64)
    (hhi : hi.toNat = high % 2 ^ 64) : (⟨lo, hi⟩ : R128) = ofWords low high := by
  rw [ofWords, R128.mk.injEq, ← UInt64.toNat_inj, ← UInt64.toNat_inj, UInt64.toNat_ofNat',
    UInt64.toNat_ofNat']
  exact ⟨hlo, hhi⟩

/-- No sum of the words overflows: the carries are kept. -/
theorem mulPrecise_eq (a b : R128) : mulPrecise a b = R128.mulPrecise a b := by
  have hlow := Fp256.product_le a.lo b.lo
  have hp1 := Fp256.product_le a.hi b.lo
  have hp2 := Fp256.product_le a.lo b.hi
  have hhigh := Fp256.product_le a.hi b.hi
  have hsum : (((wide a.lo * wide b.lo) >>> 64) + wide (word (wide a.hi * wide b.lo)) +
        wide (word (wide a.lo * wide b.hi))).toNat =
      a.lo.toNat * b.lo.toNat / 2 ^ 64 + a.hi.toNat * b.lo.toNat % 2 ^ 64 +
        a.lo.toNat * b.hi.toNat % 2 ^ 64 := by
    simp only [BitVec.toNat_add, toNat_upperWord, toNat_wide, toNat_word, toNat_wide_mul]
    omega
  apply eq_ofWords
  · rw [toNat_word, hsum]
  · rw [toNat_word, BitVec.toNat_add, toNat_upperWord, hsum]
    simp only [BitVec.toNat_add, toNat_upperWord, toNat_wide_mul]
    omega

theorem mulSpecializedFactor_eq (a b : R128) :
    mulSpecializedFactor a b = R128.mulSpecializedFactor a b := by
  have hlow := Fp256.product_le a.lo b.lo
  have hp1 := Fp256.product_le a.hi b.lo
  have hsum : (((wide a.lo * wide b.lo) >>> 64) + wide (word (wide a.hi * wide b.lo))).toNat
      = a.lo.toNat * b.lo.toNat / 2 ^ 64 + a.hi.toNat * b.lo.toNat % 2 ^ 64 := by
    simp only [BitVec.toNat_add, toNat_upperWord, toNat_wide, toNat_word, toNat_wide_mul]
    omega
  apply eq_ofWords
  · rw [toNat_word, hsum]
  · rw [toNat_word, BitVec.toNat_add, toNat_upperWord _, toNat_upperWord _, hsum, toNat_wide_mul]
    omega

end Int128

namespace Portable

theorem value_toFp256 (x : R128) : (toFp256 x).value = x.value := by
  rw [toFp256, Fp256.value_mk, value, UInt64.toNat_zero]
  ring

/-- The words in the middle of the product. -/
theorem value_mulPrecise (a b : R128) :
    (mulPrecise a b).value = a.value * b.value / 2 ^ 64 % 2 ^ 128 := by
  have hproduct := Fp256.mul_exact (toFp256 a) (toFp256 b)
  rw [value_toFp256, value_toFp256] at hproduct
  show (Fp256.mul (toFp256 a) (toFp256 b)).2.d2.toNat * 2 ^ 64 +
      (Fp256.mul (toFp256 a) (toFp256 b)).2.d1.toNat = _
  generalize Fp256.mul (toFp256 a) (toFp256 b) = product at hproduct ⊢
  have h0 := product.2.d0.toNat_lt
  have h1 := product.2.d1.toNat_lt
  have h2 := product.2.d2.toNat_lt
  rw [← hproduct, Fp256.value]
  omega

end Portable

/-- Both builds multiply alike: the product of the numbers, cut off after the point and to 128 bits.
Where the second factor has nothing before the point, the shorter multiplication is the same. -/
theorem multiplications_agree (a b : R128) :
    (Int128.mulPrecise a b).value = a.value * b.value / 2 ^ 64 % 2 ^ 128 ∧
      Int128.mulPrecise a b = Portable.mulPrecise a b ∧
      (b.hi = 0 → Int128.mulSpecializedFactor a b = Int128.mulPrecise a b ∧
        Portable.mulSpecializedFactor a b = Portable.mulPrecise a b) := by
  have hvalue : (Int128.mulPrecise a b).value = a.value * b.value / 2 ^ 64 % 2 ^ 128 := by
    rw [Int128.mulPrecise_eq, value_mulPrecise]
  refine ⟨hvalue, value_injective ?_, ?_⟩
  · rw [hvalue, Portable.value_mulPrecise]
  · intro hhi
    rw [Int128.mulSpecializedFactor_eq, Int128.mulPrecise_eq, mulSpecializedFactor_eq a hhi,
      Portable.mulSpecializedFactor]
    exact ⟨rfl, rfl⟩

/-- With all words full, every carry is there. -/
theorem multiplications_agree_full :
    Int128.mulSpecializedFactor ⟨0xffffffffffffffff, 0xffffffffffffffff⟩ ⟨0xffffffffffffffff, 0⟩ =
        Portable.mulSpecializedFactor ⟨0xffffffffffffffff, 0xffffffffffffffff⟩
          ⟨0xffffffffffffffff, 0⟩ ∧
      (Int128.mulPrecise ⟨0xffffffffffffffff, 0xffffffffffffffff⟩ ⟨0xffffffffffffffff, 0⟩).value =
        (2 ^ 128 - 1) * (2 ^ 64 - 1) / 2 ^ 64 := by
  obtain ⟨hvalue, hbuilds, hshorter⟩ :=
    multiplications_agree ⟨0xffffffffffffffff, 0xffffffffffffffff⟩ ⟨0xffffffffffffffff, 0⟩
  obtain ⟨hwide, hportable⟩ := hshorter rfl
  exact ⟨by rw [hwide, hportable, hbuilds], by rw [hvalue]; decide⟩

end R128

end GradidoBlockchain
