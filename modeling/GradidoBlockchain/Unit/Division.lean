import GradidoBlockchain.Unit.R128

/-!
# The reciprocal of a factor

What `r128Div` makes of one and a factor below one. A digit of the quotient is exact unless the
remainder that corrects it was cut to a digit, and then it is too small by two at most.
-/

namespace GradidoBlockchain

namespace R128

open LongDivision

/-! ### Leading zeros -/

/-- What a line of `r128__clz64` keeps: how far `x` has been shifted, and that the rest
fits in `width` bits. -/
structure Counted (x width : ℕ) (state : ℕ × ℕ) : Prop where
  count_le : state.1 ≤ 64
  pos : 0 < state.2
  fits : state.2 < 2 ^ width
  low : state.2 * 2 ^ (64 - state.1) ≤ x
  high : x < (state.2 + 1) * 2 ^ (64 - state.1)
  room : width ≤ state.1

theorem Counted.step {x : ℕ} {state : ℕ × ℕ} (width : ℕ)
    (hcounted : Counted x (width + width) state) : Counted x width (clzStep width state) := by
  obtain ⟨count, rest⟩ := state
  obtain ⟨hcount, hpos, hfits, hlow, hhigh, hroom⟩ := hcounted
  simp only at hcount hpos hfits hlow hhigh hroom
  rw [clzStep]
  by_cases hshift : rest / 2 ^ width = 0
  · simp only [hshift, ne_eq, not_true_eq_false, if_false]
    have hsmall : rest < 2 ^ width := by
      rw [Nat.div_eq_zero_iff] at hshift
      exact hshift.resolve_left (Nat.two_pow_pos width).ne'
    exact ⟨hcount, hpos, hsmall, hlow, hhigh, by omega⟩
  · simp only [ne_eq, hshift, not_false_eq_true, if_true]
    have hpow : 2 ^ (64 - (count - width)) = 2 ^ width * 2 ^ (64 - count) := by
      rw [← Nat.pow_add]
      congr 1
      omega
    have hscaled := Nat.div_mul_le_self rest (2 ^ width)
    have hnext := Nat.lt_div_mul_add (a := rest) (Nat.two_pow_pos width)
    have hunit := Nat.two_pow_pos (64 - count)
    refine ⟨by simp only; omega, Nat.pos_of_ne_zero hshift, ?_, ?_, ?_, by simp only; omega⟩
    · rw [Nat.div_lt_iff_lt_mul (Nat.two_pow_pos width), ← Nat.pow_add]
      exact hfits
    · simp only [hpow]
      calc _ = rest / 2 ^ width * 2 ^ width * 2 ^ (64 - count) := by ring
        _ ≤ rest * 2 ^ (64 - count) := Nat.mul_le_mul_right _ hscaled
        _ ≤ x := hlow
    · simp only [hpow]
      calc x < (rest + 1) * 2 ^ (64 - count) := hhigh
        _ ≤ (rest / 2 ^ width * 2 ^ width + 2 ^ width) * 2 ^ (64 - count) :=
          Nat.mul_le_mul_right _ (by omega)
        _ = _ := by ring

/-- A shift by the leading zeros brings the highest bit to the top. -/
theorem clz64_shifts {x : ℕ} (hpos : 0 < x) (hlt : x < 2 ^ 64) :
    clz64 x ≤ 63 ∧ 2 ^ 63 ≤ x * 2 ^ clz64 x ∧ x * 2 ^ clz64 x < 2 ^ 64 := by
  have hstart : Counted x (32 + 32) (64, x) := ⟨le_rfl, hpos, hlt, by simp, by simp, le_rfl⟩
  have hcounted := (((((hstart.step 32).step 16).step 8).step 4).step 2).step 1
  rw [clz64]
  generalize clzStep 1 _ = state at hcounted ⊢
  obtain ⟨count, rest⟩ := state
  obtain ⟨hcount, hrest, hfits, hlow, hhigh, hroom⟩ := hcounted
  simp only at hcount hrest hfits hlow hhigh hroom ⊢
  have hone : rest = 1 := by omega
  subst hone
  have hpow : 2 ^ (64 - count) * 2 ^ (count - 1) = 2 ^ 63 := by
    rw [← Nat.pow_add]
    congr 1
    omega
  have hunit := Nat.two_pow_pos (count - 1)
  refine ⟨by omega, ?_, ?_⟩
  · nlinarith
  · have hscaled : x * 2 ^ (count - 1) < (1 + 1) * 2 ^ (64 - count) * 2 ^ (count - 1) :=
      Nat.mul_lt_mul_of_pos_right hhigh hunit
    nlinarith

theorem clz64_of_top {x : ℕ} (htop : 2 ^ 63 ≤ x) (hlt : x < 2 ^ 64) : clz64 x = 0 := by
  obtain ⟨-, -, hshifted⟩ := clz64_shifts (Nat.lt_of_lt_of_le (Nat.two_pow_pos 63) htop) hlt
  by_contra hne
  have htwo : 2 ^ 1 ≤ 2 ^ clz64 x := Nat.pow_le_pow_right Nat.two_pos (Nat.one_le_iff_ne_zero.2 hne)
  have hscaled : 2 ^ 63 * 2 ^ 1 ≤ x * 2 ^ clz64 x := Nat.mul_le_mul htop htwo
  omega

/-! ### One digit -/

variable {base n2 n1 n0 d1 d0 : ℕ} {estimate : ℕ → ℕ → ℕ → ℕ × ℕ}

/-- The remainder, computed in two digits that wrap around. -/
theorem wrapped_sub {modulus a c rest : ℕ} (carry : ℕ) (heq : a + carry * modulus = c + rest)
    (hlt : rest < modulus) : (a + modulus - c % modulus) % modulus = rest := by
  have hpos : 0 < modulus := by omega
  have hmod := Nat.mod_lt c hpos
  have hcongr : a + modulus - c % modulus + c ≡ rest + c [MOD modulus] := by
    have hsplit := Nat.div_add_mod c modulus
    have hleft : a + modulus - c % modulus + c = a + modulus * (c / modulus + 1) := by
      rw [Nat.mul_add, Nat.mul_one]
      omega
    have hright : rest + c = a + modulus * carry := by
      rw [Nat.mul_comm modulus carry]
      omega
    rw [hleft, hright]
    unfold Nat.ModEq
    rw [Nat.add_mul_mod_self_left, Nat.add_mul_mod_self_left]
  have hcancel := Nat.ModEq.add_right_cancel' c hcongr
  rwa [Nat.ModEq, Nat.mod_eq_of_lt hlt] at hcancel

/-- Where the correction finds the digit, the remainder is right as well. -/
theorem divDigit_eq_of_quotient (hdivisor : d1 * base + d0 < base ^ 2) (hpos : 0 < d1 * base + d0)
    (hquotient : (divDigit base estimate n2 n1 n0 d1 d0).1 =
      ((n2 * base + n1) * base + n0) / (d1 * base + d0)) :
    divDigit base estimate n2 n1 n0 d1 d0 =
      (((n2 * base + n1) * base + n0) / (d1 * base + d0),
        ((n2 * base + n1) * base + n0) % (d1 * base + d0)) := by
  apply Prod.ext
  · exact hquotient
  · rw [divDigit] at hquotient ⊢
    simp only at hquotient ⊢
    rw [hquotient]
    have hdivmod := Nat.div_add_mod ((n2 * base + n1) * base + n0) (d1 * base + d0)
    have hlt := Nat.mod_lt ((n2 * base + n1) * base + n0) hpos
    rw [Nat.add_mod_mod]
    apply wrapped_sub n2 _ (hlt.trans hdivisor)
    generalize ((n2 * base + n1) * base + n0) / (d1 * base + d0) = q at hdivmod ⊢
    generalize ((n2 * base + n1) * base + n0) % (d1 * base + d0) = rest at hdivmod ⊢
    calc _ = (n2 * base + n1) * base + n0 := by ring
      _ = _ := by rw [← hdivmod]; ring

theorem divDigit_below (base : ℕ) (estimate : ℕ → ℕ → ℕ → ℕ × ℕ) (hd0 : d0 < base) (hd1 : d1 < base)
    (hn1 : n1 < base) (hn0 : n0 < base) (hbelow : n2 < d1)
    (hestimate : estimate n1 n2 d1 = ((n2 * base + n1) / d1, (n2 * base + n1) % d1)) :
    divDigit base estimate n2 n1 n0 d1 d0 =
      (((n2 * base + n1) * base + n0) / (d1 * base + d0),
        ((n2 * base + n1) * base + n0) % (d1 * base + d0)) := by
  apply divDigit_eq_of_quotient
  · nlinarith
  · nlinarith
  · rw [divDigit]
    simp only [if_pos hbelow, hestimate]
    apply refine_quotient hd1 hd0 hn0
    nlinarith

/-- With the leading digits equal the remainder may be cut, and the digit then is the largest
one, found up to two. -/
theorem divDigit_top (base : ℕ) (estimate : ℕ → ℕ → ℕ → ℕ × ℕ) (hd0 : d0 < base) (hd1 : d1 < base)
    (hhalf : base ≤ 2 * d1) (hn0 : n0 < base) (hbelow : d1 * base + n1 < d1 * base + d0) :
    (divDigit base estimate d1 n1 n0 d1 d0).1 = ((d1 * base + n1) * base + n0) / (d1 * base + d0) ∨
      ((d1 * base + n1) * base + n0) / (d1 * base + d0) = base - 1 ∧
        base - 1 ≤ (divDigit base estimate d1 n1 n0 d1 d0).1 + 2 ∧
        (divDigit base estimate d1 n1 n0 d1 d0).1 ≤ base - 1 := by
  have hpos : 0 < d1 * base + d0 := by nlinarith
  have hbase : base - 1 + 1 = base := by omega
  have hle : ((d1 * base + n1) * base + n0) / (d1 * base + d0) ≤ base - 1 := by
    apply Nat.le_of_lt_succ
    rw [Nat.div_lt_iff_lt_mul hpos, Nat.succ_eq_add_one, hbase]
    nlinarith
  rw [divDigit]
  simp only [lt_irrefl, if_false]
  by_cases hwrap : n1 + d1 < base
  · left
    rw [Nat.mod_eq_of_lt hwrap]
    apply refine_eq (by omega) hd1 hd0 (by omega) _ hle
    calc (base - 1) * d1 + (n1 + d1) = (base - 1 + 1) * d1 + n1 := by ring
      _ = _ := by rw [hbase, Nat.mul_comm]
  · right
    refine ⟨le_antisymm hle ?_, le_refine_add_two hhalf hd1, refine_le⟩
    rw [Nat.le_div_iff_mul_le hpos]
    obtain ⟨last, hlast⟩ : ∃ last, last + 1 = base := ⟨base - 1, hbase⟩
    rw [show base - 1 = last by omega]
    have hcut : base * base ≤ (n1 + d1) * base := Nat.mul_le_mul_right base (Nat.le_of_not_lt hwrap)
    have hsecond : last * d0 ≤ base * base := Nat.mul_le_mul (by omega) hd0.le
    subst hlast
    nlinarith

/-! ### Two digits of 32 bits -/

theorem udiv64_eq (n1 : ℕ) {n2 d1 : ℕ} (hn1 : n1 < 2 ^ 32) (hbelow : n2 < d1) :
    udiv64 n1 n2 d1 = ((n2 * 2 ^ 32 + n1) / d1, (n2 * 2 ^ 32 + n1) % d1) := by
  rw [udiv64, Nat.mod_eq_of_lt]
  rw [Nat.div_lt_iff_lt_mul (by omega)]
  nlinarith

/-- A quotient of 64 bits is exact, or at most two below one that has a whole digit more than
the lower 32 bits. -/
theorem udiv128_near {nlo nhi d : ℕ} (htop : 2 ^ 63 ≤ d) (hlt : d < 2 ^ 64) (hnlo : nlo < 2 ^ 64)
    (hnhi : nhi / 2 ^ 32 < d / 2 ^ 32) :
    (udiv128 nlo nhi d).1 = (nhi * 2 ^ 64 + nlo) / d ∨
      (nhi * 2 ^ 64 + nlo) / d ≤ (udiv128 nlo nhi d).1 + 2 ∧
        (udiv128 nlo nhi d).1 ≤ (nhi * 2 ^ 64 + nlo) / d ∧ 2 ^ 32 - 3 ≤ (udiv128 nlo nhi d).1 := by
  obtain ⟨n, hn⟩ : ∃ n, n = nhi * 2 ^ 64 + nlo := ⟨_, rfl⟩
  obtain ⟨d1, hd1⟩ : ∃ d1, d1 = d / 2 ^ 32 := ⟨_, rfl⟩
  obtain ⟨d0, hd0⟩ : ∃ d0, d0 = d % 2 ^ 32 := ⟨_, rfl⟩
  have hdivisor : d1 * 2 ^ 32 + d0 = d := by omega
  have hd0lt : d0 < 2 ^ 32 := by omega
  have hd1lt : d1 < 2 ^ 32 := by omega
  have hfirst :
      divDigit (2 ^ 32) udiv64 (n / 2 ^ 96) (n / 2 ^ 64 % 2 ^ 32) (n / 2 ^ 32 % 2 ^ 32) d1 d0 =
        (n / 2 ^ 32 / d, n / 2 ^ 32 % d) := by
    have hwords : (n / 2 ^ 96 * 2 ^ 32 + n / 2 ^ 64 % 2 ^ 32) * 2 ^ 32 + n / 2 ^ 32 % 2 ^ 32 =
        n / 2 ^ 32 := by
      rw [show 2 ^ 96 = 2 ^ 64 * 2 ^ 32 from rfl, ← Nat.div_div_eq_div_mul, Nat.div_add_mod',
        show 2 ^ 64 = 2 ^ 32 * 2 ^ 32 from rfl, ← Nat.div_div_eq_div_mul, Nat.div_add_mod']
    have hbelow : n / 2 ^ 96 < d1 := by omega
    have hn1 : n / 2 ^ 64 % 2 ^ 32 < 2 ^ 32 := by omega
    have hn0 : n / 2 ^ 32 % 2 ^ 32 < 2 ^ 32 := by omega
    have hexact :=
      divDigit_below (2 ^ 32) udiv64 hd0lt hd1lt hn1 hn0 hbelow (udiv64_eq _ hn1 hbelow)
    simpa only [hwords, hdivisor] using hexact
  have hrun : (udiv128 nlo nhi d).1 =
      n / 2 ^ 32 / d * 2 ^ 32 +
        (divDigit (2 ^ 32) udiv64 (n / 2 ^ 32 % d / 2 ^ 32) (n / 2 ^ 32 % d % 2 ^ 32) (n % 2 ^ 32)
          d1 d0).1 := by
    have hfits : (nhi * 2 ^ 64 + nlo) % 2 ^ 128 = n := by omega
    rw [udiv128, clz64_of_top htop hlt]
    simp only [Nat.pow_zero, Nat.mul_one, hfits, Nat.mod_eq_of_lt hlt, ← hd1, ← hd0, hfirst]
  rw [← hn, hrun]
  have hpos : 0 < d := by omega
  have hrest := Nat.mod_lt (n / 2 ^ 32) hpos
  have hsplit : n / d = n / 2 ^ 32 / d * 2 ^ 32 + (n / 2 ^ 32 % d * 2 ^ 32 + n % 2 ^ 32) / d := by
    have hdivmod := Nat.div_add_mod (n / 2 ^ 32) d
    have hn' : n = n / 2 ^ 32 % d * 2 ^ 32 + n % 2 ^ 32 + d * (n / 2 ^ 32 / d * 2 ^ 32) := by
      have hlow := Nat.div_add_mod n (2 ^ 32)
      rw [← hdivmod] at hlow
      linarith
    conv_lhs => rw [hn', Nat.add_mul_div_left _ _ hpos]
    exact Nat.add_comm _ _
  rw [hsplit]
  generalize n / 2 ^ 32 % d = rest at hrest ⊢
  have hwords : (rest / 2 ^ 32 * 2 ^ 32 + rest % 2 ^ 32) * 2 ^ 32 + n % 2 ^ 32 =
      rest * 2 ^ 32 + n % 2 ^ 32 := by
    rw [Nat.div_add_mod']
  have hrest1 : rest % 2 ^ 32 < 2 ^ 32 := by omega
  have hrest0 : n % 2 ^ 32 < 2 ^ 32 := by omega
  obtain hbelow | hequal : rest / 2 ^ 32 < d1 ∨ d1 = rest / 2 ^ 32 := by omega
  · left
    have hexact :=
      divDigit_below (2 ^ 32) udiv64 hd0lt hd1lt hrest1 hrest0 hbelow (udiv64_eq _ hrest1 hbelow)
    simp only [hexact, hwords, hdivisor]
  · have hbelow : d1 * 2 ^ 32 + rest % 2 ^ 32 < d1 * 2 ^ 32 + d0 := by omega
    have hlast := divDigit_top (2 ^ 32) udiv64 hd0lt hd1lt (by omega) hrest0 hbelow
    rw [← hequal] at hwords ⊢
    simp only [hwords, hdivisor] at hlast
    omega

/-! ### One by a factor -/

theorem refine_zero {lead next q rest : ℕ} : refine base lead 0 next q rest = q := by
  cases q with
  | zero => rfl
  | succ q => rw [refine, if_neg (by omega)]

theorem divDigit_single {n2 d1 : ℕ} (hbelow : n2 < d1) :
    (divDigit (2 ^ 64) udiv128 n2 0 0 d1 0).1 = (udiv128 0 n2 d1).1 := by
  rw [divDigit]
  simp only [if_pos hbelow]
  exact refine_zero

/-- One by a factor is divided in two digits, with the factor shifted to the top. -/
theorem div_one_eq {factor : R128} (hhi : factor.hi = 0) (htwo : 2 ≤ factor.lo.toNat) :
    let shift := clz64 factor.lo.toNat
    let first := divDigit (2 ^ 64) udiv128 (2 ^ shift) 0 0 (factor.lo.toNat * 2 ^ shift) 0
    let second := divDigit (2 ^ 64) udiv128 (first.2 / 2 ^ 64) (first.2 % 2 ^ 64) 0 (factor.lo.toNat * 2 ^ shift) 0
    div one factor = ofWords second.1 first.1 := by
  obtain ⟨hshift, htop, hlt⟩ := clz64_shifts (by omega) factor.lo.toNat_lt
  have hsmall : clz64 factor.lo.toNat < 63 := by
    apply Nat.lt_of_le_of_ne hshift
    intro heq
    rw [heq] at hlt
    omega
  have hlo : factor.lo ≠ 0 := by
    intro hzero
    rw [hzero, UInt64.toNat_zero] at htwo
    exact absurd htwo (by decide)
  have hpow : 2 ^ clz64 factor.lo.toNat < 2 ^ 64 := Nat.pow_lt_pow_right (by decide) (by omega)
  have hneg : factor.isNeg = false := by rw [isNeg, hhi]; rfl
  have hclz : ¬ clz64 one.hi.toNat ≤ clz64 factor.lo.toNat := by
    rw [show clz64 one.hi.toNat = 63 by decide]
    exact Nat.not_le_of_gt hsmall
  have hvalue : one.value = 2 ^ 64 := by decide
  have hover : 2 ^ 64 * 2 ^ clz64 factor.lo.toNat / 2 ^ 64 % 2 ^ 64 =
      2 ^ clz64 factor.lo.toNat := by
    rw [Nat.mul_div_cancel_left _ (Nat.two_pow_pos 64), Nat.mod_eq_of_lt hpow]
  have hdividend : one.lo.toNat * 2 ^ clz64 factor.lo.toNat % 2 ^ 64 * 2 ^ 64 = 0 := by
    rw [show one.lo.toNat = 0 from rfl, Nat.zero_mul, Nat.zero_mod, Nat.zero_mul]
  rw [div, if_neg (fun hzero => hlo hzero.1), hneg, show one.isNeg = false from by decide]
  simp only [Bool.false_eq_true, if_false, ne_eq, not_true_eq_false, udiv, norm, hhi, hclz, hvalue,
    hover, hdividend, Nat.mod_eq_of_lt hlt, Nat.mul_div_cancel _ (Nat.two_pow_pos 64),
    Nat.mul_mod_left, Nat.zero_div, Nat.zero_mod]

/-- The reciprocal of a factor below one is not below one. -/
theorem one_le_div_one {factor : R128} (hhi : factor.hi = 0) (htwo : 2 ≤ factor.lo.toNat) :
    2 ^ 64 ≤ (div one factor).value := by
  obtain ⟨hshift, htop, hlt⟩ := clz64_shifts (by omega) factor.lo.toNat_lt
  have hbelow : 2 ^ clz64 factor.lo.toNat < factor.lo.toNat * 2 ^ clz64 factor.lo.toNat := by
    have hpos := Nat.two_pow_pos (clz64 factor.lo.toNat)
    nlinarith
  have hhalf : 2 ^ clz64 factor.lo.toNat ≤ 2 ^ 62 := by
    have hpos := Nat.two_pow_pos (clz64 factor.lo.toNat)
    apply Nat.pow_le_pow_right Nat.two_pos
    by_contra hlarge
    have heq : clz64 factor.lo.toNat = 63 := by omega
    rw [heq] at hlt
    omega
  have hdigit : 1 ≤
      2 ^ clz64 factor.lo.toNat * 2 ^ 64 / (factor.lo.toNat * 2 ^ clz64 factor.lo.toNat) := by
    rw [Nat.le_div_iff_mul_le (by omega), Nat.one_mul]
    have hfactor := factor.lo.toNat_lt
    nlinarith
  have hlarge : 2 ^ clz64 factor.lo.toNat * 2 ^ 64 / (factor.lo.toNat * 2 ^ clz64 factor.lo.toNat) <
      2 ^ 64 := by
    rw [Nat.div_lt_iff_lt_mul (by omega)]
    nlinarith
  have hnear := udiv128_near htop hlt (Nat.two_pow_pos 64) (show 2 ^ clz64 factor.lo.toNat / 2 ^ 32 < _ by omega)
  have hrun := div_one_eq hhi htwo
  simp only at hrun
  rw [hrun, value_ofWords, divDigit_single hbelow]
  rw [Nat.add_zero] at hnear
  have hfirst :
      1 ≤ (udiv128 0 (2 ^ clz64 factor.lo.toNat) (factor.lo.toNat * 2 ^ clz64 factor.lo.toNat)).1 ∧
        (udiv128 0 (2 ^ clz64 factor.lo.toNat) (factor.lo.toNat * 2 ^ clz64 factor.lo.toNat)).1 <
          2 ^ 64 := by
    obtain hexact | ⟨-, hle, hlast⟩ := hnear
    · omega
    · omega
  rw [Nat.mod_eq_of_lt hfirst.2]
  exact Nat.le_add_right_of_le (Nat.le_mul_of_pos_left (2 ^ 64) hfirst.1)

/-- The reciprocal of a factor above one half, at most two units too small. -/
theorem div_one_near {factor : R128} (hhi : factor.hi = 0) (htop : 2 ^ 63 < factor.lo.toNat) :
    (div one factor).value * factor.lo.toNat ≤ 2 ^ 128 ∧ 2 ^ 128 < ((div one factor).value + 3) * factor.lo.toNat := by
  have hlt := factor.lo.toNat_lt
  obtain ⟨d, hd⟩ : ∃ d, d = factor.lo.toNat := ⟨_, rfl⟩
  have hrun := div_one_eq hhi (show 2 ≤ factor.lo.toNat by omega)
  simp only [← hd, clz64_of_top (hd ▸ htop.le) (hd ▸ hlt), Nat.pow_zero, Nat.mul_one] at hrun
  rw [← hd] at htop hlt ⊢
  have hnear :=
    udiv128_near htop.le hlt (Nat.two_pow_pos 64) (show 1 / 2 ^ 32 < d / 2 ^ 32 by omega)
  have hquotient : (1 * 2 ^ 64 + 0) / d = 1 := Nat.div_eq_of_lt_le (by omega) (by omega)
  have hmod : (1 * 2 ^ 64 + 0) % d = 2 ^ 64 - d := by
    rw [Nat.mod_eq_sub_mul_div, hquotient]
    omega
  have hscaled : ((1 * 2 ^ 64 + 0) * 2 ^ 64 + 0) / (d * 2 ^ 64 + 0) = 1 := by
    simp only [Nat.add_zero] at hquotient ⊢
    rw [Nat.mul_div_mul_right _ _ (Nat.two_pow_pos 64), hquotient]
  have hdigit : (udiv128 0 1 d).1 = 1 := by
    rw [hquotient] at hnear
    omega
  -- the first digit is one, and the rest of the dividend lies below the divisor
  have hfirst : divDigit (2 ^ 64) udiv128 1 0 0 d 0 = (1, (2 ^ 64 - d) * 2 ^ 64) := by
    rw [divDigit_eq_of_quotient (by omega) (by omega)
        (by rw [divDigit_single (by omega), hdigit, hscaled]), hscaled]
    congr 1
    simp only [Nat.add_zero] at hmod ⊢
    rw [Nat.mul_mod_mul_right, hmod]
  have hrest : 2 ^ 64 - d < d := by omega
  have hsecond :=
    udiv128_near htop.le hlt (Nat.two_pow_pos 64) (show (2 ^ 64 - d) / 2 ^ 32 < d / 2 ^ 32 by omega)
  rw [Nat.add_zero] at hsecond
  have hbound : (2 ^ 64 - d) * 2 ^ 64 / d < 2 ^ 64 := by
    rw [Nat.div_lt_iff_lt_mul (by omega)]
    omega
  have hle := Nat.div_mul_le_self ((2 ^ 64 - d) * 2 ^ 64) d
  have hgt := @Nat.lt_div_mul_add ((2 ^ 64 - d) * 2 ^ 64) d (by omega)
  rw [hrun, hfirst, value_ofWords, Nat.mul_div_cancel _ (Nat.two_pow_pos 64), Nat.mul_mod_left,
    divDigit_single hrest]
  generalize (2 ^ 64 - d) * 2 ^ 64 / d = quotient at hsecond hbound hle hgt
  generalize (udiv128 0 (2 ^ 64 - d) d).1 = digit at hsecond ⊢
  have hdigitlt : digit < 2 ^ 64 := by omega
  have hupper : digit ≤ quotient := by omega
  have hlower : quotient ≤ digit + 2 := by omega
  rw [Nat.mod_eq_of_lt hdigitlt, Nat.mod_eq_of_lt (show 1 < 2 ^ 64 by decide), Nat.one_mul]
  have hsplit : 2 ^ 64 * d + (2 ^ 64 - d) * 2 ^ 64 = 2 ^ 128 := by omega
  constructor
  · have hmul : digit * d ≤ quotient * d := Nat.mul_le_mul_right d hupper
    nlinarith
  · have hmul : quotient * d ≤ (digit + 2) * d := Nat.mul_le_mul_right d hlower
    nlinarith

end R128

end GradidoBlockchain
