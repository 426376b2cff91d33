import GradidoBlockchain.Lib.Halving
import GradidoBlockchain.Lib.Truncated
import GradidoBlockchain.Unit.Decay

/-!
# The law behind the tables

Both tables of the decay give a factor for every second of a year, and both factors fall from one to
not less than a half. They are products of the same powers, so that neither is further below the
exact product than one unit for each multiplication.
-/

namespace GradidoBlockchain

namespace GrddUnit

open Truncated Halving

/-! ### The powers -/

/-- The entries of `DECAY_POWERS`, with nothing behind them. -/
def decayPower (i : ℕ) : ℕ := (decayPowers.getD i 0).toNat

theorem decayPower_squares : Squares (2 ^ 64) decayPower where
  one_pos := Nat.two_pow_pos 64
  first_le := by decide
  square i := by
    by_cases hin : i < 32
    · have hsquare : ∀ i < 32, decayPower (i + 1) = decayPower i * decayPower i / 2 ^ 64 := by
        decide
      exact hsquare i hin
    · have hlength : decayPowers.length = 32 := rfl
      have hnext : decayPowers.getD (i + 1) 0 = 0 := by
        rw [List.getD_eq_getElem?_getD, List.getElem?_eq_none (by omega), Option.getD_none]
      have hhere : decayPowers.getD i 0 = 0 := by
        rw [List.getD_eq_getElem?_getD, List.getElem?_eq_none (by omega), Option.getD_none]
      rw [decayPower, decayPower, hnext, hhere]
      rfl

/-- The factor of a number of seconds, from the bits of the number. -/
def powerOf (seconds : ℕ) : ℕ :=
  chain (2 ^ 64) 2 (bitFactor (2 ^ 64) decayPower) 32 0 seconds (2 ^ 64)

theorem powerOf_antitone {short long : ℕ} (hle : short ≤ long) (hlt : long < 2 ^ 32) :
    powerOf long ≤ powerOf short :=
  (decayPower_squares.falling 32).chain_antitone hle hlt

/-- Seconds in a year. -/
def yearSeconds : ℕ := 31556952

theorem powerOf_law : Law (2 ^ 63) yearSeconds powerOf where
  half_pos := Nat.two_pow_pos 63
  period_pos := by decide
  start := chain_zero (Nat.two_pow_pos 64) (fun _ => rfl) 32 0 (2 ^ 64)
  antitone early late hle hlt := powerOf_antitone hle (by rw [yearSeconds] at hlt; omega)
  half_le time htime := by
    have hlast : 2 ^ 63 ≤ powerOf (yearSeconds - 1) := by decide
    exact hlast.trans (powerOf_antitone (by omega) (by decide))

/-! ### The windows -/

/-- The entries of `DECAY_WINDOW_FACTORS`, where the digit zero stands for one. -/
def windowEntry (window digit : ℕ) : ℕ :=
  if digit = 0 then 2 ^ 64 else (readWindow window digit).lo.toNat

/-- The factor of a number of seconds, from its digits of five bits. -/
def windowPowerOf (seconds : ℕ) : ℕ := chain (2 ^ 64) (2 ^ 5) windowEntry 5 0 seconds (2 ^ 64)

theorem windowEntry_falling : Falling (2 ^ 64) (2 ^ 5) 5 windowEntry where
  one_pos := Nat.two_pow_pos 64
  base_pos := Nat.two_pow_pos 5
  zero_digit _ := rfl
  next_le window hwindow digit hdigit := by
    have hnext : ∀ window < 5, ∀ digit < 31, windowEntry window (digit + 1) ≤
        fullChain (2 ^ 64) (2 ^ 5) windowEntry window * windowEntry window digit / 2 ^ 64 := by
      decide
    exact hnext window hwindow digit (by omega)

theorem windowPowerOf_law : Law (2 ^ 63) yearSeconds windowPowerOf where
  half_pos := Nat.two_pow_pos 63
  period_pos := by decide
  start := chain_zero (Nat.two_pow_pos 64) (fun _ => rfl) 5 0 (2 ^ 64)
  antitone early late hle hlt :=
    windowEntry_falling.chain_antitone hle (by rw [yearSeconds] at hlt; omega)
  half_le time htime := by
    have hlast : 2 ^ 63 ≤ windowPowerOf (yearSeconds - 1) := by decide
    exact hlast.trans (windowEntry_falling.chain_antitone (by omega) (by decide))

/-! ### Both tables -/

/-- An entry of a window is the chain of the bits of its digit. -/
theorem windowEntry_grouped :
    Grouped (2 ^ 64) 2 (bitFactor (2 ^ 64) decayPower) windowEntry 5 5 := by
  have hchain : ∀ window < 5, ∀ digit < 2 ^ 5, windowEntry window digit
      = chain (2 ^ 64) 2 (bitFactor (2 ^ 64) decayPower) 5 (5 * window) digit (2 ^ 64) := by
    decide
  exact hchain

/-- The exact product of the powers that the bits of the seconds select. -/
def exactPower (seconds : ℕ) : ℚ := ideal 2 (bitWeight (2 ^ 64) decayPower) 25 0 seconds

/-- The bits that are set in a number of seconds within a year. -/
def bitsSet (seconds : ℕ) : ℕ := total 2 significant 25 seconds

theorem bitsSet_le (seconds : ℕ) : bitsSet seconds ≤ 25 := total_significant_le 2 25 seconds

theorem powerOf_product {seconds : ℕ} (hlt : seconds < 2 ^ 25) :
    Product (2 ^ 64) (powerOf seconds) (exactPower seconds) (bitsSet seconds) := by
  have hentry : ∀ position < 25, ∀ digit < 2, Product (2 ^ 64)
      (bitFactor (2 ^ 64) decayPower position digit) (bitWeight (2 ^ 64) decayPower position digit)
      (significant digit) :=
    fun position _ digit hdigit => decayPower_squares.entry position digit hdigit
  have hproduct :=
    Product.chain (Nat.two_pow_pos 64) Nat.two_pos hentry 0 seconds (Nat.zero_add 25).le (.start _)
  rw [powerOf, chain_of_lt (Nat.two_pow_pos 64) (fun _ => rfl) (show 25 ≤ 32 by decide) hlt]
  rwa [one_mul, Nat.zero_add] at hproduct

theorem windowPowerOf_product (seconds : ℕ) :
    Product (2 ^ 64) (windowPowerOf seconds) (exactPower seconds) (bitsSet seconds) :=
  windowEntry_grouped.product (Nat.two_pow_pos 64) Nat.two_pos (show 5 * 5 ≤ 25 by decide)
    (fun position _ digit hdigit => decayPower_squares.entry position digit hdigit) seconds

theorem powerOf_near {seconds : ℕ} (hlt : seconds < 2 ^ 25) :
    (powerOf seconds : ℚ) ≤ 2 ^ 64 * exactPower seconds ∧
      2 ^ 64 * exactPower seconds ≤ powerOf seconds + 24 := by
  obtain ⟨-, -, hbelow, hnear, -⟩ := powerOf_product hlt
  have hbits : ((bitsSet seconds - 1 : ℕ) : ℚ) ≤ (24 : ℕ) :=
    Nat.cast_le.2 (Nat.sub_le_sub_right (bitsSet_le seconds) 1)
  push_cast at hbelow hnear hbits
  exact ⟨hbelow, by linarith⟩

/-- The two factors of a number of seconds are at most 24 units apart. -/
theorem powers_close {seconds : ℕ} (hlt : seconds < 2 ^ 25) :
    powerOf seconds ≤ windowPowerOf seconds + 24 ∧
      windowPowerOf seconds ≤ powerOf seconds + 24 := by
  have hbits := bitsSet_le seconds
  have hbelow := (powerOf_product hlt).close (windowPowerOf_product seconds)
  have habove := (windowPowerOf_product seconds).close (powerOf_product hlt)
  omega

/-- Every digit of five bits above the lowest one that is not zero has one bit set at most, so that
the windows cut off what the bits cut off. -/
def CutsAlike (seconds : ℕ) : Prop :=
  ∀ window < 5, seconds % 32 ^ window = 0 ∨ total 2 significant 5 (seconds / 32 ^ window % 32) ≤ 1

instance (seconds : ℕ) : Decidable (CutsAlike seconds) :=
  inferInstanceAs (Decidable (∀ window < 5, _))

theorem CutsAlike.powers_eq {seconds : ℕ} (hcuts : CutsAlike seconds) (hlt : seconds < 2 ^ 25) :
    windowPowerOf seconds = powerOf seconds := by
  rw [powerOf, chain_of_lt (Nat.two_pow_pos 64) (fun _ => rfl) (show 25 ≤ 32 by decide) hlt]
  exact windowEntry_grouped.chain_eq (Nat.two_pow_pos 64) Nat.two_pos (fun _ => rfl)
    (Nat.zero_add 5).le fun window hwindow =>
    (hcuts window hwindow).imp_left fun hmod => ⟨rfl, hmod⟩

end GrddUnit

end GradidoBlockchain
