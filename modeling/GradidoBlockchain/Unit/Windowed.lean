import GradidoBlockchain.Unit.Balances

/-!
# The windows against the bits

The two factors of a number of seconds are up to 24 units of `2 ^ -64` apart. On a large amount that
is up to twelve units of the amount, and on any amount it decides where the exact product comes
close to a middle between two whole amounts.
-/

namespace GradidoBlockchain

namespace GrddUnit

open Truncated Halving

variable {gdd duration : Int64}

theorem close_within_year (time : ℕ) (htime : time < yearSeconds) :
    powerOf time ≤ windowPowerOf time + 24 ∧ windowPowerOf time ≤ powerOf time + 24 := by
  apply powers_close
  rw [yearSeconds] at htime
  omega

/-- The windows stray by no more units than the amount has in the slack of the factors. -/
theorem windowed_stray {amount k : ℕ} (hamount : amount * 24 ≤ k * (2 * 2 ^ 63)) (seconds : ℕ) :
    decayed (2 ^ 63) yearSeconds powerOf amount seconds ≤
        decayed (2 ^ 63) yearSeconds windowPowerOf amount seconds + k ∧
      decayed (2 ^ 63) yearSeconds windowPowerOf amount seconds ≤
        decayed (2 ^ 63) yearSeconds powerOf amount seconds + k :=
  ⟨decayed_le_add powerOf_law.half_pos powerOf_law.period_pos hamount
      (fun time htime => (close_within_year time htime).1) seconds,
    decayed_le_add powerOf_law.half_pos powerOf_law.period_pos hamount
      (fun time htime => (close_within_year time htime).2) seconds⟩

/-- On no amount do the windows stray by more than twelve units. -/
theorem calculateDecayWindowed_near (hgdd : 0 ≤ gdd) (hduration : 0 ≤ duration) :
    ∃ windowed bits : Int64, calculateDecayWindowed gdd duration = .ok windowed ∧
      calculateDecay gdd duration = .ok bits ∧ |windowed.toInt - bits.toInt| ≤ 12 := by
  obtain ⟨windowed, hwindowed, hwindowedval⟩ := calculateDecayWindowed_eq hgdd hduration
  obtain ⟨bits, hbits, hbitsval⟩ := calculateDecay_eq hgdd hduration
  have hlt := amount_lt gdd
  have hstray :=
    windowed_stray (show gdd.toInt.toNat * 24 ≤ 12 * (2 * 2 ^ 63) by omega) duration.toInt.toNat
  refine ⟨windowed, bits, hwindowed, hbits, ?_⟩
  rw [abs_le]
  omega

theorem calculateDecayWindowed_near_max :
    ∃ windowed bits : Int64, calculateDecayWindowed maxAmount 3600000 = .ok windowed ∧
      calculateDecay maxAmount 3600000 = .ok bits ∧ |windowed.toInt - bits.toInt| ≤ 12 :=
  calculateDecayWindowed_near (by decide) (by decide)

/-- The two functions agree where what both tables leave of the amount is rounded alike. -/
theorem calculateDecayWindowed_eq_of_nearest (hgdd : 0 ≤ gdd) (hduration : 0 ≤ duration)
    (hnearest : decayed (2 ^ 63) yearSeconds windowPowerOf gdd.toInt.toNat duration.toInt.toNat
      = decayed (2 ^ 63) yearSeconds powerOf gdd.toInt.toNat duration.toInt.toNat) :
    calculateDecayWindowed gdd duration = calculateDecay gdd duration := by
  obtain ⟨windowed, hwindowed, hwindowedval⟩ := calculateDecayWindowed_eq hgdd hduration
  obtain ⟨bits, hbits, hbitsval⟩ := calculateDecay_eq hgdd hduration
  rw [hwindowed, hbits, Except.ok.injEq, ← Int64.toInt_inj, hwindowedval, hbitsval, hnearest]

/-- The windows cut off what the bits cut off, or no middle between two whole amounts lies at
the exact product of the amount and the powers of the seconds, or so little below it that
what is cut off, less than one unit of every power for each bit that is set after the first,
could reach over it. -/
def FarFromMiddle (amount duration : ℕ) : Prop :=
  let rest := amount / 2 ^ (duration / yearSeconds)
  let seconds := duration % yearSeconds
  CutsAlike seconds ∨
    NoMiddle (2 ^ 63) (rest * (2 ^ 64 * exactPower seconds - (bitsSet seconds - 1 : ℕ)))
      (rest * (2 ^ 64 * exactPower seconds))

theorem decayed_eq_of_farFromMiddle {amount seconds : ℕ} (hfar : FarFromMiddle amount seconds) :
    decayed (2 ^ 63) yearSeconds windowPowerOf amount seconds =
      decayed (2 ^ 63) yearSeconds powerOf amount seconds := by
  have htime := Nat.mod_lt seconds powerOf_law.period_pos
  have hlt : seconds % yearSeconds < 2 ^ 25 := by
    rw [yearSeconds] at htime ⊢
    omega
  rw [decayed, decayed]
  rcases hfar with hcuts | hclear
  · rw [hcuts.powers_eq hlt]
  · have hbits := (powerOf_product hlt).scaled (amount / 2 ^ (seconds / yearSeconds))
    have hwindows :=
      (windowPowerOf_product (seconds % yearSeconds)).scaled (amount / 2 ^ (seconds / yearSeconds))
    push_cast at hbits hwindows hclear
    exact hclear.nearest_eq powerOf_law.half_pos (by exact_mod_cast hwindows)
      (by exact_mod_cast hbits)

/-- On an amount that is far from a middle the windows give what the bits give. -/
theorem calculateDecayWindowed_agrees (hgdd : 0 ≤ gdd) (hduration : 0 ≤ duration)
    (hfar : FarFromMiddle gdd.toInt.toNat duration.toInt.toNat) :
    calculateDecayWindowed gdd duration = calculateDecay gdd duration :=
  calculateDecayWindowed_eq_of_nearest hgdd hduration (decayed_eq_of_farFromMiddle hfar)

theorem exactPower_346 :
    exactPower 346 =
      ((decayPower 1 * decayPower 3 * decayPower 4 * decayPower 6 * decayPower 8 : ℕ) : ℚ) /
        (2 ^ 64) ^ 5 := by
  norm_num [exactPower, ideal, bitWeight]
  ring

/-- The windows of 346 seconds cut off other products than the bits, which does not show on a
hundred thousand. Those of 1303 seconds and two years cut off the same ones. -/
theorem calculateDecayWindowed_agrees_346 :
    calculateDecayWindowed 1000000000 346 = calculateDecay 1000000000 346 ∧
      calculateDecayWindowed 99999999999237 63115207 = calculateDecay 99999999999237 63115207 := by
  refine ⟨calculateDecayWindowed_agrees (by decide) (by decide) (.inr ?_),
    calculateDecayWindowed_agrees (by decide) (by decide) (.inl (by decide))⟩
  have hbits : bitsSet 346 = 5 := by decide
  have hpowers : decayPower 1 = 18446743263345587163 ∧ decayPower 3 = 18446740832253907398 ∧
      decayPower 4 = 18446737590798832767 ∧ decayPower 6 = 18446718142080346313 ∧
      decayPower 8 = 18446640347411451525 := by decide
  obtain ⟨hone, hthree, hfour, hsix, height⟩ := hpowers
  change NoMiddle (2 ^ 63) ((1000000000 : ℕ) * (2 ^ 64 * exactPower 346 - (bitsSet 346 - 1 : ℕ)))
    ((1000000000 : ℕ) * (2 ^ 64 * exactPower 346))
  rw [exactPower_346, hbits, hone, hthree, hfour, hsix, height]
  apply noMiddle_of_between (k := 999992399) <;> norm_num

/-- A little less than ten billion after 346 seconds. -/
theorem calculateDecayWindowed_ne :
    ¬ ∀ gdd duration : Int64, 0 ≤ gdd → gdd ≤ 100000000000000 → 0 ≤ duration →
      calculateDecayWindowed gdd duration = calculateDecay gdd duration := by
  intro hagree
  have hbits : calculateDecay 99999999999237 346 = .ok 99999240014517 := by decide
  have hwindowed : calculateDecayWindowed 99999999999237 346 = .ok 99999240014518 := by decide
  have heq := hagree 99999999999237 346 (by decide) (by decide) (by decide)
  rw [hbits, hwindowed] at heq
  exact absurd heq (by decide)

end GrddUnit

end GradidoBlockchain
