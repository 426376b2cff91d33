import GradidoBlockchain.Unit.Numerals
import GradidoBlockchain.Unit.ToString

/-!
# Printing and reading an amount

With all four places nothing is rounded, so that `grdd_unit_from_string` reads back what
`grdd_unit_to_string` has printed.
-/

namespace GradidoBlockchain

namespace GrddUnit

open Decimal

/-- The text that a buffer holds, up to its first zero byte. -/
def textIn (buffer : Buffer) : List UInt8 := buffer.takeWhile (· != 0)

/-- The numeral that an amount is printed as. -/
def numeralOf (value : Int64) : Numeral where
  negative := showsMinus value 4
  whole := print (value.toInt.natAbs / 10000)
  fraction := some (fixed 4 value.toInt.natAbs)
  whole_digits := isDigit_print _
  fraction_digits := isDigit_fixed 4 _
  present := Or.inr rfl

theorem unitsOf_four (value : Int64) : unitsOf value 4 = value.toInt.natAbs := by
  rw [unitsOf, rounded_of_le le_rfl, Nat.sub_self, Nat.pow_zero, Nat.mul_one]

/-- With all four places nothing is cut. -/
theorem requiredSize_four (value : Int64) : requiredSize value 4 = (amountText value 4).length := by
  rw [requiredSize, if_neg (by decide), amountText, magnitudeOf_four, unitsOf_four]

theorem text_numeralOf (value : Int64) : (numeralOf value).text = amountText value 4 := by
  rw [amountText, text, unitsOf_four, signText]
  rfl

/-- The text of an amount ends where its zero byte is. -/
theorem amountText_nonzero (value : Int64) : ∀ c ∈ amountText value 4, c ≠ 0 := by
  intro c hmem
  rw [← text_numeralOf, Numeral.text, Numeral.unsigned, List.mem_append, List.mem_append] at hmem
  obtain hsign | hwhole | hfraction := hmem
  · split at hsign
    · rw [List.mem_singleton.mp hsign]
      decide
    · exact absurd hsign List.not_mem_nil
  · exact ne_zero_of_isDigit ((numeralOf value).whole_digits c hwhole)
  · obtain hpoint | hdigit := List.mem_cons.mp hfraction
    · rw [hpoint]
      decide
    · exact ne_zero_of_isDigit ((numeralOf value).fraction_digits c hdigit)

theorem magnitude_numeralOf (value : Int64) : (numeralOf value).magnitude = value.toInt.natAbs := by
  rw [Numeral.magnitude_eq, fourPlaces, numeralOf, Option.getD_some, length_fixed,
    rounded_of_le le_rfl, value_print, value_fixed]
  omega

/-- Between -1 and 0 the minus stands although the whole part is zero, and zero has none. -/
theorem amount_numeralOf (value : Int64) : (numeralOf value).amount = value.toInt := by
  have hsign : (numeralOf value).negative = decide (value < 0 ∧ value.toInt.natAbs ≠ 0) := by
    rw [← unitsOf_four]
    rfl
  rw [Numeral.amount, magnitude_numeralOf, hsign]
  by_cases hnegative : value < 0
  · have hbelow : value.toInt < 0 := Int64.lt_iff_toInt_lt.mp hnegative
    rw [if_pos (decide_eq_true ⟨hnegative, by omega⟩)]
    omega
  · have habove : ¬ value.toInt < 0 := fun hlt => hnegative (Int64.lt_iff_toInt_lt.mpr hlt)
    rw [if_neg (fun hboth => hnegative (of_decide_eq_true hboth).1)]
    omega

theorem textIn_eq {text after : List UInt8} (hnonzero : ∀ c ∈ text, c ≠ 0)
    (hbegin : text ++ [0] <+: after) : textIn after = text := by
  obtain ⟨rest, rfl⟩ := hbegin
  rw [textIn, List.append_assoc, List.takeWhile_append_of_pos]
  · exact List.append_nil text
  · intro c hmem
    exact bne_iff_ne.mpr (hnonzero c hmem)

/-- What is printed with four places into a buffer that holds it is read back as it was. -/
theorem toString_readBack {printer : Printer} (hplain : printer.Plain) {buffer : Buffer}
    {value : Int64} (hroom : (amountText value 4).length < buffer.length)
    (hrange : value.toInt.natAbs / 10000 ≤ 922337203685476) (resultGdd : Int64) :
    ∃ answer after, toString printer buffer value 4 = .ok (answer, after) ∧
      fromString resultGdd (textIn after) = .ok (true, value) := by
  have hfits : ¬ Exceeds value (placesOf 4) := fun hexceeds => absurd hexceeds.1 (by decide)
  have hfour : placesOf 4 = 4 := rfl
  obtain ⟨answer, after, hrun, -, -, hprinted, -⟩ :=
    printed hplain (show 0 < buffer.length by omega) 4 hfits
  rw [hfour, requiredSize_four] at hprinted
  have htext := textIn_eq (amountText_nonzero value) (hprinted hroom)
  have hinteger : (numeralOf value).integerPart ≤ maxIntegerPart := by
    rw [Numeral.integerPart, magnitude_numeralOf, maxIntegerPart]
    omega
  obtain ⟨result, hread, hresult⟩ :=
    fromString_numeral (numeralOf value) (text_numeralOf value) hinteger resultGdd
  rw [amount_numeralOf] at hresult
  refine ⟨answer, after, hrun, ?_⟩
  rw [htext, hread, Int64.toInt_inj.mp hresult]

/-- The largest amount above -1 that is not zero. -/
theorem toString_readBack_small :
    ∃ answer after, toString .reference (List.replicate 8 1) (-1) 4 = .ok (answer, after) ∧
      fromString 7 (textIn after) = .ok (true, -1) :=
  toString_readBack ⟨fun _ => rfl, fun _ => rfl⟩ (by decide) (by decide) 7

end GrddUnit

end GradidoBlockchain
