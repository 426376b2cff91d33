import GradidoBlockchain.Unit.FromString

/-!
# The texts of amounts

What a text of an amount is, and for which texts `grdd_unit_from_string` takes these
texts and no others.
-/

namespace GradidoBlockchain

namespace GrddUnit

open Decimal

variable {p rest digits : List UInt8}

/-! ### The grammar -/

/-- The text of a fraction, if there is one. -/
def pointText : Option (List UInt8) → List UInt8
  | none => []
  | some digits => point :: digits

/-- An amount as it may be written: a sign, digits and a fraction, of which the digits or the
fraction may be missing. -/
structure Numeral where
  negative : Bool
  whole : List UInt8
  fraction : Option (List UInt8)
  whole_digits : ∀ c ∈ whole, isDigit c = true
  fraction_digits : ∀ c ∈ fraction.getD [], isDigit c = true
  present : whole ≠ [] ∨ fraction.isSome

namespace Numeral

def unsigned (numeral : Numeral) : List UInt8 := numeral.whole ++ pointText numeral.fraction

def text (numeral : Numeral) : List UInt8 :=
  (if numeral.negative then [minus] else []) ++ numeral.unsigned

/-- The number without its sign, rounded to four places. -/
def magnitude (numeral : Numeral) : ℕ :=
  rounded 4 (numeral.fraction.getD []).length (value (numeral.whole ++ numeral.fraction.getD []))

/-- The number that is written, rounded to four places. -/
def amount (numeral : Numeral) : ℤ :=
  if numeral.negative then -(numeral.magnitude : ℤ) else numeral.magnitude

/-- The integer part after the rounding. -/
def integerPart (numeral : Numeral) : ℤ := (numeral.magnitude / 10000 : ℕ)

theorem magnitude_eq (numeral : Numeral) :
    numeral.magnitude = value numeral.whole * 10000 + fourPlaces (numeral.fraction.getD []) := by
  rw [magnitude, value_append, rounded_add]
  rfl

/-- Without a sign a numeral begins with a digit or a point. -/
theorem headD_unsigned (numeral : Numeral) :
    isDigit (numeral.unsigned.headD 0) = true ∨ numeral.unsigned.headD 0 = point := by
  by_cases hwhole : numeral.whole = []
  · right
    obtain hsome | hsome := numeral.present
    · exact absurd hwhole hsome
    · obtain ⟨digits, hdigits⟩ := Option.isSome_iff_exists.1 hsome
      rw [unsigned, hwhole, hdigits]
      rfl
  · exact Or.inl (isDigit_headD numeral.whole_digits hwhole _)

theorem headD_ne (numeral : Numeral) :
    isSpace (numeral.unsigned.headD 0) = false ∧ numeral.unsigned.headD 0 ≠ minus ∧
      numeral.unsigned.headD 0 ≠ plus := by
  obtain hdigit | hpoint := numeral.headD_unsigned
  · obtain ⟨hspace, hminus, hplus, -⟩ := not_isSpace_of_isDigit hdigit
    exact ⟨hspace, hminus, hplus⟩
  · rw [hpoint]
    decide

theorem afterSign_text (numeral : Numeral) :
    afterSign numeral.text = numeral.unsigned ∧
      (numeral.text.headD 0 = minus ↔ numeral.negative = true) := by
  rw [afterSign, text]
  cases numeral.negative with
  | false =>
    have hminus := numeral.headD_ne.2.1
    exact ⟨if_neg hminus, fun heq => absurd heq hminus, fun heq => absurd heq (by decide)⟩
  | true => exact ⟨if_pos rfl, fun _ => rfl, fun _ => rfl⟩

end Numeral

theorem fractionOf_pointText {fraction : Option (List UInt8)}
    (hdigits : ∀ c ∈ fraction.getD [], isDigit c = true) :
    fractionOf (pointText fraction) = fraction.getD [] ∧ tailOf (pointText fraction) = [] ∧
      Stops isDigit (pointText fraction) := by
  cases fraction with
  | none => exact ⟨rfl, rfl, by intro c hc; cases hc⟩
  | some digits =>
    obtain ⟨htake, hdrop⟩ :=
      @takeWhile_append_of_stops [] digits isDigit hdigits (by intro c hc; cases hc)
    rw [List.append_nil] at htake hdrop
    refine ⟨htake, hdrop, ?_⟩
    intro c hc
    rw [pointText, List.head?_cons, Option.mem_def, Option.some.injEq] at hc
    rw [← hc]
    rfl

/-- A text that ends with its fraction. -/
theorem pointText_of_tailOf (hend : tailOf rest = []) :
    ∃ fraction, rest = pointText fraction ∧ (∀ c ∈ fraction.getD [], isDigit c = true) ∧
      fractionOf rest = fraction.getD [] := by
  by_cases hpoint : rest.headD 0 = point
  · refine ⟨some (rest.tail.takeWhile isDigit), ?_, fun c hc => List.mem_takeWhile_imp hc,
      if_pos hpoint⟩
    rw [tailOf, if_pos hpoint] at hend
    have hall := @List.takeWhile_append_dropWhile _ isDigit rest.tail
    rw [hend, List.append_nil] at hall
    rw [pointText, hall]
    exact eq_cons_of_headD (by decide) hpoint
  · rw [tailOf, if_neg hpoint] at hend
    exact ⟨none, hend, List.forall_mem_nil _, if_neg hpoint⟩

/-! ### What the code takes -/

/-- The text is a numeral in range and becomes its amount, or it is refused and `resultGdd`
stays what it is. -/
def ParsesExactly (text : CString) : Prop := ∀ resultGdd : Int64,
  (∀ numeral : Numeral, numeral.text = text.bytes → numeral.integerPart ≤ maxIntegerPart →
    ∃ result, fromString resultGdd text.bytes = .ok (true, result) ∧ result.toInt = numeral.amount)
    ∧
  ((∀ numeral : Numeral, numeral.text = text.bytes → maxIntegerPart < numeral.integerPart) →
    fromString resultGdd text.bytes = .ok (false, resultGdd))

/-- After its sign the text has blanks or a sign, which `strtoll` takes, and is a numeral
in range otherwise. -/
def Lenient (text : List UInt8) : Prop :=
  ∃ blanks sign digits fraction, Number (afterSign text) blanks sign digits (pointText fraction) ∧
    (∀ c ∈ fraction.getD [], isDigit c = true) ∧ (blanks ≠ [] ∨ sign ≠ []) ∧
    |signedValue sign digits + (fourPlaces (fraction.getD []) / 10000 : ℕ)| ≤ maxIntegerPart

/-- `strtoll` answers with the largest number, and the fraction becomes one. -/
def Carries (text : List UInt8) : Prop :=
  ∃ blanks sign digits rest, Number (afterSign text) blanks sign digits rest ∧
    2 ^ 63 - 1 ≤ signedValue sign digits ∧ fourPlaces (fractionOf rest) = 10000

/-! ### From the code to the grammar -/

theorem abs_clamp_le {n carry : ℤ} (hcarry : 0 ≤ carry) (hcarry' : carry ≤ 1) :
    |clamp n + carry| ≤ maxIntegerPart ↔ |n + carry| ≤ maxIntegerPart := by
  have hmax : maxIntegerPart = 922337203685476 := rfl
  rw [abs_le, abs_le, clamp]
  omega

theorem carry_le (hdigits : ∀ c ∈ digits, isDigit c = true) :
    ((fourPlaces digits / 10000 : ℕ) : ℤ) ≤ 1 := by
  have hle := fourPlaces_le hdigits
  omega

theorem fractionOf_digits (p : List UInt8) : ∀ c ∈ fractionOf p, isDigit c = true := by
  intro c hc
  rw [fractionOf] at hc
  split at hc
  · exact List.mem_takeWhile_imp hc
  · cases hc

theorem eq_sign_append (text : List UInt8) :
    (if text.headD 0 = minus then [minus] else []) ++ afterSign text = text := by
  rw [afterSign]
  by_cases hminus : text.headD 0 = minus
  · rw [if_pos hminus, if_pos hminus, List.singleton_append, ← eq_cons_of_headD (by decide) hminus]
  · rw [if_neg hminus, if_neg hminus, List.nil_append]

theorem Number.head_ne {blanks sign : List UInt8}
    (hnumber : Number p blanks sign digits rest) : p.headD 0 ≠ point := by
  rw [hnumber.text]
  by_cases hblanks : blanks = []
  · rw [hblanks, List.nil_append]
    obtain rfl | rfl | rfl := hnumber.single
    · exact (not_isSpace_of_isDigit (isDigit_headD hnumber.digit hnumber.some_digit rest)).2.2.2
    · exact (by decide : minus ≠ point)
    · exact (by decide : plus ≠ point)
  · rw [headD_append hblanks]
    intro hpoint
    have hspace := hnumber.blank (blanks.headD 0) (by
      rw [eq_cons_of_headD (by decide) hpoint]
      exact List.mem_cons_self)
    rw [hpoint] at hspace
    exact absurd hspace (by decide)

/-- A numeral does not begin with what `strtoll` takes before a number. -/
theorem Number.ne_unsigned {blanks sign : List UInt8} (hnumber : Number p blanks sign digits rest)
    (hskipped : blanks ≠ [] ∨ sign ≠ []) (numeral : Numeral) : numeral.unsigned ≠ p := by
  intro heq
  obtain ⟨hspace, hminus, hplus⟩ := numeral.headD_ne
  rw [heq, hnumber.text] at hspace hminus hplus
  by_cases hblanks : blanks = []
  · rw [hblanks, List.nil_append] at hminus hplus
    obtain rfl | rfl | rfl := hnumber.single
    · obtain hsome | hsome := hskipped
      · exact hsome hblanks
      · exact hsome rfl
    · exact hminus rfl
    · exact hplus rfl
  · rw [headD_append hblanks] at hspace
    cases blanks with
    | nil => exact hblanks rfl
    | cons c blanks =>
      have hblank := hnumber.blank c List.mem_cons_self
      rw [List.headD_cons, hblank] at hspace
      exact absurd hspace (by decide)

/-- The run on a text with a number. -/
theorem fromString_number {text blanks sign : List UInt8}
    (hnumber : Number (afterSign text) blanks sign digits rest) (resultGdd : Int64) : 
    fromString resultGdd text =
      if 2 ^ 63 ≤ clamp (signedValue sign digits) + (fourPlaces (fractionOf rest) / 10000 : ℕ) then
        .error .signed
      else if (tailOf rest).headD 0 ≠ 0 ∨ maxIntegerPart < |clamp (signedValue sign digits) + (fourPlaces (fractionOf rest) / 10000 : ℕ)|
        then .ok (false, resultGdd)
      else .ok (true, .ofInt ((if text.headD 0 = minus then -1 else 1)
        * ((clamp (signedValue sign digits) + (fourPlaces (fractionOf rest) / 10000 : ℕ)) * 10000
          + (fourPlaces (fractionOf rest) % 10000 : ℕ)))) := by
  have hshorter : rest ≠ afterSign text := by
    intro heq
    have hlength := congrArg List.length hnumber.text
    have hpos := List.length_pos_iff.2 hnumber.some_digit
    rw [← heq] at hlength
    simp only [List.length_append] at hlength
    omega
  rw [fromString_eq, wholePart, hnumber.strtoll_eq, if_neg (fun hnone => hshorter hnone.1)]

/-- The run on a text without a number before its point. -/
theorem fromString_fraction {text : List UInt8}
    (hnone : strtoll (afterSign text) = (0, afterSign text))
    (hpoint : (afterSign text).headD 0 = point) (resultGdd : Int64) :
    fromString resultGdd text =
      if (tailOf (afterSign text)).headD 0 ≠ 0 then .ok (false, resultGdd)
        else .ok (true,
          .ofInt ((if text.headD 0 = minus then -1 else 1) *
            (fourPlaces (fractionOf (afterSign text)) : ℤ))) := by
  have hcarry := carry_le (fractionOf_digits (afterSign text))
  have hmax : maxIntegerPart = 922337203685476 := rfl
  have hplaces : (((fourPlaces (fractionOf (afterSign text)) / 10000 : ℕ) : ℤ) * 10000 +
        ((fourPlaces (fractionOf (afterSign text)) % 10000 : ℕ) : ℤ)) =
      fourPlaces (fractionOf (afterSign text)) := by omega
  have hsmall : ¬ maxIntegerPart <
      |((fourPlaces (fractionOf (afterSign text)) / 10000 : ℕ) : ℤ)| := by
    rw [not_lt, abs_le]
    omega
  rw [fromString_eq, wholePart, hnone, if_neg (fun hrefused => hrefused.2 hpoint)]
  simp only [zero_add, hsmall, or_false, hplaces]
  rw [if_neg (by omega)]

/-- A number that the 64 bits hold is read as it is. -/
theorem toInt_ofInt_of_lt {n : ℤ} (hlow : -2 ^ 63 ≤ n) (hhigh : n < 2 ^ 63) :
    (Int64.ofInt n).toInt = n := by
  rw [Int64.toInt_ofInt, Int.bmod_def]
  simp only [Int64.size]
  omega

/-- A numeral in range becomes its amount. -/
theorem fromString_numeral {text : List UInt8} (numeral : Numeral) (htext : numeral.text = text)
    (hrange : numeral.integerPart ≤ maxIntegerPart) (resultGdd : Int64) :
    ∃ result, fromString resultGdd text = .ok (true, result) ∧ result.toInt = numeral.amount := by
  obtain ⟨hafter, hsign⟩ := numeral.afterSign_text
  obtain ⟨hfraction, hend, hstops⟩ := fractionOf_pointText numeral.fraction_digits
  have hcarry := carry_le numeral.fraction_digits
  have hmax : maxIntegerPart = 922337203685476 := rfl
  have hmagnitude := numeral.magnitude_eq
  rw [Numeral.integerPart] at hrange
  have hamount :
      (Int64.ofInt ((if text.headD 0 = minus then -1 else 1) * (numeral.magnitude : ℤ))).toInt =
        numeral.amount := by
    rw [Numeral.amount, ← htext]
    simp only [hsign]
    by_cases hnegative : numeral.negative = true
    · rw [if_pos hnegative, if_pos hnegative, neg_one_mul, toInt_ofInt_of_lt (by omega) (by omega)]
    · rw [if_neg hnegative, if_neg hnegative, one_mul, toInt_ofInt_of_lt (by omega) (by omega)]
  refine ⟨_, ?_, hamount⟩
  subst htext
  by_cases hwhole : numeral.whole = []
  · obtain ⟨digits, hdigits⟩ :=
      Option.isSome_iff_exists.1 (numeral.present.resolve_left (fun hsome => hsome hwhole))
    have hpoint : (afterSign numeral.text).headD 0 = point := by
      rw [hafter, Numeral.unsigned, hwhole, hdigits]
      rfl
    have hnone : strtoll (afterSign numeral.text) = (0, afterSign numeral.text) := by
      obtain hnone | ⟨blanks, sign, digits, rest, hnumber⟩ := strtoll_cases (afterSign numeral.text)
      · exact hnone
      · exact absurd hpoint hnumber.head_ne
    have hunsigned : afterSign numeral.text = pointText numeral.fraction := by
      rw [hafter, Numeral.unsigned, hwhole, List.nil_append]
    rw [fromString_fraction hnone hpoint, hunsigned, hend, hfraction, if_neg (by decide),
      hmagnitude, hwhole, value_nil, Nat.zero_mul, Nat.zero_add]
  · have hnumber :
        Number (afterSign numeral.text) [] [] numeral.whole (pointText numeral.fraction) :=
      ⟨hafter, List.forall_mem_nil _, Or.inl rfl, numeral.whole_digits, hwhole, hstops⟩
    have hclamp : clamp (signedValue [] numeral.whole) = value numeral.whole := by
      rw [signedValue, if_neg (by decide), clamp]
      omega
    have hvalue : ((value numeral.whole : ℤ) +
              (fourPlaces (numeral.fraction.getD []) / 10000 : ℕ)) * 10000 +
          (fourPlaces (numeral.fraction.getD []) % 10000 : ℕ) = numeral.magnitude := by
      omega
    have hwithin : ¬ maxIntegerPart <
        |(value numeral.whole : ℤ) + (fourPlaces (numeral.fraction.getD []) / 10000 : ℕ)| := by
      rw [not_lt, abs_le]
      omega
    rw [fromString_number hnumber, hclamp, hend, hfraction, hvalue, if_neg (by omega),
      if_neg (not_or.2 ⟨fun hrest => hrest rfl, hwithin⟩)]

/-- Inside a text there is no zero byte, so that the text is read to its end. -/
theorem eq_nil_of_headD {l bytes : List UInt8} (hsuffix : l <:+ bytes)
    (hnonzero : ∀ c ∈ bytes, c ≠ 0) (hzero : l.headD 0 = 0) : l = [] := by
  cases l with
  | nil => rfl
  | cons c l => exact absurd hzero (hnonzero c (hsuffix.subset List.mem_cons_self))

theorem tailOf_suffix (p : List UInt8) : tailOf p <:+ p := by
  rw [tailOf]
  split
  · exact (List.dropWhile_suffix _).trans (List.tail_suffix p)
  · exact List.suffix_rfl

theorem afterSign_suffix (text : List UInt8) : afterSign text <:+ text := by
  rw [afterSign]
  split
  · exact List.tail_suffix text
  · exact List.suffix_rfl

theorem Number.suffix {blanks sign : List UInt8}
    (hnumber : Number p blanks sign digits rest) : rest <:+ p := by
  rw [hnumber.text, ← List.append_assoc, ← List.append_assoc]
  exact List.suffix_append _ _

/-- A text that is digits and a fraction after its sign is a numeral. -/
theorem exists_numeral {text whole : List UInt8} {fraction : Option (List UInt8)}
    (hunsigned : afterSign text = whole ++ pointText fraction)
    (hwhole : ∀ c ∈ whole, isDigit c = true) (hdigits : ∀ c ∈ fraction.getD [], isDigit c = true)
    (hpresent : whole ≠ [] ∨ fraction.isSome) :
    ∃ numeral : Numeral, numeral.text = text ∧
      numeral.integerPart = (value whole : ℤ) + (fourPlaces (fraction.getD []) / 10000 : ℕ) := by
  refine ⟨⟨decide (text.headD 0 = minus), whole, fraction, hwhole, hdigits, hpresent⟩, ?_, ?_⟩
  · simp only [Numeral.text, Numeral.unsigned, decide_eq_true_eq, ← hunsigned]
    exact eq_sign_append text
  · rw [Numeral.integerPart, Numeral.magnitude_eq, Nat.add_comm,
      Nat.add_mul_div_right _ _ (by decide), Nat.add_comm]
    exact Int.natCast_add _ _

/-- What the code takes otherwise is lenient, and what overflows carries. -/
theorem fromString_refused (text : CString) (hstrict : ¬ Lenient text.bytes)
    (hfits : ¬ Carries text.bytes)
    (hnumerals : ∀ numeral : Numeral, numeral.text = text.bytes →
      maxIntegerPart < numeral.integerPart) (resultGdd : Int64) :
    fromString resultGdd text.bytes = .ok (false, resultGdd) := by
  have hmax : maxIntegerPart = 922337203685476 := rfl
  obtain hnone | ⟨blanks, sign, digits, rest, hnumber⟩ := strtoll_cases (afterSign text.bytes)
  · by_cases hpoint : (afterSign text.bytes).headD 0 = point
    · rw [fromString_fraction hnone hpoint]
      by_cases hend : (tailOf (afterSign text.bytes)).headD 0 = 0
      · obtain ⟨fraction, hfraction, hdigits, -⟩ := pointText_of_tailOf
          (eq_nil_of_headD ((tailOf_suffix _).trans (afterSign_suffix _)) text.nonzero hend)
        have hsome : fraction.isSome := by
          cases fraction with
          | none =>
            rw [hfraction] at hpoint
            exact absurd hpoint (by decide)
          | some digits => rfl
        obtain ⟨numeral, htext, hpart⟩ :=
          exists_numeral hfraction (List.forall_mem_nil _) hdigits (Or.inr hsome)
        have hlarge := hnumerals numeral htext
        have hcarry := carry_le hdigits
        rw [hpart, value_nil, Int.ofNat_zero] at hlarge
        omega
      · exact if_pos hend
    · rw [fromString_eq, hnone]
      exact if_pos ⟨rfl, hpoint⟩
  · have hcarry := carry_le (fractionOf_digits rest)
    rw [fromString_number hnumber]
    by_cases hover : 2 ^ 63 ≤
      clamp (signedValue sign digits) + (fourPlaces (fractionOf rest) / 10000 : ℕ)
    · have hone := fourPlaces_le (fractionOf_digits rest)
      rw [clamp] at hover
      exact absurd ⟨blanks, sign, digits, rest, hnumber, by omega, by omega⟩ hfits
    · rw [if_neg hover]
      apply if_pos
      by_contra htaken
      obtain ⟨hend, hrange⟩ := not_or.1 htaken
      rw [not_lt, abs_clamp_le (Int.natCast_nonneg _) hcarry] at hrange
      obtain ⟨fraction, hfraction, hdigits, hsame⟩ :=
        pointText_of_tailOf
          (eq_nil_of_headD ((tailOf_suffix _).trans (hnumber.suffix.trans (afterSign_suffix _)))
            text.nonzero (not_not.1 hend))
      rw [hsame] at hrange
      rw [hfraction] at hnumber
      by_cases hskipped : blanks ≠ [] ∨ sign ≠ []
      · exact hstrict ⟨blanks, sign, digits, fraction, hnumber, hdigits, hskipped, hrange⟩
      · obtain ⟨hblanks, hsign⟩ := not_or.1 hskipped
        rw [not_not] at hblanks hsign
        have hunsigned := hnumber.text
        rw [hblanks, hsign, List.nil_append, List.nil_append] at hunsigned
        obtain ⟨numeral, htext, hpart⟩ :=
          exists_numeral hunsigned hnumber.digit hdigits (Or.inl hnumber.some_digit)
        have hlarge := hnumerals numeral htext
        rw [hsign, signedValue, if_neg (by decide), abs_le] at hrange
        omega

/-- The texts of amounts are read as they should be, unless `strtoll` skips something before the
number or its largest number is carried over. -/
theorem parsesExactly_iff (text : CString) :
    ParsesExactly text ↔ ¬ Lenient text.bytes ∧ ¬ Carries text.bytes := by
  constructor
  · intro hexact
    constructor
    · intro hlenient
      obtain ⟨blanks, sign, digits, fraction, hnumber, hdigits, hskipped, hrange⟩ := hlenient
      have hrefused := (hexact 0).2 fun numeral htext => by
        rw [← htext, numeral.afterSign_text.1] at hnumber
        exact absurd rfl (hnumber.ne_unsigned hskipped numeral)
      obtain ⟨hfraction, hend, -⟩ := fractionOf_pointText hdigits
      have hcarry := carry_le hdigits
      have hwithin := (abs_clamp_le (Int.natCast_nonneg _) hcarry).2 hrange
      have hmax : maxIntegerPart = 922337203685476 := rfl
      rw [fromString_number hnumber, hfraction, hend, if_neg (by rw [abs_le] at hwithin; omega),
        if_neg (not_or.2 ⟨fun hrest => hrest rfl, not_lt.2 hwithin⟩)] at hrefused
      cases hrefused
    · intro hcarries
      obtain ⟨blanks, sign, digits, rest, hnumber, hlarge, hone⟩ := hcarries
      have herror : fromString 0 text.bytes = .error .signed := by
        rw [fromString_number hnumber, hone, if_pos]
        rw [clamp]
        omega
      by_cases hnumeral : ∃ numeral : Numeral, numeral.text = text.bytes ∧
        numeral.integerPart ≤ maxIntegerPart
      · obtain ⟨numeral, htext, hrange⟩ := hnumeral
        obtain ⟨result, hrun, -⟩ := (hexact 0).1 numeral htext hrange
        rw [herror] at hrun
        cases hrun
      · have hrun :=
          (hexact 0).2 fun numeral htext => not_le.1 fun hrange => hnumeral ⟨numeral, htext, hrange⟩
        rw [herror] at hrun
        cases hrun
  · intro hconditions resultGdd
    exact ⟨fun numeral htext hrange => fromString_numeral numeral htext hrange resultGdd,
      fun hnumerals => fromString_refused text hconditions.1 hconditions.2 hnumerals resultGdd⟩

/-- A second sign is taken, and the amount of `--5` is positive. -/
theorem not_parsesExactly : ¬ ∀ text : CString, ParsesExactly text := by
  intro hexact
  have hrun : fromString 0 [minus, minus, 53] = .ok (true, 50000) := by decide
  have hnonzero : ∀ c ∈ [minus, minus, 53], c ≠ 0 :=
    List.forall_mem_cons.2
      ⟨by decide, List.forall_mem_cons.2 ⟨by decide, List.forall_mem_singleton.2 (by decide)⟩⟩
  have hrefused := (hexact ⟨[minus, minus, 53], hnonzero⟩ 0).2 fun numeral htext => by
    have hunsigned := numeral.afterSign_text.1
    rw [htext] at hunsigned
    have hhead := numeral.headD_ne.2.1
    rw [← hunsigned] at hhead
    exact absurd rfl hhead
  rw [hrun] at hrefused
  cases hrefused

end GrddUnit

end GradidoBlockchain
