import GradidoBlockchain.Lib.Decimal

/-!
# Reading an amount

`grdd_unit_from_string`: the sign and the places after the point are read by hand, the digits before
the point by `strtoll`.
-/

namespace GradidoBlockchain

namespace GrddUnit

open Decimal

/-- A text, without the zero byte that ends it. -/
structure CString where
  bytes : List UInt8
  nonzero : ∀ c ∈ bytes, c ≠ 0

/-- A signed operation left the 64 bits of its type. -/
inductive Overflow
  | signed
  deriving DecidableEq, Repr

/-- The result of a signed operation on 64 bits. -/
def checked (n : ℤ) : Except Overflow ℤ :=
  if -2 ^ 63 ≤ n ∧ n < 2 ^ 63 then .ok n else .error .signed

/-! ### `strtoll` -/

def isSpace (c : UInt8) : Bool := c == 32 || (9 ≤ c && c ≤ 13)

/-- A number that does not fit becomes the nearest one that does. -/
def clamp (n : ℤ) : ℤ := max (-2 ^ 63) (min n (2 ^ 63 - 1))

/-- `strtoll` in base ten: the number and the text after it, which is the whole text if
there is no number. -/
def strtoll (p : List UInt8) : ℤ × List UInt8 :=
  let signed := p.dropWhile isSpace
  let unsigned := if signed.headD 0 = minus ∨ signed.headD 0 = plus then signed.tail else signed
  if unsigned.takeWhile isDigit = [] then (0, p)
  else
    (clamp (if signed.headD 0 = minus then -value (unsigned.takeWhile isDigit)
        else value (unsigned.takeWhile isDigit)), unsigned.dropWhile isDigit)

/-! ### `grdd_unit_from_string` -/

/-- The loop over the first four digits of the fraction: the fraction, the number of digits and
the text after them. -/
def readPlaces : List UInt8 → ℤ → ℕ → Except Overflow (ℤ × ℕ × List UInt8)
  | [], fractionalPart, digits => .ok (fractionalPart, digits, [])
  | c :: p, fractionalPart, digits =>
    if isDigit c ∧ digits < 4 then do
      let fractionalPart ← checked (fractionalPart * 10)
      let fractionalPart ← checked (fractionalPart + digitValue c)
      readPlaces p fractionalPart (digits + 1)
    else .ok (fractionalPart, digits, c :: p)

/-- The loop that pads the fraction with zeros, for the digits that are missing. -/
def padPlaces : ℕ → ℤ → Except Overflow ℤ
  | 0, fractionalPart => .ok fractionalPart
  | missing + 1, fractionalPart => do
    let fractionalPart ← checked (fractionalPart * 10)
    padPlaces missing fractionalPart

/-- The rounding by the fifth digit, with its carry. -/
def roundPlaces (integerPart fractionalPart : ℤ) (p : List UInt8) :
    Except Overflow (ℤ × ℤ × List UInt8) :=
  if isDigit (p.headD 0) then
    if 5 ≤ digitValue (p.headD 0) then do
      let fractionalPart ← checked (fractionalPart + 1)
      if 10000 ≤ fractionalPart then do
        let integerPart ← checked (integerPart + 1)
        .ok (integerPart, 0, p.dropWhile isDigit)
      else .ok (integerPart, fractionalPart, p.dropWhile isDigit)
    else .ok (integerPart, fractionalPart, p.dropWhile isDigit)
  else .ok (integerPart, fractionalPart, p)

/-- The fractional part, and what its rounding makes of the integer part. -/
def readFraction (integerPart : ℤ) (p : List UInt8) : Except Overflow (ℤ × ℤ × List UInt8) :=
  if p.headD 0 = point then do
    let (fractionalPart, digits, p) ← readPlaces p.tail 0 0
    let fractionalPart ← padPlaces (4 - digits) fractionalPart
    roundPlaces integerPart fractionalPart p
  else .ok (integerPart, 0, p)

/-- The text after the sign. -/
def afterSign (text : List UInt8) : List UInt8 := if text.headD 0 = minus then text.tail else text

/-- The largest integer part. -/
def maxIntegerPart : ℤ := 922337203685476

/-- The multiplication by which the sign is taken over. -/
def signed (negative : Prop) [Decidable negative] (part : ℤ) : Except Overflow ℤ :=
  if negative then checked (part * -1) else .ok part

/-- `grdd_unit_from_string`: its answer and the amount behind `resultGdd` afterwards. -/
def fromString (resultGdd : Int64) (text : List UInt8) : Except Overflow (Bool × Int64) :=
  let p := afterSign text
  let number := strtoll p
  if number.2 = p ∧ p.headD 0 ≠ point then .ok (false, resultGdd)
  else do
    let (integerPart, fractionalPart, p) ← readFraction number.1 number.2
    if p.headD 0 ≠ 0 then .ok (false, resultGdd)
    else if maxIntegerPart < integerPart ∨ integerPart < -maxIntegerPart then .ok (false, resultGdd)
    else do
      let integerPart ← signed (text.headD 0 = minus) integerPart
      let fractionalPart ← signed (text.headD 0 = minus) fractionalPart
      let integerPart ← checked (integerPart * 10000)
      let result ← checked (integerPart + fractionalPart)
      .ok (true, .ofInt result)

/-- The text `1029.10205` is rounded up. -/
example : fromString 0 [49, 48, 50, 57, 46, 49, 48, 50, 48, 53] = .ok (true, 10291021) := by decide

/-! ### What the parts read -/

variable {p rest digits fraction tail : List UInt8} {i frac : ℤ}

theorem ok_bind {α β : Type} (a : α) (next : α → Except Overflow β) :
    (Except.ok a >>= next) = next a :=
  rfl

theorem checked_bind {α : Type} {n : ℤ} (hlow : -2 ^ 63 ≤ n) (hhigh : n < 2 ^ 63)
    (next : ℤ → Except Overflow α) : (checked n >>= next) = next n := by
  rw [checked, if_pos ⟨hlow, hhigh⟩]
  rfl

theorem checked_overflow {α : Type} {n : ℤ} (hhigh : 2 ^ 63 ≤ n) (next : ℤ → Except Overflow α) :
    (checked n >>= next) = .error .signed := by
  rw [checked, if_neg (by omega)]
  rfl

theorem headD_append {l r : List UInt8} (hne : l ≠ []) : (l ++ r).headD 0 = l.headD 0 := by
  cases l with
  | nil => exact absurd rfl hne
  | cons c l => rfl

/-- A text goes on with something else than what `pick` takes. -/
def Stops (pick : UInt8 → Bool) (p : List UInt8) : Prop := ∀ c ∈ p.head?, pick c = false

theorem takeWhile_append_of_stops {pick : UInt8 → Bool} (hdigits : ∀ c ∈ digits, pick c = true)
    (hstops : Stops pick rest) :
    (digits ++ rest).takeWhile pick = digits ∧ (digits ++ rest).dropWhile pick = rest := by
  rw [List.takeWhile_append_of_pos hdigits, List.dropWhile_append_of_pos hdigits]
  cases rest with
  | nil => exact ⟨List.append_nil _, rfl⟩
  | cons c rest =>
    have hc : pick c = false := hstops c rfl
    rw [List.takeWhile_cons, List.dropWhile_cons, hc]
    exact ⟨List.append_nil _, rfl⟩

theorem stops_dropWhile (pick : UInt8 → Bool) (p : List UInt8) : Stops pick (p.dropWhile pick) := by
  intro c hc
  have hnot := List.head?_dropWhile_not pick p
  rw [Option.mem_def] at hc
  rw [hc] at hnot
  exact hnot

theorem not_isDigit_headD (hstops : Stops isDigit p) : isDigit (p.headD 0) = false := by
  cases p with
  | nil => rfl
  | cons c p => exact hstops c rfl

/-- The loop takes up to four digits. -/
theorem readPlaces_eq {start : ℕ} {count : ℕ} (hdigits : ∀ c ∈ digits, isDigit c = true)
    (hcount : count + digits.length ≤ 4) (hstart : start < 10 ^ count)
    (hstops : count + digits.length = 4 ∨ Stops isDigit rest) :
    readPlaces (digits ++ rest) start count =
      .ok (((start * 10 ^ digits.length + value digits : ℕ) : ℤ), count + digits.length, rest) := by
  induction digits generalizing start count with
  | nil =>
    rw [List.nil_append, value_nil, List.length_nil, Nat.pow_zero, Nat.mul_one, Nat.add_zero]
    cases rest with
    | nil => rfl
    | cons c rest =>
      have hend : ¬ (isDigit c ∧ count < 4) := by
        intro ⟨hdigit, hlt⟩
        obtain hfull | hstops := hstops
        · rw [List.length_nil] at hfull
          omega
        · rw [hstops c rfl] at hdigit
          exact absurd hdigit (by decide)
      rw [readPlaces, if_neg hend]
      rfl
  | cons c digits ih =>
    rw [List.length_cons] at hcount hstops
    have hdigit := hdigits c List.mem_cons_self
    have hsmall := digitValue_lt hdigit
    have hpow : 10 ^ (count + 1) ≤ 10 ^ 4 := Nat.pow_le_pow_right (by decide) (by omega)
    have hnext : start * 10 + digitValue c < 10 ^ (count + 1) := by
      rw [Nat.pow_succ]
      omega
    have hrest :=
      @ih (start * 10 + digitValue c) (count + 1)
        (fun other hother => hdigits other (List.mem_cons_of_mem c hother)) (by omega) hnext
        (by rwa [Nat.add_right_comm, Nat.add_assoc])
    rw [List.cons_append, readPlaces, if_pos ⟨hdigit, by omega⟩, checked_bind (by omega) (by omega),
      checked_bind (by omega) (by omega)]
    have hcast : (start : ℤ) * 10 + digitValue c = ((start * 10 + digitValue c : ℕ) : ℤ) := by
      push_cast; rfl
    rw [hcast, hrest, value_cons, List.length_cons, Nat.add_right_comm, Nat.add_assoc count,
      Nat.pow_succ]
    congr 3
    ring

/-- The zeros that are missing. -/
theorem padPlaces_eq {start missing : ℕ} (hstart : start * 10 ^ missing < 10 ^ 4) :
    padPlaces missing (start : ℤ) = .ok ((start * 10 ^ missing : ℕ) : ℤ) := by
  induction missing generalizing start with
  | zero => rw [padPlaces, Nat.pow_zero, Nat.mul_one]
  | succ missing ih =>
    have hshift : start * 10 * 10 ^ missing = start * 10 ^ (missing + 1) := by ring
    have hle : start * 10 ≤ start * 10 * 10 ^ missing :=
      Nat.le_mul_of_pos_right _ (Nat.pow_pos (by decide))
    have hcast : (start : ℤ) * 10 = ((start * 10 : ℕ) : ℤ) := by push_cast; rfl
    rw [padPlaces, checked_bind (by omega) (by omega), hcast, ih (by omega), hshift]

/-- The fraction in units of four places, and one is its largest value. -/
def fourPlaces (fraction : List UInt8) : ℕ := rounded 4 fraction.length (value fraction)

theorem fourPlaces_le (hfraction : ∀ c ∈ fraction, isDigit c = true) :
    fourPlaces fraction ≤ 10000 :=
  rounded_le 4 (value_lt hfraction)

/-- What the digit after the fourth place adds. -/
def roundUp (later : List UInt8) : ℕ := if 5 ≤ digitValue (later.headD 0) then 1 else 0

/-- The rounding carries into the integer part when the fraction becomes one. -/
theorem roundPlaces_eq (hi : -2 ^ 63 ≤ i) (hi' : i < 2 ^ 63) {start : ℕ} (hstart : start < 10000)
    {later : List UInt8} (hlater : ∀ c ∈ later, isDigit c = true) (hstops : Stops isDigit tail) :
    roundPlaces i start (later ++ tail) =
      if 2 ^ 63 ≤ i + ((start + roundUp later) / 10000 : ℕ) then .error .signed
        else .ok (i + ((start + roundUp later) / 10000 : ℕ), ((start + roundUp later) % 10000 : ℕ),
          tail) := by
  have hkept : (start + 0) / 10000 = 0 ∧ (start + 0) % 10000 = start := by omega
  cases later with
  | nil =>
    rw [roundPlaces, List.nil_append, if_neg (Bool.eq_false_iff.1 (not_isDigit_headD hstops)),
      show roundUp [] = 0 from rfl, hkept.1, hkept.2, Int.ofNat_zero, Int.add_zero,
      if_neg (by omega)]
  | cons c later =>
    have hdrop : (c :: later ++ tail).dropWhile isDigit = tail :=
      (takeWhile_append_of_stops hlater hstops).2
    rw [roundPlaces, hdrop, show (c :: later ++ tail).headD 0 = c from rfl,
      if_pos (hlater c List.mem_cons_self)]
    by_cases hup : 5 ≤ digitValue c
    · have hone : roundUp (c :: later) = 1 := if_pos hup
      rw [if_pos hup, checked_bind (by omega) (by omega), hone]
      by_cases hcarry : 10000 ≤ (start : ℤ) + 1
      · have hnext : (start + 1) / 10000 = 1 ∧ (start + 1) % 10000 = 0 := by omega
        rw [if_pos hcarry, hnext.1, hnext.2]
        by_cases hover : 2 ^ 63 ≤ i + 1
        · rw [checked_overflow hover, if_pos (by omega)]
        · rw [checked_bind (by omega) (by omega), if_neg (by omega)]
          rfl
      · have hnext : (start + 1) / 10000 = 0 ∧ (start + 1) % 10000 = start + 1 := by omega
        rw [if_neg hcarry, hnext.1, hnext.2, Int.ofNat_zero, Int.add_zero, if_neg (by omega)]
        rfl
    · have hzero : roundUp (c :: later) = 0 := if_neg hup
      rw [if_neg hup, hzero, hkept.1, hkept.2, Int.ofNat_zero, Int.add_zero, if_neg (by omega)]

/-- The first four digits and the one after them make the four places. -/
theorem fourPlaces_split (hfraction : ∀ c ∈ fraction, isDigit c = true) :
    fourPlaces fraction =
      value (fraction.take 4) * 10 ^ (4 - (fraction.take 4).length) +
        roundUp (fraction.drop 4) := by
  rw [fourPlaces]
  by_cases hshort : fraction.length ≤ 4
  · rw [rounded_of_le hshort, List.take_of_length_le hshort, List.drop_eq_nil_of_le hshort]
    rfl
  · have hlength : (fraction.take 4).length = 4 := by
      rw [List.length_take]
      omega
    obtain ⟨c, later, hdrop⟩ : ∃ c later, fraction.drop 4 = c :: later := by
      cases hrest : fraction.drop 4 with
      | nil =>
        rw [List.drop_eq_nil_iff] at hrest
        exact absurd hrest hshort
      | cons c later => exact ⟨c, later, rfl⟩
    have hsplit : fraction = fraction.take 4 ++ c :: later := by rw [← hdrop, List.take_append_drop]
    have hmem : ∀ other ∈ c :: later, isDigit other = true := fun other hother =>
      hfraction other (List.mem_of_mem_drop (hdrop ▸ hother))
    have hround :=
      @rounded_append c (fraction.take 4) later
        (fun other hother => hmem other (List.mem_cons_of_mem c hother)) (hmem c List.mem_cons_self)
    rw [← hsplit, hlength] at hround
    rw [hround, hlength, hdrop, Nat.sub_self, Nat.pow_zero, Nat.mul_one]
    rfl

/-- The fraction after a point, with the carry of its rounding. -/
theorem readFraction_point (hi : -2 ^ 63 ≤ i) (hi' : i < 2 ^ 63)
    (hfraction : ∀ c ∈ fraction, isDigit c = true) (hstops : Stops isDigit tail) :
    readFraction i (point :: (fraction ++ tail)) =
      if 2 ^ 63 ≤ i + (fourPlaces fraction / 10000 : ℕ) then .error .signed
        else .ok
          (i + (fourPlaces fraction / 10000 : ℕ), (fourPlaces fraction % 10000 : ℕ), tail) := by
  have hfirst : ∀ c ∈ fraction.take 4, isDigit c = true :=
    fun c hc => hfraction c (List.mem_of_mem_take hc)
  have hlater : ∀ c ∈ fraction.drop 4, isDigit c = true :=
    fun c hc => hfraction c (List.mem_of_mem_drop hc)
  have hlength : (fraction.take 4).length ≤ 4 := by
    rw [List.length_take]
    omega
  have hend : 0 + (fraction.take 4).length = 4 ∨ Stops isDigit (fraction.drop 4 ++ tail) := by
    by_cases hshort : fraction.length ≤ 4
    · rw [List.drop_eq_nil_of_le hshort, List.nil_append]
      exact Or.inr hstops
    · rw [List.length_take]
      exact Or.inl (by omega)
  have hplaces :=
    @readPlaces_eq (fraction.drop 4 ++ tail) (fraction.take 4) 0 0 hfirst (by omega) (by decide)
      hend
  rw [← List.append_assoc, List.take_append_drop, Nat.zero_mul, Nat.zero_add, Nat.zero_add,
    Nat.cast_zero] at hplaces
  have hlt : value (fraction.take 4) * 10 ^ (4 - (fraction.take 4).length) < 10 ^ 4 := by
    calc _ < 10 ^ (fraction.take 4).length * 10 ^ (4 - (fraction.take 4).length) :=
          Nat.mul_lt_mul_of_pos_right (value_lt hfirst) (Nat.pow_pos (by decide))
      _ = 10 ^ 4 := by rw [← Nat.pow_add, Nat.add_sub_cancel' hlength]
  rw [readFraction, if_pos (show (point :: (fraction ++ tail)).headD 0 = point from rfl),
    show (point :: (fraction ++ tail)).tail = fraction ++ tail from rfl, fourPlaces_split hfraction]
  rw [hplaces]
  show (padPlaces (4 - (fraction.take 4).length) ((value (fraction.take 4) : ℕ) : ℤ) >>=
      fun fractionalPart => roundPlaces i fractionalPart (fraction.drop 4 ++ tail)) = _
  rw [padPlaces_eq hlt]
  exact roundPlaces_eq hi hi' hlt hlater hstops

/-! ### The answer -/

/-- The digits after a point. -/
def fractionOf (p : List UInt8) : List UInt8 :=
  if p.headD 0 = point then p.tail.takeWhile isDigit else []

/-- The text after the fraction. -/
def tailOf (p : List UInt8) : List UInt8 :=
  if p.headD 0 = point then p.tail.dropWhile isDigit else p

/-- The integer part with the carry. -/
def wholePart (p : List UInt8) : ℤ :=
  (strtoll p).1 + (fourPlaces (fractionOf (strtoll p).2) / 10000 : ℕ)

theorem eq_cons_of_headD {c : UInt8} (hne : c ≠ 0) (hhead : p.headD 0 = c) : p = c :: p.tail := by
  cases p with
  | nil => exact absurd hhead.symm hne
  | cons other p =>
    rw [← hhead]
    rfl

theorem readFraction_eq (hi : -2 ^ 63 ≤ i) (hi' : i < 2 ^ 63) :
    readFraction i p =
      if 2 ^ 63 ≤ i + (fourPlaces (fractionOf p) / 10000 : ℕ) then .error .signed
        else .ok (i + (fourPlaces (fractionOf p) / 10000 : ℕ),
          (fourPlaces (fractionOf p) % 10000 : ℕ), tailOf p) := by
  by_cases hpoint : p.headD 0 = point
  · have hdigits : ∀ c ∈ p.tail.takeWhile isDigit, isDigit c = true :=
      fun c hc => List.mem_takeWhile_imp hc
    have hread := readFraction_point hi hi' hdigits (stops_dropWhile isDigit p.tail)
    rw [List.takeWhile_append_dropWhile, ← eq_cons_of_headD (by decide) hpoint] at hread
    rw [hread, fractionOf, tailOf, if_pos hpoint, if_pos hpoint]
  · have hnone : fourPlaces [] = 0 := by decide
    rw [readFraction, fractionOf, tailOf, if_neg hpoint, if_neg hpoint, if_neg hpoint, hnone,
      Nat.zero_div, Nat.zero_mod, Int.ofNat_zero, Int.add_zero, if_neg (by omega)]

theorem clamp_bounds (n : ℤ) : -2 ^ 63 ≤ clamp n ∧ clamp n < 2 ^ 63 := by
  rw [clamp]
  omega

/-- A number as `strtoll` takes it: blanks, a sign and digits, and what comes after them. -/
structure Number (p blanks sign digits rest : List UInt8) : Prop where
  text : p = blanks ++ (sign ++ (digits ++ rest))
  blank : ∀ c ∈ blanks, isSpace c = true
  single : sign = [] ∨ sign = [minus] ∨ sign = [plus]
  digit : ∀ c ∈ digits, isDigit c = true
  some_digit : digits ≠ []
  stops : Stops isDigit rest

/-- The number with its sign. -/
def signedValue (sign digits : List UInt8) : ℤ :=
  if sign = [minus] then -(value digits : ℤ) else value digits

theorem isDigit_headD (hdigit : ∀ c ∈ digits, isDigit c = true) (hsome : digits ≠ [])
    (rest : List UInt8) : isDigit ((digits ++ rest).headD 0) = true := by
  cases digits with
  | nil => exact absurd rfl hsome
  | cons c digits => exact hdigit c List.mem_cons_self

theorem not_isSpace_of_isDigit {c : UInt8} (hdigit : isDigit c = true) :
    isSpace c = false ∧ c ≠ minus ∧ c ≠ plus ∧ c ≠ point := by
  have hall : ∀ d < 10, isSpace (.ofNat (48 + d)) = false ∧ UInt8.ofNat (48 + d) ≠ minus ∧
      UInt8.ofNat (48 + d) ≠ plus ∧ UInt8.ofNat (48 + d) ≠ point := by decide
  obtain ⟨hlow, hhigh⟩ := isDigit_iff.1 hdigit
  have hc := hall (c.toNat - 48) (by omega)
  rw [Nat.add_sub_cancel' hlow, UInt8.ofNat_toNat] at hc
  exact hc

theorem Number.strtoll_eq {blanks sign : List UInt8} (hnumber : Number p blanks sign digits rest) :
    strtoll p = (clamp (signedValue sign digits), rest) := by
  have hhead := isDigit_headD hnumber.digit hnumber.some_digit rest
  have hcons := eq_cons_of_headD (c := (digits ++ rest).headD 0) (by
    intro hzero
    rw [hzero] at hhead
    exact absurd hhead (by decide)) rfl
  obtain ⟨hspace, hminus, hplus, -⟩ := not_isSpace_of_isDigit hhead
  have hblank : Stops isSpace (sign ++ (digits ++ rest)) := by
    intro c hc
    obtain rfl | rfl | rfl := hnumber.single
    · rw [List.nil_append, hcons, List.head?_cons, Option.mem_def, Option.some.injEq] at hc
      rw [← hc]
      exact hspace
    · rw [List.singleton_append, List.head?_cons, Option.mem_def, Option.some.injEq] at hc
      rw [← hc]
      rfl
    · rw [List.singleton_append, List.head?_cons, Option.mem_def, Option.some.injEq] at hc
      rw [← hc]
      rfl
  obtain ⟨htake, hdrop⟩ := takeWhile_append_of_stops hnumber.digit hnumber.stops
  have hsigned : p.dropWhile isSpace = sign ++ (digits ++ rest) := by
    rw [hnumber.text]
    exact (takeWhile_append_of_stops hnumber.blank hblank).2
  rw [strtoll, hsigned, signedValue]
  obtain rfl | rfl | rfl := hnumber.single
  · have hnone : ¬ ((digits ++ rest).headD 0 = minus ∨ (digits ++ rest).headD 0 = plus) :=
      not_or.2 ⟨hminus, hplus⟩
    rw [List.nil_append, if_neg hnone, htake, hdrop, if_neg hnumber.some_digit, if_neg hminus,
      if_neg (by decide)]
  · rw [List.singleton_append, show (minus :: (digits ++ rest)).headD 0 = minus from rfl,
      if_pos (Or.inl rfl), show (minus :: (digits ++ rest)).tail = digits ++ rest from rfl, htake,
      hdrop, if_neg hnumber.some_digit, if_pos rfl, if_pos rfl]
  · rw [List.singleton_append, show (plus :: (digits ++ rest)).headD 0 = plus from rfl,
      if_pos (Or.inr rfl), show (plus :: (digits ++ rest)).tail = digits ++ rest from rfl, htake,
      hdrop, if_neg hnumber.some_digit, if_neg (by decide), if_neg (by decide)]

/-- Without a number the whole text is left. -/
theorem strtoll_cases (p : List UInt8) :
    strtoll p = (0, p) ∨ ∃ blanks sign digits rest, Number p blanks sign digits rest := by
  by_cases hsign : (p.dropWhile isSpace).headD 0 = minus ∨ (p.dropWhile isSpace).headD 0 = plus
  · by_cases hnone : (p.dropWhile isSpace).tail.takeWhile isDigit = []
    · rw [strtoll, if_pos hsign, if_pos hnone]
      exact Or.inl rfl
    · refine Or.inr
        ⟨p.takeWhile isSpace, [(p.dropWhile isSpace).headD 0],
          (p.dropWhile isSpace).tail.takeWhile isDigit,
          (p.dropWhile isSpace).tail.dropWhile isDigit, ?_, fun c hc => List.mem_takeWhile_imp hc,
          ?_, fun c hc => List.mem_takeWhile_imp hc, hnone, stops_dropWhile _ _⟩
      · rw [List.takeWhile_append_dropWhile, List.singleton_append, ← eq_cons_of_headD _ rfl,
          List.takeWhile_append_dropWhile]
        obtain hminus | hplus := hsign
        · rw [hminus]
          decide
        · rw [hplus]
          decide
      · obtain hminus | hplus := hsign
        · exact Or.inr (Or.inl (by rw [hminus]))
        · exact Or.inr (Or.inr (by rw [hplus]))
  · by_cases hnone : (p.dropWhile isSpace).takeWhile isDigit = []
    · rw [strtoll, if_neg hsign, if_pos hnone]
      exact Or.inl rfl
    · refine Or.inr
        ⟨p.takeWhile isSpace, [], (p.dropWhile isSpace).takeWhile isDigit,
          (p.dropWhile isSpace).dropWhile isDigit, ?_, fun c hc => List.mem_takeWhile_imp hc,
          Or.inl rfl, fun c hc => List.mem_takeWhile_imp hc, hnone, stops_dropWhile _ _⟩
      rw [List.nil_append, List.takeWhile_append_dropWhile, List.takeWhile_append_dropWhile]

theorem strtoll_bounds (p : List UInt8) : -2 ^ 63 ≤ (strtoll p).1 ∧ (strtoll p).1 < 2 ^ 63 := by
  obtain hnone | ⟨blanks, sign, digits, rest, hnumber⟩ := strtoll_cases p
  · rw [hnone]
    exact ⟨by norm_num, by norm_num⟩
  · rw [hnumber.strtoll_eq]
    exact clamp_bounds _

theorem signed_bind {α : Type} {negative : Prop} [Decidable negative] {part : ℤ}
    (hlow : -2 ^ 63 < part) (hhigh : part < 2 ^ 63) (next : ℤ → Except Overflow α) :
    (signed negative part >>= next) = next (if negative then -part else part) := by
  rw [signed]
  by_cases hnegative : negative
  · rw [if_pos hnegative, if_pos hnegative, checked_bind (by omega) (by omega), Int.mul_neg_one]
  · rw [if_neg hnegative, if_neg hnegative]
    rfl

/-- The text is refused, overflows or is read to its end. -/
theorem fromString_eq (resultGdd : Int64) (text : List UInt8) :
    fromString resultGdd text =
      if (strtoll (afterSign text)).2 = afterSign text ∧ (afterSign text).headD 0 ≠ point then
        .ok (false, resultGdd)
      else if 2 ^ 63 ≤ wholePart (afterSign text) then .error .signed
      else if (tailOf (strtoll (afterSign text)).2).headD 0 ≠ 0 ∨
          maxIntegerPart < |wholePart (afterSign text)| then
        .ok (false, resultGdd)
      else .ok (true, .ofInt ((if text.headD 0 = minus then -1 else 1)
        * (wholePart (afterSign text) * 10000 + (fourPlaces (fractionOf (strtoll (afterSign text)).2) % 10000 : ℕ)))) := by
  obtain ⟨hlow, hhigh⟩ := strtoll_bounds (afterSign text)
  have hread := @readFraction_eq (strtoll (afterSign text)).2 _ hlow hhigh
  rw [fromString]
  simp only
  by_cases hnone : (strtoll (afterSign text)).2 = afterSign text ∧ (afterSign text).headD 0 ≠ point
  · rw [if_pos hnone, if_pos hnone]
  · rw [if_neg hnone, if_neg hnone, hread, ← wholePart]
    by_cases hover : 2 ^ 63 ≤ wholePart (afterSign text)
    · rw [if_pos hover, if_pos hover]
      rfl
    · rw [if_neg hover, if_neg hover, ok_bind]
      simp only
      by_cases htail : (tailOf (strtoll (afterSign text)).2).headD 0 ≠ 0
      · rw [if_pos htail, if_pos (Or.inl htail)]
      · have hmax : maxIntegerPart = 922337203685476 := rfl
        have hplaces :=
          Nat.mod_lt (fourPlaces (fractionOf (strtoll (afterSign text)).2))
            (show 0 < 10000 by decide)
        rw [if_neg htail]
        generalize wholePart (afterSign text) = whole
        generalize fourPlaces (fractionOf (strtoll (afterSign text)).2) % 10000 =
          places at hplaces ⊢
        have habs : maxIntegerPart < |whole| ↔
            maxIntegerPart < whole ∨ whole < -maxIntegerPart := by
          rw [lt_abs, lt_neg]
        simp only [htail, false_or, habs]
        by_cases hrange : maxIntegerPart < whole ∨ whole < -maxIntegerPart
        · rw [if_pos hrange, if_pos hrange]
        · rw [if_neg hrange, if_neg hrange, signed_bind (by omega) (by omega),
            signed_bind (by omega) (by omega)]
          by_cases hnegative : text.headD 0 = minus
          · rw [if_pos hnegative, if_pos hnegative, if_pos hnegative,
              checked_bind (by omega) (by omega), checked_bind (by omega) (by omega)]
            congr 3
            ring
          · rw [if_neg hnegative, if_neg hnegative, if_neg hnegative,
              checked_bind (by omega) (by omega), checked_bind (by omega) (by omega), one_mul]

end GrddUnit

end GradidoBlockchain
