import GradidoBlockchain.Lib.Buffer
import GradidoBlockchain.Lib.Decimal
import GradidoBlockchain.Unit.R128

/-!
# Printing an amount

`grdd_unit_to_string`: the rounded amount is printed without its point, padded with zeros, opened
for the point and cut to its places, all in the buffer of the caller.
-/

namespace GradidoBlockchain

namespace GrddUnit

open Decimal Buffer

/-- The printing of numbers by arnm. -/
structure Printer where
  /-- `arnm_uint64_to_string_size`. -/
  stringSize : UInt64 → ℕ
  /-- `arnm_uint64_to_string_known_string_size`: the bytes it writes, and its answer. -/
  knownStringSize : UInt64 → ℕ → List UInt8 × ℕ

/-- The digits of the number and a zero byte are written. -/
structure Printer.Plain (printer : Printer) : Prop where
  stringSize_eq : ∀ n, printer.stringSize n = (print n.toNat).length
  knownStringSize_eq : ∀ n, printer.knownStringSize n (print n.toNat).length =
    (print n.toNat ++ [0], (print n.toNat).length)

/-- A printer of this kind. -/
def Printer.reference : Printer :=
  ⟨fun n => (print n.toNat).length, fun n _ => (print n.toNat ++ [0], (print n.toNat).length)⟩

/-- `POW10`. -/
def pow10 : List UInt64 := [1, 10, 100, 1000, 10000]

/-- `grdd_unit_round_to_precision`; `none` is its refusal. -/
def roundToPrecision (value : Int64) (precision : UInt8) : Option Int64 :=
  if 4 < precision then none
  else if precision = 4 then some value
  else
    let divisor := pow10.getD (4 - precision.toNat) 0
    let half := divisor / 2
    let gdd := if value < 0 then -value.toUInt64 else value.toUInt64
    let rounded := (gdd + half) / divisor * divisor
    if 0x7fffffffffffffff < rounded then none
    else some (if value < 0 then -rounded.toInt64 else rounded.toInt64)

/-- The minus at the start of the buffer, and the cursor after it. -/
def writeSign (negative : Bool) (buffer : Buffer) : Except WriteFault (ℕ × Buffer) :=
  if negative then do
    let buffer ← buffer.write 0 [minus]
    .ok (1, buffer)
  else .ok (0, buffer)

/-- The end of `grdd_unit_to_string` without places. -/
def printWhole (printer : Printer) (buffer : Buffer) (cursor : ℕ) (magnitude : UInt64) :
    Except WriteFault (ℤ × Buffer) :=
  let integerPart := magnitude / 10000
  let integerPartStringSize := printer.stringSize integerPart
  if buffer.length < cursor + integerPartStringSize + 1 then
    .ok (cursor + integerPartStringSize, buffer)
  else do
    let printed := printer.knownStringSize integerPart (integerPartStringSize % 256)
    let buffer ← buffer.write cursor printed.1
    .ok (cursor + printed.2, buffer)

/-- The zeros before a number of less than five digits. -/
def padZeros (buffer : Buffer) (cursor numberPlacesCount : ℕ) : Except WriteFault (ℕ × Buffer) :=
  if numberPlacesCount < 5 then do
    let paddingCount := 5 - numberPlacesCount
    let buffer ← buffer.memmove (paddingCount + cursor) cursor (numberPlacesCount + 1)
    let buffer ← buffer.memset cursor 48 paddingCount
    .ok (cursor + paddingCount, buffer)
  else .ok (cursor, buffer)

/-- The point before the last four digits. -/
def insertPoint (buffer : Buffer) (cursor : ℕ) : Except WriteFault (ℕ × Buffer) := do
  let buffer ← buffer.memmove (cursor - 3) (cursor - 4) 5
  let buffer ← buffer.write (cursor + 1 - 5) [point]
  .ok (cursor + 1, buffer)

/-- The cut after the places that are asked for. -/
def cutPlaces (buffer : Buffer) (cursor : ℕ) (precision : UInt8) : Except WriteFault (ℕ × Buffer) :=
  if precision ≠ 4 then do
    let cursor := cursor - (4 - precision.toNat)
    let buffer ← buffer.write cursor [0]
    .ok (cursor, buffer)
  else .ok (cursor, buffer)

/-- The end of `grdd_unit_to_string` with places. -/
def printPlaces (printer : Printer) (buffer : Buffer) (cursor : ℕ) (magnitude : UInt64)
    (precision : UInt8) : Except WriteFault (ℤ × Buffer) :=
  let numberPlacesCount := printer.stringSize magnitude
  if numberPlacesCount < 5 ∧ buffer.length < cursor + 7 then .ok (cursor + 6, buffer)
  else if buffer.length < cursor + numberPlacesCount + 2 then
    .ok (cursor + numberPlacesCount + 1, buffer)
  else do
    let printed := printer.knownStringSize magnitude (numberPlacesCount % 256)
    let buffer ← buffer.write cursor printed.1
    if numberPlacesCount ≠ printed.2 then .ok (-3, buffer)
    else do
      let (cursor, buffer) ← padZeros buffer cursor numberPlacesCount
      let (cursor, buffer) ← insertPoint buffer (cursor + numberPlacesCount)
      let (cursor, buffer) ← cutPlaces buffer cursor precision
      .ok (cursor, buffer)

/-- `grdd_unit_to_string`: its answer and the buffer afterwards. -/
def toString (printer : Printer) (buffer : Buffer) (value : Int64) (precision : UInt8) :
    Except WriteFault (ℤ × Buffer) :=
  if buffer.length = 0 then .ok (-1, buffer)
  else
    let precision := if 4 < precision then 4 else precision
    match roundToPrecision value precision with
    | none => .ok (-2, buffer)
    | some rounded => do
      let magnitude := if rounded < 0 then -rounded.toUInt64 else rounded.toUInt64
      let (cursor, buffer) ← writeSign (rounded < 0) buffer
      if precision = 0 then printWhole printer buffer cursor magnitude
      else printPlaces printer buffer cursor magnitude precision

/-- A vector of the tests: the smallest amount. -/
example :
    (toString .reference (List.replicate 32 1) (-9223372036854775808) 4).map
        (fun answer => (answer.1, answer.2.take 22)) =
      .ok (21, text true 4 9223372036854775808 ++ [0]) := by
  decide

/-! ### The rounding -/

/-- The number of places that are printed. -/
def placesOf (precision : UInt8) : ℕ := min precision.toNat 4

/-- The amount without its sign, rounded, in units of the last place. -/
def unitsOf (value : Int64) (places : ℕ) : ℕ := rounded places 4 value.toInt.natAbs

/-- The rounded amount without its sign. -/
def magnitudeOf (value : Int64) (places : ℕ) : ℕ := unitsOf value places * 10 ^ (4 - places)

/-- The rounded amount exceeds the largest one. -/
def Exceeds (value : Int64) (places : ℕ) : Prop :=
  places < 4 ∧ 2 ^ 63 - 1 < magnitudeOf value places

variable {value : Int64} {places : ℕ}

theorem magnitudeOf_four (value : Int64) : magnitudeOf value 4 = value.toInt.natAbs := by
  rw [magnitudeOf, unitsOf, rounded_of_le le_rfl, Nat.sub_self, Nat.pow_zero, Nat.mul_one,
    Nat.mul_one]

theorem natAbs_le (value : Int64) : value.toInt.natAbs ≤ 2 ^ 63 := by
  have hlow := value.le_toInt
  have hhigh := value.toInt_lt
  omega

theorem toNat_pow10 : ∀ k < 5, (pow10.getD k 0).toNat = 10 ^ k := by decide

/-- The multiple of the divisor that is nearest to the amount. -/
theorem toNat_rounded {gdd : UInt64} (hplaces : places < 4) (hgdd : gdd.toNat ≤ 2 ^ 63) :
    ((gdd + pow10.getD (4 - places) 0 / 2) / pow10.getD (4 - places) 0 *
        pow10.getD (4 - places) 0).toNat = rounded places 4 gdd.toNat * 10 ^ (4 - places) := by
  have hdivisor := toNat_pow10 (4 - places) (by omega)
  have hround := @rounded_eq_div places (4 - places) (by omega) gdd.toNat
  have hsmall : 10 ^ (4 - places) ≤ 10 ^ 4 := Nat.pow_le_pow_right (by decide) (by omega)
  have hsum : (gdd + pow10.getD (4 - places) 0 / 2).toNat = gdd.toNat + 10 ^ (4 - places) / 2 := by
    rw [UInt64.toNat_add, UInt64.toNat_div, hdivisor, show (2 : UInt64).toNat = 2 from rfl]
    omega
  have hproduct := Nat.div_mul_le_self (gdd.toNat + 10 ^ (4 - places) / 2) (10 ^ (4 - places))
  rw [Nat.add_sub_cancel' (by omega : places ≤ 4)] at hround
  rw [UInt64.toNat_mul, UInt64.toNat_div, hsum, hdivisor, hround, Nat.mod_eq_of_lt (by omega)]

/-- `grdd_unit_round_to_precision` keeps the sign and rounds the rest. -/
theorem roundToPrecision_eq {precision : UInt8} (hle : precision ≤ 4) :
    (Exceeds value precision.toNat → roundToPrecision value precision = none) ∧
      (¬ Exceeds value precision.toNat →
        ∃ r, roundToPrecision value precision = some r ∧
          r.toInt =
            if value < 0 then -(magnitudeOf value precision.toNat : ℤ)
              else magnitudeOf value precision.toNat) := by
  have habs := natAbs_le value
  have hsign : value < 0 ↔ value.toInt < 0 := by rw [Int64.lt_iff_toInt_lt, Int64.toInt_zero]
  rw [roundToPrecision, if_neg (UInt8.not_lt.2 hle)]
  by_cases hfour : precision = 4
  · rw [if_pos hfour, hfour]
    refine ⟨fun hexceeds => absurd hexceeds.1 (by decide), fun _ => ⟨value, rfl, ?_⟩⟩
    rw [show (4 : UInt8).toNat = 4 from rfl, magnitudeOf_four]
    simp only [hsign]
    split <;> omega
  · have hplaces : precision.toNat < 4 := by
      rw [UInt8.le_iff_toNat_le] at hle
      exact Nat.lt_of_le_of_ne hle (fun heq => hfour (UInt8.toNat_inj.1 heq))
    have hgdd := R128.toNat_magnitude value
    have hrounded :=
      toNat_rounded hplaces
        (show (if value < 0 then -value.toUInt64 else value.toUInt64).toNat ≤ 2 ^ 63 by omega)
    rw [hgdd, ← unitsOf, ← magnitudeOf] at hrounded
    rw [if_neg hfour]
    simp only
    generalize ((if value < 0 then -value.toUInt64 else value.toUInt64) +
          pow10.getD (4 - precision.toNat) 0 / 2) / pow10.getD (4 - precision.toNat) 0 *
        pow10.getD (4 - precision.toNat) 0 = r at hrounded
    have hexceeds : Exceeds value precision.toNat ↔ 0x7fffffffffffffff < r := by
      rw [Exceeds, and_iff_right hplaces, UInt64.lt_iff_toNat_lt, hrounded]
      rfl
    refine ⟨fun hlarge => if_pos (hexceeds.1 hlarge), fun hfits => ?_⟩
    rw [Exceeds, and_iff_right hplaces] at hfits
    have hvalue : r.toInt64.toInt = magnitudeOf value precision.toNat := by
      rw [R128.toInt_toInt64, hrounded, Int.bmod_def]
      omega
    rw [if_neg (fun hlarge => hfits (hexceeds.2 hlarge).2)]
    refine ⟨_, rfl, ?_⟩
    split
    · rw [Int64.toInt_neg, hvalue, Int.bmod_def]
      omega
    · exact hvalue

/-! ### The steps in the buffer -/

variable {left whole last rest : List UInt8} {n : ℕ}

/-- A list is cut where it is long enough. -/
theorem exists_append {l : List UInt8} (hle : n ≤ l.length) :
    ∃ first later, l = first ++ later ∧ first.length = n :=
  ⟨l.take n, l.drop n, (List.take_append_drop n l).symm, List.length_take_of_le hle⟩

theorem writeSign_eq (negative : Bool) {buffer : Buffer} (hbuffer : 0 < buffer.length) :
    writeSign negative buffer =
      .ok ((signText negative).length,
        signText negative ++ buffer.drop (signText negative).length) := by
  cases negative with
  | false => rfl
  | true =>
    cases buffer with
    | nil => exact absurd hbuffer (by decide)
    | cons c buffer =>
      have hwrite := @write_region [] [c] [minus] buffer 0 rfl rfl
      rw [List.nil_append, List.nil_append, List.singleton_append] at hwrite
      rw [writeSign, if_pos rfl, hwrite]
      rfl

/-- A short number gets the zeros of its whole part. -/
theorem padZeros_eq (n : ℕ) (hrest : 5 - (print n).length ≤ rest.length) :
    ∃ cursor after, padZeros (left ++ ((print n ++ [0]) ++ rest)) left.length (print n).length
        = .ok (cursor, left ++ (print (n / 10000) ++ (fixed 4 n ++ ([0] ++ after)))) ∧
      cursor + (print n).length = left.length + (print (n / 10000)).length + 4 ∧
      after.length = rest.length - (5 - (print n).length) := by
  have hpadded := print_padded 4 n
  have hlength := congrArg List.length hpadded
  rw [List.length_append, List.length_append, List.length_replicate, length_fixed,
    show 10 ^ 4 = 10000 by decide] at hlength
  rw [show 10 ^ 4 = 10000 by decide] at hpadded
  rw [padZeros]
  by_cases hshort : (print n).length < 5
  · -- the padding moves the digits and the zero byte, and the zeros take their place
    obtain ⟨first, later, hcut, hfirst⟩ := @exists_append (5 - (print n).length) ((print n ++ [0]) ++ rest) (by
      rw [List.length_append]
      omega)
    obtain ⟨old, after, hcut', hold⟩ := @exists_append ((print n).length + 1) later (by
      have htotal := congrArg List.length hcut
      simp only [List.length_append, List.length_singleton] at htotal
      omega)
    have hmove : memmove (left ++ ((print n ++ [0]) ++ rest)) (5 - (print n).length + left.length)
          left.length ((print n).length + 1) =
        .ok (left ++ (first ++ ((print n ++ [0]) ++ after))) := by
      have hcopied :
          ((left ++ ((print n ++ [0]) ++ rest)).drop left.length).take ((print n).length + 1) =
            print n ++ [0] := by
        rw [List.drop_left, List.take_left' (by rw [List.length_append, List.length_singleton])]
      rw [← List.append_assoc left first]
      exact memmove_region (by rw [hcut, hcut', List.append_assoc])
        (by rw [List.length_append, hfirst, Nat.add_comm]) hcopied
        (by rw [List.length_append, List.length_singleton]) hold (by omega)
    have hset :=
      @write_region left first (List.replicate (5 - (print n).length) 48)
        ((print n ++ [0]) ++ after) left.length rfl (by rw [List.length_replicate, hfirst])
    rw [if_pos hshort]
    simp only [hmove, fault_bind, memset, hset]
    refine ⟨left.length + (5 - (print n).length), after, ?_, by omega, ?_⟩
    · rw [List.append_assoc (print n), ← List.append_assoc (List.replicate _ _), hpadded,
        List.append_assoc]
    · have htotal := congrArg List.length hcut
      rw [hcut'] at htotal
      simp only [List.length_append, List.length_singleton] at htotal
      omega
  · rw [if_neg hshort]
    rw [show 4 + 1 - (print n).length = 0 by omega, List.replicate_zero, List.nil_append] at hpadded
    refine ⟨left.length, rest, ?_, by omega, by omega⟩
    rw [hpadded, List.append_assoc, List.append_assoc]

/-- The last four digits and the zero byte move by one, and the point takes the place of
the first of them. -/
theorem insertPoint_eq (hlast : last.length = 4) (e : UInt8) :
    insertPoint (left ++ (last ++ ([0] ++ (e :: rest)))) (left.length + 4)
      = .ok (left.length + 4 + 1, left ++ ([point] ++ (last ++ ([0] ++ rest)))) := by
  obtain ⟨first, later, rfl, hfirst⟩ := @exists_append 1 last (by omega)
  rw [List.length_append] at hlast
  have hmove : memmove (left ++ ((first ++ later) ++ ([0] ++ (e :: rest)))) (left.length + 4 - 3)
        (left.length + 4 - 4) 5 = .ok (left ++ (first ++ (((first ++ later) ++ [0]) ++ rest))) := by
    have hcopied :
        ((left ++ ((first ++ later) ++ ([0] ++ (e :: rest)))).drop (left.length + 4 - 4)).take 5 =
          (first ++ later) ++ [0] := by
      rw [Nat.add_sub_cancel, List.drop_left, ← List.append_assoc (first ++ later), List.take_left' (by
        rw [List.length_append, List.length_append, List.length_singleton]
        omega)]
    have hbuffer : left ++ ((first ++ later) ++ ([0] ++ (e :: rest))) =
        (left ++ first) ++ ((later ++ [0, e]) ++ rest) := by
      simp only [List.append_assoc, List.cons_append, List.nil_append]
    rw [← List.append_assoc left first]
    exact memmove_region hbuffer (by rw [List.length_append]; omega) hcopied
      (by rw [List.length_append, List.length_append, List.length_singleton]; omega)
      (by rw [List.length_append, List.length_cons, List.length_singleton]; omega) (by decide)
  have hwrite :=
    @write_region left first [point] (((first ++ later) ++ [0]) ++ rest) (left.length + 4 + 1 - 5)
      (by omega) hfirst.symm
  rw [insertPoint, hmove, fault_bind, hwrite, List.append_assoc (first ++ later)]
  rfl

/-- The places that are too many are cut off. -/
theorem cutPlaces_eq {precision : UInt8} (hle : precision.toNat ≤ 4) (hlast : last.length = 4) :
    ∃ after, cutPlaces (left ++ (last ++ ([0] ++ rest))) (left.length + 4) precision =
        .ok (left.length + precision.toNat, left ++ (last.take precision.toNat ++ ([0] ++ after))) ∧
      after.length = rest.length + (4 - precision.toNat) := by
  rw [cutPlaces]
  by_cases hfour : precision = 4
  · rw [if_neg (not_not.2 hfour), hfour, show (4 : UInt8).toNat = 4 from rfl,
      List.take_of_length_le hlast.le]
    exact ⟨rest, rfl, rfl⟩
  · have hlt : precision.toNat < 4 :=
      Nat.lt_of_le_of_ne hle (fun heq => hfour (UInt8.toNat_inj.1 heq))
    obtain ⟨first, later, rfl, hfirst⟩ := @exists_append precision.toNat last (by omega)
    rw [List.length_append] at hlast
    obtain ⟨old, cut, rfl, hold⟩ := @exists_append 1 later (by omega)
    rw [List.length_append] at hlast
    have hwrite :=
      @write_region (left ++ first) old [0] (cut ++ ([0] ++ rest))
        (left.length + 4 - (4 - precision.toNat)) (by rw [List.length_append]; omega) hold.symm
    have hbuffer : left ++ ((first ++ (old ++ cut)) ++ ([0] ++ rest)) =
        (left ++ first) ++ (old ++ (cut ++ ([0] ++ rest))) := by
      simp only [List.append_assoc]
    rw [if_pos hfour]
    simp only [hbuffer, hwrite, fault_bind]
    refine ⟨cut ++ ([0] ++ rest), ?_, ?_⟩
    · rw [List.take_left' hfirst, List.append_assoc,
        show left.length + 4 - (4 - precision.toNat) = left.length + precision.toNat by omega]
    · simp only [List.length_append, List.length_singleton]
      omega

theorem length_print_lt (n : UInt64) : (print n.toNat).length < 256 := by
  have hlt := n.toNat_lt
  have hle : (print n.toNat).length ≤ 20 := (length_print_le_iff (by decide)).2 (by omega)
  omega

/-- The length of a number and of its whole part. -/
theorem length_whole (n : ℕ) : (print (n / 10000)).length + 4 = max 5 (print n).length := by
  have hlength := congrArg List.length (print_padded 4 n)
  rw [List.length_append, List.length_append, List.length_replicate, length_fixed,
    show 10 ^ 4 = 10000 by decide] at hlength
  omega

/-- With places, what is printed is the text with four places as far as they are asked for. -/
theorem printPlaces_of_lt {printer : Printer} (hplain : printer.Plain) {magnitude : UInt64}
    {precision : UInt8} (hle : precision.toNat ≤ 4)
    (hroom : left.length + (print (magnitude.toNat / 10000)).length + 5 < (left ++ rest).length) :
    ∃ after, printPlaces printer (left ++ rest) left.length magnitude precision =
        .ok (((left.length + (print (magnitude.toNat / 10000)).length + 1 + precision.toNat : ℕ) :
            ℤ),
          left ++
            (print (magnitude.toNat / 10000) ++
              ([point] ++
                (fixed precision.toNat (magnitude.toNat / 10 ^ (4 - precision.toNat)) ++
                  ([0] ++ after))))) ∧
      (left ++
          (print (magnitude.toNat / 10000) ++
            ([point] ++
              (fixed precision.toNat (magnitude.toNat / 10 ^ (4 - precision.toNat)) ++
                ([0] ++ after))))).length = (left ++ rest).length := by
  have hcast := length_print_lt magnitude
  generalize hm : magnitude.toNat = m at *
  have hwhole := length_whole m
  have hprinted := hplain.knownStringSize_eq magnitude
  have hsize := hplain.stringSize_eq magnitude
  rw [hm] at hprinted hsize
  rw [List.length_append] at hroom
  obtain ⟨old, later, rfl, hold⟩ := @exists_append ((print m).length + 1) rest (by omega)
  rw [List.length_append] at hroom
  have hwrite :=
    @write_region left old (print m ++ [0]) later left.length rfl
      (by rw [List.length_append, hold]; rfl)
  obtain ⟨cursor, padded, hpad, hcursor, hlength⟩ := @padZeros_eq left later m (by omega)
  obtain ⟨e, after, rfl⟩ : ∃ e after, padded = e :: after := by
    cases padded with
    | nil =>
      rw [List.length_nil] at hlength
      omega
    | cons e after => exact ⟨e, after, rfl⟩
  have hopen := @insertPoint_eq (left ++ print (m / 10000)) (fixed 4 m) after (length_fixed 4 m) e
  obtain ⟨cut, hcut, hcutlength⟩ :=
    @cutPlaces_eq (left ++ print (m / 10000) ++ [point]) (fixed 4 m) after precision hle
      (length_fixed 4 m)
  have htake := take_fixed precision.toNat (4 - precision.toNat) m
  rw [Nat.add_sub_cancel' hle] at htake
  rw [htake] at hcut
  have hplace : cursor + (print m).length = (left ++ print (m / 10000)).length + 4 := by
    rw [List.length_append]
    omega
  have hplace' : (left ++ print (m / 10000)).length + 4 + 1 =
      (left ++ print (m / 10000) ++ [point]).length + 4 := by
    simp only [List.length_append, List.length_singleton]
  have hshort : ¬ ((print m).length < 5 ∧ (left ++ (old ++ later)).length < left.length + 7) := by
    simp only [List.length_append]
    omega
  have hfits : ¬ (left ++ (old ++ later)).length < left.length + (print m).length + 2 := by
    simp only [List.length_append]
    omega
  simp only [List.append_assoc] at hopen hcut hpad hwrite
  refine ⟨cut, ?_, ?_⟩
  · rw [printPlaces]
    simp only [hsize, if_neg hshort, if_neg hfits, Nat.mod_eq_of_lt hcast, hprinted, hwrite,
      fault_bind, ne_eq, not_true_eq_false, if_false, List.append_assoc, hpad, hplace, hopen,
      hplace', hcut]
    rw [List.length_append, List.length_append, List.length_singleton, ← Nat.add_assoc]
  · rw [List.length_cons] at hlength
    simp only [List.length_append, List.length_singleton, length_fixed]
    omega

/-- Without the room for four places, nothing is printed. -/
theorem printPlaces_of_le {printer : Printer} (hplain : printer.Plain) {magnitude : UInt64}
    (precision : UInt8) {buffer : Buffer} {cursor : ℕ}
    (hroom : buffer.length ≤ cursor + (print (magnitude.toNat / 10000)).length + 5) :
    printPlaces printer buffer cursor magnitude precision =
      .ok (((cursor + (print (magnitude.toNat / 10000)).length + 5 : ℕ) : ℤ), buffer) := by
  have hwhole := length_whole magnitude.toNat
  rw [printPlaces, hplain.stringSize_eq]
  by_cases hshort : (print magnitude.toNat).length < 5
  · rw [if_pos ⟨hshort, by omega⟩]
    congr 2
    omega
  · rw [if_neg (fun hboth => hshort hboth.1), if_pos (by omega)]
    congr 2
    omega

/-- Without places, the whole part is printed if it has room. -/
theorem printWhole_eq {printer : Printer} (hplain : printer.Plain) (magnitude : UInt64) :
    ∃ after, printWhole printer (left ++ rest) left.length magnitude =
        .ok (((left.length + (print (magnitude.toNat / 10000)).length : ℕ) : ℤ), after) ∧
      after.length = (left ++ rest).length ∧
      (left.length + (print (magnitude.toNat / 10000)).length < (left ++ rest).length →
        left ++ (print (magnitude.toNat / 10000) ++ [0]) <+: after) ∧
      ((left ++ rest).length ≤ left.length + (print (magnitude.toNat / 10000)).length →
        after = left ++ rest) := by
  have hdiv : (magnitude / 10000).toNat = magnitude.toNat / 10000 := by
    rw [UInt64.toNat_div]
    rfl
  have hcast := length_print_lt (magnitude / 10000)
  have hsize := hplain.stringSize_eq (magnitude / 10000)
  have hprinted := hplain.knownStringSize_eq (magnitude / 10000)
  rw [hdiv] at hcast hsize hprinted
  rw [printWhole]
  generalize print (magnitude.toNat / 10000) = digits at hcast hsize hprinted ⊢
  by_cases hroom : left.length + digits.length < (left ++ rest).length
  · rw [List.length_append] at hroom
    obtain ⟨old, later, rfl, hold⟩ := @exists_append (digits.length + 1) rest (by omega)
    have hwrite :=
      @write_region left old (digits ++ [0]) later left.length rfl
        (by rw [List.length_append, hold]; rfl)
    refine ⟨left ++ ((digits ++ [0]) ++ later), ?_, ?_, fun _ => ?_, fun hsmall => ?_⟩
    · simp only [hsize, Nat.mod_eq_of_lt hcast, hprinted, hwrite, fault_bind]
      rw [if_neg (by simp only [List.length_append]; omega)]
      rfl
    · simp only [List.length_append, List.length_singleton]
      omega
    · rw [← List.append_assoc left (digits ++ [0]) later]
      exact List.prefix_append _ _
    · rw [List.length_append] at hsmall
      omega
  · refine ⟨left ++ rest, ?_, rfl, fun hlarge => absurd hlarge hroom, fun _ => rfl⟩
    simp only [hsize]
    rw [if_pos (by omega)]
    rfl

/-! ### The text -/

/-- Whether a minus is printed. -/
def showsMinus (value : Int64) (places : ℕ) : Bool := value < 0 ∧ unitsOf value places ≠ 0

/-- The decimal text of the amount, rounded. -/
def amountText (value : Int64) (places : ℕ) : List UInt8 :=
  text (showsMinus value places) places (unitsOf value places)

/-- The length of the text that is printed before it is cut: with a point, it has all four
places. -/
def requiredSize (value : Int64) (places : ℕ) : ℕ :=
  if places = 0 then (amountText value 0).length
    else (text (showsMinus value places) 4 (magnitudeOf value places)).length

/-- What the sign makes of the buffer. -/
def signedBuffer (value : Int64) (places : ℕ) (buffer : Buffer) : Buffer :=
  signText (showsMinus value places) ++ buffer.drop (signText (showsMinus value places)).length

theorem magnitudeOf_div (value : Int64) (places : ℕ) :
    magnitudeOf value places / 10 ^ (4 - places) = unitsOf value places := by
  rw [magnitudeOf, Nat.mul_div_cancel _ (Nat.pow_pos (by decide))]

theorem magnitudeOf_whole (value : Int64) (hplaces : places ≤ 4) :
    magnitudeOf value places / 10000 = unitsOf value places / 10 ^ places := by
  have hsplit : 10000 = 10 ^ (4 - places) * 10 ^ places := by
    rw [← Nat.pow_add, Nat.sub_add_cancel hplaces]
  rw [hsplit, ← Nat.div_div_eq_div_mul, magnitudeOf_div]

/-- The rounded amount, without its sign and with it. -/
theorem magnitude_of_rounded {r : Int64}
    (hr : r.toInt =
      if value < 0 then -(magnitudeOf value places : ℤ) else magnitudeOf value places) :
    (if r < 0 then -r.toUInt64 else r.toUInt64).toNat = magnitudeOf value places ∧
      (decide (r < 0) = showsMinus value places) := by
  have hunits : magnitudeOf value places = 0 ↔ unitsOf value places = 0 := by
    rw [magnitudeOf, Nat.mul_eq_zero, or_iff_left (Nat.pow_pos (by decide)).ne']
  refine ⟨?_, ?_⟩
  · rw [R128.toNat_magnitude, hr]
    split <;> omega
  · rw [showsMinus, decide_eq_decide, Int64.lt_iff_toInt_lt, Int64.toInt_zero, hr, ne_eq, ← hunits]
    by_cases hneg : value < 0
    · rw [if_pos hneg, and_iff_right hneg]
      omega
    · rw [if_neg hneg, iff_false_right (fun hboth => hneg hboth.1)]
      omega

theorem capped_precision (precision : UInt8) :
    (if 4 < precision then 4 else precision) ≤ 4 ∧
      (if 4 < precision then 4 else precision : UInt8).toNat = placesOf precision := by
  have hfour : (4 : UInt8).toNat = 4 := rfl
  rw [UInt8.le_iff_toNat_le, placesOf]
  by_cases hlarge : 4 < precision
  · rw [UInt8.lt_iff_toNat_lt] at hlarge
    rw [if_pos (UInt8.lt_iff_toNat_lt.2 hlarge), hfour]
    omega
  · rw [if_neg hlarge, hfour]
    rw [UInt8.lt_iff_toNat_lt, hfour] at hlarge
    omega

theorem requiredSize_eq (value : Int64) (hplaces : places ≤ 4) :
    requiredSize value places =
      (signText (showsMinus value places)).length +
        (print (magnitudeOf value places / 10000)).length + (if places = 0 then 0 else 5) := by
  rw [requiredSize]
  by_cases hnone : places = 0
  · rw [if_pos hnone, if_pos hnone, magnitudeOf_whole value hplaces, hnone, amountText, length_text]
    rfl
  · rw [if_neg hnone, if_neg hnone, length_text]
    rfl

theorem length_amountText_le (value : Int64) (hplaces : places ≤ 4) :
    (amountText value places).length ≤ requiredSize value places := by
  rw [requiredSize_eq value hplaces, amountText, length_text, magnitudeOf_whole value hplaces]
  apply Nat.add_le_add_left
  split <;> omega

/-- The buffer after the sign has the size it had. -/
theorem length_signedBuffer (value : Int64) (places : ℕ) {buffer : Buffer}
    (hbuffer : 0 < buffer.length) : (signedBuffer value places buffer).length = buffer.length := by
  rw [signedBuffer, List.length_append, List.length_drop, signText]
  split
  · rw [List.length_singleton]
    omega
  · exact Nat.zero_add _

/-- What a call does with an amount that does not exceed the largest one. -/
theorem printed {printer : Printer} (hplain : printer.Plain) {buffer : Buffer}
    (hbuffer : 0 < buffer.length) (precision : UInt8)
    (hfits : ¬ Exceeds value (placesOf precision)) :
    ∃ answer after, toString printer buffer value precision = .ok (((answer : ℕ) : ℤ), after) ∧
      after.length = buffer.length ∧
      answer =
        (if requiredSize value (placesOf precision) < buffer.length then
            (amountText value (placesOf precision)).length
          else requiredSize value (placesOf precision)) ∧
      (requiredSize value (placesOf precision) < buffer.length →
        amountText value (placesOf precision) ++ [0] <+: after) ∧
      (buffer.length ≤ requiredSize value (placesOf precision) →
        after = signedBuffer value (placesOf precision) buffer) := by
  obtain ⟨hle, hplaces⟩ := capped_precision precision
  have hfour : placesOf precision ≤ 4 := Nat.min_le_right _ _
  rw [toString, if_neg (by omega)]
  simp only
  generalize (if 4 < precision then 4 else precision : UInt8) = capped at hle hplaces
  generalize placesOf precision = places at hfits hplaces hfour
  subst hplaces
  obtain ⟨r, hround, hr⟩ := (roundToPrecision_eq hle).2 hfits
  obtain ⟨hmagnitude, hsign⟩ := magnitude_of_rounded hr
  have hlength := length_signedBuffer value capped.toNat hbuffer
  have hrequired := requiredSize_eq value hfour
  have hwhole := magnitudeOf_whole value hfour
  rw [signedBuffer] at hlength
  simp only [hround, hsign, writeSign_eq _ hbuffer, fault_bind, signedBuffer]
  generalize (if r < 0 then -r.toUInt64 else r.toUInt64) = magnitude at hmagnitude ⊢
  generalize buffer.drop (signText (showsMinus value capped.toNat)).length = rest at hlength ⊢
  by_cases hnone : capped = 0
  · have hzero : capped.toNat = 0 := by rw [hnone]; rfl
    obtain ⟨after, hrun, hafter, hlarge, hsmall⟩ :=
      @printWhole_eq (signText (showsMinus value capped.toNat)) rest printer hplain magnitude
    rw [hmagnitude] at hrun hlarge hsmall
    rw [if_pos hzero, Nat.add_zero] at hrequired
    rw [← hrequired, hlength] at hlarge hsmall
    have htext : (amountText value capped.toNat).length = requiredSize value capped.toNat := by
      rw [requiredSize, if_pos hzero, hzero]
    refine ⟨requiredSize value capped.toNat, after, ?_, by rw [hafter, hlength],
      by rw [htext, ite_self], ?_, hsmall⟩
    · rw [if_pos hnone, hrun, hrequired]
    · intro hroom
      rw [amountText, text, ← hwhole, if_pos hzero, List.append_nil, List.append_assoc]
      exact hlarge hroom
  · have hsome : capped.toNat ≠ 0 := fun hzero => hnone (UInt8.toNat_inj.1 hzero)
    rw [if_neg hsome, ← hmagnitude] at hrequired
    by_cases hroom : requiredSize value capped.toNat < buffer.length
    · have hroom' := hroom
      rw [← hlength, hrequired] at hroom'
      obtain ⟨after, hrun, hafter⟩ := printPlaces_of_lt hplain hfour hroom'
      rw [hmagnitude, magnitudeOf_div, hwhole] at hrun hafter
      have htext : (amountText value capped.toNat).length =
          (signText (showsMinus value capped.toNat)).length +
            (print (unitsOf value capped.toNat / 10 ^ capped.toNat)).length + 1 + capped.toNat := by
        rw [amountText, length_text, if_neg hsome]
        omega
      refine ⟨_, _, by rw [if_neg hnone, hrun], by rw [hafter, hlength], by rw [if_pos hroom, htext], fun _ => ?_,
        fun hsmall => absurd hroom (Nat.not_lt.2 hsmall)⟩
      rw [amountText, text, if_neg hsome]
      refine ⟨after, ?_⟩
      simp only [List.append_assoc, List.cons_append, List.nil_append]
    · have hrun :=
        @printPlaces_of_le printer hplain magnitude capped _
          (signText (showsMinus value capped.toNat)).length
        (show (signText (showsMinus value capped.toNat) ++ rest).length ≤ _ by rw [hlength, ← hrequired]; exact Nat.le_of_not_lt hroom)
      refine ⟨requiredSize value capped.toNat, _, ?_, hlength, by rw [if_neg hroom],
        fun hlarge => absurd hlarge hroom, fun _ => rfl⟩
      rw [if_neg hnone, hrun, hrequired]

/-- The amount is printed as its rounded decimal text wherever that has room with all four places; a
smaller buffer is left alone, but for the sign, and the answer is the size that is missing. Nothing
is written outside the buffer. -/
theorem toString_prints {printer : Printer} (hplain : printer.Plain) {buffer : Buffer}
    (hbuffer : 0 < buffer.length) (value : Int64) (precision : UInt8) :
    ∃ answer after, toString printer buffer value precision = .ok (answer, after) ∧
      after.length = buffer.length ∧ (answer = -2 ↔ Exceeds value (placesOf precision)) ∧
      (answer ≠ -2 →
        answer =
            (if requiredSize value (placesOf precision) < buffer.length then
                (amountText value (placesOf precision)).length
              else requiredSize value (placesOf precision) : ℕ) ∧
          (answer < buffer.length → amountText value (placesOf precision) ++ [0] <+: after) ∧
          (buffer.length ≤ answer → after = signedBuffer value (placesOf precision) buffer)) := by
  by_cases hexceeds : Exceeds value (placesOf precision)
  · obtain ⟨hle, hplaces⟩ := capped_precision precision
    have hrefused := (roundToPrecision_eq hle).1 (hplaces ▸ hexceeds)
    refine ⟨-2, buffer, ?_, rfl, iff_of_true rfl hexceeds, fun hother => absurd rfl hother⟩
    rw [toString, if_neg (by omega)]
    simp only [hrefused]
  · obtain ⟨answer, after, hrun, hlength, hanswer, hlarge, hsmall⟩ :=
      printed hplain hbuffer precision hexceeds
    refine ⟨answer, after, hrun, hlength, iff_of_false (by omega) hexceeds,
      fun _ => ⟨by rw [hanswer], fun hlt => ?_, fun hle => ?_⟩⟩
    · apply hlarge
      by_contra hroom
      rw [if_neg hroom] at hanswer
      omega
    · apply hsmall
      by_contra hroom
      have hshorter :=
        length_amountText_le value (show placesOf precision ≤ 4 from Nat.min_le_right _ _)
      rw [if_pos (Nat.lt_of_not_le hroom)] at hanswer
      omega

theorem toString_prints_cent :
    ∃ answer after, toString .reference (List.replicate 8 0) 12345 2 = .ok (answer, after) ∧
      after.length = 8 ∧ (answer = -2 ↔ Exceeds 12345 2) ∧
      (answer ≠ -2 →
        answer =
            (if requiredSize 12345 2 < 8 then (amountText 12345 2).length
              else requiredSize 12345 2 : ℕ) ∧ (answer < 8 → amountText 12345 2 ++ [0] <+: after) ∧
          (8 ≤ answer → after = signedBuffer 12345 2 (List.replicate 8 0))) :=
  toString_prints ⟨fun _ => rfl, fun _ => rfl⟩ (by decide) 12345 2

/-- The text `1.23` has four bytes; a buffer of one byte is answered with the six
bytes of `1.2300`. -/
theorem toString_ne_length :
    ¬ ∀ (printer : Printer) (buffer : Buffer) (value : Int64) (precision : UInt8), printer.Plain → 0
      < buffer.length → ¬ Exceeds value (placesOf precision) →
      ∃ after, toString printer buffer value precision =
        .ok (((amountText value (placesOf precision)).length : ℤ), after) := by
  intro hlength
  have hrun : toString .reference [0] 12345 2 = .ok (6, [0]) := by decide
  have htext : (amountText 12345 (placesOf 2)).length = 4 := by decide
  obtain ⟨after, hafter⟩ := hlength .reference [0] 12345 2 ⟨fun _ => rfl, fun _ => rfl⟩ (by decide) (fun hexceeds => by
    have hsmall : ¬ 2 ^ 63 - 1 < magnitudeOf 12345 (placesOf 2) := by decide
    exact hsmall hexceeds.2)
  rw [hrun, htext] at hafter
  cases hafter

end GrddUnit

end GradidoBlockchain
