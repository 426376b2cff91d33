import GradidoBlockchain.Lib.Buffer
import GradidoBlockchain.Lib.Decimal
import GradidoBlockchain.Time.Timestamp

/-!
# Printing points in time

`timestamp.c`: a timestamp as its seconds, a point and nine digits, and how long this text
is. What is printed goes to a place in memory that has a size of its own, which may end
before the memory does.
-/

namespace GradidoBlockchain

open Decimal Buffer

/-- The printing of signed numbers by arnm. -/
structure IntPrinter where
  /-- `arnm_int64_to_string_size`. -/
  stringSize : Int64 → UInt8
  /-- `arnm_int64_to_string_known_string_size`: the bytes it writes. -/
  knownStringSize : Int64 → UInt8 → List UInt8

/-- Both agree on the plain form of a number, behind which a zero byte is written. -/
structure IntPrinter.Plain (printer : IntPrinter) : Prop where
  stringSize_eq : ∀ n, (printer.stringSize n).toNat = (printInt n.toInt).length
  knownStringSize_eq : ∀ n,
    printer.knownStringSize n (printer.stringSize n) = printInt n.toInt ++ [0]

/-- A printer of this kind. -/
def IntPrinter.reference : IntPrinter :=
  ⟨fun n => .ofNat (printInt n.toInt).length, fun n _ => printInt n.toInt ++ [0]⟩

theorem length_printInt_le (n : Int64) : (printInt n.toInt).length ≤ 20 := by
  have hlow := n.le_toInt
  have hhigh := n.toInt_lt
  have hdigits : (print n.toInt.natAbs).length ≤ 19 :=
    (length_print_le_iff (by decide)).2 (by omega)
  have hsign : (signText (n.toInt < 0)).length ≤ 1 := by
    rw [signText]
    split <;> decide
  rw [printInt, List.length_append]
  omega

theorem IntPrinter.reference_plain : IntPrinter.reference.Plain where
  stringSize_eq n := by
    have hlength := length_printInt_le n
    rw [reference, UInt8.toNat_ofNat', Nat.mod_eq_of_lt (by omega)]
  knownStringSize_eq _ := rfl

/-- The size is known as the code hands it on, in eight bits. -/
theorem IntPrinter.Plain.prints {printer : IntPrinter} (hplain : printer.Plain) (n : Int64) :
    printer.knownStringSize n (.ofNat (printInt n.toInt).length) = printInt n.toInt ++ [0] := by
  rw [← hplain.stringSize_eq, UInt8.ofNat_toNat, hplain.knownStringSize_eq]

namespace Timestamp

/-- `nanos_representable`. -/
def nanosRepresentable (nanos : Int32) : Bool := 0 ≤ nanos && nanos < 1000000000

/-- `grdd_timestamp_calculate_string_size`. -/
def calculateStringSize (printer : IntPrinter) (timestamp : Timestamp) : ℕ :=
  if !nanosRepresentable timestamp.nanos then 0
    else (printer.stringSize timestamp.seconds).toNat + 9 + 1

/-- `grdd_timestamp_to_string`: its answer, and the memory that the buffer is a place in. The zeros
are counted in a word that wraps. -/
def toString (printer : IntPrinter) (memory : Buffer) (buffer bufferSize : ℕ)
    (timestamp : Timestamp) : Except WriteFault (ℕ × Buffer) :=
  if bufferSize = 0 then .ok (0, memory)
  else if !nanosRepresentable timestamp.nanos then .ok (0, memory)
  else
    let secondsSize := (printer.stringSize timestamp.seconds).toNat
    let nanosSize := (printer.stringSize timestamp.nanos.toInt64).toNat
    let resultSize := secondsSize + 1 + 9
    if bufferSize < resultSize + 1 then .ok (resultSize, memory)
    else do
      let memory ← memory.write buffer
          (printer.knownStringSize timestamp.seconds (.ofNat secondsSize))
      let memory ← memory.write (buffer + secondsSize) [point]
      let zeroPadCount := (2 ^ 64 + 9 - nanosSize) % 2 ^ 64
      let memory ← (if zeroPadCount ≠ 0 then
            memory.memset (buffer + secondsSize + 1) 48 zeroPadCount
          else .ok memory)
      let memory ← memory.write (buffer + secondsSize + 1 + zeroPadCount)
          (printer.knownStringSize timestamp.nanos.toInt64 (.ofNat nanosSize))
      .ok (resultSize, memory)

/-! ### The text -/

/-- The seconds and nine digits of nanoseconds. -/
def text (timestamp : Timestamp) : List UInt8 :=
  printInt timestamp.seconds.toInt ++ point :: fixed 9 timestamp.nanos.toInt.toNat

theorem nanosRepresentable_iff (t : Timestamp) : nanosRepresentable t.nanos = true ↔ t.Normal := by
  rw [nanosRepresentable, Bool.and_eq_true, decide_eq_true_iff, decide_eq_true_iff,
    Int32.le_iff_toInt_le, Int32.lt_iff_toInt_lt, Normal]
  rfl

theorem length_text (t : Timestamp) :
    t.text.length = (printInt t.seconds.toInt).length + 9 + 1 := by
  rw [text, List.length_append, List.length_cons, length_fixed, Nat.add_assoc]

theorem ne_zero_of_mem_text {t : Timestamp} {c : UInt8} (hmem : c ∈ t.text) : c ≠ 0 := by
  rw [text, List.mem_append, List.mem_cons] at hmem
  obtain hseconds | hpoint | hnanos := hmem
  · exact ne_zero_of_mem_printInt hseconds
  · rw [hpoint]
    decide
  · exact ne_zero_of_isDigit (isDigit_fixed _ _ c hnanos)

variable {printer : IntPrinter} {t : Timestamp}

theorem calculateStringSize_eq (hplain : printer.Plain) (t : Timestamp) :
    t.calculateStringSize printer = if t.Normal then t.text.length else 0 := by
  rw [calculateStringSize, hplain.stringSize_eq]
  by_cases hnormal : t.Normal
  · rw [if_pos hnormal, (nanosRepresentable_iff t).2 hnormal, length_text]
    rfl
  · rw [if_neg hnormal, Bool.eq_false_iff.2 (mt (nanosRepresentable_iff t).1 hnormal)]
    rfl

/-- The nanoseconds, without a sign and with zeros before them. -/
theorem printInt_nanos (hnormal : t.Normal) :
    printInt t.nanos.toInt = print t.nanos.toInt.toNat ∧ 0 < (print t.nanos.toInt.toNat).length ∧
      (print t.nanos.toInt.toNat).length ≤ 9 ∧
      List.replicate (9 - (print t.nanos.toInt.toNat).length) 48 ++ print t.nanos.toInt.toNat =
        fixed 9 t.nanos.toInt.toNat := by
  obtain ⟨hlow, hhigh⟩ := hnormal
  rw [nanosPerSecond] at hhigh
  have hlt : t.nanos.toInt.toNat < 10 ^ 9 := by omega
  refine ⟨?_, length_print_pos _, (length_print_le_iff (by decide)).2 hlt,
    padded_eq_fixed hlt (by decide)⟩
  rw [printInt, decide_eq_false (by omega),
    show t.nanos.toInt.natAbs = t.nanos.toInt.toNat by omega]
  rfl

/-- A timestamp that can be printed stands in a buffer with room for it and its zero byte. -/
theorem toString_of_lt (hplain : printer.Plain) (hnormal : t.Normal) {memory : Buffer}
    {buffer bufferSize : ℕ} (hroom : buffer + bufferSize ≤ memory.length)
    (hlt : t.text.length < bufferSize) :
    t.toString printer memory buffer bufferSize =
      .ok (t.text.length, memory.put buffer (t.text ++ [0])) := by
  obtain ⟨hnanos, hpos, hnine, hpadded⟩ := printInt_nanos hnormal
  have hlength := length_text t
  have hseconds := hplain.prints t.seconds
  have hsize := hplain.stringSize_eq t.seconds
  have hprinted := hplain.prints t.nanos.toInt64
  have hnanosSize := hplain.stringSize_eq t.nanos.toInt64
  rw [Int32.toInt_toInt64, hnanos] at hprinted hnanosSize
  rw [text, ← hpadded] at hlength hlt ⊢
  generalize print t.nanos.toInt.toNat = nanos at *
  generalize printInt t.seconds.toInt = seconds at *
  have hzeros : (2 ^ 64 + 9 - nanos.length) % 2 ^ 64 = 9 - nanos.length := by omega
  have hfirst : memory.write buffer (seconds ++ [0]) =
      .ok (memory.put buffer (seconds ++ [0])) := by
    apply write_eq_put
    rw [List.length_append, List.length_singleton]
    omega
  have hpoint : (memory.put buffer (seconds ++ [0])).write (buffer + seconds.length) [point] =
      .ok (memory.put buffer (seconds ++ [point])) :=
    write_after rfl rfl le_rfl (by rw [List.length_singleton]; omega)
  have hpad : (if 9 - nanos.length ≠ 0 then
        (memory.put buffer (seconds ++ [point])).memset (buffer + seconds.length + 1) 48
          (9 - nanos.length)
      else .ok (memory.put buffer (seconds ++ [point])))
      = .ok (memory.put buffer (seconds ++ [point] ++ List.replicate (9 - nanos.length) 48)) := by
    by_cases hnone : 9 - nanos.length = 0
    · rw [if_neg (not_not_intro hnone), hnone, List.replicate_zero, List.append_nil]
    · rw [if_pos hnone, memset]
      apply write_next <;>
        simp only [List.length_append, List.length_singleton, List.length_replicate] <;> omega
  have hlast : (memory.put buffer
        (seconds ++ [point] ++ List.replicate (9 - nanos.length) 48)).write
        (buffer + seconds.length + 1 + (9 - nanos.length)) (nanos ++ [0]) =
      .ok (memory.put buffer
        (seconds ++ [point] ++ List.replicate (9 - nanos.length) 48 ++ (nanos ++ [0]))) := by
    apply write_next <;>
      simp only [List.length_append, List.length_singleton, List.length_replicate] <;> omega
  rw [toString, if_neg (by omega), (nanosRepresentable_iff t).2 hnormal, Bool.not_true,
    if_neg Bool.false_ne_true]
  simp only [hsize, hseconds, hnanosSize, hprinted, hzeros]
  rw [if_neg (by omega), hfirst, fault_bind, hpoint, fault_bind, hpad, fault_bind, hlast,
    fault_bind, hlength]
  simp only [List.append_assoc, List.cons_append, List.nil_append]

theorem toString_eq (hplain : printer.Plain) (t : Timestamp) {memory : Buffer}
    {buffer bufferSize : ℕ} (hpos : 0 < bufferSize) (hroom : buffer + bufferSize ≤ memory.length) :
    t.toString printer memory buffer bufferSize =
      .ok (t.calculateStringSize printer,
        if t.Normal then memory.printed buffer bufferSize t.text else memory) := by
  rw [calculateStringSize_eq hplain]
  by_cases hnormal : t.Normal
  · rw [if_pos hnormal, if_pos hnormal, printed]
    split
    case isTrue hlt => exact toString_of_lt hplain hnormal hroom hlt
    case isFalse hlarge =>
      have hlength := length_text t
      rw [toString, if_neg hpos.ne', (nanosRepresentable_iff t).2 hnormal, Bool.not_true,
        if_neg Bool.false_ne_true, hplain.stringSize_eq, if_pos (by omega)]
      congr 2
      omega
  · rw [if_neg hnormal, if_neg hnormal, toString, if_neg hpos.ne',
      Bool.eq_false_iff.2 (mt (nanosRepresentable_iff t).1 hnormal)]
    rfl

end Timestamp

end GradidoBlockchain
