import GradidoBlockchain.Time.Printing
import GradidoBlockchain.Wire.Values

/-!
# Printing hiero ids

`hiero.c`: the ids of accounts and of transactions as text, and how long the texts are. Each part
closes its text with a zero byte, and what stands between the parts is written over it.
-/

namespace GradidoBlockchain

open Decimal Buffer

namespace Wire

/-- The byte between the account and the time of a transaction id. -/
def atSign : UInt8 := 64

namespace HieroAccountId

/-- `grdw_hiero_account_id_calculate_string_size`. -/
def calculateStringSize (printer : IntPrinter) (id : HieroAccountId) : ℕ :=
  (printer.stringSize id.shardNum).toNat + (printer.stringSize id.realmNum).toNat +
    (printer.stringSize id.accountNum).toNat + 2

/-- `grdw_hiero_account_id_to_string`: its answer, and the memory that the buffer is a place in. -/
def toString (printer : IntPrinter) (memory : Buffer) (buffer bufferSize : ℕ)
    (id : HieroAccountId) : Except WriteFault (ℕ × Buffer) :=
  if bufferSize = 0 then .ok (0, memory)
  else
    let shardNumSize := (printer.stringSize id.shardNum).toNat
    let realmNumSize := (printer.stringSize id.realmNum).toNat
    let accountNumSize := (printer.stringSize id.accountNum).toNat
    let resultSize := shardNumSize + realmNumSize + accountNumSize + 2
    if bufferSize < resultSize + 1 then .ok (resultSize, memory)
    else do
      let memory ← memory.write buffer (printer.knownStringSize id.shardNum (.ofNat shardNumSize))
      let memory ← memory.write (buffer + shardNumSize) [point]
      let buffer := buffer + shardNumSize + 1
      let memory ← memory.write buffer (printer.knownStringSize id.realmNum (.ofNat realmNumSize))
      let memory ← memory.write (buffer + realmNumSize) [point]
      let buffer := buffer + realmNumSize + 1
      let memory ← memory.write buffer
          (printer.knownStringSize id.accountNum (.ofNat accountNumSize))
      .ok (resultSize, memory)

/-- The three numbers, with points between them. -/
def text (id : HieroAccountId) : List UInt8 :=
  printInt id.shardNum.toInt ++
    point :: (printInt id.realmNum.toInt ++ point :: printInt id.accountNum.toInt)

end HieroAccountId

namespace HieroTransactionId

/-- `grdw_hiero_transaction_id_calculate_string_size`. -/
def calculateStringSize (printer : IntPrinter) (id : HieroTransactionId) : ℕ :=
  let timestampSize := id.transactionValidStart.calculateStringSize printer
  if timestampSize = 0 then 0 else id.accountId.calculateStringSize printer + 1 + timestampSize

/-- `grdw_hiero_transaction_id_to_string`, which does not look at what the printing of
its parts answers. -/
def toString (printer : IntPrinter) (memory : Buffer) (buffer bufferSize : ℕ)
    (id : HieroTransactionId) : Except WriteFault (ℕ × Buffer) :=
  if bufferSize = 0 then .ok (0, memory)
  else
    let timestampSize := id.transactionValidStart.calculateStringSize printer
    if timestampSize = 0 then .ok (0, memory)
    else
      let accountIdSize := id.accountId.calculateStringSize printer
      let resultSize := accountIdSize + 1 + timestampSize
      if bufferSize < resultSize + 1 then .ok (resultSize, memory)
      else do
        let (_, memory) ← id.accountId.toString printer memory buffer bufferSize
        let memory ← memory.write (buffer + accountIdSize) [atSign]
        let (_, memory) ← id.transactionValidStart.toString printer memory
            (buffer + accountIdSize + 1) (bufferSize - accountIdSize - 1)
        .ok (resultSize, memory)

/-- The account and the time. -/
def text (id : HieroTransactionId) : List UInt8 :=
  id.accountId.text ++ atSign :: id.transactionValidStart.text

end HieroTransactionId

/-! ### What is printed -/

variable {printer : IntPrinter} {memory : Buffer} {buffer bufferSize : ℕ}

namespace HieroAccountId

theorem length_text (id : HieroAccountId) :
    id.text.length =
      (printInt id.shardNum.toInt).length + (printInt id.realmNum.toInt).length +
        (printInt id.accountNum.toInt).length + 2 := by
  simp only [text, List.length_append, List.length_cons]
  omega

theorem ne_zero_of_mem_text {id : HieroAccountId} {c : UInt8} (hmem : c ∈ id.text) : c ≠ 0 := by
  simp only [text, List.mem_append, List.mem_cons] at hmem
  obtain hshard | hpoint | hrealm | hpoint | haccount := hmem
  · exact ne_zero_of_mem_printInt hshard
  · exact hpoint ▸ by decide
  · exact ne_zero_of_mem_printInt hrealm
  · exact hpoint ▸ by decide
  · exact ne_zero_of_mem_printInt haccount

theorem calculateStringSize_eq (hplain : printer.Plain) (id : HieroAccountId) :
    id.calculateStringSize printer = id.text.length := by
  rw [calculateStringSize, hplain.stringSize_eq, hplain.stringSize_eq, hplain.stringSize_eq,
    length_text]

/-- An account id stands in a buffer with room for it and its zero byte. -/
theorem toString_of_lt (hplain : printer.Plain) (id : HieroAccountId)
    (hroom : buffer + bufferSize ≤ memory.length) (hlt : id.text.length < bufferSize) :
    id.toString printer memory buffer bufferSize =
      .ok (id.text.length, memory.put buffer (id.text ++ [0])) := by
  have hlength := length_text id
  have hshard := hplain.prints id.shardNum
  have hrealm := hplain.prints id.realmNum
  have haccount := hplain.prints id.accountNum
  rw [toString, if_neg (by omega)]
  simp only [hplain.stringSize_eq, hshard, hrealm, haccount]
  rw [text] at hlength hlt ⊢
  generalize printInt id.shardNum.toInt = shard at *
  generalize printInt id.realmNum.toInt = realm at *
  generalize printInt id.accountNum.toInt = account at *
  have hfirst : memory.write buffer (shard ++ [0]) = .ok (memory.put buffer (shard ++ [0])) := by
    apply write_eq_put
    rw [List.length_append, List.length_singleton]
    omega
  have hpoint : (memory.put buffer (shard ++ [0])).write (buffer + shard.length) [point] =
      .ok (memory.put buffer (shard ++ [point])) :=
    write_after rfl rfl le_rfl (by rw [List.length_singleton]; omega)
  have hsecond :
      (memory.put buffer (shard ++ [point])).write (buffer + shard.length + 1) (realm ++ [0]) =
        .ok (memory.put buffer (shard ++ [point] ++ (realm ++ [0]))) := by
    apply write_next <;> simp only [List.length_append, List.length_singleton] <;> omega
  have hpoint' : (memory.put buffer (shard ++ [point] ++ (realm ++ [0]))).write
        (buffer + shard.length + 1 + realm.length) [point] =
      .ok (memory.put buffer (shard ++ [point] ++ realm ++ [point])) := by
    apply write_after (List.append_assoc _ _ _).symm
    · simp only [List.length_append, List.length_singleton, Nat.add_assoc]
    · exact le_rfl
    · simp only [List.length_append, List.length_singleton]
      omega
  have hthird : (memory.put buffer (shard ++ [point] ++ realm ++ [point])).write
        (buffer + shard.length + 1 + realm.length + 1) (account ++ [0]) =
      .ok (memory.put buffer (shard ++ [point] ++ realm ++ [point] ++ (account ++ [0]))) := by
    apply write_next <;> simp only [List.length_append, List.length_singleton] <;> omega
  rw [if_neg (by omega), hfirst, fault_bind, hpoint, fault_bind, hsecond, fault_bind, hpoint',
    fault_bind, hthird, fault_bind, hlength]
  simp only [List.append_assoc, List.cons_append, List.nil_append]

theorem toString_eq (hplain : printer.Plain) (id : HieroAccountId) (hpos : 0 < bufferSize)
    (hroom : buffer + bufferSize ≤ memory.length) :
    id.toString printer memory buffer bufferSize =
      .ok (id.calculateStringSize printer, memory.printed buffer bufferSize id.text) := by
  rw [calculateStringSize_eq hplain, printed]
  split
  case isTrue hlt => exact toString_of_lt hplain id hroom hlt
  case isFalse hlarge =>
    have hlength := length_text id
    rw [toString, if_neg hpos.ne']
    simp only [hplain.stringSize_eq]
    rw [if_pos (by omega), hlength]

end HieroAccountId

namespace HieroTransactionId

theorem length_text (id : HieroTransactionId) :
    id.text.length = id.accountId.text.length + 1 + id.transactionValidStart.text.length := by
  rw [text, List.length_append, List.length_cons]
  omega

theorem ne_zero_of_mem_text {id : HieroTransactionId} {c : UInt8} (hmem : c ∈ id.text) : c ≠ 0 := by
  rw [text, List.mem_append, List.mem_cons] at hmem
  obtain haccount | hat | htime := hmem
  · exact HieroAccountId.ne_zero_of_mem_text haccount
  · exact hat ▸ by decide
  · exact Timestamp.ne_zero_of_mem_text htime

theorem calculateStringSize_eq (hplain : printer.Plain) (id : HieroTransactionId) :
    id.calculateStringSize printer =
      if id.transactionValidStart.Normal then id.text.length else 0 := by
  rw [calculateStringSize, Timestamp.calculateStringSize_eq hplain,
    HieroAccountId.calculateStringSize_eq hplain, length_text]
  have htime := Timestamp.length_text id.transactionValidStart
  by_cases hnormal : id.transactionValidStart.Normal
  · simp only [if_pos hnormal]
    rw [if_neg (by omega)]
  · simp only [if_neg hnormal, if_true]

/-- The account, whose zero byte is taken by the sign behind it, and the time in what is
left of the buffer. -/
theorem toString_of_lt (hplain : printer.Plain) {id : HieroTransactionId}
    (hnormal : id.transactionValidStart.Normal) (hroom : buffer + bufferSize ≤ memory.length)
    (hlt : id.text.length < bufferSize) :
    id.toString printer memory buffer bufferSize =
      .ok (id.text.length, memory.put buffer (id.text ++ [0])) := by
  have hlength := length_text id
  have htimeLength := Timestamp.length_text id.transactionValidStart
  have haccount := HieroAccountId.toString_of_lt hplain id.accountId hroom (by omega)
  have hat : (memory.put buffer (id.accountId.text ++ [0])).write
        (buffer + id.accountId.text.length) [atSign] =
      .ok (memory.put buffer (id.accountId.text ++ [atSign])) :=
    write_after rfl rfl le_rfl (by rw [List.length_singleton]; omega)
  have hinside : buffer + (id.accountId.text ++ [atSign]).length ≤ memory.length := by
    rw [List.length_append, List.length_singleton]
    omega
  have htime :=
    @Timestamp.toString_of_lt printer id.transactionValidStart hplain hnormal
      (memory.put buffer (id.accountId.text ++ [atSign])) (buffer + id.accountId.text.length + 1)
      (bufferSize - id.accountId.text.length - 1) (by rw [length_put hinside]; omega) (by omega)
  have hjoined : (memory.put buffer (id.accountId.text ++ [atSign])).put
        (buffer + id.accountId.text.length + 1) (id.transactionValidStart.text ++ [0]) =
      memory.put buffer (id.text ++ [0]) := by
    have hput := @put_append _ _ _ (id.transactionValidStart.text ++ [0]) hinside
    rw [List.length_append, List.length_singleton, ← Nat.add_assoc] at hput
    rw [hput, text]
    simp only [List.append_assoc, List.cons_append, List.nil_append]
  rw [toString, if_neg (by omega), Timestamp.calculateStringSize_eq hplain,
    HieroAccountId.calculateStringSize_eq hplain, if_pos hnormal]
  simp only [haccount, hat, htime, fault_bind]
  rw [if_neg (by omega), if_neg (by omega), hjoined, hlength]

theorem toString_eq (hplain : printer.Plain) (id : HieroTransactionId) (hpos : 0 < bufferSize)
    (hroom : buffer + bufferSize ≤ memory.length) :
    id.toString printer memory buffer bufferSize =
      .ok (id.calculateStringSize printer,
        if id.transactionValidStart.Normal then memory.printed buffer bufferSize id.text
          else memory) := by
  have hlength := length_text id
  have htime := Timestamp.length_text id.transactionValidStart
  rw [calculateStringSize_eq hplain]
  by_cases hnormal : id.transactionValidStart.Normal
  · rw [if_pos hnormal, if_pos hnormal, printed]
    split
    case isTrue hlt => exact toString_of_lt hplain hnormal hroom hlt
    case isFalse hlarge =>
      rw [toString, if_neg hpos.ne', Timestamp.calculateStringSize_eq hplain,
        HieroAccountId.calculateStringSize_eq hplain, if_pos hnormal, if_neg (by omega),
        if_pos (by omega), hlength]
  · rw [if_neg hnormal, if_neg hnormal, toString, if_neg hpos.ne',
      Timestamp.calculateStringSize_eq hplain, if_neg hnormal]
    rfl

/-- What is printed has been measured: the two answer the same, which is nothing exactly where the
nanoseconds are out of range. Where it is something, it is the length of the text, and the text
stands in the buffer, closed by the only zero byte it has, if the buffer has room for both; if not,
the buffer is left alone. Nothing outside of the buffer is written. -/
theorem toString_measured (hplain : printer.Plain) (id : HieroTransactionId) (hpos : 1 ≤ bufferSize)
    (hroom : buffer + bufferSize ≤ memory.length) :
    (id.calculateStringSize printer = 0 ↔ ¬ id.transactionValidStart.Normal) ∧
      ∃ after, id.toString printer memory buffer bufferSize =
          .ok (id.calculateStringSize printer, after) ∧
        (id.calculateStringSize printer = 0 → after = memory) ∧
        (id.calculateStringSize printer ≠ 0 →
          id.calculateStringSize printer = id.text.length ∧ (∀ c ∈ id.text, c ≠ 0) ∧
            (id.calculateStringSize printer < bufferSize →
              after = memory.put buffer (id.text ++ [0])) ∧
            (bufferSize ≤ id.calculateStringSize printer → after = memory)) ∧
        after.length = memory.length ∧
        ∀ j, j < buffer ∨ buffer + bufferSize ≤ j → after[j]? = memory[j]? := by
  have hlength := length_text id
  have hsize := calculateStringSize_eq hplain id
  have hrun := toString_eq hplain id hpos hroom
  by_cases hnormal : id.transactionValidStart.Normal
  · rw [if_pos hnormal] at hsize hrun
    have hnonzero : id.calculateStringSize printer ≠ 0 := by omega
    refine ⟨iff_of_false hnonzero (not_not_intro hnormal), _, hrun,
      fun hzero => absurd hzero hnonzero, fun _ => ?_, length_printed hroom _,
      fun j houtside => getElem?_printed hroom houtside _⟩
    refine ⟨hsize, fun c hmem => ne_zero_of_mem_text hmem, fun hlt => ?_, fun hle => ?_⟩
    · rw [printed, if_pos (by omega)]
    · rw [printed, if_neg (by omega)]
  · rw [if_neg hnormal] at hsize hrun
    exact ⟨iff_of_true hsize hnormal, memory, hrun, fun _ => rfl,
      fun hnonzero => absurd hsize hnonzero, rfl, fun _ _ => rfl⟩

/-- `0.0.1233@171627121.000002912` fits exactly, between bytes that stay what they are. -/
theorem toString_measured_exact :
    toString .reference (List.replicate 33 120) 2 29 ⟨⟨171627121, 2912⟩, ⟨0, 0, 1233⟩⟩ =
      .ok (28,
        [120, 120, 48, 46, 48, 46, 49, 50, 51, 51, 64, 49, 55, 49, 54, 50, 55, 49, 50, 49, 46, 48,
          48, 48, 48, 48, 50, 57, 49, 50, 0, 120, 120]) := by
  obtain ⟨-, after, hrun, -, hprinted, -⟩ :=
    @toString_measured .reference (List.replicate 33 120) 2 29 IntPrinter.reference_plain
      ⟨⟨171627121, 2912⟩, ⟨0, 0, 1233⟩⟩ (by decide) (by decide)
  have hsize : calculateStringSize .reference ⟨⟨171627121, 2912⟩, ⟨0, 0, 1233⟩⟩ = 28 := by decide
  rw [hsize] at hrun hprinted
  rw [hrun, (hprinted (by decide)).2.2.1 (by decide)]
  decide

example :
    toString .reference (List.replicate 33 120) 2 28 ⟨⟨171627121, 2912⟩, ⟨0, 0, 1233⟩⟩ =
      .ok (28, List.replicate 33 120) := by
  decide

end HieroTransactionId

end Wire

end GradidoBlockchain
