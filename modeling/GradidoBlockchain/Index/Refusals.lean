import GradidoBlockchain.Index.Retry

/-!
# What the index refuses

Apart from a want of room an add fails for its checks or for the day of the transaction,
and both are looked at before anything is written. So a transaction that is refused for
what it is leaves no trace.
-/

namespace GradidoBlockchain

open Fallible Fallible.Call

variable {A : Arnm}

namespace Transactions

/-- What an index says to a transaction when there is room. -/
def verdict (tx : CompleteTransaction) (index : Transactions A) : Except ArnmResult Unit := do
  let _ ← offsetOf tx index
  let _ ← dayIndex (dayOfSecond tx.confirmedAt.seconds)
      (openDay (dayOfSecond tx.confirmedAt.seconds) index)
  .ok ()

theorem verdict_of_offsetOf {tx : CompleteTransaction} {index : Transactions A} {code : ArnmResult}
    (hoffset : offsetOf tx index = .error code) : verdict tx index = .error code := by
  rw [verdict, hoffset]
  rfl

theorem verdict_of_dayIndex {tx : CompleteTransaction} {index : Transactions A} {offset : Nat}
    {code : ArnmResult} (hoffset : offsetOf tx index = .ok offset)
    (hday : dayIndex (dayOfSecond tx.confirmedAt.seconds)
        (openDay (dayOfSecond tx.confirmedAt.seconds) index) = .error code) :
    verdict tx index = .error code := by
  rw [verdict, hoffset]
  change (dayIndex _ _ >>= fun _ => _) = _
  rw [hday]
  rfl

theorem verdict_ok {tx : CompleteTransaction} {index : Transactions A} {offset position : Nat}
    (hoffset : offsetOf tx index = .ok offset)
    (hday : dayIndex (dayOfSecond tx.confirmedAt.seconds)
        (openDay (dayOfSecond tx.confirmedAt.seconds) index) = .ok position) :
    verdict tx index = .ok () := by
  rw [verdict, hoffset]
  change (dayIndex _ _ >>= fun _ => _) = _
  rw [hday]
  rfl

/-- An index takes no transaction of a type it does not know. -/
theorem verdict_type {tx : CompleteTransaction} {index : Transactions A}
    (hverdict : verdict tx index = .ok ()) : tx.transactionType.code < TransactionType.count := by
  rcases hoffset : offsetOf tx index with code | offset
  · rw [verdict_of_offsetOf hoffset] at hverdict
    cases hverdict
  · rw [offsetOf] at hoffset
    split_ifs at hoffset with _ _ _ _ htype
    exact Nat.lt_of_not_le htype

section FailsOnly

variable (offset : Nat)

theorem markKey_failsOnly (key : PublicKey) (change : AddressSets A → AddressSets A) :
    FailsOnly .outOfMemory (markKey key change) :=
  .ite (.pure ()) (.bind (.within (Keyed.slotForKey_failsOnly _ _)) fun _ => .grow _)

theorem noteBalance_failsOnly (balance : AccountBalance) :
    FailsOnly .outOfMemory (noteBalance offset balance : Call ArnmResult (Transactions A) Unit) :=
  .bind (markKey_failsOnly _ _) fun _ => .bind (.gets _) fun _ => .ite (.pure ())
    (.bind (.within (Keyed.slotForKey_failsOnly _ _)) fun _ => .bind (.grow _) fun _ => .grow _)

theorem noteNamed_failsOnly (key : PublicKey) :
    FailsOnly .outOfMemory (noteNamed offset key : Call ArnmResult (Transactions A) Unit) :=
  .ite (.pure ())
    (.bind (.within (Keyed.slotForKey_failsOnly _ _)) fun _ =>
      .bind (.gets _) fun _ => .ite (.pure ()) (.grow _))

end FailsOnly

/-- A day that is refused is not that of a first transaction, so nothing has been written
when it is refused. -/
theorem openDay_eq_self {day : Int} {index : Transactions A} {code : ArnmResult}
    (hday : dayIndex day (openDay day index) = .error code) : openDay day index = index := by
  by_cases hcount : index.transactionCount = 0
  · have hfirst : (openDay day index).firstDay = day := if_pos hcount
    rw [dayIndex, hfirst, if_neg (Int.lt_irrefl day), Int.sub_self, if_neg (by decide)] at hday
    cases hday
  · rw [openDay, if_neg hcount]

theorem noteDay_error {seconds : Int64} {offset : Nat} {index left : Transactions A}
    {room rest : Room} {code : ArnmResult}
    (hrun : noteDay seconds offset index room = (.error code, left, rest)) :
    code = .outOfMemory ∨
      dayIndex (dayOfSecond seconds) (openDay (dayOfSecond seconds) index) = .error code ∧
        left = index := by
  obtain ⟨_, dated, _, hdate, hrun⟩ := (bind_error.1 hrun).resolve_left nofun
  obtain ⟨rfl, rfl⟩ := write_ok.1 hdate
  rcases bind_error.1 hrun with hcheck | ⟨position, same, _, -, hrun⟩
  · obtain ⟨hday, rfl, -⟩ := check_error.1 hcheck
    exact .inr ⟨hday, openDay_eq_self hday⟩
  · rcases bind_error.1 hrun with hgrow | ⟨_, grown, _, -, hraise⟩
    · obtain ⟨table, htable, -⟩ := within_error.1 hgrow
      exact .inl (Bvec.growPast_failsOnly 0 position htable)
    · cases hraise

/-- A transaction refused for what it is has left the index as it was. -/
theorem add_error {tx : CompleteTransaction} {index left : Transactions A} {room rest : Room}
    {code : ArnmResult} (hrun : add tx index room = (.error code, left, rest)) :
    code = .outOfMemory ∨ verdict tx index = .error code ∧ left = index := by
  rcases bind_error.1 hrun with hcheck | ⟨offset, same, _, hcheck, hrun⟩
  · obtain ⟨hoffset, rfl, -⟩ := check_error.1 hcheck
    exact .inr ⟨verdict_of_offsetOf hoffset, rfl⟩
  obtain ⟨hoffset, rfl, rfl⟩ := check_ok.1 hcheck
  rcases bind_error.1 hrun with hmark | ⟨_, marked, _, -, hcommit⟩
  · rcases bind_error.1 hmark with hday | ⟨_, noted, _, -, hrest⟩
    · exact (noteDay_error hday).imp_right (And.imp_left (verdict_of_dayIndex hoffset))
    · have hfails : FailsOnly .outOfMemory (do
          write (openWith tx)
          tx.signaturePairs.forM (noteSignature offset)
          tx.accountBalances.forM (noteBalance offset)
          (named tx).forM (noteNamed offset)
          grow .outOfMemory (markType tx.transactionType offset) : Call ArnmResult (Transactions A) Unit) :=
        .bind (.write _) fun _ => .bind (.forM fun pair _ => markKey_failsOnly _ _) fun _ =>
          .bind (.forM fun balance _ => noteBalance_failsOnly offset balance) fun _ =>
            .bind (.forM fun key _ => noteNamed_failsOnly offset key) fun _ => .grow _
      exact .inl (hfails hrest)
  · cases hcommit

theorem add_verdict {tx : CompleteTransaction} {index left : Transactions A} {room rest : Room}
    (hrun : add tx index room = (.ok (), left, rest)) : verdict tx index = .ok () := by
  obtain ⟨offset, same, _, hcheck, hrun⟩ := bind_ok.1 hrun
  obtain ⟨hoffset, rfl, -⟩ := check_ok.1 hcheck
  obtain ⟨_, marked, _, hmark, -⟩ := bind_ok.1 hrun
  obtain ⟨_, noted, _, hday, -⟩ := bind_ok.1 hmark
  obtain ⟨_, dated, _, hdate, hday⟩ := bind_ok.1 hday
  obtain ⟨rfl, -⟩ := write_ok.1 hdate
  obtain ⟨position, same, _, hcheck, -⟩ := bind_ok.1 hday
  exact verdict_ok hoffset (check_ok.1 hcheck).1

end Transactions

end GradidoBlockchain
