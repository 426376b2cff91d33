import GradidoBlockchain.Register.Retry

/-!
# What the register refuses

Apart from a want of room and its checks, the register refuses one thing: a registration of an
address type it does not know, for a key that is not blank. It says so at the first such key, before
anything is written.
-/

namespace GradidoBlockchain

open Fallible Fallible.Call

variable {A : Arnm}

namespace Addresses

/-- The transaction gives a key a type there is not. -/
def GivesUnknown (tx : CompleteTransaction) : Prop :=
  ∃ given ∈ typed tx, isEmpty given.1 = false ∧ given.2.known = false

instance (tx : CompleteTransaction) : Decidable (GivesUnknown tx) :=
  inferInstanceAs (Decidable (∃ given ∈ typed tx, _))

/-- What a register says to a transaction when there is room. -/
def verdict (tx : CompleteTransaction) (index : Addresses A) : Except ArnmResult Unit := do
  accepts tx index
  if GivesUnknown tx then .error .invalidEnumType else .ok ()

theorem verdict_of_accepts {tx : CompleteTransaction} {index : Addresses A}
    (haccepts : accepts tx index = .ok ()) (hknown : ¬GivesUnknown tx) :
    verdict tx index = .ok () := by
  rw [verdict, haccepts]
  exact if_neg hknown

theorem typed_registerAddress {tx : CompleteTransaction}
    (htype : tx.transactionType = .registerAddress) :
    typed tx =
      [(tx.registerAddress.userPublicKey, tx.addressType),
        (tx.registerAddress.accountPublicKey, tx.addressType)] := by
  rw [typed, htype]

/-- Only a registration says the type itself. -/
theorem registers_of_givesUnknown {tx : CompleteTransaction} (hunknown : GivesUnknown tx) :
    tx.transactionType = .registerAddress ∧ tx.addressType.known = false := by
  obtain ⟨given, hgiven, -, hknown⟩ := hunknown
  have hgmw : AddressType.communityGmw.known = true := rfl
  have hauf : AddressType.communityAuf.known = true := rfl
  have hdeferred : AddressType.deferredTransfer.known = true := rfl
  rw [typed] at hgiven
  rcases htype : tx.transactionType <;> rw [htype] at hgiven <;>
    simp only [List.not_mem_nil, List.mem_cons, or_false] at hgiven
  · rcases hgiven with rfl | rfl <;> exact ⟨rfl, hknown⟩
  · rw [hgiven, hdeferred] at hknown
    cases hknown
  · rcases hgiven with rfl | rfl
    · rw [hgmw] at hknown
      cases hknown
    · rw [hauf] at hknown
      cases hknown

theorem noteType_of_empty {txNr : Nat} {key : PublicKey} (type : AddressType)
    (hempty : isEmpty key = true) :
    (noteType txNr key type : Call ArnmResult (Addresses A) Unit) = pure () :=
  if_pos hempty

theorem noteType_of_unknown {txNr : Nat} {key : PublicKey} {type : AddressType}
    (hempty : isEmpty key = false) (hknown : type.known = false) :
    (noteType txNr key type : Call ArnmResult (Addresses A) Unit) = fail .invalidEnumType := by
  rw [noteType, if_neg (by simp [hempty]), if_pos (by simp [hknown])]

/-- Both keys of a registration are given one type, so the first that is not blank ends the note. -/
theorem note_of_givesUnknown {tx : CompleteTransaction} (hunknown : GivesUnknown tx)
    (index : Addresses A) (room : Room) :
    note tx index room = (.error .invalidEnumType, index, room) := by
  obtain ⟨htype, htypeUnknown⟩ := registers_of_givesUnknown hunknown
  obtain ⟨given, hgiven, hempty, -⟩ := hunknown
  rw [typed_registerAddress htype, List.mem_cons, List.mem_singleton] at hgiven
  rw [note, typed_registerAddress htype]
  apply bind_run_error
  by_cases huser : isEmpty tx.registerAddress.userPublicKey = true
  · have haccount : isEmpty tx.registerAddress.accountPublicKey = false := by
      rcases hgiven with rfl | rfl
      · rw [huser] at hempty
        cases hempty
      · exact hempty
    change (noteType _ _ _ >>= fun _ => noteType _ _ _ >>= fun _ => pure ()) index room = _
    rw [noteType_of_empty _ huser, bind_run_ok (pure_run _ _ _),
      noteType_of_unknown haccount htypeUnknown]
    rfl
  · change (noteType _ _ _ >>= fun _ => _) index room = _
    rw [noteType_of_unknown (Bool.eq_false_iff.2 huser) htypeUnknown]
    rfl

theorem noteType_failsOnly {txNr : Nat} {given : PublicKey × AddressType}
    (hknown : ¬(isEmpty given.1 = false ∧ given.2.known = false)) :
    FailsOnly .outOfMemory
      (noteType txNr given.1 given.2 : Call ArnmResult (Addresses A) Unit) := by
  rw [noteType]
  split
  · exact .pure ()
  · rw [if_neg fun hnot => hknown ⟨Bool.eq_false_iff.2 ‹_›, Bool.eq_false_iff.2 hnot⟩]
    exact .bind (.within (Keyed.slotForKey_failsOnly _ _)) fun id => .bind (.gets _) fun noted =>
      .ite (.pure ()) fun _ _ _ _ _ hrun => (pushChange_error hrun).1

theorem note_failsOnly {tx : CompleteTransaction} (hknown : ¬GivesUnknown tx) :
    FailsOnly .outOfMemory (note tx : Call ArnmResult (Addresses A) Unit) :=
  .bind (.forM fun given hgiven => noteType_failsOnly fun h => hknown ⟨given, hgiven, h⟩) fun _ =>
    .forM fun _ _ =>
      .ite (.pure ()) (.bind (.within (Keyed.slotForKey_failsOnly _ _)) fun _ => .write _)

/-- A transaction refused for what it is has left the register as it was. -/
theorem add_error {tx : CompleteTransaction} {index left : Addresses A} {room rest : Room}
    {code : ArnmResult} (hrun : add tx index room = (.error code, left, rest)) :
    code = .outOfMemory ∨ verdict tx index = .error code ∧ left = index := by
  rcases bind_error.1 hrun with hcheck | ⟨_, same, _, hcheck, hrun⟩
  · obtain ⟨haccepts, rfl, -⟩ := check_error.1 hcheck
    exact .inr ⟨by rw [verdict, haccepts]; rfl, rfl⟩
  obtain ⟨haccepts, rfl, rfl⟩ := check_ok.1 hcheck
  rcases bind_error.1 hrun with hnote | ⟨_, noted, _, -, hcommit⟩
  · by_cases hunknown : GivesUnknown tx
    · rw [note_of_givesUnknown hunknown] at hnote
      cases hnote
      refine .inr ⟨?_, rfl⟩
      rw [verdict, haccepts]
      exact if_pos hunknown
    · exact .inl (note_failsOnly hunknown hnote)
  · cases hcommit

theorem add_verdict {tx : CompleteTransaction} {index left : Addresses A} {room rest : Room}
    (hrun : add tx index room = (.ok (), left, rest)) : verdict tx index = .ok () := by
  obtain ⟨_, same, _, hcheck, hrun⟩ := bind_ok.1 hrun
  obtain ⟨haccepts, rfl, -⟩ := check_ok.1 hcheck
  obtain ⟨_, noted, _, hnote, -⟩ := bind_ok.1 hrun
  rw [verdict, haccepts]
  refine if_neg fun hunknown => ?_
  rw [note_of_givesUnknown hunknown] at hnote
  cases hnote

/-- An add that succeeds has counted the transaction. -/
theorem add_ok_moved {tx : CompleteTransaction} {index left : Addresses A} {room rest : Room}
    (hrun : add tx index room = (.ok (), left, rest)) :
    left.ready = true ∧ left.maxTxNr = tx.nr := by
  obtain ⟨_, same, _, hcheck, hrun⟩ := bind_ok.1 hrun
  obtain ⟨haccepts, rfl, rfl⟩ := check_ok.1 hcheck
  obtain ⟨_, noted, _, hnote, hcommit⟩ := bind_ok.1 hrun
  obtain ⟨rfl, -⟩ := write_ok.1 hcommit
  have honward := note_onward tx index index room (.refl tx.nr index)
  rw [hnote] at honward
  refine ⟨?_, rfl⟩
  have hsame : SameButNotes index noted := honward.same
  change noted.ready = true
  rw [hsame]
  exact (accepts_ok haccepts).1

/-- An add that fails has not moved the register. -/
theorem add_error_same {tx : CompleteTransaction} {index left : Addresses A} {room rest : Room}
    {code : ArnmResult}
    (hrun : add tx index room = (.error code, left, rest)) : SameButNotes index left := by
  rcases bind_error.1 hrun with hcheck | ⟨_, same, _, hcheck, hrun⟩
  · obtain ⟨-, rfl, -⟩ := check_error.1 hcheck
    exact .refl _
  · obtain ⟨-, rfl, rfl⟩ := check_ok.1 hcheck
    rcases bind_error.1 hrun with hnote | ⟨_, noted, _, -, hcommit⟩
    · have honward := note_onward tx index index room (.refl tx.nr index)
      rw [hnote] at honward
      exact honward.same
    · cases hcommit

end Addresses

end GradidoBlockchain
