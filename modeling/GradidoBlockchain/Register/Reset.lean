import GradidoBlockchain.Arnm.Clearing
import GradidoBlockchain.Register.Answers
import GradidoBlockchain.Register.Refusals

/-!
# A register that is reset

`grdb_addresses_reset` keeps the tables of a register and clears them. What is asked of it then, and
what is added, cannot tell it from a fresh one.
-/

namespace GradidoBlockchain

open Fallible Fallible.Call

variable {A : Arnm}

namespace Addresses

/-- `grdb_addresses_reset`. -/
def reset (C : Clearing A) (index : Addresses A) : Addresses A :=
  if ¬index.ready then index
  else { index with
    entries := index.entries.clear C
    typeChanges := .empty
    maxTxNr := 0
    transactionCount := 0 }

/-- The two registers differ at most in their key maps, and these answer alike. -/
def Same (index twin : Addresses A) : Prop :=
  ∃ entries, Keyed.Same index.entries entries ∧ twin = { index with entries }

theorem same_reset (C : Clearing A) {index : Addresses A} (hready : index.ready = true) :
    Same (index.reset C) fresh := by
  refine ⟨.empty, ?_, ?_⟩
  · rw [reset, if_neg (by simp [hready])]
    exact Keyed.same_clear C _
  · rw [reset, if_neg (by simp [hready]), fresh, zero, hready]

/-! ### Adding -/

theorem entryForKey_alongside (key : PublicKey) :
    Alongside Same (entryForKey key : Call ArnmResult (Addresses A) Nat) (entryForKey key) := by
  refine .within (Keyed.slotForKey_alongside _ key) ?_ ?_
  · rintro index _ ⟨entries, hentries, rfl⟩
    exact hentries
  · rintro index _ table twin ⟨entries, -, rfl⟩ htable
    exact ⟨_, htable, rfl⟩

theorem Same.lastChangeAt {index twin : Addresses A} (hsame : Same index twin) (id : Nat) :
    index.lastChangeAt id = twin.lastChangeAt id := by
  obtain ⟨entries, hentries, rfl⟩ := hsame
  rw [Addresses.lastChangeAt, Addresses.lastChangeAt, hentries.entries]

theorem Same.isNoted {index twin : Addresses A} (hsame : Same index twin) (id txNr : Nat)
    (type : AddressType) : index.isNoted id txNr type = twin.isNoted id txNr type := by
  rw [Addresses.isNoted, Addresses.isNoted, hsame.lastChangeAt]
  obtain ⟨entries, -, rfl⟩ := hsame
  rfl

theorem pushChange_alongside (id txNr : Nat) (type : AddressType) :
    Alongside Same (pushChange id txNr type : Call ArnmResult (Addresses A) Unit)
      (pushChange id txNr type) := by
  refine .bind (.gets fun _ _ hsame => hsame.lastChangeAt id) fun previous =>
    .bind (.within (.refl _) ?_ ?_) fun _ => .write ?_
  · rintro index _ ⟨entries, -, rfl⟩
    rfl
  · rintro index _ changes _ ⟨entries, hentries, rfl⟩ rfl
    exact ⟨_, hentries, rfl⟩
  · rintro index _ ⟨entries, hentries, rfl⟩
    exact ⟨_, hentries.modify id _, rfl⟩

theorem noteType_alongside (txNr : Nat) (key : PublicKey) (type : AddressType) :
    Alongside Same (noteType txNr key type : Call ArnmResult (Addresses A) Unit)
      (noteType txNr key type) :=
  .ite (.pure ())
    (.ite (.fail _)
      (.bind (entryForKey_alongside key) fun id =>
        .bind (.gets fun _ _ hsame => hsame.isNoted id txNr type) fun _ =>
          .ite (.pure ()) (pushChange_alongside id txNr type)))

theorem noteBalance_alongside (txNr : Nat) (balance : AccountBalance) :
    Alongside Same (noteBalance txNr balance : Call ArnmResult (Addresses A) Unit)
      (noteBalance txNr balance) := by
  refine .ite (.pure ()) (.bind (entryForKey_alongside _) fun id => .write ?_)
  rintro index _ ⟨entries, hentries, rfl⟩
  exact ⟨_, hentries.modify id _, rfl⟩

theorem add_alongside (tx : CompleteTransaction) :
    Alongside Same (add tx : Call ArnmResult (Addresses A) Unit) (add tx) := by
  refine .bind (.check ?_) fun _ =>
    .bind (.bind (.forM fun given => noteType_alongside _ _ _) fun _ =>
      .forM fun balance => noteBalance_alongside _ balance) fun _ => .write ?_
  · rintro index _ ⟨entries, -, rfl⟩
    rfl
  · rintro index _ ⟨entries, hentries, rfl⟩
    exact ⟨_, hentries, rfl⟩

/-! ### Asking -/

/-- What a register can be asked, answered alike by two registers. -/
structure AnswersAlike (index twin : Addresses A) : Prop where
  size : index.transactionCount = twin.transactionCount
  max : index.maxTxNr = twin.maxTxNr
  type : ∀ key, index.type key = twin.type key
  typeAt : ∀ key atTxNr, index.typeAt key atTxNr = twin.typeAt key atTxNr
  typeChanges : ∀ key size, index.typeChangesOf key size = twin.typeChangesOf key size
  lastBalance : ∀ key, index.lastBalance key = twin.lastBalance key
  knows : ∀ key, index.knows key = twin.knows key

theorem Same.answersAlike {index twin : Addresses A}
    (hsame : Same index twin) : AnswersAlike index twin := by
  obtain ⟨entries, hentries, rfl⟩ := hsame
  have hentry : ∀ key, index.entryOfKey key = entryOfKey { index with entries } key := by
    intro key
    rw [entryOfKey, entryOfKey, hentries.lookup]
  refine ⟨rfl, rfl, fun key => ?_, fun key atTxNr => ?_, fun key size => ?_, fun key => ?_,
    fun key => ?_⟩
  · rw [type, type, hentry]
  · rw [typeAt, typeAt, hentry]
    rfl
  · rw [typeChangesOf, typeChangesOf, hentry]
    rfl
  · rw [lastBalance, lastBalance, hentry]
  · rw [knows, knows, hentry]

/-! ### Every register -/

/-- Prepared, then given any transactions, with whatever room and whatever result, and reset
any number of times. -/
inductive History (C : Clearing A) : Addresses A → Prop
  | init {expectedAddresses : Nat} {start index : Addresses A} {room rest : Room} :
      init expectedAddresses start room = (.ok (), index, rest) → History C index
  | add {index : Addresses A} (tx : CompleteTransaction) (room : Room) : History C index →
      History C (add tx index room).2.1
  | reset {index : Addresses A} : History C index → History C (index.reset C)

/-- No add takes the readiness of a register. -/
theorem add_ready {tx : CompleteTransaction} {index : Addresses A} (room : Room)
    (hready : index.ready = true) : (Addresses.add tx index room).2.1.ready = true := by
  rcases hrun : Addresses.add tx index room with ⟨code | _, left, rest⟩
  · have hsame : SameButNotes index left := add_error_same hrun
    change left.ready = true
    rw [hsame]
    exact hready
  · exact (add_ok_moved hrun).1

theorem reset_ready (C : Clearing A) (index : Addresses A) :
    (index.reset C).ready = index.ready := by
  rw [reset]
  split <;> rfl

theorem History.ready {C : Clearing A} {index : Addresses A}
    (hhistory : History C index) : index.ready = true := by
  induction hhistory with
  | init hrun =>
      rw [init_ok hrun]
      rfl
  | add tx room _ ih => exact add_ready room ih
  | reset _ ih => exact (reset_ready C _).trans ih

end Addresses

end GradidoBlockchain
