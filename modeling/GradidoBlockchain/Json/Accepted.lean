import GradidoBlockchain.Json.Elements

/-!
# A document that is read

What must have gone well where the reading of a document comes to its end: the type is known, every
object of the document has been read, and each element of its lists. The arena of the record is the
only thing that is opened for it.
-/

namespace GradidoBlockchain

open Fallible Fallible.Call Ownership

namespace Mapping

variable {arnm : JsonArnm} {array : Option Json} {bound : ℕ} {reading : Reading} {room : Room}

/-! ### The root -/

/-- The walk of the root leaves the type and the arena of the record. -/
theorem readRoot_keeps {root : Json} {type : TransactionType}
    {tx left : Runtime.CompleteTransaction} {view : RootView}
    (hread : readRoot arnm root type tx = .ok (view, left)) :
    left.transactionType = tx.transactionType ∧ left.memoryArea = tx.memoryArea := by
  obtain ⟨seen, -, -, -, hleft⟩ := readRoot_ok hread
  rw [hleft]
  exact ⟨rfl, rfl⟩

theorem readTransactionDetail_keeps {view : RootView} {tx left : Runtime.CompleteTransaction}
    (hread : readTransactionDetail arnm view tx = .ok left) :
    left.transactionType = tx.transactionType ∧ left.memoryArea = tx.memoryArea := by
  have hall : ∀ {α : Type} {outcome : Except ArnmResult α} {change : α → Runtime.CompleteTransaction},
      (do let detail ← outcome; .ok (change detail)) = Except.ok left →
          ∃ detail, left = change detail := by
    intro α outcome change hok
    rcases outcome with code | detail <;> cases hok
    exact ⟨detail, rfl⟩
  rw [readTransactionDetail] at hread
  split at hread
  case h_7 =>
    cases hread
    exact ⟨rfl, rfl⟩
  case h_8 | h_9 | h_10 => cases hread
  all_goals
    obtain ⟨detail, rfl⟩ := hall hread
    exact ⟨rfl, rfl⟩

/-! ### The arena of the record -/

/-- The record has that arena, and the host those. -/
def HasArena (area : Option Runtime.Arena) (arenas : Runtime.Arenas) (filling : Filling) : Prop :=
  filling.tx.memoryArea = area ∧ filling.owned.2 = arenas

/-- At most one arena has been opened since, and the record has it. -/
def MayHaveOpened (arenas : Runtime.Arenas) (filling : Filling) : Prop :=
  HasArena none arenas filling ∨
    HasArena (some (arenas.next .caller)) (arenas.openNext .caller) filling

section Arena

variable {area : Option Runtime.Arena} {arenas : Runtime.Arenas}

theorem putTx_keeps {change : Runtime.CompleteTransaction → Runtime.CompleteTransaction}
    (hchange : ∀ tx, (change tx).memoryArea = tx.memoryArea) :
    Keeps (HasArena area arenas) (putTx change) :=
  .write fun filling harena => ⟨(hchange filling.tx).trans harena.1, harena.2⟩

theorem arenaAlloc_keeps (emptyRequest : Option ArnmResult) (size : ℕ) :
    Keeps (HasArena area arenas) (arenaAlloc emptyRequest size) := by
  have hdown : ∀ code, Keeps (HasArena area arenas) (turnDown size code) :=
    fun code => .bind (.write fun _ harena => harena) fun _ => .fail _
  refine .bind (.gets _) fun filling => ?_
  split
  · exact hdown _
  · exact .ite (.ask _) (.ite (hdown _) (.write fun _ harena => harena))

theorem detail_keeps (view : RootView) : Keeps (HasArena area arenas) (do
    let tx ← gets Filling.tx
    let tx ← answer (readTransactionDetail arnm view tx)
    putTx fun _ => tx : Fill Unit) := by
  intro filling room harena
  rw [bind_run_ok (gets_run _ _ _)]
  rcases hdetail : readTransactionDetail arnm view filling.tx with code | tx
  · exact harena
  · exact ⟨(readTransactionDetail_keeps hdetail).2.trans harena.1, harena.2⟩

theorem readHead_keeps (view : RootView) : Keeps (HasArena area arenas) (readHead arnm view) :=
  .bind (.check _) fun _ =>
    .bind (putTx_keeps fun _ => rfl) fun _ =>
      .bind (.check _) fun _ =>
        .bind (putTx_keeps fun _ => rfl) fun _ =>
          .bind (.check _) fun _ => .bind (putTx_keeps fun _ => rfl) fun _ => detail_keeps view

theorem elements_keeps {α β : Type} {size : ℕ} {values : List α} {each : α → Except ArnmResult β}
    {change : β → Runtime.CompleteTransaction → Runtime.CompleteTransaction}
      (hchange : ∀ value tx, (change value tx).memoryArea = tx.memoryArea) :
    Keeps (HasArena area arenas) (if values.length = 0 then pure () else do
      arenaAlloc arnm.emptyRequest size
      values.forM fun value => do
        let value ← answer (each value)
        putTx (change value) : Fill Unit) :=
  .ite (.pure _)
    (.bind (arenaAlloc_keeps _ _) fun _ =>
      .forM fun _ _ => .bind (.check _) fun value => putTx_keeps (hchange value))

theorem deserializeEncryptedMemos_keeps (texts : List MemoText) :
    Keeps (HasArena area arenas) (deserializeEncryptedMemos arnm texts) :=
  .ite (.pure _) (.bind (arenaAlloc_keeps _ _) fun _ => .forM fun _ _ => .bind (.check _) fun _ =>
    .bind (arenaAlloc_keeps _ _) fun _ => .bind (.check _) fun _ => putTx_keeps fun _ => rfl)

theorem readPairingUuid_keeps (uuid : Option Uuid) :
    Keeps (HasArena area arenas) (readPairingUuid arnm uuid) := by
  cases uuid with
  | none => exact .pure _
  | some uuid => exact .bind (arenaAlloc_keeps _ _) fun _ => putTx_keeps fun _ => rfl

theorem readPairingAnchor_keeps (anchor : Option Json) :
    Keeps (HasArena area arenas) (readPairingAnchor arnm anchor) := by
  cases anchor with
  | none => exact .pure _
  | some anchor =>
      exact .bind (arenaAlloc_keeps _ _) fun _ => .bind (.check _) fun _ => putTx_keeps fun _ => rfl

theorem readBodyBytes_keeps (text : String) :
    Keeps (HasArena area arenas) (readBodyBytes arnm text) := by
  rw [readBodyBytes]
  split
  · exact .fail _
  · exact .ite (.pure _) (.bind (arenaAlloc_keeps _ _) fun _ => putTx_keeps fun _ => rfl)

theorem readArrays_keeps (view : RootView) (balances : List Json) (texts : List MemoText)
    (signatures : List Json) :
    Keeps (HasArena area arenas) (readArrays arnm view balances texts signatures) :=
  .bind (elements_keeps fun _ _ => rfl) fun _ =>
    .bind (deserializeEncryptedMemos_keeps texts) fun _ =>
      .bind (elements_keeps fun _ _ => rfl) fun _ =>
        .bind (readPairingUuid_keeps _) fun _ =>
          .bind (readPairingAnchor_keeps _) fun _ => readBodyBytes_keeps view.bodyBytes

theorem readRootInto_keeps (root : Json) (type : TransactionType) :
    Keeps (HasArena area arenas) (readRootInto arnm root type) := by
  intro filling room harena
  rw [readRootInto, bind_run_ok (gets_run _ _ _)]
  rcases hread : readRoot arnm root type filling.tx with code | ⟨view, tx⟩
  · exact harena
  · have hput : HasArena area arenas (filling.withTx fun _ => tx) :=
      ⟨(readRoot_keeps hread).2.trans harena.1, harena.2⟩
    have hrest : Keeps (HasArena area arenas) (do
        putTx fun tx => { tx with crossGroupType := CrossGroup.fromString view.crossGroupType }
        if CrossGroup.fromString view.crossGroupType = .none then fail .enumUnknown else pure view : Fill RootView) :=
      .bind (putTx_keeps fun _ => rfl) fun _ => .ite (.fail _) (.pure _)
    exact hrest _ room hput

theorem readType_keeps (root : Json) : Keeps (HasArena area arenas) (readType arnm root) :=
  .bind (.check _) fun _ =>
    .ite (.fail _)
      (.bind (putTx_keeps fun _ => rfl) fun _ => .ite (.fail _) (readRootInto_keeps root _))

end Arena

/-- A step that opens nothing changes nothing about what may have been opened. -/
theorem Keeps.mayHaveOpened {α : Type} {call : Fill α} {arenas : Runtime.Arenas}
    (hkeeps : ∀ {area : Option Runtime.Arena} {others : Runtime.Arenas},
      Keeps (HasArena area others) call) : Keeps (MayHaveOpened arenas) call :=
  fun filling room hopened => hopened.imp (hkeeps filling room) (hkeeps filling room)

theorem readCompleteTransaction_opens (view : RootView) (balances memos signatures : List Json)
    {arenas : Runtime.Arenas} {filling : Filling} (hnone : HasArena none arenas filling)
    (room : Room) :
    MayHaveOpened arenas
      (readCompleteTransaction arnm view balances memos signatures filling room).2.1 := by
  rw [readCompleteTransaction]
  rcases calculateJsonSize arnm view balances memos signatures with code | ⟨size, texts⟩
  · exact .inl hnone
  rw [answer_bind_ok]
  have hrest : Keeps (MayHaveOpened arenas)
      (do readHead arnm view; readArrays arnm view balances texts signatures) :=
    .bind (Keeps.mayHaveOpened (readHead_keeps view)) fun _ =>
      Keeps.mayHaveOpened (readArrays_keeps view balances texts signatures)
  by_cases hsize : size ≠ 0
  · simp only [if_pos hsize]
    rcases room with _ | ⟨_ | _, room⟩
    · exact hrest _ _
        (.inr ⟨congrArg (some <| Ownership.Supply.next · _) hnone.2,
          congrArg (Ownership.Supply.openNext · _) hnone.2⟩)
    · exact .inl hnone
    · exact hrest _ _
        (.inr ⟨congrArg (some <| Ownership.Supply.next · _) hnone.2,
          congrArg (Ownership.Supply.openNext · _) hnone.2⟩)
  · simp only [if_neg hsize]
    exact hrest _ _ (.inl hnone)

/-! ### The lists -/

/-- What the reading of lists does to the rest leaves the record alone. -/
theorem elsewhere_keeps {σ α : Type} {inv : Filling → Prop} {part : Reading → σ}
    {put : σ → Reading → Reading} {call : Call ArnmResult σ α}
    (hput : ∀ left reading, (put left reading).record = reading.record) :
    Keeps (fun reading => inv reading.record) (within part put call) :=
  fun reading room hinv => (congrArg inv (hput (call (part reading) room).2.1 reading)).mpr hinv

theorem readMemoList_keeps {inv : Filling → Prop} (array : Option Json) (bound : ℕ) :
    Keeps (fun reading => inv reading.record) (readMemoList arnm array bound) :=
  .bind (.attempt (elsewhere_keeps fun _ _ => rfl)) fun _ => .bind (.gets _) fun _ =>
    .ite (.bind (elsewhere_keeps fun _ _ => rfl) fun _ => .write fun _ hinv => hinv) (.check _)

/-- Before the lists have been read nothing is opened. -/
theorem readLists_opens (arnm : JsonArnm) (view : RootView) (bound : ℕ) (arenas : Runtime.Arenas) :
    Leads (fun reading => HasArena none arenas reading.record)
      (fun reading => MayHaveOpened arenas reading.record) (readLists arnm view bound) := by
  have hbalances : Keeps (fun reading => HasArena none arenas reading.record)
      (readBalanceElements arnm view.accountBalances bound) := elsewhere_keeps fun _ _ => rfl
  have hsignatures : Keeps (fun reading => HasArena none arenas reading.record)
      (readSignatureElements arnm view.signaturePairs bound) := elsewhere_keeps fun _ _ => rfl
  refine hbalances.leads (fun _ => .inl) fun _ =>
    (readMemoList_keeps _ _).leads (fun _ => .inl) fun _ =>
      hsignatures.leads (fun _ => .inl) fun _ reading room hnone => ?_
  exact readCompleteTransaction_opens view _ _ _ hnone room

theorem readDocument_opens (arnm : JsonArnm) (root : Json) (bound : ℕ) (arenas : Runtime.Arenas) :
    Leads (fun reading => HasArena none arenas reading.record)
      (fun reading => MayHaveOpened arenas reading.record) (readDocument arnm root bound) := by
  have htype :
      Keeps (fun reading => HasArena none arenas reading.record) (onRecord (readType arnm root)) :=
    .within (readType_keeps root) (fun _ hinv => hinv) fun _ _ _ hinv => hinv
  have hlists : ∀ view : RootView, Leads (fun reading => HasArena none arenas reading.record)
      (fun reading => MayHaveOpened arenas reading.record)
      (andRelease (readLists arnm view bound) releaseLists) :=
    fun view => readLists_opens arnm view bound arenas
  exact htype.leads (fun _ => .inl) fun view =>
    Keeps.leads (.write fun _ hinv => hinv) (fun _ => .inl) fun _ => hlists view

theorem readMemoList_ok (hlawful : arnm.Lawful) (hbound : (Json.items array).length ≤ bound)
    {left : Reading} {rest : Room}
    (hrun : readMemoList arnm array bound reading room = (.ok (), left, rest)) :
    left.memos.values = Json.items array ∧ left.balances = reading.balances ∧
      left.record = reading.record := by
  rcases hmemos : readElements arnm array bound (reading.memos, reading.scratch) room
    with ⟨outcome, state, between⟩
  have hread : readMemoElements arnm array bound reading room =
      (outcome, { reading with memos := state.1, scratch := state.2 }, between) :=
    within_run_eq hmemos
  rw [readMemoList, bind_run_ok (attempt_run_eq hread), bind_run_ok (gets_run _ _ _)] at hrun
  have hleft : left.memos = state.1 ∧ left.balances = reading.balances ∧
      left.record = reading.record := by
    split at hrun
    · obtain ⟨block, middle, after, hblock, hwrite⟩ := bind_ok.1 hrun
      obtain ⟨scratch, -, rfl⟩ := within_ok.1 hblock
      obtain ⟨rfl, -⟩ := write_ok.1 hwrite
      exact ⟨rfl, rfl, rfl⟩
    · obtain ⟨-, rfl, -⟩ := check_ok.1 hrun
      exact ⟨rfl, rfl, rfl⟩
  refine ⟨?_, hleft.2⟩
  rw [hleft.1]
  rcases outcome with code | _
  · obtain ⟨rfl, -⟩ := readElements_error hlawful hbound hmemos
    cases hrun
  · exact (readElements_ok hlawful hbound hmemos).2.2.values

/-- The lists that are read to their end are those of the document. -/
theorem readLists_ok (hlawful : arnm.Lawful) {view : RootView} (hbounded : view.Bounded bound)
    {left : Reading} {rest : Room}
    (hrun : readLists arnm view bound reading room = (.ok (), left, rest)) :
    ∃ between, readCompleteTransaction arnm view (Json.items view.accountBalances)
        (Json.items view.encryptedMemos) (Json.items view.signaturePairs) reading.record between =
      (.ok (), left.record, rest) := by
  obtain ⟨_, first, _, hbalances, hrun⟩ := bind_ok.1 hrun
  obtain ⟨state, hstate, rfl⟩ := within_ok.1 hbalances
  obtain ⟨_, second, _, hmemos, hrun⟩ := bind_ok.1 hrun
  obtain ⟨hvalues, hkept, hrecord⟩ := readMemoList_ok hlawful hbounded.memos hmemos
  obtain ⟨_, third, between, hsignatures, hrun⟩ := bind_ok.1 hrun
  obtain ⟨last, hlast, rfl⟩ := within_ok.1 hsignatures
  change onRecord
      (readCompleteTransaction arnm view second.balances.values second.memos.values last.1.values) _
      between = _ at hrun
  obtain ⟨filling, hfilling, rfl⟩ := within_ok.1 hrun
  refine ⟨between, ?_⟩
  rw [← (readElements_ok hlawful hbounded.balances hstate).2.2.values, ← hvalues,
    ← (readElements_ok hlawful hbounded.signatures hlast).2.2.values]
  have hsame : second.balances.values = state.1.values := congrArg ElementList.values hkept
  rw [← hsame, show reading.record = second.record from hrecord.symm]
  exact hfilling

/-! ### The call -/

/-- The text is that of the document. -/
def Parses (arnm : JsonArnm) (text : Text) (root : Json) : Prop :=
  text ≠ [] ∧ arnm.parse text = .ok root

instance (text : Text) (root : Json) : Decidable (Parses arnm text root) :=
  inferInstanceAs (Decidable (_ ∧ _))

theorem completeTransactionFromJson_eq {text : Text} {root : Json}
    (hparses : Parses arnm text root) : 
    completeTransactionFromJson arnm text = (do
      (List.range 2).forM fun _ => ask .outOfMemory
      write Reading.release
      orUndo (readDocument arnm root root.nodes) Reading.release) := by
  have hsome : ¬text.length = 0 := fun h => hparses.1 (List.length_eq_zero_iff.1 h)
  rw [completeTransactionFromJson, if_neg hsome, hparses.2]
  rfl

/-- Refused one of the requests for the parsed document, the call has done nothing; else the
document is read into an empty record. -/
theorem completeTransactionFromJson_run {text : Text} {root : Json}
    (hparses : Parses arnm text root) (start : Reading) (room : Room) :
    (granted 2 room = none ∧
        ∃ rest,
          completeTransactionFromJson arnm text start room = (.error .outOfMemory, start, rest)) ∨
      ∃ rest, granted 2 room = some rest ∧
        completeTransactionFromJson arnm text start room =
          orUndo (readDocument arnm root root.nodes) Reading.release start.release rest := by
  rw [completeTransactionFromJson_eq hparses]
  rcases room with _ | ⟨_ | _, _ | ⟨_ | _, room⟩⟩
  · exact .inr ⟨_, rfl, rfl⟩
  · exact .inl ⟨rfl, _, rfl⟩
  · exact .inl ⟨rfl, _, rfl⟩
  · exact .inl ⟨rfl, _, rfl⟩
  · exact .inr ⟨_, rfl, rfl⟩
  · exact .inl ⟨rfl, _, rfl⟩
  · exact .inr ⟨_, rfl, rfl⟩

/-- The record is as it is when it has just been initialised, and every arena that it
had is given back. -/
structure Emptied (start left : Runtime.Owned) : Prop where
  empty : left.1 = .init
  released : ∀ others, Owns start.2 (start.1.memoryArea.toList ++ others) → Owns left.2 others

theorem MayHaveOpened.emptied {start : Runtime.Owned} {filling : Filling}
    (hopened : MayHaveOpened (Runtime.release start).2 filling) :
    Emptied start filling.release.owned := by
  refine ⟨rfl, fun others howns => ?_⟩
  have hreleased : Owns (Runtime.release start).2 others := howns.releaseOption
  have hleft : Owns filling.owned.2 (filling.tx.memoryArea.toList ++ others) := by
    obtain ⟨harea, hothers⟩ | ⟨harea, hothers⟩ := hopened
    · rw [harea, hothers]
      exact hreleased
    · rw [harea, hothers]
      exact hreleased.openNext .caller
  exact hleft.releaseOption

/-- A document that is refused leaves the record empty. -/
theorem completeTransactionFromJson_emptied {text : Text} {root : Json}
    (hparses : Parses arnm text root) {start : Runtime.Owned} {room rest : Room} {code : ArnmResult}
    {left : Reading} (hgranted : granted 2 room ≠ none)
    (hrun : completeTransactionFromJson arnm text (.fresh start) room = (.error code, left, rest)) :
    Emptied start left.record.owned := by
  obtain ⟨hnone, -⟩ | ⟨between, -, hread⟩ :=
    completeTransactionFromJson_run hparses (.fresh start) room
  · exact absurd hnone hgranted
  rw [hread] at hrun
  obtain ⟨middle, hmiddle, rfl⟩ := orUndo_error.1 hrun
  have hopened :=
    readDocument_opens arnm root root.nodes (Runtime.release start).2 (Reading.fresh start).release
      between ⟨rfl, rfl⟩
  rw [hmiddle] at hopened
  exact hopened.emptied

end Mapping

end GradidoBlockchain
