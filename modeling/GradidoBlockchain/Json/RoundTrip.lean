import GradidoBlockchain.Json.Filled
import GradidoBlockchain.Json.Freed
import GradidoBlockchain.Json.Optional

/-!
# From the record to a document and back

The two mappings of a record are inverse where three things hold of it: its enumerators have names
that are read back, its memos have bytes, and its anchors have no id but the one that their type
owns. A name that is not read back and a memo without bytes have the document refused; an anchor
comes back as another one.
-/

namespace GradidoBlockchain

open Fallible Fallible.Call

namespace Mapping

variable {arnm : JsonArnm} {tx : Runtime.CompleteTransaction} {document : Json} {view : RootView}

/-! ### The lists -/

section Lists

variable {array : Option Json} {bound : ℕ}

/-- With room for everything the memos are read, and have their block where they need one. -/
theorem readMemoList_granted (hlawful : arnm.Lawful) (hbound : (Json.items array).length ≤ bound)
    (hfits : Fits arnm array bound) (reading : Reading) :
    ∃ left, readMemoList arnm array bound reading [] = (.ok (), left, []) ∧
      left.memos.values = Json.items array ∧ left.balances = reading.balances ∧
      left.record = reading.record := by
  obtain ⟨state, hrun, htook⟩ :=
    readElements_granted hlawful hbound hfits (granted_nil _) (reading.memos, reading.scratch)
  rw [readMemoElements_run hrun, htook.values]
  by_cases hmany : defaultMaxMemosCount < (Json.items array).length
  · rw [if_pos hmany,
      takeMemoBlock_eq hlawful
        (wrapped_ne_zero (Nat.zero_lt_of_lt hmany) (memos_few hlawful hbound hfits))]
    exact ⟨_, rfl, htook.values, rfl, rfl⟩
  · rw [if_neg hmany]
    exact ⟨_, rfl, htook.values, rfl, rfl⟩

/-- With room for everything the lists are read, and the record is what is left to fill. -/
theorem readLists_granted (hlawful : arnm.Lawful) (hbounded : view.Bounded bound)
    (hnarrow : bound ≤ arnm.maxAllocSize / sizeofHandle) (reading : Reading) :
    ∃ middle : Reading, middle.record = reading.record ∧
      readLists arnm view bound reading [] =
        onRecord (readCompleteTransaction arnm view (Json.items view.accountBalances)
          (Json.items view.encryptedMemos) (Json.items view.signaturePairs)) middle [] := by
  obtain ⟨balances, hbalances, htook⟩ :=
    readElements_granted hlawful hbounded.balances (fun _ => hnarrow) (granted_nil _)
      (reading.balances, reading.scratch)
  have hfirst : readBalanceElements arnm view.accountBalances bound reading [] =
      (.ok (), { reading with balances := balances.1, scratch := balances.2 }, []) :=
    within_run_eq hbalances
  obtain ⟨second, hsecond, hmemos, hkept, hrecord⟩ :=
    readMemoList_granted hlawful hbounded.memos (fun _ => hnarrow)
      { reading with balances := balances.1, scratch := balances.2 }
  obtain ⟨signatures, hsignatures, htook'⟩ :=
    readElements_granted hlawful hbounded.signatures (fun _ => hnarrow) (granted_nil _)
      (second.signatures, second.scratch)
  have hthird : readSignatureElements arnm view.signaturePairs bound second [] =
      (.ok (), { second with signatures := signatures.1, scratch := signatures.2 }, []) :=
    within_run_eq hsignatures
  refine ⟨{ second with signatures := signatures.1, scratch := signatures.2 }, hrecord, ?_⟩
  rw [readLists, bind_run_ok hfirst, bind_run_ok hsecond, bind_run_ok hthird,
    bind_run_ok (gets_run _ _ _), bind_run_ok (gets_run _ _ _), bind_run_ok (gets_run _ _ _)]
  simp only [hkept, hmemos, htook.values, htook'.values]

end Lists

/-! ### The document -/

/-- What is refused of no memo: its type has a name, and it has bytes. -/
def MemosKept (tx : Runtime.CompleteTransaction) : Prop :=
  ∀ memo ∈ tx.encryptedMemos, memo.type.Named ∧ memo.memo ≠ []

theorem readCompleteTransaction_written (hlawful : arnm.Lawful) (hholds : Holds arnm tx view)
    (hmemos : MemosKept tx) (hfits : neededSize arnm tx view ≤ arnm.maxAllocSize)
    {filling : Filling} (htype : filling.tx.transactionType = tx.transactionType)
    (harena : filling.arena = .fresh 0) :
    ∃ area record left, readCompleteTransaction arnm view (Json.items view.accountBalances)
          (Json.items view.encryptedMemos) (Json.items view.signaturePairs) filling [] =
        (.ok (), left, []) ∧ Headed tx { filling.tx with memoryArea := area } record ∧
      left.tx = withArrays tx record := by
  have hsize :=
    calculateJsonSize_written hlawful hholds (fun memo hmem => (hmemos memo hmem).1) hfits
  have hfill := fill_written hlawful hholds (fun memo hmem => (hmemos memo hmem).2) hfits
  rw [readCompleteTransaction, hholds.accountBalances, hholds.encryptedMemos, hholds.signaturePairs,
    Json.items, Json.items, Json.items, hsize, answer_bind_ok]
  by_cases hzero : neededSize arnm tx view = 0
  · obtain ⟨record, left, hrun, hheaded, hleft⟩ :=
      hfill filling htype (hzero ▸ harena) (absurd hzero) []
    refine ⟨filling.tx.memoryArea, record, left, ?_, hheaded, hleft⟩
    simp only [hzero, ne_eq, not_true_eq_false, if_false]
    exact hrun
  · obtain ⟨record, left, hrun, hheaded, hleft⟩ :=
      hfill (filling.openArena .caller (neededSize arnm tx view)) htype rfl (fun _ => rfl) []
    refine ⟨_, record, left, ?_, hheaded, hleft⟩
    simp only [ne_eq, hzero, not_false_eq_true, if_true]
    exact hrun

theorem readDocument_written (hlawful : arnm.Lawful)
    (hwritten : addCompleteTransaction arnm tx = .ok document) (hnames : NamesKept tx)
    (hmemos : MemosKept tx) (hfits : document.text.length ≤ arnm.maxAllocSize)
    (hnarrow : document.nodes ≤ arnm.maxAllocSize / sizeofHandle) (start : Reading)
    (hempty : start.record.tx = .init) (harena : start.record.arena = .fresh 0) :
    ∃ left, readDocument arnm document document.nodes start [] = (.ok (), left, []) ∧
      Reproduces (rereadAnchors tx) left.record.tx := by
  obtain ⟨view, root, htype, hholds, hrooted⟩ :=
    readType_written hlawful hwritten hnames start.record []
  rw [hempty] at hrooted
  have hview : viewOfDocument arnm document = .ok view := by
    obtain ⟨left, hrun⟩ := readType_run arnm document start.record []
    rw [htype] at hrun
    exact (congrArg Prod.fst hrun).symm
  have hneeded : neededSize arnm tx view ≤ arnm.maxAllocSize :=
    Nat.le_trans (jsonTotal_fits hlawful hwritten hholds) hfits
  obtain ⟨middle, hmiddle, hlists⟩ :=
    readLists_granted hlawful (viewOfDocument_bounded hlawful hview) hnarrow
      (start.opened
        (start.record.withTx fun _ => { root with crossGroupType := tx.crossGroupType }))
  have hsame : middle.record.tx.transactionType = tx.transactionType := by
    obtain ⟨_, _, _, _, _, _, hroot⟩ := hrooted
    rw [hmiddle, hroot]
    rfl
  obtain ⟨area, head, filled, hfilled, hheaded, hleft⟩ :=
    readCompleteTransaction_written hlawful hholds hmemos hneeded hsame
      (show middle.record.arena = .fresh 0 by rw [hmiddle]; exact harena)
  rw [hmiddle] at hheaded
  have hread : readLists arnm view document.nodes
        (start.opened
          (start.record.withTx fun _ => { root with crossGroupType := tx.crossGroupType })) [] =
      (.ok (), middle.putRecord filled, []) := hlists.trans (within_run_eq hfilled)
  have hdocument : onRecord (readType arnm document) start [] =
      (.ok view,
        start.putRecord
          (start.record.withTx fun _ => { root with crossGroupType := tx.crossGroupType }), []) :=
    within_run_eq htype
  refine ⟨releaseLists (middle.putRecord filled), ?_, ?_⟩
  · rw [readDocument, bind_run_ok hdocument]
    exact andRelease_ok.2 ⟨_, hread, rfl⟩
  · change Reproduces (rereadAnchors tx) filled.tx
    rw [hleft]
    exact reproduces_of hrooted hheaded

/-! ### What is refused -/

/-- A list of memos is filled where none of them is empty. -/
theorem filled_of_deserialized (hlawful : arnm.Lawful) {texts : List MemoText}
    {filling left : Filling} {room rest : Room}
    (hrun : deserializeEncryptedMemos arnm texts filling room = (.ok (), left, rest)) :
    ∀ text ∈ texts, arnm.base64BinarySize text.memo ≠ .ok 0 := by
  by_cases hempty : texts.length = 0
  · rw [List.length_eq_zero_iff.1 hempty]
    exact fun _ hmem => absurd hmem List.not_mem_nil
  rw [deserializeEncryptedMemos, if_neg hempty] at hrun
  obtain ⟨_, middle, between, -, hrun⟩ := bind_ok.1 hrun
  apply forM_ok (fun done _ => ∀ text ∈ done, arnm.base64BinarySize text.memo ≠ .ok 0)
    (fun _ hmem => absurd hmem List.not_mem_nil) _ hrun
  intro before text after state room left rest _ hdone hbody
  obtain ⟨size, hsize, hbody⟩ := of_answer_bind hbody
  obtain ⟨_, _, _, halloc, -⟩ := bind_ok.1 hbody
  have hsome : size ≠ 0 := by
    intro hzero
    rw [hzero, hlawful.emptyRequest_eq] at halloc
    cases halloc
  intro other hother
  rcases List.mem_append.1 hother with hmem | hmem
  · exact hdone other hmem
  · rw [List.mem_singleton.1 hmem, hsize]
    exact fun h => hsome (Except.ok.inj h)

/-- A record that has been filled has memos that are kept. -/
theorem memosKept_of_ok (hlawful : arnm.Lawful) (hholds : Holds arnm tx view)
    {filling left : Filling} {room rest : Room}
    (hrun : readCompleteTransaction arnm view (Json.items view.accountBalances)
        (Json.items view.encryptedMemos) (Json.items view.signaturePairs) filling room =
      (.ok (), left, rest)) : MemosKept tx := by
  obtain ⟨size, texts, between, hsize, hfill⟩ := readCompleteTransaction_ok hrun
  obtain ⟨hread, -⟩ := calculateJsonSize_ok hsize
  rw [hholds.encryptedMemos, Json.items, List.forall₂_map_left_iff] at hread
  obtain ⟨_, _, _, -, harrays⟩ := bind_ok.1 hfill
  obtain ⟨_, _, _, -, harrays⟩ := bind_ok.1 harrays
  obtain ⟨_, _, _, hmemos, -⟩ := bind_ok.1 harrays
  have hfilled := filled_of_deserialized hlawful hmemos
  intro memo hmem
  obtain ⟨text, htext, hmemo⟩ := Outcome.exists_of_forall₂ hread hmem
  rw [readEncryptedMemo_written hlawful] at hmemo
  by_cases hnamed : memo.type.Named
  · rw [if_pos hnamed] at hmemo
    refine ⟨hnamed, fun hempty => hfilled text htext ?_⟩
    rw [← Except.ok.inj hmemo, memoText, hlawful.base64BinarySize_base64, hempty]
    rfl
  · rw [if_neg hnamed] at hmemo
    cases hmemo

/-- What a record has to be for its document to be read back into the same one. -/
structure Returns (tx : Runtime.CompleteTransaction) : Prop where
  names : NamesKept tx
  memos : MemosKept tx
  ledgerAnchor : Kept tx.ledgerAnchor
  pairingLedgerAnchor : ∀ anchor ∈ tx.pairingLedgerAnchor, Kept anchor

/-- With all the memory it asks for, the text is read, and into a record with every field of the one
that has been written. -/
def ReadsBack (arnm : JsonArnm) (tx : Runtime.CompleteTransaction) (text : Text) : Prop :=
  ∀ owned, ∃ left rest, completeTransactionFromJson arnm text (.fresh owned) [] =
      (.ok (), left, rest) ∧ Reproduces tx left.record.tx

/-- A document that is read was written with the names and the memos that are kept. -/
theorem kept_of_ok (hlawful : arnm.Lawful)
    (hwritten : addCompleteTransaction arnm tx = .ok document) {start left : Reading}
    {room rest : Room}
    (hrun : readDocument arnm document document.nodes start room = (.ok (), left, rest)) :
    NamesKept tx ∧ MemosKept tx := by
  obtain ⟨view, middle, between, hview, hrun⟩ := bind_ok.1 hrun
  obtain ⟨filling, htype, rfl⟩ := within_ok.1 hview
  have hnames : NamesKept tx := by
    by_contra hnot
    obtain ⟨_, hrefused⟩ := readType_unnamed hlawful hwritten hnot start.record room
    rw [hrefused] at htype
    cases htype
  obtain ⟨found, record, hread, hholds, -⟩ :=
    readType_written hlawful hwritten hnames start.record room
  rw [hread] at htype
  obtain rfl : found = view := Except.ok.inj (congrArg Prod.fst htype)
  have hbounded : found.Bounded document.nodes := by
    obtain ⟨_, hsame⟩ := readType_run arnm document start.record room
    rw [hread] at hsame
    exact viewOfDocument_bounded hlawful (congrArg Prod.fst hsame).symm
  obtain ⟨_, _, _, hwrite, hrun⟩ := bind_ok.1 hrun
  obtain ⟨rfl, rfl⟩ := write_ok.1 hwrite
  obtain ⟨last, hlists, -⟩ := andRelease_ok.1 hrun
  obtain ⟨_, hfilled⟩ := readLists_ok hlawful hbounded hlists
  exact ⟨hnames, memosKept_of_ok hlawful hholds hfilled⟩

/-- What has been written, and its text. -/
theorem jsonFromCompleteTransaction_ok {flags : WriteFlags} {written : Written}
    (hwritten : jsonFromCompleteTransaction arnm flags tx = .ok written) :
    ∃ document, addCompleteTransaction arnm tx = .ok document ∧
      arnm.write flags document = .ok written.text := by
  obtain ⟨_, -, hwritten⟩ := Outcome.bind_ok.1 hwritten
  obtain ⟨document, hdocument, hwritten⟩ := Outcome.bind_ok.1 hwritten
  obtain ⟨text, htext, hwritten⟩ := Outcome.bind_ok.1 hwritten
  cases hwritten
  exact ⟨document, hdocument, htext⟩

/-- The text is parsed as what has been written, which is no larger than can be asked for. -/
theorem parses_written (hlawful : arnm.Lawful) {flags : WriteFlags} {written : Written}
    (hwritten : jsonFromCompleteTransaction arnm flags tx = .ok written) :
    ∃ document, addCompleteTransaction arnm tx = .ok document ∧
      document.text.length ≤ arnm.maxAllocSize ∧ Parses arnm written.text document := by
  obtain ⟨document, hdocument, htext⟩ := jsonFromCompleteTransaction_ok hwritten
  obtain ⟨hlong, hfits⟩ := hlawful.write_fits _ _ _ htext
  refine ⟨document, hdocument, Nat.le_trans hlong hfits, fun hempty => ?_,
    hlawful.parse_write _ _ _ htext⟩
  obtain ⟨detail, -, rfl⟩ := addCompleteTransaction_ok hdocument
  rw [hempty, Json.length_object] at hlong
  exact absurd hlong (Nat.not_succ_le_zero _)

/-- With names and memos that are kept, the document is read; its anchors are what
they come back as. -/
theorem completeTransactionFromJson_written (hlawful : arnm.Lawful) {flags : WriteFlags}
    {written : Written} (hwritten : jsonFromCompleteTransaction arnm flags tx = .ok written)
    (hnames : NamesKept tx) (hmemos : MemosKept tx) (owned : Runtime.Owned) :
    ∃ left, completeTransactionFromJson arnm written.text (.fresh owned) [] = (.ok (), left, []) ∧
      Reproduces (rereadAnchors tx) left.record.tx := by
  obtain ⟨document, hdocument, hfits, hparses⟩ := parses_written hlawful hwritten
  obtain ⟨left, hread, hreproduces⟩ :=
    readDocument_written hlawful hdocument hnames hmemos hfits (parses_narrow hlawful hparses)
      (Reading.fresh owned).release rfl rfl
  obtain ⟨hnone, -⟩ | ⟨rest, hgranted, hrun⟩ :=
    completeTransactionFromJson_run hparses (.fresh owned) []
  · cases hnone
  · cases hgranted
    exact ⟨left, hrun.trans (orUndo_ok.2 hread), hreproduces⟩

/-- And only with these. -/
theorem kept_of_read (hlawful : arnm.Lawful) {flags : WriteFlags} {written : Written}
    (hwritten : jsonFromCompleteTransaction arnm flags tx = .ok written) {start left : Reading}
    {room rest : Room}
    (hrun : completeTransactionFromJson arnm written.text start room = (.ok (), left, rest)) :
    NamesKept tx ∧ MemosKept tx := by
  obtain ⟨document, hdocument, -, hparses⟩ := parses_written hlawful hwritten
  obtain ⟨-, _, hrefused⟩ | ⟨_, -, hread⟩ := completeTransactionFromJson_run hparses start room
  · rw [hrefused] at hrun
    cases hrun
  · rw [hread] at hrun
    exact kept_of_ok hlawful hdocument (orUndo_ok.1 hrun)

/-- What is written is read back as it was where no name in it is read back as none, no memo is
empty, and its anchors have a name and no id but their own. -/
theorem readsBack_iff (hlawful : arnm.Lawful) {flags : WriteFlags} {written : Written}
    (hwritten : jsonFromCompleteTransaction arnm flags tx = .ok written) :
    ReadsBack arnm tx written.text ↔ Returns tx := by
  constructor
  · intro hreads
    obtain ⟨left, rest, hrun, hreproduces⟩ := hreads (.init, .empty)
    obtain ⟨hnames, hmemos⟩ := kept_of_read hlawful hwritten hrun
    obtain ⟨other, hother, hreread⟩ :=
      completeTransactionFromJson_written hlawful hwritten hnames hmemos (.init, .empty)
    rw [hrun] at hother
    obtain rfl : left = other := congrArg (fun run => run.2.1) hother
    have hpairing : tx.pairingLedgerAnchor.map reread = tx.pairingLedgerAnchor :=
      hreread.pairingLedgerAnchor.symm.trans hreproduces.pairingLedgerAnchor
    refine ⟨hnames, hmemos,
      reread_eq_self.1 (hreread.ledgerAnchor.symm.trans hreproduces.ledgerAnchor),
      fun anchor hanchor => ?_⟩
    rw [Option.mem_def.1 hanchor] at hpairing
    exact reread_eq_self.1 (Option.some.inj hpairing)
  · intro hreturns owned
    obtain ⟨left, hrun, hreproduces⟩ :=
      completeTransactionFromJson_written hlawful hwritten hreturns.names hreturns.memos owned
    have hpairing : tx.pairingLedgerAnchor.map reread = tx.pairingLedgerAnchor := by
      rcases hanchor : tx.pairingLedgerAnchor with _ | anchor
      · rfl
      · exact congrArg some (reread_eq_self.2 (hreturns.pairingLedgerAnchor anchor hanchor))
    rw [rereadAnchors, reread_eq_self.2 hreturns.ledgerAnchor, hpairing] at hreproduces
    exact ⟨left, [], hrun, hreproduces⟩

/-! ### A memo without bytes -/

/-- A document that is the only one known, and not too large, can be written. -/
theorem written_known {flags : WriteFlags}
    (hdocument : addCompleteTransaction (.reference [document]) tx = .ok document)
    (hnodes : 16 * document.nodes ≤ Reference.maxAllocSize)
    (hfits : (Reference.documentText document).length ≤ Reference.maxAllocSize) :
    jsonFromCompleteTransaction (.reference [document]) flags tx =
      .ok ⟨Reference.documentText document, .ok ()⟩ := by
  have hparse : Reference.parse [document] (Reference.documentText document) = .ok document := by
    have hfind : [document].find?
          (fun known => Reference.documentText known == Reference.documentText document) =
        some document := List.find?_cons_of_pos (beq_self_eq_true _)
    rw [Reference.parse, hfind]
    exact if_pos hnodes
  have hwrite : (JsonArnm.reference [document]).write flags document =
      .ok (Reference.documentText document) := if_pos ⟨hparse, hfits⟩
  have hinit : (JsonArnm.reference [document]).writerInit flags = .ok () := rfl
  rw [jsonFromCompleteTransaction, hinit, hdocument]
  simp only [bind, Except.bind, hwrite]
  rfl

/-- A transfer with a memo of one byte, and with one that has none. -/
def withMemo (memo : List UInt8) : Runtime.CompleteTransaction :=
  { Runtime.CompleteTransaction.init with
    transactionType := .transfer
    encryptedMemos := [⟨.plain, memo⟩]
    bodyBytes := [1] }

/-- The document of it. -/
def withMemoJson (memo : List UInt8) : Json :=
  .object (headMembers (.reference []) (withMemo memo) ++
    [addTransfer (.reference []) (withMemo memo)] ++ tailMembers (.reference []) (withMemo memo))

/-- It is written. -/
theorem withMemo_document (documents : List Json) (memo : List UInt8) :
    addCompleteTransaction (.reference documents) (withMemo memo) = .ok (withMemoJson memo) := rfl

theorem withMemo_written {memo : List UInt8}
    (hnodes : 16 * (withMemoJson memo).nodes ≤ Reference.maxAllocSize)
    (hfits : (Reference.documentText (withMemoJson memo)).length ≤ Reference.maxAllocSize) :
    jsonFromCompleteTransaction (.reference [withMemoJson memo]) 0 (withMemo memo) =
      .ok ⟨Reference.documentText (withMemoJson memo), .ok ()⟩ :=
  written_known (withMemo_document _ memo) hnodes hfits

/-- Neither of the two is too large. -/
theorem withMemo_fits :
    ∀ memo ∈ [[1], []], 16 * (withMemoJson memo).nodes ≤ Reference.maxAllocSize ∧
      (Reference.documentText (withMemoJson memo)).length ≤ Reference.maxAllocSize := by
  decide +kernel

theorem readsBack_iff_oneByteMemo :
    ReadsBack (.reference [withMemoJson [1]]) (withMemo [1])
        (Reference.documentText (withMemoJson [1])) ↔ Returns (withMemo [1]) := by
  obtain ⟨hnodes, hfits⟩ := withMemo_fits [1] List.mem_cons_self
  have hreads := readsBack_iff (JsonArnm.reference_lawful _) (withMemo_written hnodes hfits)
  exact hreads

/-- A memo without bytes is written, and its document is refused. -/
theorem not_readsBack :
    ¬∀ arnm : JsonArnm, arnm.Lawful →
      ∀ flags tx written, jsonFromCompleteTransaction arnm flags tx = .ok written →
        ReadsBack arnm tx written.text := by
  intro hall
  obtain ⟨hnodes, hfits⟩ := withMemo_fits [] (List.mem_cons_of_mem _ List.mem_cons_self)
  have hlawful := JsonArnm.reference_lawful [withMemoJson []]
  have hwritten := withMemo_written hnodes hfits
  obtain ⟨left, rest, hrun, -⟩ := hall _ hlawful 0 (withMemo []) _ hwritten (.init, .empty)
  obtain ⟨-, hmemos⟩ := kept_of_read hlawful hwritten hrun
  have hmem : ⟨.plain, []⟩ ∈ (withMemo []).encryptedMemos := List.mem_cons_self
  exact (hmemos _ hmem).2 rfl

end Mapping

end GradidoBlockchain
