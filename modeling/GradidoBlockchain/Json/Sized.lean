import GradidoBlockchain.Json.Reference
import GradidoBlockchain.Json.Required
import GradidoBlockchain.Json.Writer
import GradidoBlockchain.Runtime.Sized
import GradidoBlockchain.Wire.RoundTrip

/-!
# The arena of a document

The size that a document is found to need is what is then taken from the arena of the record:
nothing is refused for want of room, and a record that has been read to its end has left none.
-/

namespace GradidoBlockchain

open Fallible Fallible.Call

namespace Mapping

/-! ### What is drawn -/

theorem putTx_draws {change : Runtime.CompleteTransaction → Runtime.CompleteTransaction}
    (hchange : ∀ tx, (change tx).memoryArea = tx.memoryArea) :
    Draws arenaAccount 0 (putTx change) :=
  .write (fun filling =>
    congrArg
      (fun area : Option Runtime.Arena => (filling.arena.size, filling.arena.refused, area.isSome))
      (hchange filling.tx)) fun _ => rfl

theorem arenaAlloc_draws (emptyRequest : Option ArnmResult) {size : ℕ} (hsize : size ≠ 0) :
    Draws arenaAccount (align8 size) (arenaAlloc emptyRequest size) := by
  intro filling room hfits
  rw [arenaAlloc_run emptyRequest hsize room hfits]
  exact ⟨rfl, rfl, Nat.le_of_eq (charged_take size filling), fun _ _ => charged_take size filling⟩

/-! ### What a document draws -/

section Draws

variable {arnm : JsonArnm}

theorem detail_draws (view : RootView) : Draws arenaAccount 0 (do
    let tx ← gets Filling.tx
    let tx ← answer (readTransactionDetail arnm view tx)
    putTx fun _ => tx : Fill Unit) := by
  intro filling room hfits
  rw [bind_run_ok (gets_run _ _ _)]
  rcases hdetail : readTransactionDetail arnm view filling.tx with code | tx
  · exact Draws.fail code filling room hfits
  · have harea := congrArg Option.isSome (readTransactionDetail_keeps hdetail).2
    exact ⟨rfl, congrArg (fun area => (filling.arena.size, filling.arena.refused, area)) harea,
      Nat.le_refl _, fun _ _ => rfl⟩

theorem readHead_draws (view : RootView) : Draws arenaAccount 0 (readHead arnm view) :=
  .after (.check _) fun _ =>
    .after (putTx_draws fun _ => rfl) fun _ =>
      .after (.check _) fun _ =>
        .after (putTx_draws fun _ => rfl) fun _ =>
          .after (.check _) fun _ => .after (putTx_draws fun _ => rfl) fun _ => detail_draws view

/-- A list of elements of one size. -/
theorem elements_draws {β : Type} {values : List Json} {size : ℕ} (hsize : size ≠ 0)
    (hfits : values.length * size < 2 ^ 32)
    {each : Json → Except ArnmResult β}
      {change : β → Runtime.CompleteTransaction → Runtime.CompleteTransaction}
    (hchange : ∀ value tx, (change value tx).memoryArea = tx.memoryArea) :
    Draws arenaAccount (align8 (values.length * size)) (if values.length = 0 then pure () else do
      arenaAlloc arnm.emptyRequest (values.length * size % 2 ^ 32)
      values.forM fun value => do
        let value ← answer (each value)
        putTx (change value) : Fill Unit) := by
  by_cases hempty : values.length = 0
  · rw [if_pos hempty, hempty, Nat.zero_mul]
    exact .pure ()
  · have hrest : Draws arenaAccount 0 (values.forM fun value => do
        let value ← answer (each value)
        putTx (change value) : Fill Unit) := by
      have hall : Draws arenaAccount (values.map fun _ => 0).sum (values.forM fun value => do
          let value ← answer (each value)
          putTx (change value) : Fill Unit) := .forM fun _ _ => .after (.check _) fun value => putTx_draws (hchange value)
      rwa [List.map_const', List.sum_replicate, Nat.nsmul_eq_mul, Nat.mul_zero] at hall
    rw [if_neg hempty, Nat.mod_eq_of_lt hfits]
    exact (arenaAlloc_draws _ (Nat.mul_ne_zero hempty hsize)).bind fun _ => hrest

/-- A memo of so many bytes, which are not none. -/
theorem memo_draws {text : MemoText} {size : ℕ} (hsize : arnm.base64BinarySize text.memo = .ok size)
    (hsome : size ≠ 0) : 
    Draws arenaAccount (align8 size) (do
      let size ← answer (arnm.base64BinarySize text.memo)
      arenaAlloc arnm.emptyRequest size
      let bytes ← answer (arnm.binaryFromBase64 text.memo)
      putTx fun tx => { tx with encryptedMemos := tx.encryptedMemos ++ [⟨text.type, bytes⟩] } : Fill Unit) := by
  have hrest : Draws arenaAccount (align8 size) (do
      arenaAlloc arnm.emptyRequest size
      let bytes ← answer (arnm.binaryFromBase64 text.memo)
      putTx fun tx => { tx with encryptedMemos := tx.encryptedMemos ++ [⟨text.type, bytes⟩] } : Fill Unit) :=
    (arenaAlloc_draws _ hsome).before fun _ => .after (.check _) fun _ => putTx_draws fun _ => rfl
  rw [hsize]
  exact hrest

theorem deserializeEncryptedMemos_draws {texts : List MemoText} {memoSizes : List ℕ}
    (hsizes :
      List.Forall₂ (fun text size => arnm.base64BinarySize text.memo = .ok size) texts memoSizes)
    (hsome : ∀ text ∈ texts, arnm.base64BinarySize text.memo ≠ .ok 0)
    (hfits : texts.length * sizeofEncryptedMemo < 2 ^ 32) :
    Draws arenaAccount (align8 (texts.length * sizeofEncryptedMemo) + (memoSizes.map align8).sum)
      (deserializeEncryptedMemos arnm texts) := by
  have hloop : Draws arenaAccount (memoSizes.map align8).sum (texts.forM fun text => do
      let size ← answer (arnm.base64BinarySize text.memo)
      arenaAlloc arnm.emptyRequest size
      let bytes ← answer (arnm.binaryFromBase64 text.memo)
      putTx fun tx => { tx with encryptedMemos := tx.encryptedMemos ++ [⟨text.type, bytes⟩] } : Fill Unit) := by
    clear hfits
    induction hsizes with
    | nil => exact .pure ()
    | @cons text size _ _ hsize _ ih =>
        have hne : size ≠ 0 := fun hzero => hsome text List.mem_cons_self (hzero ▸ hsize)
        exact (memo_draws hsize hne).bind fun _ =>
          ih fun text hmem => hsome text (List.mem_cons_of_mem _ hmem)
  rw [deserializeEncryptedMemos]
  by_cases hempty : texts.length = 0
  · obtain rfl := List.length_eq_zero_iff.1 hempty
    cases hsizes
    exact .pure ()
  · rw [if_neg hempty, Nat.mod_eq_of_lt hfits]
    exact (arenaAlloc_draws _ (Nat.mul_ne_zero hempty (by decide))).bind fun _ => hloop

theorem readPairingUuid_draws (uuid : Option Uuid) :
    Draws arenaAccount (if uuid.isSome then align8 16 else 0) (readPairingUuid arnm uuid) := by
  cases uuid with
  | none => exact .pure ()
  | some uuid =>
      exact (arenaAlloc_draws _ (show 16 ≠ 0 by decide)).before fun _ => putTx_draws fun _ => rfl

theorem readPairingAnchor_draws (anchor : Option Json) :
    Draws arenaAccount (if anchor.isSome then align8 sizeofLedgerAnchor else 0)
      (readPairingAnchor arnm anchor) := by
  cases anchor with
  | none => exact .pure ()
  | some anchor =>
      exact (arenaAlloc_draws _ (show sizeofLedgerAnchor ≠ 0 by decide)).before fun _ =>
        .after (.check _) fun _ => putTx_draws fun _ => rfl

theorem readBodyBytes_draws (hlawful : arnm.Lawful) {text : String} {size : ℕ}
    (hsize : arnm.base64BinarySize text = .ok size) :
    Draws arenaAccount (align8 size) (readBodyBytes arnm text) := by
  rw [readBodyBytes]
  split
  · exact .fail _
  · rename_i bytes hbytes
    rw [← hlawful.length_binary text size bytes hsize hbytes]
    by_cases hempty : bytes.length = 0
    · rw [if_pos hempty, hempty]
      exact .pure ()
    · rw [if_neg hempty]
      exact (arenaAlloc_draws _ hempty).before fun _ => putTx_draws fun _ => rfl

/-- What is taken from the arena is what the document was found to need. -/
theorem readArrays_draws (hlawful : arnm.Lawful) {view : RootView}
    {balances memos signatures : List Json} {size : ℕ} {texts : List MemoText}
    (hsize : calculateJsonSize arnm view balances memos signatures = .ok (size, texts))
    (hsome : ∀ text ∈ texts, arnm.base64BinarySize text.memo ≠ .ok 0) :
    Draws arenaAccount size
        (do readHead arnm view; readArrays arnm view balances texts signatures) := by
  obtain ⟨hread, memoSizes, bodySize, hmemoSizes, hbodySize, rfl, hfits⟩ :=
    calculateJsonSize_ok hsize
  have hmax := hlawful.maxAllocSize_lt
  have hcount : memos.length = texts.length := hread.length_eq
  have hbalances := le_align8 (balances.length * sizeofAccountBalance)
  have hmemos := le_align8 (texts.length * sizeofEncryptedMemo)
  have hsignatures := le_align8 (signatures.length * sizeofSignaturePair)
  rw [jsonTotal, hcount] at hfits ⊢
  have harrays : Draws arenaAccount _ (readArrays arnm view balances texts signatures) :=
    .bind (elements_draws (by decide) (by omega) fun _ _ => rfl) fun _ =>
      .bind (deserializeEncryptedMemos_draws hmemoSizes hsome (by omega)) fun _ =>
        .bind (elements_draws (by decide) (by omega) fun _ _ => rfl) fun _ =>
          .bind (readPairingUuid_draws _) fun _ =>
            .bind (readPairingAnchor_draws _) fun _ => readBodyBytes_draws hlawful hbodySize
  simp only [Nat.add_assoc] at harrays ⊢
  exact .after (readHead_draws view) fun _ => harrays

/-- The reading after the size has been found: whatever becomes of it, the arena had room enough. -/
theorem readCompleteTransaction_sufficed (hlawful : arnm.Lawful) {view : RootView}
    {balances memos signatures : List Json} {size : ℕ} {texts : List MemoText}
    (hsize : calculateJsonSize arnm view balances memos signatures = .ok (size, texts))
    (hsome : ∀ text ∈ texts, arnm.base64BinarySize text.memo ≠ .ok 0) {filling : Filling}
    (harena : filling.arena = .fresh 0) {room rest : Room}
    (hgranted : granted (if size = 0 then 0 else 1) room = some rest) :
    ∃ outcome left, readCompleteTransaction arnm view balances memos signatures filling room =
        (outcome, left, rest) ∧ Sufficed size outcome left := by
  have hdraws := readArrays_draws hlawful hsize hsome
  have hafter : ∀ opened : Filling, opened.arena = .fresh size → (size ≠ 0 → opened.tx.memoryArea.isSome = true) →
      ∃ outcome left, (do readHead arnm view; readArrays arnm view balances texts signatures : Fill Unit) opened rest = (outcome, left, rest) ∧
        Sufficed size outcome left := by
    intro opened hopened harea
    have hcharged : arenaAccount.spent opened = 0 := congrArg ArenaUse.charged hopened
    have hfits :
        arenaAccount.Fits (arenaAccount.terms opened) (arenaAccount.spent opened + size) := by
      rw [hcharged, Nat.zero_add]
      exact ⟨Nat.le_of_eq (congrArg ArenaUse.size hopened).symm, harea⟩
    obtain ⟨hroom, hterms, hle, hexact⟩ := hdraws opened rest hfits
    rw [hcharged, Nat.zero_add] at hle hexact
    refine ⟨_, _, Prod.ext rfl (Prod.ext rfl hroom), ?_, ?_, hle, hexact ()⟩
    · exact (congrArg (·.1) hterms).trans (congrArg ArenaUse.size hopened)
    · exact (congrArg (·.2.1) hterms).trans (congrArg ArenaUse.refused hopened)
  rw [readCompleteTransaction, hsize, answer_bind_ok]
  by_cases hzero : size = 0
  · rw [if_pos hzero] at hgranted
    obtain rfl := Option.some.inj hgranted
    simp only [hzero, ne_eq, not_true_eq_false, if_false]
    exact hzero ▸ hafter filling (hzero ▸ harena) (absurd hzero)
  · rw [if_neg hzero] at hgranted
    simp only [ne_eq, hzero, not_false_eq_true, if_true]
    rcases room with _ | ⟨_ | _, room⟩ <;> cases hgranted
    · exact hafter (filling.openArena .caller size) rfl fun _ => rfl
    · exact hafter (filling.openArena .caller size) rfl fun _ => rfl

end Draws

/-! ### Both mappings -/

/-- The arena is opened at the size of what is then taken from it: for a decoded body whose type
has a layout, and for a document none of whose memos is empty. For a type without a layout
nothing is taken. -/
structure ArenaExact (arnm : JsonArnm) (host : RecordHost) : Prop where
  wire : ∀ emptyRequest opener body confirmed communityUuid start room rest, Mapped body.detail →
    Filled body confirmed → calculateMemorySize confirmed body ≤ host.maxAllocSize →
    granted 1 room = some rest →
    ∃ left, completeTransactionFromWireSized host emptyRequest opener body confirmed communityUuid
          start room = (.ok (), left, rest) ∧
      Sufficed (calculateMemorySize confirmed body) (.ok ()) left
  unmapped : ∀ emptyRequest opener body confirmed communityUuid start room rest, ¬Mapped
      body.detail → calculateMemorySize confirmed body ≤ host.maxAllocSize →
    granted 1 room = some rest →
    ∃ left, completeTransactionFromWireSized host emptyRequest opener body confirmed communityUuid
          start room = (.error .enumUnhandled, left, rest) ∧
      left.arena = .fresh (calculateMemorySize confirmed body)
  json : ∀ view balances memos signatures size texts, calculateJsonSize arnm view balances memos
        signatures = .ok (size, texts) → (∀ text ∈ texts, arnm.base64BinarySize text.memo ≠ .ok 0) →
    ∀ filling room rest, filling.arena = .fresh 0 →
      granted (if size = 0 then 0 else 1) room = some rest →
      ∃ outcome left, readCompleteTransaction arnm view balances memos signatures filling room =
          (outcome, left, rest) ∧ Sufficed size outcome left

theorem arenaExact {arnm : JsonArnm} {host : RecordHost} (hlawful : arnm.Lawful)
    (hmax : host.maxAllocSize < 2 ^ 32) : ArenaExact arnm host where
  wire := by
    intro emptyRequest opener body confirmed communityUuid start room rest hmapped hfilled hfits
      hgranted
    obtain ⟨left, hrun, hsufficed, -⟩ :=
      completeTransactionFromWireSized_ok hmax emptyRequest hmapped hfilled hfits hgranted
    exact ⟨left, hrun, hsufficed⟩
  unmapped := by
    intro emptyRequest opener body confirmed communityUuid start room rest hmapped hfits hgranted
    exact completeTransactionFromWireSized_unmapped emptyRequest hmapped hfits hgranted
  json := by
    intro view balances memos signatures size texts hsize hsome filling room rest harena hgranted
    exact readCompleteTransaction_sufficed hlawful hsize hsome harena hgranted

/-- A body that names a friend community, and one that times a transfer out. -/
def friendsBody : Wire.TransactionBody :=
  { bodyWith .empty with detail := .communityFriendsUpdate true }

def timeoutBody : Wire.TransactionBody :=
  { bodyWith .empty with detail := .timeoutDeferredTransfer 1 }

/-- A timeout of a deferred transfer with a balance, a memo of two bytes and a signature. -/
def timeoutRecord : Runtime.CompleteTransaction :=
  { Runtime.CompleteTransaction.init with
    transactionType := .timeoutDeferredTransfer
    accountBalances := [⟨Vector.replicate 32 3, 70000, Vector.replicate 16 1⟩]
    encryptedMemos := [⟨.plain, [104, 105]⟩]
    signaturePairs := [⟨Vector.replicate 32 5, Vector.replicate 64 6⟩]
    bodyBytes := [1] }

/-- The view of the root of its document, with both parts of a pairing. -/
def timeoutView : RootView where
  confirmedAt := some (addTimestamp Key.confirmedAt timeoutRecord.confirmedAt).2
  createdAt := some (addTimestamp Key.createdAt timeoutRecord.createdAt).2
  ledgerAnchor := some (addLedgerAnchor Key.ledgerAnchor (some timeoutRecord.ledgerAnchor)).2
  transfer := none
  registerAddress := none
  communityRoot := none
  accountBalances := none
  encryptedMemos := none
  signaturePairs := none
  txPairingCommunityUuid := some (Vector.replicate 16 2)
  pairingLedgerAnchor :=
    some
      (addLedgerAnchor Key.pairingLedgerAnchor (some (.id .legacyGradidoDbTransactionId nofun 5))).2
  crossGroupType := timeoutRecord.crossGroupType.toString
  bodyBytes := Reference.base64Text timeoutRecord.bodyBytes

theorem filled_confirmed (detail : Wire.Detail) :
    Filled { bodyWith .empty with detail } confirmed :=
  ⟨fun _ hmem => absurd hmem List.not_mem_nil, by decide⟩

/-- The reading of it into a record that has its type. -/
def timeoutReading : Fill Unit :=
  readCompleteTransaction (.reference []) timeoutView
    (timeoutRecord.accountBalances.map (accountBalanceJson (.reference [])))
    (timeoutRecord.encryptedMemos.map (encryptedMemoJson (.reference [])))
    (timeoutRecord.signaturePairs.map (signaturePairJson (.reference [])))

def timeoutStart : Filling :=
  ⟨({ Runtime.CompleteTransaction.init with transactionType := .timeoutDeferredTransfer }, .empty),
    .fresh 0⟩

/-- Both are read to their end: the body takes 104 bytes of its arena, and the document 256. -/
theorem arenaExact_timeout :
    (∃ left, completeTransactionFromWireSized ⟨plainHost, none⟩ none .store timeoutBody confirmed
            (zeroBytes 16) ⟨(.init, .empty), .fresh 0⟩ [] = (.ok (), left, []) ∧
        Sufficed 104 (.ok ()) left) ∧
      ∃ left, timeoutReading timeoutStart [] = (.ok (), left, []) ∧ Sufficed 256 (.ok ()) left := by
  have hmax : (RecordHost.mk plainHost none).maxAllocSize < 2 ^ 32 := by decide
  have hexact := arenaExact (JsonArnm.reference_lawful []) hmax
  refine ⟨hexact.wire none .store timeoutBody confirmed (zeroBytes 16) _ [] [] (by decide)
      (filled_confirmed _) (by decide) rfl, ?_⟩
  have hsize : calculateJsonSize (.reference []) timeoutView
        (timeoutRecord.accountBalances.map (accountBalanceJson (.reference [])))
        (timeoutRecord.encryptedMemos.map (encryptedMemoJson (.reference [])))
        (timeoutRecord.signaturePairs.map (signaturePairJson (.reference []))) =
      .ok (256, [⟨.plain, Reference.base64Text [104, 105]⟩]) := by
    decide +kernel
  have hread : (timeoutReading timeoutStart []).1 = .ok () := by decide +kernel
  obtain ⟨outcome, left, hrun, hsufficed⟩ :=
    hexact.json _ _ _ _ _ _ hsize (by decide +kernel) timeoutStart [] [] rfl rfl
  obtain rfl : outcome = .ok () := (congrArg Prod.fst hrun).symm.trans hread
  exact ⟨left, hrun, hsufficed⟩

/-- A type without a layout is refused with the arena open and nothing taken from it. -/
theorem not_arenaExact :
    ¬∀ body confirmed communityUuid outcome left rest, Filled body confirmed →
      completeTransactionFromWireSized ⟨plainHost, none⟩ none .store body confirmed communityUuid
          ⟨(.init, .empty), .fresh 0⟩ [] = (outcome, left, rest) →
      left.arena.charged = calculateMemorySize confirmed body := by
  intro hall
  have hcharged := hall friendsBody confirmed (zeroBytes 16) _ _ _ (filled_confirmed _) rfl
  exact absurd hcharged (by decide)

end Mapping

end GradidoBlockchain
