import GradidoBlockchain.Json.Needed

/-!
# The record that is filled from a written document

Each list goes from the document into the arena as it was, each of its elements drawing what has
been foretold. Together with the walk of the root and the objects below it that makes the record
whole again, but for its anchors, which are what they come back as.
-/

namespace GradidoBlockchain

open Fallible Fallible.Call

namespace Mapping

variable {arnm : JsonArnm} {tx : Runtime.CompleteTransaction} {view : RootView}

/-! ### Into the arena -/

section Arrays

def addedBalances (balances : List AccountBalance) (tx : Runtime.CompleteTransaction) :
    Runtime.CompleteTransaction :=
  { tx with accountBalances := tx.accountBalances ++ balances }

def addedMemos (memos : List Wire.EncryptedMemo) (tx : Runtime.CompleteTransaction) :
    Runtime.CompleteTransaction :=
  { tx with encryptedMemos := tx.encryptedMemos ++ memos }

def addedSignatures (pairs : List SignaturePair) (tx : Runtime.CompleteTransaction) :
    Runtime.CompleteTransaction :=
  { tx with signaturePairs := tx.signaturePairs ++ pairs }

/-- A list of elements of one size, each of which is read back. -/
theorem elements_covers (arnm : JsonArnm) {β : Type} {size : ℕ} (hsize : size ≠ 0) {items : List β}
    (hfits : items.length * size < 2 ^ 32)
    {json : β → Json} {each : Json → Except ArnmResult β}
      (heach : ∀ item, each (json item) = .ok item)
    (change : List β → Runtime.CompleteTransaction → Runtime.CompleteTransaction)
    (harea : ∀ items tx, (change items tx).memoryArea = tx.memoryArea)
      (hnil : ∀ tx, change [] tx = tx)
    (hcons : ∀ item items tx, change (item :: items) tx = change items (change [item] tx)) :
    Covers (align8 (items.length * size)) (if (items.map json).length = 0 then pure () else do
      arenaAlloc arnm.emptyRequest ((items.map json).length * size % 2 ^ 32)
      (items.map json).forM fun value => do
        let value ← answer (each value)
        putTx (change [value]) : Fill Unit) (Mapping.put (change items)) := by
  rw [List.length_map]
  by_cases hempty : items.length = 0
  · obtain rfl := List.length_eq_zero_iff.1 hempty
    rw [if_pos hempty, show change [] = id from funext hnil, List.length_nil, Nat.zero_mul]
    exact .pure
  · have hloop : Covers (items.map fun _ => 0).sum ((items.map json).forM fun value => do
        let value ← answer (each value)
        putTx (change [value]) : Fill Unit) (Mapping.put (change items)) := by
      refine .forM_put hnil hcons fun item _ => ?_
      rw [heach]
      exact .put (harea [item])
    rw [List.map_const', List.sum_replicate, Nat.nsmul_eq_mul, Nat.mul_zero] at hloop
    rw [if_neg hempty, Nat.mod_eq_of_lt hfits]
    exact (Covers.alloc arnm.emptyRequest (Nat.mul_ne_zero hempty hsize)).andPut hloop

theorem readAccountBalances_covers (hlawful : arnm.Lawful) {balances : List AccountBalance}
    (hfits : balances.length * sizeofAccountBalance < 2 ^ 32) :
    Covers (align8 (balances.length * sizeofAccountBalance))
      (readAccountBalances arnm (balances.map (accountBalanceJson arnm)))
      (put (addedBalances balances)) :=
  elements_covers arnm (by decide) hfits (readAccountBalance_written hlawful) addedBalances
    (fun _ _ => rfl) (fun tx => by simp [addedBalances])
    fun balance balances tx => by simp [addedBalances]

theorem readSignaturePairs_covers (hlawful : arnm.Lawful) {pairs : List SignaturePair}
    (hfits : pairs.length * sizeofSignaturePair < 2 ^ 32) :
    Covers (align8 (pairs.length * sizeofSignaturePair))
      (readSignaturePairs arnm (pairs.map (signaturePairJson arnm)))
      (put (addedSignatures pairs)) :=
  elements_covers arnm (by decide) hfits (readSignaturePair_written hlawful) addedSignatures
    (fun _ _ => rfl) (fun tx => by simp [addedSignatures])
    fun pair pairs tx => by simp [addedSignatures]

theorem memo_covers (hlawful : arnm.Lawful) {memo : Wire.EncryptedMemo} (hsome : memo.memo ≠ []) :
    Covers (align8 memo.memo.length) (do
      let size ← answer (arnm.base64BinarySize (memoText arnm memo).memo)
      arenaAlloc arnm.emptyRequest size
      let bytes ← answer (arnm.binaryFromBase64 (memoText arnm memo).memo)
      putTx (addedMemos [⟨(memoText arnm memo).type, bytes⟩]) : Fill Unit) (put (addedMemos [memo])) := by
  rw [memoText, hlawful.base64BinarySize_base64, hlawful.binaryFromBase64_base64]
  have hsize : memo.memo.length ≠ 0 := fun hzero => hsome (List.length_eq_zero_iff.1 hzero)
  exact .allocPut _ hsize fun _ => rfl

theorem deserializeEncryptedMemos_covers (hlawful : arnm.Lawful) {memos : List Wire.EncryptedMemo}
    (hsome : ∀ memo ∈ memos, memo.memo ≠ []) (hfits : memos.length * sizeofEncryptedMemo < 2 ^ 32) :
    Covers (align8 (memos.length * sizeofEncryptedMemo) +
      (memos.map fun memo => align8 memo.memo.length).sum)
      (deserializeEncryptedMemos arnm (memos.map (memoText arnm))) (put (addedMemos memos)) := by
  have hnil : ∀ tx, addedMemos [] tx = tx := fun tx => by simp [addedMemos]
  rw [deserializeEncryptedMemos, List.length_map]
  by_cases hempty : memos.length = 0
  · obtain rfl := List.length_eq_zero_iff.1 hempty
    rw [if_pos hempty, show addedMemos [] = id from funext hnil]
    exact .pure
  · rw [if_neg hempty, Nat.mod_eq_of_lt hfits]
    have harray : memos.length * sizeofEncryptedMemo ≠ 0 := Nat.mul_ne_zero hempty (by decide)
    refine (Covers.alloc arnm.emptyRequest harray).andPut
      (Covers.forM_put hnil (fun memo memos tx => ?_) fun memo hmem => ?_)
    · simp [addedMemos]
    · exact memo_covers hlawful (hsome memo hmem)

theorem readPairingUuid_covers (arnm : JsonArnm) (uuid : Option Uuid) :
    Covers (if uuid.isSome then align8 16 else 0) (readPairingUuid arnm uuid)
      (put fun tx => { tx with txPairingCommunityUuid := uuid <|> tx.txPairingCommunityUuid }) := by
  cases uuid with
  | none => exact .pure
  | some uuid => exact .allocPut _ (show 16 ≠ 0 by decide) fun _ => rfl

theorem readPairingAnchor_covers (hlawful : arnm.Lawful) (key : String)
    (anchor : Option Wire.LedgerAnchor) : 
    Covers (if ((some (addLedgerAnchor key anchor).2).filter fun anchor => !anchor.isNull).isSome then align8 sizeofLedgerAnchor else 0)
      (readPairingAnchor arnm
        ((some (addLedgerAnchor key anchor).2).filter fun anchor => !anchor.isNull))
      (put fun tx =>
          { tx with pairingLedgerAnchor := anchor.map reread <|> tx.pairingLedgerAnchor }) := by
  cases anchor with
  | none => exact .pure
  | some anchor =>
      have hfilter :
          (some (addLedgerAnchor key (some anchor)).2).filter (fun anchor => !anchor.isNull) =
            some (addLedgerAnchor key (some anchor)).2 := rfl
      rw [hfilter, readPairingAnchor]
      simp only [readLedgerAnchor_written hlawful]
      exact .allocPut _ (show sizeofLedgerAnchor ≠ 0 by decide) fun _ => rfl

theorem readBodyBytes_covers (hlawful : arnm.Lawful) (bytes : List UInt8) :
    Covers (align8 bytes.length) (readBodyBytes arnm (arnm.base64 bytes))
      (put fun tx => { tx with bodyBytes := if bytes = [] then tx.bodyBytes else bytes }) := by
  rw [readBodyBytes, hlawful.binaryFromBase64_base64]
  by_cases hempty : bytes = []
  · subst hempty
    exact .pure
  · have hsize : bytes.length ≠ 0 := fun hzero => hempty (List.length_eq_zero_iff.1 hzero)
    simp only [if_neg hempty, if_neg hsize]
    exact .allocPut _ hsize fun _ => rfl

/-- What lies in the arena of the record, put into one that has nothing there. -/
def withArrays (tx before : Runtime.CompleteTransaction) : Runtime.CompleteTransaction :=
  { before with
    accountBalances := before.accountBalances ++ tx.accountBalances
    encryptedMemos := before.encryptedMemos ++ tx.encryptedMemos
    signaturePairs := before.signaturePairs ++ tx.signaturePairs
    txPairingCommunityUuid := tx.txPairingCommunityUuid <|> before.txPairingCommunityUuid
    pairingLedgerAnchor := tx.pairingLedgerAnchor.map reread <|> before.pairingLedgerAnchor
    bodyBytes := if tx.bodyBytes = [] then before.bodyBytes else tx.bodyBytes }

theorem readArrays_covers (hlawful : arnm.Lawful) (hholds : Holds arnm tx view)
    (hsome : ∀ memo ∈ tx.encryptedMemos, memo.memo ≠ [])
    (hfits : neededSize arnm tx view ≤ arnm.maxAllocSize) :
    Covers (neededSize arnm tx view)
      (readArrays arnm view (tx.accountBalances.map (accountBalanceJson arnm))
        (tx.encryptedMemos.map (memoText arnm)) (tx.signaturePairs.map (signaturePairJson arnm)))
      (put (withArrays tx)) := by
  have hmax := hlawful.maxAllocSize_lt
  have hbalances := le_align8 (tx.accountBalances.length * sizeofAccountBalance)
  have hmemos := le_align8 (tx.encryptedMemos.length * sizeofEncryptedMemo)
  have hsignatures := le_align8 (tx.signaturePairs.length * sizeofSignaturePair)
  rw [neededSize, jsonTotal, List.length_map, List.length_map, List.length_map, List.map_map]
    at hfits ⊢
  rw [readArrays, RootView.presentAnchor, hholds.txPairingCommunityUuid, hholds.pairingLedgerAnchor,
    hholds.bodyBytes]
  have harrays :=
    (readAccountBalances_covers hlawful
      (show tx.accountBalances.length * sizeofAccountBalance < 2 ^ 32 by omega)).andPut
      ((deserializeEncryptedMemos_covers hlawful hsome (by omega)).andPut
        ((readSignaturePairs_covers hlawful
          (show tx.signaturePairs.length * sizeofSignaturePair < 2 ^ 32 by omega)).andPut
          ((readPairingUuid_covers arnm tx.txPairingCommunityUuid).andPut
            ((readPairingAnchor_covers hlawful Key.pairingLedgerAnchor
              tx.pairingLedgerAnchor).andPut (readBodyBytes_covers hlawful tx.bodyBytes)))))
  simp only [Nat.add_assoc] at harrays ⊢
  exact harrays

end Arrays

/-! ### The record -/

/-- Every field that the type of the transaction owns is the same. -/
structure Reproduces (tx record : Runtime.CompleteTransaction) : Prop where
  txNr : record.txNr = tx.txNr
  confirmedAt : record.confirmedAt = tx.confirmedAt
  createdAt : record.createdAt = tx.createdAt
  txCommunityUuid : record.txCommunityUuid = tx.txCommunityUuid
  ledgerAnchor : record.ledgerAnchor = tx.ledgerAnchor
  transactionType : record.transactionType = tx.transactionType
  crossGroupType : record.crossGroupType = tx.crossGroupType
  txRunningHash : record.txRunningHash = tx.txRunningHash
  detail : SameDetail tx record
  context : SameContext tx record
  accountBalances : record.accountBalances = tx.accountBalances
  encryptedMemos : record.encryptedMemos = tx.encryptedMemos
  signaturePairs : record.signaturePairs = tx.signaturePairs
  txPairingCommunityUuid : record.txPairingCommunityUuid = tx.txPairingCommunityUuid
  pairingLedgerAnchor : record.pairingLedgerAnchor = tx.pairingLedgerAnchor
  bodyBytes : record.bodyBytes = tx.bodyBytes

/-- A record with its anchors as they come back. -/
def rereadAnchors (tx : Runtime.CompleteTransaction) : Runtime.CompleteTransaction :=
  { tx with
    ledgerAnchor := reread tx.ledgerAnchor
    pairingLedgerAnchor := tx.pairingLedgerAnchor.map reread }

theorem readTransactionDetail_written (hlawful : arnm.Lawful) (hholds : Holds arnm tx view)
    {before : Runtime.CompleteTransaction}
    (htype : before.transactionType = tx.transactionType) :
    ∃ record, readTransactionDetail arnm view before = .ok record ∧ SameDetail tx record ∧
      ∃ transfer registerAddress communityRoot, record = { before with
        transfer := transfer
        registerAddress := registerAddress
        communityRoot := communityRoot } := by
  have hdetail := hholds.detail
  rw [readTransactionDetail, htype]
  rw [HoldsDetail] at hdetail
  simp only [SameDetail]
  cases htx : tx.transactionType <;> rw [htx] at hdetail
  case transfer | creation | deferredTransfer | redeemDeferredTransfer =>
    simp only [bind, Except.bind, hdetail, readTransfer_written hlawful]
    exact ⟨_, rfl, rfl, _, _, _, rfl⟩
  case registerAddress =>
    simp only [bind, Except.bind, hdetail, readRegisterAddress_written hlawful]
    exact ⟨_, rfl, rfl, _, _, _, rfl⟩
  case communityRoot =>
    simp only [bind, Except.bind, hdetail, readCommunityRoot_written hlawful]
    exact ⟨_, rfl, rfl, _, _, _, rfl⟩
  case timeoutDeferredTransfer => exact ⟨before, rfl, trivial, _, _, _, by rw [← htx, ← htype]⟩
  case none | communityFriendsUpdate | unknown => exact hdetail.elim

/-- The record has what lies in it besides what the walk of the root has converted. -/
structure Headed (tx before record : Runtime.CompleteTransaction) : Prop where
  detail : SameDetail tx record
  rest : ∃ transfer registerAddress communityRoot, record = { before with
    confirmedAt := tx.confirmedAt
    createdAt := tx.createdAt
    ledgerAnchor := reread tx.ledgerAnchor
    transfer := transfer
    registerAddress := registerAddress
    communityRoot := communityRoot }

theorem readHead_written (hlawful : arnm.Lawful) (hholds : Holds arnm tx view) {filling : Filling}
    (htype : filling.tx.transactionType = tx.transactionType) (room : Room) :
    ∃ record, readHead arnm view filling room = (.ok (), filling.withTx fun _ => record, room) ∧
      Headed tx filling.tx record := by
  obtain ⟨record, hread, hdetail, hrest⟩ := readTransactionDetail_written hlawful hholds (show Runtime.CompleteTransaction.transactionType
    { filling.tx with
      confirmedAt := tx.confirmedAt
      createdAt := tx.createdAt
      ledgerAnchor := reread tx.ledgerAnchor } = tx.transactionType from htype)
  refine ⟨record, ?_, hdetail, hrest⟩
  rw [readHead, hholds.confirmedAt, hholds.createdAt, hholds.ledgerAnchor,
    readTimestamp_written hlawful, readTimestamp_written hlawful, readLedgerAnchor_written hlawful,
    answer_bind_ok, putTx_bind, answer_bind_ok, putTx_bind, answer_bind_ok, putTx_bind,
    bind_run_ok (gets_run _ _ _)]
  change (answer (readTransactionDetail arnm view { filling.tx with
    confirmedAt := tx.confirmedAt
    createdAt := tx.createdAt
    ledgerAnchor := reread tx.ledgerAnchor }) >>= fun tx => putTx fun _ => tx) _ room = _
  rw [hread]
  rfl

/-- The record is filled from what has been written. -/
theorem fill_written (hlawful : arnm.Lawful) (hholds : Holds arnm tx view)
    (hsome : ∀ memo ∈ tx.encryptedMemos, memo.memo ≠ [])
    (hfits : neededSize arnm tx view ≤ arnm.maxAllocSize) (filling : Filling)
      (htype : filling.tx.transactionType = tx.transactionType)
    (harena : filling.arena = .fresh (neededSize arnm tx view))
      (harea : neededSize arnm tx view ≠ 0 → filling.tx.memoryArea.isSome = true)
    (room : Room) : ∃ record left, (do
      readHead arnm view
      readArrays arnm view (tx.accountBalances.map (accountBalanceJson arnm))
        (tx.encryptedMemos.map (memoText arnm))
        (tx.signaturePairs.map (signaturePairJson arnm)) : Fill Unit) filling room = (.ok (), left, room) ∧
      Headed tx filling.tx record ∧ left.tx = withArrays tx record := by
  obtain ⟨record, hhead, hheaded⟩ := readHead_written hlawful hholds htype room
  have hkept : record.memoryArea = filling.tx.memoryArea := by
    obtain ⟨_, _, _, hrest⟩ := hheaded.rest
    rw [hrest]
  have hroom : arenaAccount.Fits (arenaAccount.terms (filling.withTx fun _ => record))
      (arenaAccount.spent (filling.withTx fun _ => record) + neededSize arnm tx view) := by
    have hspent : arenaAccount.spent (filling.withTx fun _ => record) = 0 :=
      congrArg ArenaUse.charged harena
    rw [hspent, Nat.zero_add]
    exact ⟨Nat.le_of_eq (congrArg ArenaUse.size harena).symm,
      fun hne => (congrArg Option.isSome hkept).trans (harea hne)⟩
  obtain ⟨left, hrun, hplain, -, -⟩ :=
    readArrays_covers hlawful hholds hsome hfits (filling.withTx fun _ => record) room hroom
  refine ⟨record, left, (bind_run_ok hhead).trans hrun, hheaded, ?_⟩
  exact (congrArg (fun run : Except ArnmResult Unit × Runtime.Owned × Room => run.2.1.1)
    hplain).symm

/-- What has been read of the root, of the head and of the arrays is what was written. -/
theorem reproduces_of {root head : Runtime.CompleteTransaction} {area : Option Runtime.Arena}
    (hrooted :
      Rooted tx { Runtime.CompleteTransaction.init with transactionType := tx.transactionType }
        root)
    (hheaded :
      Headed tx { root with crossGroupType := tx.crossGroupType, memoryArea := area } head) :
    Reproduces (rereadAnchors tx) (withArrays tx head) := by
  obtain ⟨hcontext, _, _, _, _, _, rfl⟩ := hrooted
  obtain ⟨hdetail, _, _, _, rfl⟩ := hheaded
  constructor
  case detail => exact hdetail
  case context => exact hcontext
  case txPairingCommunityUuid =>
    change (tx.txPairingCommunityUuid <|> none) = tx.txPairingCommunityUuid
    cases tx.txPairingCommunityUuid <;> rfl
  case pairingLedgerAnchor =>
    change (tx.pairingLedgerAnchor.map reread <|> none) = tx.pairingLedgerAnchor.map reread
    cases tx.pairingLedgerAnchor <;> rfl
  case bodyBytes =>
    change (if tx.bodyBytes = [] then [] else tx.bodyBytes) = tx.bodyBytes
    split
    · rename_i hempty
      exact hempty.symm
    · rfl
  all_goals rfl

end Mapping

end GradidoBlockchain
