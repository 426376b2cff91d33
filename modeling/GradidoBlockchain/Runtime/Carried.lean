import GradidoBlockchain.Runtime.Filled
import GradidoBlockchain.Wire.RoundTrip

/-!
# What the record carries of the wire

A record that has been filled is held against the values it has been filled from, field by field. A
creation leaves the community of its coins behind; nothing else is lost.
-/

namespace GradidoBlockchain

open Fallible Fallible.Call

namespace Mapping

variable {host : RecordHost} {body : Wire.TransactionBody} {confirmed : Wire.ConfirmedTransaction}
  {communityUuid : Uuid}

/-! ### What there is to carry -/

/-- A transfer of the record is an amount, whom it comes from and whom it goes to. -/
def CarriesTransfer (sender recipient : PublicKey) (amount : Wire.TransferAmount)
    (transfer : Runtime.Transfer) : Prop :=
  transfer.senderPubkey = sender ∧ transfer.recipientPubkey = recipient ∧
    transfer.amount = amount.amount ∧ transfer.coinCommunityUuid = amount.communityUuid

/-- The fields that the type of the body has in the record. The sender of a creation is nobody. -/
def CarriesDetail (tx : Runtime.CompleteTransaction) : Wire.Detail → Prop
  | .transfer transfer =>
      CarriesTransfer transfer.sender.pubkey transfer.recipient transfer.sender tx.transfer
  | .creation creation =>
      CarriesTransfer (zeroBytes 32) creation.recipient.pubkey creation.recipient tx.transfer ∧
        tx.targetDate = creation.targetDate
  | .registerAddress address =>
      tx.registerAddress = ⟨address.userPubkey, address.nameHash, address.accountPubkey⟩ ∧
        tx.addressType = address.addressType ∧ tx.derivationIndex = address.derivationIndex
  | .deferredTransfer deferred =>
      CarriesTransfer deferred.transfer.sender.pubkey deferred.transfer.recipient
          deferred.transfer.sender tx.transfer ∧
        tx.timeoutDuration.toInt = deferred.timeoutDuration.toNat
  | .redeemDeferredTransfer redeem =>
      CarriesTransfer redeem.transfer.sender.pubkey redeem.transfer.recipient redeem.transfer.sender
          tx.transfer ∧ tx.previousTx = redeem.deferredTransferTransactionNr
  | .timeoutDeferredTransfer nr => tx.previousTx = nr
  | .communityRoot root => tx.communityRoot = ⟨root.pubkey, root.gmwPubkey, root.aufPubkey⟩
  | .none | .communityFriendsUpdate _ | .unknown _ => False

/-- The record has every field of the wire. -/
structure Carries (body : Wire.TransactionBody) (confirmed : Wire.ConfirmedTransaction)
    (communityUuid : Uuid) (tx : Runtime.CompleteTransaction) : Prop where
  txNr : tx.txNr = confirmed.id
  confirmedAt : tx.confirmedAt = confirmed.confirmedAt
  createdAt : tx.createdAt = body.createdAt
  txRunningHash : tx.txRunningHash = confirmed.runningHash
  txCommunityUuid : tx.txCommunityUuid = communityUuid
  ledgerAnchor : tx.ledgerAnchor = confirmed.ledgerAnchor
  transactionType : tx.transactionType = body.detail.transactionType
  accountBalances : tx.accountBalances = confirmed.accountBalances.items
  encryptedMemos : tx.encryptedMemos = body.memos.items
  signaturePairs : tx.signaturePairs = confirmed.transaction.sigMap.items
  crossGroupType : tx.crossGroupType = body.type
  txPairingCommunityUuid : tx.txPairingCommunityUuid = body.otherCommunityUuid
  pairingLedgerAnchor : tx.pairingLedgerAnchor =
    if confirmed.transaction.pairingLedgerAnchor.type = .unspecified then none
      else some confirmed.transaction.pairingLedgerAnchor
  bodyBytes : tx.bodyBytes = confirmed.transaction.bodyBytes
  detail : CarriesDetail tx body.detail

/-! ### What is filled in -/

theorem nonempty_or {α : Type} (items : List α) :
    (if 0 < items.length then items else []) = items := by
  cases items <;> rfl

theorem isSome_or {α : Type} (value : Option α) :
    (if value.isSome then value else none) = value := by
  cases value <;> rfl

/-- The last part of a record, each field by itself. -/
theorem filledTail_fields (tx : Runtime.CompleteTransaction) :
    filledTail body confirmed tx =
      { tx with
        accountBalances :=
          if 0 < confirmed.accountBalances.items.length then confirmed.accountBalances.items
            else tx.accountBalances
        encryptedMemos :=
          if 0 < body.memos.items.length then body.memos.items else tx.encryptedMemos
        signaturePairs :=
          if 0 < confirmed.transaction.sigMap.items.length then confirmed.transaction.sigMap.items
            else tx.signaturePairs
        crossGroupType := body.type
        txPairingCommunityUuid :=
          if body.otherCommunityUuid.isSome then body.otherCommunityUuid
            else tx.txPairingCommunityUuid
        pairingLedgerAnchor := if confirmed.transaction.pairingLedgerAnchor.type ≠ .unspecified then
          some confirmed.transaction.pairingLedgerAnchor else tx.pairingLedgerAnchor
        bodyBytes := confirmed.transaction.bodyBytes } := by
  simp only [filledTail, withMemos]
  split_ifs <;> rfl

/-- The detail leaves what is not its own. -/
theorem copied_bare (detail : Wire.Detail) (tx : Runtime.CompleteTransaction) :
    ∃ transfer registerAddress communityRoot targetDate timeoutDuration previousTx addressType derivationIndex,
      copied detail tx =
        { tx with
          transfer := transfer
          registerAddress := registerAddress
          communityRoot := communityRoot
          targetDate := targetDate
          timeoutDuration := timeoutDuration
          previousTx := previousTx
          addressType := addressType
          derivationIndex := derivationIndex } := by
  cases detail <;> exact ⟨_, _, _, _, _, _, _, _, rfl⟩

theorem toInt_duration (duration : UInt32) : duration.toUInt64.toInt64.toInt = duration.toNat := by
  have hlt := duration.toNat_lt
  have hwiden : duration.toUInt64.toBitVec.toNat = duration.toNat := duration.toNat_toUInt64
  change duration.toUInt64.toBitVec.toInt = duration.toNat
  rw [BitVec.toInt_eq_toNat_of_lt (by omega), hwiden]

/-- What a body leaves in a record that was empty is what it has, but for the community of the
coins of a creation. -/
theorem carriesDetail_copied_iff {tx : Runtime.CompleteTransaction}
    (hempty : tx.transfer = Runtime.CompleteTransaction.init.transfer)
    (hmapped : Mapped body.detail) :
    CarriesDetail (copied body.detail tx) body.detail ↔
      ∀ creation, body.detail = .creation creation →
        creation.recipient.communityUuid = zeroBytes 16 := by
  cases hdetail : body.detail with
  | creation creation =>
      simp only [CarriesDetail, CarriesTransfer, copied, copyCreation, hempty,
        Wire.Detail.creation.injEq, forall_eq']
      simp only [Runtime.CompleteTransaction.init, true_and, and_true]
      exact eq_comm
  | none | communityFriendsUpdate | unknown =>
      rw [hdetail] at hmapped
      exact absurd hmapped id
  | transfer transfer => exact iff_of_true ⟨rfl, rfl, rfl, rfl⟩ (fun _ h => by cases h)
  | registerAddress address => exact iff_of_true ⟨rfl, rfl, rfl⟩ (fun _ h => by cases h)
  | deferredTransfer deferred =>
      exact iff_of_true ⟨⟨rfl, rfl, rfl, rfl⟩, toInt_duration _⟩ (fun _ h => by cases h)
  | redeemDeferredTransfer redeem =>
      exact iff_of_true ⟨⟨rfl, rfl, rfl, rfl⟩, rfl⟩ (fun _ h => by cases h)
  | timeoutDeferredTransfer nr => exact iff_of_true rfl (fun _ h => by cases h)
  | communityRoot root => exact iff_of_true rfl (fun _ h => by cases h)

/-- What the detail is copied to: the head of the record, and nothing else yet. -/
def bareRecord (confirmed : Wire.ConfirmedTransaction) (body : Wire.TransactionBody)
    (communityUuid : Uuid) (area : Runtime.Arena) : Runtime.CompleteTransaction :=
  { Runtime.CompleteTransaction.init with
    memoryArea := some area
    txNr := confirmed.id
    confirmedAt := confirmed.confirmedAt
    createdAt := body.createdAt
    txCommunityUuid := communityUuid
    ledgerAnchor := confirmed.ledgerAnchor }

theorem recordOf_fields (confirmed : Wire.ConfirmedTransaction) (body : Wire.TransactionBody)
    (communityUuid : Uuid) (area : Runtime.Arena) : 
    recordOf confirmed body communityUuid area =
      { copied body.detail (bareRecord confirmed body communityUuid area) with
        transactionType := body.detail.transactionType
        txRunningHash := confirmed.runningHash
        accountBalances := confirmed.accountBalances.items
        encryptedMemos := body.memos.items
        signaturePairs := confirmed.transaction.sigMap.items
        crossGroupType := body.type
        txPairingCommunityUuid := body.otherCommunityUuid
        pairingLedgerAnchor :=
          if confirmed.transaction.pairingLedgerAnchor.type ≠ .unspecified then
              some confirmed.transaction.pairingLedgerAnchor
            else none
        bodyBytes := confirmed.transaction.bodyBytes } := by
  obtain ⟨_, _, _, _, _, _, _, _, hcopied⟩ :=
    copied_bare body.detail (bareRecord confirmed body communityUuid area)
  rw [bareRecord] at hcopied
  rw [recordOf, filled, filledTail_fields, filledHead, bareRecord, hcopied]
  simp only [Runtime.CompleteTransaction.init, nonempty_or, isSome_or]

theorem carriesDetail_recordOf_iff (hmapped : Mapped body.detail) (area : Runtime.Arena) :
    CarriesDetail (recordOf confirmed body communityUuid area) body.detail ↔
      ∀ creation, body.detail = .creation creation →
        creation.recipient.communityUuid = zeroBytes 16 := by
  rw [← carriesDetail_copied_iff
      (show (bareRecord confirmed body communityUuid area).transfer = _ from rfl) hmapped,
    recordOf_fields]
  cases body.detail <;> exact Iff.rfl

/-- A record is filled with everything, unless it is a creation of some community's coins. -/
theorem carries_recordOf_iff (hmapped : Mapped body.detail) (area : Runtime.Arena) :
    Carries body confirmed communityUuid (recordOf confirmed body communityUuid area) ↔
      ∀ creation, body.detail = .creation creation →
        creation.recipient.communityUuid = zeroBytes 16 := by
  rw [← @carriesDetail_recordOf_iff body confirmed communityUuid hmapped area]
  obtain ⟨transfer, address, root, date, duration, previous, type, index, hcopied⟩ :=
    copied_bare body.detail (bareRecord confirmed body communityUuid area)
  have hanchor : (if confirmed.transaction.pairingLedgerAnchor.type ≠ .unspecified then
          some confirmed.transaction.pairingLedgerAnchor
        else none) =
      if confirmed.transaction.pairingLedgerAnchor.type = .unspecified then none
        else some confirmed.transaction.pairingLedgerAnchor := ite_not ..
  constructor
  · exact Carries.detail
  · intro hcarried
    have hfields := recordOf_fields confirmed body communityUuid area
    rw [hcopied, bareRecord] at hfields
    rw [hfields] at hcarried ⊢
    exact ⟨rfl, rfl, rfl, rfl, rfl, rfl, rfl, rfl, rfl, rfl, rfl, rfl, hanchor, rfl, hcarried⟩

/-! ### Every mapping -/

/-- With memory enough, a body of a mapped type is filled in. -/
theorem completeTransactionFromWire_granted (hfillable : Fillable host body confirmed)
    (hsize : calculateMemorySize confirmed body ≤ host.maxAllocSize) (opener : Runtime.Opener)
    (owned : Runtime.Owned) :
    completeTransactionFromWire host opener body confirmed communityUuid owned [] =
      (.ok (),
        (recordOf confirmed body communityUuid ((Runtime.release owned).2.next opener),
          (Runtime.release owned).2.openNext opener), []) := by
  have hfill :=
    fillRecord_ok_iff.2
      ⟨hfillable, granted_nil (fillRequests body confirmed),
        @rfl _
          (Prod.map (filled body confirmed communityUuid) id
            (openArena opener (Runtime.release owned)))⟩
  rw [completeTransactionFromWire, bind_run_ok (write_run _ _ _), if_neg (Nat.not_lt.2 hsize),
    bind_run_ok (grow_run_nil _ _ _)]
  exact hfill

/-- Whatever memory there is, a record that is filled carries the wire, and a body of
another type is refused. -/
def MapsWhole (body : Wire.TransactionBody) (confirmed : Wire.ConfirmedTransaction)
    (communityUuid : Uuid) : Prop :=
  ∀ (host : RecordHost) (opener : Runtime.Opener) (owned left : Runtime.Owned) (room rest : Room) (outcome : Except ArnmResult Unit),
    completeTransactionFromWire host opener body confirmed communityUuid owned room =
      (outcome, left, rest) →
      (outcome = .ok () → Carries body confirmed communityUuid left.1) ∧
        (¬ Mapped body.detail → ∃ code, outcome = .error code)

theorem mapsWhole_iff (body : Wire.TransactionBody) (confirmed : Wire.ConfirmedTransaction)
    (communityUuid : Uuid) :
    MapsWhole body confirmed communityUuid ↔
      ∀ creation, body.detail = .creation creation →
        creation.recipient.communityUuid = zeroBytes 16 := by
  constructor
  · intro hwhole creation hdetail
    have hmapped : Mapped body.detail := hdetail ▸ trivial
    have hrun :=
      @completeTransactionFromWire_granted ⟨⟨calculateMemorySize confirmed body, fun _ => 0⟩, none⟩
        body confirmed communityUuid ⟨hmapped, fun _ _ _ => rfl, fun _ => rfl⟩ (Nat.le_refl _)
        .caller (.init, .empty)
    exact (carries_recordOf_iff hmapped _).1 ((hwhole _ _ _ _ _ _ _ hrun).1 rfl) creation hdetail
  · intro hcoins host opener owned left room rest outcome hrun
    obtain ⟨hfails, -⟩ | ⟨middle, -, -, hfill⟩ := completeTransactionFromWire_cases hrun
    · refine ⟨fun hok => absurd hok hfails, fun _ => ?_⟩
      cases outcome with
      | ok _ => exact absurd rfl hfails
      | error code => exact ⟨code, rfl⟩
    · cases outcome with
      | error code => exact ⟨fun hok => absurd hok (by intro h; cases h), fun _ => ⟨code, rfl⟩⟩
      | ok _ =>
          obtain ⟨hfillable, -, rfl⟩ := fillRecord_ok_iff.1 hfill
          exact ⟨fun _ => (carries_recordOf_iff hfillable.1 _).2 hcoins,
            fun hunmapped => absurd hfillable.1 hunmapped⟩

/-- A creation whose coins are those of a community. -/
def colouredCreation : Wire.TransactionBody :=
  { bodyWith .empty with detail := .creation ⟨⟨zeroBytes 32, 10000000, Vector.replicate 16 5⟩, 0⟩ }

theorem not_mapsWhole :
    ¬ ∀ body confirmed communityUuid, MapsWhole body confirmed communityUuid := by
  intro hwhole
  have hcoins :=
    (hwhole colouredCreation confirmed (zeroBytes 16) ⟨plainHost, none⟩ .caller (.init, .empty) _ []
      _ _ rfl).1 (by decide)
  exact absurd hcoins.detail.1.2.2.2 (by decide)

end Mapping

end GradidoBlockchain
