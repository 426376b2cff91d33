import GradidoBlockchain.Lib.Granted
import GradidoBlockchain.Runtime.Record
import GradidoBlockchain.Wire.Decode

/-!
# From values to the record

The functions of `runtime_from_wire.c`. The record's arena is opened first, with room for everything
that is copied into it, and a copy that is refused leaves the record with its arena and with what
has been copied so far.
-/

namespace GradidoBlockchain

open Fallible Fallible.Call

namespace Wire

/-- `transaction_type` of a body. -/
def Detail.transactionType : Detail → TransactionType
  | .none => .none
  | .creation _ => .creation
  | .transfer _ => .transfer
  | .communityFriendsUpdate _ => .communityFriendsUpdate
  | .registerAddress _ => .registerAddress
  | .deferredTransfer _ => .deferredTransfer
  | .communityRoot _ => .communityRoot
  | .redeemDeferredTransfer _ => .redeemDeferredTransfer
  | .timeoutDeferredTransfer _ => .timeoutDeferredTransfer
  | .unknown past => .unknown past

end Wire

namespace Mapping

/-- A host, and what its arnm answers to the clone of a block without bytes; `none`
where it grants it. -/
structure RecordHost extends Host where
  cloneEmpty : Option ArnmResult

/-! ### The size of the arena -/

/-- `ARNM_ALIGN8`. -/
def align8 (size : Nat) : Nat := (size + 7) / 8 * 8

def sizeofAccountBalance : Nat := 56

def sizeofEncryptedMemo : Nat := 24

def sizeofSignaturePair : Nat := 96

def sizeofLedgerAnchor : Nat := 48

def calculateMemorySize (confirmed : Wire.ConfirmedTransaction)
    (body : Wire.TransactionBody) : Nat :=
  align8 (confirmed.accountBalances.items.length * sizeofAccountBalance) +
    (if body.memos.items.length ≠ 0 then
        align8 (body.memos.items.length * sizeofEncryptedMemo) +
          (body.memos.items.map fun memo => align8 memo.memo.length).sum
      else 0) + (if body.otherCommunityUuid.isSome then 16 else 0) +
    align8 (confirmed.transaction.sigMap.items.length * sizeofSignaturePair) +
    (if confirmed.transaction.pairingLedgerAnchor.type ≠ .unspecified then align8 sizeofLedgerAnchor
      else 0) + align8 confirmed.transaction.bodyBytes.length

/-! ### The detail of a transaction -/

def copyTransfer (transfer : Wire.GradidoTransfer) (tx : Runtime.CompleteTransaction) :
    Runtime.CompleteTransaction :=
  { tx with transfer := ⟨transfer.sender.pubkey, transfer.recipient, transfer.sender.amount, transfer.sender.communityUuid⟩ }

def copyCreation (creation : Wire.GradidoCreation) (tx : Runtime.CompleteTransaction) :
    Runtime.CompleteTransaction :=
  { tx with
    transfer := { tx.transfer with recipientPubkey := creation.recipient.pubkey, amount := creation.recipient.amount }
    targetDate := creation.targetDate }

def copyRegisterAddress (address : Wire.RegisterAddress) (tx : Runtime.CompleteTransaction) :
    Runtime.CompleteTransaction :=
  { tx with
    registerAddress := ⟨address.userPubkey, address.nameHash, address.accountPubkey⟩
    addressType := address.addressType
    derivationIndex := address.derivationIndex }

def copyDeferredTransfer (deferred : Wire.GradidoDeferredTransfer)
    (tx : Runtime.CompleteTransaction) : Runtime.CompleteTransaction :=
  { copyTransfer deferred.transfer tx with timeoutDuration := deferred.timeoutDuration.toUInt64.toInt64 }

def copyRedeemDeferredTransfer (redeem : Wire.GradidoRedeemDeferredTransfer)
    (tx : Runtime.CompleteTransaction) : Runtime.CompleteTransaction :=
  { copyTransfer redeem.transfer tx with previousTx := redeem.deferredTransferTransactionNr }

def copyTimeoutDeferredTransfer (nr : UInt64) (tx : Runtime.CompleteTransaction) :
    Runtime.CompleteTransaction :=
  { tx with previousTx := nr }

def copyCommunityRoot (root : Wire.CommunityRoot) (tx : Runtime.CompleteTransaction) :
    Runtime.CompleteTransaction :=
  { tx with communityRoot := ⟨root.pubkey, root.gmwPubkey, root.aufPubkey⟩ }

/-- The type of the body has a place in the record. -/
def Mapped : Wire.Detail → Prop
  | .none | .communityFriendsUpdate _ | .unknown _ => False
  | _ => True

instance : DecidablePred Mapped :=
  fun detail => by cases detail <;> unfold Mapped <;> infer_instance

/-- What a body of a mapped type writes to the record. -/
def copied (detail : Wire.Detail) : Runtime.CompleteTransaction → Runtime.CompleteTransaction :=
  match detail with
  | .transfer transfer => copyTransfer transfer
  | .creation creation => copyCreation creation
  | .registerAddress address => copyRegisterAddress address
  | .deferredTransfer deferred => copyDeferredTransfer deferred
  | .redeemDeferredTransfer redeem => copyRedeemDeferredTransfer redeem
  | .timeoutDeferredTransfer nr => copyTimeoutDeferredTransfer nr
  | .communityRoot root => copyCommunityRoot root
  | .none | .communityFriendsUpdate _ | .unknown _ => id

/-! ### The record -/

/-- A write to the record. -/
def put (change : Runtime.CompleteTransaction → Runtime.CompleteTransaction) :
    Call ArnmResult Runtime.Owned Unit :=
  write (Prod.map change id)

/-- A copy into the arena of the record. -/
def clone (change : Runtime.CompleteTransaction → Runtime.CompleteTransaction) :
    Call ArnmResult Runtime.Owned Unit :=
  grow .outOfMemory (Prod.map change id)

/-- A copy of what there may be. -/
def cloneIf (condition : Prop) [Decidable condition]
    (change : Runtime.CompleteTransaction → Runtime.CompleteTransaction) :
    Call ArnmResult Runtime.Owned Unit :=
  if condition then clone change else pure ()

/-- `arnm_memory_block_clone`. -/
def cloneBlock (host : RecordHost) (bytes : List UInt8)
    (change : Runtime.CompleteTransaction → Runtime.CompleteTransaction) :
    Call ArnmResult Runtime.Owned Unit :=
  if bytes = [] then
    match host.cloneEmpty with
    | some code => fail code
    | none => put change
  else clone change

/-- The switch of `grdm_complete_transaction_from_wire`. -/
def copyDetail (detail : Wire.Detail) : Call ArnmResult Runtime.Owned Unit :=
  if Mapped detail then put (copied detail) else fail .enumUnhandled

/-- The memos, one block for each in the array that is allocated for them. -/
def cloneMemos (host : RecordHost) (memos : List Wire.EncryptedMemo) :
    Call ArnmResult Runtime.Owned Unit :=
  if 0 < memos.length then do
    clone id
    memos.forM fun memo => cloneBlock host memo.memo id
    put fun tx => { tx with encryptedMemos := memos }
  else pure ()

/-- What is written to the record itself. -/
def fillHead (body : Wire.TransactionBody) (confirmed : Wire.ConfirmedTransaction)
    (communityUuid : Uuid) : Call ArnmResult Runtime.Owned Unit := do
  put fun tx => { tx with
    txNr := confirmed.id
    confirmedAt := confirmed.confirmedAt
    createdAt := body.createdAt
    txCommunityUuid := communityUuid
    ledgerAnchor := confirmed.ledgerAnchor }
  copyDetail body.detail
  put fun tx => { tx with transactionType := body.detail.transactionType, txRunningHash := confirmed.runningHash }

/-- What is copied into its arena. -/
def fillArrays (host : RecordHost) (body : Wire.TransactionBody)
    (confirmed : Wire.ConfirmedTransaction) : Call ArnmResult Runtime.Owned Unit := do
  cloneIf (0 < confirmed.accountBalances.items.length) fun tx =>
    { tx with accountBalances := confirmed.accountBalances.items }
  cloneMemos host body.memos.items
  cloneIf (0 < confirmed.transaction.sigMap.items.length) fun tx =>
    { tx with signaturePairs := confirmed.transaction.sigMap.items }
  put fun tx => { tx with crossGroupType := body.type }
  cloneIf (body.otherCommunityUuid.isSome) fun tx =>
    { tx with txPairingCommunityUuid := body.otherCommunityUuid }
  cloneIf (confirmed.transaction.pairingLedgerAnchor.type ≠ .unspecified) fun tx =>
    { tx with pairingLedgerAnchor := some confirmed.transaction.pairingLedgerAnchor }
  cloneBlock host confirmed.transaction.bodyBytes fun tx =>
    { tx with bodyBytes := confirmed.transaction.bodyBytes }

/-- What is written once the record has its arena. -/
def fillRecord (host : RecordHost) (body : Wire.TransactionBody)
    (confirmed : Wire.ConfirmedTransaction) (communityUuid : Uuid) :
    Call ArnmResult Runtime.Owned Unit := do
  fillHead body confirmed communityUuid
  fillArrays host body confirmed

/-- `arnm_init_arena` on the record. -/
def openArena (opener : Runtime.Opener) (owned : Runtime.Owned) : Runtime.Owned :=
  ({ owned.1 with memoryArea := some (owned.2.next opener) }, owned.2.openNext opener)

/-- `grdm_complete_transaction_from_wire`. -/
def completeTransactionFromWire (host : RecordHost) (opener : Runtime.Opener)
    (body : Wire.TransactionBody) (confirmed : Wire.ConfirmedTransaction) (communityUuid : Uuid) :
    Call ArnmResult Runtime.Owned Unit := do
  write Runtime.release
  if host.maxAllocSize < calculateMemorySize confirmed body then fail .resourceSizeExceed
  else do
    grow .outOfMemory (openArena opener)
    fillRecord host body confirmed communityUuid

end Mapping

end GradidoBlockchain
