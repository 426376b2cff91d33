import GradidoBlockchain.Lib.Call
import GradidoBlockchain.Wire.Values

/-!
# From values to messages

The functions of `pbtools_from_wire.c`. Each fills a message that has just been allocated; the
sub-messages it needs are allocated one by one on the way.
-/

namespace GradidoBlockchain

open Fallible Fallible.Call

namespace Mapping

/-! ### Messages without a pointer in them -/

/-- `community_uuid_from_wire`: no uuid leaves the field empty. -/
def communityUuidFromWire (communityUuid : Option Uuid) : Proto.ByteString :=
  match communityUuid with
  | some uuid => uuid.toList
  | none => []

def accountBalanceFromWire (balance : AccountBalance) : Proto.AccountBalance where
  pubkey := balance.pubkey.toList
  balance := balance.balance
  communityUuid := communityUuidFromWire (some balance.communityUuid)

def encryptedMemoFromWire (memo : Wire.EncryptedMemo) : Proto.EncryptedMemo :=
  ⟨memo.type, memo.memo⟩

def signaturePairFromWire (pair : SignaturePair) : Proto.SignaturePair :=
  ⟨pair.publicKey.toList, pair.signature.toList⟩

def timestampFromWire (timestamp : Timestamp) : Proto.Timestamp :=
  ⟨timestamp.seconds, timestamp.nanos⟩

def timestampSecondsFromWire (seconds : Int64) : Proto.TimestampSeconds := ⟨seconds⟩

def transferAmountFromWire (amount : Wire.TransferAmount) : Proto.TransferAmount where
  pubkey := amount.pubkey.toList
  amount := amount.amount
  communityUuid := communityUuidFromWire (some amount.communityUuid)

def hieroAccountIdFromWire (id : Wire.HieroAccountId) : Proto.AccountId where
  shardNum := id.shardNum
  realmNum := id.realmNum
  account := .accountNum id.accountNum

def communityFriendsUpdateFromWire (colorFusion : Bool) : Proto.CommunityFriendsUpdate :=
  ⟨colorFusion⟩

def communityRootFromWire (root : Wire.CommunityRoot) : Proto.CommunityRoot where
  pubkey := root.pubkey.toList
  gmwPubkey := root.gmwPubkey.toList
  aufPubkey := root.aufPubkey.toList

def registerAddressFromWire (address : Wire.RegisterAddress) : Proto.RegisterAddress where
  userPubkey := address.userPubkey.toList
  addressType := address.addressType
  nameHash := address.nameHash.toList
  accountPubkey := address.accountPubkey.toList
  derivationIndex := address.derivationIndex

def gradidoTimeoutDeferredTransferFromWire (nr : UInt64) : Proto.GradidoTimeoutDeferredTransfer :=
  ⟨nr⟩

/-! ### Ledger anchors -/

def hieroTransactionIdFromWire (id : Wire.HieroTransactionId) :
    Call ArnmResult Proto.TransactionId Unit := do
  write fun pb => { pb with nonce := 0, scheduled := false }
  grow .outOfMemory fun pb =>
    { pb with transactionValidStart := some (timestampFromWire id.transactionValidStart) }
  grow .outOfMemory fun pb => { pb with accountId := some (hieroAccountIdFromWire id.accountId) }

/-- The Hiero id of an anchor, where it is the member set. -/
def hieroOf (pb : Proto.LedgerAnchor) : Proto.TransactionId :=
  match pb.anchorId with
  | .hieroTransactionId (some message) => message
  | _ => .init

def putHiero (message : Proto.TransactionId) (pb : Proto.LedgerAnchor) : Proto.LedgerAnchor :=
  { pb with anchorId := .hieroTransactionId (some message) }

/-- What comes of the Hiero id is not looked at. -/
def ledgerAnchorFromWire (anchor : Wire.LedgerAnchor) : Call ArnmResult Proto.LedgerAnchor Unit :=
  match anchor with
  | .hieroTransactionId id => do
      grow .outOfMemory (putHiero .init)
      unchecked (within hieroOf putHiero (hieroTransactionIdFromWire id))
      write fun pb => { pb with type := .hieroTransactionId }
  | .id type _ id => write fun pb => { pb with anchorId := .id id, type := type }

/-! ### The transactions of a body -/

def gradidoCreationFromWire (creation : Wire.GradidoCreation) :
    Call ArnmResult Proto.GradidoCreation Unit := do
  grow .outOfMemory fun pb =>
    { pb with recipient := some (transferAmountFromWire creation.recipient) }
  grow .outOfMemory fun pb =>
    { pb with targetDate := some (timestampSecondsFromWire creation.targetDate) }

def gradidoTransferFromWire (transfer : Wire.GradidoTransfer) :
    Call ArnmResult Proto.GradidoTransfer Unit := do
  write fun pb => { pb with recipient := transfer.recipient.toList }
  grow .outOfMemory fun pb => { pb with sender := some (transferAmountFromWire transfer.sender) }

def gradidoDeferredTransferFromWire (deferred : Wire.GradidoDeferredTransfer) :
    Call ArnmResult Proto.GradidoDeferredTransfer Unit := do
  grow .outOfMemory fun pb =>
    { pb with timeoutDuration := some ⟨deferred.timeoutDuration.toUInt64⟩ }
  grow .outOfMemory fun pb => { pb with transfer := some .init }
  within (fun pb => pb.transfer.getD .init)
    (fun transfer pb => { pb with transfer := some transfer })
    (gradidoTransferFromWire deferred.transfer)

def gradidoRedeemDeferredTransferFromWire (redeem : Wire.GradidoRedeemDeferredTransfer) :
    Call ArnmResult Proto.GradidoRedeemDeferredTransfer Unit := do
  write fun pb => { pb with deferredTransferTransactionNr := redeem.deferredTransferTransactionNr }
  grow .outOfMemory fun pb => { pb with transfer := some .init }
  within (fun pb => pb.transfer.getD .init)
    (fun transfer pb => { pb with transfer := some transfer })
    (gradidoTransferFromWire redeem.transfer)

/-- A member of the oneof `data` allocated and filled. -/
def member {α : Type} (init : α) (set : α → Proto.Data) (fill : Call ArnmResult α Unit) :
    Call ArnmResult Proto.TransactionBody Unit := do
  grow .outOfMemory fun pb => { pb with data := set init }
  within (fun _ => init) (fun message pb => { pb with data := set message }) fill

/-- The switch of `grdm_transaction_body_from_wire`. -/
def detailFromWire (detail : Wire.Detail) : Call ArnmResult Proto.TransactionBody Unit :=
  match detail with
  | .none => write fun pb => { pb with data := .none }
  | .transfer transfer => member .init (.transfer ∘ some) (gradidoTransferFromWire transfer)
  | .creation creation => member .init (.creation ∘ some) (gradidoCreationFromWire creation)
  | .communityFriendsUpdate colorFusion => member ⟨false⟩ (.communityFriendsUpdate ∘ some)
      (write fun _ => communityFriendsUpdateFromWire colorFusion)
  | .registerAddress address => member ⟨[], .none, [], [], 0⟩ (.registerAddress ∘ some)
      (write fun _ => registerAddressFromWire address)
  | .deferredTransfer deferred =>
      member .init (.deferredTransfer ∘ some) (gradidoDeferredTransferFromWire deferred)
  | .communityRoot root =>
      member ⟨[], [], []⟩ (.communityRoot ∘ some) (write fun _ => communityRootFromWire root)
  | .redeemDeferredTransfer redeem => member .init (.redeemDeferredTransfer ∘ some)
      (gradidoRedeemDeferredTransferFromWire redeem)
  | .timeoutDeferredTransfer nr => member ⟨0⟩ (.timeoutDeferredTransfer ∘ some)
      (write fun _ => gradidoTimeoutDeferredTransferFromWire nr)
  | .unknown _ => fail .enumUnknown

/-- `grdm_transaction_body_from_wire`. -/
def transactionBodyFromWire (body : Wire.TransactionBody) :
    Call ArnmResult Proto.TransactionBody Unit := do
  write fun pb => { pb with versionNumber := protocolVersion }
  if 0 < body.memos.items.length then
    grow .outOfMemory fun pb => { pb with memos := body.memos.items.map encryptedMemoFromWire }
  write fun pb => { pb with otherCommunityUuid := communityUuidFromWire body.otherCommunityUuid }
  grow .outOfMemory fun pb => { pb with createdAt := some (timestampFromWire body.createdAt) }
  write fun pb => { pb with type := body.type }
  detailFromWire body.detail

/-! ### Confirmed transactions -/

/-- The signatures of `grdm_gradido_transaction_from_wire`. -/
def sigMapFromWire (sigMap : Few SignaturePair) : Call ArnmResult Proto.GradidoTransaction Unit :=
  if 0 < sigMap.items.length then
    if 255 ≤ sigMap.items.length then fail .arrayIndexOutOfBounds
    else do
      grow .outOfMemory fun pb => { pb with sigMap := some ⟨[]⟩ }
      grow .outOfMemory fun pb =>
        { pb with sigMap := some ⟨sigMap.items.map signaturePairFromWire⟩ }
  else pure ()

/-- The pairing anchor of `grdm_gradido_transaction_from_wire`, which is left out where its
type says nothing. -/
def pairingLedgerAnchorFromWire (anchor : Wire.LedgerAnchor) :
    Call ArnmResult Proto.GradidoTransaction Unit :=
  if anchor.type ≠ .unspecified then do
    grow .outOfMemory fun pb => { pb with pairingLedgerAnchor := some .init }
    within (fun pb => pb.pairingLedgerAnchor.getD .init)
      (fun anchor pb => { pb with pairingLedgerAnchor := some anchor })
      (ledgerAnchorFromWire anchor)
  else pure ()

/-- `grdm_gradido_transaction_from_wire`. -/
def gradidoTransactionFromWire (tx : Wire.GradidoTransaction) :
    Call ArnmResult Proto.GradidoTransaction Unit := do
  sigMapFromWire tx.sigMap
  pairingLedgerAnchorFromWire tx.pairingLedgerAnchor
  write fun pb => { pb with bodyBytes := tx.bodyBytes }

/-- The balances of `grdm_confirmed_transaction_from_wire`. -/
def accountBalancesFromWire (balances : Few AccountBalance) :
    Call ArnmResult Proto.ConfirmedTransaction Unit :=
  if 0 < balances.items.length then
    if 255 ≤ balances.items.length then fail .arrayIndexOutOfBounds
    else grow .outOfMemory fun pb =>
      { pb with accountBalances := balances.items.map accountBalanceFromWire }
  else pure ()

/-- `grdm_confirmed_transaction_from_wire`. -/
def confirmedTransactionFromWire (tx : Wire.ConfirmedTransaction) :
    Call ArnmResult Proto.ConfirmedTransaction Unit := do
  write fun pb => { pb with versionNumber := protocolVersion, id := tx.id }
  grow .outOfMemory fun pb => { pb with transaction := some .init }
  within (fun pb => pb.transaction.getD .init)
    (fun transaction pb => { pb with transaction := some transaction })
    (gradidoTransactionFromWire tx.transaction)
  grow .outOfMemory fun pb => { pb with confirmedAt := some (timestampFromWire tx.confirmedAt) }
  write fun pb => { pb with runningHash := tx.runningHash.toList }
  grow .outOfMemory fun pb => { pb with ledgerAnchor := some .init }
  within (fun pb => pb.ledgerAnchor.getD .init)
    (fun anchor pb => { pb with ledgerAnchor := some anchor })
    (ledgerAnchorFromWire tx.ledgerAnchor)
  accountBalancesFromWire tx.accountBalances

end Mapping

end GradidoBlockchain
