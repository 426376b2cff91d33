import GradidoBlockchain.Json.Interface
import GradidoBlockchain.Json.Names
import GradidoBlockchain.Runtime.FromWire

/-!
# From a document to the record

The functions of `runtime_from_json.c`. Every object is walked once, with a table of the members
that are wanted of it. The arena of the record is opened at the size that the document says it
needs, and everything the record keeps is taken from it; what else is taken for a while comes from
the allocator of the caller, and is given back however the reading ends.
-/

namespace GradidoBlockchain

open Fallible Fallible.Call

namespace Mapping

/-! ### The objects below the root -/

/-- A member that has to be there. -/
def required {α : Type} (slot : Option α) : Except ArnmResult α :=
  match slot with
  | some value => .ok value
  | none => .error .decodeFailed

variable (arnm : JsonArnm)

def timestampTable : List Field := [.int64 Key.seconds, .int32 Key.nanos]

/-- `read_timestamp`. -/
def readTimestamp (object : Option Json) : Except ArnmResult Timestamp := do
  let object ← required object
  let seen ← arnm.readObject object timestampTable
  let seconds ← required (seen (.int64 Key.seconds))
  let nanos ← required (seen (.int32 Key.nanos))
  .ok ⟨seconds, nanos⟩

def accountIdTable : List Field := [.int64 Key.shardNum, .int64 Key.realmNum, .int64 Key.accountNum]

/-- `read_account_id`. -/
def readAccountId (object : Option Json) : Except ArnmResult Wire.HieroAccountId := do
  let object ← required object
  let seen ← arnm.readObject object accountIdTable
  let shardNum ← required (seen (.int64 Key.shardNum))
  let realmNum ← required (seen (.int64 Key.realmNum))
  let accountNum ← required (seen (.int64 Key.accountNum))
  .ok ⟨shardNum, realmNum, accountNum⟩

def hieroTable : List Field := [.value Key.transactionValidStart, .value Key.accountId]

/-- `read_hiero_transaction_id`. -/
def readHieroTransactionId (object : Option Json) : Except ArnmResult Wire.HieroTransactionId := do
  let object ← required object
  let seen ← arnm.readObject object hieroTable
  let validStart ← required (seen (.value Key.transactionValidStart))
  let account ← required (seen (.value Key.accountId))
  let transactionValidStart ← readTimestamp arnm (some validStart)
  let accountId ← readAccountId arnm (some account)
  .ok ⟨transactionValidStart, accountId⟩

def anchorTable : List Field := [.string Key.type, .value Key.hieroTransactionId, .uint64 Key.id]

/-- `read_ledger_anchor`. A name of no other type is read as the unspecified one, which has no
id. -/
def readLedgerAnchor (object : Option Json) : Except ArnmResult Wire.LedgerAnchor := do
  let object ← required object
  let seen ← arnm.readObject object anchorTable
  let name ← required (seen (.string Key.type))
  if hiero : LedgerAnchorType.fromString name = .hieroTransactionId then do
    let id ← readHieroTransactionId arnm (seen (.value Key.hieroTransactionId))
    .ok (.hieroTransactionId id)
  else if LedgerAnchorType.fromString name = .unspecified then .ok .init
  else do
    let id ← required (seen (.uint64 Key.id))
    .ok (.id (LedgerAnchorType.fromString name) hiero id)

/-! ### The detail of a transaction -/

def transferTable : List Field :=
  [.hexFixed 32 Key.senderPubkey, .hexFixed 32 Key.recipientPubkey, .int64 Key.amount,
    .uuid Key.coinCommunityUuid]

/-- `read_transfer`. -/
def readTransfer (object : Option Json) : Except ArnmResult Runtime.Transfer := do
  let object ← required object
  let seen ← arnm.readObject object transferTable
  let senderPubkey ← required (seen (.hexFixed 32 Key.senderPubkey))
  let recipientPubkey ← required (seen (.hexFixed 32 Key.recipientPubkey))
  let amount ← required (seen (.int64 Key.amount))
  let coinCommunityUuid ← required (seen (.uuid Key.coinCommunityUuid))
  .ok ⟨senderPubkey, recipientPubkey, amount, coinCommunityUuid⟩

def registerAddressTable : List Field :=
  [.hexFixed 32 Key.userPublicKey, .hexFixed 32 Key.nameHash, .hexFixed 32 Key.accountPublicKey]

/-- `read_register_address`. -/
def readRegisterAddress (object : Option Json) : Except ArnmResult Runtime.RegisterAddress := do
  let object ← required object
  let seen ← arnm.readObject object registerAddressTable
  let userPublicKey ← required (seen (.hexFixed 32 Key.userPublicKey))
  let nameHash ← required (seen (.hexFixed 32 Key.nameHash))
  let accountPublicKey ← required (seen (.hexFixed 32 Key.accountPublicKey))
  .ok ⟨userPublicKey, nameHash, accountPublicKey⟩

def communityRootTable : List Field :=
  [.hexFixed 32 Key.publicKey, .hexFixed 32 Key.gmwPublicKey, .hexFixed 32 Key.aufPublicKey]

/-- `read_community_root`. -/
def readCommunityRoot (object : Option Json) : Except ArnmResult CommunityRootKeys := do
  let object ← required object
  let seen ← arnm.readObject object communityRootTable
  let publicKey ← required (seen (.hexFixed 32 Key.publicKey))
  let gmwPublicKey ← required (seen (.hexFixed 32 Key.gmwPublicKey))
  let aufPublicKey ← required (seen (.hexFixed 32 Key.aufPublicKey))
  .ok ⟨publicKey, gmwPublicKey, aufPublicKey⟩

/-! ### The root -/

/-- What the walk of the root leaves for the reading after it. -/
structure RootView where
  confirmedAt : Option Json
  createdAt : Option Json
  ledgerAnchor : Option Json
  transfer : Option Json
  registerAddress : Option Json
  communityRoot : Option Json
  accountBalances : Option Json
  encryptedMemos : Option Json
  signaturePairs : Option Json
  txPairingCommunityUuid : Option Uuid
  pairingLedgerAnchor : Option Json
  crossGroupType : String
  bodyBytes : String

/-- An entry of the root's table: the field, and whether the document has to have it. -/
structure Entry where
  field : Field
  required : Bool

/-- `ADD_REQUIRED`. -/
abbrev addRequired (field : Field) : Entry := ⟨field, true⟩

/-- `ADD_OPTIONAL`. -/
abbrev addOptional (field : Field) : Entry := ⟨field, false⟩

/-- The entries every type has, as far as the detail. -/
def headTable : List Entry :=
  [addRequired (.string Key.transactionType), addRequired (.uint64 Key.txNr),
    addRequired (.value Key.confirmedAt), addRequired (.value Key.createdAt),
    addRequired (.uuid Key.txCommunityUuid), addRequired (.value Key.ledgerAnchor)]

def detailTable (type : TransactionType) : List Entry :=
  if type = .transfer ∨ type = .creation ∨ type = .deferredTransfer ∨
      type = .redeemDeferredTransfer then
    [addRequired (.value Key.transfer)]
  else if type = .registerAddress then [addRequired (.value Key.registerAddress)]
  else if type = .communityRoot then [addRequired (.value Key.communityRoot)]
  else []

def contextTable (type : TransactionType) : List Entry :=
  if type = .creation then [addRequired (.int64 Key.targetDate)]
  else if type = .deferredTransfer then [addRequired (.int64 Key.timeoutDuration)]
  else if type = .redeemDeferredTransfer ∨ type = .timeoutDeferredTransfer then
    [addRequired (.uint64 Key.previousTx)]
  else if type = .registerAddress then
    [addRequired (.string Key.addressType), addRequired (.uint32 Key.derivationIndex)]
  else []

/-- The entries after it. -/
def tailTable : List Entry :=
  [addRequired (.hexFixed 32 Key.txRunningHash), addOptional (.value Key.accountBalances),
    addOptional (.value Key.encryptedMemos), addOptional (.value Key.signaturePairs),
    addRequired (.string Key.crossGroupType), addOptional (.uuid Key.txPairingCommunityUuid),
    addOptional (.value Key.pairingLedgerAnchor), addRequired (.string Key.bodyBytes)]

/-- The table of the root. -/
def rootTable (type : TransactionType) : List Entry :=
  headTable ++ detailTable type ++ contextTable type ++ tailTable

/-- The view of what has been seen. -/
def viewOf (seen : Seen) : RootView where
  confirmedAt := seen (.value Key.confirmedAt)
  createdAt := seen (.value Key.createdAt)
  ledgerAnchor := seen (.value Key.ledgerAnchor)
  transfer := seen (.value Key.transfer)
  registerAddress := seen (.value Key.registerAddress)
  communityRoot := seen (.value Key.communityRoot)
  accountBalances := seen (.value Key.accountBalances)
  encryptedMemos := seen (.value Key.encryptedMemos)
  signaturePairs := seen (.value Key.signaturePairs)
  txPairingCommunityUuid := seen (.uuid Key.txPairingCommunityUuid)
  pairingLedgerAnchor := seen (.value Key.pairingLedgerAnchor)
  crossGroupType := (seen (.string Key.crossGroupType)).getD ""
  bodyBytes := (seen (.string Key.bodyBytes)).getD ""

/-- The members that the walk converts straight into the record. -/
def convertedInto (seen : Seen) (tx : Runtime.CompleteTransaction) : Runtime.CompleteTransaction :=
  { tx with
    txNr := (seen (.uint64 Key.txNr)).getD tx.txNr
    txCommunityUuid := (seen (.uuid Key.txCommunityUuid)).getD tx.txCommunityUuid
    targetDate := (seen (.int64 Key.targetDate)).getD tx.targetDate
    timeoutDuration := (seen (.int64 Key.timeoutDuration)).getD tx.timeoutDuration
    previousTx := (seen (.uint64 Key.previousTx)).getD tx.previousTx
    derivationIndex := (seen (.uint32 Key.derivationIndex)).getD tx.derivationIndex
    txRunningHash := (seen (.hexFixed 32 Key.txRunningHash)).getD tx.txRunningHash }

/-- `read_root`. -/
def readRoot (root : Json) (type : TransactionType) (tx : Runtime.CompleteTransaction) :
    Except ArnmResult (RootView × Runtime.CompleteTransaction) := do
  let seen ← arnm.readObject root ((rootTable type).map Entry.field)
  if (rootTable type).all fun entry => !entry.required || (seen entry.field).isSome then
    if type = .registerAddress then
      let addressType := AddressType.fromString ((seen (.string Key.addressType)).getD "")
      if addressType = .none then .error .enumUnknown
      else .ok (viewOf seen, { convertedInto seen tx with addressType := addressType })
    else .ok (viewOf seen, convertedInto seen tx)
  else .error .decodeFailed

/-- `read_transaction_detail`. -/
def readTransactionDetail (view : RootView) (tx : Runtime.CompleteTransaction) :
    Except ArnmResult Runtime.CompleteTransaction :=
  match tx.transactionType with
  | .transfer | .creation | .deferredTransfer | .redeemDeferredTransfer => do
      let transfer ← readTransfer arnm view.transfer
      .ok { tx with transfer := transfer }
  | .registerAddress => do
      let address ← readRegisterAddress arnm view.registerAddress
      .ok { tx with registerAddress := address }
  | .communityRoot => do
      let root ← readCommunityRoot arnm view.communityRoot
      .ok { tx with communityRoot := root }
  | .timeoutDeferredTransfer => .ok tx
  | .none | .communityFriendsUpdate | .unknown _ => .error .enumUnhandled

/-! ### The elements of the lists -/

def accountBalanceTable : List Field :=
  [.hexFixed 32 Key.pubkey, .int64 Key.balance, .uuid Key.communityUuid]

/-- One round of `read_account_balances`. -/
def readAccountBalance (value : Json) : Except ArnmResult AccountBalance := do
  let seen ← arnm.readObject value accountBalanceTable
  let pubkey ← required (seen (.hexFixed 32 Key.pubkey))
  let balance ← required (seen (.int64 Key.balance))
  let communityUuid ← required (seen (.uuid Key.communityUuid))
  .ok ⟨pubkey, balance, communityUuid⟩

def encryptedMemoTable : List Field := [.string Key.type, .string Key.memo]

/-- A memo whose payload is still the text it has in the document. -/
structure MemoText where
  type : MemoKey
  memo : String
  deriving DecidableEq

/-- One round of `read_encrypted_memos`. -/
def readEncryptedMemo (value : Json) : Except ArnmResult MemoText := do
  let seen ← arnm.readObject value encryptedMemoTable
  let name ← required (seen (.string Key.type))
  let memo ← required (seen (.string Key.memo))
  if MemoKey.fromString name = .none then .error .enumUnknown
    else .ok ⟨MemoKey.fromString name, memo⟩

/-- `read_encrypted_memos`. -/
def readEncryptedMemos (values : List Json) : Except ArnmResult (List MemoText) :=
  values.mapM (readEncryptedMemo arnm)

def signaturePairTable : List Field := [.hexFixed 32 Key.publicKey, .hexFixed 64 Key.signature]

/-- One round of `read_signature_pairs`. -/
def readSignaturePair (value : Json) : Except ArnmResult SignaturePair := do
  let seen ← arnm.readObject value signaturePairTable
  let publicKey ← required (seen (.hexFixed 32 Key.publicKey))
  let signature ← required (seen (.hexFixed 64 Key.signature))
  .ok ⟨publicKey, signature⟩

end Mapping

end GradidoBlockchain
