import GradidoBlockchain.Json.Interface
import GradidoBlockchain.Json.Names
import GradidoBlockchain.Runtime.Record

/-!
# From the record to a document

The functions of `json_from_runtime.c`. The writer keeps its first refusal to itself and answers
it when it renders, so that the members are laid down without a test. A record of a type that has
no layout is refused.
-/

namespace GradidoBlockchain

namespace Mapping

/-- A member of an object. -/
abbrev Member : Type := String × Json

/-! ### Members -/

def addUint64 (key : String) (value : UInt64) : Member := (key, .number value.toNat)

def addInt64 (key : String) (value : Int64) : Member := (key, .number value.toInt)

/-- `add_enum_string`. -/
def addEnumString (key name : String) : Member := (key, .string name)

/-- `add_timestamp`; the nanoseconds are widened to the integer that is written. -/
def addTimestamp (key : String) (timestamp : Timestamp) : Member :=
  (key,
    .object [addInt64 Key.seconds timestamp.seconds, (Key.nanos, .number timestamp.nanos.toInt)])

variable (arnm : JsonArnm)

def addHex {size : ℕ} (key : String) (bytes : Bytes size) : Member :=
  (key, .string (arnm.hex bytes.toList))

/-- `arnm_json_writer_add_uuid`, which writes `null` for no uuid. -/
def addUuid (key : String) (uuid : Option Uuid) : Member :=
  (key, match uuid with
    | some uuid => .string (arnm.uuidText uuid)
    | none => .null)

def addBase64 (key : String) (bytes : List UInt8) : Member := (key, .string (arnm.base64 bytes))

/-- What the type of an anchor owns, written after its name. -/
def anchorMembers : Wire.LedgerAnchor → List Member
  | .hieroTransactionId hiero => [(Key.hieroTransactionId, .object [
      addTimestamp Key.transactionValidStart hiero.transactionValidStart,
      (Key.accountId, .object [
        addInt64 Key.shardNum hiero.accountId.shardNum,
        addInt64 Key.realmNum hiero.accountId.realmNum,
        addInt64 Key.accountNum hiero.accountId.accountNum])])]
  | .id .unspecified _ _ => []
  | .id _ _ id => [addUint64 Key.id id]

/-- `add_ledger_anchor`. -/
def addLedgerAnchor (key : String) (anchor : Option Wire.LedgerAnchor) : Member :=
  (key, match anchor with
    | none => .null
    | some anchor => .object (addEnumString Key.type anchor.type.toString :: anchorMembers anchor))

/-! ### The detail of a transaction -/

/-- `add_transfer`. -/
def addTransfer (tx : Runtime.CompleteTransaction) : Member :=
  (Key.transfer, .object [
    addHex arnm Key.senderPubkey tx.transfer.senderPubkey,
    addHex arnm Key.recipientPubkey tx.transfer.recipientPubkey,
    addInt64 Key.amount tx.transfer.amount,
    addUuid arnm Key.coinCommunityUuid (some tx.transfer.coinCommunityUuid)])

/-- `add_register_address`. -/
def addRegisterAddress (tx : Runtime.CompleteTransaction) : Member :=
  (Key.registerAddress, .object [
    addHex arnm Key.userPublicKey tx.registerAddress.userPublicKey,
    addHex arnm Key.nameHash tx.registerAddress.nameHash,
    addHex arnm Key.accountPublicKey tx.registerAddress.accountPublicKey])

/-- `add_community_root`. -/
def addCommunityRoot (tx : Runtime.CompleteTransaction) : Member :=
  (Key.communityRoot, .object [
    addHex arnm Key.publicKey tx.communityRoot.publicKey,
    addHex arnm Key.gmwPublicKey tx.communityRoot.gmwPublicKey,
    addHex arnm Key.aufPublicKey tx.communityRoot.aufPublicKey])

/-- `add_transaction_detail`. -/
def addTransactionDetail (tx : Runtime.CompleteTransaction) : Except ArnmResult (List Member) :=
  match tx.transactionType with
  | .transfer => .ok [addTransfer arnm tx]
  | .creation => .ok [addTransfer arnm tx, addInt64 Key.targetDate tx.targetDate]
  | .registerAddress => .ok [
      addRegisterAddress arnm tx,
      addEnumString Key.addressType tx.addressType.toString,
      addUint64 Key.derivationIndex tx.derivationIndex.toUInt64]
  | .deferredTransfer => .ok [addTransfer arnm tx, addInt64 Key.timeoutDuration tx.timeoutDuration]
  | .redeemDeferredTransfer => .ok [addTransfer arnm tx, addUint64 Key.previousTx tx.previousTx]
  | .timeoutDeferredTransfer => .ok [addUint64 Key.previousTx tx.previousTx]
  | .communityRoot => .ok [addCommunityRoot arnm tx]
  | .none | .communityFriendsUpdate | .unknown _ => .error .enumUnhandled

/-! ### The lists -/

def accountBalanceJson (balance : AccountBalance) : Json :=
  .object [
    addHex arnm Key.pubkey balance.pubkey,
    addInt64 Key.balance balance.balance,
    addUuid arnm Key.communityUuid (some balance.communityUuid)]

def encryptedMemoJson (memo : Wire.EncryptedMemo) : Json :=
  .object [addEnumString Key.type memo.type.toString, addBase64 arnm Key.memo memo.memo]

def signaturePairJson (pair : SignaturePair) : Json :=
  .object [addHex arnm Key.publicKey pair.publicKey, addHex arnm Key.signature pair.signature]

/-- `add_arrays`. -/
def addArrays (tx : Runtime.CompleteTransaction) : List Member :=
  [(Key.accountBalances, .array (tx.accountBalances.map (accountBalanceJson arnm))),
    (Key.encryptedMemos, .array (tx.encryptedMemos.map (encryptedMemoJson arnm))),
    (Key.signaturePairs, .array (tx.signaturePairs.map (signaturePairJson arnm)))]

/-! ### The document -/

/-- What is written before the detail. -/
def headMembers (tx : Runtime.CompleteTransaction) : List Member :=
  [addEnumString Key.transactionType tx.transactionType.toString,
    addUint64 Key.txNr tx.txNr,
    addTimestamp Key.confirmedAt tx.confirmedAt,
    addTimestamp Key.createdAt tx.createdAt,
    addUuid arnm Key.txCommunityUuid (some tx.txCommunityUuid),
    addLedgerAnchor Key.ledgerAnchor (some tx.ledgerAnchor)]

/-- What is written after it. -/
def tailMembers (tx : Runtime.CompleteTransaction) : List Member :=
  addHex arnm Key.txRunningHash tx.txRunningHash :: addArrays arnm tx ++
    [addEnumString Key.crossGroupType tx.crossGroupType.toString,
      addUuid arnm Key.txPairingCommunityUuid tx.txPairingCommunityUuid,
      addLedgerAnchor Key.pairingLedgerAnchor tx.pairingLedgerAnchor,
      addBase64 arnm Key.bodyBytes tx.bodyBytes]

/-- `add_complete_transaction`. -/
def addCompleteTransaction (tx : Runtime.CompleteTransaction) : Except ArnmResult Json := do
  let detail ← addTransactionDetail arnm tx
  .ok (.object (headMembers arnm tx ++ detail ++ tailMembers arnm tx))

/-- The text of a document, and whether the writer could give its memory back. -/
structure Written where
  text : Text
  reclaim : Except ArnmResult Unit

/-- `grdm_json_from_complete_transaction`. A text is handed over whether or not the memory of the
writer could be taken back. -/
def jsonFromCompleteTransaction (flags : WriteFlags) (tx : Runtime.CompleteTransaction) :
    Except ArnmResult Written := do
  arnm.writerInit flags
  let document ← addCompleteTransaction arnm tx
  let text ← arnm.write flags document
  .ok ⟨text, arnm.writerRelease flags document⟩

end Mapping

end GradidoBlockchain
