import GradidoBlockchain.Pb.Encoder
import GradidoBlockchain.Pb.Messages

/-!
# The generated encoders

The `encode_inner` of each message of the protocol. The last field is written first, and the members
of a oneof after all the others.
-/

namespace GradidoBlockchain

/-! ### Enumerations -/

namespace LedgerAnchorType

def code : LedgerAnchorType → Nat
  | unspecified => 0
  | retired => 1
  | hieroTransactionId => 2
  | legacyGradidoDbTransactionId => 3
  | nodeTriggerTransactionId => 4
  | legacyGradidoDbCommunityId => 5
  | legacyGradidoDbUserId => 6
  | legacyGradidoDbContributionId => 7
  | legacyGradidoDbTransactionLinkId => 8
  | unknown past => past + 9

theorem ofCode_code (type : LedgerAnchorType) : ofCode type.code = type := by cases type <;> rfl

theorem code_ofCode (code : Nat) : (ofCode code).code = code := by
  unfold ofCode
  split <;> rfl

end LedgerAnchorType

namespace CrossGroup

def code : CrossGroup → Nat
  | «local» => 0
  | inbound => 1
  | outbound => 2
  | cross => 3
  | none => 4
  | unknown past => past + 5

theorem ofCode_code (type : CrossGroup) : ofCode type.code = type := by cases type <;> rfl

theorem code_ofCode (code : Nat) : (ofCode code).code = code := by
  unfold ofCode
  split <;> rfl

end CrossGroup

namespace MemoKey

def code : MemoKey → Nat
  | sharedSecret => 0
  | communitySecret => 1
  | plain => 2
  | none => 3
  | unknown past => past + 4

theorem ofCode_code (type : MemoKey) : ofCode type.code = type := by cases type <;> rfl

theorem code_ofCode (code : Nat) : (ofCode code).code = code := by
  unfold ofCode
  split <;> rfl

end MemoKey

namespace AddressType

theorem ofCode_code (type : AddressType) : ofCode type.code = type := by
  cases type with
  | unknown past => rw [code, Nat.add_comm, ofCode]
  | _ => rfl

theorem code_ofCode (code : Nat) : (ofCode code).code = code := by
  unfold ofCode
  split
  case h_9 past => exact Nat.add_comm _ _
  all_goals rfl

end AddressType

namespace PbTools

/-! ### Basic messages -/

def timestampEncodeInner (message : Proto.Timestamp) : Writer :=
  encoderWriteInt32 2 message.nanos >=> encoderWriteInt64 1 message.seconds

def timestampSecondsEncodeInner (message : Proto.TimestampSeconds) : Writer :=
  encoderWriteInt64 1 message.seconds

def durationSecondsEncodeInner (message : Proto.DurationSeconds) : Writer :=
  encoderWriteUint64 1 message.seconds

def accountBalanceEncodeInner (message : Proto.AccountBalance) : Writer :=
  encoderWriteBytes 3 message.communityUuid >=> encoderWriteInt64 2 message.balance >=>
    encoderWriteBytes 1 message.pubkey

def encryptedMemoEncodeInner (message : Proto.EncryptedMemo) : Writer :=
  encoderWriteBytes 2 message.memo >=> encoderWriteEnum 1 message.type.code

def signaturePairEncodeInner (message : Proto.SignaturePair) : Writer :=
  encoderWriteBytes 2 message.signature >=> encoderWriteBytes 1 message.pubkey

def signatureMapEncodeInner (message : Proto.SignatureMap) : Writer :=
  encodeRepeatedInner signaturePairEncodeInner 1 message.sigPair

def transferAmountEncodeInner (message : Proto.TransferAmount) : Writer :=
  encoderWriteBytes 3 message.communityUuid >=> encoderWriteInt64 2 message.amount >=>
    encoderWriteBytes 1 message.pubkey

/-! ### Ledger anchors -/

def accountIdEncodeInner (message : Proto.AccountId) : Writer :=
  encoderWriteInt64 2 message.realmNum >=> encoderWriteInt64 1 message.shardNum >=>
    match message.account with
    | .accountNum num => encoderWriteInt64Always 3 num
    | .alias bytes => encoderWriteBytesAlways 4 bytes
    | .none => pure

def transactionIdEncodeInner (message : Proto.TransactionId) : Writer :=
  encoderWriteInt32 4 message.nonce >=> encoderWriteBool 3 message.scheduled >=>
    encoderSubMessageEncode accountIdEncodeInner 2 message.accountId >=>
    encoderSubMessageEncode timestampEncodeInner 1 message.transactionValidStart

def ledgerAnchorEncodeInner (message : Proto.LedgerAnchor) : Writer :=
  encoderWriteEnum 1 message.type.code >=>
    match message.anchorId with
    | .hieroTransactionId id => encoderSubMessageEncodeAlways transactionIdEncodeInner 3 id
    | .id id => encoderWriteUint64Always 4 id
    | .none => pure

/-! ### The transactions of a body -/

def communityFriendsUpdateEncodeInner (message : Proto.CommunityFriendsUpdate) : Writer :=
  encoderWriteBool 1 message.colorFusion

def communityRootEncodeInner (message : Proto.CommunityRoot) : Writer :=
  encoderWriteBytes 3 message.aufPubkey >=> encoderWriteBytes 2 message.gmwPubkey >=>
    encoderWriteBytes 1 message.pubkey

def gradidoCreationEncodeInner (message : Proto.GradidoCreation) : Writer :=
  encoderSubMessageEncode timestampSecondsEncodeInner 3 message.targetDate >=>
    encoderSubMessageEncode transferAmountEncodeInner 1 message.recipient

def gradidoTransferEncodeInner (message : Proto.GradidoTransfer) : Writer :=
  encoderWriteBytes 2 message.recipient >=> encoderSubMessageEncode transferAmountEncodeInner 1
    message.sender

def gradidoDeferredTransferEncodeInner (message : Proto.GradidoDeferredTransfer) : Writer :=
  encoderSubMessageEncode durationSecondsEncodeInner 2 message.timeoutDuration >=>
    encoderSubMessageEncode gradidoTransferEncodeInner 1 message.transfer

def gradidoRedeemDeferredTransferEncodeInner
    (message : Proto.GradidoRedeemDeferredTransfer) : Writer :=
  encoderSubMessageEncode gradidoTransferEncodeInner 2 message.transfer >=>
    encoderWriteUint64 1 message.deferredTransferTransactionNr

def gradidoTimeoutDeferredTransferEncodeInner
    (message : Proto.GradidoTimeoutDeferredTransfer) : Writer :=
  encoderWriteUint64 1 message.deferredTransferTransactionNr

def registerAddressEncodeInner (message : Proto.RegisterAddress) : Writer :=
  encoderWriteUint32 5 message.derivationIndex >=> encoderWriteBytes 4 message.accountPubkey >=>
    encoderWriteBytes 3 message.nameHash >=> encoderWriteEnum 2 message.addressType.code >=>
    encoderWriteBytes 1 message.userPubkey

/-- The switch over the data of a body; a discriminant that has no name writes nothing. -/
def dataEncode : Proto.Data → Writer
  | .transfer message => encoderSubMessageEncodeAlways gradidoTransferEncodeInner 6 message
  | .creation message => encoderSubMessageEncodeAlways gradidoCreationEncodeInner 7 message
  | .communityFriendsUpdate message =>
      encoderSubMessageEncodeAlways communityFriendsUpdateEncodeInner 8 message
  | .registerAddress message => encoderSubMessageEncodeAlways registerAddressEncodeInner 9 message
  | .deferredTransfer message =>
      encoderSubMessageEncodeAlways gradidoDeferredTransferEncodeInner 10 message
  | .communityRoot message => encoderSubMessageEncodeAlways communityRootEncodeInner 11 message
  | .redeemDeferredTransfer message =>
      encoderSubMessageEncodeAlways gradidoRedeemDeferredTransferEncodeInner 12 message
  | .timeoutDeferredTransfer message =>
      encoderSubMessageEncodeAlways gradidoTimeoutDeferredTransferEncodeInner 13 message
  | .none => pure
  | .unknown _ => pure

def transactionBodyEncodeInner (message : Proto.TransactionBody) : Writer :=
  encoderWriteBytes 5 message.otherCommunityUuid >=> encoderWriteEnum 4 message.type.code >=>
    encoderWriteUint32 3 message.versionNumber >=> encoderSubMessageEncode timestampEncodeInner 2
      message.createdAt >=>
    encodeRepeatedInner encryptedMemoEncodeInner 1 message.memos >=> dataEncode message.data

/-! ### Confirmed transactions -/

def gradidoTransactionEncodeInner (message : Proto.GradidoTransaction) : Writer :=
  encoderSubMessageEncode ledgerAnchorEncodeInner 3 message.pairingLedgerAnchor >=>
    encoderWriteBytes 2 message.bodyBytes >=>
    encoderSubMessageEncode signatureMapEncodeInner 1 message.sigMap

def confirmedTransactionEncodeInner (message : Proto.ConfirmedTransaction) : Writer :=
  encodeRepeatedInner accountBalanceEncodeInner 7 message.accountBalances >=>
    encoderSubMessageEncode ledgerAnchorEncodeInner 6 message.ledgerAnchor >=> encoderWriteBytes 5
      message.runningHash >=>
    encoderWriteUint32 4 message.versionNumber >=> encoderSubMessageEncode timestampEncodeInner 3
      message.confirmedAt >=>
    encoderSubMessageEncode gradidoTransactionEncodeInner 2 message.transaction >=>
      encoderWriteUint64 1 message.id

def confirmedTransactionEncode :
    Proto.ConfirmedTransaction → Nat → Option (Except Int (List UInt8)) :=
  messageEncode confirmedTransactionEncodeInner

def transactionBodyEncode : Proto.TransactionBody → Nat → Option (Except Int (List UInt8)) :=
  messageEncode transactionBodyEncodeInner

def gradidoTransactionEncode : Proto.GradidoTransaction → Nat → Option (Except Int (List UInt8)) :=
  messageEncode gradidoTransactionEncodeInner

end PbTools

end GradidoBlockchain
