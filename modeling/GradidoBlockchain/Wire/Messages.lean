import GradidoBlockchain.Types

/-!
# The messages of the protocol

The structures that the generated protobuf code fills and reads. A sub-message is a pointer, which
may be absent; the members of a oneof come with the one that is set. An enumeration of a message
keeps the value its counterpart in the headers has, so the two share a type.
-/

namespace GradidoBlockchain

/-! ### Enumerations -/

/-- `grdt_ledger_anchor`; `retired` is 1, which has no name any more, and `unknown` stands for the
values past the named ones. -/
inductive LedgerAnchorType
  | unspecified
  | retired
  | hieroTransactionId
  | legacyGradidoDbTransactionId
  | nodeTriggerTransactionId
  | legacyGradidoDbCommunityId
  | legacyGradidoDbUserId
  | legacyGradidoDbContributionId
  | legacyGradidoDbTransactionLinkId
  | unknown (past : Nat)
  deriving DecidableEq, Repr

/-- `grdt_cross_group`; `unknown` stands for the values past `GRDT_CROSS_GROUP_NONE`. -/
inductive CrossGroup
  | local
  | inbound
  | outbound
  | cross
  | none
  | unknown (past : Nat)
  deriving DecidableEq, Repr

/-- `grdt_memo_key`; `unknown` stands for the values past `GRDT_MEMO_KEY_NONE`. -/
inductive MemoKey
  | sharedSecret
  | communitySecret
  | plain
  | none
  | unknown (past : Nat)
  deriving DecidableEq, Repr

/-- `GRDU_GRADIDO_PROTOCOL_VERSION`, which is 3.8. -/
def protocolVersion : UInt32 := 0x00030008

namespace Proto

/-! ### Basic messages -/

/-- `pbtools_bytes_t`. -/
abbrev ByteString : Type := List UInt8

structure Timestamp where
  seconds : Int64
  nanos : Int32
  deriving DecidableEq

structure TimestampSeconds where
  seconds : Int64
  deriving DecidableEq

structure DurationSeconds where
  seconds : UInt64
  deriving DecidableEq

structure AccountBalance where
  pubkey : ByteString
  balance : Int64
  communityUuid : ByteString
  deriving DecidableEq

structure EncryptedMemo where
  type : MemoKey
  memo : ByteString
  deriving DecidableEq

structure SignaturePair where
  pubkey : ByteString
  signature : ByteString
  deriving DecidableEq

structure SignatureMap where
  sigPair : List SignaturePair
  deriving DecidableEq

structure TransferAmount where
  pubkey : ByteString
  amount : Int64
  communityUuid : ByteString
  deriving DecidableEq

/-! ### Ledger anchors -/

/-- The oneof `account` of an account id. -/
inductive Account
  | none
  | accountNum (num : Int64)
  | alias (bytes : ByteString)
  deriving DecidableEq

structure AccountId where
  shardNum : Int64
  realmNum : Int64
  account : Account
  deriving DecidableEq

structure TransactionId where
  transactionValidStart : Option Timestamp
  accountId : Option AccountId
  scheduled : Bool
  nonce : Int32
  deriving DecidableEq

/-- The oneof `anchor_id` of a ledger anchor. -/
inductive AnchorId
  | none
  | hieroTransactionId (message : Option TransactionId)
  | id (id : UInt64)
  deriving DecidableEq

structure LedgerAnchor where
  type : LedgerAnchorType
  anchorId : AnchorId
  deriving DecidableEq

/-! ### Transactions -/

structure CommunityFriendsUpdate where
  colorFusion : Bool
  deriving DecidableEq

structure CommunityRoot where
  pubkey : ByteString
  gmwPubkey : ByteString
  aufPubkey : ByteString
  deriving DecidableEq

structure GradidoCreation where
  recipient : Option TransferAmount
  targetDate : Option TimestampSeconds
  deriving DecidableEq

structure GradidoTransfer where
  sender : Option TransferAmount
  recipient : ByteString
  deriving DecidableEq

structure GradidoDeferredTransfer where
  transfer : Option GradidoTransfer
  timeoutDuration : Option DurationSeconds
  deriving DecidableEq

structure GradidoRedeemDeferredTransfer where
  deferredTransferTransactionNr : UInt64
  transfer : Option GradidoTransfer
  deriving DecidableEq

structure GradidoTimeoutDeferredTransfer where
  deferredTransferTransactionNr : UInt64
  deriving DecidableEq

structure RegisterAddress where
  userPubkey : ByteString
  addressType : AddressType
  nameHash : ByteString
  accountPubkey : ByteString
  derivationIndex : UInt32
  deriving DecidableEq

/-- The oneof `data` of a body; `unknown` stands for the values of its discriminant
past the named ones. -/
inductive Data
  | none
  | transfer (message : Option GradidoTransfer)
  | creation (message : Option GradidoCreation)
  | communityFriendsUpdate (message : Option CommunityFriendsUpdate)
  | registerAddress (message : Option RegisterAddress)
  | deferredTransfer (message : Option GradidoDeferredTransfer)
  | communityRoot (message : Option CommunityRoot)
  | redeemDeferredTransfer (message : Option GradidoRedeemDeferredTransfer)
  | timeoutDeferredTransfer (message : Option GradidoTimeoutDeferredTransfer)
  | unknown (past : Nat)
  deriving DecidableEq

structure TransactionBody where
  memos : List EncryptedMemo
  createdAt : Option Timestamp
  versionNumber : UInt32
  type : CrossGroup
  otherCommunityUuid : ByteString
  data : Data
  deriving DecidableEq

structure GradidoTransaction where
  sigMap : Option SignatureMap
  bodyBytes : ByteString
  pairingLedgerAnchor : Option LedgerAnchor
  deriving DecidableEq

structure ConfirmedTransaction where
  id : UInt64
  transaction : Option GradidoTransaction
  confirmedAt : Option Timestamp
  versionNumber : UInt32
  runningHash : ByteString
  ledgerAnchor : Option LedgerAnchor
  accountBalances : List AccountBalance
  deriving DecidableEq

/-! ### Messages as they are allocated -/

def TransactionId.init : TransactionId := ⟨.none, .none, false, 0⟩

def LedgerAnchor.init : LedgerAnchor := ⟨.unspecified, .none⟩

def GradidoCreation.init : GradidoCreation := ⟨.none, .none⟩

def GradidoTransfer.init : GradidoTransfer := ⟨.none, []⟩

def GradidoDeferredTransfer.init : GradidoDeferredTransfer := ⟨.none, .none⟩

def GradidoRedeemDeferredTransfer.init : GradidoRedeemDeferredTransfer := ⟨0, .none⟩

def TransactionBody.init : TransactionBody := ⟨[], .none, 0, .local, [], .none⟩

def GradidoTransaction.init : GradidoTransaction := ⟨.none, [], .none⟩

def ConfirmedTransaction.init : ConfirmedTransaction := ⟨0, .none, .none, 0, [], .none, []⟩

end Proto

end GradidoBlockchain
