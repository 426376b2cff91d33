import GradidoBlockchain.Wire.Messages

/-!
# The values of the wire

What a message says once it has been checked: keys and hashes of the right size, lists whose length
fits their counter, and of a union the member its type names.
-/

namespace GradidoBlockchain

/-- A list with a counter of eight bits. -/
structure Few (α : Type) where
  items : List α
  few : items.length < 2 ^ 8
  deriving DecidableEq

def Few.empty {α : Type} : Few α := ⟨[], Nat.two_pow_pos 8⟩

theorem Few.ext {α : Type} {left right : Few α}
    (hitems : left.items = right.items) : left = right := by
  cases left
  cases right
  cases hitems
  rfl

/-- Bytes that have the size of a fixed array, as one. -/
def Bytes.ofList (size : Nat) (bytes : List UInt8) : Option (Bytes size) :=
  if h : bytes.length = size then some ⟨bytes.toArray, h⟩ else none

theorem Bytes.ofList_toList {size : Nat} (bytes : Bytes size) :
    Bytes.ofList size bytes.toList = some bytes := by
  rw [Bytes.ofList, dif_pos bytes.length_toList]
  congr 1

namespace Wire

/-! ### Ledger anchors -/

/-- `grdw_hiero_account_id`. -/
structure HieroAccountId where
  shardNum : Int64
  realmNum : Int64
  accountNum : Int64
  deriving DecidableEq

/-- `grdw_hiero_transaction_id`. -/
structure HieroTransactionId where
  transactionValidStart : Timestamp
  accountId : HieroAccountId
  deriving DecidableEq

/-- `grdw_ledger_anchor`: its type, and of its union the member the type names. -/
inductive LedgerAnchor
  | hieroTransactionId (id : HieroTransactionId)
  | id (type : LedgerAnchorType) (other : type ≠ .hieroTransactionId) (id : UInt64)
  deriving DecidableEq

namespace LedgerAnchor

/-- All zero. -/
def init : LedgerAnchor := .id .unspecified (by decide) 0

def type : LedgerAnchor → LedgerAnchorType
  | .hieroTransactionId _ => .hieroTransactionId
  | .id type _ _ => type

end LedgerAnchor

/-! ### Transactions -/

/-- `grdw_encrypted_memo`. -/
structure EncryptedMemo where
  type : MemoKey
  memo : List UInt8
  deriving DecidableEq

/-- `grdw_transfer_amount`. -/
structure TransferAmount where
  pubkey : PublicKey
  amount : Int64
  communityUuid : Uuid
  deriving DecidableEq

/-- `grdw_community_root`. -/
structure CommunityRoot where
  pubkey : PublicKey
  gmwPubkey : PublicKey
  aufPubkey : PublicKey
  deriving DecidableEq

/-- `grdw_gradido_creation`. -/
structure GradidoCreation where
  recipient : TransferAmount
  targetDate : Int64
  deriving DecidableEq

/-- `grdw_gradido_transfer`. -/
structure GradidoTransfer where
  sender : TransferAmount
  recipient : PublicKey
  deriving DecidableEq

/-- `grdw_gradido_deferred_transfer`. -/
structure GradidoDeferredTransfer where
  transfer : GradidoTransfer
  timeoutDuration : UInt32
  deriving DecidableEq

/-- `grdw_gradido_redeem_deferred_transfer`. -/
structure GradidoRedeemDeferredTransfer where
  deferredTransferTransactionNr : UInt64
  transfer : GradidoTransfer
  deriving DecidableEq

/-- `grdw_register_address`. -/
structure RegisterAddress where
  userPubkey : PublicKey
  addressType : AddressType
  derivationIndex : UInt32
  nameHash : Bytes 32
  accountPubkey : PublicKey
  deriving DecidableEq

/-- `transaction_type` of a body and the member of its union that it names. -/
inductive Detail
  | none
  | creation (creation : GradidoCreation)
  | transfer (transfer : GradidoTransfer)
  | communityFriendsUpdate (colorFusion : Bool)
  | registerAddress (address : RegisterAddress)
  | deferredTransfer (transfer : GradidoDeferredTransfer)
  | communityRoot (root : CommunityRoot)
  | redeemDeferredTransfer (redeem : GradidoRedeemDeferredTransfer)
  | timeoutDeferredTransfer (deferredTransferTransactionNr : UInt64)
  | unknown (past : Nat)
  deriving DecidableEq

/-- `grdw_transaction_body`. -/
structure TransactionBody where
  memos : Few EncryptedMemo
  otherCommunityUuid : Option Uuid
  createdAt : Timestamp
  detail : Detail
  type : CrossGroup
  deriving DecidableEq

/-- `grdw_gradido_transaction`. -/
structure GradidoTransaction where
  sigMap : Few SignaturePair
  bodyBytes : List UInt8
  pairingLedgerAnchor : LedgerAnchor
  deriving DecidableEq

/-- `grdw_confirmed_transaction`. -/
structure ConfirmedTransaction where
  id : UInt64
  transaction : GradidoTransaction
  confirmedAt : Timestamp
  runningHash : Bytes 32
  ledgerAnchor : LedgerAnchor
  accountBalances : Few AccountBalance
  deriving DecidableEq

end Wire

end GradidoBlockchain
