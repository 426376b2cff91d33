import Mathlib.Algebra.Ring.Int.Defs
import Mathlib.Algebra.Ring.Nat
import Mathlib.Data.List.Basic
import Mathlib.Tactic.Common

/-!
# The data of a transaction

The record a confirmed transaction is read from, with the members that the indices of a chain look
at. Enumerations have one constructor for each value the headers name and one for the values past
them, which an integer of that type can hold as well.
-/

namespace GradidoBlockchain

/-- The error codes of `arnm_result` and of `grd_pb_result`; success is the `ok` of `Except`. -/
inductive ArnmResult
  | arithmeticOverflow
  | arrayIndexOutOfBounds
  | decodeFailed
  | destinationBufferToSmall
  | encodeFailed
  | enumUnhandled
  | enumUnknown
  | invalidEnumType
  | invalidParam
  | invalidState
  | nullPointer
  | outOfMemory
  | resourceSizeExceed
  | pbUnhandledOneofBranch
  | pbUnhandledParameter
  | pbIncorrectVersion
  deriving DecidableEq, Repr

def uint32Max : Nat := 2 ^ 32 - 1

/-! ### Bytes -/

abbrev Bytes (size : Nat) : Type := Vector UInt8 size

/-- `SIGN_PUBLIC_KEY_SIZE` bytes. -/
abbrev PublicKey : Type := Bytes 32

/-- `ARNM_UUID_BINARY_SIZE` bytes. -/
abbrev Uuid : Type := Bytes 16

def zeroBytes (size : Nat) : Bytes size := Vector.replicate size 0

/-- `grdc_is_empty`, and `all_zero` of the filter: a run of bytes compared with zeros. -/
def isEmpty {size : Nat} (bytes : Bytes size) : Bool := bytes == zeroBytes size

theorem isEmpty_iff {size : Nat} {bytes : Bytes size} :
    isEmpty bytes = true ↔ bytes = zeroBytes size := by
  rw [isEmpty, beq_iff_eq]

theorem isEmpty_eq_false_iff {size : Nat} {bytes : Bytes size} :
    isEmpty bytes = false ↔ bytes ≠ zeroBytes size := by
  rw [← Bool.not_eq_true, isEmpty_iff]

/-! ### Enumerations -/

/-- `grdt_transaction`; `unknown` stands for the values from `GRDT_TRANSACTION_COUNT` on. -/
inductive TransactionType
  | none
  | creation
  | transfer
  | communityFriendsUpdate
  | registerAddress
  | deferredTransfer
  | communityRoot
  | redeemDeferredTransfer
  | timeoutDeferredTransfer
  | unknown (past : Nat)
  deriving DecidableEq, Repr

namespace TransactionType

/-- `GRDT_TRANSACTION_COUNT`. -/
def count : Nat := 9

def code : TransactionType → Nat
  | none => 0
  | creation => 1
  | transfer => 2
  | communityFriendsUpdate => 3
  | registerAddress => 4
  | deferredTransfer => 5
  | communityRoot => 6
  | redeemDeferredTransfer => 7
  | timeoutDeferredTransfer => 8
  | unknown past => count + past

theorem code_injective : Function.Injective code := by
  intro left right hcode
  cases left <;> cases right <;> simp only [code, count] at hcode <;> first | rfl | omega | skip
  rw [Nat.add_left_cancel hcode]

end TransactionType

/-- `grdt_address`; `unknown` stands for the values after `GRDT_ADDRESS_DEFERRED_TRANSFER`. -/
inductive AddressType
  | none
  | communityHuman
  | communityGmw
  | communityAuf
  | communityProject
  | subaccount
  | cryptoAccount
  | deferredTransfer
  | unknown (past : Nat)
  deriving DecidableEq, Repr

namespace AddressType

def code : AddressType → Nat
  | none => 0
  | communityHuman => 1
  | communityGmw => 2
  | communityAuf => 3
  | communityProject => 4
  | subaccount => 5
  | cryptoAccount => 6
  | deferredTransfer => 7
  | unknown past => 8 + past

/-- The check `type <= GRDT_ADDRESS_DEFERRED_TRANSFER`. -/
def known (type : AddressType) : Bool := type.code ≤ deferredTransfer.code

end AddressType

/-! ### The record -/

/-- `grdd_timestamp`. -/
structure Timestamp where
  seconds : Int64
  nanos : Int32
  deriving DecidableEq

/-- `grdw_account_balance`. -/
structure AccountBalance where
  pubkey : PublicKey
  balance : Int64
  communityUuid : Uuid
  deriving DecidableEq

/-- `grdw_signature_pair`. -/
structure SignaturePair where
  publicKey : PublicKey
  signature : Bytes 64
  deriving DecidableEq

/-- The `transfer` member of the detail union, its two keys. -/
structure TransferKeys where
  senderPubkey : PublicKey
  recipientPubkey : PublicKey
  deriving DecidableEq

/-- The `register_address` member of the detail union, its two keys. -/
structure RegisterAddressKeys where
  userPublicKey : PublicKey
  accountPublicKey : PublicKey
  deriving DecidableEq

/-- The `community_root` member of the detail union. -/
structure CommunityRootKeys where
  publicKey : PublicKey
  gmwPublicKey : PublicKey
  aufPublicKey : PublicKey
  deriving DecidableEq

/-- `grdr_complete_transaction`. The members of its unions stand side by side: every reader looks at
the member that `transactionType` names. -/
structure CompleteTransaction where
  txNr : UInt64
  confirmedAt : Timestamp
  txCommunityUuid : Uuid
  transfer : TransferKeys
  registerAddress : RegisterAddressKeys
  communityRoot : CommunityRootKeys
  addressType : AddressType
  transactionType : TransactionType
  accountBalances : List AccountBalance
  signaturePairs : List SignaturePair
  deriving DecidableEq

namespace CompleteTransaction

/-- `grdr_complete_transaction_init`: everything zero. -/
def init : CompleteTransaction where
  txNr := 0
  confirmedAt := ⟨0, 0⟩
  txCommunityUuid := zeroBytes 16
  transfer := ⟨zeroBytes 32, zeroBytes 32⟩
  registerAddress := ⟨zeroBytes 32, zeroBytes 32⟩
  communityRoot := ⟨zeroBytes 32, zeroBytes 32, zeroBytes 32⟩
  addressType := .none
  transactionType := .none
  accountBalances := []
  signaturePairs := []

/-- The transaction number as a number. -/
def nr (tx : CompleteTransaction) : Nat := tx.txNr.toNat

theorem nr_lt (tx : CompleteTransaction) : tx.nr < 2 ^ 64 := tx.txNr.toNat_lt

end CompleteTransaction

end GradidoBlockchain
