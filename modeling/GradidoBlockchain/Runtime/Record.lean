import GradidoBlockchain.Lib.Owned
import GradidoBlockchain.Wire.Values

/-!
# The record of a transaction

What a program works with once a confirmed transaction and its body have been decoded: one record,
whose arrays lie in an arena of its own. The record travels, its arena stays where it is, and
whoever has the record gives the arena back.
-/

namespace GradidoBlockchain

open Ownership

namespace Runtime

/-- Who opens an arena: a store that decodes a transaction, or the caller who hands one over. -/
inductive Opener
  | store
  | caller
  deriving DecidableEq, Repr

abbrev Arena : Type := Handle Opener

/-- The arenas of the host. -/
abbrev Arenas : Type := Supply Opener

/-- The `transfer` member of the detail union. -/
structure Transfer where
  senderPubkey : PublicKey
  recipientPubkey : PublicKey
  amount : Int64
  coinCommunityUuid : Uuid
  deriving DecidableEq

/-- The `register_address` member of the detail union. -/
structure RegisterAddress where
  userPublicKey : PublicKey
  nameHash : Bytes 32
  accountPublicKey : PublicKey
  deriving DecidableEq

/-- `grdr_complete_transaction`, whole. The members of its unions stand side by side: every reader
looks at the member that `transactionType` names. -/
structure CompleteTransaction where
  txNr : UInt64
  confirmedAt : Timestamp
  createdAt : Timestamp
  txCommunityUuid : Uuid
  ledgerAnchor : Wire.LedgerAnchor
  transfer : Transfer
  registerAddress : RegisterAddress
  communityRoot : CommunityRootKeys
  targetDate : Int64
  timeoutDuration : Int64
  previousTx : UInt64
  addressType : AddressType
  derivationIndex : UInt32
  transactionType : TransactionType
  txRunningHash : Bytes 32
  accountBalances : List AccountBalance
  encryptedMemos : List Wire.EncryptedMemo
  signaturePairs : List SignaturePair
  crossGroupType : CrossGroup
  txPairingCommunityUuid : Option Uuid
  pairingLedgerAnchor : Option Wire.LedgerAnchor
  bodyBytes : List UInt8
  memoryArea : Option Arena
  deriving DecidableEq

namespace CompleteTransaction

/-- `grdr_complete_transaction_init`: everything zero, and no arena. -/
def init : CompleteTransaction where
  txNr := 0
  confirmedAt := ⟨0, 0⟩
  createdAt := ⟨0, 0⟩
  txCommunityUuid := zeroBytes 16
  ledgerAnchor := .init
  transfer := ⟨zeroBytes 32, zeroBytes 32, 0, zeroBytes 16⟩
  registerAddress := ⟨zeroBytes 32, zeroBytes 32, zeroBytes 32⟩
  communityRoot := ⟨zeroBytes 32, zeroBytes 32, zeroBytes 32⟩
  targetDate := 0
  timeoutDuration := 0
  previousTx := 0
  addressType := .none
  derivationIndex := 0
  transactionType := .none
  txRunningHash := zeroBytes 32
  accountBalances := []
  encryptedMemos := []
  signaturePairs := []
  crossGroupType := .local
  txPairingCommunityUuid := none
  pairingLedgerAnchor := none
  bodyBytes := []
  memoryArea := none

end CompleteTransaction

/-- A record and the arenas of the host, which its own is one of. -/
abbrev Owned : Type := CompleteTransaction × Arenas

/-- `grdr_complete_transaction_release`. -/
def release (owned : Owned) : Owned := (.init, owned.2.release owned.1.memoryArea)

end Runtime

end GradidoBlockchain
