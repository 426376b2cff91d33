import GradidoBlockchain.Pb.Encoded
import GradidoBlockchain.Pb.Writing

/-!
# What the encoders write

The bytes of each message, field by field in the order in which they come. The encoder writes just
these bytes, for a message that has the members its oneofs announce, and it does so when they leave
a byte of the buffer free.
-/

namespace GradidoBlockchain

open WireFormat

namespace Proto

/-! ### The bytes of messages -/

/-- An enumeration is written as an integer of 32 bits with its sign. -/
def enumField (number code : Nat) : List UInt8 :=
  varintUnlessZero number (UInt32.ofNat code).toInt32.toInt64.toUInt64.toNat

def int32Field (number : Nat) (value : Int32) : List UInt8 :=
  varintUnlessZero number value.toInt64.toUInt64.toNat

def int64Field (number : Nat) (value : Int64) : List UInt8 :=
  varintUnlessZero number value.toUInt64.toNat

def Timestamp.bytes (pb : Timestamp) : List UInt8 :=
  int64Field 1 pb.seconds ++ int32Field 2 pb.nanos

def TimestampSeconds.bytes (pb : TimestampSeconds) : List UInt8 := int64Field 1 pb.seconds

def DurationSeconds.bytes (pb : DurationSeconds) : List UInt8 := varintUnlessZero 1 pb.seconds.toNat

def AccountBalance.bytes (pb : AccountBalance) : List UInt8 :=
  bytesUnlessEmpty 1 pb.pubkey ++ int64Field 2 pb.balance ++ bytesUnlessEmpty 3 pb.communityUuid

def EncryptedMemo.bytes (pb : EncryptedMemo) : List UInt8 :=
  enumField 1 pb.type.code ++ bytesUnlessEmpty 2 pb.memo

def SignaturePair.bytes (pb : SignaturePair) : List UInt8 :=
  bytesUnlessEmpty 1 pb.pubkey ++ bytesUnlessEmpty 2 pb.signature

def SignatureMap.bytes (pb : SignatureMap) : List UInt8 :=
  messageFields 1 SignaturePair.bytes pb.sigPair

def TransferAmount.bytes (pb : TransferAmount) : List UInt8 :=
  bytesUnlessEmpty 1 pb.pubkey ++ int64Field 2 pb.amount ++ bytesUnlessEmpty 3 pb.communityUuid

def Account.bytes : Account → List UInt8
  | .none => []
  | .accountNum num => varintField 3 num.toUInt64.toNat
  | .alias bytes => bytesField 4 bytes

def AccountId.bytes (pb : AccountId) : List UInt8 :=
  pb.account.bytes ++ int64Field 1 pb.shardNum ++ int64Field 2 pb.realmNum

def TransactionId.bytes (pb : TransactionId) : List UInt8 :=
  messageField 1 Timestamp.bytes pb.transactionValidStart ++
    messageField 2 AccountId.bytes pb.accountId ++ varintUnlessZero 3 pb.scheduled.toNat ++
    int32Field 4 pb.nonce

def AnchorId.bytes : AnchorId → List UInt8
  | .none => []
  | .hieroTransactionId message => messageField 3 TransactionId.bytes message
  | .id num => varintField 4 num.toNat

def LedgerAnchor.bytes (pb : LedgerAnchor) : List UInt8 :=
  pb.anchorId.bytes ++ enumField 1 pb.type.code

def CommunityFriendsUpdate.bytes (pb : CommunityFriendsUpdate) : List UInt8 :=
  varintUnlessZero 1 pb.colorFusion.toNat

def CommunityRoot.bytes (pb : CommunityRoot) : List UInt8 :=
  bytesUnlessEmpty 1 pb.pubkey ++ bytesUnlessEmpty 2 pb.gmwPubkey ++ bytesUnlessEmpty 3 pb.aufPubkey

def GradidoCreation.bytes (pb : GradidoCreation) : List UInt8 :=
  messageField 1 TransferAmount.bytes pb.recipient ++
    messageField 3 TimestampSeconds.bytes pb.targetDate

def GradidoTransfer.bytes (pb : GradidoTransfer) : List UInt8 :=
  messageField 1 TransferAmount.bytes pb.sender ++ bytesUnlessEmpty 2 pb.recipient

def GradidoDeferredTransfer.bytes (pb : GradidoDeferredTransfer) : List UInt8 :=
  messageField 1 GradidoTransfer.bytes pb.transfer ++
    messageField 2 DurationSeconds.bytes pb.timeoutDuration

def GradidoRedeemDeferredTransfer.bytes (pb : GradidoRedeemDeferredTransfer) : List UInt8 :=
  varintUnlessZero 1 pb.deferredTransferTransactionNr.toNat ++
    messageField 2 GradidoTransfer.bytes pb.transfer

def GradidoTimeoutDeferredTransfer.bytes (pb : GradidoTimeoutDeferredTransfer) : List UInt8 :=
  varintUnlessZero 1 pb.deferredTransferTransactionNr.toNat

def RegisterAddress.bytes (pb : RegisterAddress) : List UInt8 :=
  bytesUnlessEmpty 1 pb.userPubkey ++ enumField 2 pb.addressType.code ++
    bytesUnlessEmpty 3 pb.nameHash ++ bytesUnlessEmpty 4 pb.accountPubkey ++
    varintUnlessZero 5 pb.derivationIndex.toNat

def Data.bytes : Data → List UInt8
  | .none => []
  | .transfer message => messageField 6 GradidoTransfer.bytes message
  | .creation message => messageField 7 GradidoCreation.bytes message
  | .communityFriendsUpdate message => messageField 8 CommunityFriendsUpdate.bytes message
  | .registerAddress message => messageField 9 RegisterAddress.bytes message
  | .deferredTransfer message => messageField 10 GradidoDeferredTransfer.bytes message
  | .communityRoot message => messageField 11 CommunityRoot.bytes message
  | .redeemDeferredTransfer message => messageField 12 GradidoRedeemDeferredTransfer.bytes message
  | .timeoutDeferredTransfer message => messageField 13 GradidoTimeoutDeferredTransfer.bytes message
  | .unknown _ => []

def TransactionBody.bytes (pb : TransactionBody) : List UInt8 :=
  pb.data.bytes ++ messageFields 1 EncryptedMemo.bytes pb.memos ++
    messageField 2 Timestamp.bytes pb.createdAt ++ varintUnlessZero 3 pb.versionNumber.toNat ++
    enumField 4 pb.type.code ++ bytesUnlessEmpty 5 pb.otherCommunityUuid

def GradidoTransaction.bytes (pb : GradidoTransaction) : List UInt8 :=
  messageField 1 SignatureMap.bytes pb.sigMap ++ bytesUnlessEmpty 2 pb.bodyBytes ++
    messageField 3 LedgerAnchor.bytes pb.pairingLedgerAnchor

def ConfirmedTransaction.bytes (pb : ConfirmedTransaction) : List UInt8 :=
  varintUnlessZero 1 pb.id.toNat ++ messageField 2 GradidoTransaction.bytes pb.transaction ++
    messageField 3 Timestamp.bytes pb.confirmedAt ++ varintUnlessZero 4 pb.versionNumber.toNat ++
    bytesUnlessEmpty 5 pb.runningHash ++ messageField 6 LedgerAnchor.bytes pb.ledgerAnchor ++
    messageFields 7 AccountBalance.bytes pb.accountBalances

/-! ### Messages that can be written -/

/-- A byte string whose length is an `int`. -/
def Counted (bytes : ByteString) : Prop := bytes.length ≤ PbTools.intMax

def AccountBalance.Writable (pb : AccountBalance) : Prop :=
  Counted pb.pubkey ∧ Counted pb.communityUuid

def SignaturePair.Writable (pb : SignaturePair) : Prop := Counted pb.pubkey ∧ Counted pb.signature

def SignatureMap.Writable (pb : SignatureMap) : Prop := ∀ pair ∈ pb.sigPair, pair.Writable

def TransferAmount.Writable (pb : TransferAmount) : Prop :=
  Counted pb.pubkey ∧ Counted pb.communityUuid

def AccountId.Writable (pb : AccountId) : Prop := ∀ bytes, pb.account = .alias bytes → Counted bytes

def TransactionId.Writable (pb : TransactionId) : Prop := ∀ account ∈ pb.accountId, account.Writable

/-- The member that is set is there. -/
def LedgerAnchor.Writable (pb : LedgerAnchor) : Prop :=
  ∀ message, pb.anchorId = .hieroTransactionId message → ∃ id ∈ message, id.Writable

def CommunityRoot.Writable (pb : CommunityRoot) : Prop :=
  Counted pb.pubkey ∧ Counted pb.gmwPubkey ∧ Counted pb.aufPubkey

def GradidoCreation.Writable (pb : GradidoCreation) : Prop :=
  ∀ recipient ∈ pb.recipient, recipient.Writable

def GradidoTransfer.Writable (pb : GradidoTransfer) : Prop :=
  (∀ sender ∈ pb.sender, sender.Writable) ∧ Counted pb.recipient

def GradidoDeferredTransfer.Writable (pb : GradidoDeferredTransfer) : Prop :=
  ∀ transfer ∈ pb.transfer, transfer.Writable

def GradidoRedeemDeferredTransfer.Writable (pb : GradidoRedeemDeferredTransfer) : Prop :=
  ∀ transfer ∈ pb.transfer, transfer.Writable

def RegisterAddress.Writable (pb : RegisterAddress) : Prop :=
  Counted pb.userPubkey ∧ Counted pb.nameHash ∧ Counted pb.accountPubkey

/-- The transaction that is announced is there. -/
def Data.Writable : Data → Prop
  | .none => True
  | .transfer message => ∃ transfer ∈ message, transfer.Writable
  | .creation message => ∃ creation ∈ message, creation.Writable
  | .communityFriendsUpdate message => ∃ update, update ∈ message
  | .registerAddress message => ∃ address ∈ message, address.Writable
  | .deferredTransfer message => ∃ deferred ∈ message, deferred.Writable
  | .communityRoot message => ∃ root ∈ message, root.Writable
  | .redeemDeferredTransfer message => ∃ redeem ∈ message, redeem.Writable
  | .timeoutDeferredTransfer message => ∃ timeout, timeout ∈ message
  | .unknown _ => True

def TransactionBody.Writable (pb : TransactionBody) : Prop :=
  pb.data.Writable ∧ (∀ memo ∈ pb.memos, Counted memo.memo) ∧ Counted pb.otherCommunityUuid

def GradidoTransaction.Writable (pb : GradidoTransaction) : Prop :=
  (∀ map ∈ pb.sigMap, map.Writable) ∧ Counted pb.bodyBytes ∧
    ∀ anchor ∈ pb.pairingLedgerAnchor, anchor.Writable

def ConfirmedTransaction.Writable (pb : ConfirmedTransaction) : Prop :=
  (∀ transaction ∈ pb.transaction, transaction.Writable) ∧ Counted pb.runningHash ∧
    (∀ anchor ∈ pb.ledgerAnchor, anchor.Writable) ∧ ∀ balance ∈ pb.accountBalances, balance.Writable

end Proto

namespace PbTools

open Proto (int32Field int64Field enumField)

namespace Writes

variable {number : Nat}

/-! ### Basic messages -/

theorem int32 (hnumber : number < 2 ^ 29) (value : Int32) :
    Writes (encoderWriteInt32 number value) True (int32Field number value) :=
  varintField hnumber _

theorem int64 (hnumber : number < 2 ^ 29) (value : Int64) :
    Writes (encoderWriteInt64 number value) True (int64Field number value) :=
  varintField hnumber _

theorem enum (hnumber : number < 2 ^ 29) (code : Nat) :
    Writes (encoderWriteEnum number code) True (enumField number code) :=
  varintField hnumber _

theorem timestamp (pb : Proto.Timestamp) : Writes (timestampEncodeInner pb) True pb.bytes :=
  ((int32 (by decide) pb.nanos).andThen (int64 (by decide) pb.seconds)).congr and_self_iff

theorem timestampSeconds (pb : Proto.TimestampSeconds) :
    Writes (timestampSecondsEncodeInner pb) True pb.bytes :=
  int64 (by decide) _

theorem durationSeconds (pb : Proto.DurationSeconds) :
    Writes (durationSecondsEncodeInner pb) True pb.bytes :=
  varintField (by decide) _

theorem accountBalance (pb : Proto.AccountBalance) :
    Writes (accountBalanceEncodeInner pb) pb.Writable pb.bytes := by
  refine ((bytesField (by decide) _).andThen
    ((int64 (by decide) _).andThen (bytesField (by decide) _))).congr ?_
  rw [true_and, and_comm]
  exact Iff.rfl

theorem encryptedMemo (pb : Proto.EncryptedMemo) :
    Writes (encryptedMemoEncodeInner pb) (Proto.Counted pb.memo) pb.bytes :=
  ((bytesField (by decide) _).andThen (enum (by decide) _)).congr (and_iff_left trivial)

theorem signaturePair (pb : Proto.SignaturePair) :
    Writes (signaturePairEncodeInner pb) pb.Writable pb.bytes :=
  ((bytesField (by decide) _).andThen (bytesField (by decide) _)).congr and_comm

theorem signatureMap (pb : Proto.SignatureMap) :
    Writes (signatureMapEncodeInner pb) pb.Writable pb.bytes :=
  repeated signaturePair (by decide) pb.sigPair

theorem transferAmount (pb : Proto.TransferAmount) :
    Writes (transferAmountEncodeInner pb) pb.Writable pb.bytes := by
  refine ((bytesField (by decide) _).andThen
    ((int64 (by decide) _).andThen (bytesField (by decide) _))).congr ?_
  rw [true_and, and_comm]
  exact Iff.rfl

/-! ### Ledger anchors -/

theorem accountId (pb : Proto.AccountId) :
    Writes (accountIdEncodeInner pb) pb.Writable pb.bytes := by
  obtain ⟨shardNum, realmNum, account⟩ := pb
  cases account with
  | none =>
      refine ((int64 (by decide) realmNum).andThen
        ((int64 (by decide) shardNum).andThen skip)).congr ?_
      simp [Proto.AccountId.Writable]
  | accountNum num =>
      refine ((int64 (by decide) realmNum).andThen
        ((int64 (by decide) shardNum).andThen (varintFieldAlways (by decide) _))).congr ?_
      simp [Proto.AccountId.Writable]
  | «alias» bytes =>
      refine ((int64 (by decide) realmNum).andThen
        ((int64 (by decide) shardNum).andThen (bytesFieldAlways (by decide) bytes))).congr ?_
      simp [Proto.AccountId.Writable, Proto.Counted]

theorem transactionId (pb : Proto.TransactionId) :
    Writes (transactionIdEncodeInner pb) pb.Writable pb.bytes := by
  refine ((int32 (by decide) _).andThen ((boolField (by decide) _).andThen
    ((subMessage accountId (by decide) _).andThen (subMessage timestamp (by decide) _)))).congr ?_
  simp [Proto.TransactionId.Writable]

theorem ledgerAnchor (pb : Proto.LedgerAnchor) :
    Writes (ledgerAnchorEncodeInner pb) pb.Writable pb.bytes := by
  obtain ⟨type, anchorId⟩ := pb
  cases anchorId with
  | none =>
      refine ((enum (by decide) type.code).andThen skip).congr ?_
      simp [Proto.LedgerAnchor.Writable]
  | hieroTransactionId message =>
      refine ((enum (by decide) type.code).andThen
        (subMessageAlways transactionId (by decide) message)).congr ?_
      simp [Proto.LedgerAnchor.Writable]
  | id num =>
      refine ((enum (by decide) type.code).andThen (varintFieldAlways (by decide) num)).congr ?_
      simp [Proto.LedgerAnchor.Writable]

/-! ### The transactions of a body -/

theorem communityFriendsUpdate (pb : Proto.CommunityFriendsUpdate) :
    Writes (communityFriendsUpdateEncodeInner pb) True pb.bytes :=
  boolField (by decide) _

theorem communityRoot (pb : Proto.CommunityRoot) :
    Writes (communityRootEncodeInner pb) pb.Writable pb.bytes := by
  refine ((bytesField (by decide) _).andThen
    ((bytesField (by decide) _).andThen (bytesField (by decide) _))).congr ?_
  rw [← and_assoc, and_comm, and_comm (a := pb.aufPubkey.length ≤ intMax)]
  exact Iff.rfl

theorem gradidoCreation (pb : Proto.GradidoCreation) :
    Writes (gradidoCreationEncodeInner pb) pb.Writable pb.bytes := by
  refine ((subMessage timestampSeconds (by decide) _).andThen
    (subMessage transferAmount (by decide) _)).congr ?_
  simp [Proto.GradidoCreation.Writable]

theorem gradidoTransfer (pb : Proto.GradidoTransfer) :
    Writes (gradidoTransferEncodeInner pb) pb.Writable pb.bytes :=
  ((bytesField (by decide) _).andThen (subMessage transferAmount (by decide) _)).congr and_comm

theorem gradidoDeferredTransfer (pb : Proto.GradidoDeferredTransfer) :
    Writes (gradidoDeferredTransferEncodeInner pb) pb.Writable pb.bytes := by
  refine ((subMessage durationSeconds (by decide) _).andThen
    (subMessage gradidoTransfer (by decide) _)).congr ?_
  simp [Proto.GradidoDeferredTransfer.Writable]

theorem gradidoRedeemDeferredTransfer (pb : Proto.GradidoRedeemDeferredTransfer) :
    Writes (gradidoRedeemDeferredTransferEncodeInner pb) pb.Writable pb.bytes :=
  ((subMessage gradidoTransfer (by decide) _).andThen (varintField (by decide) _)).congr
    (and_iff_left trivial)

theorem gradidoTimeoutDeferredTransfer (pb : Proto.GradidoTimeoutDeferredTransfer) :
    Writes (gradidoTimeoutDeferredTransferEncodeInner pb) True pb.bytes := varintField (by decide) _

theorem registerAddress (pb : Proto.RegisterAddress) :
    Writes (registerAddressEncodeInner pb) pb.Writable pb.bytes := by
  refine ((uint32Field (by decide) _).andThen
    ((bytesField (by decide) _).andThen
      ((bytesField (by decide) _).andThen
        ((enum (by decide) _).andThen (bytesField (by decide) _))))).congr ?_
  rw [true_and, true_and, ← and_assoc, and_comm, and_comm (a := pb.accountPubkey.length ≤ intMax)]
  exact Iff.rfl

theorem data (data : Proto.Data) : Writes (dataEncode data) data.Writable data.bytes := by
  cases data with
  | none => exact skip
  | transfer message => exact subMessageAlways gradidoTransfer (by decide) message
  | creation message => exact subMessageAlways gradidoCreation (by decide) message
  | communityFriendsUpdate message =>
      exact (subMessageAlways communityFriendsUpdate (by decide) message).congr
        (by simp [Proto.Data.Writable])
  | registerAddress message => exact subMessageAlways registerAddress (by decide) message
  | deferredTransfer message => exact subMessageAlways gradidoDeferredTransfer (by decide) message
  | communityRoot message => exact subMessageAlways communityRoot (by decide) message
  | redeemDeferredTransfer message =>
      exact subMessageAlways gradidoRedeemDeferredTransfer (by decide) message
  | timeoutDeferredTransfer message =>
      exact (subMessageAlways gradidoTimeoutDeferredTransfer (by decide) message).congr
        (by simp [Proto.Data.Writable])
  | unknown past => exact skip

theorem transactionBody (pb : Proto.TransactionBody) :
    Writes (transactionBodyEncodeInner pb) pb.Writable pb.bytes := by
  refine ((bytesField (by decide) _).andThen
    ((enum (by decide) _).andThen
      ((uint32Field (by decide) _).andThen
        ((subMessage timestamp (by decide) _).andThen
          ((repeated encryptedMemo (by decide) _).andThen (data _)))))).congr ?_
  simp only [Proto.TransactionBody.Writable, Proto.Counted, implies_true, true_and]
  tauto

/-! ### Confirmed transactions -/

theorem gradidoTransaction (pb : Proto.GradidoTransaction) :
    Writes (gradidoTransactionEncodeInner pb) pb.Writable pb.bytes := by
  refine ((subMessage ledgerAnchor (by decide) _).andThen ((bytesField (by decide) _).andThen
    (subMessage signatureMap (by decide) _))).congr ?_
  rw [← and_assoc, and_comm, and_comm (b := pb.bodyBytes.length ≤ intMax)]
  exact Iff.rfl

theorem confirmedTransaction (pb : Proto.ConfirmedTransaction) :
    Writes (confirmedTransactionEncodeInner pb) pb.Writable pb.bytes := by
  refine ((repeated accountBalance (by decide) _).andThen
    ((subMessage ledgerAnchor (by decide) _).andThen
      ((bytesField (by decide) _).andThen
        ((uint32Field (by decide) _).andThen
          ((subMessage timestamp (by decide) _).andThen
            ((subMessage gradidoTransaction (by decide) _).andThen
              (varintField (by decide) _))))))).congr ?_
  simp only [Proto.ConfirmedTransaction.Writable, Proto.Counted, implies_true, true_and, and_true]
  tauto

end Writes

/-! ### Whole messages -/

end PbTools

end GradidoBlockchain
