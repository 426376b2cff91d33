import GradidoBlockchain.Lib.Call
import GradidoBlockchain.Wire.Values

/-!
# From messages to values

The functions of `wire_from_pbtools.c`. A message may lack any of its sub-messages; a
function that reads through one that is absent has not refused it. The value a function fills
has just been initialised.
-/

namespace GradidoBlockchain

open Fallible Fallible.Call

namespace Mapping

/-- How a mapping can fail: it is refused with a code, or it has read through a
pointer to no message. -/
inductive Failure
  | refused (code : ArnmResult)
  | readAbsent
  deriving DecidableEq, Repr

/-- A mapping, which may ask for room on its way. -/
abbrev Decode (α : Type) : Type := Call Failure Unit α

/-- What the mappings take from elsewhere: the largest block arnm allocates, and what the union of
an anchor reads as where no id was put into it. -/
structure Host where
  maxAllocSize : Nat
  strayId : Proto.LedgerAnchor → UInt64

def refuse {α : Type} (code : ArnmResult) : Decode α := fail (.refused code)

/-- The check of a pointer. -/
def notNull {α : Type} (pointer : Option α) : Decode α :=
  match pointer with
  | some message => pure message
  | none => refuse .nullPointer

/-- A read through a pointer nobody has checked. -/
def read {α : Type} (pointer : Option α) : Decode α :=
  match pointer with
  | some message => pure message
  | none => fail .readAbsent

def allocate : Decode Unit := ask (.refused .outOfMemory)

/-- Bytes copied into an array of their size. -/
def copy (size : Nat) (bytes : Proto.ByteString) : Decode (Bytes size) :=
  match Bytes.ofList size bytes with
  | some copied => pure copied
  | none => refuse .invalidParam

/-- The items of a list one after the other. -/
def convertAll {α β : Type} (convert : α → Decode β) :
    (items : List α) → Decode { out : List β // out.length = items.length }
  | [] => pure ⟨[], rfl⟩
  | item :: items => do
      let first ← convert item
      let ⟨rest, hrest⟩ ← convertAll convert items
      pure ⟨first :: rest, congrArg Nat.succ hrest⟩

variable (host : Host)

/-! ### Basic values -/

def communityUuidFromPbtools (bytes : Proto.ByteString) : Decode Uuid :=
  if bytes.length = 0 then pure (zeroBytes 16) else copy 16 bytes

def memoryBlockFromPbtools (bytes : Proto.ByteString) : Decode (List UInt8) :=
  if bytes.length = 0 then refuse .invalidParam
  else if host.maxAllocSize < bytes.length then refuse .resourceSizeExceed
  else do
    allocate
    pure bytes

def accountBalanceFromPbtools (pb : Proto.AccountBalance) : Decode AccountBalance := do
  let pubkey ← copy 32 pb.pubkey
  let communityUuid ← communityUuidFromPbtools pb.communityUuid
  pure ⟨pubkey, pb.balance, communityUuid⟩

def encryptedMemoFromPbtools (pb : Proto.EncryptedMemo) : Decode Wire.EncryptedMemo :=
  if 0 < pb.memo.length then do
    let memo ← memoryBlockFromPbtools host pb.memo
    pure ⟨pb.type, memo⟩
  else pure ⟨pb.type, []⟩

def signaturePairFromPbtools (pb : Proto.SignaturePair) : Decode SignaturePair := do
  let publicKey ← copy 32 pb.pubkey
  let signature ← copy 64 pb.signature
  pure ⟨publicKey, signature⟩

def timestampFromPbtools (pb : Option Proto.Timestamp) : Decode Timestamp := do
  let pb ← notNull pb
  pure ⟨pb.seconds, pb.nanos⟩

def timestampSecondsFromPbtools (pb : Option Proto.TimestampSeconds) : Decode Int64 := do
  let pb ← notNull pb
  pure pb.seconds

def transferAmountFromPbtools (pb : Option Proto.TransferAmount) : Decode Wire.TransferAmount := do
  let pb ← notNull pb
  let pubkey ← copy 32 pb.pubkey
  let communityUuid ← communityUuidFromPbtools pb.communityUuid
  pure ⟨pubkey, pb.amount, communityUuid⟩

/-! ### Ledger anchors -/

def hieroAccountIdFromPbtools (pb : Option Proto.AccountId) : Decode Wire.HieroAccountId := do
  let pb ← notNull pb
  match pb.account with
  | .accountNum num => pure ⟨pb.shardNum, pb.realmNum, num⟩
  | _ => refuse .pbUnhandledOneofBranch

def hieroTransactionIdFromPbtools (pb : Option Proto.TransactionId) :
    Decode Wire.HieroTransactionId := do
  let pb ← notNull pb
  if pb.nonce ≠ 0 ∨ pb.scheduled then refuse .pbUnhandledParameter
  else do
    let transactionValidStart ← timestampFromPbtools pb.transactionValidStart
    let accountId ← hieroAccountIdFromPbtools pb.accountId
    pure ⟨transactionValidStart, accountId⟩

/-- How the two members of the union of an anchor are read. -/
structure AnchorUnion where
  hieroTransactionId : Proto.LedgerAnchor → Decode (Option Proto.TransactionId)
  id : Proto.LedgerAnchor → Decode UInt64

/-- The union as one whose member that is set is known: a read of another member is a fault. -/
def AnchorUnion.tagged : AnchorUnion where
  hieroTransactionId pb :=
    match pb.anchorId with
    | .hieroTransactionId message => pure message
    | _ => fail .readAbsent
  id pb :=
    match pb.anchorId with
    | .id id => pure id
    | _ => fail .readAbsent

/-- The integer in the union of an anchor. -/
def readId (pb : Proto.LedgerAnchor) : UInt64 :=
  match pb.anchorId with
  | .id id => id
  | _ => host.strayId pb

/-- The pointer in the union of an anchor. Where another member is set its bits are taken for one:
zero for the null pointer, any other for a pointer to no message. -/
def readHiero (pb : Proto.LedgerAnchor) : Decode (Option Proto.TransactionId) :=
  match pb.anchorId with
  | .hieroTransactionId message => pure message
  | _ => if readId host pb = 0 then pure none else fail .readAbsent

/-- The union as the memory it is. -/
def Host.union : AnchorUnion := ⟨readHiero host, fun pb => pure (readId host pb)⟩

/-- The assert on the member that is set is compiled out. -/
def ledgerAnchorFromPbtools (union : AnchorUnion) (pb : Option Proto.LedgerAnchor) :
    Decode Wire.LedgerAnchor := do
  let pb ← notNull pb
  if h : pb.type = .hieroTransactionId then do
    let message ← union.hieroTransactionId pb
    let id ← hieroTransactionIdFromPbtools message
    pure (.hieroTransactionId id)
  else do
    let id ← union.id pb
    pure (.id pb.type h id)

/-! ### The transactions of a body -/

def communityFriendsUpdateFromPbtools (pb : Option Proto.CommunityFriendsUpdate) : Decode Bool := do
  let pb ← notNull pb
  pure pb.colorFusion

def communityRootFromPbtools (pb : Option Proto.CommunityRoot) : Decode Wire.CommunityRoot := do
  let pb ← notNull pb
  let pubkey ← copy 32 pb.pubkey
  let gmwPubkey ← copy 32 pb.gmwPubkey
  let aufPubkey ← copy 32 pb.aufPubkey
  pure ⟨pubkey, gmwPubkey, aufPubkey⟩

def gradidoCreationFromPbtools (pb : Option Proto.GradidoCreation) :
    Decode Wire.GradidoCreation := do
  let pb ← notNull pb
  let recipient ← transferAmountFromPbtools pb.recipient
  let targetDate ← timestampSecondsFromPbtools pb.targetDate
  pure ⟨recipient, targetDate⟩

def gradidoTransferFromPbtools (pb : Option Proto.GradidoTransfer) :
    Decode Wire.GradidoTransfer := do
  let pb ← notNull pb
  let recipient ← copy 32 pb.recipient
  let sender ← transferAmountFromPbtools pb.sender
  pure ⟨sender, recipient⟩

/-- The timeout is read before anything says that it is there. -/
def gradidoDeferredTransferFromPbtools (pb : Option Proto.GradidoDeferredTransfer) :
    Decode Wire.GradidoDeferredTransfer := do
  let pb ← notNull pb
  let timeoutDuration ← read pb.timeoutDuration
  if uint32Max < timeoutDuration.seconds.toNat then refuse .resourceSizeExceed
  else do
    let transfer ← gradidoTransferFromPbtools pb.transfer
    pure ⟨transfer, timeoutDuration.seconds.toUInt32⟩

def gradidoRedeemDeferredTransferFromPbtools (pb : Option Proto.GradidoRedeemDeferredTransfer) :
    Decode Wire.GradidoRedeemDeferredTransfer := do
  let pb ← notNull pb
  let transfer ← gradidoTransferFromPbtools pb.transfer
  pure ⟨pb.deferredTransferTransactionNr, transfer⟩

def gradidoTimeoutDeferredTransferFromPbtools
    (pb : Option Proto.GradidoTimeoutDeferredTransfer) : Decode UInt64 := do
  let pb ← notNull pb
  pure pb.deferredTransferTransactionNr

def registerAddressFromPbtools (pb : Option Proto.RegisterAddress) :
    Decode Wire.RegisterAddress := do
  let pb ← notNull pb
  let userPubkey ← copy 32 pb.userPubkey
  let nameHash ← copy 32 pb.nameHash
  let accountPubkey ← copy 32 pb.accountPubkey
  pure ⟨userPubkey, pb.addressType, pb.derivationIndex, nameHash, accountPubkey⟩

/-- The switch of `grdm_transaction_body_from_pbtools`. -/
def detailFromPbtools (data : Proto.Data) : Decode Wire.Detail :=
  match data with
  | .none => pure .none
  | .transfer message => .transfer <$> gradidoTransferFromPbtools message
  | .creation message => .creation <$> gradidoCreationFromPbtools message
  | .communityFriendsUpdate message =>
      .communityFriendsUpdate <$> communityFriendsUpdateFromPbtools message
  | .registerAddress message => .registerAddress <$> registerAddressFromPbtools message
  | .deferredTransfer message => .deferredTransfer <$> gradidoDeferredTransferFromPbtools message
  | .communityRoot message => .communityRoot <$> communityRootFromPbtools message
  | .redeemDeferredTransfer message =>
      .redeemDeferredTransfer <$> gradidoRedeemDeferredTransferFromPbtools message
  | .timeoutDeferredTransfer message =>
      .timeoutDeferredTransfer <$> gradidoTimeoutDeferredTransferFromPbtools message
  | .unknown _ => refuse .enumUnknown

/-- A list of the message with the array that is reserved for it, whose counter has eight bits. -/
def fewFromPbtools {α β : Type} (convert : α → Decode β) (items : List α) : Decode (Few β) :=
  if 0 < items.length then
    if h : 255 ≤ items.length then refuse .arrayIndexOutOfBounds
    else do
      allocate
      let ⟨out, hout⟩ ← convertAll convert items
      pure ⟨out, by omega⟩
  else pure .empty

def otherCommunityUuidFromPbtools (bytes : Proto.ByteString) : Decode (Option Uuid) :=
  if bytes.length = 0 then pure none
  else do
    allocate
    some <$> communityUuidFromPbtools bytes

/-- `grdm_transaction_body_from_pbtools`. -/
def transactionBodyFromPbtools (pb : Proto.TransactionBody) : Decode Wire.TransactionBody :=
  if protocolVersion ≠ pb.versionNumber then refuse .pbIncorrectVersion
  else do
    let memos ← fewFromPbtools (encryptedMemoFromPbtools host) pb.memos
    let otherCommunityUuid ← otherCommunityUuidFromPbtools pb.otherCommunityUuid
    let createdAt ← timestampFromPbtools pb.createdAt
    let detail ← detailFromPbtools pb.data
    pure ⟨memos, otherCommunityUuid, createdAt, detail, pb.type⟩

/-! ### Confirmed transactions -/

/-- The signature map may be absent, which is a map without signatures. -/
def sigMapFromPb (sigMap : Option Proto.SignatureMap) : Decode (Few SignaturePair) :=
  match sigMap with
  | some sigMap => fewFromPbtools signaturePairFromPbtools sigMap.sigPair
  | none => pure .empty

def pairingLedgerAnchorFromPb (anchor : Option Proto.LedgerAnchor) : Decode Wire.LedgerAnchor :=
  match anchor with
  | some anchor => ledgerAnchorFromPbtools host.union (some anchor)
  | none => pure .init

/-- `grdm_gradido_transaction_from_pb`. -/
def gradidoTransactionFromPb (pb : Option Proto.GradidoTransaction) :
    Decode Wire.GradidoTransaction := do
  let pb ← notNull pb
  let sigMap ← sigMapFromPb pb.sigMap
  let pairingLedgerAnchor ← pairingLedgerAnchorFromPb host pb.pairingLedgerAnchor
  let bodyBytes ← memoryBlockFromPbtools host pb.bodyBytes
  pure ⟨sigMap, bodyBytes, pairingLedgerAnchor⟩

/-- `grdm_confirmed_transaction_from_pb`. -/
def confirmedTransactionFromPb (pb : Proto.ConfirmedTransaction) :
    Decode Wire.ConfirmedTransaction :=
  if protocolVersion ≠ pb.versionNumber then refuse .pbIncorrectVersion
  else do
    let transaction ← gradidoTransactionFromPb host pb.transaction
    let confirmedAt ← timestampFromPbtools pb.confirmedAt
    let runningHash ← copy 32 pb.runningHash
    let ledgerAnchor ← ledgerAnchorFromPbtools host.union pb.ledgerAnchor
    let accountBalances ← fewFromPbtools accountBalanceFromPbtools pb.accountBalances
    pure ⟨pb.id, transaction, confirmedAt, runningHash, ledgerAnchor, accountBalances⟩

end Mapping

end GradidoBlockchain
