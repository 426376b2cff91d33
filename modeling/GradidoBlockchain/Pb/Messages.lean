import GradidoBlockchain.Pb.Reader
import GradidoBlockchain.Runtime.Decode

/-!
# The generated decoders

The `decode_inner` of each message of the protocol. A field that comes again replaces what was read
before it, and one that has no place in the message is stepped over.
-/

namespace GradidoBlockchain

/-! ### Enumerations -/

namespace LedgerAnchorType

def ofCode : Nat → LedgerAnchorType
  | 0 => unspecified
  | 1 => retired
  | 2 => hieroTransactionId
  | 3 => legacyGradidoDbTransactionId
  | 4 => nodeTriggerTransactionId
  | 5 => legacyGradidoDbCommunityId
  | 6 => legacyGradidoDbUserId
  | 7 => legacyGradidoDbContributionId
  | 8 => legacyGradidoDbTransactionLinkId
  | past + 9 => unknown past

end LedgerAnchorType

namespace CrossGroup

def ofCode : Nat → CrossGroup
  | 0 => «local»
  | 1 => inbound
  | 2 => outbound
  | 3 => cross
  | 4 => none
  | past + 5 => unknown past

end CrossGroup

namespace MemoKey

def ofCode : Nat → MemoKey
  | 0 => sharedSecret
  | 1 => communitySecret
  | 2 => plain
  | 3 => none
  | past + 4 => unknown past

end MemoKey

namespace AddressType

def ofCode : Nat → AddressType
  | 0 => none
  | 1 => communityHuman
  | 2 => communityGmw
  | 3 => communityAuf
  | 4 => communityProject
  | 5 => subaccount
  | 6 => cryptoAccount
  | 7 => deferredTransfer
  | past + 8 => unknown past

end AddressType

namespace PbTools

/-! ### Basic messages -/

def timestampDecodeInner : List UInt8 → Option Proto.Timestamp :=
  decodeFields (fun field wireType message bytes =>
    match field with
    | 1 => store (decoderReadInt64 wireType bytes) fun seconds => { message with seconds }
    | 2 => store (decoderReadInt32 wireType bytes) fun nanos => { message with nanos }
    | _ => decoderSkipField wireType message bytes) ⟨0, 0⟩

def timestampSecondsDecodeInner : List UInt8 → Option Proto.TimestampSeconds :=
  decodeFields (fun field wireType message bytes =>
    match field with
    | 1 => store (decoderReadInt64 wireType bytes) fun seconds => ⟨seconds⟩
    | _ => decoderSkipField wireType message bytes) ⟨0⟩

def durationSecondsDecodeInner : List UInt8 → Option Proto.DurationSeconds :=
  decodeFields (fun field wireType message bytes =>
    match field with
    | 1 => store (decoderReadUint64 wireType bytes) fun seconds => ⟨seconds⟩
    | _ => decoderSkipField wireType message bytes) ⟨0⟩

def accountBalanceDecodeInner : List UInt8 → Option Proto.AccountBalance :=
  decodeFields (fun field wireType message bytes =>
    match field with
    | 1 => store (decoderReadBytes wireType bytes) fun pubkey => { message with pubkey }
    | 2 => store (decoderReadInt64 wireType bytes) fun balance => { message with balance }
    | 3 =>
        store (decoderReadBytes wireType bytes) fun communityUuid => { message with communityUuid }
    | _ => decoderSkipField wireType message bytes) ⟨[], 0, []⟩

def encryptedMemoDecodeInner : List UInt8 → Option Proto.EncryptedMemo :=
  decodeFields (fun field wireType message bytes =>
    match field with
    | 1 => store (decoderReadEnum MemoKey.ofCode wireType bytes) fun type => { message with type }
    | 2 => store (decoderReadBytes wireType bytes) fun memo => { message with memo }
    | _ => decoderSkipField wireType message bytes) ⟨.sharedSecret, []⟩

def signaturePairDecodeInner : List UInt8 → Option Proto.SignaturePair :=
  decodeFields (fun field wireType message bytes =>
    match field with
    | 1 => store (decoderReadBytes wireType bytes) fun pubkey => { message with pubkey }
    | 2 => store (decoderReadBytes wireType bytes) fun signature => { message with signature }
    | _ => decoderSkipField wireType message bytes) ⟨[], []⟩

def signatureMapDecodeInner (bytes : List UInt8) : Option Proto.SignatureMap := do
  let info ← decodeFields (fun field wireType info bytes =>
    match field with
    | 1 => repeatedInfoDecode info wireType bytes
    | _ => decoderSkipField wireType info bytes) .init bytes
  let sigPair ← decodeRepeatedInner 1 ⟨[], []⟩ signaturePairDecodeInner info
  some ⟨sigPair⟩

def transferAmountDecodeInner : List UInt8 → Option Proto.TransferAmount :=
  decodeFields (fun field wireType message bytes =>
    match field with
    | 1 => store (decoderReadBytes wireType bytes) fun pubkey => { message with pubkey }
    | 2 => store (decoderReadInt64 wireType bytes) fun amount => { message with amount }
    | 3 =>
        store (decoderReadBytes wireType bytes) fun communityUuid => { message with communityUuid }
    | _ => decoderSkipField wireType message bytes) ⟨[], 0, []⟩

/-! ### Ledger anchors -/

def accountIdDecodeInner : List UInt8 → Option Proto.AccountId :=
  decodeFields (fun field wireType message bytes =>
    match field with
    | 1 => store (decoderReadInt64 wireType bytes) fun shardNum => { message with shardNum }
    | 2 => store (decoderReadInt64 wireType bytes) fun realmNum => { message with realmNum }
    | 3 =>
        store (decoderReadInt64 wireType bytes) fun num =>
          { message with account := .accountNum num }
    | 4 =>
        store (decoderReadBytes wireType bytes) fun bytes =>
          { message with account := .alias bytes }
    | _ => decoderSkipField wireType message bytes) ⟨0, 0, .none⟩

def transactionIdDecodeInner : List UInt8 → Option Proto.TransactionId :=
  decodeFields (fun field wireType message bytes =>
    match field with
    | 1 => store (decoderSubMessageDecode timestampDecodeInner wireType bytes) fun start =>
        { message with transactionValidStart := some start }
    | 2 =>
        store (decoderSubMessageDecode accountIdDecodeInner wireType bytes) fun id =>
          { message with accountId := some id }
    | 3 => store (decoderReadBool wireType bytes) fun scheduled => { message with scheduled }
    | 4 => store (decoderReadInt32 wireType bytes) fun nonce => { message with nonce }
    | _ => decoderSkipField wireType message bytes) .init

def ledgerAnchorDecodeInner : List UInt8 → Option Proto.LedgerAnchor :=
  decodeFields (fun field wireType message bytes =>
    match field with
    | 1 =>
        store (decoderReadEnum LedgerAnchorType.ofCode wireType bytes) fun type =>
          { message with type }
    | 3 => store (decoderSubMessageDecode transactionIdDecodeInner wireType bytes) fun id =>
        { message with anchorId := .hieroTransactionId (some id) }
    | 4 => store (decoderReadUint64 wireType bytes) fun id => { message with anchorId := .id id }
    | _ => decoderSkipField wireType message bytes) .init

/-! ### The transactions of a body -/

def communityFriendsUpdateDecodeInner : List UInt8 → Option Proto.CommunityFriendsUpdate :=
  decodeFields (fun field wireType message bytes =>
    match field with
    | 1 => store (decoderReadBool wireType bytes) fun colorFusion => ⟨colorFusion⟩
    | _ => decoderSkipField wireType message bytes) ⟨false⟩

def communityRootDecodeInner : List UInt8 → Option Proto.CommunityRoot :=
  decodeFields (fun field wireType message bytes =>
    match field with
    | 1 => store (decoderReadBytes wireType bytes) fun pubkey => { message with pubkey }
    | 2 => store (decoderReadBytes wireType bytes) fun gmwPubkey => { message with gmwPubkey }
    | 3 => store (decoderReadBytes wireType bytes) fun aufPubkey => { message with aufPubkey }
    | _ => decoderSkipField wireType message bytes) ⟨[], [], []⟩

def gradidoCreationDecodeInner : List UInt8 → Option Proto.GradidoCreation :=
  decodeFields (fun field wireType message bytes =>
    match field with
    | 1 => store (decoderSubMessageDecode transferAmountDecodeInner wireType bytes) fun recipient =>
        { message with recipient := some recipient }
    | 3 =>
        store (decoderSubMessageDecode timestampSecondsDecodeInner wireType bytes) fun targetDate =>
        { message with targetDate := some targetDate }
    | _ => decoderSkipField wireType message bytes) .init

def gradidoTransferDecodeInner : List UInt8 → Option Proto.GradidoTransfer :=
  decodeFields (fun field wireType message bytes =>
    match field with
    | 1 => store (decoderSubMessageDecode transferAmountDecodeInner wireType bytes) fun sender =>
        { message with sender := some sender }
    | 2 => store (decoderReadBytes wireType bytes) fun recipient => { message with recipient }
    | _ => decoderSkipField wireType message bytes) .init

def gradidoDeferredTransferDecodeInner : List UInt8 → Option Proto.GradidoDeferredTransfer :=
  decodeFields (fun field wireType message bytes =>
    match field with
    | 1 => store (decoderSubMessageDecode gradidoTransferDecodeInner wireType bytes) fun transfer =>
        { message with transfer := some transfer }
    | 2 => store (decoderSubMessageDecode durationSecondsDecodeInner wireType bytes) fun duration =>
        { message with timeoutDuration := some duration }
    | _ => decoderSkipField wireType message bytes) .init

def gradidoRedeemDeferredTransferDecodeInner :
    List UInt8 → Option Proto.GradidoRedeemDeferredTransfer :=
  decodeFields (fun field wireType message bytes =>
    match field with
    | 1 =>
        store (decoderReadUint64 wireType bytes) fun nr =>
          { message with deferredTransferTransactionNr := nr }
    | 2 => store (decoderSubMessageDecode gradidoTransferDecodeInner wireType bytes) fun transfer =>
        { message with transfer := some transfer }
    | _ => decoderSkipField wireType message bytes) .init

def gradidoTimeoutDeferredTransferDecodeInner :
    List UInt8 → Option Proto.GradidoTimeoutDeferredTransfer :=
  decodeFields (fun field wireType message bytes =>
    match field with
    | 1 => store (decoderReadUint64 wireType bytes) fun nr => ⟨nr⟩
    | _ => decoderSkipField wireType message bytes) ⟨0⟩

def registerAddressDecodeInner : List UInt8 → Option Proto.RegisterAddress :=
  decodeFields (fun field wireType message bytes =>
    match field with
    | 1 => store (decoderReadBytes wireType bytes) fun userPubkey => { message with userPubkey }
    | 2 =>
        store (decoderReadEnum AddressType.ofCode wireType bytes) fun addressType =>
          { message with addressType }
    | 3 => store (decoderReadBytes wireType bytes) fun nameHash => { message with nameHash }
    | 4 =>
        store (decoderReadBytes wireType bytes) fun accountPubkey => { message with accountPubkey }
    | 5 =>
        store (decoderReadUint32 wireType bytes) fun derivationIndex =>
          { message with derivationIndex }
    | _ => decoderSkipField wireType message bytes) ⟨[], .none, [], [], 0⟩

/-- One of the transactions a body can carry. -/
def dataDecode {α : Type} (decodeInner : List UInt8 → Option α) (data : Option α → Proto.Data)
    (wireType : Nat) (message : Proto.TransactionBody) (bytes : List UInt8) :
    Option (Proto.TransactionBody × List UInt8) :=
  store (decoderSubMessageDecode decodeInner wireType bytes) fun inner =>
    { message with data := data (some inner) }

def transactionBodyDecodeInner (bytes : List UInt8) : Option Proto.TransactionBody := do
  let (message, info) ← decodeFields (fun field wireType (message, info) bytes =>
    let put (read : Option (Proto.TransactionBody × List UInt8)) :=
      store read fun message => (message, info)
    match field with
    | 1 => store (repeatedInfoDecode info wireType bytes) fun info => (message, info)
    | 2 => put (store (decoderSubMessageDecode timestampDecodeInner wireType bytes) fun createdAt =>
        { message with createdAt := some createdAt })
    | 3 =>
        put (store (decoderReadUint32 wireType bytes) fun versionNumber =>
          { message with versionNumber })
    | 4 =>
        put (store (decoderReadEnum CrossGroup.ofCode wireType bytes) fun type =>
          { message with type })
    | 5 =>
        put (store (decoderReadBytes wireType bytes) fun otherCommunityUuid =>
          { message with otherCommunityUuid })
    | 6 => put (dataDecode gradidoTransferDecodeInner .transfer wireType message bytes)
    | 7 => put (dataDecode gradidoCreationDecodeInner .creation wireType message bytes)
    | 8 =>
        put (dataDecode communityFriendsUpdateDecodeInner .communityFriendsUpdate wireType message
          bytes)
    | 9 => put (dataDecode registerAddressDecodeInner .registerAddress wireType message bytes)
    | 10 =>
        put (dataDecode gradidoDeferredTransferDecodeInner .deferredTransfer wireType message bytes)
    | 11 => put (dataDecode communityRootDecodeInner .communityRoot wireType message bytes)
    | 12 =>
        put (dataDecode gradidoRedeemDeferredTransferDecodeInner .redeemDeferredTransfer wireType
          message bytes)
    | 13 =>
        put (dataDecode gradidoTimeoutDeferredTransferDecodeInner .timeoutDeferredTransfer wireType
          message bytes)
    | _ => decoderSkipField wireType (message, info) bytes) (.init, .init) bytes
  let memos ← decodeRepeatedInner 1 ⟨.sharedSecret, []⟩ encryptedMemoDecodeInner info
  some { message with memos }

/-! ### Confirmed transactions -/

def gradidoTransactionDecodeInner : List UInt8 → Option Proto.GradidoTransaction :=
  decodeFields (fun field wireType message bytes =>
    match field with
    | 1 => store (decoderSubMessageDecode signatureMapDecodeInner wireType bytes) fun sigMap =>
        { message with sigMap := some sigMap }
    | 2 => store (decoderReadBytes wireType bytes) fun bodyBytes => { message with bodyBytes }
    | 3 => store (decoderSubMessageDecode ledgerAnchorDecodeInner wireType bytes) fun anchor =>
        { message with pairingLedgerAnchor := some anchor }
    | _ => decoderSkipField wireType message bytes) .init

/-- A field of a confirmed transaction, with the account balances that have been counted. -/
def confirmedTransactionField (field wireType : Nat)
    (state : Proto.ConfirmedTransaction × RepeatedInfo) (bytes : List UInt8) :
    Option ((Proto.ConfirmedTransaction × RepeatedInfo) × List UInt8) :=
  let (message, info) := state
  match field with
  | 1 => store (decoderReadUint64 wireType bytes) fun id => ({ message with id }, info)
  | 2 =>
      store (decoderSubMessageDecode gradidoTransactionDecodeInner wireType bytes)
        fun transaction =>
      ({ message with transaction := some transaction }, info)
  | 3 => store (decoderSubMessageDecode timestampDecodeInner wireType bytes) fun confirmedAt =>
      ({ message with confirmedAt := some confirmedAt }, info)
  | 4 =>
      store (decoderReadUint32 wireType bytes) fun versionNumber =>
        ({ message with versionNumber }, info)
  | 5 =>
      store (decoderReadBytes wireType bytes) fun runningHash =>
        ({ message with runningHash }, info)
  | 6 => store (decoderSubMessageDecode ledgerAnchorDecodeInner wireType bytes) fun anchor =>
      ({ message with ledgerAnchor := some anchor }, info)
  | 7 => store (repeatedInfoDecode info wireType bytes) fun info => (message, info)
  | _ => decoderSkipField wireType (message, info) bytes

def confirmedTransactionDecodeInner (bytes : List UInt8) : Option Proto.ConfirmedTransaction := do
  let (message, info) ← decodeFields confirmedTransactionField (.init, .init) bytes
  let accountBalances ← decodeRepeatedInner 7 ⟨[], 0, []⟩ accountBalanceDecodeInner info
  some { message with accountBalances }

/-- The decode of a whole message and the check of `grdw_pb_decode_finish`. The size is an
`int` for pbtools. -/
def parse {α : Type} (decodeInner : List UInt8 → Option α)
    (bytes : List UInt8) : Except ArnmResult α :=
  if intMax < bytes.length then .error .decodeFailed
  else
    match decodeInner bytes with
    | some message => .ok message
    | none => .error .decodeFailed

/-- The codec that the repository has. -/
def codec : Mapping.Codec :=
  ⟨parse confirmedTransactionDecodeInner, parse transactionBodyDecodeInner⟩

/-- The bytes of a confirmed transaction that says no more than its number, a short body and a
running hash of one byte again and again. -/
def shortBytes (number body : List UInt8) (hash : UInt8) : List UInt8 :=
  8 :: number ++ [18, UInt8.ofNat (body.length + 2), 18, UInt8.ofNat body.length] ++ body ++
    [26, 0, 32, 136, 128, 12, 42, 32] ++ List.replicate 32 hash ++ [50, 0]

/-- The bytes of a body that says no more than its version and the transaction of the given
tag, all of it zero. -/
def emptyBody (tag : UInt8) : List UInt8 := [18, 0, 24, 136, 128, 12, tag, 0]

/-- A timeout of a deferred transfer, confirmed under the given number with the given running hash. -/
def timeoutBytes (number hash : UInt8) : List UInt8 := shortBytes [number] (emptyBody 106) hash

end PbTools

end GradidoBlockchain
