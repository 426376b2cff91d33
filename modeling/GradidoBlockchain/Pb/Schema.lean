import GradidoBlockchain.Pb.OnePass
import GradidoBlockchain.Pb.ReadBack

/-!
# The messages of the protocol

Every message has its fields: values, and messages in their turn. Each decoder reads a field as it
is declared, and steps over any other.
-/

namespace GradidoBlockchain

open WireFormat

namespace PbTools

/-! ### The messages -/

inductive Kind where
  | timestamp
  | timestampSeconds
  | durationSeconds
  | accountBalance
  | encryptedMemo
  | signaturePair
  | signatureMap
  | transferAmount
  | accountId
  | transactionId
  | ledgerAnchor
  | communityFriendsUpdate
  | communityRoot
  | gradidoCreation
  | gradidoTransfer
  | gradidoDeferredTransfer
  | gradidoRedeemDeferredTransfer
  | gradidoTimeoutDeferredTransfer
  | registerAddress
  | transactionBody
  | gradidoTransaction
  | confirmedTransaction
  deriving DecidableEq, Repr

namespace Kind

def Value : Kind → Type
  | timestamp => Proto.Timestamp
  | timestampSeconds => Proto.TimestampSeconds
  | durationSeconds => Proto.DurationSeconds
  | accountBalance => Proto.AccountBalance
  | encryptedMemo => Proto.EncryptedMemo
  | signaturePair => Proto.SignaturePair
  | signatureMap => Proto.SignatureMap
  | transferAmount => Proto.TransferAmount
  | accountId => Proto.AccountId
  | transactionId => Proto.TransactionId
  | ledgerAnchor => Proto.LedgerAnchor
  | communityFriendsUpdate => Proto.CommunityFriendsUpdate
  | communityRoot => Proto.CommunityRoot
  | gradidoCreation => Proto.GradidoCreation
  | gradidoTransfer => Proto.GradidoTransfer
  | gradidoDeferredTransfer => Proto.GradidoDeferredTransfer
  | gradidoRedeemDeferredTransfer => Proto.GradidoRedeemDeferredTransfer
  | gradidoTimeoutDeferredTransfer => Proto.GradidoTimeoutDeferredTransfer
  | registerAddress => Proto.RegisterAddress
  | transactionBody => Proto.TransactionBody
  | gradidoTransaction => Proto.GradidoTransaction
  | confirmedTransaction => Proto.ConfirmedTransaction

def decode : (kind : Kind) → List UInt8 → Option kind.Value
  | timestamp => timestampDecodeInner
  | timestampSeconds => timestampSecondsDecodeInner
  | durationSeconds => durationSecondsDecodeInner
  | accountBalance => accountBalanceDecodeInner
  | encryptedMemo => encryptedMemoDecodeInner
  | signaturePair => signaturePairDecodeInner
  | signatureMap => signatureMapDecodeInner
  | transferAmount => transferAmountDecodeInner
  | accountId => accountIdDecodeInner
  | transactionId => transactionIdDecodeInner
  | ledgerAnchor => ledgerAnchorDecodeInner
  | communityFriendsUpdate => communityFriendsUpdateDecodeInner
  | communityRoot => communityRootDecodeInner
  | gradidoCreation => gradidoCreationDecodeInner
  | gradidoTransfer => gradidoTransferDecodeInner
  | gradidoDeferredTransfer => gradidoDeferredTransferDecodeInner
  | gradidoRedeemDeferredTransfer => gradidoRedeemDeferredTransferDecodeInner
  | gradidoTimeoutDeferredTransfer => gradidoTimeoutDeferredTransferDecodeInner
  | registerAddress => registerAddressDecodeInner
  | transactionBody => transactionBodyDecodeInner
  | gradidoTransaction => gradidoTransactionDecodeInner
  | confirmedTransaction => confirmedTransactionDecodeInner

end Kind

/-- What a field holds. -/
inductive Entry where
  | value
  | message (kind : Kind)
  deriving DecidableEq, Repr

/-- The fields of a message by their numbers. -/
def Kind.entry : Kind → Nat → Option Entry
  | timestamp, number =>
      match number with
      | 1 | 2 => some .value
      | _ => none
  | timestampSeconds, number =>
      match number with
      | 1 => some .value
      | _ => none
  | durationSeconds, number =>
      match number with
      | 1 => some .value
      | _ => none
  | accountBalance, number =>
      match number with
      | 1 | 2 | 3 => some .value
      | _ => none
  | encryptedMemo, number =>
      match number with
      | 1 | 2 => some .value
      | _ => none
  | signaturePair, number =>
      match number with
      | 1 | 2 => some .value
      | _ => none
  | signatureMap, number =>
      match number with
      | 1 => some (.message signaturePair)
      | _ => none
  | transferAmount, number =>
      match number with
      | 1 | 2 | 3 => some .value
      | _ => none
  | accountId, number =>
      match number with
      | 1 | 2 | 3 | 4 => some .value
      | _ => none
  | transactionId, number =>
      match number with
      | 1 => some (.message timestamp)
      | 2 => some (.message accountId)
      | 3 | 4 => some .value
      | _ => none
  | ledgerAnchor, number =>
      match number with
      | 1 | 4 => some .value
      | 3 => some (.message transactionId)
      | _ => none
  | communityFriendsUpdate, number =>
      match number with
      | 1 => some .value
      | _ => none
  | communityRoot, number =>
      match number with
      | 1 | 2 | 3 => some .value
      | _ => none
  | gradidoCreation, number =>
      match number with
      | 1 => some (.message transferAmount)
      | 3 => some (.message timestampSeconds)
      | _ => none
  | gradidoTransfer, number =>
      match number with
      | 1 => some (.message transferAmount)
      | 2 => some .value
      | _ => none
  | gradidoDeferredTransfer, number =>
      match number with
      | 1 => some (.message gradidoTransfer)
      | 2 => some (.message durationSeconds)
      | _ => none
  | gradidoRedeemDeferredTransfer, number =>
      match number with
      | 1 => some .value
      | 2 => some (.message gradidoTransfer)
      | _ => none
  | gradidoTimeoutDeferredTransfer, number =>
      match number with
      | 1 => some .value
      | _ => none
  | registerAddress, number =>
      match number with
      | 1 | 2 | 3 | 4 | 5 => some .value
      | _ => none
  | transactionBody, number =>
      match number with
      | 1 => some (.message encryptedMemo)
      | 2 => some (.message timestamp)
      | 3 | 4 | 5 => some .value
      | 6 => some (.message gradidoTransfer)
      | 7 => some (.message gradidoCreation)
      | 8 => some (.message communityFriendsUpdate)
      | 9 => some (.message registerAddress)
      | 10 => some (.message gradidoDeferredTransfer)
      | 11 => some (.message communityRoot)
      | 12 => some (.message gradidoRedeemDeferredTransfer)
      | 13 => some (.message gradidoTimeoutDeferredTransfer)
      | _ => none
  | gradidoTransaction, number =>
      match number with
      | 1 => some (.message signatureMap)
      | 2 => some .value
      | 3 => some (.message ledgerAnchor)
      | _ => none
  | confirmedTransaction, number =>
      match number with
      | 1 | 4 | 5 => some .value
      | 2 => some (.message gradidoTransaction)
      | 3 => some (.message timestamp)
      | 6 => some (.message ledgerAnchor)
      | 7 => some (.message accountBalance)
      | _ => none

/-! ### Decoders that keep to them -/

/-- A field is read as it is declared. -/
def ReadAs {σ : Type} (wireType : Nat) (message : σ)
    (read : List UInt8 → Option (σ × List UInt8)) : Option Entry → Prop
  | none => read = decoderSkipField wireType message
  | some .value => Measured wireType read
  | some (.message kind) =>
      ∃ put : kind.Value → σ,
        read = fun bytes => store (decoderSubMessageDecode kind.decode wireType bytes) put

/-- Every field of the message is read as it is declared. -/
def KeepsTo {σ : Type} (kind : Kind)
    (field : Nat → Nat → σ → List UInt8 → Option (σ × List UInt8)) : Prop :=
  ∀ number wireType message,
    ReadAs wireType message (field number wireType message) (kind.entry number)

/-- The decoder goes over the message once, field by field as they are declared, and makes its value
of what it has read. -/
def Kind.Regular (kind : Kind) : Prop :=
  ∃ (σ : Type) (field : Nat → Nat → σ → List UInt8 → Option (σ × List UInt8)) (init : σ) (view : σ → kind.Value),
    KeepsTo kind field ∧
      ∀ bytes, bytes.length ≤ intMax → kind.decode bytes = (decodeFields field init bytes).map view

theorem KeepsTo.regular {kind : Kind}
    {field : Nat → Nat → kind.Value → List UInt8 → Option (kind.Value × List UInt8)}
    {init : kind.Value} (hkeeps : KeepsTo kind field)
    (hdecode : kind.decode = decodeFields field init) : kind.Regular :=
  ⟨_, _, _, id, hkeeps, fun bytes _ => by rw [hdecode, Option.map_id_apply]⟩

theorem ReadAs.measured {σ : Type} {wireType : Nat} {message : σ}
    {read : List UInt8 → Option (σ × List UInt8)} {entry : Option Entry}
    (hread : ReadAs wireType message read entry) : Measured wireType read := by
  cases entry with
  | none =>
      cases hread
      exact .skip message
  | some entry =>
      cases entry with
      | value => exact hread
      | message kind =>
          obtain ⟨put, rfl⟩ := hread
          exact Measured.subMessage.store put

theorem KeepsTo.measured {σ : Type} {kind : Kind}
    {field : Nat → Nat → σ → List UInt8 → Option (σ × List UInt8)}
    (hkeeps : KeepsTo kind field) : MeasuredFields field :=
  fun number wireType message => (hkeeps number wireType message).measured

theorem measured_of_others {σ : Type} {kind : Kind}
    {field : Nat → Nat → σ → List UInt8 → Option (σ × List UInt8)} {tag : Nat}
    (hothers : ∀ number ≠ tag, ∀ wireType message,
      ReadAs wireType message (field number wireType message) (kind.entry number))
    (htag : ∀ wireType message,
      Measured wireType (field tag wireType message)) : MeasuredFields field := by
  intro number wireType message
  by_cases hne : number = tag
  · rw [hne]
    exact htag wireType message
  · exact (hothers number hne wireType message).measured

section Messages

theorem Measured.int64 {wireType : Nat} : Measured wireType (decoderReadInt64 wireType) :=
  uint64.store _

theorem Measured.uint32 {wireType : Nat} : Measured wireType (decoderReadUint32 wireType) :=
  uint64.store _

theorem Measured.int32 {wireType : Nat} : Measured wireType (decoderReadInt32 wireType) :=
  uint32.store _

theorem Measured.bool {wireType : Nat} : Measured wireType (decoderReadBool wireType) :=
  int32.store _

theorem Measured.enum {α : Type} {ofCode : Nat → α} {wireType : Nat} :
    Measured wireType (decoderReadEnum ofCode wireType) :=
  uint32.store _

theorem timestamp_regular : Kind.timestamp.Regular := by
  refine KeepsTo.regular (fun number wireType message => ?_) rfl
  match number with
  | 1 => exact Measured.int64.store _
  | 2 => exact Measured.int32.store _
  | 0 | _ + 3 => rfl

theorem timestampSeconds_regular : Kind.timestampSeconds.Regular := by
  refine KeepsTo.regular (fun number wireType message => ?_) rfl
  match number with
  | 1 => exact Measured.int64.store _
  | 0 | _ + 2 => rfl

theorem durationSeconds_regular : Kind.durationSeconds.Regular := by
  refine KeepsTo.regular (fun number wireType message => ?_) rfl
  match number with
  | 1 => exact Measured.uint64.store _
  | 0 | _ + 2 => rfl

theorem accountBalance_regular : Kind.accountBalance.Regular := by
  refine KeepsTo.regular (fun number wireType message => ?_) rfl
  match number with
  | 1 | 3 => exact Measured.bytes.store _
  | 2 => exact Measured.int64.store _
  | 0 | _ + 4 => rfl

theorem encryptedMemo_regular : Kind.encryptedMemo.Regular := by
  refine KeepsTo.regular (fun number wireType message => ?_) rfl
  match number with
  | 1 => exact Measured.enum.store _
  | 2 => exact Measured.bytes.store _
  | 0 | _ + 3 => rfl

theorem signaturePair_regular : Kind.signaturePair.Regular := by
  refine KeepsTo.regular (fun number wireType message => ?_) rfl
  match number with
  | 1 | 2 => exact Measured.bytes.store _
  | 0 | _ + 3 => rfl

theorem transferAmount_regular : Kind.transferAmount.Regular := by
  refine KeepsTo.regular (fun number wireType message => ?_) rfl
  match number with
  | 1 | 3 => exact Measured.bytes.store _
  | 2 => exact Measured.int64.store _
  | 0 | _ + 4 => rfl

theorem accountId_regular : Kind.accountId.Regular := by
  refine KeepsTo.regular (fun number wireType message => ?_) rfl
  match number with
  | 1 | 2 | 3 => exact Measured.int64.store _
  | 4 => exact Measured.bytes.store _
  | 0 | _ + 5 => rfl

theorem transactionId_regular : Kind.transactionId.Regular := by
  refine KeepsTo.regular (fun number wireType message => ?_) rfl
  match number with
  | 1 | 2 => exact ⟨_, rfl⟩
  | 3 => exact Measured.bool.store _
  | 4 => exact Measured.int32.store _
  | 0 | _ + 5 => rfl

theorem ledgerAnchor_regular : Kind.ledgerAnchor.Regular := by
  refine KeepsTo.regular (fun number wireType message => ?_) rfl
  match number with
  | 1 => exact Measured.enum.store _
  | 3 => exact ⟨_, rfl⟩
  | 4 => exact Measured.uint64.store _
  | 0 | 2 | _ + 5 => rfl

theorem communityFriendsUpdate_regular : Kind.communityFriendsUpdate.Regular := by
  refine KeepsTo.regular (fun number wireType message => ?_) rfl
  match number with
  | 1 => exact Measured.bool.store _
  | 0 | _ + 2 => rfl

theorem communityRoot_regular : Kind.communityRoot.Regular := by
  refine KeepsTo.regular (fun number wireType message => ?_) rfl
  match number with
  | 1 | 2 | 3 => exact Measured.bytes.store _
  | 0 | _ + 4 => rfl

theorem gradidoCreation_regular : Kind.gradidoCreation.Regular := by
  refine KeepsTo.regular (fun number wireType message => ?_) rfl
  match number with
  | 1 | 3 => exact ⟨_, rfl⟩
  | 0 | 2 | _ + 4 => rfl

theorem gradidoTransfer_regular : Kind.gradidoTransfer.Regular := by
  refine KeepsTo.regular (fun number wireType message => ?_) rfl
  match number with
  | 1 => exact ⟨_, rfl⟩
  | 2 => exact Measured.bytes.store _
  | 0 | _ + 3 => rfl

theorem gradidoDeferredTransfer_regular : Kind.gradidoDeferredTransfer.Regular := by
  refine KeepsTo.regular (fun number wireType message => ?_) rfl
  match number with
  | 1 | 2 => exact ⟨_, rfl⟩
  | 0 | _ + 3 => rfl

theorem gradidoRedeemDeferredTransfer_regular : Kind.gradidoRedeemDeferredTransfer.Regular := by
  refine KeepsTo.regular (fun number wireType message => ?_) rfl
  match number with
  | 1 => exact Measured.uint64.store _
  | 2 => exact ⟨_, rfl⟩
  | 0 | _ + 3 => rfl

theorem gradidoTimeoutDeferredTransfer_regular : Kind.gradidoTimeoutDeferredTransfer.Regular := by
  refine KeepsTo.regular (fun number wireType message => ?_) rfl
  match number with
  | 1 => exact Measured.uint64.store _
  | 0 | _ + 2 => rfl

theorem registerAddress_regular : Kind.registerAddress.Regular := by
  refine KeepsTo.regular (fun number wireType message => ?_) rfl
  match number with
  | 1 | 3 | 4 => exact Measured.bytes.store _
  | 2 => exact Measured.enum.store _
  | 5 => exact Measured.uint32.store _
  | 0 | _ + 6 => rfl

theorem gradidoTransaction_regular : Kind.gradidoTransaction.Regular := by
  refine KeepsTo.regular (fun number wireType message => ?_) rfl
  match number with
  | 1 | 3 => exact ⟨_, rfl⟩
  | 2 => exact Measured.bytes.store _
  | 0 | _ + 4 => rfl

/-! ### Messages with others repeated in them -/

theorem store_skip {σ τ : Type} {wireType : Nat} {bytes : List UInt8} (message : σ) (put : σ → τ) :
    store (decoderSkipField wireType message bytes) put =
      decoderSkipField wireType (put message) bytes := by
  unfold decoderSkipField
  split
  · exact store_store _ _ _
  · exact store_store _ _ _
  · exact store_store _ _ _
  · exact store_store _ _ _
  · rfl

/-- A decoder that counts first goes over the message once all the same. -/
theorem regular_of_twoPasses {kind item : Kind} {σ : Type} {tag : Nat} {init : item.Value}
    {start : σ} {field : Nat → Nat → σ → List UInt8 → Option (σ × List UInt8)}
    {view : σ × List item.Value → kind.Value} (hitem : kind.entry tag = some (.message item))
    (hmeasured : MeasuredFields field)
    (hfield : ∀ number ≠ tag, ∀ wireType message,
      ReadAs wireType message (field number wireType message) (kind.entry number))
    (hdecode : ∀ bytes, kind.decode bytes =
      (twoPasses tag init item.decode field start bytes).map view) : kind.Regular := by
  refine ⟨_, appendedField tag item.decode field, (start, []), view,
    fun number wireType state => ?_, fun bytes hlength => ?_⟩
  · by_cases htag : number = tag
    · subst htag
      rw [hitem]
      refine ⟨fun value => (state.1, state.2 ++ [value]), funext fun bytes => ?_⟩
      rw [appendedField, if_pos rfl]
    · have hread := hfield number htag wireType state.1
      have happended : appendedField tag item.decode field number wireType state =
          fun bytes =>
            store (field number wireType state.1 bytes) fun message => (message, state.2) := by
        funext bytes
        rw [appendedField, if_neg htag]
      rw [happended]
      cases hentry : kind.entry number with
      | none =>
          rw [hentry] at hread
          change field number wireType state.1 = _ at hread
          funext bytes
          rw [hread, store_skip]
      | some entry =>
          rw [hentry] at hread
          cases entry with
          | value => exact Measured.store hread _
          | message inner =>
              obtain ⟨put, hput⟩ := hread
              refine ⟨fun value => (put value, state.2), funext fun bytes => ?_⟩
              rw [hput, store_store]
  · rw [hdecode, twoPasses_eq_onePass hmeasured start hlength]
    rfl

/-- What a map of signatures has besides them. -/
def signatureMapField (_ wireType : Nat) (message : Unit) (bytes : List UInt8) :
    Option (Unit × List UInt8) :=
  decoderSkipField wireType message bytes

/-- What a body has besides its memos. -/
def transactionBodyField (number wireType : Nat) (message : Proto.TransactionBody)
    (bytes : List UInt8) : Option (Proto.TransactionBody × List UInt8) :=
  match number with
  | 2 =>
      store (decoderSubMessageDecode timestampDecodeInner wireType bytes) fun createdAt =>
        { message with createdAt := some createdAt }
  | 3 =>
      store (decoderReadUint32 wireType bytes) fun versionNumber => { message with versionNumber }
  | 4 => store (decoderReadEnum CrossGroup.ofCode wireType bytes) fun type => { message with type }
  | 5 =>
      store (decoderReadBytes wireType bytes) fun otherCommunityUuid =>
        { message with otherCommunityUuid }
  | 6 => dataDecode gradidoTransferDecodeInner .transfer wireType message bytes
  | 7 => dataDecode gradidoCreationDecodeInner .creation wireType message bytes
  | 8 => dataDecode communityFriendsUpdateDecodeInner .communityFriendsUpdate wireType message bytes
  | 9 => dataDecode registerAddressDecodeInner .registerAddress wireType message bytes
  | 10 => dataDecode gradidoDeferredTransferDecodeInner .deferredTransfer wireType message bytes
  | 11 => dataDecode communityRootDecodeInner .communityRoot wireType message bytes
  | 12 =>
      dataDecode gradidoRedeemDeferredTransferDecodeInner .redeemDeferredTransfer wireType message
        bytes
  | 13 =>
      dataDecode gradidoTimeoutDeferredTransferDecodeInner .timeoutDeferredTransfer wireType message
        bytes
  | _ => decoderSkipField wireType message bytes

/-- What a confirmed transaction has besides its account balances. -/
def confirmedTransactionHead (number wireType : Nat) (message : Proto.ConfirmedTransaction)
    (bytes : List UInt8) : Option (Proto.ConfirmedTransaction × List UInt8) :=
  match number with
  | 1 => store (decoderReadUint64 wireType bytes) fun id => { message with id }
  | 2 =>
      store (decoderSubMessageDecode gradidoTransactionDecodeInner wireType bytes)
        fun transaction =>
      { message with transaction := some transaction }
  | 3 => store (decoderSubMessageDecode timestampDecodeInner wireType bytes) fun confirmedAt =>
      { message with confirmedAt := some confirmedAt }
  | 4 =>
      store (decoderReadUint32 wireType bytes) fun versionNumber => { message with versionNumber }
  | 5 => store (decoderReadBytes wireType bytes) fun runningHash => { message with runningHash }
  | 6 => store (decoderSubMessageDecode ledgerAnchorDecodeInner wireType bytes) fun anchor =>
      { message with ledgerAnchor := some anchor }
  | _ => decoderSkipField wireType message bytes

section Counted

variable {α σ β : Type} {tag : Nat} {init : α} {decodeInner : List UInt8 → Option α} {start : σ}
  {bytes : List UInt8} {field : Nat → Nat → σ → List UInt8 → Option (σ × List UInt8)}

theorem countedField_of_ne {number wireType : Nat} {message : σ} {info : RepeatedInfo}
    (hne : number ≠ tag) :
    countedField tag field number wireType (message, info) bytes =
      store (field number wireType message bytes) fun message => (message, info) :=
  if_neg hne

/-- A decoder that counts its items, reads them and puts them into the message. -/
theorem twoPasses_map {counting : Nat → Nat → σ × RepeatedInfo → List UInt8 → Option ((σ × RepeatedInfo) × List UInt8)}
    (hcounting : counting = countedField tag field) (view : σ × List α → β) :
    ((decodeFields counting (start, .init) bytes).bind fun state =>
      (decodeRepeatedInner tag init decodeInner state.2).bind fun items => some (view (state.1, items))) =
        (twoPasses tag init decodeInner field start bytes).map view := by
  rw [hcounting, twoPasses]
  cases decodeFields (countedField tag field) (start, .init) bytes with
  | none => rfl
  | some state =>
      change (decodeRepeatedInner tag init decodeInner state.2).bind _ =
        ((decodeRepeatedInner tag init decodeInner state.2).bind _).map _
      cases decodeRepeatedInner tag init decodeInner state.2 <;> rfl

end Counted

/-- A decoder that goes over the same fields into a state that says more. -/
theorem decodeFields_map {σ τ : Type} {field : Nat → Nat → σ → List UInt8 → Option (σ × List UInt8)}
    {other : Nat → Nat → τ → List UInt8 → Option (τ × List UInt8)} (join : σ → τ)
    (hfield : ∀ number wireType message bytes,
      other number wireType (join message) bytes = store (field number wireType message bytes) join)
    (message : σ) (bytes : List UInt8) :
    decodeFields other (join message) bytes = (decodeFields field message bytes).map join := by
  refine Scan.scan_map join (fun message bytes => ?_) message bytes
  rw [fieldStep, fieldStep]
  cases decoderReadTag bytes with
  | none => rfl
  | some read => exact hfield _ _ _ _

theorem signatureMapDecodeInner_eq (bytes : List UInt8) :
    signatureMapDecodeInner bytes =
      (twoPasses 1 ⟨[], []⟩ signaturePairDecodeInner signatureMapField () bytes).map fun read =>
        ⟨read.2⟩ := by
  rw [signatureMapDecodeInner, twoPasses,
    decodeFields_map (fun info : RepeatedInfo => ((), info)) fun number wireType info bytes => ?_]
  · cases decodeFields _ RepeatedInfo.init bytes with
    | none => rfl
    | some info =>
        change (decodeRepeatedInner 1 _ signaturePairDecodeInner info).bind _ =
          ((decodeRepeatedInner 1 _ signaturePairDecodeInner info).bind _).map _
        cases decodeRepeatedInner 1 _ signaturePairDecodeInner info <;> rfl
  · by_cases hone : number = 1
    · rw [hone]
      rfl
    · rw [countedField_of_ne hone, signatureMapField, store_skip]
      simp only [store_skip]

theorem transactionBodyDecodeInner_eq (bytes : List UInt8) : transactionBodyDecodeInner bytes =
    (twoPasses 1 ⟨.sharedSecret, []⟩ encryptedMemoDecodeInner transactionBodyField .init bytes).map
      fun read => { read.1 with memos := read.2 } := by
  refine twoPasses_map ?_ fun read : Proto.TransactionBody × List Proto.EncryptedMemo =>
    { read.1 with memos := read.2 }
  funext number wireType state bytes
  obtain ⟨message, info⟩ := state
  match number with
  | 1 => rfl
  | 2 | 3 | 4 | 5 | 6 | 7 | 8 | 9 | 10 | 11 | 12 | 13 =>
      rw [countedField_of_ne (by decide)]
      rfl
  | 0 | _ + 14 =>
      rw [countedField_of_ne (by omega)]
      show decoderSkipField wireType (message, info) bytes =
        store (decoderSkipField wireType message bytes) _
      rw [store_skip]

theorem confirmedTransactionDecodeInner_eq (bytes : List UInt8) :
    confirmedTransactionDecodeInner bytes =
      (twoPasses 7 ⟨[], 0, []⟩ accountBalanceDecodeInner confirmedTransactionHead .init bytes).map
        fun read => { read.1 with accountBalances := read.2 } := by
  refine twoPasses_map ?_ fun read : Proto.ConfirmedTransaction × List Proto.AccountBalance =>
    { read.1 with accountBalances := read.2 }
  funext number wireType state bytes
  obtain ⟨message, info⟩ := state
  match number with
  | 1 | 2 | 3 | 4 | 5 | 6 =>
      rw [countedField_of_ne (by decide)]
      simp only [confirmedTransactionField, confirmedTransactionHead, store_store]
  | 7 => rfl
  | 0 | _ + 8 =>
      rw [countedField_of_ne (by omega)]
      show decoderSkipField wireType (message, info) bytes =
        store (decoderSkipField wireType message bytes) _
      rw [store_skip]

theorem signatureMap_regular : Kind.signatureMap.Regular := by
  have hitem : Kind.signatureMap.entry 1 = some (.message .signaturePair) := rfl
  have hmeasured : MeasuredFields signatureMapField := fun _ _ message => .skip message
  refine regular_of_twoPasses hitem hmeasured (fun number hne wireType message => ?_)
    signatureMapDecodeInner_eq
  match number with
  | 1 => exact absurd rfl hne
  | 0 | _ + 2 => rfl

theorem transactionBodyField_readAs {number : Nat} (hne : number ≠ 1) (wireType : Nat)
    (message : Proto.TransactionBody) :
    ReadAs wireType message (transactionBodyField number wireType message)
      (Kind.transactionBody.entry number) := by
  unfold transactionBodyField
  match number with
  | 1 => exact absurd rfl hne
  | 2 | 6 | 7 | 8 | 9 | 10 | 11 | 12 | 13 => exact ⟨_, rfl⟩
  | 3 => exact Measured.uint32.store _
  | 4 => exact Measured.enum.store _
  | 5 => exact Measured.bytes.store _
  | 0 | _ + 14 => rfl

theorem transactionBodyField_measured : MeasuredFields transactionBodyField :=
  measured_of_others (fun _ hne => transactionBodyField_readAs hne) fun _ message => .skip message

theorem transactionBody_regular : Kind.transactionBody.Regular := by
  have hitem : Kind.transactionBody.entry 1 = some (.message .encryptedMemo) := rfl
  exact regular_of_twoPasses hitem transactionBodyField_measured
    (fun _ hne => transactionBodyField_readAs hne) transactionBodyDecodeInner_eq

theorem confirmedTransactionHead_readAs {number : Nat} (hne : number ≠ 7) (wireType : Nat)
    (message : Proto.ConfirmedTransaction) :
    ReadAs wireType message (confirmedTransactionHead number wireType message)
      (Kind.confirmedTransaction.entry number) := by
  unfold confirmedTransactionHead
  match number with
  | 1 => exact Measured.uint64.store _
  | 2 | 3 | 6 => exact ⟨_, rfl⟩
  | 4 => exact Measured.uint32.store _
  | 5 => exact Measured.bytes.store _
  | 7 => exact absurd rfl hne
  | 0 | _ + 8 => rfl

theorem confirmedTransactionHead_measured : MeasuredFields confirmedTransactionHead :=
  measured_of_others (fun _ hne => confirmedTransactionHead_readAs hne) fun _ message =>
    .skip message

theorem confirmedTransaction_regular : Kind.confirmedTransaction.Regular := by
  have hitem : Kind.confirmedTransaction.entry 7 = some (.message .accountBalance) := rfl
  exact regular_of_twoPasses hitem confirmedTransactionHead_measured
    (fun _ hne => confirmedTransactionHead_readAs hne) confirmedTransactionDecodeInner_eq

end Messages

theorem Kind.regular (kind : Kind) : kind.Regular := by
  cases kind with
  | timestamp => exact timestamp_regular
  | timestampSeconds => exact timestampSeconds_regular
  | durationSeconds => exact durationSeconds_regular
  | accountBalance => exact accountBalance_regular
  | encryptedMemo => exact encryptedMemo_regular
  | signaturePair => exact signaturePair_regular
  | signatureMap => exact signatureMap_regular
  | transferAmount => exact transferAmount_regular
  | accountId => exact accountId_regular
  | transactionId => exact transactionId_regular
  | ledgerAnchor => exact ledgerAnchor_regular
  | communityFriendsUpdate => exact communityFriendsUpdate_regular
  | communityRoot => exact communityRoot_regular
  | gradidoCreation => exact gradidoCreation_regular
  | gradidoTransfer => exact gradidoTransfer_regular
  | gradidoDeferredTransfer => exact gradidoDeferredTransfer_regular
  | gradidoRedeemDeferredTransfer => exact gradidoRedeemDeferredTransfer_regular
  | gradidoTimeoutDeferredTransfer => exact gradidoTimeoutDeferredTransfer_regular
  | registerAddress => exact registerAddress_regular
  | transactionBody => exact transactionBody_regular
  | gradidoTransaction => exact gradidoTransaction_regular
  | confirmedTransaction => exact confirmedTransaction_regular

end PbTools

end GradidoBlockchain
