import GradidoBlockchain.Json.RoundTrip
import GradidoBlockchain.Runtime.Carried
import GradidoBlockchain.Wire.Sent

/-!
# From the sender to the reader of a document

Bytes that have been sent become a record, the record a document, and the document a record again.
What the reader of the document has is held against what was sent. On the way the community of the
coins of a creation is lost, an anchor without a name or with the id of another type comes back as
none, and a memo without bytes or an enumerator without a name has the document refused; whatever
has none of these arrives whole.
-/

namespace GradidoBlockchain

open Fallible Fallible.Call

namespace Mapping

variable {body : Wire.TransactionBody} {tx : Wire.ConfirmedTransaction} {communityUuid : Uuid}
  {area : Runtime.Arena} {record read : Runtime.CompleteTransaction} {arnm : JsonArnm}

/-! ### A record that is read again -/

/-- The detail of a body is where its type has it, so a record with the same parts for the type
has the same detail. -/
theorem carriesDetail_congr {detail : Wire.Detail}
    (htype : record.transactionType = detail.transactionType) (hdetail : SameDetail record read)
    (hcontext : SameContext record read) :
    CarriesDetail read detail ↔ CarriesDetail record detail := by
  rw [SameDetail, htype] at hdetail
  rw [SameContext, htype] at hcontext
  cases detail with
  | none | communityFriendsUpdate | unknown => exact Iff.rfl
  | transfer transfer =>
      rw [CarriesDetail, CarriesDetail, show read.transfer = record.transfer from hdetail]
  | creation creation =>
    rw [CarriesDetail, CarriesDetail, show read.transfer = record.transfer from hdetail,
      show read.targetDate = record.targetDate from hcontext]
  | registerAddress address =>
    rw [CarriesDetail, CarriesDetail,
      show read.registerAddress = record.registerAddress from hdetail, hcontext.1, hcontext.2]
  | deferredTransfer deferred =>
    rw [CarriesDetail, CarriesDetail, show read.transfer = record.transfer from hdetail,
      show read.timeoutDuration = record.timeoutDuration from hcontext]
  | redeemDeferredTransfer redeem =>
    rw [CarriesDetail, CarriesDetail, show read.transfer = record.transfer from hdetail,
      show read.previousTx = record.previousTx from hcontext]
  | timeoutDeferredTransfer nr =>
      rw [CarriesDetail, CarriesDetail, show read.previousTx = record.previousTx from hcontext]
  | communityRoot root =>
      rw [CarriesDetail, CarriesDetail, show read.communityRoot = record.communityRoot from hdetail]

/-- A record with every field of one that carries the wire carries it too. -/
theorem Carries.of_reproduces (hcarries : Carries body tx communityUuid record)
    (hsame : Reproduces record read) : Carries body tx communityUuid read where
  txNr := hsame.txNr.trans hcarries.txNr
  confirmedAt := hsame.confirmedAt.trans hcarries.confirmedAt
  createdAt := hsame.createdAt.trans hcarries.createdAt
  txRunningHash := hsame.txRunningHash.trans hcarries.txRunningHash
  txCommunityUuid := hsame.txCommunityUuid.trans hcarries.txCommunityUuid
  ledgerAnchor := hsame.ledgerAnchor.trans hcarries.ledgerAnchor
  transactionType := hsame.transactionType.trans hcarries.transactionType
  accountBalances := hsame.accountBalances.trans hcarries.accountBalances
  encryptedMemos := hsame.encryptedMemos.trans hcarries.encryptedMemos
  signaturePairs := hsame.signaturePairs.trans hcarries.signaturePairs
  crossGroupType := hsame.crossGroupType.trans hcarries.crossGroupType
  txPairingCommunityUuid := hsame.txPairingCommunityUuid.trans hcarries.txPairingCommunityUuid
  pairingLedgerAnchor := hsame.pairingLedgerAnchor.trans hcarries.pairingLedgerAnchor
  bodyBytes := hsame.bodyBytes.trans hcarries.bodyBytes
  detail :=
    (carriesDetail_congr hcarries.transactionType hsame.detail hsame.context).2 hcarries.detail

/-! ### The record of what was sent -/

theorem transactionType_eq_registerAddress {detail : Wire.Detail} :
    detail.transactionType = .registerAddress ↔ ∃ address, detail = .registerAddress address := by
  cases detail <;> simp [Wire.Detail.transactionType]

/-- The parts of the record that a document depends on. -/
theorem recordOf_parts (tx : Wire.ConfirmedTransaction) (body : Wire.TransactionBody)
    (communityUuid : Uuid) (area : Runtime.Arena) :
    (recordOf tx body communityUuid area).transactionType = body.detail.transactionType ∧
      (recordOf tx body communityUuid area).crossGroupType = body.type ∧
      (recordOf tx body communityUuid area).encryptedMemos = body.memos.items ∧
      (recordOf tx body communityUuid area).ledgerAnchor = tx.ledgerAnchor ∧
      (recordOf tx body communityUuid area).pairingLedgerAnchor =
        if tx.transaction.pairingLedgerAnchor.type ≠ .unspecified then
            some tx.transaction.pairingLedgerAnchor
          else none := by
  obtain ⟨_, _, _, _, _, _, _, _, hcopied⟩ :=
    copied_bare body.detail (bareRecord tx body communityUuid area)
  rw [recordOf_fields, hcopied]
  exact ⟨rfl, rfl, rfl, rfl, rfl⟩

theorem recordOf_addressType {address : Wire.RegisterAddress}
    (hdetail : body.detail = .registerAddress address) :
    (recordOf tx body communityUuid area).addressType = address.addressType := by
  rw [recordOf_fields, hdetail]
  rfl

/-- Of a body: what has names has ones that are read back, and its memos have bytes. -/
structure Readable (body : Wire.TransactionBody) : Prop where
  group : body.type.Named
  address : ∀ address, body.detail = .registerAddress address → address.addressType.Named
  memos : ∀ memo ∈ body.memos.items, memo.type.Named ∧ memo.memo ≠ []

theorem readable_iff :
    NamesKept (recordOf tx body communityUuid area) ∧
        MemosKept (recordOf tx body communityUuid area) ↔ Readable body := by
  obtain ⟨htype, hgroup, hmemos, -⟩ := recordOf_parts tx body communityUuid area
  constructor
  · intro hkept
    refine ⟨hgroup ▸ hkept.1.crossGroupType, fun address hdetail => ?_,
      fun memo hmem => hkept.2 memo (hmemos ▸ hmem)⟩
    rw [← recordOf_addressType hdetail]
    apply hkept.1.addressType
    rw [htype, hdetail]
    rfl
  · intro hreadable
    refine ⟨⟨hgroup ▸ hreadable.group, fun hregister => ?_⟩,
      fun memo hmem => hreadable.memos memo (hmemos ▸ hmem)⟩
    rw [htype] at hregister
    obtain ⟨address, hdetail⟩ := transactionType_eq_registerAddress.1 hregister
    rw [recordOf_addressType hdetail]
    exact hreadable.address address hdetail

/-- Only types that have a place in a record are written. -/
theorem mapped_of_written {document : Json}
    (hwritten : addCompleteTransaction arnm (recordOf tx body communityUuid area) =
      .ok document) : Mapped body.detail := by
  obtain ⟨members, hmembers, -⟩ := addCompleteTransaction_ok hwritten
  rw [addTransactionDetail, (recordOf_parts tx body communityUuid area).1] at hmembers
  cases hdetail : body.detail with
  | none | communityFriendsUpdate | unknown =>
    rw [hdetail] at hmembers
    cases hmembers
  | _ => trivial

/-! ### The whole way -/

/-- What has to be sent for all of it to come to the reader. -/
structure Publishable (body : Wire.TransactionBody) (tx : Wire.ConfirmedTransaction) : Prop where
  readable : Readable body
  ledgerAnchor : Kept tx.ledgerAnchor
  pairingLedgerAnchor : tx.transaction.pairingLedgerAnchor.type ≠ .unspecified →
    Kept tx.transaction.pairingLedgerAnchor
  coins : ∀ creation, body.detail = .creation creation →
    creation.recipient.communityUuid = zeroBytes 16

/-- With all the memory it asks for, the text is read, and into a record that
carries what was sent. -/
def ArrivesWhole (arnm : JsonArnm) (body : Wire.TransactionBody) (tx : Wire.ConfirmedTransaction)
    (communityUuid : Uuid) (text : Text) : Prop :=
  ∀ owned, ∃ left rest, completeTransactionFromJson arnm text (.fresh owned) [] =
      (.ok (), left, rest) ∧ Carries body tx communityUuid left.record.tx

theorem rereadAnchors_eq_self (hledger : reread record.ledgerAnchor = record.ledgerAnchor)
    (hpairing : record.pairingLedgerAnchor.map reread = record.pairingLedgerAnchor) :
    rereadAnchors record = record := by
  rw [rereadAnchors, hledger, hpairing]

section

variable {flags : WriteFlags} {written : Written} (hlawful : arnm.Lawful)
  (hwritten :
    jsonFromCompleteTransaction arnm flags (recordOf tx body communityUuid area) = .ok written)

include hlawful hwritten

theorem arrivesWhole_of_publishable (hpublishable : Publishable body tx) :
    ArrivesWhole arnm body tx communityUuid written.text := by
  intro owned
  obtain ⟨document, hdocument, -⟩ := jsonFromCompleteTransaction_ok hwritten
  obtain ⟨-, -, -, hledger, hpairing⟩ := recordOf_parts tx body communityUuid area
  obtain ⟨hnames, hmemos⟩ := readable_iff.2 hpublishable.readable
  obtain ⟨left, hrun, hreproduces⟩ :=
    completeTransactionFromJson_written hlawful hwritten hnames hmemos owned
  have hsame : rereadAnchors (recordOf tx body communityUuid area) =
      recordOf tx body communityUuid area := by
    apply rereadAnchors_eq_self
    · rw [hledger]
      exact reread_eq_self.2 hpublishable.ledgerAnchor
    · rw [hpairing]
      split
      next hsome => exact congrArg some (reread_eq_self.2 (hpublishable.pairingLedgerAnchor hsome))
      next => rfl
  rw [hsame] at hreproduces
  have hcarries : Carries body tx communityUuid (recordOf tx body communityUuid area) :=
    (carries_recordOf_iff (mapped_of_written hdocument) area).2 hpublishable.coins
  exact ⟨left, [], hrun, hcarries.of_reproduces hreproduces⟩

theorem publishable_of_arrivesWhole
    (harrives : ArrivesWhole arnm body tx communityUuid written.text) : Publishable body tx := by
  obtain ⟨document, hdocument, -⟩ := jsonFromCompleteTransaction_ok hwritten
  obtain ⟨htype, -, -, hledger, hpairing⟩ := recordOf_parts tx body communityUuid area
  obtain ⟨left, rest, hrun, hcarries⟩ := harrives (.init, .empty)
  obtain ⟨hnames, hmemos⟩ := kept_of_read hlawful hwritten hrun
  obtain ⟨other, hother, hreproduces⟩ :=
    completeTransactionFromJson_written hlawful hwritten hnames hmemos (.init, .empty)
  rw [hrun] at hother
  obtain rfl : left = other := congrArg (fun run => run.2.1) hother
  refine ⟨readable_iff.1 ⟨hnames, hmemos⟩, ?_, fun hsome => ?_, ?_⟩
  · have hback : reread (recordOf tx body communityUuid area).ledgerAnchor = tx.ledgerAnchor :=
      hreproduces.ledgerAnchor.symm.trans hcarries.ledgerAnchor
    rw [hledger] at hback
    exact reread_eq_self.1 hback
  · have hback : (recordOf tx body communityUuid area).pairingLedgerAnchor.map reread =
        if tx.transaction.pairingLedgerAnchor.type = .unspecified then none
          else some tx.transaction.pairingLedgerAnchor :=
      hreproduces.pairingLedgerAnchor.symm.trans hcarries.pairingLedgerAnchor
    rw [hpairing, if_pos hsome, if_neg hsome] at hback
    exact reread_eq_self.1 (Option.some.inj hback)
  · have hdetail : CarriesDetail (recordOf tx body communityUuid area) body.detail :=
      (carriesDetail_congr htype hreproduces.detail hreproduces.context).1 hcarries.detail
    exact (carriesDetail_recordOf_iff (mapped_of_written hdocument) area).1 hdetail

end

section

variable {bytes : List UInt8} {recordHost : RecordHost} {opener : Runtime.Opener}
  {owned left : Runtime.Owned} {room rest : Room}

end

/-- The record of a timeout that has been sent, and its document. -/
def timedOutRecord : Runtime.CompleteTransaction :=
  recordOf (carrying 1 timedOut) timedOut (zeroBytes 16)
    ((Runtime.release (.init, .empty)).2.next .store)

def timedOutJson : Json :=
  .object (headMembers (.reference []) timedOutRecord ++
    [addUint64 Key.previousTx timedOutRecord.previousTx] ++
    tailMembers (.reference []) timedOutRecord)

theorem timedOut_fits : 16 * timedOutJson.nodes ≤ Reference.maxAllocSize ∧
    (Reference.documentText timedOutJson).length ≤ Reference.maxAllocSize := by decide +kernel

theorem timedOut_written :
    jsonFromCompleteTransaction (.reference [timedOutJson]) 0 timedOutRecord =
      .ok ⟨Reference.documentText timedOutJson, .ok ()⟩ :=
  written_known rfl timedOut_fits.1 timedOut_fits.2

theorem timedOut_publishable : Publishable timedOut (carrying 1 timedOut) where
  readable := ⟨trivial, (fun _ h => by cases h), (fun _ h => by cases h)⟩
  ledgerAnchor := by decide
  pairingLedgerAnchor := by decide
  coins _ h := by cases h

end Mapping

end GradidoBlockchain
