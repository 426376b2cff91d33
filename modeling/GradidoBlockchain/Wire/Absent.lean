import GradidoBlockchain.Wire.Accepted

/-!
# Messages that lack something

A sub-message that a mapping needs may be absent, and the member of a oneof that it wants may not be
the one that is set. Most of the mappings refuse that; two of them read on.
-/

namespace GradidoBlockchain

open Fallible Fallible.Call

/-! ### What a message can lack -/

namespace Proto

def TransactionId.Lacks (pb : TransactionId) : Prop :=
  pb.transactionValidStart = none ∨ pb.accountId = none

/-- An anchor that is to hold a Hiero id holds none, or one that lacks a part. -/
def LedgerAnchor.Lacks (pb : LedgerAnchor) : Prop :=
  pb.type = .hieroTransactionId ∧
    ∀ message, pb.anchorId = .hieroTransactionId (some message) → message.Lacks

/-- The type of the anchor names the member of its oneof that is set. -/
def LedgerAnchor.Named (pb : LedgerAnchor) : Prop :=
  match pb.anchorId with
  | .none => False
  | .hieroTransactionId _ => pb.type = .hieroTransactionId
  | .id _ => pb.type ≠ .hieroTransactionId

def GradidoCreation.Lacks (pb : GradidoCreation) : Prop :=
  pb.recipient = none ∨ pb.targetDate = none

def GradidoTransfer.Lacks (pb : GradidoTransfer) : Prop := pb.sender = none

def GradidoDeferredTransfer.Lacks (pb : GradidoDeferredTransfer) : Prop :=
  pb.timeoutDuration = none ∨ ∀ transfer ∈ pb.transfer, transfer.Lacks

def GradidoRedeemDeferredTransfer.Lacks (pb : GradidoRedeemDeferredTransfer) : Prop :=
  ∀ transfer ∈ pb.transfer, transfer.Lacks

/-- The transaction that is selected is absent or lacks something. -/
def Data.Lacks : Data → Prop
  | .none => False
  | .transfer message => ∀ transfer ∈ message, transfer.Lacks
  | .creation message => ∀ creation ∈ message, creation.Lacks
  | .communityFriendsUpdate message => message = Option.none
  | .registerAddress message => message = Option.none
  | .deferredTransfer message => ∀ deferred ∈ message, deferred.Lacks
  | .communityRoot message => message = Option.none
  | .redeemDeferredTransfer message => ∀ redeem ∈ message, redeem.Lacks
  | .timeoutDeferredTransfer message => message = Option.none
  | .unknown _ => False

def TransactionBody.Lacks (pb : TransactionBody) : Prop := pb.createdAt = none ∨ pb.data.Lacks

/-- A signature map or a pairing anchor may be absent. -/
def GradidoTransaction.Lacks (pb : GradidoTransaction) : Prop :=
  ∃ anchor ∈ pb.pairingLedgerAnchor, anchor.Lacks

def ConfirmedTransaction.Lacks (pb : ConfirmedTransaction) : Prop :=
  (∀ transaction ∈ pb.transaction, transaction.Lacks) ∨ pb.confirmedAt = none ∨
    ∀ anchor ∈ pb.ledgerAnchor, anchor.Lacks

/-! ### What lacks something does not fit -/

theorem TransactionId.not_fits {pb : TransactionId} (hlacks : pb.Lacks) : ¬pb.Fits := by
  rintro ⟨-, ⟨start, hstart⟩, account, haccount, -⟩
  rcases hlacks with hnone | hnone
  · exact Option.not_mem_none start (hnone ▸ hstart)
  · exact Option.not_mem_none account (hnone ▸ haccount)

theorem LedgerAnchor.not_fits {pb : LedgerAnchor} (hlacks : pb.Lacks) : ¬pb.Fits := by
  intro hfits
  obtain ⟨message, hset, hmessage⟩ := hfits hlacks.1
  exact TransactionId.not_fits (hlacks.2 message hset) hmessage

theorem GradidoCreation.not_fits {pb : GradidoCreation} (hlacks : pb.Lacks) : ¬pb.Fits := by
  rintro ⟨⟨recipient, hrecipient, -⟩, targetDate, htargetDate⟩
  rcases hlacks with hnone | hnone
  · exact Option.not_mem_none recipient (hnone ▸ hrecipient)
  · exact Option.not_mem_none targetDate (hnone ▸ htargetDate)

theorem GradidoTransfer.not_fits {pb : GradidoTransfer} (hlacks : pb.Lacks) : ¬pb.Fits := by
  rintro ⟨-, sender, hsender, -⟩
  rw [GradidoTransfer.Lacks] at hlacks
  exact Option.not_mem_none sender (hlacks ▸ hsender)

theorem GradidoDeferredTransfer.not_fits {pb : GradidoDeferredTransfer}
    (hlacks : pb.Lacks) : ¬pb.Fits := by
  rintro ⟨timeout, htimeout, -, transfer, htransfer, hfits⟩
  rcases hlacks with hnone | hlacks
  · exact Option.not_mem_none timeout (hnone ▸ htimeout)
  · exact GradidoTransfer.not_fits (hlacks transfer htransfer) hfits

theorem GradidoRedeemDeferredTransfer.not_fits {pb : GradidoRedeemDeferredTransfer}
    (hlacks : pb.Lacks) : ¬pb.Fits := by
  rintro ⟨transfer, htransfer, hfits⟩
  exact GradidoTransfer.not_fits (hlacks transfer htransfer) hfits

theorem Data.not_fits {data : Data} (hlacks : data.Lacks) : ¬data.Fits := by
  intro hfits
  cases data with
  | none => exact hlacks
  | transfer message =>
      obtain ⟨transfer, htransfer, hfits⟩ := hfits
      exact GradidoTransfer.not_fits (hlacks transfer htransfer) hfits
  | creation message =>
      obtain ⟨creation, hcreation, hfits⟩ := hfits
      exact GradidoCreation.not_fits (hlacks creation hcreation) hfits
  | communityFriendsUpdate message =>
      obtain ⟨update, hupdate⟩ := hfits
      cases hlacks.symm.trans hupdate
  | registerAddress message =>
      obtain ⟨address, haddress, -⟩ := hfits
      cases hlacks.symm.trans haddress
  | deferredTransfer message =>
      obtain ⟨deferred, hdeferred, hfits⟩ := hfits
      exact GradidoDeferredTransfer.not_fits (hlacks deferred hdeferred) hfits
  | communityRoot message =>
      obtain ⟨root, hroot, -⟩ := hfits
      cases hlacks.symm.trans hroot
  | redeemDeferredTransfer message =>
      obtain ⟨redeem, hredeem, hfits⟩ := hfits
      exact GradidoRedeemDeferredTransfer.not_fits (hlacks redeem hredeem) hfits
  | timeoutDeferredTransfer message =>
      obtain ⟨timeout, htimeout⟩ := hfits
      cases hlacks.symm.trans htimeout
  | unknown past => exact hlacks

theorem TransactionBody.not_fits {host : Mapping.Host} {pb : TransactionBody}
    (hlacks : pb.Lacks) : ¬pb.Fits host := by
  rintro ⟨⟨-, -, -, createdAt, hcreatedAt⟩, hdata⟩
  rcases hlacks with hnone | hlacks
  · exact Option.not_mem_none createdAt (hnone ▸ hcreatedAt)
  · exact Data.not_fits hlacks hdata

theorem ConfirmedTransaction.not_fits {host : Mapping.Host} {pb : ConfirmedTransaction}
    (hlacks : pb.Lacks) : ¬pb.Fits host := by
  rintro ⟨-, ⟨transaction, htransaction, -, hpairing, -⟩, ⟨confirmedAt, hconfirmedAt⟩, -,
    ⟨anchor, hanchor, hfits⟩, -⟩
  rcases hlacks with hlacks | hnone | hlacks
  · obtain ⟨pairing, hsome, hlacks⟩ := hlacks transaction htransaction
    exact LedgerAnchor.not_fits hlacks (hpairing pairing hsome)
  · exact Option.not_mem_none confirmedAt (hnone ▸ hconfirmedAt)
  · exact LedgerAnchor.not_fits (hlacks anchor hanchor) hfits

end Proto

namespace Mapping

variable {α : Type}

/-! ### Absent sub-messages -/

/-- Nothing is read through an absent pointer, and what lacks something is refused. -/
def RefusesAbsent (lacks : Prop) (call : Decode α) : Prop :=
  ∀ room, (call () room).1 ≠ .error .readAbsent ∧
    (lacks → ∃ code, (call () room).1 = .error (.refused code))

theorem Decides.refusesAbsent_iff {call : Decode α} {accepted faulty lacks : Prop}
    (hcall : Decides call accepted faulty) (hlacks : lacks → ¬accepted) :
    RefusesAbsent lacks call ↔ ¬faulty := by
  constructor
  · intro hrefuses hfaulty
    exact (hrefuses []).1 (hcall.faults hfaulty)
  · intro hsound room
    have hread : (call () room).1 ≠ .error .readAbsent := fun h => hsound (hcall.faulty h)
    refine ⟨hread, fun h => ?_⟩
    rcases hrun : call () room with ⟨failure | value, left, rest⟩
    · cases failure with
      | refused code => exact ⟨code, rfl⟩
      | readAbsent => exact absurd (congrArg Prod.fst hrun) hread
    · exact absurd (hcall.accepted_of_ok hrun) (hlacks h)

/-- A body with a deferred transfer that says nothing. -/
def hastyBody : Proto.TransactionBody where
  memos := []
  createdAt := some ⟨0, 0⟩
  versionNumber := protocolVersion
  type := .local
  otherCommunityUuid := []
  data := .deferredTransfer (some .init)

/-- The mapping of an anchor is refused, or has read the member of its oneof that is set. -/
def ReadsSet (pb : Proto.LedgerAnchor) (room : Room)
    (outcome : Except Failure Wire.LedgerAnchor) : Prop :=
  match outcome with
  | .error (.refused _) => True
  | .error .readAbsent => False
  | .ok (.hieroTransactionId id) => ∃ message, pb.anchorId = .hieroTransactionId (some message) ∧
      (hieroTransactionIdFromPbtools (some message) () room).1 = .ok id
  | .ok (.id _ _ id) => pb.anchorId = .id id

/-- The type names the Hiero id, and what the union holds instead of one is the null pointer. -/
def ReadsNull (host : Host) (pb : Proto.LedgerAnchor) : Prop :=
  pb.type = .hieroTransactionId ∧ (∀ message, pb.anchorId ≠ .hieroTransactionId message) ∧
    readId host pb = 0

/-- What is read as a Hiero id where it is the member set is refused, or is the one that is set. -/
theorem readsSet_of_hiero (union : AnchorUnion) {message : Option Proto.TransactionId} (room : Room)
    (hunion : union.hieroTransactionId ⟨.hieroTransactionId, .hieroTransactionId message⟩ =
      pure message) :
    ReadsSet ⟨.hieroTransactionId, .hieroTransactionId message⟩ room
      (ledgerAnchorFromPbtools union (some ⟨.hieroTransactionId, .hieroTransactionId message⟩) ()
        room).1 := by
  have hrun : ledgerAnchorFromPbtools union (some ⟨.hieroTransactionId, .hieroTransactionId message⟩) =
      union.hieroTransactionId ⟨.hieroTransactionId, .hieroTransactionId message⟩ >>= fun message =>
        hieroTransactionIdFromPbtools message >>=
          fun id => pure (Wire.LedgerAnchor.hieroTransactionId id) := rfl
  rw [hrun, hunion]
  change ReadsSet _ _ ((hieroTransactionIdFromPbtools message >>= fun id =>
    pure (Wire.LedgerAnchor.hieroTransactionId id)) () room).1
  rw [bind_run]
  rcases hid : hieroTransactionIdFromPbtools message () room with ⟨failure | id, left, rest⟩
  · cases failure with
    | refused code => trivial
    | readAbsent => exact (hieroTransactionId_decides message).faulty (congrArg Prod.fst hid)
  · cases message with
    | none => cases hid
    | some message => exact ⟨message, rfl, congrArg Prod.fst hid⟩

/-- An anchor of another type gives what is read as its integer. -/
theorem ledgerAnchorFromPbtools_of_ne (union : AnchorUnion) {pb : Proto.LedgerAnchor}
    (htype : pb.type ≠ .hieroTransactionId) :
    ledgerAnchorFromPbtools union (some pb) = union.id pb >>=
      fun id => pure (.id pb.type htype id) := by
  change (if h : pb.type = .hieroTransactionId then _ else _ : Decode Wire.LedgerAnchor) = _
  rw [dif_neg htype]

/-- The decision is taken on the type, so the member that is set is read just where the type names
it. In memory a zero that is read as a pointer is refused, as a pointer to nothing. -/
theorem ledgerAnchorFromPbtools_readsSet_iff (host : Host) (pb : Proto.LedgerAnchor) (room : Room) :
    (ReadsSet pb room (ledgerAnchorFromPbtools .tagged (some pb) () room).1 ↔ pb.Named) ∧
      (ReadsSet pb room (ledgerAnchorFromPbtools host.union (some pb) () room).1 ↔
        pb.Named ∨ ReadsNull host pb) := by
  obtain ⟨type, anchorId⟩ := pb
  by_cases htype : type = .hieroTransactionId
  · cases htype
    by_cases hset : ∃ message, anchorId = .hieroTransactionId message
    · obtain ⟨message, rfl⟩ := hset
      exact ⟨iff_of_true (readsSet_of_hiero _ room rfl) rfl,
        iff_of_true (readsSet_of_hiero _ room rfl) (.inl rfl)⟩
    · have hother : ∀ message, anchorId ≠ .hieroTransactionId message := by simpa using hset
      have hnamed : ¬Proto.LedgerAnchor.Named ⟨.hieroTransactionId, anchorId⟩ := by
        cases anchorId with
        | none => exact id
        | id id => exact fun h => h rfl
        | hieroTransactionId message => exact absurd rfl (hother message)
      constructor
      · refine iff_of_false ?_ hnamed
        cases anchorId with
        | none => exact id
        | id id => exact fun h => h
        | hieroTransactionId message => exact absurd rfl (hother message)
      · have hrun : ledgerAnchorFromPbtools host.union (some ⟨.hieroTransactionId, anchorId⟩) =
            readHiero host ⟨.hieroTransactionId, anchorId⟩ >>= fun message =>
              hieroTransactionIdFromPbtools message >>=
                fun id => pure (Wire.LedgerAnchor.hieroTransactionId id) := rfl
        rw [hrun, readHiero_of_ne hother]
        by_cases hzero : readId host ⟨.hieroTransactionId, anchorId⟩ = 0
        · rw [if_pos hzero]
          exact iff_of_true trivial (.inr ⟨rfl, hother, hzero⟩)
        · rw [if_neg hzero]
          exact iff_of_false id (not_or.2 ⟨hnamed, fun h => hzero h.2.2⟩)
  · have hnull : ¬ReadsNull host ⟨type, anchorId⟩ := fun h => htype h.1
    rw [ledgerAnchorFromPbtools_of_ne _ htype, ledgerAnchorFromPbtools_of_ne _ htype,
      or_iff_left hnull]
    cases anchorId with
    | none => exact ⟨iff_of_false id id, iff_of_false (fun h => by cases h) id⟩
    | id id => exact ⟨iff_of_true rfl htype, iff_of_true rfl htype⟩
    | hieroTransactionId message =>
        exact ⟨iff_of_false id htype, iff_of_false (fun h => by cases h) htype⟩

/-- An anchor of the Hiero type that holds an integer is read as a pointer, and one of another type
that holds a pointer gives its bits as an id. -/
theorem ledgerAnchorFromPbtools_not_readsSet :
    ¬ReadsSet ⟨.hieroTransactionId, .id 5⟩ []
        (ledgerAnchorFromPbtools plainHost.union (some ⟨.hieroTransactionId, .id 5⟩) () []).1 ∧
      ¬ReadsSet ⟨.legacyGradidoDbTransactionId, .hieroTransactionId (some .init)⟩ []
        (ledgerAnchorFromPbtools plainHost.union
          (some ⟨.legacyGradidoDbTransactionId, .hieroTransactionId (some .init)⟩) () []).1 := by
  constructor
  · intro h
    exact h
  · intro h
    cases h

end Mapping

end GradidoBlockchain
