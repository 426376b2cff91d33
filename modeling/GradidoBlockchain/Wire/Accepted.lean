import GradidoBlockchain.Wire.RoundTrip

/-!
# What a mapping takes

A mapping takes a message that fits: byte strings of the size of the arrays they are copied to,
lists short enough for their counters, and every sub-message it needs. Some messages it does not
even refuse: it reads through a pointer to no message. Which ones these are is settled here,
function by function, together with the messages it takes.
-/

namespace GradidoBlockchain

open Fallible Fallible.Call

/-! ### Messages that fit -/

namespace Proto

/-- A byte string for a uuid, which may be empty. -/
def UuidFits (bytes : ByteString) : Prop := bytes.length = 0 ∨ bytes.length = 16

/-- A list for a counter of eight bits, whose items fit. -/
def FewFit {α : Type} (fits : α → Prop) (items : List α) : Prop :=
  items.length < 255 ∧ ∀ item ∈ items, fits item

def AccountBalance.Fits (pb : AccountBalance) : Prop :=
  pb.pubkey.length = 32 ∧ UuidFits pb.communityUuid

def EncryptedMemo.Fits (maxAllocSize : Nat) (pb : EncryptedMemo) : Prop :=
  pb.memo.length ≤ maxAllocSize

def SignaturePair.Fits (pb : SignaturePair) : Prop :=
  pb.pubkey.length = 32 ∧ pb.signature.length = 64

def TransferAmount.Fits (pb : TransferAmount) : Prop :=
  pb.pubkey.length = 32 ∧ UuidFits pb.communityUuid

def AccountId.Fits (pb : AccountId) : Prop := ∃ num, pb.account = .accountNum num

def TransactionId.Fits (pb : TransactionId) : Prop :=
  (pb.nonce = 0 ∧ pb.scheduled = false) ∧ (∃ start, start ∈ pb.transactionValidStart) ∧
    ∃ account ∈ pb.accountId, account.Fits

def LedgerAnchor.Fits (pb : LedgerAnchor) : Prop :=
  pb.type = .hieroTransactionId →
    ∃ message, pb.anchorId = .hieroTransactionId (some message) ∧ message.Fits

/-- The type of the anchor names the Hiero id, and what the union holds instead of one is not
zero. -/
def LedgerAnchor.Misread (host : Mapping.Host) (pb : LedgerAnchor) : Prop :=
  pb.type = .hieroTransactionId ∧ (∀ message, pb.anchorId ≠ .hieroTransactionId message) ∧
    Mapping.readId host pb ≠ 0

def CommunityRoot.Fits (pb : CommunityRoot) : Prop :=
  pb.pubkey.length = 32 ∧ pb.gmwPubkey.length = 32 ∧ pb.aufPubkey.length = 32

def GradidoCreation.Fits (pb : GradidoCreation) : Prop :=
  (∃ recipient ∈ pb.recipient, recipient.Fits) ∧ ∃ targetDate, targetDate ∈ pb.targetDate

def GradidoTransfer.Fits (pb : GradidoTransfer) : Prop :=
  pb.recipient.length = 32 ∧ ∃ sender ∈ pb.sender, sender.Fits

def GradidoDeferredTransfer.Fits (pb : GradidoDeferredTransfer) : Prop :=
  ∃ timeout ∈ pb.timeoutDuration, timeout.seconds.toNat ≤ uint32Max ∧
    ∃ transfer ∈ pb.transfer, transfer.Fits

def GradidoRedeemDeferredTransfer.Fits (pb : GradidoRedeemDeferredTransfer) : Prop :=
  ∃ transfer ∈ pb.transfer, transfer.Fits

def RegisterAddress.Fits (pb : RegisterAddress) : Prop :=
  pb.userPubkey.length = 32 ∧ pb.nameHash.length = 32 ∧ pb.accountPubkey.length = 32

def Data.Fits : Data → Prop
  | .none => True
  | .transfer message => ∃ transfer ∈ message, transfer.Fits
  | .creation message => ∃ creation ∈ message, creation.Fits
  | .communityFriendsUpdate message => ∃ update, update ∈ message
  | .registerAddress message => ∃ address ∈ message, address.Fits
  | .deferredTransfer message => ∃ deferred ∈ message, deferred.Fits
  | .communityRoot message => ∃ root ∈ message, root.Fits
  | .redeemDeferredTransfer message => ∃ redeem ∈ message, redeem.Fits
  | .timeoutDeferredTransfer message => ∃ timeout, timeout ∈ message
  | .unknown _ => False

/-- The data is a deferred transfer that lacks its timeout. -/
def Data.Misread (data : Data) : Prop :=
  ∃ deferred, data = .deferredTransfer (some deferred) ∧ deferred.timeoutDuration = Option.none

end Proto

namespace Mapping

variable {α β : Type} {host : Host}

/-! ### Mappings decided by their message -/

/-- With memory the mapping takes its message just when `accepted` holds, and without memory it
takes no other and gives the same; `faulty` holds just when it can come to read through a
pointer to no message. -/
structure Decides (call : Decode α) (accepted faulty : Prop) : Prop where
  accepts : accepted → ∃ value, Gives call value
  taken : ∀ {room value left rest}, call () room = (.ok value, left, rest) →
    accepted ∧ Gives call value
  faults : faulty → (call () []).1 = .error .readAbsent
  faulty : ∀ {room}, (call () room).1 = .error .readAbsent → faulty

namespace Decides

variable {accepted faulty other wrong : Prop} {call : Decode α}

theorem congr (hcall : Decides call accepted faulty) (haccepted : accepted ↔ other)
    (hfaulty : faulty ↔ wrong) : Decides call other wrong := by
  rw [← haccepted, ← hfaulty]
  exact hcall

theorem accepted_of_ok (hcall : Decides call accepted faulty) {room left rest} {value : α}
    (hrun : call () room = (.ok value, left, rest)) : accepted := (hcall.taken hrun).1

theorem pure (value : α) : Decides (Pure.pure value) True False where
  accepts _ := ⟨value, rfl⟩
  taken h := by
    obtain ⟨rfl, -, -⟩ := pure_ok.1 h
    exact ⟨trivial, .pure value⟩
  faults h := h.elim
  faulty h := by cases h

theorem refuse (code : ArnmResult) : Decides (Mapping.refuse code : Decode α) False False where
  accepts h := h.elim
  taken h := by cases h
  faults h := h.elim
  faulty h := by cases h

theorem allocate : Decides Mapping.allocate True False where
  accepts _ := ⟨(), rfl⟩
  taken _ := ⟨trivial, rfl⟩
  faults h := h.elim
  faulty {room} h := by rcases room with _ | ⟨_ | _, room⟩ <;> cases h

theorem copy (size : Nat) (bytes : Proto.ByteString) :
    Decides (Mapping.copy size bytes) (bytes.length = size) False := by
  rw [Mapping.copy, Bytes.ofList]
  split
  · split at *
    · exact (pure _).congr (by simp [*]) Iff.rfl
    · cases ‹none = some _›
  · split at *
    · cases ‹some _ = none›
    · exact (refuse _).congr (by simp [*]) Iff.rfl

/-- One step after the other: the second one counts where the first one is taken. -/
theorem bind {next : α → Decode β} (hcall : Decides call accepted faulty)
    (hnext : ∀ value, Decides (next value) other wrong) :
    Decides (call >>= next) (accepted ∧ other) (faulty ∨ accepted ∧ wrong) where
  accepts h := by
    obtain ⟨value, hvalue⟩ := hcall.accepts h.1
    obtain ⟨result, hresult⟩ := (hnext value).accepts h.2
    exact ⟨result, hvalue.bind hresult⟩
  taken h := by
    obtain ⟨value, _, _, hvalue, hresult⟩ := bind_ok.1 h
    obtain ⟨haccepted, hgives⟩ := hcall.taken hvalue
    obtain ⟨hother, hresult⟩ := (hnext value).taken hresult
    exact ⟨⟨haccepted, hother⟩, hgives.bind hresult⟩
  faults h := by
    rcases h with hfaulty | ⟨haccepted, hwrong⟩
    · exact bind_fst_error (hcall.faults hfaulty)
    · obtain ⟨value, hvalue⟩ := hcall.accepts haccepted
      have hbind : (call >>= next) () [] = next value () [] := bind_run_ok hvalue
      exact (congrArg Prod.fst hbind).trans ((hnext value).faults hwrong)
  faulty {room} h := by
    rcases bind_error.1 (Prod.ext h rfl) with hfirst | ⟨value, _, _, hvalue, hsecond⟩
    · exact .inl (hcall.faulty (congrArg Prod.fst hfirst))
    · exact .inr ⟨hcall.accepted_of_ok hvalue, (hnext value).faulty (congrArg Prod.fst hsecond)⟩

theorem andThen {next : α → Decode β} (hcall : Decides call accepted False)
    (hnext : ∀ value, Decides (next value) other wrong) :
    Decides (call >>= next) (accepted ∧ other) (accepted ∧ wrong) :=
  (hcall.bind hnext).congr Iff.rfl (by simp)

theorem thenSafe {next : α → Decode β} (hcall : Decides call accepted False)
    (hnext : ∀ value, Decides (next value) other False) :
    Decides (call >>= next) (accepted ∧ other) False :=
  (hcall.andThen hnext).congr Iff.rfl (by simp)

theorem thenGive (hcall : Decides call accepted faulty) (result : α → β) :
    Decides (call >>= fun value => Pure.pure (result value)) accepted faulty :=
  (hcall.bind fun value => pure (result value)).congr (by simp) (by simp)

theorem map (hcall : Decides call accepted faulty) (change : α → β) :
    Decides (change <$> call) accepted faulty :=
  hcall.thenGive change

theorem notNull {pointer : Option α} {next : α → Decode β} {fits wrong : α → Prop}
    (hnext : ∀ message, Decides (next message) (fits message) (wrong message)) :
    Decides (Mapping.notNull pointer >>= next) (∃ message ∈ pointer, fits message)
      (∃ message ∈ pointer, wrong message) := by
  cases pointer with
  | none => exact (refuse _).congr (by simp) (by simp)
  | some message => exact (hnext message).congr (by simp) (by simp)

theorem notNullSafe {pointer : Option α} {next : α → Decode β} {fits : α → Prop}
    (hnext : ∀ message, Decides (next message) (fits message) False) :
    Decides (Mapping.notNull pointer >>= next) (∃ message ∈ pointer, fits message) False :=
  (notNull hnext).congr Iff.rfl (by simp)

/-- A read that nobody has checked. -/
theorem read {pointer : Option α} {next : α → Decode β} {fits : α → Prop}
    (hnext : ∀ message, Decides (next message) (fits message) False) :
    Decides (Mapping.read pointer >>= next) (∃ message ∈ pointer, fits message)
      (pointer = none) := by
  cases pointer with
  | none =>
      exact ⟨fun h => by simp at h, fun h => (by cases h), fun _ => rfl, fun _ => rfl⟩
  | some message => exact (hnext message).congr (by simp) (by simp)

theorem guard {refused : Prop} [Decidable refused] {code : ArnmResult}
    (hcall : Decides call accepted faulty) :
    Decides (if refused then Mapping.refuse code else call) (¬refused ∧ accepted)
      (¬refused ∧ faulty) := by
  by_cases h : refused
  · rw [if_pos h]
    exact (refuse code).congr (by simp [h]) (by simp [h])
  · rw [if_neg h]
    exact hcall.congr (by simp [h]) (by simp [h])

theorem convertAll {convert : α → Decode β} {fits : α → Prop}
    (hconvert : ∀ item, Decides (convert item) (fits item) False) (items : List α) :
    Decides (Mapping.convertAll convert items) (∀ item ∈ items, fits item) False := by
  induction items with
  | nil => exact (pure _).congr (by simp) Iff.rfl
  | cons item items ih =>
      exact ((hconvert item).andThen fun _ => ih.thenGive _).congr (by simp) (by simp)

theorem few {convert : α → Decode β} {fits : α → Prop}
    (hconvert : ∀ item, Decides (convert item) (fits item) False) (items : List α) :
    Decides (fewFromPbtools convert items) (Proto.FewFit fits items) False := by
  rw [fewFromPbtools, Proto.FewFit]
  split
  · split
    · exact (refuse _).congr ⟨False.elim, fun h => by omega⟩ Iff.rfl
    · refine (allocate.andThen fun _ => (convertAll hconvert items).thenGive _).congr ?_ (by simp)
      have hlt : items.length < 255 := by omega
      simp [hlt]
  · have hempty : items = [] := List.length_eq_zero_iff.1 (by omega)
    exact (pure _).congr (by simp [hempty]) Iff.rfl

end Decides

/-! ### What each mapping takes -/

theorem communityUuid_decides (bytes : Proto.ByteString) :
    Decides (communityUuidFromPbtools bytes) (Proto.UuidFits bytes) False := by
  rw [communityUuidFromPbtools, Proto.UuidFits]
  split
  · exact (Decides.pure _).congr (by simp [*]) Iff.rfl
  · exact (Decides.copy 16 bytes).congr (by simp [*]) Iff.rfl

theorem memoryBlock_decides (bytes : Proto.ByteString) :
    Decides (memoryBlockFromPbtools host bytes)
      (bytes.length ≠ 0 ∧ bytes.length ≤ host.maxAllocSize) False := by
  rw [memoryBlockFromPbtools]
  exact (Decides.guard (.guard (Decides.allocate.thenGive _))).congr (by simp) (by simp)

theorem accountBalance_decides (pb : Proto.AccountBalance) :
    Decides (accountBalanceFromPbtools pb) pb.Fits False :=
  (Decides.copy 32 pb.pubkey).thenSafe fun _ => (communityUuid_decides pb.communityUuid).thenGive _

theorem encryptedMemo_decides (pb : Proto.EncryptedMemo) :
    Decides (encryptedMemoFromPbtools host pb) (pb.Fits host.maxAllocSize) False := by
  rw [encryptedMemoFromPbtools, Proto.EncryptedMemo.Fits]
  split
  · exact ((memoryBlock_decides pb.memo).thenGive _).congr ⟨And.right, fun h => ⟨by omega, h⟩⟩
      Iff.rfl
  · exact (Decides.pure _).congr ⟨fun _ => by omega, fun _ => trivial⟩ Iff.rfl

theorem signaturePair_decides (pb : Proto.SignaturePair) :
    Decides (signaturePairFromPbtools pb) pb.Fits False :=
  (Decides.copy 32 pb.pubkey).thenSafe fun _ => (Decides.copy 64 pb.signature).thenGive _

theorem timestamp_decides (pb : Option Proto.Timestamp) :
    Decides (timestampFromPbtools pb) (∃ timestamp, timestamp ∈ pb) False :=
  (Decides.notNullSafe fun _ => .pure _).congr (by simp) Iff.rfl

theorem timestampSeconds_decides (pb : Option Proto.TimestampSeconds) :
    Decides (timestampSecondsFromPbtools pb) (∃ timestamp, timestamp ∈ pb) False :=
  (Decides.notNullSafe fun _ => .pure _).congr (by simp) Iff.rfl

theorem transferAmount_decides (pb : Option Proto.TransferAmount) :
    Decides (transferAmountFromPbtools pb) (∃ amount ∈ pb, amount.Fits) False :=
  Decides.notNullSafe fun amount => (Decides.copy 32 amount.pubkey).thenSafe fun _ =>
    (communityUuid_decides amount.communityUuid).thenGive _

theorem hieroAccountId_decides (pb : Option Proto.AccountId) :
    Decides (hieroAccountIdFromPbtools pb) (∃ account ∈ pb, account.Fits) False := by
  refine Decides.notNullSafe fun account => ?_
  rw [Proto.AccountId.Fits]
  cases haccount : account.account with
  | accountNum num => exact (Decides.pure _).congr (by simp) Iff.rfl
  | none => exact (Decides.refuse _).congr (by simp) Iff.rfl
  | «alias» bytes => exact (Decides.refuse _).congr (by simp) Iff.rfl

theorem hieroTransactionId_decides (pb : Option Proto.TransactionId) :
    Decides (hieroTransactionIdFromPbtools pb) (∃ id ∈ pb, id.Fits) False := by
  refine Decides.notNullSafe fun id => ?_
  refine (Decides.guard ((timestamp_decides id.transactionValidStart).thenSafe fun _ =>
    (hieroAccountId_decides id.accountId).thenGive _)).congr ?_ (by simp)
  simp [Proto.TransactionId.Fits]

theorem readHiero_of_ne {anchor : Proto.LedgerAnchor}
    (hother : ∀ message, anchor.anchorId ≠ .hieroTransactionId message) :
    readHiero host anchor = if readId host anchor = 0 then pure none else fail .readAbsent := by
  rw [readHiero]
  split
  · exact absurd ‹_› (hother _)
  · rfl

theorem ledgerAnchor_decides (pb : Option Proto.LedgerAnchor) :
    Decides (ledgerAnchorFromPbtools host.union pb) (∃ anchor ∈ pb, anchor.Fits)
      (∃ anchor ∈ pb, anchor.Misread host) := by
  refine Decides.notNull fun anchor => ?_
  rw [Proto.LedgerAnchor.Fits, Proto.LedgerAnchor.Misread]
  by_cases htype : anchor.type = .hieroTransactionId
  · rw [dif_pos htype]
    simp only [htype, true_imp_iff, true_and]
    change Decides (readHiero host anchor >>= _) _ _
    by_cases hset : ∃ message, anchor.anchorId = .hieroTransactionId message
    · obtain ⟨message, hset⟩ := hset
      have hread : readHiero host anchor = pure message := by rw [readHiero, hset]
      rw [hread]
      have hdecides :=
        (hieroTransactionId_decides message).thenGive Wire.LedgerAnchor.hieroTransactionId
      exact hdecides.congr (by simp [hset]) (by simp [hset])
    · have hother : ∀ message, anchor.anchorId ≠ .hieroTransactionId message := by simpa using hset
      rw [readHiero_of_ne hother]
      -- What is no Hiero id is a null pointer, or it points at no message.
      by_cases hzero : readId host anchor = 0
      · rw [if_pos hzero]
        exact (Decides.refuse .nullPointer).congr (by simp [hother]) (by simp [hzero])
      · rw [if_neg hzero]
        exact ⟨fun h => by simp [hother] at h, fun h => (by cases h), fun _ => rfl,
          fun _ => ⟨hother, hzero⟩⟩
  · rw [dif_neg htype]
    exact (Decides.pure _).congr (by simp [htype]) (by simp [htype])

theorem communityFriendsUpdate_decides (pb : Option Proto.CommunityFriendsUpdate) :
    Decides (communityFriendsUpdateFromPbtools pb) (∃ update, update ∈ pb) False :=
  (Decides.notNullSafe fun _ => .pure _).congr (by simp) Iff.rfl

theorem communityRoot_decides (pb : Option Proto.CommunityRoot) :
    Decides (communityRootFromPbtools pb) (∃ root ∈ pb, root.Fits) False :=
  Decides.notNullSafe fun root =>
    (Decides.copy 32 root.pubkey).thenSafe fun _ =>
      (Decides.copy 32 root.gmwPubkey).thenSafe fun _ => (Decides.copy 32 root.aufPubkey).thenGive _

theorem gradidoCreation_decides (pb : Option Proto.GradidoCreation) :
    Decides (gradidoCreationFromPbtools pb) (∃ creation ∈ pb, creation.Fits) False :=
  Decides.notNullSafe fun creation => (transferAmount_decides creation.recipient).thenSafe fun _ =>
    (timestampSeconds_decides creation.targetDate).thenGive _

theorem gradidoTransfer_decides (pb : Option Proto.GradidoTransfer) :
    Decides (gradidoTransferFromPbtools pb) (∃ transfer ∈ pb, transfer.Fits) False :=
  Decides.notNullSafe fun transfer => (Decides.copy 32 transfer.recipient).thenSafe fun _ =>
    (transferAmount_decides transfer.sender).thenGive _

theorem gradidoDeferredTransfer_decides (pb : Option Proto.GradidoDeferredTransfer) :
    Decides (gradidoDeferredTransferFromPbtools pb) (∃ deferred ∈ pb, deferred.Fits)
      (∃ deferred ∈ pb, deferred.timeoutDuration = none) := by
  refine Decides.notNull fun deferred => Decides.read fun timeout => ?_
  exact (Decides.guard ((gradidoTransfer_decides deferred.transfer).thenGive _)).congr (by simp)
    (by simp)

theorem gradidoRedeemDeferredTransfer_decides (pb : Option Proto.GradidoRedeemDeferredTransfer) :
    Decides (gradidoRedeemDeferredTransferFromPbtools pb) (∃ redeem ∈ pb, redeem.Fits) False :=
  Decides.notNullSafe fun redeem => (gradidoTransfer_decides redeem.transfer).thenGive _

theorem gradidoTimeoutDeferredTransfer_decides (pb : Option Proto.GradidoTimeoutDeferredTransfer) :
    Decides (gradidoTimeoutDeferredTransferFromPbtools pb) (∃ timeout, timeout ∈ pb) False :=
  (Decides.notNullSafe fun _ => .pure _).congr (by simp) Iff.rfl

theorem registerAddress_decides (pb : Option Proto.RegisterAddress) :
    Decides (registerAddressFromPbtools pb) (∃ address ∈ pb, address.Fits) False :=
  Decides.notNullSafe fun address =>
    (Decides.copy 32 address.userPubkey).thenSafe fun _ =>
      (Decides.copy 32 address.nameHash).thenSafe fun _ =>
        (Decides.copy 32 address.accountPubkey).thenGive _

theorem detail_decides (data : Proto.Data) :
    Decides (detailFromPbtools data) data.Fits data.Misread := by
  have hsafe : ∀ {call : Decode Wire.Detail} {fits : Prop} {data : Proto.Data}, Decides call fits
        False → (∀ deferred, data ≠ .deferredTransfer (some deferred)) →
      Decides call fits data.Misread :=
    fun hcall hdata =>
      hcall.congr Iff.rfl ⟨False.elim, fun ⟨deferred, hdeferred, _⟩ => hdata deferred hdeferred⟩
  cases data with
  | none => exact hsafe (.pure _) (by simp)
  | creation message => exact hsafe ((gradidoCreation_decides message).map _) (by simp)
  | transfer message => exact hsafe ((gradidoTransfer_decides message).map _) (by simp)
  | communityFriendsUpdate message =>
      exact hsafe ((communityFriendsUpdate_decides message).map _) (by simp)
  | registerAddress message => exact hsafe ((registerAddress_decides message).map _) (by simp)
  | deferredTransfer message =>
      exact ((gradidoDeferredTransfer_decides message).map _).congr Iff.rfl
        (by simp [Proto.Data.Misread])
  | communityRoot message => exact hsafe ((communityRoot_decides message).map _) (by simp)
  | redeemDeferredTransfer message =>
      exact hsafe ((gradidoRedeemDeferredTransfer_decides message).map _) (by simp)
  | timeoutDeferredTransfer message =>
      exact hsafe ((gradidoTimeoutDeferredTransfer_decides message).map _) (by simp)
  | unknown past => exact hsafe (.refuse _) (by simp)

/-! ### Bodies and confirmed transactions -/

theorem otherCommunityUuid_decides (bytes : Proto.ByteString) :
    Decides (otherCommunityUuidFromPbtools bytes) (Proto.UuidFits bytes) False := by
  rw [otherCommunityUuidFromPbtools]
  split
  · exact (Decides.pure _).congr (by simp [Proto.UuidFits, *]) Iff.rfl
  · exact (Decides.allocate.thenSafe fun _ => (communityUuid_decides bytes).map _).congr (by simp)
      Iff.rfl

end Mapping

namespace Proto

/-- Everything in the body that is read before its data fits. -/
def TransactionBody.HeadFits (host : Mapping.Host) (pb : TransactionBody) : Prop :=
  pb.versionNumber = protocolVersion ∧ FewFit (EncryptedMemo.Fits host.maxAllocSize) pb.memos ∧
    UuidFits pb.otherCommunityUuid ∧ ∃ createdAt, createdAt ∈ pb.createdAt

/-- What `grdm_transaction_body_from_pbtools` takes. -/
def TransactionBody.Fits (host : Mapping.Host) (pb : TransactionBody) : Prop :=
  pb.HeadFits host ∧ pb.data.Fits

/-- The body's data is reached, and read through a pointer to no message. -/
def TransactionBody.Misread (host : Mapping.Host) (pb : TransactionBody) : Prop :=
  pb.HeadFits host ∧ pb.data.Misread

def SignatureMap.Fits (pb : SignatureMap) : Prop := FewFit SignaturePair.Fits pb.sigPair

def GradidoTransaction.Fits (host : Mapping.Host) (pb : GradidoTransaction) : Prop :=
  (∀ sigMap ∈ pb.sigMap, sigMap.Fits) ∧ (∀ anchor ∈ pb.pairingLedgerAnchor, anchor.Fits) ∧
    pb.bodyBytes.length ≠ 0 ∧ pb.bodyBytes.length ≤ host.maxAllocSize

def GradidoTransaction.Misread (host : Mapping.Host) (pb : GradidoTransaction) : Prop :=
  (∀ sigMap ∈ pb.sigMap, sigMap.Fits) ∧ ∃ anchor ∈ pb.pairingLedgerAnchor, anchor.Misread host

/-- What `grdm_confirmed_transaction_from_pb` takes. -/
def ConfirmedTransaction.Fits (host : Mapping.Host) (pb : ConfirmedTransaction) : Prop :=
  pb.versionNumber = protocolVersion ∧ (∃ transaction ∈ pb.transaction, transaction.Fits host) ∧
    (∃ confirmedAt, confirmedAt ∈ pb.confirmedAt) ∧ pb.runningHash.length = 32 ∧
    (∃ anchor ∈ pb.ledgerAnchor, anchor.Fits) ∧ FewFit AccountBalance.Fits pb.accountBalances

/-- One of the two anchors is reached, and read through a pointer to no message. -/
def ConfirmedTransaction.Misread (host : Mapping.Host) (pb : ConfirmedTransaction) : Prop :=
  pb.versionNumber = protocolVersion ∧
    ((∃ transaction ∈ pb.transaction, transaction.Misread host) ∨
      (∃ transaction ∈ pb.transaction, transaction.Fits host) ∧
        (∃ confirmedAt, confirmedAt ∈ pb.confirmedAt) ∧ pb.runningHash.length = 32 ∧
        ∃ anchor ∈ pb.ledgerAnchor, anchor.Misread host)

end Proto

namespace Mapping

variable {host : Host}

theorem transactionBody_decides (pb : Proto.TransactionBody) :
    Decides (transactionBodyFromPbtools host pb) (pb.Fits host) (pb.Misread host) := by
  refine (Decides.guard
    ((Decides.few encryptedMemo_decides pb.memos).andThen fun _ =>
      (otherCommunityUuid_decides pb.otherCommunityUuid).andThen fun _ =>
        (timestamp_decides pb.createdAt).andThen fun _ =>
          (detail_decides pb.data).thenGive _)).congr ?_ ?_
  · simp only [Proto.TransactionBody.Fits, Proto.TransactionBody.HeadFits, not_not, and_assoc,
      eq_comm]
  · simp only [Proto.TransactionBody.Misread, Proto.TransactionBody.HeadFits, not_not, and_assoc,
      eq_comm]

theorem sigMap_decides (pb : Option Proto.SignatureMap) :
    Decides (sigMapFromPb pb) (∀ sigMap ∈ pb, sigMap.Fits) False := by
  cases pb with
  | none => exact (Decides.pure _).congr (by simp) Iff.rfl
  | some sigMap =>
      exact (Decides.few signaturePair_decides sigMap.sigPair).congr
        (by simp [Proto.SignatureMap.Fits]) Iff.rfl

theorem pairingLedgerAnchor_decides (pb : Option Proto.LedgerAnchor) :
    Decides (pairingLedgerAnchorFromPb host pb) (∀ anchor ∈ pb, anchor.Fits)
      (∃ anchor ∈ pb, anchor.Misread host) := by
  cases pb with
  | none => exact (Decides.pure _).congr (by simp) (by simp)
  | some anchor => exact (ledgerAnchor_decides (some anchor)).congr (by simp) Iff.rfl

theorem gradidoTransaction_decides (pb : Option Proto.GradidoTransaction) :
    Decides (gradidoTransactionFromPb host pb) (∃ transaction ∈ pb, transaction.Fits host)
      (∃ transaction ∈ pb, transaction.Misread host) := by
  refine Decides.notNull fun transaction => ?_
  exact ((sigMap_decides transaction.sigMap).andThen fun _ =>
    (pairingLedgerAnchor_decides transaction.pairingLedgerAnchor).bind fun _ =>
      (memoryBlock_decides transaction.bodyBytes).thenGive _).congr Iff.rfl
    (by simp [Proto.GradidoTransaction.Misread])

theorem confirmedTransaction_decides (pb : Proto.ConfirmedTransaction) :
    Decides (confirmedTransactionFromPb host pb) (pb.Fits host) (pb.Misread host) := by
  refine (Decides.guard
    ((gradidoTransaction_decides pb.transaction).bind fun _ =>
      (timestamp_decides pb.confirmedAt).andThen fun _ =>
        (Decides.copy 32 pb.runningHash).andThen fun _ =>
          (ledgerAnchor_decides pb.ledgerAnchor).bind fun _ =>
            (Decides.few accountBalance_decides pb.accountBalances).thenGive _)).congr ?_ ?_
  · simp only [Proto.ConfirmedTransaction.Fits, not_not, eq_comm]
  · simp only [Proto.ConfirmedTransaction.Misread, not_not, eq_comm, and_false, or_false]

end Mapping

end GradidoBlockchain
