import GradidoBlockchain.Pb.ReadBack

/-!
# Messages there and back

What an encoder has written the decoder of the same message reads as it was. A message comes back
unless it announces a member that it lacks, has data without a name or an enumeration of more than
32 bits, none of which a decoder gives.
-/

namespace GradidoBlockchain

open WireFormat

namespace Proto

/-! ### Messages that can be read again -/

def EncryptedMemo.Legible (pb : EncryptedMemo) : Prop := pb.type.code < 2 ^ 32

def LedgerAnchor.Legible (pb : LedgerAnchor) : Prop :=
  pb.type.code < 2 ^ 32 ∧ pb.anchorId ≠ .hieroTransactionId none

def RegisterAddress.Legible (pb : RegisterAddress) : Prop := pb.addressType.code < 2 ^ 32

def Data.Legible : Data → Prop
  | .none => True
  | .transfer message => message ≠ Option.none
  | .creation message => message ≠ Option.none
  | .communityFriendsUpdate message => message ≠ Option.none
  | .registerAddress message => ∃ address ∈ message, address.Legible
  | .deferredTransfer message => message ≠ Option.none
  | .communityRoot message => message ≠ Option.none
  | .redeemDeferredTransfer message => message ≠ Option.none
  | .timeoutDeferredTransfer message => message ≠ Option.none
  | .unknown _ => False

def TransactionBody.Legible (pb : TransactionBody) : Prop :=
  pb.data.Legible ∧ (∀ memo ∈ pb.memos, memo.Legible) ∧ pb.type.code < 2 ^ 32

def GradidoTransaction.Legible (pb : GradidoTransaction) : Prop :=
  ∀ anchor ∈ pb.pairingLedgerAnchor, anchor.Legible

def ConfirmedTransaction.Legible (pb : ConfirmedTransaction) : Prop :=
  (∀ transaction ∈ pb.transaction, transaction.Legible) ∧ ∀ anchor ∈ pb.ledgerAnchor, anchor.Legible

end Proto

namespace PbTools

/-! ### Basic messages -/

theorem timestamp_read (pb : Proto.Timestamp) : timestampDecodeInner pb.bytes = some pb := by
  apply Scan.Leads.scan_eq
  apply Scan.Leads.append
  · exact leads_int64 (Proto.Timestamp.mk · 0) (by decide) (fun _ => rfl) rfl _ _
  · exact leads_int32 (Proto.Timestamp.mk pb.seconds) (by decide) (fun _ => rfl) rfl _ _

theorem timestampSeconds_read (pb : Proto.TimestampSeconds) :
    timestampSecondsDecodeInner pb.bytes = some pb := by
  apply Scan.Leads.scan_eq
  exact leads_int64 Proto.TimestampSeconds.mk (by decide) (fun _ => rfl) rfl _ _

theorem durationSeconds_read (pb : Proto.DurationSeconds) :
    durationSecondsDecodeInner pb.bytes = some pb := by
  apply Scan.Leads.scan_eq
  exact leads_uint64 Proto.DurationSeconds.mk (by decide) (fun _ => rfl) rfl _ _

theorem accountBalance_read {pb : Proto.AccountBalance} (hsmall : pb.bytes.length < intMax) :
    accountBalanceDecodeInner pb.bytes = some pb := by
  obtain ⟨pubkey, balance, communityUuid⟩ := pb
  simp only [Proto.AccountBalance.bytes, List.append_assoc, List.length_append] at hsmall ⊢
  apply Scan.Leads.scan_eq
  refine .append
    (leads_bytes (Proto.AccountBalance.mk · 0 []) (by decide) (fun _ => rfl) rfl (by omega) _) ?_
  refine .append
    (leads_int64 (Proto.AccountBalance.mk pubkey · []) (by decide) (fun _ => rfl) rfl _ _) ?_
  exact leads_bytes (Proto.AccountBalance.mk pubkey balance) (by decide) (fun _ => rfl) rfl
    (by omega) _

theorem encryptedMemo_read {pb : Proto.EncryptedMemo} (hlegible : pb.Legible)
    (hsmall : pb.bytes.length < intMax) : encryptedMemoDecodeInner pb.bytes = some pb := by
  obtain ⟨type, memo⟩ := pb
  simp only [Proto.EncryptedMemo.bytes, List.length_append] at hsmall ⊢
  apply Scan.Leads.scan_eq
  apply Scan.Leads.append
  · exact leads_enum (Proto.EncryptedMemo.mk · []) (by decide) (fun _ => rfl) rfl
      (MemoKey.ofCode_code type) hlegible _
  · exact leads_bytes (Proto.EncryptedMemo.mk type) (by decide) (fun _ => rfl) rfl (by omega) _

theorem signaturePair_read {pb : Proto.SignaturePair} (hsmall : pb.bytes.length < intMax) :
    signaturePairDecodeInner pb.bytes = some pb := by
  obtain ⟨pubkey, signature⟩ := pb
  simp only [Proto.SignaturePair.bytes, List.length_append] at hsmall ⊢
  apply Scan.Leads.scan_eq
  apply Scan.Leads.append
  · exact leads_bytes (Proto.SignaturePair.mk · []) (by decide) (fun _ => rfl) rfl (by omega) _
  · exact leads_bytes (Proto.SignaturePair.mk pubkey) (by decide) (fun _ => rfl) rfl (by omega) _

theorem signatureMap_read {pb : Proto.SignatureMap} (hsmall : pb.bytes.length < intMax) :
    signatureMapDecodeInner pb.bytes = some pb := by
  have hpairs : ∀ pair ∈ pb.sigPair, pair.bytes.length < intMax := fun pair hpair =>
    Nat.lt_of_le_of_lt (length_le_messageFields 1 Proto.SignaturePair.bytes hpair) hsmall
  apply Option.bind_eq_some_iff.2
  refine ⟨countedOf 1 Proto.SignaturePair.bytes [] pb.sigPair, ?_, ?_⟩
  · apply Scan.Leads.scan_eq
    exact leads_repeated id (by decide) (fun info bytes => (store_id _).symm) hpairs []
  · apply Option.bind_eq_some_iff.2
    exact ⟨pb.sigPair,
      decodeRepeatedInner_write _ (by decide) hpairs
        (fun pair hpair => signaturePair_read (hpairs pair hpair)) [], rfl⟩

theorem transferAmount_read {pb : Proto.TransferAmount} (hsmall : pb.bytes.length < intMax) :
    transferAmountDecodeInner pb.bytes = some pb := by
  obtain ⟨pubkey, amount, communityUuid⟩ := pb
  simp only [Proto.TransferAmount.bytes, List.append_assoc, List.length_append] at hsmall ⊢
  apply Scan.Leads.scan_eq
  refine .append
    (leads_bytes (Proto.TransferAmount.mk · 0 []) (by decide) (fun _ => rfl) rfl (by omega) _) ?_
  refine .append
    (leads_int64 (Proto.TransferAmount.mk pubkey · []) (by decide) (fun _ => rfl) rfl _ _) ?_
  exact leads_bytes (Proto.TransferAmount.mk pubkey amount) (by decide) (fun _ => rfl) rfl
    (by omega) _

/-! ### Ledger anchors -/

theorem accountId_read {pb : Proto.AccountId} (hsmall : pb.bytes.length < intMax) :
    accountIdDecodeInner pb.bytes = some pb := by
  obtain ⟨shardNum, realmNum, account⟩ := pb
  simp only [Proto.AccountId.bytes, List.append_assoc, List.length_append] at hsmall ⊢
  apply Scan.Leads.scan_eq
  refine .append (show Scan.Leads _ _ _ _ ⟨0, 0, account⟩ from ?_) ?_
  · cases account with
    | none => exact .nil _ _
    | accountNum num =>
        exact leads_varintField (Proto.AccountId.mk 0 0 <| .accountNum ·) (by decide) (fun _ => rfl)
          (Reads.int64 num) _
    | «alias» bytes =>
        have hlt := length_le_bytesField 4 bytes
        rw [Proto.Account.bytes] at *
        exact leads_bytesField (Proto.AccountId.mk 0 0 <| .alias ·) (by decide) (fun _ => rfl)
          (Reads.bytes (by omega)) _
  · refine .append (leads_int64 (Proto.AccountId.mk · 0 account) (by decide) (fun _ => rfl) rfl _ _)
      ?_
    exact leads_int64 (Proto.AccountId.mk shardNum · account) (by decide) (fun _ => rfl) rfl _ _

theorem transactionId_read {pb : Proto.TransactionId} (hsmall : pb.bytes.length < intMax) :
    transactionIdDecodeInner pb.bytes = some pb := by
  obtain ⟨start, id, scheduled, nonce⟩ := pb
  simp only [Proto.TransactionId.bytes, List.append_assoc, List.length_append] at hsmall ⊢
  apply Scan.Leads.scan_eq
  refine .append
    (leads_message (Proto.TransactionId.mk · none false 0) (by decide) (fun _ => rfl) rfl (by omega)
      (fun start _ _ => timestamp_read start) _) ?_
  refine .append
    (leads_message (Proto.TransactionId.mk start · false 0) (by decide) (fun _ => rfl) rfl
      (by omega) (fun account _ => @accountId_read account) _) ?_
  refine .append
    (leads_bool (Proto.TransactionId.mk start id · 0) (by decide) (fun _ => rfl) rfl _ _) ?_
  exact leads_int32 (Proto.TransactionId.mk start id scheduled) (by decide) (fun _ => rfl) rfl _ _

theorem ledgerAnchor_read {pb : Proto.LedgerAnchor} (hlegible : pb.Legible)
    (hsmall : pb.bytes.length < intMax) : ledgerAnchorDecodeInner pb.bytes = some pb := by
  obtain ⟨type, anchorId⟩ := pb
  obtain ⟨htype, hpresent⟩ := hlegible
  simp only [Proto.LedgerAnchor.bytes, List.length_append] at hsmall ⊢
  apply Scan.Leads.scan_eq
  refine .append (show Scan.Leads _ _ _ _ ⟨.unspecified, anchorId⟩ from ?_) ?_
  · cases anchorId with
    | none => exact .nil _ _
    | hieroTransactionId message =>
        cases message with
        | none => exact absurd rfl hpresent
        | some id =>
            have hlt := length_le_bytesField 3 id.bytes
            change (bytesField 3 id.bytes).length + _ < intMax at hsmall
            exact leads_bytesField
              (Proto.LedgerAnchor.mk .unspecified <| .hieroTransactionId <| some ·) (by decide)
              (fun _ => rfl) (Reads.subMessage (by omega) (transactionId_read (by omega))) _
    | id num =>
        exact leads_varintField (Proto.LedgerAnchor.mk .unspecified <| .id ·) (by decide)
          (fun _ => rfl) (Reads.uint64 num) _
  · exact leads_enum (Proto.LedgerAnchor.mk · anchorId) (by decide) (fun _ => rfl) rfl
      (LedgerAnchorType.ofCode_code type) htype _

/-! ### The transactions of a body -/

theorem communityFriendsUpdate_read (pb : Proto.CommunityFriendsUpdate) :
    communityFriendsUpdateDecodeInner pb.bytes = some pb := by
  apply Scan.Leads.scan_eq
  exact leads_bool Proto.CommunityFriendsUpdate.mk (by decide) (fun _ => rfl) rfl _ _

theorem communityRoot_read {pb : Proto.CommunityRoot} (hsmall : pb.bytes.length < intMax) :
    communityRootDecodeInner pb.bytes = some pb := by
  obtain ⟨pubkey, gmwPubkey, aufPubkey⟩ := pb
  simp only [Proto.CommunityRoot.bytes, List.append_assoc, List.length_append] at hsmall ⊢
  apply Scan.Leads.scan_eq
  refine .append
    (leads_bytes (Proto.CommunityRoot.mk · [] []) (by decide) (fun _ => rfl) rfl (by omega) _) ?_
  refine .append
    (leads_bytes (Proto.CommunityRoot.mk pubkey · []) (by decide) (fun _ => rfl) rfl (by omega) _)
    ?_
  exact leads_bytes (Proto.CommunityRoot.mk pubkey gmwPubkey) (by decide) (fun _ => rfl) rfl
    (by omega) _

theorem gradidoCreation_read {pb : Proto.GradidoCreation} (hsmall : pb.bytes.length < intMax) :
    gradidoCreationDecodeInner pb.bytes = some pb := by
  obtain ⟨recipient, targetDate⟩ := pb
  simp only [Proto.GradidoCreation.bytes, List.length_append] at hsmall ⊢
  apply Scan.Leads.scan_eq
  apply Scan.Leads.append
  · exact leads_message (Proto.GradidoCreation.mk · none) (by decide) (fun _ => rfl) rfl (by omega)
      (fun amount _ => @transferAmount_read amount) _
  · exact leads_message (Proto.GradidoCreation.mk recipient) (by decide) (fun _ => rfl) rfl
      (by omega) (fun seconds _ _ => timestampSeconds_read seconds) _

theorem gradidoTransfer_read {pb : Proto.GradidoTransfer} (hsmall : pb.bytes.length < intMax) :
    gradidoTransferDecodeInner pb.bytes = some pb := by
  obtain ⟨sender, recipient⟩ := pb
  simp only [Proto.GradidoTransfer.bytes, List.length_append] at hsmall ⊢
  apply Scan.Leads.scan_eq
  apply Scan.Leads.append
  · exact leads_message (Proto.GradidoTransfer.mk · []) (by decide) (fun _ => rfl) rfl (by omega)
      (fun amount _ => @transferAmount_read amount) _
  · exact leads_bytes (Proto.GradidoTransfer.mk sender) (by decide) (fun _ => rfl) rfl (by omega) _

theorem gradidoDeferredTransfer_read {pb : Proto.GradidoDeferredTransfer}
    (hsmall : pb.bytes.length < intMax) :
    gradidoDeferredTransferDecodeInner pb.bytes = some pb := by
  obtain ⟨transfer, timeoutDuration⟩ := pb
  simp only [Proto.GradidoDeferredTransfer.bytes, List.length_append] at hsmall ⊢
  apply Scan.Leads.scan_eq
  apply Scan.Leads.append
  · exact leads_message (Proto.GradidoDeferredTransfer.mk · none) (by decide) (fun _ => rfl) rfl
      (by omega) (fun transfer _ => @gradidoTransfer_read transfer) _
  · exact leads_message (Proto.GradidoDeferredTransfer.mk transfer) (by decide) (fun _ => rfl) rfl
      (by omega) (fun duration _ _ => durationSeconds_read duration) _

theorem gradidoRedeemDeferredTransfer_read {pb : Proto.GradidoRedeemDeferredTransfer}
    (hsmall : pb.bytes.length < intMax) :
    gradidoRedeemDeferredTransferDecodeInner pb.bytes = some pb := by
  obtain ⟨nr, transfer⟩ := pb
  simp only [Proto.GradidoRedeemDeferredTransfer.bytes, List.length_append] at hsmall ⊢
  apply Scan.Leads.scan_eq
  apply Scan.Leads.append
  · exact leads_uint64 (Proto.GradidoRedeemDeferredTransfer.mk · none) (by decide) (fun _ => rfl)
      rfl _ _
  · exact leads_message (Proto.GradidoRedeemDeferredTransfer.mk nr) (by decide) (fun _ => rfl) rfl
      (by omega) (fun transfer _ => @gradidoTransfer_read transfer) _

theorem gradidoTimeoutDeferredTransfer_read (pb : Proto.GradidoTimeoutDeferredTransfer) :
    gradidoTimeoutDeferredTransferDecodeInner pb.bytes = some pb := by
  apply Scan.Leads.scan_eq
  exact leads_uint64 Proto.GradidoTimeoutDeferredTransfer.mk (by decide) (fun _ => rfl) rfl _ _

theorem registerAddress_read {pb : Proto.RegisterAddress} (hlegible : pb.Legible)
    (hsmall : pb.bytes.length < intMax) : registerAddressDecodeInner pb.bytes = some pb := by
  obtain ⟨user, type, hash, account, index⟩ := pb
  simp only [Proto.RegisterAddress.bytes, List.append_assoc, List.length_append] at hsmall ⊢
  apply Scan.Leads.scan_eq
  refine .append
    (leads_bytes (Proto.RegisterAddress.mk · .none [] [] 0) (by decide) (fun _ => rfl) rfl
      (by omega) _) ?_
  refine .append
    (leads_enum (Proto.RegisterAddress.mk user · [] [] 0) (by decide) (fun _ => rfl) rfl
      (AddressType.ofCode_code type) hlegible _) ?_
  refine .append
    (leads_bytes (Proto.RegisterAddress.mk user type · [] 0) (by decide) (fun _ => rfl) rfl
      (by omega) _) ?_
  refine .append
    (leads_bytes (Proto.RegisterAddress.mk user type hash · 0) (by decide) (fun _ => rfl) rfl
      (by omega) _) ?_
  exact leads_uint32 (Proto.RegisterAddress.mk user type hash account) (by decide) (fun _ => rfl)
    rfl _ _

/-! ### Bodies -/

section Bodies

variable {α : Type} {field : Nat → Nat → Proto.TransactionBody × RepeatedInfo → List UInt8 →
  Option ((Proto.TransactionBody × RepeatedInfo) × List UInt8)}

/-- The state in which a body has nothing but its transaction. -/
def bodyOf (data : Proto.Data) : Proto.TransactionBody × RepeatedInfo :=
  ({ Proto.TransactionBody.init with data := data }, .init)

/-- A transaction in front of everything else in a body. -/
theorem leads_data {write : α → List UInt8} {decodeInner : List UInt8 → Option α} {inner : α}
    {number : Nat} (data : Option α → Proto.Data) (hnumber : 0 < number ∧ number < 2 ^ 29)
    (hfield : ∀ bytes, field number 2 (bodyOf .none) bytes =
      store (dataDecode decodeInner data 2 .init bytes) fun body => (body, .init))
    (hsmall : (messageField number write (some inner)).length < intMax)
    (hdecode : (write inner).length < intMax → decodeInner (write inner) = some inner)
    (rest : List UInt8) :
    Scan.Leads (fieldStep field) (messageField number write (some inner)) rest (bodyOf .none)
      (bodyOf (data (some inner))) := by
  have hlt := Nat.lt_of_le_of_lt (length_le_bytesField number (write inner)) hsmall
  have hput : ∀ bytes, field number 2 (bodyOf .none) bytes =
      store (decoderSubMessageDecode decodeInner 2 bytes) fun inner =>
        bodyOf (data (some inner)) := by
    intro bytes
    rw [hfield, dataDecode, store_store]
    rfl
  exact leads_bytesField (fun inner => bodyOf (data (some inner))) hnumber hput
    (Reads.subMessage hlt (hdecode hlt)) rest

end Bodies

theorem transactionBody_read {pb : Proto.TransactionBody} (hlegible : pb.Legible)
    (hsmall : pb.bytes.length < intMax) : transactionBodyDecodeInner pb.bytes = some pb := by
  obtain ⟨memos, createdAt, version, type, uuid, data⟩ := pb
  obtain ⟨hdata, hlegible, htype⟩ := hlegible
  simp only [Proto.TransactionBody.bytes, List.append_assoc, List.length_append] at hsmall ⊢
  have hmemos : ∀ memo ∈ memos, memo.bytes.length < intMax := by
    intro memo hmemo
    have hle := length_le_messageFields 1 Proto.EncryptedMemo.bytes hmemo
    omega
  apply Option.bind_eq_some_iff.2
  let rest := messageField 2 Proto.Timestamp.bytes createdAt ++ (varintUnlessZero 3 version.toNat ++
    (Proto.enumField 4 type.code ++ bytesUnlessEmpty 5 uuid))
  let info := countedOf 1 Proto.EncryptedMemo.bytes (rest ++ []) memos
  refine ⟨(⟨[], createdAt, version, type, uuid, data⟩, info), ?_, ?_⟩
  · apply Scan.Leads.scan_eq
    let state :=
      fun createdAt version type uuid =>
        (Proto.TransactionBody.mk [] createdAt version type uuid data, info)
    refine .append (show Scan.Leads _ _ _ _ (bodyOf data) from ?_) ?_
    · have hlt : data.bytes.length < intMax := by omega
      cases data with
      | none => exact .nil _ _
      | unknown past => exact hdata.elim
      | registerAddress message =>
          obtain ⟨inner, rfl, hinner⟩ := hdata
          exact leads_data .registerAddress (by decide) (fun _ => rfl) hlt
            (registerAddress_read hinner) _
      | transfer message =>
          obtain ⟨inner, rfl⟩ := Option.ne_none_iff_exists'.1 hdata
          exact leads_data .transfer (by decide) (fun _ => rfl) hlt gradidoTransfer_read _
      | creation message =>
          obtain ⟨inner, rfl⟩ := Option.ne_none_iff_exists'.1 hdata
          exact leads_data .creation (by decide) (fun _ => rfl) hlt gradidoCreation_read _
      | communityFriendsUpdate message =>
          obtain ⟨inner, rfl⟩ := Option.ne_none_iff_exists'.1 hdata
          exact leads_data .communityFriendsUpdate (by decide) (fun _ => rfl) hlt
            (fun _ => communityFriendsUpdate_read inner) _
      | deferredTransfer message =>
          obtain ⟨inner, rfl⟩ := Option.ne_none_iff_exists'.1 hdata
          exact leads_data .deferredTransfer (by decide) (fun _ => rfl) hlt
            gradidoDeferredTransfer_read _
      | communityRoot message =>
          obtain ⟨inner, rfl⟩ := Option.ne_none_iff_exists'.1 hdata
          exact leads_data .communityRoot (by decide) (fun _ => rfl) hlt communityRoot_read _
      | redeemDeferredTransfer message =>
          obtain ⟨inner, rfl⟩ := Option.ne_none_iff_exists'.1 hdata
          exact leads_data .redeemDeferredTransfer (by decide) (fun _ => rfl) hlt
            gradidoRedeemDeferredTransfer_read _
      | timeoutDeferredTransfer message =>
          obtain ⟨inner, rfl⟩ := Option.ne_none_iff_exists'.1 hdata
          exact leads_data .timeoutDeferredTransfer (by decide) (fun _ => rfl) hlt
            (fun _ => gradidoTimeoutDeferredTransfer_read inner) _
    · refine .append
        (leads_repeated (Prod.mk { Proto.TransactionBody.init with data := data }) (by decide)
          (fun _ _ => rfl) hmemos _) ?_
      refine .append
        (leads_message (state · 0 .local []) (by decide) (fun _ => store_store _ _ _) rfl (by omega)
          (fun inner _ _ => timestamp_read inner) _) ?_
      refine .append
        (leads_uint32 (state createdAt · .local []) (by decide) (fun _ => store_store _ _ _) rfl _
          _) ?_
      refine .append
        (leads_enum (state createdAt version · []) (by decide) (fun _ => store_store _ _ _) rfl
          (CrossGroup.ofCode_code type) htype _) ?_
      exact leads_bytes (state createdAt version type) (by decide) (fun _ => store_store _ _ _) rfl
        (by omega) _
  · apply Option.bind_eq_some_iff.2
    exact ⟨memos, decodeRepeatedInner_write _ (by decide) hmemos
      (fun memo hmemo => encryptedMemo_read (hlegible memo hmemo) (hmemos memo hmemo)) _, rfl⟩

/-! ### Confirmed transactions -/

theorem gradidoTransaction_read {pb : Proto.GradidoTransaction} (hlegible : pb.Legible)
    (hsmall : pb.bytes.length < intMax) : gradidoTransactionDecodeInner pb.bytes = some pb := by
  obtain ⟨sigMap, bodyBytes, anchor⟩ := pb
  have hanchor : ∀ inner ∈ anchor, inner.Legible := hlegible
  simp only [Proto.GradidoTransaction.bytes, List.append_assoc, List.length_append] at hsmall ⊢
  apply Scan.Leads.scan_eq
  refine .append
    (leads_message (Proto.GradidoTransaction.mk · [] none) (by decide) (fun _ => rfl) rfl (by omega)
      (fun map _ => @signatureMap_read map) _) ?_
  refine .append
    (leads_bytes (Proto.GradidoTransaction.mk sigMap · none) (by decide) (fun _ => rfl) rfl
      (by omega) _) ?_
  exact leads_message (Proto.GradidoTransaction.mk sigMap bodyBytes) (by decide) (fun _ => rfl) rfl
    (by omega) (fun inner hinner => @ledgerAnchor_read inner (hanchor inner hinner)) _

theorem confirmedTransaction_read {pb : Proto.ConfirmedTransaction} (hlegible : pb.Legible)
    (hsmall : pb.bytes.length < intMax) : confirmedTransactionDecodeInner pb.bytes = some pb := by
  obtain ⟨id, transaction, confirmedAt, version, hash, anchor, balances⟩ := pb
  have htransaction : ∀ inner ∈ transaction, inner.Legible := hlegible.1
  have hanchor : ∀ inner ∈ anchor, inner.Legible := hlegible.2
  simp only [Proto.ConfirmedTransaction.bytes, List.append_assoc, List.length_append] at hsmall ⊢
  have hbalances : ∀ balance ∈ balances, balance.bytes.length < intMax := by
    intro balance hbalance
    have hle := length_le_messageFields 7 Proto.AccountBalance.bytes hbalance
    omega
  apply Option.bind_eq_some_iff.2
  refine ⟨(⟨id, transaction, confirmedAt, version, hash, anchor, []⟩,
      countedOf 7 Proto.AccountBalance.bytes [] balances), ?_, ?_⟩
  · apply Scan.Leads.scan_eq
    let state :=
      fun id transaction confirmedAt version hash anchor =>
        (Proto.ConfirmedTransaction.mk id transaction confirmedAt version hash anchor [],
          RepeatedInfo.init)
    refine .append (leads_uint64 (state · none none 0 [] none) (by decide) (fun _ => rfl) rfl _ _)
      ?_
    refine .append
      (leads_message (state id · none 0 [] none) (by decide) (fun _ => rfl) rfl (by omega)
        (fun inner hinner => @gradidoTransaction_read inner (htransaction inner hinner)) _) ?_
    refine .append
      (leads_message (state id transaction · 0 [] none) (by decide) (fun _ => rfl) rfl (by omega)
        (fun inner _ _ => timestamp_read inner) _) ?_
    refine .append
      (leads_uint32 (state id transaction confirmedAt · [] none) (by decide) (fun _ => rfl) rfl _ _)
      ?_
    refine .append
      (leads_bytes (state id transaction confirmedAt version · none) (by decide) (fun _ => rfl) rfl
        (by omega) _) ?_
    refine .append
      (leads_message (state id transaction confirmedAt version hash) (by decide) (fun _ => rfl) rfl
        (by omega) (fun inner hinner => @ledgerAnchor_read inner (hanchor inner hinner)) _) ?_
    exact leads_repeated
      (Prod.mk (Proto.ConfirmedTransaction.mk id transaction confirmedAt version hash anchor []))
      (by decide) (fun _ _ => rfl) hbalances []
  · apply Option.bind_eq_some_iff.2
    exact ⟨balances, decodeRepeatedInner_write _ (by decide) hbalances
      (fun balance hbalance => accountBalance_read (hbalances balance hbalance)) [], rfl⟩

/-! ### There and back -/

/-- An encoding that succeeds has given the bytes of the message, fewer than the buffer has. -/
theorem Writes.encode_ok {α : Type} {encodeInner : α → Writer} {message : α} {sound : Prop}
    {bytes out : List UInt8} (hwrite : Writes (encodeInner message) sound bytes) {size : Nat}
    (hpos : 0 < size) (hsmall : size ≤ intMax)
    (hencode : messageEncode encodeInner message size = some (.ok out)) :
    out = bytes ∧ bytes.length < size := by
  obtain ⟨hsome, hnone⟩ := hwrite.encode hpos hsmall
  by_cases hsound : sound
  · rw [hsome hsound] at hencode
    split at hencode
    · cases hencode
      exact ⟨rfl, ‹_›⟩
    · cases hencode
  · rw [hnone hsound] at hencode
    cases hencode

theorem parse_of_read {α : Type} {decodeInner : List UInt8 → Option α} {bytes : List UInt8}
    {message : α} (hsmall : bytes.length < intMax) (hread : decodeInner bytes = some message) :
    parse decodeInner bytes = .ok message := by
  rw [parse, if_neg (by omega), hread]

/-- An encoding that succeeds is parsed as the message, where the bytes of the message
are decoded as it. -/
theorem Writes.parsed {α : Type} {encodeInner : α → Writer} {decodeInner : List UInt8 → Option α}
    {message : α} {sound : Prop} {bytes out : List UInt8}
    (hwrite : Writes (encodeInner message) sound bytes)
    (hread : bytes.length < intMax → decodeInner bytes = some message) {size : Nat}
    (hpos : 0 < size) (hsmall : size ≤ intMax)
    (hencode : messageEncode encodeInner message size = some (.ok out)) :
    parse decodeInner out = .ok message := by
  obtain ⟨rfl, hlt⟩ := hwrite.encode_ok hpos hsmall hencode
  exact parse_of_read (by omega) (hread (by omega))

/-- What has been encoded into any buffer is decoded as it was. -/
theorem parse_encode {size : Nat} (hpos : 0 < size) (hsmall : size ≤ intMax) {bytes : List UInt8} :
    (∀ pb : Proto.ConfirmedTransaction, pb.Legible →
        confirmedTransactionEncode pb size = some (.ok bytes) →
        parse confirmedTransactionDecodeInner bytes = .ok pb) ∧
      (∀ pb : Proto.TransactionBody, pb.Legible → transactionBodyEncode pb size = some (.ok bytes) →
        parse transactionBodyDecodeInner bytes = .ok pb) ∧
      ∀ pb : Proto.GradidoTransaction, pb.Legible →
        gradidoTransactionEncode pb size = some (.ok bytes) →
        parse gradidoTransactionDecodeInner bytes = .ok pb := by
  refine ⟨fun pb hlegible hencode => ?_, fun pb hlegible hencode => ?_,
    fun pb hlegible hencode => ?_⟩
  · exact (Writes.confirmedTransaction pb).parsed (confirmedTransaction_read hlegible) hpos hsmall
      hencode
  · exact (Writes.transactionBody pb).parsed (transactionBody_read hlegible) hpos hsmall hencode
  · exact (Writes.gradidoTransaction pb).parsed (gradidoTransaction_read hlegible) hpos hsmall
      hencode

/-- A number in a buffer of three bytes. -/
theorem parse_encode_number :
    let pb := { Proto.ConfirmedTransaction.init with id := 1 }
    confirmedTransactionEncode pb 3 = some (.ok [8, 1]) ∧ parse confirmedTransactionDecodeInner [8, 1] = .ok pb := by
  intro pb
  have hencode : confirmedTransactionEncode { Proto.ConfirmedTransaction.init with id := 1 } 3 =
      some (.ok [8, 1]) := by decide
  exact ⟨hencode, (parse_encode (by decide) (by decide)).1 pb ⟨nofun, nofun⟩ hencode⟩

end PbTools

end GradidoBlockchain
