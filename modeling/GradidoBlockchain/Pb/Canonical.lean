import GradidoBlockchain.Pb.RoundTrip

/-!
# Messages that have been decoded

Whatever the bytes were, a message that a decoder gives can be written again, and what is written is
read as that message: fields that came twice, that have no place in the message or that only say a
default are gone, and nothing else is.
-/

namespace GradidoBlockchain

namespace Proto

/-! ### Messages that a decoder can give -/

def EncryptedMemo.Canonical (pb : EncryptedMemo) : Prop := pb.Legible ∧ Counted pb.memo

def LedgerAnchor.Canonical (pb : LedgerAnchor) : Prop := pb.Legible ∧ pb.Writable

def RegisterAddress.Canonical (pb : RegisterAddress) : Prop := pb.Legible ∧ pb.Writable

def Data.Canonical (data : Data) : Prop := data.Legible ∧ data.Writable

def TransactionBody.Canonical (pb : TransactionBody) : Prop := pb.Legible ∧ pb.Writable

def GradidoTransaction.Canonical (pb : GradidoTransaction) : Prop := pb.Legible ∧ pb.Writable

def ConfirmedTransaction.Canonical (pb : ConfirmedTransaction) : Prop := pb.Legible ∧ pb.Writable

end Proto

namespace PbTools

/-! ### What every field keeps -/

section Keeping

variable {α σ : Type} {P : σ → Prop} {field : Nat → Nat → σ → List UInt8 → Option (σ × List UInt8)}
  {bytes rest : List UInt8}

/-- Every field leaves a message of which the same holds. -/
def Keeps (P : σ → Prop) (field : Nat → Nat → σ → List UInt8 → Option (σ × List UInt8)) : Prop :=
  ∀ number wireType message bytes left rest, P message →
    field number wireType message bytes = some (left, rest) → P left

theorem decodeFields_keeps {init message : σ}
    (hdecode : decodeFields field init bytes = some message) (hinit : P init)
    (hkeeps : Keeps P field) : P message := by
  refine Scan.run_keeps (fun state bytes after rest hstate hstep => ?_) hinit hdecode
  obtain ⟨⟨⟨number, wireType⟩, between⟩, -, hfield⟩ := Option.bind_eq_some_iff.1 hstep
  exact hkeeps _ _ _ _ _ _ hstate hfield

theorem store_keeps {read : Option (α × List UInt8)} {put : α → σ} {left : σ}
    (hstore : store read put = some (left, rest))
    (hput : ∀ value, read = some (value, rest) → P (put value)) : P left := by
  obtain ⟨value, hread, rfl⟩ := store_ok hstore
  exact hput value hread

theorem skip_keeps {message left : σ} {wireType : Nat} (hmessage : P message)
    (hskip : decoderSkipField wireType message bytes = some (left, rest)) : P left := by
  rw [(decoderSkipField_ok hskip).2]
  exact hmessage

theorem counted_nil : Proto.Counted [] := Nat.zero_le _

theorem counted_of_read {wireType : Nat} {slice : List UInt8}
    (hread : decoderReadBytes wireType bytes = some (slice, rest)) : Proto.Counted slice := by
  obtain ⟨⟨size, left⟩, hlength, hslice⟩ := Option.bind_eq_some_iff.1 hread
  rw [decoderReadLengthDelimited] at hlength
  split at hlength
  · cases hlength
  · obtain ⟨⟨length, between⟩, -, hlength⟩ := Option.bind_eq_some_iff.1 hlength
    simp only at hlength
    split at hlength
    · cases hlength
    · cases hlength
      change decoderSlice length.toNat _ = _ at hslice
      rw [decoderSlice] at hslice
      split at hslice
      · cases hslice
        rw [Proto.Counted, List.length_take]
        omega
      · cases hslice

theorem decoded_of_read {decodeInner : List UInt8 → Option α} {wireType : Nat} {message : α}
    (hread : decoderSubMessageDecode decodeInner wireType bytes = some (message, rest)) :
    ∃ slice, decodeInner slice = some message := by
  obtain ⟨⟨slice, left⟩, -, hmessage⟩ := Option.bind_eq_some_iff.1 hread
  obtain ⟨inner, hinner, hpair⟩ := Option.bind_eq_some_iff.1 hmessage
  cases hpair
  exact ⟨slice, hinner⟩

theorem present_of_read {Q : α → Prop} {decodeInner : List UInt8 → Option α}
    (hinner : ∀ bytes message, decodeInner bytes = some message → Q message) {wireType : Nat}
    {message : α}
    (hread : decoderSubMessageDecode decodeInner wireType bytes = some (message, rest)) :
    ∀ inner ∈ some message, Q inner := by
  obtain ⟨slice, hslice⟩ := decoded_of_read hread
  intro inner hmem
  exact Option.some.inj hmem ▸ hinner slice message hslice

theorem code_of_read {ofCode : Nat → α} {code : α → Nat}
    (hcode : ∀ value, code (ofCode value) = value) {wireType : Nat} {type : α}
    (hread : decoderReadEnum ofCode wireType bytes = some (type, rest)) : code type < 2 ^ 32 := by
  obtain ⟨value, -, rfl⟩ := store_ok hread
  rw [hcode]
  exact value.toNat_lt

theorem decodeRepeatedFrom_all {Q : α → Prop} {tag fuel left : Nat} {init : α}
    {decodeInner : List UInt8 → Option α} {items : List α}
    (hdecode : decodeRepeatedFrom tag init decodeInner fuel left bytes = some items)
    (hinit : Q init)
    (hinner : ∀ bytes item, decodeInner bytes = some item → Q item) : ∀ item ∈ items, Q item := by
  induction fuel, left, bytes using decodeRepeatedFrom.induct generalizing items with
  | case1 fuel bytes =>
      rw [decodeRepeatedFrom] at hdecode
      cases hdecode
      exact List.forall_mem_nil _
  | case2 fuel left =>
      rw [decodeRepeatedFrom] at hdecode
      cases hdecode
      intro item hitem
      rw [List.eq_of_mem_replicate hitem]
      exact hinit
  | case3 left byte bytes => cases hdecode
  | case4 fuel left byte bytes ih ihskip =>
      rw [decodeRepeatedFrom] at hdecode
      obtain ⟨⟨⟨number, wireType⟩, between⟩, -, hitem⟩ := Option.bind_eq_some_iff.1 hdecode
      simp only at hitem
      split at hitem
      · obtain ⟨⟨item, rest⟩, hread, hrest⟩ := Option.bind_eq_some_iff.1 hitem
        obtain ⟨others, hothers, hpair⟩ := Option.bind_eq_some_iff.1 hrest
        cases hpair
        obtain ⟨slice, hslice⟩ := decoded_of_read hread
        exact List.forall_mem_cons.2 ⟨hinner slice item hslice, ih rest hothers⟩
      · obtain ⟨⟨_, rest⟩, -, hrest⟩ := Option.bind_eq_some_iff.1 hitem
        exact ihskip rest hrest

theorem decodeRepeatedInner_all {Q : α → Prop} {tag : Nat} {init : α}
    {decodeInner : List UInt8 → Option α} {info : RepeatedInfo} {items : List α}
    (hdecode : decodeRepeatedInner tag init decodeInner info = some items) (hinit : Q init)
    (hinner : ∀ bytes item, decodeInner bytes = some item → Q item) : ∀ item ∈ items, Q item := by
  rw [decodeRepeatedInner] at hdecode
  split at hdecode
  · cases hdecode
    exact List.forall_mem_nil _
  · obtain ⟨⟨item, rest⟩, hread, hrest⟩ := Option.bind_eq_some_iff.1 hdecode
    obtain ⟨others, hothers, hpair⟩ := Option.bind_eq_some_iff.1 hrest
    cases hpair
    obtain ⟨slice, hslice⟩ := decoded_of_read hread
    exact List.forall_mem_cons.2
      ⟨hinner slice item hslice, decodeRepeatedFrom_all hothers hinit hinner⟩

end Keeping

/-! ### The messages -/

variable {bytes : List UInt8}

theorem accountBalance_decoded {pb : Proto.AccountBalance}
    (hdecode : accountBalanceDecodeInner bytes = some pb) : pb.Writable := by
  refine decodeFields_keeps hdecode ⟨counted_nil, counted_nil⟩
    fun number wireType message bytes left rest hmessage hfield => ?_
  split at hfield
  · exact store_keeps hfield fun _ hread => ⟨counted_of_read hread, hmessage.2⟩
  · exact store_keeps hfield fun _ _ => hmessage
  · exact store_keeps hfield fun _ hread => ⟨hmessage.1, counted_of_read hread⟩
  · exact skip_keeps hmessage hfield

theorem encryptedMemo_decoded {pb : Proto.EncryptedMemo}
    (hdecode : encryptedMemoDecodeInner bytes = some pb) : pb.Canonical := by
  refine decodeFields_keeps hdecode ⟨Nat.two_pow_pos 32, counted_nil⟩
    fun number wireType message bytes left rest hmessage hfield => ?_
  split at hfield
  · exact store_keeps hfield fun _ hread => ⟨code_of_read MemoKey.code_ofCode hread, hmessage.2⟩
  · exact store_keeps hfield fun _ hread => ⟨hmessage.1, counted_of_read hread⟩
  · exact skip_keeps hmessage hfield

theorem signaturePair_decoded {pb : Proto.SignaturePair}
    (hdecode : signaturePairDecodeInner bytes = some pb) : pb.Writable := by
  refine decodeFields_keeps hdecode ⟨counted_nil, counted_nil⟩
    fun number wireType message bytes left rest hmessage hfield => ?_
  split at hfield
  · exact store_keeps hfield fun _ hread => ⟨counted_of_read hread, hmessage.2⟩
  · exact store_keeps hfield fun _ hread => ⟨hmessage.1, counted_of_read hread⟩
  · exact skip_keeps hmessage hfield

theorem signatureMap_decoded {pb : Proto.SignatureMap}
    (hdecode : signatureMapDecodeInner bytes = some pb) : pb.Writable := by
  obtain ⟨info, -, hinfo⟩ := Option.bind_eq_some_iff.1 hdecode
  obtain ⟨pairs, hpairs, hmap⟩ := Option.bind_eq_some_iff.1 hinfo
  cases hmap
  exact decodeRepeatedInner_all hpairs ⟨counted_nil, counted_nil⟩ fun _ _ => signaturePair_decoded

theorem transferAmount_decoded {pb : Proto.TransferAmount}
    (hdecode : transferAmountDecodeInner bytes = some pb) : pb.Writable := by
  refine decodeFields_keeps hdecode ⟨counted_nil, counted_nil⟩
    fun number wireType message bytes left rest hmessage hfield => ?_
  split at hfield
  · exact store_keeps hfield fun _ hread => ⟨counted_of_read hread, hmessage.2⟩
  · exact store_keeps hfield fun _ _ => hmessage
  · exact store_keeps hfield fun _ hread => ⟨hmessage.1, counted_of_read hread⟩
  · exact skip_keeps hmessage hfield

/-! ### Ledger anchors -/

theorem accountId_decoded {pb : Proto.AccountId}
    (hdecode : accountIdDecodeInner bytes = some pb) : pb.Writable := by
  refine decodeFields_keeps hdecode (by intro _ h; cases h)
    fun number wireType message bytes left rest hmessage hfield => ?_
  split at hfield
  · exact store_keeps hfield fun _ _ => hmessage
  · exact store_keeps hfield fun _ _ => hmessage
  · exact store_keeps hfield fun _ _ _ h => nomatch h
  · exact store_keeps hfield fun _ hread _ h => Proto.Account.alias.inj h ▸ counted_of_read hread
  · exact skip_keeps hmessage hfield

theorem transactionId_decoded {pb : Proto.TransactionId}
    (hdecode : transactionIdDecodeInner bytes = some pb) : pb.Writable := by
  refine decodeFields_keeps hdecode (by intro _ h; cases h)
    fun number wireType message bytes left rest hmessage hfield => ?_
  split at hfield
  · exact store_keeps hfield fun _ _ => hmessage
  · refine store_keeps hfield fun id hread account haccount => ?_
    obtain ⟨slice, hslice⟩ := decoded_of_read hread
    exact Option.some.inj haccount ▸ accountId_decoded hslice
  · exact store_keeps hfield fun _ _ => hmessage
  · exact store_keeps hfield fun _ _ => hmessage
  · exact skip_keeps hmessage hfield

theorem ledgerAnchor_decoded {pb : Proto.LedgerAnchor}
    (hdecode : ledgerAnchorDecodeInner bytes = some pb) : pb.Canonical := by
  refine decodeFields_keeps hdecode ⟨⟨Nat.two_pow_pos 32, nofun⟩, (by intro _ h; cases h)⟩
    fun number wireType message bytes left rest hmessage hfield => ?_
  split at hfield
  · exact store_keeps hfield fun _ hread => ⟨⟨code_of_read LedgerAnchorType.code_ofCode hread,
        hmessage.1.2⟩, hmessage.2⟩
  · refine store_keeps hfield fun id hread => ⟨⟨hmessage.1.1, by simp⟩, fun message h => ?_⟩
    obtain ⟨slice, hslice⟩ := decoded_of_read hread
    cases h
    exact ⟨id, rfl, transactionId_decoded hslice⟩
  · exact store_keeps hfield fun _ _ => ⟨⟨hmessage.1.1, by simp⟩, fun _ h => nomatch h⟩
  · exact skip_keeps hmessage hfield

/-! ### The transactions of a body -/

theorem communityRoot_decoded {pb : Proto.CommunityRoot}
    (hdecode : communityRootDecodeInner bytes = some pb) : pb.Writable := by
  refine decodeFields_keeps hdecode ⟨counted_nil, counted_nil, counted_nil⟩
    fun number wireType message bytes left rest hmessage hfield => ?_
  split at hfield
  · exact store_keeps hfield fun _ hread => ⟨counted_of_read hread, hmessage.2⟩
  · exact store_keeps hfield fun _ hread => ⟨hmessage.1, counted_of_read hread, hmessage.2.2⟩
  · exact store_keeps hfield fun _ hread => ⟨hmessage.1, hmessage.2.1, counted_of_read hread⟩
  · exact skip_keeps hmessage hfield

theorem gradidoCreation_decoded {pb : Proto.GradidoCreation}
    (hdecode : gradidoCreationDecodeInner bytes = some pb) : pb.Writable := by
  refine decodeFields_keeps hdecode (by intro _ h; cases h)
    fun number wireType message bytes left rest hmessage hfield => ?_
  split at hfield
  · exact store_keeps hfield fun _ hread =>
      present_of_read (fun _ _ => transferAmount_decoded) hread
  · exact store_keeps hfield fun _ _ => hmessage
  · exact skip_keeps hmessage hfield

theorem gradidoTransfer_decoded {pb : Proto.GradidoTransfer}
    (hdecode : gradidoTransferDecodeInner bytes = some pb) : pb.Writable := by
  refine decodeFields_keeps hdecode ⟨(by intro _ h; cases h), counted_nil⟩
    fun number wireType message bytes left rest hmessage hfield => ?_
  split at hfield
  · exact store_keeps hfield fun _ hread => ⟨present_of_read (fun _ _ => transferAmount_decoded)
        hread, hmessage.2⟩
  · exact store_keeps hfield fun _ hread => ⟨hmessage.1, counted_of_read hread⟩
  · exact skip_keeps hmessage hfield

theorem gradidoDeferredTransfer_decoded {pb : Proto.GradidoDeferredTransfer}
    (hdecode : gradidoDeferredTransferDecodeInner bytes = some pb) : pb.Writable := by
  refine decodeFields_keeps hdecode (by intro _ h; cases h)
    fun number wireType message bytes left rest hmessage hfield => ?_
  split at hfield
  · exact store_keeps hfield fun _ hread =>
      present_of_read (fun _ _ => gradidoTransfer_decoded) hread
  · exact store_keeps hfield fun _ _ => hmessage
  · exact skip_keeps hmessage hfield

theorem gradidoRedeemDeferredTransfer_decoded {pb : Proto.GradidoRedeemDeferredTransfer}
    (hdecode : gradidoRedeemDeferredTransferDecodeInner bytes = some pb) : pb.Writable := by
  refine decodeFields_keeps hdecode (by intro _ h; cases h)
    fun number wireType message bytes left rest hmessage hfield => ?_
  split at hfield
  · exact store_keeps hfield fun _ _ => hmessage
  · exact store_keeps hfield fun _ hread =>
      present_of_read (fun _ _ => gradidoTransfer_decoded) hread
  · exact skip_keeps hmessage hfield

theorem registerAddress_decoded {pb : Proto.RegisterAddress}
    (hdecode : registerAddressDecodeInner bytes = some pb) : pb.Canonical := by
  refine decodeFields_keeps hdecode ⟨Nat.two_pow_pos 32, counted_nil, counted_nil, counted_nil⟩
    fun number wireType message bytes left rest hmessage hfield => ?_
  split at hfield
  · exact store_keeps hfield fun _ hread => ⟨hmessage.1, counted_of_read hread, hmessage.2.2⟩
  · exact store_keeps hfield fun _ hread => ⟨code_of_read AddressType.code_ofCode hread, hmessage.2⟩
  · exact store_keeps hfield fun _ hread => ⟨hmessage.1, hmessage.2.1, counted_of_read hread,
      hmessage.2.2.2⟩
  · exact store_keeps hfield fun _ hread => ⟨hmessage.1, hmessage.2.1, hmessage.2.2.1,
      counted_of_read hread⟩
  · exact store_keeps hfield fun _ _ => hmessage
  · exact skip_keeps hmessage hfield

/-! ### Whole messages -/

/-- It holds of the message as far as it has been read, with the items that have
only been counted. -/
def SoFar {μ : Type} (P : μ → Prop) (state : μ × RepeatedInfo) : Prop := P state.1

theorem data_decoded {α : Type} {decodeInner : List UInt8 → Option α} {data : Option α → Proto.Data}
    {wireType : Nat} {message left : Proto.TransactionBody} {rest : List UInt8}
    (hread : dataDecode decodeInner data wireType message bytes = some (left, rest))
    (hmessage : message.Canonical)
    (hinner : ∀ bytes inner, decodeInner bytes = some inner →
      (data (some inner)).Canonical) : left.Canonical := by
  refine store_keeps hread fun inner hsub => ?_
  obtain ⟨slice, hslice⟩ := decoded_of_read hsub
  have hdata := hinner slice inner hslice
  exact ⟨⟨hdata.1, hmessage.1.2⟩, hdata.2, hmessage.2.2⟩

theorem transactionBody_decoded {pb : Proto.TransactionBody}
    (hdecode : transactionBodyDecodeInner bytes = some pb) : pb.Canonical := by
  obtain ⟨⟨message, info⟩, hfields, hmemos⟩ := Option.bind_eq_some_iff.1 hdecode
  obtain ⟨memos, hitems, hbody⟩ := Option.bind_eq_some_iff.1 hmemos
  cases hbody
  have hall :=
    decodeRepeatedInner_all hitems
      (show Proto.EncryptedMemo.Canonical _ from ⟨Nat.two_pow_pos 32, counted_nil⟩) fun _ _ =>
      encryptedMemo_decoded
  have hmessage : SoFar Proto.TransactionBody.Canonical (message, info) := by
    refine decodeFields_keeps hfields
      ⟨⟨trivial, nofun, Nat.two_pow_pos 32⟩, trivial, nofun, counted_nil⟩
      fun number wireType message bytes left rest hmessage hfield => ?_
    obtain ⟨message, info⟩ := message
    have hkept : ∀ {read : Option (Proto.TransactionBody × List UInt8)}, store read
            (fun message => (message, info)) = some (left, rest) →
        (∀ message rest, read = some (message, rest) → message.Canonical) →
        SoFar Proto.TransactionBody.Canonical left :=
      fun hstore hread => store_keeps hstore fun message hmessage => hread message rest hmessage
    simp only at hfield
    split at hfield
    · exact store_keeps hfield fun _ _ => hmessage
    · exact hkept hfield fun _ _ hread => store_keeps hread fun _ _ => hmessage
    · exact hkept hfield fun _ _ hread => store_keeps hread fun _ _ => hmessage
    · refine hkept hfield fun _ _ hstore => store_keeps hstore fun _ hread => ?_
      exact ⟨⟨hmessage.1.1, hmessage.1.2.1, code_of_read CrossGroup.code_ofCode hread⟩, hmessage.2⟩
    · refine hkept hfield fun _ _ hstore => store_keeps hstore fun _ hread => ?_
      exact ⟨hmessage.1, hmessage.2.1, hmessage.2.2.1, counted_of_read hread⟩
    · exact hkept hfield fun _ _ hread =>
        data_decoded hread hmessage fun _ inner h => ⟨nofun, inner, rfl, gradidoTransfer_decoded h⟩
    · exact hkept hfield fun _ _ hread =>
        data_decoded hread hmessage fun _ inner h => ⟨nofun, inner, rfl, gradidoCreation_decoded h⟩
    · exact hkept hfield fun _ _ hread =>
        data_decoded hread hmessage fun _ inner h => ⟨nofun, inner, rfl⟩
    · exact hkept hfield fun _ _ hread => data_decoded hread hmessage fun _ inner h =>
        ⟨⟨inner, rfl, (registerAddress_decoded h).1⟩, inner, rfl, (registerAddress_decoded h).2⟩
    · exact hkept hfield fun _ _ hread => data_decoded hread hmessage fun _ inner h =>
        ⟨nofun, inner, rfl, gradidoDeferredTransfer_decoded h⟩
    · exact hkept hfield fun _ _ hread =>
        data_decoded hread hmessage fun _ inner h => ⟨nofun, inner, rfl, communityRoot_decoded h⟩
    · exact hkept hfield fun _ _ hread => data_decoded hread hmessage fun _ inner h =>
        ⟨nofun, inner, rfl, gradidoRedeemDeferredTransfer_decoded h⟩
    · exact hkept hfield fun _ _ hread =>
        data_decoded hread hmessage fun _ inner h => ⟨nofun, inner, rfl⟩
    · exact skip_keeps hmessage hfield
  exact ⟨⟨hmessage.1.1, fun memo hmemo => (hall memo hmemo).1, hmessage.1.2.2⟩, hmessage.2.1,
    fun memo hmemo => (hall memo hmemo).2, hmessage.2.2.2⟩

theorem gradidoTransaction_decoded {pb : Proto.GradidoTransaction}
    (hdecode : gradidoTransactionDecodeInner bytes = some pb) : pb.Canonical := by
  refine decodeFields_keeps hdecode ⟨nofun, nofun, counted_nil, nofun⟩
    fun number wireType message bytes left rest hmessage hfield => ?_
  obtain ⟨hlegible, hmap, hbody, hanchor⟩ := hmessage
  split at hfield
  · exact store_keeps hfield fun _ hread => ⟨hlegible,
      present_of_read (fun _ _ => signatureMap_decoded) hread, hbody, hanchor⟩
  · exact store_keeps hfield fun _ hread => ⟨hlegible, hmap, counted_of_read hread, hanchor⟩
  · refine store_keeps hfield fun anchor hread => ?_
    have hanchor := present_of_read (fun _ _ => ledgerAnchor_decoded) hread
    exact ⟨fun inner h => (hanchor inner h).1, hmap, hbody, fun inner h => (hanchor inner h).2⟩
  · exact skip_keeps ⟨hlegible, hmap, hbody, hanchor⟩ hfield

theorem confirmedTransactionField_keeps :
    Keeps (SoFar Proto.ConfirmedTransaction.Canonical) confirmedTransactionField := by
  intro number wireType state bytes left rest hstate hfield
  obtain ⟨message, info⟩ := state
  obtain ⟨⟨htransaction, hanchor⟩, hinner, hhash, hplace, hnone⟩ := hstate
  simp only [confirmedTransactionField] at hfield
  split at hfield
  · exact store_keeps hfield fun _ _ => ⟨⟨htransaction, hanchor⟩, hinner, hhash, hplace, hnone⟩
  · refine store_keeps hfield fun _ hread => ?_
    have hread := present_of_read (fun _ _ => gradidoTransaction_decoded) hread
    exact ⟨⟨fun inner h => (hread inner h).1, hanchor⟩, fun inner h => (hread inner h).2, hhash,
      hplace, hnone⟩
  · exact store_keeps hfield fun _ _ => ⟨⟨htransaction, hanchor⟩, hinner, hhash, hplace, hnone⟩
  · exact store_keeps hfield fun _ _ => ⟨⟨htransaction, hanchor⟩, hinner, hhash, hplace, hnone⟩
  · exact store_keeps hfield fun _ hread => ⟨⟨htransaction, hanchor⟩, hinner, counted_of_read hread,
      hplace, hnone⟩
  · refine store_keeps hfield fun _ hread => ?_
    have hread := present_of_read (fun _ _ => ledgerAnchor_decoded) hread
    exact ⟨⟨htransaction, fun inner h => (hread inner h).1⟩, hinner, hhash,
      fun inner h => (hread inner h).2, hnone⟩
  · exact store_keeps hfield fun _ _ => ⟨⟨htransaction, hanchor⟩, hinner, hhash, hplace, hnone⟩
  · exact skip_keeps ⟨⟨htransaction, hanchor⟩, hinner, hhash, hplace, hnone⟩ hfield

theorem confirmedTransaction_decoded {pb : Proto.ConfirmedTransaction}
    (hdecode : confirmedTransactionDecodeInner bytes = some pb) : pb.Canonical := by
  obtain ⟨⟨message, info⟩, hfields, hbalances⟩ := Option.bind_eq_some_iff.1 hdecode
  obtain ⟨balances, hitems, hconfirmed⟩ := Option.bind_eq_some_iff.1 hbalances
  cases hconfirmed
  have hmessage : SoFar Proto.ConfirmedTransaction.Canonical (message, info) :=
    decodeFields_keeps hfields ⟨⟨nofun, nofun⟩, nofun, counted_nil, nofun, nofun⟩
      confirmedTransactionField_keeps
  have hall :=
    decodeRepeatedInner_all hitems
      (show Proto.AccountBalance.Writable _ from ⟨counted_nil, counted_nil⟩) fun _ _ =>
      accountBalance_decoded
  exact ⟨hmessage.1, hmessage.2.1, hmessage.2.2.1, hmessage.2.2.2.1, hall⟩

/-! ### There, back and there again -/

section Again

variable {α : Type} {decodeInner : List UInt8 → Option α} {encodeInner : α → Writer} {pb : α}

theorem decoded_of_parse (hparse : parse decodeInner bytes = .ok pb) :
    decodeInner bytes = some pb := by
  rw [parse] at hparse
  split at hparse
  · cases hparse
  · split at hparse
    · rename_i hdecode
      cases hparse
      exact hdecode
    · cases hparse

/-- A message that a buffer has room for is written and read. -/
theorem Writes.again {sound : Prop} {written : List UInt8}
    (hwrite : Writes (encodeInner pb) sound written) (hsound : sound) {size : Nat} (hpos : 0 < size)
    (hsmall : size ≤ intMax) (hread : written.length < intMax → decodeInner written = some pb) :
    (written.length < size →
        ∃ out, messageEncode encodeInner pb size = some (.ok out) ∧
          parse decodeInner out = .ok pb) ∧
      (size ≤ written.length →
        messageEncode encodeInner pb size = some (.error (-encodeBufferFull))) := by
  have hencode := (hwrite.encode hpos hsmall).1 hsound
  constructor
  · intro hlt
    rw [if_pos hlt] at hencode
    exact ⟨written, hencode, parse_of_read (by omega) (hread (by omega))⟩
  · intro hle
    rw [if_neg (by omega)] at hencode
    exact hencode

end Again

/-- Whatever has been decoded is encoded again by a buffer that has room for it, and it is decoded
as the same message; by any other buffer it is refused as full. -/
theorem encode_parse {size : Nat} (hpos : 0 < size) (hsmall : size ≤ intMax) :
    (∀ pb : Proto.ConfirmedTransaction, parse confirmedTransactionDecodeInner bytes = .ok pb →
        (pb.bytes.length < size →
            ∃ out, confirmedTransactionEncode pb size = some (.ok out) ∧
              parse confirmedTransactionDecodeInner out = .ok pb) ∧
          (size ≤ pb.bytes.length →
            confirmedTransactionEncode pb size = some (.error (-encodeBufferFull)))) ∧
      (∀ pb : Proto.TransactionBody, parse transactionBodyDecodeInner bytes = .ok pb →
        (pb.bytes.length < size →
            ∃ out, transactionBodyEncode pb size = some (.ok out) ∧
              parse transactionBodyDecodeInner out = .ok pb) ∧
          (size ≤ pb.bytes.length →
            transactionBodyEncode pb size = some (.error (-encodeBufferFull)))) ∧
      ∀ pb : Proto.GradidoTransaction, parse gradidoTransactionDecodeInner bytes = .ok pb →
        (pb.bytes.length < size →
            ∃ out, gradidoTransactionEncode pb size = some (.ok out) ∧
              parse gradidoTransactionDecodeInner out = .ok pb) ∧
          (size ≤ pb.bytes.length →
            gradidoTransactionEncode pb size = some (.error (-encodeBufferFull))) := by
  refine ⟨fun pb hparse => ?_, fun pb hparse => ?_, fun pb hparse => ?_⟩
  · have hcanonical := confirmedTransaction_decoded (decoded_of_parse hparse)
    exact (Writes.confirmedTransaction pb).again hcanonical.2 hpos hsmall
      (confirmedTransaction_read hcanonical.1)
  · have hcanonical := transactionBody_decoded (decoded_of_parse hparse)
    exact (Writes.transactionBody pb).again hcanonical.2 hpos hsmall
      (transactionBody_read hcanonical.1)
  · have hcanonical := gradidoTransaction_decoded (decoded_of_parse hparse)
    exact (Writes.gradidoTransaction pb).again hcanonical.2 hpos hsmall
      (gradidoTransaction_read hcanonical.1)

/-- A number that comes twice. -/
theorem encode_parse_twice :
    let pb := { Proto.ConfirmedTransaction.init with id := 2 }
    parse confirmedTransactionDecodeInner [8, 1, 8, 2] = .ok pb ∧
      ∃ out, confirmedTransactionEncode pb 3 = some (.ok out) ∧ parse confirmedTransactionDecodeInner out = .ok pb := by
  intro pb
  have hparse : parse confirmedTransactionDecodeInner [8, 1, 8, 2] = .ok pb := rfl
  exact ⟨hparse, ((encode_parse (by decide) (by decide)).1 pb hparse).1 (by decide)⟩

end PbTools

end GradidoBlockchain
