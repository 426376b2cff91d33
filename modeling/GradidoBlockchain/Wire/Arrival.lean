import GradidoBlockchain.Wire.Encoding

/-!
# What arrives

With memory on both sides, which transactions and bodies can be sent through a buffer and come
out at the other end.
-/

namespace GradidoBlockchain

open Fallible Fallible.Call

namespace Mapping

variable {α β : Type} {host : Host}

/-! ### Runs with memory -/

theorem encodeWith_nil {init message : α} {fromWire : β → Call ArnmResult α Unit}
    {encode : α → Nat → Option (Except Int (List UInt8))} {value : β} {size : Nat}
    {bytes : List UInt8} (hpos : 0 < size) (hfill : fromWire value init [] = (.ok (), message, []))
    (hencode : encode message size = some (.ok bytes)) :
    Gives (encodeWith init fromWire encode value size) bytes := by
  have hmessage : Gives (filledMessage init (fromWire value)) message := by
    apply within_run_eq
    apply mapError_ok.2
    rw [bind_run_ok hfill]
    rfl
  rw [encodeWith, if_neg (by omega)]
  refine Gives.bind rfl (Gives.allocate.bind (hmessage.bind ?_))
  rw [hencode]
  exact .pure _

theorem decodeWith_nil {parse : List UInt8 → Except ArnmResult α} {convert : α → Decode β}
    {bytes : List UInt8} {message : α} {value : β} (hne : bytes ≠ [])
    (hparse : parse bytes = .ok message) (hconvert : Gives (convert message) value) :
    Gives (decodeWith parse convert bytes) value := by
  rw [decodeWith, if_neg hne]
  refine Gives.allocate.bind ?_
  rw [hparse]
  exact hconvert

/-! ### Confirmed transactions -/

/-- The message a confirmed transaction is written to with enough memory. -/
def writtenWhole (tx : Wire.ConfirmedTransaction) : Proto.ConfirmedTransaction :=
  writtenConfirmed tx (.nothing, .nothing)

theorem writtenAnchor_gives (anchor : Wire.LedgerAnchor) :
    Gives (ledgerAnchorFromPbtools host.union (some (writtenAnchor anchor .nothing))) anchor := by
  have hsame : writtenAnchor anchor .nothing = ledgerAnchorMessage anchor := by
    cases anchor with
    | hieroTransactionId id => rfl
    | id type other id => rfl
  rw [hsame]
  exact ledgerAnchor_roundTrip anchor

theorem writtenTransaction_gives {tx : Wire.GradidoTransaction}
    (hfew : tx.sigMap.items.length < 255) (hne : tx.bodyBytes ≠ [])
    (hfits : tx.bodyBytes.length ≤ host.maxAllocSize) :
    Gives (gradidoTransactionFromPb host (some (writtenTransaction tx .nothing))) tx.settled := by
  have hsigMap : Gives
      (sigMapFromPb
        (if 0 < tx.sigMap.items.length then some ⟨tx.sigMap.items.map signaturePairFromWire⟩
          else none)) tx.sigMap := by
    split
    · exact .few (fun pair _ => signaturePair_roundTrip pair) hfew
    · have hempty : tx.sigMap = .empty := Few.ext (List.length_eq_zero_iff.1 (by omega))
      rw [hempty]
      exact .pure _
  have hpairing : Gives (pairingLedgerAnchorFromPb host (if tx.pairingLedgerAnchor.type ≠ .unspecified then
      some (writtenAnchor tx.pairingLedgerAnchor .nothing) else none)) tx.pairingLedgerAnchor.settled := by
    rw [Wire.LedgerAnchor.settled]
    split
    · exact writtenAnchor_gives tx.pairingLedgerAnchor
    · exact .pure _
  exact (Gives.notNull _).bind
    (hsigMap.bind (hpairing.bind ((Gives.memoryBlock hne hfits).bind (.pure _))))

theorem writtenWhole_gives {tx : Wire.ConfirmedTransaction}
    (hfew : tx.transaction.sigMap.items.length < 255)
    (hcount : tx.accountBalances.items.length < 255) (hne : tx.transaction.bodyBytes ≠ [])
    (hfits : tx.transaction.bodyBytes.length ≤ host.maxAllocSize) :
    Gives (confirmedTransactionFromPb host (writtenWhole tx)) tx.settled := by
  have hbalances : Gives
      (fewFromPbtools accountBalanceFromPbtools (writtenWhole tx).accountBalances)
      tx.accountBalances := by
    rw [writtenWhole, writtenConfirmed, if_pos hcount]
    exact .few (fun balance _ => accountBalance_roundTrip balance) hcount
  rw [confirmedTransactionFromPb,
    if_neg (show ¬protocolVersion ≠ (writtenWhole tx).versionNumber from not_not.2 rfl)]
  exact (writtenTransaction_gives hfew hne hfits).bind
    ((timestamp_roundTrip _).bind
      ((Gives.copy _).bind ((writtenAnchor_gives _).bind (hbalances.bind (.pure _)))))

theorem counted_toList {size : Nat} (hsize : size ≤ PbTools.intMax) (bytes : Bytes size) :
    Proto.Counted bytes.toList := by
  rw [Proto.Counted, bytes.length_toList]
  exact hsize

theorem writtenAnchor_writable (anchor : Wire.LedgerAnchor) (loss : Loss) :
    (writtenAnchor anchor loss).Writable := by
  intro message hmessage
  cases anchor with
  | id type other id => cases hmessage
  | hieroTransactionId id =>
      cases hmessage
      refine ⟨_, rfl, fun account haccount bytes hbytes => ?_⟩
      change account ∈ (if _ then _ else none) at haccount
      split at haccount
      · cases haccount
        cases hbytes
      · cases haccount

theorem writtenTransaction_writable {tx : Wire.GradidoTransaction}
    (hcounted : Proto.Counted tx.bodyBytes) (loss : Loss) :
    (writtenTransaction tx loss).Writable := by
  refine ⟨fun map hmap pair hpair => ?_, hcounted, fun anchor hanchor => ?_⟩
  · change map ∈ (if _ then _ else none) at hmap
    split at hmap
    · cases hmap
      obtain ⟨value, -, rfl⟩ := List.mem_map.1 hpair
      exact ⟨counted_toList (by decide) _, counted_toList (by decide) _⟩
    · cases hmap
  · change anchor ∈ (if _ then _ else none) at hanchor
    split at hanchor
    · cases hanchor
      exact writtenAnchor_writable _ loss
    · cases hanchor

/-- The bytes of a body are part of the bytes of the message. -/
theorem length_bodyBytes_le (tx : Wire.ConfirmedTransaction) :
    tx.transaction.bodyBytes.length ≤ (writtenWhole tx).bytes.length := by
  let inner := writtenTransaction tx.transaction .nothing
  have hbody := WireFormat.length_le_bytesUnlessEmpty 2 inner.bodyBytes
  have hinner : (WireFormat.bytesUnlessEmpty 2 inner.bodyBytes).length ≤ inner.bytes.length := by
    simp only [Proto.GradidoTransaction.bytes, List.length_append]
    omega
  have hfield := WireFormat.length_le_bytesField 2 inner.bytes
  have hwhole : (WireFormat.bytesField 2 inner.bytes).length ≤ (writtenWhole tx).bytes.length := by
    change _ ≤
      (_ ++ WireFormat.bytesField 2 inner.bytes ++ _ ++ _ ++ _ ++ _ ++ _ : List UInt8).length
    simp only [List.length_append]
    omega
  exact Nat.le_trans hbody (Nat.le_trans hinner (Nat.le_trans hfield hwhole))

theorem writtenWhole_writable {tx : Wire.ConfirmedTransaction}
    (hsmall : (writtenWhole tx).bytes.length ≤ PbTools.intMax) : (writtenWhole tx).Writable := by
  refine ⟨fun transaction htransaction => ?_, counted_toList (by decide) _,
    fun anchor hanchor => ?_, fun balance hbalance => ?_⟩
  · cases htransaction
    exact writtenTransaction_writable (Nat.le_trans (length_bodyBytes_le tx) hsmall) .nothing
  · cases hanchor
    exact writtenAnchor_writable _ .nothing
  · change balance ∈ (if _ then _ else []) at hbalance
    split at hbalance
    · obtain ⟨value, -, rfl⟩ := List.mem_map.1 hbalance
      exact ⟨counted_toList (by decide) _, counted_toList (by decide) _⟩
    · cases hbalance

theorem confirmedTransactionFromWire_whole {tx : Wire.ConfirmedTransaction}
    (hfew : tx.transaction.sigMap.items.length < 255)
    (hcount : tx.accountBalances.items.length < 255) :
    confirmedTransactionFromWire tx .init [] = (.ok (), writtenWhole tx, []) := by
  rw [confirmedTransactionFromWire_served hfew (served_nil tx), balancesEnding, if_pos hcount]
  rfl

theorem confirmedTransactionEncode_whole {tx : Wire.ConfirmedTransaction}
    (hfew : tx.transaction.sigMap.items.length < 255)
    (hcount : tx.accountBalances.items.length < 255) {size : Nat} (hsmall : size ≤ PbTools.intMax)
    (hroom : (writtenWhole tx).bytes.length < size) :
    Gives (confirmedTransactionEncode tx size) (writtenWhole tx).bytes := by
  have hmessage :=
    ((PbTools.Writes.confirmedTransaction (writtenWhole tx)).encode (by omega) hsmall).1
      (writtenWhole_writable (by omega))
  rw [if_pos hroom] at hmessage
  exact encodeWith_nil (by omega) (confirmedTransactionFromWire_whole hfew hcount) hmessage

/-- With memory for both, a confirmed transaction is sent and arrives just when its lists are short
enough for their counters, it has a body that the host can allocate, and its bytes leave one byte
of the buffer free. -/
theorem confirmedTransaction_arrives_iff {tx : Wire.ConfirmedTransaction} (hcoded : tx.Coded)
    {size : Nat} (hsmall : size ≤ PbTools.intMax) :
    (∃ bytes, Gives (confirmedTransactionEncode tx size) bytes ∧
        Gives (confirmedTransactionDecode PbTools.codec host bytes) tx.settled) ↔
      tx.transaction.sigMap.items.length < 255 ∧ tx.accountBalances.items.length < 255 ∧
        tx.transaction.bodyBytes ≠ [] ∧ tx.transaction.bodyBytes.length ≤ host.maxAllocSize ∧
        (writtenWhole tx).bytes.length < size := by
  constructor
  · intro harrives
    obtain ⟨bytes, hencode, hdecode⟩ := harrives
    obtain ⟨hpos, message, between, hgranted, hfill, hmessage⟩ := encodeWith_ok hencode
    rw [granted_nil] at hgranted
    cases hgranted
    obtain ⟨hfew, hcount, -⟩ := confirmedTransactionFromWire_ok hfill
    cases hfill.symm.trans (confirmedTransactionFromWire_whole hfew hcount)
    have hwrites := PbTools.Writes.confirmedTransaction (writtenWhole tx)
    have hparse :=
      hwrites.parsed (PbTools.confirmedTransaction_read (writtenConfirmed_legible hcoded _)) hpos
        hsmall hmessage
    obtain ⟨middle, hconvert⟩ := decodeWith_ok hparse hdecode
    obtain ⟨-, ⟨transaction, htransaction, -, -, hne, hfits⟩, -⟩ :=
      (confirmedTransaction_decides _).accepted_of_ok hconvert
    cases htransaction
    exact ⟨hfew, hcount, fun h => hne (List.length_eq_zero_iff.2 h), hfits,
      (hwrites.encode_ok hpos hsmall hmessage).2⟩
  · intro hfit
    obtain ⟨hfew, hcount, hne, hfits, hroom⟩ := hfit
    have hwrites := PbTools.Writes.confirmedTransaction (writtenWhole tx)
    have hmessage := (hwrites.encode (by omega) hsmall).1 (writtenWhole_writable (by omega))
    rw [if_pos hroom] at hmessage
    have hparse :=
      hwrites.parsed (PbTools.confirmedTransaction_read (writtenConfirmed_legible hcoded _))
        (by omega) hsmall hmessage
    have hbytes : (writtenWhole tx).bytes ≠ [] := by
      have hle := length_bodyBytes_le tx
      have hpos := List.length_pos_iff.2 hne
      exact List.length_pos_iff.1 (by omega)
    exact ⟨_, confirmedTransactionEncode_whole hfew hcount hsmall hroom,
      decodeWith_nil hbytes hparse (writtenWhole_gives hfew hcount hne hfits)⟩

/-- A transaction with a signature arrives through a buffer of 300 bytes. -/
theorem confirmedTransaction_arrives_iff_confirmed :
    ∃ bytes, Gives (confirmedTransactionEncode confirmed 300) bytes ∧
      Gives (confirmedTransactionDecode PbTools.codec plainHost bytes) confirmed.settled :=
  (confirmedTransaction_arrives_iff
    (show confirmed.Coded from ⟨Nat.two_pow_pos 32, show 2 < 2 ^ 32 by decide⟩) (by decide)).2
    ⟨by decide, by decide, by decide, by decide, by decide +kernel⟩

/-! ### Bodies -/

def transferMessage (transfer : Wire.GradidoTransfer) : Proto.GradidoTransfer :=
  ⟨some (transferAmountFromWire transfer.sender), transfer.recipient.toList⟩

/-- What the transaction of a body is written to with enough memory. -/
def detailMessage : Wire.Detail → Proto.Data
  | .none => .none
  | .transfer transfer => .transfer (some (transferMessage transfer))
  | .creation creation => .creation (some ⟨some (transferAmountFromWire creation.recipient),
      some (timestampSecondsFromWire creation.targetDate)⟩)
  | .communityFriendsUpdate colorFusion =>
      .communityFriendsUpdate (some (communityFriendsUpdateFromWire colorFusion))
  | .registerAddress address => .registerAddress (some (registerAddressFromWire address))
  | .deferredTransfer deferred => .deferredTransfer (some ⟨some (transferMessage deferred.transfer),
      some ⟨deferred.timeoutDuration.toUInt64⟩⟩)
  | .communityRoot root => .communityRoot (some (communityRootFromWire root))
  | .redeemDeferredTransfer redeem =>
      .redeemDeferredTransfer
        (some ⟨redeem.deferredTransferTransactionNr, some (transferMessage redeem.transfer)⟩)
  | .timeoutDeferredTransfer nr =>
      .timeoutDeferredTransfer (some (gradidoTimeoutDeferredTransferFromWire nr))
  | .unknown past => .unknown past

/-- The message a body is written to with enough memory. -/
def writtenBody (body : Wire.TransactionBody) : Proto.TransactionBody :=
  { bodyHead body with data := detailMessage body.detail }

theorem transactionBodyFromWire_whole {body : Wire.TransactionBody}
    (hknown : ∀ past, body.detail ≠ .unknown past) :
    transactionBodyFromWire body .init [] = (.ok (), writtenBody body, []) := by
  rw [transactionBodyFromWire_nil, writtenBody]
  cases hdetail : body.detail with
  | unknown past => exact absurd hdetail (hknown past)
  | _ => rfl

theorem known_of_ok {body : Wire.TransactionBody} {message : Proto.TransactionBody}
    {room rest : Room} (hrun : transactionBodyFromWire body .init room = (.ok (), message, rest))
    (past : Nat) : body.detail ≠ .unknown past := by
  intro hdetail
  have hfull := transactionBodyFromWire_steady body hrun
  rw [transactionBodyFromWire_nil, hdetail] at hfull
  cases hfull

theorem transferAmount_writable (amount : Wire.TransferAmount) :
    (transferAmountFromWire amount).Writable :=
  ⟨counted_toList (by decide) _, counted_toList (by decide) _⟩

theorem transferMessage_writable (transfer : Wire.GradidoTransfer) :
    (transferMessage transfer).Writable :=
  ⟨fun _ h => Option.some.inj h ▸ transferAmount_writable transfer.sender,
    counted_toList (by decide) _⟩

theorem detailMessage_writable (detail : Wire.Detail) : (detailMessage detail).Writable := by
  cases detail with
  | none => exact trivial
  | unknown past => exact trivial
  | transfer transfer => exact ⟨_, rfl, transferMessage_writable transfer⟩
  | creation creation =>
      exact ⟨_, rfl, fun _ h => Option.some.inj h ▸ transferAmount_writable creation.recipient⟩
  | communityFriendsUpdate colorFusion => exact ⟨_, rfl⟩
  | registerAddress address =>
      exact ⟨_, rfl, counted_toList (by decide) _, counted_toList (by decide) _,
        counted_toList (by decide) _⟩
  | deferredTransfer deferred =>
      exact ⟨_, rfl, fun _ h => Option.some.inj h ▸ transferMessage_writable deferred.transfer⟩
  | communityRoot root =>
      exact ⟨_, rfl, counted_toList (by decide) _, counted_toList (by decide) _,
        counted_toList (by decide) _⟩
  | redeemDeferredTransfer redeem =>
      exact ⟨_, rfl, fun _ h => Option.some.inj h ▸ transferMessage_writable redeem.transfer⟩
  | timeoutDeferredTransfer nr => exact ⟨_, rfl⟩

theorem writtenBody_writable {body : Wire.TransactionBody}
    (hsmall : (writtenBody body).bytes.length ≤ PbTools.intMax) : (writtenBody body).Writable := by
  refine ⟨detailMessage_writable body.detail, fun memo hmemo => ?_, ?_⟩
  · have hbytes := WireFormat.length_le_bytesUnlessEmpty 2 memo.memo
    have hinner : (WireFormat.bytesUnlessEmpty 2 memo.memo).length ≤ memo.bytes.length := by
      rw [Proto.EncryptedMemo.bytes, List.length_append]
      omega
    have hfields := WireFormat.length_le_messageFields 1 Proto.EncryptedMemo.bytes hmemo
    rw [Proto.TransactionBody.bytes] at hsmall
    simp only [List.length_append] at hsmall
    rw [Proto.Counted]
    omega
  · change Proto.Counted (communityUuidFromWire body.otherCommunityUuid)
    cases body.otherCommunityUuid with
    | none => exact PbTools.counted_nil
    | some uuid => exact counted_toList (by decide) uuid

theorem writtenBody_bytes_ne_nil (body : Wire.TransactionBody) : (writtenBody body).bytes ≠ [] := by
  have hne := WireFormat.bytesField_ne_nil 2 (timestampFromWire body.createdAt).bytes
  change (_ ++ _ ++ WireFormat.bytesField 2 (timestampFromWire body.createdAt).bytes ++ _ ++ _ ++ _ :
      List UInt8) ≠ []
  simp [hne]

theorem writtenBody_gives {body : Wire.TransactionBody}
    (hknown : ∀ past, body.detail ≠ .unknown past) (hcount : body.memos.items.length < 255)
    (hfits : ∀ memo ∈ body.memos.items, memo.memo.length ≤ host.maxAllocSize) :
    Gives (transactionBodyFromPbtools host (writtenBody body)) body := by
  have hdata := (transactionBodyFromWire_ok (transactionBodyFromWire_whole hknown)).2
  rw [transactionBodyFromPbtools,
    if_neg (show ¬protocolVersion ≠ (writtenBody body).versionNumber from not_not.2 rfl)]
  refine Gives.bind (.few (fun memo hmemo => encryptedMemo_roundTrip (hfits memo hmemo)) hcount) ?_
  exact (otherCommunityUuid_roundTrip _).bind ((timestamp_roundTrip _).bind (hdata.bind (.pure _)))

theorem transactionBodyEncode_whole {body : Wire.TransactionBody}
    (hknown : ∀ past, body.detail ≠ .unknown past) {size : Nat} (hsmall : size ≤ PbTools.intMax)
    (hroom : (writtenBody body).bytes.length < size) :
    Gives (transactionBodyEncode body size) (writtenBody body).bytes := by
  have hmessage :=
    ((PbTools.Writes.transactionBody (writtenBody body)).encode (by omega) hsmall).1
      (writtenBody_writable (by omega))
  rw [if_pos hroom] at hmessage
  exact encodeWith_nil (by omega) (transactionBodyFromWire_whole hknown) hmessage

/-- With memory for both, a body is sent and arrives just when its type is known, it has not 255
memos, the host can allocate each of them, and its bytes leave one byte of the buffer free. -/
theorem transactionBody_arrives_iff {body : Wire.TransactionBody} (hcoded : body.Coded) {size : Nat}
    (hsmall : size ≤ PbTools.intMax) :
    (∃ bytes, Gives (transactionBodyEncode body size) bytes ∧
        Gives (transactionBodyDecode PbTools.codec host bytes) body) ↔
      (∀ past, body.detail ≠ .unknown past) ∧ body.memos.items.length ≠ 255 ∧
        (∀ memo ∈ body.memos.items, memo.memo.length ≤ host.maxAllocSize) ∧
        (writtenBody body).bytes.length < size := by
  constructor
  · intro harrives
    obtain ⟨bytes, hencode, hdecode⟩ := harrives
    obtain ⟨hpos, message, between, hgranted, hfill, hmessage⟩ := encodeWith_ok hencode
    rw [granted_nil] at hgranted
    cases hgranted
    have hknown := known_of_ok hfill
    cases hfill.symm.trans (transactionBodyFromWire_whole hknown)
    have hwrites := PbTools.Writes.transactionBody (writtenBody body)
    have hlegible := bodyHead_legible hcoded (transactionBodyFromWire_ok hfill).2
    have hparse := hwrites.parsed (PbTools.transactionBody_read hlegible) hpos hsmall hmessage
    obtain ⟨middle, hconvert⟩ := decodeWith_ok hparse hdecode
    obtain ⟨⟨-, ⟨hcount, hfits⟩, -⟩, -⟩ := (transactionBody_decides _).accepted_of_ok hconvert
    change (body.memos.items.map encryptedMemoFromWire).length < 255 at hcount
    rw [List.length_map] at hcount
    exact ⟨hknown, Nat.ne_of_lt hcount, fun memo hmemo => hfits _ (List.mem_map_of_mem hmemo),
      (hwrites.encode_ok hpos hsmall hmessage).2⟩
  · intro hfit
    obtain ⟨hknown, hcount, hfits, hroom⟩ := hfit
    have hfew := body.memos.few
    have hfill := transactionBodyFromWire_whole hknown
    have hwrites := PbTools.Writes.transactionBody (writtenBody body)
    have hmessage := (hwrites.encode (by omega) hsmall).1 (writtenBody_writable (by omega))
    rw [if_pos hroom] at hmessage
    have hlegible := bodyHead_legible hcoded (transactionBodyFromWire_ok hfill).2
    have hparse := hwrites.parsed (PbTools.transactionBody_read hlegible) (by omega) hsmall hmessage
    exact ⟨_, transactionBodyEncode_whole hknown hsmall hroom,
      decodeWith_nil (writtenBody_bytes_ne_nil body) hparse
        (writtenBody_gives hknown (by omega) hfits)⟩

/-- A transfer with a memo to another community, or from it. -/
def transferred (type : CrossGroup) (other : UInt8) : Wire.TransactionBody :=
  { bodyWith ⟨[⟨.plain, [104, 105]⟩], by decide⟩ with
    detail :=
      .transfer ⟨⟨Vector.replicate 32 3, 70000, Vector.replicate 16 1⟩, Vector.replicate 32 4⟩
    type := type
    otherCommunityUuid := some (Vector.replicate 16 other) }

theorem transferred_coded {type : CrossGroup} {other : UInt8} (htype : type.code < 2 ^ 32) :
    (transferred type other).Coded := by
  refine ⟨nofun, fun memo hmemo => ?_, htype⟩
  cases List.mem_singleton.1 hmemo
  decide

/-- A transfer to another community arrives through a buffer of 300 bytes. -/
theorem transactionBody_arrives_iff_outbound :
    ∃ bytes, Gives (transactionBodyEncode (transferred .outbound 2) 300) bytes ∧
      Gives (transactionBodyDecode PbTools.codec plainHost bytes) (transferred .outbound 2) :=
  (transactionBody_arrives_iff (transferred_coded (by decide)) (by decide)).2
    ⟨nofun, by decide, by decide +kernel, by decide +kernel⟩

end Mapping

end GradidoBlockchain
