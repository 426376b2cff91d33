import GradidoBlockchain.Wire.Arrival

/-!
# What survives an encoding

A message is written in a workspace that may run out at any request. What is decoded from a message
that was written all the same is the value or nothing, and which of the two it is depends on the
requests that were refused on the way: those for the parts of a Hiero id are not reported.
-/

namespace GradidoBlockchain

open Fallible Fallible.Call

namespace Mapping

variable {α β : Type} {host : Host}

/-! ### Messages that are taken -/

/-- A mapping that can give one value only gives it for the messages it takes. -/
theorem Decides.gives_iff {call : Decode α} {accepted faulty : Prop} {value : α}
    (hcall : Decides call accepted faulty) (honly : Yields call value) :
    Gives call value ↔ accepted := by
  constructor
  · exact fun hgives => hcall.accepted_of_ok hgives
  · intro haccepted
    obtain ⟨other, hother⟩ := hcall.accepts haccepted
    rwa [honly hother] at hother

/-- An anchor is taken just when it has lost nothing. -/
theorem writtenAnchor_fits_iff {anchor : Wire.LedgerAnchor} {room rest : Room} {loss : Loss}
    (hserved : servedAnchor anchor room = some (loss, rest)) :
    (writtenAnchor anchor loss).Fits ↔ loss = .nothing := by
  cases anchor with
  | id type other id =>
      cases hserved
      exact iff_of_true (fun htype => absurd htype other) rfl
  | hieroTransactionId id =>
      rw [Proto.LedgerAnchor.Fits]
      cases loss <;>
        simp [writtenAnchor, Proto.TransactionId.Fits, Proto.AccountId.Fits, hieroAccountIdFromWire]

theorem writtenTransaction_fits_iff (host : Host) {tx : Wire.GradidoTransaction} {room rest : Room}
    {loss : Loss} (hfew : tx.sigMap.items.length < 255)
    (hserved : servedTransaction tx room = some (loss, rest)) :
    (writtenTransaction tx loss).Fits host ↔
      loss = .nothing ∧ tx.bodyBytes ≠ [] ∧ tx.bodyBytes.length ≤ host.maxAllocSize := by
  have hsigMap : ∀ sigMap ∈ (writtenTransaction tx loss).sigMap, sigMap.Fits := by
    intro sigMap hsigMap
    change sigMap ∈ (if _ then _ else none) at hsigMap
    split at hsigMap
    · cases hsigMap
      refine ⟨by rwa [List.length_map], fun pair hpair => ?_⟩
      obtain ⟨value, -, rfl⟩ := List.mem_map.1 hpair
      exact ⟨value.publicKey.length_toList, value.signature.length_toList⟩
    · cases hsigMap
  have hpairing : (∀ anchor ∈ (writtenTransaction tx loss).pairingLedgerAnchor, anchor.Fits) ↔
      loss = .nothing := by
    obtain ⟨between, -, hpairing⟩ := Option.bind_eq_some_iff.1 hserved
    rw [servedPairing] at hpairing
    have hwritten : (writtenTransaction tx loss).pairingLedgerAnchor = if tx.pairingLedgerAnchor.type ≠ .unspecified then
        some (writtenAnchor tx.pairingLedgerAnchor loss) else none := rfl
    rw [hwritten]
    by_cases hsent : tx.pairingLedgerAnchor.type ≠ .unspecified
    · rw [if_pos hsent] at hpairing ⊢
      obtain ⟨last, -, hanchor⟩ := Option.bind_eq_some_iff.1 hpairing
      rw [← writtenAnchor_fits_iff hanchor]
      exact ⟨fun h => h _ rfl, fun h anchor hanchor => Option.some.inj hanchor ▸ h⟩
    · rw [if_neg hsent] at hpairing ⊢
      cases hpairing
      exact iff_of_true (fun _ h => absurd h (Option.not_mem_none _)) rfl
  rw [Proto.GradidoTransaction.Fits, hpairing, and_iff_right hsigMap]
  change loss = .nothing ∧ tx.bodyBytes.length ≠ 0 ∧ tx.bodyBytes.length ≤ host.maxAllocSize ↔ _
  simp only [ne_eq, List.length_eq_zero_iff]

/-- A confirmed transaction is taken just when both of its anchors have lost nothing, and it
confirms bytes that the host can allocate. -/
theorem writtenConfirmed_fits_iff (host : Host) {tx : Wire.ConfirmedTransaction} {room rest : Room}
    {losses : Loss × Loss} (hfew : tx.transaction.sigMap.items.length < 255)
    (hcount : tx.accountBalances.items.length < 255)
    (hserved : served tx room = some (losses, rest)) :
    (writtenConfirmed tx losses).Fits host ↔
      (losses.1 = .nothing ∧ losses.2 = .nothing) ∧ tx.transaction.bodyBytes ≠ [] ∧
        tx.transaction.bodyBytes.length ≤ host.maxAllocSize := by
  obtain ⟨_, -, hserved⟩ := Option.bind_eq_some_iff.1 hserved
  obtain ⟨⟨pairing, _⟩, htransaction, hserved⟩ := Option.bind_eq_some_iff.1 hserved
  obtain ⟨_, -, hserved⟩ := Option.bind_eq_some_iff.1 hserved
  obtain ⟨_, -, hserved⟩ := Option.bind_eq_some_iff.1 hserved
  obtain ⟨⟨anchor, _⟩, hanchor, hserved⟩ := Option.bind_eq_some_iff.1 hserved
  obtain ⟨_, -, hlast⟩ := Option.map_eq_some_iff.1 hserved
  cases hlast
  have hbalances :
      Proto.FewFit Proto.AccountBalance.Fits
        (writtenConfirmed tx (pairing, anchor)).accountBalances := by
    rw [writtenConfirmed, if_pos hcount]
    refine ⟨by rwa [List.length_map], fun balance hbalance => ?_⟩
    obtain ⟨value, -, rfl⟩ := List.mem_map.1 hbalance
    exact ⟨value.pubkey.length_toList, .inr value.communityUuid.length_toList⟩
  have hinner := writtenTransaction_fits_iff host hfew htransaction
  have houter := writtenAnchor_fits_iff hanchor
  constructor
  · rintro ⟨-, ⟨transaction, htx, hfits⟩, -, -, ⟨ledgerAnchor, hledger, hwhole⟩, -⟩
    cases htx
    cases hledger
    obtain ⟨hnothing, hbytes⟩ := hinner.1 hfits
    exact ⟨⟨hnothing, houter.1 hwhole⟩, hbytes⟩
  · rintro ⟨⟨hpairing, hledger⟩, hbytes⟩
    exact ⟨rfl, ⟨_, rfl, hinner.2 ⟨hpairing, hbytes⟩⟩, ⟨_, rfl⟩, tx.runningHash.length_toList,
      ⟨_, rfl, houter.2 hledger⟩, hbalances⟩

/-! ### When nothing is swallowed -/

/-- The message of an anchor holds both parts of its Hiero id. -/
def HoldsAnchor (anchor : Wire.LedgerAnchor) (pb : Proto.LedgerAnchor) : Prop :=
  match anchor with
  | .hieroTransactionId _ => ∃ id, pb.anchorId = .hieroTransactionId (some id) ∧
      id.transactionValidStart ≠ none ∧ id.accountId ≠ none
  | .id _ _ id => pb.anchorId = .id id

/-- The message of a transaction holds its signatures and its pairing anchor, where it has any. -/
structure HoldsTransaction (tx : Wire.GradidoTransaction)
    (pb : Proto.GradidoTransaction) : Prop where
  sigMap : tx.sigMap.items ≠ [] →
    ∃ sigMap ∈ pb.sigMap, sigMap.sigPair.length = tx.sigMap.items.length
  pairingLedgerAnchor : tx.pairingLedgerAnchor.type ≠ .unspecified →
    ∃ anchor ∈ pb.pairingLedgerAnchor, HoldsAnchor tx.pairingLedgerAnchor anchor

/-- The message holds every sub-message of the value. -/
structure HoldsAll (tx : Wire.ConfirmedTransaction) (pb : Proto.ConfirmedTransaction) : Prop where
  transaction : ∃ transaction ∈ pb.transaction, HoldsTransaction tx.transaction transaction
  confirmedAt : pb.confirmedAt ≠ none
  ledgerAnchor : ∃ anchor ∈ pb.ledgerAnchor, HoldsAnchor tx.ledgerAnchor anchor
  accountBalances : pb.accountBalances.length = tx.accountBalances.items.length

theorem writtenAnchor_holds (anchor : Wire.LedgerAnchor) :
    HoldsAnchor anchor (writtenAnchor anchor .nothing) := by
  cases anchor with
  | hieroTransactionId id => exact ⟨_, rfl, nofun, nofun⟩
  | id type other id => rfl

theorem writtenWhole_holds {tx : Wire.ConfirmedTransaction}
    (hcount : tx.accountBalances.items.length < 255) : HoldsAll tx (writtenWhole tx) where
  transaction := by
    refine ⟨_, rfl, fun hsome => ?_, fun htype => ?_⟩
    · have hpos := List.length_pos_iff.2 hsome
      exact ⟨_, if_pos hpos, List.length_map _⟩
    · exact ⟨_, if_pos htype, writtenAnchor_holds tx.transaction.pairingLedgerAnchor⟩
  confirmedAt := nofun
  ledgerAnchor := ⟨_, rfl, writtenAnchor_holds tx.ledgerAnchor⟩
  accountBalances := by
    rw [writtenWhole, writtenConfirmed, if_pos hcount, List.length_map]

/-- An encoding that succeeds has written every sub-message, and the message decodes to the value; a
request that is refused is reported. -/
def Faithful (host : Host) (tx : Wire.ConfirmedTransaction) (room : Room) : Prop :=
  let run := confirmedTransactionFromWire tx .init room
  (run.1 = .ok () → HoldsAll tx run.2.1 ∧ Gives (confirmedTransactionFromPb host run.2.1) tx) ∧
    ((∃ used, room = used ++ run.2.2 ∧ false ∈ used) → run.1 = .error .outOfMemory)

/-- The value is one that a message can be decoded to: a pairing anchor that does not say what it is
says nothing at all, and there are bytes to confirm, which the host can allocate. -/
def Decodable (host : Host) (tx : Wire.ConfirmedTransaction) : Prop :=
  tx.settled = tx ∧ tx.transaction.bodyBytes ≠ [] ∧
    tx.transaction.bodyBytes.length ≤ host.maxAllocSize

theorem balancesEnding_ne (balances : Few AccountBalance) :
    balancesEnding balances ≠ .error .outOfMemory := by
  rw [balancesEnding]
  split <;> intro h <;> cases h

/-- 255 signatures are refused before an anchor is written. -/
theorem faithful_of_full {tx : Wire.ConfirmedTransaction}
    (hfull : tx.transaction.sigMap.items.length = 255) (room : Room) : Faithful host tx room := by
  have hfails : ∀ (start : Proto.GradidoTransaction) (rest : Room), gradidoTransactionFromWire
        tx.transaction start rest = (.error .arrayIndexOutOfBounds, start, rest) := by
    intro start rest
    rw [gradidoTransactionFromWire, sigMapFromWire, if_pos (by omega), if_pos (by omega)]
    rfl
  have hrun : ∀ rest, granted 1 room = some rest →
      ∃ left, confirmedTransactionFromWire tx .init room =
        (.error .arrayIndexOutOfBounds, left, rest) := by
    intro rest hgranted
    rw [confirmedTransactionFromWire, bind_run_ok (write_run _ _ _)]
    have hgrow :=
      Follows.grow ArnmResult.outOfMemory
        (fun pb : Proto.ConfirmedTransaction => { pb with transaction := some .init })
        { Proto.ConfirmedTransaction.init with versionNumber := protocolVersion, id := tx.id } room
    rw [hgranted] at hgrow
    rw [bind_run_ok hgrow, bind_run, within_run, hfails]
    exact ⟨_, rfl⟩
  rcases hgranted : granted 1 room with _ | rest
  · rcases room with _ | ⟨_ | _, room⟩ <;> cases hgranted
    exact ⟨fun h => (by cases h), fun _ => rfl⟩
  · obtain ⟨left, hleft⟩ := hrun rest hgranted
    rw [Faithful, hleft]
    refine ⟨fun h => (by cases h), fun hreported => ?_⟩
    obtain ⟨used, hroom, hrefused⟩ := hreported
    exact ((Spends.granted hgranted).unique ⟨used, hroom, Iff.rfl⟩).2 hrefused |>.elim

/-- What is decoded from a message is the value just when that is as it arrives,
and nothing is lost. -/
theorem writtenConfirmed_gives_iff {tx : Wire.ConfirmedTransaction} {room rest : Room}
    {losses : Loss × Loss} (hfew : tx.transaction.sigMap.items.length < 255)
    (hcount : tx.accountBalances.items.length < 255)
    (hserved : served tx room = some (losses, rest)) :
    Gives (confirmedTransactionFromPb host (writtenConfirmed tx losses)) tx ↔
      (losses.1 = .nothing ∧ losses.2 = .nothing) ∧ Decodable host tx := by
  have honly : Yields (confirmedTransactionFromPb host (writtenConfirmed tx losses)) tx.settled :=
    writtenConfirmed_yields hcount losses
  have hfits := writtenConfirmed_fits_iff host hfew hcount hserved
  have hsettled := (confirmedTransaction_decides (writtenConfirmed tx losses)).gives_iff honly
  constructor
  · intro hgives
    have hsame : tx = tx.settled := honly hgives
    rw [← hsame] at hsettled
    obtain ⟨hwhole, hbytes⟩ := hfits.1 (hsettled.1 hgives)
    exact ⟨hwhole, hsame.symm, hbytes⟩
  · rintro ⟨hwhole, hsame, hbytes⟩
    rw [hsame] at hsettled
    exact hsettled.2 (hfits.2 ⟨hwhole, hbytes⟩)

/-- An encoding is faithful just when 255 signatures end it, or a request for something else than a
part of a Hiero id is refused, or the requests for these parts are granted and the value, unless its
255 balances are refused at the end, is one that a message can be decoded to. -/
theorem confirmedTransactionFromWire_faithful_iff (host : Host) (tx : Wire.ConfirmedTransaction)
    (room : Room) :
    Faithful host tx room ↔
      tx.transaction.sigMap.items.length = 255 ∨
        ∀ pairing anchor rest, served tx room = some ((pairing, anchor), rest) →
          (pairing = .nothing ∧ anchor = .nothing) ∧
            (tx.accountBalances.items.length < 255 → Decodable host tx) := by
  by_cases hfull : tx.transaction.sigMap.items.length = 255
  · exact ⟨fun _ => .inl hfull, fun _ => faithful_of_full hfull room⟩
  have hsigs := tx.transaction.sigMap.few
  have hfew : tx.transaction.sigMap.items.length < 255 := by omega
  rw [or_iff_right hfull, Faithful]
  rcases hserved : served tx room with _ | ⟨⟨pairing, anchor⟩, rest⟩
  · have hfollows := confirmedTransactionFromWire_follows hfew room
    rw [hserved] at hfollows
    change (confirmedTransactionFromWire tx .init room).1 = .error .outOfMemory at hfollows
    rw [hfollows]
    simp
  · rw [confirmedTransactionFromWire_served hfew hserved]
    obtain ⟨used, hroom, hused⟩ := served_spends hserved
    have hending : tx.accountBalances.items.length < 255 →
        balancesEnding tx.accountBalances = .ok () := fun hcount => if_pos hcount
    constructor
    · rintro ⟨hwritten, hreported⟩ _ _ _ hsame
      cases hsame
      have hnothing : pairing = .nothing ∧ anchor = .nothing := by
        by_contra hlost
        exact balancesEnding_ne _ (hreported ⟨used, hroom, hused.2 (by tauto)⟩)
      exact ⟨hnothing, fun hcount =>
        ((writtenConfirmed_gives_iff hfew hcount hserved).1 (hwritten (hending hcount)).2).2⟩
    · intro hkept
      obtain ⟨⟨rfl, rfl⟩, hdecodable⟩ := hkept pairing anchor rest rfl
      refine ⟨fun hok => ?_, fun ⟨other, hother, hrefused⟩ => ?_⟩
      · have hcount : tx.accountBalances.items.length < 255 := by
          by_contra hmany
          rw [balancesEnding, if_neg hmany] at hok
          cases hok
        exact ⟨writtenWhole_holds hcount,
          (writtenConfirmed_gives_iff hfew hcount hserved).2 ⟨⟨rfl, rfl⟩, hdecodable hcount⟩⟩
      · have hsame : used = other := List.append_cancel_right (hroom.symm.trans hother)
        rw [← hsame, hused] at hrefused
        simp at hrefused

/-- With memory for six requests and no more, a Hiero id is written without its parts, and that is a
success. -/
theorem confirmed_not_faithful :
    confirmedTransactionFromWire confirmed .init [true, true, true, true, true, true, false] =
      (.ok (), writtenConfirmed confirmed (.nothing, .both), []) ∧
      ¬Faithful plainHost confirmed [true, true, true, true, true, true, false] := by
  refine ⟨by decide +kernel, fun hfaithful => ?_⟩
  have hreported :=
    hfaithful.2 ⟨[true, true, true, true, true, true, false], by decide +kernel, by decide⟩
  revert hreported
  decide +kernel

/-! ### There and back -/

/-- Whatever memory there is, the decoder gives no other value; with all it asks for it gives this
one just when the value fits. -/
structure ArrivesAs (decode : Decode α) (value : α) (fits : Prop) : Prop where
  only : Yields decode value
  reads_iff : Gives decode value ↔ fits

theorem decodeWith_gives_iff {parse : List UInt8 → Except ArnmResult α} {convert : α → Decode β}
    {bytes : List UInt8} {message : α} {value : β} {fits : Prop}
    (hparse : parse bytes = .ok message) (hconvert : Gives (convert message) value ↔ fits)
    (hne : fits → bytes ≠ []) : Gives (decodeWith parse convert bytes) value ↔ fits := by
  constructor
  · intro hgives
    obtain ⟨hsome, hrun⟩ : bytes ≠ [] ∧ Gives (allocate >>= fun _ => convert message) value := by
      rw [Gives, decodeWith] at hgives
      split at hgives
      · cases hgives
      · rw [hparse] at hgives
        exact ⟨‹_›, hgives⟩
    exact hconvert.1 hrun
  · exact fun hfits => decodeWith_nil (hne hfits) hparse (hconvert.2 hfits)

section Sent

variable {size : Nat} {bytes : List UInt8} {room rest : Room} {left : Unit}

theorem spends_of_served {between : Room} {lost : Prop} (hgranted : granted 2 room = some between)
    (hspends : Spends between rest lost) : Spends room rest False ↔ ¬lost := by
  have hwhole : Spends room rest lost := ((Spends.granted hgranted).trans hspends).congr (by simp)
  constructor
  · exact fun hnone hlost => (hnone.unique hwhole).2 hlost
  · exact fun hkept => hwhole.congr (iff_false_intro hkept)

theorem confirmedTransaction_readsBack (hsmall : size ≤ PbTools.intMax)
    {tx : Wire.ConfirmedTransaction} (hcoded : tx.Coded)
    (hencode : confirmedTransactionEncode tx size () room = (.ok bytes, left, rest)) :
    ArrivesAs (confirmedTransactionDecode PbTools.codec host bytes) tx.settled
      (Spends room rest False ∧ tx.transaction.bodyBytes ≠ [] ∧
        tx.transaction.bodyBytes.length ≤ host.maxAllocSize) := by
  refine ⟨confirmedTransaction_sent hsmall hcoded hencode, ?_⟩
  obtain ⟨hpos, message, between, hgranted, hfill, hmessage⟩ := encodeWith_ok hencode
  obtain ⟨hfew, hcount, losses, hserved, rfl⟩ := confirmedTransactionFromWire_ok hfill
  have hwrites := PbTools.Writes.confirmedTransaction (writtenConfirmed tx losses)
  have hread := PbTools.confirmedTransaction_read (writtenConfirmed_legible hcoded losses)
  have hparse := hwrites.parsed hread hpos hsmall hmessage
  obtain ⟨rfl, -⟩ := hwrites.encode_ok hpos hsmall hmessage
  have hspends := spends_of_served hgranted (served_spends hserved)
  have hfits := writtenConfirmed_fits_iff host hfew hcount hserved
  have honly : Yields (confirmedTransactionFromPb host (writtenConfirmed tx losses)) tx.settled :=
    writtenConfirmed_yields hcount losses
  have hconvert := (confirmedTransaction_decides (writtenConfirmed tx losses)).gives_iff honly
  refine decodeWith_gives_iff hparse (hconvert.trans (hfits.trans ?_)) fun _ => ?_
  · rw [hspends, not_or, not_not, not_not]
  · have hne := WireFormat.bytesField_ne_nil 2 (writtenTransaction tx.transaction losses.1).bytes
    change (_ ++ WireFormat.bytesField 2 (writtenTransaction tx.transaction losses.1).bytes ++ _ ++ _ ++ _ ++ _ ++ _ :
        List UInt8) ≠ []
    simp [hne]

theorem gradidoTransaction_readsBack (hsmall : size ≤ PbTools.intMax) {tx : Wire.GradidoTransaction}
    (hcoded : tx.Coded)
    (hencode : gradidoTransactionEncode tx size () room = (.ok bytes, left, rest)) :
    ArrivesAs (gradidoTransactionDecode host bytes) tx.settled
      (Spends room rest False ∧ tx.bodyBytes ≠ [] ∧ tx.bodyBytes.length ≤ host.maxAllocSize) := by
  refine ⟨gradidoTransaction_sent hsmall hcoded hencode, ?_⟩
  obtain ⟨hpos, message, between, hgranted, hfill, hmessage⟩ := encodeWith_ok hencode
  obtain ⟨hfew, loss, hserved, rfl⟩ := gradidoTransactionFromWire_ok hfill
  have hwrites := PbTools.Writes.gradidoTransaction (writtenTransaction tx loss)
  have hread := PbTools.gradidoTransaction_read (writtenTransaction_legible hcoded loss)
  have hparse := hwrites.parsed hread hpos hsmall hmessage
  obtain ⟨rfl, -⟩ := hwrites.encode_ok hpos hsmall hmessage
  have hspends := spends_of_served hgranted (servedTransaction_spends hserved)
  have hfits := writtenTransaction_fits_iff host hfew hserved
  have honly :
      Yields (gradidoTransactionFromPb host (some (writtenTransaction tx loss))) tx.settled :=
    writtenTransaction_yields tx loss
  have hconvert := (gradidoTransaction_decides (some (writtenTransaction tx loss))).gives_iff honly
  refine decodeWith_gives_iff hparse (hconvert.trans ?_) fun hsome => ?_
  · simp only [Option.mem_some_iff, exists_eq_left', hfits]
    rw [hspends, not_not]
  · have hle := WireFormat.length_le_bytesUnlessEmpty 2 tx.bodyBytes
    have hpos := List.length_pos_iff.2 hsome.2.1
    have hne : WireFormat.bytesUnlessEmpty 2 tx.bodyBytes ≠ [] := List.length_pos_iff.1 (by omega)
    change (_ ++ WireFormat.bytesUnlessEmpty 2 tx.bodyBytes ++ _ : List UInt8) ≠ []
    simp [hne]

/-- A body is taken just when it has not 255 memos and the host can allocate each of them. -/
theorem writtenBody_fits_iff {body : Wire.TransactionBody}
    (hknown : ∀ past, body.detail ≠ .unknown past) :
    (writtenBody body).Fits host ↔
      body.memos.items.length ≠ 255 ∧
        ∀ memo ∈ body.memos.items, memo.memo.length ≤ host.maxAllocSize := by
  have hdetail := (transactionBodyFromWire_ok (transactionBodyFromWire_whole hknown)).2
  have hdata : (writtenBody body).data.Fits := (detail_decides _).accepted_of_ok hdetail
  have huuid : Proto.UuidFits (writtenBody body).otherCommunityUuid :=
    (otherCommunityUuid_decides _).accepted_of_ok
      (otherCommunityUuid_roundTrip body.otherCommunityUuid)
  have hmany := body.memos.few
  constructor
  · rintro ⟨⟨-, ⟨hcount, hmemos⟩, -, -⟩, -⟩
    change (body.memos.items.map encryptedMemoFromWire).length < 255 at hcount
    rw [List.length_map] at hcount
    exact ⟨Nat.ne_of_lt hcount, fun memo hmemo => hmemos _ (List.mem_map_of_mem hmemo)⟩
  · rintro ⟨hcount, hmemos⟩
    refine ⟨⟨rfl, ⟨?_, fun memo hmemo => ?_⟩, huuid, ⟨_, rfl⟩⟩, hdata⟩
    · change (body.memos.items.map encryptedMemoFromWire).length < 255
      rw [List.length_map]
      omega
    · obtain ⟨value, hvalue, rfl⟩ := List.mem_map.1 hmemo
      exact hmemos value hvalue

theorem transactionBody_readsBack (hsmall : size ≤ PbTools.intMax) {body : Wire.TransactionBody}
    (hcoded : body.Coded)
    (hencode : transactionBodyEncode body size () room = (.ok bytes, left, rest)) :
    ArrivesAs (transactionBodyDecode PbTools.codec host bytes) body
      (body.memos.items.length ≠ 255 ∧
        ∀ memo ∈ body.memos.items, memo.memo.length ≤ host.maxAllocSize) := by
  refine ⟨transactionBody_sent hsmall hcoded hencode, ?_⟩
  obtain ⟨hpos, message, between, -, hfill, hmessage⟩ := encodeWith_ok hencode
  have hknown := known_of_ok hfill
  -- However much memory there was, what is written is what is written with all of it.
  cases (transactionBodyFromWire_steady body hfill).symm.trans
    (transactionBodyFromWire_whole hknown)
  have hdata := (transactionBodyFromWire_ok hfill).2
  have hwrites := PbTools.Writes.transactionBody (writtenBody body)
  have hread := PbTools.transactionBody_read (bodyHead_legible hcoded hdata)
  have hparse := hwrites.parsed hread hpos hsmall hmessage
  obtain ⟨rfl, -⟩ := hwrites.encode_ok hpos hsmall hmessage
  have honly : Yields (transactionBodyFromPbtools host (writtenBody body)) body :=
    bodyHead_yields hdata
  have hconvert := (transactionBody_decides (writtenBody body)).gives_iff honly
  exact decodeWith_gives_iff hparse (hconvert.trans (writtenBody_fits_iff hknown)) fun _ =>
    writtenBody_bytes_ne_nil body

/-- What has been encoded, with whatever memory, is decoded to what was sent and to nothing else,
but for a pairing anchor that does not say what it is. With all memory granted it is decoded just
when it fits: a transaction whose encoding was refused nothing and has bytes that the host can
allocate, a body that has not 255 memos and none that the host cannot allocate. -/
theorem decode_encode (host : Host) (hsmall : size ≤ PbTools.intMax) :
    (∀ tx : Wire.ConfirmedTransaction, tx.Coded →
        confirmedTransactionEncode tx size () room = (.ok bytes, left, rest) →
        ArrivesAs (confirmedTransactionDecode PbTools.codec host bytes) tx.settled
          (Spends room rest False ∧ tx.transaction.bodyBytes ≠ [] ∧
            tx.transaction.bodyBytes.length ≤ host.maxAllocSize)) ∧
      (∀ tx : Wire.GradidoTransaction, tx.Coded →
        gradidoTransactionEncode tx size () room = (.ok bytes, left, rest) →
        ArrivesAs (gradidoTransactionDecode host bytes) tx.settled
          (Spends room rest False ∧ tx.bodyBytes ≠ [] ∧ tx.bodyBytes.length ≤ host.maxAllocSize)) ∧
      ∀ body : Wire.TransactionBody, body.Coded →
        transactionBodyEncode body size () room = (.ok bytes, left, rest) →
        ArrivesAs (transactionBodyDecode PbTools.codec host bytes) body
          (body.memos.items.length ≠ 255 ∧
            ∀ memo ∈ body.memos.items, memo.memo.length ≤ host.maxAllocSize) :=
  ⟨fun _ => confirmedTransaction_readsBack hsmall, fun _ => gradidoTransaction_readsBack hsmall,
    fun _ => transactionBody_readsBack hsmall⟩

end Sent

/-- The transaction with a signature, written to 300 bytes with all memory, is read back.
With memory for eight requests its bytes are a transaction without the parts of its Hiero
id, which is not. -/
theorem decode_encode_confirmed :
    Gives (confirmedTransactionDecode PbTools.codec plainHost (writtenWhole confirmed).bytes)
        confirmed.settled ∧
      ¬Gives (confirmedTransactionDecode PbTools.codec plainHost
        (writtenConfirmed confirmed (.nothing, .both)).bytes) confirmed.settled := by
  have hcoded : confirmed.Coded := ⟨Nat.two_pow_pos 32, show 2 < 2 ^ 32 by decide⟩
  have hwhole : confirmedTransactionEncode confirmed 300 () [] =
      (.ok (writtenWhole confirmed).bytes, (), []) :=
    confirmedTransactionEncode_whole (by decide) (by decide) (by decide) (by decide +kernel)
  have hlost : confirmedTransactionEncode confirmed 300 ()
        [true, true, true, true, true, true, true, true, false] =
      (.ok (writtenConfirmed confirmed (.nothing, .both)).bytes, (), []) := by decide +kernel
  have hreads := ((decode_encode plainHost (by decide)).1 confirmed hcoded hwhole).reads_iff
  have hrefused := ((decode_encode plainHost (by decide)).1 confirmed hcoded hlost).reads_iff
  refine ⟨hreads.2 ⟨⟨[], rfl, by decide⟩, by decide, by decide⟩, fun hgives => ?_⟩
  obtain ⟨⟨used, hused, hgranted⟩, -⟩ := hrefused.1 hgives
  rw [List.append_nil] at hused
  rw [← hused] at hgranted
  exact hgranted.1 (by decide)

end Mapping

end GradidoBlockchain
