import GradidoBlockchain.Pb.Canonical
import GradidoBlockchain.Runtime.Filled
import GradidoBlockchain.Wire.Allocation

/-!
# From values to bytes and back

`grdw_confirmed_transaction_encode`, `grdw_transaction_body_encode` and
`grdw_gradido_transaction_encode`, and what is decoded from the bytes they give. Whatever memory
there is on either side, a value that arrives is the one that was sent, but for a pairing anchor
whose type says nothing, which is not sent.
-/

namespace GradidoBlockchain

open Fallible Fallible.Call

namespace Mapping

/-! ### The functions -/

/-- What a buffer is refused with that pbtools has given up. -/
def encodeRefusal (code : Int) : ArnmResult :=
  if -code = PbTools.encodeBufferFull then .destinationBufferToSmall
  else if -code = PbTools.outOfMemory then .outOfMemory
  else .encodeFailed

/-- A message filled with a value. -/
def filledMessage {α : Type} (init : α) (fill : Call ArnmResult α Unit) : Decode α :=
  within (fun _ => init) (fun _ state => state) (mapError .refused do
    fill
    gets id)

/-- A value written to a message in a workspace that is taken for it, and the message to the buffer.
An arena with nothing left is asked for no bytes, which arnm takes for a wrong argument. -/
def encodeWith {α β : Type} (init : α) (fromWire : β → Call ArnmResult α Unit)
    (encode : α → Nat → Option (Except Int (List UInt8))) (value : β)
    (size : Nat) : Decode (List UInt8) :=
  if size = 0 then refuse .invalidParam
  else do
    ask (.refused .invalidParam)
    allocate
    let message ← filledMessage init (fromWire value)
    match encode message size with
    | none => fail .readAbsent
    | some (.ok bytes) => pure bytes
    | some (.error code) => refuse (encodeRefusal code)

/-- `grdw_confirmed_transaction_encode`. -/
def confirmedTransactionEncode : Wire.ConfirmedTransaction → Nat → Decode (List UInt8) :=
  encodeWith .init confirmedTransactionFromWire PbTools.confirmedTransactionEncode

/-- `grdw_transaction_body_encode`. -/
def transactionBodyEncode : Wire.TransactionBody → Nat → Decode (List UInt8) :=
  encodeWith .init transactionBodyFromWire PbTools.transactionBodyEncode

/-- `grdw_gradido_transaction_encode`. -/
def gradidoTransactionEncode : Wire.GradidoTransaction → Nat → Decode (List UInt8) :=
  encodeWith .init gradidoTransactionFromWire PbTools.gradidoTransactionEncode

/-- `grdw_gradido_transaction_decode`. -/
def gradidoTransactionDecode (host : Host) : List UInt8 → Decode Wire.GradidoTransaction :=
  decodeWith (PbTools.parse PbTools.gradidoTransactionDecodeInner) fun pb =>
    gradidoTransactionFromPb host (some pb)

end Mapping

namespace Wire

/-! ### What arrives -/

/-- A pairing anchor as it arrives. -/
def LedgerAnchor.settled (anchor : LedgerAnchor) : LedgerAnchor :=
  if anchor.type ≠ .unspecified then anchor else .init

def GradidoTransaction.settled (tx : GradidoTransaction) : GradidoTransaction :=
  { tx with pairingLedgerAnchor := tx.pairingLedgerAnchor.settled }

def ConfirmedTransaction.settled (tx : ConfirmedTransaction) : ConfirmedTransaction :=
  { tx with transaction := tx.transaction.settled }

/-- The type of the anchor is an enumeration of 32 bits. -/
def LedgerAnchor.Coded (anchor : LedgerAnchor) : Prop := anchor.type.code < 2 ^ 32

def GradidoTransaction.Coded (tx : GradidoTransaction) : Prop := tx.pairingLedgerAnchor.Coded

def ConfirmedTransaction.Coded (tx : ConfirmedTransaction) : Prop :=
  tx.transaction.Coded ∧ tx.ledgerAnchor.Coded

def Detail.Coded (detail : Detail) : Prop :=
  ∀ address, detail = .registerAddress address → address.addressType.code < 2 ^ 32

def TransactionBody.Coded (body : TransactionBody) : Prop :=
  body.detail.Coded ∧ (∀ memo ∈ body.memos.items, memo.type.code < 2 ^ 32) ∧ body.type.code < 2 ^ 32

end Wire

namespace Mapping

variable {α β : Type} {host : Host}

/-! ### Runs -/

theorem filledMessage_ok {init message : α} {fill : Call ArnmResult α Unit} {left : Unit}
    {room rest : Room} (hrun : filledMessage init fill () room = (.ok message, left, rest)) :
    fill init room = (.ok (), message, rest) := by
  obtain ⟨inner, hinner, -⟩ := within_ok.1 hrun
  obtain ⟨_, middle, between, hfill, hgets⟩ := bind_ok.1 (mapError_ok.1 hinner)
  obtain ⟨rfl, -, rfl⟩ := gets_ok.1 hgets
  exact hfill

theorem encodeWith_ok {init : α} {fromWire : β → Call ArnmResult α Unit}
    {encode : α → Nat → Option (Except Int (List UInt8))} {value : β} {size : Nat} {left : Unit}
    {room rest : Room} {bytes : List UInt8}
    (hrun : encodeWith init fromWire encode value size () room = (.ok bytes, left, rest)) :
    0 < size ∧
      ∃ message between, granted 2 room = some between ∧
        fromWire value init between = (.ok (), message, rest) ∧
        encode message size = some (.ok bytes) := by
  rw [encodeWith] at hrun
  split at hrun
  · cases hrun
  · obtain ⟨_, _, first, hask, hrun⟩ := bind_ok.1 hrun
    obtain ⟨_, _, between, hallocate, hrun⟩ := bind_ok.1 hrun
    obtain ⟨message, _, _, hmessage, hrun⟩ := bind_ok.1 hrun
    have hgranted : granted 2 room = some between := by
      rw [granted_add 1 1, granted_of_ask hask]
      exact granted_of_ask hallocate
    refine ⟨by omega, message, between, hgranted, ?_⟩
    cases hencode : encode message size with
    | none =>
        rw [hencode] at hrun
        cases hrun
    | some outcome =>
        rw [hencode] at hrun
        cases outcome with
        | error code => cases hrun
        | ok written =>
            obtain ⟨rfl, -, rfl⟩ := pure_ok.1 hrun
            exact ⟨filledMessage_ok hmessage, rfl⟩

theorem decodeWith_ok {parse : List UInt8 → Except ArnmResult α} {convert : α → Decode β}
    {bytes : List UInt8} {message : α} {value : β} {left : Unit} {room rest : Room}
    (hparse : parse bytes = .ok message)
    (hrun : decodeWith parse convert bytes () room = (.ok value, left, rest)) :
    ∃ between, convert message () between = (.ok value, left, rest) := by
  rw [decodeWith] at hrun
  split at hrun
  · cases hrun
  · obtain ⟨_, _, between, -, hrun⟩ := bind_ok.1 hrun
    rw [hparse] at hrun
    exact ⟨between, hrun⟩

/-! ### Mappings that can give one value only -/

/-- Whatever memory there is, the mapping gives no other value. -/
def Yields (decode : Decode α) (value : α) : Prop :=
  ∀ ⦃left room rest read⦄, decode () room = (.ok read, left, rest) → read = value

namespace Yields

theorem pure (value : α) : Yields (Pure.pure value) value :=
  fun _ _ _ _ hrun => (pure_ok.1 hrun).1.symm

theorem refuse (code : ArnmResult) (value : α) : Yields (Mapping.refuse code) value := by
  intro left room rest read hrun
  cases hrun

theorem bind {call : Decode α} {next : α → Decode β} {value : α} {result : β}
    (hcall : Yields call value) (hnext : Yields (next value) result) :
    Yields (call >>= next) result := by
  intro left room rest read hrun
  obtain ⟨first, _, _, hfirst, hsecond⟩ := bind_ok.1 hrun
  rw [hcall hfirst] at hsecond
  exact hnext hsecond

theorem guard {refused : Prop} [Decidable refused] {code : ArnmResult} {call : Decode α} {value : α}
    (hcall : Yields call value) : Yields (if refused then Mapping.refuse code else call) value := by
  split
  · exact refuse code value
  · exact hcall

theorem allocate : Yields Mapping.allocate () := fun _ _ _ _ _ => rfl

theorem notNull (message : α) : Yields (Mapping.notNull (some message)) message := pure message

theorem memoryBlock (bytes : List UInt8) : Yields (memoryBlockFromPbtools host bytes) bytes :=
  guard (guard (allocate.bind (pure bytes)))

theorem convertAll {convert : β → Decode α} {encode : α → β} {items : List α}
    (hitems : ∀ item ∈ items, Yields (convert (encode item)) item) :
    Yields (Mapping.convertAll convert (items.map encode)) ⟨items, (List.length_map _).symm⟩ := by
  induction items with
  | nil => exact pure _
  | cons item items ih =>
      apply (hitems item List.mem_cons_self).bind
      apply (ih fun other hother => hitems other (List.mem_cons_of_mem _ hother)).bind
      exact pure _

theorem few {convert : β → Decode α} {encode : α → β} {list : Few α}
    (hitems : ∀ item ∈ list.items, Yields (convert (encode item)) item) :
    Yields (fewFromPbtools convert (list.items.map encode)) list := by
  rw [fewFromPbtools]
  split
  · split
    · exact refuse _ _
    · exact allocate.bind ((convertAll hitems).bind (pure _))
  · have hempty : list = .empty := Few.ext (List.length_eq_zero_iff.1 (by simp_all))
    rw [hempty]
    exact pure _

end Yields

/-- What a mapping gives with all the memory it asks for is all that it can give. -/
theorem Decides.yields {accepted faulty : Prop} {call : Decode α} {value : α}
    (hcall : Decides call accepted faulty) (hgives : Gives call value) : Yields call value := by
  intro left room rest read hrun
  have hsame := (hcall.taken hrun).2.symm.trans hgives
  cases hsame
  rfl

/-! ### Anchors that lack something -/

/-- Where a part of a Hiero id is lacking the anchor is refused. -/
theorem writtenAnchor_yields (anchor : Wire.LedgerAnchor) (loss : Loss) :
    Yields (ledgerAnchorFromPbtools host.union (some (writtenAnchor anchor loss))) anchor := by
  cases anchor with
  | id type other id =>
      exact (ledgerAnchor_decides _).yields (ledgerAnchor_roundTrip (.id type other id))
  | hieroTransactionId id =>
      cases loss with
      | nothing =>
          exact (ledgerAnchor_decides _).yields (ledgerAnchor_roundTrip (.hieroTransactionId id))
      | accountId =>
          intro left room rest read hrun
          cases hrun
      | both =>
          intro left room rest read hrun
          cases hrun

theorem sigMap_yields (sigMap : Few SignaturePair) :
    Yields (sigMapFromPb
      (if 0 < sigMap.items.length then some ⟨sigMap.items.map signaturePairFromWire⟩ else none))
      sigMap := by
  split
  · exact .few fun pair _ => (signaturePair_decides _).yields (signaturePair_roundTrip pair)
  · have hempty : sigMap = .empty := Few.ext (List.length_eq_zero_iff.1 (by omega))
    rw [hempty]
    exact .pure _

theorem pairingLedgerAnchor_yields (anchor : Wire.LedgerAnchor) (loss : Loss) :
    Yields (pairingLedgerAnchorFromPb host
      (if anchor.type ≠ .unspecified then some (writtenAnchor anchor loss) else none))
      anchor.settled := by
  rw [Wire.LedgerAnchor.settled]
  split
  · exact writtenAnchor_yields anchor loss
  · exact .pure _

theorem writtenTransaction_yields (tx : Wire.GradidoTransaction) (loss : Loss) :
    Yields (gradidoTransactionFromPb host (some (writtenTransaction tx loss))) tx.settled :=
  (Yields.notNull _).bind
    ((sigMap_yields tx.sigMap).bind
      ((pairingLedgerAnchor_yields tx.pairingLedgerAnchor loss).bind
        ((Yields.memoryBlock _).bind (.pure _))))

theorem writtenConfirmed_yields {tx : Wire.ConfirmedTransaction}
    (hcount : tx.accountBalances.items.length < 255) (losses : Loss × Loss) :
    Yields (confirmedTransactionFromPb host (writtenConfirmed tx losses)) tx.settled := by
  have hbalances : Yields
      (fewFromPbtools accountBalanceFromPbtools (writtenConfirmed tx losses).accountBalances)
      tx.accountBalances := by
    rw [writtenConfirmed, if_pos hcount]
    exact .few fun balance _ => (accountBalance_decides _).yields (accountBalance_roundTrip balance)
  exact Yields.guard
    ((writtenTransaction_yields tx.transaction losses.1).bind
      (((timestamp_decides _).yields (timestamp_roundTrip _)).bind
        (((Decides.copy 32 _).yields (Gives.copy _)).bind
          ((writtenAnchor_yields tx.ledgerAnchor losses.2).bind (hbalances.bind (.pure _))))))

/-! ### What has been written -/

theorem sigMap_few {tx : Wire.GradidoTransaction} {start left : Proto.GradidoTransaction}
    {room rest : Room} (hrun : gradidoTransactionFromWire tx start room = (.ok (), left, rest)) :
    tx.sigMap.items.length < 255 := by
  obtain ⟨_, _, _, hsigs, -⟩ := bind_ok.1 hrun
  rw [sigMapFromWire] at hsigs
  split at hsigs
  · split at hsigs
    · cases hsigs
    · omega
  · omega

theorem gradidoTransactionFromWire_ok {tx : Wire.GradidoTransaction}
    {message : Proto.GradidoTransaction} {room rest : Room}
    (hrun : gradidoTransactionFromWire tx .init room = (.ok (), message, rest)) :
    tx.sigMap.items.length < 255 ∧
      ∃ loss, servedTransaction tx room = some (loss, rest) ∧
        message = writtenTransaction tx loss := by
  have hfew := sigMap_few hrun
  have hfollows := gradidoTransactionFromWire_follows hfew room
  refine ⟨hfew, ?_⟩
  cases hserved : servedTransaction tx room with
  | none =>
      rw [hserved] at hfollows
      cases (congrArg Prod.fst hrun).symm.trans hfollows
  | some served =>
      rw [hserved] at hfollows
      cases hrun.symm.trans hfollows
      exact ⟨served.1, rfl, rfl⟩

theorem confirmedTransactionFromWire_ok {tx : Wire.ConfirmedTransaction}
    {message : Proto.ConfirmedTransaction} {room rest : Room}
    (hrun : confirmedTransactionFromWire tx .init room = (.ok (), message, rest)) :
    tx.transaction.sigMap.items.length < 255 ∧ tx.accountBalances.items.length < 255 ∧
      ∃ losses, served tx room = some (losses, rest) ∧ message = writtenConfirmed tx losses := by
  have hfew : tx.transaction.sigMap.items.length < 255 := by
    obtain ⟨_, _, _, -, hrun⟩ := bind_ok.1 hrun
    obtain ⟨_, _, _, -, hrun⟩ := bind_ok.1 hrun
    obtain ⟨_, _, _, htransaction, -⟩ := bind_ok.1 hrun
    obtain ⟨_, hinner, -⟩ := within_ok.1 htransaction
    exact sigMap_few hinner
  have hfollows := confirmedTransactionFromWire_follows hfew room
  refine ⟨hfew, ?_⟩
  cases hserved : served tx room with
  | none =>
      rw [hserved] at hfollows
      cases (congrArg Prod.fst hrun).symm.trans hfollows
  | some served =>
      rw [hserved] at hfollows
      have hsame : (Except.ok (), message, rest) =
          (balancesEnding tx.accountBalances, writtenConfirmed tx served.1, served.2) :=
        hrun.symm.trans hfollows
      obtain ⟨hending, hleft⟩ := Prod.mk.inj hsame
      obtain ⟨hmessage, hrest⟩ := Prod.mk.inj hleft
      refine ⟨?_, served.1, by rw [hrest], hmessage⟩
      rw [balancesEnding] at hending
      split at hending
      · assumption
      · cases hending

/-! ### Bytes -/

theorem writtenAnchor_legible {anchor : Wire.LedgerAnchor} (hcoded : anchor.Coded) (loss : Loss) :
    (writtenAnchor anchor loss).Legible := by
  cases anchor with
  | hieroTransactionId id => exact ⟨hcoded, by simp [writtenAnchor]⟩
  | id type other id => exact ⟨hcoded, by simp [writtenAnchor]⟩

theorem writtenTransaction_legible {tx : Wire.GradidoTransaction} (hcoded : tx.Coded)
    (loss : Loss) : (writtenTransaction tx loss).Legible := by
  intro anchor hanchor
  change anchor ∈ (if _ then _ else none) at hanchor
  split at hanchor
  · cases hanchor
    exact writtenAnchor_legible hcoded loss
  · cases hanchor

theorem writtenConfirmed_legible {tx : Wire.ConfirmedTransaction} (hcoded : tx.Coded)
    (losses : Loss × Loss) : (writtenConfirmed tx losses).Legible := by
  refine ⟨fun transaction htransaction => ?_, fun anchor hanchor => ?_⟩
  · cases htransaction
    exact writtenTransaction_legible hcoded.1 losses.1
  · cases hanchor
    exact writtenAnchor_legible hcoded.2 losses.2

/-! ### Bodies -/

theorem encryptedMemo_yields (memo : Wire.EncryptedMemo) :
    Yields (encryptedMemoFromPbtools host (encryptedMemoFromWire memo)) memo := by
  obtain ⟨type, bytes⟩ := memo
  rw [encryptedMemoFromPbtools, encryptedMemoFromWire]
  split
  · exact (Yields.memoryBlock bytes).bind (.pure _)
  · have hempty : bytes = [] := List.length_eq_zero_iff.1 (by simp_all)
    rw [hempty]
    exact .pure _

theorem detailFromWire_steady (detail : Wire.Detail) : Steady (detailFromWire detail) := by
  have hmember : ∀ {γ : Type} {init : γ} {set : γ → Proto.Data} {fill : Call ArnmResult γ Unit}, Steady fill → Steady (member init set fill) :=
    fun hfill => (Steady.grow _ _).bind fun _ => hfill.within
  have htransfer : ∀ transfer, Steady (gradidoTransferFromWire transfer) :=
    fun transfer => (Steady.write _).bind fun _ => .grow _ _
  cases detail with
  | none => exact .write _
  | creation creation => exact hmember ((Steady.grow _ _).bind fun _ => .grow _ _)
  | transfer transfer => exact hmember (htransfer transfer)
  | communityFriendsUpdate colorFusion => exact hmember (.write _)
  | registerAddress address => exact hmember (.write _)
  | deferredTransfer deferred =>
      exact hmember
        ((Steady.grow _ _).bind fun _ =>
          (Steady.grow _ _).bind fun _ => (htransfer deferred.transfer).within)
  | communityRoot root => exact hmember (.write _)
  | redeemDeferredTransfer redeem =>
      exact hmember
        ((Steady.write _).bind fun _ =>
          (Steady.grow _ _).bind fun _ => (htransfer redeem.transfer).within)
  | timeoutDeferredTransfer nr => exact hmember (.write _)
  | unknown past => exact .fail _

theorem transactionBodyFromWire_steady (body : Wire.TransactionBody) :
    Steady (transactionBodyFromWire body) := by
  refine (Steady.write _).bind fun _ => ?_
  split
  · exact (Steady.grow _ _).bind fun _ =>
      (Steady.write _).bind fun _ =>
        (Steady.grow _ _).bind fun _ =>
          (Steady.write _).bind fun _ => detailFromWire_steady body.detail
  · exact (Steady.write _).bind fun _ =>
      (Steady.grow _ _).bind fun _ =>
        (Steady.write _).bind fun _ => detailFromWire_steady body.detail

/-- What a body has been written to, however much memory there was. -/
theorem transactionBodyFromWire_ok {body : Wire.TransactionBody} {message : Proto.TransactionBody}
    {room rest : Room} (hrun : transactionBodyFromWire body .init room = (.ok (), message, rest)) :
    message = { bodyHead body with data := message.data } ∧
      Gives (detailFromPbtools message.data) body.detail := by
  have hfull := transactionBodyFromWire_steady body hrun
  rw [transactionBodyFromWire_nil] at hfull
  exact (detail_roundTrip hfull).2

theorem bodyHead_yields {body : Wire.TransactionBody} {data : Proto.Data}
    (hdata : Gives (detailFromPbtools data) body.detail) :
    Yields (transactionBodyFromPbtools host { bodyHead body with data := data }) body :=
  Yields.guard
    ((Yields.few fun memo _ => encryptedMemo_yields memo).bind
      (((otherCommunityUuid_decides _).yields (otherCommunityUuid_roundTrip _)).bind
        (((timestamp_decides _).yields (timestamp_roundTrip _)).bind
          (((detail_decides _).yields hdata).bind (.pure _)))))

theorem data_legible {data : Proto.Data} {detail : Wire.Detail} (hcoded : detail.Coded)
    (hgives : Gives (detailFromPbtools data) detail) : data.Legible := by
  have hpresent : ∀ {γ : Type} {message : Option γ} {data : Option γ → Proto.Data}, ¬Gives
        (detailFromPbtools (data none)) detail → Gives (detailFromPbtools (data message)) detail →
      message ≠ none := fun hnone hgives h => hnone (h ▸ hgives)
  cases data with
  | none => exact trivial
  | transfer message => exact hpresent (fun h => by cases h) hgives
  | creation message => exact hpresent (fun h => by cases h) hgives
  | communityFriendsUpdate message => exact hpresent (fun h => by cases h) hgives
  | deferredTransfer message => exact hpresent (fun h => by cases h) hgives
  | communityRoot message => exact hpresent (fun h => by cases h) hgives
  | redeemDeferredTransfer message => exact hpresent (fun h => by cases h) hgives
  | timeoutDeferredTransfer message => exact hpresent (fun h => by cases h) hgives
  | unknown past => cases hgives
  | registerAddress message =>
      cases message with
      | none => cases hgives
      | some address =>
          refine ⟨address, rfl, ?_⟩
          obtain ⟨value, _, _, hvalue, hdetail⟩ := bind_ok.1 hgives
          obtain ⟨hsame, -, -⟩ := pure_ok.1 hdetail
          obtain ⟨_, _, _, hmessage, hvalue⟩ := bind_ok.1 hvalue
          obtain ⟨rfl, -, -⟩ := pure_ok.1 hmessage
          obtain ⟨_, _, _, -, hvalue⟩ := bind_ok.1 hvalue
          obtain ⟨_, _, _, -, hvalue⟩ := bind_ok.1 hvalue
          obtain ⟨_, _, _, -, hvalue⟩ := bind_ok.1 hvalue
          obtain ⟨rfl, -, -⟩ := pure_ok.1 hvalue
          exact hcoded _ hsame.symm

theorem bodyHead_legible {body : Wire.TransactionBody} {data : Proto.Data} (hcoded : body.Coded)
    (hdata : Gives (detailFromPbtools data) body.detail) :
    ({ bodyHead body with data := data }).Legible := by
  refine ⟨data_legible hcoded.1 hdata, fun memo hmemo => ?_, hcoded.2.2⟩
  obtain ⟨value, hvalue, rfl⟩ := List.mem_map.1 hmemo
  exact hcoded.2.1 value hvalue

/-! ### There and back -/

section Sent

variable {size : Nat} {bytes : List UInt8} {room rest : Room} {left : Unit}

theorem confirmedTransaction_sent (hsmall : size ≤ PbTools.intMax) {tx : Wire.ConfirmedTransaction}
    (hcoded : tx.Coded)
    (hencode : confirmedTransactionEncode tx size () room = (.ok bytes, left, rest)) :
    Yields (confirmedTransactionDecode PbTools.codec host bytes) tx.settled := by
  obtain ⟨hpos, message, between, -, hfill, hencode⟩ := encodeWith_ok hencode
  obtain ⟨-, hcount, losses, -, rfl⟩ := confirmedTransactionFromWire_ok hfill
  have hread := PbTools.confirmedTransaction_read (writtenConfirmed_legible hcoded losses)
  have hparse := (PbTools.Writes.confirmedTransaction _).parsed hread hpos hsmall hencode
  intro left room rest read hrun
  obtain ⟨between, hconvert⟩ := decodeWith_ok hparse hrun
  exact writtenConfirmed_yields hcount losses hconvert

theorem gradidoTransaction_sent (hsmall : size ≤ PbTools.intMax) {tx : Wire.GradidoTransaction}
    (hcoded : tx.Coded)
    (hencode : gradidoTransactionEncode tx size () room = (.ok bytes, left, rest)) :
    Yields (gradidoTransactionDecode host bytes) tx.settled := by
  obtain ⟨hpos, message, between, -, hfill, hencode⟩ := encodeWith_ok hencode
  obtain ⟨-, loss, -, rfl⟩ := gradidoTransactionFromWire_ok hfill
  have hread := PbTools.gradidoTransaction_read (writtenTransaction_legible hcoded loss)
  have hparse := (PbTools.Writes.gradidoTransaction _).parsed hread hpos hsmall hencode
  intro left room rest read hrun
  obtain ⟨between, hconvert⟩ := decodeWith_ok hparse hrun
  exact writtenTransaction_yields tx loss hconvert

theorem transactionBody_sent (hsmall : size ≤ PbTools.intMax) {body : Wire.TransactionBody}
    (hcoded : body.Coded)
    (hencode : transactionBodyEncode body size () room = (.ok bytes, left, rest)) :
    Yields (transactionBodyDecode PbTools.codec host bytes) body := by
  obtain ⟨hpos, message, between, -, hfill, hencode⟩ := encodeWith_ok hencode
  obtain ⟨hmessage, hdata⟩ := transactionBodyFromWire_ok hfill
  have hlegible := bodyHead_legible hcoded hdata
  rw [← hmessage] at hlegible
  have hparse :=
    (PbTools.Writes.transactionBody _).parsed (PbTools.transactionBody_read hlegible) hpos hsmall
      hencode
  intro left room rest read hrun
  obtain ⟨between, hconvert⟩ := decodeWith_ok hparse hrun
  rw [hmessage] at hconvert
  exact bodyHead_yields hdata hconvert

end Sent

end Mapping

end GradidoBlockchain
