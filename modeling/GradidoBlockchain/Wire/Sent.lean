import GradidoBlockchain.Pb.Peek
import GradidoBlockchain.Wire.Arrival

/-!
# What is made of bytes that have been sent

The two readers of a confirmed transaction besides its decoder: the scanner that looks for its
number, and the record it is decoded to together with its body. Of bytes that the encoders have
given, the scanner finds the number that was sent, and the record is the record of the two
values that were sent.
-/

namespace GradidoBlockchain

open Fallible Fallible.Call WireFormat

namespace Wire

/-! ### The scanner over fields that have been written -/

variable {number : Nat}

theorem peek_varintField (hnumber : 0 < number ∧ number < 2 ^ 29) {value : Nat}
    (hvalue : value < wordSize) (id : UInt64) :
    Scan.Takes peekField (varintField number value) id
      (if number = 1 then UInt64.ofNat value else id) := by
  intro rest
  have htag :=
    varint_varintBytes (show number * 8 < wordSize by change _ < 2 ^ 64; omega)
      (varintBytes value ++ rest)
  have hnr : number * 8 / 8 = number := Nat.mul_div_cancel _ (by decide)
  have hcontent : content (number * 8 % 8) (varintBytes value ++ rest) =
      some (some value, rest) := by
    rw [Nat.mul_mod_left, content, varint_varintBytes hvalue]
    rfl
  have hfits : Field.Fits ⟨number * 8, some value⟩ :=
    (fits_iff (by omega)).2 (some_fits_iff.2 hvalue)
  rw [varintField, List.append_assoc,
    peekField_of_content htag (by omega) (by omega) hcontent (fun _ => Nat.mul_mod_left _ _) id,
    if_pos hfits, hnr]
  rfl

theorem peek_bytesField (hnumber : 1 < number ∧ number < 2 ^ 29) {bytes : List UInt8}
    (hlength : bytes.length < wordSize) (id : UInt64) :
    Scan.Takes peekField (bytesField number bytes) id id := by
  intro rest
  have htag :=
    varint_varintBytes (show number * 8 + 2 < wordSize by change _ < 2 ^ 64; omega)
      (varintBytes bytes.length ++ bytes ++ rest)
  have hcontent : content ((number * 8 + 2) % 8) (varintBytes bytes.length ++ bytes ++ rest) =
      some (some bytes.length, rest) := by
    have hwire : (number * 8 + 2) % 8 = 2 := by omega
    rw [hwire, content, List.append_assoc, varint_varintBytes hlength]
    simp only [Option.bind_some, Nat.mod_eq_of_lt hlength, after, List.length_append,
      Nat.le_add_right, if_true, List.drop_left, Option.map_some]
  have hfits : Field.Fits ⟨number * 8 + 2, some bytes.length⟩ :=
    (fits_iff (by omega)).2 (some_fits_iff.2 hlength)
  have hother : ¬(number * 8 + 2) / 8 = 1 := by omega
  rw [bytesField, List.append_assoc,
    peekField_of_content htag (by omega) (by omega) hcontent (fun h => absurd h hother) id,
    if_pos hfits, if_neg hother]

theorem peek_varintUnlessZero (hnumber : 1 < number ∧ number < 2 ^ 29) {value : Nat}
    (hvalue : value < wordSize) (rest : List UInt8) (id : UInt64) :
    Scan.Leads peekField (varintUnlessZero number value) rest id id := by
  rw [varintUnlessZero]
  split
  · exact .nil _ _
  · have htakes := peek_varintField ⟨by omega, hnumber.2⟩ hvalue id
    rw [if_neg (by omega)] at htakes
    exact htakes.leads (varintField_ne_nil _ _) rest

theorem peek_field (hnumber : 1 < number ∧ number < 2 ^ 29) {bytes : List UInt8}
    (hlength : (bytesField number bytes).length < wordSize) (rest : List UInt8) (id : UInt64) :
    Scan.Leads peekField (bytesField number bytes) rest id id :=
  (peek_bytesField hnumber (Nat.lt_of_le_of_lt (length_le_bytesField number bytes) hlength)
    id).leads (bytesField_ne_nil _ _) rest

theorem peek_bytesUnlessEmpty (hnumber : 1 < number ∧ number < 2 ^ 29) {bytes : List UInt8}
    (hlength : (bytesUnlessEmpty number bytes).length < wordSize) (rest : List UInt8)
    (id : UInt64) : Scan.Leads peekField (bytesUnlessEmpty number bytes) rest id id := by
  rw [bytesUnlessEmpty] at hlength ⊢
  split
  · exact .nil _ _
  · rw [if_neg ‹_›] at hlength
    exact peek_field hnumber hlength rest id

theorem peek_messageField {α : Type} (hnumber : 1 < number ∧ number < 2 ^ 29)
    {bytes : α → List UInt8} {message : Option α}
    (hlength : (messageField number bytes message).length < wordSize) (rest : List UInt8)
    (id : UInt64) : Scan.Leads peekField (messageField number bytes message) rest id id := by
  cases message with
  | none => exact .nil _ _
  | some inner => exact peek_field hnumber hlength rest id

theorem peek_messageFields {α : Type} (hnumber : 1 < number ∧ number < 2 ^ 29)
    {bytes : α → List UInt8} {items : List α}
    (hlength : (messageFields number bytes items).length < wordSize) (rest : List UInt8)
    (id : UInt64) : Scan.Leads peekField (messageFields number bytes items) rest id id := by
  have hitems : ∀ (before : List α),
      ∀ item ∈ items, ∀ rest, Scan.Leads peekField (bytesField number (bytes item)) rest id id := by
    intro before item hitem rest
    have hlt := Nat.lt_of_le_of_lt (length_le_messageFields number bytes hitem) hlength
    exact (peek_bytesField hnumber hlt id).leads (bytesField_ne_nil _ _) rest
  exact Scan.Leads.flatMap items [] hitems

/-- The scanner finds the number in the bytes of a message. -/
theorem peek_bytes {pb : Proto.ConfirmedTransaction} (hlength : pb.bytes.length < wordSize) :
    confirmedTransactionPeekId pb.bytes = .ok pb.id := by
  have hscan : Scan.scan peekField 0 pb.bytes = some pb.id := by
    simp only [Proto.ConfirmedTransaction.bytes, List.append_assoc, List.length_append] at hlength ⊢
    apply Scan.Leads.scan_eq
    refine .append (show Scan.Leads _ _ _ 0 pb.id from ?_) ?_
    · rw [varintUnlessZero]
      split
      · have hzero : pb.id = 0 := UInt64.toNat_inj.1 ‹_›
        rw [hzero]
        exact .nil _ _
      · have htakes := peek_varintField (show 0 < 1 ∧ 1 < 2 ^ 29 by decide) pb.id.toNat_lt 0
        rw [if_pos rfl, UInt64.ofNat_toNat] at htakes
        exact htakes.leads (varintField_ne_nil _ _) _
    · refine .append (peek_messageField (by decide) (by omega) _ _) ?_
      refine .append (peek_messageField (by decide) (by omega) _ _) ?_
      refine .append
        (peek_varintUnlessZero (by decide) (Nat.lt_trans pb.versionNumber.toNat_lt (by decide)) _ _)
        ?_
      refine .append (peek_bytesUnlessEmpty (by decide) (by omega) _ _) ?_
      refine .append (peek_messageField (by decide) (by omega) _ _) ?_
      exact peek_messageFields (by decide) (by omega) _ _
  rw [confirmedTransactionPeekId, hscan]

end Wire

namespace Mapping

/-! ### What has been sent -/

variable {host : Host} {bytes : List UInt8} {room rest : Room} {left : Unit} {size : Nat}

/-- What has been encoded are the bytes of a message with the number of the transaction. -/
theorem encoded_bytes (hsmall : size ≤ PbTools.intMax) {tx : Wire.ConfirmedTransaction}
    (hencode : confirmedTransactionEncode tx size () room = (.ok bytes, left, rest)) :
    ∃ pb : Proto.ConfirmedTransaction, pb.id = tx.id ∧ pb.bytes = bytes ∧
      bytes.length < wordSize := by
  obtain ⟨hpos, message, between, -, hfill, hencode⟩ := encodeWith_ok hencode
  obtain ⟨-, -, losses, -, rfl⟩ := confirmedTransactionFromWire_ok hfill
  obtain ⟨rfl, hlt⟩ := (PbTools.Writes.confirmedTransaction _).encode_ok hpos hsmall hencode
  exact ⟨_, rfl, rfl, Nat.lt_trans hlt (Nat.lt_of_le_of_lt hsmall (by decide))⟩

/-- The number that is peeked at is the number of the transaction, however much memory
its encoding had. -/
theorem confirmedTransactionPeekId_encode (hsmall : size ≤ PbTools.intMax)
    {tx : Wire.ConfirmedTransaction}
    (hencode : confirmedTransactionEncode tx size () room = (.ok bytes, left, rest)) :
    Wire.confirmedTransactionPeekId bytes = .ok tx.id := by
  obtain ⟨pb, hid, rfl, hlength⟩ := encoded_bytes hsmall hencode
  rw [← hid]
  exact Wire.peek_bytes hlength

theorem confirmedTransactionPeekId_encode_confirmed :
    Wire.confirmedTransactionPeekId (writtenWhole confirmed).bytes = .ok 1 :=
  confirmedTransactionPeekId_encode (show 300 ≤ PbTools.intMax by decide)
    (confirmedTransactionEncode_whole (by decide) (by decide) (by decide) (by decide +kernel))

/-- The bytes have been encoded from a transaction, and the bytes of its body from a body, with
whatever memory there was. -/
structure Sent (tx : Wire.ConfirmedTransaction) (body : Wire.TransactionBody)
    (bytes : List UInt8) : Prop where
  coded : tx.Coded ∧ body.Coded
  whole : ∃ size ≤ PbTools.intMax,
    ∃ room left rest, confirmedTransactionEncode tx size () room = (.ok bytes, left, rest)
  carried : ∃ size ≤ PbTools.intMax, ∃ room left rest,
    transactionBodyEncode body size () room = (.ok tx.transaction.bodyBytes, left, rest)

variable {tx : Wire.ConfirmedTransaction} {body : Wire.TransactionBody}

theorem Sent.peeked (hsent : Sent tx body bytes) :
    Wire.confirmedTransactionPeekId bytes = .ok tx.id := by
  obtain ⟨_, hsmall, _, _, _, hwhole⟩ := hsent.whole
  obtain ⟨pb, hid, rfl, hlength⟩ := encoded_bytes hsmall hwhole
  rw [← hid]
  exact Wire.peek_bytes hlength

theorem Sent.decodes (hsent : Sent tx body bytes) :
    Yields (decodeBoth PbTools.codec host bytes) (tx.settled, body) := by
  obtain ⟨_, hsmall, _, _, _, hwhole⟩ := hsent.whole
  obtain ⟨_, hsmaller, _, _, _, hcarried⟩ := hsent.carried
  exact (confirmedTransaction_sent hsmall hsent.coded.1 hwhole).bind
    ((transactionBody_sent hsmaller hsent.coded.2 hcarried).bind (.pure _))

/-- What the bytes say is what was sent. -/
theorem Sent.decoded (hsent : Sent tx body bytes)
    {both : Wire.ConfirmedTransaction × Wire.TransactionBody}
    (hdecoded : Mapping.decoded PbTools.codec host bytes = some both) :
    both = (tx.settled, body) := by
  rw [Mapping.decoded] at hdecoded
  rcases hrun : decodeBoth PbTools.codec host bytes () [] with ⟨_ | read, left, rest⟩
  · rw [hrun] at hdecoded
    cases hdecoded
  · rw [hrun] at hdecoded
    cases hdecoded
    exact hsent.decodes hrun

/-- A record has a pairing anchor only where its type says something. -/
theorem recordOf_settled (tx : Wire.ConfirmedTransaction) (body : Wire.TransactionBody)
    (communityUuid : Uuid) (area : Runtime.Arena) :
    recordOf tx.settled body communityUuid area = recordOf tx body communityUuid area := by
  by_cases htype : tx.transaction.pairingLedgerAnchor.type = .unspecified
  · have hleft : ¬tx.settled.transaction.pairingLedgerAnchor.type ≠ .unspecified := by
      change ¬tx.transaction.pairingLedgerAnchor.settled.type ≠ .unspecified
      rw [Wire.LedgerAnchor.settled, if_neg (not_not.2 htype)]
      decide
    simp only [recordOf, filled, filledTail, if_neg hleft, if_neg (not_not.2 htype)]
    rfl
  · have hsame : tx.transaction.pairingLedgerAnchor.settled = tx.transaction.pairingLedgerAnchor :=
      if_pos htype
    rw [Wire.ConfirmedTransaction.settled, Wire.GradidoTransaction.settled, hsame]

/-- A record that is decoded from what has been sent, in whatever memory, is the record
of what was sent. -/
theorem initFromProtobuf_sent {recordHost : RecordHost} {opener : Runtime.Opener}
    {communityUuid : Uuid} {owned left : Runtime.Owned} (hsent : Sent tx body bytes)
    (hrun : initFromProtobuf PbTools.codec recordHost opener bytes communityUuid owned room =
      (.ok (), left, rest)) :
    left =
      (recordOf tx body communityUuid ((Runtime.release owned).2.next opener),
        (Runtime.release owned).2.openNext opener) := by
  obtain ⟨confirmed, read, hdecoded, rfl⟩ := initFromProtobuf_ok hrun
  cases hsent.decoded hdecoded
  rw [recordOf_settled]

/-- Only the record of it, whatever has become of the arenas. -/
theorem Sent.recorded {recordHost : RecordHost} {opener : Runtime.Opener} {communityUuid : Uuid}
    {owned left : Runtime.Owned} (hsent : Sent tx body bytes)
    (hrun : initFromProtobuf PbTools.codec recordHost opener bytes communityUuid owned room =
      (.ok (), left, rest)) :
    left.1 = recordOf tx body communityUuid ((Runtime.release owned).2.next opener) := by
  obtain ⟨confirmed, read, hdecoded, rfl⟩ := initFromProtobuf_ok hrun
  cases hsent.decoded hdecoded
  exact recordOf_settled ..

/-- The timeout of a deferred transfer. -/
def timedOut : Wire.TransactionBody := { bodyWith .empty with detail := .timeoutDeferredTransfer 0 }

/-- A confirmed transaction that carries a body under a number. -/
def carrying (id : UInt64) (body : Wire.TransactionBody) : Wire.ConfirmedTransaction :=
  { confirmed with
    id := id
    transaction := { confirmed.transaction with bodyBytes := (writtenBody body).bytes } }

theorem carrying_sent {id : UInt64} (hcoded : body.Coded)
    (hknown : ∀ past, body.detail ≠ .unknown past) (hbody : (writtenBody body).bytes.length < 600)
    (hwhole : (writtenWhole (carrying id body)).bytes.length < 600) :
    Sent (carrying id body) body (writtenWhole (carrying id body)).bytes := by
  have hsignatures : (carrying id body).transaction.sigMap.items.length < 255 :=
    show 1 < 255 by decide
  have hbalances : (carrying id body).accountBalances.items.length < 255 := show 0 < 255 by decide
  have hencode := confirmedTransactionEncode_whole hsignatures hbalances (by decide) hwhole
  exact ⟨⟨⟨Nat.two_pow_pos 32, show 2 < 2 ^ 32 by decide⟩, hcoded⟩,
    ⟨600, by decide, [], (), [], hencode⟩,
    ⟨600, by decide, [], (), [], transactionBodyEncode_whole hknown (by decide) hbody⟩⟩

theorem timedOut_sent (id : UInt64)
    (hwhole : (writtenWhole (carrying id timedOut)).bytes.length < 600) :
    Sent (carrying id timedOut) timedOut (writtenWhole (carrying id timedOut)).bytes :=
  carrying_sent ⟨nofun, nofun, by decide⟩ (fun _ h => by cases h) (by decide +kernel) hwhole

theorem initFromProtobuf_sent_timedOut :
    (initFromProtobuf PbTools.codec ⟨plainHost, none⟩ .store
        (writtenWhole (carrying 1 timedOut)).bytes (zeroBytes 16) (.init, .empty) []).2.1 =
      (recordOf (carrying 1 timedOut) timedOut (zeroBytes 16)
          ((Runtime.release (.init, .empty)).2.next .store),
        (Runtime.release (.init, .empty)).2.openNext .store) :=
  initFromProtobuf_sent (timedOut_sent 1 (by decide +kernel))
    (Prod.ext (by decide +kernel) (Prod.eta _).symm)

theorem transferred_sent {id : UInt64} {type : CrossGroup} {other : UInt8}
    (htype : type.code < 2 ^ 32) (hbody : (writtenBody (transferred type other)).bytes.length < 600)
    (hwhole : (writtenWhole (carrying id (transferred type other))).bytes.length < 600) :
    Sent (carrying id (transferred type other)) (transferred type other)
      (writtenWhole (carrying id (transferred type other))).bytes :=
  carrying_sent (transferred_coded htype) (fun _ h => by cases h) hbody hwhole

end Mapping

end GradidoBlockchain
