import GradidoBlockchain.Pb.Schema
import GradidoBlockchain.Wire.Encoding

/-!
# Messages of a newer protocol

A newer writer may put fields into a message that this protocol does not have, at any place and in
any of the messages within it. They are stepped over: what is decoded is what would be without them.
-/

namespace GradidoBlockchain

open WireFormat

namespace PbTools

/-! ### Reading at once -/

/-- A field that the message does not have. -/
def Unknown (kind : Kind) (part : Field) : Prop :=
  Skippable part ∧ kind.entry (part.tag % 2 ^ 32 / 8) = none

instance (kind : Kind) : DecidablePred (Unknown kind) :=
  fun part => by unfold Unknown; infer_instance

/-- The second message is the first one with unknown fields in it, or in the messages within it. -/
inductive Newer : Kind → List UInt8 → List UInt8 → Prop
  | same (kind : Kind) (bytes : List UInt8) : Newer kind bytes bytes
  | trans {kind : Kind} {first second third : List UInt8} (hfirst : Newer kind first second)
      (hsecond : Newer kind second third) :
      Newer kind first third
  | unknown {kind : Kind} {front more back : List UInt8} {found others : List Field}
      (hfront : fields front = some found) (hmore : fields more = some others)
      (hunknown : ∀ part ∈ others, Unknown kind part) :
      Newer kind (front ++ back) (front ++ (more ++ back))
  | inside {kind inner : Kind} {number : Nat} {front old new back : List UInt8} {found : List Field}
      (hfront : fields front = some found) (hentry : kind.entry number = some (.message inner))
      (hnewer : Newer inner old new) (hsmall : new.length < intMax) : Newer kind
      (front ++ (bytesField number old ++ back)) (front ++ (bytesField number new ++ back))

theorem Newer.length_le {kind : Kind} {old new : List UInt8}
    (hnewer : Newer kind old new) : old.length ≤ new.length := by
  induction hnewer with
  | same kind bytes => exact Nat.le_refl _
  | trans _ _ ihfirst ihsecond => exact Nat.le_trans ihfirst ihsecond
  | unknown _ _ _ => simp only [List.length_append, Nat.add_le_add_iff_left, Nat.le_add_left]
  | @inside _ _ number _ _ _ _ _ _ _ _ _ ih =>
      have hfield := bytesField_length_mono number ih
      simp only [List.length_append]
      omega

/-- The fields of the protocol have numbers of one byte. -/
theorem Kind.number_of_entry {kind : Kind} {number : Nat} {entry : Entry}
    (hentry : kind.entry number = some entry) : 0 < number ∧ number < 16 := by
  constructor
  · by_contra hzero
    obtain rfl : number = 0 := by omega
    cases kind <;> cases hentry
  · by_contra hlarge
    obtain ⟨past, rfl⟩ := Nat.exists_eq_add_of_le' (Nat.le_of_not_lt hlarge)
    cases kind <;> cases hentry

/-- A message within another is taken for what it decodes to. -/
theorem decodeFields_inside {σ : Type} {kind inner : Kind}
    {field : Nat → Nat → σ → List UInt8 → Option (σ × List UInt8)} (hkeeps : KeepsTo kind field)
    {number : Nat} (hentry : kind.entry number = some (.message inner)) {old new : List UInt8}
    (hold : old.length < intMax) (hnew : new.length < intMax)
    (hsame : inner.decode old = inner.decode new) (message : σ) (back : List UInt8) :
    decodeFields field message (bytesField number old ++ back) =
      decodeFields field message (bytesField number new ++ back) := by
  obtain ⟨hpos, hlow⟩ := Kind.number_of_entry hentry
  have htag : varint (varintBytes (number * 8 + 2)) = some (number * 8 + 2, []) :=
    varint_whole (Nat.lt_trans (by omega : number * 8 + 2 < 2 ^ 32) (by decide))
  have hread : ∀ slice : List UInt8, slice.length < intMax → decodeFields field message (bytesField number slice ++ back) =
      (field number 2 message (varintBytes slice.length ++ slice)).bind fun taken =>
        decodeFields field taken.1 back := by
    intro slice hslice
    have hcontent := content_bytes (Nat.lt_trans hslice (show intMax < wordSize by decide))
    have hwire : (number * 8 + 2) % 8 = 2 := by omega
    have hfield : (number * 8 + 2) % 2 ^ 32 / 8 = number := by omega
    rw [bytesField, List.append_assoc, decodeFields_part hkeeps.measured htag (hwire ▸ hcontent),
      decoderReadTag_of_varint htag (by omega), hfield, hwire]
    rfl
  obtain ⟨put, hput⟩ : ∃ put : inner.Value → σ, field number 2 message = fun bytes =>
      store (decoderSubMessageDecode inner.decode 2 bytes) put := by
    have hfield := hkeeps number 2 message
    rw [hentry] at hfield
    exact hfield
  have hmessage : ∀ slice : List UInt8, slice.length < intMax →
      decoderSubMessageDecode inner.decode 2 (varintBytes slice.length ++ slice) =
        (inner.decode slice).map fun value => (value, []) := by
    intro slice hslice
    have hbytes := Reads.bytes hslice []
    rw [List.append_nil] at hbytes
    exact subMessage_of_bytes hbytes
  rw [hread old hold, hread new hnew, hput]
  simp only [hmessage old hold, hmessage new hnew, hsame]

/-- What a newer writer has put in changes nothing. -/
theorem Newer.decode_eq {kind : Kind} {old new : List UInt8} (hnewer : Newer kind old new)
    (hlength : new.length ≤ intMax) : kind.decode old = kind.decode new := by
  induction hnewer with
  | same kind bytes => rfl
  | trans _ hsecond ihfirst ihsecond =>
      exact (ihfirst (Nat.le_trans hsecond.length_le hlength)).trans (ihsecond hlength)
  | @unknown kind front more back found others hfront hmore hunknown =>
      obtain ⟨σ, field, init, view, hkeeps, hdecode⟩ := kind.regular
      have hparts := parts_of_fields hfront
      have hskipped : ∀ message : σ, decodeFields field message more = some message :=
        decodeFields_skipped hkeeps.measured (parts_of_fields hmore) fun part hpart => by
          obtain ⟨hskip, hentry⟩ := hunknown part hpart
          refine ⟨hskip, fun wireType message bytes => ?_⟩
          have hfield := hkeeps (part.tag % 2 ^ 32 / 8) wireType message
          rw [hentry] at hfield
          exact congrFun hfield bytes
      have hold : (front ++ back).length ≤ intMax := by
        simp only [List.length_append] at hlength ⊢
        omega
      rw [hdecode _ hold, hdecode _ hlength, decodeFields_append hkeeps.measured hparts,
        decodeFields_append hkeeps.measured hparts]
      congr
      funext left
      rw [decodeFields_append hkeeps.measured (parts_of_fields hmore), hskipped]
      rfl
  | @inside kind inner number front old new back found hfront hentry hnewer hsmall ih =>
      obtain ⟨σ, field, init, view, hkeeps, hdecode⟩ := kind.regular
      have hparts := parts_of_fields hfront
      have hwhole : Newer kind (front ++ (bytesField number old ++ back))
          (front ++ (bytesField number new ++ back)) := .inside hfront hentry hnewer hsmall
      rw [hdecode _ (Nat.le_trans hwhole.length_le hlength), hdecode _ hlength,
        decodeFields_append hkeeps.measured hparts, decodeFields_append hkeeps.measured hparts]
      congr
      funext left
      exact decodeFields_inside hkeeps hentry (Nat.lt_of_le_of_lt hnewer.length_le hsmall) hsmall
        (ih (Nat.le_of_lt hsmall)) left back

theorem Newer.parse_eq {kind : Kind} {old new : List UInt8} (hnewer : Newer kind old new)
    (hlength : new.length ≤ intMax) : parse kind.decode old = parse kind.decode new := by
  rw [parse, parse, if_neg (Nat.not_lt_of_le (Nat.le_trans hnewer.length_le hlength)),
    if_neg (Nat.not_lt_of_le hlength), hnewer.decode_eq hlength]

end PbTools

namespace Mapping

open PbTools

variable {host : Host} {old new : List UInt8}

theorem decodeWith_congr {α β : Type} {parse : List UInt8 → Except ArnmResult α}
    {convert : α → Decode β} (hold : old ≠ []) (hnew : new ≠ []) (hparse : parse old = parse new) :
    decodeWith parse convert old = decodeWith parse convert new := by
  rw [decodeWith, decodeWith, if_neg hold, if_neg hnew, hparse]

/-- A message of a newer protocol is decoded as the one it would be without what is new in it, with
whatever memory there is. -/
theorem decode_newer (hold : old ≠ []) (hlength : new.length ≤ intMax) :
    (Newer .confirmedTransaction old new →
        confirmedTransactionDecode codec host old = confirmedTransactionDecode codec host new) ∧
      (Newer .gradidoTransaction old new →
        gradidoTransactionDecode host old = gradidoTransactionDecode host new) ∧
      (Newer .transactionBody old new →
        transactionBodyDecode codec host old = transactionBodyDecode codec host new) := by
  have hnew : ∀ {kind : Kind}, Newer kind old new → new ≠ [] := by
    intro kind hnewer hnil
    have hle := hnewer.length_le
    rw [hnil] at hle
    exact hold (List.length_eq_zero_iff.1 (Nat.le_zero.1 hle))
  exact ⟨fun h => decodeWith_congr hold (hnew h) (h.parse_eq hlength),
    fun h => decodeWith_congr hold (hnew h) (h.parse_eq hlength),
    fun h => decodeWith_congr hold (hnew h) (h.parse_eq hlength)⟩

/-- A timeout of a deferred transfer, confirmed at a time that has one field more. -/
def newerBytes : List UInt8 :=
  [8, 1, 18, 10, 18, 8] ++ emptyBody 106 ++
    (bytesField 3 [40, 7] ++ ([32, 136, 128, 12, 42, 32] ++ List.replicate 32 0 ++ [50, 0]))

theorem decode_newer_confirmedAt :
    (confirmedTransactionDecode codec plainHost newerBytes () []).1.map
        (fun tx => (tx.id, tx.transaction.bodyBytes)) = .ok (1, emptyBody 106) := by
  have hmore : Newer .timestamp [] [40, 7] :=
    .unknown (show fields [] = some [] from rfl)
      (show fields [40, 7] = some [⟨40, some 7⟩] by decide +kernel) (by decide)
  have hfront : fields ([8, 1, 18, 10, 18, 8] ++ emptyBody 106) =
      some [⟨8, some 1⟩, ⟨18, some 10⟩] := by decide +kernel
  have hwhole : Newer .confirmedTransaction (timeoutBytes 1 0) newerBytes :=
    .inside hfront (show Kind.confirmedTransaction.entry 3 = some (.message .timestamp) from rfl)
      hmore (by decide)
  rw [← (decode_newer (by decide) (by decide)).1 hwhole]
  decide +kernel

end Mapping

end GradidoBlockchain
