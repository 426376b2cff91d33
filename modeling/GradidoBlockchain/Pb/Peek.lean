import GradidoBlockchain.Pb.Extents
import GradidoBlockchain.Pb.Messages
import GradidoBlockchain.Wire.RoundTrip

/-!
# Peeking at a number

`grdw_confirmed_transaction_peek_id` walks over the top level of a message without entering a field.
It refuses a varint of more than 64 bits, where the decoder drops the bits past them; apart from
that it finds the number that the decoder finds, as long as a tag has no more than the 32 bits that
the decoder looks at.
-/

namespace GradidoBlockchain

open WireFormat PbTools

namespace Wire

/-! ### The scanner -/

/-- The loop of `peek_varint`. -/
def peekVarintFrom (value : UInt64) (shift : Nat) : List UInt8 → Option (UInt64 × List UInt8)
  | [] => none
  | byte :: rest =>
      if shift = 63 ∧ 1 < byte then none
      else
        let value := value ||| ((byte &&& 0x7f).toUInt64 <<< UInt64.ofNat shift)
        if byte &&& 0x80 = 0 then some (value, rest)
        else if shift + 7 < 64 then peekVarintFrom value (shift + 7) rest
        else none

def peekVarint : List UInt8 → Option (UInt64 × List UInt8) := peekVarintFrom 0 0

def peekSkip (count : Nat) (bytes : List UInt8) : Option (List UInt8) :=
  if bytes.length < count then none else some (bytes.drop count)

/-- Any field but the number, which is stepped over as what its wire type says it is. -/
def peekStepped (wire : Nat) (bytes : List UInt8) : Option (List UInt8) :=
  match wire with
  | 0 => (peekVarint bytes).map (·.2)
  | 1 => peekSkip 8 bytes
  | 2 => do
      let (length, rest) ← peekVarint bytes
      peekSkip length.toNat rest
  | 5 => peekSkip 4 bytes
  | _ => none

/-- A turn of the loop of `grdw_confirmed_transaction_peek_id`. -/
def peekField : Scan.Step UInt8 UInt64 := fun id bytes => do
  let (tag, rest) ← peekVarint bytes
  if tag >>> 3 = 0 then none
  else if tag >>> 3 = 1 then
    if tag &&& 7 ≠ 0 then none else peekVarint rest
  else do
    let rest ← peekStepped (tag &&& 7).toNat rest
    some (id, rest)

/-- `grdw_confirmed_transaction_peek_id`. -/
def confirmedTransactionPeekId (serialized : List UInt8) : Except ArnmResult UInt64 :=
  match Scan.scan peekField 0 serialized with
  | some id => .ok id
  | none => .error .decodeFailed

variable {bytes rest : List UInt8}

/-! ### Varints -/

theorem bits_lt (byte : UInt8) {value shift : Nat} (hvalue : value < 2 ^ shift) :
    value ||| (byte.toNat % 128) <<< shift < 2 ^ (shift + 7) := by
  apply Nat.or_lt_two_pow
  · exact Nat.lt_of_lt_of_le hvalue (Nat.pow_le_pow_right Nat.two_pos (Nat.le_add_right _ _))
  · rw [Nat.shiftLeft_eq, Nat.pow_add, Nat.mul_comm]
    exact Nat.mul_lt_mul_of_pos_left (Nat.mod_lt _ (by decide)) (Nat.two_pow_pos shift)

/-- The tenth byte of a varint of 64 bits holds one of them. -/
theorem bits_fit_iff {byte : UInt8} {value : Nat} (hvalue : value < 2 ^ 63)
    (hlast : byte.toNat < 128) : value ||| (byte.toNat % 128) <<< 63 < wordSize ↔ ¬1 < byte := by
  rw [Nat.mod_eq_of_lt hlast, UInt8.lt_iff_toNat_lt, Nat.not_lt]
  change _ < 2 ^ 64 ↔ byte.toNat ≤ 1
  constructor
  · intro hlt
    have hshift : byte.toNat <<< 63 ≤ value ||| byte.toNat <<< 63 := Nat.right_le_or
    rw [Nat.shiftLeft_eq] at hshift hlt
    omega
  · intro hle
    apply Nat.or_lt_two_pow
    · exact Nat.lt_trans hvalue (by decide)
    · rw [Nat.shiftLeft_eq]
      omega

/-- A varint of 64 bits is read as it is, and a longer one is refused. -/
theorem peekVarintFrom_eq {value shift : Nat} (hvalue : value < 2 ^ shift) (hshift : shift ≤ 63)
    (hseven : shift % 7 = 0) :
    peekVarintFrom (UInt64.ofNat value) shift bytes =
      (varintFrom value shift bytes).bind fun read =>
        if read.1 < wordSize then some (UInt64.ofNat read.1, read.2) else none := by
  induction bytes generalizing value shift with
  | nil => rfl
  | cons byte bytes ih =>
      have hmask : (byte &&& 0x7f).toUInt64 = byte.toUInt64 &&& 0x7f := UInt8.toUInt64_and byte 0x7f
      rw [peekVarintFrom, varintFrom]
      simp only [hmask, bits_toNat value shift (by omega), continues_iff]
      by_cases hlast : byte.toNat < 128
      · rw [if_pos hlast, if_pos hlast]
        change _ = if _ < wordSize then some (_, bytes) else none
        rcases Nat.lt_or_eq_of_le hshift with hearly | rfl
        · have hfits : value ||| (byte.toNat % 128) <<< shift < wordSize :=
            Nat.lt_of_lt_of_le (bits_lt byte hvalue) (Nat.pow_le_pow_right Nat.two_pos (by omega))
          rw [if_neg (by omega), if_pos hfits]
        · by_cases hone : 1 < byte
          · rw [if_pos ⟨rfl, hone⟩, if_neg fun hfits => (bits_fit_iff hvalue hlast).1 hfits hone]
          · rw [if_neg fun h => hone h.2, if_pos ((bits_fit_iff hvalue hlast).2 hone)]
      · rw [if_neg hlast, if_neg hlast]
        rcases Nat.lt_or_eq_of_le hshift with hearly | rfl
        · rw [if_neg (by omega), if_pos (by omega), if_pos (by omega)]
          exact ih (bits_lt byte hvalue) (by omega) (by omega)
        · have hone : 1 < byte := by
            rw [UInt8.lt_iff_toNat_lt]
            exact Nat.lt_of_lt_of_le (by decide) (Nat.not_lt.1 hlast)
          rw [if_pos ⟨rfl, hone⟩, if_neg (by decide)]
          rfl

theorem peekVarint_eq :
    peekVarint bytes =
      (varint bytes).bind fun read =>
        if read.1 < wordSize then some (UInt64.ofNat read.1, read.2) else none :=
  peekVarintFrom_eq (by decide) (by decide) rfl

theorem peekVarint_of_varint {value : Nat} (hvarint : varint bytes = some (value, rest)) :
    peekVarint bytes = if value < wordSize then some (UInt64.ofNat value, rest) else none := by
  rw [peekVarint_eq, hvarint]
  rfl

theorem peekSkip_eq (count : Nat) (bytes : List UInt8) :
    peekSkip count bytes = after count bytes := by
  rw [peekSkip, after]
  by_cases hle : count ≤ bytes.length
  · rw [if_neg (by omega), if_pos hle]
  · rw [if_pos (by omega), if_neg hle]

/-! ### Fields -/

theorem fits_iff {tag : Nat} {number : Option Nat} (htag : tag < 2 ^ 32) :
    Field.Fits ⟨tag, number⟩ ↔ ∀ value ∈ number, value < wordSize :=
  ⟨fun hfits => hfits.2, fun hnumber => ⟨Nat.lt_trans htag (by decide), hnumber⟩⟩

theorem some_fits_iff {value : Nat} :
    (∀ number ∈ some value, number < wordSize) ↔ value < wordSize :=
  ⟨fun hfits => hfits value rfl, fun hlt _ hmem => Option.some.inj hmem ▸ hlt⟩

/-- A field that is stepped over is measured by its wire type. -/
theorem peekStepped_of_content {wire : Nat} {number : Option Nat}
    (hcontent : content wire bytes = some (number, rest)) :
    peekStepped wire bytes = if ∀ value ∈ number, value < wordSize then some rest else none := by
  unfold content at hcontent
  split at hcontent
  · obtain ⟨⟨value, left⟩, hvarint, hpair⟩ := Option.map_eq_some_iff.1 hcontent
    cases hpair
    rw [peekStepped, peekVarint_of_varint hvarint]
    simp only [some_fits_iff]
    split
    · rfl
    · rfl
  · obtain ⟨left, hafter, hpair⟩ := Option.map_eq_some_iff.1 hcontent
    cases hpair
    rw [peekStepped, peekSkip_eq, hafter, if_pos (by simp)]
  · obtain ⟨⟨value, between⟩, hvarint, hrest⟩ := Option.bind_eq_some_iff.1 hcontent
    obtain ⟨left, hafter, hpair⟩ := Option.map_eq_some_iff.1 hrest
    cases hpair
    rw [peekStepped, peekVarint_of_varint hvarint]
    simp only [some_fits_iff]
    split
    · change peekSkip (UInt64.ofNat value).toNat between = _
      rw [peekSkip_eq, UInt64.toNat_ofNat']
      exact hafter
    · rfl
  · obtain ⟨left, hafter, hpair⟩ := Option.map_eq_some_iff.1 hcontent
    cases hpair
    rw [peekStepped, peekSkip_eq, hafter, if_pos (by simp)]
  · cases hcontent

/-- What the scanner makes of a field whose tag has no more than 32 bits. -/
theorem peekField_of_content {tag : Nat} {number : Option Nat} {between : List UInt8}
    (htag : varint bytes = some (tag, between)) (hsmall : tag < 2 ^ 32) (hnumber : tag / 8 ≠ 0)
    (hcontent : content (tag % 8) between = some (number, rest)) (hid : tag / 8 = 1 → tag % 8 = 0)
    (id : UInt64) :
    peekField id bytes =
      if Field.Fits ⟨tag, number⟩ then
          some (if tag / 8 = 1 then UInt64.ofNat (number.getD 0) else id, rest)
        else none := by
  have hfield : (UInt64.ofNat tag >>> 3).toNat = tag / 8 := by
    rw [UInt64.toNat_shiftRight, UInt64.toNat_ofNat', Nat.shiftRight_eq_div_pow]
    change tag % 2 ^ 64 / 2 ^ 3 = _
    omega
  have hwire : (UInt64.ofNat tag &&& 7).toNat = tag % 8 := by
    rw [UInt64.toNat_and, UInt64.toNat_ofNat']
    change tag % 2 ^ 64 &&& 2 ^ 3 - 1 = _
    rw [Nat.and_two_pow_sub_one_eq_mod]
    omega
  have hzero : ¬UInt64.ofNat tag >>> 3 = 0 := fun h => hnumber (by rw [← hfield, h]; rfl)
  have hone : UInt64.ofNat tag >>> 3 = 1 ↔ tag / 8 = 1 := by rw [← UInt64.toNat_inj, hfield]; rfl
  rw [peekField, peekVarint_of_varint htag, if_pos (Nat.lt_trans hsmall (by decide))]
  simp only [Option.bind_eq_bind, Option.bind_some, if_neg hzero, hone, fits_iff hsmall]
  by_cases hnr : tag / 8 = 1
  · have hvarint : ¬UInt64.ofNat tag &&& 7 ≠ 0 := by
      rw [not_not, ← UInt64.toNat_inj, hwire, hid hnr]
      rfl
    rw [if_pos hnr, if_neg hvarint, if_pos hnr]
    rw [hid hnr] at hcontent
    obtain ⟨⟨value, left⟩, hread, hpair⟩ := Option.map_eq_some_iff.1 hcontent
    cases hpair
    rw [peekVarint_of_varint hread]
    simp only [some_fits_iff]
    rfl
  · rw [if_neg hnr, if_neg hnr, hwire, peekStepped_of_content hcontent]
    split
    · rfl
    · rfl

theorem peekField_shortens : Scan.Shortens peekField := by
  have hvarint : ∀ {number : UInt64} {bytes rest : List UInt8}, peekVarint bytes =
        some (number, rest) → rest.length < bytes.length := by
    intro number bytes rest hread
    rw [peekVarint_eq] at hread
    obtain ⟨read, hvarint, hpair⟩ := Option.bind_eq_some_iff.1 hread
    split at hpair
    · cases hpair
      exact varint_shortens hvarint
    · cases hpair
  have hskip : ∀ {count : Nat} {bytes rest : List UInt8}, peekSkip count bytes = some rest →
      rest.length ≤ bytes.length := by
    intro count bytes rest hskip
    rw [peekSkip_eq] at hskip
    exact after_le hskip
  have hstepped : ∀ {wire : Nat} {bytes rest : List UInt8}, peekStepped wire bytes = some rest →
      rest.length ≤ bytes.length := by
    intro wire bytes rest hrest
    unfold peekStepped at hrest
    split at hrest
    · obtain ⟨read, hread, rfl⟩ := Option.map_eq_some_iff.1 hrest
      exact Nat.le_of_lt (hvarint hread)
    · exact hskip hrest
    · obtain ⟨read, hread, hrest⟩ := Option.bind_eq_some_iff.1 hrest
      exact Nat.le_trans (hskip hrest) (Nat.le_of_lt (hvarint hread))
    · exact hskip hrest
    · cases hrest
  intro id bytes after rest hstep
  obtain ⟨⟨tag, between⟩, htag, hstep⟩ := Option.bind_eq_some_iff.1 hstep
  simp only at hstep
  split at hstep
  · cases hstep
  · split at hstep
    · split at hstep
      · cases hstep
      · exact Nat.lt_trans (hvarint hstep) (hvarint htag)
    · obtain ⟨left, hrest, hpair⟩ := Option.bind_eq_some_iff.1 hstep
      cases hpair
      exact Nat.lt_of_le_of_lt (hstepped hrest) (hvarint htag)

/-! ### Agreement -/

/-- A field of a confirmed transaction is stepped over, and only the first one is its number. -/
theorem confirmedTransactionField_ok {field wireType : Nat}
    {state left : Proto.ConfirmedTransaction × RepeatedInfo}
    (hrun : confirmedTransactionField field wireType state bytes = some (left, rest)) :
    StepsOver wireType bytes rest ∧
      (field = 1 →
        ∃ value, wireType = 0 ∧ varint bytes = some (value, rest) ∧
          left.1.id = UInt64.ofNat value) ∧ (field ≠ 1 → left.1.id = state.1.id) := by
  obtain ⟨message, info⟩ := state
  unfold confirmedTransactionField at hrun
  simp only at hrun
  split at hrun
  · obtain ⟨id, hread, rfl⟩ := store_ok hrun
    obtain ⟨value, hwire, hvarint, rfl⟩ := decoderReadUint64_ok hread
    exact ⟨decoderReadUint64_stepsOver hread, fun _ => ⟨value, hwire, hvarint, rfl⟩,
      fun hne => absurd rfl hne⟩
  · obtain ⟨_, hread, rfl⟩ := store_ok hrun
    exact ⟨decoderSubMessageDecode_stepsOver hread, by simp, fun _ => rfl⟩
  · obtain ⟨_, hread, rfl⟩ := store_ok hrun
    exact ⟨decoderSubMessageDecode_stepsOver hread, by simp, fun _ => rfl⟩
  · obtain ⟨_, hread, rfl⟩ := store_ok hrun
    exact ⟨decoderReadUint32_stepsOver hread, by simp, fun _ => rfl⟩
  · obtain ⟨_, hread, rfl⟩ := store_ok hrun
    exact ⟨decoderReadBytes_stepsOver hread, by simp, fun _ => rfl⟩
  · obtain ⟨_, hread, rfl⟩ := store_ok hrun
    exact ⟨decoderSubMessageDecode_stepsOver hread, by simp, fun _ => rfl⟩
  · obtain ⟨_, hread, rfl⟩ := store_ok hrun
    exact ⟨repeatedInfoDecode_stepsOver hread, by simp, fun _ => rfl⟩
  · obtain ⟨hsteps, rfl⟩ := decoderSkipField_ok hrun
    exact ⟨hsteps, fun hone => absurd hone ‹_›, fun _ => rfl⟩

theorem confirmedTransaction_shortens :
    Scan.Shortens (PbTools.fieldStep confirmedTransactionField) :=
  fieldStep_shortens fun _ _ _ _ _ _ hrun => (confirmedTransactionField_ok hrun).1

/-- The two walks go over the same fields, and find the same number in them. -/
theorem peek_along {state final : Proto.ConfirmedTransaction × RepeatedInfo}
    (hscan : decodeFields confirmedTransactionField state bytes = some final) :
    ∃ found : List Field, (∀ earlier,
        Scan.scan WireFormat.fieldStep earlier bytes = some (earlier ++ found)) ∧
      ((∀ field ∈ found, field.tag < 2 ^ 32) →
        Scan.scan peekField state.1.id bytes =
          if ∀ field ∈ found, field.Fits then some final.1.id else none) := by
  refine Scan.scan_induct
    (motive := fun state bytes final =>
      ∃ found : List Field, (∀ earlier,
          Scan.scan WireFormat.fieldStep earlier bytes = some (earlier ++ found)) ∧
        ((∀ field ∈ found, field.tag < 2 ^ 32) →
          Scan.scan peekField state.1.id bytes =
            if ∀ field ∈ found, field.Fits then some final.1.id else none))
    confirmedTransaction_shortens (fun state => ?_)
    (fun state byte bytes after rest final hstep _ ih => ?_) hscan
  · refine ⟨[], fun earlier => ?_, fun _ => ?_⟩
    · rw [List.append_nil]
      rfl
    · rw [if_pos (by simp)]
      rfl
  · obtain ⟨found, hfound, hpeek⟩ := ih
    obtain ⟨⟨⟨number, wireType⟩, between⟩, htag, hrun⟩ := Option.bind_eq_some_iff.1 hstep
    obtain ⟨tag, hvarint, hnumber, hnonzero, rfl⟩ := decoderReadTag_ok htag
    obtain ⟨⟨content, hcontent⟩, hid, hother⟩ := confirmedTransactionField_ok hrun
    refine ⟨⟨tag, content⟩ :: found, fun earlier => ?_, fun hsmall => ?_⟩
    · have htaken : WireFormat.fieldStep earlier (byte :: bytes) =
          some (earlier ++ [⟨tag, content⟩], rest) := by
        rw [WireFormat.fieldStep, hvarint]
        change ((WireFormat.content (tag % 8) between).map _) = _
        rw [hcontent]
        rfl
      rw [Scan.scan_cons fieldStep_shortens, htaken]
      change Scan.scan WireFormat.fieldStep _ rest = _
      rw [hfound, List.append_assoc]
      rfl
    · obtain ⟨hhead, htail⟩ := List.forall_mem_cons.1 hsmall
      have hnr : number = tag / 8 := by
        rw [hnumber, Nat.mod_eq_of_lt hhead]
      have hvarints : tag / 8 = 1 → tag % 8 = 0 := fun hone => by
        obtain ⟨_, hwire, -⟩ := hid (hnr.trans hone)
        exact hwire
      have hleft : after.1.id =
          if tag / 8 = 1 then UInt64.ofNat (content.getD 0) else state.1.id := by
        by_cases hone : tag / 8 = 1
        · obtain ⟨value, hwire, hread, hafter⟩ := hid (hnr.trans hone)
          rw [hwire, WireFormat.content, hread] at hcontent
          cases hcontent
          rw [if_pos hone, hafter]
          rfl
        · rw [if_neg hone, hother fun h => hone (hnr.symm.trans h)]
      rw [Scan.scan_cons peekField_shortens,
        peekField_of_content hvarint hhead (hnr ▸ hnonzero) hcontent hvarints, ← hleft]
      by_cases hfits : Field.Fits ⟨tag, content⟩
      · rw [if_pos hfits]
        change Scan.scan peekField after.1.id rest = _
        rw [hpeek htail]
        simp only [List.forall_mem_cons, hfits, true_and]
      · rw [if_neg hfits, if_neg fun hall => hfits (List.forall_mem_cons.1 hall).1]
        rfl

/-- A decode of the bytes is a walk of pbtools over their fields, and ends with the
number it has found. -/
theorem confirmedTransactionDecode_walk {host : Mapping.Host} {confirmed : ConfirmedTransaction}
    {room answers : Fallible.Room}
    (hdecode : Mapping.confirmedTransactionDecode PbTools.codec host bytes () room =
      (.ok confirmed, (), answers)) :
    ∃ final, decodeFields confirmedTransactionField (.init, .init) bytes = some final ∧
      confirmed.id = final.1.id := by
  rw [Mapping.confirmedTransactionDecode, Mapping.decodeWith] at hdecode
  split at hdecode
  · cases hdecode
  · obtain ⟨_, _, _, -, hdecode⟩ := Fallible.Call.bind_ok.1 hdecode
    have hcodec : PbTools.codec.confirmedTransaction bytes =
        PbTools.parse confirmedTransactionDecodeInner bytes := rfl
    rw [hcodec, PbTools.parse] at hdecode
    by_cases hsize : intMax < bytes.length
    · rw [if_pos hsize] at hdecode
      cases hdecode
    · rw [if_neg hsize] at hdecode
      cases hinner : confirmedTransactionDecodeInner bytes with
      | none =>
          rw [hinner] at hdecode
          cases hdecode
      | some message =>
          rw [hinner] at hdecode
          obtain ⟨⟨walked, info⟩, hwalk, hrepeated⟩ := Option.bind_eq_some_iff.1 hinner
          obtain ⟨_, -, hpair⟩ := Option.bind_eq_some_iff.1 hrepeated
          cases hpair
          refine ⟨(walked, info), hwalk, ?_⟩
          change Mapping.confirmedTransactionFromPb host _ _ _ = _ at hdecode
          rw [Mapping.confirmedTransactionFromPb] at hdecode
          split at hdecode
          · cases hdecode
          · obtain ⟨_, _, _, -, hdecode⟩ := Fallible.Call.bind_ok.1 hdecode
            obtain ⟨_, _, _, -, hdecode⟩ := Fallible.Call.bind_ok.1 hdecode
            obtain ⟨_, _, _, -, hdecode⟩ := Fallible.Call.bind_ok.1 hdecode
            obtain ⟨_, _, _, -, hdecode⟩ := Fallible.Call.bind_ok.1 hdecode
            obtain ⟨_, _, _, -, hdecode⟩ := Fallible.Call.bind_ok.1 hdecode
            obtain ⟨hconfirmed, -, -⟩ := Fallible.Call.pure_ok.1 hdecode
            rw [← hconfirmed]

/-- Of a message that can be decoded the scanner finds the same number, unless a varint has more
than 64 bits, which it refuses. -/
theorem confirmedTransactionPeekId_of_decode {host : Mapping.Host}
    {confirmed : ConfirmedTransaction} {room answers : Fallible.Room}
    (hdecode : Mapping.confirmedTransactionDecode PbTools.codec host bytes () room =
      (.ok confirmed, (), answers)) :
    ∃ found, WireFormat.fields bytes = some found ∧
      ((∀ field ∈ found, field.tag < 2 ^ 32) →
        confirmedTransactionPeekId bytes =
          if ∀ field ∈ found, field.Fits then .ok confirmed.id else .error .decodeFailed) := by
  obtain ⟨final, hwalk, hid⟩ := confirmedTransactionDecode_walk hdecode
  obtain ⟨found, hfound, hpeek⟩ := peek_along hwalk
  refine ⟨found, hfound [], fun hsmall => ?_⟩
  have hscan : Scan.scan peekField 0 bytes = _ := hpeek hsmall
  rw [confirmedTransactionPeekId, hscan, hid]
  by_cases hfits : ∀ field ∈ found, field.Fits
  · rw [if_pos hfits, if_pos hfits]
  · rw [if_neg hfits, if_neg hfits]

/-- A confirmed transaction with the number 1 and one byte for a body. -/
def numberOne : ConfirmedTransaction where
  id := 1
  transaction := ⟨.empty, [1], .init⟩
  confirmedAt := ⟨0, 0⟩
  runningHash := zeroBytes 32
  ledgerAnchor := .init
  accountBalances := .empty

theorem confirmedTransactionPeekId_of_decode_one :
    ∃ found, WireFormat.fields (shortBytes [1] [1] 0) = some found ∧
      ((∀ field ∈ found, field.tag < 2 ^ 32) →
        confirmedTransactionPeekId (shortBytes [1] [1] 0) =
          if ∀ field ∈ found, field.Fits then .ok numberOne.id else .error .decodeFailed) :=
  have hdecode : Mapping.confirmedTransactionDecode PbTools.codec Mapping.plainHost
        (shortBytes [1] [1] 0) () [] = (.ok numberOne, (), []) := by decide +kernel
  confirmedTransactionPeekId_of_decode hdecode

/-- A number of ten bytes whose last one is 2 is read as 1 by the decoder, and not by the
scanner. -/
theorem confirmedTransactionPeekId_not_of_decode :
    ∃ bytes, Mapping.confirmedTransactionDecode PbTools.codec Mapping.plainHost bytes () [] =
        (.ok numberOne, (), []) ∧ confirmedTransactionPeekId bytes = .error .decodeFailed :=
  ⟨shortBytes [129, 128, 128, 128, 128, 128, 128, 128, 128, 2] [1] 0, by decide +kernel⟩

end Wire

end GradidoBlockchain
