import GradidoBlockchain.Lib.WireParts
import GradidoBlockchain.Pb.Messages
import GradidoBlockchain.Pb.Extents

/-!
# What the readers look at

A reader of pbtools looks at the content that the wire type measures and at nothing after it. So the
loop of a decoder goes over fields that are put one after the other as it goes over each of them,
and fields that have no place in the message change nothing.
-/

namespace GradidoBlockchain

open WireFormat

namespace PbTools

variable {α β σ : Type} {wireType : Nat}

/-- The reader takes what the wire type measures, and the value is in it. -/
structure Measured (wireType : Nat) (read : List UInt8 → Option (α × List UInt8)) : Prop where
  stepsOver : ∀ bytes value rest, read bytes = some (value, rest) → StepsOver wireType bytes rest
  alone : ∀ inner held, content wireType inner = some (held, []) →
    ∀ more, read (inner ++ more) = (read inner).map fun taken => (taken.1, more)

namespace Measured

/-! ### Values -/

theorem store {read : List UInt8 → Option (α × List UInt8)} (hread : Measured wireType read)
    (put : α → β) : Measured wireType fun bytes => PbTools.store (read bytes) put := by
  refine ⟨fun bytes value rest hstore => ?_, fun inner held hcontent more => ?_⟩
  · obtain ⟨taken, hvalue, -⟩ := store_ok hstore
    exact hread.stepsOver _ _ _ hvalue
  · rw [hread.alone _ _ hcontent more, PbTools.store, PbTools.store, Option.map_map, Option.map_map]
    rfl

theorem readVarint_append {head : List UInt8} {number : Nat}
    (hhead : varint head = some (number, [])) (more : List UInt8) :
    decoderReadVarint (head ++ more) =
      (decoderReadVarint head).map fun taken => (taken.1, more) := by
  rw [decoderReadVarint_eq, decoderReadVarint_eq, varint_append hhead, hhead]
  rfl

theorem uint64 : Measured wireType (decoderReadUint64 wireType) := by
  refine ⟨fun bytes value rest hread => decoderReadUint64_stepsOver hread,
    fun inner held hcontent more => ?_⟩
  rw [decoderReadUint64, decoderReadUint64, readVarintCheckWireTypeVarint,
    readVarintCheckWireTypeVarint]
  split
  · rfl
  · rename_i hwire
    rw [not_not] at hwire
    rw [hwire, content] at hcontent
    obtain ⟨⟨number, left⟩, hvarint, hpair⟩ := Option.map_eq_some_iff.1 hcontent
    cases hpair
    exact readVarint_append hvarint more

theorem slice_whole {size : Nat} {inner : List UInt8} (hinner : after size inner = some []) :
    decoderSlice size inner = some (inner, []) := by
  have hlength := length_of_after_nil hinner
  rw [decoderSlice, ← hlength, if_pos (Nat.le_refl _), List.take_length, List.drop_length]

theorem slice {size : Nat} {inner : List UInt8} (hinner : after size inner = some [])
    (more : List UInt8) :
    decoderSlice size (inner ++ more) =
      (decoderSlice size inner).map fun taken => (taken.1, more) := by
  have hlength := length_of_after_nil hinner
  rw [decoderSlice, decoderSlice, List.length_append, if_pos (by omega), if_pos (by omega),
    ← hlength, List.take_left, List.drop_left, List.take_length]
  rfl

theorem bytes : Measured wireType (decoderReadBytes wireType) := by
  refine ⟨fun bytes value rest hread => decoderReadBytes_stepsOver hread,
    fun inner held hcontent more => ?_⟩
  rw [decoderReadBytes, decoderReadBytes, decoderReadLengthDelimited, decoderReadLengthDelimited]
  by_cases hwire : wireType = 2
  · rw [if_neg (not_not.2 hwire), if_neg (not_not.2 hwire)]
    rw [hwire, content] at hcontent
    obtain ⟨⟨length, between⟩, hvarint, hrest⟩ := Option.bind_eq_some_iff.1 hcontent
    obtain ⟨left, hafter, hpair⟩ := Option.map_eq_some_iff.1 hrest
    cases hpair
    rw [decoderReadVarint_eq, decoderReadVarint_eq, varint_append hvarint, hvarint]
    simp only [Option.map_some, Option.bind_eq_bind, Option.bind_some]
    split
    · rfl
    · have hcount : (UInt64.ofNat length).toNat = length % wordSize := UInt64.toNat_ofNat'
      rw [Option.bind_some, Option.bind_some, hcount]
      exact slice hafter more
  · rw [if_pos hwire, if_pos hwire]
    rfl

theorem subMessage {decodeInner : List UInt8 → Option α} :
    Measured wireType (decoderSubMessageDecode decodeInner wireType) := by
  refine ⟨fun bytes value rest hread => decoderSubMessageDecode_stepsOver hread,
    fun inner held hcontent more => ?_⟩
  rw [decoderSubMessageDecode, decoderSubMessageDecode, Measured.bytes.alone _ _ hcontent more]
  cases decoderReadBytes wireType inner with
  | none => rfl
  | some taken =>
      change (decodeInner taken.1).bind _ = ((decodeInner taken.1).bind _).map _
      cases decodeInner taken.1 with
      | none => rfl
      | some message => rfl

theorem skip (message : σ) : Measured wireType (decoderSkipField wireType message) := by
  refine ⟨fun bytes value rest hskip => (decoderSkipField_ok hskip).1,
    fun inner held hcontent more => ?_⟩
  unfold decoderSkipField
  unfold content at hcontent
  split at hcontent
  · obtain ⟨⟨number, left⟩, hvarint, hpair⟩ := Option.map_eq_some_iff.1 hcontent
    cases hpair
    rw [readVarint_append hvarint]
    cases decoderReadVarint inner <;> rfl
  · obtain ⟨left, hafter, hpair⟩ := Option.map_eq_some_iff.1 hcontent
    cases hpair
    rw [slice hafter]
    cases decoderSlice 8 inner <;> rfl
  · have hbytes : content 2 inner = some (held, []) := hcontent
    rw [Measured.bytes.alone _ _ hbytes more]
    cases decoderReadBytes 2 inner <;> rfl
  · obtain ⟨left, hafter, hpair⟩ := Option.map_eq_some_iff.1 hcontent
    cases hpair
    rw [slice hafter]
    cases decoderSlice 4 inner <;> rfl
  · cases hcontent

/-- What the wire type measures is stepped over, unless a length is more than pbtools counts. -/
theorem skip_content {message : σ} {inner : List UInt8} {held : Option Nat}
    (hcontent : content wireType inner = some (held, []))
    (hsmall : wireType = 2 → ∀ length ∈ held, length % wordSize < intMax) :
    decoderSkipField wireType message inner = some (message, []) := by
  unfold decoderSkipField
  unfold content at hcontent
  split at hcontent
  · obtain ⟨⟨number, left⟩, hvarint, hpair⟩ := Option.map_eq_some_iff.1 hcontent
    cases hpair
    rw [decoderReadVarint_eq, hvarint]
    rfl
  · obtain ⟨left, hafter, hpair⟩ := Option.map_eq_some_iff.1 hcontent
    cases hpair
    rw [slice_whole hafter]
    rfl
  · obtain ⟨⟨length, between⟩, hvarint, hrest⟩ := Option.bind_eq_some_iff.1 hcontent
    obtain ⟨left, hafter, hpair⟩ := Option.map_eq_some_iff.1 hrest
    cases hpair
    have hcount : (UInt64.ofNat length).toNat = length % wordSize := UInt64.toNat_ofNat'
    have hlt := hsmall rfl length rfl
    rw [decoderReadBytes, decoderReadLengthDelimited, if_neg (by decide), decoderReadVarint_eq,
      hvarint]
    simp only [Option.map_some, Option.bind_eq_bind, Option.bind_some, hcount,
      if_neg (Nat.not_le_of_lt hlt)]
    rw [slice_whole hafter]
    rfl
  · obtain ⟨left, hafter, hpair⟩ := Option.map_eq_some_iff.1 hcontent
    cases hpair
    rw [slice_whole hafter]
    rfl
  · cases hcontent

end Measured

/-! ### Fields -/

/-- Every field of the message takes what its wire type measures. -/
def MeasuredFields (field : Nat → Nat → σ → List UInt8 → Option (σ × List UInt8)) : Prop :=
  ∀ number wireType message, Measured wireType (field number wireType message)

variable {field : Nat → Nat → σ → List UInt8 → Option (σ × List UInt8)}

theorem MeasuredFields.shortens (hfield : MeasuredFields field) : Scan.Shortens (fieldStep field) :=
  fieldStep_shortens fun number wireType message bytes left rest hrun =>
    (hfield number wireType message).stepsOver bytes left rest hrun

theorem decoderReadTag_append {head : List UInt8} {tag : Nat} (hhead : varint head = some (tag, []))
    (more : List UInt8) :
    decoderReadTag (head ++ more) = (decoderReadTag head).map fun taken => (taken.1, more) := by
  rw [decoderReadTag, decoderReadTag, Measured.readVarint_append hhead more]
  cases decoderReadVarint head with
  | none => rfl
  | some taken =>
      simp only [Option.map_some, Option.bind_eq_bind, Option.bind_some]
      split
      · rfl
      · rfl

/-- The loop takes a field, and goes on after it with what it has made of it. -/
theorem decodeFields_part (hfield : MeasuredFields field) {head inner : List UInt8} {tag : Nat}
    {held : Option Nat} (hhead : varint head = some (tag, []))
    (hinner : content (tag % 8) inner = some (held, [])) (message : σ) (more : List UInt8) :
    decodeFields field message (head ++ (inner ++ more)) = (decoderReadTag head).bind fun read =>
      (field read.1.1 read.1.2 message inner).bind fun taken =>
        decodeFields field taken.1 more := by
  obtain ⟨byte, bytes, hcons⟩ := List.exists_cons_of_ne_nil (ne_nil_of_varint hhead)
  have hlist : head ++ (inner ++ more) = byte :: (bytes ++ (inner ++ more)) := by
    rw [hcons, List.cons_append]
  rw [decodeFields, hlist, Scan.scan_cons hfield.shortens, ← hlist, fieldStep,
    decoderReadTag_append hhead]
  cases htag : decoderReadTag head with
  | none => rfl
  | some read =>
      obtain ⟨⟨number, wireType⟩, left⟩ := read
      obtain ⟨value, hvalue, -, -, hwire⟩ := decoderReadTag_ok htag
      cases hvalue.symm.trans hhead
      subst hwire
      simp only [Option.map_some, Option.bind_eq_bind, Option.bind_some]
      rw [(hfield number (tag % 8) message).alone inner held hinner more]
      cases field number (tag % 8) message inner with
      | none => rfl
      | some taken => rfl

/-- Fields that are put one after the other are decoded one after the other. -/
theorem decodeFields_append (hfield : MeasuredFields field) {front : List UInt8}
    {found : List Field} (hparts : Parts front found) (message : σ) (back : List UInt8) :
    decodeFields field message (front ++ back) =
      (decodeFields field message front).bind fun left => decodeFields field left back := by
  induction hparts generalizing message with
  | nil => rfl
  | field hhead hinner _ ih =>
      rw [List.append_assoc, List.append_assoc, decodeFields_part hfield hhead hinner,
        decodeFields_part hfield hhead hinner, Option.bind_assoc]
      congr
      funext read
      rw [Option.bind_assoc]
      congr
      funext taken
      exact ih taken.1

theorem decoderReadTag_of_varint {head : List UInt8} {tag : Nat}
    (hhead : varint head = some (tag, [])) (hnumber : tag % 2 ^ 32 / 8 ≠ 0) :
    decoderReadTag head = some ((tag % 2 ^ 32 / 8, tag % 8), []) := by
  have hvalue : ((UInt64.ofNat tag).toUInt32 >>> 3).toNat = tag % 2 ^ 32 / 8 := by
    rw [UInt32.toNat_shiftRight, UInt64.toNat_toUInt32, UInt64.toNat_ofNat',
      Nat.shiftRight_eq_div_pow]
    change tag % 2 ^ 64 % 2 ^ 32 / 2 ^ 3 = _
    omega
  have hwire : ((UInt64.ofNat tag).toUInt32 &&& 7).toNat = tag % 8 := by
    rw [UInt32.toNat_and, UInt64.toNat_toUInt32, UInt64.toNat_ofNat']
    change tag % 2 ^ 64 % 2 ^ 32 &&& 2 ^ 3 - 1 = _
    rw [Nat.and_two_pow_sub_one_eq_mod]
    omega
  rw [decoderReadTag, decoderReadVarint_eq, hhead]
  simp only [Option.map_some, Option.bind_eq_bind, Option.bind_some, hvalue, hwire, if_neg hnumber]

/-- pbtools can step over the field: its tag has a number, and no length is more
than pbtools counts. -/
def Skippable (part : Field) : Prop :=
  part.tag % 2 ^ 32 / 8 ≠ 0 ∧ (part.wire = 2 → ∀ length ∈ part.content, length % wordSize < intMax)

instance : DecidablePred Skippable := fun part => by unfold Skippable; infer_instance

/-- Fields that the message steps over change nothing. -/
theorem decodeFields_skipped (hfield : MeasuredFields field) {bytes : List UInt8}
    {found : List Field} (hparts : Parts bytes found)
    (hskipped : ∀ part ∈ found, Skippable part ∧
      ∀ wireType message bytes, field (part.tag % 2 ^ 32 / 8) wireType message bytes =
        decoderSkipField wireType message bytes) (message : σ) :
    decodeFields field message bytes = some message := by
  induction hparts with
  | nil => rfl
  | field hhead hinner _ ih =>
      obtain ⟨⟨⟨hnumber, hsmall⟩, hskip⟩, hrest⟩ := List.forall_mem_cons.1 hskipped
      rw [decodeFields_part hfield hhead hinner, decoderReadTag_of_varint hhead hnumber]
      simp only [Option.bind_some, hskip, Measured.skip_content hinner hsmall]
      exact ih hrest

end PbTools

end GradidoBlockchain
