import GradidoBlockchain.Pb.Extents
import GradidoBlockchain.Pb.Written

/-!
# What has been written is read

The readers of pbtools take from the bytes of a field what has been written there, whatever comes
after it, so that a message is read from its bytes field by field as it was.
-/

namespace GradidoBlockchain

open WireFormat

namespace PbTools

variable {α σ : Type} {number : Nat}

/-! ### Values -/

/-- The reader takes the value from the bytes, whatever comes after them. -/
def Reads (read : List UInt8 → Option (α × List UInt8)) (bytes : List UInt8) (value : α) : Prop :=
  ∀ rest, read (bytes ++ rest) = some (value, rest)

namespace Reads

theorem store {read : List UInt8 → Option (α × List UInt8)} {bytes : List UInt8} {value : α}
    (hread : Reads read bytes value) (put : α → σ) :
    Reads (fun bytes => PbTools.store (read bytes) put) bytes (put value) := by
  intro rest
  change PbTools.store (read _) put = _
  rw [hread rest]
  rfl

theorem uint64 (value : UInt64) : Reads (decoderReadUint64 0) (varintBytes value.toNat) value := by
  intro rest
  rw [decoderReadUint64, readVarintCheckWireTypeVarint, if_neg (by decide), decoderReadVarint_eq,
    varint_varintBytes value.toNat_lt, Option.map_some, UInt64.ofNat_toNat]

theorem int64 (value : Int64) :
    Reads (decoderReadInt64 0) (varintBytes value.toUInt64.toNat) value := by
  have hread := (uint64 value.toUInt64).store (·.toInt64)
  rwa [Int64.toInt64_toUInt64] at hread

theorem uint32 (value : UInt32) : Reads (decoderReadUint32 0) (varintBytes value.toNat) value := by
  have hread := (uint64 value.toUInt64).store (·.toUInt32)
  rwa [UInt32.toNat_toUInt64, UInt32.toUInt32_toUInt64] at hread

/-- Of an integer whose sign has been extended the lower half is the integer. -/
theorem toUInt32_extended (value : Int32) : value.toInt64.toUInt64.toUInt32 = value.toUInt32 := by
  rw [← UInt32.toBitVec_inj]
  change BitVec.setWidth 32 (BitVec.signExtend 64 value.toBitVec) = value.toBitVec
  ext i hi
  rw [BitVec.getElem_setWidth, BitVec.getLsbD_signExtend, if_pos hi, decide_eq_true (by omega),
    Bool.true_and, BitVec.getLsbD_eq_getElem hi]

theorem word (value : Int32) :
    Reads (decoderReadUint32 0) (varintBytes value.toInt64.toUInt64.toNat) value.toUInt32 := by
  have hread := (uint64 value.toInt64.toUInt64).store (·.toUInt32)
  rwa [toUInt32_extended] at hread

theorem int32 (value : Int32) :
    Reads (decoderReadInt32 0) (varintBytes value.toInt64.toUInt64.toNat) value := by
  have hread := (word value).store (·.toInt32)
  rwa [Int32.toInt32_toUInt32] at hread

theorem bool (value : Bool) : Reads (decoderReadBool 0) (varintBytes value.toNat) value := by
  cases value with
  | false => exact (int32 0).store fun value => decide (value ≠ 0)
  | true => exact (int32 1).store fun value => decide (value ≠ 0)

theorem enum {ofCode : Nat → α} {code : Nat} (hcode : code < 2 ^ 32) :
    Reads (decoderReadEnum ofCode 0)
      (varintBytes (UInt32.ofNat code).toInt32.toInt64.toUInt64.toNat) (ofCode code) := by
  have hread := (word (UInt32.ofNat code).toInt32).store fun code => ofCode code.toNat
  rwa [UInt32.toUInt32_toInt32, UInt32.toNat_ofNat', Nat.mod_eq_of_lt hcode] at hread

theorem bytes {bytes : List UInt8} (hsmall : bytes.length < intMax) :
    Reads (decoderReadBytes 2) (varintBytes bytes.length ++ bytes) bytes := by
  intro rest
  have hlt : bytes.length < 2 ^ 64 := Nat.lt_trans hsmall (by decide)
  rw [decoderReadBytes, decoderReadLengthDelimited, if_neg (by decide), decoderReadVarint_eq,
    List.append_assoc, varint_varintBytes hlt]
  have hcount : (UInt64.ofNat bytes.length).toNat = bytes.length := by
    rw [UInt64.toNat_ofNat', Nat.mod_eq_of_lt hlt]
  simp only [Option.map_some, Option.bind_eq_bind, Option.bind_some, hcount,
    if_neg (Nat.not_le_of_lt hsmall)]
  rw [decoderSlice, if_pos (by simp), List.take_left, List.drop_left]

theorem subMessage {decodeInner : List UInt8 → Option α} {bytes : List UInt8} {message : α}
    (hsmall : bytes.length < intMax) (hdecode : decodeInner bytes = some message) :
    Reads (decoderSubMessageDecode decodeInner 2) (varintBytes bytes.length ++ bytes) message := by
  intro rest
  rw [decoderSubMessageDecode, Reads.bytes hsmall rest]
  simp only [Option.bind_eq_bind, Option.bind_some, hdecode]

theorem tag {wireType : Nat} (hnumber : 0 < number ∧ number < 2 ^ 29) (hwire : wireType < 8) :
    Reads decoderReadTag (varintBytes (number * 8 + wireType)) (number, wireType) := by
  intro rest
  have hlt : number * 8 + wireType < 2 ^ 32 := by omega
  have hvarint := varint_varintBytes (Nat.lt_trans hlt (by decide)) rest
  have hfield : (UInt64.ofNat (number * 8 + wireType)).toUInt32.toNat = number * 8 + wireType := by
    rw [UInt64.toNat_toUInt32, UInt64.toNat_ofNat']
    omega
  have hshift :
      ((UInt64.ofNat (number * 8 + wireType)).toUInt32 >>> 3 : UInt32).toNat = number := by
    rw [UInt32.toNat_shiftRight, hfield, Nat.shiftRight_eq_div_pow]
    change (number * 8 + wireType) / 2 ^ 3 = number
    omega
  have hmask :
      ((UInt64.ofNat (number * 8 + wireType)).toUInt32 &&& 7 : UInt32).toNat = wireType := by
    rw [UInt32.toNat_and, hfield]
    change (number * 8 + wireType) &&& 2 ^ 3 - 1 = wireType
    rw [Nat.and_two_pow_sub_one_eq_mod]
    omega
  rw [decoderReadTag, decoderReadVarint_eq, hvarint]
  simp only [Option.map_some, Option.bind_eq_bind, Option.bind_some, hshift, hmask,
    if_neg (Nat.ne_of_gt hnumber.1)]

end Reads

/-! ### Fields -/

section Fields

variable {field : Nat → Nat → σ → List UInt8 → Option (σ × List UInt8)} {state : σ}

/-- A field whose content is read is taken by the loop of the decoder. -/
theorem takes_field {wireType : Nat} {read : List UInt8 → Option (α × List UInt8)} {put : α → σ}
    {bytes : List UInt8} {value : α} (hnumber : 0 < number ∧ number < 2 ^ 29) (hwire : wireType < 8)
    (hfield : ∀ bytes, field number wireType state bytes = store (read bytes) put)
    (hread : Reads read bytes value) :
    Scan.Takes (fieldStep field) (varintBytes (number * 8 + wireType) ++ bytes) state
      (put value) := by
  intro rest
  rw [fieldStep, List.append_assoc, Reads.tag hnumber hwire]
  simp only [Option.bind_eq_bind, Option.bind_some, hfield]
  exact hread.store put rest

theorem leads_varintField {read : List UInt8 → Option (α × List UInt8)} (put : α → σ)
    {number value : Nat} {taken : α} (hnumber : 0 < number ∧ number < 2 ^ 29)
    (hfield : ∀ bytes, field number 0 state bytes = store (read bytes) put)
    (hread : Reads read (varintBytes value) taken) (rest : List UInt8) :
    Scan.Leads (fieldStep field) (varintField number value) rest state (put taken) :=
  (takes_field hnumber (by decide) hfield hread).leads (varintField_ne_nil _ _) rest

theorem leads_bytesField {read : List UInt8 → Option (α × List UInt8)} (put : α → σ)
    {bytes : List UInt8} {taken : α} (hnumber : 0 < number ∧ number < 2 ^ 29)
    (hfield : ∀ bytes, field number 2 state bytes = store (read bytes) put)
    (hread : Reads read (varintBytes bytes.length ++ bytes) taken) (rest : List UInt8) :
    Scan.Leads (fieldStep field) (bytesField number bytes) rest state (put taken) :=
  (takes_field hnumber (by decide) hfield hread).leads (bytesField_ne_nil _ _) rest

/-- A number that may have been left out. -/
theorem leads_varintUnlessZero {read : List UInt8 → Option (α × List UInt8)} (put : α → σ)
    {number value : Nat} {taken : α} (hnumber : 0 < number ∧ number < 2 ^ 29)
    (hfield : ∀ bytes, field number 0 state bytes = store (read bytes) put)
    (hread : Reads read (varintBytes value) taken) (hzero : value = 0 → put taken = state)
    (rest : List UInt8) :
    Scan.Leads (fieldStep field) (varintUnlessZero number value) rest state (put taken) := by
  rw [varintUnlessZero]
  split
  · rw [hzero ‹_›]
    exact .nil _ _
  · exact leads_varintField put hnumber hfield hread rest

theorem leads_uint64 (put : UInt64 → σ) (hnumber : 0 < number ∧ number < 2 ^ 29)
    (hfield : ∀ bytes, field number 0 state bytes = store (decoderReadUint64 0 bytes) put)
    (hzero : put 0 = state) (value : UInt64) (rest : List UInt8) :
    Scan.Leads (fieldStep field) (varintUnlessZero number value.toNat) rest state (put value) := by
  refine leads_varintUnlessZero put hnumber hfield (Reads.uint64 value) (fun h => ?_) rest
  have hvalue : value = 0 := UInt64.toNat_inj.1 h
  rw [hvalue, hzero]

theorem leads_uint32 (put : UInt32 → σ) (hnumber : 0 < number ∧ number < 2 ^ 29)
    (hfield : ∀ bytes, field number 0 state bytes = store (decoderReadUint32 0 bytes) put)
    (hzero : put 0 = state) (value : UInt32) (rest : List UInt8) :
    Scan.Leads (fieldStep field) (varintUnlessZero number value.toNat) rest state (put value) := by
  refine leads_varintUnlessZero put hnumber hfield (Reads.uint32 value) (fun h => ?_) rest
  have hvalue : value = 0 := UInt32.toNat_inj.1 h
  rw [hvalue, hzero]

theorem leads_bool (put : Bool → σ) (hnumber : 0 < number ∧ number < 2 ^ 29)
    (hfield : ∀ bytes, field number 0 state bytes = store (decoderReadBool 0 bytes) put)
    (hzero : put false = state) (value : Bool) (rest : List UInt8) :
    Scan.Leads (fieldStep field) (varintUnlessZero number value.toNat) rest state (put value) := by
  refine leads_varintUnlessZero put hnumber hfield (Reads.bool value) (fun h => ?_) rest
  have hvalue : value = false := by simpa using h
  rw [hvalue, hzero]

theorem leads_int64 (put : Int64 → σ) (hnumber : 0 < number ∧ number < 2 ^ 29)
    (hfield : ∀ bytes, field number 0 state bytes = store (decoderReadInt64 0 bytes) put)
    (hzero : put 0 = state) (value : Int64) (rest : List UInt8) :
    Scan.Leads (fieldStep field) (Proto.int64Field number value) rest state (put value) := by
  refine leads_varintUnlessZero put hnumber hfield (Reads.int64 value) (fun h => ?_) rest
  have hword : value.toUInt64 = 0 := UInt64.toNat_inj.1 h
  have hvalue : value = 0 := by
    rw [← Int64.toInt64_toUInt64 value, hword]
    rfl
  rw [hvalue, hzero]

theorem eq_zero_of_extended {value : Int32}
    (hzero : value.toInt64.toUInt64.toNat = 0) : value = 0 := by
  have hword : value.toInt64.toUInt64 = 0 := UInt64.toNat_inj.1 hzero
  have hlow := Reads.toUInt32_extended value
  rw [hword] at hlow
  rw [← Int32.toInt32_toUInt32 value, ← hlow]
  rfl

theorem leads_int32 (put : Int32 → σ) (hnumber : 0 < number ∧ number < 2 ^ 29)
    (hfield : ∀ bytes, field number 0 state bytes = store (decoderReadInt32 0 bytes) put)
    (hzero : put 0 = state) (value : Int32) (rest : List UInt8) :
    Scan.Leads (fieldStep field) (Proto.int32Field number value) rest state (put value) := by
  refine leads_varintUnlessZero put hnumber hfield (Reads.int32 value) (fun h => ?_) rest
  rw [eq_zero_of_extended h, hzero]

theorem leads_enum {ofCode : Nat → α} (put : α → σ) (hnumber : 0 < number ∧ number < 2 ^ 29)
    (hfield : ∀ bytes, field number 0 state bytes = store (decoderReadEnum ofCode 0 bytes) put)
    (hzero : put (ofCode 0) = state) {code : Nat} {type : α} (htype : ofCode code = type)
    (hcode : code < 2 ^ 32) (rest : List UInt8) :
    Scan.Leads (fieldStep field) (Proto.enumField number code) rest state (put type) := by
  rw [← htype]
  refine leads_varintUnlessZero put hnumber hfield (Reads.enum hcode) (fun h => ?_) rest
  have hword := congrArg Int32.toUInt32 (eq_zero_of_extended h)
  rw [UInt32.toUInt32_toInt32, ← UInt32.toNat_inj, UInt32.toNat_ofNat', Nat.mod_eq_of_lt hcode]
    at hword
  rw [hword]
  exact hzero

theorem leads_bytes (put : List UInt8 → σ) (hnumber : 0 < number ∧ number < 2 ^ 29)
    (hfield : ∀ bytes, field number 2 state bytes = store (decoderReadBytes 2 bytes) put)
    (hempty : put [] = state) {bytes : List UInt8}
    (hsmall : (bytesUnlessEmpty number bytes).length < intMax) (rest : List UInt8) :
    Scan.Leads (fieldStep field) (bytesUnlessEmpty number bytes) rest state (put bytes) := by
  have hlt := Nat.lt_of_le_of_lt (length_le_bytesUnlessEmpty number bytes) hsmall
  rw [bytesUnlessEmpty]
  split
  · rw [‹bytes = []›, hempty]
    exact .nil _ _
  · exact leads_bytesField put hnumber hfield (Reads.bytes hlt) rest

/-- A message that may be absent. -/
theorem leads_message {write : α → List UInt8} {decodeInner : List UInt8 → Option α}
    (put : Option α → σ) (hnumber : 0 < number ∧ number < 2 ^ 29)
    (hfield : ∀ bytes, field number 2 state bytes =
      store (decoderSubMessageDecode decodeInner 2 bytes) fun inner => put (some inner))
    (hnone : put none = state) {message : Option α}
    (hsmall : (messageField number write message).length < intMax)
    (hdecode : ∀ inner ∈ message, (write inner).length < intMax →
      decodeInner (write inner) = some inner) (rest : List UInt8) :
    Scan.Leads (fieldStep field) (messageField number write message) rest state (put message) := by
  cases message with
  | none =>
      rw [hnone]
      exact .nil _ _
  | some inner =>
      have hlt := Nat.lt_of_le_of_lt (length_le_bytesField number (write inner)) hsmall
      exact leads_bytesField (fun inner => put (some inner)) hnumber hfield
        (Reads.subMessage hlt (hdecode inner rfl hlt)) rest

/-! ### Repeated messages -/

/-- What has been counted when all the items have been stepped over. -/
def countedOf (number : Nat) (write : α → List UInt8) (rest : List UInt8) : List α → RepeatedInfo
  | [] => .init
  | item :: items =>
      ⟨items.length + 1,
        (varintBytes (write item).length ++ write item) ++
          (messageFields number write items ++ rest)⟩

theorem store_id (read : Option (σ × List UInt8)) : store read id = read := by
  cases read with
  | none => rfl
  | some taken => rfl

theorem store_store {β : Type} (read : Option (α × List UInt8)) (first : α → β) (second : β → σ) :
    store (store read first) second = store read fun value => second (first value) := by
  rw [store, store, Option.map_map]
  rfl

/-- An item adds one to those that have been counted, and the first one stays where it is. -/
theorem takes_counted {slice : List UInt8} {count : Nat} (put : RepeatedInfo → σ)
    {bytes : List UInt8} (hnumber : 0 < number ∧ number < 2 ^ 29)
    (hfield : ∀ info bytes,
      field number 2 (put info) bytes = store (repeatedInfoDecode info 2 bytes) put)
    (hsmall : bytes.length < intMax) (rest : List UInt8) :
    Scan.Leads (fieldStep field) (bytesField number bytes) rest (put ⟨count + 1, slice⟩)
      (put ⟨count + 2, slice⟩) := by
  have hcounted : ∀ bytes, field number 2 (put ⟨count + 1, slice⟩) bytes =
      store (decoderReadBytes 2 bytes) fun _ => put ⟨count + 2, slice⟩ := by
    intro bytes
    rw [hfield, repeatedInfoDecode, store, store, store, Option.map_map]
    rfl
  exact leads_bytesField (fun _ => put ⟨count + 2, slice⟩) hnumber hcounted (Reads.bytes hsmall)
    rest

theorem leads_repeated {write : α → List UInt8} (put : RepeatedInfo → σ)
    (hnumber : 0 < number ∧ number < 2 ^ 29)
    (hfield : ∀ info bytes,
      field number 2 (put info) bytes = store (repeatedInfoDecode info 2 bytes) put)
    {items : List α} (hsmall : ∀ item ∈ items, (write item).length < intMax) (rest : List UInt8) :
    Scan.Leads (fieldStep field) (messageFields number write items) rest (put .init)
      (put (countedOf number write rest items)) := by
  cases items with
  | nil => exact .nil _ _
  | cons item items =>
      obtain ⟨hitem, hothers⟩ := List.forall_mem_cons.1 hsmall
      let slice :=
        (varintBytes (write item).length ++ write item) ++
          (messageFields number write items ++ rest)
      have hfirst : Scan.Leads (fieldStep field) (bytesField number (write item))
          (messageFields number write items ++ rest) (put .init) (put ⟨1, slice⟩) := by
        apply Scan.leads_of_step (bytesField_ne_nil _ _)
        have hread := Reads.bytes hitem (messageFields number write items ++ rest)
        rw [fieldStep, bytesField, List.append_assoc, Reads.tag hnumber (by decide)]
        simp only [Option.bind_eq_bind, Option.bind_some, hfield]
        change store (store (decoderReadBytes 2 slice) fun _ => ⟨1, slice⟩) put = _
        rw [hread]
        rfl
      let reached : List α → σ := fun before => put ⟨before.length + 1, slice⟩
      have hreached : Scan.Leads (fieldStep field) (messageFields number write items) rest
          (reached []) (reached ([] ++ items)) := by
        apply Scan.Leads.flatMap
        intro before other hother rest
        have hcount : reached (before ++ [other]) = put ⟨before.length + 2, slice⟩ := by
          simp only [reached, List.length_append]; rfl
        rw [hcount]
        exact takes_counted put hnumber hfield (hothers other hother) rest
      exact hfirst.append hreached

/-- The items that have been counted are read one after the other. -/
theorem decodeRepeatedFrom_write {write : α → List UInt8} {decodeInner : List UInt8 → Option α}
    (init : α) (hnumber : 0 < number ∧ number < 2 ^ 29) {items : List α}
    (hsmall : ∀ item ∈ items, (write item).length < intMax)
    (hdecode : ∀ item ∈ items, decodeInner (write item) = some item) (rest : List UInt8)
    {fuel : Nat} (hfuel : (messageFields number write items).length ≤ fuel) :
    decodeRepeatedFrom number init decodeInner fuel items.length
        (messageFields number write items ++ rest) = some items := by
  induction items generalizing fuel with
  | nil => simp only [List.length_nil, decodeRepeatedFrom]
  | cons item items ih =>
      obtain ⟨hitem, hothers⟩ := List.forall_mem_cons.1 hsmall
      obtain ⟨hread, hreads⟩ := List.forall_mem_cons.1 hdecode
      have hfields : messageFields number write (item :: items) =
          bytesField number (write item) ++ messageFields number write items := rfl
      have hne := List.length_pos_iff.2 (bytesField_ne_nil number (write item))
      rw [hfields, List.length_append] at hfuel
      obtain ⟨fuel, rfl⟩ :=
        Nat.exists_eq_add_of_lt (Nat.lt_of_lt_of_le hne (Nat.le_trans (Nat.le_add_right _ _) hfuel))
      have hleft : (messageFields number write items).length ≤ fuel := by omega
      obtain ⟨byte, bytes, hcons⟩ :=
        List.exists_cons_of_ne_nil (bytesField_ne_nil number (write item))
      rw [Nat.zero_add, hfields, List.append_assoc, List.length_cons, hcons, List.cons_append,
        decodeRepeatedFrom, ← List.cons_append, ← hcons, bytesField, List.append_assoc,
        Reads.tag hnumber (by decide)]
      simp only [Option.bind_eq_bind, Option.bind_some, if_true,
        Reads.subMessage hitem hread (messageFields number write items ++ rest),
        ih hothers hreads hleft]

theorem decodeRepeatedInner_write {write : α → List UInt8} {decodeInner : List UInt8 → Option α}
    (init : α) (hnumber : 0 < number ∧ number < 2 ^ 29) {items : List α}
    (hsmall : ∀ item ∈ items, (write item).length < intMax)
    (hdecode : ∀ item ∈ items, decodeInner (write item) = some item) (rest : List UInt8) :
    decodeRepeatedInner number init decodeInner (countedOf number write rest items) =
      some items := by
  cases items with
  | nil => rfl
  | cons item items =>
      obtain ⟨hitem, hothers⟩ := List.forall_mem_cons.1 hsmall
      obtain ⟨hread, hreads⟩ := List.forall_mem_cons.1 hdecode
      have hfuel : (messageFields number write items).length ≤
          (messageFields number write items ++ rest).length := by
        rw [List.length_append]
        exact Nat.le_add_right _ _
      rw [decodeRepeatedInner, countedOf]
      simp only [Reads.subMessage hitem hread (messageFields number write items ++ rest),
        Option.bind_eq_bind, Option.bind_some,
        decodeRepeatedFrom_write init hnumber hothers hreads rest hfuel]

end Fields

end PbTools

end GradidoBlockchain
