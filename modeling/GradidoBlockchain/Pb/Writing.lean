import GradidoBlockchain.Lib.WireBytes
import GradidoBlockchain.Pb.Encoder

/-!
# What a writer puts before what is there

A writer of pbtools puts certain bytes before those that have been written, if there is room
for them; otherwise it aborts the encoder. What several writers put there one after the other
is put there as a whole.
-/

namespace GradidoBlockchain

open WireFormat

namespace PbTools

namespace Encoder

/-- There was no room for something. -/
def Aborted (encoder : Encoder) : Prop :=
  encoder.size = -encodeBufferFull ∧ encoder.pos = -encodeBufferFull

/-- What has been written reaches from `pos` to the end of the buffer. -/
structure Ready (encoder : Encoder) : Prop where
  room : 0 ≤ encoder.pos
  filled : encoder.size = encoder.pos + 1 + encoder.written.length
  small : encoder.size ≤ intMax

/-- The bytes before those that are there. -/
def put (bytes : List UInt8) (encoder : Encoder) : Encoder :=
  { encoder with pos := encoder.pos - bytes.length, written := bytes ++ encoder.written }

end Encoder

/-- What an encoder may be after so many bytes. -/
inductive Puts (bytes : List UInt8) : Encoder → Encoder → Prop
  | kept {encoder : Encoder} (habort : encoder.Aborted) : Puts bytes encoder encoder
  | fits {encoder : Encoder} (hready : encoder.Ready) (hroom : bytes.length ≤ encoder.pos) :
      Puts bytes encoder (encoder.put bytes)
  | full {encoder after : Encoder} (hready : encoder.Ready) (hroom : encoder.pos < bytes.length)
      (habort : after.Aborted) :
      Puts bytes encoder after

/-- The writer has an outcome just when `sound` holds, and then it puts `bytes`
before what is there. -/
structure Writes (write : Writer) (sound : Prop) (bytes : List UInt8) : Prop where
  faults : ¬sound → ∀ encoder, write encoder = none
  puts : sound →
    ∀ encoder : Encoder, encoder.Aborted ∨ encoder.Ready →
      ∃ after, write encoder = some after ∧ Puts bytes encoder after

/-! ### Encoders -/

namespace Encoder

variable {encoder : Encoder} {bytes others : List UInt8}

theorem Aborted.not_ready (habort : encoder.Aborted) : ¬encoder.Ready := by
  intro hready
  have hpos := habort.2
  have hroom := hready.room
  rw [encodeBufferFull] at hpos
  omega

theorem Ready.put (hready : encoder.Ready) (hroom : bytes.length ≤ encoder.pos) :
    (encoder.put bytes).Ready where
  room := by
    change 0 ≤ encoder.pos - bytes.length
    omega
  filled := by
    have hfilled := hready.filled
    change encoder.size = encoder.pos - bytes.length + 1 + (bytes ++ encoder.written).length
    rw [List.length_append]
    omega
  small := hready.small

theorem put_put : (encoder.put bytes).put others = encoder.put (others ++ bytes) := by
  have hpos : encoder.pos - bytes.length - others.length =
      encoder.pos - (others ++ bytes).length := by
    rw [List.length_append]
    omega
  simp only [Encoder.put, hpos, List.append_assoc]

theorem put_nil : encoder.put [] = encoder := by
  rw [Encoder.put, List.length_nil, List.nil_append, Int.ofNat_zero, Int.sub_zero]

end Encoder

namespace Puts

variable {encoder between after : Encoder} {bytes others : List UInt8}

/-- An encoder that can be written to still can, or it is aborted. -/
theorem sound (hputs : Puts bytes encoder after) : after.Aborted ∨ after.Ready := by
  cases hputs with
  | kept habort => exact .inl habort
  | fits hready hroom => exact .inr (hready.put hroom)
  | full _ _ habort => exact .inl habort

theorem aborted (hputs : Puts bytes encoder after)
    (habort : encoder.Aborted) : after = encoder := by
  cases hputs with
  | kept _ => rfl
  | fits hready _ => exact absurd hready habort.not_ready
  | full hready _ _ => exact absurd hready habort.not_ready

theorem trans (hfirst : Puts bytes encoder between) (hsecond : Puts others between after) :
    Puts (others ++ bytes) encoder after := by
  cases hfirst with
  | kept habort =>
      rw [hsecond.aborted habort]
      exact .kept habort
  | full hready hroom habort =>
      rw [hsecond.aborted habort]
      refine .full hready ?_ habort
      rw [List.length_append]
      omega
  | fits hready hroom =>
      cases hsecond with
      | kept habort => exact absurd (hready.put hroom) habort.not_ready
      | fits _ hmore =>
          change others.length ≤ encoder.pos - bytes.length at hmore
          rw [Encoder.put_put]
          refine .fits hready ?_
          rw [List.length_append]
          omega
      | full _ hmore habort =>
          change encoder.pos - bytes.length < others.length at hmore
          refine .full hready ?_ habort
          rw [List.length_append]
          omega

/-- How far the position has moved, where the encoder is not aborted. -/
theorem moved (hputs : Puts bytes encoder after) :
    after.Aborted ∨ encoder.pos - after.pos = bytes.length ∧ bytes.length ≤ intMax := by
  cases hputs with
  | kept habort => exact .inl habort
  | full _ _ habort => exact .inl habort
  | fits hready hroom =>
      right
      have hfilled := hready.filled
      have hsmall := hready.small
      change encoder.pos - (encoder.pos - bytes.length) = bytes.length ∧ _
      omega

end Puts

/-! ### Writers -/

namespace Writes

variable {writer first second : Writer} {sound other : Prop} {bytes others : List UInt8}

theorem congr {changed : Prop} (hwrite : Writes writer sound bytes) (hsound : sound ↔ changed) :
    Writes writer changed bytes := by
  rwa [← hsound]

/-- What is put there matters only where the writer has an outcome. -/
theorem spelled (hwrite : Writes writer sound bytes) (hspelled : sound → bytes = others) :
    Writes writer sound others where
  faults := hwrite.faults
  puts hsound := by
    rw [← hspelled hsound]
    exact hwrite.puts hsound

theorem skip : Writes pure True [] where
  faults h := absurd trivial h
  puts := by
    intro _ encoder hsound
    refine ⟨encoder, rfl, ?_⟩
    rcases hsound with habort | hready
    · exact .kept habort
    · have hroom : (([] : List UInt8).length : Int) ≤ encoder.pos := hready.room
      have hputs := Puts.fits hready hroom
      rwa [Encoder.put_nil] at hputs

theorem andThen (hfirst : Writes first sound bytes) (hsecond : Writes second other others) :
    Writes (first >=> second) (sound ∧ other) (others ++ bytes) where
  faults := by
    intro hnot encoder
    change (first encoder).bind second = none
    by_cases hsound : sound
    · cases hrun : first encoder with
      | none => rfl
      | some between => exact hsecond.faults (fun hother => hnot ⟨hsound, hother⟩) between
    · rw [hfirst.faults hsound]
      rfl
  puts := by
    intro ⟨hsound, hother⟩ encoder hencoder
    obtain ⟨between, hrun, hputs⟩ := hfirst.puts hsound encoder hencoder
    obtain ⟨after, hrest, hmore⟩ := hsecond.puts hother between hputs.sound
    refine ⟨after, ?_, hputs.trans hmore⟩
    change (first encoder).bind second = some after
    rw [hrun]
    exact hrest

theorem write (bytes : List UInt8) : Writes (encoderWrite bytes) (bytes.length ≤ intMax) bytes where
  faults := by
    intro hlarge encoder
    rw [encoderWrite, if_pos (Nat.lt_of_not_le hlarge)]
  puts := by
    intro hsmall encoder hencoder
    rw [encoderWrite, if_neg (Nat.not_lt_of_le hsmall)]
    rcases hencoder with habort | hready
    · have hpos := habort.2
      have hsize := habort.1
      rw [encodeBufferFull] at hpos hsize
      rw [if_neg (by omega), encoderAbort, if_neg (by omega)]
      exact ⟨encoder, rfl, .kept habort⟩
    · by_cases hroom : bytes.length ≤ encoder.pos
      · rw [if_pos hroom]
        exact ⟨_, rfl, .fits hready hroom⟩
      · have hroom' := hready.room
        have hfilled := hready.filled
        rw [if_neg hroom, encoderAbort, if_pos (by omega)]
        exact ⟨_, rfl, .full hready (by omega) ⟨rfl, rfl⟩⟩

/-- Few bytes are always written. -/
theorem short (bytes : List UInt8) (hshort : bytes.length ≤ 10) :
    Writes (encoderWrite bytes) True bytes :=
  (write bytes).congr (iff_of_true (Nat.le_trans hshort (by decide)) trivial)

end Writes

/-! ### Varints and tags -/

theorem shifted_toNat (value : UInt64) : (value >>> 7).toNat = value.toNat / 128 := by
  rw [UInt64.toNat_shiftRight, Nat.shiftRight_eq_div_pow]
  rfl

/-- A turn of the loop, in numbers. -/
theorem varintLoop_succ (turns : Nat) (value : UInt64) :
    varintLoop (turns + 1) value =
      if value.toNat < 128 then [UInt8.ofNat value.toNat]
        else UInt8.ofNat (value.toNat % 128 + 128) :: varintLoop turns (value >>> 7) := by
  have hor : ∀ n < 256, n ||| 128 = n % 128 + 128 := by decide +kernel
  have hand : ∀ n < 256, n &&& 127 = n % 128 := by decide +kernel
  have hbyte : (value.toUInt8 ||| 0x80).toNat = value.toNat % 128 + 128 := by
    rw [UInt8.toNat_or, UInt64.toNat_toUInt8]
    exact (hor _ (Nat.mod_lt _ (by decide))).trans (by omega)
  have hmore : (0 : UInt64) < value >>> 7 ↔ ¬value.toNat < 128 := by
    rw [UInt64.lt_iff_toNat_lt, shifted_toNat]
    change 0 < _ ↔ _
    omega
  rw [varintLoop]
  simp only [hmore, ite_not]
  split
  · congr 1
    rw [← UInt8.toNat_inj, UInt8.toNat_and, hbyte, UInt8.toNat_ofNat']
    exact (hand _ (by omega)).trans (by omega)
  · congr 1
    rw [← UInt8.toNat_inj, hbyte, UInt8.toNat_ofNat']
    omega

/-- The loop writes a varint as long as it has a byte for each seven bits. -/
theorem varintLoop_eq (turns : Nat) {value : UInt64} (hvalue : value.toNat < 128 ^ (turns + 1)) :
    varintLoop (turns + 1) value = varintBytesOf turns value.toNat := by
  induction turns generalizing value with
  | zero =>
      have hlt : value.toNat < 128 := by simpa using hvalue
      rw [varintLoop_succ, if_pos hlt, varintBytesOf]
  | succ turns ih =>
      have hsmaller : (value >>> 7 : UInt64).toNat < 128 ^ (turns + 1) := by
        rw [shifted_toNat]
        exact Nat.div_lt_of_lt_mul (by rwa [Nat.pow_succ'] at hvalue)
      rw [varintLoop_succ, ih hsmaller, shifted_toNat, varintBytesOf]

namespace Writes

variable {writer : Writer} {sound : Prop} {bytes : List UInt8}

theorem varint (value : UInt64) :
    Writes (encoderWriteVarint value) True (varintBytes value.toNat) := by
  have hvalue : value.toNat < 128 ^ (9 + 1) := Nat.lt_trans value.toNat_lt (by decide)
  rw [encoderWriteVarint, varintLoop_eq 9 hvalue]
  exact short _ (varintBytes_length_le _)

theorem tag {number wireType : Nat} (hnumber : number < 2 ^ 29) (hwire : wireType < 8) :
    Writes (encoderWriteTag number wireType) True (varintBytes (number * 8 + wireType)) := by
  have htag : ((UInt32.ofNat number <<< 3).toUInt64 ||| (UInt32.ofNat wireType).toUInt64).toNat =
      number * 8 + wireType := by
    have hshift : (UInt32.ofNat number <<< 3 : UInt32).toNat = 2 ^ 3 * number := by
      rw [UInt32.toNat_shiftLeft, UInt32.toNat_ofNat', Nat.shiftLeft_eq]
      change number % 2 ^ 32 * 2 ^ 3 % 2 ^ 32 = _
      omega
    rw [UInt64.toNat_or, UInt32.toNat_toUInt64, UInt32.toNat_toUInt64, hshift, UInt32.toNat_ofNat',
      Nat.mod_eq_of_lt (by omega), ← Nat.two_pow_add_eq_or_of_lt hwire]
    omega
  rw [encoderWriteTag, ← htag]
  exact varint _

theorem taggedVarintAlways {number wireType : Nat} (hnumber : number < 2 ^ 29)
    (hwire : wireType < 8) (value : UInt64) :
    Writes (encoderWriteTaggedVarintAlways number wireType value) True
      (varintBytes (number * 8 + wireType) ++ varintBytes value.toNat) :=
  ((varint value).andThen (tag hnumber hwire)).congr and_self_iff

theorem taggedVarint {number wireType : Nat} (hnumber : number < 2 ^ 29) (hwire : wireType < 8)
    (value : UInt64) :
    Writes (encoderWriteTaggedVarint number wireType value) True
      (if value.toNat = 0 then []
        else varintBytes (number * 8 + wireType) ++ varintBytes value.toNat) := by
  have hzero : 0 < value ↔ ¬value.toNat = 0 := by
    rw [UInt64.lt_iff_toNat_lt]
    exact Nat.pos_iff_ne_zero
  rw [encoderWriteTaggedVarint]
  simp only [hzero, ite_not]
  split
  · exact skip
  · exact taggedVarintAlways hnumber hwire value

theorem varintFieldAlways {number : Nat} (hnumber : number < 2 ^ 29) (value : UInt64) :
    Writes (encoderWriteTaggedVarintAlways number 0 value) True (varintField number value.toNat) :=
  taggedVarintAlways hnumber (by decide) value

theorem varintField {number : Nat} (hnumber : number < 2 ^ 29) (value : UInt64) :
    Writes (encoderWriteTaggedVarint number 0 value) True (varintUnlessZero number value.toNat) :=
  taggedVarint hnumber (by decide) value

theorem uint32Field {number : Nat} (hnumber : number < 2 ^ 29) (value : UInt32) :
    Writes (encoderWriteUint32 number value) True (varintUnlessZero number value.toNat) := by
  have hwrite := varintField hnumber value.toUInt64
  rwa [UInt32.toNat_toUInt64] at hwrite

theorem boolField {number : Nat} (hnumber : number < 2 ^ 29) (value : Bool) :
    Writes (encoderWriteBool number value) True (varintUnlessZero number value.toNat) := by
  cases value with
  | false => exact skip
  | true => exact varintField hnumber 1

/-- A length and the tag before it. -/
theorem lengthDelimited {number : Nat} (hnumber : number < 2 ^ 29) (value : UInt64) :
    Writes (encoderWriteLengthDelimited number value) True
      (varintBytes (number * 8 + 2) ++ varintBytes value.toNat) :=
  taggedVarintAlways hnumber (by decide) value

theorem bytesFieldAlways {number : Nat} (hnumber : number < 2 ^ 29) (bytes : List UInt8) :
    Writes (encoderWriteBytesAlways number bytes) (bytes.length ≤ intMax)
      (bytesField number bytes) := by
  have hwrite := (write bytes).andThen (lengthDelimited hnumber (UInt64.ofNat bytes.length))
  refine (hwrite.congr (and_iff_left trivial)).spelled fun hsmall => ?_
  have hcount : bytes.length < 2 ^ 64 := Nat.lt_of_le_of_lt hsmall (by decide)
  rw [UInt64.toNat_ofNat', Nat.mod_eq_of_lt hcount, List.append_assoc]
  rfl

theorem bytesField {number : Nat} (hnumber : number < 2 ^ 29) (bytes : List UInt8) :
    Writes (encoderWriteBytes number bytes) (bytes.length ≤ intMax)
      (bytesUnlessEmpty number bytes) := by
  rw [encoderWriteBytes, bytesUnlessEmpty]
  by_cases hempty : bytes = []
  · rw [if_pos hempty, hempty]
    exact skip.congr (iff_of_true trivial (Nat.zero_le _))
  · have hpos : 0 < bytes.length := List.length_pos_iff.2 hempty
    rw [if_neg hempty, if_pos hpos]
    have htag : 2 < 8 := by decide
    have hwrite := (write bytes).andThen (taggedVarint hnumber htag (UInt64.ofNat bytes.length))
    refine (hwrite.congr (and_iff_left trivial)).spelled fun hsmall => ?_
    have hcount : bytes.length < 2 ^ 64 := Nat.lt_of_le_of_lt hsmall (by decide)
    rw [UInt64.toNat_ofNat', Nat.mod_eq_of_lt hcount, if_neg (Nat.ne_of_gt hpos), List.append_assoc]
    rfl

/-! ### Messages in messages -/

/-- A message and its length, put before what is there as the bytes of a field. -/
theorem measured {number : Nat} (hnumber : number < 2 ^ 29) (hwrite : Writes writer sound bytes) :
    Writes (PbTools.measured number writer) sound (WireFormat.bytesField number bytes) where
  faults := by
    intro hnot encoder
    rw [PbTools.measured, hwrite.faults hnot]
    rfl
  puts := by
    intro hsound encoder hencoder
    obtain ⟨inner, hrun, hputs⟩ := hwrite.puts hsound encoder hencoder
    have hlength := lengthDelimited hnumber (UInt64.ofInt (encoder.pos - inner.pos))
    obtain ⟨after, hrest, hmore⟩ := hlength.puts trivial inner hputs.sound
    refine ⟨after, ?_, ?_⟩
    · rw [PbTools.measured, hrun]
      exact hrest
    · rcases hputs.moved with habort | ⟨hmoved, hsmall⟩
      · rw [hmore.aborted habort]
        have hwhole :
            Puts ((varintBytes (number * 8 + 2) ++ varintBytes bytes.length) ++ bytes) encoder
              inner := hputs.trans (.kept habort)
        rwa [List.append_assoc] at hwhole
      · have hlt : bytes.length < 2 ^ 31 := Nat.lt_of_le_of_lt hsmall (by decide)
        have hcount : (UInt64.ofInt (encoder.pos - inner.pos)).toNat = bytes.length := by
          rw [hmoved, UInt64.ofInt, UInt64.toNat_ofNat']
          omega
        rw [hcount] at hmore
        have hwhole := hputs.trans hmore
        rwa [List.append_assoc] at hwhole

theorem subMessage {α : Type} {encodeInner : α → Writer} {sound : α → Prop} {bytes : α → List UInt8}
    (hwrite : ∀ message, Writes (encodeInner message) (sound message) (bytes message))
    {number : Nat} (hnumber : number < 2 ^ 29) (message : Option α) :
    Writes (encoderSubMessageEncode encodeInner number message) (∀ inner ∈ message, sound inner)
      (messageField number bytes message) := by
  cases message with
  | none => exact skip.congr (by simp)
  | some inner => exact ((hwrite inner).measured hnumber).congr (by simp)

theorem subMessageAlways {α : Type} {encodeInner : α → Writer} {sound : α → Prop}
    {bytes : α → List UInt8}
    (hwrite : ∀ message, Writes (encodeInner message) (sound message) (bytes message))
    {number : Nat} (hnumber : number < 2 ^ 29) (message : Option α) :
    Writes (encoderSubMessageEncodeAlways encodeInner number message)
      (∃ inner ∈ message, sound inner) (messageField number bytes message) := by
  cases message with
  | none => exact ⟨fun _ _ => rfl, fun h => by simp at h⟩
  | some inner => exact ((hwrite inner).measured hnumber).congr (by simp)

theorem repeated {α : Type} {encodeInner : α → Writer} {sound : α → Prop} {bytes : α → List UInt8}
    (hwrite : ∀ message, Writes (encodeInner message) (sound message) (bytes message))
    {number : Nat} (hnumber : number < 2 ^ 29) (items : List α) :
    Writes (encodeRepeatedInner encodeInner number items) (∀ item ∈ items, sound item)
      (messageFields number bytes items) := by
  induction items with
  | nil => exact skip.congr (by simp)
  | cons item items ih =>
      refine (ih.andThen ((hwrite item).measured hnumber)).congr ?_
      rw [List.forall_mem_cons, and_comm]

end Writes

/-! ### Whole messages -/

/-- A size that is an `int` is taken for itself. -/
theorem encoderInit_eq {size : Nat} (hsmall : size ≤ intMax) :
    encoderInit size = ⟨size, size - 1, []⟩ := by
  have hlt : size < 2 ^ 31 := Nat.lt_of_le_of_lt hsmall (by decide)
  rw [encoderInit, Int32.toInt_ofNat_of_lt hlt]

theorem encoderInit_ready {size : Nat} (hpos : 0 < size) (hsmall : size ≤ intMax) :
    (encoderInit size).Ready := by
  rw [encoderInit_eq hsmall]
  constructor
  · change (0 : Int) ≤ size - 1
    omega
  · change (size : Int) = size - 1 + 1 + (0 : Nat)
    omega
  · exact Int.ofNat_le.2 hsmall

/-- A message is written to a buffer that has a byte more than it needs, and the buffer is full for
one that has not. -/
theorem Writes.encode {α : Type} {encodeInner : α → Writer} {message : α} {sound : Prop}
    {bytes : List UInt8} (hwrite : Writes (encodeInner message) sound bytes) {size : Nat}
    (hpos : 0 < size) (hsmall : size ≤ intMax) :
    (sound →
        messageEncode encodeInner message size =
          some (if bytes.length < size then .ok bytes else .error (-encodeBufferFull))) ∧
      (¬sound → messageEncode encodeInner message size = none) := by
  have hready := encoderInit_ready hpos hsmall
  constructor
  · intro hsound
    obtain ⟨after, hrun, hputs⟩ := hwrite.puts hsound _ (.inr hready)
    rw [messageEncode, hrun, Option.map_some]
    congr 1
    have hpos : (encoderInit size).pos = size - 1 := by rw [encoderInit_eq hsmall]
    cases hputs with
    | kept habort => exact absurd hready habort.not_ready
    | full _ hroom habort =>
        rw [encoderGetResult, habort.2, if_neg (by decide), if_neg (by omega)]
    | fits _ hroom =>
        have hput := hready.put hroom
        rw [encoderGetResult, if_pos hput.room, if_pos (by omega)]
        have hwhole : ((encoderInit size).put bytes).written = bytes := List.append_nil bytes
        have hfilled := hput.filled
        rw [hwhole] at hfilled
        rw [hwhole, List.take_of_length_le (by omega)]
  · intro hnot
    rw [messageEncode, hwrite.faults hnot]
    rfl

end PbTools

end GradidoBlockchain
