import GradidoBlockchain.Pb.Reader

/-!
# Writing messages with pbtools

The encoder of `pbtools.c` fills its buffer from the end towards the front, so that the length of a
sub-message is known when it is written before it. What has no room aborts the encoder, and nothing
is written to it any more.
-/

namespace GradidoBlockchain

namespace PbTools

/-! ### The encoder -/

/-- `pbtools_encoder_t`; `written` is what the buffer holds after `pos`. -/
structure Encoder where
  size : Int
  pos : Int
  written : List UInt8
  deriving DecidableEq

/-- A step of the encoding. There is no outcome when the code reads through a null pointer or copies
a length that no `int` holds. -/
abbrev Writer : Type := Encoder → Option Encoder

/-- `encoder_init`, which takes the size for an `int`. -/
def encoderInit (size : Nat) : Encoder where
  size := (Int32.ofNat size).toInt
  pos := (Int32.ofNat size).toInt - 1
  written := []

/-- `encoder_get_result`: what has been written, moved to the front of the buffer, or the error. -/
def encoderGetResult (encoder : Encoder) : Except Int (List UInt8) :=
  if 0 ≤ encoder.pos then .ok (encoder.written.take (encoder.size - encoder.pos - 1).toNat)
    else .error encoder.pos

/-- `encoder_abort`; only the first error counts. -/
def encoderAbort (error : Int) (encoder : Encoder) : Encoder :=
  if 0 ≤ encoder.size then { encoder with size := -error, pos := -error } else encoder

/-- `PBTOOLS_OUT_OF_MEMORY`. -/
def outOfMemory : Int := 3

/-- `PBTOOLS_ENCODE_BUFFER_FULL`. -/
def encodeBufferFull : Int := 4

/-- `encoder_write`. -/
def encoderWrite (bytes : List UInt8) : Writer := fun encoder =>
  if intMax < bytes.length then none
  else if bytes.length ≤ encoder.pos then
    some { encoder with pos := encoder.pos - bytes.length, written := bytes ++ encoder.written }
  else some (encoderAbort encodeBufferFull encoder)

/-- The loop of `encoder_write_varint`, for which its buffer has ten bytes. -/
def varintLoop : Nat → UInt64 → List UInt8
  | 0, _ => []
  | turns + 1, value =>
      let byte := value.toUInt8 ||| 0x80
      let value := value >>> 7
      if 0 < value then byte :: varintLoop turns value else [byte &&& 0x7f]

/-- `encoder_write_varint`. -/
def encoderWriteVarint (value : UInt64) : Writer := encoderWrite (varintLoop 10 value)

/-- `encoder_write_tag`. -/
def encoderWriteTag (number wireType : Nat) : Writer :=
  encoderWriteVarint ((UInt32.ofNat number <<< 3).toUInt64 ||| (UInt32.ofNat wireType).toUInt64)

/-- `encoder_write_tagged_varint_always`. -/
def encoderWriteTaggedVarintAlways (number wireType : Nat) (value : UInt64) : Writer :=
  encoderWriteVarint value >=> encoderWriteTag number wireType

/-- `encoder_write_tagged_varint`. -/
def encoderWriteTaggedVarint (number wireType : Nat) (value : UInt64) : Writer :=
  if 0 < value then encoderWriteTaggedVarintAlways number wireType value else pure

/-- `encoder_write_length_delimited`. -/
def encoderWriteLengthDelimited (number : Nat) (value : UInt64) : Writer :=
  encoderWriteVarint value >=> encoderWriteTag number 2

/-! ### Values -/

def encoderWriteUint64 (number : Nat) (value : UInt64) : Writer :=
  encoderWriteTaggedVarint number 0 value

def encoderWriteUint64Always (number : Nat) (value : UInt64) : Writer :=
  encoderWriteTaggedVarintAlways number 0 value

def encoderWriteInt64 (number : Nat) (value : Int64) : Writer :=
  encoderWriteTaggedVarint number 0 value.toUInt64

def encoderWriteInt64Always (number : Nat) (value : Int64) : Writer :=
  encoderWriteTaggedVarintAlways number 0 value.toUInt64

def encoderWriteUint32 (number : Nat) (value : UInt32) : Writer :=
  encoderWriteUint64 number value.toUInt64

/-- `pbtools_encoder_write_int32`, which extends the sign to 64 bits. -/
def encoderWriteInt32 (number : Nat) (value : Int32) : Writer :=
  encoderWriteTaggedVarint number 0 value.toInt64.toUInt64

def encoderWriteBool (number : Nat) (value : Bool) : Writer :=
  if value then encoderWriteInt32 number 1 else pure

/-- `pbtools_encoder_write_enum`, with the integer that the enumeration is stored in. -/
def encoderWriteEnum (number : Nat) (code : Nat) : Writer :=
  encoderWriteInt32 number (UInt32.ofNat code).toInt32

/-- `pbtools_encoder_write_bytes_always`. -/
def encoderWriteBytesAlways (number : Nat) (bytes : List UInt8) : Writer :=
  encoderWrite bytes >=> encoderWriteTaggedVarintAlways number 2 (UInt64.ofNat bytes.length)

/-- `pbtools_encoder_write_bytes`. -/
def encoderWriteBytes (number : Nat) (bytes : List UInt8) : Writer :=
  if 0 < bytes.length then
      encoderWrite bytes >=> encoderWriteTaggedVarint number 2 (UInt64.ofNat bytes.length)
    else pure

/-! ### Messages in messages -/

variable {α : Type}

/-- A message, and before it the field that says how long it has become. -/
def measured (number : Nat) (write : Writer) : Writer := fun encoder => do
  let inner ← write encoder
  encoderWriteLengthDelimited number (UInt64.ofInt (encoder.pos - inner.pos)) inner

/-- `pbtools_encoder_sub_message_encode`. -/
def encoderSubMessageEncode (encodeInner : α → Writer) (number : Nat) : Option α → Writer
  | none => pure
  | some message => measured number (encodeInner message)

/-- `pbtools_encoder_sub_message_encode_always`, which does not look whether there is a message. -/
def encoderSubMessageEncodeAlways (encodeInner : α → Writer) (number : Nat) : Option α → Writer
  | none => fun _ => none
  | some message => measured number (encodeInner message)

/-- `pbtools_encode_repeated_inner`, which writes the last item first. -/
def encodeRepeatedInner (encodeInner : α → Writer) (number : Nat) : List α → Writer
  | [] => pure
  | item :: items =>
      encodeRepeatedInner encodeInner number items >=> measured number (encodeInner item)

/-- `pbtools_message_encode`. -/
def messageEncode (encodeInner : α → Writer) (message : α) (size : Nat) :
    Option (Except Int (List UInt8)) :=
  (encodeInner message (encoderInit size)).map encoderGetResult

end PbTools

end GradidoBlockchain
