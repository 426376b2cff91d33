import GradidoBlockchain.Lib.Scan

/-!
# Reading messages with pbtools

The readers of `pbtools.c`. A reader takes what it reads from the bytes that are left, or
it aborts the decoder, and nothing is read from it any more. The heap of the decoder is
taken to be large enough.
-/

namespace GradidoBlockchain

namespace PbTools

def intMax : Nat := 2 ^ 31 - 1

/-! ### Varints and tags -/

/-- The loop of `decoder_read_varint`. A bit that a byte has past the 64th is shifted out. -/
def decoderReadVarintFrom (value : UInt64) (offset : Nat) :
    List UInt8 → Option (UInt64 × List UInt8)
  | [] => none
  | byte :: rest =>
      let value := value ||| ((byte.toUInt64 &&& 0x7f) <<< UInt64.ofNat offset)
      if byte &&& 0x80 = 0 then some (value, rest)
      else if offset + 7 < 64 then decoderReadVarintFrom value (offset + 7) rest
      else none

/-- `decoder_read_varint`. -/
def decoderReadVarint : List UInt8 → Option (UInt64 × List UInt8) := decoderReadVarintFrom 0 0

/-- `pbtools_decoder_read_tag`: the field number and the wire type, of 32 bits. -/
def decoderReadTag (bytes : List UInt8) : Option ((Nat × Nat) × List UInt8) := do
  let (number, rest) ← decoderReadVarint bytes
  let value := number.toUInt32
  if (value >>> 3).toNat = 0 then none
  else some (((value >>> 3).toNat, (value &&& 7).toNat), rest)

/-! ### Values -/

/-- `read_varint_check_wire_type_varint`. -/
def readVarintCheckWireTypeVarint (wireType : Nat) (bytes : List UInt8) :
    Option (UInt64 × List UInt8) :=
  if wireType ≠ 0 then none else decoderReadVarint bytes

/-- `decoder_read_length_delimited`. -/
def decoderReadLengthDelimited (wireType : Nat) (bytes : List UInt8) : Option (Nat × List UInt8) :=
  if wireType ≠ 2 then none
  else do
    let (length, rest) ← decoderReadVarint bytes
    if intMax ≤ length.toNat then none
    else some (length.toNat, rest)

/-- So many bytes and the rest. `decoder_init_slice`, `decoder_read` and `decoder_seek` all abort
when there are not so many. -/
def decoderSlice (size : Nat) (bytes : List UInt8) : Option ((List UInt8) × List UInt8) :=
  if size ≤ bytes.length then some (bytes.take size, bytes.drop size) else none

/-- A value that is read goes into the message. -/
def store {α σ : Type} (read : Option (α × List UInt8)) (put : α → σ) : Option (σ × List UInt8) :=
  read.map fun taken => (put taken.1, taken.2)

def decoderReadUint64 (wireType : Nat) (bytes : List UInt8) : Option (UInt64 × List UInt8) :=
  readVarintCheckWireTypeVarint wireType bytes

def decoderReadInt64 (wireType : Nat) (bytes : List UInt8) : Option (Int64 × List UInt8) :=
  store (decoderReadUint64 wireType bytes) (·.toInt64)

def decoderReadUint32 (wireType : Nat) (bytes : List UInt8) : Option (UInt32 × List UInt8) :=
  store (decoderReadUint64 wireType bytes) (·.toUInt32)

def decoderReadInt32 (wireType : Nat) (bytes : List UInt8) : Option (Int32 × List UInt8) :=
  store (decoderReadUint32 wireType bytes) (·.toInt32)

def decoderReadBool (wireType : Nat) (bytes : List UInt8) : Option (Bool × List UInt8) :=
  store (decoderReadInt32 wireType bytes) (· ≠ 0)

/-- `pbtools_decoder_read_enum`, with the enumeration that the integer is stored in. -/
def decoderReadEnum {α : Type} (ofCode : Nat → α) (wireType : Nat)
    (bytes : List UInt8) : Option (α × List UInt8) :=
  store (decoderReadUint32 wireType bytes) fun code => ofCode code.toNat

def decoderReadBytes (wireType : Nat) (bytes : List UInt8) :
    Option ((List UInt8) × List UInt8) := do
  let (size, rest) ← decoderReadLengthDelimited wireType bytes
  decoderSlice size rest

/-- `pbtools_decoder_sub_message_decode`. -/
def decoderSubMessageDecode {α : Type} (decodeInner : List UInt8 → Option α) (wireType : Nat)
    (bytes : List UInt8) : Option (α × List UInt8) := do
  let (slice, rest) ← decoderReadBytes wireType bytes
  let message ← decodeInner slice
  some (message, rest)

/-- `pbtools_decoder_skip_field`. -/
def decoderSkipField {σ : Type} (wireType : Nat) (message : σ)
    (bytes : List UInt8) : Option (σ × List UInt8) :=
  match wireType with
  | 0 => store (decoderReadVarint bytes) fun _ => message
  | 1 => store (decoderSlice 8 bytes) fun _ => message
  | 2 => store (decoderReadBytes 2 bytes) fun _ => message
  | 5 => store (decoderSlice 4 bytes) fun _ => message
  | _ => none

/-! ### Messages -/

/-- A turn of the loop of a `decode_inner`: the tag, and then the field it announces. -/
def fieldStep {σ : Type} (field : Nat → Nat → σ → List UInt8 → Option (σ × List UInt8)) : Scan.Step UInt8 σ := fun message bytes => do
  let ((number, wireType), rest) ← decoderReadTag bytes
  field number wireType message rest

/-- The loop of a `decode_inner`. -/
def decodeFields {σ : Type} (field : Nat → Nat → σ → List UInt8 → Option (σ × List UInt8))
    (init : σ) (bytes : List UInt8) : Option σ :=
  Scan.scan (fieldStep field) init bytes

/-- `pbtools_repeated_info_t`: how many items there are, and the bytes from the length of
the first one on. -/
structure RepeatedInfo where
  length : Nat
  slice : List UInt8

def RepeatedInfo.init : RepeatedInfo := ⟨0, []⟩

/-- `pbtools_repeated_info_decode`, which counts the items and steps over them. -/
def repeatedInfoDecode (info : RepeatedInfo) (wireType : Nat) (bytes : List UInt8) :
    Option (RepeatedInfo × List UInt8) :=
  let info := if info.length = 0 then { info with slice := bytes } else info
  store (decoderReadBytes wireType bytes) fun _ => { info with length := info.length + 1 }

/-- The loop of `pbtools_decode_repeated_inner` over the items that have been counted; those it
finds no bytes for stay as they were initialised. -/
def decodeRepeatedFrom {α : Type} (tag : Nat) (init : α) (decodeInner : List UInt8 → Option α) :
    Nat → Nat → List UInt8 → Option (List α)
  | _, 0, _ => some []
  | _, left + 1, [] => some (List.replicate (left + 1) init)
  | 0, _ + 1, _ :: _ => none
  | fuel + 1, left + 1, byte :: bytes => do
      let ((number, wireType), rest) ← decoderReadTag (byte :: bytes)
      if number = tag then do
        let (item, rest) ← decoderSubMessageDecode decodeInner 2 rest
        let items ← decodeRepeatedFrom tag init decodeInner fuel left rest
        some (item :: items)
      else do
        let (_, rest) ← decoderSkipField wireType () rest
        decodeRepeatedFrom tag init decodeInner fuel (left + 1) rest

/-- `pbtools_decode_repeated_inner`. -/
def decodeRepeatedInner {α : Type} (tag : Nat) (init : α) (decodeInner : List UInt8 → Option α)
    (info : RepeatedInfo) : Option (List α) :=
  match info.length with
  | 0 => some []
  | left + 1 => do
      let (item, rest) ← decoderSubMessageDecode decodeInner 2 info.slice
      let items ← decodeRepeatedFrom tag init decodeInner rest.length left rest
      some (item :: items)

end PbTools

end GradidoBlockchain
