import GradidoBlockchain.Lib.Json
import GradidoBlockchain.Wire.Values

/-!
# The JSON of arnm

What the two JSON mappings take from arnm: the writer, the reader, its walk of an object with a
table of fields, and the conversions between bytes and text. Nothing of it is in this repository, so
that it is a parameter, and what its documentation promises is stated beside it.
-/

namespace GradidoBlockchain

namespace Mapping

/-! ### Fields -/

/-- `arnm_json_field_type`, the types that the tables name. -/
inductive FieldType
  | value
  | string
  | uint64
  | int64
  | uint32
  | int32
  | hexFixed (size : ℕ)
  | uuid
  deriving DecidableEq

/-- What a field of the type receives. -/
@[reducible] def FieldType.Slot : FieldType → Type
  | value => Json
  | string => String
  | uint64 => UInt64
  | int64 => Int64
  | uint32 => UInt32
  | int32 => Int32
  | hexFixed size => Bytes size
  | uuid => Uuid

/-- `arnm_json_field`: the key of a member and what it is to become. -/
structure Field where
  key : String
  type : FieldType
  deriving DecidableEq

namespace Field

abbrev value (key : String) : Field := ⟨key, .value⟩
abbrev string (key : String) : Field := ⟨key, .string⟩
abbrev uint64 (key : String) : Field := ⟨key, .uint64⟩
abbrev int64 (key : String) : Field := ⟨key, .int64⟩
abbrev uint32 (key : String) : Field := ⟨key, .uint32⟩
abbrev int32 (key : String) : Field := ⟨key, .int32⟩
abbrev hexFixed (size : ℕ) (key : String) : Field := ⟨key, .hexFixed size⟩
abbrev uuid (key : String) : Field := ⟨key, .uuid⟩

end Field

/-- What a walk has filled in, field by field; its mask has the bits of the fields that are
there. -/
abbrev Seen : Type := (field : Field) → Option field.type.Slot

/-! ### The parameter -/

/-- A handle to a `null` filed under a key. -/
def Seen.fileNull (key : String) (seen : Seen) : Seen :=
  Function.update seen (.value key) (some .null)

/-- The text of a document, as its bytes. -/
abbrev Text : Type := List UInt8

/-- `arnm_json_write_flags`. -/
abbrev WriteFlags : Type := UInt32

structure JsonArnm where
  /-- `ARNM_MAX_ALLOC_SIZE`. -/
  maxAllocSize : ℕ
  /-- What a request for no bytes at all is refused with; `none` where it is granted. -/
  emptyRequest : Option ArnmResult
  /-- `arnm_binary_to_hex`. -/
  hex : List UInt8 → String
  /-- The canonical form of a uuid. -/
  uuidText : Uuid → String
  /-- `arnm_binary_to_base64`. -/
  base64 : List UInt8 → String
  /-- `arnm_base64_binary_size`. -/
  base64BinarySize : String → Except ArnmResult ℕ
  /-- `arnm_binary_from_base64`. -/
  binaryFromBase64 : String → Except ArnmResult (List UInt8)
  /-- What a field makes of a member that is not `null`. -/
  convert : (type : FieldType) → Json → Except ArnmResult type.Slot
  /-- `arnm_json_read_object`. A walk that fails may have filled some of its fields, which
  no caller looks at. -/
  readObject : Json → List Field → Except ArnmResult Seen
  /-- `arnm_json_read_array`, into room for so many handles. -/
  readArray : Json → ℕ → Except ArnmResult (List Json)
  /-- `arnm_json_writer_init`. -/
  writerInit : WriteFlags → Except ArnmResult Unit
  /-- `arnm_json_writer_write`, which answers as well for everything that has been added. -/
  write : WriteFlags → Json → Except ArnmResult Text
  /-- `arnm_json_writer_release`. -/
  writerRelease : WriteFlags → Json → Except ArnmResult Unit
  /-- `arnm_json_reader_parse`. -/
  parse : Text → Except ArnmResult Json

namespace JsonArnm

variable (arnm : JsonArnm)

/-- What a field finds among the members of an object: nothing where the member is absent, or `null`
and the field is to convert it. -/
def reads (members : List (String × Json)) (field : Field) :
    Except ArnmResult (Option field.type.Slot) :=
  match members.lookup field.key with
  | none => .ok none
  | some member =>
      if member.isNull ∧ field.type ≠ .value then .ok none
        else (arnm.convert field.type member).map some

/-- What the mappings rely on. -/
structure Lawful : Prop where
  maxAllocSize_lt : arnm.maxAllocSize < 2 ^ 32
  emptyRequest_eq : arnm.emptyRequest = some .invalidParam
  length_hex : ∀ bytes, (arnm.hex bytes).length = 2 * bytes.length
  length_uuidText : ∀ uuid, (arnm.uuidText uuid).length = 36
  length_base64 : ∀ bytes, (arnm.base64 bytes).length = 4 * ((bytes.length + 2) / 3)
  /-- The size of a binary is as many bytes as are decoded. -/
  length_binary : ∀ text size bytes, arnm.base64BinarySize text = .ok size →
    arnm.binaryFromBase64 text = .ok bytes → bytes.length = size
  base64BinarySize_base64 : ∀ bytes, arnm.base64BinarySize (arnm.base64 bytes) = .ok bytes.length
  binaryFromBase64_base64 : ∀ bytes, arnm.binaryFromBase64 (arnm.base64 bytes) = .ok bytes
  convert_value : ∀ json, arnm.convert .value json = .ok json
  convert_string : ∀ text, arnm.convert .string (.string text) = .ok text
  /-- Nothing but a string is read as one. -/
  convert_string_only : ∀ json text, arnm.convert .string json = .ok text → json = .string text
  convert_uint64 : ∀ number : UInt64, arnm.convert .uint64 (.number number.toNat) = .ok number
  convert_int64 : ∀ number : Int64, arnm.convert .int64 (.number number.toInt) = .ok number
  convert_uint32 : ∀ number : UInt32, arnm.convert .uint32 (.number number.toNat) = .ok number
  convert_int32 : ∀ number : Int32, arnm.convert .int32 (.number number.toInt) = .ok number
  convert_hex : ∀ {size} (bytes : Bytes size),
    arnm.convert (.hexFixed size) (.string (arnm.hex bytes.toList)) = .ok bytes
  convert_uuid : ∀ uuid, arnm.convert .uuid (.string (arnm.uuidText uuid)) = .ok uuid
  /-- A walk that can fill every field does so. -/
  readObject_ok : ∀ members table (found : Seen), (table.map Field.key).Nodup →
    (∀ field ∈ table, arnm.reads members field = .ok (found field)) →
    arnm.readObject (.object members) table =
      .ok fun field => if field ∈ table then found field else none
  /-- What a field has been filled with is a member under its key, which is no `null` unless the
  field takes a handle. -/
  readObject_seen : ∀ json table seen, arnm.readObject json table = .ok seen →
    (table.map Field.key).Nodup →
    ∀ field ∈ table, ∀ slot, seen field = some slot →
      ∃ value ∈ json.under field.key, (value = .null → field.type = .value) ∧
        arnm.convert field.type value = .ok slot
  /-- Where a field that takes a handle has none, no member has its key. -/
  readObject_handle : ∀ json table seen, arnm.readObject json table = .ok seen →
    (table.map Field.key).Nodup →
    ∀ key, Field.value key ∈ table → seen (.value key) = none → json.under key = []
  /-- A `null` is passed over by every field but one that takes a handle. -/
  readObject_null : ∀ members table key, (table.map Field.key).Nodup →
    arnm.readObject (.object (Json.nullOut key members)) table =
      if Field.value key ∈ table ∧ key ∈ members.map Prod.fst then
        (arnm.readObject (.object (Json.without key members)) table).map (Seen.fileNull key)
      else arnm.readObject (.object (Json.without key members)) table
  readArray_ok : ∀ items room, items.length ≤ room → arnm.readArray (.array items) room = .ok items
  readArray_small : ∀ items room, room < items.length →
    arnm.readArray (.array items) room = .error .destinationBufferToSmall
  readArray_other : ∀ json room, (∀ items, json ≠ .array items) →
    arnm.readArray json room = .error .invalidEnumType
  /-- The text lies in one block, and is no shorter than it can be. -/
  write_fits : ∀ flags json text, arnm.write flags json = .ok text →
    json.text.length ≤ text.length ∧ text.length ≤ arnm.maxAllocSize
  /-- What has been written is parsed as the same document. -/
  parse_write : ∀ flags json text, arnm.write flags json = .ok text → arnm.parse text = .ok json
  /-- The values of a parsed document lie in one block, sixteen bytes for each. -/
  parse_nodes : ∀ text json, arnm.parse text = .ok json → 16 * json.nodes ≤ arnm.maxAllocSize

end JsonArnm

end Mapping

end GradidoBlockchain
