import GradidoBlockchain.Json.Interface
import GradidoBlockchain.Lib.TextCodec
import Mathlib.Data.List.Nodup

/-!
# A JSON of arnm to run the model with

The plainest reader and writer that keep to what is relied on: an object is walked member by
member, and the text of a document is its shortest one. Of texts only those of a few given
documents are known.
-/

namespace GradidoBlockchain

namespace Mapping

namespace Reference

/-! ### Conversions -/

def hexText (bytes : List UInt8) : String := String.ofList (TextCodec.toHex bytes)

def uuidText (uuid : Uuid) : String := String.ofList (TextCodec.toUuid uuid.toList)

def base64Text (bytes : List UInt8) : String := String.ofList (TextCodec.toBase64 bytes)

/-- A value that may not be one. -/
def decoded {α : Type} (value : Option α) : Except ArnmResult α :=
  value.elim (.error .decodeFailed) .ok

def binaryFromBase64 (text : String) : Except ArnmResult (List UInt8) :=
  decoded (TextCodec.ofBase64 text.toList)

def integer (low high : ℤ) (json : Json) : Except ArnmResult ℤ :=
  match json with
  | .number value => if low ≤ value ∧ value < high then .ok value else .error .arithmeticOverflow
  | _ => .error .invalidEnumType

def stringOf (json : Json) : Except ArnmResult String :=
  match json with
  | .string text => .ok text
  | _ => .error .invalidEnumType

def convert : (type : FieldType) → Json → Except ArnmResult type.Slot
  | .value, json => .ok json
  | .string, json => stringOf json
  | .uint64, json => (integer 0 (2 ^ 64) json).map fun value => UInt64.ofNat value.toNat
  | .int64, json => (integer (-2 ^ 63) (2 ^ 63) json).map Int64.ofInt
  | .uint32, json => (integer 0 (2 ^ 32) json).map fun value => UInt32.ofNat value.toNat
  | .int32, json => (integer (-2 ^ 31) (2 ^ 31) json).map Int32.ofInt
  | .hexFixed size, json => do
      let text ← stringOf json
      let bytes ← decoded (TextCodec.ofHex text.toList)
      decoded (Bytes.ofList size bytes)
  | .uuid, json => do
      let text ← stringOf json
      let bytes ← decoded (TextCodec.ofUuid text.toList)
      decoded (Bytes.ofList 16 bytes)

theorem binaryFromBase64_base64Text (bytes : List UInt8) :
    binaryFromBase64 (base64Text bytes) = .ok bytes := by
  rw [binaryFromBase64, base64Text, String.toList_ofList, TextCodec.ofBase64_toBase64]
  rfl

theorem integer_number {low high value : ℤ} (hlow : low ≤ value) (hhigh : value < high) :
    integer low high (.number value) = .ok value :=
  if_pos ⟨hlow, hhigh⟩

theorem convert_uint64 (number : UInt64) : convert .uint64 (.number number.toNat) = .ok number := by
  have hlt := number.toNat_lt
  rw [convert, integer_number (by omega) (by omega)]
  simp only [Except.map, Int.toNat_natCast, UInt64.ofNat_toNat]

theorem convert_int64 (number : Int64) : convert .int64 (.number number.toInt) = .ok number := by
  rw [convert, integer_number number.le_toInt number.toInt_lt]
  simp only [Except.map, Int64.ofInt_toInt]

theorem convert_uint32 (number : UInt32) : convert .uint32 (.number number.toNat) = .ok number := by
  have hlt := number.toNat_lt
  rw [convert, integer_number (by omega) (by omega)]
  simp only [Except.map, Int.toNat_natCast, UInt32.ofNat_toNat]

theorem convert_int32 (number : Int32) : convert .int32 (.number number.toInt) = .ok number := by
  rw [convert, integer_number number.le_toInt number.toInt_lt]
  simp only [Except.map, Int32.ofInt_toInt]

theorem convert_hex {size : ℕ} (bytes : Bytes size) :
    convert (.hexFixed size) (.string (hexText bytes.toList)) = .ok bytes := by
  simp only [convert, stringOf, hexText, bind, Except.bind, String.toList_ofList,
    TextCodec.ofHex_toHex, decoded, Option.elim, Bytes.ofList_toList]

theorem convert_uuid (uuid : Uuid) : convert .uuid (.string (uuidText uuid)) = .ok uuid := by
  simp only [convert, stringOf, uuidText, bind, Except.bind, String.toList_ofList,
    TextCodec.ofUuid_toUuid, decoded, Option.elim, Bytes.ofList_toList]

/-! ### The walk of an object -/

/-- What a member fills a field with. -/
def fill (field : Field) (json : Json) : Except ArnmResult (Option field.type.Slot) :=
  if json.isNull ∧ field.type ≠ .value then .ok none else (convert field.type json).map some

/-- A member fills the field of its key, which is closed by it. -/
def walk : List (String × Json) → List Field → Except ArnmResult Seen
  | [], _ => .ok fun _ => none
  | (key, json) :: members, table =>
      match table.find? fun field => field.key == key with
      | none => walk members table
      | some field => do
          let slot ← fill field json
          let seen ← walk members (table.erase field)
          .ok (Function.update seen field slot)

def readObject (json : Json) (table : List Field) : Except ArnmResult Seen :=
  match json with
  | .object members => walk members table
  | _ => .error .invalidEnumType

def readArray (json : Json) (room : ℕ) : Except ArnmResult (List Json) :=
  match json with
  | .array items => if items.length ≤ room then .ok items else .error .destinationBufferToSmall
  | _ => .error .invalidEnumType

/-- What a field finds among members. -/
def finds (members : List (String × Json)) (field : Field) :
    Except ArnmResult (Option field.type.Slot) :=
  match members.lookup field.key with
  | none => .ok none
  | some member => fill field member

section Walk

variable {members : List (String × Json)} {table : List Field} {key : String} {json : Json}

theorem finds_cons_self {field : Field} (hkey : field.key = key) :
    finds ((key, json) :: members) field = fill field json := by
  rw [finds, hkey, List.lookup_cons_self]

theorem finds_cons_ne {field : Field} (hkey : field.key ≠ key) :
    finds ((key, json) :: members) field = finds members field := by
  rw [finds, finds, List.lookup_cons, beq_eq_false_iff_ne.2 hkey]

/-- What a field finds is the value of a member. -/
theorem finds_some {field : Field} {slot : field.type.Slot}
    (hfinds : finds members field = .ok (some slot)) :
    ∃ value ∈ (Json.object members).under field.key, (value = .null → field.type = .value) ∧
      convert field.type value = .ok slot := by
  rw [finds] at hfinds
  rcases hlookup : members.lookup field.key with _ | value <;> simp only [hlookup] at hfinds
  · cases hfinds
  · obtain ⟨before, after, hmembers, -⟩ := List.lookup_eq_some_iff.1 hlookup
    have hmem : (field.key, value) ∈ members := by
      rw [hmembers]
      exact List.mem_append_right _ List.mem_cons_self
    refine ⟨value, Json.mem_under.2 hmem, fun hnull => ?_, ?_⟩
    · by_contra htype
      rw [hnull, fill, if_pos ⟨rfl, htype⟩] at hfinds
      cases hfinds
    · rw [fill] at hfinds
      split at hfinds
      · cases hfinds
      · rcases hconvert : convert field.type value
          with code | found <;> rw [hconvert] at hfinds <;> cases hfinds
        rfl

/-- A handle that is not found has no member to be found under. -/
theorem finds_none (hfinds : finds members (.value key) = .ok none) :
    (Json.object members).under key = [] := by
  rw [finds] at hfinds
  rcases hlookup : members.lookup key with _ | value <;> simp only [hlookup] at hfinds
  · apply List.eq_nil_iff_forall_not_mem.2
    intro value hvalue
    have hne := List.lookup_eq_none_iff.1 hlookup _ (Json.mem_under.1 hvalue)
    exact absurd rfl (bne_iff_ne.1 hne)
  · rw [fill, if_neg fun h => h.2 rfl] at hfinds
    cases hfinds

theorem walk_cons_none (hnone : ∀ field ∈ table, field.key ≠ key) :
    walk ((key, json) :: members) table = walk members table := by
  have hfind : table.find? (fun field => field.key == key) = none :=
    List.find?_eq_none.2 fun field hmem => by simpa using hnone field hmem
  rw [walk, hfind]

theorem walk_cons_some (hkeys : (table.map Field.key).Nodup) {field : Field} (hmem : field ∈ table)
    (hkey : field.key = key) : 
    walk ((key, json) :: members) table = (do
      let slot ← fill field json
      let seen ← walk members (table.erase field)
      .ok (Function.update seen field slot)) := by
  have hfind : table.find? (fun field => field.key == key) = some field := by
    rcases hfound : table.find? (fun field => field.key == key) with _ | found
    · exact absurd (beq_iff_eq.2 hkey) (List.find?_eq_none.1 hfound field hmem)
    · have hbeq := List.find?_some hfound
      have hsame : found.key = field.key := (beq_iff_eq.1 hbeq).trans hkey.symm
      rw [hfound, List.inj_on_of_nodup_map hkeys (List.mem_of_find?_eq_some hfound) hmem hsame]
  rw [walk, hfind]

/-- Either no field has the key, or one field has it. -/
theorem field_cases (table : List Field) (key : String) :
    (∀ field ∈ table, field.key ≠ key) ∨ ∃ field ∈ table, field.key = key := by
  by_cases h : ∃ field ∈ table, field.key = key
  · exact .inr h
  · exact .inl fun field hmem hkey => h ⟨field, hmem, hkey⟩

theorem erase_keys (hkeys : (table.map Field.key).Nodup) (field : Field) :
    ((table.erase field).map Field.key).Nodup :=
  hkeys.sublist ((List.erase_sublist).map _)

theorem erase_ne (hkeys : (table.map Field.key).Nodup) {field other : Field} (hmem : field ∈ table)
    (hother : other ∈ table.erase field) : other.key ≠ field.key := by
  intro hkey
  rw [List.inj_on_of_nodup_map hkeys (List.mem_of_mem_erase hother) hmem hkey] at hother
  exact (hkeys.of_map.not_mem_erase) hother

/-- What a walk has seen is what its fields find. -/
theorem walk_seen (hkeys : (table.map Field.key).Nodup) {seen : Seen}
    (hwalk : walk members table = .ok seen) :
    (∀ field ∈ table, finds members field = .ok (seen field)) ∧
      ∀ field ∉ table, seen field = none := by
  induction members generalizing table seen with
  | nil =>
      cases hwalk
      exact ⟨fun _ _ => rfl, fun _ _ => rfl⟩
  | cons member members ih =>
      obtain ⟨key, json⟩ := member
      obtain hnone | ⟨field, hmem, hkey⟩ := field_cases table key
      · rw [walk_cons_none hnone] at hwalk
        obtain ⟨hfinds, hother⟩ := ih hkeys hwalk
        exact ⟨fun field hmem => (finds_cons_ne (hnone field hmem)).trans (hfinds field hmem),
          hother⟩
      · rw [walk_cons_some hkeys hmem hkey] at hwalk
        rcases hfill : fill field json with code | slot <;> rw [hfill] at hwalk
        · cases hwalk
        rcases hrest : walk members (table.erase field) with code | rest <;> rw [hrest] at hwalk
        · cases hwalk
        cases hwalk
        obtain ⟨hfinds, hother⟩ := ih (erase_keys hkeys field) hrest
        refine ⟨fun other hmemOther => ?_, fun other hnot => ?_⟩
        · by_cases heq : other = field
          · rw [heq, finds_cons_self hkey, Function.update_self]
            exact hfill
          · have herased : other ∈ table.erase field := (List.mem_erase_of_ne heq).2 hmemOther
            rw [Function.update_of_ne heq, finds_cons_ne (hkey ▸ erase_ne hkeys hmem herased)]
            exact hfinds other herased
        · have hne : other ≠ field := fun heq => hnot (heq ▸ hmem)
          rw [Function.update_of_ne hne]
          exact hother other fun herased => hnot (List.mem_of_mem_erase herased)

/-- A walk whose fields can all be filled comes to its end. -/
theorem walk_ok (hkeys : (table.map Field.key).Nodup)
    (hfinds : ∀ field ∈ table, ∃ slot, finds members field = .ok slot) :
    ∃ seen, walk members table = .ok seen := by
  induction members generalizing table with
  | nil => exact ⟨_, rfl⟩
  | cons member members ih =>
      obtain ⟨key, json⟩ := member
      obtain hnone | ⟨field, hmem, hkey⟩ := field_cases table key
      · rw [walk_cons_none hnone]
        refine ih hkeys fun field hmem => ?_
        have hfield := hfinds field hmem
        rwa [finds_cons_ne (hnone field hmem)] at hfield
      · rw [walk_cons_some hkeys hmem hkey]
        obtain ⟨slot, hslot⟩ := hfinds field hmem
        rw [finds_cons_self hkey] at hslot
        obtain ⟨rest, hrest⟩ : ∃ rest, walk members (table.erase field) = .ok rest := by
          refine ih (erase_keys hkeys field) fun other herased => ?_
          have hother := hfinds other (List.mem_of_mem_erase herased)
          rwa [finds_cons_ne (hkey ▸ erase_ne hkeys hmem herased)] at hother
        rw [hslot, hrest]
        exact ⟨_, rfl⟩

/-- A field whose key no member has is not filled, whether it is in the table or not. -/
theorem walk_erase (hkeys : (table.map Field.key).Nodup) {field : Field} (hmem : field ∈ table)
    (habsent : field.key ∉ members.map Prod.fst) :
    walk members (table.erase field) = walk members table := by
  induction members generalizing table with
  | nil => rfl
  | cons member members ih =>
      obtain ⟨key, json⟩ := member
      rw [List.map_cons, List.mem_cons, not_or] at habsent
      obtain hnone | ⟨other, hother, hkey⟩ := field_cases table key
      · rw [walk_cons_none hnone,
          walk_cons_none fun field hfield => hnone field (List.mem_of_mem_erase hfield)]
        exact ih hkeys hmem habsent.2
      · have hne : field ≠ other := fun heq => habsent.1 (heq ▸ hkey)
        have hrest := ih (erase_keys hkeys other) ((List.mem_erase_of_ne hne).2 hmem) habsent.2
        rw [walk_cons_some hkeys hother hkey,
          walk_cons_some (erase_keys hkeys field) ((List.mem_erase_of_ne hne.symm).2 hother) hkey,
          List.erase_comm, hrest]

theorem value_mem_erase (hkeys : (table.map Field.key).Nodup) {field : Field} (hmem : field ∈ table)
    {key : String} :
    Field.value key ∈ table.erase field ↔ Field.value key ∈ table ∧ field.key ≠ key := by
  constructor
  · exact fun h => ⟨List.mem_of_mem_erase h, (erase_ne hkeys hmem h).symm⟩
  · intro h
    exact (List.mem_erase_of_ne fun heq => h.2 (congrArg Field.key heq).symm).2 h.1

theorem notMem_without (key : String) (members : List (String × Json)) :
    key ∉ (Json.without key members).map Prod.fst := by
  intro hmem
  obtain ⟨member, hmember, heq⟩ := List.mem_map.1 hmem
  exact of_decide_eq_true (List.mem_filter.1 hmember).2 heq

/-- A walk past a `null` and one past nothing. -/
theorem walk_null (hkeys : (table.map Field.key).Nodup) (key : String) :
    walk (Json.nullOut key members) table =
      if Field.value key ∈ table ∧ key ∈ members.map Prod.fst then
          (walk (Json.without key members) table).map (Seen.fileNull key)
        else walk (Json.without key members) table := by
  induction members generalizing table with
  | nil => exact (if_neg fun h => List.not_mem_nil h.2).symm
  | cons member members ih =>
      obtain ⟨other, json⟩ := member
      by_cases heq : other = key
      · obtain rfl := heq
        have hnulled : Json.nullOut other ((other, json) :: members) =
            (other, .null) :: Json.nullOut other members := by
          rw [Json.nullOut, List.map_cons, if_pos rfl]
          rfl
        have hwithout : Json.without other ((other, json) :: members) =
            Json.without other members := List.filter_cons_of_neg (by simp)
        rw [hnulled, hwithout]
        obtain hnone | ⟨field, hmem, hkey⟩ := field_cases table other
        · have habsent : Field.value other ∉ table := fun h => hnone _ h rfl
          rw [walk_cons_none hnone, ih hkeys, if_neg fun h => habsent h.1,
            if_neg fun h => habsent h.1]
        · have hclosed : Field.value other ∉ table.erase field :=
            fun h => ((value_mem_erase hkeys hmem).1 h).2 hkey
          rw [walk_cons_some hkeys hmem hkey, ih (erase_keys hkeys field),
            if_neg fun h => hclosed h.1,
            walk_erase hkeys hmem (hkey ▸ notMem_without other members)]
          by_cases htype : field.type = .value
          · obtain rfl : field = .value other := by
              obtain ⟨name, type⟩ := field
              exact congrArg₂ Field.mk hkey htype
            have hfill : fill (.value other) .null = .ok (some .null) := if_neg fun h => h.2 rfl
            rw [hfill, if_pos ⟨hmem, List.mem_cons_self⟩]
            rcases walk (Json.without other members) table with code | seen <;> rfl
          · have hfill : fill field .null = .ok none := if_pos ⟨rfl, htype⟩
            have habsent : Field.value other ∉ table := fun h =>
              htype (congrArg Field.type (List.inj_on_of_nodup_map hkeys hmem h hkey))
            rw [hfill, if_neg fun h => habsent h.1]
            rcases hrest : walk (Json.without other members) table with code | seen
            · rfl
            · rw [← walk_erase hkeys hmem (hkey ▸ notMem_without other members)] at hrest
              have hopen :=
                (walk_seen (erase_keys hkeys field) hrest).2 field hkeys.of_map.not_mem_erase
              exact congrArg Except.ok (Function.update_eq_self_iff.2 hopen.symm)
      · have hnulled : Json.nullOut key ((other, json) :: members) =
            (other, json) :: Json.nullOut key members := by
          rw [Json.nullOut, List.map_cons, if_neg heq]
          rfl
        have hwithout : Json.without key ((other, json) :: members) =
            (other, json) :: Json.without key members :=
          List.filter_cons_of_pos (decide_eq_true heq)
        have hkept : key ∈ ((other, json) :: members).map Prod.fst ↔
            key ∈ members.map Prod.fst := by
          rw [List.map_cons, List.mem_cons]
          exact or_iff_right (Ne.symm heq)
        rw [hnulled, hwithout]
        simp only [hkept]
        obtain hnone | ⟨field, hmem, hkey⟩ := field_cases table other
        · rw [walk_cons_none hnone, walk_cons_none hnone, ih hkeys]
        · have hclosed : Field.value key ∈ table.erase field ↔ Field.value key ∈ table := by
            rw [value_mem_erase hkeys hmem, hkey]
            exact and_iff_left heq
          rw [walk_cons_some hkeys hmem hkey, walk_cons_some hkeys hmem hkey,
            ih (erase_keys hkeys field)]
          simp only [hclosed]
          rcases fill field json with code | slot
          · split <;> rfl
          · split
            · rcases walk (Json.without key members) (table.erase field) with code | seen
              · rfl
              · have hne : Field.value key ≠ field :=
                  fun h => heq (hkey.symm.trans (congrArg Field.key h).symm)
                exact congrArg Except.ok (Function.update_comm hne _ _ seen)
            · rfl

end Walk

/-! ### Texts -/

/-- `ARNM_MAX_ALLOC_SIZE`. -/
def maxAllocSize : ℕ := 4294967288

/-- The shortest text of a document. -/
def documentText (document : Json) : Text := document.text.map fun char => UInt8.ofNat char.toNat

/-- The document of a text, if it is one of those given and not too large. -/
def parse (documents : List Json) (text : Text) : Except ArnmResult Json :=
  match documents.find? fun document => documentText document == text with
  | some document =>
      if 16 * document.nodes ≤ maxAllocSize then .ok document else .error .outOfMemory
  | none => .error .decodeFailed

def write (documents : List Json) (json : Json) : Except ArnmResult Text :=
  if parse documents (documentText json) = .ok json ∧ (documentText json).length ≤ maxAllocSize then
    .ok (documentText json)
  else .error .resourceSizeExceed

variable {documents : List Json} {json : Json} {text : Text}

theorem write_ok (hwrite : write documents json = .ok text) :
    text = documentText json ∧ parse documents text = .ok json ∧ text.length ≤ maxAllocSize := by
  rw [write] at hwrite
  split at hwrite
  · rename_i hknown
    cases hwrite
    exact ⟨rfl, hknown⟩
  · cases hwrite

theorem write_fits (hwrite : write documents json = .ok text) :
    json.text.length ≤ text.length ∧ text.length ≤ maxAllocSize := by
  obtain ⟨rfl, -, hfits⟩ := write_ok hwrite
  exact ⟨Nat.le_of_eq (List.length_map _).symm, hfits⟩

theorem parse_write (hwrite : write documents json = .ok text) : parse documents text = .ok json :=
  (write_ok hwrite).2.1

theorem parse_nodes (hparse : parse documents text = .ok json) :
    16 * json.nodes ≤ maxAllocSize := by
  rw [parse] at hparse
  split at hparse
  · split at hparse
    · rename_i hfits
      cases hparse
      exact hfits
    · cases hparse
  · cases hparse

end Reference

/-- A reader and a writer that know the given documents. -/
def JsonArnm.reference (documents : List Json) : JsonArnm where
  maxAllocSize := Reference.maxAllocSize
  emptyRequest := some .invalidParam
  hex := Reference.hexText
  uuidText := Reference.uuidText
  base64 := Reference.base64Text
  base64BinarySize := fun text => (Reference.binaryFromBase64 text).map List.length
  binaryFromBase64 := Reference.binaryFromBase64
  convert := Reference.convert
  readObject := Reference.readObject
  readArray := Reference.readArray
  writerInit := fun _ => .ok ()
  write := fun _ => Reference.write documents
  writerRelease := fun _ _ => .ok ()
  parse := Reference.parse documents

namespace JsonArnm

theorem reference_convert (documents : List Json) :
    (reference documents).convert = Reference.convert :=
  rfl

theorem reference_lawful (documents : List Json) : (reference documents).Lawful where
  maxAllocSize_lt := by
    change 4294967288 < 2 ^ 32
    omega
  emptyRequest_eq := rfl
  length_hex := fun bytes => (String.length_ofList ..).trans (TextCodec.length_toHex bytes)
  length_uuidText :=
    fun uuid => (String.length_ofList ..).trans (TextCodec.length_toUuid uuid.length_toList)
  length_base64 := fun bytes => (String.length_ofList ..).trans (TextCodec.length_toBase64 bytes)
  length_binary := by
    intro text size bytes hsize hbytes
    change (Reference.binaryFromBase64 text).map List.length = .ok size at hsize
    rw [show Reference.binaryFromBase64 text = .ok bytes from hbytes] at hsize
    exact Except.ok.inj hsize
  base64BinarySize_base64 :=
    fun bytes => congrArg (Except.map List.length) (Reference.binaryFromBase64_base64Text bytes)
  binaryFromBase64_base64 := Reference.binaryFromBase64_base64Text
  convert_value := fun _ => rfl
  convert_string := fun _ => rfl
  convert_string_only := by
    intro json text hconvert
    cases json with
    | string other => exact congrArg Json.string (Except.ok.inj hconvert)
    | _ => cases hconvert
  convert_uint64 := by
    rw [reference_convert]
    exact Reference.convert_uint64
  convert_int64 := Reference.convert_int64
  convert_uint32 := by
    rw [reference_convert]
    exact Reference.convert_uint32
  convert_int32 := Reference.convert_int32
  convert_hex := Reference.convert_hex
  convert_uuid := Reference.convert_uuid
  readObject_ok := by
    intro members table found hkeys hreads
    obtain ⟨seen, hseen⟩ := Reference.walk_ok hkeys fun field hmem => ⟨_, hreads field hmem⟩
    obtain ⟨hfinds, hother⟩ := Reference.walk_seen hkeys hseen
    refine hseen.trans (congrArg Except.ok (funext fun field => ?_))
    split
    · rename_i hmem
      exact Except.ok.inj ((hfinds field hmem).symm.trans (hreads field hmem))
    · rename_i hnot
      exact hother field hnot
  readObject_seen := by
    intro json table seen hseen hkeys field hmem slot hslot
    cases json with
    | object members =>
        have hfinds := (Reference.walk_seen hkeys hseen).1 field hmem
        rw [hslot] at hfinds
        exact Reference.finds_some hfinds
    | _ => cases hseen
  readObject_handle := by
    intro json table seen hseen hkeys key hmem hnone
    cases json with
    | object members =>
        have hfinds := (Reference.walk_seen hkeys hseen).1 _ hmem
        rw [hnone] at hfinds
        exact Reference.finds_none hfinds
    | _ => cases hseen
  readObject_null := fun members table key hkeys => Reference.walk_null hkeys key
  readArray_ok := fun items room hle => if_pos hle
  readArray_small := fun items room hlt => if_neg (Nat.not_le.2 hlt)
  readArray_other := by
    intro json room hother
    cases json with
    | array items => exact absurd rfl (hother items)
    | _ => rfl
  write_fits := fun _ json text hwrite => Reference.write_fits hwrite
  parse_write := fun _ json text hwrite => Reference.parse_write hwrite
  parse_nodes := fun text json hparse => Reference.parse_nodes hparse

end JsonArnm

end Mapping

end GradidoBlockchain
