import GradidoBlockchain.Lib.WireFormat
import GradidoBlockchain.Pb.Reader

/-!
# What the readers step over

Whatever a reader of pbtools makes of a field, it leaves the bytes after the content that
the wire type measures.
-/

namespace GradidoBlockchain

open WireFormat

namespace PbTools

variable {bytes rest : List UInt8} {wireType : Nat}

/-! ### Varints -/

theorem continues_iff (byte : UInt8) : byte &&& 0x80 = 0 ↔ byte.toNat < 128 := by
  have hall : ∀ n < 256, n &&& 128 = 0 ↔ n < 128 := by decide +kernel
  rw [← UInt8.toNat_inj, UInt8.toNat_and]
  exact hall byte.toNat byte.toNat_lt

/-- The bits of a byte, put where they belong in 64 bits. -/
theorem bits_toNat (value offset : Nat) (hoffset : offset < 64) (byte : UInt8) :
    UInt64.ofNat value ||| ((byte.toUInt64 &&& 0x7f) <<< UInt64.ofNat offset) =
      UInt64.ofNat (value ||| (byte.toNat % 128) <<< offset) := by
  rw [← UInt64.toNat_inj, UInt64.toNat_or, UInt64.toNat_shiftLeft, UInt64.toNat_and]
  simp only [UInt64.toNat_ofNat', UInt8.toNat_toUInt64, Nat.or_mod_two_pow]
  have hmask : byte.toNat &&& UInt64.toNat 127 = byte.toNat % 128 :=
    Nat.and_two_pow_sub_one_eq_mod byte.toNat 7
  have hshift : offset % 2 ^ 64 % 64 = offset := by omega
  rw [hmask, hshift]

/-- pbtools reads a varint and drops what is past 64 bits. -/
theorem decoderReadVarintFrom_eq (value offset : Nat) (hoffset : offset < 64) :
    decoderReadVarintFrom (UInt64.ofNat value) offset bytes =
      (varintFrom value offset bytes).map fun read => (UInt64.ofNat read.1, read.2) := by
  induction bytes generalizing value offset with
  | nil => rfl
  | cons byte bytes ih =>
      rw [decoderReadVarintFrom, varintFrom]
      simp only [bits_toNat value offset hoffset, continues_iff]
      split
      · rfl
      · split
        · exact ih _ _ ‹_›
        · rfl

theorem decoderReadVarint_eq :
    decoderReadVarint bytes = (varint bytes).map fun read => (UInt64.ofNat read.1, read.2) :=
  decoderReadVarintFrom_eq 0 0 (by decide)

theorem decoderReadVarint_ok {number : UInt64}
    (hread : decoderReadVarint bytes = some (number, rest)) :
    ∃ value, varint bytes = some (value, rest) ∧ number = UInt64.ofNat value := by
  rw [decoderReadVarint_eq] at hread
  obtain ⟨⟨value, left⟩, hvarint, hpair⟩ := Option.map_eq_some_iff.1 hread
  cases hpair
  exact ⟨value, hvarint, rfl⟩

/-- The number and the wire type of a field are those of a tag of 32 bits. -/
theorem decoderReadTag_ok {number : Nat}
    (hread : decoderReadTag bytes = some ((number, wireType), rest)) :
    ∃ tag, varint bytes = some (tag, rest) ∧ number = tag % 2 ^ 32 / 8 ∧ number ≠ 0 ∧
      wireType = tag % 8 := by
  obtain ⟨⟨value, left⟩, hvarint, htag⟩ := Option.bind_eq_some_iff.1 hread
  obtain ⟨tag, htaken, rfl⟩ := decoderReadVarint_ok hvarint
  have hnumber : ((UInt64.ofNat tag).toUInt32 >>> 3).toNat = tag % 2 ^ 32 / 8 := by
    rw [UInt32.toNat_shiftRight, UInt64.toNat_toUInt32, UInt64.toNat_ofNat',
      Nat.shiftRight_eq_div_pow]
    change tag % 2 ^ 64 % 2 ^ 32 / 2 ^ 3 = _
    omega
  have hwire : ((UInt64.ofNat tag).toUInt32 &&& 7).toNat = tag % 8 := by
    rw [UInt32.toNat_and, UInt64.toNat_toUInt32, UInt64.toNat_ofNat']
    change tag % 2 ^ 64 % 2 ^ 32 &&& 2 ^ 3 - 1 = _
    rw [Nat.and_two_pow_sub_one_eq_mod]
    omega
  simp only at htag
  split at htag
  · cases htag
  · rename_i hne
    cases htag
    exact ⟨tag, htaken, hnumber, hne, hwire⟩

/-! ### Contents -/

/-- The bytes that are left are those after the content of the field. -/
def StepsOver (wireType : Nat) (bytes rest : List UInt8) : Prop :=
  ∃ number, content wireType bytes = some (number, rest)

theorem store_ok {α σ : Type} {read : Option (α × List UInt8)} {put : α → σ} {message : σ}
    (hstore : store read put = some (message, rest)) :
    ∃ value, read = some (value, rest) ∧ message = put value := by
  obtain ⟨⟨value, left⟩, hread, hpair⟩ := Option.map_eq_some_iff.1 hstore
  cases hpair
  exact ⟨value, hread, rfl⟩

theorem decoderSlice_ok {size : Nat} {slice : List UInt8}
    (hslice : decoderSlice size bytes = some (slice, rest)) : after size bytes = some rest := by
  rw [decoderSlice] at hslice
  rw [after]
  split at hslice
  · cases hslice
    exact if_pos ‹_›
  · cases hslice

theorem decoderReadUint64_ok {number : UInt64}
    (hread : decoderReadUint64 wireType bytes = some (number, rest)) :
    ∃ value, wireType = 0 ∧ varint bytes = some (value, rest) ∧ number = UInt64.ofNat value := by
  rw [decoderReadUint64, readVarintCheckWireTypeVarint] at hread
  split at hread
  · cases hread
  · obtain ⟨value, hvarint, hnumber⟩ := decoderReadVarint_ok hread
    exact ⟨value, not_not.1 ‹_›, hvarint, hnumber⟩

theorem decoderReadUint64_stepsOver {number : UInt64}
    (hread : decoderReadUint64 wireType bytes = some (number, rest)) :
    StepsOver wireType bytes rest := by
  obtain ⟨value, rfl, hvarint, -⟩ := decoderReadUint64_ok hread
  refine ⟨some value, ?_⟩
  rw [content, hvarint]
  rfl

theorem decoderReadUint32_stepsOver {number : UInt32}
    (hread : decoderReadUint32 wireType bytes = some (number, rest)) :
    StepsOver wireType bytes rest := by
  obtain ⟨_, hword, -⟩ := store_ok hread
  exact decoderReadUint64_stepsOver hword

theorem decoderReadBytes_stepsOver {slice : List UInt8}
    (hread : decoderReadBytes wireType bytes = some (slice, rest)) :
    StepsOver wireType bytes rest := by
  obtain ⟨⟨size, left⟩, hlength, hslice⟩ := Option.bind_eq_some_iff.1 hread
  rw [decoderReadLengthDelimited] at hlength
  split at hlength
  · cases hlength
  · rename_i hwire
    rw [not_not] at hwire
    obtain ⟨⟨number, between⟩, hvarint, hlength⟩ := Option.bind_eq_some_iff.1 hlength
    obtain ⟨value, htaken, rfl⟩ := decoderReadVarint_ok hvarint
    simp only at hlength
    split at hlength
    · cases hlength
    · cases hlength
      refine ⟨some value, ?_⟩
      rw [hwire, content, htaken]
      have hafter := decoderSlice_ok hslice
      rw [UInt64.toNat_ofNat'] at hafter
      change ((after (value % 2 ^ 64) _).map fun rest => (some value, rest)) = _
      rw [hafter]
      rfl

theorem decoderSubMessageDecode_stepsOver {α : Type} {decodeInner : List UInt8 → Option α}
    {message : α}
    (hread : decoderSubMessageDecode decodeInner wireType bytes = some (message, rest)) :
    StepsOver wireType bytes rest := by
  obtain ⟨⟨slice, left⟩, hbytes, hmessage⟩ := Option.bind_eq_some_iff.1 hread
  obtain ⟨inner, -, hpair⟩ := Option.bind_eq_some_iff.1 hmessage
  cases hpair
  exact decoderReadBytes_stepsOver hbytes

theorem repeatedInfoDecode_stepsOver {info counted : RepeatedInfo}
    (hread : repeatedInfoDecode info wireType bytes = some (counted, rest)) :
    StepsOver wireType bytes rest := by
  rw [repeatedInfoDecode] at hread
  obtain ⟨_, hbytes, -⟩ := store_ok hread
  exact decoderReadBytes_stepsOver hbytes

theorem decoderSkipField_ok {σ : Type} {message left : σ}
    (hskip : decoderSkipField wireType message bytes = some (left, rest)) :
    StepsOver wireType bytes rest ∧ left = message := by
  unfold decoderSkipField at hskip
  split at hskip
  · obtain ⟨_, hvarint, rfl⟩ := store_ok hskip
    have hread : decoderReadUint64 0 bytes = some (_, rest) := hvarint
    exact ⟨decoderReadUint64_stepsOver hread, rfl⟩
  · obtain ⟨_, hslice, rfl⟩ := store_ok hskip
    refine ⟨⟨none, ?_⟩, rfl⟩
    rw [content, decoderSlice_ok hslice]
    rfl
  · obtain ⟨_, hbytes, rfl⟩ := store_ok hskip
    exact ⟨decoderReadBytes_stepsOver hbytes, rfl⟩
  · obtain ⟨_, hslice, rfl⟩ := store_ok hskip
    refine ⟨⟨none, ?_⟩, rfl⟩
    rw [content, decoderSlice_ok hslice]
    rfl
  · cases hskip

/-- A turn of the loop of a decoder takes something, as long as its fields step
over their contents. -/
theorem fieldStep_shortens {σ : Type} {field : Nat → Nat → σ → List UInt8 → Option (σ × List UInt8)}
    (hfield : ∀ number wireType message bytes left rest, field number wireType message bytes =
        some (left, rest) → StepsOver wireType bytes rest) : Scan.Shortens (fieldStep field) := by
  intro message bytes left rest hstep
  obtain ⟨⟨⟨number, wireType⟩, between⟩, htag, hrun⟩ := Option.bind_eq_some_iff.1 hstep
  obtain ⟨tag, hvarint, -⟩ := decoderReadTag_ok htag
  obtain ⟨_, hcontent⟩ := hfield _ _ _ _ _ _ hrun
  exact Nat.lt_of_le_of_lt (content_le hcontent) (varint_shortens hvarint)

end PbTools

end GradidoBlockchain
