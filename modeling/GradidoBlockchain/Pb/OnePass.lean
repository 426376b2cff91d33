import GradidoBlockchain.Pb.Measured

/-!
# Counting first

pbtools goes over a message twice where it has repeated messages in it: it counts them, and
reads them when it has room for so many. A decoder that reads each of them where it comes upon
it decodes the same.
-/

namespace GradidoBlockchain

open WireFormat

namespace PbTools

variable {α σ : Type} {tag : Nat} {init : α} {decodeInner : List UInt8 → Option α}
  {field : Nat → Nat → σ → List UInt8 → Option (σ × List UInt8)}

/-! ### The two decoders -/

/-- A field of a message whose items are counted. -/
def countedField (tag : Nat) (field : Nat → Nat → σ → List UInt8 → Option (σ × List UInt8))
    (number wireType : Nat) (state : σ × RepeatedInfo) (bytes : List UInt8) :
    Option ((σ × RepeatedInfo) × List UInt8) :=
  if number = tag then store (repeatedInfoDecode state.2 wireType bytes) fun info => (state.1, info)
  else store (field number wireType state.1 bytes) fun message => (message, state.2)

/-- A field of a message whose items are read. -/
def appendedField (tag : Nat) (decodeInner : List UInt8 → Option α)
    (field : Nat → Nat → σ → List UInt8 → Option (σ × List UInt8)) (number wireType : Nat)
    (state : σ × List α) (bytes : List UInt8) : Option ((σ × List α) × List UInt8) :=
  if number = tag then
    store (decoderSubMessageDecode decodeInner wireType bytes) fun item =>
      (state.1, state.2 ++ [item])
  else store (field number wireType state.1 bytes) fun message => (message, state.2)

/-- The items are counted, and then read. -/
def twoPasses (tag : Nat) (init : α) (decodeInner : List UInt8 → Option α)
    (field : Nat → Nat → σ → List UInt8 → Option (σ × List UInt8)) (start : σ)
    (bytes : List UInt8) : Option (σ × List α) := do
  let (message, info) ← decodeFields (countedField tag field) (start, .init) bytes
  let items ← decodeRepeatedInner tag init decodeInner info
  some (message, items)

/-- The items are read at once. -/
def onePass (tag : Nat) (decodeInner : List UInt8 → Option α)
    (field : Nat → Nat → σ → List UInt8 → Option (σ × List UInt8)) (start : σ) :
    List UInt8 → Option (σ × List α) :=
  decodeFields (appendedField tag decodeInner field) (start, [])

theorem MeasuredFields.appended (hfield : MeasuredFields field) :
    MeasuredFields (appendedField tag decodeInner field) := by
  intro number wireType state
  unfold appendedField
  split
  · exact Measured.subMessage.store _
  · exact (hfield number wireType state.1).store _

theorem MeasuredFields.counted_shortens (hfield : MeasuredFields field) :
    Scan.Shortens (fieldStep (countedField tag field)) := by
  apply fieldStep_shortens
  intro number wireType state bytes left rest hrun
  rw [countedField] at hrun
  split at hrun
  · obtain ⟨_, hread, -⟩ := store_ok hrun
    exact repeatedInfoDecode_stepsOver hread
  · obtain ⟨_, hread, -⟩ := store_ok hrun
    exact (hfield number wireType state.1).stepsOver _ _ _ hread

/-! ### The second pass -/

/-- The second pass takes no more turns than there are bytes. -/
theorem decodeRepeatedFrom_of_le {fuel more left : Nat} {bytes : List UInt8}
    (hle : bytes.length ≤ fuel) (hmore : fuel ≤ more) :
    decodeRepeatedFrom tag init decodeInner more left bytes =
      decodeRepeatedFrom tag init decodeInner fuel left bytes := by
  induction fuel, left, bytes using decodeRepeatedFrom.induct generalizing more with
  | case1 fuel bytes => simp only [decodeRepeatedFrom]
  | case2 fuel left => simp only [decodeRepeatedFrom]
  | case3 left byte bytes => exact absurd hle (Nat.not_succ_le_zero _)
  | case4 fuel left byte bytes ih ihskip =>
      obtain ⟨more, rfl⟩ := Nat.exists_eq_add_of_lt (Nat.lt_of_succ_le hmore)
      rw [decodeRepeatedFrom, decodeRepeatedFrom]
      cases htag : decoderReadTag (byte :: bytes) with
      | none => rfl
      | some read =>
          obtain ⟨⟨number, wireType⟩, between⟩ := read
          obtain ⟨_, hvarint, -⟩ := decoderReadTag_ok htag
          have hbetween := varint_shortens hvarint
          rw [List.length_cons] at hle hbetween
          simp only [Option.bind_eq_bind, Option.bind_some]
          split
          · cases hread : decoderSubMessageDecode decodeInner 2 between with
            | none => rfl
            | some taken =>
                obtain ⟨_, hcontent⟩ := decoderSubMessageDecode_stepsOver hread
                have hrest := content_le hcontent
                rw [Option.bind_some, Option.bind_some, ih taken.2 (by omega) (by omega)]
          · cases hskip : decoderSkipField wireType () between with
            | none => rfl
            | some taken =>
                obtain ⟨_, hcontent⟩ := (decoderSkipField_ok hskip).1
                have hrest := content_le hcontent
                rw [Option.bind_some, Option.bind_some, ihskip taken.2 (by omega) (by omega)]

/-- The items that are still to come, read from the bytes. -/
def itemsFrom (tag : Nat) (init : α) (decodeInner : List UInt8 → Option α) (left : Nat)
    (bytes : List UInt8) : Option (List α) :=
  decodeRepeatedFrom tag init decodeInner bytes.length left bytes

theorem itemsFrom_zero (bytes : List UInt8) : itemsFrom tag init decodeInner 0 bytes = some [] := by
  simp only [itemsFrom, decodeRepeatedFrom]

section Turns

variable {number wireType left : Nat} {bytes between rest : List UInt8}

theorem itemsFrom_item (htag : decoderReadTag bytes = some ((tag, wireType), between)) :
    itemsFrom tag init decodeInner (left + 1) bytes =
      (decoderSubMessageDecode decodeInner 2 between).bind fun taken =>
      (itemsFrom tag init decodeInner left taken.2).map fun others => taken.1 :: others := by
  obtain ⟨_, hvarint, -⟩ := decoderReadTag_ok htag
  have hbetween := varint_shortens hvarint
  cases bytes with
  | nil => cases hbetween
  | cons byte bytes =>
      rw [List.length_cons] at hbetween
      rw [itemsFrom, List.length_cons, decodeRepeatedFrom, htag]
      simp only [Option.bind_eq_bind, Option.bind_some, if_true]
      cases hread : decoderSubMessageDecode decodeInner 2 between with
      | none => rfl
      | some taken =>
          obtain ⟨_, hcontent⟩ := decoderSubMessageDecode_stepsOver hread
          have hrest := content_le hcontent
          simp only [Option.bind_some]
          rw [itemsFrom,
            decodeRepeatedFrom_of_le (Nat.le_refl _) (by omega : taken.2.length ≤ bytes.length)]
          cases decodeRepeatedFrom tag init decodeInner taken.2.length left taken.2 <;> rfl

theorem itemsFrom_other (htag : decoderReadTag bytes = some ((number, wireType), between))
    (hother : number ≠ tag) (hskip : decoderSkipField wireType () between = some ((), rest)) :
    itemsFrom tag init decodeInner left bytes = itemsFrom tag init decodeInner left rest := by
  cases left with
  | zero => rw [itemsFrom_zero, itemsFrom_zero]
  | succ left =>
      obtain ⟨_, hvarint, -⟩ := decoderReadTag_ok htag
      have hbetween := varint_shortens hvarint
      obtain ⟨_, hcontent⟩ := (decoderSkipField_ok hskip).1
      have hrest := content_le hcontent
      cases bytes with
      | nil => cases hbetween
      | cons byte bytes =>
          rw [List.length_cons] at hbetween
          rw [itemsFrom, List.length_cons, decodeRepeatedFrom, htag]
          simp only [Option.bind_eq_bind, Option.bind_some, if_neg hother, hskip]
          exact decodeRepeatedFrom_of_le (Nat.le_refl _) (by omega)

/-- What can be read of a message that pbtools can hold can be stepped over. -/
theorem skip_of_stepsOver (hsteps : StepsOver wireType bytes rest)
    (hlength : bytes.length < intMax) : decoderSkipField wireType () bytes = some ((), rest) := by
  obtain ⟨held, hcontent⟩ := hsteps
  obtain ⟨inner, rfl, hinner⟩ := content_split hcontent
  have hsmall : wireType = 2 → ∀ length ∈ held, length % wordSize < intMax := by
    intro hwire length hmem
    rw [hwire, content] at hinner
    obtain ⟨⟨value, left⟩, hvarint, hrest⟩ := Option.bind_eq_some_iff.1 hinner
    obtain ⟨_, hafter, hpair⟩ := Option.map_eq_some_iff.1 hrest
    cases hpair
    cases hmem
    have hle : value % wordSize ≤ left.length := (after_eq_some hafter).1
    have hshort := varint_shortens hvarint
    rw [List.length_append] at hlength
    change value % wordSize < intMax
    omega
  rw [(Measured.skip ()).alone inner held hinner rest, Measured.skip_content hinner hsmall]
  rfl

theorem subMessage_of_bytes {slice : List UInt8}
    (hbytes : decoderReadBytes wireType bytes = some (slice, rest)) :
    decoderSubMessageDecode decodeInner wireType bytes =
      (decodeInner slice).map fun item => (item, rest) := by
  rw [decoderSubMessageDecode, hbytes]
  change (decodeInner slice).bind _ = _
  cases decodeInner slice <;> rfl

/-! ### The two passes together -/

/-- The items that have been read are those that have been counted; those that are counted from here
on will be read after them. -/
def ReadAlong (tag : Nat) (init : α) (decodeInner : List UInt8 → Option α) (info : RepeatedInfo)
    (items : List α) (bytes : List UInt8) : Prop :=
  if info.length = 0 then items = []
  else ∀ left, decodeRepeatedInner tag init decodeInner ⟨info.length + left, info.slice⟩ =
    (itemsFrom tag init decodeInner left bytes).map fun others => items ++ others

theorem ReadAlong.other {info : RepeatedInfo} {items : List α}
    (halong : ReadAlong tag init decodeInner info items bytes)
    (htag : decoderReadTag bytes = some ((number, wireType), between)) (hother : number ≠ tag)
    (hskip : decoderSkipField wireType () between = some ((), rest)) :
    ReadAlong tag init decodeInner info items rest := by
  rw [ReadAlong] at halong ⊢
  split at halong
  · rw [if_pos ‹_›, halong]
  · rw [if_neg ‹_›]
    intro left
    rw [halong left, itemsFrom_other htag hother hskip]

/-- What has been counted with one item more. -/
def RepeatedInfo.next (info : RepeatedInfo) (bytes : List UInt8) : RepeatedInfo :=
  ⟨info.length + 1, if info.length = 0 then bytes else info.slice⟩

theorem repeatedInfoDecode_eq (info : RepeatedInfo) :
    repeatedInfoDecode info wireType bytes =
      store (decoderReadBytes wireType bytes) fun _ => info.next bytes := by
  rw [repeatedInfoDecode, RepeatedInfo.next]
  split
  · rfl
  · rfl

/-- An item that is counted will be read, or nothing will. -/
theorem ReadAlong.next {info : RepeatedInfo} {items : List α}
    (halong : ReadAlong tag init decodeInner info items bytes)
    (htag : decoderReadTag bytes = some ((tag, 2), between)) {slice : List UInt8}
    (hbytes : decoderReadBytes 2 between = some (slice, rest)) (left : Nat) :
    decodeRepeatedInner tag init decodeInner
        ⟨(info.next between).length + left, (info.next between).slice⟩ =
      (decodeInner slice).bind fun item =>
        (itemsFrom tag init decodeInner left rest).map fun others =>
          (items ++ [item]) ++ others := by
  have hmessage : decoderSubMessageDecode decodeInner 2 between = _ := subMessage_of_bytes hbytes
  rw [ReadAlong] at halong
  rw [RepeatedInfo.next]
  split at halong
  · rename_i hzero
    simp only [hzero, if_true, halong]
    rw [Nat.zero_add, Nat.add_comm, decodeRepeatedInner]
    simp only [hmessage]
    cases decodeInner slice with
    | none => rfl
    | some item =>
        simp only [Option.map_some, Option.bind_eq_bind, Option.bind_some]
        rw [itemsFrom]
        cases decodeRepeatedFrom tag init decodeInner rest.length left rest <;> rfl
  · rename_i hne
    simp only [if_neg hne]
    rw [Nat.add_assoc, Nat.add_comm 1, halong, itemsFrom_item htag, hmessage]
    cases decodeInner slice with
    | none => rfl
    | some item =>
        simp only [Option.map_some, Option.bind_some, Option.map_map]
        refine congrArg (fun join => Option.map join (itemsFrom tag init decodeInner left rest))
          (funext fun others => ?_)
        exact List.append_cons items item others

theorem wireType_of_bytes {slice : List UInt8}
    (hbytes : decoderReadBytes wireType bytes = some (slice, rest)) : wireType = 2 := by
  by_contra hwire
  rw [decoderReadBytes, decoderReadLengthDelimited, if_pos hwire] at hbytes
  cases hbytes

/-- Counting goes on from what has been counted. -/
theorem counted_grows (hfield : MeasuredFields field) {state final : σ × RepeatedInfo}
    (hdecode : decodeFields (countedField tag field) state bytes = some final)
    (hne : state.2.length ≠ 0) : ∃ more, final.2 = ⟨state.2.length + more, state.2.slice⟩ := by
  refine Scan.scan_induct
    (motive := fun state _ final =>
      state.2.length ≠ 0 → ∃ more, final.2 = ⟨state.2.length + more, state.2.slice⟩)
    hfield.counted_shortens (fun state _ => ⟨0, rfl⟩)
    (fun state byte bytes after rest final hstep _ ih hne => ?_) hdecode hne
  obtain ⟨⟨⟨number, wireType⟩, between⟩, -, hrun⟩ := Option.bind_eq_some_iff.1 hstep
  change countedField tag field number wireType state between = _ at hrun
  rw [countedField] at hrun
  split at hrun
  · rw [repeatedInfoDecode_eq] at hrun
    obtain ⟨info, hread, rfl⟩ := store_ok hrun
    obtain ⟨_, -, rfl⟩ := store_ok hread
    obtain ⟨more, hfinal⟩ := ih (Nat.succ_ne_zero _)
    refine ⟨1 + more, ?_⟩
    rw [hfinal, RepeatedInfo.next]
    simp only [if_neg hne, Nat.add_assoc]
  · obtain ⟨_, -, rfl⟩ := store_ok hrun
    exact ih hne

end Turns

/-- Both decoders, from wherever the counting and the reading have come to. -/
theorem passes_along (hfield : MeasuredFields field) {message : σ} {info : RepeatedInfo}
    {items : List α} {bytes : List UInt8}
    (hlength : bytes.length ≤ intMax) (halong : ReadAlong tag init decodeInner info items bytes) :
    ((decodeFields (countedField tag field) (message, info) bytes).bind fun state =>
      (decodeRepeatedInner tag init decodeInner state.2).map fun items => (state.1, items)) =
        decodeFields (appendedField tag decodeInner field) (message, items) bytes := by
  induction hsize : bytes.length using Nat.strongRecOn generalizing message info items bytes with
  | ind size ih =>
      cases bytes with
      | nil =>
          change (decodeRepeatedInner tag init decodeInner info).map _ = some (message, items)
          rw [ReadAlong] at halong
          split at halong
          · rw [decodeRepeatedInner, ‹info.length = 0›, halong]
            rfl
          · have hread := halong 0
            rw [itemsFrom_zero, Option.map_some, List.append_nil] at hread
            have hinfo : (⟨info.length + 0, info.slice⟩ : RepeatedInfo) = info := rfl
            rw [← hinfo, hread]
            rfl
      | cons byte bytes =>
          rw [decodeFields, decodeFields, Scan.scan_cons hfield.counted_shortens,
            Scan.scan_cons hfield.appended.shortens, fieldStep, fieldStep]
          cases htag : decoderReadTag (byte :: bytes) with
          | none => rfl
          | some read =>
              obtain ⟨⟨number, wireType⟩, between⟩ := read
              obtain ⟨_, hvarint, -⟩ := decoderReadTag_ok htag
              have hbetween := varint_shortens hvarint
              simp only [Option.bind_eq_bind, Option.bind_some]
              rw [countedField, appendedField]
              split
              · subst ‹number = tag›
                rw [repeatedInfoDecode_eq]
                cases hbytes : decoderReadBytes wireType between with
                | none =>
                    rw [decoderSubMessageDecode, hbytes]
                    rfl
                | some taken =>
                    obtain ⟨slice, rest⟩ := taken
                    cases wireType_of_bytes hbytes
                    obtain ⟨_, hcontent⟩ := decoderReadBytes_stepsOver hbytes
                    have hrest := content_le hcontent
                    have hnext := halong.next htag hbytes
                    rw [subMessage_of_bytes hbytes]
                    change ((decodeFields (countedField number field) (message, info.next between)
                        rest).bind fun state => _) = _
                    cases hinner : decodeInner slice with
                    | none =>
                        cases hdecode : decodeFields (countedField number field)
                          (message, info.next between) rest with
                        | none => rfl
                        | some final =>
                            obtain ⟨more, hfinal⟩ :=
                              counted_grows hfield hdecode (Nat.succ_ne_zero _)
                            rw [Option.bind_some, hfinal, hnext more, hinner]
                            rfl
                    | some item =>
                        have halong' : ReadAlong number init decodeInner (info.next between)
                            (items ++ [item]) rest := by
                          rw [ReadAlong,
                            if_neg (show (info.next between).length ≠ 0 from Nat.succ_ne_zero _)]
                          intro left
                          rw [hnext left, hinner]
                          rfl
                        rw [List.length_cons] at hlength hbetween hsize
                        exact ih rest.length (by omega) (by omega) halong' rfl
              · cases hrun : field number wireType message between with
                | none => rfl
                | some taken =>
                    obtain ⟨left, rest⟩ := taken
                    have hsteps := (hfield number wireType message).stepsOver _ _ _ hrun
                    obtain ⟨_, hcontent⟩ := id hsteps
                    have hrest := content_le hcontent
                    rw [List.length_cons] at hlength hbetween hsize
                    have hskip := skip_of_stepsOver hsteps (by omega)
                    have hle : rest.length ≤ intMax := by omega
                    exact ih rest.length (by omega) hle (halong.other htag ‹_› hskip) rfl

/-- Counting first decodes what reading at once does. -/
theorem twoPasses_eq_onePass (hfield : MeasuredFields field) (start : σ) {bytes : List UInt8}
    (hlength : bytes.length ≤ intMax) :
    twoPasses tag init decodeInner field start bytes =
      onePass tag decodeInner field start bytes := by
  have halong : ReadAlong tag init decodeInner .init [] bytes := rfl
  rw [onePass, ← passes_along hfield hlength halong, twoPasses]
  cases decodeFields (countedField tag field) (start, .init) bytes with
  | none => rfl
  | some state =>
      change (decodeRepeatedInner tag init decodeInner state.2).bind _ =
        (decodeRepeatedInner tag init decodeInner state.2).map _
      cases decodeRepeatedInner tag init decodeInner state.2 <;> rfl

end PbTools

end GradidoBlockchain
