import GradidoBlockchain.Lib.Call
import GradidoBlockchain.Lib.Owned
import GradidoBlockchain.Validate.Common

/-!
# What a refusal leaves behind

`grd_error_details` holds copies of up to three texts. Each copy is a block of the caller's
allocator or, where that has no room, of the host, and a flag says which. The details are filled
once: until they are released and initialised again they keep the first refusal, and nothing is
validated with them.
-/

namespace GradidoBlockchain

open Fallible Fallible.Call Ownership

namespace Validate

/-! ### The details -/

/-- Where the copy of a text lies. A block of arnm is given back with its size. -/
inductive Source
  | heap
  | arnm (size : ℕ)
  deriving DecidableEq, Repr

/-- The blocks that have been taken and given back. -/
abbrev Memory := Supply Source

/-- A copied text, with the number of its block. -/
structure Copied where
  block : ℕ
  text : String
  deriving DecidableEq

/-- `grd_error_details`. What the allocator grants is a matter of the room. -/
structure ErrorDetails where
  message : Option Copied
  actual : Option Copied
  expected : Option Copied
  usedDefaultMallocFlag : ℕ
  deriving DecidableEq

/-- The texts of a refusal, each of which may be missing. -/
structure Report where
  message : Option String
  actual : Option String
  expected : Option String
  deriving DecidableEq

/-- No text at all. -/
def Report.none : Report := ⟨.none, .none, .none⟩

/-- The fields of the details. -/
inductive Part
  | message
  | actual
  | expected
  deriving DecidableEq, Repr

/-- The bit of `used_default_malloc_flag` that stands for a field. -/
def Part.flag : Part → ℕ
  | .message => 1
  | .actual => 2
  | .expected => 4

namespace ErrorDetails

/-- `grd_error_details_init`. -/
def init : ErrorDetails := ⟨none, none, none, 0⟩

def get (details : ErrorDetails) : Part → Option Copied
  | .message => details.message
  | .actual => details.actual
  | .expected => details.expected

def put (part : Part) (copied : Copied) (details : ErrorDetails) : ErrorDetails :=
  match part with
  | .message => { details with message := some copied }
  | .actual => { details with actual := some copied }
  | .expected => { details with expected := some copied }

/-- `used_default_malloc_flag |= used`. -/
def use (used : ℕ) (details : ErrorDetails) : ErrorDetails :=
  { details with usedDefaultMallocFlag := details.usedDefaultMallocFlag ||| used }

/-- `grd_error_details_is_initalized_and_empty`. -/
def isInitalizedAndEmpty (details : ErrorDetails) : Bool :=
  details.message.isNone && details.actual.isNone && details.expected.isNone &&
    details.usedDefaultMallocFlag == 0

/-- The block of a field as `release_field` gives it back: its allocator read off the flag, its
size off the text. -/
def handle (details : ErrorDetails) (part : Part) (copied : Copied) : Handle Source :=
  ⟨if part.flag = part.flag &&& details.usedDefaultMallocFlag then .heap
      else .arnm (copied.text.utf8ByteSize + 1), copied.block⟩

/-- What `release_field` gives back of a field. -/
def held (details : ErrorDetails) (part : Part) : Option (Handle Source) :=
  (details.get part).map (details.handle part)

/-- What `grd_error_details_release` gives back, in its order. -/
def handles (details : ErrorDetails) : List (Option (Handle Source)) :=
  [Part.expected, Part.actual, Part.message].map details.held

/-- `grd_error_details_release`. The details keep their pointers. -/
def release (details : ErrorDetails) (memory : Memory) : Memory :=
  details.handles.foldl Supply.release memory

/-- The texts the getters show. -/
def shown (details : ErrorDetails) : Report :=
  ⟨details.message.map Copied.text, details.actual.map Copied.text,
    details.expected.map Copied.text⟩

end ErrorDetails

/-- `alloc_and_fill_field`: a block of the allocator, or else one of the host and the flag. -/
def allocAndFillField (input : String) (flag : ℕ) : Call ArnmResult Memory (Copied × ℕ) := do
  let granted ← attempt (ask .outOfMemory)
  let source := if granted.isOk then .arnm (input.utf8ByteSize + 1) else Source.heap
  plain fun memory =>
    (.ok (⟨memory.opened.length, input⟩, if granted.isOk then 0 else flag), memory.openNext source)

/-- One of the three steps of `grd_error_details_fill`. -/
def fillField (part : Part) (input : Option String) :
    Call ArnmResult (ErrorDetails × Memory) Unit :=
  match input with
  | none => pure ()
  | some input => do
      let (copied, used) ← within Prod.snd (fun memory state => (state.1, memory))
          (allocAndFillField input part.flag)
      write fun state => ((state.1.put part copied).use used, state.2)

/-- `grd_error_details_fill`. -/
def fill (report : Report) : Call ArnmResult (ErrorDetails × Memory) Unit := do
  check fun state =>
    if state.1.message.isSome ∨ state.1.actual.isSome ∨ state.1.expected.isSome then
        .error .invalidState
      else .ok ()
  fillField .message report.message
  fillField .actual report.actual
  fillField .expected report.expected

/-! ### Validating -/

/-- `actual` as a text; `grd_error_details_fill_actual_is_number` writes a number out. -/
def Actual.report : Actual → Option String
  | .none => .none
  | .text given => some given
  | .number given => some (toString given.toInt)

/-- The texts of a refusal. -/
def Refusal.report (refusal : Refusal) : Report :=
  ⟨some refusal.message, refusal.actual.report, refusal.expected⟩

/-- What `grdi_validate_complete_transaction` answers. -/
inductive Answer
  | success
  | invalidErrorDetailsState
  | refused (code : Code)
  deriving DecidableEq, Repr

/-- The answer of the checks alone. -/
def verdict (options : Options) (tx : Runtime.CompleteTransaction) : Answer :=
  match validateCommon options tx with
  | .ok () => .success
  | .error refusal => .refused refusal.code

/-- The report of the checks, which is none if they pass. -/
def reportOf (options : Options) (tx : Runtime.CompleteTransaction) : Report :=
  match validateCommon options tx with
  | .ok () => .none
  | .error refusal => refusal.report

/-- A fill of details that may be missing, whose outcome nobody looks at. -/
def fillInto (report : Report) : Call ArnmResult (Option ErrorDetails × Memory) Unit :=
  fun state room =>
  match state.1 with
  | none => (.ok (), state, room)
  | some details =>
      let (_, left, rest) := fill report (details, state.2) room
      (.ok (), (some left.1, left.2), rest)

/-- `grdi_validate_complete_transaction`, with error details or without. -/
def validateCompleteTransaction (options : Options) (tx : Runtime.CompleteTransaction) :
    Call ArnmResult (Option ErrorDetails × Memory) Answer := do
  let details ← gets Prod.fst
  if ∃ given ∈ details, given.isInitalizedAndEmpty = false then pure .invalidErrorDetailsState
  else
    match validateCommon options tx with
    | .ok () => pure .success
    | .error refusal => do
        fillInto refusal.report
        pure (.refused refusal.code)

/-! ### Filling -/

variable {options : Options} {tx : Runtime.CompleteTransaction} {state left : ErrorDetails × Memory}
  {memory : Memory} {room rest : Room} {report : Report}

/-- A field is filled whether the allocator has room or not. -/
theorem allocAndFillField_run (input : String) (flag : ℕ) (memory : Memory) (room : Room) :
    ∃ (granted : Bool) (rest : Room), allocAndFillField input flag memory room =
      (.ok (⟨memory.opened.length, input⟩, if granted then 0 else flag),
        memory.openNext (if granted then .arnm (input.utf8ByteSize + 1) else .heap), rest) := by
  rcases room with _ | ⟨_ | _, rest⟩
  · exact ⟨true, [], rfl⟩
  · exact ⟨false, rest, rfl⟩
  · exact ⟨true, rest, rfl⟩

/-- The blocks of the details are held by nobody else, and no flag is up without its field. -/
structure Sound (state : ErrorDetails × Memory) : Prop where
  flag_lt : state.1.usedDefaultMallocFlag < 8
  unused : ∀ part, state.1.get part = none → part.flag &&& state.1.usedDefaultMallocFlag = 0
  owns : Owns state.2 (state.1.handles.filterMap id)

@[simp] theorem ErrorDetails.get_put (details : ErrorDetails) (part other : Part)
    (copied : Copied) :
    (details.put part copied).get other =
      if other = part then some copied else details.get other := by
  cases part <;> cases other <;> rfl

@[simp] theorem ErrorDetails.get_use (details : ErrorDetails) (used : ℕ) (part : Part) :
    (details.use used).get part = details.get part := by
  cases part <;> rfl

/-- A flag is seen under its own field alone. -/
theorem flag_and_or {part other : Part} {used flags : ℕ} (hused : used = 0 ∨ used = part.flag)
    (hflags : flags < 8) (hne : other ≠ part) :
    other.flag &&& (flags ||| used) = other.flag &&& flags := by
  obtain rfl | rfl := hused
  · rw [Nat.or_zero]
  · have hbits : ∀ flags < 8, other ≠ part →
        other.flag &&& (flags ||| part.flag) = other.flag &&& flags := by
      cases part <;> cases other <;> decide
    exact hbits flags hflags hne

/-- The flag of a field is up just when its block is one of the host. -/
theorem flag_eq_and_or {part : Part} {flags : ℕ} (granted : Bool) (hflags : flags < 8)
    (hunused : part.flag &&& flags = 0) :
    part.flag = part.flag &&& (flags ||| if granted then 0 else part.flag) ↔ granted = false := by
  have hbits : ∀ flags < 8, part.flag &&& flags = 0 →
      (part.flag = part.flag &&& (flags ||| if granted then 0 else part.flag) ↔
        granted = false) := by
    cases part <;> cases granted <;> decide
  exact hbits flags hflags hunused

/-- A block more among those of the fields. -/
theorem perm_of_added {before after : Part → Option (Handle Source)} {part : Part}
    {added : Handle Source} (hbefore : before part = none) (hafter : after part = some added)
    (hsame : ∀ other ≠ part, after other = before other) :
    (added :: ([Part.expected, Part.actual, Part.message].map before).filterMap id).Perm
      (([Part.expected, Part.actual, Part.message].map after).filterMap id) := by
  have hfields : ∀ held : Part → Option (Handle Source), ([Part.expected, Part.actual,
        Part.message].map held).filterMap id =
      (held .expected).toList ++ ((held .actual).toList ++ (held .message).toList) := by
    intro held
    rcases hexpected : held .expected with _ | _ <;> rcases hactual : held .actual with _ | _ <;>
      rcases hmessage : held .message with _ | _ <;> simp [hexpected, hactual, hmessage]
  rw [hfields, hfields]
  cases part with
  | expected =>
      rw [hbefore, hafter, hsame .actual (by decide), hsame .message (by decide)]
      exact .refl _
  | actual =>
      rw [hbefore, hafter, hsame .expected (by decide), hsame .message (by decide)]
      exact List.perm_middle.symm
  | message =>
      rw [hbefore, hafter, hsame .expected (by decide), hsame .actual (by decide),
        ← List.append_assoc, ← List.append_assoc]
      exact List.perm_middle.symm

/-- The details and the memory with one more text, its block one of the allocator
if that had room. -/
def withText (granted : Bool) (part : Part) (input : String)
    (state : ErrorDetails × Memory) : ErrorDetails × Memory :=
  ((state.1.put part ⟨state.2.opened.length, input⟩).use (if granted then 0 else part.flag),
    state.2.openNext (if granted then .arnm (input.utf8ByteSize + 1) else .heap))

theorem fillField_run (part : Part) (input : String) (state : ErrorDetails × Memory) (room : Room) :
    ∃ (granted : Bool) (rest : Room), fillField part (some input) state room =
      (.ok (), withText granted part input state, rest) := by
  obtain ⟨granted, rest, hcopied⟩ := allocAndFillField_run input part.flag state.2 room
  refine ⟨granted, rest, ?_⟩
  rw [fillField, bind_run, within_run, hcopied]
  rfl

@[simp] theorem ErrorDetails.flag_put (details : ErrorDetails) (part : Part) (copied : Copied) :
    (details.put part copied).usedDefaultMallocFlag = details.usedDefaultMallocFlag := by
  cases part <;> rfl

@[simp] theorem get_withText (granted : Bool) (part other : Part) (input : String)
    (state : ErrorDetails × Memory) :
    (withText granted part input state).1.get other =
      if other = part then some ⟨state.2.opened.length, input⟩ else state.1.get other := by
  rw [withText, ErrorDetails.get_use, ErrorDetails.get_put]

theorem flag_withText (granted : Bool) (part : Part) (input : String)
    (state : ErrorDetails × Memory) :
    (withText granted part input state).1.usedDefaultMallocFlag =
      state.1.usedDefaultMallocFlag ||| if granted then 0 else part.flag := by
  rw [← ErrorDetails.flag_put state.1 part ⟨state.2.opened.length, input⟩]
  rfl

/-- A field that is empty takes a text, and the blocks of the others are given back as before. -/
theorem Sound.withText {part : Part} (hsound : Sound state) (hempty : state.1.get part = none)
    (granted : Bool) (input : String) : Sound (withText granted part input state) := by
  have hused : (if granted then 0 else part.flag) = 0 ∨
      (if granted then 0 else part.flag) = part.flag := by
    cases granted
    · exact .inr rfl
    · exact .inl rfl
  have hothers : ∀ other ≠ part, other.flag &&&
        (Validate.withText granted part input state).1.usedDefaultMallocFlag =
      other.flag &&& state.1.usedDefaultMallocFlag := by
    intro other hne
    rw [flag_withText]
    exact flag_and_or hused hsound.flag_lt hne
  refine ⟨?_, fun other hother => ?_, ?_⟩
  · rw [flag_withText]
    apply Nat.or_lt_two_pow (n := 3) hsound.flag_lt
    cases part <;> cases granted <;> decide
  · rw [get_withText] at hother
    split at hother
    · cases hother
    · rename_i hne
      exact (hothers other hne).trans (hsound.unused other hother)
  · refine (hsound.owns.openNext _).perm (@perm_of_added _ _ part _ ?_ ?_ fun other hne => ?_)
    · rw [ErrorDetails.held, hempty]
      rfl
    · have hflag := flag_eq_and_or granted hsound.flag_lt (hsound.unused part hempty)
      rw [← flag_withText granted part input state] at hflag
      rw [ErrorDetails.held, get_withText, if_pos rfl, Option.map_some, ErrorDetails.handle,
        Supply.next]
      cases granted
      · rw [if_pos (hflag.2 rfl)]
        rfl
      · rw [if_neg (mt hflag.1 nofun)]
        rfl
    · rw [ErrorDetails.held, ErrorDetails.held, get_withText, if_neg hne]
      congr 1
      funext copied
      rw [ErrorDetails.handle, ErrorDetails.handle, hothers other hne]

/-- A field that is empty has its text after it has been filled, and no other field has changed. -/
theorem fillField_fills {part : Part} (input : Option String) (hsound : Sound state)
    (hempty : state.1.get part = none) (room : Room) :
    ∃ left rest, fillField part input state room = (.ok (), left, rest) ∧ Sound left ∧
      (left.1.get part).map Copied.text = input ∧
      ∀ other ≠ part, left.1.get other = state.1.get other := by
  cases input with
  | none => exact ⟨state, room, rfl, hsound, by rw [hempty]; rfl, fun _ _ => rfl⟩
  | some input =>
      obtain ⟨granted, rest, hrun⟩ := fillField_run part input state room
      refine ⟨_, rest, hrun, hsound.withText hempty granted input, ?_, fun other hne => ?_⟩
      · rw [get_withText, if_pos rfl]
        rfl
      · rw [get_withText, if_neg hne]

/-- The details show a report, and their blocks are theirs alone. -/
structure Holds (report : Report) (state : ErrorDetails × Memory) : Prop where
  shown : state.1.shown = report
  sound : Sound state

theorem holds_init {memory : Memory} (howns : Owns memory []) : Holds .none (.init, memory) where
  shown := rfl
  sound := ⟨Nat.zero_lt_succ 7, fun _ _ => Nat.and_zero _, howns⟩

theorem Holds.empty (hholds : Holds .none state) (part : Part) : state.1.get part = none := by
  have hshown := hholds.shown
  rw [ErrorDetails.shown, Report.none, Report.mk.injEq] at hshown
  obtain ⟨hmessage, hactual, hexpected⟩ := hshown
  cases part
  · exact Option.map_eq_none_iff.1 hmessage
  · exact Option.map_eq_none_iff.1 hactual
  · exact Option.map_eq_none_iff.1 hexpected

/-- The details are empty just when they show nothing: no flag is up then. -/
theorem Holds.isEmpty_iff (hholds : Holds report state) :
    state.1.isInitalizedAndEmpty = true ↔ report = .none := by
  constructor
  · intro hempty
    rw [← hholds.shown, ErrorDetails.shown, Report.none]
    simp only [ErrorDetails.isInitalizedAndEmpty, Bool.and_eq_true, Option.isNone_iff_eq_none,
      beq_iff_eq] at hempty
    obtain ⟨⟨⟨hmessage, hactual⟩, hexpected⟩, -⟩ := hempty
    rw [hmessage, hactual, hexpected]
    rfl
  · rintro rfl
    have hflags := hholds.sound.flag_lt
    have hunused := fun part => hholds.sound.unused part (hholds.empty part)
    have hzero : ∀ flags < 8, 1 &&& flags = 0 → 2 &&& flags = 0 → 4 &&& flags = 0 → flags = 0 := by
      decide
    have hflag := hzero _ hflags (hunused .message) (hunused .actual) (hunused .expected)
    have hmessage : state.1.message = none := hholds.empty .message
    have hactual : state.1.actual = none := hholds.empty .actual
    have hexpected : state.1.expected = none := hholds.empty .expected
    rw [ErrorDetails.isInitalizedAndEmpty, hmessage, hactual, hexpected, hflag]
    rfl

/-- Empty details take the whole of a report. -/
theorem fill_empty (hholds : Holds .none state) (report : Report) (room : Room) :
    ∃ left rest, fill report state room = (.ok (), left, rest) ∧ Holds report left := by
  have hempty := hholds.empty
  obtain ⟨first, between, hfirst, hsound, hmessage, hkept⟩ :=
    fillField_fills report.message hholds.sound (hempty .message) room
  obtain ⟨second, after, hsecond, hsound', hactual, hkept'⟩ := fillField_fills report.actual hsound
    ((hkept .actual (by decide)).trans (hempty .actual)) between
  have hexpectedEmpty : second.1.get .expected = none :=
    (hkept' .expected (by decide)).trans ((hkept .expected (by decide)).trans (hempty .expected))
  obtain ⟨third, last, hthird, hsound'', hexpected, hkept''⟩ :=
    fillField_fills report.expected hsound' hexpectedEmpty after
  refine ⟨third, last, ?_, ?_, hsound''⟩
  · have hchecked : (check fun state : ErrorDetails × Memory =>
          if state.1.message.isSome ∨ state.1.actual.isSome ∨ state.1.expected.isSome then
              Except.error ArnmResult.invalidState
            else .ok ()) state room = (.ok (), state, room) := by
      have hnone : ¬(state.1.message.isSome ∨ state.1.actual.isSome ∨ state.1.expected.isSome) := by
        rw [show state.1.message = none from hempty .message,
          show state.1.actual = none from hempty .actual,
          show state.1.expected = none from hempty .expected]
        decide
      rw [check_ok, if_neg hnone]
      exact ⟨rfl, rfl, rfl⟩
    rw [fill, bind_run_ok hchecked, bind_run_ok hfirst, bind_run_ok hsecond]
    exact hthird
  · have hmessage' : third.1.message.map Copied.text = report.message := by
      rw [← hmessage, ← hkept' .message (by decide), ← hkept'' .message (by decide)]
      rfl
    have hactual' : third.1.actual.map Copied.text = report.actual := by
      rw [← hactual, ← hkept'' .actual (by decide)]
      rfl
    have hexpected' : third.1.expected.map Copied.text = report.expected := hexpected
    rw [ErrorDetails.shown, hmessage', hactual', hexpected']

/-- Details that show something are not filled again. -/
theorem fill_refused (hholds : Holds report state) (hsome : report ≠ .none) (other : Report)
    (room : Room) : fill other state room = (.error .invalidState, state, room) := by
  have hfilled : state.1.message.isSome ∨ state.1.actual.isSome ∨ state.1.expected.isSome := by
    by_contra hnone
    simp only [not_or, Bool.not_eq_true, Option.isSome_eq_false_iff, Option.isNone_iff_eq_none]
      at hnone
    obtain ⟨hmessage, hactual, hexpected⟩ := hnone
    apply hsome
    rw [← hholds.shown, ErrorDetails.shown, hmessage, hactual, hexpected]
    rfl
  rw [fill]
  apply bind_run_error
  rw [check_error, if_pos hfilled]
  exact ⟨rfl, rfl, rfl⟩

/-! ### Validating with details -/

/-- What the details show after one more report was brought to them. -/
def Report.orElse (report other : Report) : Report := if report = .none then other else report

/-- With details that show nothing the answer is that of the checks, and the
details show its report. -/
theorem validate_empty (hholds : Holds .none state) (options : Options)
    (tx : Runtime.CompleteTransaction) (room : Room) :
    ∃ left rest, validateCompleteTransaction options tx (some state.1, state.2) room =
        (.ok (verdict options tx), (some left.1, left.2), rest) ∧
      Holds (reportOf options tx) left := by
  have hempty := hholds.isEmpty_iff.2 rfl
  have hready : ¬∃ given ∈ some state.1, given.isInitalizedAndEmpty = false := by
    intro hgiven
    obtain ⟨given, hmem, hfalse⟩ := hgiven
    obtain rfl := Option.some.inj hmem
    rw [hempty] at hfalse
    cases hfalse
  rw [validateCompleteTransaction, bind_run_ok (gets_run _ _ _), if_neg hready, verdict, reportOf]
  rcases validateCommon options tx with refusal | _
  · obtain ⟨left, rest, hfill, hleft⟩ := fill_empty hholds refusal.report room
    refine ⟨left, rest, ?_, hleft⟩
    have hinto : fillInto refusal.report (some state.1, state.2) room =
        (.ok (), (some left.1, left.2), rest) := by
      simp only [fillInto, hfill]
    exact (bind_run_ok hinto).trans rfl
  · exact ⟨state, room, rfl, hholds⟩

/-- With details that show something nothing is validated and nothing changes. -/
theorem validate_filled (hholds : Holds report state) (hsome : report ≠ .none) (options : Options)
    (tx : Runtime.CompleteTransaction) (room : Room) :
    validateCompleteTransaction options tx (some state.1, state.2) room =
      (.ok .invalidErrorDetailsState, (some state.1, state.2), room) := by
  have hfilled : ∃ given ∈ some state.1, given.isInitalizedAndEmpty = false :=
    ⟨state.1, rfl, Bool.eq_false_of_not_eq_true (mt hholds.isEmpty_iff.1 hsome)⟩
  rw [validateCompleteTransaction, bind_run_ok (gets_run _ _ _), if_pos hfilled]
  rfl

/-! ### Over the life of the details -/

/-- The states that details pass through, with what has been reported to them since they were
initialised: each call may be refused room for any text, and each validation comes with its own
options. Details that have been released stand for nothing until they are initialised again. -/
inductive Life : Option Report → ErrorDetails × Memory → Prop
  | init : Life (some .none) (.init, .empty)
  | validated {report : Report} {options : Options} {tx : Runtime.CompleteTransaction}
      {state left : ErrorDetails × Memory} {answer : Answer} {room rest : Room} :
      Life (some report) state →
      validateCompleteTransaction options tx (some state.1, state.2) room =
        (.ok answer, (some left.1, left.2), rest) →
      Life (some (report.orElse (reportOf options tx))) left
  | filled {report other : Report} {state left : ErrorDetails × Memory}
      {outcome : Except ArnmResult Unit} {room rest : Room} : Life (some report) state →
      fill other state room = (outcome, left, rest) → Life (some (report.orElse other)) left
  | released {report : Report} {state : ErrorDetails × Memory} :
      Life (some report) state → Life none (state.1, state.1.release state.2)
  | again {state : ErrorDetails × Memory} : Life none state → Life (some .none) (.init, state.2)

/-- What holds of the details, and of the memory alone once they have been released. -/
def Kept : Option Report → ErrorDetails × Memory → Prop
  | some report, state => Holds report state
  | none, state => Owns state.2 []

theorem Sound.release (hsound : Sound state) : Owns (state.1.release state.2) [] := by
  apply Owns.releaseAll
  rw [List.append_nil]
  exact hsound.owns

theorem Life.kept {reported : Option Report}
    (hlife : Life reported state) : Kept reported state := by
  induction hlife with
  | init => exact holds_init .empty
  | @validated report options tx state left answer room rest _ hrun ih =>
      have hholds : Holds report state := ih
      by_cases hnone : report = .none
      · obtain ⟨filled, last, hvalid, hfilled⟩ := validate_empty (hnone ▸ hholds) options tx room
        rw [hrun, Prod.mk.injEq, Prod.mk.injEq, Prod.mk.injEq, Option.some.injEq] at hvalid
        obtain ⟨-, ⟨hdetails, hmemory⟩, -⟩ := hvalid
        rw [Report.orElse, if_pos hnone, show left = filled from Prod.ext hdetails hmemory]
        exact hfilled
      · rw [validate_filled hholds hnone options tx room, Prod.mk.injEq, Prod.mk.injEq,
          Prod.mk.injEq, Option.some.injEq] at hrun
        obtain ⟨-, ⟨hdetails, hmemory⟩, -⟩ := hrun
        rw [Report.orElse, if_neg hnone, ← show state = left from Prod.ext hdetails hmemory]
        exact hholds
  | @filled report other state left outcome room rest _ hrun ih =>
      have hholds : Holds report state := ih
      by_cases hnone : report = .none
      · obtain ⟨filled, last, hfill, hfilled⟩ := fill_empty (hnone ▸ hholds) other room
        rw [hrun, Prod.mk.injEq, Prod.mk.injEq] at hfill
        rw [Report.orElse, if_pos hnone, hfill.2.1]
        exact hfilled
      · rw [fill_refused hholds hnone other room, Prod.mk.injEq, Prod.mk.injEq] at hrun
        rw [Report.orElse, if_neg hnone, ← hrun.2.1]
        exact hholds
  | released _ ih => exact Sound.release (Holds.sound ih)
  | again _ ih => exact holds_init ih

/-! ### Giving back -/

theorem released_foldl (handles : List (Option (Handle Source))) (memory : Memory) :
    (handles.foldl Supply.release memory).released =
      (handles.filterMap id).reverse ++ memory.released := by
  induction handles generalizing memory with
  | nil => rfl
  | cons handle handles ih =>
      rw [List.foldl_cons, ih]
      cases handle with
      | none => rfl
      | some handle => simp [Supply.release]

/-- Details that show nothing hold no block, and others at least one. -/
theorem Holds.handles_eq_nil_iff (hholds : Holds report state) :
    state.1.handles.filterMap id = [] ↔ report = .none := by
  constructor
  · intro hnil
    have hnone : ∀ part, state.1.get part = none := by
      intro part
      rcases hget : state.1.get part with _ | copied
      · rfl
      · have hmem : state.1.handle part copied ∈ state.1.handles.filterMap id := by
          refine List.mem_filterMap.2
            ⟨some (state.1.handle part copied), List.mem_map.2 ⟨part, ?_, ?_⟩, rfl⟩
          · cases part <;> decide
          · rw [ErrorDetails.held, hget]
            rfl
        rw [hnil] at hmem
        cases hmem
    rw [← hholds.shown, ErrorDetails.shown, show state.1.message = none from hnone .message,
      show state.1.actual = none from hnone .actual,
      show state.1.expected = none from hnone .expected]
    rfl
  · rintro rfl
    simp [ErrorDetails.handles, ErrorDetails.held, hholds.empty]

/-- A second release gives the same blocks back again. -/
theorem Holds.releasedTwice_iff (hholds : Holds report state) :
    (state.1.release (state.1.release state.2)).released.Nodup ↔ report = .none := by
  rw [← hholds.handles_eq_nil_iff, ErrorDetails.release, ErrorDetails.release, released_foldl,
    released_foldl]
  constructor
  · intro honce
    apply List.eq_nil_iff_forall_not_mem.2
    intro handle hmem
    have hboth := List.disjoint_of_nodup_append honce
    exact hboth (List.mem_reverse.2 hmem) (List.mem_append_left _ (List.mem_reverse.2 hmem))
  · intro hnil
    rw [hnil]
    exact hholds.sound.owns.releasedOnce

/-- A refusal is reported, and nothing else is. -/
theorem reportOf_eq_none_iff (options : Options) (tx : Runtime.CompleteTransaction) :
    reportOf options tx = .none ↔ verdict options tx = .success := by
  rw [reportOf, verdict]
  rcases validateCommon options tx with refusal | _
  · exact ⟨nofun, nofun⟩
  · exact ⟨fun _ => rfl, fun _ => rfl⟩

/-- At any point of their life, error details show the first report that was brought to them since
they were initialised, in blocks that are theirs alone. With them a transaction is judged by its
checks while they show nothing, and not at all from then on. Releasing them gives back every block,
and doing it again gives one back twice just when there was something to show. -/
theorem Life.keepsFirst (hlife : Life (some report) state) :
    state.1.shown = report ∧ Owns state.2 (state.1.handles.filterMap id) ∧
      (∀ options tx, reportOf options tx = .none ↔ verdict options tx = .success) ∧
      (∀ options tx room, (validateCompleteTransaction options tx (some state.1, state.2) room).1 =
        .ok (if report = .none then verdict options tx else .invalidErrorDetailsState)) ∧
      Owns (state.1.release state.2) [] ∧
      ((state.1.release (state.1.release state.2)).released.Nodup ↔ report = .none) := by
  have hholds : Holds report state := hlife.kept
  refine ⟨hholds.shown, hholds.sound.owns, reportOf_eq_none_iff, fun options tx room => ?_,
    hholds.sound.release, hholds.releasedTwice_iff⟩
  by_cases hnone : report = .none
  · obtain ⟨left, rest, hrun, -⟩ := validate_empty (hnone ▸ hholds) options tx room
    rw [hrun, if_pos hnone]
  · rw [validate_filled hholds hnone options tx room, if_neg hnone]

/-- A transaction without a number. -/
def unnumbered : Runtime.CompleteTransaction := { plainTransaction with txNr := 0 }

/-- The report of it, its first text in a block of the host. -/
theorem keepsFirst_unnumbered :
    ∃ state : ErrorDetails × Memory, state.1.shown =
        ⟨some "txNr is invalid", some "0", some "> 0"⟩ ∧
      (validateCompleteTransaction ⟨true, none⟩ plainTransaction (some state.1, state.2) []).1 =
        .ok .invalidErrorDetailsState := by
  have hreport : Report.none.orElse (reportOf ⟨false, none⟩ unnumbered) =
      ⟨some "txNr is invalid", some "0", some "> 0"⟩ := by decide
  obtain ⟨left, rest, hrun, -⟩ :=
    validate_empty (holds_init .empty) ⟨false, none⟩ unnumbered [false]
  have hkept := Life.keepsFirst (.validated .init hrun)
  rw [hreport] at hkept
  exact ⟨left, hkept.1, hkept.2.2.2.1 ⟨true, none⟩ plainTransaction []⟩

end Validate

end GradidoBlockchain
