import GradidoBlockchain.Json.Reading
import GradidoBlockchain.Lib.Ends
import GradidoBlockchain.Lib.Granted
import GradidoBlockchain.Lib.Outcome
import GradidoBlockchain.Lib.Reports

/-!
# The lists of a document

What the reading of a list answers and what it takes, said once: a short list takes
nothing, a long one a block that is as wide as the document has nodes. The list of a
document is no longer than that.
-/

namespace GradidoBlockchain

open Fallible Fallible.Call

namespace Mapping

variable {arnm : JsonArnm} {array : Option Json} {bound : ℕ} {state : ElementList × Scratch}
  {room : Room}

/-! ### A list -/

/-- A list with a block for its handles. -/
def widen (array : Option Json) (size : ℕ)
    (state : ElementList × Scratch) : ElementList × Scratch :=
  (⟨Json.items array, some (state.2.take size).1⟩, (state.2.take size).2)

theorem takeBlock_eq (hlawful : arnm.Lawful) {size : ℕ} (hsize : size ≠ 0) :
    takeBlock arnm size = growWith .outOfMemory (Scratch.take size) := by
  rw [takeBlock, refuseEmpty, hlawful.emptyRequest_eq]
  funext scratch room
  simp only [if_neg hsize]
  rfl

/-- The reading of a list, with what it asks for. -/
theorem readElements_run (hlawful : arnm.Lawful) (hbound : (Json.items array).length ≤ bound)
    (state : ElementList × Scratch) (room : Room) :
    readElements arnm array bound state room =
      (if (Json.items array).length ≤ elementsInline then
          write fun state => (⟨Json.items array, none⟩, state.2)
        else if arnm.maxAllocSize / sizeofHandle < bound then fail .resourceSizeExceed
          else grow .outOfMemory (widen array (bound * sizeofHandle)) :
            Call ArnmResult (ElementList × Scratch) Unit) (.init, state.2) room := by
  rcases array with _ | json
  · rfl
  by_cases harray : ∃ items, json = .array items
  · obtain ⟨items, rfl⟩ := harray
    change items.length ≤ bound at hbound
    change readElements arnm (some (.array items)) bound state room =
      (if items.length ≤ elementsInline then _ else _ : Call _ _ _) _ _
    rw [readElements, bind_run_ok (write_run _ _ _)]
    by_cases hshort : items.length ≤ elementsInline
    · rw [if_pos hshort]
      simp only [hlawful.readArray_ok items elementsInline hshort]
      rfl
    · have hlong : elementsInline < items.length := Nat.lt_of_not_le hshort
      have hsize : bound * sizeofHandle ≠ 0 := by
        rw [elementsInline] at hlong
        rw [sizeofHandle]
        omega
      rw [if_neg hshort]
      simp only [hlawful.readArray_small items elementsInline hlong]
      split
      · rfl
      · rw [takeBlock_eq hlawful hsize]
        rcases room with _ | ⟨_ | _, room⟩
        all_goals simp only [hlawful.readArray_ok items bound hbound]
        all_goals rfl
  · have hnone : Json.items (some json) = [] := by
      cases json with
      | array items => exact absurd ⟨items, rfl⟩ harray
      | _ => rfl
    rw [readElements, bind_run_ok (write_run _ _ _)]
    simp only [hlawful.readArray_other json elementsInline fun items heq => harray ⟨items, heq⟩,
      hnone]
    rfl

/-- The blocks a list asks for. -/
def blocksOf (array : Option Json) : ℕ :=
  if elementsInline < (Json.items array).length then 1 else 0

/-- The block of a long list is not too wide. -/
def Fits (arnm : JsonArnm) (array : Option Json) (bound : ℕ) : Prop :=
  elementsInline < (Json.items array).length → bound ≤ arnm.maxAllocSize / sizeofHandle

/-- What holds the handles of a list that has been read, and what the allocator has
handed out for it. -/
structure Took (array : Option Json) (state left : ElementList × Scratch) : Prop where
  values : left.1.values = Json.items array
  astray : left.2.astray = state.2.astray
  live : left.2.live = left.1.widened.toList ++ state.2.live

theorem readElements_ok (hlawful : arnm.Lawful) (hbound : (Json.items array).length ≤ bound)
    {left : ElementList × Scratch} {rest : Room}
    (hrun : readElements arnm array bound state room = (.ok (), left, rest)) :
    granted (blocksOf array) room = some rest ∧ Fits arnm array bound ∧ Took array state left := by
  rw [readElements_run hlawful hbound] at hrun
  by_cases hshort : (Json.items array).length ≤ elementsInline
  · rw [if_pos hshort] at hrun
    obtain ⟨rfl, rfl⟩ := write_ok.1 hrun
    rw [blocksOf, if_neg (Nat.not_lt.2 hshort)]
    exact ⟨rfl, fun hlong => absurd hshort (Nat.not_le.2 hlong), rfl, rfl, rfl⟩
  · rw [if_neg hshort] at hrun
    rw [blocksOf, if_pos (Nat.lt_of_not_le hshort)]
    split at hrun
    · cases hrun
    · rename_i hfits
      have hgranted := granted_of_grow hrun
      obtain rfl := grow_ok hrun
      exact ⟨hgranted, fun _ => Nat.not_lt.1 hfits, rfl, rfl, rfl⟩

theorem readElements_error (hlawful : arnm.Lawful) (hbound : (Json.items array).length ≤ bound)
    {left : ElementList × Scratch} {rest : Room} {code : ArnmResult}
    (hrun : readElements arnm array bound state room = (.error code, left, rest)) :
    left = (.init, state.2) ∧ (Fits arnm array bound → granted (blocksOf array) room = none) := by
  rw [readElements_run hlawful hbound] at hrun
  by_cases hshort : (Json.items array).length ≤ elementsInline
  · rw [if_pos hshort] at hrun
    cases hrun
  · rw [if_neg hshort] at hrun
    have hlong := Nat.lt_of_not_le hshort
    rw [blocksOf, if_pos hlong]
    split at hrun
    · rename_i hwide
      cases hrun
      exact ⟨rfl, fun hfits => absurd (hfits hlong) (Nat.not_le.2 hwide)⟩
    · refine ⟨(grow_error hrun).2, fun _ => ?_⟩
      rcases room with _ | ⟨_ | _, room⟩ <;> cases hrun
      rfl

/-- A list whose block is granted is read. -/
theorem readElements_granted (hlawful : arnm.Lawful) (hbound : (Json.items array).length ≤ bound)
    (hfits : Fits arnm array bound) {rest : Room}
    (hgranted : granted (blocksOf array) room = some rest) (state : ElementList × Scratch) :
    ∃ left, readElements arnm array bound state room = (.ok (), left, rest) ∧
      Took array state left := by
  rcases hrun : readElements arnm array bound state room with ⟨code | _, left, after⟩
  · rw [(readElements_error hlawful hbound hrun).2 hfits] at hgranted
    cases hgranted
  · obtain ⟨hafter, -, htook⟩ := readElements_ok hlawful hbound hrun
    rw [hgranted, Option.some.injEq] at hafter
    rw [hafter]
    exact ⟨left, rfl, htook⟩

theorem readElements_reports (hlawful : arnm.Lawful) (hbound : (Json.items array).length ≤ bound) :
    Reports .outOfMemory (readElements arnm array bound) := by
  intro state room
  rw [readElements_run hlawful hbound]
  exact Reports.ite (.write _) (.ite (.fail _) (.grow _)) (ElementList.init, state.2) room

/-! ### The root -/

section

variable {σ α β : Type} {value : α} {code : ArnmResult} {next : α → Call ArnmResult σ β} {state : σ}
  {room : Room}

theorem answer_bind_ok : (answer (.ok value) >>= next) state room = next value state room := rfl

/-- What was answered where the call went on to its end. -/
theorem of_answer_bind {outcome : Except ArnmResult α} {left : σ} {rest : Room} {result : β}
    (hrun : (answer outcome >>= next) state room = (.ok result, left, rest)) :
    ∃ value, outcome = .ok value ∧ next value state room = (.ok result, left, rest) := by
  cases outcome with
  | error code => cases hrun
  | ok value => exact ⟨value, rfl, hrun⟩

theorem putTx_bind {change : Runtime.CompleteTransaction → Runtime.CompleteTransaction}
    {next : Unit → Fill β} {filling : Filling} :
    (putTx change >>= next) filling room = next () (filling.withTx change) room :=
  rfl

end

section

variable (arnm)

/-- What the walk of the root leaves, and the cross-group name is known. -/
def viewOfRoot (root : Json) (type : TransactionType) : Except ArnmResult RootView := do
  let read ← readRoot arnm root type Runtime.CompleteTransaction.init
  if CrossGroup.fromString read.1.crossGroupType = .none then .error .enumUnknown else .ok read.1

/-- What `read_document` knows of a document before it reads its lists. -/
def viewOfDocument (root : Json) : Except ArnmResult RootView := do
  let seen ← arnm.readObject root [.string Key.transactionType]
  let name := (seen (.string Key.transactionType)).getD ""
  if name = "" then .error .decodeFailed
  else if TransactionType.fromString name = .none then .error .enumUnknown
  else viewOfRoot arnm root (TransactionType.fromString name)

end

/-- The view of a root does not depend on the record it is converted into. -/
theorem readRoot_view (arnm : JsonArnm) (root : Json) (type : TransactionType)
    (tx other : Runtime.CompleteTransaction) :
    (readRoot arnm root type tx).map Prod.fst = (readRoot arnm root type other).map Prod.fst := by
  rw [readRoot, readRoot]
  rcases arnm.readObject root ((rootTable type).map Entry.field) with code | seen
  · rfl
  · simp only [bind, Except.bind]
    split
    · split
      · split <;> rfl
      · rfl
    · rfl

theorem readRootInto_run (root : Json) (type : TransactionType) (start : Filling) (room : Room) :
    ∃ left, readRootInto arnm root type start room = (viewOfRoot arnm root type, left, room) := by
  have hview := readRoot_view arnm root type start.tx .init
  rw [viewOfRoot, readRootInto, bind_run_ok (gets_run _ _ _)]
  rcases hread : readRoot arnm root type start.tx with code | ⟨view, tx⟩ <;> rcases hinit :
      readRoot arnm root type Runtime.CompleteTransaction.init
    with code' | ⟨view', tx'⟩ <;> rw [hread, hinit] at hview <;> cases hview
  · exact ⟨start, rfl⟩
  · rw [answer_bind_ok]
    by_cases hgroup : CrossGroup.fromString view.crossGroupType = .none
    · simp only [bind, Except.bind, if_pos hgroup]
      exact ⟨_, rfl⟩
    · simp only [bind, Except.bind, if_neg hgroup]
      exact ⟨_, rfl⟩

/-- What is known of a document before its lists are read is found without asking for anything. -/
theorem readType_run (arnm : JsonArnm) (root : Json) (start : Filling) (room : Room) :
    ∃ left, readType arnm root start room = (viewOfDocument arnm root, left, room) := by
  rw [viewOfDocument, readType]
  rcases arnm.readObject root [.string Key.transactionType] with code | seen
  · exact ⟨start, rfl⟩
  rw [answer_bind_ok]
  by_cases hname : (seen (.string Key.transactionType)).getD "" = ""
  · simp only [bind, Except.bind, if_pos hname]
    exact ⟨start, rfl⟩
  simp only [if_neg hname, putTx_bind]
  by_cases htype : TransactionType.fromString ((seen (.string Key.transactionType)).getD "") = .none
  · simp only [bind, Except.bind, if_neg hname, if_pos htype]
    exact ⟨_, rfl⟩
  simp only [bind, Except.bind, if_neg hname, if_neg htype]
  exact readRootInto_run _ _ _ _

/-- The lists are about to be read. -/
def Reading.opened (start : Reading) (record : Filling) : Reading :=
  ⟨record, start.scratch, .init, .init, .init, none⟩

theorem readDocument_run (arnm : JsonArnm) (root : Json) (bound : ℕ) (start : Reading)
    (room : Room) : ∃ record,
    readDocument arnm root bound start room = match viewOfDocument arnm root with
      | .error code => (.error code, start.putRecord record, room)
      | .ok view =>
          andRelease (readLists arnm view bound) releaseLists (start.opened record) room := by
  obtain ⟨record, hrun⟩ := readType_run arnm root start.record room
  have htype : onRecord (readType arnm root) start room =
      (viewOfDocument arnm root, start.putRecord record, room) := within_run_eq hrun
  refine ⟨record, ?_⟩
  rcases hview : viewOfDocument arnm root with code | view <;> rw [hview] at htype
  · rw [readDocument, bind_run_error htype]
  · rw [readDocument, bind_run_ok htype]
    rfl

/-! ### Lists and nodes -/

theorem rootTable_keys (type : TransactionType) :
    (((rootTable type).map Entry.field).map Field.key).Nodup := by
  cases type with
  | unknown past =>
      change (((headTable ++ tailTable).map Entry.field).map Field.key).Nodup
      decide
  | _ => decide

theorem mem_rootTable {field : Field} (hmem : field ∈ tailTable.map Entry.field)
    (type : TransactionType) : field ∈ (rootTable type).map Entry.field := by
  rw [rootTable, List.map_append]
  exact List.mem_append_right _ hmem

theorem readRoot_ok {root : Json} {type : TransactionType} {tx left : Runtime.CompleteTransaction}
    {view : RootView} (hread : readRoot arnm root type tx = .ok (view, left)) :
    ∃ seen, arnm.readObject root ((rootTable type).map Entry.field) = .ok seen ∧
      ((rootTable type).all fun entry => !entry.required || (seen entry.field).isSome) = true ∧
      view = viewOf seen ∧
      left = { convertedInto seen tx with addressType := left.addressType } := by
  obtain ⟨seen, hseen, hread⟩ := Outcome.bind_ok.1 hread
  split at hread
  · rename_i hall
    refine ⟨seen, hseen, hall, ?_⟩
    split at hread
    · obtain ⟨-, hread⟩ := Outcome.guard_ok.1 hread
      cases hread
      exact ⟨rfl, rfl⟩
    · cases hread
      exact ⟨rfl, rfl⟩
  · cases hread

/-- The view of a document is that of a walk of its root. -/
theorem viewOfDocument_ok {root : Json} {view : RootView}
    (hview : viewOfDocument arnm root = .ok view) :
    ∃ type left, readRoot arnm root type Runtime.CompleteTransaction.init = .ok (view, left) := by
  obtain ⟨seen, -, hview⟩ := Outcome.bind_ok.1 hview
  obtain ⟨-, hview⟩ := Outcome.guard_ok.1 hview
  obtain ⟨-, hview⟩ := Outcome.guard_ok.1 hview
  obtain ⟨⟨found, left⟩, hread, hview⟩ := Outcome.bind_ok.1 hview
  obtain ⟨-, hfound⟩ := Outcome.guard_ok.1 hview
  cases hfound
  exact ⟨_, left, hread⟩

/-- A handle is that of a member. -/
theorem mem_under_of_seen (hlawful : arnm.Lawful) {root json : Json} {table : List Field}
    {seen : Seen} {key : String} (hseen : arnm.readObject root table = .ok seen)
    (hkeys : (table.map Field.key).Nodup) (hmem : Field.value key ∈ table)
    (hfiled : seen (.value key) = some json) : json ∈ root.under key := by
  obtain ⟨value, hvalue, -, hconvert⟩ :=
    hlawful.readObject_seen root table seen hseen hkeys _ hmem _ hfiled
  rw [hlawful.convert_value] at hconvert
  rwa [← Except.ok.inj hconvert]

/-- No list of a document is longer than the document has nodes. -/
theorem length_items_seen_le (hlawful : arnm.Lawful) {root : Json} {table : List Field}
    {seen : Seen} {key : String} (hseen : arnm.readObject root table = .ok seen)
    (hkeys : (table.map Field.key).Nodup) (hmem : Field.value key ∈ table) :
    (Json.items (seen (.value key))).length ≤ root.nodes := by
  rcases hfiled : seen (.value key) with _ | json
  · exact Nat.zero_le _
  · exact Nat.le_trans (Json.length_items_le json)
      (Json.nodes_under_le (mem_under_of_seen hlawful hseen hkeys hmem hfiled))

/-- The lists of a view are no longer than so many elements. -/
structure RootView.Bounded (view : RootView) (bound : ℕ) : Prop where
  balances : (Json.items view.accountBalances).length ≤ bound
  memos : (Json.items view.encryptedMemos).length ≤ bound
  signatures : (Json.items view.signaturePairs).length ≤ bound

theorem viewOfDocument_bounded (hlawful : arnm.Lawful) {root : Json} {view : RootView}
    (hview : viewOfDocument arnm root = .ok view) : view.Bounded root.nodes := by
  obtain ⟨type, left, hread⟩ := viewOfDocument_ok hview
  obtain ⟨seen, hseen, -, rfl, -⟩ := readRoot_ok hread
  have hlist : ∀ key, Field.value key ∈ tailTable.map Entry.field →
      (Json.items (seen (.value key))).length ≤ root.nodes :=
    fun key hmem =>
      length_items_seen_le hlawful hseen (rootTable_keys type) (mem_rootTable hmem type)
  exact ⟨hlist _ (by decide), hlist _ (by decide), hlist _ (by decide)⟩

end Mapping

end GradidoBlockchain
