import GradidoBlockchain.Json.Elements
import GradidoBlockchain.Json.Reference
import GradidoBlockchain.Json.Writer

/-!
# What the reading of a document gives back

The handles of long lists and the memos of a long list lie in blocks of the caller's allocator. Each
block is given back once and in its whole size, but for one case: refused the block for the memos,
the reading gives back the inline room that was to be used instead of one.
-/

namespace GradidoBlockchain

open Fallible Fallible.Call

namespace Mapping

variable {arnm : JsonArnm} {array : Option Json} {bound : ℕ} {reading : Reading} {room : Room}

/-! ### Blocks -/

namespace Scratch

/-- The block that was taken last is given back. -/
theorem free_head {scratch : Scratch} {block : Block} {rest : List Block}
    (hlive : scratch.live = block :: rest) {size : ℕ} (hsize : block.size = size) :
    scratch.free (some block) size = { scratch with live := rest } := by
  have hmem : block ∈ scratch.live := by
    rw [hlive]
    exact List.mem_cons_self
  change (if block ∈ scratch.live ∧ block.size = size then _ else _) = _
  rw [if_pos ⟨hmem, hsize⟩, hlive, List.erase_cons_head]

end Scratch

theorem releaseElements_eq (state : ElementList × Scratch) {rest : List Block}
    (hlive : state.2.live = state.1.widened.toList ++ rest) :
    releaseElements state = (.init, { state.2 with live := rest }) := by
  rw [releaseElements]
  rcases hwidened : state.1.widened with _ | block <;> rw [hwidened] at hlive
  · rw [← show state.2.live = rest from hlive]
  · have hhead : state.2.live = block :: rest := hlive
    simp only [Scratch.free_head hhead rfl]

/-! ### What is held -/

/-- The size of the block for the memos. -/
def memoBlockSize (reading : Reading) : ℕ :=
  reading.memos.values.length * sizeofEncryptedMemo % 2 ^ 32

/-- What the lists hold is all that has been taken, the last one first, and nothing has gone
astray. -/
structure Tidy (reading : Reading) : Prop where
  astray : reading.scratch.astray = []
  live : reading.scratch.live = reading.signatures.widened.toList ++
    (reading.memoBlock.toList ++ (reading.memos.widened.toList ++ reading.balances.widened.toList))
  memoBlock : ∀ block, reading.memoBlock = some block → block.size = memoBlockSize reading

/-- There is a block for the memos just where it will be given back. -/
def Balanced (reading : Reading) : Prop :=
  Tidy reading ∧
    (reading.memoBlock.isSome = true ↔ defaultMaxMemosCount < reading.memos.values.length)

/-- There is none and it will be given back. -/
def Stranded (reading : Reading) : Prop :=
  Tidy reading ∧ reading.memoBlock = none ∧ defaultMaxMemosCount < reading.memos.values.length

/-- The memos' block has been given back, or what was to be it. -/
def releaseMemoBlock (reading : Reading) (scratch : Scratch) : Scratch :=
  if defaultMaxMemosCount < reading.memos.values.length then
      scratch.free reading.memoBlock (memoBlockSize reading)
    else scratch

theorem releaseLists_scratch (htidy : Tidy reading) (scratch : Scratch)
    (hblock : releaseMemoBlock reading
      { reading.scratch with live := reading.memoBlock.toList ++ (reading.memos.widened.toList ++ reading.balances.widened.toList) } =
      { scratch with live := reading.memos.widened.toList ++ reading.balances.widened.toList }) :
    (releaseLists reading).scratch = { scratch with live := [] } := by
  rw [releaseMemoBlock, memoBlockSize] at hblock
  have hbalances : reading.balances.widened.toList = reading.balances.widened.toList ++ [] :=
    (List.append_nil _).symm
  rw [releaseLists]
  simp only [releaseElements_eq (reading.signatures, reading.scratch) htidy.live, hblock,
    releaseElements_eq
      (reading.memos,
        { scratch with live := reading.memos.widened.toList ++ reading.balances.widened.toList })
      rfl,
    releaseElements_eq (reading.balances, { scratch with live := reading.balances.widened.toList })
      hbalances]

theorem Balanced.released (hbalanced : Balanced reading) :
    (releaseLists reading).scratch = { reading.scratch with live := [] } := by
  obtain ⟨htidy, hblock⟩ := hbalanced
  apply releaseLists_scratch htidy reading.scratch
  rw [releaseMemoBlock]
  by_cases hmany : defaultMaxMemosCount < reading.memos.values.length
  · obtain ⟨block, hsome⟩ := Option.isSome_iff_exists.1 (hblock.2 hmany)
    rw [if_pos hmany, hsome]
    exact Scratch.free_head rfl (htidy.memoBlock block hsome)
  · rcases hnone : reading.memoBlock with _ | block
    · rw [if_neg hmany]
      rfl
    · exact absurd (hblock.1 (by rw [hnone]; rfl)) hmany

theorem Stranded.released (hstranded : Stranded reading) :
    (releaseLists reading).scratch = { reading.scratch with live := [], astray := (none, memoBlockSize reading) :: reading.scratch.astray } := by
  obtain ⟨htidy, hnone, hmany⟩ := hstranded
  apply releaseLists_scratch htidy
    { reading.scratch with astray := (none, memoBlockSize reading) :: reading.scratch.astray }
  rw [releaseMemoBlock, if_pos hmany, hnone]
  rfl

/-! ### What is taken -/

/-- The block for the memos is refused after everything before it has been granted. -/
structure MemoBlockRefused (arnm : JsonArnm) (view : RootView) (bound : ℕ)
    (room : Room) : Prop where
  many : defaultMaxMemosCount < (Json.items view.encryptedMemos).length
  balances : Fits arnm view.accountBalances bound
  memos : Fits arnm view.encryptedMemos bound
  refused : ∃ rest, granted (blocksOf view.accountBalances + blocksOf view.encryptedMemos) room =
    some (false :: rest)

/-- Only the handles of the balances have been taken. -/
structure BalancesTaken (reading : Reading) : Prop where
  astray : reading.scratch.astray = []
  live : reading.scratch.live = reading.balances.widened.toList
  memos : reading.memos = .init
  signatures : reading.signatures = .init
  memoBlock : reading.memoBlock = none

/-- So few memos have a size that does not wrap to nothing. -/
theorem wrapped_ne_zero {count : ℕ} (hpos : 0 < count) (hfew : count < 2 ^ 29) :
    count * sizeofEncryptedMemo % 2 ^ 32 ≠ 0 := by
  intro hzero
  have hcoprime : Nat.Coprime (2 ^ 29) 3 := Nat.Coprime.pow_left 29 (by decide)
  have hdvd : 2 ^ 29 ∣ count * 3 := by
    have height : 2 ^ 29 * 8 ∣ count * 3 * 8 := by
      rw [Nat.mul_assoc]
      exact Nat.dvd_of_mod_eq_zero hzero
    exact Nat.dvd_of_mul_dvd_mul_right (by decide) height
  exact absurd (Nat.le_of_dvd hpos (hcoprime.dvd_of_dvd_mul_right hdvd)) (Nat.not_le.2 hfew)

theorem memos_few (hlawful : arnm.Lawful) (hbound : (Json.items array).length ≤ bound)
    (hfits : Fits arnm array bound) : (Json.items array).length < 2 ^ 29 := by
  have hmax := hlawful.maxAllocSize_lt
  by_cases hlong : elementsInline < (Json.items array).length
  · have hwide : bound ≤ arnm.maxAllocSize / 8 := hfits hlong
    omega
  · rw [elementsInline] at hlong
    omega

/-- A list that has been read, or has not, before its block is asked for. -/
theorem readMemoElements_run {outcome : Except ArnmResult Unit} {state : ElementList × Scratch}
    {rest : Room}
    (hrun : readElements arnm array bound (reading.memos, reading.scratch) room =
      (outcome, state, rest)) :
    readMemoList arnm array bound reading room =
      (if defaultMaxMemosCount < state.1.values.length then takeMemoBlock arnm state.1.values.length
        else answer outcome : Read Unit) { reading with memos := state.1, scratch := state.2 }
        rest := by
  have hread : readMemoElements arnm array bound reading room =
      (outcome, { reading with memos := state.1, scratch := state.2 }, rest) := within_run_eq hrun
  rw [readMemoList, bind_run_ok (attempt_run_eq hread), bind_run_ok (gets_run _ _ _)]

theorem takeMemoBlock_eq (hlawful : arnm.Lawful) {count : ℕ}
    (hsize : count * sizeofEncryptedMemo % 2 ^ 32 ≠ 0) (reading : Reading) (room : Room) : 
    takeMemoBlock arnm count reading room = grow .outOfMemory (fun reading => { reading with
      memoBlock := some (reading.scratch.take (count * sizeofEncryptedMemo % 2 ^ 32)).1
      scratch := (reading.scratch.take (count * sizeofEncryptedMemo % 2 ^ 32)).2 }) reading room := by
  rw [takeMemoBlock, takeBlock_eq hlawful hsize]
  rcases room with _ | ⟨_ | _, room⟩ <;> rfl

theorem init_few : ¬defaultMaxMemosCount < ElementList.init.values.length := by decide

theorem Balanced.of_none (hastray : reading.scratch.astray = [])
    (hlive : reading.scratch.live =
      reading.signatures.widened.toList ++
        (reading.memos.widened.toList ++ reading.balances.widened.toList))
    (hnone : reading.memoBlock = none)
    (hfew : ¬defaultMaxMemosCount < reading.memos.values.length) : Balanced reading := by
  refine ⟨⟨hastray, ?_, fun block hsome => ?_⟩, ?_⟩
  · rw [hnone]
    exact hlive
  · rw [hnone] at hsome
    cases hsome
  · rw [hnone]
    exact iff_of_false Bool.false_ne_true hfew

theorem readMemoList_spec (hlawful : arnm.Lawful) (hbound : (Json.items array).length ≤ bound)
    (htaken : BalancesTaken reading) (room : Room) :
    (∃ rest, granted (blocksOf array) room = some (false :: rest) ∧ Fits arnm array bound ∧
        defaultMaxMemosCount < (Json.items array).length ∧
        ∃ left, readMemoList arnm array bound reading room = (.error .outOfMemory, left, rest) ∧
          Stranded left) ∨
      (¬(Fits arnm array bound ∧ defaultMaxMemosCount < (Json.items array).length ∧
          ∃ rest, granted (blocksOf array) room = some (false :: rest)) ∧
        Balanced (readMemoList arnm array bound reading room).2.1 ∧
        (readMemoList arnm array bound reading room).2.1.signatures = .init) := by
  obtain ⟨record, scratch, balances, memos, signatures, memoBlock⟩ := reading
  obtain ⟨hastray, hlive, rfl, rfl, rfl⟩ := htaken
  rcases hrun : readElements arnm array bound (.init, scratch) room with ⟨code | _, state, between⟩
  · obtain ⟨rfl, hrefused⟩ := readElements_error hlawful hbound hrun
    refine .inr ⟨?_, ?_⟩
    · intro h
      obtain ⟨hfits, -, rest, hgranted⟩ := h
      rw [hrefused hfits] at hgranted
      cases hgranted
    · rw [readMemoElements_run hrun, if_neg init_few]
      exact ⟨.of_none hastray hlive rfl init_few, rfl⟩
  · obtain ⟨hgranted, hfits, hvalues, hastrayed, htook⟩ := readElements_ok hlawful hbound hrun
    have hheld : state.2.live = state.1.widened.toList ++ balances.widened.toList :=
      htook.trans (congrArg _ hlive)
    rw [readMemoElements_run hrun, hvalues]
    by_cases hmany : defaultMaxMemosCount < (Json.items array).length
    · rw [if_pos hmany,
        takeMemoBlock_eq hlawful
          (wrapped_ne_zero (Nat.zero_lt_of_lt hmany) (memos_few hlawful hbound hfits))]
      have htaken : ∀ block : Block, block =
            (state.2.take ((Json.items array).length * sizeofEncryptedMemo % 2 ^ 32)).1 →
          Balanced ⟨record,
            (state.2.take ((Json.items array).length * sizeofEncryptedMemo % 2 ^ 32)).2, balances,
            state.1, .init, some block⟩ := by
        intro block hblock
        rw [hblock]
        refine ⟨⟨hastrayed.trans hastray, congrArg _ hheld, fun other hother => ?_⟩,
          iff_of_true rfl (hvalues ▸ hmany)⟩
        rw [← Option.some.inj hother, memoBlockSize, hvalues]
        rfl
      rcases between with _ | ⟨_ | _, between⟩
      · refine .inr ⟨fun h => ?_, htaken _ rfl, rfl⟩
        obtain ⟨-, -, rest, hrest⟩ := h
        rw [hgranted] at hrest
        cases hrest
      · exact .inl
          ⟨between, hgranted, hfits, hmany, _, rfl,
            ⟨hastrayed.trans hastray, hheld, fun _ h => nomatch h⟩, rfl, hvalues ▸ hmany⟩
      · refine .inr ⟨fun h => ?_, htaken _ rfl, rfl⟩
        obtain ⟨-, -, rest, hrest⟩ := h
        rw [hgranted] at hrest
        cases hrest
    · rw [if_neg hmany]
      exact .inr
        ⟨fun h => hmany h.2.1, .of_none (hastrayed.trans hastray) hheld rfl (hvalues ▸ hmany), rfl⟩

/-! ### The record -/

theorem refuseEmpty_reports {σ : Type} (size : ℕ) :
    Reports .outOfMemory (refuseEmpty arnm size : Call ArnmResult σ Unit) := by
  rw [refuseEmpty]
  split
  · exact .ite (.fail _) (.pure _)
  · exact .pure _

theorem arenaAlloc_reports (emptyRequest : Option ArnmResult) (size : ℕ) :
    Reports .outOfMemory (arenaAlloc emptyRequest size) := by
  refine .bind (.gets _) fun filling => ?_
  split
  · exact .bind (.write _) fun _ => .fail _
  · exact .ite .ask (.ite (.bind (.write _) fun _ => .fail _) (.write _))

theorem readHead_reports (view : RootView) : Reports .outOfMemory (readHead arnm view) :=
  .bind (.check _) fun _ =>
    .bind (.write _) fun _ =>
      .bind (.check _) fun _ =>
        .bind (.write _) fun _ =>
          .bind (.check _) fun _ =>
            .bind (.write _) fun _ => .bind (.gets _) fun _ => .bind (.check _) fun _ => .write _

theorem readPairingUuid_reports (uuid : Option Uuid) :
    Reports .outOfMemory (readPairingUuid arnm uuid) := by
  cases uuid with
  | none => exact .pure _
  | some uuid => exact .bind (arenaAlloc_reports _ _) fun _ => .write _

theorem readPairingAnchor_reports (anchor : Option Json) :
    Reports .outOfMemory (readPairingAnchor arnm anchor) := by
  cases anchor with
  | none => exact .pure _
  | some anchor => exact .bind (arenaAlloc_reports _ _) fun _ => .bind (.check _) fun _ => .write _

theorem readBodyBytes_reports (text : String) : Reports .outOfMemory (readBodyBytes arnm text) := by
  rw [readBodyBytes]
  split
  · exact .fail _
  · exact .ite (.pure _) (.bind (arenaAlloc_reports _ _) fun _ => .write _)

theorem readArrays_reports (view : RootView) (balances : List Json) (texts : List MemoText)
    (signatures : List Json) :
    Reports .outOfMemory (readArrays arnm view balances texts signatures) := by
  refine .bind ?_ fun _ =>
    .bind ?_ fun _ => .bind ?_ fun _ => .bind ?_ fun _ => .bind ?_ fun _ => ?_
  · exact .ite (.pure _)
      (.bind (arenaAlloc_reports _ _) fun _ => .forM fun _ => .bind (.check _) fun _ => .write _)
  · exact .ite (.pure _)
      (.bind (arenaAlloc_reports _ _) fun _ =>
        .forM fun _ =>
          .bind (.check _) fun _ =>
            .bind (arenaAlloc_reports _ _) fun _ => .bind (.check _) fun _ => .write _)
  · exact .ite (.pure _)
      (.bind (arenaAlloc_reports _ _) fun _ => .forM fun _ => .bind (.check _) fun _ => .write _)
  · exact readPairingUuid_reports view.txPairingCommunityUuid
  · exact readPairingAnchor_reports view.presentAnchor
  · exact readBodyBytes_reports view.bodyBytes

theorem readCompleteTransaction_reports (view : RootView) (balances memos signatures : List Json) :
    Reports .outOfMemory (readCompleteTransaction arnm view balances memos signatures) := by
  refine .bind (.check _) fun sized => ?_
  obtain ⟨size, texts⟩ := sized
  have hrest :
      Reports .outOfMemory
        (do readHead arnm view; readArrays arnm view balances texts signatures) :=
    .bind (readHead_reports view) fun _ => readArrays_reports view balances texts signatures
  exact .ite (.bind (.grow _) fun _ => hrest) hrest

/-- What is done to the record concerns none of the blocks. -/
theorem onRecord_balanced {α : Type} (call : Fill α) (hbalanced : Balanced reading) (room : Room) :
    Balanced (onRecord call reading room).2.1 :=
  ⟨⟨hbalanced.1.astray, hbalanced.1.live, hbalanced.1.memoBlock⟩, hbalanced.2⟩

/-! ### The whole reading -/

theorem readBalanceElements_spec (hlawful : arnm.Lawful)
    (hbound : (Json.items array).length ≤ bound) {start : Reading} (hstart : start.scratch = .empty)
    (record : Filling) (room : Room) :
    (∃ code left rest, readBalanceElements arnm array bound (start.opened record) room =
          (.error code, left, rest) ∧ Balanced left ∧
        (Fits arnm array bound → granted (blocksOf array) room = none)) ∨
      ∃ left rest, readBalanceElements arnm array bound (start.opened record) room =
          (.ok (), left, rest) ∧ BalancesTaken left ∧ Fits arnm array bound ∧
        granted (blocksOf array) room = some rest := by
  rw [Reading.opened, hstart]
  rcases hrun : readElements arnm array bound (.init, .empty) room with ⟨code | _, state, rest⟩
  · obtain ⟨rfl, hrefused⟩ := readElements_error hlawful hbound hrun
    exact .inl ⟨code, _, rest, within_run_eq hrun, .of_none rfl rfl rfl init_few, hrefused⟩
  · obtain ⟨hgranted, hfits, hvalues, hastray, htook⟩ := readElements_ok hlawful hbound hrun
    exact .inr
      ⟨_, rest, within_run_eq hrun, ⟨hastray, htook.trans (List.append_nil _), rfl, rfl, rfl⟩,
        hfits, hgranted⟩

/-- The block of the signatures is the last one. -/
theorem readSignatureElements_balanced (hlawful : arnm.Lawful)
    (hbound : (Json.items array).length ≤ bound) (hbalanced : Balanced reading)
    (hsignatures : reading.signatures = .init) (room : Room) :
    Balanced (readSignatureElements arnm array bound reading room).2.1 := by
  obtain ⟨record, scratch, balances, memos, signatures, memoBlock⟩ := reading
  obtain rfl : signatures = .init := hsignatures
  obtain ⟨⟨hastray, hlive, hsize⟩, hblock⟩ := hbalanced
  rw [readSignatureElements, within_run]
  rcases hrun : readElements arnm array bound (.init, scratch) room with ⟨code | _, state, rest⟩
  · obtain ⟨rfl, -⟩ := readElements_error hlawful hbound hrun
    exact ⟨⟨hastray, hlive, hsize⟩, hblock⟩
  · obtain ⟨-, -, hvalues, hastrayed, htook⟩ := readElements_ok hlawful hbound hrun
    exact ⟨⟨hastrayed.trans hastray, htook.trans (congrArg _ hlive), hsize⟩, hblock⟩

/-- What follows the memos' list keeps the balance. -/
theorem lastSteps_balanced (hlawful : arnm.Lawful) {view : RootView} (hbounded : view.Bounded bound)
    (hbalanced : Balanced reading)
    (hsignatures : reading.signatures = .init) (room : Room) :
    Balanced ((do
      readSignatureElements arnm view.signaturePairs bound
      let balances ← gets fun reading => reading.balances.values
      let memos ← gets fun reading => reading.memos.values
      let signatures ← gets fun reading => reading.signatures.values
      onRecord (readCompleteTransaction arnm view balances memos signatures) : Read Unit) reading room).2.1 := by
  have hread :=
    readSignatureElements_balanced hlawful hbounded.signatures hbalanced hsignatures room
  rcases hlast : readSignatureElements arnm view.signaturePairs bound reading room
    with ⟨code | _, last, others⟩ <;> rw [hlast] at hread
  · rw [bind_run_error hlast]
    exact hread
  · rw [bind_run_ok hlast]
    exact onRecord_balanced (readCompleteTransaction arnm view _ _ _) hread others

theorem readLists_spec (hlawful : arnm.Lawful) {view : RootView} (hbounded : view.Bounded bound)
    {start : Reading} (hstart : start.scratch = .empty) (record : Filling) (room : Room) :
    MemoBlockRefused arnm view bound room ∧
        Stranded (readLists arnm view bound (start.opened record) room).2.1 ∨
      ¬MemoBlockRefused arnm view bound room ∧
        Balanced (readLists arnm view bound (start.opened record) room).2.1 := by
  obtain ⟨code, left, rest, hbalances, hbalanced, hrefused⟩ |
      ⟨taken, between, hbalances, htaken, hfits, hgranted⟩ :=
    readBalanceElements_spec hlawful hbounded.balances hstart record room
  · refine .inr ⟨fun h => ?_, ?_⟩
    · obtain ⟨rest, hgranted⟩ := h.refused
      rw [granted_add, hrefused h.balances] at hgranted
      cases hgranted
    · rw [readLists, bind_run_error hbalances]
      exact hbalanced
  rw [readLists, bind_run_ok hbalances]
  obtain ⟨rest, hmemos, hwide, hmany, left, hrun, hstranded⟩ | ⟨hnot, hbalanced, hsignatures⟩ :=
    readMemoList_spec hlawful hbounded.memos htaken between
  · rw [bind_run_error hrun]
    refine .inl ⟨⟨hmany, hfits, hwide, rest, ?_⟩, hstranded⟩
    rw [granted_add, hgranted]
    exact hmemos
  · refine .inr ⟨fun h => hnot ⟨h.memos, h.many, ?_⟩, ?_⟩
    · obtain ⟨rest, hrefused⟩ := h.refused
      rw [granted_add, hgranted] at hrefused
      exact ⟨rest, hrefused⟩
    · rcases hmemos : readMemoList arnm view.encryptedMemos bound taken between
        with ⟨code | _, middle, after⟩ <;> rw [hmemos] at hbalanced hsignatures
      · rw [bind_run_error hmemos]
        exact hbalanced
      · rw [bind_run_ok hmemos]
        exact lastSteps_balanced hlawful hbounded hbalanced hsignatures after

/-- A refusal on the way of the lists is what they end with. -/
theorem readLists_reports (hlawful : arnm.Lawful) {view : RootView}
    (hbounded : view.Bounded bound) : Reports .outOfMemory (readLists arnm view bound) := by
  refine .bind (.within (readElements_reports hlawful hbounded.balances)) fun _ =>
    .bind ?_ fun _ =>
      .bind (.within (readElements_reports hlawful hbounded.signatures)) fun _ =>
        .bind (.gets _) fun _ =>
          .bind (.gets _) fun _ =>
            .bind (.gets _) fun _ => .within (readCompleteTransaction_reports view _ _ _)
  refine .bindAttempt (.within (readElements_reports hlawful hbounded.memos))
    (fun _ => .bind (.gets _) fun memos => .ite ?_ (.check _)) ?_
  · exact .bind (.within (.bind (refuseEmpty_reports _) fun _ => .growWith _)) fun _ => .write _
  · intro reading left room rest code hrun
    obtain ⟨state, hstate, rfl⟩ := within_error.1 hrun
    obtain ⟨rfl, -⟩ := readElements_error hlawful hbounded.memos hstate
    rw [bind_run_ok (gets_run _ _ _), if_neg init_few]
    exact ⟨_, rfl⟩

/-! ### What is given back -/

/-- Over one reading of a document every block that is given back is one that is taken, in its whole
size, and none is left; a refusal is what the reading answers. -/
structure FreesWhatItTook (arnm : JsonArnm) (root : Json) (owned : Runtime.Owned)
    (room : Room) : Prop where
  astray : (readDocument arnm root root.nodes (.fresh owned) room).2.1.scratch.astray = []
  live : (readDocument arnm root root.nodes (.fresh owned) room).2.1.scratch.live = []
  refusal : Refusal room (readDocument arnm root root.nodes (.fresh owned) room).2.2 →
    (readDocument arnm root root.nodes (.fresh owned) room).1 = .error .outOfMemory

/-- The document has more than four memos, and the block for them is refused. -/
def MemosRefused (arnm : JsonArnm) (root : Json) (room : Room) : Prop :=
  ∃ view, viewOfDocument arnm root = .ok view ∧ MemoBlockRefused arnm view root.nodes room

/-- The reading of a document frees what it took unless it is refused the block for
more than four memos. -/
theorem freesWhatItTook_iff (hlawful : arnm.Lawful) (root : Json) (owned : Runtime.Owned)
    (room : Room) : FreesWhatItTook arnm root owned room ↔ ¬MemosRefused arnm root room := by
  obtain ⟨record, hrun⟩ := readDocument_run arnm root root.nodes (.fresh owned) room
  rcases hview : viewOfDocument arnm root with code | view <;> rw [hview] at hrun
  · refine iff_of_true ⟨?_, ?_, fun hrefusal => ?_⟩ fun h => ?_
    · rw [hrun]
      rfl
    · rw [hrun]
      rfl
    · rw [hrun] at hrefusal
      obtain ⟨used, hused, hmem⟩ := hrefusal
      rw [List.self_eq_append_left.1 hused] at hmem
      cases hmem
    · obtain ⟨view, hok, -⟩ := h
      rw [hview] at hok
      cases hok
  · have hbounded := viewOfDocument_bounded hlawful hview
    have hrefused : MemosRefused arnm root room ↔ MemoBlockRefused arnm view root.nodes room := by
      constructor
      · intro h
        obtain ⟨other, hother, hmemos⟩ := h
        rw [hview] at hother
        cases hother
        exact hmemos
      · exact fun hmemos => ⟨view, hview, hmemos⟩
    rw [hrefused]
    change readDocument arnm root root.nodes (.fresh owned) room =
      andRelease (readLists arnm view root.nodes) releaseLists ((Reading.fresh owned).opened record)
        room at hrun
    obtain ⟨hmemos, hstranded⟩ | ⟨hnot, hbalanced⟩ :=
      readLists_spec hlawful hbounded (show (Reading.fresh owned).scratch = .empty from rfl) record
        room
    · refine iff_of_false (fun h => ?_) (not_not_intro hmemos)
      have hastray := h.astray
      rw [hrun, andRelease, hstranded.released] at hastray
      cases hastray
    · refine iff_of_true ⟨?_, ?_, fun hrefusal => ?_⟩ hnot
      · rw [hrun, andRelease, hbalanced.released]
        exact hbalanced.1.astray
      · rw [hrun, andRelease, hbalanced.released]
      · rw [hrun] at hrefusal ⊢
        exact (Reports.andRelease (readLists_reports hlawful hbounded)).refusal hrefusal

/-- A transfer with five memos of one byte. -/
def fiveMemos : Runtime.CompleteTransaction :=
  { Runtime.CompleteTransaction.init with
    transactionType := .transfer
    encryptedMemos := List.replicate 5 ⟨.plain, [1]⟩
    bodyBytes := [1] }

/-- The document of it. -/
def fiveMemosJson : Json :=
  .object (headMembers (.reference []) fiveMemos ++ [addTransfer (.reference []) fiveMemos] ++
    tailMembers (.reference []) fiveMemos)

theorem freesWhatItTook_iff_fiveMemos :
    FreesWhatItTook (.reference []) fiveMemosJson (.init, .empty) [] ↔
      ¬MemosRefused (.reference []) fiveMemosJson [] :=
  freesWhatItTook_iff (JsonArnm.reference_lawful []) fiveMemosJson (.init, .empty) []

/-- Refused the block for five memos, the reading gives back the inline room. -/
theorem not_freesWhatItTook :
    ¬∀ root owned room, FreesWhatItTook (.reference []) root owned room := by
  intro hall
  have hastray := (hall fiveMemosJson (.init, .empty) [false]).astray
  exact absurd hastray (by decide)

end Mapping

end GradidoBlockchain
