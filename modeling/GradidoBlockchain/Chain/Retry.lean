import GradidoBlockchain.Chain.Answers
import GradidoBlockchain.Chain.Reachable

/-!
# An add to a chain can be repeated

The row, the segment and the register are each left where a repetition goes on from. The
segment counts a transaction when it has it all, which is how a repetition knows that only the
register is missing.
-/

namespace GradidoBlockchain

open Fallible Fallible.Call

variable {A : Arnm}

namespace Chain

variable {options : ChainOptions} {tx : CompleteTransaction} {position : Nat} {chain : Chain A}

theorem accepts_ne_oom (tx : CompleteTransaction) (chain : Chain A) :
    accepts tx chain ≠ .error .outOfMemory := by
  rw [accepts]
  split_ifs <;> intro hcode <;> cases hcode

theorem positionOf_ne_oom (tx : CompleteTransaction) (chain : Chain A) :
    positionOf tx chain ≠ .error .outOfMemory := by
  rw [positionOf]
  split_ifs <;> intro hcode <;> cases hcode

/-! ### Opening a segment -/

theorem segmentInit_nil (options : TransactionsOptions) (start : Transactions A) :
    Transactions.init options start [] = (.ok (), .fresh options.baseTxNr, []) := by
  obtain ⟨base, addresses, days⟩ := options
  cases addresses with
  | zero =>
      cases days with
      | zero => rfl
      | succ days => rfl
  | succ addresses =>
      cases days with
      | zero => rfl
      | succ days => rfl

theorem openSegment_nil {txNr : Nat} (hroom : chain.segments.size < uint32Max) :
    ∃ left, openSegment txNr position chain [] = (.ok (), left, []) := by
  have hslot : within segments putSegments (Bvec.emplace .zero) chain [] =
      (.ok (), chain.putSegments (chain.segments.append [.zero]), []) := by
    rw [within_run, Bvec.emplace_nil, if_pos hroom]
  rw [openSegment, bind_run_ok hslot, bind_run_ok (gets_run _ _ _), orUndo, within_run,
    segmentInit_nil]
  exact ⟨_, rfl⟩

/-- Opening a segment is all or nothing. -/
theorem openSegment_resumable (txNr : Nat) {inv : Chain A → Prop} :
    Resumable (fun chain : Chain A => inv chain ∧ position = chain.segments.size) .outOfMemory
      (openSegment txNr position) where
  refused := fun hinv hrun => (openSegment_error hinv.2 hrun).2 ▸ hinv
  steady := by
    intro chain left room rest outcome hinv hrun hne
    rcases outcome with code | _
    · exact absurd (congrArg Except.error (openSegment_error hinv.2 hrun).1) hne
    · obtain ⟨hroom, rfl⟩ := openSegment_ok hinv.2 hrun
      obtain ⟨opened, hopened⟩ : ∃ opened,
          openSegment txNr position chain [] = (.ok (), opened, []) := openSegment_nil hroom
      rw [hopened, (openSegment_ok hinv.2 hopened).2]
  resumes := by
    intro chain left room rest hinv hrun
    rw [(openSegment_error hinv.2 hrun).2]

theorem openAt_eq (tx : CompleteTransaction) (position : Nat) : (openAt tx position : Call ArnmResult (Chain A) Unit) = (do
    let done ← gets fun chain => decide (position ≠ chain.segments.size)
    if done then pure () else openSegment tx.nr position) := by
  funext chain room
  rw [openAt, bind_run_ok (gets_run _ _ _), bind_run_ok (gets_run _ _ _)]
  by_cases heq : position = chain.segments.size
  · rw [if_pos heq, if_neg (by simpa using heq)]
  · rw [if_neg heq, if_pos (by simpa using heq)]

/-! ### The steps of an add -/

/-- What an add has settled before it opens a segment. -/
structure Placed (options : ChainOptions) (tx : CompleteTransaction) (position : Nat)
    (chain : Chain A) : Prop where
  row : SoundRow options chain
  accepts : Chain.accepts tx chain = .ok ()
  pinned : Chain.pinFirst tx chain = chain
  position : positionOf tx chain = .ok position

theorem pinFirst_pinFirst (tx : CompleteTransaction) (chain : Chain A) :
    pinFirst tx (pinFirst tx chain) = pinFirst tx chain := by
  by_cases hempty : chain.transactionCount = 0 ∧ chain.segments.size = 0
  · have hfirst : (pinFirst tx chain).firstSegment = chain.segmentOf tx.nr := if_pos hempty
    have hagain : (pinFirst tx (pinFirst tx chain)).firstSegment = chain.segmentOf tx.nr :=
      if_pos hempty
    change { pinFirst tx chain with firstSegment := (pinFirst tx (pinFirst tx chain)).firstSegment } = pinFirst tx chain
    rw [hagain, ← hfirst]
  · have hsame : pinFirst tx chain = chain := by rw [pinFirst, if_neg hempty]
    rw [hsame, hsame]

theorem pinFirst_retryable (options : ChainOptions) (tx : CompleteTransaction) :
    Retryable (fun chain : Chain A => SoundRow options chain ∧ accepts tx chain = .ok ())
      ArnmResult.outOfMemory (write (pinFirst tx)) fun _ chain => pinFirst tx chain = chain :=
  .write (fun _ hinv => ⟨hinv.1.pinFirst, hinv.2⟩) (fun chain _ => pinFirst_pinFirst tx chain)
    fun _ _ hpinned => hpinned

/-- A row that has grown has room for the transaction still, and does not begin anew. -/
theorem Placed.opens {opened : Chain A} (hplaced : Placed options tx position chain)
    (hopens : Opens tx position chain opened) : Placed options tx position opened := by
  have hrow := hplaced.row.opens hopens
  cases hopens with
  | there => exact hplaced
  | opened heq hroom =>
      have hsize :
          (chain.putSegments (chain.segments.append [chain.blankSegment tx.nr])).segments.size =
            chain.segments.size + 1 := Bvec.size_concat hroom
      refine ⟨hrow, hplaced.accepts, pinFirst_of_size (by omega), ?_⟩
      exact positionOf_eq (positionOf_ok hplaced.position).1 (by omega)

theorem openAt_retryable (options : ChainOptions) (tx : CompleteTransaction) (position : Nat) :
    Retryable (Placed options tx position) ArnmResult.outOfMemory
      (openAt tx position : Call ArnmResult (Chain A) Unit) fun _ chain =>
      decide (position ≠ chain.segments.size) = true := by
  rw [openAt_eq]
  refine Resumable.unlessDone ?_ ?_ ?_
  · apply (openSegment_resumable tx.nr).congr
    intro chain
    rw [decide_eq_false_iff_not, not_not]
  · intro chain room hplaced hdone
    have hposition : position = chain.segments.size := by simpa using hdone
    rcases hrun : openSegment tx.nr position chain room with ⟨code | _, left, rest⟩
    · rw [(openSegment_error hposition hrun).2]
      exact hplaced
    · obtain ⟨hroom, rfl⟩ := openSegment_ok hposition hrun
      exact hplaced.opens (.opened hposition hroom)
  · intro chain left room rest _ hdone hrun
    have hposition : position = chain.segments.size := by simpa using hdone
    obtain ⟨hroom, rfl⟩ := openSegment_ok hposition hrun
    have hsize :
        (chain.putSegments (chain.segments.append [chain.blankSegment tx.nr])).segments.size =
          chain.segments.size + 1 := Bvec.size_concat hroom
    exact decide_eq_true (by rw [hposition]; exact fun h => absurd (h.trans hsize) (by omega))

/-- A write to a segment that keeps what the row counts leaves the transaction its place. -/
theorem Placed.putSegment {segment : Transactions A} (hplaced : Placed options tx position chain)
    (hrow : SoundRow options (putSegment position segment chain)) :
    Placed options tx position (putSegment position segment chain) := by
  have hsize : (Chain.putSegment position segment chain).segments.size = chain.segments.size :=
    Bvec.size_modify ..
  refine ⟨hrow, hplaced.accepts, ?_, ?_⟩
  · by_cases hempty : chain.segments.size = 0
    · have hnone : Chain.putSegment position segment chain = chain := by
        have hslots : chain.segments.slots = [] := List.length_eq_zero_iff.1 hempty
        have hsame : (chain.segments.modify position fun _ => segment) = chain.segments := by
          ext1
          change chain.segments.slots.modify position _ = _
          rw [hslots]
          cases position <;> rfl
        change chain.putSegments (chain.segments.modify position fun _ => segment) = chain
        rw [hsame]
        rfl
      rw [hnone]
      exact hplaced.pinned
    · exact pinFirst_of_size (by rwa [hsize])
  · exact positionOf_eq (positionOf_ok hplaced.position).1
      (hsize ▸ (positionOf_ok hplaced.position).2)

theorem segmentAt_putSegment {segment : Transactions A} (hlt : position < chain.segments.size) :
    (putSegment position segment chain).segmentAt position = segment := by
  obtain ⟨before, hbefore⟩ := Bvec.get?_isSome hlt
  have hget : (putSegment position segment chain).segments.get? position = some segment := by
    change (chain.segments.modify position fun _ => segment).get? position = some segment
    rw [Bvec.get?_modify, if_pos rfl, hbefore]
    rfl
  exact segmentAt_eq hget

theorem putSegment_putSegment (first second : Transactions A) :
    putSegment position first (putSegment position second chain) =
      putSegment position first chain := by
  have hsame : ((chain.segments.modify position fun _ => second).modify position fun _ => first) =
      chain.segments.modify position fun _ => first := by
    ext1
    apply List.ext_getElem?
    intro other
    change (Bvec.modify (Bvec.modify _ _ _) _ _).get? other = (Bvec.modify _ _ _).get? other
    rw [Bvec.get?_modify, Bvec.get?_modify, Bvec.get?_modify]
    by_cases heq : position = other
    · rw [if_pos heq, if_pos heq, if_pos heq, Option.map_map]
      rfl
    · rw [if_neg heq, if_neg heq, if_neg heq]
  change { chain with segments := (chain.segments.modify position fun _ => second).modify position fun _ => first } = _
  rw [hsame]
  rfl

theorem inSegment_iff :
    inSegment tx position chain = true ↔
      (chain.segmentAt position).transactionCount ≠ 0 ∧
        (chain.segmentAt position).maxTxNr = tx.nr := by
  rw [inSegment, Bool.and_eq_true, decide_eq_true_eq, decide_eq_true_eq]

theorem enter_retryable (options : ChainOptions) (tx : CompleteTransaction) (position : Nat) :
    Retryable (fun chain : Chain A =>
      Placed options tx position chain ∧ decide (position ≠ chain.segments.size) = true)
      ArnmResult.outOfMemory (enter tx position) fun _ chain =>
      inSegment tx position chain = true := by
  have hlt : ∀ {chain : Chain A}, Placed options tx position chain →
      decide (position ≠ chain.segments.size) = true → position < chain.segments.size := by
    intro chain hplaced hne
    exact Nat.lt_of_le_of_ne (positionOf_ok hplaced.position).2 (of_decide_eq_true hne)
  have hput : ∀ {chain : Chain A} {segment : Transactions A}, SoundRow options
        (putSegment position segment chain) →
      Placed options tx position chain ∧ decide (position ≠ chain.segments.size) = true →
      Placed options tx position (putSegment position segment chain) ∧
        decide (position ≠ (putSegment position segment chain).segments.size) = true := by
    intro chain segment hrow hinv
    exact ⟨hinv.1.putSegment hrow, by rw [putSegment, putSegments, Bvec.size_modify]; exact hinv.2⟩
  have hthere : ∀ {chain : Chain A}, Placed options tx position chain →
      decide (position ≠ chain.segments.size) = true → chain.segments.get? position ≠ none := by
    intro chain hplaced hne
    obtain ⟨segment, hget⟩ := Bvec.get?_isSome (hlt hplaced hne)
    rw [hget]
    exact Option.some_ne_none segment
  have hcounted : ∀ {chain : Chain A} {segment : Transactions A}, Placed options tx position chain →
      decide (position ≠ chain.segments.size) = true →
      Transactions.Moved tx (chain.segmentAt position) segment →
      segment.transactionCount ≠ 0 ∧ Counted chain position segment := by
    intro chain segment hplaced hne hmoved
    exact hplaced.row.counted_moved (accepts_ok hplaced.accepts).2.1
      (positionOf_ok hplaced.position).1 (hthere hplaced hne) hmoved
  refine Resumable.unlessDone ?_ ?_ ?_
  · refine Resumable.within (segmentAt position) (putSegment position) ?_ ?_ ?_
      (Transactions.add_resumable tx)
    · intro chain segment hinv
      exact segmentAt_putSegment (hlt hinv.1.1 hinv.1.2)
    · intro chain first second
      exact putSegment_putSegment first second
    · intro chain left room rest hinv hrun
      have hunmoved := Transactions.add_error_unmoved hrun
      refine ⟨hput (hinv.1.1.row.unmoved hunmoved) hinv.1, ?_⟩
      rw [← hinv.2, inSegment, inSegment, segmentAt_putSegment (hlt hinv.1.1 hinv.1.2),
        hunmoved.count, hunmoved.max]
  · intro chain room hinv hdone
    rw [within_run]
    rcases hrun : Transactions.add tx (chain.segmentAt position) room with ⟨code | _, segment, rest⟩
    · exact hput (hinv.1.row.unmoved (Transactions.add_error_unmoved hrun)) hinv
    · have hmoved := hcounted hinv.1 hinv.2 (Transactions.add_ok_moved hrun)
      exact hput (hinv.1.row.put fun _ _ => hmoved.2) hinv
  · intro chain left room rest hinv _ hrun
    obtain ⟨segment, hadd, rfl⟩ := within_ok.1 hrun
    have hmoved := Transactions.add_ok_moved hadd
    rw [inSegment_iff, segmentAt_putSegment (hlt hinv.1 hinv.2)]
    exact ⟨(hcounted hinv.1 hinv.2 hmoved).1, hmoved.max⟩

/-- Refused room anywhere, an add to a chain can be repeated. -/
theorem add_resumable (options : ChainOptions) (tx : CompleteTransaction) :
    Resumable (fun chain : Chain A => SoundRow options chain) ArnmResult.outOfMemory (add tx) := by
  refine (Retryable.check fun chain _ => accepts_ne_oom tx chain).bindResumable fun _ => ?_
  refine (pinFirst_retryable options tx).bindResumable fun _ => ?_
  refine (Retryable.check fun chain _ => positionOf_ne_oom tx chain).bindResumable fun position =>
    ?_
  have hrest : Resumable (Placed options tx position) ArnmResult.outOfMemory (do
      openAt tx position
      enter tx position
      within addresses putAddresses (Addresses.add tx)
      write (commit tx) : Call ArnmResult (Chain A) Unit) := by
    refine (openAt_retryable options tx position).bindResumable fun _ => ?_
    refine (enter_retryable options tx position).bindResumable fun _ => ?_
    refine Resumable.andThen
      (Resumable.within addresses putAddresses (fun _ _ _ => rfl) (fun _ _ _ => rfl) ?_
        (Addresses.add_resumable tx)) fun _ _ => nofun
    intro chain register room rest hinv _
    obtain ⟨⟨hplaced, hopened⟩, hentered⟩ := hinv
    refine ⟨⟨⟨⟨hplaced.row.size, fun place segment hget hne => ?_⟩, hplaced.accepts, ?_,
          hplaced.position⟩, hopened⟩, hentered⟩
    · obtain ⟨hlength, hlow, hhigh, hbounded⟩ := hplaced.row.counted place segment hget hne
      exact ⟨hlength, hlow, hhigh, hbounded⟩
    · exact congrArg (putAddresses register) hplaced.pinned
  refine hrest.congr fun chain => ?_
  constructor
  · rintro ⟨⟨⟨hrow, haccepts⟩, hpinned⟩, hposition⟩
    exact ⟨hrow, haccepts, hpinned, hposition⟩
  · rintro ⟨hrow, haccepts, hpinned, hposition⟩
    exact ⟨⟨⟨hrow, haccepts⟩, hpinned⟩, hposition⟩

/-! ### A chain that has been interrupted -/

theorem reachable_fresh (options : ChainOptions) : Reachable options (fresh options : Chain A) :=
  .init (init_nil options .zero)

/-- However often an add has been refused room, it succeeds once there is room, and whenever it
succeeds it leaves the chain it would have left at once. -/
theorem Reachable.retry_complete {options : ChainOptions} {tx : CompleteTransaction}
    {chain left good : Chain A} (hreachable : Reachable options chain)
    (hgood : Chain.add tx chain [] = (.ok (), good, []))
    (hfailures : Failures (Chain.add tx) chain left) :
    Chain.add tx left [] = (.ok (), good, []) ∧
      ∀ room rest final, Chain.add tx left room = (.ok (), final, rest) → final = good := by
  obtain ⟨hrow, hsame⟩ := hfailures.same (add_resumable options tx) hreachable.sound.row hgood
  refine ⟨hsame, fun room rest final hrun => ?_⟩
  have hsteady := (add_resumable options tx).steady hrow hrun nofun
  rw [hsame] at hsteady
  cases hsteady
  rfl

/-- A chain that could not get room for the last entry of its register. -/
def interrupted : Chain Arnm.reference :=
  (Chain.add paid (fresh (segmentsOf 1)) (List.replicate 13 true ++ [false])).2.1

theorem Reachable.retry_complete_paid :
    Chain.add paid interrupted [] = (.ok (), paidChain, []) ∧
      ∀ room rest final, Chain.add paid interrupted room = (.ok (), final, rest) →
        final = paidChain :=
  have hrefused : (Chain.add paid (fresh (segmentsOf 1)) (List.replicate 13 true ++ [false])).1 =
      .error .outOfMemory := by decide +kernel
  have hgood : (Chain.add paid (fresh (segmentsOf 1) : Chain Arnm.reference) []).1 = .ok () := by
    decide +kernel
  have hroom : (Chain.add paid (fresh (segmentsOf 1) : Chain Arnm.reference) []).2.2 = [] := by
    decide +kernel
  Reachable.retry_complete (reachable_fresh (segmentsOf 1)) (Prod.ext hgood (Prod.ext rfl hroom))
    (.more (.none _)
      (Prod.ext hrefused rfl : Chain.add paid _ (List.replicate 13 true ++ [false]) =
        (_, interrupted, _)))

end Chain

end GradidoBlockchain
