import GradidoBlockchain.Chain.Retry

/-!
# An empty segment at the end of the row

An add that is refused may have opened the segment it would have gone to. Such a segment answers
nothing, and where the next transaction falls in it the next add would have opened it anyway. So a
chain with it and the chain without it cannot be told apart.
-/

namespace GradidoBlockchain

open Fallible Fallible.Call

variable {A : Arnm}

namespace Chain

/-- The chain with one more segment at the end of its row, prepared and empty. -/
def trail (chain : Chain A) : Chain A := chain.putSegments
  (chain.segments.append
    [.fresh ((chain.firstSegment + chain.segments.size) * chain.segmentTransactions)])

theorem trail_eq {chain : Chain A} {txNr : Nat}
    (hplace : chain.segmentOf txNr = chain.firstSegment + chain.segments.size) :
    chain.putSegments (chain.segments.append [chain.blankSegment txNr]) = trail chain := by
  rw [trail, ← hplace]
  rfl

/-! ### Adding -/

section Add

variable {tx : CompleteTransaction} {position : Nat} {chain : Chain A}

/-- What an add does between opening the segment and counting the transaction. -/
def note (tx : CompleteTransaction) (position : Nat) : Call ArnmResult (Chain A) Unit := do
  enter tx position
  within addresses putAddresses (Addresses.add tx)

theorem add_notAccepted {code : ArnmResult} (haccepts : accepts tx chain = .error code)
    (room : Room) : add tx chain room = (.error code, chain, room) :=
  bind_run_error (by rw [check_run, haccepts])

theorem add_noPlace {code : ArnmResult} (haccepts : accepts tx chain = .ok ())
    (hposition : positionOf tx (pinFirst tx chain) = .error code) (room : Room) :
    add tx chain room = (.error code, pinFirst tx chain, room) := by
  rw [add, bind_run_ok (by rw [check_run, haccepts]), bind_run_ok (write_run _ _ _)]
  exact bind_run_error (by rw [check_run, hposition])

theorem add_placed (haccepts : accepts tx chain = .ok ())
    (hposition : positionOf tx (pinFirst tx chain) = .ok position)
    (room : Room) : add tx chain room = (do
      openAt tx position
      note tx position
      write (commit tx) : Call ArnmResult (Chain A) Unit) (pinFirst tx chain) room := by
  rw [add, bind_run_ok (by rw [check_run, haccepts]), bind_run_ok (write_run _ _ _),
    bind_run_ok (by rw [check_run, hposition])]
  rcases hopen : openAt tx position (pinFirst tx chain) room with ⟨code | _, opened, between⟩
  · rw [bind_run_error hopen, bind_run_error hopen]
  · rw [bind_run_ok hopen, bind_run_ok hopen, note]
    rcases henter : enter tx position opened between with ⟨code | _, entered, later⟩
    · rw [bind_run_error henter, bind_run_error (bind_run_error henter)]
    · rw [bind_run_ok henter, bind_run, bind_run, bind_run_ok henter]

/-- The row and the register apart, the chain is as it was, and the row is as long as it was. -/
structure SameFrame (chain left : Chain A) : Prop where
  same : left = { chain with segments := left.segments, addresses := left.addresses }
  size : left.segments.size = chain.segments.size

theorem note_frame (chain : Chain A) : Keeps (SameFrame chain) (note tx position) := by
  refine Keeps.bind ?_ fun _ => ?_
  · refine Keeps.bind (Keeps.gets _) fun _ => Keeps.ite (Keeps.pure _) ?_
    intro state room hsame
    exact ⟨congrArg (putSegments _) hsame.same, (Bvec.size_modify ..).trans hsame.size⟩
  · intro state room hsame
    exact ⟨congrArg (putAddresses _) hsame.same, hsame.size⟩

theorem segmentAt_trail (hlt : position < chain.segments.size) :
    (trail chain).segmentAt position = chain.segmentAt position := by
  rw [segmentAt, segmentAt, trail, putSegments, Bvec.get?_append_left hlt]

theorem putSegment_trail {segment : Transactions A} (hlt : position < chain.segments.size) :
    putSegment position segment (trail chain) = trail (putSegment position segment chain) := by
  have hsize : (chain.segments.modify position fun _ => segment).size = chain.segments.size :=
    Bvec.size_modify ..
  rw [trail, trail, putSegment, putSegment, putSegments, putSegments, putSegments, putSegments]
  congr 1
  rw [Bvec.modify_append_left hlt, hsize]

/-- Before the last segment of the row an add does not notice that one follows it. -/
theorem note_trail (hlt : position < chain.segments.size) (room : Room) :
    note tx position (trail chain) room =
      ((note tx position chain room).1, trail (note tx position chain room).2.1,
        (note tx position chain room).2.2) := by
  have henter : enter tx position (trail chain) room = ((enter tx position chain room).1,
      trail (enter tx position chain room).2.1, (enter tx position chain room).2.2) := by
    rw [enter, bind_run_ok (gets_run _ _ _), bind_run_ok (gets_run _ _ _), inSegment, inSegment,
      segmentAt_trail hlt]
    split
    · rfl
    · rw [within_run, within_run, segmentAt_trail hlt, putSegment_trail hlt]
  rw [note]
  rcases hrun : enter tx position chain room with ⟨code | _, entered, later⟩
  · rw [hrun] at henter
    rw [bind_run_error hrun, bind_run_error henter]
  · rw [hrun] at henter
    rw [bind_run_ok hrun, bind_run_ok henter]
    rfl

end Add

/-- `left` is the chain with an empty segment behind it, where the number of no transaction to come
lies beyond that segment. -/
structure Trails (options : ChainOptions) (chain left : Chain A) : Prop where
  sound : Sound options chain
  eq : left = trail chain
  room : chain.segments.size < uint32Max
  pinned : chain.transactionCount = 0 → chain.segments.size ≠ 0
  last : ∀ tx, accepts tx chain = .ok () →
    chain.segmentOf tx.nr ≤ chain.firstSegment + chain.segments.size

section Trails

variable {options : ChainOptions} {chain left : Chain A} {tx : CompleteTransaction} {position : Nat}

theorem pinFirst_eq_self (hpinned : chain.transactionCount = 0 → chain.segments.size ≠ 0) :
    pinFirst tx chain = chain := by
  rw [pinFirst, if_neg fun h => hpinned h.1 h.2]

theorem SameFrame.accepts {other : Chain A} (hframe : SameFrame chain other) :
    accepts tx other = Chain.accepts tx chain := by
  rw [hframe.same]
  rfl

theorem SameFrame.count {other : Chain A} (hframe : SameFrame chain other) :
    other.transactionCount = chain.transactionCount := by
  rw [hframe.same]

theorem SameFrame.first {other : Chain A} (hframe : SameFrame chain other) :
    other.firstSegment = chain.firstSegment := by
  rw [hframe.same]

theorem SameFrame.segmentOf {other : Chain A} (hframe : SameFrame chain other) (txNr : Nat) :
    other.segmentOf txNr = chain.segmentOf txNr := by
  rw [hframe.same]
  rfl

/-- The next number lies in the segment of the one before it or in the one after that. -/
theorem segmentOf_succ_le (chain : Chain A) (txNr : Nat) :
    chain.segmentOf (txNr + 1) ≤ chain.segmentOf txNr + 1 := by
  rw [segmentOf, segmentOf]
  rcases Nat.eq_zero_or_pos chain.segmentTransactions with hzero | hpos
  · rw [hzero, Nat.div_zero]
    exact Nat.zero_le _
  · rw [← Nat.add_div_right _ hpos]
    exact Nat.div_le_div_right (by omega)

/-- Both chains give the same result, and remain alike. -/
theorem Trails.add (htrails : Trails options chain left) (tx : CompleteTransaction) :
    (Chain.add tx chain []).1 = (Chain.add tx left []).1 ∧
      ((Chain.add tx chain []).2.1 = (Chain.add tx left []).2.1 ∨
        Trails options (Chain.add tx chain []).2.1 (Chain.add tx left []).2.1) := by
  obtain ⟨hsound, rfl, hroom, hpinned, hlast⟩ := htrails
  have hsize : (trail chain).segments.size = chain.segments.size + 1 := Bvec.size_concat hroom
  have hpin : pinFirst tx chain = chain := pinFirst_eq_self hpinned
  have hpinTrail : pinFirst tx (trail chain) = trail chain := pinFirst_of_size (by omega)
  have hsame : Trails options chain (trail chain) := ⟨hsound, rfl, hroom, hpinned, hlast⟩
  rcases haccepts : accepts tx chain with code | _
  · have haccepts' : accepts tx (trail chain) = .error code := haccepts
    rw [add_notAccepted haccepts, add_notAccepted haccepts']
    exact ⟨rfl, .inr hsame⟩
  have haccepts' : accepts tx (trail chain) = .ok () := haccepts
  have hle := hlast tx haccepts
  by_cases hbefore : chain.segmentOf tx.nr < chain.firstSegment
  · have hposition : positionOf tx (pinFirst tx chain) = .error .invalidParam := by
      rw [hpin, positionOf, if_pos hbefore]
    have hposition' : positionOf tx (pinFirst tx (trail chain)) = .error .invalidParam := by
      rw [hpinTrail]
      exact if_pos hbefore
    rw [add_noPlace haccepts hposition, add_noPlace haccepts' hposition', hpin, hpinTrail]
    exact ⟨rfl, .inr hsame⟩
  obtain ⟨position, hplace⟩ := Nat.exists_eq_add_of_le (Nat.le_of_not_lt hbefore)
  have hposition : positionOf tx (pinFirst tx chain) = .ok position := by
    rw [hpin]
    exact positionOf_eq hplace (by omega)
  have hposition' : positionOf tx (pinFirst tx (trail chain)) = .ok position := by
    rw [hpinTrail]
    exact positionOf_eq hplace (by omega)
  have hafter : Sound options (Chain.add tx chain []).2.1 := hsound.outcome (add_outcome rfl)
  rw [add_placed haccepts hposition, hpin] at hafter
  rw [add_placed haccepts hposition, add_placed haccepts' hposition', hpin, hpinTrail]
  have hthere : openAt tx position (trail chain) [] = (.ok (), trail chain, []) := by
    rw [openAt, bind_run_ok (gets_run _ _ _), if_neg (by omega)]
    rfl
  rw [bind_run_ok hthere]
  by_cases heq : position = chain.segments.size
  · -- The add opens the segment the other chain has.
    obtain ⟨opened, hopened⟩ : ∃ opened,
        openSegment tx.nr position chain [] = (.ok (), opened, []) := openSegment_nil hroom
    have hopen : openAt tx position chain [] = (.ok (), trail chain, []) := by
      rw [openAt, bind_run_ok (gets_run _ _ _), if_pos heq, hopened, (openSegment_ok heq hopened).2]
      rw [← trail_eq (hplace.trans (by rw [heq]))]
      rfl
    rw [bind_run_ok hopen]
    exact ⟨rfl, .inl rfl⟩
  · have hopen : openAt tx position chain [] = (.ok (), chain, []) := by
      rw [openAt, bind_run_ok (gets_run _ _ _), if_neg heq]
      rfl
    rw [bind_run_ok hopen] at hafter ⊢
    have hnoted := @note_trail _ tx _ _ (by omega : position < chain.segments.size) []
    have hframe : SameFrame chain (note tx position chain []).2.1 :=
      note_frame chain chain [] ⟨rfl, rfl⟩
    rcases hrun : note tx position chain [] with ⟨code | _, noted, rest⟩
    · rw [hrun] at hnoted hframe
      change SameFrame chain noted at hframe
      rw [bind_run_error hrun] at hafter
      rw [bind_run_error hrun, bind_run_error hnoted]
      refine ⟨rfl, .inr ⟨hafter, rfl, hframe.size.symm ▸ hroom, ?_, ?_⟩⟩
      · rw [hframe.count, hframe.size]
        exact hpinned
      · intro other hother
        rw [hframe.segmentOf, hframe.first, hframe.size]
        exact hlast other (hframe.accepts.symm.trans hother)
    · rw [hrun] at hnoted hframe
      change SameFrame chain noted at hframe
      rw [bind_run_ok hrun] at hafter
      rw [bind_run_ok hrun, bind_run_ok hnoted]
      have hcount : (commit tx noted).transactionCount = chain.transactionCount + 1 := by
        have hlt := tx.nr_lt
        have hle := hsound.count_lt haccepts
        change (noted.transactionCount + 1) % 2 ^ 64 = _
        rw [hframe.count, Nat.mod_eq_of_lt (by omega)]
      refine ⟨rfl, .inr ⟨hafter, rfl, hframe.size.symm ▸ hroom, fun hzero => ?_, ?_⟩⟩
      · change (commit tx noted).transactionCount = 0 at hzero
        omega
      · intro other hother
        have hnext : other.nr = tx.nr + 1 := hafter.next hother (by
          change (commit tx noted).transactionCount ≠ 0
          omega)
        change noted.segmentOf other.nr ≤ noted.firstSegment + noted.segments.size
        rw [hframe.segmentOf, hframe.first, hframe.size, hnext]
        have hstep := segmentOf_succ_le chain tx.nr
        omega

end Trails

/-! ### Asking -/

/-- What a chain can be asked, answered alike by two chains. -/
structure AnswersAlike (chain left : Chain A) : Prop where
  size : chain.transactionCount = left.transactionCount
  min : chain.minTxNr = left.minTxNr
  max : chain.maxTxNr = left.maxTxNr
  queries : QueriesAlike chain left
  type : ∀ key, chain.addressType key = left.addressType key
  typeAt : ∀ key atTxNr, chain.addressTypeAt key atTxNr = left.addressTypeAt key atTxNr
  typeChanges : ∀ key size,
    chain.addresses.typeChangesOf key size = left.addresses.typeChangesOf key size
  lastBalance : ∀ key, chain.addressLastBalance key = left.addressLastBalance key
  knows : ∀ key, chain.knowsAddress key = left.knowsAddress key

theorem AnswersAlike.refl (chain : Chain A) : AnswersAlike chain chain :=
  ⟨rfl, rfl, rfl, ⟨fun _ => rfl, fun _ _ _ _ => rfl, fun _ => rfl, fun _ _ => rfl⟩, fun _ => rfl,
    fun _ _ => rfl, fun _ _ => rfl, fun _ => rfl, fun _ => rfl⟩

section Asking

variable (base : Nat) (filter : TransactionsFilter)

theorem newest_blank : (Transactions.fresh base : Transactions A).newest filter = none := rfl

theorem rangeOfDays_blank (fromSecond toSecond : Int64) :
    (Transactions.fresh base : Transactions A).rangeOfDays fromSecond toSecond = none := rfl

theorem walkOn_blank (descending : Bool) {walk : Walk}
    (hsize : walk.remainingSize ≤ Transactions.pageMax) (hmatching : walk.matching < 2 ^ 64) :
    walkOn filter descending walk (.fresh base : Transactions A) = .ok walk := by
  have hlisting : (Transactions.fresh base : Transactions A).listing filter walk.remainingSkip
        walk.remainingSize descending = .ok ([], 0) := by
    rw [Transactions.listing, if_neg (by simp [Transactions.fresh]), if_neg (Nat.not_lt.2 hsize)]
    rfl
  rw [walkOn, hlisting]
  obtain ⟨skip, size, taken, matching⟩ := walk
  have hskip : (if skip ≤ 0 then 0 else skip - 0) = skip := by split <;> omega
  have hcount : (matching + 0) % 2 ^ 64 = matching := Nat.mod_eq_of_lt hmatching
  change Except.ok
      (Walk.mk (if skip ≤ 0 then 0 else skip - 0) (size - 0) (taken ++ [])
        ((matching + 0) % 2 ^ 64)) = _
  rw [hskip, hcount, List.append_nil, Nat.sub_zero]

/-- The loop never has more room than the page it began with, and counts in 64 bits. -/
theorem walk_bounds {segments : List (Transactions A)} {descending : Bool} {walk last : Walk}
    (hrun : segments.foldlM (walkOn filter descending) walk = .ok last)
    (hmatching : walk.matching < 2 ^ 64) :
    last.remainingSize ≤ walk.remainingSize ∧ last.matching < 2 ^ 64 := by
  induction segments generalizing walk with
  | nil =>
      cases hrun
      exact ⟨Nat.le_refl _, hmatching⟩
  | cons segment segments ih =>
      rw [List.foldlM_cons] at hrun
      rw [walkOn] at hrun
      rcases hlisting : segment.listing filter walk.remainingSkip walk.remainingSize descending
        with code | ⟨here, hereCount⟩
      · rw [hlisting] at hrun
        cases hrun
      · rw [hlisting] at hrun
        obtain ⟨hsize, hlast⟩ := ih hrun (Nat.mod_lt _ (by decide))
        exact ⟨Nat.le_trans hsize (Nat.sub_le _ _), hlast⟩

theorem count_lt {segments : List (Transactions A)} {total last : Nat} (hrun : segments.foldlM (fun total segment => do
    let here ← segment.count filter
    .ok ((total + here) % 2 ^ 64)) total = (.ok last : Except ArnmResult Nat)) (htotal : total < 2 ^ 64) : last < 2 ^ 64 := by
  induction segments generalizing total with
  | nil =>
      cases hrun
      exact htotal
  | cons segment segments ih =>
      rw [List.foldlM_cons] at hrun
      rcases hcount : segment.count filter with code | here
      · rw [hcount] at hrun
        cases hrun
      · rw [hcount] at hrun
        exact ih hrun (Nat.mod_lt _ (by decide))

end Asking

/-- An empty segment at the end of the row changes no answer. -/
theorem answersAlike_trail {chain : Chain A} (hroom : chain.segments.size < uint32Max) :
    AnswersAlike chain (trail chain) := by
  have hslots : (trail chain).segments.slots =
      chain.segments.slots ++
        [.fresh ((chain.firstSegment + chain.segments.size) * chain.segmentTransactions)] :=
    Bvec.concat_slots hroom
  have hready : (trail chain).ready = chain.ready := rfl
  refine ⟨rfl, rfl, rfl,
    ⟨fun filter => ?_, fun filter skip size descending => ?_, fun filter => ?_,
      fun fromSecond toSecond => ?_⟩, fun _ => rfl, fun _ _ => rfl, fun _ _ => rfl, fun _ => rfl,
    fun _ => rfl⟩
  · rw [count, count, hready, hslots, List.foldlM_append]
    split
    · rfl
    · rcases hrun : chain.segments.slots.foldlM _ 0 with code | total
      · rfl
      · have htotal := count_lt filter hrun (by decide)
        change Except.ok total = Except.ok ((total + 0) % 2 ^ 64)
        rw [Nat.add_zero, Nat.mod_eq_of_lt htotal]
  · rw [listing, listing, hready]
    split
    · rfl
    split
    · rfl
    have hsize : size ≤ Transactions.pageMax := Nat.le_of_not_lt ‹_›
    have hwalk : (Page.oriented descending (trail chain).segments.slots).foldlM
          (walkOn filter descending) ⟨skip, size, [], 0⟩ =
        (Page.oriented descending chain.segments.slots).foldlM (walkOn filter descending)
          ⟨skip, size, [], 0⟩ := by
      rw [hslots]
      cases descending with
      | false =>
          change (chain.segments.slots ++ [_]).foldlM _ _ = chain.segments.slots.foldlM _ _
          rw [List.foldlM_append]
          rcases hrun : chain.segments.slots.foldlM (walkOn filter false) ⟨skip, size, [], 0⟩
            with code | last
          · rfl
          · obtain ⟨hlast, hmatching⟩ := walk_bounds filter hrun (by decide : 0 < 2 ^ 64)
            change ([_].foldlM (walkOn filter false) last) = _
            rw [List.foldlM_cons, walkOn_blank _ _ _ (Nat.le_trans hlast hsize) hmatching]
            rfl
      | true =>
          change ((chain.segments.slots ++ [_]).reverse).foldlM _ _ =
            chain.segments.slots.reverse.foldlM _ _
          rw [List.reverse_concat, List.foldlM_cons, walkOn_blank _ _ _ hsize (Nat.two_pow_pos 64)]
          rfl
    rw [hwalk]
  · rw [newest, newest, hready, hslots, List.reverse_concat, List.findSome?_cons, newest_blank]
  · rw [rangeOfDays, rangeOfDays, hready, hslots, List.foldl_append, List.foldl_cons,
      rangeOfDays_blank]
    rfl

/-- Now and after whatever is added, the two chains answer alike, and they take the
same transactions. -/
def Alike (chain left : Chain A) : Prop :=
  ∀ stream, (feed stream chain).1 = (feed stream left).1 ∧
    AnswersAlike (feed stream chain).2 (feed stream left).2

theorem Alike.refl (chain : Chain A) : Alike chain chain := fun _ => ⟨rfl, .refl _⟩

theorem Trails.alike {options : ChainOptions} {chain left : Chain A}
    (htrails : Trails options chain left) : Alike chain left := by
  intro stream
  induction stream generalizing chain left with
  | nil =>
      refine ⟨rfl, ?_⟩
      rw [feed, feed, htrails.eq]
      exact answersAlike_trail htrails.room
  | cons tx stream ih =>
      obtain ⟨hresult, hleft⟩ := htrails.add tx
      rw [feed_cons, feed_cons]
      rcases hleft with heq | hnext
      · rw [hresult, heq]
        exact ⟨rfl, .refl _⟩
      · obtain ⟨hresults, halike⟩ := ih hnext
        exact ⟨congrArg₂ List.cons hresult hresults, halike⟩

end Chain

end GradidoBlockchain
