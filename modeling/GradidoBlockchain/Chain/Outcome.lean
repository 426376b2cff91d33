import GradidoBlockchain.Chain.Steps
import GradidoBlockchain.Index.Refusals
import GradidoBlockchain.Register.Refusals

/-!
# How an add to a chain can end

Every run of `grdb_chain_add` comes to one of six ends, each with what it leaves behind. Where there
is room the result is a verdict that can be told beforehand: what the chain, the segment and the
register say to the transaction, in this order.
-/

namespace GradidoBlockchain

open Fallible Fallible.Call

variable {A : Arnm}

namespace Chain

/-! ### What may come back -/

/-- The index a segment for this number starts as. -/
def blankSegment (chain : Chain A) (txNr : Nat) : Transactions A :=
  .fresh (chain.segmentOf txNr * chain.segmentTransactions)

/-- The row with room for the transaction at `position`. -/
inductive Opens (tx : CompleteTransaction) (position : Nat) (chain : Chain A) : Chain A → Prop
  | there : position ≠ chain.segments.size → Opens tx position chain chain
  | opened : position = chain.segments.size → chain.segments.size < uint32Max →
      Opens tx position chain (chain.putSegments (chain.segments.append [chain.blankSegment tx.nr]))

/-- The transaction in the segment at `position`. -/
inductive Enters (tx : CompleteTransaction) (position : Nat) (chain : Chain A) : Chain A → Prop
  | there : inSegment tx position chain = true → Enters tx position chain chain
  | entered {segment : Transactions A} {room rest : Room} : inSegment tx position chain = false →
      Transactions.add tx (chain.segmentAt position) room = (.ok (), segment, rest) →
      Enters tx position chain (putSegment position segment chain)

/-- The ends of an add. -/
inductive Outcome (tx : CompleteTransaction) (chain : Chain A) :
    Except ArnmResult Unit → Chain A → Prop
  | notAccepted {code : ArnmResult} : accepts tx chain = .error code →
      Outcome tx chain (.error code) chain
  | noPlace {code : ArnmResult} : accepts tx chain = .ok () →
      positionOf tx (pinFirst tx chain) = .error code →
      Outcome tx chain (.error code) (pinFirst tx chain)
  | notOpened {position : Nat} : accepts tx chain = .ok () →
      positionOf tx (pinFirst tx chain) = .ok position →
      Outcome tx chain (.error .outOfMemory) (pinFirst tx chain)
  | notEntered {position : Nat} {opened : Chain A} {segment : Transactions A} {room rest : Room}
      {code : ArnmResult} : accepts tx chain = .ok () →
      positionOf tx (pinFirst tx chain) = .ok position →
      Opens tx position (pinFirst tx chain) opened → inSegment tx position opened = false →
      Transactions.add tx (opened.segmentAt position) room = (.error code, segment, rest) →
      Outcome tx chain (.error code) (putSegment position segment opened)
  | notRegistered {position : Nat} {opened entered : Chain A} {register : Addresses A}
      {room rest : Room} {code : ArnmResult} : accepts tx chain = .ok () →
      positionOf tx (pinFirst tx chain) = .ok position →
      Opens tx position (pinFirst tx chain) opened → Enters tx position opened entered →
      Addresses.add tx entered.addresses room = (.error code, register, rest) →
      Outcome tx chain (.error code) (entered.putAddresses register)
  | added {position : Nat} {opened entered : Chain A} {register : Addresses A} {room rest : Room} :
      accepts tx chain = .ok () → positionOf tx (pinFirst tx chain) = .ok position →
      Opens tx position (pinFirst tx chain) opened → Enters tx position opened entered →
      Addresses.add tx entered.addresses room = (.ok (), register, rest) →
      Outcome tx chain (.ok ()) (commit tx (entered.putAddresses register))

/-! ### The steps -/

theorem init_failsOnly (options : TransactionsOptions) :
    FailsOnly .outOfMemory (Transactions.init options : Call ArnmResult (Transactions A) Unit) := by
  have hask :
      FailsOnly .outOfMemory (ask .outOfMemory : Call ArnmResult (Transactions A) Unit) := by
    intro state left room rest code hrun
    rcases room with _ | ⟨_ | _, room⟩ <;> cases hrun
    rfl
  have hloop : ∀ count, FailsOnly .outOfMemory
      ((List.range count).forM fun _ =>
        (ask .outOfMemory : Call ArnmResult (Transactions A) Unit)) :=
    fun count => .forM fun _ _ => hask
  have hlast : FailsOnly .outOfMemory
      (write (fun _ => .fresh options.baseTxNr) : Call ArnmResult (Transactions A) Unit) := .write _
  have hdays : FailsOnly .outOfMemory (do
      if options.expectedDays ≠ 0 then ask .outOfMemory
      write fun _ => .fresh options.baseTxNr : Call ArnmResult (Transactions A) Unit) :=
    .ite (hask.bind fun _ => hlast) hlast
  exact .bind (.write _) fun _ =>
    .bind (hloop 6) fun _ => .ite (.bind (hloop 2) fun _ => hdays) hdays

theorem openSegment_error {txNr position : Nat} {chain left : Chain A} {room rest : Room}
    {code : ArnmResult} (hposition : position = chain.segments.size)
    (hrun : openSegment txNr position chain room = (.error code, left, rest)) :
    code = .outOfMemory ∧ left = chain := by
  rcases bind_error.1 hrun with hslot | ⟨_, slotted, _, hslot, hrun⟩
  · obtain ⟨vec, hvec, rfl⟩ := within_error.1 hslot
    obtain ⟨rfl, rfl⟩ := Bvec.emplace_error hvec
    exact ⟨rfl, rfl⟩
  obtain ⟨vec, hvec, rfl⟩ := within_ok.1 hslot
  obtain ⟨hroom, rfl⟩ := Bvec.emplace_ok hvec
  obtain ⟨options, same, _, hgets, hrun⟩ := (bind_error.1 hrun).resolve_left nofun
  obtain ⟨rfl, rfl, -⟩ := gets_ok.1 hgets
  obtain ⟨middle, hinit, rfl⟩ := orUndo_error.1 hrun
  obtain ⟨segment, hsegment, rfl⟩ := within_error.1 hinit
  refine ⟨init_failsOnly _ hsegment, ?_⟩
  -- The slot goes back as it came, whatever has been written to it.
  have hslots :
      ((chain.segments.append [Transactions.zero]).modify position fun _ => segment).slots =
        chain.segments.slots ++ [segment] := by
    subst hposition
    exact Bvec.modify_last (Bvec.concat_slots hroom) _
  have hback : ((chain.segments.append [Transactions.zero]).modify position fun _ => segment).pop =
      chain.segments := by
    ext1
    exact (congrArg List.dropLast hslots).trans (List.dropLast_concat ..)
  change chain.putSegments
      ((chain.segments.append [Transactions.zero]).modify position fun _ => segment).pop = chain
  rw [hback]
  rfl

theorem openAt_opens {tx : CompleteTransaction} {position : Nat} {chain left : Chain A}
    {room rest : Room} (hrun : openAt tx position chain room = (.ok (), left, rest)) :
    Opens tx position chain left := by
  rcases openAt_ok hrun with ⟨hne, rfl⟩ | ⟨heq, hroom, rfl⟩
  · exact .there hne
  · exact .opened heq hroom

theorem openAt_error {tx : CompleteTransaction} {position : Nat} {chain left : Chain A}
    {room rest : Room} {code : ArnmResult}
    (hrun : openAt tx position chain room = (.error code, left, rest)) :
    code = .outOfMemory ∧ left = chain := by
  rw [openAt, bind_run_ok (gets_run _ _ _)] at hrun
  split at hrun
  · exact openSegment_error ‹_› hrun
  · cases hrun

theorem enter_enters {tx : CompleteTransaction} {position : Nat} {chain left : Chain A}
    {room rest : Room} (hrun : enter tx position chain room = (.ok (), left, rest)) :
    Enters tx position chain left := by
  rcases enter_ok hrun with ⟨hin, rfl⟩ | ⟨hin, segment, hadd, rfl⟩
  · exact .there hin
  · exact .entered hin hadd

theorem enter_error {tx : CompleteTransaction} {position : Nat} {chain left : Chain A}
    {room rest : Room} {code : ArnmResult}
    (hrun : enter tx position chain room = (.error code, left, rest)) :
    inSegment tx position chain = false ∧
      ∃ segment, Transactions.add tx (chain.segmentAt position) room =
          (.error code, segment, rest) ∧ left = putSegment position segment chain := by
  rw [enter, bind_run_ok (gets_run _ _ _)] at hrun
  split at hrun
  · cases hrun
  · obtain ⟨segment, hadd, rfl⟩ := within_error.1 hrun
    exact ⟨Bool.eq_false_iff.2 ‹_›, segment, hadd, rfl⟩

/-- Whatever room there is, an add comes to one of its ends. -/
theorem add_outcome {tx : CompleteTransaction} {chain left : Chain A} {room rest : Room}
    {result : Except ArnmResult Unit} (hrun : add tx chain room = (result, left, rest)) :
    Outcome tx chain result left := by
  rcases result with code | _
  · rcases bind_error.1 hrun with hcheck | ⟨_, same, _, hcheck, hrun⟩
    · obtain ⟨haccepts, rfl, -⟩ := check_error.1 hcheck
      exact .notAccepted haccepts
    obtain ⟨haccepts, rfl, rfl⟩ := check_ok.1 hcheck
    obtain ⟨_, pinned, _, hpin, hrun⟩ := (bind_error.1 hrun).resolve_left nofun
    obtain ⟨rfl, rfl⟩ := write_ok.1 hpin
    rcases bind_error.1 hrun with hcheck | ⟨position, same, _, hcheck, hrun⟩
    · obtain ⟨hposition, rfl, -⟩ := check_error.1 hcheck
      exact .noPlace haccepts hposition
    obtain ⟨hposition, rfl, rfl⟩ := check_ok.1 hcheck
    rcases bind_error.1 hrun with hopen | ⟨_, opened, between, hopen, hrun⟩
    · obtain ⟨rfl, rfl⟩ := openAt_error hopen
      exact .notOpened haccepts hposition
    rcases bind_error.1 hrun with henter | ⟨_, entered, later, henter, hrun⟩
    · obtain ⟨hin, segment, hadd, rfl⟩ := enter_error henter
      exact .notEntered haccepts hposition (openAt_opens hopen) hin hadd
    rcases bind_error.1 hrun with hregister | ⟨_, noted, answers, -, hcommit⟩
    · obtain ⟨register, hadd, rfl⟩ := within_error.1 hregister
      exact .notRegistered haccepts hposition (openAt_opens hopen) (enter_enters henter) hadd
    · cases hcommit
  · obtain ⟨haccepts, position, opened, _, entered, _, register, _, hposition, hopen, henter,
        hregister, rfl⟩ := add_ok hrun
    exact .added haccepts hposition (openAt_opens hopen) (enter_enters henter) hregister

end Chain

end GradidoBlockchain
