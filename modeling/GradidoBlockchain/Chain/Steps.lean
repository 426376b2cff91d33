import GradidoBlockchain.Chain.Chain
import GradidoBlockchain.Index.Holds
import GradidoBlockchain.Lib.Outcome
import GradidoBlockchain.Register.Answers

/-!
# The steps of an add

What each step of `grdb_chain_add` has done when it came to its end. A slot of the row is written
through its position, so a write to the last slot leaves the front of the row as it is.
-/

namespace GradidoBlockchain

open Fallible Fallible.Call

variable {A : Arnm}

namespace Chain

theorem size_pos (options : ChainOptions) : 1 ≤ options.size := by
  rw [ChainOptions.size]
  split
  · have hne : options.segmentTransactions.toNat ≠ 0 := fun h => ‹¬_› (UInt32.toNat_inj.1 h)
    omega
  · decide

theorem size_le (options : ChainOptions) : options.size ≤ uint32Max := by
  rw [ChainOptions.size]
  split
  · exact Nat.le_pred_of_lt options.segmentTransactions.toNat_lt
  · decide

theorem segmentAt_eq {chain : Chain A} {position : Nat} {segment : Transactions A}
    (hget : chain.segments.get? position = some segment) : chain.segmentAt position = segment := by
  rw [segmentAt, hget]
  rfl

theorem accepts_ok {tx : CompleteTransaction} {chain : Chain A}
    (haccepts : accepts tx chain = .ok ()) :
    chain.ready = true ∧ tx.nr ≠ 0 ∧
      (chain.transactionCount ≠ 0 → tx.nr = (chain.maxTxNr + 1) % 2 ^ 64) := by
  rw [accepts, Outcome.guard_ok, Outcome.guard_ok, Outcome.guard_ok] at haccepts
  obtain ⟨hready, hnr, hnext, -⟩ := haccepts
  exact ⟨by simpa using hready, hnr, fun hcount => by_contra fun hne => hnext ⟨hcount, hne⟩⟩

theorem positionOf_ok {tx : CompleteTransaction} {chain : Chain A} {position : Nat}
    (hposition : positionOf tx chain = .ok position) :
    chain.segmentOf tx.nr = chain.firstSegment + position ∧ position ≤ chain.segments.size := by
  rw [positionOf, Outcome.guard_ok, Outcome.guard_ok] at hposition
  obtain ⟨hfirst, hnext, hposition⟩ := hposition
  cases hposition
  omega

theorem positionOf_eq {tx : CompleteTransaction} {chain : Chain A} {position : Nat}
    (hplace : chain.segmentOf tx.nr = chain.firstSegment + position)
    (hle : position ≤ chain.segments.size) : positionOf tx chain = .ok position := by
  rw [positionOf, hplace, Nat.add_sub_cancel_left, if_neg (by omega), if_neg (by omega)]

theorem init_ok {options : ChainOptions} {start left : Chain A} {room rest : Room}
    (hrun : init options start room = (.ok (), left, rest)) : left = fresh options := by
  obtain ⟨_, _, _, -, hrun⟩ := bind_ok.1 hrun
  obtain ⟨_, _, _, -, hrun⟩ := bind_ok.1 hrun
  obtain ⟨_, _, _, -, hrun⟩ := bind_ok.1 hrun
  exact (write_ok.1 hrun).1.symm

/-- With room the preparation succeeds. -/
theorem init_nil (options : ChainOptions) (start : Chain A) :
    init options start [] = (.ok (), fresh options, []) := by
  obtain ⟨numbers, expectedAddresses, expectedDays⟩ := options
  cases expectedAddresses with
  | zero => rfl
  | succ expectedAddresses => rfl

theorem openSegment_ok {txNr position : Nat} {chain left : Chain A} {room rest : Room}
    (hposition : position = chain.segments.size)
    (hrun : openSegment txNr position chain room = (.ok (), left, rest)) :
    chain.segments.size < uint32Max ∧
      left =
        chain.putSegments
          (chain.segments.append [.fresh (chain.segmentOf txNr * chain.segmentTransactions)]) := by
  obtain ⟨_, slotted, _, hslot, hrun⟩ := bind_ok.1 hrun
  obtain ⟨vec, hvec, rfl⟩ := within_ok.1 hslot
  obtain ⟨hroom, rfl⟩ := Bvec.emplace_ok hvec
  obtain ⟨options, same, _, hgets, hrun⟩ := bind_ok.1 hrun
  obtain ⟨rfl, rfl, -⟩ := gets_ok.1 hgets
  obtain ⟨segment, hinit, rfl⟩ := within_ok.1 (orUndo_ok.1 hrun)
  refine ⟨hroom, ?_⟩
  have hbase := Transactions.init_ok hinit
  subst hbase hposition
  rw [putSegment, putSegments, putSegments, putSegments]
  congr 1
  ext1
  rw [Bvec.concat_slots hroom]
  exact Bvec.modify_last (Bvec.concat_slots hroom) _

theorem openAt_ok {tx : CompleteTransaction} {position : Nat} {chain left : Chain A}
    {room rest : Room} (hrun : openAt tx position chain room = (.ok (), left, rest)) :
    position ≠ chain.segments.size ∧ left = chain ∨
      position = chain.segments.size ∧ chain.segments.size < uint32Max ∧
        left =
          chain.putSegments
            (chain.segments.append
              [.fresh (chain.segmentOf tx.nr * chain.segmentTransactions)]) := by
  rw [openAt, bind_run_ok (gets_run _ _ _)] at hrun
  split at hrun
  · exact .inr ⟨‹_›, openSegment_ok ‹_› hrun⟩
  · exact .inl ⟨‹_›, (pure_ok.1 hrun).2.1.symm⟩

theorem enter_ok {tx : CompleteTransaction} {position : Nat} {chain left : Chain A}
    {room rest : Room} (hrun : enter tx position chain room = (.ok (), left, rest)) :
    inSegment tx position chain = true ∧ left = chain ∨
      inSegment tx position chain = false ∧
        ∃ segment, Transactions.add tx (chain.segmentAt position) room = (.ok (), segment, rest) ∧
          left = putSegment position segment chain := by
  rw [enter, bind_run_ok (gets_run _ _ _)] at hrun
  split at hrun
  · exact .inl ⟨‹_›, (pure_ok.1 hrun).2.1.symm⟩
  · obtain ⟨segment, hadd, rfl⟩ := within_ok.1 hrun
    exact .inr ⟨Bool.eq_false_iff.2 ‹_›, segment, hadd, rfl⟩

/-- A whole add, step by step. -/
theorem add_ok {tx : CompleteTransaction} {chain left : Chain A} {room rest : Room}
    (hrun : add tx chain room = (.ok (), left, rest)) : accepts tx chain = .ok () ∧
      ∃ position opened between entered later register answers,
        positionOf tx (pinFirst tx chain) = .ok position ∧
        openAt tx position (pinFirst tx chain) room = (.ok (), opened, between) ∧
        enter tx position opened between = (.ok (), entered, later) ∧
        Addresses.add tx entered.addresses later = (.ok (), register, answers) ∧
        left = commit tx (entered.putAddresses register) := by
  obtain ⟨_, same, _, hcheck, hrun⟩ := bind_ok.1 hrun
  obtain ⟨haccepts, rfl, rfl⟩ := check_ok.1 hcheck
  obtain ⟨_, pinned, _, hpin, hrun⟩ := bind_ok.1 hrun
  obtain ⟨rfl, rfl⟩ := write_ok.1 hpin
  obtain ⟨position, same, _, hcheck, hrun⟩ := bind_ok.1 hrun
  obtain ⟨hposition, rfl, rfl⟩ := check_ok.1 hcheck
  obtain ⟨_, opened, between, hopen, hrun⟩ := bind_ok.1 hrun
  obtain ⟨_, entered, later, henter, hrun⟩ := bind_ok.1 hrun
  obtain ⟨_, noted, answers, hregister, hcommit⟩ := bind_ok.1 hrun
  obtain ⟨register, hadd, rfl⟩ := within_ok.1 hregister
  exact ⟨haccepts, position, opened, between, entered, later, register, answers, hposition, hopen,
    henter, hadd, (write_ok.1 hcommit).1.symm⟩

end Chain

end GradidoBlockchain
