import GradidoBlockchain.Chain.Trail
import GradidoBlockchain.Index.Reset

/-!
# A chain that is reset

`grdb_chain_reset` gives up the row and resets the register. A chain that has been through anything,
adds broken off half way among it, then goes on like a new one.
-/

namespace GradidoBlockchain

open Fallible Fallible.Call

variable {A : Arnm}

namespace Chain

/-- The two chains differ at most in their registers, and these answer alike. -/
def Same (chain twin : Chain A) : Prop :=
  ∃ addresses, Addresses.Same chain.addresses addresses ∧ twin = { chain with addresses }

/-! ### Adding -/

theorem openSegment_alongside (txNr position : Nat) :
    Alongside Same (openSegment txNr position : Call ArnmResult (Chain A) Unit)
      (openSegment txNr position) := by
  refine .bind (.within (.refl _) ?_ ?_) fun _ =>
    .bind (.gets ?_) fun options => .orUndo (.within (.refl _) ?_ ?_) ?_
  · rintro chain _ ⟨addresses, -, rfl⟩
    rfl
  · rintro chain _ segments _ ⟨addresses, haddresses, rfl⟩ rfl
    exact ⟨_, haddresses, rfl⟩
  · rintro chain _ ⟨addresses, -, rfl⟩
    rfl
  · rintro chain _ ⟨addresses, -, rfl⟩
    rfl
  · rintro chain _ segment _ ⟨addresses, haddresses, rfl⟩ rfl
    exact ⟨_, haddresses, rfl⟩
  · rintro chain _ ⟨addresses, haddresses, rfl⟩
    exact ⟨_, haddresses, rfl⟩

theorem enter_alongside (tx : CompleteTransaction) (position : Nat) :
    Alongside Same (enter tx position : Call ArnmResult (Chain A) Unit) (enter tx position) := by
  refine .bind (.gets ?_) fun _ => .ite (.pure ()) (.within (.refl _) ?_ ?_)
  · rintro chain _ ⟨addresses, -, rfl⟩
    rfl
  · rintro chain _ ⟨addresses, -, rfl⟩
    rfl
  · rintro chain _ segment _ ⟨addresses, haddresses, rfl⟩ rfl
    exact ⟨_, haddresses, rfl⟩

theorem add_alongside (tx : CompleteTransaction) :
    Alongside Same (add tx : Call ArnmResult (Chain A) Unit) (add tx) := by
  refine .bind (.check ?_) fun _ =>
    .bind (.write ?_) fun _ =>
      .bind (.check ?_) fun position =>
        .bind (.bind (.gets ?_) fun size => .ite (openSegment_alongside tx.nr position) (.pure ()))
          fun _ =>
            .bind (enter_alongside tx position) fun _ =>
              .bind (.within (Addresses.add_alongside tx) ?_ ?_) fun _ => .write ?_
  · rintro chain _ ⟨addresses, -, rfl⟩
    rfl
  · rintro chain _ ⟨addresses, haddresses, rfl⟩
    exact ⟨_, haddresses, rfl⟩
  · rintro chain _ ⟨addresses, -, rfl⟩
    rfl
  · rintro chain _ ⟨addresses, -, rfl⟩
    rfl
  · rintro chain _ ⟨addresses, haddresses, rfl⟩
    exact haddresses
  · rintro chain _ register twin ⟨addresses, -, rfl⟩ hregister
    exact ⟨_, hregister, rfl⟩
  · rintro chain _ ⟨addresses, haddresses, rfl⟩
    exact ⟨_, haddresses, rfl⟩

/-! ### Asking -/

theorem Same.answersAlike {chain twin : Chain A}
    (hsame : Same chain twin) : AnswersAlike chain twin := by
  obtain ⟨addresses, haddresses, rfl⟩ := hsame
  obtain ⟨-, -, htype, htypeAt, hchanges, hbalance, hknows⟩ := haddresses.answersAlike
  exact ⟨rfl, rfl, rfl, ⟨fun _ => rfl, fun _ _ _ _ => rfl, fun _ => rfl, fun _ _ => rfl⟩, htype,
    htypeAt, hchanges, hbalance, hknows⟩

/-! ### Every chain -/

/-- Prepared, then given any transactions, with whatever room and whatever result, and reset
any number of times. -/
inductive History (C : Clearing A) (options : ChainOptions) : Chain A → Prop
  | init {start chain : Chain A} {room rest : Room} :
      init options start room = (.ok (), chain, rest) → History C options chain
  | add {chain : Chain A} (tx : CompleteTransaction) (room : Room) :
      History C options chain → History C options (add tx chain room).2.1
  | reset {chain : Chain A} : History C options chain → History C options (chain.reset C)

theorem History.reachable {C : Clearing A} {options : ChainOptions} {chain : Chain A}
    (hhistory : History C options chain) : Reachable options chain := by
  induction hhistory with
  | init hrun => exact .init hrun
  | add tx room _ ih => exact ih.add tx room
  | reset _ ih => exact ih.reset C

theorem Prepared.same_reset {options : ChainOptions} {chain : Chain A} (C : Clearing A)
    (hprepared : Prepared options chain) : Same (chain.reset C) (fresh options) := by
  obtain ⟨hready, hregister, hsize, haddresses, hdays⟩ := hprepared
  refine ⟨.fresh, ?_, ?_⟩
  · rw [Chain.reset, if_neg (by simp [hready])]
    exact Addresses.same_reset C hregister
  · rw [Chain.reset, if_neg (by simp [hready]), fresh, zero, hready, hsize, haddresses, hdays]

/-- Reset after anything, a chain, an index and a register take what a new one takes and answer what
a new one answers. -/
theorem reset_eq_fresh (C : Clearing A) :
    (∀ {options : ChainOptions} {chain start new : Chain A} {room rest : Room}, History C options chain →
      init options start room = (.ok (), new, rest) → ∀ steps,
      (series add steps (chain.reset C)).1 = (series add steps new).1 ∧
        AnswersAlike (series add steps (chain.reset C)).2 (series add steps new).2) ∧
    (∀ {options : TransactionsOptions} {index start new : Transactions A} {room rest : Room},
      Transactions.History C options.baseTxNr index →
        Transactions.init options start room = (.ok (), new, rest) → ∀ steps,
      (series Transactions.add steps (index.reset C)).1 = (series Transactions.add steps new).1 ∧
        Transactions.AnswersAlike (series Transactions.add steps (index.reset C)).2 (series Transactions.add steps new).2) ∧
    (∀ {expectedAddresses : Nat} {index start new : Addresses A} {room rest : Room}, Addresses.History C index →
      Addresses.init expectedAddresses start room = (.ok (), new, rest) → ∀ steps,
      (series Addresses.add steps (index.reset C)).1 = (series Addresses.add steps new).1 ∧
        Addresses.AnswersAlike (series Addresses.add steps (index.reset C)).2 (series Addresses.add steps new).2) := by
  refine ⟨?_, ?_, ?_⟩
  · intro options chain start new room rest hhistory hinit steps
    rw [init_ok hinit]
    obtain ⟨hresults, hsame⟩ :=
      Alongside.series add_alongside steps (hhistory.reachable.prepared.same_reset C)
    exact ⟨hresults, hsame.answersAlike⟩
  · intro options index start new room rest hhistory hinit steps
    obtain ⟨hready, hbase⟩ := hhistory.ready
    rw [Transactions.init_ok hinit, ← hbase]
    obtain ⟨hresults, hsame⟩ :=
      Alongside.series Transactions.add_alongside steps (Transactions.same_reset C hready)
    exact ⟨hresults, hsame.answersAlike⟩
  · intro expectedAddresses index start new room rest hhistory hinit steps
    rw [Addresses.init_ok hinit]
    obtain ⟨hresults, hsame⟩ :=
      Alongside.series Addresses.add_alongside steps (Addresses.same_reset C hhistory.ready)
    exact ⟨hresults, hsame.answersAlike⟩

/-- The chain that was broken off in its register, reset and given the transaction again. -/
theorem reset_eq_fresh_interrupted :
    (series add [(paid, [])] (interrupted.reset Clearing.reference)).1 =
        (series add [(paid, [])] (fresh (segmentsOf 1) : Chain Arnm.reference)).1 ∧
      AnswersAlike (series add [(paid, [])] (interrupted.reset Clearing.reference)).2
        (series add [(paid, [])] (fresh (segmentsOf 1) : Chain Arnm.reference)).2 :=
  have hhistory : History Clearing.reference (segmentsOf 1) interrupted :=
    .add paid _ (.init (init_nil _ .zero))
  (reset_eq_fresh Clearing.reference).1 hhistory (init_nil (segmentsOf 1) .zero) [(paid, [])]

end Chain

end GradidoBlockchain
