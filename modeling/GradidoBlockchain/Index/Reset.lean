import GradidoBlockchain.Arnm.Clearing
import GradidoBlockchain.Index.Holds
import GradidoBlockchain.Index.Retry

/-!
# An index that is reset

`grdb_transactions_reset` clears the index field by field, whatever a half added
transaction has left in it. What remains can be told from a fresh index by nothing that is
asked of it or added to it.
-/

namespace GradidoBlockchain

open Fallible Fallible.Call

variable {A : Arnm}

namespace Transactions

/-- `grdb_transactions_reset`. -/
def reset (C : Clearing A) (index : Transactions A) : Transactions A :=
  if ¬index.ready then index
  else { index with
    perType := Vector.replicate _ A.blank
    foreign := A.blank
    chainCommunityUuid := zeroBytes 16
    coins := index.coins.clear C
    addresses := index.addresses.clear C
    dayMaxTx := .empty
    minTxNr := 0
    maxTxNr := 0
    firstDay := 0
    transactionCount := 0 }

/-- The two indices differ at most in their key maps, and these answer alike. -/
def Same (index twin : Transactions A) : Prop :=
  ∃ addresses coins, Keyed.Same index.addresses addresses ∧ Keyed.Same index.coins coins ∧
    twin = { index with addresses, coins }

theorem same_reset (C : Clearing A) {index : Transactions A} (hready : index.ready = true) :
    Same (index.reset C) (fresh index.baseTxNr) := by
  refine ⟨.empty, .empty, ?_, ?_, ?_⟩
  · rw [reset, if_neg (by simp [hready])]
    exact Keyed.same_clear C _
  · rw [reset, if_neg (by simp [hready])]
    exact Keyed.same_clear C _
  · rw [reset, if_neg (by simp [hready]), fresh, zero, hready]

/-! ### Adding -/

section Add

variable (offset : Nat)

theorem setsForKey_alongside (key : PublicKey) :
    Alongside Same (setsForKey key : Call ArnmResult (Transactions A) Nat) (setsForKey key) := by
  refine .within (Keyed.slotForKey_alongside _ key) ?_ ?_
  · rintro index _ ⟨addresses, coins, haddresses, -, rfl⟩
    exact haddresses
  · rintro index _ table twin ⟨addresses, coins, -, hcoins, rfl⟩ htable
    exact ⟨_, _, htable, hcoins, rfl⟩

theorem coinSetForUuid_alongside (uuid : Uuid) :
    Alongside Same (coinSetForUuid uuid : Call ArnmResult (Transactions A) Nat)
      (coinSetForUuid uuid) := by
  refine .within (Keyed.slotForKey_alongside _ uuid) ?_ ?_
  · rintro index _ ⟨addresses, coins, -, hcoins, rfl⟩
    exact hcoins
  · rintro index _ table twin ⟨addresses, coins, haddresses, -, rfl⟩ htable
    exact ⟨_, _, haddresses, htable, rfl⟩

theorem Same.markAddress {index twin : Transactions A} (hsame : Same index twin) (id : Nat)
    (change : AddressSets A → AddressSets A) :
    Same (index.markAddress id change) (twin.markAddress id change) := by
  obtain ⟨addresses, coins, haddresses, hcoins, rfl⟩ := hsame
  exact ⟨_, _, haddresses.modify id change, hcoins, rfl⟩

theorem markKey_alongside (key : PublicKey) (change : AddressSets A → AddressSets A) :
    Alongside Same (markKey key change) (markKey key change) :=
  .ite (.pure ())
    (.bind (setsForKey_alongside key) fun id => .grow fun _ _ hsame => hsame.markAddress id change)

theorem noteDay_alongside (seconds : Int64) :
    Alongside Same (noteDay seconds offset : Call ArnmResult (Transactions A) Unit)
      (noteDay seconds offset) := by
  refine .bind (.write ?_) fun _ =>
    .bind (.check ?_) fun position => .bind (.within (.refl _) ?_ ?_) fun _ => .write ?_
  · rintro index _ ⟨addresses, coins, haddresses, hcoins, rfl⟩
    exact ⟨_, _, haddresses, hcoins, rfl⟩
  · rintro index _ ⟨addresses, coins, -, -, rfl⟩
    rfl
  · rintro index _ ⟨addresses, coins, -, -, rfl⟩
    rfl
  · rintro index _ table _ ⟨addresses, coins, haddresses, hcoins, rfl⟩ rfl
    exact ⟨_, _, haddresses, hcoins, rfl⟩
  · rintro index _ ⟨addresses, coins, haddresses, hcoins, rfl⟩
    exact ⟨_, _, haddresses, hcoins, rfl⟩

theorem noteBalanceCoin_alongside (balance : AccountBalance) :
    Alongside Same (noteBalanceCoin offset balance : Call ArnmResult (Transactions A) Unit)
      (noteBalanceCoin offset balance) := by
  refine .bind (.gets ?_) fun home => .ite (.pure ()) (.bind (coinSetForUuid_alongside _) fun id =>
    .bind (.grow ?_) fun _ => .grow ?_)
  · rintro index _ ⟨addresses, coins, -, -, rfl⟩
    rfl
  · rintro index _ ⟨addresses, coins, haddresses, hcoins, rfl⟩
    exact ⟨_, _, haddresses, hcoins.modify id _, rfl⟩
  · rintro index _ ⟨addresses, coins, haddresses, hcoins, rfl⟩
    exact ⟨_, _, haddresses, hcoins, rfl⟩

theorem noteNamed_alongside (key : PublicKey) :
    Alongside Same (noteNamed offset key : Call ArnmResult (Transactions A) Unit)
      (noteNamed offset key) := by
  refine .ite (.pure ()) (.bind (setsForKey_alongside key) fun id => .bind (.gets ?_) fun marked =>
    .ite (.pure ()) (.grow fun _ _ hsame => hsame.markAddress id _))
  rintro index _ ⟨addresses, coins, haddresses, -, rfl⟩
  rw [alreadyMarked, alreadyMarked, haddresses.entries]

theorem add_alongside (tx : CompleteTransaction) :
    Alongside Same (add tx : Call ArnmResult (Transactions A) Unit) (add tx) := by
  refine .bind (.check ?_) fun offset => .bind ?_ fun _ => .write ?_
  · rintro index _ ⟨addresses, coins, -, -, rfl⟩
    rfl
  · refine .bind (noteDay_alongside offset _) fun _ =>
      .bind (.write ?_) fun _ =>
        .bind (.forM fun pair => markKey_alongside _ _) fun _ =>
          .bind (.forM fun balance =>
            .bind (markKey_alongside _ _) fun _ => noteBalanceCoin_alongside offset balance)
            fun _ => .bind (.forM fun key => noteNamed_alongside offset key) fun _ => .grow ?_
    · rintro index _ ⟨addresses, coins, haddresses, hcoins, rfl⟩
      exact ⟨_, _, haddresses, hcoins, rfl⟩
    · rintro index _ ⟨addresses, coins, haddresses, hcoins, rfl⟩
      exact ⟨_, _, haddresses, hcoins, rfl⟩
  · rintro index _ ⟨addresses, coins, haddresses, hcoins, rfl⟩
    exact ⟨_, _, haddresses, hcoins, rfl⟩

end Add

/-! ### Asking -/

/-- What an index can be asked, answered alike by two indices. -/
structure AnswersAlike (index twin : Transactions A) : Prop where
  size : index.transactionCount = twin.transactionCount
  min : index.minTxNr = twin.minTxNr
  max : index.maxTxNr = twin.maxTxNr
  count : ∀ filter, index.count filter = twin.count filter
  listing : ∀ filter skip size descending,
    index.listing filter skip size descending = twin.listing filter skip size descending
  newest : ∀ filter, index.newest filter = twin.newest filter
  rangeOfDays : ∀ fromSecond toSecond,
    index.rangeOfDays fromSecond toSecond = twin.rangeOfDays fromSecond toSecond

theorem Same.rangeOfDays {index twin : Transactions A} (hsame : Same index twin)
    (fromSecond toSecond : Int64) :
    index.rangeOfDays fromSecond toSecond = twin.rangeOfDays fromSecond toSecond := by
  obtain ⟨addresses, coins, -, -, rfl⟩ := hsame
  have hlast : ∀ low high,
      index.lastNoted low high = lastNoted { index with addresses, coins } low high := by
    intro low high
    induction high with
    | zero => rfl
    | succ high ih =>
        rw [lastNoted, lastNoted, ih]
        rfl
  have hstart : ∀ first,
      index.startOffset first = startOffset { index with addresses, coins } first := by
    intro first
    rw [startOffset, startOffset, hlast]
    rfl
  rw [Transactions.rangeOfDays, Transactions.rangeOfDays]
  simp only [hlast, hstart]
  rfl

theorem Same.queryOfFilter {index twin : Transactions A} (hsame : Same index twin)
    (filter : TransactionsFilter) : index.queryOfFilter filter = twin.queryOfFilter filter := by
  have hrange : index.namedRange filter = twin.namedRange filter := by
    rw [namedRange, namedRange, hsame.rangeOfDays]
    obtain ⟨addresses, coins, -, -, rfl⟩ := hsame
    rfl
  obtain ⟨addresses, coins, haddresses, hcoins, rfl⟩ := hsame
  have hroles : index.addressSetsOf filter =
      addressSetsOf { index with addresses, coins } filter := by
    rw [addressSetsOf, addressSetsOf, haddresses.lookup]
  have hcoin : index.coinSetsOf filter = coinSetsOf { index with addresses, coins } filter := by
    rw [coinSetsOf, coinSetsOf]
    split
    · rfl
    · rw [hcoins.lookup]
  rw [Transactions.queryOfFilter, Transactions.queryOfFilter, hroles, hcoin, hrange]
  rfl

theorem Same.answersAlike {index twin : Transactions A}
    (hsame : Same index twin) : AnswersAlike index twin := by
  have hquery := hsame.queryOfFilter
  have hrange := hsame.rangeOfDays
  obtain ⟨addresses, coins, -, -, rfl⟩ := hsame
  refine ⟨rfl, rfl, rfl, fun filter => ?_, fun filter skip size descending => ?_, fun filter => ?_,
    hrange⟩
  · rw [count, count, hquery]
  · rw [listing, listing, hquery]
  · rw [newest, newest, hquery]

/-! ### Every index -/

/-- Prepared for the numbers from `base` on, then given any transactions, with whatever room and
whatever result, and reset any number of times. -/
inductive History (C : Clearing A) (base : Nat) : Transactions A → Prop
  | init {options : TransactionsOptions} {start index : Transactions A} {room rest : Room} :
      options.baseTxNr = base → init options start room = (.ok (), index, rest) →
      History C base index
  | add {index : Transactions A} (tx : CompleteTransaction) (room : Room) :
      History C base index → History C base (add tx index room).2.1
  | reset {index : Transactions A} : History C base index → History C base (index.reset C)

theorem History.ready {C : Clearing A} {base : Nat} {index : Transactions A}
    (hhistory : History C base index) : index.ready = true ∧ index.baseTxNr = base := by
  induction hhistory with
  | init hbase hrun =>
      rw [init_ok hrun]
      exact ⟨rfl, hbase⟩
  | @add index tx room _ ih =>
      rcases hrun : Transactions.add tx index room with ⟨code | _, left, rest⟩
      · have hunmoved := add_error_unmoved hrun
        exact ⟨hunmoved.ready.trans ih.1, hunmoved.base.trans ih.2⟩
      · have hmoved := add_ok_moved hrun
        exact ⟨hmoved.ready.trans ih.1, hmoved.base.trans ih.2⟩
  | @reset index _ ih =>
      rw [Transactions.reset, if_neg (by simp [ih.1])]
      exact ih

end Transactions

end GradidoBlockchain
