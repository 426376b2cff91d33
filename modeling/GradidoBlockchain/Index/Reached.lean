import GradidoBlockchain.Index.Represents

/-!
# Every state of an index

An index is prepared, given transactions, refused memory between any two writes, given the same
transaction again until it is accepted, and reset. In all of these states the sets stand for the
transactions that have been counted, and for the one that waits.
-/

namespace GradidoBlockchain

open Fallible Fallible.Call

variable {A : Arnm} {C : Clearing A} {tx : CompleteTransaction} {counted : Nat}
  {pending : Option CompleteTransaction} {index left : Transactions A}

namespace Transactions

/-! ### States that can be reached -/

/-- The states of an index, with the number of the transactions that have been counted since it
was last empty, and the transaction that has been refused memory and is to be added again
before any other. -/
inductive Reached (C : Clearing A) : Nat → Option CompleteTransaction → Transactions A → Prop
  | init {options : TransactionsOptions} {start index : Transactions A} {room rest : Room} :
      init options start room = (.ok (), index, rest) → Reached C 0 none index
  | taken {counted : Nat} {pending : Option CompleteTransaction} {tx : CompleteTransaction}
      {index left : Transactions A} {room rest : Room} : Reached C counted pending index →
      (∀ waiting, pending = some waiting → waiting = tx) →
      add tx index room = (.ok (), left, rest) → Reached C (counted + 1) none left
  | lacking {counted : Nat} {pending : Option CompleteTransaction} {tx : CompleteTransaction}
      {index left : Transactions A} {room rest : Room} : Reached C counted pending index →
      (∀ waiting, pending = some waiting → waiting = tx) →
      add tx index room = (.error .outOfMemory, left, rest) → Reached C counted (some tx) left
  | refused {counted : Nat} {pending : Option CompleteTransaction} {tx : CompleteTransaction}
      {index left : Transactions A} {room rest : Room} {code : ArnmResult} :
      Reached C counted pending index → code ≠ .outOfMemory →
      add tx index room = (.error code, left, rest) → Reached C counted pending left
  | reset {counted : Nat} {pending : Option CompleteTransaction} {index : Transactions A} :
      Reached C counted pending index → Reached C 0 none (index.reset C)

/-- What the sets agree on, with a transaction that waits and without. -/
def SetsAgree (pending : Option CompleteTransaction) (index : Transactions A) : Prop :=
  match pending with
  | none => Settled index
  | some tx =>
      (∃ offset, offsetOf tx index = .ok offset) ∧
        Marking tx (startOf tx index) (tx.nr - index.baseTxNr) index

structure Sound (counted : Nat) (pending : Option CompleteTransaction)
    (index : Transactions A) : Prop where
  counts : Counts counted index
  typed : Typed index
  sets : SetsAgree pending index

/-! ### An empty index -/

/-- Nothing is in any set of an index that has been emptied. -/
theorem sound_empty (hready : index.ready = true) (hcount : index.transactionCount = 0)
    (haddresses : index.addresses.Whole) (hcoins : index.coins.Whole)
    (hsets : ∀ key, index.addresses.read .blank key = .blank)
    (hcoinSets : ∀ uuid, index.coins.read A.blank uuid = A.blank)
    (hforeign : index.foreign = A.blank)
    (htypes : index.perType = Vector.replicate _ A.blank) : Sound 0 none index := by
  have hnone : ∀ offset, ¬ A.contains A.blank offset = true :=
    fun offset => by rw [A.contains_blank]; exact Bool.false_ne_true
  have htype : ∀ (type : Fin TransactionType.count) offset,
      ¬ A.contains index.perType[type] offset = true := by
    intro type offset
    rw [htypes, Fin.getElem_fin, Vector.getElem_replicate]
    exact hnone offset
  refine ⟨⟨hready, hcount, fun hne => absurd rfl hne⟩,
    ⟨fun type other offset h => absurd h (htype type offset), fun offset => ?_⟩, ?_⟩
  · constructor
    · intro h
      obtain ⟨type, h⟩ := h
      exact absurd h (htype type offset)
    · exact fun h => absurd hcount h.1
  · refine ⟨haddresses, hcoins, fun key offset h => ?_, fun key offset h => ?_,
      fun uuid offset h => ?_, fun offset h => ?_, fun uuid offset h => ?_⟩
    · rw [hsets] at h
      obtain h | h | h := h <;> exact absurd h (hnone offset)
    · rw [hsets] at h
      exact absurd h (hnone offset)
    · rw [hcoinSets] at h
      exact absurd h (hnone offset)
    · rw [hforeign] at h
      exact absurd h (hnone offset)
    · rw [hcoinSets] at h
      exact absurd h (hnone offset)

theorem sound_fresh (base : Nat) : Sound 0 none (fresh base : Transactions A) :=
  sound_empty rfl rfl Keyed.empty_whole Keyed.empty_whole (Keyed.read_empty _) (Keyed.read_empty _)
    rfl rfl

theorem read_clear {size : Nat} {V : Type} (C : Clearing A) (blank : V) (table : Keyed A size V)
    (key : Bytes size) : (table.clear C).read blank key = blank := by
  rw [Keyed.read, (Keyed.same_clear C table).lookup key, Keyed.lookup_empty]
  rfl

theorem sound_reset (C : Clearing A) (hready : index.ready = true) :
    Sound 0 none (index.reset C) := by
  rw [Transactions.reset, if_neg (not_not_intro hready)]
  exact sound_empty hready rfl (Keyed.clear_whole C _) (Keyed.clear_whole C _) (read_clear C _ _)
    (read_clear C _ _) rfl rfl

/-! ### One more transaction -/

theorem Reached.history (hreached : Reached C counted pending index) :
    ∃ base, History C base index := by
  have hadd : ∀ {base tx outcome} {before after : Transactions A} {room rest : Room}, History C base
        before → add tx before room = (outcome, after, rest) → History C base after := by
    intro base tx outcome before after room rest hhistory hrun
    have hafter := hhistory.add tx room
    rwa [hrun] at hafter
  induction hreached with
  | init hrun => exact ⟨_, .init rfl hrun⟩
  | taken _ _ hrun ih => exact ih.imp fun _ hhistory => hadd hhistory hrun
  | lacking _ _ hrun ih => exact ih.imp fun _ hhistory => hadd hhistory hrun
  | refused _ _ hrun ih => exact ih.imp fun _ hhistory => hadd hhistory hrun
  | reset _ ih => exact ih.imp fun _ => .reset

/-- The sets of an index allow the transaction that waits to be marked, and any other
one if none waits. -/
theorem Sound.marking (hsound : Sound counted pending index)
    (hsame : ∀ waiting, pending = some waiting → waiting = tx) {offset : Nat}
    (hoffset : offsetOf tx index = .ok offset) :
    MarkingSets tx (startOf tx index) (tx.nr - index.baseTxNr) index.perType index := by
  obtain ⟨hcounts, -, hsets⟩ := hsound
  cases pending with
  | none => exact ⟨Settled.marking hsets hcounts hoffset, rfl⟩
  | some waiting =>
      obtain rfl := hsame waiting rfl
      exact ⟨hsets.2, rfl⟩

theorem Sound.lacking (hsound : Sound counted pending index)
    (hsame : ∀ waiting, pending = some waiting → waiting = tx) {room rest : Room}
    (hrun : add tx index room = (.error .outOfMemory, left, rest)) :
    Sound counted (some tx) left := by
  have hunmoved := add_error_unmoved hrun
  obtain hcheck | ⟨offset, same, between, hcheck, hrest⟩ := bind_error.1 hrun
  · exact absurd (check_error.1 hcheck).1 (offsetOf_ne_oom tx index)
  obtain ⟨hoffset, rfl, rfl⟩ := check_ok.1 hcheck
  have hplaced : offset = tx.nr - index.baseTxNr := (offsetOf_ok hoffset).2.2.2.2.2
  have hmark : (mark tx offset : Call ArnmResult (Transactions A) Unit) index room =
      (.error .outOfMemory, left, rest) := by
    obtain hmark | ⟨_, marked, _, -, hcommit⟩ := bind_error.1 hrest
    · exact hmark
    · cases hcommit
  have hends := mark_ends.error (hplaced ▸ hsound.marking hsame hoffset) hmark
  refine ⟨hsound.counts.of_unmoved hunmoved, hsound.typed.of_unmoved hunmoved hends.2, ⟨offset, ?_⟩,
    ?_⟩
  · rw [hunmoved.offsetOf]
    exact hoffset
  · rw [startOf_of_unmoved hunmoved, hunmoved.base, ← hplaced]
    exact hends.1

theorem Sound.taken (hsound : Sound counted pending index)
    (hsame : ∀ waiting, pending = some waiting → waiting = tx) (hfew : counted + 1 < 2 ^ 32)
    {room rest : Room} (hrun : add tx index room = (.ok (), left, rest)) :
    Sound (counted + 1) none left := by
  have hmoved := add_ok_moved hrun
  obtain ⟨offset, same, between, hcheck, hrest⟩ := bind_ok.1 hrun
  obtain ⟨hoffset, rfl, rfl⟩ := check_ok.1 hcheck
  have hplaced : offset = tx.nr - index.baseTxNr := (offsetOf_ok hoffset).2.2.2.2.2
  obtain ⟨_, marked, after, hmark, hcommit⟩ := bind_ok.1 hrest
  obtain ⟨rfl, -⟩ := write_ok.1 hcommit
  obtain ⟨hmarking, hnoted, htypes⟩ := mark_ends.ok (hplaced ▸ hsound.marking hsame hoffset) hmark
  refine ⟨hsound.counts.of_moved hmoved hfew,
    hsound.typed.of_moved hsound.counts hmoved hfew (hplaced ▸ htypes), ?_⟩
  refine Marking.settled hmarking hnoted fun other hwithin => ?_
  rw [counted_of_moved hsound.counts hmoved hfew, ← hsound.counts.within_iff hoffset, ← hplaced]
  exact hwithin

theorem Reached.sound (hreached : Reached C counted pending index) (hfew : counted < 2 ^ 32) :
    Sound counted pending index := by
  induction hreached with
  | init hrun =>
      rw [init_ok hrun]
      exact sound_fresh _
  | taken _ hsame hrun ih => exact (ih (Nat.lt_of_succ_lt hfew)).taken hsame hfew hrun
  | lacking _ hsame hrun ih => exact (ih hfew).lacking hsame hrun
  | refused _ hcode hrun ih =>
      obtain hoom | ⟨-, rfl⟩ := add_error hrun
      · exact absurd hoom hcode
      · exact ih hfew
  | reset hreached =>
      obtain ⟨base, hhistory⟩ := hreached.history
      exact sound_reset C hhistory.ready.1

/-! ### What is represented -/

theorem answersUnknown_of_none {filter : TransactionsFilter} (hready : index.ready = true)
    (hquery : index.queryOfFilter filter = none) : index.AnswersUnknown filter := by
  have hstarted : ¬¬index.ready = true := not_not_intro hready
  refine ⟨?_, ?_, fun skip size descending hsize => ?_⟩
  · rw [count, if_neg hstarted, hquery]
  · rw [newest, if_neg hstarted, hquery]
  · rw [listing, if_neg hstarted, if_neg (Nat.not_lt.2 hsize), hquery]

theorem queryOfFilter_of_addressSets {filter : TransactionsFilter}
    (hsets : index.addressSetsOf filter = none) : index.queryOfFilter filter = none := by
  rw [queryOfFilter, hsets]
  split <;> rfl

theorem queryOfFilter_of_coinSets {filter : TransactionsFilter}
    (hsets : index.coinSetsOf filter = none) : index.queryOfFilter filter = none := by
  rw [queryOfFilter, hsets]
  split
  · rfl
  · rcases index.addressSetsOf filter with _ | sets
    · rfl
    · rcases index.typeSetsOf filter with _ | types <;> rfl

theorem lookup_of_beyond {size : Nat} {V : Type} {table : Keyed A size V} {key : Bytes size}
    {id : Nat} (hfind : A.find table.keys key = some id)
    (hle : table.entries.size ≤ id) : table.lookup key = none := by
  rw [Keyed.lookup, hfind]
  exact Bvec.get?_eq_none hle

/-- An address without a slot is not known to a query. -/
theorem addressSetsOf_of_lookup {filter : TransactionsFilter} (hrole : filter.role ≠ .none)
    (hlookup : index.addresses.lookup filter.publicKey = none) :
    index.addressSetsOf filter = none := by
  rw [addressSetsOf, hlookup]
  cases h : filter.role with
  | none => exact absurd h hrole
  | balance => rfl
  | involved => rfl

theorem coinSetsOf_of_lookup {filter : TransactionsFilter} {uuid : Uuid}
    (hcoin : filter.coinCommunity = some uuid) (hforeign : uuid ≠ index.chainCommunityUuid)
    (hlookup : index.coins.lookup uuid = none) : index.coinSetsOf filter = none := by
  rw [coinSetsOf, hcoin]
  change (if uuid = index.chainCommunityUuid then _ else _) = none
  rw [if_neg hforeign, hlookup]
  rfl

/-- What holds of the sets, whether a transaction waits or not. -/
structure Agreed (pending : Option CompleteTransaction) (index : Transactions A) : Prop where
  addresses : index.addresses.Whole
  coins : index.coins.Whole
  involved : ∀ key offset, (index.addresses.read .blank key).involves offset →
    index.Counted offset ∨ Waiting pending index offset
  apart : ∀ key offset, A.contains (index.addresses.read .blank key).other offset = true →
    A.contains (index.addresses.read .blank key).signed offset = false ∧
      A.contains (index.addresses.read .blank key).balance offset = false
  coin : ∀ uuid offset, A.contains (index.coins.read A.blank uuid) offset = true →
    index.Counted offset ∨ Waiting pending index offset
  coin_of_foreign : ∀ offset, A.contains index.foreign offset = true →
    ∃ uuid, A.contains (index.coins.read A.blank uuid) offset = true
  foreign_of_coin : ∀ uuid offset, A.contains (index.coins.read A.blank uuid) offset = true →
    A.contains index.foreign offset = true ∨ Waiting pending index offset

theorem Sound.agreed (hsound : Sound counted pending index) : Agreed pending index := by
  obtain ⟨hcounts, -, hsets⟩ := hsound
  cases pending with
  | none =>
      exact ⟨hsets.addresses, hsets.coins, fun key offset h => .inl (hsets.counted key offset h),
        hsets.apart, fun uuid offset h => .inl (hsets.coin_counted uuid offset h),
        hsets.coin_of_foreign, fun uuid offset h => .inl (hsets.foreign_of_coin uuid offset h)⟩
  | some tx =>
      obtain ⟨⟨_, hoffset⟩, hmarking⟩ := hsets
      have hwithin : ∀ offset, Within (startOf tx index) (tx.nr - index.baseTxNr) offset →
          index.Counted offset ∨ Waiting (some tx) index offset := by
        intro offset h
        exact ((hcounts.within_iff hoffset offset).1 h).symm.imp_right fun heq => ⟨tx, rfl, heq⟩
      refine ⟨hmarking.addresses, hmarking.coins,
        fun key offset h => hwithin offset ((hmarking.sets key).within offset h),
        fun key => (hmarking.sets key).apart,
        fun uuid offset h => hwithin offset (hmarking.coin_within uuid offset h),
        hmarking.coin_of_foreign, fun uuid offset h => ?_⟩
      exact (hmarking.foreign_of_coin uuid offset h).imp_right fun hwaits => ⟨tx, rfl, hwaits.1⟩

theorem Agreed.inCoin_iff (hagreed : Agreed pending index) (offset : Nat) :
    index.InCoin offset ↔ ∃ uuid, A.contains (index.coins.read A.blank uuid) offset = true := by
  constructor
  · intro h
    obtain ⟨id, set, hget, hcontains⟩ := h
    obtain ⟨uuid, -, hread⟩ := hagreed.coins.exists_read A.blank hget
    exact ⟨uuid, hread.symm ▸ hcontains⟩
  · intro h
    obtain ⟨uuid, hcontains⟩ := h
    obtain hblank | ⟨id, hget⟩ := Keyed.read_cases A.blank index.coins uuid
    · rw [hblank, A.contains_blank] at hcontains
      exact absurd hcontains Bool.false_ne_true
    · exact ⟨id, _, hget, hcontains⟩

theorem Sound.waiting_next (hsound : Sound counted pending index) (offset : Nat)
    (hwaiting : Waiting pending index offset) (hcount : index.transactionCount ≠ 0) :
    offset = index.maxTxNr - index.baseTxNr + 1 := by
  obtain ⟨hcounts, -, hsets⟩ := hsound
  obtain ⟨tx, rfl, rfl⟩ := hwaiting
  obtain ⟨⟨_, hoffset⟩, -⟩ := hsets
  rw [hcounts.size] at hcount
  obtain ⟨hmin, hmax, -, -⟩ := hcounts.span hcount
  rw [hcounts.next hoffset hcount]
  omega

theorem Sound.representation (hsound : Sound counted pending index) : Represents pending index := by
  have hagreed := hsound.agreed
  have hread : ∀ {id : Nat} {sets : AddressSets A}, index.addresses.entries.get? id = some sets →
      ∃ key, index.addresses.read .blank key = sets :=
    fun hget => (hagreed.addresses.exists_read .blank hget).imp fun _ h => h.2
  have hcoin : ∀ offset, index.InCoin offset →
      index.Counted offset ∨ Waiting pending index offset := by
    intro offset h
    obtain ⟨uuid, hcontains⟩ := (hagreed.inCoin_iff offset).1 h
    exact hagreed.coin uuid offset hcontains
  have hforeign : ∀ offset, A.contains index.foreign offset = true → index.InCoin offset :=
    fun offset h => (hagreed.inCoin_iff offset).2 (hagreed.coin_of_foreign offset h)
  refine ⟨hforeign, fun offset h => ?_, fun id sets offset hget h => ?_, hsound.typed.apart,
    hsound.typed.counted, fun offset h => ?_, hsound.waiting_next, fun key id hfind => ?_,
    fun uuid id hfind => ?_⟩
  · obtain ⟨uuid, hcontains⟩ := (hagreed.inCoin_iff offset).1 h
    exact hagreed.foreign_of_coin uuid offset hcontains
  · obtain ⟨key, rfl⟩ := hread hget
    exact hagreed.apart key offset h
  · obtain ⟨id, sets, hget, hinvolves⟩ | hin | hin | hin := h
    · obtain ⟨key, rfl⟩ := hread hget
      exact hagreed.involved key offset hinvolves
    · exact hcoin offset hin
    · exact hcoin offset (hforeign offset hin)
    · exact .inl ((hsound.typed.counted offset).1 hin)
  · refine (Nat.lt_or_ge id index.addresses.entries.size).imp_right fun hle => ?_
    have hlookup := lookup_of_beyond hfind hle
    refine ⟨hlookup, fun filter hrole hkey => ?_⟩
    exact answersUnknown_of_none hsound.counts.ready
      (queryOfFilter_of_addressSets (addressSetsOf_of_lookup hrole (hkey ▸ hlookup)))
  · refine (Nat.lt_or_ge id index.coins.entries.size).imp_right fun hle => ?_
    intro filter hcoin hforeign
    exact answersUnknown_of_none hsound.counts.ready
      (queryOfFilter_of_coinSets (coinSetsOf_of_lookup hcoin hforeign (lookup_of_beyond hfind hle)))

/-- In every state of an index the sets stand for what has been counted, and are ahead of it at most
by the transaction that waits. -/
theorem Reached.represents (hreached : Reached C counted pending index) (hfew : counted < 2 ^ 32) :
    Represents pending index :=
  (hreached.sound hfew).representation

/-- A first transaction with a balance in a coin that is not its own community's. -/
def foreignPayment : CompleteTransaction :=
  { CompleteTransaction.bare 1 0 with accountBalances := [⟨zeroBytes 32, 0, Vector.replicate 16 1⟩] }

/-- What is left when the day, the coin and its set have been given room and the union of
the coins has not. -/
def cutShort : Transactions Arnm.reference :=
  (add foreignPayment (fresh 0) [true, true, true, true, false]).2.1

theorem cutShort_reached : Reached Clearing.reference 0 (some foreignPayment) cutShort := by
  have hfresh : Reached Clearing.reference 0 none (fresh 0 : Transactions Arnm.reference) :=
    @Reached.init _ _ ⟨0, 0, 0⟩ zero _ [] [] rfl
  have hrefused : (add foreignPayment (fresh 0 : Transactions Arnm.reference)
        [true, true, true, true, false]).1 = .error .outOfMemory := rfl
  exact hfresh.lacking (fun _ h => nomatch h) (Prod.ext hrefused rfl)

theorem represents_cutShort : Represents (some foreignPayment) cutShort :=
  Reached.represents cutShort_reached (by decide)

/-- The union of the coins may lack the transaction that waits. -/
theorem foreign_not_union :
    ¬∀ (counted : Nat) (pending : Option CompleteTransaction) (index : Transactions Arnm.reference),
        Reached Clearing.reference counted pending index →
      ∀ offset, Arnm.reference.contains index.foreign offset = true ↔ index.InCoin offset := by
  intro hall
  have hcoin : cutShort.InCoin 1 := ⟨0, [1], rfl, rfl⟩
  exact absurd ((hall 0 (some foreignPayment) cutShort cutShort_reached 1).2 hcoin) (by decide)

end Transactions

end GradidoBlockchain
