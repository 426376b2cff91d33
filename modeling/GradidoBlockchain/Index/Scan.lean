import GradidoBlockchain.Arnm.Reference
import GradidoBlockchain.Index.Days
import Mathlib.Data.List.Nodup

/-!
# A filter answered from the sets is a scan of the ledger

The sets a filter names, the span it leaves, and the query over both answer for exactly the
transactions that match. Part by part: what the role, the type, the coin and the range of a filter
ask of an offset is what they ask of the transaction at that offset.
-/

namespace GradidoBlockchain

open Page

variable {A : Arnm} {index : Transactions A} {txs : List CompleteTransaction}

/-! ### Queries -/

/-- The answers of a query that names no set to be in, counted as the rest of its span. -/
theorem Transactions.spanCardinality_eq {query : RoaringQuery A.Bitmap}
    (hnone : Transactions.namesNoSet query = true) (hspan : query.min ≤ query.max) :
    Transactions.spanCardinality query = .ok (query.answers A.contains).length := by
  obtain ⟨hall, hany⟩ : query.all = [] ∧ query.any = [] := by
    simpa [Transactions.namesNoSet] using hnone
  have hwidth : (span query.min query.max).length = query.max - query.min + 1 := by
    rw [length_span]
    omega
  rw [Transactions.spanCardinality]
  by_cases hempty : query.none = []
  · rw [hempty, List.isEmpty_nil, if_pos rfl, RoaringQuery.answers, List.filter_eq_self.2, hwidth]
    intro offset _
    simp [RoaringQuery.admits, hall, hany, hempty]
  · have htaken := A.queryCardinality_eq
      { all := [], any := query.none, none := [], min := query.min, max := query.max } (.inr hempty)
    have hsplit := List.length_eq_length_filter_add (l := span query.min query.max)
      (f := fun offset => query.none.any (A.contains · offset))
    have hexcluded : RoaringQuery.answers A.contains
        { all := [], any := query.none, none := [], min := query.min, max := query.max } =
          (span query.min query.max).filter fun offset => query.none.any (A.contains · offset) := by
      refine List.filter_congr fun offset _ => ?_
      simp [RoaringQuery.admits, hempty]
    have hkept : query.answers A.contains =
        (span query.min query.max).filter fun offset => !query.none.any (A.contains · offset) := by
      refine List.filter_congr fun offset _ => ?_
      simp [RoaringQuery.admits, hall, hany]
    rw [if_neg (by simpa using hempty), htaken, hexcluded, hkept]
    rw [hwidth] at hsplit
    change Except.ok _ = Except.ok _
    congr 1
    split <;> omega

theorem Transactions.spanPage_eq {query : RoaringQuery A.Bitmap}
    (hnone : Transactions.namesNoSet query = true) (hspan : query.min ≤ query.max) (skip size : Nat)
    (descending : Bool) :
    Transactions.spanPage query skip size descending =
      page skip size (oriented descending (query.answers A.contains)) := by
  obtain ⟨hall, hany⟩ : query.all = [] ∧ query.any = [] := by
    simpa [Transactions.namesNoSet] using hnone
  have hsteps := span_oriented descending hspan
  rw [show query.max + 1 - query.min = query.max - query.min + 1 by omega] at hsteps
  rw [Transactions.spanPage, ← hsteps, walk_eq_page, oriented_filter, RoaringQuery.answers]
  congr 2
  refine List.filter_congr fun offset _ => ?_
  simp [RoaringQuery.admits, Transactions.spanExcludes, hall, hany]

theorem Transactions.namesNoSet_eq_false {query : RoaringQuery A.Bitmap}
    (hnone : Transactions.namesNoSet query = false) : query.all ≠ [] ∨ query.any ≠ [] := by
  rw [Transactions.namesNoSet, Bool.and_eq_false_iff] at hnone
  simpa using hnone

namespace Transactions.Holds

/-! ### Offsets -/

variable (hholds : Holds txs index)

include hholds

/-- An offset belongs to one transaction. -/
theorem offset_iff {tx : CompleteTransaction} (htx : tx ∈ txs) {p : CompleteTransaction → Prop} :
    (∃ other ∈ txs, tx.nr - index.baseTxNr = other.nr - index.baseTxNr ∧ p other) ↔ p tx := by
  constructor
  · rintro ⟨other, hother, hoffset, hp⟩
    have hnr : tx.nr = other.nr := by
      have hinside := hholds.inside tx htx
      have hinsideOther := hholds.inside other hother
      omega
    have hnodup : (txs.map CompleteTransaction.nr).Nodup := by
      rw [hholds.numbers]
      exact List.nodup_range'
    rwa [List.inj_on_of_nodup_map hnodup htx hother hnr]
  · exact fun hp => ⟨tx, htx, rfl, hp⟩

/-- The offsets in the order of the ledger are the consecutive ones. -/
theorem offsets :
    txs.map (fun tx => tx.nr - index.baseTxNr) =
      List.range' (index.minTxNr - index.baseTxNr) txs.length := by
  rcases txs with _ | ⟨head, rest⟩
  · rfl
  · have hnumbers := hholds.numbers
    have hmin : index.baseTxNr ≤ index.minTxNr := by
      have hhead : head.nr = index.minTxNr := by
        rw [List.map_cons, List.length_cons, List.range'_succ] at hnumbers
        exact (List.cons.inj hnumbers).1
      rw [← hhead]
      exact (hholds.inside head (by simp)).1
    have hmap := congrArg (List.map (· - index.baseTxNr)) hnumbers
    rw [List.map_map] at hmap
    refine hmap.trans ?_
    apply List.ext_getElem
    · simp
    · intro i hleft hright
      simp only [List.getElem_map, List.getElem_range']
      omega

/-! ### The parts of a filter -/

theorem addressSetsOf_eq_none {filter : TransactionsFilter}
    (hsets : index.addressSetsOf filter = none) {tx : CompleteTransaction} (htx : tx ∈ txs) :
    ¬CompleteTransaction.InRole filter tx := by
  rw [CompleteTransaction.InRole]
  rw [addressSetsOf] at hsets
  rcases hrole : filter.role <;> rw [hrole] at hsets <;> simp only [Option.map_eq_none_iff] at hsets
  · cases hsets
  all_goals
    have hread : index.addresses.read .blank filter.publicKey = .blank := by
      rw [Keyed.read, hsets]; rfl
    intro hin
    first
    | have hinvolved := (hholds.involved filter.publicKey (tx.nr - index.baseTxNr)).2 ⟨tx, htx, rfl, hin⟩
      rw [hread] at hinvolved
      simp [AddressSets.involves, AddressSets.blank, A.contains_blank] at hinvolved
    | have hbalance := (hholds.balance filter.publicKey (tx.nr - index.baseTxNr)).2 ⟨tx, htx, rfl, hin⟩
      rw [hread] at hbalance
      simp [AddressSets.blank, A.contains_blank] at hbalance

theorem addressSetsOf_eq_some {filter : TransactionsFilter} {all any : List A.Bitmap}
    (hsets : index.addressSetsOf filter = some (all, any)) {tx : CompleteTransaction}
    (htx : tx ∈ txs) :
    (all.all (A.contains · (tx.nr - index.baseTxNr)) &&
        (any.isEmpty || any.any (A.contains · (tx.nr - index.baseTxNr)))) =
      decide (CompleteTransaction.InRole filter tx) := by
  rw [Bool.eq_iff_iff, decide_eq_true_eq, CompleteTransaction.InRole]
  rw [addressSetsOf] at hsets
  rcases hrole : filter.role <;> rw [hrole] at hsets
  · cases hsets
    simp
  · obtain ⟨sets, hlookup, heq⟩ := Option.map_eq_some_iff.1 hsets
    cases heq
    have hread := Keyed.read_of_lookup .blank hlookup
    have hinvolved := hholds.involved filter.publicKey (tx.nr - index.baseTxNr)
    rw [hholds.offset_iff htx, hread, AddressSets.involves] at hinvolved
    simpa using hinvolved
  · obtain ⟨sets, hlookup, heq⟩ := Option.map_eq_some_iff.1 hsets
    cases heq
    have hread := Keyed.read_of_lookup .blank hlookup
    have hbalance := hholds.balance filter.publicKey (tx.nr - index.baseTxNr)
    rw [hholds.offset_iff htx, hread] at hbalance
    simpa using hbalance

theorem typeSetsOf_eq_none {filter : TransactionsFilter} (hsets : index.typeSetsOf filter = none)
    {tx : CompleteTransaction} (htx : tx ∈ txs) : ¬CompleteTransaction.OfType filter tx := by
  rw [typeSetsOf] at hsets
  split at hsets
  · cases hsets
  · split at hsets
    · rename_i hnone hunknown
      have hknown := hholds.known tx htx
      rintro (hany | heq)
      · exact hnone hany
      · rw [heq] at hknown
        omega
    · cases hsets

theorem typeSetsOf_eq_some {filter : TransactionsFilter} {all : List A.Bitmap}
    (hsets : index.typeSetsOf filter = some all) {tx : CompleteTransaction} (htx : tx ∈ txs) :
    all.all (A.contains · (tx.nr - index.baseTxNr)) =
      decide (CompleteTransaction.OfType filter tx) := by
  rw [Bool.eq_iff_iff, decide_eq_true_eq, CompleteTransaction.OfType]
  rw [typeSetsOf] at hsets
  split at hsets
  · rename_i hnone
    cases hsets
    simp [hnone]
  · rename_i hnone
    split at hsets
    · cases hsets
    · cases hsets
      have htypes := hholds.types filter.transactionType (tx.nr - index.baseTxNr)
      rw [hholds.offset_iff htx] at htypes
      simp only [List.all_cons, List.all_nil, Bool.and_true, htypes, hnone, false_or]
      exact eq_comm

theorem coinSetsOf_eq_none {filter : TransactionsFilter} (hsets : index.coinSetsOf filter = none)
    {tx : CompleteTransaction} (htx : tx ∈ txs) :
    ¬CompleteTransaction.InCoin index.chainCommunityUuid filter tx := by
  rw [CompleteTransaction.InCoin]
  rw [coinSetsOf] at hsets
  rcases hcoin : filter.coinCommunity with _ | uuid <;> rw [hcoin] at hsets
  · cases hsets
  · dsimp only at hsets ⊢
    split at hsets
    · cases hsets
    · rename_i hforeign
      rw [if_neg hforeign]
      intro hcarries
      have hset := (hholds.coin uuid (tx.nr - index.baseTxNr)).2 ⟨tx, htx, rfl, hforeign, hcarries⟩
      rw [Keyed.read, Option.map_eq_none_iff.1 hsets, Option.getD_none, A.contains_blank] at hset
      cases hset

theorem coinSetsOf_eq_some {filter : TransactionsFilter} {all outside : List A.Bitmap}
    (hsets : index.coinSetsOf filter = some (all, outside)) {tx : CompleteTransaction}
    (htx : tx ∈ txs) :
    (all.all (A.contains · (tx.nr - index.baseTxNr)) &&
        !outside.any (A.contains · (tx.nr - index.baseTxNr))) =
      decide (CompleteTransaction.InCoin index.chainCommunityUuid filter tx) := by
  rw [Bool.eq_iff_iff, decide_eq_true_eq, CompleteTransaction.InCoin]
  rw [coinSetsOf] at hsets
  rcases hcoin : filter.coinCommunity with _ | uuid <;> rw [hcoin] at hsets
  · cases hsets
    simp
  · dsimp only at hsets ⊢
    split at hsets
    · rename_i hhome
      cases hsets
      have hforeign := hholds.foreign (tx.nr - index.baseTxNr)
      rw [hholds.offset_iff htx] at hforeign
      rw [if_pos hhome, ← hforeign]
      simp
    · rename_i hhome
      rw [if_neg hhome]
      obtain ⟨set, hlookup, heq⟩ := Option.map_eq_some_iff.1 hsets
      cases heq
      have hset := hholds.coin uuid (tx.nr - index.baseTxNr)
      rw [hholds.offset_iff htx, Keyed.read_of_lookup A.blank hlookup] at hset
      simpa [hhome] using hset

theorem nr_mem {tx : CompleteTransaction} (htx : tx ∈ txs) :
    index.minTxNr ≤ tx.nr ∧ tx.nr ≤ index.maxTxNr := by
  have hmem : tx.nr ∈ txs.map CompleteTransaction.nr := List.mem_map_of_mem htx
  have hmax := hholds.max (List.ne_nil_of_mem htx)
  rw [hholds.numbers, List.mem_range'_1] at hmem
  omega

theorem namedRange_eq_none {filter : TransactionsFilter}
    (hascend : filter.NamesDates → DaysAscend dayOfSecond txs)
    (hrange : index.namedRange filter = none) {tx : CompleteTransaction} (htx : tx ∈ txs) :
    ¬CompleteTransaction.InSpan dayOfSecond filter.fromSeconds filter.toSeconds tx := by
  rw [namedRange] at hrange
  split at hrange
  · have hexact := rangeOfDays_exact hholds (hascend ‹_›) filter.fromSeconds filter.toSeconds
    rcases hdays : index.rangeOfDays filter.fromSeconds filter.toSeconds with _ | ⟨low, high⟩
    · rw [hdays] at hexact
      exact hexact tx htx
    · rw [hdays] at hrange
      cases hrange
  · cases hrange

theorem namedRange_eq_some {filter : TransactionsFilter}
    (hascend : filter.NamesDates → DaysAscend dayOfSecond txs) {low high : Nat}
    (hrange : index.namedRange filter = some (low, high)) {tx : CompleteTransaction}
    (htx : tx ∈ txs) :
    (low ≤ tx.nr ∧ tx.nr ≤ high) ↔
      CompleteTransaction.InRange filter tx ∧
        CompleteTransaction.InSpan dayOfSecond filter.fromSeconds filter.toSeconds tx := by
  have hmem := hholds.nr_mem htx
  rw [namedRange] at hrange
  rw [CompleteTransaction.InRange]
  split at hrange
  · have hexact := rangeOfDays_exact hholds (hascend ‹_›) filter.fromSeconds filter.toSeconds
    rcases hdays : index.rangeOfDays filter.fromSeconds filter.toSeconds with _ | ⟨dayLow, dayHigh⟩
    · rw [hdays] at hrange
      cases hrange
    · rw [hdays] at hrange hexact
      have hspan := hexact.2 tx htx
      rw [← hspan]
      by_cases hmin : filter.minTxNr = 0 <;> by_cases hmax : filter.maxTxNr = 0 <;>
      · simp only [hmin, hmax, ne_eq, not_true_eq_false, not_false_eq_true, if_true, if_false,
          false_implies, true_implies, true_and, and_true] at hrange ⊢
        split_ifs at hrange <;> cases hrange <;> omega
  · rename_i hdays
    rw [not_or, not_not, not_not] at hdays
    rw [CompleteTransaction.InSpan, hdays.1, hdays.2]
    by_cases hmin : filter.minTxNr = 0 <;> by_cases hmax : filter.maxTxNr = 0 <;>
    · simp only [hmin, hmax, ne_eq, not_true_eq_false, not_false_eq_true, if_true, if_false,
        false_implies, true_implies, true_and, and_true, iff_true] at hrange ⊢
      cases hrange
      omega

/-- The base is at most the first number, and the last number is less than 2^32 - 1 above it. -/
theorem ends (hne : txs ≠ []) :
    index.baseTxNr ≤ index.minTxNr ∧ index.maxTxNr - index.baseTxNr < uint32Max ∧
      index.maxTxNr + 1 = index.minTxNr + txs.length ∧ 0 < txs.length := by
  have hmax := hholds.max hne
  have hlength := List.length_pos_of_ne_nil hne
  have hboth : ∀ nr, index.minTxNr ≤ nr → nr ≤ index.maxTxNr →
      index.baseTxNr ≤ nr ∧ nr - index.baseTxNr < uint32Max := by
    intro nr hlow hhigh
    have hmem : nr ∈ txs.map CompleteTransaction.nr := by
      rw [hholds.numbers, List.mem_range'_1]
      omega
    obtain ⟨tx, htx, rfl⟩ := List.mem_map.1 hmem
    exact hholds.inside tx htx
  exact ⟨(hboth index.minTxNr le_rfl (by omega)).1, (hboth index.maxTxNr (by omega) le_rfl).2, hmax,
    hlength⟩

theorem clip_eq_none (hne : txs ≠ []) {low high : Nat} (hclip : index.clip (low, high) = none)
    {tx : CompleteTransaction} (htx : tx ∈ txs) : ¬(low ≤ tx.nr ∧ tx.nr ≤ high) := by
  have hmem := hholds.nr_mem htx
  have hinside := hholds.inside tx htx
  have hends := hholds.ends hne
  rw [clip] at hclip
  split_ifs at hclip <;> omega

theorem clip_eq_some (hne : txs ≠ []) {low high min max : Nat}
    (hclip : index.clip (low, high) = some (min, max)) :
    min ≤ max ∧ index.minTxNr - index.baseTxNr ≤ min ∧
      max < index.minTxNr - index.baseTxNr + txs.length ∧
      ∀ tx ∈ txs, (min ≤ tx.nr - index.baseTxNr ∧ tx.nr - index.baseTxNr ≤ max) ↔
        (low ≤ tx.nr ∧ tx.nr ≤ high) := by
  have hends := hholds.ends hne
  rw [clip] at hclip
  refine ⟨?_, ?_, ?_, fun tx htx => ?_⟩
  · split_ifs at hclip <;> cases hclip <;> omega
  · split_ifs at hclip <;> cases hclip <;> omega
  · split_ifs at hclip <;> cases hclip <;> omega
  · have hmem := hholds.nr_mem htx
    have hinside := hholds.inside tx htx
    split_ifs at hclip <;> cases hclip <;> omega

/-! ### The whole filter -/

omit hholds in
/-- What a query assembled from parts asks for, part by part. -/
private theorem admits_parts {all any ofType ofCoin outside : List A.Bitmap}
    {min max offset : Nat} :
    RoaringQuery.admits A.contains
        { all := all ++ ofType ++ ofCoin, any, none := outside, min, max } offset =
      ((all.all (A.contains · offset) && (any.isEmpty || any.any (A.contains · offset))) &&
        (ofType.all (A.contains · offset) &&
          (ofCoin.all (A.contains · offset) && !outside.any (A.contains · offset)))) := by
  simp only [RoaringQuery.admits, List.all_append]
  ac_rfl

theorem queryOfFilter_eq_none {filter : TransactionsFilter}
    (hascend : filter.NamesDates → DaysAscend dayOfSecond txs)
    (hquery : index.queryOfFilter filter = none) :
    scan dayOfSecond index.chainCommunityUuid filter txs = [] := by
  rw [scan, List.map_eq_nil_iff, List.filter_eq_nil_iff]
  intro tx htx
  rw [decide_eq_true_eq, CompleteTransaction.Matches]
  have hne := List.ne_nil_of_mem htx
  rw [queryOfFilter, if_neg (by rw [hholds.count]; simpa using hne)] at hquery
  rcases hrole : index.addressSetsOf filter with _ | ⟨all, any⟩
  · exact fun h => hholds.addressSetsOf_eq_none hrole htx h.1
  rcases htype : index.typeSetsOf filter with _ | ofType
  · exact fun h => hholds.typeSetsOf_eq_none htype htx h.2.1
  rcases hcoin : index.coinSetsOf filter with _ | ⟨ofCoin, outside⟩
  · exact fun h => hholds.coinSetsOf_eq_none hcoin htx h.2.2.1
  rcases hrange : index.namedRange filter with _ | ⟨low, high⟩
  · exact fun h => hholds.namedRange_eq_none hascend hrange htx h.2.2.2.2
  rcases hclip : index.clip (low, high) with _ | ⟨min, max⟩
  · exact fun h =>
      hholds.clip_eq_none hne hclip htx ((hholds.namedRange_eq_some hascend hrange htx).2 h.2.2.2)
  · rw [hrole, htype, hcoin, hrange] at hquery
    simp only [Option.bind_eq_bind, Option.bind_some, hclip] at hquery
    cases hquery

/-- The offsets a query answers with are those of the transactions that match. -/
theorem queryOfFilter_eq_some {filter : TransactionsFilter}
    (hascend : filter.NamesDates → DaysAscend dayOfSecond txs) {query : RoaringQuery A.Bitmap}
    (hquery : index.queryOfFilter filter = some query) :
    query.min ≤ query.max ∧
      (query.answers A.contains).map (index.baseTxNr + ·) =
        scan dayOfSecond index.chainCommunityUuid filter txs := by
  rw [queryOfFilter] at hquery
  split at hquery
  · cases hquery
  rename_i hcount
  have hne : txs ≠ [] := by
    rw [hholds.count] at hcount
    simpa using hcount
  rcases hrole : index.addressSetsOf filter with _ | ⟨all, any⟩
  · rw [hrole] at hquery
    cases hquery
  rcases htype : index.typeSetsOf filter with _ | ofType
  · rw [hrole, htype] at hquery
    cases hquery
  rcases hcoin : index.coinSetsOf filter with _ | ⟨ofCoin, outside⟩
  · rw [hrole, htype, hcoin] at hquery
    cases hquery
  rcases hrange : index.namedRange filter with _ | ⟨low, high⟩
  · rw [hrole, htype, hcoin, hrange] at hquery
    cases hquery
  rcases hclip : index.clip (low, high) with _ | ⟨min, max⟩
  · rw [hrole, htype, hcoin, hrange] at hquery
    simp only [Option.bind_eq_bind, Option.bind_some, hclip] at hquery
    cases hquery
  rw [hrole, htype, hcoin, hrange] at hquery
  simp only [Option.bind_eq_bind, Option.bind_some, hclip, Option.some.injEq] at hquery
  subst hquery
  obtain ⟨hle, hlow, hhigh, hclipped⟩ := hholds.clip_eq_some hne hclip
  refine ⟨hle, ?_⟩
  rw [RoaringQuery.answers, filter_span _ hlow hhigh, ← hholds.offsets, List.filter_map,
    List.map_map, scan]
  have hnumber : ∀ tx ∈ txs, index.baseTxNr + (tx.nr - index.baseTxNr) = tx.nr := by
    intro tx htx
    have hinside := hholds.inside tx htx
    omega
  have hmatches : ∀ tx ∈ txs, ((RoaringQuery.admits A.contains
          { all := all ++ ofType ++ ofCoin, any := any, none := outside, min := min, max := max }
          (tx.nr - index.baseTxNr)) &&
        decide (min ≤ tx.nr - index.baseTxNr ∧ tx.nr - index.baseTxNr ≤ max)) =
      decide (CompleteTransaction.Matches dayOfSecond index.chainCommunityUuid filter tx) := by
    intro tx htx
    have hrange := (hclipped tx htx).trans (hholds.namedRange_eq_some hascend hrange htx)
    rw [admits_parts, hholds.addressSetsOf_eq_some hrole htx, hholds.typeSetsOf_eq_some htype htx,
      hholds.coinSetsOf_eq_some hcoin htx, Bool.eq_iff_iff]
    simp only [Bool.and_eq_true, decide_eq_true_eq]
    rw [hrange, CompleteTransaction.Matches]
    simp only [and_assoc]
  refine Eq.trans ?_ (congrArg (List.map CompleteTransaction.nr) (List.filter_congr hmatches))
  exact List.map_congr_left fun tx htx => hnumber tx (List.mem_of_mem_filter htx)

/-! ### The answers -/

theorem count_eq_scan {filter : TransactionsFilter}
    (hascend : filter.NamesDates → DaysAscend dayOfSecond txs) :
    index.count filter = .ok (scan dayOfSecond index.chainCommunityUuid filter txs).length := by
  rw [Transactions.count, if_neg (by simp [hholds.ready])]
  rcases hquery : index.queryOfFilter filter with _ | query
  · rw [hholds.queryOfFilter_eq_none hascend hquery]
    rfl
  · obtain ⟨hspan, hanswers⟩ := hholds.queryOfFilter_eq_some hascend hquery
    rw [← hanswers, List.length_map]
    dsimp only
    split
    · exact spanCardinality_eq ‹_› hspan
    · exact A.queryCardinality_eq query
        (namesNoSet_eq_false (Bool.eq_false_iff.2 ‹¬namesNoSet query = true›))

theorem listing_eq_scan {filter : TransactionsFilter}
    (hascend : filter.NamesDates → DaysAscend dayOfSecond txs) (skip : Nat) {size : Nat}
    (hsize : size ≤ pageMax) (descending : Bool) :
    index.listing filter skip size descending =
      .ok (page skip size
          (oriented descending (scan dayOfSecond index.chainCommunityUuid filter txs)),
        (scan dayOfSecond index.chainCommunityUuid filter txs).length) := by
  rw [listing, if_neg (by simp [hholds.ready]), if_neg (by omega)]
  rcases hquery : index.queryOfFilter filter with _ | query
  · rw [hholds.queryOfFilter_eq_none hascend hquery]
    cases descending <;> simp [page, oriented]
  · obtain ⟨hspan, hanswers⟩ := hholds.queryOfFilter_eq_some hascend hquery
    rw [← hanswers, List.length_map, ← oriented_map, ← page_map]
    dsimp only
    split
    · rename_i hnone
      rw [spanCardinality_eq hnone hspan, spanPage_eq hnone hspan]
      change Except.ok _ = Except.ok _
      by_cases hzero : size = 0
      · simp [hzero]
      · simp [hzero]
    · rw [A.queryListing_eq query skip size descending
        (namesNoSet_eq_false (Bool.eq_false_iff.2 ‹¬namesNoSet query = true›))]
      rfl

theorem newest_eq_scan {filter : TransactionsFilter}
    (hascend : filter.NamesDates → DaysAscend dayOfSecond txs) :
    index.newest filter = (scan dayOfSecond index.chainCommunityUuid filter txs).getLast? := by
  rw [newest, if_neg (by simp [hholds.ready])]
  rcases hquery : index.queryOfFilter filter with _ | query
  · rw [hholds.queryOfFilter_eq_none hascend hquery]
    rfl
  · obtain ⟨hspan, hanswers⟩ := hholds.queryOfFilter_eq_some hascend hquery
    have hpage :
        (if namesNoSet query then .ok (spanPage query 0 1 true) else A.queryPage query 0 1 true) =
          (.ok (page 0 1 (oriented true (query.answers A.contains))) : Except ArnmResult _) := by
      split
      · rw [spanPage_eq ‹_› hspan]
      · exact A.queryPage_eq query 0 1 true
          (namesNoSet_eq_false (Bool.eq_false_iff.2 ‹¬namesNoSet query = true›))
    dsimp only
    rw [hpage, ← hanswers, List.getLast?_map, List.getLast?_eq_head?_reverse]
    simp only [oriented, if_true, page, List.drop_zero]
    rcases (query.answers A.contains).reverse with _ | ⟨offset, rest⟩
    · rfl
    · rfl

/-- Where no day leaves 64 bits, a scan by the days the code computes is a scan by UTC days. -/
theorem scan_utcDay (hfits : ∀ tx ∈ txs, DayFits tx.confirmedAt.seconds)
    {filter : TransactionsFilter} (hfrom : DayFits filter.fromSeconds)
    (hto : DayFits filter.toSeconds) :
    scan dayOfSecond index.chainCommunityUuid filter txs = scan utcDay (homeOf txs) filter txs := by
  have hhome : txs ≠ [] → index.chainCommunityUuid = homeOf txs := by
    intro hne
    obtain ⟨head, rest, rfl⟩ := List.exists_cons_of_ne_nil hne
    exact hholds.home head rfl
  by_cases hne : txs = []
  · rw [hne]
    rfl
  · rw [hhome hne]
    refine scan_congr fun tx htx => ?_
    rw [CompleteTransaction.Matches, CompleteTransaction.Matches,
      inSpan_congr (dayOfSecond_eq hfrom) (dayOfSecond_eq hto) (dayOfSecond_eq (hfits tx htx))]

end Transactions.Holds

namespace Transactions

/-- What a filter asks for, answered as a scan by UTC days answers it. -/
def AnswersAsScan (txs : List CompleteTransaction) (index : Transactions A)
    (filter : TransactionsFilter) : Prop :=
  ∀ skip size descending, size ≤ pageMax →
    index.count filter = .ok (scan utcDay (homeOf txs) filter txs).length ∧
      index.listing filter skip size descending =
        .ok (page skip size (oriented descending (scan utcDay (homeOf txs) filter txs)),
          (scan utcDay (homeOf txs) filter txs).length) ∧
      index.newest filter = (scan utcDay (homeOf txs) filter txs).getLast?

/-- Where a filter names dates and the table finds no day between them, there is
nothing to count. -/
theorem count_of_rangeOfDays_none {filter : TransactionsFilter} (hready : index.ready = true)
    (hdates : filter.fromSeconds ≠ 0 ∨ filter.toSeconds ≠ 0)
    (hnone : index.rangeOfDays filter.fromSeconds filter.toSeconds = none) :
    index.count filter = .ok 0 := by
  have hnamed : index.namedRange filter = none := by
    rw [namedRange, if_pos hdates, hnone]
  have hquery : index.queryOfFilter filter = none := by
    rw [queryOfFilter, hnamed]
    split
    · rfl
    · simp
  rw [count, if_neg (by simp [hready]), hquery]

/-- Everything confirmed by the end of the first day that is computed right. -/
def untilEarliest : TransactionsFilter := { TransactionsFilter.init with toSeconds := earliestFit }

/-- A second of the first day of the range is noted at the far end of time, where no span that
ends early reaches. -/
theorem Holds.fits_of_count (hholds : Holds txs index) {tx : CompleteTransaction} (htx : tx ∈ txs)
    (hcount : index.count untilEarliest = .ok (scan utcDay (homeOf txs) untilEarliest txs).length) :
    DayFits tx.confirmedAt.seconds := by
  by_contra hfits
  have hmatches : tx.Matches utcDay (homeOf txs) untilEarliest := by
    refine ⟨trivial, .inl rfl, trivial, ⟨fun h => absurd rfl h, fun h => absurd rfl h⟩,
      fun h => absurd rfl h, fun _ => ?_⟩
    exact utcDay_le_earliestFit hfits
  have hmem : tx.nr ∈ scan utcDay (homeOf txs) untilEarliest txs :=
    List.mem_map_of_mem (List.mem_filter.2 ⟨htx, decide_eq_true hmatches⟩)
  have hnone : index.rangeOfDays untilEarliest.fromSeconds untilEarliest.toSeconds = none := by
    change index.rangeOfDays 0 earliestFit = none
    rcases hrange : index.rangeOfDays 0 earliestFit with _ | ⟨low, high⟩
    · rfl
    · have hfirst := firstDay_le_of_rangeOfDays (by decide) hrange
      obtain ⟨position, hposition, hlt, -⟩ := hholds.days.placed tx htx
      have hfar := dayOfSecond_of_not_fits hfits
      have hsize := index.dayMaxTx.size_le
      rw [show dayOfSecond earliestFit = -106751991167300 by decide] at hfirst
      rw [uint32Max] at hsize
      omega
  rw [count_of_rangeOfDays_none hholds.ready (.inr (by decide)) hnone] at hcount
  rw [List.length_eq_zero_iff.1 (Except.ok.inj hcount).symm] at hmem
  cases hmem

/-- An index over any base, filled with consecutive numbers whose UTC days do not go back, answers
every filter as a scan of the transactions does, for bounds whose day can be computed, just when no
transaction was confirmed in the first 86400 seconds of the 64-bit range. -/
theorem answers_eq_scan_iff {base : Nat} (hfilled : Filled base txs index)
    (hinside : ∀ tx ∈ txs, tx.nr - base < uint32Max) (hascend : DaysAscend utcDay txs) :
    (∀ filter : TransactionsFilter, DayFits filter.fromSeconds → DayFits filter.toSeconds →
        AnswersAsScan txs index filter) ↔ ∀ tx ∈ txs, DayFits tx.confirmedAt.seconds := by
  have hholds := hfilled.holds hinside
  constructor
  · intro hanswers tx htx
    exact hholds.fits_of_count htx
      (hanswers untilEarliest (by decide) (by decide) 0 0 false (Nat.zero_le _)).1
  · intro hfits filter hfrom hto skip size descending hsize
    have hcoded : DaysAscend dayOfSecond txs :=
      (daysAscend_congr fun tx htx => dayOfSecond_eq (hfits tx htx)).2 hascend
    rw [← hholds.scan_utcDay hfits hfrom hto]
    exact ⟨hholds.count_eq_scan fun _ => hcoded,
      hholds.listing_eq_scan (fun _ => hcoded) skip hsize descending,
      hholds.newest_eq_scan fun _ => hcoded⟩

/-- One transaction of the first day of the epoch in an index over 0. -/
def bareIndex : Transactions Arnm.reference := (add (.bare 1 0) (fresh 0) []).2.1

theorem bareIndex_filled : Filled 0 [.bare 1 0] bareIndex :=
  @Filled.add _ _ [] _ _ _ [] [] (filled_fresh 0) rfl

/-- A creation, a payment in coins of another community on the day after, the way back of it on the
same day, and a second creation two days later. -/
def marketDays : List CompleteTransaction :=
  [{ CompleteTransaction.bare 5 0 with accountBalances := [⟨Vector.replicate 32 1, 1000, zeroBytes 16⟩] },
    { CompleteTransaction.bare 6 86400 with
      transactionType := .transfer
      transfer := ⟨Vector.replicate 32 1, Vector.replicate 32 2⟩
      accountBalances := [⟨Vector.replicate 32 1, 400, Vector.replicate 16 9⟩,
        ⟨Vector.replicate 32 2, 600, Vector.replicate 16 9⟩] },
    { CompleteTransaction.bare 7 90000 with
      transactionType := .transfer
      transfer := ⟨Vector.replicate 32 2, Vector.replicate 32 1⟩
      accountBalances := [⟨Vector.replicate 32 1, 500, Vector.replicate 16 9⟩,
        ⟨Vector.replicate 32 2, 500, Vector.replicate 16 9⟩] },
    { CompleteTransaction.bare 8 259200 with accountBalances := [⟨Vector.replicate 32 2, 1500, zeroBytes 16⟩] }]

/-- The index over 3 that they leave. -/
def marketIndex : Transactions Arnm.reference :=
  (Fallible.series add (marketDays.map fun tx => (tx, [])) (fresh 3)).2

theorem marketIndex_filled : Filled 3 marketDays marketIndex := by
  have hresults : (Fallible.series add (marketDays.map fun tx => (tx, [])) (fresh 3 : Transactions Arnm.reference)).1 =
      (marketDays.map fun tx => (tx, ([] : Fallible.Room))).map fun _ => .ok () := by decide +kernel
  exact (filled_fresh 3).series hresults

theorem answers_eq_scan_iff_market :
    (∀ filter : TransactionsFilter, DayFits filter.fromSeconds → DayFits filter.toSeconds →
        AnswersAsScan marketDays marketIndex filter) ↔
      ∀ tx ∈ marketDays, DayFits tx.confirmedAt.seconds :=
  answers_eq_scan_iff marketIndex_filled (by decide) (by decide)

/-- A span from the earliest second there is holds every transaction, and the code
finds none in it. -/
theorem answers_not_scan_earliest :
    ¬∀ (base : Nat) (txs : List CompleteTransaction) (index : Transactions Arnm.reference), Filled
        base txs index → (∀ tx ∈ txs, tx.nr - base < uint32Max) → DaysAscend utcDay txs →
      ∀ filter, AnswersAsScan txs index filter := by
  intro hall
  have hcount := (hall 0 [.bare 1 0] bareIndex bareIndex_filled (by decide) (by decide)
    { TransactionsFilter.init with fromSeconds := Int64.minValue } 0 0 false (by decide)).1
  exact absurd hcount (by decide)

end Transactions

end GradidoBlockchain
