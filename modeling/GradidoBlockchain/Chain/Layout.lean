import GradidoBlockchain.Chain.Answers
import GradidoBlockchain.Chain.Refused
import GradidoBlockchain.Chain.Retry

/-!
# The segments and the pages of a ledger

A ledger is cut by its numbers alone: a segment holds the transactions of its numbers and no others,
and there is one for each stretch of numbers from the first transaction to the last. It is read in
pages, which put together are the whole of what matches, each of it once.
-/

namespace GradidoBlockchain

open Page

variable {A : Arnm}

namespace Chain

variable {options : ChainOptions} {txs : List CompleteTransaction} {chain : Chain A}

/-! ### Segments -/

theorem Grown.reachable (hgrown : Grown options txs chain) : Reachable options chain := by
  induction hgrown with
  | init hrun => exact .init hrun
  | @add _ tx _ _ room _ _ hrun ih =>
      have hadded := ih.add tx room
      rw [hrun] at hadded
      exact hadded

/-- How a ledger is cut: the segments from the one of the first number to the one of the last, each
filled with what falls in it. -/
structure CutByNumber (options : ChainOptions) (txs : List CompleteTransaction)
    (chain : Chain A) : Prop where
  segments : txs ≠ [] →
    chain.segments.size + chain.minTxNr / options.size = chain.maxTxNr / options.size + 1
  first : txs ≠ [] → chain.firstSegment = chain.minTxNr / options.size
  part : ∀ position segment, chain.segments.get? position = some segment →
    Transactions.Filled ((chain.firstSegment + position) * options.size)
      (txs.filter fun tx => tx.nr / options.size = chain.firstSegment + position) segment
  counted : chain.transactionCount = txs.length

theorem Row.part_at {volumes : List (List CompleteTransaction × Transactions A)}
    (hrow : Row options txs volumes chain) {position : Nat} {segment : Transactions A}
    (hget : chain.segments.get? position = some segment) :
    ∃ volume, volumes[position]? = some volume ∧ volume.2 = segment := by
  have hslot : chain.segments.slots[position]? = some segment := hget
  rw [hrow.slots, List.getElem?_map, Option.map_eq_some_iff] at hslot
  exact hslot

/-- The numbers of a part fall in its segment. -/
theorem Row.nr_of_part {volumes : List (List CompleteTransaction × Transactions A)}
    (hrow : Row options txs volumes chain) (hsound : Sound options chain) {position : Nat}
    {volume : List CompleteTransaction × Transactions A}
    (hvolume : volumes[position]? = some volume) {tx : CompleteTransaction} (htx : tx ∈ volume.1) :
    tx.nr / options.size = chain.firstSegment + position := by
  have hmem := List.mem_of_getElem? hvolume
  have hholds := (hrow.volume volume hmem).holds
  have hget : chain.segments.get? position = some volume.2 := by
    change chain.segments.slots[position]? = _
    rw [hrow.slots, List.getElem?_map, hvolume]
    rfl
  have hlength := List.length_pos_of_mem htx
  have hcount : volume.2.transactionCount ≠ 0 := by
    rw [hholds.count]
    omega
  obtain ⟨-, hlow, hhigh, -⟩ := hsound.row.counted position volume.2 hget hcount
  rw [segmentOf, hsound.row.size] at hlow hhigh
  have hnumber : tx.nr ∈ volume.1.map CompleteTransaction.nr := List.mem_map_of_mem htx
  have hmax := hholds.max (List.ne_nil_of_mem htx)
  rw [hholds.numbers, List.mem_range'_1] at hnumber
  have hge : volume.2.minTxNr / options.size ≤ tx.nr / options.size :=
    Nat.div_le_div_right hnumber.1
  have hle : tx.nr / options.size ≤ volume.2.maxTxNr / options.size :=
    Nat.div_le_div_right (by omega)
  omega

/-- A ledger begins in its first segment. -/
theorem Row.first_of_ledger {volumes : List (List CompleteTransaction × Transactions A)}
    (hrow : Row options txs volumes chain) (hsound : Sound options chain) (hne : txs ≠ []) :
    chain.firstSegment = chain.minTxNr / options.size := by
  obtain ⟨volume, others, rfl⟩ := List.exists_cons_of_ne_nil fun h => hne (hrow.volumes_nil.1 h)
  obtain ⟨tx, rest, hpart⟩ := List.exists_cons_of_ne_nil (hrow.volume volume List.mem_cons_self).1
  have hplace :=
    hrow.nr_of_part hsound (show (volume :: others)[0]? = some volume from rfl)
      (hpart ▸ List.mem_cons_self : tx ∈ volume.1)
  have hnumbers := hrow.numbers
  rw [← hrow.ledger, List.map_cons, List.flatten_cons, hpart, List.cons_append, List.map_cons,
    List.length_cons, List.range'_succ] at hnumbers
  have hnr : tx.nr = chain.minTxNr := (List.cons.inj hnumbers).1
  rw [hnr] at hplace
  exact hplace.symm

/-- Whatever the segments are filled with, the ledger is cut by its numbers. -/
theorem Grown.cutByNumber (hgrown : Grown options txs chain) : CutByNumber options txs chain := by
  obtain ⟨volumes, hrow⟩ := hgrown.row
  have hsound := hgrown.reachable.sound
  have hbased := hgrown.reachable.based
  refine ⟨fun hne => ?_, hrow.first_of_ledger hsound, fun position segment hget => ?_, hrow.count⟩
  · obtain ⟨front, volume, rfl⟩ :=
      (List.eq_nil_or_concat' volumes).resolve_left fun h => hne (hrow.volumes_nil.1 h)
    have hplace := (hrow.last front volume rfl).place
    have hfirst := hrow.first_of_ledger hsound hne
    have hslots := congrArg List.length hrow.slots
    rw [List.length_map, List.length_append, List.length_singleton] at hslots
    rw [segmentOf, hsound.row.size] at hplace
    rw [Bvec.size]
    omega
  · obtain ⟨volume, hvolume, rfl⟩ := hrow.part_at hget
    obtain ⟨-, base, hfilled, -⟩ := hrow.volume volume (List.mem_of_getElem? hvolume)
    have hbase := hbased.base position volume.2 hget
    rw [hfilled.base.1, hsound.row.size] at hbase
    have hparts : (volumes.map Prod.fst)[position]? = some volume.1 := by
      rw [List.getElem?_map, hvolume]
      rfl
    have hkeys : ∀ place items, (volumes.map Prod.fst)[place]? = some items → ∀ tx ∈ items,
        tx.nr / options.size = chain.firstSegment + place := by
      intro place items hitems tx htx
      rw [List.getElem?_map, Option.map_eq_some_iff] at hitems
      obtain ⟨other, hother, rfl⟩ := hitems
      exact hrow.nr_of_part hsound hother htx
    have hpart := filter_flatten_parts hkeys hparts
    rw [hrow.ledger] at hpart
    rw [← hbase, hpart]
    exact hfilled

theorem Grown.cutByNumber_threeDays : CutByNumber (segmentsOf 2) threeDays (threeDaysIn 2) :=
  have hgrown : Grown (segmentsOf 2) threeDays (threeDaysIn 2) :=
    (grown_fresh _).fed (by decide +kernel)
  hgrown.cutByNumber

/-! ### Pages -/

/-- The pages of one size, from the first one on, each with what it says of the
number of matches. -/
def pages (chain : Chain A) (filter : TransactionsFilter) (size : Nat) (descending : Bool)
    (count : Nat) : Except ArnmResult (List (List Nat × Nat)) :=
  (List.range count).mapM fun index => chain.listing filter (index * size) size descending

/-- What is read of a chain page by page. -/
structure ReadsWhole (chain : Chain A) (filter : TransactionsFilter)
    (matching : List Nat) : Prop where
  counted : chain.count filter = .ok matching.length
  newest : chain.newest filter = matching.getLast?
  paged : ∀ size descending count, size ≤ Transactions.pageMax →
    ∃ listed : List (List Nat), chain.pages filter size descending count =
        .ok (listed.map fun page => (page, matching.length)) ∧
      listed.flatten = (oriented descending matching).take (count * size) ∧ listed.length = count

/-- Pages put together are what matches, from the end they are read from, each of it once; every
page reports how much that is. -/
theorem Grown.readsWhole {home : Uuid} {filter : TransactionsFilter}
    (hgrown : Grown options txs chain) (hcommunity : ∀ tx ∈ txs, tx.txCommunityUuid = home)
    (hascend : filter.NamesDates → DaysAscend dayOfSecond txs) :
    ReadsWhole chain filter (scan dayOfSecond home filter txs) := by
  obtain ⟨volumes, hrow⟩ := hgrown.row
  refine ⟨hrow.count_eq_scan (.inr hcommunity) hascend,
    hrow.newest_eq_scan (.inr hcommunity) hascend, fun size descending count hsize => ?_⟩
  let matching := oriented descending (scan dayOfSecond home filter txs)
  refine ⟨(List.range count).map fun index => page (index * size) size matching, ?_,
    flatten_pages size count matching, by simp⟩
  have hlisting : (fun index => chain.listing filter (index * size) size descending) =
      fun index =>
        pure (page (index * size) size matching, (scan dayOfSecond home filter txs).length) := by
    funext index
    exact hrow.listing_eq_scan (.inr hcommunity) hascend (index * size) hsize descending
  rw [pages, hlisting, List.mapM_pure, List.map_map]
  rfl

theorem Grown.readsWhole_threeDays :
    ReadsWhole (threeDaysIn 2) .init (scan dayOfSecond (zeroBytes 16) .init threeDays) :=
  have hgrown : Grown (segmentsOf 2) threeDays (threeDaysIn 2) :=
    (grown_fresh _).fed (by decide +kernel)
  hgrown.readsWhole (by decide : ∀ tx ∈ threeDays, tx.txCommunityUuid = zeroBytes 16) fun _ => by
    decide

end Chain

end GradidoBlockchain
