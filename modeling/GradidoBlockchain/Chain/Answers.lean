import GradidoBlockchain.Chain.Grown
import GradidoBlockchain.Index.Scan

/-!
# A chain answers as its ledger does

Every segment answers for its part of the ledger, and the loops over the segments put the
parts together: counts are added, a page goes on in the next segment with what is left of its
skip and its size, the newest match is the last one found, and the outermost ends of the spans
are those of the whole.
-/

namespace GradidoBlockchain

open Page

variable {A : Arnm}

namespace Chain

/-! ### The loops -/

section Loops

variable {filter : TransactionsFilter} {answers : List CompleteTransaction → List Nat}
  {volumes : List (List CompleteTransaction × Transactions A)}

private theorem foldlM_count
    (hcount : ∀ volume ∈ volumes, volume.2.count filter = .ok (answers volume.1).length)
    {total : Nat} (htotal : total < 2 ^ 64) :
    (volumes.map Prod.snd).foldlM (fun total segment => do
      let here ← segment.count filter
      .ok ((total + here) % 2 ^ 64)) total =
      (.ok ((total + ((volumes.map Prod.fst).flatMap answers).length) % 2 ^ 64) :
          Except ArnmResult Nat) := by
  induction volumes generalizing total with
  | nil => exact congrArg Except.ok (Nat.mod_eq_of_lt htotal).symm
  | cons volume volumes ih =>
      have hrest := ih (fun other hother => hcount other (List.mem_cons_of_mem _ hother))
        (Nat.mod_lt (total + (answers volume.1).length) (Nat.two_pow_pos 64))
      rw [List.map_cons, List.foldlM_cons, hcount volume List.mem_cons_self, List.map_cons,
        List.flatMap_cons, List.length_append, ← Nat.add_assoc]
      refine hrest.trans ?_
      rw [Nat.mod_add_mod]

private theorem foldlM_walkOn {descending : Bool} (answers : List CompleteTransaction → List Nat)
    (hlisting : ∀ volume ∈ volumes, ∀ skip size, size ≤ Transactions.pageMax →
      volume.2.listing filter skip size descending =
        .ok (page skip size (answers volume.1), (answers volume.1).length)) (walk : Walk)
    (hsize : walk.remainingSize ≤ Transactions.pageMax) (hmatching : walk.matching < 2 ^ 64) :
    ∃ last, (volumes.map Prod.snd).foldlM (walkOn filter descending) walk = .ok last ∧
      last.taken =
        walk.taken ++
          page walk.remainingSkip walk.remainingSize ((volumes.map Prod.fst).flatMap answers) ∧
      last.matching =
        (walk.matching + ((volumes.map Prod.fst).flatMap answers).length) % 2 ^ 64 := by
  induction volumes generalizing walk with
  | nil => exact ⟨walk, rfl, by simp [page], (Nat.mod_eq_of_lt hmatching).symm⟩
  | cons volume volumes ih =>
      have hhere := hlisting volume List.mem_cons_self walk.remainingSkip walk.remainingSize hsize
      -- The walk after this segment.
      let onward : Walk := {
        remainingSkip := if walk.remainingSkip ≤ (answers volume.1).length then 0
          else walk.remainingSkip - (answers volume.1).length
        remainingSize :=
          walk.remainingSize -
            (page walk.remainingSkip walk.remainingSize (answers volume.1)).length
        taken := walk.taken ++ page walk.remainingSkip walk.remainingSize (answers volume.1)
        matching := (walk.matching + (answers volume.1).length) % 2 ^ 64 }
      have hround : walkOn filter descending walk volume.2 = .ok onward := by
        rw [walkOn, hhere]
        rfl
      obtain ⟨last, hlast, htaken, hmatches⟩ :=
        ih (fun other hother => hlisting other (List.mem_cons_of_mem _ hother)) onward
          (Nat.le_trans (Nat.sub_le _ _) hsize) (Nat.mod_lt _ (Nat.two_pow_pos 64))
      refine ⟨last, ?_, ?_, ?_⟩
      · rw [List.map_cons, List.foldlM_cons, hround]
        exact hlast
      · have hskip : onward.remainingSkip = walk.remainingSkip - (answers volume.1).length := by
          change (if _ then _ else _) = _
          split <;> omega
        rw [htaken, hskip, List.map_cons, List.flatMap_cons, page_append, ← List.append_assoc]
      · rw [hmatches, Nat.mod_add_mod, List.map_cons, List.flatMap_cons, List.length_append,
          Nat.add_assoc]

private theorem findSome?_newest
    (hnewest : ∀ volume ∈ volumes, volume.2.newest filter = (answers volume.1).getLast?) :
    ((volumes.map Prod.snd).reverse.findSome? fun segment => segment.newest filter) =
      ((volumes.map Prod.fst).flatMap answers).getLast? := by
  induction volumes using List.reverseRecOn with
  | nil => rfl
  | append_singleton volumes volume ih =>
      rw [List.map_append, List.reverse_append, List.map_append, List.flatMap_append,
        List.getLast?_append,
        ← ih fun other hother => hnewest other (List.mem_append_left _ hother)]
      simp only [List.map_cons, List.map_nil, List.reverse_cons, List.reverse_nil, List.nil_append,
        List.singleton_append, List.findSome?_cons, List.flatMap_cons, List.flatMap_nil,
        List.append_nil]
      rw [hnewest volume (by simp)]
      rcases (answers volume.1).getLast? with _ | number <;> rfl

theorem widen_outermost (found here : List Nat) :
    widen (outermost found) (outermost here) = outermost (found ++ here) := by
  rcases hhere : outermost here with _ | ⟨low, high⟩
  · rw [outermost_eq_none] at hhere
    rw [hhere, List.append_nil]
    rfl
  · rcases hfound : outermost found with _ | ⟨lowest, highest⟩
    · rw [outermost_eq_none] at hfound
      rw [hfound, List.nil_append, hhere]
      rfl
    · obtain ⟨hlow, hhigh, hall⟩ := outermost_eq_some.1 hhere
      obtain ⟨hlowest, hhighest, hevery⟩ := outermost_eq_some.1 hfound
      symm
      apply outermost_eq_some.2
      refine ⟨?_, ?_, fun number hnumber => ?_⟩
      · split
        · exact List.mem_append_right _ hlow
        · exact List.mem_append_left _ hlowest
      · split
        · exact List.mem_append_right _ hhigh
        · exact List.mem_append_left _ hhighest
      · rcases List.mem_append.1 hnumber with hmem | hmem
        · have := hevery number hmem
          constructor <;> split <;> omega
        · have := hall number hmem
          constructor <;> split <;> omega

private theorem foldl_widen {fromSecond toSecond : Int64}
    (hrange : ∀ volume ∈ volumes,
      volume.2.rangeOfDays fromSecond toSecond = outermost (answers volume.1)) (found : List Nat) :
    (volumes.map Prod.snd).foldl
        (fun found segment => widen found (segment.rangeOfDays fromSecond toSecond))
        (outermost found) = outermost (found ++ (volumes.map Prod.fst).flatMap answers) := by
  induction volumes generalizing found with
  | nil => rw [List.map_nil, List.map_nil, List.flatMap_nil, List.append_nil, List.foldl_nil]
  | cons volume volumes ih =>
      rw [List.map_cons, List.foldl_cons, hrange volume List.mem_cons_self, widen_outermost,
        ih (fun other hother => hrange other (List.mem_cons_of_mem _ hother)), List.map_cons,
        List.flatMap_cons, List.append_assoc]

end Loops

/-! ### The ledger in parts -/

theorem scan_flatten (day : Int64 → Int) (home : Uuid) (filter : TransactionsFilter)
    (parts : List (List CompleteTransaction)) :
    scan day home filter parts.flatten = parts.flatMap (scan day home filter) := by
  rw [scan, List.filter_flatten, List.map_flatten, List.map_map, List.flatMap_def]
  rfl

theorem numbersIn_flatten (day : Int64 → Int) (fromSecond toSecond : Int64)
    (parts : List (List CompleteTransaction)) :
    numbersIn day fromSecond toSecond parts.flatten =
      parts.flatMap (numbersIn day fromSecond toSecond) := by
  rw [numbersIn, List.filter_flatten, List.map_flatten, List.map_map, List.flatMap_def]
  rfl

theorem scan_home {day : Int64 → Int} {home other : Uuid} {filter : TransactionsFilter}
    (hhome : filter.coinCommunity = none ∨ home = other) (txs : List CompleteTransaction) :
    scan day home filter txs = scan day other filter txs := by
  rcases hhome with hnone | rfl
  · rw [scan, scan]
    congr 1
    apply List.filter_congr
    intro tx _
    simp only [CompleteTransaction.Matches, CompleteTransaction.InCoin, hnone]
  · rfl

theorem Volume.holds {volume : List CompleteTransaction × Transactions A}
    (hvolume : Volume volume) : Transactions.Holds volume.1 volume.2 := by
  obtain ⟨-, base, hfilled, hinside⟩ := hvolume
  exact hfilled.holds hinside

namespace Row

variable {options : ChainOptions} {txs : List CompleteTransaction} {chain : Chain A} {home : Uuid}
  {filter : TransactionsFilter} {volumes : List (List CompleteTransaction × Transactions A)}
  (hrow : Row options txs volumes chain)

include hrow

theorem length_lt_max : txs.length < 2 ^ 64 := by
  by_cases hne : txs = []
  · rw [hne]
    decide
  · have hmax := hrow.max hne
    have hlt := hrow.max_lt hne
    have hpositive := hrow.positive.resolve_right hne
    omega

theorem part_ascend {day : Int64 → Int} (hascend : DaysAscend day txs)
    {volume : List CompleteTransaction × Transactions A}
    (hvolume : volume ∈ volumes) : DaysAscend day volume.1 := by
  rw [← hrow.ledger] at hascend
  exact hascend.sublist (List.sublist_flatten_of_mem (List.mem_map_of_mem hvolume))

/-- Every segment knows the community all transactions are of. -/
theorem part_home (hhome : filter.coinCommunity = none ∨ ∀ tx ∈ txs, tx.txCommunityUuid = home)
    {volume : List CompleteTransaction × Transactions A} (hvolume : volume ∈ volumes) :
    filter.coinCommunity = none ∨ volume.2.chainCommunityUuid = home := by
  refine hhome.imp_right fun hall => ?_
  obtain ⟨first, rest, hpart⟩ := List.exists_cons_of_ne_nil (hrow.volume volume hvolume).1
  have hmem : first ∈ txs := by
    rw [← hrow.ledger]
    exact List.mem_flatten_of_mem (List.mem_map_of_mem hvolume) (hpart ▸ List.mem_cons_self)
  rw [(hrow.volume volume hvolume).holds.home first (by rw [hpart]; rfl), hall first hmem]

variable (hhome : filter.coinCommunity = none ∨ ∀ tx ∈ txs, tx.txCommunityUuid = home)
  (hascend : filter.NamesDates → DaysAscend dayOfSecond txs)

theorem scan_eq :
    ((volumes.map Prod.fst).flatMap (scan dayOfSecond home filter)) =
      scan dayOfSecond home filter txs := by
  rw [← hrow.ledger, scan_flatten]

theorem length_scan_lt : (scan dayOfSecond home filter txs).length < 2 ^ 64 := by
  have hlt := hrow.length_lt_max
  have hle :=
    List.length_filter_le
      (fun tx => decide (CompleteTransaction.Matches dayOfSecond home filter tx)) txs
  rw [scan, List.length_map]
  omega

include hhome hascend

theorem count_eq_scan : chain.count filter = .ok (scan dayOfSecond home filter txs).length := by
  have hcount : ∀ volume ∈ volumes,
      volume.2.count filter = .ok (scan dayOfSecond home filter volume.1).length := by
    intro volume hvolume
    rw [(hrow.volume volume hvolume).holds.count_eq_scan fun hdates =>
        hrow.part_ascend (hascend hdates) hvolume, scan_home (hrow.part_home hhome hvolume)]
  have hlt : (scan dayOfSecond home filter txs).length < 2 ^ 64 := hrow.length_scan_lt
  rw [Chain.count, if_neg (by simp [hrow.ready]), hrow.slots,
    foldlM_count hcount (Nat.two_pow_pos 64), hrow.scan_eq, Nat.zero_add, Nat.mod_eq_of_lt hlt]

theorem listing_eq_scan (skip : Nat) {size : Nat} (hsize : size ≤ Transactions.pageMax)
    (descending : Bool) :
    chain.listing filter skip size descending =
      .ok (page skip size (oriented descending (scan dayOfSecond home filter txs)),
        (scan dayOfSecond home filter txs).length) := by
  have hlisting : ∀ volume ∈ oriented descending volumes, ∀ skip size, size ≤ Transactions.pageMax →
      volume.2.listing filter skip size descending =
        .ok (page skip size (oriented descending (scan dayOfSecond home filter volume.1)),
          (oriented descending (scan dayOfSecond home filter volume.1)).length) := by
    intro volume hmem skip size hsize
    have hvolume : volume ∈ volumes := by
      rw [oriented] at hmem
      split at hmem
      · exact List.mem_reverse.1 hmem
      · exact hmem
    rw [(hrow.volume volume hvolume).holds.listing_eq_scan
        (fun hdates => hrow.part_ascend (hascend hdates) hvolume) skip hsize descending,
      scan_home (hrow.part_home hhome hvolume), length_oriented]
  have hparts : ((oriented descending volumes).map Prod.fst).flatMap
      (fun part => oriented descending (scan dayOfSecond home filter part)) =
        oriented descending (scan dayOfSecond home filter txs) := by
    rw [← hrow.scan_eq, List.flatMap_def, List.flatMap_def, oriented_flatten, ← oriented_map,
      ← oriented_map, List.map_map, List.map_map, List.map_map]
    rfl
  have hlt : (scan dayOfSecond home filter txs).length < 2 ^ 64 := hrow.length_scan_lt
  obtain ⟨last, hlast, htaken, hmatching⟩ :=
    foldlM_walkOn (fun part => oriented descending (scan dayOfSecond home filter part)) hlisting
      ⟨skip, size, [], 0⟩ hsize (Nat.two_pow_pos 64)
  rw [hparts] at htaken hmatching
  rw [listing, if_neg (by simp [hrow.ready]), if_neg (by omega), hrow.slots, ← oriented_map, hlast]
  change Except.ok (last.taken, last.matching) = _
  rw [htaken, hmatching, length_oriented, List.nil_append, Nat.zero_add, Nat.mod_eq_of_lt hlt]

theorem newest_eq_scan : chain.newest filter = (scan dayOfSecond home filter txs).getLast? := by
  have hnewest : ∀ volume ∈ volumes,
      volume.2.newest filter = (scan dayOfSecond home filter volume.1).getLast? := by
    intro volume hvolume
    rw [(hrow.volume volume hvolume).holds.newest_eq_scan fun hdates =>
        hrow.part_ascend (hascend hdates) hvolume, scan_home (hrow.part_home hhome hvolume)]
  rw [newest, if_neg (by simp [hrow.ready]), hrow.slots, findSome?_newest hnewest, hrow.scan_eq]

omit hhome hascend in
theorem rangeOfDays_eq_outermost (hascend : DaysAscend dayOfSecond txs)
    (fromSecond toSecond : Int64) :
    chain.rangeOfDays fromSecond toSecond =
      outermost (numbersIn dayOfSecond fromSecond toSecond txs) := by
  have hrange : ∀ volume ∈ volumes, volume.2.rangeOfDays fromSecond toSecond =
      outermost (numbersIn dayOfSecond fromSecond toSecond volume.1) :=
    fun volume hvolume =>
      Transactions.rangeOfDays_eq_outermost (hrow.volume volume hvolume).holds
        (hrow.part_ascend hascend hvolume) fromSecond toSecond
  rw [rangeOfDays, if_neg (by simp [hrow.ready]), hrow.slots]
  refine (foldl_widen hrange []).trans ?_
  rw [List.nil_append, ← numbersIn_flatten, hrow.ledger]

end Row

/-! ### Two ways to cut one ledger -/

/-- Two chains that answer every filter, every page of it and every span of days alike. -/
structure QueriesAlike (chain cut : Chain A) : Prop where
  count : ∀ filter, chain.count filter = cut.count filter
  listing : ∀ filter skip size descending,
    chain.listing filter skip size descending = cut.listing filter skip size descending
  newest : ∀ filter, chain.newest filter = cut.newest filter
  rangeOfDays : ∀ fromSecond toSecond,
    chain.rangeOfDays fromSecond toSecond = cut.rangeOfDays fromSecond toSecond

theorem listing_of_size_gt {chain : Chain A} (hready : chain.ready = true)
    {filter : TransactionsFilter} {skip size : Nat} {descending : Bool}
    (hsize : Transactions.pageMax < size) :
    chain.listing filter skip size descending = .error .invalidParam := by
  rw [listing, if_neg (by simp [hready]), if_pos hsize]

/-- A ledger of one community whose days do not go back is answered for alike however it is
cut into segments. -/
theorem Grown.queries_alike {options other : ChainOptions} {txs : List CompleteTransaction}
    {chain cut : Chain A} {community : Uuid} (hchain : Grown options txs chain)
    (hcut : Grown other txs cut) (hcommunity : ∀ tx ∈ txs, tx.txCommunityUuid = community)
    (hascend : DaysAscend dayOfSecond txs) : QueriesAlike chain cut := by
  obtain ⟨volumes, hrow⟩ := hchain.row
  obtain ⟨cutVolumes, hcutRow⟩ := hcut.row
  refine ⟨fun filter => ?_, fun filter skip size descending => ?_, fun filter => ?_,
    fun fromSecond toSecond => ?_⟩
  · rw [hrow.count_eq_scan (.inr hcommunity) fun _ => hascend,
      hcutRow.count_eq_scan (.inr hcommunity) fun _ => hascend]
  · by_cases hsize : size ≤ Transactions.pageMax
    · rw [hrow.listing_eq_scan (.inr hcommunity) (fun _ => hascend) skip hsize,
        hcutRow.listing_eq_scan (.inr hcommunity) (fun _ => hascend) skip hsize]
    · rw [listing_of_size_gt hrow.ready (Nat.lt_of_not_le hsize),
        listing_of_size_gt hcutRow.ready (Nat.lt_of_not_le hsize)]
  · rw [hrow.newest_eq_scan (.inr hcommunity) fun _ => hascend,
      hcutRow.newest_eq_scan (.inr hcommunity) fun _ => hascend]
  · rw [hrow.rangeOfDays_eq_outermost hascend, hcutRow.rangeOfDays_eq_outermost hascend]

/-- Options that ask for segments of this many numbers. -/
def segmentsOf (numbers : UInt32) : ChainOptions := ⟨numbers, 0, 0⟩

/-- Three creations on two days, the last two of one day. -/
def threeDays : List CompleteTransaction := [.bare 1 0, .bare 2 86400, .bare 3 90000]

/-- The chain they leave in segments of this many numbers. -/
def threeDaysIn (numbers : UInt32) : Chain Arnm.reference :=
  (feed threeDays (fresh (segmentsOf numbers))).2

/-- A ledger of one community whose UTC days do not go back is answered for alike however it is cut,
if the code counts the day of each of its seconds right. -/
theorem Grown.utc_queries_alike {options other : ChainOptions} {txs : List CompleteTransaction}
    {chain cut : Chain A} {community : Uuid} (hchain : Grown options txs chain)
    (hcut : Grown other txs cut) (hcommunity : ∀ tx ∈ txs, tx.txCommunityUuid = community)
    (hascend : DaysAscend utcDay txs) (hfits : ∀ tx ∈ txs, DayFits tx.confirmedAt.seconds) :
    QueriesAlike chain cut := by
  have hcoded : DaysAscend dayOfSecond txs :=
    (daysAscend_congr fun tx htx => dayOfSecond_eq (hfits tx htx)).2 hascend
  exact hchain.queries_alike hcut hcommunity hcoded

theorem Grown.utc_queries_alike_threeDays : QueriesAlike (threeDaysIn 1) (threeDaysIn 2) :=
  have hone : Grown (segmentsOf 1) threeDays (threeDaysIn 1) :=
    (grown_fresh _).fed (by decide +kernel)
  have htwo : Grown (segmentsOf 2) threeDays (threeDaysIn 2) :=
    (grown_fresh _).fed (by decide +kernel)
  Grown.utc_queries_alike hone htwo
    (by decide : ∀ tx ∈ threeDays, tx.txCommunityUuid = zeroBytes 16) (by decide) (by decide)

/-- Three creations on the first day a second can name, which the code counts as two days. -/
def earliestDay : List CompleteTransaction :=
  [.bare 1 Int64.minValue, .bare 2 (Int64.minValue + 40000), .bare 3 (Int64.minValue + 100)]

/-- The chain they leave in segments of this many numbers. -/
def earliestDayIn (numbers : UInt32) : Chain Arnm.reference :=
  (feed earliestDay (fresh (segmentsOf numbers))).2

/-- A segment for each transaction finds one of them on the day of the second, and a segment for all
three of them finds none. -/
theorem queries_not_alike_earliestDay :
    ¬∀ (options other : ChainOptions) (txs : List CompleteTransaction)
        (chain cut : Chain Arnm.reference) (community : Uuid), Grown options txs chain →
      Grown other txs cut → (∀ tx ∈ txs, tx.txCommunityUuid = community) → DaysAscend utcDay txs →
      QueriesAlike chain cut := by
  intro halike
  have hone : Grown (segmentsOf 1) earliestDay (earliestDayIn 1) :=
    (grown_fresh _).fed (by decide +kernel)
  have hfour : Grown (segmentsOf 4) earliestDay (earliestDayIn 4) :=
    (grown_fresh _).fed (by decide +kernel)
  have hsame := (halike _ _ _ _ _ (zeroBytes 16) hone hfour (by decide) (by decide)).rangeOfDays
    (Int64.minValue + 40000) 0
  revert hsame
  decide +kernel

/-! ### The last balance of a key -/

/-- The filter that asks for the transactions listing a balance of a key. -/
def balanceOf (key : PublicKey) : TransactionsFilter :=
  { TransactionsFilter.init with publicKey := key, role := .balance }

theorem scan_balanceOf (day : Int64 → Int) (home : Uuid) (key : PublicKey)
    (txs : List CompleteTransaction) :
    scan day home (balanceOf key) txs = balanceNumbers key txs := by
  rw [scan, balanceNumbers]
  congr 1
  apply List.filter_congr
  intro tx _
  rw [decide_eq_decide, CompleteTransaction.Matches]
  have hrange : CompleteTransaction.InRange (balanceOf key) tx :=
    ⟨fun h => absurd rfl h, fun h => absurd rfl h⟩
  have hspan :
      CompleteTransaction.InSpan day (balanceOf key).fromSeconds (balanceOf key).toSeconds tx :=
    ⟨fun h => absurd rfl h, fun h => absurd rfl h⟩
  exact ⟨fun h => h.1, fun h => ⟨h, .inl rfl, trivial, hrange, hspan⟩⟩

/-- Of rising numbers the last one is the largest. -/
theorem getLast?_eq_max? {numbers : List Nat} (hascend : numbers.Pairwise (· < ·)) :
    numbers.getLast? = numbers.max? := by
  rcases List.eq_nil_or_concat' numbers with rfl | ⟨front, last, rfl⟩
  · rfl
  · obtain ⟨-, -, hlast⟩ := List.pairwise_append.1 hascend
    rw [List.getLast?_concat,
      Addresses.max?_concat fun other hother => Nat.le_of_lt (hlast other hother last (by simp))]

/-- What the register keeps as the last balance of a key is the newest transaction the
segments find for it. -/
theorem Grown.lastBalance_eq_newest {options : ChainOptions} {txs : List CompleteTransaction}
    {chain : Chain A} (hgrown : Grown options txs chain) {key : PublicKey}
    (hkey : key ≠ zeroBytes 32) : chain.addressLastBalance key = chain.newest (balanceOf key) := by
  obtain ⟨volumes, hrow⟩ := hgrown.row
  have hascend := hrow.ascending
  have hnumbers : (balanceNumbers key txs).Pairwise (· < ·) :=
    List.pairwise_map.2 (hascend.sublist List.filter_sublist)
  rw [hrow.newest_eq_scan (.inl rfl : _ ∨ ∀ tx ∈ txs, tx.txCommunityUuid = zeroBytes 16)
      (by rintro (h | h) <;> exact absurd rfl h), scan_balanceOf, getLast?_eq_max? hnumbers]
  exact hrow.registered.lastBalance_eq_max hascend (fun tx htx => (hrow.nr_mem htx).1) hkey

/-- A creation that lists a balance of a key. -/
def paid : CompleteTransaction :=
  { CompleteTransaction.bare 1 0 with accountBalances := [⟨Vector.replicate 32 7, 100, zeroBytes 16⟩] }

/-- The chain of this one. -/
def paidChain : Chain Arnm.reference := (feed [paid] (fresh (segmentsOf 1))).2

theorem Grown.lastBalance_eq_newest_paid :
    paidChain.addressLastBalance (Vector.replicate 32 7) =
      paidChain.newest (balanceOf (Vector.replicate 32 7)) :=
  have hgrown : Grown (segmentsOf 1) [paid] paidChain := (grown_fresh _).fed (by decide +kernel)
  Grown.lastBalance_eq_newest hgrown (by decide)

end Chain

end GradidoBlockchain
