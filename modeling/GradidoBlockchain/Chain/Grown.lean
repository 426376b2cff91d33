import GradidoBlockchain.Chain.Steps

/-!
# What a row of segments holds

The segments of a chain, end to end, have been filled with its transactions. Numbers have no gap, so
the next one falls in the last segment or begins a new one, and the segments before the last are
never written again.
-/

namespace GradidoBlockchain

open Fallible

variable {A : Arnm}

namespace Chain

/-- A chain prepared with these options and given the transactions one after the other,
whatever room there was. -/
inductive Grown (options : ChainOptions) : List CompleteTransaction → Chain A → Prop
  | init {start chain : Chain A} {room rest : Room} :
      init options start room = (.ok (), chain, rest) → Grown options [] chain
  | add {txs : List CompleteTransaction} {tx : CompleteTransaction} {chain left : Chain A}
      {room rest : Room} : Grown options txs chain → add tx chain room = (.ok (), left, rest) →
      Grown options (txs ++ [tx]) left

theorem grown_fresh (options : ChainOptions) : Grown options [] (fresh options : Chain A) :=
  .init (init_nil options .zero)

/-- The results of a stream of transactions given to a chain, every request for room granted, and
the chain they leave. -/
def feed : List CompleteTransaction → Chain A → List (Except ArnmResult Unit) × Chain A
  | [], chain => ([], chain)
  | tx :: stream, chain =>
      let (result, left, _) := add tx chain []
      let (results, last) := feed stream left
      (result :: results, last)

theorem feed_cons (tx : CompleteTransaction) (stream : List CompleteTransaction) (chain : Chain A) :
    feed (tx :: stream) chain = ((add tx chain []).1 :: (feed stream (add tx chain []).2.1).1,
      (feed stream (add tx chain []).2.1).2) := rfl

/-- A stream that is taken grows the chain by all of it. -/
theorem Grown.fed {options : ChainOptions} {txs : List CompleteTransaction} {chain : Chain A}
    (hgrown : Grown options txs chain) {stream : List CompleteTransaction}
    (hresults : (feed stream chain).1 = stream.map fun _ => .ok ()) :
    Grown options (txs ++ stream) (feed stream chain).2 := by
  induction stream generalizing txs chain with
  | nil =>
      rw [List.append_nil]
      exact hgrown
  | cons tx stream ih =>
      obtain ⟨hresult, hresults⟩ := List.cons.inj hresults
      have hleft : Grown options (txs ++ [tx]) (Chain.add tx chain []).2.1 :=
        .add hgrown
          (Prod.ext hresult rfl : Chain.add tx chain [] =
            (.ok (), (Chain.add tx chain []).2.1, (Chain.add tx chain []).2.2))
      have hlast := ih hleft hresults
      rwa [List.append_assoc] at hlast

/-- A part of the ledger and the segment filled with it. -/
def Volume (volume : List CompleteTransaction × Transactions A) : Prop :=
  volume.1 ≠ [] ∧
    ∃ base, Transactions.Filled base volume.1 volume.2 ∧ ∀ tx ∈ volume.1, tx.nr - base < uint32Max

/-- The last segment is that of the number before the next one. -/
structure LastSegment (chain : Chain A) (front : Nat) (segment : Transactions A) : Prop where
  base : segment.baseTxNr = (chain.firstSegment + front) * chain.segmentTransactions
  max : segment.maxTxNr = chain.maxTxNr
  place : chain.segmentOf chain.maxTxNr = chain.firstSegment + front

/-- The row of a chain: its ledger cut into parts, each in a segment of its own. -/
structure Row (options : ChainOptions) (txs : List CompleteTransaction)
    (volumes : List (List CompleteTransaction × Transactions A)) (chain : Chain A) : Prop where
  ready : chain.ready = true
  size : chain.segmentTransactions = options.size
  registered : Addresses.Registered txs chain.addresses
  count : chain.transactionCount = txs.length
  numbers : txs.map CompleteTransaction.nr = List.range' chain.minTxNr txs.length
  positive : 1 ≤ chain.minTxNr ∨ txs = []
  max : txs ≠ [] → chain.maxTxNr + 1 = chain.minTxNr + txs.length
  slots : chain.segments.slots = volumes.map Prod.snd
  ledger : (volumes.map Prod.fst).flatten = txs
  volume : ∀ volume ∈ volumes, Volume volume
  last : ∀ front volume, volumes = front ++ [volume] → LastSegment chain front.length volume.2

/-- Both are empty or none is. -/
theorem Row.volumes_nil {options : ChainOptions} {txs : List CompleteTransaction}
    {volumes : List (List CompleteTransaction × Transactions A)} {chain : Chain A}
    (hrow : Row options txs volumes chain) : volumes = [] ↔ txs = [] := by
  rw [← hrow.ledger, List.flatten_eq_nil_iff]
  constructor
  · rintro rfl
    simp
  · intro hall
    rw [List.eq_nil_iff_forall_not_mem]
    intro volume hvolume
    exact (hrow.volume volume hvolume).1 (hall _ (List.mem_map_of_mem hvolume))

theorem Row.nr_mem {options : ChainOptions} {txs : List CompleteTransaction}
    {volumes : List (List CompleteTransaction × Transactions A)} {chain : Chain A}
    (hrow : Row options txs volumes chain) {tx : CompleteTransaction} (htx : tx ∈ txs) :
    1 ≤ tx.nr ∧ tx.nr ≤ chain.maxTxNr := by
  have hmem : tx.nr ∈ txs.map CompleteTransaction.nr := List.mem_map_of_mem htx
  have hmax := hrow.max (List.ne_nil_of_mem htx)
  have hpositive := hrow.positive.resolve_right (List.ne_nil_of_mem htx)
  rw [hrow.numbers, List.mem_range'_1] at hmem
  omega

theorem Row.ascending {options : ChainOptions} {txs : List CompleteTransaction}
    {volumes : List (List CompleteTransaction × Transactions A)} {chain : Chain A}
    (hrow : Row options txs volumes chain) : Ascending txs := by
  have hsorted : (txs.map CompleteTransaction.nr).Pairwise (· < ·) := by
    rw [hrow.numbers]
    exact List.pairwise_lt_range'
  exact List.pairwise_map.1 hsorted

/-- Where the next transaction goes: a last segment it may be added to, opened for it
or there already. -/
structure Place (tx : CompleteTransaction) (txs : List CompleteTransaction) (chain : Chain A)
    (position : Nat) (front : List (List CompleteTransaction × Transactions A))
    (part : List CompleteTransaction) (segment : Transactions A) : Prop where
  slots : chain.segments.slots = front.map Prod.snd ++ [segment]
  position : position = front.length
  volume : ∀ volume ∈ front, Volume volume
  ledger : (front.map Prod.fst).flatten ++ part = txs
  filled : Transactions.Filled (chain.segmentOf tx.nr * chain.segmentTransactions) part segment
  inside : ∀ other ∈ part, other.nr - chain.segmentOf tx.nr * chain.segmentTransactions < uint32Max
  fresh : segment.transactionCount ≠ 0 → segment.maxTxNr ≠ tx.nr

section Step

variable {options : ChainOptions} {txs : List CompleteTransaction} {tx : CompleteTransaction}
  {volumes : List (List CompleteTransaction × Transactions A)} {chain : Chain A}

theorem Row.max_lt (hrow : Row options txs volumes chain)
    (hne : txs ≠ []) : chain.maxTxNr < 2 ^ 64 := by
  have hmax := hrow.max hne
  have hlength := List.length_pos_of_ne_nil hne
  have hmem : chain.maxTxNr ∈ txs.map CompleteTransaction.nr := by
    rw [hrow.numbers, List.mem_range'_1]
    omega
  obtain ⟨last, -, hnr⟩ := List.mem_map.1 hmem
  exact hnr ▸ last.nr_lt

/-- Once there are transactions, the number of the next one is one more. -/
theorem Row.next (hrow : Row options txs volumes chain) (haccepts : accepts tx chain = .ok ())
    (hne : txs ≠ []) : tx.nr = chain.maxTxNr + 1 := by
  obtain ⟨-, hnr, hnext⟩ := accepts_ok haccepts
  have hcount : chain.transactionCount ≠ 0 := by
    rw [hrow.count]
    simpa using hne
  have hlt := hrow.max_lt hne
  have hnr' := hnext hcount
  by_cases hwrap : chain.maxTxNr + 1 < 2 ^ 64
  · rw [hnr', Nat.mod_eq_of_lt hwrap]
  · rw [show chain.maxTxNr + 1 = 2 ^ 64 by omega, Nat.mod_self] at hnr'
    exact absurd hnr' hnr

theorem pinFirst_of_count (hcount : chain.transactionCount ≠ 0) : pinFirst tx chain = chain := by
  rw [pinFirst, if_neg fun h => hcount h.1]

/-- A segment just opened is empty, and its first number is not above that of the transaction
it was opened for. -/
theorem place_opened {opened : Chain A} (hvolumes : ∀ volume ∈ volumes, Volume volume)
    (hledger : (volumes.map Prod.fst).flatten = txs)
    (hslots : opened.segments.slots =
      volumes.map Prod.snd ++ [.fresh (opened.segmentOf tx.nr * opened.segmentTransactions)]) :
    Place tx txs opened volumes.length volumes []
      (.fresh (opened.segmentOf tx.nr * opened.segmentTransactions)) where
  slots := hslots
  position := rfl
  volume := hvolumes
  ledger := by rw [List.append_nil, hledger]
  filled := Transactions.filled_fresh _
  inside := nofun
  fresh := fun hcount => absurd rfl hcount

theorem Row.place {opened : Chain A} {position : Nat} {room rest : Room}
    (hrow : Row options txs volumes chain) (haccepts : accepts tx chain = .ok ())
    (hposition : positionOf tx (pinFirst tx chain) = .ok position)
    (hopen : openAt tx position (pinFirst tx chain) room = (.ok (), opened, rest)) :
    opened = (pinFirst tx chain).putSegments opened.segments ∧
      ∃ front part segment, Place tx txs opened position front part segment := by
  obtain ⟨hplace, hle⟩ := positionOf_ok hposition
  have hsize : chain.segments.size = volumes.length := by
    rw [Bvec.size, hrow.slots, List.length_map]
  rcases openAt_ok hopen with ⟨hne, rfl⟩ | ⟨heq, hroom, rfl⟩
  · refine ⟨rfl, ?_⟩
    have hlt : position < volumes.length := by
      have hsame : (pinFirst tx chain).segments.size = volumes.length := hsize
      omega
    have hvolumes : volumes ≠ [] := List.ne_nil_of_length_pos (by omega)
    have hledger : txs ≠ [] := fun h => hvolumes (hrow.volumes_nil.2 h)
    have hcount : chain.transactionCount ≠ 0 := by
      rw [hrow.count]
      simpa using hledger
    rw [pinFirst_of_count hcount] at hplace ⊢
    obtain ⟨front, last, rfl⟩ := (List.eq_nil_or_concat' volumes).resolve_left hvolumes
    have hlast := hrow.last front last rfl
    have hnext := hrow.next haccepts hledger
    -- The next number is in the segment of the last one or in the one after it, and that one is not
    -- there yet.
    have hmono : chain.segmentOf chain.maxTxNr ≤ chain.segmentOf tx.nr :=
      Nat.div_le_div_right (by omega)
    rw [hlast.place, hplace] at hmono
    rw [List.length_append, List.length_singleton] at hlt
    have hfront : position = front.length := by omega
    obtain ⟨-, base, hfilled, hinside⟩ := hrow.volume last (by simp)
    have hbase : base = chain.segmentOf tx.nr * chain.segmentTransactions := by
      rw [← hfilled.base.1, hlast.base, hplace, hfront]
    rw [hbase] at hfilled hinside
    refine ⟨front, last.1, last.2, ?_, hfront,
      fun volume hvolume => hrow.volume volume (by simp [hvolume]), ?_, hfilled, hinside,
      fun _ => ?_⟩
    · rw [hrow.slots, List.map_append]
      rfl
    · rw [← hrow.ledger]
      simp
    · rw [hlast.max]
      omega
  · refine ⟨rfl, volumes, [], .fresh (chain.segmentOf tx.nr * chain.segmentTransactions), ?_⟩
    have hslots : ((pinFirst tx chain).segments.append
          [.fresh (chain.segmentOf tx.nr * chain.segmentTransactions)]).slots =
        volumes.map Prod.snd ++ [.fresh (chain.segmentOf tx.nr * chain.segmentTransactions)] := by
      rw [Bvec.concat_slots hroom]
      exact congrArg (· ++ _) hrow.slots
    rw [show position = volumes.length from heq.trans hsize]
    exact place_opened hrow.volume hrow.ledger hslots

/-- A transaction of a segment is less than 2^32 - 1 above the segment's base. -/
theorem Row.offset_lt (hrow : Row options txs volumes chain) :
    tx.nr - chain.segmentOf tx.nr * chain.segmentTransactions < uint32Max := by
  have hpos := size_pos options
  have hle := size_le options
  have hmod := Nat.mod_lt tx.nr hpos
  have hdiv := Nat.div_add_mod' tx.nr options.size
  rw [segmentOf, hrow.size]
  omega

/-- The number of the next transaction, counted from the first one of the ledger with it. -/
theorem Row.nr_eq (hrow : Row options txs volumes chain) (haccepts : accepts tx chain = .ok ()) :
    tx.nr = (if chain.transactionCount = 0 then tx.nr else chain.minTxNr) + txs.length := by
  by_cases hne : txs = []
  · rw [if_pos (by rw [hrow.count, hne]; rfl), hne]
    rfl
  · rw [if_neg (by rw [hrow.count]; simpa using hne), hrow.next haccepts hne, hrow.max hne]

theorem Row.length_lt (hrow : Row options txs volumes chain)
    (haccepts : accepts tx chain = .ok ()) : txs.length + 1 < 2 ^ 64 := by
  by_cases hne : txs = []
  · rw [hne]
    decide
  · have hnr := hrow.next haccepts hne
    have hmax := hrow.max hne
    have hpositive := hrow.positive.resolve_right hne
    have hlt := tx.nr_lt
    omega

/-- What the row has become when a transaction has been put where it belongs. -/
theorem Place.add {opened : Chain A} {position : Nat}
    {front : List (List CompleteTransaction × Transactions A)} {part : List CompleteTransaction}
    {segment filled : Transactions A} {room rest : Room}
    (hplace : Place tx txs opened position front part segment)
    (hinside : tx.nr - opened.segmentOf tx.nr * opened.segmentTransactions < uint32Max)
    (hadd : Transactions.add tx segment room = (.ok (), filled, rest)) :
    (putSegment position filled opened).segments.slots =
        (front ++ [(part ++ [tx], filled)]).map Prod.snd ∧
      ((front ++ [(part ++ [tx], filled)]).map Prod.fst).flatten = txs ++ [tx] ∧
      (∀ volume ∈ front ++ [(part ++ [tx], filled)], Volume volume) ∧
      filled.baseTxNr = opened.segmentOf tx.nr * opened.segmentTransactions ∧
      filled.maxTxNr = tx.nr := by
  obtain ⟨hbase, haddresses, hcoins⟩ := hplace.filled.base
  have hadded := Transactions.add_ok hadd haddresses hcoins
  refine ⟨?_, ?_, fun volume hvolume => ?_, hadded.base.trans hbase, hadded.max⟩
  · rw [hplace.position, ← List.length_map Prod.snd, List.map_append]
    exact Bvec.modify_last hplace.slots _
  · rw [← hplace.ledger]
    simp
  · rcases List.mem_append.1 hvolume with hmem | hmem
    · exact hplace.volume volume hmem
    · rw [List.mem_singleton.1 hmem]
      refine ⟨by simp, _, hplace.filled.add hadd, fun other hother => ?_⟩
      rcases List.mem_append.1 hother with hmem | hmem
      · exact hplace.inside other hmem
      · rw [List.mem_singleton.1 hmem]
        exact hinside

theorem Place.segmentAt_eq {opened : Chain A} {position : Nat}
    {front : List (List CompleteTransaction × Transactions A)} {part : List CompleteTransaction}
    {segment : Transactions A} (hplace : Place tx txs opened position front part segment) :
    opened.segmentAt position = segment := by
  rw [hplace.position, ← List.length_map Prod.snd]
  exact Chain.segmentAt_eq (Bvec.get?_last hplace.slots)

theorem Place.not_inSegment {opened : Chain A} {position : Nat}
    {front : List (List CompleteTransaction × Transactions A)} {part : List CompleteTransaction}
    {segment : Transactions A} (hplace : Place tx txs opened position front part segment) :
    inSegment tx position opened = false := by
  rw [inSegment, hplace.segmentAt_eq]
  by_cases hcount : segment.transactionCount = 0
  · simp [hcount]
  · simp [hplace.fresh hcount]

theorem Row.add {left : Chain A} {room rest : Room} (hrow : Row options txs volumes chain)
    (hrun : add tx chain room = (.ok (), left, rest)) :
    ∃ volumes, Row options (txs ++ [tx]) volumes left := by
  obtain ⟨haccepts, position, opened, _, entered, _, register, _, hposition, hopen, henter,
      hregister, rfl⟩ := add_ok hrun
  obtain ⟨hopened, front, part, segment, hplace⟩ := hrow.place haccepts hposition hopen
  obtain ⟨hready, hnr, -⟩ := accepts_ok haccepts
  rcases enter_ok henter with ⟨hin, -⟩ | ⟨-, filled, hadd, rfl⟩
  · rw [hplace.not_inSegment] at hin
    cases hin
  rw [hplace.segmentAt_eq] at hadd
  -- All but the row is as the call found it, the first segment pinned.
  have hsize : opened.segmentTransactions = chain.segmentTransactions := by rw [hopened]; rfl
  have haddresses : opened.addresses = chain.addresses := by rw [hopened]; rfl
  have hfirst : opened.firstSegment = (pinFirst tx chain).firstSegment := by rw [hopened]; rfl
  have hcount : opened.transactionCount = chain.transactionCount := by rw [hopened]; rfl
  have hmin : opened.minTxNr = chain.minTxNr := by rw [hopened]; rfl
  have hsegmentOf : opened.segmentOf tx.nr = opened.firstSegment + front.length := by
    rw [hfirst, ← hplace.position, segmentOf, hsize]
    exact (positionOf_ok hposition).1
  have hinside : tx.nr - opened.segmentOf tx.nr * opened.segmentTransactions < uint32Max := by
    rw [segmentOf, hsize]
    exact hrow.offset_lt
  obtain ⟨hslots, hledger, hvolume, hbase, hmax⟩ := hplace.add hinside hadd
  have hnumber := hrow.nr_eq haccepts
  have hlength : (txs ++ [tx]).length = txs.length + 1 := by simp
  have hleftMin : (commit tx ((putSegment position filled opened).putAddresses register)).minTxNr =
      if chain.transactionCount = 0 then tx.nr else chain.minTxNr := by
    rw [← hcount, ← hmin]
    rfl
  refine ⟨front ++ [(part ++ [tx], filled)], ?_, hsize.trans hrow.size, ?_, ?_, ?_, ?_, ?_, hslots,
    hledger, hvolume, ?_⟩
  · change opened.ready = true
    rw [hopened]
    exact hready
  · have hregister : Addresses.add tx chain.addresses _ = (.ok (), register, _) :=
      haddresses ▸ hregister
    exact hrow.registered.add hregister
  · change (opened.transactionCount + 1) % 2 ^ 64 = _
    rw [hcount, hrow.count, hlength, Nat.mod_eq_of_lt (hrow.length_lt haccepts)]
  · rw [hleftMin, hlength, List.range'_concat, List.map_append, Nat.one_mul, ← hnumber]
    congr 1
    by_cases hne : txs = []
    · rw [hne]
      rfl
    · rw [if_neg (by rw [hrow.count]; simpa using hne)]
      exact hrow.numbers
  · left
    rw [hleftMin]
    split
    · omega
    · refine hrow.positive.resolve_right fun hne => ‹¬_› ?_
      rw [hrow.count, hne]
      rfl
  · intro _
    rw [hleftMin, hlength, ← Nat.add_assoc, ← hnumber]
    rfl
  · intro others volume hvolumes
    obtain ⟨rfl, hlast⟩ := List.append_inj' hvolumes rfl
    cases hlast
    exact ⟨hbase.trans (by rw [hsegmentOf]; rfl), hmax, hsegmentOf⟩

end Step

theorem Grown.row {options : ChainOptions} {txs : List CompleteTransaction} {chain : Chain A}
    (hgrown : Grown options txs chain) : ∃ volumes, Row options txs volumes chain := by
  induction hgrown with
  | init hrun =>
      rw [init_ok hrun]
      exact ⟨[], rfl, rfl, Addresses.registered_fresh, rfl, rfl, .inr rfl, fun h => absurd rfl h,
        rfl, rfl, nofun, by simp⟩
  | add _ hrun ih =>
      obtain ⟨volumes, hrow⟩ := ih
      exact hrow.add hrun

end Chain

end GradidoBlockchain
