import GradidoBlockchain.Chain.Outcome
import GradidoBlockchain.Register.Reset

/-!
# What holds of every chain there can be

A chain may have been through adds that were taken, refused or interrupted, and been reset, in any
order. The numbers its segments count have no gap and lie in the segment, also where the register
has not followed, and the register counts what the chain counts.
-/

namespace GradidoBlockchain

open Fallible Fallible.Call

variable {A : Arnm}

namespace Chain

/-- `grdb_chain_reset`. -/
def reset (C : Clearing A) (chain : Chain A) : Chain A :=
  if ¬chain.ready then chain
  else { chain with
    segments := .empty
    addresses := chain.addresses.reset C
    firstSegment := 0
    minTxNr := 0
    maxTxNr := 0
    transactionCount := 0 }

/-- Prepared, then given any transactions, with whatever room and whatever result, and reset
any number of times. -/
inductive Reachable (options : ChainOptions) : Chain A → Prop
  | init {start chain : Chain A} {room rest : Room} :
      init options start room = (.ok (), chain, rest) → Reachable options chain
  | add {chain : Chain A} (tx : CompleteTransaction) (room : Room) :
      Reachable options chain → Reachable options (add tx chain room).2.1
  | reset {chain : Chain A} (C : Clearing A) : Reachable options chain →
      Reachable options (chain.reset C)

theorem Opens.same {opened : Chain A} (hopens : Opens tx position chain opened) :
    opened = chain.putSegments opened.segments := by
  cases hopens <;> rfl

theorem Enters.same {entered : Chain A} (henters : Enters tx position chain entered) :
    entered = chain.putSegments entered.segments := by
  cases henters <;> rfl

/-- What no call on a chain changes. -/
structure Prepared (options : ChainOptions) (chain : Chain A) : Prop where
  ready : chain.ready = true
  register : chain.addresses.ready = true
  size : chain.segmentTransactions = options.size
  addresses : chain.expectedAddresses = options.expectedAddresses
  days : chain.expectedDays = options.expectedDays

theorem Prepared.add {options : ChainOptions} {chain : Chain A} (hprepared : Prepared options chain)
    (tx : CompleteTransaction) (room : Room) : Prepared options (Chain.add tx chain room).2.1 := by
  obtain ⟨hready, hregister, hsize, haddresses, hdays⟩ := hprepared
  -- Every end of an add changes the row, the register and the counts, and the register stays ready.
  have hframe : ∀ {left : Chain A}, left.addresses.ready = true →
      left = { chain with
        segments :=
          left.segments, addresses :=
            left.addresses, firstSegment := left.firstSegment, minTxNr := left.minTxNr,
        maxTxNr := left.maxTxNr, transactionCount := left.transactionCount } → Prepared options left := by
    intro left hleft hsame
    rw [hsame]
    exact ⟨hready, hleft, hsize, haddresses, hdays⟩
  have hadded : ∀ {register before : Addresses A} {room rest : Room} {result : Except ArnmResult Unit},
      before.ready = true → Addresses.add tx before room = (result, register, rest) →
          register.ready = true := by
    intro register before room rest result hbefore hrun
    have hafter : (Addresses.add tx before room).2.1.ready = true :=
      Addresses.add_ready room hbefore
    rwa [hrun] at hafter
  have houtcome : Outcome tx chain (Chain.add tx chain room).1 (Chain.add tx chain room).2.1 :=
    add_outcome rfl
  generalize (Chain.add tx chain room).1 = result, (Chain.add tx chain room).2.1 = left at houtcome
  cases houtcome with
  | notAccepted => exact ⟨hready, hregister, hsize, haddresses, hdays⟩
  | noPlace => exact hframe hregister rfl
  | notOpened => exact hframe hregister rfl
  | notEntered _ _ hopens =>
      rw [hopens.same]
      exact hframe hregister rfl
  | notRegistered _ _ hopens henters hadd =>
      rw [henters.same, hopens.same] at hadd ⊢
      exact hframe (hadded hregister hadd) rfl
  | added _ _ hopens henters hadd =>
      rw [henters.same, hopens.same] at hadd ⊢
      exact hframe (hadded hregister hadd) rfl

theorem Prepared.reset {options : ChainOptions} {chain : Chain A} (C : Clearing A)
    (hprepared : Prepared options chain) : Prepared options (chain.reset C) := by
  obtain ⟨hready, hregister, hsize, haddresses, hdays⟩ := hprepared
  rw [Chain.reset, if_neg (by simp [hready])]
  exact ⟨hready, (Addresses.reset_ready C _).trans hregister, hsize, haddresses, hdays⟩

theorem Reachable.prepared {options : ChainOptions} {chain : Chain A}
    (hreachable : Reachable options chain) : Prepared options chain := by
  induction hreachable with
  | init hrun =>
      rw [init_ok hrun]
      exact ⟨rfl, rfl, rfl, rfl, rfl⟩
  | add tx room _ ih => exact ih.add tx room
  | reset C _ ih => exact ih.reset C

/-- The numbers a segment counts are consecutive and belong to its place in the row. -/
structure Counted (chain : Chain A) (position : Nat) (segment : Transactions A) : Prop where
  length : segment.transactionCount + segment.minTxNr = segment.maxTxNr + 1
  low : chain.segmentOf segment.minTxNr = chain.firstSegment + position
  high : chain.segmentOf segment.maxTxNr = chain.firstSegment + position
  bounded : segment.maxTxNr < 2 ^ 64

structure SoundRow (options : ChainOptions) (chain : Chain A) : Prop where
  size : chain.segmentTransactions = options.size
  counted : ∀ position segment, chain.segments.get? position = some segment →
    segment.transactionCount ≠ 0 → Counted chain position segment

structure Sound (options : ChainOptions) (chain : Chain A) : Prop where
  row : SoundRow options chain
  empty : chain.transactionCount = 0 → chain.addresses.transactionCount = 0
  last : chain.transactionCount ≠ 0 → chain.addresses.maxTxNr = chain.maxTxNr ∧
    chain.transactionCount ≤ chain.maxTxNr ∧ chain.maxTxNr < 2 ^ 64
  registerReady : chain.addresses.ready = true

/-! ### The row -/

section Row

variable {options : ChainOptions} {chain : Chain A} {tx : CompleteTransaction} {position : Nat}

theorem pinFirst_of_size (hsize : chain.segments.size ≠ 0) : pinFirst tx chain = chain := by
  rw [pinFirst, if_neg fun h => hsize h.2]

theorem SoundRow.pinFirst (hrow : SoundRow options chain) :
    SoundRow options (pinFirst tx chain) := by
  by_cases hsize : chain.segments.size = 0
  · refine ⟨hrow.size, fun place segment hget => ?_⟩
    have hlt : place < chain.segments.size := Bvec.get?_eq_some_lt hget
    omega
  · rw [pinFirst_of_size hsize]
    exact hrow

theorem SoundRow.opens {opened : Chain A} (hrow : SoundRow options chain)
    (hopens : Opens tx position chain opened) : SoundRow options opened := by
  cases hopens with
  | there => exact hrow
  | opened heq hroom =>
      refine ⟨hrow.size, fun place segment hget hcount => ?_⟩
      change (chain.segments.append [chain.blankSegment tx.nr]).get? place = some segment at hget
      by_cases hlt : place < chain.segments.size
      · rw [Bvec.get?_append_left hlt] at hget
        have hcounted := hrow.counted place segment hget hcount
        exact ⟨hcounted.length, hcounted.low, hcounted.high, hcounted.bounded⟩
      · have hbound := Bvec.get?_eq_some_lt hget
        rw [Bvec.size_concat hroom] at hbound
        have hlast : (chain.segments.append [chain.blankSegment tx.nr]).get? chain.segments.size =
            some (chain.blankSegment tx.nr) := Bvec.get?_last (Bvec.concat_slots hroom)
        rw [show place = chain.segments.size by omega, hlast] at hget
        cases hget
        exact absurd rfl hcount

theorem SoundRow.put {segment : Transactions A} (hrow : SoundRow options chain)
    (hcounted : segment.transactionCount ≠ 0 → chain.segments.get? position ≠ none →
      Counted chain position segment) : SoundRow options (putSegment position segment chain) := by
  refine ⟨hrow.size, fun place other hget hcount => ?_⟩
  change (chain.segments.modify position fun _ => segment).get? place = some other at hget
  rw [Bvec.get?_modify] at hget
  split at hget
  · rename_i heq
    subst heq
    obtain ⟨before, hbefore, rfl⟩ := Option.map_eq_some_iff.1 hget
    have hsegment := hcounted hcount (by rw [hbefore]; nofun)
    exact ⟨hsegment.length, hsegment.low, hsegment.high, hsegment.bounded⟩
  · have hother := hrow.counted place other hget hcount
    exact ⟨hother.length, hother.low, hother.high, hother.bounded⟩

theorem SoundRow.counted_at (hrow : SoundRow options chain)
    (hthere : chain.segments.get? position ≠ none)
    (hcount : (chain.segmentAt position).transactionCount ≠ 0) :
    Counted chain position (chain.segmentAt position) := by
  obtain ⟨segment, hget⟩ := Option.ne_none_iff_exists'.1 hthere
  rw [segmentAt_eq hget] at hcount ⊢
  exact hrow.counted position segment hget hcount

/-- A segment that could not take a transaction counts what it counted. -/
theorem SoundRow.unmoved {segment : Transactions A} (hrow : SoundRow options chain)
    (hunmoved : Transactions.Unmoved (chain.segmentAt position) segment) :
    SoundRow options (putSegment position segment chain) := by
  refine hrow.put fun hcount hthere => ?_
  rw [hunmoved.count] at hcount
  have hcounted := hrow.counted_at hthere hcount
  refine ⟨?_, ?_, ?_, ?_⟩
  · rw [hunmoved.count, hunmoved.min hcount, hunmoved.max]
    exact hcounted.length
  · rw [hunmoved.min hcount]
    exact hcounted.low
  · rw [hunmoved.max]
    exact hcounted.high
  · rw [hunmoved.max]
    exact hcounted.bounded

/-- Two numbers of one segment are less than a segment apart. -/
theorem sub_lt_size {low high : Nat} (hsize : chain.segmentTransactions = options.size)
    (hsame : chain.segmentOf low = chain.segmentOf high) : high - low < uint32Max := by
  rw [segmentOf, segmentOf, hsize] at hsame
  have hpos := size_pos options
  have hle := size_le options
  have hhigh := Nat.mod_lt high hpos
  have hhighSum := Nat.div_add_mod' high options.size
  have hlowSum := Nat.div_add_mod' low options.size
  rw [hsame] at hlowSum
  omega

/-- The number a segment takes next is one more than its last one. -/
theorem next_of_moved {segment : Transactions A} (hnr : tx.nr ≠ 0)
    (hbounded : (chain.segmentAt position).maxTxNr < 2 ^ 64)
    (hcount : (chain.segmentAt position).transactionCount ≠ 0)
    (hmoved : Transactions.Moved tx (chain.segmentAt position) segment) :
    tx.nr = (chain.segmentAt position).maxTxNr + 1 := by
  obtain ⟨offset, hoffset⟩ := hmoved.placed
  obtain ⟨-, -, hnext, -⟩ := Transactions.offsetOf_ok hoffset
  have hmod := hnext hcount
  by_cases hwrap : (chain.segmentAt position).maxTxNr + 1 < 2 ^ 64
  · rwa [Nat.mod_eq_of_lt hwrap] at hmod
  · rw [show (chain.segmentAt position).maxTxNr + 1 = 2 ^ 64 by omega, Nat.mod_self] at hmod
    exact absurd hmod hnr

/-- A segment has room in its count for every number of its place. -/
theorem SoundRow.count_moved {segment : Transactions A} (hrow : SoundRow options chain)
    (hnr : tx.nr ≠ 0) (hplace : chain.segmentOf tx.nr = chain.firstSegment + position)
    (hthere : chain.segments.get? position ≠ none)
    (hmoved : Transactions.Moved tx (chain.segmentAt position) segment) :
    segment.transactionCount = (chain.segmentAt position).transactionCount + 1 := by
  rw [hmoved.count]
  by_cases hempty : (chain.segmentAt position).transactionCount = 0
  · rw [hempty]
    rfl
  · obtain ⟨hlength, hlow, hhigh, hbounded⟩ := hrow.counted_at hthere hempty
    have hstep := next_of_moved hnr hbounded hempty hmoved
    have hapart := sub_lt_size hrow.size (hlow.trans hplace.symm)
    rw [uint32Max] at hapart
    exact Nat.mod_eq_of_lt (by omega)

/-- What a segment counts when it has taken one more transaction of its place. -/
theorem SoundRow.counted_moved {segment : Transactions A} (hrow : SoundRow options chain)
    (hnr : tx.nr ≠ 0) (hplace : chain.segmentOf tx.nr = chain.firstSegment + position)
    (hthere : chain.segments.get? position ≠ none)
    (hmoved : Transactions.Moved tx (chain.segmentAt position) segment) :
    segment.transactionCount ≠ 0 ∧ Counted chain position segment := by
  have hcount := hrow.count_moved hnr hplace hthere hmoved
  have hmin := hmoved.min
  have hlt := tx.nr_lt
  refine ⟨by omega, ?_⟩
  by_cases hempty : (chain.segmentAt position).transactionCount = 0
  · rw [if_pos hempty] at hmin
    refine ⟨?_, ?_, ?_, ?_⟩
    · rw [hmin, hmoved.max, hcount, hempty, Nat.zero_add, Nat.add_comm]
    · rw [hmin, hplace]
    · rw [hmoved.max, hplace]
    · rwa [hmoved.max]
  · rw [if_neg hempty] at hmin
    obtain ⟨hlength, hlow, -, hbounded⟩ := hrow.counted_at hthere hempty
    have hstep := next_of_moved hnr hbounded hempty hmoved
    refine ⟨?_, ?_, ?_, ?_⟩
    · rw [hcount, hmin, hmoved.max]
      omega
    · rw [hmin, hlow]
    · rw [hmoved.max, hplace]
    · rwa [hmoved.max]

theorem SoundRow.enters {entered : Chain A} (hrow : SoundRow options chain) (hnr : tx.nr ≠ 0)
    (hplace : chain.segmentOf tx.nr = chain.firstSegment + position)
    (henters : Enters tx position chain entered) : SoundRow options entered := by
  cases henters with
  | there => exact hrow
  | entered _ hadd =>
      exact hrow.put fun _ hthere =>
        (hrow.counted_moved hnr hplace hthere (Transactions.add_ok_moved hadd)).2

end Row

/-! ### Every chain -/

theorem sound_fresh (options : ChainOptions) : Sound options (fresh options : Chain A) where
  row := ⟨rfl, nofun⟩
  empty := fun _ => rfl
  last := fun hcount => absurd rfl hcount
  registerReady := rfl

theorem Opens.place {tx : CompleteTransaction} {position : Nat} {chain opened : Chain A}
    (hopens : Opens tx position chain opened)
    (hplace : chain.segmentOf tx.nr = chain.firstSegment + position) :
    opened.segmentOf tx.nr = opened.firstSegment + position := by
  rw [hopens.same]
  exact hplace

/-- The next number, where there is one before it. -/
theorem Sound.next {options : ChainOptions} {chain : Chain A} {tx : CompleteTransaction}
    (hsound : Sound options chain) (haccepts : accepts tx chain = .ok ())
    (hcount : chain.transactionCount ≠ 0) : tx.nr = chain.maxTxNr + 1 := by
  obtain ⟨-, hnr, hnext⟩ := accepts_ok haccepts
  have hmod := hnext hcount
  have hlt := (hsound.last hcount).2.2
  by_cases hwrap : chain.maxTxNr + 1 < 2 ^ 64
  · rwa [Nat.mod_eq_of_lt hwrap] at hmod
  · rw [show chain.maxTxNr + 1 = 2 ^ 64 by omega, Nat.mod_self] at hmod
    exact absurd hmod hnr

/-- A chain counts no more transactions than there are numbers up to its last one. -/
theorem Sound.count_lt {options : ChainOptions} {chain : Chain A} {tx : CompleteTransaction}
    (hsound : Sound options chain) (haccepts : accepts tx chain = .ok ()) :
    chain.transactionCount + 1 ≤ tx.nr := by
  have hnr := (accepts_ok haccepts).2.1
  by_cases hempty : chain.transactionCount = 0
  · omega
  · have hlast := hsound.last hempty
    have hnext := hsound.next haccepts hempty
    omega

theorem Sound.count_bound {options : ChainOptions} {chain : Chain A}
    (hsound : Sound options chain) : chain.transactionCount < 2 ^ 64 := by
  by_cases hempty : chain.transactionCount = 0
  · omega
  · have hlast := hsound.last hempty
    omega

/-- A transaction that was added is counted. -/
theorem Sound.count_ok {options : ChainOptions} {chain left : Chain A} {tx : CompleteTransaction}
    (hsound : Sound options chain) (houtcome : Outcome tx chain (.ok ()) left) :
    left.transactionCount = chain.transactionCount + 1 := by
  cases houtcome with
  | @added _ _ entered _ _ _ haccepts _ hopens henters _ =>
      have hlt := tx.nr_lt
      have hle := hsound.count_lt haccepts
      have hcount : entered.transactionCount = chain.transactionCount := by
        rw [henters.same, hopens.same]
        rfl
      change (entered.transactionCount + 1) % 2 ^ 64 = _
      rw [hcount, Nat.mod_eq_of_lt (by omega)]

/-- One that was not is not. -/
theorem Outcome.count_error {chain left : Chain A} {tx : CompleteTransaction} {code : ArnmResult}
    (houtcome : Outcome tx chain (.error code) left) :
    left.transactionCount = chain.transactionCount := by
  cases houtcome with
  | notAccepted => rfl
  | noPlace => rfl
  | notOpened => rfl
  | notEntered _ _ hopens =>
      rw [hopens.same]
      rfl
  | notRegistered _ _ hopens henters =>
      rw [henters.same, hopens.same]
      rfl

theorem Outcome.ready {chain left : Chain A} {tx : CompleteTransaction}
    {result : Except ArnmResult Unit} (houtcome : Outcome tx chain result left) :
    left.ready = chain.ready := by
  cases houtcome with
  | notAccepted => rfl
  | noPlace => rfl
  | notOpened => rfl
  | notEntered _ _ hopens =>
      rw [hopens.same]
      rfl
  | notRegistered _ _ hopens henters =>
      rw [henters.same, hopens.same]
      rfl
  | added _ _ hopens henters =>
      rw [henters.same, hopens.same]
      rfl

theorem Sound.outcome {options : ChainOptions} {chain left : Chain A} {tx : CompleteTransaction}
    {result : Except ArnmResult Unit} (hsound : Sound options chain)
    (houtcome : Outcome tx chain result left) : Sound options left := by
  -- A step that writes the row and nothing else keeps the rest of the invariant.
  have hother : ∀ {other : Chain A}, SoundRow options other → other.addresses = chain.addresses →
      other.transactionCount = chain.transactionCount → other.maxTxNr = chain.maxTxNr →
      Sound options other := by
    intro other hrow haddresses hcount hmax
    refine ⟨hrow, ?_, ?_, ?_⟩ <;> rw [haddresses] <;> try rw [hcount]
    · exact hsound.empty
    · rw [hmax]
      exact hsound.last
    · exact hsound.registerReady
  cases houtcome with
  | notAccepted => exact hsound
  | noPlace => exact hother hsound.row.pinFirst rfl rfl rfl
  | notOpened => exact hother hsound.row.pinFirst rfl rfl rfl
  | notEntered _ hposition hopens _ hadd =>
      refine hother
        ((hsound.row.pinFirst.opens hopens).unmoved (Transactions.add_error_unmoved hadd)) ?_ ?_ ?_
        <;>
      · rw [hopens.same]
        rfl
  | @notRegistered position opened entered register _ _ _ haccepts hposition hopens henters hadd =>
      have hrow := (hsound.row.pinFirst.opens hopens).enters (accepts_ok haccepts).2.1
        (hopens.place (positionOf_ok hposition).1) henters
      have hentered : entered.addresses = chain.addresses := by
        rw [henters.same, hopens.same]
        rfl
      have hregister := Addresses.add_error_same hadd
      rw [hentered] at hregister
      have hcount : entered.transactionCount = chain.transactionCount := by
        rw [henters.same, hopens.same]
        rfl
      have hmax : entered.maxTxNr = chain.maxTxNr := by
        rw [henters.same, hopens.same]
        rfl
      refine ⟨⟨hrow.size, fun place segment hget hne => ?_⟩, fun hempty => ?_, fun hne => ?_, ?_⟩
      · have hcounted := hrow.counted place segment hget hne
        exact ⟨hcounted.length, hcounted.low, hcounted.high, hcounted.bounded⟩
      · change register.transactionCount = 0
        rw [hregister]
        exact hsound.empty (hcount.symm.trans hempty)
      · change register.maxTxNr = entered.maxTxNr ∧ entered.transactionCount ≤ entered.maxTxNr ∧
          entered.maxTxNr < 2 ^ 64
        change entered.transactionCount ≠ 0 at hne
        rw [hcount] at hne
        rw [hcount, hmax, hregister]
        exact hsound.last hne
      · change register.ready = true
        rw [hregister]
        exact hsound.registerReady
  | @added position opened entered register _ _ haccepts hposition hopens henters hadd =>
      have hrow := (hsound.row.pinFirst.opens hopens).enters (accepts_ok haccepts).2.1
        (hopens.place (positionOf_ok hposition).1) henters
      have hcount : entered.transactionCount = chain.transactionCount := by
        rw [henters.same, hopens.same]
        rfl
      obtain ⟨hready, hmax⟩ := Addresses.add_ok_moved hadd
      have hlt := tx.nr_lt
      have hle := hsound.count_lt haccepts
      have hnewCount := hsound.count_ok (.added haccepts hposition hopens henters hadd)
      refine ⟨⟨hrow.size, fun place segment hget hne => ?_⟩, fun hempty => ?_,
        fun _ => ⟨hmax, ?_, hlt⟩, hready⟩
      · have hcounted := hrow.counted place segment hget hne
        exact ⟨hcounted.length, hcounted.low, hcounted.high, hcounted.bounded⟩
      · rw [hnewCount] at hempty
        omega
      · rw [hnewCount]
        exact hle

theorem Reachable.ready {options : ChainOptions} {chain : Chain A}
    (hreachable : Reachable options chain) : chain.ready = true :=
  hreachable.prepared.ready

theorem Prepared.sound_reset {options : ChainOptions} {chain : Chain A} (C : Clearing A)
    (hprepared : Prepared options chain) : Sound options (chain.reset C) := by
  have hregister := (hprepared.reset C).register
  rw [Chain.reset, if_neg (by simp [hprepared.ready])] at hregister ⊢
  refine ⟨⟨hprepared.size, nofun⟩, fun _ => ?_, fun hcount => absurd rfl hcount, hregister⟩
  change (chain.addresses.reset C).transactionCount = 0
  rw [Addresses.reset, if_neg (by simp [hprepared.register])]

theorem Reachable.sound {options : ChainOptions} {chain : Chain A}
    (hreachable : Reachable options chain) : Sound options chain := by
  induction hreachable with
  | init hrun =>
      rw [init_ok hrun]
      exact sound_fresh options
  | add tx room _ ih => exact ih.outcome (add_outcome rfl)
  | reset C hbefore _ => exact hbefore.prepared.sound_reset C

end Chain

end GradidoBlockchain
