import GradidoBlockchain.Chain.Trail

/-!
# What a refused add leaves behind

An add that is refused for what the transaction is has at most opened the segment it falls in, or
put it there and then found the register against it. The first shows where nothing has been counted
yet, for the row then begins with this segment. The second always shows.
-/

namespace GradidoBlockchain

open Fallible Fallible.Call

variable {A : Arnm}

namespace Chain

/-! ### Where the segments of a row begin -/

/-- The segments of the row are ready, and each begins with the first number of its place. -/
structure Based (chain : Chain A) : Prop where
  ready : ∀ position segment, chain.segments.get? position = some segment → segment.ready = true
  base : ∀ position segment, chain.segments.get? position = some segment →
    segment.baseTxNr = (chain.firstSegment + position) * chain.segmentTransactions

section Based

variable {chain left : Chain A} {tx : CompleteTransaction} {position : Nat}

theorem Based.pinFirst (hbased : Based chain) : Based (pinFirst tx chain) := by
  by_cases hsize : chain.segments.size = 0
  · have hnone : ∀ place segment, chain.segments.get? place ≠ some segment := by
      intro place segment hget
      have hlt := Bvec.get?_eq_some_lt hget
      omega
    exact ⟨fun place segment hget => absurd hget (hnone place segment),
      fun place segment hget => absurd hget (hnone place segment)⟩
  · rw [pinFirst_of_size hsize]
    exact hbased

theorem Based.opens {opened : Chain A} (hbased : Based chain)
    (hplace : chain.segmentOf tx.nr = chain.firstSegment + position)
    (hopens : Opens tx position chain opened) : Based opened := by
  cases hopens with
  | there => exact hbased
  | opened heq hroom =>
      have hget : ∀ place segment, (chain.segments.append [chain.blankSegment tx.nr]).get? place =
            some segment →
          chain.segments.get? place = some segment ∨
            place = position ∧ segment = chain.blankSegment tx.nr := by
        intro place segment hget
        by_cases hlt : place < chain.segments.size
        · rw [Bvec.get?_append_left hlt] at hget
          exact .inl hget
        · have hbound := Bvec.get?_eq_some_lt hget
          rw [Bvec.size_concat hroom] at hbound
          have hlast : (chain.segments.append [chain.blankSegment tx.nr]).get? chain.segments.size =
              some (chain.blankSegment tx.nr) := Bvec.get?_last (Bvec.concat_slots hroom)
          rw [show place = chain.segments.size by omega, hlast] at hget
          exact .inr ⟨by omega, (Option.some.inj hget).symm⟩
      constructor
      · intro place segment hslot
        rcases hget place segment hslot with hold | ⟨rfl, rfl⟩
        · exact hbased.ready place segment hold
        · rfl
      · intro place segment hslot
        rcases hget place segment hslot with hold | ⟨rfl, rfl⟩
        · exact hbased.base place segment hold
        · exact congrArg (· * chain.segmentTransactions) hplace

/-- A write that leaves a segment ready and where it begins. -/
theorem Based.put {segment : Transactions A} (hbased : Based chain)
    (hready : segment.ready = (chain.segmentAt position).ready)
    (hbase : segment.baseTxNr = (chain.segmentAt position).baseTxNr) :
    Based (putSegment position segment chain) := by
  have hget : ∀ place other, (chain.segments.modify position fun _ => segment).get? place =
        some other →
      ∃ before, chain.segments.get? place = some before ∧ other.ready = before.ready ∧
        other.baseTxNr = before.baseTxNr := by
    intro place other hslot
    rw [Bvec.get?_modify] at hslot
    split at hslot
    · rename_i heq
      subst heq
      obtain ⟨before, hbefore, rfl⟩ := Option.map_eq_some_iff.1 hslot
      rw [segmentAt_eq hbefore] at hready hbase
      exact ⟨before, hbefore, hready, hbase⟩
    · exact ⟨other, hslot, rfl, rfl⟩
  constructor
  · intro place other hslot
    obtain ⟨before, hbefore, hsame, -⟩ := hget place other hslot
    rw [hsame]
    exact hbased.ready place before hbefore
  · intro place other hslot
    obtain ⟨before, hbefore, -, hsame⟩ := hget place other hslot
    rw [hsame]
    exact hbased.base place before hbefore

theorem Based.enters {entered : Chain A} (hbased : Based chain)
    (henters : Enters tx position chain entered) : Based entered := by
  cases henters with
  | there => exact hbased
  | entered _ hadd =>
      have hmoved := Transactions.add_ok_moved hadd
      exact hbased.put hmoved.ready hmoved.base

theorem Based.outcome {result : Except ArnmResult Unit} (hbased : Based chain)
    (houtcome : Outcome tx chain result left) : Based left := by
  cases houtcome with
  | notAccepted => exact hbased
  | noPlace => exact hbased.pinFirst
  | notOpened => exact hbased.pinFirst
  | notEntered _ hposition hopens _ hadd =>
      have hunmoved := Transactions.add_error_unmoved hadd
      exact (hbased.pinFirst.opens (positionOf_ok hposition).1 hopens).put hunmoved.ready
        hunmoved.base
  | notRegistered _ hposition hopens henters _ =>
      have hentered := (hbased.pinFirst.opens (positionOf_ok hposition).1 hopens).enters henters
      exact ⟨hentered.ready, hentered.base⟩
  | added _ hposition hopens henters _ =>
      have hentered := (hbased.pinFirst.opens (positionOf_ok hposition).1 hopens).enters henters
      exact ⟨hentered.ready, hentered.base⟩

theorem based_of_empty (hempty : chain.segments = .empty) : Based chain := by
  have hnone : ∀ place segment, chain.segments.get? place ≠ some segment := by
    intro place segment hslot
    rw [hempty] at hslot
    cases hslot
  exact ⟨fun place segment hslot => absurd hslot (hnone place segment),
    fun place segment hslot => absurd hslot (hnone place segment)⟩

end Based

theorem Reachable.based {options : ChainOptions} {chain : Chain A}
    (hreachable : Reachable options chain) : Based chain := by
  induction hreachable with
  | init hrun =>
      rw [init_ok hrun]
      exact based_of_empty rfl
  | add tx room _ ih => exact ih.outcome (add_outcome rfl)
  | reset C hbefore _ =>
      rw [Chain.reset, if_neg (by simp [hbefore.prepared.ready])]
      exact based_of_empty rfl

/-! ### Counting everything -/

/-- Without a filter a segment counts its transactions. -/
theorem count_segment {options : ChainOptions} {chain : Chain A} {position : Nat}
    {segment : Transactions A} (hrow : SoundRow options chain) (hbased : Based chain)
    (hget : chain.segments.get? position = some segment) :
    segment.count .init = .ok segment.transactionCount := by
  have hready := hbased.ready position segment hget
  rw [Transactions.count, if_neg (by simp [hready])]
  by_cases hcount : segment.transactionCount = 0
  · rw [Transactions.queryOfFilter, if_pos hcount, hcount]
  · obtain ⟨hlength, hlow, hhigh, -⟩ := hrow.counted position segment hget hcount
    have hbase := hbased.base position segment hget
    have hpos := size_pos options
    have hle := size_le options
    rw [segmentOf, hrow.size] at hlow hhigh
    rw [hrow.size] at hbase
    have hmin := Nat.div_mul_le_self segment.minTxNr options.size
    have hmax := Nat.div_add_mod' segment.maxTxNr options.size
    have hmod := Nat.mod_lt segment.maxTxNr hpos
    rw [hlow, ← hbase] at hmin
    rw [hhigh, ← hbase] at hmax
    have hclip : segment.clip (segment.minTxNr, segment.maxTxNr) =
        some (segment.minTxNr - segment.baseTxNr, segment.maxTxNr - segment.baseTxNr) := by
      rw [Transactions.clip]
      simp only [Nat.lt_irrefl, if_false]
      rw [if_neg (by omega : ¬segment.minTxNr < segment.baseTxNr), if_neg (by omega),
        if_neg (by omega), if_neg (by omega)]
    have hquery : segment.queryOfFilter .init =
        some
          ⟨[], [], [], segment.minTxNr - segment.baseTxNr, segment.maxTxNr - segment.baseTxNr⟩ := by
      rw [Transactions.queryOfFilter, if_neg hcount]
      change (segment.clip (segment.minTxNr, segment.maxTxNr) >>= fun bounds => _) = _
      rw [hclip]
      rfl
    rw [hquery]
    change Except.ok
        (segment.maxTxNr - segment.baseTxNr - (segment.minTxNr - segment.baseTxNr) + 1) = _
    congr 1
    omega

/-- Without a filter a chain counts the transactions of its segments. -/
theorem count_all {options : ChainOptions} {chain : Chain A} (hready : chain.ready = true)
    (hrow : SoundRow options chain) (hbased : Based chain) :
    chain.count .init =
      .ok ((chain.segments.slots.map Transactions.transactionCount).sum % 2 ^ 64) := by
  have hsegments : ∀ segment ∈ chain.segments.slots,
      segment.count .init = .ok segment.transactionCount := by
    intro segment hsegment
    obtain ⟨position, hget⟩ := List.mem_iff_getElem?.1 hsegment
    exact count_segment hrow hbased hget
  have hloop : ∀ (slots : List (Transactions A)) (total : Nat), (∀ segment ∈ slots, segment.count .init = .ok segment.transactionCount) →
      total < 2 ^ 64 → slots.foldlM (fun total segment => do
        let here ← segment.count .init
        .ok ((total + here) % 2 ^ 64)) total =
          (.ok ((total + (slots.map Transactions.transactionCount).sum) % 2 ^ 64) :
              Except ArnmResult Nat) := by
    intro slots
    induction slots with
    | nil =>
        intro total _ htotal
        exact congrArg Except.ok (Nat.mod_eq_of_lt htotal).symm
    | cons segment slots ih =>
        intro total hall _
        rw [List.foldlM_cons, hall segment List.mem_cons_self]
        change slots.foldlM _ ((total + segment.transactionCount) % 2 ^ 64) = _
        rw [ih _ (fun other hother => hall other (List.mem_cons_of_mem _ hother))
            (Nat.mod_lt _ (Nat.two_pow_pos 64)), Nat.mod_add_mod, List.map_cons, List.sum_cons,
          Nat.add_assoc]
  rw [count, if_neg (by simp [hready]), hloop _ 0 hsegments (Nat.two_pow_pos 64), Nat.zero_add]

/-! ### The two traces -/

/-- The segment a transaction falls in: there already, or to be opened for it. -/
def segmentFor (tx : CompleteTransaction) (position : Nat) (chain : Chain A) : Transactions A :=
  if position = chain.segments.size then chain.blankSegment tx.nr else chain.segmentAt position

/-- With nothing counted yet, the call opens a segment that begins the row, or that lets the row go
on to a segment with numbers in it. -/
def Pins (tx : CompleteTransaction) (chain : Chain A) : Prop :=
  chain.transactionCount = 0 ∧ positionOf tx (pinFirst tx chain) = .ok chain.segments.size ∧
    (chain.segments.size = 0 ∨ (chain.segmentOf tx.nr + 1) * chain.segmentTransactions < 2 ^ 64)

/-- The segment takes the transaction, and the register does not know the type it gives. -/
def HalfTaken (tx : CompleteTransaction) (chain : Chain A) : Prop :=
  Addresses.GivesUnknown tx ∧
    ∃ position, positionOf tx (pinFirst tx chain) = .ok position ∧
      inSegment tx position chain = false ∧
      Transactions.verdict tx (segmentFor tx position chain) = .ok ()

/-- The transaction passes the checks of the chain, and the call leaves one of the two traces
when it is refused. -/
def Spoils (tx : CompleteTransaction) (chain : Chain A) : Prop :=
  accepts tx chain = .ok () ∧ (Pins tx chain ∨ HalfTaken tx chain)

section Traces

variable {options : ChainOptions} {chain opened entered : Chain A} {tx : CompleteTransaction}
  {position : Nat}

/-- Where a call may begin the row it finds its segment at the beginning. -/
theorem positionOf_begins (hbegins : chain.transactionCount = 0 ∧ chain.segments.size = 0) :
    positionOf tx (pinFirst tx chain) = .ok 0 := by
  have hfirst : (pinFirst tx chain).firstSegment = chain.segmentOf tx.nr := if_pos hbegins
  exact positionOf_eq (by rw [hfirst]; rfl) (Nat.zero_le _)

theorem pinFirst_of_position (hposition : positionOf tx (pinFirst tx chain) = .ok position)
    (hne : position ≠ chain.segments.size) : pinFirst tx chain = chain := by
  by_cases hbegins : chain.transactionCount = 0 ∧ chain.segments.size = 0
  · rw [positionOf_begins hbegins] at hposition
    exact absurd (Except.ok.inj hposition).symm (hbegins.2 ▸ hne)
  · rw [pinFirst, if_neg hbegins]

theorem Opens.segmentAt (hopens : Opens tx position (pinFirst tx chain) opened) :
    opened.segmentAt position = segmentFor tx position chain := by
  cases hopens with
  | there hne =>
      have hthere : position ≠ chain.segments.size := hne
      rw [segmentFor, if_neg hthere]
      rfl
  | opened heq hroom =>
      have hend : position = chain.segments.size := heq
      rw [segmentFor, if_pos hend, hend]
      exact segmentAt_eq (Bvec.get?_last (Bvec.concat_slots hroom))

/-- A segment opened just now holds no transaction. -/
theorem Opens.inSegment (hopens : Opens tx position (pinFirst tx chain) opened) :
    Chain.inSegment tx position opened = Chain.inSegment tx position chain := by
  rw [Chain.inSegment, Chain.inSegment, hopens.segmentAt, segmentFor]
  split
  · have hnone : chain.segmentAt position = .zero := by
      rw [Chain.segmentAt, Bvec.get?_eq_none (Nat.le_of_eq ‹position = _›.symm)]
      rfl
    rw [hnone]
    rfl
  · rfl

theorem putSegment_self (position : Nat) (chain : Chain A) :
    putSegment position (chain.segmentAt position) chain = chain := by
  have hsame : (chain.segments.modify position fun _ => chain.segmentAt position) =
      chain.segments := by
    by_cases hlt : position < chain.segments.size
    · obtain ⟨segment, hget⟩ := Bvec.get?_isSome hlt
      exact Bvec.modify_eq_self hget (segmentAt_eq hget)
    · ext1
      exact List.modify_eq_self (Nat.le_of_not_lt hlt)
  rw [putSegment, putSegments, hsame]

/-- A segment takes a first transaction, whatever its number and day, if its type is known. -/
theorem verdict_blank (hsize : chain.segmentTransactions = options.size)
    (htype : tx.transactionType.code < TransactionType.count) :
    Transactions.verdict tx (chain.blankSegment tx.nr) = .ok () := by
  have hbase := Nat.div_add_mod' tx.nr options.size
  have hmod := Nat.mod_lt tx.nr (size_pos options)
  have hle := size_le options
  have hstart : (chain.blankSegment tx.nr).baseTxNr = tx.nr / options.size * options.size := by
    rw [← hsize]
    rfl
  have hoffset : Transactions.offsetOf tx (chain.blankSegment tx.nr) =
      .ok (tx.nr - (chain.blankSegment tx.nr).baseTxNr) := by
    have hready : (chain.blankSegment tx.nr).ready = true := rfl
    have hempty : (chain.blankSegment tx.nr).transactionCount = 0 := rfl
    rw [Transactions.offsetOf, if_neg (by simp [hready]), if_neg (by omega),
      if_neg (by simp [hempty]), if_neg (by omega), if_neg (by omega)]
  have hday : Transactions.dayIndex (dayOfSecond tx.confirmedAt.seconds)
        (Transactions.openDay (dayOfSecond tx.confirmedAt.seconds) (chain.blankSegment tx.nr)) =
      .ok 0 := by
    have hfirst : (Transactions.openDay (dayOfSecond tx.confirmedAt.seconds)
          (chain.blankSegment tx.nr)).firstDay = dayOfSecond tx.confirmedAt.seconds := rfl
    rw [Transactions.dayIndex, hfirst, if_neg (Int.lt_irrefl _), Int.sub_self, if_neg (by decide)]
    rfl
  exact Transactions.verdict_ok hoffset hday

theorem Sound.register_accepts (hsound : Sound options chain) (haccepts : accepts tx chain = .ok ())
    (htype : tx.transactionType.code < TransactionType.count) :
    Addresses.accepts tx chain.addresses = .ok () := by
  rw [Addresses.accepts, if_neg (by simp [hsound.registerReady]), if_neg,
    if_neg (Nat.not_le.2 htype)]
  rintro ⟨hcount, hle⟩
  have hne : chain.transactionCount ≠ 0 := fun hempty => hcount (hsound.empty hempty)
  have hnext := hsound.next haccepts hne
  rw [(hsound.last hne).1] at hle
  omega

end Traces

/-! ### Without a trace -/

section Untraced

variable {options : ChainOptions} {chain left : Chain A} {tx : CompleteTransaction}
  {code : ArnmResult}

theorem trails_of_opened (hsound : Sound options chain) (haccepts : accepts tx chain = .ok ())
    (hposition : positionOf tx (pinFirst tx chain) = .ok chain.segments.size)
    (hroom : chain.segments.size < uint32Max) (hpins : ¬Pins tx chain) :
    Trails options chain
      ((pinFirst tx chain).putSegments
        ((pinFirst tx chain).segments.append [(pinFirst tx chain).blankSegment tx.nr])) := by
  have hpinned : chain.transactionCount = 0 → chain.segments.size ≠ 0 :=
    fun hcount hsize => hpins ⟨hcount, hposition, .inl hsize⟩
  have hsame : pinFirst tx chain = chain := pinFirst_eq_self hpinned
  rw [hsame] at hposition ⊢
  obtain ⟨hplace, -⟩ := positionOf_ok hposition
  refine ⟨hsound, trail_eq hplace, hroom, hpinned, fun other hother => ?_⟩
  by_cases hcount : chain.transactionCount = 0
  · have hend : 2 ^ 64 ≤ (chain.segmentOf tx.nr + 1) * chain.segmentTransactions := by
      by_contra hlt
      rw [← hsame] at hposition
      exact hpins ⟨hcount, hposition, .inr (Nat.lt_of_not_le hlt)⟩
    have hlt : other.nr / chain.segmentTransactions < chain.segmentOf tx.nr + 1 :=
      Nat.div_lt_of_lt_mul (Nat.mul_comm _ _ ▸ Nat.lt_of_lt_of_le other.nr_lt hend)
    rw [segmentOf]
    omega
  · have hsame : other.nr = tx.nr := by rw [hsound.next hother hcount, hsound.next haccepts hcount]
    rw [hsame, hplace]

/-- A call that leaves neither trace has left the chain as it was, or an empty segment behind it. -/
theorem refused_untraced (hsound : Sound options chain)
    (houtcome : Outcome tx chain (.error code) left) (hcode : code ≠ .outOfMemory)
    (hclean : ¬Spoils tx chain) : left = chain ∨ Trails options chain left := by
  cases houtcome with
  | notAccepted => exact .inl rfl
  | noPlace _ hposition =>
      refine .inl ?_
      by_cases hbegins : chain.transactionCount = 0 ∧ chain.segments.size = 0
      · rw [positionOf_begins hbegins] at hposition
        cases hposition
      · rw [pinFirst, if_neg hbegins]
  | notOpened => exact absurd rfl hcode
  | @notEntered position opened segment _ _ _ haccepts hposition hopens _ hadd =>
      obtain ⟨-, rfl⟩ := (Transactions.add_error hadd).resolve_left hcode
      rw [putSegment_self]
      cases hopens with
      | there hne => exact .inl (pinFirst_of_position hposition hne)
      | opened heq hroom =>
          have hend : position = chain.segments.size := heq
          exact .inr
            (trails_of_opened hsound haccepts (hend ▸ hposition) hroom fun hpins =>
              hclean ⟨haccepts, .inl hpins⟩)
  | @notRegistered position opened entered register _ _ _ haccepts hposition hopens henters hadd =>
      obtain ⟨hverdict, rfl⟩ := (Addresses.add_error hadd).resolve_left hcode
      cases henters with
      | there hin =>
          rw [hopens.inSegment] at hin
          cases hopens with
          | there hne => exact .inl (pinFirst_of_position hposition hne)
          | opened heq hroom =>
              have hnone : chain.segmentAt position = .zero := by
                have hend : position = chain.segments.size := heq
                rw [segmentAt, Bvec.get?_eq_none (Nat.le_of_eq hend.symm)]
                rfl
              rw [inSegment, hnone] at hin
              cases hin
      | entered hin htaken =>
          have hsegment := Transactions.add_verdict htaken
          rw [hopens.inSegment] at hin
          rw [hopens.segmentAt] at hsegment
          refine absurd ⟨haccepts, .inr ⟨?_, position, hposition, hin, hsegment⟩⟩ hclean
          have haddresses : opened.addresses = chain.addresses := by
            rw [hopens.same]
            rfl
          by_contra hknown
          have hregister := hsound.register_accepts haccepts (Transactions.verdict_type hsegment)
          change Addresses.verdict tx opened.addresses = _ at hverdict
          rw [haddresses, Addresses.verdict_of_accepts hregister hknown] at hverdict
          cases hverdict

end Untraced

/-! ### With one -/

theorem sum_modify {slots : List (Transactions A)} {position : Nat} {before : Transactions A}
    (hget : slots[position]? = some before) (segment : Transactions A) :
    ((slots.modify position fun _ => segment).map Transactions.transactionCount).sum +
        before.transactionCount =
      (slots.map Transactions.transactionCount).sum + segment.transactionCount := by
  induction slots generalizing position with
  | nil => cases hget
  | cons slot slots ih =>
      cases position with
      | zero =>
          cases hget
          change segment.transactionCount + (slots.map Transactions.transactionCount).sum +
              before.transactionCount =
            before.transactionCount + (slots.map Transactions.transactionCount).sum +
              segment.transactionCount
          omega
      | succ position =>
          have hrest := ih hget
          change slot.transactionCount +
              ((slots.modify position fun _ => segment).map Transactions.transactionCount).sum +
              before.transactionCount =
            slot.transactionCount + (slots.map Transactions.transactionCount).sum +
              segment.transactionCount
          omega

section Traced

variable {options : ChainOptions} {chain left opened : Chain A} {tx : CompleteTransaction}
  {position : Nat}

theorem sum_opens (hopens : Opens tx position (pinFirst tx chain) opened) :
    (opened.segments.slots.map Transactions.transactionCount).sum =
      (chain.segments.slots.map Transactions.transactionCount).sum := by
  cases hopens with
  | there => rfl
  | opened _ hroom =>
      have hslots : (chain.segments.append [(pinFirst tx chain).blankSegment tx.nr]).slots =
          chain.segments.slots ++ [(pinFirst tx chain).blankSegment tx.nr] :=
        Bvec.concat_slots hroom
      change ((chain.segments.append [(pinFirst tx chain).blankSegment tx.nr]).slots.map
          Transactions.transactionCount).sum = _
      rw [hslots, List.map_append, List.sum_append]
      rfl

/-- A transaction that is in a segment and not in the register is counted all the same. -/
theorem not_alike_of_entered {segment : Transactions A} {room rest : Room}
    (hchain : Reachable options chain) (hleft : Reachable options left)
    (haccepts : accepts tx chain = .ok ())
    (hposition : positionOf tx (pinFirst tx chain) = .ok position)
    (hopens : Opens tx position (pinFirst tx chain) opened)
    (htaken : Transactions.add tx (opened.segmentAt position) room = (.ok (), segment, rest))
    (hsame : left.segments = (putSegment position segment opened).segments)
    (hready : left.ready = chain.ready) : ¬Alike chain left := by
  intro halike
  have hcounts := (halike []).2.queries.count .init
  obtain ⟨hchainReady, hnr, -⟩ := accepts_ok haccepts
  rw [feed, feed, count_all hchainReady hchain.sound.row hchain.based,
    count_all (hready.trans hchainReady) hleft.sound.row hleft.based] at hcounts
  have hplace := hopens.place (positionOf_ok hposition).1
  have hrow : SoundRow options opened := hchain.sound.row.pinFirst.opens hopens
  have hlt : position < opened.segments.size := by
    have hle : position ≤ chain.segments.size := (positionOf_ok hposition).2
    cases hopens with
    | there hne => exact Nat.lt_of_le_of_ne hle hne
    | opened _ hroom =>
        have hsize :
            ((pinFirst tx chain).segments.append [(pinFirst tx chain).blankSegment tx.nr]).size =
              chain.segments.size + 1 := Bvec.size_concat hroom
        change position <
          ((pinFirst tx chain).segments.append [(pinFirst tx chain).blankSegment tx.nr]).size
        omega
  obtain ⟨before, hbefore⟩ := Bvec.get?_isSome hlt
  have hmoved :=
    hrow.count_moved hnr hplace (by rw [hbefore]; exact Option.some_ne_none before)
      (Transactions.add_ok_moved htaken)
  rw [segmentAt_eq hbefore] at hmoved
  have hsum := sum_modify hbefore segment
  have hslots : left.segments.slots = opened.segments.slots.modify position fun _ => segment := by
    rw [hsame]
    rfl
  rw [sum_opens hopens] at hsum
  rw [hslots] at hcounts
  have hequal := Except.ok.inj hcounts
  omega

/-- A plain creation that begins a segment is not refused for its number. -/
theorem bare_ne_invalidParam {nr : UInt64} (hsound : Sound options chain)
    (hready : chain.ready = true) (hcount : chain.transactionCount = 0) (hnr : nr ≠ 0)
    (hposition : positionOf (.bare nr 0) (pinFirst (.bare nr 0) chain) = .ok chain.segments.size) :
    (add (.bare nr 0) chain []).1 ≠ .error .invalidParam := by
  intro hrefused
  obtain ⟨left, rest, hrun⟩ : ∃ left rest,
      add (.bare nr 0) chain [] = (.error .invalidParam, left, rest) :=
    ⟨_, _, Prod.ext hrefused rfl⟩
  have htype : (CompleteTransaction.bare nr 0).transactionType.code < TransactionType.count :=
    (by decide : TransactionType.creation.code < TransactionType.count)
  have haccepts : accepts (.bare nr 0) chain = .ok () := by
    have hne : (CompleteTransaction.bare nr 0).nr ≠ 0 := fun h => hnr (UInt64.toNat_inj.1 h)
    rw [accepts, if_neg (by simp [hready]), if_neg hne, if_neg (by simp [hcount])]
  cases add_outcome hrun with
  | notAccepted h =>
      rw [haccepts] at h
      cases h
  | noPlace _ h =>
      rw [hposition] at h
      cases h
  | notEntered _ hplaced hopens _ hadd =>
      rw [hposition] at hplaced
      cases hplaced
      obtain ⟨hverdict, -⟩ := (Transactions.add_error hadd).resolve_left (by decide)
      rw [hopens.segmentAt, segmentFor, if_pos rfl, verdict_blank hsound.row.size htype] at hverdict
      cases hverdict
  | notRegistered _ _ hopens henters hadd =>
      obtain ⟨hverdict, -⟩ := (Addresses.add_error hadd).resolve_left (by decide)
      rw [henters.same, hopens.same] at hverdict
      change Addresses.verdict (.bare nr 0) chain.addresses = _ at hverdict
      have hknown : ¬Addresses.GivesUnknown (.bare nr 0) := by
        rintro ⟨given, hgiven, -⟩
        cases hgiven
      rw [Addresses.verdict_of_accepts (hsound.register_accepts haccepts htype) hknown] at hverdict
      cases hverdict

/-- Beyond a row, or before it, there is no place. -/
theorem add_noSegment {txNr : UInt64} (hready : chain.ready = true)
    (hcount : chain.transactionCount = 0) (hnr : txNr ≠ 0) (hsize : chain.segments.size ≠ 0)
    (hout : chain.segmentOf txNr.toNat < chain.firstSegment ∨
      chain.firstSegment + chain.segments.size < chain.segmentOf txNr.toNat) :
    (add (.bare txNr 0) chain []).1 = .error .invalidParam := by
  have hne : (CompleteTransaction.bare txNr 0).nr ≠ 0 := fun h => hnr (UInt64.toNat_inj.1 h)
  have haccepts : accepts (.bare txNr 0) chain = .ok () := by
    rw [accepts, if_neg (by simp [hready]), if_neg hne, if_neg (by simp [hcount])]
  have hposition : positionOf (.bare txNr 0) (pinFirst (.bare txNr 0) chain) =
      .error .invalidParam := by
    have hsame : (CompleteTransaction.bare txNr 0).nr = txNr.toNat := rfl
    rw [pinFirst_of_size hsize, positionOf, hsame]
    split
    · rfl
    · rw [if_pos (by omega)]
  rw [add_noPlace haccepts hposition]

/-- Some number lies two segments after that of a transaction, or before it. -/
theorem exists_outside (hchain : Reachable options chain) (tx : CompleteTransaction) :
    ∃ txNr : UInt64, txNr ≠ 0 ∧
      (chain.segmentOf txNr.toNat < chain.segmentOf tx.nr ∨
        chain.segmentOf tx.nr + 1 < chain.segmentOf txNr.toNat) := by
  have hpos := size_pos options
  have hle := size_le options
  have hlow := Nat.div_mul_le_self tx.nr options.size
  have hlt := tx.nr_lt
  rw [uint32Max] at hle
  simp only [segmentOf, hchain.sound.row.size]
  by_cases hend : (tx.nr / options.size + 2) * options.size < 2 ^ 64
  · refine ⟨.ofNat ((tx.nr / options.size + 2) * options.size), fun hzero => ?_, .inr ?_⟩
    · have hvalue := congrArg UInt64.toNat hzero
      rw [UInt64.toNat_ofNat_of_lt' hend, UInt64.toNat_zero] at hvalue
      rcases Nat.mul_eq_zero.1 hvalue with hfactor | hfactor
      · exact Nat.succ_ne_zero _ hfactor
      · omega
    · rw [UInt64.toNat_ofNat_of_lt' hend, Nat.mul_div_cancel _ hpos]
      omega
  · rw [Nat.add_mul] at hend
    have hback : tx.nr - options.size < 2 ^ 64 := by omega
    refine ⟨.ofNat (tx.nr - options.size), fun hzero => ?_, .inl ?_⟩
    · have hvalue := congrArg UInt64.toNat hzero
      rw [UInt64.toNat_ofNat_of_lt' hback, UInt64.toNat_zero] at hvalue
      omega
    · rw [UInt64.toNat_ofNat_of_lt' hback]
      have hdiv := Nat.div_eq_sub_div hpos (by omega : options.size ≤ tx.nr)
      omega

/-- A segment opened where nothing is counted decides which numbers may follow. -/
theorem not_alike_of_pins (hchain : Reachable options chain) (hleft : Reachable options left)
    (hready : chain.ready = true) (hpins : Pins tx chain) (hroom : chain.segments.size < uint32Max)
    (hopened : left =
      (pinFirst tx chain).putSegments
        ((pinFirst tx chain).segments.append
          [(pinFirst tx chain).blankSegment tx.nr])) : ¬Alike chain left := by
  intro halike
  obtain ⟨hcount, hposition, hsegments⟩ := hpins
  have hplace : chain.segmentOf tx.nr = (pinFirst tx chain).firstSegment + chain.segments.size :=
    (positionOf_ok hposition).1
  have hleftFirst : left.firstSegment = (pinFirst tx chain).firstSegment := by rw [hopened]; rfl
  have hleftSize : left.segments.size = chain.segments.size + 1 := by
    rw [hopened]
    exact Bvec.size_concat hroom
  have hleftReady : left.ready = true := by rw [hopened]; exact hready
  have hleftCount : left.transactionCount = 0 := by rw [hopened]; exact hcount
  have hleftOf : ∀ txNr, left.segmentOf txNr = chain.segmentOf txNr := by
    intro txNr
    rw [hopened]
    rfl
  have hresults : ∀ txNr : UInt64,
      (add (.bare txNr 0) chain []).1 = (add (.bare txNr 0) left []).1 :=
    fun txNr => (List.cons.inj (halike [.bare txNr 0]).1).1
  have hsize := hchain.sound.row.size
  have hpos := size_pos options
  by_cases hempty : chain.segments.size = 0
  · -- The row of the one begins with this segment, that of the other begins anywhere.
    have hfirst : left.firstSegment = chain.segmentOf tx.nr := by
      rw [hleftFirst, hplace, hempty, Nat.add_zero]
    obtain ⟨txNr, hne, hout⟩ := exists_outside hchain tx
    refine bare_ne_invalidParam hchain.sound hready hcount hne ?_ ((hresults txNr).trans ?_)
    · rw [positionOf_begins ⟨hcount, hempty⟩, hempty]
    · refine add_noSegment hleftReady hleftCount hne (by omega) ?_
      rw [hleftOf, hfirst, hleftSize, hempty]
      exact hout
  · -- The row of the one goes on to the next segment, that of the other does not yet.
    have hlt := hsegments.resolve_left hempty
    rw [pinFirst_of_size hempty] at hplace hleftFirst
    obtain ⟨txNr, htxNr⟩ : ∃ txNr : UInt64,
        txNr.toNat = (chain.segmentOf tx.nr + 1) * chain.segmentTransactions :=
      ⟨.ofNat _, UInt64.toNat_ofNat_of_lt' hlt⟩
    have hnext : chain.segmentOf txNr.toNat = chain.segmentOf tx.nr + 1 := by
      rw [htxNr, segmentOf, hsize, Nat.mul_div_cancel _ hpos]
    have hne : txNr ≠ 0 := by
      rintro rfl
      rw [UInt64.toNat_zero, segmentOf, Nat.zero_div] at hnext
      omega
    refine bare_ne_invalidParam hleft.sound hleftReady hleftCount hne ?_
      ((hresults txNr).symm.trans ?_)
    · rw [pinFirst_of_size (by omega)]
      refine positionOf_eq ?_ (Nat.le_refl _)
      rw [show (CompleteTransaction.bare txNr 0).nr = txNr.toNat from rfl, hleftOf, hnext, hplace,
        hleftFirst, hleftSize, Nat.add_assoc]
    · exact add_noSegment hready hcount hne hempty (.inr (by omega))

end Traced

/-- A call that is refused for what the transaction is can be told from one that was never made
exactly when it leaves one of the two traces. -/
theorem Reachable.refused_alike_iff {options : ChainOptions} {tx : CompleteTransaction}
    {chain left : Chain A} {room rest : Room} {code : ArnmResult}
    (hreachable : Reachable options chain)
    (hrun : Chain.add tx chain room = (.error code, left, rest)) (hcode : code ≠ .outOfMemory) :
    Alike chain left ↔ ¬Spoils tx chain := by
  have houtcome := add_outcome hrun
  have hleft : Reachable options left := by
    have hafter := Reachable.add tx room hreachable
    rwa [hrun] at hafter
  constructor
  · rintro halike ⟨haccepts, htrace⟩
    have hready := (accepts_ok haccepts).1
    cases houtcome with
    | notAccepted h =>
        rw [haccepts] at h
        cases h
    | noPlace _ h =>
        rcases htrace with ⟨-, hposition, -⟩ | ⟨-, position, hposition, -⟩ <;>
        · rw [hposition] at h
          cases h
    | notOpened => exact hcode rfl
    | @notEntered position opened segment _ _ _ _ hposition hopens _ hadd =>
        obtain ⟨hverdict, rfl⟩ := (Transactions.add_error hadd).resolve_left hcode
        rcases htrace with hpins | ⟨-, place, hplace, -, hsegment⟩
        · have hend : position = chain.segments.size :=
            Except.ok.inj (hposition.symm.trans hpins.2.1)
          rw [putSegment_self] at halike hleft
          cases hopens with
          | there hne => exact hne hend
          | opened _ hroom => exact not_alike_of_pins hreachable hleft hready hpins hroom rfl halike
        · have hsame : position = place := Except.ok.inj (hposition.symm.trans hplace)
          rw [hopens.segmentAt, hsame, hsegment] at hverdict
          cases hverdict
    | @notRegistered position opened entered register _ _ _ _ hposition hopens henters hadd =>
        cases henters with
        | there hin =>
            rw [hopens.inSegment] at hin
            rcases htrace with hpins | ⟨-, place, hplace, hnot, -⟩
            · have hend : position = chain.segments.size :=
                Except.ok.inj (hposition.symm.trans hpins.2.1)
              have hnone : chain.segmentAt position = .zero := by
                rw [segmentAt, Bvec.get?_eq_none (Nat.le_of_eq hend.symm)]
                rfl
              rw [inSegment, hnone] at hin
              cases hin
            · have hsame : position = place := Except.ok.inj (hposition.symm.trans hplace)
              rw [hsame, hnot] at hin
              cases hin
        | entered _ htaken =>
            refine not_alike_of_entered hreachable hleft haccepts hposition hopens htaken rfl ?_
              halike
            change opened.ready = chain.ready
            rw [hopens.same]
            rfl
  · intro hclean
    rcases refused_untraced hreachable.sound houtcome hcode hclean with rfl | htrails
    · exact .refl _
    · exact htrails.alike

/-- A registration of a type no address can have. -/
def unknownType : CompleteTransaction :=
  { CompleteTransaction.bare 1 0 with
    transactionType := .registerAddress, addressType := .unknown 0, registerAddress := ⟨Vector.replicate 32 7, zeroBytes 32⟩ }

/-- What a chain is left as that has refused it. -/
def refusedChain : Chain Arnm.reference := (Chain.add unknownType (fresh (segmentsOf 4)) []).2.1

theorem Reachable.refused_alike_iff_unknownType :
    Alike (fresh (segmentsOf 4)) refusedChain ↔
      ¬Spoils unknownType (fresh (segmentsOf 4) : Chain Arnm.reference) :=
  have hrefused : (Chain.add unknownType (fresh (segmentsOf 4) : Chain Arnm.reference) []).1 =
      .error .invalidEnumType := by
    decide +kernel
  Reachable.refused_alike_iff (reachable_fresh _)
    (Prod.ext hrefused rfl : Chain.add unknownType _ [] = (_, refusedChain, _)) nofun

/-- The chain has taken no transaction and counts one. -/
theorem refused_not_alike_unknownType :
    ¬∀ (options : ChainOptions) (tx : CompleteTransaction) (chain left : Chain Arnm.reference)
        (room rest : Room) (code : ArnmResult), Reachable options chain →
      Chain.add tx chain room = (.error code, left, rest) → code ≠ .outOfMemory →
      Alike chain left := by
  intro hall
  have hrefused : (Chain.add unknownType (fresh (segmentsOf 4) : Chain Arnm.reference) []).1 =
      .error .invalidEnumType := by
    decide +kernel
  have halike :=
    hall (segmentsOf 4) unknownType (fresh (segmentsOf 4)) refusedChain [] _ .invalidEnumType
      (reachable_fresh _) (Prod.ext hrefused rfl) nofun
  have hcounts := (halike []).2.queries.count .init
  have hbefore : (fresh (segmentsOf 4) : Chain Arnm.reference).count .init = .ok 0 := by
    decide +kernel
  have hafter : refusedChain.count .init = .ok 1 := by decide +kernel
  rw [feed, feed, hbefore, hafter] at hcounts
  cases hcounts

end Chain

end GradidoBlockchain
