import GradidoBlockchain.Chain.Refused

/-!
# Two sizes of segment

The same transactions are fed to two chains that cut their rows differently. The register is the
same, and the next number has a place in both rows. Only the day is looked at from the first day of
a segment, and the segments of the two chains begin with different days.
-/

namespace GradidoBlockchain

open Fallible Fallible.Call

variable {A : Arnm}

namespace Chain

/-! ### What a segment says -/

/-- What an index says to the day of a transaction. -/
def dayVerdict (tx : CompleteTransaction) (segment : Transactions A) : Except ArnmResult Unit :=
  (Transactions.dayIndex (dayOfSecond tx.confirmedAt.seconds)
    (Transactions.openDay (dayOfSecond tx.confirmedAt.seconds) segment)).map fun _ => ()

/-- What the segment a transaction falls in says to its day. A segment that has the transaction does
not look at it again, and one that does not know its type does not come to the day. -/
def dayCheck (tx : CompleteTransaction) (chain : Chain A) : Except ArnmResult Unit :=
  match positionOf tx (pinFirst tx chain) with
  | .error _ => .ok ()
  | .ok position =>
      if inSegment tx position chain ∨ TransactionType.count ≤ tx.transactionType.code then .ok ()
      else dayVerdict tx (segmentFor tx position chain)

/-- What the row says to a transaction that is half in or not in it. -/
def rowVerdict (half : Bool) (tx : CompleteTransaction)
    (chain : Chain A) : Except ArnmResult Unit :=
  if half then .ok ()
  else if TransactionType.count ≤ tx.transactionType.code then .error .invalidEnumType
  else dayCheck tx chain

/-- The row has a place for a number: a segment to be opened at its end, or its last segment, which
has the number already if `half` is true and comes to it next if not. -/
structure Awaits (txNr : Nat) (half : Bool) (position : Nat) (chain : Chain A) : Prop where
  place : chain.segmentOf txNr = chain.firstSegment + position
  slot : position = chain.segments.size ∧ half = false ∨
    position + 1 = chain.segments.size ∧
      if half then
          (chain.segmentAt position).transactionCount ≠ 0 ∧
            (chain.segmentAt position).maxTxNr = txNr
        else (chain.segmentAt position).transactionCount = 0 ∨
          (chain.segmentAt position).maxTxNr + 1 = txNr

section Awaits

variable {options : ChainOptions} {chain opened entered : Chain A} {tx : CompleteTransaction}
  {half : Bool} {position : Nat}

theorem Awaits.positionOf (hawaits : Awaits tx.nr half position chain) :
    Chain.positionOf tx chain = .ok position := by
  refine positionOf_eq hawaits.place ?_
  rcases hawaits.slot with ⟨hend, -⟩ | ⟨hlast, -⟩ <;> omega

theorem Awaits.inSegment (hawaits : Awaits tx.nr half position chain) :
    Chain.inSegment tx position chain = half := by
  rcases hawaits.slot with ⟨hend, rfl⟩ | ⟨-, hslot⟩
  · have hnone : chain.segmentAt position = .zero := by
      rw [segmentAt, Bvec.get?_eq_none (Nat.le_of_eq hend.symm)]
      rfl
    rw [Chain.inSegment, hnone]
    rfl
  · cases half with
    | true => exact inSegment_iff.2 hslot
    | false =>
        refine Bool.eq_false_iff.2 fun hin => ?_
        obtain ⟨hcount, hmax⟩ := inSegment_iff.1 hin
        rcases (hslot : _ ∨ _) with hempty | hnext
        · exact hcount hempty
        · omega

/-- A segment that comes to a number next refuses it for its type or for its day. -/
theorem verdict_of_next {segment : Transactions A} (hready : segment.ready = true)
    (hbase : segment.baseTxNr = tx.nr / options.size * options.size)
    (hnext : segment.transactionCount = 0 ∨ segment.maxTxNr + 1 = tx.nr) :
    Transactions.verdict tx segment =
      if TransactionType.count ≤ tx.transactionType.code then .error .invalidEnumType
        else dayVerdict tx segment := by
  have hsum := Nat.div_add_mod' tx.nr options.size
  have hmod := Nat.mod_lt tx.nr (size_pos options)
  have hle := size_le options
  have hlt := tx.nr_lt
  have hfollows : ¬(segment.transactionCount ≠ 0 ∧ tx.nr ≠ (segment.maxTxNr + 1) % 2 ^ 64) := by
    rintro ⟨hcount, hne⟩
    rcases hnext with hempty | hnext
    · exact hcount hempty
    · rw [Nat.mod_eq_of_lt (by omega)] at hne
      exact hne hnext.symm
  rw [Transactions.verdict, Transactions.offsetOf, if_neg (by simp [hready]), if_neg (by omega),
    if_neg hfollows, if_neg (by omega)]
  split
  · rfl
  · change (Transactions.dayIndex _ _ >>= fun _ => _) = _
    rw [dayVerdict]
    rcases Transactions.dayIndex _ _ with _ | _ <;> rfl

/-- The segment an awaited number falls in says to it what the row says. -/
theorem Awaits.verdict (hawaits : Awaits tx.nr false position (pinFirst tx chain))
    (hreachable : Reachable options chain) :
    Transactions.verdict tx (segmentFor tx position chain) = rowVerdict false tx chain := by
  have hsize : (pinFirst tx chain).segmentTransactions = options.size := hreachable.sound.row.size
  have hbased : Based (pinFirst tx chain) := hreachable.based.pinFirst
  have hstart : (chain.blankSegment tx.nr).baseTxNr = tx.nr / options.size * options.size := by
    rw [← hsize]
    rfl
  have hday : dayCheck tx chain =
      if TransactionType.count ≤ tx.transactionType.code then .ok ()
        else dayVerdict tx (segmentFor tx position chain) := by
    have hin : Chain.inSegment tx position chain = false := hawaits.inSegment
    rw [dayCheck, hawaits.positionOf]
    simp only [hin, Bool.false_eq_true, false_or]
  have hverdict : Transactions.verdict tx (segmentFor tx position chain) =
      if TransactionType.count ≤ tx.transactionType.code then .error .invalidEnumType
      else dayVerdict tx (segmentFor tx position chain) := by
    by_cases hend : position = chain.segments.size
    · rw [segmentFor, if_pos hend]
      exact verdict_of_next rfl hstart (.inl rfl)
    · rcases hawaits.slot with ⟨hat, -⟩ | ⟨hlast, hslot⟩
      · exact absurd hat hend
      · have hlt : position < chain.segments.size := Nat.lt_of_succ_le (Nat.le_of_eq hlast)
        obtain ⟨segment, hget⟩ := Bvec.get?_isSome hlt
        have hbase := hbased.base position segment hget
        have hplace := hawaits.place
        rw [hsize, ← hplace, segmentOf, hsize] at hbase
        have hsegment : (pinFirst tx chain).segmentAt position = segment := segmentAt_eq hget
        rw [hsegment] at hslot
        rw [segmentFor, if_neg hend, segmentAt_eq hget]
        exact verdict_of_next (hbased.ready position segment hget) hbase hslot
  change _ =
    if TransactionType.count ≤ tx.transactionType.code then .error .invalidEnumType
      else dayCheck tx chain
  rw [hverdict, hday]
  by_cases htype : TransactionType.count ≤ tx.transactionType.code
  · rw [if_pos htype, if_pos htype]
  · rw [if_neg htype, if_neg htype, if_neg htype]

/-- The segment is there, and a number that was awaited still is. -/
theorem Awaits.opens (hawaits : Awaits tx.nr half position (pinFirst tx chain))
    (hopens : Opens tx position (pinFirst tx chain) opened) :
    Awaits tx.nr half position opened ∧ position + 1 = opened.segments.size := by
  have hsegment := hopens.segmentAt
  have hplace := hopens.place hawaits.place
  cases hopens with
  | there hne =>
      rcases hawaits.slot with ⟨hend, -⟩ | ⟨hlast, -⟩
      · exact absurd hend hne
      · exact ⟨hawaits, hlast⟩
  | opened heq hroom =>
      have hsize :
          ((pinFirst tx chain).segments.append [(pinFirst tx chain).blankSegment tx.nr]).size =
            (pinFirst tx chain).segments.size + 1 := Bvec.size_concat hroom
      have hlast : position + 1 =
          ((pinFirst tx chain).segments.append [(pinFirst tx chain).blankSegment tx.nr]).size := by
        rw [hsize, heq]
      have hhalf : half = false := by
        rcases hawaits.slot with ⟨-, hhalf⟩ | ⟨hbefore, -⟩
        · exact hhalf
        · omega
      refine ⟨⟨hplace, .inr ⟨hlast, ?_⟩⟩, hlast⟩
      have hend : position = chain.segments.size := heq
      rw [hhalf, hsegment, segmentFor, if_pos hend]
      exact .inl rfl

/-- The number is in the last segment of the row. -/
structure Holds (txNr position : Nat) (chain : Chain A) : Prop where
  place : chain.segmentOf txNr = chain.firstSegment + position
  last : position + 1 = chain.segments.size
  count : (chain.segmentAt position).transactionCount ≠ 0
  max : (chain.segmentAt position).maxTxNr = txNr

theorem Holds.awaits {txNr : Nat} (hholds : Holds txNr position chain) :
    Awaits txNr true position chain :=
  ⟨hholds.place, .inr ⟨hholds.last, hholds.count, hholds.max⟩⟩

/-- The number after the one in the last segment goes to that segment or opens the one after it. -/
theorem Holds.awaits_next {txNr : Nat} (hholds : Holds txNr position chain) :
    ∃ place, Awaits (txNr + 1) false place chain := by
  have hstep := segmentOf_succ_le chain txNr
  have hmono : chain.segmentOf txNr ≤ chain.segmentOf (txNr + 1) := Nat.div_le_div_right (by omega)
  rw [hholds.place] at hstep hmono
  by_cases hsame : chain.segmentOf (txNr + 1) = chain.firstSegment + position
  · exact ⟨position, hsame, .inr ⟨hholds.last, .inr (congrArg (· + 1) hholds.max)⟩⟩
  · exact ⟨position + 1, by omega, .inl ⟨hholds.last, rfl⟩⟩

theorem Awaits.enters (hawaits : Awaits tx.nr half position opened)
    (hlast : position + 1 = opened.segments.size) (hrow : SoundRow options opened) (hnr : tx.nr ≠ 0)
    (henters : Enters tx position opened entered) : Holds tx.nr position entered := by
  cases henters with
  | there hin =>
      obtain ⟨hcount, hmax⟩ := inSegment_iff.1 hin
      exact ⟨hawaits.place, hlast, hcount, hmax⟩
  | @entered segment _ _ _ hadd =>
      have hlt : position < opened.segments.size := by omega
      have hmoved := Transactions.add_ok_moved hadd
      have hthere : opened.segments.get? position ≠ none := by
        obtain ⟨before, hget⟩ := Bvec.get?_isSome hlt
        rw [hget]
        nofun
      have hcounted := hrow.counted_moved hnr hawaits.place hthere hmoved
      have hsegment : (putSegment position segment opened).segmentAt position = segment :=
        segmentAt_putSegment hlt
      refine ⟨hawaits.place, hlast.trans (Bvec.size_modify ..).symm, ?_, ?_⟩
      · rw [hsegment]
        exact hcounted.1
      · rw [hsegment]
        exact hmoved.max

/-! ### How an add of an awaited number ends -/

/-- What decides on the next transaction apart from the row. -/
structure SameCounts (chain left : Chain A) : Prop where
  addresses : left.addresses = chain.addresses
  count : left.transactionCount = chain.transactionCount
  max : left.maxTxNr = chain.maxTxNr
  ready : left.ready = chain.ready

theorem SameCounts.accepts {left : Chain A} (hsame : SameCounts chain left)
    (tx : CompleteTransaction) : Chain.accepts tx left = Chain.accepts tx chain := by
  rw [Chain.accepts, Chain.accepts, hsame.count, hsame.max, hsame.ready]

inductive Answered (half : Bool) (tx : CompleteTransaction) (chain : Chain A) :
    Except ArnmResult Unit → Chain A → Prop
  | refused {left : Chain A} {code : ArnmResult} (position : Nat) :
      rowVerdict half tx chain = .error code → SameCounts chain left → left.segments.size ≠ 0 →
      Awaits tx.nr half position left → Answered half tx chain (.error code) left
  | unregistered {left : Chain A} {code : ArnmResult} (position : Nat) :
      rowVerdict half tx chain = .ok () → Addresses.verdict tx chain.addresses = .error code →
      SameCounts chain left → Holds tx.nr position left → Answered half tx chain (.error code) left
  | taken {left : Chain A} (position : Nat) : rowVerdict half tx chain = .ok () →
      Addresses.add tx chain.addresses [] = (.ok (), left.addresses, []) →
      left.transactionCount = (chain.transactionCount + 1) % 2 ^ 64 → left.maxTxNr = tx.nr →
      left.ready = chain.ready → Holds tx.nr position left → Answered half tx chain (.ok ()) left

theorem Enters.sameCounts (henters : Enters tx position opened entered)
    (hopens : Opens tx position (pinFirst tx chain) opened) : SameCounts chain entered := by
  rw [henters.same, hopens.same]
  exact ⟨rfl, rfl, rfl, rfl⟩

theorem Enters.rowVerdict (hawaits : Awaits tx.nr half position (pinFirst tx chain))
    (hreachable : Reachable options chain) (hopens : Opens tx position (pinFirst tx chain) opened)
    (henters : Enters tx position opened entered) : Chain.rowVerdict half tx chain = .ok () := by
  have hhalf : Chain.inSegment tx position opened = half := hopens.inSegment.trans hawaits.inSegment
  cases henters with
  | there hin =>
      rw [← hhalf, hin]
      rfl
  | entered hnot hadd =>
      have hfalse : half = false := hhalf.symm.trans hnot
      subst hfalse
      rw [← hawaits.verdict hreachable, ← hopens.segmentAt]
      exact Transactions.add_verdict hadd

theorem Awaits.answered {left : Chain A} {result : Except ArnmResult Unit}
    (hawaits : Awaits tx.nr half position (pinFirst tx chain))
    (hreachable : Reachable options chain) (haccepts : accepts tx chain = .ok ())
    (houtcome : Outcome tx chain result left) (hroom : result ≠ .error .outOfMemory) :
    Answered half tx chain result left := by
  have hrow : SoundRow options (pinFirst tx chain) := hreachable.sound.row.pinFirst
  have hnr := (accepts_ok haccepts).2.1
  cases houtcome with
  | notAccepted h =>
      rw [haccepts] at h
      cases h
  | noPlace _ h =>
      rw [hawaits.positionOf] at h
      cases h
  | notOpened => exact absurd rfl hroom
  | notEntered _ hposition hopens hnot hadd =>
      cases Except.ok.inj (hposition.symm.trans hawaits.positionOf)
      obtain ⟨hverdict, rfl⟩ :=
        (Transactions.add_error hadd).resolve_left fun h => hroom (congrArg Except.error h)
      obtain ⟨hopened, hlast⟩ := hawaits.opens hopens
      have hfalse : half = false := (hopens.inSegment.trans hawaits.inSegment).symm.trans hnot
      subst hfalse
      rw [putSegment_self]
      refine .refused position ?_ ?_ (by omega) hopened
      · rw [← hawaits.verdict hreachable, ← hopens.segmentAt]
        exact hverdict
      · rw [hopens.same]
        exact ⟨rfl, rfl, rfl, rfl⟩
  | notRegistered _ hposition hopens henters hadd =>
      cases Except.ok.inj (hposition.symm.trans hawaits.positionOf)
      obtain ⟨hverdict, rfl⟩ :=
        (Addresses.add_error hadd).resolve_left fun h => hroom (congrArg Except.error h)
      obtain ⟨hopened, hlast⟩ := hawaits.opens hopens
      have hholds := hopened.enters hlast (hrow.opens hopens) hnr henters
      have hsame := henters.sameCounts hopens
      rw [hsame.addresses] at hverdict
      exact .unregistered position (henters.rowVerdict hawaits hreachable hopens) hverdict hsame
        hholds
  | added _ hposition hopens henters hadd =>
      cases Except.ok.inj (hposition.symm.trans hawaits.positionOf)
      obtain ⟨hopened, hlast⟩ := hawaits.opens hopens
      obtain ⟨hplace, hend, hcount, hmax⟩ := hopened.enters hlast (hrow.opens hopens) hnr henters
      have hsame := henters.sameCounts hopens
      have hregister := (Addresses.add_resumable tx).steady trivial hadd nofun
      rw [hsame.addresses] at hregister
      refine .taken position (henters.rowVerdict hawaits hreachable hopens) hregister ?_ rfl
        hsame.ready ⟨hplace, hend, hcount, hmax⟩
      exact congrArg (fun count => (count + 1) % 2 ^ 64) hsame.count

theorem Answered.result {left : Chain A} {result : Except ArnmResult Unit}
    (hanswered : Answered half tx chain result left) :
    result = (rowVerdict half tx chain >>= fun _ => Addresses.verdict tx chain.addresses) := by
  cases hanswered with
  | refused _ hrow =>
      rw [hrow]
      rfl
  | unregistered _ hrow hregister =>
      rw [hrow]
      exact hregister.symm
  | taken _ hrow hadd =>
      rw [hrow]
      exact (Addresses.add_verdict hadd).symm

theorem dayCheck_error {code : ArnmResult}
    (hcheck : dayCheck tx chain = .error code) : code ≠ .invalidEnumType := by
  rw [dayCheck] at hcheck
  split at hcheck
  · cases hcheck
  split at hcheck
  · cases hcheck
  rw [dayVerdict, Transactions.dayIndex] at hcheck
  split_ifs at hcheck <;> cases hcheck <;> intro hcode <;> cases hcode

theorem rowVerdict_of_passed
    (hpassed : half = true ∨ TransactionType.count ≤ tx.transactionType.code)
    (chain resized : Chain A) : rowVerdict half tx chain = rowVerdict half tx resized := by
  rw [rowVerdict, rowVerdict]
  rcases hpassed with rfl | htype
  · rfl
  · rw [if_pos htype, if_pos htype]

theorem rowVerdict_of_not_passed
    (hpassed : ¬(half = true ∨ TransactionType.count ≤ tx.transactionType.code)) (chain : Chain A) :
    rowVerdict half tx chain = dayCheck tx chain := by
  obtain ⟨hhalf, htype⟩ := not_or.1 hpassed
  rw [rowVerdict, if_neg hhalf, if_neg htype]

/-- The rows agree on a transaction exactly when they agree on its day. -/
theorem rowVerdict_eq_iff {resized : Chain A} {place : Nat}
    (hchain : Awaits tx.nr half position (pinFirst tx chain))
    (hresized : Awaits tx.nr half place (pinFirst tx resized)) :
    rowVerdict half tx chain = rowVerdict half tx resized ↔
      dayCheck tx chain = dayCheck tx resized := by
  have hskip : ∀ {other : Chain A} {spot : Nat}, Awaits tx.nr half spot (pinFirst tx other) →
      half = true ∨ TransactionType.count ≤ tx.transactionType.code →
      dayCheck tx other = .ok () := by
    intro other spot hawaits hpassed
    have hin : inSegment tx spot other = half := hawaits.inSegment
    rw [dayCheck, hawaits.positionOf]
    exact if_pos (by rwa [hin])
  by_cases hpassed : half = true ∨ TransactionType.count ≤ tx.transactionType.code
  · rw [hskip hchain hpassed, hskip hresized hpassed]
    exact iff_of_true (rowVerdict_of_passed hpassed _ _) rfl
  · rw [rowVerdict_of_not_passed hpassed, rowVerdict_of_not_passed hpassed]

end Awaits

/-! ### Two chains -/

/-- The two chains have taken the same transactions, and the next number has a
place in both rows. -/
structure Resembles (start : Nat) (chain resized : Chain A) : Prop where
  counts : SameCounts chain resized
  next : ∃ half, ∀ tx, accepts tx chain = .ok () → (chain.transactionCount = 0 → tx.nr = start) →
    ∃ position place, Awaits tx.nr half position (pinFirst tx chain) ∧
      Awaits tx.nr half place (pinFirst tx resized)

theorem resembles_fresh (start : Nat) (options resized : ChainOptions) :
    Resembles start (fresh options : Chain A) (fresh resized) := by
  refine ⟨⟨rfl, rfl, rfl, rfl⟩, false, fun tx _ _ => ⟨0, 0, ?_, ?_⟩⟩
  · exact ⟨rfl, .inl ⟨rfl, rfl⟩⟩
  · exact ⟨rfl, .inl ⟨rfl, rfl⟩⟩

section Step

variable {start : Nat} {options other : ChainOptions} {chain resized left leftResized : Chain A}
  {tx : CompleteTransaction} {result : Except ArnmResult Unit} {half : Bool}

/-- Where nothing is counted yet all calls have one number, and after that the
number is the next one. -/
theorem same_nr {next : CompleteTransaction} (hsound : Sound options chain)
    (haccepts : accepts tx chain = .ok ()) (hbegins : chain.transactionCount = 0 → tx.nr = start)
    (hnext : accepts next chain = .ok ())
    (hbegins' : chain.transactionCount = 0 → next.nr = start) : next.nr = tx.nr := by
  by_cases hcount : chain.transactionCount = 0
  · rw [hbegins hcount, hbegins' hcount]
  · rw [hsound.next haccepts hcount, hsound.next hnext hcount]

/-- Given one result by both, the chains go on resembling each other. -/
theorem Resembles.step (hsound : Sound options chain) (hafter : Sound options left)
    (hcounts : SameCounts chain resized) (haccepts : accepts tx chain = .ok ())
    (hbegins : chain.transactionCount = 0 → tx.nr = start)
    (hrows : rowVerdict half tx chain = rowVerdict half tx resized)
    (hchain : Answered half tx chain result left)
    (hresized : Answered half tx resized result leftResized) :
    Resembles start left leftResized := by
  have hstays : ∀ {half : Bool} {position place : Nat}, SameCounts chain left →
      SameCounts resized leftResized → left.segments.size ≠ 0 → leftResized.segments.size ≠ 0 →
      Awaits tx.nr half position left → Awaits tx.nr half place leftResized →
      Resembles start left leftResized := by
    intro half position place hleft hleftResized hsize hsizeResized hawaits hawaitsResized
    refine ⟨⟨?_, ?_, ?_, ?_⟩, half, fun next hnext hstart => ⟨position, place, ?_⟩⟩
    · rw [hleft.addresses, hleftResized.addresses, hcounts.addresses]
    · rw [hleft.count, hleftResized.count, hcounts.count]
    · rw [hleft.max, hleftResized.max, hcounts.max]
    · rw [hleft.ready, hleftResized.ready, hcounts.ready]
    · rw [hleft.accepts] at hnext
      rw [hleft.count] at hstart
      rw [same_nr hsound haccepts hbegins hnext hstart, pinFirst_of_size hsize,
        pinFirst_of_size hsizeResized]
      exact ⟨hawaits, hawaitsResized⟩
  have hnonempty : ∀ {chain : Chain A} {position : Nat}, Holds tx.nr position chain →
      chain.segments.size ≠ 0 := by
    intro chain position hholds
    have hlast := hholds.last
    omega
  cases hchain with
  | refused position hrow hleft hsize hawaits =>
      cases hresized with
      | refused place _ hleftResized hsizeResized hawaitsResized =>
          exact hstays hleft hleftResized hsize hsizeResized hawaits hawaitsResized
      | unregistered place hrowResized =>
          rw [hrows, hrowResized] at hrow
          cases hrow
  | unregistered position hrow _ hleft hholds =>
      cases hresized with
      | refused place hrowResized =>
          rw [hrows, hrowResized] at hrow
          cases hrow
      | unregistered place _ _ hleftResized hholdsResized =>
          exact hstays hleft hleftResized (hnonempty hholds) (hnonempty hholdsResized) hholds.awaits
            hholdsResized.awaits
  | taken position _ hadd hcount hmax hready hholds =>
      cases hresized with
      | taken place _ haddResized hcountResized hmaxResized hreadyResized hholdsResized =>
          rw [hcounts.addresses, hadd] at haddResized
          refine ⟨⟨?_, ?_, ?_, ?_⟩, false, fun next hnext _ => ?_⟩
          · exact (congrArg (·.2.1) haddResized).symm
          · rw [hcount, hcountResized, hcounts.count]
          · rw [hmax, hmaxResized]
          · rw [hready, hreadyResized, hcounts.ready]
          · have hle := hsound.count_lt haccepts
            have hlt := tx.nr_lt
            rw [Nat.mod_eq_of_lt (by omega)] at hcount
            have hnr : next.nr = tx.nr + 1 := by
              rw [hafter.next hnext (by omega), hmax]
            obtain ⟨position', hawaits⟩ := hholds.awaits_next
            obtain ⟨place', hawaitsResized⟩ := hholdsResized.awaits_next
            rw [hnr, pinFirst_of_size (hnonempty hholds),
              pinFirst_of_size (hnonempty hholdsResized)]
            exact ⟨position', place', hawaits, hawaitsResized⟩

/-- What the register says cannot be mistaken for what a row says to a day, so the results tell
whether the rows agree. -/
theorem rowVerdict_of_results (hsound : Sound options chain) (haccepts : accepts tx chain = .ok ())
    (hcounts : SameCounts chain resized) (hchain : Answered half tx chain result left)
    (hresized : Answered half tx resized result leftResized) :
    rowVerdict half tx chain = rowVerdict half tx resized := by
  by_cases hpassed : half = true ∨ TransactionType.count ≤ tx.transactionType.code
  · exact rowVerdict_of_passed hpassed _ _
  have hregister : ∀ code, Addresses.verdict tx chain.addresses = .error code →
      code = .invalidEnumType := by
    intro code hverdict
    have hknown := hsound.register_accepts haccepts (Nat.lt_of_not_le (not_or.1 hpassed).2)
    by_cases hunknown : Addresses.GivesUnknown tx
    · rw [Addresses.verdict, hknown] at hverdict
      change (if Addresses.GivesUnknown tx then Except.error ArnmResult.invalidEnumType
          else .ok ()) = _ at hverdict
      rw [if_pos hunknown] at hverdict
      cases hverdict
      rfl
    · rw [Addresses.verdict_of_accepts hknown hunknown] at hverdict
      cases hverdict
  have hresults := hchain.result.symm.trans hresized.result
  rw [hcounts.addresses, rowVerdict_of_not_passed hpassed, rowVerdict_of_not_passed hpassed]
    at hresults
  rw [rowVerdict_of_not_passed hpassed, rowVerdict_of_not_passed hpassed]
  rcases hday : dayCheck tx chain with code | _ <;> rcases hdayResized : dayCheck tx resized
    with other | _ <;> rw [hday, hdayResized] at hresults
  · exact hresults
  · exact absurd (hregister code hresults.symm) (dayCheck_error hday)
  · exact absurd (hregister other hresults) (dayCheck_error hdayResized)

end Step

/-! ### A stream -/

/-- Until a transaction has been taken, every call that has a number has this one. -/
def Begins (start : Nat) : List CompleteTransaction → Chain A → Prop
  | [], _ => True
  | tx :: stream, chain =>
      (chain.transactionCount = 0 → tx.nr = 0 ∨ tx.nr = start) ∧
        Begins start stream (add tx chain []).2.1

instance decidableBegins (start : Nat) :
    ∀ (stream : List CompleteTransaction) (chain : Chain A), Decidable (Begins start stream chain)
  | [], _ => inferInstanceAs (Decidable True)
  | tx :: stream, chain =>
      have := decidableBegins start stream (add tx chain []).2.1
      inferInstanceAs
        (Decidable
          ((chain.transactionCount = 0 → tx.nr = 0 ∨ tx.nr = start) ∧ Begins start stream _))

/-- No transaction that has the right number has a day that the segment it falls in looks at
differently under the two sizes. -/
def DaysAlike : List CompleteTransaction → Chain A → Chain A → Prop
  | [], _, _ => True
  | tx :: stream, chain, resized =>
      (accepts tx chain = .ok () → dayCheck tx chain = dayCheck tx resized) ∧
        DaysAlike stream (add tx chain []).2.1 (add tx resized []).2.1

theorem Resembles.feed_iff {start : Nat} {options other : ChainOptions}
    {stream : List CompleteTransaction} {chain resized : Chain A}
    (hresembles : Resembles start chain resized) (hchain : Reachable options chain)
    (hresized : Reachable other resized) (hbegins : Begins start stream chain)
    (hroom : .error .outOfMemory ∉ (feed stream chain).1)
    (hroomResized : .error .outOfMemory ∉ (feed stream resized).1) :
    (feed stream chain).1 = (feed stream resized).1 ↔ DaysAlike stream chain resized := by
  induction stream generalizing chain resized with
  | nil => exact iff_of_true rfl trivial
  | cons tx stream ih =>
      rw [feed_cons, List.mem_cons, not_or] at hroom hroomResized
      rw [feed_cons, feed_cons, DaysAlike, List.cons.injEq]
      obtain ⟨hstart, hbegins⟩ := hbegins
      have hleft := Reachable.add tx [] hchain
      have hleftResized := Reachable.add tx [] hresized
      rcases haccepts : accepts tx chain with code | _
      · have hrun := add_notAccepted haccepts []
        have hrunResized := add_notAccepted ((hresembles.counts.accepts tx).trans haccepts) []
        rw [hrun] at hroom hbegins ⊢
        rw [hrunResized] at hroomResized ⊢
        rw [ih hresembles hchain hresized hbegins hroom.2 hroomResized.2]
        exact and_congr (iff_of_true rfl nofun) Iff.rfl
      · have hnr := (accepts_ok haccepts).2.1
        have hnumber : chain.transactionCount = 0 → tx.nr = start :=
          fun hcount => (hstart hcount).resolve_left hnr
        obtain ⟨half, hnext⟩ := hresembles.next
        obtain ⟨position, place, hawaits, hawaitsResized⟩ := hnext tx haccepts hnumber
        have hanswered : Answered half tx chain (add tx chain []).1 (add tx chain []).2.1 :=
          hawaits.answered hchain haccepts (add_outcome rfl) fun h => hroom.1 h.symm
        have hansweredResized :
            Answered half tx resized (add tx resized []).1 (add tx resized []).2.1 :=
          hawaitsResized.answered hresized ((hresembles.counts.accepts tx).trans haccepts)
            (add_outcome rfl) fun h => hroomResized.1 h.symm
        have hrows := rowVerdict_eq_iff hawaits hawaitsResized
        have hheads : (add tx chain []).1 = (add tx resized []).1 ↔
            dayCheck tx chain = dayCheck tx resized := by
          constructor
          · intro hsame
            rw [← hsame] at hansweredResized
            exact hrows.1
              (rowVerdict_of_results hchain.sound haccepts hresembles.counts hanswered
                hansweredResized)
          · intro hdays
            rw [hanswered.result, hansweredResized.result, hresembles.counts.addresses,
              hrows.2 hdays]
        have htails : (add tx chain []).1 = (add tx resized []).1 →
            ((feed stream (add tx chain []).2.1).1 = (feed stream (add tx resized []).2.1).1 ↔
              DaysAlike stream (add tx chain []).2.1 (add tx resized []).2.1) := by
          intro hsame
          have hagree := hrows.2 (hheads.1 hsame)
          rw [← hsame] at hansweredResized
          exact ih
            (Resembles.step hchain.sound hleft.sound hresembles.counts haccepts hnumber hagree
              hanswered hansweredResized) hleft hleftResized hbegins hroom.2 hroomResized.2
        constructor
        · rintro ⟨hsame, hrest⟩
          exact ⟨fun _ => hheads.1 hsame, (htails hsame).1 hrest⟩
        · rintro ⟨hdays, hrest⟩
          have hsame := hheads.2 (hdays rfl)
          exact ⟨hsame, (htails hsame).2 hrest⟩

/-- Where the calls before the first success all have one number, two sizes give a stream the same
results exactly when its days are looked at alike. -/
theorem feed_resized_iff {start : Nat} {options resized : ChainOptions}
    {stream : List CompleteTransaction} (hbegins : Begins start stream (fresh options : Chain A))
    (hroom : .error .outOfMemory ∉ (feed stream (fresh options : Chain A)).1)
    (hroomResized : .error .outOfMemory ∉ (feed stream (fresh resized : Chain A)).1) :
    (feed stream (fresh options : Chain A)).1 = (feed stream (fresh resized : Chain A)).1 ↔
      DaysAlike stream (fresh options : Chain A) (fresh resized) :=
  (resembles_fresh start options resized).feed_iff (reachable_fresh options)
    (reachable_fresh resized) hbegins hroom hroomResized

theorem feed_resized_iff_threeDays :
    (feed threeDays (fresh (segmentsOf 1) : Chain Arnm.reference)).1 =
        (feed threeDays (fresh (segmentsOf 2) : Chain Arnm.reference)).1 ↔
      DaysAlike threeDays (fresh (segmentsOf 1) : Chain Arnm.reference) (fresh (segmentsOf 2)) :=
  have hbegins : Begins 1 threeDays (fresh (segmentsOf 1) : Chain Arnm.reference) := by
    decide +kernel
  feed_resized_iff hbegins (by decide +kernel) (by decide +kernel)

/-- The second transaction is a day before the first: segments of one number take it,
segments of four do not. -/
theorem feed_resized_earlier :
    ¬∀ (options resized : ChainOptions) (stream : List CompleteTransaction), .error .outOfMemory ∉
        (feed stream (fresh options : Chain Arnm.reference)).1 →
      .error .outOfMemory ∉ (feed stream (fresh resized : Chain Arnm.reference)).1 →
      (feed stream (fresh options : Chain Arnm.reference)).1 =
        (feed stream (fresh resized : Chain Arnm.reference)).1 := by
  intro hall
  have hsame :=
    hall (segmentsOf 1) (segmentsOf 4) [.bare 1 86400, .bare 2 0] (by decide +kernel)
      (by decide +kernel)
  have hdiffer : (feed [.bare 1 86400, .bare 2 0] (fresh (segmentsOf 1) : Chain Arnm.reference)).1 ≠
      (feed [.bare 1 86400, .bare 2 0] (fresh (segmentsOf 4) : Chain Arnm.reference)).1 := by
    decide +kernel
  exact hdiffer hsame

end Chain

end GradidoBlockchain
