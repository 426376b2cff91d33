import GradidoBlockchain.Ledger
import GradidoBlockchain.Lib.Outcome
import GradidoBlockchain.Register.Addresses

/-!
# What the register remembers

Followed from the newest record of an address, the links lead through the types the ledger gave the
address, each number and type once. A transaction puts its records in front of all others, so the
loop that looks for a record of the transaction may stop at the first one that is not its own.
-/

namespace GradidoBlockchain

open Fallible Fallible.Call Backlinks

variable {A : Arnm}

/-- What a record says. -/
def TypeChange.event (change : TypeChange) : Nat × AddressType := (change.txNr, change.type)

/-! ### Events -/

theorem typesGiven_eq (tx : CompleteTransaction) (key : PublicKey) :
    tx.typesGiven key = ((Addresses.typed tx).filter fun given => given.1 = key).map Prod.snd := by
  rw [CompleteTransaction.typesGiven, Addresses.typed]
  cases tx.transactionType <;>
    simp only [List.filter_cons, List.filter_nil, List.map_nil, decide_eq_true_eq]
  · split <;> split <;> rfl
  · split <;> rfl
  · split <;> split <;> rfl

theorem eraseDups_concat {α : Type} [BEq α] [LawfulBEq α] (items : List α) (item : α) :
    (items ++ [item]).eraseDups =
      if item ∈ items then items.eraseDups else items.eraseDups ++ [item] := by
  rw [List.eraseDups_append]
  by_cases hmem : item ∈ items
  · rw [if_pos hmem]
    simp [List.removeAll, hmem]
  · rw [if_neg hmem]
    simp [List.removeAll, hmem, List.eraseDups_cons]

theorem eraseDups_sublist {α : Type} [BEq α] [LawfulBEq α] (items : List α) :
    items.eraseDups.Sublist items := by
  induction items using List.reverseRecOn with
  | nil => exact .slnil
  | append_singleton items item ih =>
      rw [eraseDups_concat]
      split
      · exact ih.trans (List.sublist_append_left items [item])
      · exact ih.append (.refl [item])

theorem typeEvents_append (key : PublicKey) (txs : List CompleteTransaction)
    (tx : CompleteTransaction) :
    typeEvents key (txs ++ [tx]) =
      typeEvents key txs ++ (tx.typesGiven key).map fun type => (tx.nr, type) := by
  simp [typeEvents]

theorem mem_typeEvents {key : PublicKey} {txs : List CompleteTransaction}
    {event : Nat × AddressType} (hevent : event ∈ typeEvents key txs) :
    ∃ tx ∈ txs, tx.nr = event.1 := by
  simp only [typeEvents, List.mem_flatMap, List.mem_map] at hevent
  obtain ⟨tx, htx, type, -, rfl⟩ := hevent
  exact ⟨tx, htx, rfl⟩

/-- Events in the order of their numbers, none of them above `txNr`. -/
structure Upto (txNr : Nat) (events : List (Nat × AddressType)) : Prop where
  sorted : events.Pairwise fun earlier later => earlier.1 ≤ later.1
  below : ∀ event ∈ events, event.1 ≤ txNr

theorem Upto.concat {txNr : Nat} {events : List (Nat × AddressType)} (hupto : Upto txNr events)
    (type : AddressType) : Upto txNr (events ++ [(txNr, type)]) where
  sorted := List.pairwise_append.2 ⟨hupto.sorted, List.pairwise_singleton .., fun event hevent other hother => by
    rw [List.mem_singleton.1 hother]
    exact hupto.below event hevent⟩
  below := by
    intro event hevent
    rcases List.mem_append.1 hevent with hmem | hmem
    · exact hupto.below event hmem
    · rw [List.mem_singleton.1 hmem]

theorem Upto.append {txNr : Nat} {events : List (Nat × AddressType)} (hupto : Upto txNr events)
    (types : List AddressType) : Upto txNr (events ++ types.map fun type => (txNr, type)) := by
  induction types generalizing events with
  | nil => simpa using hupto
  | cons type types ih =>
      rw [List.map_cons, List.append_cons]
      exact ih (hupto.concat type)

theorem upto_typeEvents {key : PublicKey} {txs : List CompleteTransaction} {txNr : Nat}
    (hascend : Ascending txs) (hbelow : ∀ tx ∈ txs, tx.nr ≤ txNr) :
    Upto txNr (typeEvents key txs) where
  sorted := by
    induction txs with
    | nil => exact .nil
    | cons tx txs ih =>
        obtain ⟨hfirst, hascend⟩ := List.pairwise_cons.1 hascend
        refine List.pairwise_append.2
          ⟨?_, ih hascend fun other hother => hbelow other (List.mem_cons_of_mem _ hother), ?_⟩
        · exact List.pairwise_map.2 (List.pairwise_of_forall fun _ _ => Nat.le_refl _)
        · intro event hevent later hlater
          obtain ⟨type, -, rfl⟩ := List.mem_map.1 hevent
          obtain ⟨other, hother, hnr⟩ := mem_typeEvents hlater
          exact hnr ▸ Nat.le_of_lt (hfirst other hother)
  below := by
    intro event hevent
    obtain ⟨tx, htx, hnr⟩ := mem_typeEvents hevent
    exact hnr ▸ hbelow tx htx

/-- Behind a record of an older transaction there is none of this one. -/
private theorem any_takeWhile {changes : List TypeChange} {txNr : Nat} {type : AddressType}
    (hsorted : changes.Pairwise fun newer older => older.txNr ≤ newer.txNr)
    (hbelow : ∀ change ∈ changes, change.txNr ≤ txNr) :
    ((changes.takeWhile fun change => change.txNr = txNr).any fun change => change.type = type) =
        true ↔ (txNr, type) ∈ changes.map TypeChange.event := by
  induction changes with
  | nil => simp
  | cons change changes ih =>
      obtain ⟨holder, hsorted⟩ := List.pairwise_cons.1 hsorted
      have ih := ih hsorted fun other hother => hbelow other (List.mem_cons_of_mem _ hother)
      by_cases hnr : change.txNr = txNr
      · rw [List.takeWhile_cons_of_pos (by simpa using hnr), List.any_cons, Bool.or_eq_true, ih,
          List.map_cons, List.mem_cons]
        simp [TypeChange.event, hnr, eq_comm]
      · rw [List.takeWhile_cons_of_neg (by simpa using hnr), List.any_nil]
        have hlt := Nat.lt_of_le_of_ne (hbelow change List.mem_cons_self) hnr
        refine iff_of_false Bool.false_ne_true fun hmem => ?_
        obtain ⟨other, hother, hevent⟩ := List.mem_map.1 hmem
        have hother' : other.txNr = txNr := congrArg Prod.fst hevent
        rcases List.mem_cons.1 hother with rfl | hother
        · exact hnr hother'
        · have := holder other hother
          omega

namespace Addresses

/-! ### What the register says -/

/-- Of every key but the blank one the register says that it was given these types and that this
transaction moved its balance last. -/
structure Tells (events : PublicKey → List (Nat × AddressType)) (balance : PublicKey → Nat)
    (index : Addresses A) : Prop where
  dense : index.entries.Dense
  trail : ∀ key, key ≠ zeroBytes 32 →
    ∃ changes, Trail index.typeChanges.get? TypeChange.previous noChange
        (index.entries.read .blank key).lastChange changes ∧
      changes.map TypeChange.event = (events key).eraseDups.reverse
  balance : ∀ key, key ≠ zeroBytes 32 → (index.entries.read .blank key).lastBalanceTx = balance key

/-- Only the entries and the records may differ. -/
def SameButNotes (before after : Addresses A) : Prop :=
  after = { before with entries := after.entries, typeChanges := after.typeChanges }

theorem SameButNotes.refl (index : Addresses A) : SameButNotes index index := rfl

theorem SameButNotes.trans {before middle after : Addresses A} (hfirst : SameButNotes before middle)
    (hsecond : SameButNotes middle after) : SameButNotes before after := by
  rw [SameButNotes] at *
  rw [hsecond, hfirst]

theorem Trail.start_lt {vec : Bvec TypeChange} {position : Nat} {changes : List TypeChange}
    (htrail : Trail vec.get? TypeChange.previous noChange position changes)
    (hne : position ≠ noChange) : position < vec.size := by
  cases htrail with
  | done => exact absurd rfl hne
  | step _ hget => exact Bvec.get?_eq_some_lt hget

theorem changesFrom_eq {index : Addresses A} {position : Nat} {changes : List TypeChange}
    (htrail : Trail index.typeChanges.get? TypeChange.previous noChange position changes) :
    index.changesFrom position = changes := htrail.follow_eq (Trail.start_lt htrail)

theorem entryForKey_ok {key : PublicKey} {index left : Addresses A} {room rest : Room} {id : Nat}
    (hrun : entryForKey key index room = (.ok id, left, rest)) (hdense : index.entries.Dense) :
    left = index.putEntries left.entries ∧
      Keyed.Opened .blank key index.entries id left.entries := by
  obtain ⟨entries, hslot, rfl⟩ := within_ok.1 hrun
  exact ⟨rfl, Keyed.slotForKey_ok hslot hdense⟩

theorem lastChangeAt_eq {index : Addresses A} {id : Nat} {entry : AddressEntry}
    (hget : index.entries.entries.get? id = some entry) :
    index.lastChangeAt id = entry.lastChange := by
  rw [lastChangeAt, hget]
  rfl

theorem isNoted_iff {events : List (Nat × AddressType)} {index : Addresses A} {id txNr : Nat}
    {type : AddressType} {changes : List TypeChange} (hupto : Upto txNr events)
    (htrail :
      Trail index.typeChanges.get? TypeChange.previous noChange (index.lastChangeAt id) changes)
    (hevents : changes.map TypeChange.event = events.eraseDups.reverse) :
    index.isNoted id txNr type = true ↔ (txNr, type) ∈ events := by
  have hsorted : (changes.map TypeChange.event).Pairwise fun newer older => older.1 ≤ newer.1 := by
    rw [hevents, List.pairwise_reverse]
    exact hupto.sorted.sublist (eraseDups_sublist events)
  have hbelow : ∀ change ∈ changes, change.txNr ≤ txNr := by
    intro change hchange
    have hmem : change.event ∈ changes.map TypeChange.event := List.mem_map_of_mem hchange
    rw [hevents, List.mem_reverse, List.mem_eraseDups] at hmem
    exact hupto.below _ hmem
  rw [isNoted, changesFrom_eq htrail, any_takeWhile (List.pairwise_map.1 hsorted) hbelow, hevents,
    List.mem_reverse, List.mem_eraseDups]

/-! ### Types -/

theorem pushChange_ok {id txNr : Nat} {type : AddressType} {index left : Addresses A}
    {room rest : Room} (hrun : pushChange id txNr type index room = (.ok (), left, rest)) :
    index.typeChanges.size < uint32Max ∧
      left =
        setLastChange id
          (index.putTypeChanges
            (index.typeChanges.append [⟨txNr, index.lastChangeAt id, type⟩])) := by
  obtain ⟨previous, same, _, hgets, hrun⟩ := bind_ok.1 hrun
  obtain ⟨rfl, rfl, -⟩ := gets_ok.1 hgets
  obtain ⟨_, middle, _, hemplace, hwrite⟩ := bind_ok.1 hrun
  obtain ⟨vec, hvec, rfl⟩ := within_ok.1 hemplace
  obtain ⟨hroom, rfl⟩ := Bvec.emplace_ok hvec
  exact ⟨hroom, (write_ok.1 hwrite).1.symm⟩

/-- A list keeps its trail when a record is put at the end of the row. -/
private theorem trail_append {vec : Bvec TypeChange} {position : Nat} {changes : List TypeChange}
    (change : TypeChange) (htrail : Trail vec.get? TypeChange.previous noChange position changes) :
    Trail (vec.append [change]).get? TypeChange.previous noChange position changes :=
  htrail.mono fun _ _ hget => (Bvec.get?_append_left (Bvec.get?_eq_some_lt hget)).trans hget

/-- The record put at the end of the row, linked to a list, is the newest record of that list. -/
private theorem trail_push {vec : Bvec TypeChange} {change : TypeChange} {changes : List TypeChange}
    (hroom : vec.size < uint32Max)
    (htrail : Trail vec.get? TypeChange.previous noChange change.previous changes) :
    Trail (vec.append [change]).get? TypeChange.previous noChange vec.size (change :: changes) := by
  have hslots : (vec.append [change]).slots = vec.slots ++ [change] := Bvec.append_slots hroom
  refine .step (Nat.ne_of_lt hroom) ?_ (Trail.start_lt htrail) (trail_append change htrail)
  rw [Bvec.get?, hslots, Bvec.size, List.getElem?_append_right (Nat.le_refl _), Nat.sub_self]
  rfl

section Steps

variable {events : PublicKey → List (Nat × AddressType)} {balance : PublicKey → Nat}
  {index left : Addresses A} {room rest : Room} {txNr : Nat}

/-- An entry opened says nothing new. -/
theorem Tells.opened {key : PublicKey} {id : Nat} {entries : Keyed A 32 AddressEntry}
    (htells : Tells events balance index)
    (hopened : Keyed.Opened .blank key index.entries id entries) :
    Tells events balance (index.putEntries entries) where
  dense := hopened.dense
  trail := fun other hother => by
    change ∃ changes, Trail index.typeChanges.get? TypeChange.previous noChange
        (entries.read .blank other).lastChange changes ∧ _
    rw [hopened.read]
    exact htells.trail other hother
  balance := fun other hother => by
    change (entries.read .blank other).lastBalanceTx = _
    rw [hopened.read]
    exact htells.balance other hother

theorem noteType_tells {key : PublicKey} {type : AddressType} (htells : Tells events balance index)
    (hupto : Upto txNr (events key))
    (hrun : noteType txNr key type index room = (.ok (), left, rest)) :
    SameButNotes index left ∧
      Tells (fun other => if other = key then events other ++ [(txNr, type)] else events other)
        balance left := by
  rw [noteType] at hrun
  split at hrun
  · rename_i hempty
    obtain ⟨-, rfl, -⟩ := pure_ok.1 hrun
    refine ⟨rfl, htells.dense, fun other hother => ?_, htells.balance⟩
    rw [if_neg fun heq => hother (heq.trans (isEmpty_iff.1 hempty))]
    exact htells.trail other hother
  split at hrun
  · cases hrun
  rename_i hempty _
  have hkey : key ≠ zeroBytes 32 := isEmpty_eq_false_iff.1 (by simpa using hempty)
  obtain ⟨id, middle, between, hentry, hrun⟩ := bind_ok.1 hrun
  obtain ⟨hmiddle, hopened⟩ := entryForKey_ok hentry htells.dense
  obtain ⟨noted, same, _, hgets, hrun⟩ := bind_ok.1 hrun
  obtain ⟨hnoted, rfl, -⟩ := gets_ok.1 hgets
  have hmiddleTells : Tells events balance middle := by
    rw [hmiddle]
    exact htells.opened hopened
  have hlast : middle.lastChangeAt id = (middle.entries.read .blank key).lastChange := by
    rw [lastChangeAt_eq hopened.entry, hopened.read]
  obtain ⟨changes, htrail, hevents⟩ := hmiddleTells.trail key hkey
  rw [← hlast] at htrail
  have hmem : middle.isNoted id txNr type = true ↔ (txNr, type) ∈ events key :=
    isNoted_iff hupto htrail hevents
  rw [hnoted] at hmem
  cases noted with
  | true =>
      obtain ⟨-, rfl, -⟩ := pure_ok.1 hrun
      refine ⟨by rw [hmiddle]; rfl, hmiddleTells.dense, fun other hother => ?_,
        hmiddleTells.balance⟩
      split
      · rename_i heq
        subst heq
        rw [eraseDups_concat, if_pos (hmem.1 rfl)]
        exact hmiddleTells.trail other hkey
      · exact hmiddleTells.trail other hother
  | false =>
      obtain ⟨hroom, rfl⟩ := pushChange_ok hrun
      have hread : ∀ other, ((setLastChange id
            (middle.putTypeChanges
              (middle.typeChanges.append [⟨txNr, middle.lastChangeAt id, type⟩]))).entries.read
            .blank other) =
          if other = key then
              { middle.entries.read .blank key with lastChange := middle.typeChanges.size }
            else middle.entries.read .blank other := by
        intro other
        refine (Keyed.read_modify hopened.find (Bvec.get?_eq_some_lt hopened.entry) other).trans ?_
        change (if other = key then { middle.entries.read .blank key with
          lastChange := (middle.typeChanges.append [⟨txNr, middle.lastChangeAt id, type⟩]).size - 1 } else _) = _
        rw [Bvec.size_concat hroom]
        rfl
      refine ⟨by rw [hmiddle]; rfl, Keyed.modify_dense hmiddleTells.dense, fun other hother => ?_,
        fun other hother => ?_⟩
      · rw [hread]
        by_cases heq : other = key
        · subst heq
          rw [if_pos rfl, if_pos rfl, eraseDups_concat,
            if_neg (fun h => Bool.false_ne_true (hmem.2 h)), List.reverse_append]
          exact ⟨_, trail_push hroom htrail, by rw [List.map_cons, hevents]; rfl⟩
        · rw [if_neg heq, if_neg heq]
          obtain ⟨others, hothers, hsame⟩ := hmiddleTells.trail other hother
          exact ⟨others, trail_append _ hothers, hsame⟩
      · rw [hread]
        split
        · rename_i heq
          rw [heq]
          exact hmiddleTells.balance key hkey
        · exact hmiddleTells.balance other hother

theorem noteBalance_tells {entry : AccountBalance} (htells : Tells events balance index)
    (hrun : noteBalance txNr entry index room = (.ok (), left, rest)) :
    SameButNotes index left ∧
      Tells events (fun other => if other = entry.pubkey then txNr else balance other) left := by
  rw [noteBalance] at hrun
  split at hrun
  · rename_i hempty
    obtain ⟨-, rfl, -⟩ := pure_ok.1 hrun
    refine ⟨rfl, htells.dense, htells.trail, fun other hother => ?_⟩
    rw [if_neg fun heq => hother (heq.trans (isEmpty_iff.1 hempty))]
    exact htells.balance other hother
  · obtain ⟨id, middle, between, hentry, hwrite⟩ := bind_ok.1 hrun
    obtain ⟨hmiddle, hopened⟩ := entryForKey_ok hentry htells.dense
    have hleft := (write_ok.1 hwrite).1
    subst hleft
    have hread : ∀ other, ((setLastBalance id txNr middle).entries.read .blank other) =
        if other = entry.pubkey then
            { index.entries.read .blank entry.pubkey with lastBalanceTx := txNr }
          else index.entries.read .blank other :=
      hopened.read_modify fun entry => { entry with lastBalanceTx := txNr }
    refine ⟨by rw [hmiddle]; rfl, Keyed.modify_dense hopened.dense, fun other hother => ?_,
      fun other hother => ?_⟩
    · have hlast : ((setLastBalance id txNr middle).entries.read .blank other).lastChange =
          (index.entries.read .blank other).lastChange := by
        rw [hread]
        split
        · rename_i heq
          rw [heq]
        · rfl
      rw [hlast]
      have hchanges : (setLastBalance id txNr middle).typeChanges = index.typeChanges := by
        rw [hmiddle]
        rfl
      rw [hchanges]
      exact htells.trail other hother
    · rw [hread]
      split
      · rfl
      · exact htells.balance other hother

theorem Tells.congr {events' : PublicKey → List (Nat × AddressType)} {balance' : PublicKey → Nat}
    (htells : Tells events balance index)
    (hevents : ∀ key, key ≠ zeroBytes 32 → events key = events' key)
    (hbalance : ∀ key, key ≠ zeroBytes 32 → balance key = balance' key) :
    Tells events' balance' index where
  dense := htells.dense
  trail := fun key hkey => hevents key hkey ▸ htells.trail key hkey
  balance := fun key hkey => (htells.balance key hkey).trans (hbalance key hkey)

end Steps

/-! ### One more transaction -/

theorem typed_tells {events : PublicKey → List (Nat × AddressType)} {balance : PublicKey → Nat}
    {index left : Addresses A} {room rest : Room} {txNr : Nat}
    {givens : List (PublicKey × AddressType)} (htells : Tells events balance index)
    (hupto : ∀ key, Upto txNr (events key))
    (hrun : (givens.forM fun given => noteType txNr given.1 given.2) index room =
      (.ok (), left, rest)) :
    SameButNotes index left ∧
      Tells (fun key =>
        events key ++
          ((givens.filter fun given => given.1 = key).map Prod.snd).map fun type => (txNr, type))
        balance left := by
  refine forM_ok
    (fun before state =>
      SameButNotes index state ∧
        Tells (fun key =>
          events key ++
            ((before.filter fun given => given.1 = key).map Prod.snd).map fun type => (txNr, type))
          balance state) ⟨.refl index, htells.congr (by simp) fun _ _ => rfl⟩ ?_ hrun
  rintro before given after middle state room rest - ⟨hsame, hmiddle⟩ hbody
  obtain ⟨hsame', hstate⟩ := noteType_tells hmiddle ((hupto _).append _) hbody
  refine ⟨hsame.trans hsame', hstate.congr (fun key _ => ?_) fun _ _ => rfl⟩
  by_cases heq : key = given.1
  · rw [if_pos heq, List.filter_append, List.filter_cons_of_pos (by simpa using heq.symm)]
    simp
  · rw [if_neg heq, List.filter_append,
      List.filter_cons_of_neg (by simpa using fun h => heq h.symm)]
    simp

theorem balances_tells {events : PublicKey → List (Nat × AddressType)} {balance : PublicKey → Nat}
    {index left : Addresses A} {room rest : Room} {txNr : Nat} {balances : List AccountBalance}
    (htells : Tells events balance index)
    (hrun : balances.forM (noteBalance txNr) index room = (.ok (), left, rest)) :
    SameButNotes index left ∧
      Tells events (fun key => if ∃ entry ∈ balances, entry.pubkey = key then txNr else balance key)
        left := by
  refine forM_ok
    (fun before state =>
      SameButNotes index state ∧
        Tells events (fun key => if ∃ entry ∈ before, entry.pubkey = key then txNr else balance key)
          state) ⟨.refl index, htells.congr (fun _ _ => rfl) (by simp)⟩ ?_ hrun
  rintro before entry after middle state room rest - ⟨hsame, hmiddle⟩ hbody
  obtain ⟨hsame', hstate⟩ := noteBalance_tells hmiddle hbody
  refine ⟨hsame.trans hsame', hstate.congr (fun _ _ => rfl) fun key _ => ?_⟩
  simp only [List.mem_append, List.mem_singleton, or_and_right, exists_or, exists_eq_left]
  by_cases heq : key = entry.pubkey
  · rw [if_pos heq, if_pos (.inr heq.symm)]
  · simp [heq, Ne.symm heq]

theorem accepts_ok {tx : CompleteTransaction} {index : Addresses A}
    (haccepts : accepts tx index = .ok ()) :
    index.ready = true ∧ (index.transactionCount = 0 ∨ index.maxTxNr < tx.nr) ∧
      tx.transactionType.code < TransactionType.count := by
  rw [accepts, Outcome.guard_ok, Outcome.guard_ok, Outcome.guard_ok] at haccepts
  obtain ⟨hready, hnext, htype, -⟩ := haccepts
  exact ⟨by simpa using hready, by omega, by omega⟩

/-- What one more transaction adds to what the register says. -/
theorem add_tells {events : PublicKey → List (Nat × AddressType)} {balance : PublicKey → Nat}
    {index left : Addresses A} {room rest : Room} {tx : CompleteTransaction}
    (htells : Tells events balance index) (hupto : ∀ key, Upto tx.nr (events key))
    (hrun : add tx index room = (.ok (), left, rest)) :
    (index.ready = true ∧ left.ready = true) ∧
      Tells (fun key => events key ++ (tx.typesGiven key).map fun type => (tx.nr, type))
        (fun key => if tx.ListsBalance key then tx.nr else balance key) left := by
  obtain ⟨_, same, _, hcheck, hrun⟩ := bind_ok.1 hrun
  obtain ⟨haccepts, rfl, -⟩ := check_ok.1 hcheck
  obtain ⟨_, noted, _, hnote, hcommit⟩ := bind_ok.1 hrun
  obtain ⟨_, middle, _, htyped, hbalances⟩ := bind_ok.1 hnote
  obtain ⟨hsame, hmiddle⟩ := typed_tells htells hupto htyped
  obtain ⟨hsame', hnoted⟩ := balances_tells hmiddle hbalances
  have hready := (accepts_ok haccepts).1
  rw [← (write_ok.1 hcommit).1]
  refine ⟨⟨hready, ?_⟩, ?_⟩
  · change noted.ready = true
    rw [hsame.trans hsame']
    exact hready
  · have hcommitted : Tells
        (fun key => events key ++ (tx.typesGiven key).map fun type => (tx.nr, type))
        (fun key => if tx.ListsBalance key then tx.nr else balance key) noted :=
      hnoted.congr (fun key _ => by rw [typesGiven_eq]) fun key hkey => by
        simp [CompleteTransaction.ListsBalance, hkey]
    exact ⟨hcommitted.dense, hcommitted.trail, hcommitted.balance⟩

end Addresses

end GradidoBlockchain
