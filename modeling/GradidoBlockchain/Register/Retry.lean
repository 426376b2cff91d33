import GradidoBlockchain.Register.History

/-!
# An add to the register can be repeated

A record of a type is written in one piece and only where the records of the transaction do not have
it yet, so a repetition finds it and passes over it. The steps after it put other records of the
same transaction in front, behind which it is still found.
-/

namespace GradidoBlockchain

open Fallible Fallible.Call Backlinks

variable {A : Arnm}

namespace Addresses

/-! ### Records in front of records -/

/-- What is found among the first records of a list is found in any list that goes on after it. -/
theorem any_takeWhile_of_isPrefix {α : Type} {keep test : α → Bool} {items more : List α}
    (hbegins : items <+: more) (hfound : (items.takeWhile keep).any test = true) :
    (more.takeWhile keep).any test = true := by
  induction items generalizing more with
  | nil => cases hfound
  | cons item items ih =>
      obtain ⟨rest, rfl⟩ := hbegins
      rw [List.cons_append]
      by_cases hkeep : keep item = true
      · rw [List.takeWhile_cons_of_pos hkeep, List.any_cons, Bool.or_eq_true] at hfound ⊢
        exact hfound.imp_right (ih (List.prefix_append items rest))
      · rw [List.takeWhile_cons_of_neg hkeep] at hfound
        cases hfound

theorem changesFrom_append {index : Addresses A} (change : TypeChange) (position : Nat) :
    index.changesFrom position <+:
      (index.putTypeChanges (index.typeChanges.append [change])).changesFrom position := by
  refine follow_prefix (fun other record hget => ?_) ?_ position
  · exact (Bvec.get?_append_left (Bvec.get?_eq_some_lt hget)).trans hget
  · change index.typeChanges.size ≤ (index.typeChanges.append [change]).size
    simp only [Bvec.size, Bvec.append, List.length_append]
    omega

/-- The record just put into the row is the first of the list it has been put in front of. -/
theorem changesFrom_pushed {index : Addresses A} {change : TypeChange}
    (hroom : index.typeChanges.size < uint32Max) :
    ∃ older, (index.putTypeChanges (index.typeChanges.append [change])).changesFrom
          index.typeChanges.size = change :: older ∧
      index.changesFrom change.previous <+: older := by
  have hslots : (index.typeChanges.append [change]).slots = index.typeChanges.slots ++ [change] :=
    Bvec.concat_slots hroom
  have hget : (index.typeChanges.append [change]).get? index.typeChanges.size = some change :=
    Bvec.get?_last hslots
  refine ⟨follow (index.typeChanges.append [change]).get? TypeChange.previous noChange
      index.typeChanges.size change.previous, ?_, ?_⟩
  · change follow (index.typeChanges.append [change]).get? TypeChange.previous noChange
        (index.typeChanges.append [change]).size index.typeChanges.size = _
    rw [Bvec.size_concat hroom]
    exact follow_step (Nat.ne_of_lt hroom) hget
  · refine follow_prefix (fun other record hother => ?_) (Nat.le_refl _) change.previous
    exact (Bvec.get?_append_left (Bvec.get?_eq_some_lt hother)).trans hother

/-! ### Onward -/

/-- What noting one transaction may have changed: balances that are now of this transaction, and
records put behind those of it that were there. -/
structure Onward (txNr : Nat) (start index : Addresses A) : Prop where
  same : SameButNotes start index
  entries : Keyed.Carries
    (fun entry later => later.lastBalanceTx = entry.lastBalanceTx ∨ later.lastBalanceTx = txNr)
    start.entries index.entries
  noted : ∀ id < start.entries.entries.size,
    ∀ type, start.isNoted id txNr type = true → index.isNoted id txNr type = true

theorem Onward.refl (txNr : Nat) (index : Addresses A) : Onward txNr index index :=
  ⟨.refl index, .refl (fun _ => .inl rfl) _, fun _ _ _ h => h⟩

section Steps

variable {txNr : Nat}

theorem pushChange_error {id : Nat} {type : AddressType} {index left : Addresses A}
    {room rest : Room} {code : ArnmResult}
    (hrun : pushChange id txNr type index room = (.error code, left, rest)) :
    code = .outOfMemory ∧ left = index := by
  rcases bind_error.1 hrun with hgets | ⟨previous, same, _, hgets, hrun⟩
  · cases hgets
  · obtain ⟨-, rfl, -⟩ := gets_ok.1 hgets
    rcases bind_error.1 hrun with hemplace | ⟨_, middle, _, -, hwrite⟩
    · obtain ⟨vec, hvec, rfl⟩ := within_error.1 hemplace
      obtain ⟨rfl, rfl⟩ := Bvec.emplace_error hvec
      exact ⟨rfl, rfl⟩
    · cases hwrite

/-- Of an entry that has been given a record, it is the newest; all other entries keep theirs. -/
theorem lastChangeAt_pushed {index : Addresses A} {id : Nat} {change : TypeChange}
    (hroom : index.typeChanges.size < uint32Max) (hopen : id < index.entries.entries.size)
    (other : Nat) :
    (setLastChange id (index.putTypeChanges (index.typeChanges.append [change]))).lastChangeAt
        other = if id = other then index.typeChanges.size else index.lastChangeAt other := by
  change ((index.entries.entries.modify id _).get? other).elim noChange AddressEntry.lastChange = _
  rw [Bvec.get?_modify]
  by_cases heq : id = other
  · obtain ⟨entry, hget⟩ := Bvec.get?_isSome hopen
    rw [if_pos heq, if_pos heq, ← heq, hget]
    change (index.typeChanges.append [change]).size - 1 = _
    rw [Bvec.size_concat hroom, Nat.add_sub_cancel]
  · rw [if_neg heq, if_neg heq]
    rfl

theorem isNoted_pushed {index : Addresses A} {id other : Nat} {type given : AddressType}
    (hroom : index.typeChanges.size < uint32Max) (hopen : id < index.entries.entries.size)
    (hnoted : index.isNoted other txNr given = true ∨ other = id ∧ given = type) :
    (setLastChange id
        (index.putTypeChanges
          (index.typeChanges.append [⟨txNr, index.lastChangeAt id, type⟩]))).isNoted other txNr
        given = true := by
  let change : TypeChange := ⟨txNr, index.lastChangeAt id, type⟩
  obtain ⟨older, hchanges, hbegins⟩ : ∃ older, (index.putTypeChanges
          (index.typeChanges.append [change])).changesFrom index.typeChanges.size =
        change :: older ∧ index.changesFrom change.previous <+: older := changesFrom_pushed hroom
  have hrows : ∀ position, (setLastChange id
        (index.putTypeChanges (index.typeChanges.append [change]))).changesFrom position =
      (index.putTypeChanges (index.typeChanges.append [change])).changesFrom position :=
    fun _ => rfl
  rw [isNoted, lastChangeAt_pushed hroom hopen, hrows]
  by_cases heq : id = other
  · rw [if_pos heq, hchanges, List.takeWhile_cons_of_pos (by simp [change]), List.any_cons,
      Bool.or_eq_true]
    rcases hnoted with hnoted | ⟨-, rfl⟩
    · subst heq
      exact .inr (any_takeWhile_of_isPrefix hbegins hnoted)
    · exact .inl (decide_eq_true rfl)
  · rw [if_neg heq]
    rcases hnoted with hnoted | ⟨rfl, -⟩
    · exact any_takeWhile_of_isPrefix (changesFrom_append _ _) hnoted
    · exact absurd rfl heq

theorem entryForKey_onward (start : Addresses A) (key : PublicKey) :
    Keeps (Onward txNr start) (entryForKey key) := by
  intro index room honward
  have hextends := Keyed.slotForKey_extends AddressEntry.blank key index.entries room
  refine ⟨honward.same.trans rfl, honward.entries.onward hextends, fun id hid type hnoted => ?_⟩
  have hbefore := honward.noted id hid type hnoted
  obtain ⟨entry, hentry⟩ := Bvec.get?_isSome hid
  obtain ⟨later, hlater, -⟩ := honward.entries.entry id entry hentry
  have hlast : (entryForKey key index room).2.1.lastChangeAt id = index.lastChangeAt id := by
    rw [lastChangeAt_eq hlater]
    exact lastChangeAt_eq (hextends.entry id later hlater)
  rw [isNoted, hlast]
  exact hbefore

theorem pushChange_onward (start : Addresses A) (id : Nat) (type : AddressType) :
    Keeps (fun index => Onward txNr start index ∧ id < index.entries.entries.size)
      (pushChange id txNr type) := by
  rintro index room ⟨honward, hopen⟩
  rcases hrun : pushChange id txNr type index room with ⟨code | _, left, rest⟩
  · obtain ⟨-, rfl⟩ := pushChange_error hrun
    exact ⟨honward, hopen⟩
  · obtain ⟨hroom, rfl⟩ := pushChange_ok hrun
    refine ⟨⟨honward.same.trans rfl, honward.entries.modify fun _ _ hlast => hlast,
        fun other hother given hnoted => ?_⟩, ?_⟩
    · exact isNoted_pushed hroom hopen (.inl (honward.noted other hother given hnoted))
    · change id < (index.entries.entries.modify id _).size
      rw [Bvec.size_modify]
      exact hopen

theorem setLastBalance_onward {start index : Addresses A} (honward : Onward txNr start index)
    (id : Nat) : Onward txNr start (setLastBalance id txNr index) := by
  refine ⟨honward.same.trans rfl, honward.entries.modify fun _ _ _ => .inr rfl,
    fun other hother type hnoted => ?_⟩
  have hlast : (setLastBalance id txNr index).lastChangeAt other = index.lastChangeAt other := by
    change ((index.entries.entries.modify id _).get? other).elim noChange AddressEntry.lastChange =
      _
    rw [Bvec.get?_modify]
    split
    · rw [lastChangeAt]
      rcases index.entries.entries.get? other with _ | entry <;> rfl
    · rfl
  rw [isNoted, hlast]
  exact honward.noted other hother type hnoted

end Steps

/-! ### Traces -/

/-- A type has been noted for a key, unless the key is blank. -/
def TypeDone (txNr : Nat) (given : PublicKey × AddressType) (index : Addresses A) : Prop :=
  isEmpty given.1 = true ∨
    given.2.known = true ∧
      ∃ id, index.entries.OpenAt given.1 id ∧ index.isNoted id txNr given.2 = true

/-- The last balance of a key is the one of this transaction, unless the key is blank. -/
def BalanceDone (txNr : Nat) (balance : AccountBalance) (index : Addresses A) : Prop :=
  isEmpty balance.pubkey = true ∨ ∃ id entry, index.entries.OpenAt balance.pubkey id ∧
    index.entries.entries.get? id = some entry ∧ entry.lastBalanceTx = txNr

/-- What noting more of the same transaction cannot undo. -/
def Lasts (txNr : Nat) (inv : Addresses A → Prop) : Prop :=
  ∀ start index, Onward txNr start index → inv start → inv index

section Retry

variable {txNr : Nat}

theorem lasts_typeDone (given : PublicKey × AddressType) :
    Lasts txNr fun index : Addresses A => TypeDone txNr given index := by
  intro start index honward hdone
  refine hdone.imp_right (And.imp_right ?_)
  rintro ⟨id, hopen, hnoted⟩
  exact ⟨id, hopen.carried honward.entries, honward.noted id hopen.2 given.2 hnoted⟩

theorem lasts_balanceDone (balance : AccountBalance) :
    Lasts txNr fun index : Addresses A => BalanceDone txNr balance index := by
  intro start index honward hdone
  refine hdone.imp_right ?_
  rintro ⟨id, entry, hopen, hget, hlast⟩
  obtain ⟨later, hlater, heq⟩ := honward.entries.entry id entry hget
  exact ⟨id, later, hopen.carried honward.entries, hlater,
    heq.elim (fun hsame => hsame.trans hlast) fun hown => hown⟩

theorem entryForKey_retryable (key : PublicKey) :
    Retryable (fun _ : Addresses A => True) ArnmResult.outOfMemory (entryForKey key)
      (fun id index => index.entries.OpenAt key id) :=
  .within entries putEntries (fun _ _ => rfl) (fun _ => rfl) (fun _ _ _ => rfl)
    (Keyed.slotForKey_retryable .blank key)

theorem pushChange_resumable {inv : Addresses A → Prop} (id : Nat) (type : AddressType) :
    Resumable inv ArnmResult.outOfMemory (pushChange id txNr type) := by
  refine .unchanged ?_ fun hrun => (pushChange_error hrun).2
  refine (Retryable.gets _).bindResumable fun previous => .andThen ?_ fun _ _ => nofun
  exact .within typeChanges putTypeChanges (fun _ _ _ => rfl) (fun _ _ _ => rfl)
    (fun houter _ => houter) (Bvec.emplace_resumable _)

theorem noteType_retryable (given : PublicKey × AddressType) :
    Retryable (fun _ : Addresses A => True) ArnmResult.outOfMemory (noteType txNr given.1 given.2)
      (fun _ => TypeDone txNr given) := by
  rw [noteType]
  split
  · exact (Retryable.pure ()).settling (fun _ _ _ _ => .inl ‹_›) (fun _ _ _ _ => rfl)
  split
  · refine .plain (fun _ h => h) (fun _ _ hcode => ?_) (fun _ _ _ hcode => ?_)
      fun index _ _ hdone => ?_
    · cases hcode
    · cases hcode
    rcases hdone with hempty | ⟨hknown, -⟩
    · exact absurd hempty ‹_›
    · exact absurd hknown ‹_›
  have hpush : ∀ id, Retryable (fun index : Addresses A => True ∧ index.entries.OpenAt given.1 id) ArnmResult.outOfMemory
      (do
        let noted ← gets fun index => index.isNoted id txNr given.2
        if noted then pure () else pushChange id txNr given.2)
      (fun _ index => index.isNoted id txNr given.2 = true) := by
    intro id
    refine (pushChange_resumable id given.2).unlessDone ?_ ?_
    · intro index room hinv _
      refine ⟨trivial,
        hinv.2.carried
          (pushChange_onward index id given.2 index room ⟨.refl txNr index, hinv.2.2⟩).1.entries⟩
    · intro index left room rest hinv _ hrun
      obtain ⟨hroom, rfl⟩ := pushChange_ok hrun
      exact isNoted_pushed hroom hinv.2.2 (.inr ⟨rfl, rfl⟩)
  refine ((entryForKey_retryable given.1).bind hpush).settling ?_ ?_
  · rintro - index - ⟨id, hopen, hnoted⟩
    exact .inr ⟨by simpa using ‹¬¬_›, id, hopen, hnoted⟩
  · rintro - index - (hempty | ⟨-, id, hopen, hnoted⟩)
    · exact absurd hempty ‹_›
    · exact ⟨id, hopen, hnoted⟩

theorem noteBalance_retryable (balance : AccountBalance) :
    Retryable (fun _ : Addresses A => True) ArnmResult.outOfMemory (noteBalance txNr balance)
      (fun _ => BalanceDone txNr balance) := by
  rw [noteBalance]
  split
  · exact (Retryable.pure ()).settling (fun _ _ _ _ => .inl ‹_›) (fun _ _ _ _ => rfl)
  have hset : ∀ id, Retryable
      (fun index : Addresses A => True ∧ index.entries.OpenAt balance.pubkey id)
      ArnmResult.outOfMemory (write (setLastBalance id txNr))
      (fun _ index =>
        ∃ entry, index.entries.entries.get? id = some entry ∧ entry.lastBalanceTx = txNr) := by
    intro id
    refine .write (fun index hinv => ⟨trivial, hinv.2.modify⟩) (fun index hinv => ?_)
      (fun index _ hdone => ?_)
    · obtain ⟨entry, hget⟩ := Bvec.get?_isSome hinv.2.2
      refine ⟨{ entry with lastBalanceTx := txNr }, ?_, rfl⟩
      change (index.entries.entries.modify id _).get? id = _
      rw [Bvec.get?_modify, if_pos rfl, hget]
      rfl
    · obtain ⟨entry, hget, rfl⟩ := hdone
      rw [setLastBalance, Keyed.modify_eq_self hget rfl]
      rfl
  refine ((entryForKey_retryable balance.pubkey).bind hset).settling ?_ ?_
  · rintro - index - ⟨id, hopen, entry, hget, hlast⟩
    exact .inr ⟨id, entry, hopen, hget, hlast⟩
  · rintro - index - (hempty | ⟨id, entry, hopen, hget, hlast⟩)
    · exact absurd hempty ‹_›
    · exact ⟨id, hopen, entry, hget, hlast⟩

/-! ### The whole add -/

theorem noteType_onward (start : Addresses A) (given : PublicKey × AddressType) :
    Keeps (Onward txNr start) (noteType txNr given.1 given.2) := by
  rw [noteType]
  refine .ite (.pure ()) (.ite (.fail _) ?_)
  intro index room honward
  rw [bind_run]
  have hopened := entryForKey_onward start given.1 index room honward
  rcases hentry : entryForKey given.1 index room with ⟨code | id, middle, between⟩
  · rwa [hentry] at hopened
  · rw [hentry] at hopened
    have hopen := (entryForKey_retryable given.1).settles trivial hentry
    dsimp only
    rw [bind_run_ok (gets_run _ _ _)]
    split
    · exact hopened
    · exact (pushChange_onward start id given.2 middle between ⟨hopened, hopen.2⟩).1

theorem noteBalance_onward (start : Addresses A) (balance : AccountBalance) :
    Keeps (Onward txNr start) (noteBalance txNr balance) :=
  .ite (.pure ()) ((entryForKey_onward start balance.pubkey).bind fun id =>
    .write fun _ honward => setLastBalance_onward honward id)

theorem note_onward (tx : CompleteTransaction) (start : Addresses A) :
    Keeps (Onward tx.nr start) (note tx) :=
  .bind (.forM fun given _ => noteType_onward start given) fun _ =>
    .forM fun balance _ => noteBalance_onward start balance

theorem note_resumable (tx : CompleteTransaction) :
    Resumable (fun _ : Addresses A => True) ArnmResult.outOfMemory (note tx) := by
  have htypes : Retryable (fun _ : Addresses A => True) ArnmResult.outOfMemory
      ((typed tx).forM fun given => noteType tx.nr given.1 given.2)
      (fun _ index => ∀ given ∈ typed tx, TypeDone tx.nr given index) := by
    refine .forM (fun given _ => noteType_retryable given) fun given _ other _ =>
      .of_onward (fun start => noteType_onward start other) (.refl tx.nr) ?_
    exact fun start index honward hinv => ⟨trivial, lasts_typeDone given start index honward hinv.2⟩
  have hall : Lasts tx.nr fun index : Addresses A => True ∧ ∀ given ∈ typed tx, TypeDone tx.nr given index :=
    fun start index honward hinv =>
      ⟨trivial, fun given hgiven => lasts_typeDone given start index honward (hinv.2 given hgiven)⟩
  have hbalances : Retryable
      (fun index : Addresses A => True ∧ ∀ given ∈ typed tx, TypeDone tx.nr given index)
      ArnmResult.outOfMemory (tx.accountBalances.forM (noteBalance tx.nr))
      (fun _ index => ∀ balance ∈ tx.accountBalances, BalanceDone tx.nr balance index) := by
    refine .forM (fun balance _ => ?_) fun balance _ other _ => ?_
    · exact (noteBalance_retryable balance).given
        (.of_onward (fun start => noteBalance_onward start balance) (.refl tx.nr) hall)
    · refine .of_onward (fun start => noteBalance_onward start other) (.refl tx.nr)
        fun start index honward hinv => ?_
      exact ⟨hall start index honward hinv.1, lasts_balanceDone balance start index honward hinv.2⟩
  exact htypes.bindResumable fun _ => hbalances.resumable

theorem accepts_ne_oom (tx : CompleteTransaction) (index : Addresses A) :
    accepts tx index ≠ .error .outOfMemory := by
  rw [accepts]
  split_ifs <;> intro hcode <;> cases hcode

/-- The checks of an add look at nothing a note writes. -/
theorem accepts_of_same {tx : CompleteTransaction} {start index : Addresses A}
    (hsame : SameButNotes start index) : accepts tx index = accepts tx start := by
  rw [hsame]
  rfl

/-- Refused room anywhere, an add can be repeated. -/
theorem add_resumable (tx : CompleteTransaction) :
    Resumable (fun _ : Addresses A => True) ArnmResult.outOfMemory (add tx) := by
  refine (Retryable.check fun index _ => accepts_ne_oom tx index).bindResumable fun _ => ?_
  refine Resumable.andThen ((note_resumable tx).given fun index room hinv => ⟨trivial, ?_⟩)
    fun _ _ => nofun
  rw [accepts_of_same (note_onward tx index index room (.refl tx.nr index)).same]
  exact hinv.2

end Retry

end Addresses

end GradidoBlockchain
