import GradidoBlockchain.Runtime.Filled
import GradidoBlockchain.Store.InMemory

/-!
# What an append does

A record that is taken stands in a new last slot, and its number is counted in. Whatever an append
is refused for, the store is as it was; only the arena that a decode has opened may be left behind.
-/

namespace GradidoBlockchain

open Fallible Fallible.Call

namespace InMemory

variable {store : InMemory} {tx slot : Runtime.CompleteTransaction} {arenas : Runtime.Arenas}
  {codec : Mapping.Codec} {host : Mapping.RecordHost} {serialized : List UInt8} {room rest : Room}

/-- The store with a new slot. -/
def slotted (store : InMemory) (slot : Runtime.CompleteTransaction) : InMemory :=
  { store with records := store.records.append [slot] }

/-- The store with a record that it has counted in. -/
def took (store : InMemory) (tx : Runtime.CompleteTransaction) : InMemory :=
  (store.slotted tx).noteAppended tx.txNr

theorem slots_slotted (hlt : store.records.size < uint32Max) (slot : Runtime.CompleteTransaction) :
    (store.slotted slot).records.slots = store.records.slots ++ [slot] :=
  Bvec.concat_slots hlt

theorem last_slotted (hlt : store.records.size < uint32Max) (slot : Runtime.CompleteTransaction) :
    (store.slotted slot).records.size - 1 = store.records.slots.length := by
  rw [slotted, Bvec.size_concat hlt, Nat.add_sub_cancel, Bvec.size]

theorem kept_slotted (hlt : store.records.size < uint32Max) :
    kept (store.slotted slot, arenas) = (slot, arenas) := by
  have hlast := Bvec.get?_last (slots_slotted hlt slot)
  rw [kept, last_slotted hlt, hlast]
  rfl

theorem setKept_slotted (hlt : store.records.size < uint32Max) (owned : Runtime.Owned) :
    setKept owned (store.slotted slot, arenas) = (store.slotted owned.1, owned.2) := by
  have hlast := Bvec.modify_last (slots_slotted hlt slot) fun _ => owned.1
  have hslots : (store.records.append [slot]).modify store.records.slots.length (fun _ => owned.1) =
      store.records.append [owned.1] := by
    ext1
    exact hlast.trans (Bvec.concat_slots hlt).symm
  rw [setKept, last_slotted hlt]
  simp only [slotted, hslots]

theorem pop_slotted (hlt : store.records.size < uint32Max) :
    { store.slotted slot with records := (store.slotted slot).records.pop } = store := by
  simp only [slotted, Bvec.pop_concat hlt]

/-! ### Records that are moved in -/

theorem emplace_ok {σ : Type} {part : σ → InMemory} {put : InMemory → σ → σ} {state left : σ}
    (hrun : emplace slot part put state room = (.ok (), left, rest)) :
    (part state).records.size < uint32Max ∧ left = put ((part state).slotted slot) state := by
  obtain ⟨inner, hinner, rfl⟩ := within_ok.1 hrun
  obtain ⟨records, hrecords, rfl⟩ := within_ok.1 hinner
  obtain ⟨hlt, rfl⟩ := Bvec.emplace_ok hrecords
  exact ⟨hlt, rfl⟩

theorem emplace_granted {σ : Type} {part : σ → InMemory} {put : InMemory → σ → σ} {state left : σ}
    (hrun : emplace slot part put state room = (.ok (), left, rest)) :
    granted 1 room = some rest := by
  obtain ⟨inner, hinner, -⟩ := within_ok.1 hrun
  obtain ⟨records, hrecords, -⟩ := within_ok.1 hinner
  rw [Bvec.emplace, bind_run_ok (gets_run _ _ _)] at hrecords
  split at hrecords
  · exact granted_of_grow hrecords
  · cases hrecords

theorem emplace_error {σ : Type} {part : σ → InMemory} {put : InMemory → σ → σ} {state left : σ}
    {code : ArnmResult} (hrun : emplace slot part put state room = (.error code, left, rest)) :
    left = put (part state) state := by
  obtain ⟨inner, hinner, rfl⟩ := within_error.1 hrun
  obtain ⟨records, hrecords, rfl⟩ := within_error.1 hinner
  obtain ⟨-, rfl⟩ := Bvec.emplace_error hrecords
  rfl

theorem append_ok {left : InMemory × Runtime.CompleteTransaction}
    (hrun : append (store, tx) room = (.ok (), left, rest)) :
    store.records.size < uint32Max ∧ store.isNext tx.txNr = true ∧
      left = (store.took tx, .init) := by
  rw [append, bind_run_ok (gets_run _ _ _)] at hrun
  simp only [id] at hrun
  split at hrun
  · obtain ⟨_, _, _, hemplace, hrun⟩ := bind_ok.1 hrun
    obtain ⟨hlt, rfl⟩ := emplace_ok hemplace
    obtain ⟨_, _, _, hmove, hnote⟩ := bind_ok.1 hrun
    obtain ⟨rfl, -⟩ := write_ok.1 hmove
    obtain ⟨rfl, -⟩ := write_ok.1 hnote
    exact ⟨hlt, ‹_›, rfl⟩
  · cases hrun

/-- Refused, the store is as it was and the record is still the caller's. -/
theorem append_error {left : InMemory × Runtime.CompleteTransaction} {code : ArnmResult}
    (hrun : append (store, tx) room = (.error code, left, rest)) : left = (store, tx) := by
  rw [append, bind_run_ok (gets_run _ _ _)] at hrun
  simp only [id] at hrun
  split at hrun
  · rcases bind_error.1 hrun with hemplace | ⟨_, _, _, -, hrun⟩
    · rw [emplace_error hemplace]
    · obtain hmove | ⟨_, _, _, -, hnote⟩ := bind_error.1 hrun
      · cases hmove
      · cases hnote
  · cases hrun
    rfl

/-! ### Records that are decoded -/

/-- The record that a decode in the store's newest slot ends with. -/
def decodedInto (store : InMemory) (arenas : Runtime.Arenas) (confirmed : Wire.ConfirmedTransaction)
    (body : Wire.TransactionBody) : Runtime.CompleteTransaction :=
  Mapping.recordOf confirmed body store.communityUuid (arenas.next .store)

theorem decodedInto_memoryArea (confirmed : Wire.ConfirmedTransaction)
    (body : Wire.TransactionBody) :
    (store.decodedInto arenas confirmed body).memoryArea = some (arenas.next .store) :=
  Mapping.recordOf_memoryArea ..

/-- Once its arena is open, the record can be filled with what the bytes say. -/
def Settles (codec : Mapping.Codec) (host : Mapping.RecordHost) (serialized : List UInt8)
    (room : Room) : Prop :=
  ∀ confirmed body middle after, Mapping.decodeBoth codec host.toHost serialized () room =
      (.ok (confirmed, body), (), middle) →
    Mapping.calculateMemorySize confirmed body ≤ host.maxAllocSize → granted 1 middle = some after →
    Mapping.Fillable host body confirmed ∧
      ∃ rest, granted (Mapping.fillRequests body confirmed) after = some rest

theorem decodeKept_ok {left : InMemory × Runtime.Arenas} (hlt : store.records.size < uint32Max)
    (hrun : decodeKept codec host serialized (store.slotted .init, arenas) room =
      (.ok (), left, rest)) :
    ∃ confirmed body, Mapping.decoded codec host.toHost serialized = some (confirmed, body) ∧
      store.isNext (store.decodedInto arenas confirmed body).txNr = true ∧
      left = (store.slotted (store.decodedInto arenas confirmed body), arenas.openNext .store) := by
  rw [decodeKept, bind_run_ok (gets_run _ _ _), id] at hrun
  obtain ⟨_, middle, between, hdecode, hcheck⟩ := bind_ok.1 hrun
  obtain ⟨owned, hinit, rfl⟩ := within_ok.1 hdecode
  rw [kept_slotted hlt] at hinit
  rw [setKept_slotted hlt] at hcheck
  obtain ⟨confirmed, body, hdecoded, rfl⟩ := Mapping.initFromProtobuf_ok hinit
  rw [checkNext, bind_run_ok (gets_run _ _ _), id, kept_slotted hlt] at hcheck
  split at hcheck
  · obtain ⟨-, rfl, -⟩ := pure_ok.1 hcheck
    exact ⟨confirmed, body, hdecoded, ‹_›, rfl⟩
  · cases hcheck

/-- Refused, the decode has opened no arena, or has given it back, or the record
could not be filled. -/
theorem decodeKept_error {left : InMemory × Runtime.Arenas} {failure : Mapping.Failure}
    (hlt : store.records.size < uint32Max)
    (hrun : decodeKept codec host serialized (store.slotted .init, arenas) room =
      (.error failure, left, rest)) :
    (∃ slot, left.1 = store.slotted slot) ∧
      (left.2 = arenas ∨ left.2 = (arenas.openNext .store).release (some (arenas.next .store)) ∨
        ¬Settles codec host serialized room ∧ left.2 = arenas.openNext .store) := by
  rw [decodeKept, bind_run_ok (gets_run _ _ _), id] at hrun
  rcases bind_error.1 hrun with hdecode | ⟨_, middle, between, hdecode, hcheck⟩
  · obtain ⟨owned, hinit, rfl⟩ := within_error.1 hdecode
    rw [kept_slotted hlt] at hinit
    rw [setKept_slotted hlt]
    refine ⟨⟨owned.1, rfl⟩, ?_⟩
    rcases Mapping.initFromProtobuf_cases hinit with
      ⟨-, rfl | rfl⟩ |
        ⟨confirmed, body, middle, after, inner, hboth, hsize, hgranted, hfill, houtcome⟩
    · exact .inl rfl
    · exact .inl rfl
    · refine .inr (.inr ⟨fun hsettles => ?_, (Mapping.fillRecord_area hfill).2⟩)
      obtain ⟨hfillable, last, hlast⟩ := hsettles confirmed body middle after hboth hsize hgranted
      cases (congrArg Prod.fst hfill).symm.trans
        (congrArg Prod.fst (Mapping.fillRecord_ok_iff.2 ⟨hfillable, hlast, rfl⟩))
      cases houtcome
  · obtain ⟨owned, hinit, rfl⟩ := within_ok.1 hdecode
    rw [kept_slotted hlt] at hinit
    rw [setKept_slotted hlt, checkNext, bind_run_ok (gets_run _ _ _), id, kept_slotted hlt]
      at hcheck
    split at hcheck
    · cases hcheck
    · obtain ⟨_, _, _, hrelease, hfail⟩ := (bind_error.1 hcheck).resolve_left fun h => by cases h
      obtain ⟨rfl, -⟩ := write_ok.1 hrelease
      cases hfail
      rw [kept_slotted hlt, setKept_slotted hlt]
      refine ⟨⟨_, rfl⟩, .inr (.inl ?_)⟩
      rcases Mapping.initFromProtobuf_cases hinit
        with ⟨hfails, -⟩ | ⟨_, _, _, after, inner, -, -, -, hfill, -⟩
      · exact absurd rfl hfails
      · obtain ⟨harea, harenas⟩ := Mapping.fillRecord_area hfill
        rw [Runtime.release, harea, harenas]
        rfl

theorem appendSerialized_ok {left : InMemory × Runtime.Arenas}
    (hrun : appendSerialized codec host serialized (store, arenas) room = (.ok (), left, rest)) :
    ∃ confirmed body, Mapping.decoded codec host.toHost serialized = some (confirmed, body) ∧
      store.records.size < uint32Max ∧
      store.isNext (store.decodedInto arenas confirmed body).txNr = true ∧
      left = (store.took (store.decodedInto arenas confirmed body), arenas.openNext .store) := by
  rw [appendSerialized] at hrun
  split at hrun
  · cases hrun
  · obtain ⟨_, _, _, hemplace, hrun⟩ := bind_ok.1 hrun
    obtain ⟨hlt, rfl⟩ := emplace_ok (mapError_ok.1 hemplace)
    obtain ⟨_, _, _, hdecode, hnote⟩ := bind_ok.1 hrun
    obtain ⟨confirmed, body, hdecoded, hnext, rfl⟩ := decodeKept_ok hlt (orUndo_ok.1 hdecode)
    obtain ⟨rfl, -⟩ := write_ok.1 hnote
    rw [kept_slotted hlt]
    exact ⟨confirmed, body, hdecoded, hlt, hnext, rfl⟩

/-- Refused, the store is as it was. -/
theorem appendSerialized_error {left : InMemory × Runtime.Arenas} {failure : Mapping.Failure}
    (hrun : appendSerialized codec host serialized (store, arenas) room =
      (.error failure, left, rest)) :
    left.1 = store ∧
      (left.2 = arenas ∨ left.2 = (arenas.openNext .store).release (some (arenas.next .store)) ∨
        ¬(∀ middle, store.records.size < uint32Max → granted 1 room = some middle →
            Settles codec host serialized middle) ∧ left.2 = arenas.openNext .store) := by
  rw [appendSerialized] at hrun
  split at hrun
  · cases hrun
    exact ⟨rfl, .inl rfl⟩
  rcases bind_error.1 hrun with hemplace | ⟨_, _, between, hemplace, hrun⟩
  · obtain ⟨code, hemplace, -⟩ := mapError_error.1 hemplace
    cases emplace_error hemplace
    exact ⟨rfl, .inl rfl⟩
  · obtain ⟨hlt, rfl⟩ := emplace_ok (mapError_ok.1 hemplace)
    rcases bind_error.1 hrun with hdecode | ⟨_, _, _, -, hnote⟩
    · obtain ⟨⟨grown, left⟩, hinner, rfl⟩ := orUndo_error.1 hdecode
      obtain ⟨⟨slot, rfl⟩, harenas⟩ := decodeKept_error hlt hinner
      refine ⟨pop_slotted hlt, ?_⟩
      refine harenas.imp_right
        (Or.imp_right fun ⟨hleaks, hleft⟩ => ⟨fun hsettles => hleaks (hsettles _ hlt ?_), hleft⟩)
      exact emplace_granted (mapError_ok.1 hemplace)
    · cases hnote

end InMemory

end GradidoBlockchain
