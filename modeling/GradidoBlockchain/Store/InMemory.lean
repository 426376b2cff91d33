import GradidoBlockchain.Arnm.Bvec
import GradidoBlockchain.Runtime.Decode

/-!
# The store in memory

The functions of `in_memory.c`. A store that is ready keeps one record for each number of a run
without gaps. A record is moved in, or it is decoded in the slot it will live in, which is taken
back when that fails.
-/

namespace GradidoBlockchain

open Fallible Fallible.Call

/-- `grdb_in_memory`, once it is ready. The scratch it decodes in is left out. -/
structure InMemory where
  records : Bvec Runtime.CompleteTransaction
  communityUuid : Uuid
  firstTxNr : UInt64
  maxTxNr : UInt64

namespace InMemory

/-- `grdb_in_memory_init`. -/
def init (communityUuid : Uuid) : InMemory := ⟨.empty, communityUuid, 0, 0⟩

/-- `free_records`. -/
def freeRecords (state : InMemory × Runtime.Arenas) : InMemory × Runtime.Arenas :=
  ({ state.1 with records := .empty },
    (state.1.records.slots.map (·.memoryArea)).foldl Ownership.Supply.release state.2)

/-- `grdb_in_memory_reset`. -/
def reset (state : InMemory × Runtime.Arenas) : InMemory × Runtime.Arenas :=
  let freed := freeRecords state
  ({ freed.1 with firstTxNr := 0, maxTxNr := 0 }, freed.2)

/-! ### The two calls a chain makes -/

def positionOf (store : InMemory) (txNr : UInt64) : Option Nat :=
  if store.firstTxNr = 0 ∨ txNr < store.firstTxNr ∨ store.maxTxNr < txNr then none
  else some ((txNr - store.firstTxNr).toNat % 2 ^ 32)

/-- `in_memory_fetch`: where a record is, which is nowhere if the vector has no such slot. -/
def fetch (store : InMemory) (txNr : UInt64) :
    Except ArnmResult (Option Runtime.CompleteTransaction) :=
  match store.positionOf txNr with
  | none => .error .arrayIndexOutOfBounds
  | some position => .ok (store.records.get? position)

def isNext (store : InMemory) (txNr : UInt64) : Bool :=
  txNr ≠ 0 ∧ (store.firstTxNr = 0 ∨ txNr = store.maxTxNr + 1)

def noteAppended (store : InMemory) (txNr : UInt64) : InMemory :=
  { store with
    firstTxNr := if store.firstTxNr = 0 then txNr else store.firstTxNr
    maxTxNr := txNr }

/-- The slot that `arnm_bvec_emplace` opens in the records. -/
def emplace {σ : Type} (slot : Runtime.CompleteTransaction) (part : σ → InMemory)
    (put : InMemory → σ → σ) : Call ArnmResult σ Unit :=
  within part put
    (within (·.records) (fun records store => { store with records := records })
      (Bvec.emplace slot))

/-- `in_memory_append` on the store and the caller's record, which the move leaves empty. -/
def append : Call ArnmResult (InMemory × Runtime.CompleteTransaction) Unit := do
  let (store, tx) ← gets id
  if store.isNext tx.txNr then
    emplace tx (·.1) (fun store state => (store, state.2))
    write fun state => (state.1, .init)
    write fun state => (state.1.noteAppended tx.txNr, state.2)
  else fail .invalidParam

/-- The newest slot, with the arenas of the host. -/
def kept (state : InMemory × Runtime.Arenas) : Runtime.Owned :=
  ((state.1.records.get? (state.1.records.size - 1)).getD .init, state.2)

def setKept (owned : Runtime.Owned) (state : InMemory × Runtime.Arenas) :
    InMemory × Runtime.Arenas :=
  ({ state.1 with records := state.1.records.modify (state.1.records.size - 1) fun _ => owned.1 },
    owned.2)

/-- A record that has been decoded and is not the next one goes back, and so does its arena. -/
def checkNext : Call Mapping.Failure (InMemory × Runtime.Arenas) Unit := do
  let state ← gets id
  if state.1.isNext (kept state).1.txNr then pure ()
  else do
    write fun state => setKept (Runtime.release (kept state)) state
    fail (.refused .invalidParam)

/-- The decode in the newest slot. -/
def decodeKept (codec : Mapping.Codec) (host : Mapping.RecordHost) (serialized : List UInt8) :
    Call Mapping.Failure (InMemory × Runtime.Arenas) Unit := do
  let state ← gets id
  within kept setKept (Mapping.initFromProtobuf codec host .store serialized state.1.communityUuid)
  checkNext

/-- `in_memory_append_serialized` on the store and the arenas of the host. -/
def appendSerialized (codec : Mapping.Codec) (host : Mapping.RecordHost) (serialized : List UInt8) :
    Call Mapping.Failure (InMemory × Runtime.Arenas) Unit :=
  if serialized = [] then fail (.refused .invalidParam)
  else do
    mapError .refused (emplace .init (·.1) fun store state => (store, state.2))
    orUndo (decodeKept codec host serialized) fun state =>
      ({ state.1 with records := state.1.records.pop }, state.2)
    write fun state => (state.1.noteAppended (kept state).1.txNr, state.2)

end InMemory

end GradidoBlockchain
