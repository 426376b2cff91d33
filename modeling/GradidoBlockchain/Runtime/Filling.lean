import GradidoBlockchain.Runtime.FromWire

/-!
# The record and the room in its arena

An arena gives out what it has in multiples of eight bytes, and takes nothing back before it is
released whole. What has been given out of it, and what has been refused, is kept count of.
-/

namespace GradidoBlockchain

open Fallible Fallible.Call

namespace Mapping

/-- An arena: its size, the requests it has granted and those it has refused, the last one first. -/
structure ArenaUse where
  size : ℕ
  taken : List ℕ
  refused : List ℕ
  deriving DecidableEq, Repr

namespace ArenaUse

/-- Nothing has been asked of it. -/
def fresh (size : ℕ) : ArenaUse := ⟨size, [], []⟩

/-- What it has given out. -/
def charged (arena : ArenaUse) : ℕ := (arena.taken.map align8).sum

end ArenaUse

/-- The record, and what is known of its arena. -/
structure Filling where
  owned : Runtime.Owned
  arena : ArenaUse

namespace Filling

abbrev tx (filling : Filling) : Runtime.CompleteTransaction := filling.owned.1

/-- `grdr_complete_transaction_release`. -/
def release (filling : Filling) : Filling := ⟨Runtime.release filling.owned, .fresh 0⟩

/-- `arnm_init_arena` on the record. -/
def openArena (opener : Runtime.Opener) (size : ℕ) (filling : Filling) : Filling :=
  ⟨Mapping.openArena opener filling.owned, .fresh size⟩

/-- Some of the arena given out. -/
def take (size : ℕ) (filling : Filling) : Filling :=
  { filling with arena := { filling.arena with taken := size :: filling.arena.taken } }

/-- A request that has been refused. -/
def refuse (size : ℕ) (filling : Filling) : Filling :=
  { filling with arena := { filling.arena with refused := size :: filling.arena.refused } }

def withTx (change : Runtime.CompleteTransaction → Runtime.CompleteTransaction)
    (filling : Filling) : Filling :=
  { filling with owned := (change filling.tx, filling.owned.2) }

end Filling

/-- A step on the record. -/
abbrev Fill (α : Type) : Type := Call ArnmResult Filling α

/-- A write to the record. -/
def putTx (change : Runtime.CompleteTransaction → Runtime.CompleteTransaction) : Fill Unit :=
  write (Filling.withTx change)

/-- A request is refused. -/
def turnDown (size : ℕ) (code : ArnmResult) : Fill Unit := do
  write (Filling.refuse size)
  fail code

/-- An allocation from the memory of the record, which is the host's where no arena has been opened;
`emptyRequest` is what a request for no bytes at all is refused with. -/
def arenaAlloc (emptyRequest : Option ArnmResult) (size : ℕ) : Fill Unit := do
  let filling ← gets id
  match if size = 0 then emptyRequest else none with
  | some code => turnDown size code
  | none =>
      if filling.tx.memoryArea.isNone then ask .outOfMemory
      else if filling.arena.size < filling.arena.charged + align8 size then
        turnDown size .outOfMemory
      else write (Filling.take size)

end Mapping

end GradidoBlockchain
