import GradidoBlockchain.Pb.Peek
import GradidoBlockchain.Runtime.Decode
import Mathlib.Logic.Function.Basic

/-!
# The store of a host

The functions of `ffi.c`. The host keeps one row of bytes for each number; the adapter decodes what
it gets of them into the one place it has, and remembers which number is in it. What is said to the
host is written down in the order it is said.
-/

namespace GradidoBlockchain

open Fallible Fallible.Call

/-- What a host answers to a get. -/
inductive GetAnswer
  | found (data : List UInt8)
  | notFound
  | failed
  deriving DecidableEq, Repr

/-- A call of the host. -/
inductive HostCall
  | get (txNr : UInt64) (answer : GetAnswer)
  | release (data : List UInt8)
  | put (txNr : UInt64) (data : List UInt8) (kept : Bool)
  deriving DecidableEq, Repr

/-- The callbacks of `grdb_chain_ffi_host` that may be left out. -/
structure FfiHost where
  release : Bool
  put : Bool

/-- `grdb_chain_ffi`, once it is ready, with the arenas and the rows of the host and the calls that
have been made of it. The scratch it decodes in is left out. -/
structure ChainFfi where
  held : Runtime.CompleteTransaction
  heldTxNr : UInt64
  communityUuid : Uuid
  arenas : Runtime.Arenas
  rows : UInt64 → Option (List UInt8)
  calls : List HostCall

namespace ChainFfi

/-- `grdb_chain_ffi_init`. -/
def init (communityUuid : Uuid) (arenas : Runtime.Arenas)
    (rows : UInt64 → Option (List UInt8)) : ChainFfi :=
  ⟨.init, 0, communityUuid, arenas, rows, []⟩

variable (codec : Mapping.Codec) (recordHost : Mapping.RecordHost) (host : FfiHost)

/-- Something is said to the host. -/
def said (call : HostCall) (ffi : ChainFfi) : ChainFfi := { ffi with calls := ffi.calls ++ [call] }

/-- The host hears that its bytes are no longer needed, if it wants to. -/
def released (data : List UInt8) (ffi : ChainFfi) : ChainFfi :=
  if host.release then ffi.said (.release data) else ffi

/-- The decode into the one place there is. -/
def decodeHeld (data : List UInt8) : Call Mapping.Failure ChainFfi Unit := do
  let ffi ← gets id
  within (fun ffi => (ffi.held, ffi.arenas))
    (fun owned ffi => { ffi with held := owned.1, arenas := owned.2 })
    (Mapping.initFromProtobuf codec recordHost .store data ffi.communityUuid)

/-- What `ffi_fetch` makes of the bytes it has been handed. -/
def fetchFound (txNr : UInt64) (data : List UInt8) :
    Call Mapping.Failure ChainFfi Runtime.CompleteTransaction :=
  if data = [] then do
    write (released host data)
    fail (.refused .decodeFailed)
  else do
    write fun ffi => { ffi with heldTxNr := 0 }
    orUndo (decodeHeld codec recordHost data) (released host data)
    write (released host data)
    write fun ffi => { ffi with heldTxNr := txNr }
    gets (·.held)

/-- `ffi_fetch` with what the host answers, should it be asked. -/
def fetch (txNr : UInt64) (answer : GetAnswer) :
    Call Mapping.Failure ChainFfi Runtime.CompleteTransaction := do
  let ffi ← gets id
  if ffi.heldTxNr ≠ 0 ∧ ffi.heldTxNr = txNr then pure ffi.held
  else do
    write (said (.get txNr answer))
    match answer with
    | .found data => fetchFound codec recordHost host txNr data
    | .notFound => fail (.refused .arrayIndexOutOfBounds)
    | .failed => fail (.refused .decodeFailed)

/-- A put, which the host may fail to keep. -/
def handedOver (txNr : UInt64) (data : List UInt8) (kept : Bool) (ffi : ChainFfi) : ChainFfi :=
  let ffi := ffi.said (.put txNr data kept)
  if kept then { ffi with rows := Function.update ffi.rows txNr (some data) } else ffi

/-- `ffi_append_serialized`, with whether the host keeps the bytes, should they be handed over. -/
def appendSerialized (serialized : List UInt8) (kept : Bool) : Call ArnmResult ChainFfi Unit :=
  if host.put = false then fail .invalidState
  else if serialized = [] then fail .invalidParam
  else
    match Wire.confirmedTransactionPeekId serialized with
    | .error code => fail code
    | .ok txNr =>
        if txNr = 0 then fail .invalidParam
        else do
          write (handedOver txNr serialized kept)
          if kept then pure () else fail .encodeFailed

end ChainFfi

end GradidoBlockchain
