import GradidoBlockchain.Arnm.Keyed
import GradidoBlockchain.Lib.Backlinks

/-!
# The register of addresses

`grdb_addresses`: for each address the number of the transaction that last moved its balance, and
the transactions that gave it a type. The records of types stand in one vector for all addresses,
each linked to the one before it of the same address.
-/

namespace GradidoBlockchain

open Fallible Fallible.Call

/-- `ADDRESSES_NO_CHANGE`. -/
def noChange : Nat := uint32Max

/-- `address_entry`. -/
structure AddressEntry where
  lastBalanceTx : Nat
  lastChange : Nat
  deriving DecidableEq

/-- An entry just opened. -/
def AddressEntry.blank : AddressEntry := ⟨0, noChange⟩

/-- `type_change`. -/
structure TypeChange where
  txNr : Nat
  previous : Nat
  type : AddressType
  deriving DecidableEq

/-- `grdb_addresses`; the key map and the entries at its ids are one `Keyed`. -/
structure Addresses (A : Arnm) where
  entries : Keyed A 32 AddressEntry
  typeChanges : Bvec TypeChange
  maxTxNr : Nat
  transactionCount : Nat
  ready : Bool

namespace Addresses

variable {A : Arnm}

/-- The register all zero, which is not ready. -/
def zero : Addresses A where
  entries := .empty
  typeChanges := .empty
  maxTxNr := 0
  transactionCount := 0
  ready := false

def fresh : Addresses A := { zero with ready := true }

/-- `grdb_addresses_init`: room for the map and the two vectors, then for the addresses
the options expect. -/
def init (expectedAddresses : Nat) : Call ArnmResult (Addresses A) Unit := do
  write fun _ => zero
  (List.range 3).forM fun _ => ask .outOfMemory
  if expectedAddresses ≠ 0 then (List.range 2).forM fun _ => ask .outOfMemory
  write fun _ => fresh

/-! ### Parts of the register -/

def putEntries (entries : Keyed A 32 AddressEntry) (index : Addresses A) : Addresses A :=
  { index with entries }

def putTypeChanges (typeChanges : Bvec TypeChange) (index : Addresses A) : Addresses A :=
  { index with typeChanges }

/-- The newest record of the entry at `id`. -/
def lastChangeAt (index : Addresses A) (id : Nat) : Nat :=
  (index.entries.entries.get? id).elim noChange AddressEntry.lastChange

/-- The records a loop from `position` along `previous` meets. No position comes up twice, as a link
is older than its record. -/
def changesFrom (index : Addresses A) (position : Nat) : List TypeChange :=
  Backlinks.follow index.typeChanges.get? TypeChange.previous noChange index.typeChanges.size
    position

/-- The loop of `note_type`: whether the newest records of an entry, as far as they are of this
transaction, have one of this type. -/
def isNoted (index : Addresses A) (id txNr : Nat) (type : AddressType) : Bool :=
  ((index.changesFrom (index.lastChangeAt id)).takeWhile fun change => change.txNr = txNr).any
    fun change => change.type = type

def setLastChange (id : Nat) (index : Addresses A) : Addresses A :=
  index.putEntries
    (index.entries.modify id fun entry => { entry with lastChange := index.typeChanges.size - 1 })

def setLastBalance (id txNr : Nat) (index : Addresses A) : Addresses A :=
  index.putEntries (index.entries.modify id fun entry => { entry with lastBalanceTx := txNr })

/-! ### Adding -/

/-- The checks `grdb_addresses_add` starts with. -/
def accepts (tx : CompleteTransaction) (index : Addresses A) : Except ArnmResult Unit :=
  if ¬index.ready then .error .invalidState
  else if index.transactionCount ≠ 0 ∧ tx.nr ≤ index.maxTxNr then .error .invalidParam
  else if TransactionType.count ≤ tx.transactionType.code then .error .invalidEnumType
  else .ok ()

/-- `entry_for_key`. -/
def entryForKey (key : PublicKey) : Call ArnmResult (Addresses A) Nat :=
  within entries putEntries (Keyed.slotForKey .blank key)

/-- The end of `note_type`: one record in front of the others of the entry. -/
def pushChange (id txNr : Nat) (type : AddressType) : Call ArnmResult (Addresses A) Unit := do
  let previous ← gets fun index => index.lastChangeAt id
  within typeChanges putTypeChanges (Bvec.emplace ⟨txNr, previous, type⟩)
  write (setLastChange id)

/-- `note_type`. -/
def noteType (txNr : Nat) (key : PublicKey) (type : AddressType) :
    Call ArnmResult (Addresses A) Unit :=
  if isEmpty key then pure ()
  else if ¬type.known then fail .invalidEnumType
  else do
    let id ← entryForKey key
    let noted ← gets fun index => index.isNoted id txNr type
    if noted then pure () else pushChange id txNr type

/-- The keys `grdb_addresses_add` gives a type to, with the type, in the order of the
calls of `note_type`. -/
def typed (tx : CompleteTransaction) : List (PublicKey × AddressType) :=
  match tx.transactionType with
  | .communityRoot =>
      [(tx.communityRoot.gmwPublicKey, .communityGmw),
        (tx.communityRoot.aufPublicKey, .communityAuf)]
  | .registerAddress =>
      [(tx.registerAddress.userPublicKey, tx.addressType),
        (tx.registerAddress.accountPublicKey, tx.addressType)]
  | .deferredTransfer => [(tx.transfer.recipientPubkey, .deferredTransfer)]
  | _ => []

/-- One round of the loop over the balances. -/
def noteBalance (txNr : Nat) (balance : AccountBalance) : Call ArnmResult (Addresses A) Unit :=
  if isEmpty balance.pubkey then pure ()
  else do
    let id ← entryForKey balance.pubkey
    write (setLastBalance id txNr)

def commit (tx : CompleteTransaction) (index : Addresses A) : Addresses A :=
  { index with maxTxNr := tx.nr, transactionCount := (index.transactionCount + 1) % 2 ^ 32 }

/-- Everything between the checks and the count. -/
def note (tx : CompleteTransaction) : Call ArnmResult (Addresses A) Unit := do
  (typed tx).forM fun given => noteType tx.nr given.1 given.2
  tx.accountBalances.forM (noteBalance tx.nr)

/-- `grdb_addresses_add`. -/
def add (tx : CompleteTransaction) : Call ArnmResult (Addresses A) Unit := do
  check (accepts tx)
  note tx
  write (commit tx)

/-! ### Asking -/

/-- `entry_of_key`. -/
def entryOfKey (index : Addresses A) (key : PublicKey) : Option AddressEntry :=
  if ¬index.ready then none else index.entries.lookup key

/-- `grdb_addresses_type`. -/
def type (index : Addresses A) (key : PublicKey) : AddressType :=
  match index.entryOfKey key with
  | none => .none
  | some entry =>
      if entry.lastChange = noChange then .none
      else (index.typeChanges.get? entry.lastChange).elim .none TypeChange.type

/-- `grdb_addresses_type_at`. -/
def typeAt (index : Addresses A) (key : PublicKey) (atTxNr : Nat) : Option AddressType :=
  (index.entryOfKey key).bind fun entry =>
    ((index.changesFrom entry.lastChange).find? fun change => change.txNr ≤ atTxNr).map
      TypeChange.type

/-- `grdb_addresses_type_changes`: the numbers written, as many as there is room for. -/
def typeChangesOf (index : Addresses A) (key : PublicKey) (size : Nat) : List Nat :=
  match index.entryOfKey key with
  | none => []
  | some entry => ((index.changesFrom entry.lastChange).take size).map TypeChange.txNr

/-- `grdb_addresses_last_balance`. -/
def lastBalance (index : Addresses A) (key : PublicKey) : Option Nat :=
  match index.entryOfKey key with
  | none => none
  | some entry => if entry.lastBalanceTx = 0 then none else some entry.lastBalanceTx

/-- `grdb_addresses_knows`. -/
def knows (index : Addresses A) (key : PublicKey) : Bool := (index.entryOfKey key).isSome

end Addresses

end GradidoBlockchain
