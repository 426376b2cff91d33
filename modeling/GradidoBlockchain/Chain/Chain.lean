import GradidoBlockchain.Index.Transactions
import GradidoBlockchain.Register.Addresses

/-!
# A chain of segments

`grdb_chain`: a row of indices, each over the numbers of one segment, and one register of
addresses. A transaction goes to the segment its number falls in, which is opened when the
first such number comes, and then to the register. A question is put to every segment, and the
answers are put together.
-/

namespace GradidoBlockchain

open Fallible Fallible.Call

/-- `grdb_chain_options`, without the store. -/
structure ChainOptions where
  segmentTransactions : UInt32
  expectedAddresses : Nat
  expectedDays : Nat

/-- `GRDB_SEGMENT_TRANSACTIONS_DEFAULT`. -/
def segmentTransactionsDefault : Nat := 2 ^ 22

/-- The numbers one segment covers under these options. -/
def ChainOptions.size (options : ChainOptions) : Nat :=
  if options.segmentTransactions ≠ 0 then options.segmentTransactions.toNat
    else segmentTransactionsDefault

/-- `grdb_chain`. -/
structure Chain (A : Arnm) where
  segments : Bvec (Transactions A)
  addresses : Addresses A
  segmentTransactions : Nat
  expectedAddresses : Nat
  expectedDays : Nat
  firstSegment : Nat
  minTxNr : Nat
  maxTxNr : Nat
  transactionCount : Nat
  ready : Bool

namespace Chain

variable {A : Arnm}

/-- The chain all zero, which is not ready. -/
def zero : Chain A where
  segments := .empty
  addresses := .zero
  segmentTransactions := 0
  expectedAddresses := 0
  expectedDays := 0
  firstSegment := 0
  minTxNr := 0
  maxTxNr := 0
  transactionCount := 0
  ready := false

/-- An empty chain with an empty row. -/
def fresh (options : ChainOptions) : Chain A :=
  { zero with
    addresses := .fresh
    segmentTransactions := options.size
    expectedAddresses := options.expectedAddresses
    expectedDays := options.expectedDays
    ready := true }

/-! ### Parts of the chain -/

def putSegments (segments : Bvec (Transactions A)) (chain : Chain A) : Chain A :=
  { chain with segments }

def putAddresses (addresses : Addresses A) (chain : Chain A) : Chain A := { chain with addresses }

/-- `segment_at`. -/
def segmentAt (position : Nat) (chain : Chain A) : Transactions A :=
  (chain.segments.get? position).getD .zero

def putSegment (position : Nat) (segment : Transactions A) (chain : Chain A) : Chain A :=
  chain.putSegments (chain.segments.modify position fun _ => segment)

/-- The last slot of the row given back. -/
def dropSegment (chain : Chain A) : Chain A := chain.putSegments chain.segments.pop

/-- `segment_of`. -/
def segmentOf (chain : Chain A) (txNr : Nat) : Nat := txNr / chain.segmentTransactions

/-! ### Building -/

/-- `grdb_chain_init`: room for the row, then for the register. A refusal leaves
the chain zeroed. -/
def init (options : ChainOptions) : Call ArnmResult (Chain A) Unit := do
  write fun _ => zero
  ask .outOfMemory
  within addresses putAddresses (Addresses.init options.expectedAddresses)
  write fun _ => fresh options

/-- What `open_segment` asks of the index it prepares. -/
def segmentOptions (txNr : Nat) (chain : Chain A) : TransactionsOptions where
  baseTxNr := chain.segmentOf txNr * chain.segmentTransactions
  expectedAddresses := chain.expectedAddresses
  expectedDays := chain.expectedDays

/-- `open_segment`: a slot at the end of the row, which is `position`, and the
index in it prepared. -/
def openSegment (txNr position : Nat) : Call ArnmResult (Chain A) Unit := do
  within segments putSegments (Bvec.emplace .zero)
  let options ← gets (segmentOptions txNr)
  orUndo (within (segmentAt position) (putSegment position) (Transactions.init options)) dropSegment

/-- The checks `grdb_chain_add` starts with. -/
def accepts (tx : CompleteTransaction) (chain : Chain A) : Except ArnmResult Unit :=
  if ¬chain.ready then .error .invalidState
  else if tx.nr = 0 then .error .invalidParam
  else if chain.transactionCount ≠ 0 ∧ tx.nr ≠ (chain.maxTxNr + 1) % 2 ^ 64 then
    .error .invalidParam
  else .ok ()

/-- While the row is empty a call decides where it begins. -/
def pinFirst (tx : CompleteTransaction) (chain : Chain A) : Chain A :=
  { chain with
    firstSegment :=
      if chain.transactionCount = 0 ∧ chain.segments.size = 0 then chain.segmentOf tx.nr
      else chain.firstSegment }

/-- The place in the row of the segment a transaction falls in. -/
def positionOf (tx : CompleteTransaction) (chain : Chain A) : Except ArnmResult Nat :=
  if chain.segmentOf tx.nr < chain.firstSegment then .error .invalidParam
  else if chain.segments.size < chain.segmentOf tx.nr - chain.firstSegment then .error .invalidParam
  else .ok (chain.segmentOf tx.nr - chain.firstSegment)

def openAt (tx : CompleteTransaction) (position : Nat) : Call ArnmResult (Chain A) Unit := do
  if position = (← gets fun chain => chain.segments.size) then openSegment tx.nr position
    else pure ()

/-- `in_segment`: a previous add put the transaction into the segment and failed in the register. -/
def inSegment (tx : CompleteTransaction) (position : Nat) (chain : Chain A) : Bool :=
  (chain.segmentAt position).transactionCount ≠ 0 && (chain.segmentAt position).maxTxNr = tx.nr

/-- The segment's part of an add. -/
def enter (tx : CompleteTransaction) (position : Nat) : Call ArnmResult (Chain A) Unit := do
  if ← gets (inSegment tx position) then pure ()
  else within (segmentAt position) (putSegment position) (Transactions.add tx)

def commit (tx : CompleteTransaction) (chain : Chain A) : Chain A :=
  { chain with
    minTxNr := if chain.transactionCount = 0 then tx.nr else chain.minTxNr
    maxTxNr := tx.nr
    transactionCount := (chain.transactionCount + 1) % 2 ^ 64 }

/-- `grdb_chain_add`. -/
def add (tx : CompleteTransaction) : Call ArnmResult (Chain A) Unit := do
  check (accepts tx)
  write (pinFirst tx)
  let position ← check (positionOf tx)
  openAt tx position
  enter tx position
  within addresses putAddresses (Addresses.add tx)
  write (commit tx)

/-! ### Asking -/

/-- `grdb_chain_count`. -/
def count (chain : Chain A) (filter : TransactionsFilter) : Except ArnmResult Nat :=
  if ¬chain.ready then .error .invalidState
  else chain.segments.slots.foldlM (fun total segment => do
    let here ← segment.count filter
    .ok ((total + here) % 2 ^ 64)) 0

/-- What the loop of `grdb_chain_listing` carries from segment to segment. -/
structure Walk where
  remainingSkip : Nat
  remainingSize : Nat
  taken : List Nat
  matching : Nat

/-- One round of that loop: the skip is spent on the matches of a segment, the count goes on when
the page is full. -/
def walkOn (filter : TransactionsFilter) (descending : Bool) (walk : Walk)
    (segment : Transactions A) : Except ArnmResult Walk := do
  let (here, hereCount) ← segment.listing filter walk.remainingSkip walk.remainingSize descending
  .ok {
    remainingSkip := if walk.remainingSkip ≤ hereCount then 0 else walk.remainingSkip - hereCount
    remainingSize := walk.remainingSize - here.length
    taken := walk.taken ++ here
    matching := (walk.matching + hereCount) % 2 ^ 64 }

/-- `grdb_chain_listing`: the row walked from the end the page starts at. -/
def listing (chain : Chain A) (filter : TransactionsFilter) (skip size : Nat) (descending : Bool) :
    Except ArnmResult (List Nat × Nat) :=
  if ¬chain.ready then .error .invalidState
  else if Transactions.pageMax < size then .error .invalidParam
  else do
    let walk ← (Page.oriented descending chain.segments.slots).foldlM (walkOn filter descending)
        ⟨skip, size, [], 0⟩
    .ok (walk.taken, walk.matching)

/-- `grdb_chain_newest`: the segments from the newest back, the first that answers. -/
def newest (chain : Chain A) (filter : TransactionsFilter) : Option Nat :=
  if ¬chain.ready then none
    else chain.segments.slots.reverse.findSome? fun segment => segment.newest filter

/-- The outermost ends of two spans. -/
def widen (found here : Option (Nat × Nat)) : Option (Nat × Nat) :=
  match here, found with
  | none, _ => found
  | some here, none => some here
  | some here, some found =>
      some
        (if here.1 < found.1 then here.1 else found.1, if found.2 < here.2 then here.2 else found.2)

/-- `grdb_chain_range_of_days`. -/
def rangeOfDays (chain : Chain A) (fromSecond toSecond : Int64) : Option (Nat × Nat) :=
  if ¬chain.ready then none
  else chain.segments.slots.foldl
    (fun found segment => widen found (segment.rangeOfDays fromSecond toSecond)) none

/-- `grdb_chain_address_type`. -/
def addressType (chain : Chain A) (key : PublicKey) : AddressType := chain.addresses.type key

/-- `grdb_chain_address_type_at`. -/
def addressTypeAt (chain : Chain A) (key : PublicKey) (atTxNr : Nat) : Option AddressType :=
  chain.addresses.typeAt key atTxNr

/-- `grdb_chain_address_last_balance`. -/
def addressLastBalance (chain : Chain A) (key : PublicKey) : Option Nat :=
  chain.addresses.lastBalance key

/-- `grdb_chain_knows_address`. -/
def knowsAddress (chain : Chain A) (key : PublicKey) : Bool := chain.addresses.knows key

end Chain

end GradidoBlockchain
