import GradidoBlockchain.Arnm.Keyed
import GradidoBlockchain.Index.Day
import GradidoBlockchain.Index.Filter

/-!
# The index over transaction numbers

`grdb_transactions`: sets of offsets, one for each role of an address, each type and each foreign
coin, and a table with the largest offset of every day. Adding a transaction writes its offset to
all the sets it belongs to. A filter becomes a query over these sets and a span of offsets.
-/

namespace GradidoBlockchain

open Fallible Fallible.Call

/-- `grdb_address_sets`. -/
structure AddressSets (A : Arnm) where
  balance : A.Bitmap
  signed : A.Bitmap
  other : A.Bitmap

/-- The zeroed `grdb_address_sets` a new slot is. -/
def AddressSets.blank {A : Arnm} : AddressSets A := ⟨A.blank, A.blank, A.blank⟩

/-- `grdb_transactions_options`. -/
structure TransactionsOptions where
  baseTxNr : Nat
  expectedAddresses : Nat
  expectedDays : Nat

/-- `grdb_transactions`; a key map and the vector at its ids are one `Keyed`. -/
structure Transactions (A : Arnm) where
  addresses : Keyed A 32 (AddressSets A)
  dayMaxTx : Bvec Nat
  perType : Vector A.Bitmap TransactionType.count
  coins : Keyed A 16 A.Bitmap
  foreign : A.Bitmap
  chainCommunityUuid : Uuid
  baseTxNr : Nat
  minTxNr : Nat
  maxTxNr : Nat
  firstDay : Int
  transactionCount : Nat
  ready : Bool

namespace Transactions

variable {A : Arnm}

/-- `GRDB_PAGE_MAX`. -/
def pageMax : Nat := 1000

/-- The index all zero, which is not ready. -/
def zero : Transactions A where
  addresses := .empty
  dayMaxTx := .empty
  perType := Vector.replicate _ A.blank
  coins := .empty
  foreign := A.blank
  chainCommunityUuid := zeroBytes 16
  baseTxNr := 0
  minTxNr := 0
  maxTxNr := 0
  firstDay := 0
  transactionCount := 0
  ready := false

/-- An index without transactions that covers the numbers from `base` on. -/
def fresh (base : Nat) : Transactions A := { zero with baseTxNr := base, ready := true }

/-- `grdb_transactions_init`: room for the pool, the maps and the vectors, then for what the options
expect. A refusal leaves the index zeroed. -/
def init (options : TransactionsOptions) : Call ArnmResult (Transactions A) Unit := do
  write fun _ => zero
  (List.range 6).forM fun _ => ask .outOfMemory
  if options.expectedAddresses ≠ 0 then (List.range 2).forM fun _ => ask .outOfMemory
  if options.expectedDays ≠ 0 then ask .outOfMemory
  write fun _ => fresh options.baseTxNr

/-! ### Parts of the index -/

def putAddresses (addresses : Keyed A 32 (AddressSets A))
    (index : Transactions A) : Transactions A :=
  { index with addresses }

def putCoins (coins : Keyed A 16 A.Bitmap) (index : Transactions A) : Transactions A :=
  { index with coins }

def putDayMaxTx (dayMaxTx : Bvec Nat) (index : Transactions A) : Transactions A :=
  { index with dayMaxTx }

/-- `*day_slot`. -/
def daySlot (index : Transactions A) (position : Nat) : Nat := (index.dayMaxTx.get? position).getD 0

def markAddress (id : Nat) (change : AddressSets A → AddressSets A)
    (index : Transactions A) : Transactions A :=
  index.putAddresses (index.addresses.modify id change)

def markCoin (id offset : Nat) (index : Transactions A) : Transactions A :=
  index.putCoins (index.coins.modify id fun set => A.add set offset)

def markForeign (offset : Nat) (index : Transactions A) : Transactions A :=
  { index with foreign := A.add index.foreign offset }

def typeSet (index : Transactions A) (type : TransactionType) : A.Bitmap :=
  (index.perType[type.code]?).getD A.blank

def markType (type : TransactionType) (offset : Nat) (index : Transactions A) : Transactions A :=
  { index with perType := index.perType.setIfInBounds type.code (A.add (index.typeSet type) offset) }

/-- `set_ends_at` for the two sets that make a named key's third role superfluous. -/
def alreadyMarked (index : Transactions A) (id offset : Nat) : Bool :=
  match index.addresses.entries.get? id with
  | some sets => A.setEndsAt sets.signed offset || A.setEndsAt sets.balance offset
  | none => false

/-! ### Adding -/

/-- The checks `grdb_transactions_add` starts with, and the offset of a transaction
that passes them. -/
def offsetOf (tx : CompleteTransaction) (index : Transactions A) : Except ArnmResult Nat :=
  if ¬index.ready then .error .invalidState
  else if tx.nr < index.baseTxNr then .error .invalidParam
  else if index.transactionCount ≠ 0 ∧ tx.nr ≠ (index.maxTxNr + 1) % 2 ^ 64 then
    .error .invalidParam
  else if uint32Max < tx.nr - index.baseTxNr then .error .resourceSizeExceed
  else if TransactionType.count ≤ tx.transactionType.code then .error .invalidEnumType
  else .ok (tx.nr - index.baseTxNr)

/-- Where in the day table a day is noted. -/
def dayIndex (day : Int) (index : Transactions A) : Except ArnmResult Nat :=
  if day < index.firstDay then .error .invalidParam
  else if (uint32Max : Int) < day - index.firstDay then .error .resourceSizeExceed
  else .ok (day - index.firstDay).toNat

/-- `*slot` raised to `offset + 1u`, which is 32 bits wide. -/
def raise (offset noted : Nat) : Nat :=
  if noted < (offset + 1) % 2 ^ 32 then (offset + 1) % 2 ^ 32 else noted

/-- The day the table starts with is that of the first transaction. -/
def openDay (day : Int) (index : Transactions A) : Transactions A :=
  { index with firstDay := if index.transactionCount = 0 then day else index.firstDay }

/-- `note_day`. -/
def noteDay (seconds : Int64) (offset : Nat) : Call ArnmResult (Transactions A) Unit := do
  write (openDay (dayOfSecond seconds))
  let position ← check (dayIndex (dayOfSecond seconds))
  within dayMaxTx putDayMaxTx (Bvec.growPast 0 position)
  write fun index => index.putDayMaxTx (index.dayMaxTx.modify position (raise offset))

/-- What the first transaction says about the chain. -/
def openWith (tx : CompleteTransaction) (index : Transactions A) : Transactions A :=
  { index with
    minTxNr := if index.transactionCount = 0 then tx.nr else index.minTxNr
    chainCommunityUuid := if index.transactionCount = 0 then tx.txCommunityUuid else index.chainCommunityUuid }

/-- `sets_for_key`. -/
def setsForKey (key : PublicKey) : Call ArnmResult (Transactions A) Nat :=
  within addresses putAddresses (Keyed.slotForKey .blank key)

/-- `coin_set_for_uuid`. -/
def coinSetForUuid (uuid : Uuid) : Call ArnmResult (Transactions A) Nat :=
  within coins putCoins (Keyed.slotForKey A.blank uuid)

/-- A number put into a set of `key`; a blank key is no address. -/
def markKey (key : PublicKey) (change : AddressSets A → AddressSets A) :
    Call ArnmResult (Transactions A) Unit :=
  if isEmpty key then pure ()
  else do
    let id ← setsForKey key
    grow .outOfMemory (markAddress id change)

/-- One round of the loop over the signatures. -/
def noteSignature (offset : Nat) (pair : SignaturePair) : Call ArnmResult (Transactions A) Unit :=
  markKey pair.publicKey fun sets => { sets with signed := A.add sets.signed offset }

/-- The first half of a round of the loop over the balances: whose balance moved. -/
def noteBalanceKey (offset : Nat) (balance : AccountBalance) :
    Call ArnmResult (Transactions A) Unit :=
  markKey balance.pubkey fun sets => { sets with balance := A.add sets.balance offset }

/-- The second half: in which coin, if it is not the chain's own. -/
def noteBalanceCoin (offset : Nat) (balance : AccountBalance) :
    Call ArnmResult (Transactions A) Unit := do
  let home ← gets chainCommunityUuid
  if balance.communityUuid = home then pure ()
  else do
    let id ← coinSetForUuid balance.communityUuid
    grow .outOfMemory (markCoin id offset)
    grow .outOfMemory (markForeign offset)

def noteBalance (offset : Nat) (balance : AccountBalance) :
    Call ArnmResult (Transactions A) Unit := do
  noteBalanceKey offset balance
  noteBalanceCoin offset balance

/-- The keys `grdb_transactions_add` reads out of the body. -/
def named (tx : CompleteTransaction) : List PublicKey :=
  match tx.transactionType with
  | .creation | .transfer | .deferredTransfer | .redeemDeferredTransfer =>
      [tx.transfer.senderPubkey, tx.transfer.recipientPubkey]
  | .registerAddress => [tx.registerAddress.userPublicKey, tx.registerAddress.accountPublicKey]
  | .communityRoot =>
      [tx.communityRoot.publicKey, tx.communityRoot.gmwPublicKey, tx.communityRoot.aufPublicKey]
  | _ => []

/-- One round of the loop over the named keys. -/
def noteNamed (offset : Nat) (key : PublicKey) : Call ArnmResult (Transactions A) Unit :=
  if isEmpty key then pure ()
  else do
    let id ← setsForKey key
    let marked ← gets fun index => index.alreadyMarked id offset
    if marked then pure ()
    else grow .outOfMemory (markAddress id fun sets => { sets with other := A.add sets.other offset })

/-- Everything between the checks and the count: whatever of it stands, the transaction is not in
before the count says so. -/
def mark (tx : CompleteTransaction) (offset : Nat) : Call ArnmResult (Transactions A) Unit := do
  noteDay tx.confirmedAt.seconds offset
  write (openWith tx)
  tx.signaturePairs.forM (noteSignature offset)
  tx.accountBalances.forM (noteBalance offset)
  (named tx).forM (noteNamed offset)
  grow .outOfMemory (markType tx.transactionType offset)

def commit (tx : CompleteTransaction) (index : Transactions A) : Transactions A :=
  { index with maxTxNr := tx.nr, transactionCount := (index.transactionCount + 1) % 2 ^ 32 }

/-- `grdb_transactions_add`. -/
def add (tx : CompleteTransaction) : Call ArnmResult (Transactions A) Unit := do
  let offset ← check (offsetOf tx)
  mark tx offset
  write (commit tx)

/-! ### Asking -/

/-- The last position before `high`, but not before `low`, whose day holds anything. -/
def lastNoted (index : Transactions A) (low : Nat) : Nat → Option Nat
  | 0 => none
  | cursor + 1 =>
      if cursor < low then none
      else if index.daySlot cursor ≠ 0 then some cursor
      else index.lastNoted low cursor

/-- Days counted from the first one, as a span of dates names them; a bound of 0 names none. -/
def spanOfDays (index : Transactions A) (fromSecond toSecond : Int64) : Option (Nat × Nat) :=
  let days : Int := index.dayMaxTx.size
  let last := if toSecond ≠ 0 then dayOfSecond toSecond - index.firstDay else days - 1
  if last < 0 then none
  else
    let last := if days - 1 < last then days - 1 else last
    let first := if fromSecond ≠ 0 then dayOfSecond fromSecond - index.firstDay else 0
    let first := if first < 0 then 0 else first
    if last < first then none else some (first.toNat, last.toNat)

/-- The offset a span of days starts at: one past the largest of the days before it. -/
def startOffset (index : Transactions A) (first : Nat) : Nat :=
  match index.lastNoted 0 first with
  | some before => index.daySlot before
  | none => index.minTxNr - index.baseTxNr

/-- `grdb_transactions_range_of_days`. -/
def rangeOfDays (index : Transactions A) (fromSecond toSecond : Int64) : Option (Nat × Nat) :=
  if ¬index.ready ∨ index.transactionCount = 0 then none
  else
    match index.spanOfDays fromSecond toSecond with
    | none => none
    | some (first, last) =>
        match index.lastNoted first (last + 1) with
        | none => none
        | some cursor =>
            let endOffset := index.daySlot cursor - 1
            if endOffset < index.startOffset first then none
            else some (index.baseTxNr + index.startOffset first, index.baseTxNr + endOffset)

/-- The sets of one address that a filter looks in, as sets to be in and sets to be in one of. -/
def addressSetsOf (index : Transactions A) (filter : TransactionsFilter) :
    Option (List A.Bitmap × List A.Bitmap) :=
  match filter.role with
  | .none => some ([], [])
  | .balance => (index.addresses.lookup filter.publicKey).map fun sets => ([sets.balance], [])
  | .involved =>
      (index.addresses.lookup filter.publicKey).map fun sets =>
        ([], [sets.balance, sets.signed, sets.other])

def typeSetsOf (index : Transactions A) (filter : TransactionsFilter) : Option (List A.Bitmap) :=
  if filter.transactionType = .none then some []
  else if TransactionType.count ≤ filter.transactionType.code then none
  else some [index.typeSet filter.transactionType]

/-- The sets of a coin, as sets to be in and sets not to be in: the chain's own coin is what
no foreign one is. -/
def coinSetsOf (index : Transactions A) (filter : TransactionsFilter) :
    Option (List A.Bitmap × List A.Bitmap) :=
  match filter.coinCommunity with
  | none => some ([], [])
  | some uuid =>
      if uuid = index.chainCommunityUuid then some ([], [index.foreign])
      else (index.coins.lookup uuid).map fun set => ([set], [])

/-- The numbers a filter names, narrowed by the days it names. -/
def namedRange (index : Transactions A) (filter : TransactionsFilter) : Option (Nat × Nat) :=
  let low := if filter.minTxNr ≠ 0 then filter.minTxNr.toNat else index.minTxNr
  let high := if filter.maxTxNr ≠ 0 then filter.maxTxNr.toNat else index.maxTxNr
  if filter.fromSeconds ≠ 0 ∨ filter.toSeconds ≠ 0 then
    match index.rangeOfDays filter.fromSeconds filter.toSeconds with
    | none => none
    | some (dayLow, dayHigh) =>
        some (if low < dayLow then dayLow else low, if dayHigh < high then dayHigh else high)
  else some (low, high)

/-- A range clipped to what the index holds, as offsets. -/
def clip (index : Transactions A) (range : Nat × Nat) : Option (Nat × Nat) :=
  let low := if range.1 < index.minTxNr then index.minTxNr else range.1
  let high := if index.maxTxNr < range.2 then index.maxTxNr else range.2
  let low := if low < index.baseTxNr then index.baseTxNr else low
  if high < low then none
  else
    let high := if uint32Max < high - index.baseTxNr then index.baseTxNr + uint32Max else high
    if uint32Max < low - index.baseTxNr then none
    else some (low - index.baseTxNr, high - index.baseTxNr)

/-- `query_of_filter`. -/
def queryOfFilter (index : Transactions A) (filter : TransactionsFilter) :
    Option (RoaringQuery A.Bitmap) :=
  if index.transactionCount = 0 then none
  else do
    let (all, any) ← index.addressSetsOf filter
    let ofType ← index.typeSetsOf filter
    let (ofCoin, notIn) ← index.coinSetsOf filter
    let range ← index.namedRange filter
    let (min, max) ← index.clip range
    some { all := all ++ ofType ++ ofCoin, any, none := notIn, min, max }

/-- `names_no_set`. -/
def namesNoSet (query : RoaringQuery A.Bitmap) : Bool := query.all.isEmpty && query.any.isEmpty

/-- `span_excludes`. -/
def spanExcludes (query : RoaringQuery A.Bitmap) (offset : Nat) : Bool :=
  query.none.any (A.contains · offset)

/-- `span_cardinality`. -/
def spanCardinality (query : RoaringQuery A.Bitmap) : Except ArnmResult Nat :=
  if query.none.isEmpty then .ok (query.max - query.min + 1)
  else do
    let taken ← A.queryCardinality
        { all := [], any := query.none, none := [], min := query.min, max := query.max }
    .ok (if taken < query.max - query.min + 1 then query.max - query.min + 1 - taken else 0)

/-- `span_page`. -/
def spanPage (query : RoaringQuery A.Bitmap) (skip size : Nat) (descending : Bool) : List Nat :=
  Page.walk (spanExcludes query) skip size
    ((List.range (query.max - query.min + 1)).map fun step =>
      if descending then query.max - step else query.min + step)

/-- `grdb_transactions_count`. -/
def count (index : Transactions A) (filter : TransactionsFilter) : Except ArnmResult Nat :=
  if ¬index.ready then .error .invalidState
  else
    match index.queryOfFilter filter with
    | none => .ok 0
    | some query => if namesNoSet query then spanCardinality query else A.queryCardinality query

/-- `grdb_transactions_listing`: the page and the count of the whole filter. -/
def listing (index : Transactions A) (filter : TransactionsFilter) (skip size : Nat)
    (descending : Bool) : Except ArnmResult (List Nat × Nat) :=
  if ¬index.ready then .error .invalidState
  else if pageMax < size then .error .invalidParam
  else
    match index.queryOfFilter filter with
    | none => .ok ([], 0)
    | some query => do
        let (offsets, matching) ←
          if namesNoSet query then do
            let matching ← spanCardinality query
            .ok (if size ≠ 0 then spanPage query skip size descending else [], matching)
          else A.queryListing query skip size descending
        .ok (offsets.map fun offset => index.baseTxNr + offset, matching)

/-- `grdb_transactions_newest`. -/
def newest (index : Transactions A) (filter : TransactionsFilter) : Option Nat :=
  if ¬index.ready then none
  else
    match index.queryOfFilter filter with
    | none => none
    | some query =>
        let offsets :=
          if namesNoSet query then .ok (spanPage query 0 1 true) else A.queryPage query 0 1 true
        match offsets with
        | .ok (offset :: _) => some (index.baseTxNr + offset)
        | _ => none

end Transactions

end GradidoBlockchain
