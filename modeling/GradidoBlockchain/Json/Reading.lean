import GradidoBlockchain.Json.Reader
import GradidoBlockchain.Runtime.Filling

/-!
# The reading of a document

The functions of `runtime_from_json.c` that take memory. The record keeps its lists and its bytes in
an arena of its own; the handles of a long list and the memos before they are decoded lie in blocks
of the caller's allocator. The first five handles of a list and the first four memos need none.
-/

namespace GradidoBlockchain

open Fallible Fallible.Call

namespace Mapping

/-! ### Memory -/

/-- A block of the caller's allocator, by how many it had handed out before. -/
structure Block where
  nr : ℕ
  size : ℕ
  deriving DecidableEq, Repr

/-- The caller's allocator: the blocks that are taken from it, and whatever has been given back to
it without being one of them in its whole size. A pointer to no block of it is `none`. -/
structure Scratch where
  handedOut : ℕ
  live : List Block
  astray : List (Option Block × ℕ)
  deriving DecidableEq, Repr

namespace Scratch

def empty : Scratch := ⟨0, [], []⟩

def take (size : ℕ) (scratch : Scratch) : Block × Scratch :=
  (⟨scratch.handedOut, size⟩,
    { scratch with handedOut := scratch.handedOut + 1, live := ⟨scratch.handedOut, size⟩ :: scratch.live })

def stray (block : Option Block) (size : ℕ) (scratch : Scratch) : Scratch :=
  { scratch with astray := (block, size) :: scratch.astray }

/-- `arnm_free`. -/
def free (block : Option Block) (size : ℕ) (scratch : Scratch) : Scratch :=
  match block with
  | some block =>
      if block ∈ scratch.live ∧ block.size = size then
        { scratch with live := scratch.live.erase block }
      else scratch.stray (some block) size
  | none => scratch.stray none size

end Scratch

/-- `element_list`: the handles of an array, and the block they are in where the inline room was not
enough. -/
structure ElementList where
  values : List Json
  widened : Option Block

/-- `init_elements`. -/
def ElementList.init : ElementList := ⟨[], none⟩

/-- `ELEMENTS_INLINE`. -/
def elementsInline : ℕ := 5

/-- `DEFAULT_MAX_MEMOS_COUNT`. -/
def defaultMaxMemosCount : ℕ := 4

/-- The record, the caller's allocator, and the lists of the document that is being read. -/
structure Reading where
  record : Filling
  scratch : Scratch
  balances : ElementList
  memos : ElementList
  signatures : ElementList
  memoBlock : Option Block

namespace Reading

/-- Nothing of a document has been read yet. -/
def fresh (owned : Runtime.Owned) : Reading :=
  ⟨⟨owned, .fresh 0⟩, .empty, .init, .init, .init, none⟩

def putRecord (record : Filling) (reading : Reading) : Reading := { reading with record }

def release (reading : Reading) : Reading := reading.putRecord reading.record.release

end Reading

/-- A step of the reading. -/
abbrev Read (α : Type) : Type := Call ArnmResult Reading α

/-- A step on the record is one of the reading. -/
def onRecord {α : Type} (call : Fill α) : Read α := within Reading.record Reading.putRecord call

/-- What arnm or a function without memory answers. -/
def answer {σ α : Type} (outcome : Except ArnmResult α) : Call ArnmResult σ α :=
  check fun _ => outcome

variable (arnm : JsonArnm)

/-- The check of a size that every allocation of arnm begins with. -/
def refuseEmpty {σ : Type} (size : ℕ) : Call ArnmResult σ Unit :=
  match arnm.emptyRequest with
  | some code => if size = 0 then fail code else pure ()
  | none => pure ()

/-- An allocation from the caller's allocator. -/
def takeBlock (size : ℕ) : Call ArnmResult Scratch Block := do
  refuseEmpty arnm size
  growWith .outOfMemory (Scratch.take size)

/-! ### The elements of an array -/

/-- `sizeof(arnm_json_value *)`. -/
def sizeofHandle : ℕ := 8

/-- `read_elements`. What is no array is read as an empty one. -/
def readElements (array : Option Json) (upperBound : ℕ) :
    Call ArnmResult (ElementList × Scratch) Unit := do
  write fun state => (.init, state.2)
  match array with
  | none => pure ()
  | some array =>
      match arnm.readArray array elementsInline with
      | .ok values => write fun state => ({ state.1 with values := values }, state.2)
      | .error .invalidEnumType => pure ()
      | .error .destinationBufferToSmall =>
          if arnm.maxAllocSize / sizeofHandle < upperBound then fail .resourceSizeExceed
          else do
            let block ← within Prod.snd (fun scratch state => (state.1, scratch))
                (takeBlock arnm (upperBound * sizeofHandle))
            write fun state => ({ state.1 with widened := some block }, state.2)
            let values ← check fun _ => arnm.readArray array upperBound
            write fun state => ({ state.1 with values := values }, state.2)
      | .error code => fail code

/-- `release_elements`. -/
def releaseElements (state : ElementList × Scratch) : ElementList × Scratch :=
  (.init, match state.1.widened with
    | some block => state.2.free (some block) block.size
    | none => state.2)

/-! ### The size of the arena -/

/-- The pairing anchor of a document, unless it is `null`. -/
def RootView.presentAnchor (view : RootView) : Option Json :=
  view.pairingLedgerAnchor.filter fun anchor => !anchor.isNull

/-- The sum that `calculate_memory_size` comes to. -/
def jsonTotal (view : RootView) (balances memos signatures : List Json) (memoSizes : List ℕ)
    (bodySize : ℕ) : ℕ :=
  align8 (balances.length * sizeofAccountBalance) + align8 (memos.length * sizeofEncryptedMemo) +
    (memoSizes.map align8).sum + align8 (signatures.length * sizeofSignaturePair) +
    (if view.txPairingCommunityUuid.isSome then align8 16 else 0) +
    (if view.presentAnchor.isSome then align8 sizeofLedgerAnchor else 0) + align8 bodySize

/-- `calculate_memory_size`, with the memos it has read on its way. -/
def calculateJsonSize (view : RootView) (balances memos signatures : List Json) :
    Except ArnmResult (ℕ × List MemoText) := do
  let texts ← readEncryptedMemos arnm memos
  let memoSizes ← texts.mapM fun text => arnm.base64BinarySize text.memo
  let bodySize ← arnm.base64BinarySize view.bodyBytes
  if arnm.maxAllocSize < jsonTotal view balances memos signatures memoSizes bodySize then
    .error .resourceSizeExceed
  else .ok (jsonTotal view balances memos signatures memoSizes bodySize, texts)

/-! ### Into the arena -/

/-- `read_base64_block`, of the body. -/
def readBodyBytes (text : String) : Fill Unit :=
  match arnm.binaryFromBase64 text with
  | .error _ => fail .decodeFailed
  | .ok bytes =>
      if bytes.length = 0 then pure ()
      else do
        arenaAlloc arnm.emptyRequest bytes.length
        putTx fun tx => { tx with bodyBytes := bytes }

/-- `read_account_balances`. -/
def readAccountBalances (values : List Json) : Fill Unit :=
  if values.length = 0 then pure ()
  else do
    arenaAlloc arnm.emptyRequest (values.length * sizeofAccountBalance % 2 ^ 32)
    values.forM fun value => do
      let balance ← answer (readAccountBalance arnm value)
      putTx fun tx => { tx with accountBalances := tx.accountBalances ++ [balance] }

/-- `deserialize_encrypted_memos`. -/
def deserializeEncryptedMemos (texts : List MemoText) : Fill Unit :=
  if texts.length = 0 then pure ()
  else do
    arenaAlloc arnm.emptyRequest (texts.length * sizeofEncryptedMemo % 2 ^ 32)
    texts.forM fun text => do
      let size ← answer (arnm.base64BinarySize text.memo)
      arenaAlloc arnm.emptyRequest size
      let bytes ← answer (arnm.binaryFromBase64 text.memo)
      putTx fun tx => { tx with encryptedMemos := tx.encryptedMemos ++ [⟨text.type, bytes⟩] }

/-- `read_signature_pairs`. -/
def readSignaturePairs (values : List Json) : Fill Unit :=
  if values.length = 0 then pure ()
  else do
    arenaAlloc arnm.emptyRequest (values.length * sizeofSignaturePair % 2 ^ 32)
    values.forM fun value => do
      let pair ← answer (readSignaturePair arnm value)
      putTx fun tx => { tx with signaturePairs := tx.signaturePairs ++ [pair] }

/-- The pairing uuid, which the walk of the root has converted. -/
def readPairingUuid (uuid : Option Uuid) : Fill Unit :=
  match uuid with
  | none => pure ()
  | some uuid => do
      arenaAlloc arnm.emptyRequest 16
      putTx fun tx => { tx with txPairingCommunityUuid := some uuid }

def readPairingAnchor (anchor : Option Json) : Fill Unit :=
  match anchor with
  | none => pure ()
  | some anchor => do
      arenaAlloc arnm.emptyRequest sizeofLedgerAnchor
      let anchor ← answer (readLedgerAnchor arnm (some anchor))
      putTx fun tx => { tx with pairingLedgerAnchor := some anchor }

/-- The members of `read_complete_transaction` that lie in the record itself. -/
def readHead (view : RootView) : Fill Unit := do
  let confirmedAt ← answer (readTimestamp arnm view.confirmedAt)
  putTx fun tx => { tx with confirmedAt := confirmedAt }
  let createdAt ← answer (readTimestamp arnm view.createdAt)
  putTx fun tx => { tx with createdAt := createdAt }
  let ledgerAnchor ← answer (readLedgerAnchor arnm view.ledgerAnchor)
  putTx fun tx => { tx with ledgerAnchor := ledgerAnchor }
  let tx ← gets Filling.tx
  let tx ← answer (readTransactionDetail arnm view tx)
  putTx fun _ => tx

/-- And those that lie in its arena. -/
def readArrays (view : RootView) (balances : List Json) (texts : List MemoText)
    (signatures : List Json) : Fill Unit := do
  readAccountBalances arnm balances
  deserializeEncryptedMemos arnm texts
  readSignaturePairs arnm signatures
  readPairingUuid arnm view.txPairingCommunityUuid
  readPairingAnchor arnm view.presentAnchor
  readBodyBytes arnm view.bodyBytes

/-- `read_complete_transaction`. -/
def readCompleteTransaction (view : RootView) (balances memos signatures : List Json) :
    Fill Unit := do
  let (size, texts) ← answer (calculateJsonSize arnm view balances memos signatures)
  if size ≠ 0 then grow .outOfMemory (Filling.openArena .caller size) else pure ()
  readHead arnm view
  readArrays arnm view balances texts signatures

/-! ### The document -/

def readBalanceElements (array : Option Json) (nodeCount : ℕ) : Read Unit :=
  within (fun reading => (reading.balances, reading.scratch))
    (fun state reading => { reading with balances := state.1, scratch := state.2 })
    (readElements arnm array nodeCount)

def readMemoElements (array : Option Json) (nodeCount : ℕ) : Read Unit :=
  within (fun reading => (reading.memos, reading.scratch))
    (fun state reading => { reading with memos := state.1, scratch := state.2 })
    (readElements arnm array nodeCount)

def readSignatureElements (array : Option Json) (nodeCount : ℕ) : Read Unit :=
  within (fun reading => (reading.signatures, reading.scratch))
    (fun state reading => { reading with signatures := state.1, scratch := state.2 })
    (readElements arnm array nodeCount)

/-- The block for the memos of a long list. -/
def takeMemoBlock (count : ℕ) : Read Unit := do
  let block ← within Reading.scratch (fun scratch reading => { reading with scratch := scratch })
    (takeBlock arnm (count * sizeofEncryptedMemo % 2 ^ 32))
  write fun reading => { reading with memoBlock := some block }

/-- The elements of the memos. Where the memos need a block, the answer to the request for it stands
for the reading of their elements as well. -/
def readMemoList (array : Option Json) (nodeCount : ℕ) : Read Unit := do
  let outcome ← attempt (readMemoElements arnm array nodeCount)
  let memos ← gets fun reading => reading.memos.values
  if defaultMaxMemosCount < memos.length then takeMemoBlock arnm memos.length else answer outcome

/-- The lists of `read_document` and what follows them. -/
def readLists (view : RootView) (nodeCount : ℕ) : Read Unit := do
  readBalanceElements arnm view.accountBalances nodeCount
  readMemoList arnm view.encryptedMemos nodeCount
  readSignatureElements arnm view.signaturePairs nodeCount
  let balances ← gets fun reading => reading.balances.values
  let memos ← gets fun reading => reading.memos.values
  let signatures ← gets fun reading => reading.signatures.values
  onRecord (readCompleteTransaction arnm view balances memos signatures)

/-- What `read_document` gives back in the end. -/
def releaseLists (reading : Reading) : Reading :=
  let (signatures, scratch) := releaseElements (reading.signatures, reading.scratch)
  let scratch := if defaultMaxMemosCount < reading.memos.values.length then
      scratch.free reading.memoBlock (reading.memos.values.length * sizeofEncryptedMemo % 2 ^ 32)
    else scratch
  let (memos, scratch) := releaseElements (reading.memos, scratch)
  let (balances, scratch) := releaseElements (reading.balances, scratch)
  { reading with balances := balances, memos := memos, signatures := signatures, scratch := scratch }

/-- The root of the document, up to its lists. -/
def readRootInto (root : Json) (type : TransactionType) : Fill RootView := do
  let tx ← gets Filling.tx
  let (view, tx) ← answer (readRoot arnm root type tx)
  putTx fun _ => tx
  let crossGroupType := CrossGroup.fromString view.crossGroupType
  putTx fun tx => { tx with crossGroupType := crossGroupType }
  if crossGroupType = .none then fail .enumUnknown else pure view

/-- The type of the document, and its root. -/
def readType (root : Json) : Fill RootView := do
  let seen ← answer (arnm.readObject root [.string Key.transactionType])
  let name := (seen (.string Key.transactionType)).getD ""
  if name = "" then fail .decodeFailed
  else do
    let type := TransactionType.fromString name
    putTx fun tx => { tx with transactionType := type }
    if type = .none then fail .enumUnknown else readRootInto arnm root type

/-- `read_document`. -/
def readDocument (root : Json) (nodeCount : ℕ) : Read Unit := do
  let view ← onRecord (readType arnm root)
  write fun reading =>
    { reading with balances := .init, memos := .init, signatures := .init, memoBlock := none }
  andRelease (readLists arnm view nodeCount) releaseLists

/-- `grdm_complete_transaction_from_json`, with room for the reader and for the document. The parsed
document is given back to the caller's allocator before the call returns. -/
def completeTransactionFromJson (text : Text) : Read Unit :=
  if text.length = 0 then fail .invalidParam
  else do
    (List.range 2).forM fun _ => ask .outOfMemory
    let root ← answer (arnm.parse text)
    write Reading.release
    orUndo (readDocument arnm root root.nodes) Reading.release

end Mapping

end GradidoBlockchain
