import GradidoBlockchain.Lib.Unwind
import GradidoBlockchain.Wire.Arrival

/-!
# What a decoded message leaves in its arena

A decode takes its workspace from the arena, and the mapping behind it a block for every array and
every byte string of the value. The workspace is given back before the caller has the value, and the
blocks of the value when it is freed, in an order that is written down in each of the three
functions. The orders unwind some arenas and not others. The arena is any that answers as one does:
it hands out blocks behind one another, charges each with its size rounded up to eight, has the
bytes of the newest back when that is freed, and keeps those of a block that others lie on.
-/

namespace GradidoBlockchain

open Fallible Fallible.Call Unwind

namespace Mapping

/-! ### The heap of pbtools -/

/-- What becomes of a workspace of some bytes in which pbtools reads others: whether the message
itself has room, how far the heap comes, whether all that is asked of it is served, and what pbtools
ends with where it is not. It is a matter of the sizes of the generated structures. -/
structure Heap (α : Type) where
  holds : ℕ → Bool
  used : ℕ → List UInt8 → ℕ
  serves : ℕ → List UInt8 → Bool
  short : ℕ → List UInt8 → Except ArnmResult α
  used_pos : ∀ {room} bytes, holds room = true → 0 < used room bytes
  used_le : ∀ {room} bytes, holds room = true → used room bytes ≤ room

/-- What pbtools reads in a workspace. -/
def Heap.parsed {α : Type} (heap : Heap α) (parse : List UInt8 → Except ArnmResult α) (room : ℕ)
    (bytes : List UInt8) : Except ArnmResult α :=
  if heap.serves room bytes then parse bytes else heap.short room bytes

/-! ### Mappings into an arena -/

/-- A mapping that takes its blocks from an arena. -/
abbrev Taking (σ α : Type) : Type := Call Failure σ α

variable {σ : Type} (arena : Arena σ) (host : Host)

/-- `arnm_alloc` of an arena. -/
def taken (size : ℕ) : Taking σ ℕ := fun state room =>
  match arena.alloc size state with
  | some (start, left) => (.ok start, left, room)
  | none => (.error (.refused .outOfMemory), state, room)

def memoryBlockInto (bytes : Proto.ByteString) : Taking σ (ℕ × List UInt8) :=
  if bytes.length = 0 then fail (.refused .invalidParam)
  else if host.maxAllocSize < bytes.length then fail (.refused .resourceSizeExceed)
  else do
    let start ← taken arena bytes.length
    pure (start, bytes)

/-- A memo, with the place of its bytes where it has some. -/
structure HeldMemo where
  memo : Wire.EncryptedMemo
  data : Option ℕ
  placed : data = none → memo.memo = []

def encryptedMemoInto (pb : Proto.EncryptedMemo) : Taking σ HeldMemo :=
  if 0 < pb.memo.length then do
    let (start, memo) ← memoryBlockInto arena host pb.memo
    pure ⟨⟨pb.type, memo⟩, some start, nofun⟩
  else pure ⟨⟨pb.type, []⟩, none, fun _ => rfl⟩

def convertAllInto {α β : Type} (convert : α → Taking σ β) :
    (items : List α) → Taking σ { out : List β // out.length = items.length }
  | [] => pure ⟨[], rfl⟩
  | item :: items => do
      let first ← convert item
      let ⟨rest, hrest⟩ ← convertAllInto convert items
      pure ⟨first :: rest, congrArg Nat.succ hrest⟩

/-- An array, with its place where it has been reserved. -/
structure Reserved (α : Type) where
  start : Option ℕ
  few : Few α
  placed : start = none ↔ few.items.length = 0

def Reserved.none {α : Type} : Reserved α := ⟨.none, .empty, ⟨fun _ => rfl, fun _ => rfl⟩⟩

/-- A list of the message with the array of elements of a size that is reserved for it. -/
def fewInto {α β : Type} (sizeof : ℕ) (convert : α → Taking σ β)
    (items : List α) : Taking σ (Reserved β) :=
  if hsome : 0 < items.length then
    if h : 255 ≤ items.length then fail (.refused .arrayIndexOutOfBounds)
    else do
      let start ← taken arena (sizeof * items.length)
      let ⟨out, hout⟩ ← convertAllInto convert items
      pure ⟨some start, ⟨out, by omega⟩,
        ⟨nofun, fun hzero => absurd (hout.symm.trans hzero) (Nat.ne_of_gt hsome)⟩⟩
  else pure .none

def otherCommunityUuidInto (bytes : Proto.ByteString) : Taking σ (Option (ℕ × Uuid)) :=
  if bytes.length = 0 then pure none
  else do
    let start ← taken arena 16
    let uuid ← beside (communityUuidFromPbtools bytes)
    pure (some (start, uuid))

/-- `grdw_transaction_body`, with the places of its blocks. -/
structure HeldBody where
  memos : Reserved HeldMemo
  otherCommunityUuid : Option (ℕ × Uuid)
  createdAt : Timestamp
  detail : Wire.Detail
  type : CrossGroup

/-- `grdm_transaction_body_from_pbtools` into an arena. -/
def transactionBodyInto (pb : Proto.TransactionBody) : Taking σ HeldBody :=
  if protocolVersion ≠ pb.versionNumber then fail (.refused .pbIncorrectVersion)
  else do
    let memos ← fewInto arena sizeofEncryptedMemo (encryptedMemoInto arena host) pb.memos
    let otherCommunityUuid ← otherCommunityUuidInto arena pb.otherCommunityUuid
    let createdAt ← beside (timestampFromPbtools pb.createdAt)
    let detail ← beside (detailFromPbtools pb.data)
    pure ⟨memos, otherCommunityUuid, createdAt, detail, pb.type⟩

/-- `grdw_gradido_transaction`, with the places of its blocks. -/
structure HeldTransaction where
  sigMap : Reserved SignaturePair
  pairingLedgerAnchor : Wire.LedgerAnchor
  bodyBytes : ℕ × List UInt8

def sigMapInto (sigMap : Option Proto.SignatureMap) : Taking σ (Reserved SignaturePair) :=
  match sigMap with
  | some sigMap =>
      fewInto arena sizeofSignaturePair (fun pair => beside (signaturePairFromPbtools pair))
        sigMap.sigPair
  | none => pure .none

/-- `grdm_gradido_transaction_from_pb` into an arena. -/
def gradidoTransactionInto (pb : Option Proto.GradidoTransaction) : Taking σ HeldTransaction := do
  let pb ← beside (notNull pb)
  let sigMap ← sigMapInto arena pb.sigMap
  let pairingLedgerAnchor ← beside (pairingLedgerAnchorFromPb host pb.pairingLedgerAnchor)
  let bodyBytes ← memoryBlockInto arena host pb.bodyBytes
  pure ⟨sigMap, pairingLedgerAnchor, bodyBytes⟩

/-- `grdw_confirmed_transaction`, with the places of its blocks. -/
structure HeldConfirmed where
  id : UInt64
  transaction : HeldTransaction
  confirmedAt : Timestamp
  runningHash : Bytes 32
  ledgerAnchor : Wire.LedgerAnchor
  accountBalances : Reserved AccountBalance

/-- `grdm_confirmed_transaction_from_pb` into an arena. -/
def confirmedTransactionInto (pb : Proto.ConfirmedTransaction) : Taking σ HeldConfirmed :=
  if protocolVersion ≠ pb.versionNumber then fail (.refused .pbIncorrectVersion)
  else do
    let transaction ← gradidoTransactionInto arena host pb.transaction
    let confirmedAt ← beside (timestampFromPbtools pb.confirmedAt)
    let runningHash ← beside (copy 32 pb.runningHash)
    let ledgerAnchor ← beside (ledgerAnchorFromPbtools host.union pb.ledgerAnchor)
    let accountBalances ← fewInto arena sizeofAccountBalance
        (fun balance => beside (accountBalanceFromPbtools balance)) pb.accountBalances
    pure ⟨pb.id, transaction, confirmedAt, runningHash, ledgerAnchor, accountBalances⟩

/-- A decode: pbtools works in all that the arena has left. What it has not used goes back,
whatever it has decoded; the rest stays, where it is not a message that could be read, and else
until that has been mapped. -/
def decodeInto {α β : Type} (heap : Heap α) (parse : List UInt8 → Except ArnmResult α)
    (convert : α → Taking σ β) (bytes : List UInt8) : Taking σ β :=
  if bytes = [] then fail (.refused .invalidParam)
  else do
    let room ← gets arena.room
    if room = 0 then fail (.refused .outOfMemory)
    else do
      let start ← taken arena room
      if heap.holds room then do
        write (arena.resize ⟨start, room⟩ (heap.used room bytes))
        match heap.parsed parse room bytes with
        | .error code => fail (.refused code)
        | .ok message => andRelease (convert message) (arena.free ⟨start, heap.used room bytes⟩)
      else fail (.refused .outOfMemory)

/-- `grdw_transaction_body_decode` into an arena. -/
def transactionBodyDecodeInto (heap : Heap Proto.TransactionBody) :
    List UInt8 → Taking σ HeldBody :=
  decodeInto arena heap PbTools.codec.transactionBody (transactionBodyInto arena host)

/-- `grdw_gradido_transaction_decode` into an arena. -/
def gradidoTransactionDecodeInto (heap : Heap Proto.GradidoTransaction) :
    List UInt8 → Taking σ HeldTransaction :=
  decodeInto arena heap (PbTools.parse PbTools.gradidoTransactionDecodeInner)
    fun pb => gradidoTransactionInto arena host (some pb)

/-- `grdw_confirmed_transaction_decode` into an arena. -/
def confirmedTransactionDecodeInto (heap : Heap Proto.ConfirmedTransaction) :
    List UInt8 → Taking σ HeldConfirmed :=
  decodeInto arena heap PbTools.codec.confirmedTransaction (confirmedTransactionInto arena host)

/-! ### Freeing -/

def HeldMemo.block (held : HeldMemo) : Option Extent :=
  held.data.map fun start => ⟨start, held.memo.memo.length⟩

def Reserved.block {α : Type} (sizeof : ℕ) (reserved : Reserved α) : Option Extent :=
  reserved.start.map fun start => ⟨start, sizeof * reserved.few.items.length⟩

/-- What `grdw_transaction_body_free` gives back, in its order. -/
def HeldBody.freed (held : HeldBody) : List Extent :=
  (if held.memos.few.items.length = 0 then []
      else held.memos.few.items.reverse.filterMap HeldMemo.block ++
        (held.memos.block sizeofEncryptedMemo).toList) ++
    (held.otherCommunityUuid.map fun uuid => (⟨uuid.1, 16⟩ : Extent)).toList

/-- What `grdw_gradido_transaction_free` gives back. -/
def HeldTransaction.freed (held : HeldTransaction) : List Extent :=
  ⟨held.bodyBytes.1, held.bodyBytes.2.length⟩ :: (held.sigMap.block sizeofSignaturePair).toList

/-- What `grdw_confirmed_transaction_free` gives back. -/
def HeldConfirmed.freed (held : HeldConfirmed) : List Extent :=
  held.transaction.freed ++ (held.accountBalances.block sizeofAccountBalance).toList

/-! ### Where the blocks come to lie -/

def HeldBody.body (held : HeldBody) : Wire.TransactionBody where
  memos :=
    ⟨held.memos.few.items.map HeldMemo.memo, by rw [List.length_map]; exact held.memos.few.few⟩
  otherCommunityUuid := held.otherCommunityUuid.map Prod.snd
  createdAt := held.createdAt
  detail := held.detail
  type := held.type

def HeldTransaction.transaction (held : HeldTransaction) : Wire.GradidoTransaction :=
  ⟨held.sigMap.few, held.bodyBytes.2, held.pairingLedgerAnchor⟩

def HeldConfirmed.confirmed (held : HeldConfirmed) : Wire.ConfirmedTransaction :=
  ⟨held.id, held.transaction.transaction, held.confirmedAt, held.runningHash, held.ledgerAnchor,
    held.accountBalances.few⟩

/-- Where a mapping into an arena comes to its end, the plain one has given its value, and its
blocks lie behind one another from where the arena had come to. -/
def Lays {α β : Type} (traced : Taking σ α) (plain : Decode β)
    (post : α → β → List Extent → Prop) : Prop :=
  ∀ ⦃state left room rest held⦄, traced state room = (.ok held, left, rest) →
    ∃ value blocks, Gives plain value ∧ post held value blocks ∧
      Stacked align8 (arena.mark state) blocks ∧ arena.Spent state (charged align8 blocks) left

namespace Lays

variable {arena} {α β γ δ : Type} {traced : Taking σ α} {plain : Decode β}
  {post other : α → β → List Extent → Prop}

theorem mono (hlays : Lays arena traced plain post)
    (hpost : ∀ held value blocks, post held value blocks → other held value blocks) :
    Lays arena traced plain other := by
  intro state left room rest held hrun
  obtain ⟨value, blocks, hgives, hheld, hstacked, hleft⟩ := hlays hrun
  exact ⟨value, blocks, hgives, hpost _ _ _ hheld, hstacked, hleft⟩

theorem fail (code : Failure) : Lays arena (Call.fail code) plain post := by
  intro state left room rest held hrun
  cases hrun

theorem pure {held : α} {value : β} (hpost : post held value []) :
    Lays arena (Pure.pure held) (Pure.pure value) post := by
  intro state left room rest result hrun
  obtain ⟨rfl, rfl, -⟩ := pure_ok.1 hrun
  exact ⟨value, [], .pure value, hpost, trivial, .refl state⟩

theorem bind {next : α → Taking σ γ} {following : β → Decode δ} {after : γ → δ → List Extent → Prop}
    (hlays : Lays arena traced plain post)
    (hnext : ∀ held value blocks, post held value blocks →
      Lays arena (next held) (following value) fun result final more =>
        after result final (blocks ++ more)) :
    Lays arena (traced >>= next) (plain >>= following) after := by
  intro state left room rest result hrun
  obtain ⟨held, middle, between, hfirst, hsecond⟩ := bind_ok.1 hrun
  obtain ⟨value, blocks, hgives, hheld, hstacked, hspent⟩ := hlays hfirst
  obtain ⟨final, more, hfinal, hafter, hmore, hspent'⟩ := hnext held value blocks hheld hsecond
  rw [hspent.1] at hmore
  refine ⟨final, blocks ++ more, hgives.bind hfinal, hafter, stacked_append.2 ⟨hstacked, hmore⟩, ?_⟩
  rw [charged_append]
  exact hspent.trans hspent'

/-- A mapping that takes nothing from the arena. -/
theorem beside {accepted faulty : Prop} (hdecides : Decides plain accepted faulty) :
    Lays arena (Mapping.beside plain) plain fun held value blocks =>
      held = value ∧ blocks = [] := by
  intro state left room rest held hrun
  obtain ⟨inner, hinner, rfl⟩ := within_ok.1 hrun
  exact ⟨held, [], (hdecides.taken hinner).2, ⟨rfl, rfl⟩, trivial, .refl state⟩

theorem taken (hlawful : arena.Lawful align8) {size : ℕ} (hpos : 0 < size) :
    Lays arena (Mapping.taken arena size) allocate fun start _ blocks =>
      blocks = [⟨start, size⟩] := by
  intro state left room rest start hrun
  rw [Mapping.taken] at hrun
  split at hrun
  next halloc =>
    cases hrun
    obtain ⟨rfl, hspent⟩ := hlawful.alloc_some hpos halloc
    exact ⟨(), [⟨arena.mark state, size⟩], .allocate, rfl, ⟨rfl, hpos, trivial⟩,
      by simpa using hspent⟩
  next => cases hrun

variable {convert : α → Taking σ γ} {mapping : α → Decode β} {value : γ → β}
  {blocks : γ → List Extent}

theorem convertAll
    (hconvert : ∀ item, Lays arena (convert item) (mapping item) fun held given taken =>
      given = value held ∧ taken = blocks held) (items : List α) :
    Lays arena (convertAllInto convert items) (Mapping.convertAll mapping items)
      fun held given taken =>
      given.1 = held.1.map value ∧ taken = held.1.flatMap blocks := by
  induction items with
  | nil => exact pure ⟨rfl, rfl⟩
  | cons item items ih =>
    refine (hconvert item).bind fun first given taken hfirst =>
      ih.bind fun others rest more hrest => pure ?_
    obtain ⟨rfl, rfl⟩ := hfirst
    obtain ⟨hrest, rfl⟩ := hrest
    exact ⟨by simp [hrest], by simp⟩

theorem few (hlawful : arena.Lawful align8) {sizeof : ℕ} (hsizeof : 0 < sizeof)
    (hconvert : ∀ item, Lays arena (convert item) (mapping item) fun held given taken =>
      given = value held ∧ taken = blocks held) (items : List α) :
    Lays arena (fewInto arena sizeof convert items) (fewFromPbtools mapping items)
      fun held given taken =>
      given.items = held.few.items.map value ∧
          taken = (held.block sizeof).toList ++ held.few.items.flatMap blocks := by
  rw [fewInto, fewFromPbtools]
  split
  next hsome =>
    split
    · exact fail _
    · refine (Lays.taken hlawful (Nat.mul_pos hsizeof hsome)).bind fun start _ room hroom =>
        (convertAll hconvert items).bind fun held given taken hheld => pure ?_
      obtain ⟨out, hout⟩ := held
      obtain ⟨hgiven, rfl⟩ := hheld
      refine ⟨hgiven, ?_⟩
      rw [hroom, Reserved.block, hout, List.append_nil]
      rfl
  next => exact pure ⟨rfl, rfl⟩

end Lays

variable {arena} {host} {α γ : Type}

theorem memoryBlock_lays (hlawful : arena.Lawful align8) (bytes : Proto.ByteString) :
    Lays arena (memoryBlockInto arena host bytes) (memoryBlockFromPbtools host bytes)
      fun held value blocks => value = held.2 ∧ blocks = [⟨held.1, held.2.length⟩] := by
  rw [memoryBlockInto, memoryBlockFromPbtools]
  split
  · exact .fail _
  · split
    · exact .fail _
    · exact (Lays.taken hlawful (by omega)).bind fun start _ blocks hblocks =>
        .pure ⟨rfl, by rw [hblocks, List.append_nil]⟩

theorem encryptedMemo_lays (hlawful : arena.Lawful align8) (pb : Proto.EncryptedMemo) :
    Lays arena (encryptedMemoInto arena host pb) (encryptedMemoFromPbtools host pb)
      fun held value blocks => value = held.memo ∧ blocks = held.block.toList := by
  rw [encryptedMemoInto, encryptedMemoFromPbtools]
  split
  · refine (memoryBlock_lays hlawful pb.memo).bind fun held value blocks hheld => .pure ?_
    obtain ⟨rfl, rfl⟩ := hheld
    exact ⟨rfl, rfl⟩
  · exact .pure ⟨rfl, rfl⟩

/-- The items of an array that take nothing of their own. -/
theorem fewBeside_lays (hlawful : arena.Lawful align8) {α β : Type} {sizeof : ℕ}
    (hsizeof : 0 < sizeof) {convert : α → Decode β} {accepted : α → Prop}
    (hdecides : ∀ item, Decides (convert item) (accepted item) False) (items : List α) :
    Lays arena (fewInto arena sizeof (fun item => beside (convert item)) items)
      (fewFromPbtools convert items) fun held value blocks =>
      value = held.few ∧ blocks = (held.block sizeof).toList := by
  apply (Lays.few hlawful hsizeof
    (fun item =>
      (Lays.beside (hdecides item)).mono fun held value blocks hheld =>
        (⟨hheld.1.symm, hheld.2⟩ : value = id held ∧ blocks = (fun _ => []) held)) items).mono
  intro held value blocks hheld
  obtain ⟨hvalue, rfl⟩ := hheld
  exact ⟨Few.ext (by rw [hvalue, List.map_id]), by simp⟩

theorem otherCommunityUuid_lays (hlawful : arena.Lawful align8) (bytes : Proto.ByteString) :
    Lays arena (otherCommunityUuidInto arena bytes) (otherCommunityUuidFromPbtools bytes)
      fun held value blocks =>
        value = held.map Prod.snd ∧
          blocks = (held.map fun uuid => (⟨uuid.1, 16⟩ : Extent)).toList := by
  rw [otherCommunityUuidInto, otherCommunityUuidFromPbtools]
  split
  · exact .pure ⟨rfl, rfl⟩
  · refine (Lays.taken hlawful (by decide)).bind fun start _ blocks hblocks =>
      (Lays.beside (communityUuid_decides bytes)).bind fun held value none hheld => .pure ?_
    obtain ⟨rfl, rfl⟩ := hheld
    exact ⟨rfl, by rw [hblocks]; rfl⟩

/-! ### Bodies -/

/-- The blocks of a body below that of the other community. -/
def HeldBody.under (held : HeldBody) : List Extent :=
  (held.memos.block sizeofEncryptedMemo).toList ++
    held.memos.few.items.flatMap fun memo => memo.block.toList

def HeldBody.above (held : HeldBody) : List Extent :=
  (held.otherCommunityUuid.map fun uuid => (⟨uuid.1, 16⟩ : Extent)).toList

theorem transactionBody_lays (hlawful : arena.Lawful align8) (pb : Proto.TransactionBody) :
    Lays arena (transactionBodyInto arena host pb) (transactionBodyFromPbtools host pb)
      fun held value blocks => value = held.body ∧ blocks = held.under ++ held.above := by
  rw [transactionBodyInto, transactionBodyFromPbtools]
  split
  · exact .fail _
  · refine (Lays.few hlawful (by decide) (encryptedMemo_lays hlawful) pb.memos).bind
      fun memos few under hmemos =>
        (otherCommunityUuid_lays hlawful pb.otherCommunityUuid).bind fun uuid other above huuid =>
          (Lays.beside (timestamp_decides pb.createdAt)).bind
            fun createdAt timestamp _ htimestamp =>
              (Lays.beside (detail_decides pb.data)).bind fun detail data _ hdetail => .pure ?_
    obtain ⟨hfew, rfl⟩ := hmemos
    obtain ⟨rfl, rfl⟩ := huuid
    obtain ⟨rfl, rfl⟩ := htimestamp
    obtain ⟨rfl, rfl⟩ := hdetail
    refine ⟨?_, by simp [HeldBody.under, HeldBody.above]⟩
    congr 1
    exact Few.ext hfew

/-- Bodies are freed from their last memo to their first, and then the other
community on top of these. -/
theorem HeldBody.freed_eq (held : HeldBody) :
    held.freed = held.under.reverse ++ held.above.reverse := by
  have habove : held.above.reverse = held.above := by
    rw [HeldBody.above]
    cases held.otherCommunityUuid <;> rfl
  rw [habove, HeldBody.freed, HeldBody.under, ← List.filterMap_eq_flatMap_toList,
    List.reverse_append, ← List.filterMap_reverse]
  congr 1
  split
  next hzero =>
    have hnone : held.memos.start = none := held.memos.placed.2 hzero
    rw [List.length_eq_zero_iff.1 hzero, Reserved.block, hnone]
    rfl
  next =>
    congr 1
    rw [Reserved.block]
    cases held.memos.start <;> rfl

theorem charged_block {α : Type} (sizeof : ℕ) (reserved : Reserved α) :
    charged align8 (reserved.block sizeof).toList =
      align8 (sizeof * reserved.few.items.length) := by
  rw [Reserved.block]
  cases hstart : reserved.start with
  | none => rw [reserved.placed.1 hstart, Nat.mul_zero]; rfl
  | some start => simp

theorem block_eq_nil_iff {α : Type} (sizeof : ℕ) (reserved : Reserved α) :
    (reserved.block sizeof).toList = [] ↔ reserved.few.items = [] := by
  rw [Reserved.block, ← List.length_eq_zero_iff (l := reserved.few.items), ← reserved.placed]
  simp

theorem HeldMemo.charged_block (held : HeldMemo) :
    charged align8 held.block.toList = align8 held.memo.memo.length := by
  rw [HeldMemo.block]
  cases hdata : held.data with
  | none => rw [held.placed hdata]; rfl
  | some start => simp

/-- The bytes of the array of memos and of the memos themselves. -/
def memosCharge (body : Wire.TransactionBody) : ℕ :=
  align8 (sizeofEncryptedMemo * body.memos.items.length) +
    (body.memos.items.map fun memo => align8 memo.memo.length).sum

theorem HeldBody.charged_under (held : HeldBody) :
    charged align8 held.under = memosCharge held.body := by
  have hitems (memos : List HeldMemo) :
      charged align8 (memos.flatMap fun memo => memo.block.toList) =
        (memos.map fun memo => align8 memo.memo.memo.length).sum := by
    induction memos with
    | nil => rfl
    | cons memo memos ih =>
        rw [List.flatMap_cons, charged_append, memo.charged_block, ih, List.map_cons, List.sum_cons]
  rw [HeldBody.under, charged_append, Mapping.charged_block, hitems, memosCharge, HeldBody.body,
    List.length_map, List.map_map]
  rfl

theorem HeldBody.above_eq_nil_iff (held : HeldBody) :
    held.above = [] ↔ held.body.otherCommunityUuid = none := by
  simp [HeldBody.above, HeldBody.body]

theorem HeldBody.blocks_eq_nil_iff (held : HeldBody) :
    held.under ++ held.above = [] ↔
      held.body.memos.items = [] ∧ held.body.otherCommunityUuid = none := by
  rw [List.append_eq_nil_iff, held.above_eq_nil_iff, HeldBody.under, List.append_eq_nil_iff,
    block_eq_nil_iff, HeldBody.body, List.map_eq_nil_iff]
  simp +contextual

/-! ### Transactions -/

def HeldTransaction.under (held : HeldTransaction) : List Extent :=
  (held.sigMap.block sizeofSignaturePair).toList ++ [⟨held.bodyBytes.1, held.bodyBytes.2.length⟩]

/-- Nothing lies on the body bytes. -/
def HeldTransaction.above (_ : HeldTransaction) : List Extent := []

def HeldConfirmed.above (held : HeldConfirmed) : List Extent :=
  (held.accountBalances.block sizeofAccountBalance).toList

theorem toList_reverse {α : Type} (some? : Option α) : some?.toList.reverse = some?.toList := by
  cases some? <;> rfl

theorem HeldTransaction.freed_eq (held : HeldTransaction) :
    held.freed = held.under.reverse ++ held.above.reverse := by
  rw [HeldTransaction.freed, HeldTransaction.under, HeldTransaction.above, List.reverse_append,
    toList_reverse, List.reverse_nil, List.append_nil]
  rfl

theorem HeldConfirmed.freed_eq (held : HeldConfirmed) :
    held.freed = held.transaction.under.reverse ++ held.above.reverse := by
  rw [HeldConfirmed.freed, held.transaction.freed_eq, HeldTransaction.above, HeldConfirmed.above,
    toList_reverse, List.reverse_nil, List.append_nil]

theorem sigMap_lays (hlawful : arena.Lawful align8) (pb : Option Proto.SignatureMap) :
    Lays arena (sigMapInto arena pb) (sigMapFromPb pb) fun held value blocks =>
      value = held.few ∧ blocks = (held.block sizeofSignaturePair).toList := by
  cases pb with
  | none => exact .pure ⟨rfl, rfl⟩
  | some pb => exact fewBeside_lays hlawful (by decide) signaturePair_decides pb.sigPair

theorem gradidoTransaction_lays (hlawful : arena.Lawful align8)
    (pb : Option Proto.GradidoTransaction) :
    Lays arena (gradidoTransactionInto arena host pb) (gradidoTransactionFromPb host pb)
      fun held value blocks => value = held.transaction ∧ blocks = held.under ++ held.above := by
  cases pb with
  | none => exact .fail _
  | some pb =>
    refine (sigMap_lays hlawful pb.sigMap).bind fun sigMap few under hsigMap =>
      (Lays.beside (pairingLedgerAnchor_decides pb.pairingLedgerAnchor)).bind
        fun anchor pairing _ hanchor =>
          (memoryBlock_lays hlawful pb.bodyBytes).bind fun bytes bodyBytes last hbytes => .pure ?_
    obtain ⟨rfl, rfl⟩ := hsigMap
    obtain ⟨rfl, rfl⟩ := hanchor
    obtain ⟨rfl, rfl⟩ := hbytes
    exact ⟨rfl, by simp [HeldTransaction.under, HeldTransaction.above]⟩

theorem confirmedTransaction_lays (hlawful : arena.Lawful align8)
    (pb : Proto.ConfirmedTransaction) :
    Lays arena (confirmedTransactionInto arena host pb) (confirmedTransactionFromPb host pb)
      fun held value blocks =>
        value = held.confirmed ∧ blocks = held.transaction.under ++ held.above := by
  rw [confirmedTransactionInto, confirmedTransactionFromPb]
  split
  · exact .fail _
  · refine (gradidoTransaction_lays hlawful pb.transaction).bind
      fun transaction tx under htransaction =>
        (Lays.beside (timestamp_decides pb.confirmedAt)).bind
          fun confirmedAt timestamp _ htimestamp =>
            (Lays.beside (Decides.copy 32 pb.runningHash)).bind fun runningHash hash _ hhash =>
              (Lays.beside (ledgerAnchor_decides pb.ledgerAnchor)).bind
                fun ledgerAnchor anchor _ hanchor =>
                  (fewBeside_lays hlawful (by decide) accountBalance_decides
                    pb.accountBalances).bind fun balances few above hbalances => .pure ?_
    obtain ⟨rfl, rfl⟩ := htransaction
    obtain ⟨rfl, rfl⟩ := htimestamp
    obtain ⟨rfl, rfl⟩ := hhash
    obtain ⟨rfl, rfl⟩ := hanchor
    obtain ⟨rfl, rfl⟩ := hbalances
    exact ⟨rfl, by simp [HeldTransaction.above, HeldConfirmed.above]⟩

/-- The bytes of the signatures and of the body. -/
def transactionCharge (tx : Wire.GradidoTransaction) : ℕ :=
  align8 (sizeofSignaturePair * tx.sigMap.items.length) + align8 tx.bodyBytes.length

theorem HeldTransaction.charged_under (held : HeldTransaction) :
    charged align8 held.under = transactionCharge held.transaction := by
  rw [HeldTransaction.under, charged_append, charged_block]
  rfl

/-! ### From the decode to the free -/

/-- The workspace of a decode, shrunk to what pbtools has used. -/
theorem workspace_spent (hlawful : arena.Lawful align8) {heap : Heap α} {state middle : σ}
    {start : ℕ} (bytes : List UInt8) (hholds : heap.holds (arena.room state) = true)
    (hroom : arena.room state ≠ 0)
    (halloc : arena.alloc (arena.room state) state = some (start, middle)) :
    start = arena.mark state ∧
      arena.Spent state (align8 (heap.used (arena.room state) bytes))
        (arena.resize ⟨start, arena.room state⟩ (heap.used (arena.room state) bytes) middle) := by
  obtain ⟨rfl, hmark, hleft⟩ := hlawful.alloc_some (Nat.pos_of_ne_zero hroom) halloc
  obtain ⟨hend, hshrunk⟩ :=
    @Arena.Lawful.resize_newest _ _ _ hlawful ⟨arena.mark state, arena.room state⟩ _ _
      (heap.used_pos bytes hholds) (heap.used_le bytes hholds) hmark.symm
  exact ⟨rfl, hend, hshrunk.trans hleft⟩

/-- A decode whose bytes pbtools cannot read leaves its workspace behind, and no more. -/
theorem decodeInto_unread (hlawful : arena.Lawful align8) {β : Type} {heap : Heap α}
    {parse : List UInt8 → Except ArnmResult α} {convert : α → Taking σ β} {bytes : List UInt8}
    {state middle : σ} {start : ℕ} {code : ArnmResult} (room : Room) (hne : bytes ≠ [])
    (hroom : arena.room state ≠ 0) (hholds : heap.holds (arena.room state) = true)
    (halloc : arena.alloc (arena.room state) state = some (start, middle))
    (hunread : heap.parsed parse (arena.room state) bytes = .error code) :
    ∃ left, decodeInto arena heap parse convert bytes state room =
        (.error (.refused code), left, room) ∧
      arena.Spent state (align8 (heap.used (arena.room state) bytes)) left := by
  have htaken : taken arena (arena.room state) state room = (.ok start, middle, room) := by
    rw [taken, halloc]
  refine ⟨_, ?_, (workspace_spent hlawful bytes hholds hroom halloc).2⟩
  rw [decodeInto, if_neg hne, bind_run_ok (gets_ok.2 ⟨rfl, rfl, rfl⟩), if_neg hroom,
    bind_run_ok htaken, if_pos hholds, bind_run_ok (write_run _ _ _), hunread]
  rfl

/-- Of a decode that has come to its end: where the heap of pbtools served every request, the
value is the one that the bytes are decoded to; its blocks lie behind the workspace and are
given back once each, with the size they were taken with. What is gone from the arena then is
what `keeps` tells. -/
def FreesTo (arena : Arena σ) (heap : Heap α) (decode : List UInt8 → Decode γ) (keeps : ℕ → γ → ℕ)
    (bytes : List UInt8) (state : σ) (value : γ) (left : σ) (freed : List Extent) : Prop :=
  (heap.serves (arena.room state) bytes = true → Gives (decode bytes) value) ∧
    ∃ blocks, Stacked align8 (arena.mark state + align8 (heap.used (arena.room state) bytes))
        blocks ∧ freed.Perm blocks ∧
      arena.Spent state (keeps (heap.used (arena.room state) bytes) value)
        (giveAll arena freed left)

theorem decodeInto_freed (hlawful : arena.Lawful align8) {β : Type} {heap : Heap α}
    {parse : List UInt8 → Except ArnmResult α} {convert : α → Taking σ β} {plain : α → Decode γ}
    {value : β → γ} {under above : β → List Extent} {keeps : ℕ → γ → ℕ}
    (hlays : ∀ message, Lays arena (convert message) (plain message) fun held given blocks =>
      given = value held ∧ blocks = under held ++ above held)
    (hkeeps : ∀ held used, keeps used (value held) =
      if under held ++ above held = [] then 0
        else align8 used + stuck align8 (under held) (above held)) {bytes : List UInt8}
    {state left : σ} {room rest : Room} {held : β}
    (hrun : decodeInto arena heap parse convert bytes state room = (.ok held, left, rest)) :
    FreesTo arena heap (decodeWith parse plain) keeps bytes state (value held) left
      ((under held).reverse ++ (above held).reverse) := by
  rw [decodeInto] at hrun
  split at hrun
  · cases hrun
  next hne =>
  obtain ⟨_, _, _, hmark, hrun⟩ := bind_ok.1 hrun
  obtain ⟨rfl, rfl, rfl⟩ := gets_ok.1 hmark
  split at hrun
  · cases hrun
  next hroom =>
  obtain ⟨start, middle, _, htaken, hrun⟩ := bind_ok.1 hrun
  rw [taken] at htaken
  split at htaken
  case h_2 => cases htaken
  next halloc =>
  cases htaken
  split at hrun
  case isFalse => cases hrun
  next hholds =>
  obtain ⟨rfl, hspent⟩ := workspace_spent hlawful bytes hholds hroom halloc
  obtain ⟨_, _, _, hshrunk, hrun⟩ := bind_ok.1 hrun
  obtain ⟨rfl, rfl⟩ := write_ok.1 hshrunk
  rcases hparsed : heap.parsed parse (arena.room state) bytes with _ | message
  · rw [hparsed] at hrun
    cases hrun
  · rw [hparsed] at hrun
    obtain ⟨between, hconvert, rfl⟩ := andRelease_ok.1 hrun
    obtain ⟨_, _, hgives, ⟨rfl, rfl⟩, hstacked, hmore⟩ := hlays message hconvert
    rw [hspent.1] at hstacked
    refine ⟨fun hserves => ?_, _, hstacked, (List.reverse_perm _).append (List.reverse_perm _), ?_⟩
    · rw [Heap.parsed, if_pos hserves] at hparsed
      exact decodeWith_nil hne hparsed hgives
    · rw [hkeeps]
      exact giveAll_beneath hlawful (heap.used_pos bytes hholds) hstacked (hspent.trans hmore)

/-- What is left of a body: nothing where it had no block at all, its workspace where it had any,
and its memos where the other community lay on top of them. -/
def bodyKeeps (used : ℕ) (body : Wire.TransactionBody) : ℕ :=
  if body.memos.items = [] ∧ body.otherCommunityUuid = none then 0
  else align8 used + if body.otherCommunityUuid = none then 0 else memosCharge body

/-- What is left of a confirmed transaction: its workspace, and what it confirms where the balances
lay on top of that. -/
def confirmedKeeps (used : ℕ) (tx : Wire.ConfirmedTransaction) : ℕ :=
  align8 used + if tx.accountBalances.items = [] then 0 else transactionCharge tx.transaction

section Decoded

variable (hlawful : arena.Lawful align8) {bytes : List UInt8} {state left : σ} {room rest : Room}

include hlawful

theorem transactionBody_freesTo {heap : Heap Proto.TransactionBody} {held : HeldBody}
    (hrun : transactionBodyDecodeInto arena host heap bytes state room = (.ok held, left, rest)) :
    FreesTo arena heap (transactionBodyDecode PbTools.codec host) bodyKeeps bytes state held.body
      left held.freed := by
  rw [held.freed_eq]
  refine decodeInto_freed hlawful (transactionBody_lays hlawful) (fun held used => ?_) hrun
  simp only [held.blocks_eq_nil_iff, stuck, held.above_eq_nil_iff, held.charged_under, bodyKeeps]

theorem gradidoTransaction_freesTo {heap : Heap Proto.GradidoTransaction} {held : HeldTransaction}
    (hrun : gradidoTransactionDecodeInto arena host heap bytes state room =
      (.ok held, left, rest)) :
    FreesTo arena heap (gradidoTransactionDecode host) (fun used _ => align8 used) bytes state
      held.transaction left held.freed := by
  rw [held.freed_eq]
  refine decodeInto_freed hlawful (fun message => gradidoTransaction_lays hlawful (some message))
    (fun held used => ?_) hrun
  rw [if_neg (by simp [HeldTransaction.under])]
  rfl

theorem confirmedTransaction_freesTo {heap : Heap Proto.ConfirmedTransaction} {held : HeldConfirmed}
    (hrun : confirmedTransactionDecodeInto arena host heap bytes state room =
      (.ok held, left, rest)) :
    FreesTo arena heap (confirmedTransactionDecode PbTools.codec host) confirmedKeeps bytes state
      held.confirmed left held.freed := by
  rw [held.freed_eq]
  refine decodeInto_freed hlawful (confirmedTransaction_lays hlawful) (fun held used => ?_) hrun
  have habove : held.above = [] ↔ held.confirmed.accountBalances.items = [] := block_eq_nil_iff _ _
  rw [if_neg (by simp [HeldTransaction.under])]
  simp only [stuck, habove, held.transaction.charged_under, confirmedKeeps]
  rfl

/-- What each of the three messages leaves in its arena when it has been decoded and freed. -/
theorem decoded_freed (host : Host) (bytes : List UInt8) (state : σ) (room : Room) :
    (∀ heap held left rest, transactionBodyDecodeInto arena host heap bytes state room =
          (.ok held, left, rest) →
        FreesTo arena heap (transactionBodyDecode PbTools.codec host) bodyKeeps bytes state
          held.body left held.freed) ∧
      (∀ heap held left rest, gradidoTransactionDecodeInto arena host heap bytes state room =
          (.ok held, left, rest) →
        FreesTo arena heap (gradidoTransactionDecode host) (fun used _ => align8 used) bytes state
          held.transaction left held.freed) ∧
      (∀ heap held left rest, confirmedTransactionDecodeInto arena host heap bytes state room =
          (.ok held, left, rest) →
        FreesTo arena heap (confirmedTransactionDecode PbTools.codec host) confirmedKeeps bytes
          state held.confirmed left held.freed) :=
  ⟨fun _ _ _ _ => transactionBody_freesTo hlawful,
    fun _ _ _ _ => gradidoTransaction_freesTo hlawful,
    fun _ _ _ _ => confirmedTransaction_freesTo hlawful⟩

end Decoded

/-- An arena that knows no more than where its next block goes and how much is left. -/
def countingArena : Arena (ℕ × ℕ) where
  mark := Prod.fst
  room := Prod.snd
  alloc size state :=
    if align8 size ≤ state.2 then some (state.1, state.1 + align8 size, state.2 - align8 size)
      else none
  resize block size state :=
    if block.start + align8 block.size = state.1 then
      (block.start + align8 size, state.2 + align8 block.size - align8 size)
    else state
  free block state :=
    if block.start + align8 block.size = state.1 then (block.start, state.2 + align8 block.size)
      else state

theorem countingArena_lawful : countingArena.Lawful align8 where
  le_pad size := by rw [align8]; omega
  alloc_some {size state left start} _ halloc := by
    obtain ⟨hfits, hsome⟩ := Option.ite_none_right_eq_some.1 halloc
    cases hsome
    exact ⟨rfl, rfl, Nat.sub_add_cancel hfits⟩
  resize_newest {block size state} _ hle hend := by
    have hround : align8 size ≤ align8 block.size := by rw [align8, align8]; omega
    have hrun : countingArena.resize block size state =
        (block.start + align8 size, state.2 + align8 block.size - align8 size) := if_pos hend
    rw [hrun]
    exact ⟨rfl, Nat.sub_add_cancel (Nat.le_add_left_of_le hround)⟩
  free_newest {block state} _ hend := by
    have hrun : countingArena.free block state = (block.start, state.2 + align8 block.size) :=
      if_pos hend
    rw [hrun]
    exact ⟨rfl, rfl⟩
  free_buried {block state} hburied := by
    have hrun : countingArena.free block state = state := if_neg (Nat.ne_of_lt hburied)
    rw [hrun]
    exact ⟨rfl, rfl⟩

/-- A memo of one byte with another community behind it. -/
def toppedBody : Proto.TransactionBody where
  memos := [⟨.plain, [1]⟩]
  createdAt := some ⟨0, 0⟩
  versionNumber := protocolVersion
  type := .cross
  otherCommunityUuid := (zeroBytes 16).toList
  data := .none

/-- The heap of `toppedBody` where pointers have eight bytes: 88 for the message and 73
for what it holds. -/
def toppedHeap : Heap Proto.TransactionBody where
  holds room := 88 ≤ room
  used room _ := min room 161
  serves room _ := 161 ≤ room
  short _ _ := .error .outOfMemory
  used_pos _ hholds := by
    have hroom := of_decide_eq_true hholds
    omega
  used_le _ _ := Nat.min_le_left _ _

/-- The workspace of 161 bytes, the array and the memo stay, and the other community does not. -/
theorem decoded_freed_topped :
    ∃ (held : HeldBody) (left : ℕ × ℕ), FreesTo countingArena toppedHeap
        (transactionBodyDecode PbTools.codec plainHost) bodyKeeps toppedBody.bytes (0, 400)
        held.body left held.freed ∧ giveAll countingArena held.freed left = (200, 200) := by
  have hparse : PbTools.codec.transactionBody toppedBody.bytes = .ok toppedBody := by decide +kernel
  have htaken : taken countingArena (countingArena.room (0, 400)) (0, 400) [] =
      (.ok 0, (400, 0), []) := rfl
  have hdecode :
      transactionBodyDecodeInto countingArena plainHost toppedHeap toppedBody.bytes (0, 400) [] =
        andRelease (transactionBodyInto countingArena plainHost toppedBody)
          (countingArena.free ⟨0, 161⟩) (168, 232) [] := by
    rw [transactionBodyDecodeInto, decodeInto, if_neg (by decide),
      bind_run_ok (gets_ok.2 ⟨rfl, rfl, rfl⟩), if_neg (by decide), bind_run_ok htaken,
      if_pos (by decide), bind_run_ok (write_run _ _ _), Heap.parsed, if_pos (by decide), hparse]
    rfl
  exact ⟨_, _,
    (decoded_freed countingArena_lawful plainHost toppedBody.bytes (0, 400) []).1 _ _ _ _
      (hdecode.trans rfl), by decide⟩

end Mapping

end GradidoBlockchain
