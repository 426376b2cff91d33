import GradidoBlockchain.Lib.Account
import GradidoBlockchain.Runtime.Filled
import GradidoBlockchain.Runtime.Filling
import Mathlib.Algebra.Order.BigOperators.Group.List
import Mathlib.Algebra.Order.Group.Nat

/-!
# The arena of a decoded record

The mapping from values to the record once more, with the bytes of every copy. The sum of
`calculate_memory_size` is what the copies then take from the arena, so that none of them is refused
and nothing is left over.
-/

namespace GradidoBlockchain

open Fallible Fallible.Call

namespace Mapping

/-! ### Copies of so many bytes -/

/-- A step on the record that takes nothing from its arena. -/
def onOwned {α : Type} (call : Call ArnmResult Runtime.Owned α) : Fill α :=
  within Filling.owned (fun owned filling => { filling with owned }) call

/-- `arnm_clone`, whose size has 32 bits. -/
def cloneSized (emptyRequest : Option ArnmResult) (size : ℕ)
    (change : Runtime.CompleteTransaction → Runtime.CompleteTransaction) : Fill Unit := do
  arenaAlloc emptyRequest (size % 2 ^ 32)
  putTx change

def cloneSizedIf (emptyRequest : Option ArnmResult) (condition : Prop) [Decidable condition]
    (size : ℕ) (change : Runtime.CompleteTransaction → Runtime.CompleteTransaction) : Fill Unit :=
  if condition then cloneSized emptyRequest size change else pure ()

/-- `arnm_memory_block_clone`. -/
def cloneBlockSized (host : RecordHost) (emptyRequest : Option ArnmResult) (bytes : List UInt8)
    (change : Runtime.CompleteTransaction → Runtime.CompleteTransaction) : Fill Unit :=
  if bytes = [] then
    match host.cloneEmpty with
    | some code => fail code
    | none => putTx change
  else cloneSized emptyRequest bytes.length change

/-- The memos, one block for each in the array that is allocated for them. -/
def cloneMemosSized (host : RecordHost) (emptyRequest : Option ArnmResult)
    (memos : List Wire.EncryptedMemo) : Fill Unit :=
  if 0 < memos.length then do
    cloneSized emptyRequest (memos.length * sizeofEncryptedMemo) id
    memos.forM fun memo => cloneBlockSized host emptyRequest memo.memo id
    putTx fun tx => { tx with encryptedMemos := memos }
  else pure ()

/-- What is copied into the arena. -/
def fillArraysSized (host : RecordHost) (emptyRequest : Option ArnmResult)
    (body : Wire.TransactionBody) (confirmed : Wire.ConfirmedTransaction) : Fill Unit := do
  cloneSizedIf emptyRequest (0 < confirmed.accountBalances.items.length)
    (confirmed.accountBalances.items.length * sizeofAccountBalance) fun tx =>
    { tx with accountBalances := confirmed.accountBalances.items }
  cloneMemosSized host emptyRequest body.memos.items
  cloneSizedIf emptyRequest (0 < confirmed.transaction.sigMap.items.length)
    (confirmed.transaction.sigMap.items.length * sizeofSignaturePair)
    fun tx => { tx with signaturePairs := confirmed.transaction.sigMap.items }
  putTx fun tx => { tx with crossGroupType := body.type }
  cloneSizedIf emptyRequest (body.otherCommunityUuid.isSome) 16 fun tx =>
    { tx with txPairingCommunityUuid := body.otherCommunityUuid }
  cloneSizedIf emptyRequest (confirmed.transaction.pairingLedgerAnchor.type ≠ .unspecified)
    sizeofLedgerAnchor fun tx =>
    { tx with pairingLedgerAnchor := some confirmed.transaction.pairingLedgerAnchor }
  cloneBlockSized host emptyRequest confirmed.transaction.bodyBytes fun tx =>
    { tx with bodyBytes := confirmed.transaction.bodyBytes }

/-- `grdm_complete_transaction_from_wire`, with the room in the arena. -/
def completeTransactionFromWireSized (host : RecordHost) (emptyRequest : Option ArnmResult)
    (opener : Runtime.Opener) (body : Wire.TransactionBody) (confirmed : Wire.ConfirmedTransaction)
    (communityUuid : Uuid) : Fill Unit := do
  write Filling.release
  if host.maxAllocSize < calculateMemorySize confirmed body then fail .resourceSizeExceed
  else do
    grow .outOfMemory (Filling.openArena opener (calculateMemorySize confirmed body))
    onOwned (fillHead body confirmed communityUuid)
    fillArraysSized host emptyRequest body confirmed

/-! ### What is drawn -/

/-- The arena that the record has, of which what it has granted is spent; what it has refused counts
among the terms, so that none of it has been refused since. -/
def arenaAccount : Account Filling (ℕ × List ℕ × Bool) where
  terms := fun filling => (filling.arena.size, filling.arena.refused, filling.tx.memoryArea.isSome)
  spent := fun filling => filling.arena.charged
  Fits := fun terms spent => spent ≤ terms.1 ∧ (spent ≠ 0 → terms.2.2 = true)
  fits_le := by
    intro terms more less hfits hle
    exact ⟨Nat.le_trans hle hfits.1,
      fun hless => hfits.2 fun hmore => hless (Nat.le_zero.1 (hmore ▸ hle))⟩

theorem align8_pos {size : ℕ} (hsize : size ≠ 0) : align8 size ≠ 0 := by
  rw [align8]
  omega

theorem le_align8 (size : ℕ) : size ≤ align8 size := by
  rw [align8]
  omega

theorem align8_le (size : ℕ) : align8 size ≤ size + 7 := by
  rw [align8]
  omega

/-- Elements whose size is a multiple of eight lie side by side without a gap. -/
theorem aligned_of_dvd {size : ℕ} (hdvd : 8 ∣ size) (count : ℕ) :
    align8 (count * size) = count * size := by
  obtain ⟨words, rfl⟩ := hdvd
  rw [align8, Nat.mul_left_comm]
  omega

theorem charged_take (size : ℕ) (filling : Filling) :
    (filling.take size).arena.charged = filling.arena.charged + align8 size :=
  Nat.add_comm _ _

/-- What there is room for is given out. -/
theorem arenaAlloc_run (emptyRequest : Option ArnmResult) {size : ℕ} (hsize : size ≠ 0)
    {filling : Filling} (room : Room)
    (hfits :
      arenaAccount.Fits (arenaAccount.terms filling) (arenaAccount.spent filling + align8 size)) :
    arenaAlloc emptyRequest size filling room = (.ok (), filling.take size, room) := by
  obtain ⟨hroom, harea⟩ := hfits
  change filling.arena.charged + align8 size ≤ filling.arena.size at hroom
  have hsome : filling.tx.memoryArea.isNone = false := by
    have hspent := harea fun hzero => align8_pos hsize (Nat.add_eq_zero_iff.1 hzero).2
    exact Option.isNone_eq_false_iff.2 hspent
  rw [arenaAlloc, bind_run_ok (gets_run _ _ _)]
  simp only [if_neg hsize, id]
  rw [hsome, if_neg Bool.false_ne_true, if_neg (Nat.not_lt.2 hroom)]
  rfl

/-- The sized step does on the record what the plain one does with all the memory it asks for,
and draws so much. -/
def Covers (amount : ℕ) (sized : Fill Unit) (plain : Call ArnmResult Runtime.Owned Unit) : Prop :=
  ∀ filling room, arenaAccount.Fits (arenaAccount.terms filling)
      (arenaAccount.spent filling + amount) →
    ∃ left, sized filling room = (.ok (), left, room) ∧
      plain filling.owned [] = (.ok (), left.owned, []) ∧
      arenaAccount.terms left = arenaAccount.terms filling ∧
      arenaAccount.spent left = arenaAccount.spent filling + amount

namespace Covers

variable {amount more : ℕ} {sized next : Fill Unit}
  {plain onward : Call ArnmResult Runtime.Owned Unit}

theorem pure : Covers 0 (Pure.pure ()) (Pure.pure ()) :=
  fun filling _ _ => ⟨filling, rfl, rfl, rfl, rfl⟩

theorem bind (hcall : Covers amount sized plain) (hnext : Covers more next onward) :
    Covers (amount + more) (sized >>= fun _ => next) (plain >>= fun _ => onward) := by
  intro filling room hfits
  rw [← Nat.add_assoc] at hfits
  obtain ⟨middle, hsized, hplain, hterms, hspent⟩ :=
    hcall filling room (arenaAccount.fits_le hfits (Nat.le_add_right _ _))
  rw [← hspent, ← hterms] at hfits
  obtain ⟨left, hsized', hplain', hterms', hspent'⟩ := hnext middle room hfits
  refine ⟨left, (bind_run_ok hsized).trans hsized', (bind_run_ok hplain).trans hplain',
    hterms'.trans hterms, ?_⟩
  rw [hspent', hspent, Nat.add_assoc]

/-- What is drawn before a step that draws nothing is all that is drawn. -/
theorem before (hcall : Covers amount sized plain) (hnext : Covers 0 next onward) :
    Covers amount (sized >>= fun _ => next) (plain >>= fun _ => onward) := hcall.bind hnext

/-- And what is drawn after one. -/
theorem after (hcall : Covers 0 sized plain) (hnext : Covers more next onward) :
    Covers more (sized >>= fun _ => next) (plain >>= fun _ => onward) := by
  rw [← Nat.zero_add more]
  exact hcall.bind hnext

theorem put {change : Runtime.CompleteTransaction → Runtime.CompleteTransaction}
    (hchange : ∀ tx, (change tx).memoryArea = tx.memoryArea) :
    Covers 0 (putTx change) (Mapping.put change) := by
  intro filling room _
  refine ⟨filling.withTx change, rfl, rfl, ?_, rfl⟩
  exact congrArg
    (fun area : Option Runtime.Arena => (filling.arena.size, filling.arena.refused, area.isSome))
    (hchange filling.tx)

theorem clone (emptyRequest : Option ArnmResult) {size : ℕ} (hsize : size ≠ 0)
    (hfits : size < 2 ^ 32) {change : Runtime.CompleteTransaction → Runtime.CompleteTransaction}
    (hchange : ∀ tx, (change tx).memoryArea = tx.memoryArea) :
    Covers (align8 size) (cloneSized emptyRequest size change) (Mapping.clone change) := by
  intro filling room hroom
  refine ⟨(filling.take size).withTx change, ?_, rfl, ?_, charged_take size filling⟩
  · rw [cloneSized, Nat.mod_eq_of_lt hfits,
      bind_run_ok (arenaAlloc_run emptyRequest hsize room hroom)]
    rfl
  · exact congrArg
      (fun area : Option Runtime.Arena => (filling.arena.size, filling.arena.refused, area.isSome))
      (hchange filling.tx)

theorem cloneIf (emptyRequest : Option ArnmResult) {condition : Prop} [Decidable condition]
    {size : ℕ} (hsize : condition → size ≠ 0) (hfits : condition → size < 2 ^ 32)
    {change : Runtime.CompleteTransaction → Runtime.CompleteTransaction}
    (hchange : ∀ tx, (change tx).memoryArea = tx.memoryArea) :
    Covers (if condition then align8 size else 0) (cloneSizedIf emptyRequest condition size change)
      (Mapping.cloneIf condition change) := by
  rw [cloneSizedIf, Mapping.cloneIf]
  split
  · rename_i hcondition
    exact clone emptyRequest (hsize hcondition) (hfits hcondition) hchange
  · exact pure

theorem cloneBlock (host : RecordHost) (emptyRequest : Option ArnmResult) {bytes : List UInt8}
    (hsome : bytes ≠ []) (hfits : bytes.length < 2 ^ 32)
    {change : Runtime.CompleteTransaction → Runtime.CompleteTransaction}
    (hchange : ∀ tx, (change tx).memoryArea = tx.memoryArea) :
    Covers (align8 bytes.length) (cloneBlockSized host emptyRequest bytes change)
      (Mapping.cloneBlock host bytes change) := by
  rw [cloneBlockSized, Mapping.cloneBlock, if_neg hsome, if_neg hsome]
  exact clone emptyRequest (fun hzero => hsome (List.length_eq_zero_iff.1 hzero)) hfits hchange

theorem forM {α : Type} {draw : α → ℕ} {body : α → Fill Unit}
    {other : α → Call ArnmResult Runtime.Owned Unit} {items : List α}
    (hbody : ∀ item ∈ items, Covers (draw item) (body item) (other item)) :
    Covers (items.map draw).sum (items.forM body) (items.forM other) := by
  induction items with
  | nil => exact pure
  | cons item items ih =>
      exact (hbody item List.mem_cons_self).bind
        (ih fun other hother => hbody other (List.mem_cons_of_mem _ hother))

/-- A write after a write is one write. -/
theorem andPut {amount more : ℕ} {call next : Fill Unit}
    {change onward : Runtime.CompleteTransaction → Runtime.CompleteTransaction}
    (hcall : Covers amount call (Mapping.put change))
    (hnext : Covers more next (Mapping.put onward)) :
    Covers (amount + more) (call >>= fun _ => next) (Mapping.put fun tx => onward (change tx)) :=
  hcall.bind hnext

theorem alloc (emptyRequest : Option ArnmResult) {size : ℕ} (hsize : size ≠ 0) :
    Covers (align8 size) (arenaAlloc emptyRequest size) (Mapping.put id) := by
  intro filling room hfits
  exact ⟨filling.take size, arenaAlloc_run emptyRequest hsize room hfits, rfl, rfl,
    charged_take size filling⟩

/-- What has been taken is written to. -/
theorem allocPut (emptyRequest : Option ArnmResult) {size : ℕ} (hsize : size ≠ 0)
    {change : Runtime.CompleteTransaction → Runtime.CompleteTransaction}
    (hchange : ∀ tx, (change tx).memoryArea = tx.memoryArea) :
    Covers (align8 size) (arenaAlloc emptyRequest size >>= fun _ => putTx change)
      (Mapping.put change) :=
  (alloc emptyRequest hsize).andPut (put hchange)

/-- What is made of the items of a list one after the other is made of the list. -/
theorem forM_put {α β : Type} {draw : α → ℕ} {json : α → β} {body : β → Fill Unit}
    {change : List α → Runtime.CompleteTransaction → Runtime.CompleteTransaction}
    (hnil : ∀ tx, change [] tx = tx)
    (hcons : ∀ item items tx, change (item :: items) tx = change items (change [item] tx))
    {items : List α}
    (hbody : ∀ item ∈ items, Covers (draw item) (body (json item)) (Mapping.put (change [item]))) :
    Covers (items.map draw).sum ((items.map json).forM body) (Mapping.put (change items)) := by
  induction items with
  | nil =>
      rw [show change [] = id from funext hnil]
      exact pure
  | cons item items ih =>
      rw [show change (item :: items) = fun tx => change items (change [item] tx)
        from funext (hcons item items)]
      exact (hbody item List.mem_cons_self).andPut
        (ih fun other hother => hbody other (List.mem_cons_of_mem _ hother))

end Covers

/-! ### What a decoded record draws -/

section Record

variable {host : RecordHost} {body : Wire.TransactionBody} {confirmed : Wire.ConfirmedTransaction}

/-- Neither the memos nor the body are without bytes. -/
structure Filled (body : Wire.TransactionBody) (confirmed : Wire.ConfirmedTransaction) : Prop where
  memos : ∀ memo ∈ body.memos.items, memo.memo ≠ []
  body : confirmed.transaction.bodyBytes ≠ []

theorem align8_of_none {count size : ℕ} :
    (if 0 < count then align8 (count * size) else 0) = align8 (count * size) := by
  split
  · rfl
  · rename_i hnone
    rw [Nat.eq_zero_of_not_pos hnone, Nat.zero_mul]
    rfl

/-- What the memos take, the array that they lie in and each of them. -/
def memosSize (memos : List Wire.EncryptedMemo) : ℕ :=
  if memos.length ≠ 0 then
      align8 (memos.length * sizeofEncryptedMemo) +
        (memos.map fun memo => align8 memo.memo.length).sum
    else 0

theorem cloneMemos_covers (emptyRequest : Option ArnmResult) {memos : List Wire.EncryptedMemo}
    (hsome : ∀ memo ∈ memos, memo.memo ≠ []) (hfits : memosSize memos < 2 ^ 32) :
    Covers (memosSize memos) (cloneMemosSized host emptyRequest memos) (cloneMemos host memos) := by
  rw [cloneMemosSized, cloneMemos]
  rw [memosSize] at hfits ⊢
  by_cases hnone : memos.length = 0
  · rw [if_neg (not_not_intro hnone), if_neg (Nat.not_lt.2 (Nat.le_of_eq hnone)),
      if_neg (Nat.not_lt.2 (Nat.le_of_eq hnone))]
    exact .pure
  · rw [if_pos hnone] at hfits ⊢
    rw [if_pos (Nat.pos_of_ne_zero hnone), if_pos (Nat.pos_of_ne_zero hnone)]
    have harray := le_align8 (memos.length * sizeofEncryptedMemo)
    have hblocks : Covers (memos.map fun memo => align8 memo.memo.length).sum
        (memos.forM fun memo => cloneBlockSized host emptyRequest memo.memo id)
        (memos.forM fun memo => cloneBlock host memo.memo id) := by
      refine .forM fun memo hmem => .cloneBlock host emptyRequest (hsome memo hmem) ?_ fun _ => rfl
      have hblock := le_align8 memo.memo.length
      have hsum : align8 memo.memo.length ≤ (memos.map fun memo => align8 memo.memo.length).sum :=
        List.le_sum_of_mem (List.mem_map_of_mem hmem)
      omega
    exact (Covers.clone emptyRequest (Nat.mul_ne_zero hnone (by decide)) (by omega) fun _ =>
      rfl).bind (hblocks.before (.put fun _ => rfl))

theorem calculateMemorySize_eq (confirmed : Wire.ConfirmedTransaction)
    (body : Wire.TransactionBody) :
    calculateMemorySize confirmed body =
      align8 (confirmed.accountBalances.items.length * sizeofAccountBalance) +
        (memosSize body.memos.items +
          (align8 (confirmed.transaction.sigMap.items.length * sizeofSignaturePair) +
            ((if body.otherCommunityUuid.isSome then align8 16 else 0) +
              ((if confirmed.transaction.pairingLedgerAnchor.type ≠ .unspecified then
                    align8 sizeofLedgerAnchor
                  else 0) + align8 confirmed.transaction.bodyBytes.length)))) := by
  rw [calculateMemorySize, show align8 16 = 16 from rfl, ← memosSize]
  omega

/-- What is taken from the arena is what it has been opened for. -/
theorem fillArrays_covers (emptyRequest : Option ArnmResult) (hfilled : Filled body confirmed)
    (hfits : calculateMemorySize confirmed body < 2 ^ 32) :
    Covers (calculateMemorySize confirmed body) (fillArraysSized host emptyRequest body confirmed)
      (fillArrays host body confirmed) := by
  rw [calculateMemorySize_eq] at hfits ⊢
  have hbalances := le_align8 (confirmed.accountBalances.items.length * sizeofAccountBalance)
  have hsignatures := le_align8 (confirmed.transaction.sigMap.items.length * sizeofSignaturePair)
  have hbody := le_align8 confirmed.transaction.bodyBytes.length
  have hlists : ∀ {count size : ℕ} {change : Runtime.CompleteTransaction → Runtime.CompleteTransaction}, size ≠ 0 → count * size < 2 ^ 32 →
      (∀ tx, (change tx).memoryArea = tx.memoryArea) → Covers (align8 (count * size))
        (cloneSizedIf emptyRequest (0 < count) (count * size) change)
            (cloneIf (0 < count) change) := by
    intro count size change hsize hfits hchange
    have hcovers :=
      Covers.cloneIf emptyRequest (fun hcount => Nat.mul_ne_zero (Nat.ne_of_gt hcount) hsize)
        (fun _ => hfits) hchange
    rwa [align8_of_none] at hcovers
  exact .bind (hlists (by decide) (by omega) fun _ => rfl)
    (.bind (cloneMemos_covers emptyRequest hfilled.memos (by omega))
      (.bind (hlists (by decide) (by omega) fun _ => rfl)
        (.after (.put fun _ => rfl)
          (.bind (.cloneIf emptyRequest (fun _ => by decide) (fun _ => by decide) fun _ => rfl)
            (.bind (.cloneIf emptyRequest (fun _ => by decide) (fun _ => by decide) fun _ => rfl)
              (.cloneBlock host emptyRequest hfilled.body (by omega) fun _ => rfl))))))

theorem fillHead_covers (hmapped : Mapped body.detail) (communityUuid : Uuid) :
    Covers 0 (onOwned (fillHead body confirmed communityUuid))
      (fillHead body confirmed communityUuid) := by
  intro filling room _
  have harea : (filledHead body confirmed communityUuid filling.tx).memoryArea =
      filling.tx.memoryArea := copied_memoryArea body.detail _
  refine ⟨_, within_run_eq ((fillHead_takes hmapped).ok rfl), (fillHead_takes hmapped).ok rfl, ?_,
    rfl⟩
  exact congrArg
    (fun area : Option Runtime.Arena => (filling.arena.size, filling.arena.refused, area.isSome))
    harea

/-- The arena had room for everything that was asked of it, and where the record has been filled
there is none left. -/
structure Sufficed (size : ℕ) (outcome : Except ArnmResult Unit) (left : Filling) : Prop where
  opened : left.arena.size = size
  refused : left.arena.refused = []
  charged : left.arena.charged ≤ size
  exact : outcome = .ok () → left.arena.charged = size

variable {opener : Runtime.Opener} {communityUuid : Uuid} {start : Filling} {room rest : Room}

/-- A body of a type that has a layout is copied whole, and the arena is then full. -/
theorem completeTransactionFromWireSized_ok (hmax : host.maxAllocSize < 2 ^ 32)
    (emptyRequest : Option ArnmResult) (hmapped : Mapped body.detail)
    (hfilled : Filled body confirmed)
    (hfits : calculateMemorySize confirmed body ≤ host.maxAllocSize)
    (hgranted : granted 1 room = some rest) :
    ∃ left, completeTransactionFromWireSized host emptyRequest opener body confirmed communityUuid
          start room = (.ok (), left, rest) ∧
      Sufficed (calculateMemorySize confirmed body) (.ok ()) left ∧
      completeTransactionFromWire host opener body confirmed communityUuid start.owned [] =
        (.ok (), left.owned, []) := by
  have hcovers : Covers (calculateMemorySize confirmed body)
      (do onOwned (fillHead body confirmed communityUuid); fillArraysSized host emptyRequest body confirmed)
      (fillRecord host body confirmed communityUuid) :=
    .after (fillHead_covers hmapped communityUuid)
      (fillArrays_covers emptyRequest hfilled (Nat.lt_of_le_of_lt hfits hmax))
  obtain ⟨left, hsized, hplain, hterms, hspent⟩ :=
    hcovers (start.release.openArena opener (calculateMemorySize confirmed body)) rest
      ⟨Nat.le_of_eq (Nat.zero_add _), fun _ => rfl⟩
  have hspent' : left.arena.charged = calculateMemorySize confirmed body :=
    hspent.trans (Nat.zero_add _)
  refine ⟨left, ?_,
    ⟨congrArg (·.1) hterms, congrArg (·.2.1) hterms, Nat.le_of_eq hspent', fun _ => hspent'⟩, ?_⟩
  · rw [completeTransactionFromWireSized, bind_run_ok (write_run _ _ _),
      if_neg (Nat.not_lt.2 hfits)]
    rcases room with _ | ⟨_ | _, room⟩ <;> cases hgranted
    · exact hsized
    · exact hsized
  · rw [completeTransactionFromWire, bind_run_ok (write_run _ _ _), if_neg (Nat.not_lt.2 hfits)]
    exact hplain

/-- A type without a layout is refused before anything is taken. -/
theorem completeTransactionFromWireSized_unmapped (emptyRequest : Option ArnmResult)
    (hmapped : ¬Mapped body.detail) (hfits : calculateMemorySize confirmed body ≤ host.maxAllocSize)
    (hgranted : granted 1 room = some rest) :
    ∃ left, completeTransactionFromWireSized host emptyRequest opener body confirmed communityUuid
          start room = (.error .enumUnhandled, left, rest) ∧
      left.arena = .fresh (calculateMemorySize confirmed body) := by
  rw [completeTransactionFromWireSized, bind_run_ok (write_run _ _ _), if_neg (Nat.not_lt.2 hfits),
    fillHead, copyDetail, if_neg hmapped]
  rcases room with _ | ⟨_ | _, room⟩ <;> cases hgranted
  · exact ⟨_, rfl, rfl⟩
  · exact ⟨_, rfl, rfl⟩

end Record

end Mapping

end GradidoBlockchain
