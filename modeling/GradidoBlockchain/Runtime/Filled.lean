import GradidoBlockchain.Runtime.Decode
import GradidoBlockchain.Wire.Accepted

/-!
# What a record is filled with

A record that is filled depends on the values alone, not on the memory there was. Filling it fails
for a body whose type has no place in it, for a block that cannot be cloned and for want of memory;
whether it fails or not, the record keeps the arena it has been given.
-/

namespace GradidoBlockchain

open Fallible Fallible.Call

namespace Mapping

variable {host : RecordHost} {body : Wire.TransactionBody} {confirmed : Wire.ConfirmedTransaction}
  {communityUuid : Uuid}

/-! ### The parts -/

/-- A block that a clone is not refused for what it is. -/
def Cloneable (host : RecordHost) (bytes : List UInt8) : Prop := bytes = [] → host.cloneEmpty = none

def blockRequests (bytes : List UInt8) : Nat := if bytes = [] then 0 else 1

theorem put_takes (change : Runtime.CompleteTransaction → Runtime.CompleteTransaction) :
    Takes .outOfMemory 0 (Prod.map change id) (put change) := .write _

theorem clone_takes (change : Runtime.CompleteTransaction → Runtime.CompleteTransaction) :
    Takes .outOfMemory 1 (Prod.map change id) (clone change) := .grow _

theorem cloneBlock_takes {bytes : List UInt8} (hclone : Cloneable host bytes)
    (change : Runtime.CompleteTransaction → Runtime.CompleteTransaction) :
    Takes .outOfMemory (blockRequests bytes) (Prod.map change id)
      (cloneBlock host bytes change) := by
  rw [cloneBlock, blockRequests]
  by_cases hempty : bytes = []
  · rw [if_pos hempty, if_pos hempty, hclone hempty]
    exact put_takes change
  · rw [if_neg hempty, if_neg hempty]
    exact clone_takes change

theorem cloneBlock_ok {bytes : List UInt8}
    {change : Runtime.CompleteTransaction → Runtime.CompleteTransaction}
    {state left : Runtime.Owned} {room rest : Room}
    (hrun : cloneBlock host bytes change state room =
      (.ok (), left, rest)) : Cloneable host bytes := by
  intro hempty
  rw [cloneBlock, if_pos hempty] at hrun
  rcases hclone : host.cloneEmpty with _ | code
  · rfl
  · rw [hclone] at hrun
    cases hrun

def memoRequests (memos : List Wire.EncryptedMemo) : Nat :=
  if 0 < memos.length then 1 + ((memos.map fun memo => blockRequests memo.memo).sum + 0) else 0

/-- The memos of a record, which has none to begin with. -/
def withMemos (memos : List Wire.EncryptedMemo) (tx : Runtime.CompleteTransaction) :
    Runtime.CompleteTransaction :=
  if 0 < memos.length then { tx with encryptedMemos := memos } else tx

theorem cloneMemos_takes {memos : List Wire.EncryptedMemo}
    (hclone : ∀ memo ∈ memos, Cloneable host memo.memo) :
    Takes .outOfMemory (memoRequests memos) (Prod.map (withMemos memos) id)
      (cloneMemos host memos) := by
  have hmemos : Takes .outOfMemory (memos.map fun memo => blockRequests memo.memo).sum id
      (memos.forM fun memo => cloneBlock host memo.memo id) :=
    .forM fun memo hmemo => cloneBlock_takes (hclone memo hmemo) id
  rw [cloneMemos, memoRequests]
  by_cases hsome : 0 < memos.length
  · simp only [if_pos hsome]
    have hwith : withMemos memos = fun tx => { tx with encryptedMemos := memos } := by
      funext tx
      rw [withMemos, if_pos hsome]
    rw [hwith]
    exact (clone_takes id).bind (hmemos.bind (put_takes _))
  · simp only [if_neg hsome]
    have hwith : withMemos memos = id := by
      funext tx
      rw [withMemos, if_neg hsome]
      rfl
    rw [hwith]
    exact .pure

theorem cloneMemos_ok {memos : List Wire.EncryptedMemo} {state left : Runtime.Owned}
    {room rest : Room} (hrun : cloneMemos host memos state room = (.ok (), left, rest)) :
    ∀ memo ∈ memos, Cloneable host memo.memo := by
  have hloop : ∀ {memos : List Wire.EncryptedMemo} {state left : Runtime.Owned} {room rest : Room},
      (memos.forM fun memo => cloneBlock host memo.memo id) state room = (.ok (), left, rest) →
        ∀ memo ∈ memos, Cloneable host memo.memo := by
    intro memos
    induction memos with
    | nil => exact fun _ memo hmemo => absurd hmemo List.not_mem_nil
    | cons first memos ih =>
        intro state left room rest hrun memo hmemo
        obtain ⟨_, _, _, hfirst, hrest⟩ := bind_ok.1 hrun
        rcases List.mem_cons.1 hmemo with rfl | hmemo
        · exact cloneBlock_ok hfirst
        · exact ih hrest memo hmemo
  rw [cloneMemos] at hrun
  split at hrun
  · obtain ⟨_, _, _, -, hrun⟩ := bind_ok.1 hrun
    obtain ⟨_, _, _, hmemos, -⟩ := bind_ok.1 hrun
    exact hloop hmemos
  · intro memo hmemo
    exact absurd (List.length_pos_of_mem hmemo) ‹¬0 < memos.length›

/-! ### The whole record -/

theorem cloneIf_takes {condition : Prop} [Decidable condition]
    (change : Runtime.CompleteTransaction → Runtime.CompleteTransaction) :
    Takes .outOfMemory (if condition then 1 else 0)
      (Prod.map (fun tx => if condition then change tx else tx) id) (cloneIf condition change) := by
  rw [cloneIf]
  by_cases hcondition : condition
  · simp only [if_pos hcondition]
    exact clone_takes change
  · simp only [if_neg hcondition]
    exact .pure

/-- The copies a record takes. -/
def fillRequests (body : Wire.TransactionBody) (confirmed : Wire.ConfirmedTransaction) : Nat :=
  (if 0 < confirmed.accountBalances.items.length then 1 else 0) +
    (memoRequests body.memos.items +
      ((if 0 < confirmed.transaction.sigMap.items.length then 1 else 0) +
        ((if body.otherCommunityUuid.isSome then 1 else 0) +
          ((if confirmed.transaction.pairingLedgerAnchor.type ≠ .unspecified then 1 else 0) +
            blockRequests confirmed.transaction.bodyBytes))))

/-- The record up to its arrays. -/
def filledHead (body : Wire.TransactionBody) (confirmed : Wire.ConfirmedTransaction)
    (communityUuid : Uuid) (tx : Runtime.CompleteTransaction) : Runtime.CompleteTransaction :=
  { copied body.detail { tx with
      txNr := confirmed.id
      confirmedAt := confirmed.confirmedAt
      createdAt := body.createdAt
      txCommunityUuid := communityUuid
      ledgerAnchor := confirmed.ledgerAnchor } with
    transactionType := body.detail.transactionType
    txRunningHash := confirmed.runningHash }

/-- Its arrays, which are left out where they are empty, and what belongs to another community. -/
def filledTail (body : Wire.TransactionBody) (confirmed : Wire.ConfirmedTransaction)
    (tx : Runtime.CompleteTransaction) : Runtime.CompleteTransaction :=
  let tx :=
    if 0 < confirmed.accountBalances.items.length then
        { tx with accountBalances := confirmed.accountBalances.items }
      else tx
  let tx := withMemos body.memos.items tx
  let tx := if 0 < confirmed.transaction.sigMap.items.length then
    { tx with signaturePairs := confirmed.transaction.sigMap.items } else tx
  let tx := { tx with crossGroupType := body.type }
  let tx :=
    if body.otherCommunityUuid.isSome then
        { tx with txPairingCommunityUuid := body.otherCommunityUuid }
      else tx
  let tx := if confirmed.transaction.pairingLedgerAnchor.type ≠ .unspecified then
    { tx with pairingLedgerAnchor := some confirmed.transaction.pairingLedgerAnchor } else tx
  { tx with bodyBytes := confirmed.transaction.bodyBytes }

def filled (body : Wire.TransactionBody) (confirmed : Wire.ConfirmedTransaction)
    (communityUuid : Uuid) (tx : Runtime.CompleteTransaction) : Runtime.CompleteTransaction :=
  filledTail body confirmed (filledHead body confirmed communityUuid tx)

/-- The record of a transaction, in an arena. -/
def recordOf (confirmed : Wire.ConfirmedTransaction) (body : Wire.TransactionBody)
    (communityUuid : Uuid) (area : Runtime.Arena) : Runtime.CompleteTransaction :=
  filled body confirmed communityUuid
    { Runtime.CompleteTransaction.init with memoryArea := some area }

theorem copied_memoryArea (detail : Wire.Detail) (tx : Runtime.CompleteTransaction) :
    (copied detail tx).memoryArea = tx.memoryArea := by
  cases detail <;> rfl

/-- Only the arrays of the record are written last, and what belongs to another community. -/
theorem filledTail_eq (tx : Runtime.CompleteTransaction) : ∃ balances memos pairs uuid anchor,
    filledTail body confirmed tx =
      { tx with
        accountBalances := balances
        encryptedMemos := memos
        signaturePairs := pairs
        crossGroupType := body.type
        txPairingCommunityUuid := uuid
        pairingLedgerAnchor := anchor
        bodyBytes := confirmed.transaction.bodyBytes } := by
  simp only [filledTail, withMemos]
  split_ifs <;> exact ⟨_, _, _, _, _, rfl⟩

theorem recordOf_memoryArea (confirmed : Wire.ConfirmedTransaction) (body : Wire.TransactionBody)
    (communityUuid : Uuid) (area : Runtime.Arena) :
    (recordOf confirmed body communityUuid area).memoryArea = some area := by
  obtain ⟨_, _, _, _, _, htail⟩ :=
    @filledTail_eq body confirmed
      (filledHead body confirmed communityUuid
        { Runtime.CompleteTransaction.init with memoryArea := some area })
  rw [recordOf, filled, htail, filledHead]
  exact copied_memoryArea ..

theorem recordOf_txRunningHash (confirmed : Wire.ConfirmedTransaction) (body : Wire.TransactionBody)
    (communityUuid : Uuid) (area : Runtime.Arena) :
    (recordOf confirmed body communityUuid area).txRunningHash = confirmed.runningHash := by
  obtain ⟨_, _, _, _, _, htail⟩ :=
    @filledTail_eq body confirmed
      (filledHead body confirmed communityUuid
        { Runtime.CompleteTransaction.init with memoryArea := some area })
  rw [recordOf, filled, htail, filledHead]

/-- The values have a place in a record, and no block among them is one that arnm
refuses to clone. -/
def Fillable (host : RecordHost) (body : Wire.TransactionBody)
    (confirmed : Wire.ConfirmedTransaction) : Prop :=
  Mapped body.detail ∧ (∀ memo ∈ body.memos.items, Cloneable host memo.memo) ∧
    Cloneable host confirmed.transaction.bodyBytes

theorem fillHead_takes (hmapped : Mapped body.detail) :
    Takes .outOfMemory 0 (Prod.map (filledHead body confirmed communityUuid) id)
      (fillHead body confirmed communityUuid) := by
  have hdetail :
      Takes .outOfMemory 0 (Prod.map (copied body.detail) id) (copyDetail body.detail) := by
    rw [copyDetail, if_pos hmapped]
    exact put_takes _
  rw [fillHead]
  apply Takes.congr
  · apply Takes.bind
    · exact put_takes _
    · exact hdetail.bind (put_takes _)
  · rfl
  · rfl

theorem fillArrays_takes (hmemos : ∀ memo ∈ body.memos.items, Cloneable host memo.memo)
    (hbody : Cloneable host confirmed.transaction.bodyBytes) :
    Takes .outOfMemory (fillRequests body confirmed) (Prod.map (filledTail body confirmed) id)
      (fillArrays host body confirmed) := by
  rw [fillArrays]
  apply Takes.congr
  · apply (cloneIf_takes _).bind
    apply (cloneMemos_takes hmemos).bind
    apply (cloneIf_takes _).bind
    apply (put_takes _).bind
    apply (cloneIf_takes _).bind
    apply (cloneIf_takes _).bind
    exact cloneBlock_takes hbody _
  · rw [Nat.zero_add]
    rfl
  · rfl

/-- Where the values have a place in a record, filling it takes its copies and nothing else. -/
theorem fillRecord_takes (hfillable : Fillable host body confirmed) :
    Takes .outOfMemory (fillRequests body confirmed)
      (Prod.map (filled body confirmed communityUuid) id)
      (fillRecord host body confirmed communityUuid) :=
  ((fillHead_takes hfillable.1).bind (fillArrays_takes hfillable.2.1 hfillable.2.2)).congr
    (Nat.zero_add _) rfl

theorem fillable_of_ok {state left : Runtime.Owned} {room rest : Room}
    (hrun : fillRecord host body confirmed communityUuid state room = (.ok (), left, rest)) :
    Fillable host body confirmed := by
  obtain ⟨_, _, _, hhead, harrays⟩ := bind_ok.1 hrun
  obtain ⟨_, _, _, -, hhead⟩ := bind_ok.1 hhead
  obtain ⟨_, _, _, hdetail, -⟩ := bind_ok.1 hhead
  obtain ⟨_, _, _, -, harrays⟩ := bind_ok.1 harrays
  obtain ⟨_, _, _, hmemos, harrays⟩ := bind_ok.1 harrays
  obtain ⟨_, _, _, -, harrays⟩ := bind_ok.1 harrays
  obtain ⟨_, _, _, -, harrays⟩ := bind_ok.1 harrays
  obtain ⟨_, _, _, -, harrays⟩ := bind_ok.1 harrays
  obtain ⟨_, _, _, -, hbody⟩ := bind_ok.1 harrays
  refine ⟨?_, cloneMemos_ok hmemos, cloneBlock_ok hbody⟩
  rw [copyDetail] at hdetail
  split at hdetail
  · assumption
  · cases hdetail

/-- A record is filled just when its values have a place in it and its copies are granted. -/
theorem fillRecord_ok_iff {state left : Runtime.Owned} {room rest : Room} :
    fillRecord host body confirmed communityUuid state room = (.ok (), left, rest) ↔
      Fillable host body confirmed ∧ granted (fillRequests body confirmed) room = some rest ∧
        Prod.map (filled body confirmed communityUuid) id state = left := by
  constructor
  · intro hrun
    have hfillable := fillable_of_ok hrun
    rcases hgranted : granted (fillRequests body confirmed) room with _ | after
    · cases (congrArg Prod.fst hrun).symm.trans ((fillRecord_takes hfillable).refused hgranted)
    · rw [(fillRecord_takes hfillable).ok hgranted] at hrun
      cases hrun
      exact ⟨hfillable, rfl, rfl⟩
  · rintro ⟨hfillable, hgranted, rfl⟩
    exact (fillRecord_takes hfillable).ok hgranted

/-! ### Its arena -/

/-- The record's arena is `area`, and the host's arenas are as they were. -/
def HasArea (area : Option Runtime.Arena) (arenas : Runtime.Arenas)
    (owned : Runtime.Owned) : Prop :=
  owned.1.memoryArea = area ∧ owned.2 = arenas

variable {area : Option Runtime.Arena} {arenas : Runtime.Arenas}

theorem put_keeps {change : Runtime.CompleteTransaction → Runtime.CompleteTransaction}
    (hchange : ∀ tx, (change tx).memoryArea = tx.memoryArea) :
    Keeps (HasArea area arenas) (put change) :=
  .write fun owned h => ⟨(hchange owned.1).trans h.1, h.2⟩

theorem clone_keeps {change : Runtime.CompleteTransaction → Runtime.CompleteTransaction}
    (hchange : ∀ tx, (change tx).memoryArea = tx.memoryArea) :
    Keeps (HasArea area arenas) (clone change) :=
  .grow fun owned h => ⟨(hchange owned.1).trans h.1, h.2⟩

theorem cloneIf_keeps {condition : Prop} [Decidable condition]
    {change : Runtime.CompleteTransaction → Runtime.CompleteTransaction}
    (hchange : ∀ tx, (change tx).memoryArea = tx.memoryArea) :
    Keeps (HasArea area arenas) (cloneIf condition change) :=
  .ite (clone_keeps hchange) (.pure ())

theorem cloneBlock_keeps {bytes : List UInt8}
    {change : Runtime.CompleteTransaction → Runtime.CompleteTransaction}
    (hchange : ∀ tx, (change tx).memoryArea = tx.memoryArea) :
    Keeps (HasArea area arenas) (cloneBlock host bytes change) := by
  rw [cloneBlock]
  apply Keeps.ite _ (clone_keeps hchange)
  split
  · exact .fail _
  · exact put_keeps hchange

theorem cloneMemos_keeps (memos : List Wire.EncryptedMemo) :
    Keeps (HasArea area arenas) (cloneMemos host memos) := by
  rw [cloneMemos]
  refine Keeps.ite ?_ (.pure ())
  refine (clone_keeps fun _ => ?_).bind fun _ => ?_
  · rfl
  refine (Keeps.forM fun memo _ => cloneBlock_keeps fun _ => ?_).bind fun _ => ?_
  · rfl
  exact put_keeps fun _ => rfl

theorem fillHead_keeps : Keeps (HasArea area arenas) (fillHead body confirmed communityUuid) := by
  rw [fillHead]
  refine (put_keeps fun _ => ?_).bind fun _ => ?_
  · rfl
  refine Keeps.bind ?_ fun _ => put_keeps fun _ => ?_
  · exact .ite (put_keeps (copied_memoryArea body.detail)) (.fail _)
  · rfl

theorem fillArrays_keeps : Keeps (HasArea area arenas) (fillArrays host body confirmed) := by
  rw [fillArrays]
  refine (cloneIf_keeps fun _ => ?_).bind fun _ =>
    (cloneMemos_keeps body.memos.items).bind fun _ => ?_
  · rfl
  refine (cloneIf_keeps fun _ => ?_).bind fun _ => (put_keeps fun _ => ?_).bind fun _ => ?_
  · rfl
  · rfl
  refine (cloneIf_keeps fun _ => ?_).bind fun _ =>
    (cloneIf_keeps fun _ => ?_).bind fun _ => cloneBlock_keeps fun _ => ?_
  all_goals rfl

theorem fillRecord_keeps :
    Keeps (HasArea area arenas) (fillRecord host body confirmed communityUuid) :=
  fillHead_keeps.bind fun _ => fillArrays_keeps

/-- Whether it has been filled or not, the record has the arena that was opened for it. -/
theorem fillRecord_area {opener : Runtime.Opener} {owned left : Runtime.Owned} {room rest : Room}
    {outcome : Except ArnmResult Unit}
    (hrun : fillRecord host body confirmed communityUuid (openArena opener owned) room =
      (outcome, left, rest)) :
    left.1.memoryArea = some (owned.2.next opener) ∧ left.2 = owned.2.openNext opener := by
  have hkept : Keeps (HasArea (some (owned.2.next opener)) (owned.2.openNext opener))
      (fillRecord host body confirmed communityUuid) := fillRecord_keeps
  have harea := hkept (openArena opener owned) room ⟨rfl, rfl⟩
  rw [hrun] at harea
  exact harea

/-! ### Decoding a record -/

/-- What the bytes of a confirmed transaction say, with enough memory to read them. -/
def decoded (codec : Codec) (host : Host) (bytes : List UInt8) :
    Option (Wire.ConfirmedTransaction × Wire.TransactionBody) :=
  (decodeBoth codec host bytes () []).1.toOption

theorem decodeWith_gives {α β : Type} {parse : List UInt8 → Except ArnmResult α}
    {convert : α → Decode β} {accepted faulty : α → Prop}
    (hconvert : ∀ message, Decides (convert message) (accepted message) (faulty message))
    {bytes : List UInt8} {value : β} {room rest : Room}
    (hrun : decodeWith parse convert bytes () room = (.ok value, (), rest)) :
    Gives (decodeWith parse convert bytes) value := by
  rw [decodeWith] at hrun ⊢
  split at hrun
  · cases hrun
  · rename_i hne
    obtain ⟨_, _, _, -, hrun⟩ := bind_ok.1 hrun
    rw [if_neg hne]
    refine Gives.allocate.bind ?_
    cases hparse : parse bytes with
    | error code =>
        rw [hparse] at hrun
        cases hrun
    | ok message =>
        rw [hparse] at hrun
        exact ((hconvert message).taken hrun).2

/-- What is read with little memory is what is read with enough of it. -/
theorem decodeBoth_gives {codec : Codec} {host : Host} {bytes : List UInt8}
    {both : Wire.ConfirmedTransaction × Wire.TransactionBody} {room rest : Room}
    (hrun : decodeBoth codec host bytes () room = (.ok both, (), rest)) :
    Gives (decodeBoth codec host bytes) both := by
  obtain ⟨confirmed, _, _, hconfirmed, hrun⟩ := bind_ok.1 hrun
  obtain ⟨body, _, _, hbody, hrun⟩ := bind_ok.1 hrun
  obtain ⟨rfl, -, -⟩ := pure_ok.1 hrun
  exact (decodeWith_gives confirmedTransaction_decides hconfirmed).bind
    ((decodeWith_gives transactionBody_decides hbody).bind (.pure _))

/-- Without memory the bytes may be refused, but they do not say anything else. -/
theorem decodeBoth_decoded {codec : Codec} {host : Host} {bytes : List UInt8}
    {both : Wire.ConfirmedTransaction × Wire.TransactionBody} {room rest : Room}
    (hrun : decodeBoth codec host bytes () room = (.ok both, (), rest)) :
    decoded codec host bytes = some both := by
  rw [decoded, decodeBoth_gives hrun]
  rfl

/-- The mapping opens no arena, or it opens one and fills the record. -/
theorem completeTransactionFromWire_cases {opener : Runtime.Opener} {owned left : Runtime.Owned}
    {room rest : Room} {outcome : Except ArnmResult Unit}
    (hrun : completeTransactionFromWire host opener body confirmed communityUuid owned room =
      (outcome, left, rest)) :
    (outcome ≠ .ok () ∧ left = Runtime.release owned) ∨
      ∃ middle, calculateMemorySize confirmed body ≤ host.maxAllocSize ∧
        granted 1 room = some middle ∧
        fillRecord host body confirmed communityUuid (openArena opener (Runtime.release owned))
            middle = (outcome, left, rest) := by
  rw [completeTransactionFromWire, bind_run_ok (write_run _ _ _)] at hrun
  split at hrun
  · cases hrun
    exact .inl ⟨fun h => (by cases h), rfl⟩
  · have hgrow :=
      Follows.grow ArnmResult.outOfMemory (openArena opener) (Runtime.release owned) room
    rcases hgranted : granted 1 room with _ | middle
    · rw [hgranted] at hgrow
      rcases room with _ | ⟨_ | _, room⟩ <;> cases hgranted
      cases hrun
      exact .inl ⟨fun h => (by cases h), rfl⟩
    · rw [hgranted] at hgrow
      rw [bind_run_ok hgrow] at hrun
      exact .inr ⟨middle, by omega, rfl, hrun⟩

/-- A decode touches nothing, or releases the record, or opens an arena and fills the record with
what the bytes say. -/
theorem initFromProtobuf_cases {codec : Codec} {opener : Runtime.Opener} {bytes : List UInt8}
    {owned left : Runtime.Owned} {room rest : Room} {outcome : Except Failure Unit}
    (hrun : initFromProtobuf codec host opener bytes communityUuid owned room =
      (outcome, left, rest)) :
    (outcome ≠ .ok () ∧ (left = owned ∨ left = Runtime.release owned)) ∨
      ∃ confirmed body middle after inner, decodeBoth codec host.toHost bytes () room =
          (.ok (confirmed, body), (), middle) ∧
        calculateMemorySize confirmed body ≤ host.maxAllocSize ∧ granted 1 middle = some after ∧
        fillRecord host body confirmed communityUuid (openArena opener (Runtime.release owned))
            after = (inner, left, rest) ∧ outcome = inner.mapError .refused := by
  rcases hboth : decodeBoth codec host.toHost bytes () room
    with ⟨failure | ⟨confirmed, body⟩, ⟨⟩, middle⟩
  · have hbeside : beside (decodeBoth codec host.toHost bytes) owned room =
        (.error failure, owned, middle) := within_run_eq hboth
    rw [initFromProtobuf, bind_run_error hbeside] at hrun
    cases hrun
    exact .inl ⟨fun h => (by cases h), .inl rfl⟩
  · have hbeside : beside (decodeBoth codec host.toHost bytes) owned room =
        (.ok (confirmed, body), owned, middle) := within_run_eq hboth
    rw [initFromProtobuf, bind_run_ok hbeside] at hrun
    rcases hinner : completeTransactionFromWire host opener body confirmed communityUuid
        (Runtime.release owned) middle
      with
      ⟨inner, reached, answers⟩
    have hsame : (outcome, left, rest) = (inner.mapError Failure.refused, reached, answers) := by
      rw [← hrun]
      change mapError Failure.refused _ (Runtime.release owned) middle = _
      rw [mapError, hinner]
    cases hsame
    rcases completeTransactionFromWire_cases hinner
      with ⟨hfails, rfl⟩ | ⟨after, hsize, hgranted, hfill⟩
    · refine .inl ⟨fun h => hfails ?_, .inr rfl⟩
      cases inner with
      | ok _ => rfl
      | error code => cases h
    · exact .inr ⟨confirmed, body, middle, after, inner, rfl, hsize, hgranted, hfill, rfl⟩

/-- A decode that succeeds has given the record's arena back, and filled it with what the bytes
say in a new one. -/
theorem initFromProtobuf_ok {codec : Codec} {opener : Runtime.Opener} {bytes : List UInt8}
    {owned left : Runtime.Owned} {room rest : Room}
    (hrun : initFromProtobuf codec host opener bytes communityUuid owned room =
      (.ok (), left, rest)) :
    ∃ confirmed body, decoded codec host.toHost bytes = some (confirmed, body) ∧
      left =
        (recordOf confirmed body communityUuid ((Runtime.release owned).2.next opener),
          (Runtime.release owned).2.openNext opener) := by
  rcases initFromProtobuf_cases hrun
    with ⟨hfails, -⟩ | ⟨confirmed, body, _, after, inner, hboth, -, -, hfill, houtcome⟩
  · exact absurd rfl hfails
  · cases inner with
    | error code => cases houtcome
    | ok _ =>
        obtain ⟨-, -, rfl⟩ := fillRecord_ok_iff.1 hfill
        exact ⟨confirmed, body, decodeBoth_decoded hboth, rfl⟩

end Mapping

end GradidoBlockchain
