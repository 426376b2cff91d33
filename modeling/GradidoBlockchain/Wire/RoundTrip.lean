import GradidoBlockchain.Wire.Decode
import GradidoBlockchain.Wire.Encode

/-!
# There and back

With memory for both, what a mapping has written to a message the other one reads back, sub-message
by sub-message. The exception is a body with 255 memos, which is written and not read.
-/

namespace GradidoBlockchain

open Fallible Fallible.Call

namespace Mapping

variable {α β : Type} {host : Host}

/-! ### Mappings that get the room they ask for -/

/-- With all the room it asks for the mapping gives `value`. -/
def Gives (decode : Decode α) (value : α) : Prop := decode () [] = (.ok value, (), [])

namespace Gives

theorem pure (value : α) : Gives (Pure.pure value) value := rfl

theorem bind {call : Decode α} {next : α → Decode β} {value : α} {result : β}
    (hcall : Gives call value) (hnext : Gives (next value) result) : Gives (call >>= next) result :=
  (bind_run_ok hcall).trans hnext

theorem map {call : Decode α} {value : α} (change : α → β) (hcall : Gives call value) :
    Gives (change <$> call) (change value) :=
  bind hcall (pure _)

theorem notNull (message : α) : Gives (Mapping.notNull (some message)) message := pure message

theorem allocate : Gives Mapping.allocate () := rfl

theorem copy {size : Nat} (bytes : Bytes size) : Gives (Mapping.copy size bytes.toList) bytes := by
  rw [Mapping.copy, Bytes.ofList_toList]
  exact pure bytes

theorem communityUuid (uuid : Uuid) : Gives (communityUuidFromPbtools uuid.toList) uuid := by
  rw [communityUuidFromPbtools, if_neg (by simp)]
  exact copy uuid

theorem memoryBlock {bytes : List UInt8} (hne : bytes ≠ [])
    (hfits : bytes.length ≤ host.maxAllocSize) :
    Gives (memoryBlockFromPbtools host bytes) bytes := by
  rw [memoryBlockFromPbtools, if_neg (by simpa using hne), if_neg (Nat.not_lt_of_le hfits)]
  exact allocate.bind (pure bytes)

/-- Items that come back one by one come back together. -/
theorem convertAll {convert : β → Decode α} {encode : α → β} {items : List α}
    (hitems : ∀ item ∈ items, Gives (convert (encode item)) item) :
    Gives (Mapping.convertAll convert (items.map encode)) ⟨items, (List.length_map _).symm⟩ := by
  induction items with
  | nil => exact pure _
  | cons item items ih =>
      apply (hitems item List.mem_cons_self).bind
      apply (ih fun other hother => hitems other (List.mem_cons_of_mem _ hother)).bind
      exact pure _

theorem few {convert : β → Decode α} {encode : α → β} {list : Few α}
    (hitems : ∀ item ∈ list.items, Gives (convert (encode item)) item)
    (hlt : list.items.length < 255) :
    Gives (fewFromPbtools convert (list.items.map encode)) list := by
  rw [fewFromPbtools]
  by_cases hempty : list.items = []
  · have hlist : list = .empty := Few.ext hempty
    rw [hlist]
    exact pure _
  · rw [if_pos (by simpa [List.length_pos_iff] using hempty), dif_neg (by simpa using hlt)]
    exact allocate.bind ((convertAll hitems).bind (pure _))

end Gives

/-! ### The parts -/

theorem accountBalance_roundTrip (balance : AccountBalance) :
    Gives (accountBalanceFromPbtools (accountBalanceFromWire balance)) balance :=
  (Gives.copy _).bind ((Gives.communityUuid _).bind (.pure _))

theorem encryptedMemo_roundTrip {memo : Wire.EncryptedMemo}
    (hfits : memo.memo.length ≤ host.maxAllocSize) :
    Gives (encryptedMemoFromPbtools host (encryptedMemoFromWire memo)) memo := by
  rw [encryptedMemoFromPbtools, encryptedMemoFromWire]
  by_cases hempty : memo.memo = []
  · obtain ⟨type, bytes⟩ := memo
    cases hempty
    exact .pure _
  · rw [if_pos (List.length_pos_iff.2 hempty)]
    exact (Gives.memoryBlock hempty hfits).bind (.pure _)

theorem signaturePair_roundTrip (pair : SignaturePair) :
    Gives (signaturePairFromPbtools (signaturePairFromWire pair)) pair :=
  (Gives.copy _).bind ((Gives.copy _).bind (.pure _))

theorem timestamp_roundTrip (timestamp : Timestamp) :
    Gives (timestampFromPbtools (some (timestampFromWire timestamp))) timestamp := .pure _

theorem transferAmount_roundTrip (amount : Wire.TransferAmount) :
    Gives (transferAmountFromPbtools (some (transferAmountFromWire amount))) amount :=
  (Gives.notNull _).bind ((Gives.copy _).bind ((Gives.communityUuid _).bind (.pure _)))

/-- The message an anchor is written to. -/
def ledgerAnchorMessage (anchor : Wire.LedgerAnchor) : Proto.LedgerAnchor :=
  match anchor with
  | .hieroTransactionId id =>
      ⟨.hieroTransactionId,
        .hieroTransactionId
          (some ⟨some (timestampFromWire id.transactionValidStart),
            some (hieroAccountIdFromWire id.accountId), false, 0⟩)⟩
  | .id type _ id => ⟨type, .id id⟩

theorem ledgerAnchorFromWire_nil (anchor : Wire.LedgerAnchor) :
    ledgerAnchorFromWire anchor .init [] = (.ok (), ledgerAnchorMessage anchor, []) := by
  cases anchor with
  | hieroTransactionId id => rfl
  | id type other id => rfl

theorem ledgerAnchor_roundTrip (anchor : Wire.LedgerAnchor) :
    Gives (ledgerAnchorFromPbtools host.union (some (ledgerAnchorMessage anchor))) anchor := by
  cases anchor with
  | hieroTransactionId id => rfl
  | id type other id =>
      apply (Gives.notNull (ledgerAnchorMessage (.id type other id))).bind
      rw [dif_neg
        (show (ledgerAnchorMessage (.id type other id)).type ≠ .hieroTransactionId from other)]
      exact .pure _

/-! ### Confirmed transactions -/

theorem sigMap_roundTrip {sigMap : Few SignaturePair} {start left : Proto.GradidoTransaction}
    {rest : Room} (hstart : start.sigMap = none)
    (hrun : sigMapFromWire sigMap start [] = (.ok (), left, rest)) :
    rest = [] ∧ left = { start with sigMap := left.sigMap } ∧
      Gives (sigMapFromPb left.sigMap) sigMap := by
  rw [sigMapFromWire] at hrun
  split at hrun
  · split at hrun
    · cases hrun
    · cases hrun
      exact ⟨rfl, rfl, .few (fun pair _ => signaturePair_roundTrip pair) (by omega)⟩
  · obtain ⟨-, rfl, rfl⟩ := pure_ok.1 hrun
    have hempty : sigMap = .empty := Few.ext (List.length_eq_zero_iff.1 (by omega))
    refine ⟨rfl, rfl, ?_⟩
    rw [hstart, hempty]
    exact .pure _

theorem pairingLedgerAnchor_roundTrip {anchor : Wire.LedgerAnchor}
    {start left : Proto.GradidoTransaction} {rest : Room}
    (hstart : start.pairingLedgerAnchor = none)
    (hzero : anchor.type = .unspecified → anchor = .init)
    (hrun : pairingLedgerAnchorFromWire anchor start [] = (.ok (), left, rest)) :
    rest = [] ∧ left = { start with pairingLedgerAnchor := left.pairingLedgerAnchor } ∧
      Gives (pairingLedgerAnchorFromPb host left.pairingLedgerAnchor) anchor := by
  rw [pairingLedgerAnchorFromWire] at hrun
  split at hrun
  · rw [bind_run_ok (grow_run_nil _ _ _)] at hrun
    obtain ⟨message, hmessage, rfl⟩ := within_ok.1 hrun
    change ledgerAnchorFromWire anchor .init [] = (.ok (), message, rest) at hmessage
    rw [ledgerAnchorFromWire_nil] at hmessage
    cases hmessage
    exact ⟨rfl, rfl, ledgerAnchor_roundTrip anchor⟩
  · obtain ⟨-, rfl, rfl⟩ := pure_ok.1 hrun
    refine ⟨rfl, rfl, ?_⟩
    rw [hstart, hzero (not_ne_iff.1 ‹¬anchor.type ≠ _›)]
    exact .pure _

theorem gradidoTransaction_roundTrip {tx : Wire.GradidoTransaction}
    {left : Proto.GradidoTransaction} {rest : Room} (hne : tx.bodyBytes ≠ [])
    (hfits : tx.bodyBytes.length ≤ host.maxAllocSize)
    (hzero : tx.pairingLedgerAnchor.type = .unspecified → tx.pairingLedgerAnchor = .init)
    (hrun : gradidoTransactionFromWire tx .init [] = (.ok (), left, rest)) :
    rest = [] ∧ Gives (gradidoTransactionFromPb host (some left)) tx := by
  obtain ⟨_, signed, between, hsigs, hrun⟩ := bind_ok.1 hrun
  obtain ⟨rfl, hsigned, hsigMap⟩ := sigMap_roundTrip rfl hsigs
  obtain ⟨_, paired, between, hpair, hrun⟩ := bind_ok.1 hrun
  obtain ⟨rfl, hpaired, hanchor⟩ := pairingLedgerAnchor_roundTrip (by rw [hsigned]; rfl) hzero hpair
  obtain ⟨rfl, rfl⟩ := write_ok.1 hrun
  refine ⟨rfl, (Gives.notNull _).bind ?_⟩
  rw [hpaired]
  exact hsigMap.bind (hanchor.bind ((Gives.memoryBlock hne hfits).bind (.pure _)))

theorem accountBalances_roundTrip {balances : Few AccountBalance}
    {start left : Proto.ConfirmedTransaction} {rest : Room} (hstart : start.accountBalances = [])
    (hrun : accountBalancesFromWire balances start [] = (.ok (), left, rest)) :
    rest = [] ∧ left = { start with accountBalances := left.accountBalances } ∧
      Gives (fewFromPbtools accountBalanceFromPbtools left.accountBalances) balances := by
  rw [accountBalancesFromWire] at hrun
  split at hrun
  · split at hrun
    · cases hrun
    · cases hrun
      exact ⟨rfl, rfl, .few (fun balance _ => accountBalance_roundTrip balance) (by omega)⟩
  · obtain ⟨-, rfl, rfl⟩ := pure_ok.1 hrun
    have hempty : balances = .empty := Few.ext (List.length_eq_zero_iff.1 (by omega))
    refine ⟨rfl, rfl, ?_⟩
    rw [hstart, hempty]
    exact .pure _

/-- With memory for both, a confirmed transaction that can be written is read back as it was. -/
theorem confirmedTransaction_roundTrip (host : Host) {tx : Wire.ConfirmedTransaction}
    {pb : Proto.ConfirmedTransaction} {rest : Room} (hbody : tx.transaction.bodyBytes ≠ [])
    (hfits : tx.transaction.bodyBytes.length ≤ host.maxAllocSize)
    (hzero : tx.transaction.pairingLedgerAnchor.type = .unspecified →
      tx.transaction.pairingLedgerAnchor = .init)
    (hrun : confirmedTransactionFromWire tx .init [] = (.ok (), pb, rest)) :
    confirmedTransactionFromPb host pb () [] = (.ok tx, (), []) := by
  obtain ⟨_, _, _, hwrite, hrun⟩ := bind_ok.1 hrun
  obtain ⟨rfl, rfl⟩ := write_ok.1 hwrite
  rw [bind_run_ok (grow_run_nil _ _ _)] at hrun
  obtain ⟨_, _, between, htransaction, hrun⟩ := bind_ok.1 hrun
  obtain ⟨transaction, hinner, rfl⟩ := within_ok.1 htransaction
  change gradidoTransactionFromWire tx.transaction .init [] =
    (.ok (), transaction, between) at hinner
  obtain ⟨rfl, hgives⟩ := gradidoTransaction_roundTrip hbody hfits hzero hinner
  rw [bind_run_ok (grow_run_nil _ _ _), bind_run_ok (write_run _ _ _),
    bind_run_ok (grow_run_nil _ _ _)] at hrun
  obtain ⟨_, _, between, hanchor, hrun⟩ := bind_ok.1 hrun
  obtain ⟨anchor, hinner, rfl⟩ := within_ok.1 hanchor
  change ledgerAnchorFromWire tx.ledgerAnchor .init [] = (.ok (), anchor, between) at hinner
  rw [ledgerAnchorFromWire_nil] at hinner
  cases hinner
  obtain ⟨-, hleft, hbalances⟩ := accountBalances_roundTrip rfl hrun
  rw [hleft, confirmedTransactionFromPb, if_neg (by simp)]
  exact hgives.bind
    ((timestamp_roundTrip _).bind
      ((Gives.copy _).bind ((ledgerAnchor_roundTrip _).bind (hbalances.bind (.pure _)))))

/-- A confirmed transaction with one signature and a Hiero anchor. -/
def confirmed : Wire.ConfirmedTransaction where
  id := 1
  transaction := ⟨⟨[⟨zeroBytes 32, zeroBytes 64⟩], by decide⟩, [1], .init⟩
  confirmedAt := ⟨86400, 0⟩
  runningHash := zeroBytes 32
  ledgerAnchor := .hieroTransactionId ⟨⟨86399, 5⟩, ⟨0, 0, 2⟩⟩
  accountBalances := .empty

/-- A host that allocates blocks of 32 bits and leaves zeros behind. -/
def plainHost : Host := ⟨uint32Max, fun _ => 0⟩

theorem confirmedTransaction_roundTrip_confirmed :
    confirmedTransactionFromPb plainHost (confirmedTransactionFromWire confirmed .init []).2.1 ()
        [] = (.ok confirmed, (), []) :=
  confirmedTransaction_roundTrip plainHost (by decide) (by decide) (fun _ => rfl)
    (show confirmedTransactionFromWire confirmed .init [] = (.ok (), _, []) from rfl)

/-! ### Bodies -/

theorem gradidoCreation_roundTrip (creation : Wire.GradidoCreation) :
    ∃ message, gradidoCreationFromWire creation .init [] = (.ok (), message, []) ∧
      Gives (gradidoCreationFromPbtools (some message)) creation :=
  ⟨_, rfl, (Gives.notNull _).bind ((transferAmount_roundTrip _).bind (.pure _))⟩

theorem gradidoTransfer_roundTrip (transfer : Wire.GradidoTransfer) :
    ∃ message, gradidoTransferFromWire transfer .init [] = (.ok (), message, []) ∧
      Gives (gradidoTransferFromPbtools (some message)) transfer :=
  ⟨_, rfl,
    (Gives.notNull _).bind ((Gives.copy _).bind ((transferAmount_roundTrip _).bind (.pure _)))⟩

theorem gradidoDeferredTransfer_roundTrip (deferred : Wire.GradidoDeferredTransfer) :
    ∃ message, gradidoDeferredTransferFromWire deferred .init [] = (.ok (), message, []) ∧
      Gives (gradidoDeferredTransferFromPbtools (some message)) deferred := by
  obtain ⟨transfer, htransfer, hgives⟩ := gradidoTransfer_roundTrip deferred.transfer
  have hfits : ¬uint32Max < deferred.timeoutDuration.toUInt64.toNat := by
    have hlt := deferred.timeoutDuration.toNat_lt
    rw [UInt32.toNat_toUInt64, uint32Max]
    omega
  refine ⟨⟨some transfer, some ⟨deferred.timeoutDuration.toUInt64⟩⟩, ?_, ?_⟩
  · rw [gradidoDeferredTransferFromWire, bind_run_ok (grow_run_nil _ _ _),
      bind_run_ok (grow_run_nil _ _ _)]
    exact within_run_eq htransfer
  · apply (Gives.notNull _).bind
    apply (Gives.pure _).bind
    rw [if_neg hfits]
    apply hgives.bind
    rw [UInt32.toUInt32_toUInt64]
    exact .pure _

theorem gradidoRedeemDeferredTransfer_roundTrip (redeem : Wire.GradidoRedeemDeferredTransfer) :
    ∃ message, gradidoRedeemDeferredTransferFromWire redeem .init [] = (.ok (), message, []) ∧
      Gives (gradidoRedeemDeferredTransferFromPbtools (some message)) redeem := by
  obtain ⟨transfer, htransfer, hgives⟩ := gradidoTransfer_roundTrip redeem.transfer
  refine ⟨⟨redeem.deferredTransferTransactionNr, some transfer⟩, ?_, ?_⟩
  · rw [gradidoRedeemDeferredTransferFromWire, bind_run_ok (write_run _ _ _),
      bind_run_ok (grow_run_nil _ _ _)]
    exact within_run_eq htransfer
  · exact (Gives.notNull _).bind (hgives.bind (.pure _))

theorem registerAddress_roundTrip (address : Wire.RegisterAddress) :
    Gives (registerAddressFromPbtools (some (registerAddressFromWire address))) address :=
  (Gives.notNull _).bind ((Gives.copy _).bind ((Gives.copy _).bind ((Gives.copy _).bind (.pure _))))

theorem communityRoot_roundTrip (root : Wire.CommunityRoot) :
    Gives (communityRootFromPbtools (some (communityRootFromWire root))) root :=
  (Gives.notNull _).bind ((Gives.copy _).bind ((Gives.copy _).bind ((Gives.copy _).bind (.pure _))))

theorem member_nil {γ : Type} {init message : γ} {set : γ → Proto.Data}
    {fill : Call ArnmResult γ Unit} (hfill : fill init [] = (.ok (), message, []))
    (start : Proto.TransactionBody) :
    member init set fill start [] = (.ok (), { start with data := set message }, []) := by
  rw [member, bind_run_ok (grow_run_nil _ _ _)]
  exact within_run_eq hfill

/-- Every type of transaction that can be written is read back. -/
theorem detail_roundTrip {detail : Wire.Detail} {start left : Proto.TransactionBody} {rest : Room}
    (hrun : detailFromWire detail start [] = (.ok (), left, rest)) :
    rest = [] ∧ left = { start with data := left.data } ∧
      Gives (detailFromPbtools left.data) detail := by
  have hmember : ∀ {γ : Type} {init message : γ} {set : γ → Proto.Data} {fill : Call ArnmResult γ Unit},
      fill init [] = (.ok (), message, []) →
        detailFromWire detail start [] = member init set fill start [] →
      Gives (detailFromPbtools (set message)) detail →
      rest = [] ∧ left = { start with data := left.data } ∧
          Gives (detailFromPbtools left.data) detail := by
    intro γ init message set fill hfill hdetail hgives
    rw [hdetail, member_nil hfill] at hrun
    cases hrun
    exact ⟨rfl, rfl, hgives⟩
  cases detail with
  | none =>
      cases hrun
      exact ⟨rfl, rfl, .pure _⟩
  | creation creation =>
      obtain ⟨message, hfill, hgives⟩ := gradidoCreation_roundTrip creation
      exact hmember hfill rfl (hgives.map _)
  | transfer transfer =>
      obtain ⟨message, hfill, hgives⟩ := gradidoTransfer_roundTrip transfer
      exact hmember hfill rfl (hgives.map _)
  | communityFriendsUpdate colorFusion =>
      exact hmember rfl rfl (.map _ ((Gives.notNull _).bind (.pure _)))
  | registerAddress address => exact hmember rfl rfl ((registerAddress_roundTrip address).map _)
  | deferredTransfer deferred =>
      obtain ⟨message, hfill, hgives⟩ := gradidoDeferredTransfer_roundTrip deferred
      exact hmember hfill rfl (hgives.map _)
  | communityRoot root => exact hmember rfl rfl ((communityRoot_roundTrip root).map _)
  | redeemDeferredTransfer redeem =>
      obtain ⟨message, hfill, hgives⟩ := gradidoRedeemDeferredTransfer_roundTrip redeem
      exact hmember hfill rfl (hgives.map _)
  | timeoutDeferredTransfer nr => exact hmember rfl rfl (.map _ ((Gives.notNull _).bind (.pure _)))
  | unknown past => cases hrun

theorem otherCommunityUuid_roundTrip (uuid : Option Uuid) :
    Gives (otherCommunityUuidFromPbtools (communityUuidFromWire uuid)) uuid := by
  cases uuid with
  | none => exact .pure _
  | some uuid =>
      rw [otherCommunityUuidFromPbtools, if_neg (by simp [communityUuidFromWire])]
      exact Gives.allocate.bind ((Gives.communityUuid uuid).map some)

/-- What is written of a body, before its transaction. -/
def bodyHead (body : Wire.TransactionBody) : Proto.TransactionBody where
  memos := body.memos.items.map encryptedMemoFromWire
  createdAt := some (timestampFromWire body.createdAt)
  versionNumber := protocolVersion
  type := body.type
  otherCommunityUuid := communityUuidFromWire body.otherCommunityUuid
  data := .none

theorem transactionBodyFromWire_nil (body : Wire.TransactionBody) :
    transactionBodyFromWire body .init [] = detailFromWire body.detail (bodyHead body) [] := by
  rw [transactionBodyFromWire, bind_run_ok (write_run _ _ _)]
  split
  · rfl
  · have hempty : body.memos.items = [] := List.length_eq_zero_iff.1 (by omega)
    rw [bodyHead, hempty]
    rfl

/-- A body that can be written is read back as it was just when it has not 255 memos. -/
theorem transactionBody_roundTrip_iff (host : Host) {body : Wire.TransactionBody}
    {pb : Proto.TransactionBody} {rest : Room}
    (hfits : ∀ memo ∈ body.memos.items, memo.memo.length ≤ host.maxAllocSize)
    (hrun : transactionBodyFromWire body .init [] = (.ok (), pb, rest)) :
    transactionBodyFromPbtools host pb () [] = (.ok body, (), []) ↔
      body.memos.items.length ≠ 255 := by
  rw [transactionBodyFromWire_nil] at hrun
  obtain ⟨-, hpb, hdetail⟩ := detail_roundTrip hrun
  have hmemos : pb.memos = body.memos.items.map encryptedMemoFromWire := by rw [hpb]; rfl
  have hcount : pb.memos.length = body.memos.items.length := by rw [hmemos, List.length_map]
  have hversion : ¬protocolVersion ≠ pb.versionNumber := by rw [hpb]; exact fun h => h rfl
  have hfew := body.memos.few
  rw [transactionBodyFromPbtools, if_neg hversion]
  constructor
  · intro hread hfull
    obtain ⟨memos, _, _, hlist, -⟩ := bind_ok.1 hread
    rw [fewFromPbtools, if_pos (by omega), dif_pos (by omega)] at hlist
    cases hlist
  · intro hcount
    rw [hmemos]
    refine Gives.bind
      (.few (fun memo hmemo => encryptedMemo_roundTrip (hfits memo hmemo)) (by omega)) ?_
    rw [hpb]
    exact (otherCommunityUuid_roundTrip _).bind
      ((timestamp_roundTrip _).bind (hdetail.bind (.pure _)))

/-- A body with these memos and nothing else. -/
def bodyWith (memos : Few Wire.EncryptedMemo) : Wire.TransactionBody where
  memos := memos
  otherCommunityUuid := none
  createdAt := ⟨0, 0⟩
  detail := .none
  type := .local

theorem transactionBody_roundTrip_iff_plain :
    transactionBodyFromPbtools plainHost
          (transactionBodyFromWire (bodyWith ⟨[⟨.plain, [104, 105]⟩], by decide⟩) .init []).2.1 ()
          [] = (.ok (bodyWith ⟨[⟨.plain, [104, 105]⟩], by decide⟩), (), []) ↔
      (bodyWith ⟨[⟨.plain, [104, 105]⟩], by decide⟩).memos.items.length ≠ 255 :=
  transactionBody_roundTrip_iff plainHost (by decide)
    (show transactionBodyFromWire (bodyWith ⟨[⟨.plain, [104, 105]⟩], by decide⟩) .init [] =
      (.ok (), _, []) from rfl)

/-- As many empty memos as the counter of a body counts. -/
def fullMemos : Few Wire.EncryptedMemo :=
  ⟨List.replicate 255 ⟨.plain, []⟩, by rw [List.length_replicate]; decide⟩

/-- The body with 255 memos is written, and refused when it is read. -/
theorem transactionBody_not_roundTrip_full :
    (transactionBodyFromWire (bodyWith fullMemos) .init []).1 = .ok () ∧
      (transactionBodyFromPbtools plainHost
          (transactionBodyFromWire (bodyWith fullMemos) .init []).2.1 () []).1 =
        .error (.refused .arrayIndexOutOfBounds) := by
  decide +kernel

end Mapping

end GradidoBlockchain
