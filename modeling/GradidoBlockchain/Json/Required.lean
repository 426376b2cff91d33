import GradidoBlockchain.Json.Accepted
import GradidoBlockchain.Lib.Outcome

/-!
# What a document has to have

The members without which no document of a type is read: those of the root, those of the objects in
it, and those of every element of its lists. A document that lacks one of them is refused, and the
record is left empty.
-/

namespace GradidoBlockchain

open Fallible Fallible.Call Ownership

namespace Mapping

variable {arnm : JsonArnm} {json root : Json} {table : List Field}

/-! ### An object that has been read -/

/-- The object has been walked, and every field has been filled. -/
def Whole (arnm : JsonArnm) (table : List Field) (json : Json) : Prop :=
  ∃ seen, arnm.readObject json table = .ok seen ∧ ∀ field ∈ table, (seen field).isSome = true

theorem required_ok {α : Type} {slot : Option α} {value : α} :
    required slot = .ok value ↔ slot = some value := by
  cases slot with
  | none => exact iff_of_false nofun nofun
  | some other =>
      exact ⟨fun h => congrArg some (Except.ok.inj h),
        fun h => congrArg Except.ok (Option.some.inj h)⟩

/-- A member that has been seen is there. -/
theorem not_lacks (hlawful : arnm.Lawful) {seen : Seen}
    (hseen : arnm.readObject json table = .ok seen) (hkeys : (table.map Field.key).Nodup)
    {field : Field} (hmem : field ∈ table) (htype : field.type ≠ .value)
    (hsome : (seen field).isSome = true) : ¬json.Lacks field.key := by
  intro hlacks
  obtain ⟨slot, hslot⟩ := Option.isSome_iff_exists.1 hsome
  obtain ⟨value, hvalue, hnull, -⟩ :=
    hlawful.readObject_seen json table seen hseen hkeys field hmem slot hslot
  exact htype (hnull (hlacks value hvalue))

theorem Whole.not_lacks (hlawful : arnm.Lawful) (hwhole : Whole arnm table json)
    (hkeys : (table.map Field.key).Nodup) (htypes : ∀ field ∈ table, field.type ≠ .value)
    {key : String} (hkey : key ∈ table.map Field.key) : ¬json.Lacks key := by
  obtain ⟨seen, hseen, hall⟩ := hwhole
  obtain ⟨field, hmem, rfl⟩ := List.mem_map.1 hkey
  exact Mapping.not_lacks hlawful hseen hkeys hmem (htypes field hmem) (hall field hmem)

theorem readTimestamp_whole {object : Option Json} {timestamp : Timestamp}
    (hread : readTimestamp arnm object = .ok timestamp) :
    ∃ json, object = some json ∧ Whole arnm timestampTable json := by
  obtain ⟨json, hjson, hread⟩ := Outcome.bind_ok.1 hread
  obtain ⟨seen, hseen, hread⟩ := Outcome.bind_ok.1 hread
  obtain ⟨seconds, hseconds, hread⟩ := Outcome.bind_ok.1 hread
  obtain ⟨nanos, hnanos, -⟩ := Outcome.bind_ok.1 hread
  refine ⟨json, required_ok.1 hjson, seen, hseen, ?_⟩
  simp [timestampTable, required_ok.1 hseconds, required_ok.1 hnanos]

theorem readTransfer_whole {object : Option Json} {transfer : Runtime.Transfer}
    (hread : readTransfer arnm object = .ok transfer) :
    ∃ json, object = some json ∧ Whole arnm transferTable json := by
  obtain ⟨json, hjson, hread⟩ := Outcome.bind_ok.1 hread
  obtain ⟨seen, hseen, hread⟩ := Outcome.bind_ok.1 hread
  obtain ⟨sender, hsender, hread⟩ := Outcome.bind_ok.1 hread
  obtain ⟨recipient, hrecipient, hread⟩ := Outcome.bind_ok.1 hread
  obtain ⟨amount, hamount, hread⟩ := Outcome.bind_ok.1 hread
  obtain ⟨uuid, huuid, -⟩ := Outcome.bind_ok.1 hread
  refine ⟨json, required_ok.1 hjson, seen, hseen, ?_⟩
  simp [transferTable, required_ok.1 hsender, required_ok.1 hrecipient, required_ok.1 hamount,
    required_ok.1 huuid]

theorem readRegisterAddress_whole {object : Option Json} {address : Runtime.RegisterAddress}
    (hread : readRegisterAddress arnm object = .ok address) :
    ∃ json, object = some json ∧ Whole arnm registerAddressTable json := by
  obtain ⟨json, hjson, hread⟩ := Outcome.bind_ok.1 hread
  obtain ⟨seen, hseen, hread⟩ := Outcome.bind_ok.1 hread
  obtain ⟨user, huser, hread⟩ := Outcome.bind_ok.1 hread
  obtain ⟨name, hname, hread⟩ := Outcome.bind_ok.1 hread
  obtain ⟨account, haccount, -⟩ := Outcome.bind_ok.1 hread
  refine ⟨json, required_ok.1 hjson, seen, hseen, ?_⟩
  simp [registerAddressTable, required_ok.1 huser, required_ok.1 hname, required_ok.1 haccount]

theorem readCommunityRoot_whole {object : Option Json} {keys : CommunityRootKeys}
    (hread : readCommunityRoot arnm object = .ok keys) :
    ∃ json, object = some json ∧ Whole arnm communityRootTable json := by
  obtain ⟨json, hjson, hread⟩ := Outcome.bind_ok.1 hread
  obtain ⟨seen, hseen, hread⟩ := Outcome.bind_ok.1 hread
  obtain ⟨key, hkey, hread⟩ := Outcome.bind_ok.1 hread
  obtain ⟨gmw, hgmw, hread⟩ := Outcome.bind_ok.1 hread
  obtain ⟨auf, hauf, -⟩ := Outcome.bind_ok.1 hread
  refine ⟨json, required_ok.1 hjson, seen, hseen, ?_⟩
  simp [communityRootTable, required_ok.1 hkey, required_ok.1 hgmw, required_ok.1 hauf]

/-- Of an anchor only the type is wanted whatever the type is. -/
theorem readLedgerAnchor_type (hlawful : arnm.Lawful) {object : Option Json}
    {anchor : Wire.LedgerAnchor} (hread : readLedgerAnchor arnm object = .ok anchor) :
    ∃ json, object = some json ∧ ¬json.Lacks Key.type := by
  obtain ⟨json, hjson, hread⟩ := Outcome.bind_ok.1 hread
  obtain ⟨seen, hseen, hread⟩ := Outcome.bind_ok.1 hread
  obtain ⟨name, hname, -⟩ := Outcome.bind_ok.1 hread
  have hsome : (seen (.string Key.type)).isSome = true := by rw [required_ok.1 hname]; rfl
  exact ⟨json, required_ok.1 hjson,
    not_lacks hlawful hseen (by decide) (by decide) (by decide) hsome⟩

theorem readAccountBalance_whole {balance : AccountBalance}
    (hread : readAccountBalance arnm json = .ok balance) : Whole arnm accountBalanceTable json := by
  obtain ⟨seen, hseen, hread⟩ := Outcome.bind_ok.1 hread
  obtain ⟨pubkey, hpubkey, hread⟩ := Outcome.bind_ok.1 hread
  obtain ⟨amount, hamount, hread⟩ := Outcome.bind_ok.1 hread
  obtain ⟨uuid, huuid, -⟩ := Outcome.bind_ok.1 hread
  refine ⟨seen, hseen, ?_⟩
  simp [accountBalanceTable, required_ok.1 hpubkey, required_ok.1 hamount, required_ok.1 huuid]

theorem readEncryptedMemo_whole {text : MemoText} (hread : readEncryptedMemo arnm json = .ok text) :
    Whole arnm encryptedMemoTable json := by
  obtain ⟨seen, hseen, hread⟩ := Outcome.bind_ok.1 hread
  obtain ⟨name, hname, hread⟩ := Outcome.bind_ok.1 hread
  obtain ⟨memo, hmemo, -⟩ := Outcome.bind_ok.1 hread
  refine ⟨seen, hseen, ?_⟩
  simp [encryptedMemoTable, required_ok.1 hname, required_ok.1 hmemo]

theorem readSignaturePair_whole {pair : SignaturePair}
    (hread : readSignaturePair arnm json = .ok pair) : Whole arnm signaturePairTable json := by
  obtain ⟨seen, hseen, hread⟩ := Outcome.bind_ok.1 hread
  obtain ⟨key, hkey, hread⟩ := Outcome.bind_ok.1 hread
  obtain ⟨signature, hsignature, -⟩ := Outcome.bind_ok.1 hread
  refine ⟨seen, hseen, ?_⟩
  simp [signaturePairTable, required_ok.1 hkey, required_ok.1 hsignature]

/-! ### A document that has been read -/

/-- What has been found of a document whose reading came to its end. -/
structure Accepted (arnm : JsonArnm) (root : Json) (type : TransactionType)
    (view : RootView) : Prop where
  named : ∃ name, .string name ∈ root.under Key.transactionType ∧
    TransactionType.fromString name = type
  walked : ∃ tx left, readRoot arnm root type tx = .ok (view, left)
  confirmedAt : ∃ timestamp, readTimestamp arnm view.confirmedAt = .ok timestamp
  createdAt : ∃ timestamp, readTimestamp arnm view.createdAt = .ok timestamp
  ledgerAnchor : ∃ anchor, readLedgerAnchor arnm view.ledgerAnchor = .ok anchor
  detail : ∃ tx left, tx.transactionType = type ∧ readTransactionDetail arnm view tx = .ok left
  balances : ∀ value ∈ Json.items view.accountBalances,
    ∃ balance, readAccountBalance arnm value = .ok balance
  memos : ∀ value ∈ Json.items view.encryptedMemos, ∃ memo, readEncryptedMemo arnm value = .ok memo
  signatures : ∀ value ∈ Json.items view.signaturePairs,
    ∃ pair, readSignaturePair arnm value = .ok pair

theorem elements_ok {α β : Type} {size : ℕ} {values : List α} {each : α → Except ArnmResult β}
    {change : β → Runtime.CompleteTransaction → Runtime.CompleteTransaction}
      {filling left : Filling} {room rest : Room}
    (hrun : (if values.length = 0 then pure () else do
      arenaAlloc arnm.emptyRequest size
      values.forM fun value => do
        let value ← answer (each value)
        putTx (change value) : Fill Unit) filling room = (.ok (), left, rest)) : ∀ value ∈ values, ∃ result, each value = .ok result := by
  by_cases hempty : values.length = 0
  · rw [List.length_eq_zero_iff.1 hempty]
    exact fun _ hmem => absurd hmem List.not_mem_nil
  rw [if_neg hempty] at hrun
  obtain ⟨_, middle, between, -, hrun⟩ := bind_ok.1 hrun
  apply forM_ok (fun done _ => ∀ value ∈ done, ∃ result, each value = .ok result)
    (fun _ hmem => absurd hmem List.not_mem_nil) _ hrun
  intro before value after state room left rest _ hdone hbody
  obtain ⟨result, hresult, -⟩ := of_answer_bind hbody
  intro other hother
  rcases List.mem_append.1 hother with hmem | hmem
  · exact hdone other hmem
  · rw [List.mem_singleton.1 hmem]
    exact ⟨result, hresult⟩

theorem readHead_ok {view : RootView} {filling left : Filling} {room rest : Room}
    (hrun : readHead arnm view filling room = (.ok (), left, rest)) :
    (∃ timestamp, readTimestamp arnm view.confirmedAt = .ok timestamp) ∧
      (∃ timestamp, readTimestamp arnm view.createdAt = .ok timestamp) ∧
      (∃ anchor, readLedgerAnchor arnm view.ledgerAnchor = .ok anchor) ∧
      ∃ tx left, tx.transactionType = filling.tx.transactionType ∧
        readTransactionDetail arnm view tx = .ok left := by
  obtain ⟨confirmedAt, hconfirmedAt, hrun⟩ := of_answer_bind hrun
  obtain ⟨createdAt, hcreatedAt, hrun⟩ := of_answer_bind hrun
  obtain ⟨anchor, hanchor, hrun⟩ := of_answer_bind hrun
  obtain ⟨tx, hdetail, -⟩ := of_answer_bind hrun
  refine ⟨⟨_, hconfirmedAt⟩, ⟨_, hcreatedAt⟩, ⟨_, hanchor⟩, _, tx, ?_, hdetail⟩
  rfl

theorem readArrays_ok {view : RootView} {balances signatures : List Json} {texts : List MemoText}
    {filling left : Filling} {room rest : Room}
    (hrun : readArrays arnm view balances texts signatures filling room = (.ok (), left, rest)) :
    (∀ value ∈ balances, ∃ balance, readAccountBalance arnm value = .ok balance) ∧
      ∀ value ∈ signatures, ∃ pair, readSignaturePair arnm value = .ok pair := by
  obtain ⟨_, _, _, hbalances, hrun⟩ := bind_ok.1 hrun
  obtain ⟨_, _, _, -, hrun⟩ := bind_ok.1 hrun
  obtain ⟨_, _, _, hsignatures, -⟩ := bind_ok.1 hrun
  exact ⟨elements_ok hbalances, elements_ok hsignatures⟩

/-- What the size has been put together from. -/
theorem calculateJsonSize_ok {view : RootView} {balances memos signatures : List Json} {size : ℕ}
    {texts : List MemoText}
    (hsize : calculateJsonSize arnm view balances memos signatures = .ok (size, texts)) :
    List.Forall₂ (fun value text => readEncryptedMemo arnm value = .ok text) memos texts ∧
      ∃ memoSizes bodySize, List.Forall₂
          (fun text size => arnm.base64BinarySize text.memo = .ok size) texts memoSizes ∧
        arnm.base64BinarySize view.bodyBytes = .ok bodySize ∧
        size = jsonTotal view balances memos signatures memoSizes bodySize ∧
        size ≤ arnm.maxAllocSize := by
  obtain ⟨found, hfound, hsize⟩ := Outcome.bind_ok.1 hsize
  obtain ⟨memoSizes, hmemoSizes, hsize⟩ := Outcome.bind_ok.1 hsize
  obtain ⟨bodySize, hbodySize, hsize⟩ := Outcome.bind_ok.1 hsize
  obtain ⟨hfits, hsize⟩ := Outcome.guard_ok.1 hsize
  cases hsize
  exact ⟨Outcome.mapM_ok hfound, memoSizes, bodySize, Outcome.mapM_ok hmemoSizes, hbodySize, rfl,
    Nat.not_lt.1 hfits⟩

/-- Once its size is known the record is filled, in the arena or without one. -/
theorem readCompleteTransaction_ok {view : RootView} {balances memos signatures : List Json}
    {filling left : Filling} {room rest : Room}
    (hrun : readCompleteTransaction arnm view balances memos signatures filling room =
      (.ok (), left, rest)) :
    ∃ size texts between,
      calculateJsonSize arnm view balances memos signatures = .ok (size, texts) ∧
      (do readHead arnm view; readArrays arnm view balances texts signatures : Fill Unit)
        (if size = 0 then filling else filling.openArena .caller size) between =
            (.ok (), left, rest) := by
  obtain ⟨sized, hsized, hrun⟩ := of_answer_bind hrun
  obtain ⟨size, texts⟩ := sized
  refine ⟨size, texts, ?_⟩
  by_cases hsize : size = 0
  · simp only [hsize, ne_eq, not_true_eq_false, if_false] at hrun
    exact ⟨room, hsized, by simpa only [hsize, if_true] using hrun⟩
  · simp only [ne_eq, hsize, not_false_eq_true, if_true] at hrun
    obtain ⟨_, middle, between, hopen, hrun⟩ := bind_ok.1 hrun
    obtain rfl := grow_ok hopen
    exact ⟨between, hsized, by rwa [if_neg hsize]⟩

theorem readRootInto_ok {type : TransactionType} {view : RootView} {filling left : Filling}
    {room rest : Room} (hrun : readRootInto arnm root type filling room = (.ok view, left, rest)) :
    left.tx.transactionType = filling.tx.transactionType ∧
      ∃ tx read, readRoot arnm root type tx = .ok (view, read) := by
  obtain ⟨tx, _, _, htx, hrun⟩ := bind_ok.1 hrun
  obtain ⟨rfl, rfl, rfl⟩ := gets_ok.1 htx
  obtain ⟨⟨found, read⟩, hread, hrun⟩ := of_answer_bind hrun
  simp only [putTx_bind] at hrun
  split at hrun
  · cases hrun
  obtain ⟨rfl, rfl, rfl⟩ := pure_ok.1 hrun
  exact ⟨(readRoot_keeps hread).1, _, read, hread⟩

theorem readType_ok (hlawful : arnm.Lawful) {view : RootView} {filling left : Filling}
    {room rest : Room} (hrun : readType arnm root filling room = (.ok view, left, rest)) :
    (∃ name, .string name ∈ root.under Key.transactionType ∧
        TransactionType.fromString name = left.tx.transactionType) ∧
      ∃ tx read, readRoot arnm root left.tx.transactionType tx = .ok (view, read) := by
  obtain ⟨seen, hseen, hrun⟩ := of_answer_bind hrun
  by_cases hname : (seen (.string Key.transactionType)).getD "" = ""
  · simp only [if_pos hname] at hrun
    cases hrun
  simp only [if_neg hname, putTx_bind] at hrun
  split at hrun
  · cases hrun
  obtain ⟨htype, hread⟩ := readRootInto_ok hrun
  rw [htype]
  refine ⟨?_, hread⟩
  rcases hfiled : seen (.string Key.transactionType) with _ | name
  · rw [hfiled] at hname
    exact absurd rfl hname
  · obtain ⟨value, hvalue, -, hconvert⟩ :=
      hlawful.readObject_seen root _ seen hseen (by decide) _ List.mem_cons_self _ hfiled
    rw [hlawful.convert_string_only value name hconvert] at hvalue
    refine ⟨name, hvalue, ?_⟩
    rfl

/-- Whose reading comes to its end, of that document everything has been found. -/
theorem readDocument_accepts (hlawful : arnm.Lawful) {reading left : Reading} {room rest : Room}
    (hrun : readDocument arnm root root.nodes reading room = (.ok (), left, rest)) :
    ∃ type view, Accepted arnm root type view := by
  obtain ⟨view, middle, between, hview, hrun⟩ := bind_ok.1 hrun
  obtain ⟨filling, htype, rfl⟩ := within_ok.1 hview
  have hbounded : view.Bounded root.nodes := by
    obtain ⟨_, hsame⟩ := readType_run arnm root reading.record room
    rw [hsame] at htype
    exact viewOfDocument_bounded hlawful (congrArg Prod.fst htype)
  obtain ⟨_, _, _, hwrite, hrun⟩ := bind_ok.1 hrun
  obtain ⟨rfl, rfl⟩ := write_ok.1 hwrite
  obtain ⟨last, hlists, -⟩ := andRelease_ok.1 hrun
  obtain ⟨_, hrecord⟩ := readLists_ok hlawful hbounded hlists
  obtain ⟨size, texts, _, hsize, hfilled⟩ := readCompleteTransaction_ok hrecord
  obtain ⟨_, _, _, hhead, harrays⟩ := bind_ok.1 hfilled
  obtain ⟨hconfirmedAt, hcreatedAt, hanchor, tx, detailed, hsame, hdetail⟩ := readHead_ok hhead
  obtain ⟨hbalances, hsignatures⟩ := readArrays_ok harrays
  obtain ⟨hnamed, hwalked⟩ := readType_ok hlawful htype
  refine ⟨filling.tx.transactionType, view, hnamed, hwalked, hconfirmedAt, hcreatedAt, hanchor,
    ⟨tx, detailed, ?_, hdetail⟩, hbalances, ?_, hsignatures⟩
  · rw [hsame]
    split <;> rfl
  · have hmemos :=
      (calculateJsonSize_ok hsize).1.imp fun value text htext =>
        And.intro (Exists.intro text htext) htext
    exact ((List.forall₂_and_left _ _).1 hmemos).1

/-! ### What is required -/

/-- The members that the root of a document of the type has to have. -/
def requiredMembers (type : TransactionType) : List String :=
  [Key.transactionType, Key.txNr, Key.confirmedAt, Key.createdAt, Key.txCommunityUuid,
    Key.ledgerAnchor, Key.txRunningHash, Key.crossGroupType, Key.bodyBytes] ++
  match type with
  | .transfer => [Key.transfer]
  | .creation => [Key.transfer, Key.targetDate]
  | .deferredTransfer => [Key.transfer, Key.timeoutDuration]
  | .redeemDeferredTransfer => [Key.transfer, Key.previousTx]
  | .timeoutDeferredTransfer => [Key.previousTx]
  | .registerAddress => [Key.registerAddress, Key.addressType, Key.derivationIndex]
  | .communityRoot => [Key.communityRoot]
  | .none | .communityFriendsUpdate | .unknown _ => []

/-- The members of the objects in it, under the keys of these. -/
def requiredWithin (type : TransactionType) : List (String × List String) :=
  [(Key.confirmedAt, [Key.seconds, Key.nanos]), (Key.createdAt, [Key.seconds, Key.nanos]),
    (Key.ledgerAnchor, [Key.type])] ++
  match type with
  | .transfer | .creation | .deferredTransfer | .redeemDeferredTransfer =>
      [(Key.transfer, [Key.senderPubkey, Key.recipientPubkey, Key.amount, Key.coinCommunityUuid])]
  | .registerAddress =>
      [(Key.registerAddress, [Key.userPublicKey, Key.nameHash, Key.accountPublicKey])]
  | .communityRoot => [(Key.communityRoot, [Key.publicKey, Key.gmwPublicKey, Key.aufPublicKey])]
  | .timeoutDeferredTransfer | .none | .communityFriendsUpdate | .unknown _ => []

/-- The members of every element of its lists, under the keys of these. -/
def requiredOfElements : List (String × List String) :=
  [(Key.accountBalances, [Key.pubkey, Key.balance, Key.communityUuid]),
    (Key.encryptedMemos, [Key.type, Key.memo]),
    (Key.signaturePairs, [Key.publicKey, Key.signature])]

/-- A document of the type lacks something that it has to have. -/
inductive Hole (type : TransactionType) (root : Json) : Prop
  | member {key : String} (hkey : key ∈ requiredMembers type) (hlacks : root.Lacks key)
  | inner {object : String × List String} {key : String} (hobject : object ∈ requiredWithin type)
      (hkey : key ∈ object.2) (hlacks : root.LacksIn object.1 key)
  | element {list : String × List String} {key : String} (hlist : list ∈ requiredOfElements)
      (hkey : key ∈ list.2) (hlacks : root.LacksInElement list.1 key)

section Holes

variable {type : TransactionType} {view : RootView}

/-- The required members of the root that the walk converts. -/
theorem Accepted.not_lacks (hlawful : arnm.Lawful) (haccepted : Accepted arnm root type view)
    {field : Field} (hentry : addRequired field ∈ rootTable type)
    (htype : field.type ≠ .value) : ¬root.Lacks field.key := by
  obtain ⟨tx, left, hread⟩ := haccepted.walked
  obtain ⟨seen, hseen, hall, -⟩ := readRoot_ok hread
  have hsome := List.all_eq_true.1 hall _ hentry
  exact Mapping.not_lacks hlawful hseen (rootTable_keys type) (List.mem_map.2 ⟨_, hentry, rfl⟩)
    htype hsome

/-- The handle that the reading was given is that of a member. -/
theorem Accepted.mem_under (hlawful : arnm.Lawful) (haccepted : Accepted arnm root type view)
    {key : String} (hentry : Field.value key ∈ (rootTable type).map Entry.field)
    {part : RootView → Option Json} (hpart : ∀ seen, part (viewOf seen) = seen (.value key))
    {value : Json} (hvalue : part view = some value) : value ∈ root.under key := by
  obtain ⟨tx, left, hread⟩ := haccepted.walked
  obtain ⟨seen, hseen, -, rfl, -⟩ := readRoot_ok hread
  rw [hpart] at hvalue
  exact mem_under_of_seen hlawful hseen (rootTable_keys type) hentry hvalue

/-- The detail of the type has been read from an object. -/
theorem Accepted.detailObject (hlawful : arnm.Lawful) (haccepted : Accepted arnm root type view) :
    match type with
    | .transfer | .creation | .deferredTransfer | .redeemDeferredTransfer =>
        ∃ value ∈ root.under Key.transfer, Whole arnm transferTable value
    | .registerAddress =>
        ∃ value ∈ root.under Key.registerAddress, Whole arnm registerAddressTable value
    | .communityRoot => ∃ value ∈ root.under Key.communityRoot, Whole arnm communityRootTable value
    | _ => True := by
  obtain ⟨tx, left, htype, hdetail⟩ := haccepted.detail
  rw [readTransactionDetail, htype] at hdetail
  have htransfer : Field.value Key.transfer ∈ (rootTable type).map Entry.field →
      ∀ transfer, readTransfer arnm view.transfer = .ok transfer →
        ∃ value ∈ root.under Key.transfer, Whole arnm transferTable value := by
    intro hentry transfer hread
    obtain ⟨value, hvalue, hwhole⟩ := readTransfer_whole hread
    exact ⟨value, haccepted.mem_under hlawful hentry (fun _ => rfl) hvalue, hwhole⟩
  cases type with
  | transfer | creation | deferredTransfer | redeemDeferredTransfer =>
      obtain ⟨transfer, hread, -⟩ := Outcome.bind_ok.1 hdetail
      exact htransfer (by decide) transfer hread
  | registerAddress =>
      obtain ⟨address, hread, -⟩ := Outcome.bind_ok.1 hdetail
      obtain ⟨value, hvalue, hwhole⟩ := readRegisterAddress_whole hread
      exact ⟨value, haccepted.mem_under hlawful (by decide) (fun _ => rfl) hvalue, hwhole⟩
  | communityRoot =>
      obtain ⟨keys, hread, -⟩ := Outcome.bind_ok.1 hdetail
      obtain ⟨value, hvalue, hwhole⟩ := readCommunityRoot_whole hread
      exact ⟨value, haccepted.mem_under hlawful (by decide) (fun _ => rfl) hvalue, hwhole⟩
  | timeoutDeferredTransfer | none | communityFriendsUpdate | unknown _ => trivial

theorem headEntry (type : TransactionType) {field : Field}
    (hmem : field ∈ headTable.map Entry.field) : field ∈ (rootTable type).map Entry.field := by
  rw [rootTable, List.append_assoc, List.append_assoc, List.map_append]
  exact List.mem_append_left _ hmem

/-- No object of a document that has been read lacks what it has to have. -/
theorem Accepted.within (hlawful : arnm.Lawful) (haccepted : Accepted arnm root type view)
    {object : String × List String} {key : String} (hobject : object ∈ requiredWithin type)
    (hkey : key ∈ object.2) : ¬root.LacksIn object.1 key := by
  suffices hfound : ∃ value ∈ root.under object.1, ¬value.Lacks key by
    obtain ⟨value, hvalue, hthere⟩ := hfound
    exact fun hlacks => hthere (hlacks value hvalue)
  have hdetail := haccepted.detailObject hlawful
  rcases List.mem_append.1 hobject with hhead | htail
  · simp only [List.mem_cons, List.not_mem_nil, or_false] at hhead
    rcases hhead with rfl | rfl | rfl
    · obtain ⟨timestamp, hread⟩ := haccepted.confirmedAt
      obtain ⟨value, hvalue, hwhole⟩ := readTimestamp_whole hread
      exact ⟨value, haccepted.mem_under hlawful (headEntry type (by decide)) (fun _ => rfl) hvalue,
        hwhole.not_lacks hlawful (by decide) (by decide) hkey⟩
    · obtain ⟨timestamp, hread⟩ := haccepted.createdAt
      obtain ⟨value, hvalue, hwhole⟩ := readTimestamp_whole hread
      exact ⟨value, haccepted.mem_under hlawful (headEntry type (by decide)) (fun _ => rfl) hvalue,
        hwhole.not_lacks hlawful (by decide) (by decide) hkey⟩
    · obtain ⟨anchor, hread⟩ := haccepted.ledgerAnchor
      obtain ⟨value, hvalue, hthere⟩ := readLedgerAnchor_type hlawful hread
      rw [List.mem_singleton.1 hkey]
      exact ⟨value, haccepted.mem_under hlawful (headEntry type (by decide)) (fun _ => rfl) hvalue,
        hthere⟩
  · cases type with
    | transfer | creation | deferredTransfer | redeemDeferredTransfer | registerAddress | communityRoot =>
        obtain ⟨value, hvalue, hwhole⟩ := hdetail
        rw [List.mem_singleton.1 htail] at hkey ⊢
        exact ⟨value, hvalue, hwhole.not_lacks hlawful (by decide) (by decide) hkey⟩
    | timeoutDeferredTransfer | none | communityFriendsUpdate | unknown _ => cases htail

/-- No element of its lists does. -/
theorem Accepted.elements (hlawful : arnm.Lawful) (haccepted : Accepted arnm root type view)
    {list : String × List String} {key : String} (hlist : list ∈ requiredOfElements)
    (hkey : key ∈ list.2) : ¬root.LacksInElement list.1 key := by
  obtain ⟨tx, left, hread⟩ := haccepted.walked
  obtain ⟨seen, hseen, -, rfl, -⟩ := readRoot_ok hread
  have hall : ∀ {name : String} (table : List Field), Field.value name ∈ tailTable.map Entry.field →
      (table.map Field.key).Nodup → (∀ field ∈ table, field.type ≠ .value) →
      key ∈ table.map Field.key →
      (∀ value ∈ Json.items (seen (.value name)), Whole arnm table value) →
      ¬root.LacksInElement name key := by
    intro name table hentry hkeys htypes hkey hwhole hlacks
    rcases hfiled : seen (.value name) with _ | value
    · exact hlacks.1
        (hlawful.readObject_handle root _ seen hseen (rootTable_keys type) name
          (mem_rootTable hentry type) hfiled)
    · obtain ⟨item, hitem, hhole⟩ :=
        hlacks.2 value
          (mem_under_of_seen hlawful hseen (rootTable_keys type) (mem_rootTable hentry type) hfiled)
      rw [hfiled] at hwhole
      exact (hwhole item hitem).not_lacks hlawful hkeys htypes hkey hhole
  simp only [requiredOfElements, List.mem_cons, List.not_mem_nil, or_false] at hlist
  rcases hlist with rfl | rfl | rfl
  · exact hall accountBalanceTable (by decide) (by decide) (by decide) hkey fun value hvalue =>
      (haccepted.balances value hvalue).elim fun _ => readAccountBalance_whole
  · exact hall encryptedMemoTable (by decide) (by decide) (by decide) hkey fun value hvalue =>
      (haccepted.memos value hvalue).elim fun _ => readEncryptedMemo_whole
  · exact hall signaturePairTable (by decide) (by decide) (by decide) hkey fun value hvalue =>
      (haccepted.signatures value hvalue).elim fun _ => readSignaturePair_whole

/-- A required member is converted by the walk of the root, or is an object that
has members to have. -/
def Demanded (table : List Entry) (objects : List (String × List String)) (key : String) : Prop :=
  (∃ entry ∈ table, entry.required = true ∧ entry.field.type ≠ .value ∧ entry.field.key = key) ∨
    ∃ object ∈ objects, object.1 = key ∧ object.2 ≠ []

instance (table : List Entry) (objects : List (String × List String)) :
    DecidablePred (Demanded table objects) :=
  fun _ => inferInstanceAs (Decidable (_ ∨ _))

theorem requiredMembers_demanded (type : TransactionType) :
    ∀ key ∈ requiredMembers type, Demanded (rootTable type) (requiredWithin type) key := by
  cases type with
  | unknown past =>
      change ∀ key ∈ requiredMembers .none,
        Demanded (headTable ++ tailTable) (requiredWithin .none) key
      decide
  | _ => decide

/-- A document that has been read has no hole. -/
theorem Accepted.no_hole (hlawful : arnm.Lawful)
    (haccepted : Accepted arnm root type view) : ¬Hole type root := by
  intro hhole
  cases hhole with
  | member hkey hlacks =>
      rename_i key
      obtain ⟨⟨field, required⟩, hentry, hrequired, htype, rfl⟩ | ⟨object, hobject, rfl, hinner⟩ :=
        requiredMembers_demanded type key hkey
      · obtain rfl : required = true := hrequired
        exact haccepted.not_lacks hlawful hentry htype hlacks
      · obtain ⟨inner, hmem⟩ := List.exists_mem_of_ne_nil object.2 hinner
        refine haccepted.within hlawful hobject hmem fun value hvalue => ?_
        rw [hlacks value hvalue]
        exact fun _ hnone => absurd hnone List.not_mem_nil
  | inner hobject hkey hlacks => exact haccepted.within hlawful hobject hkey hlacks
  | element hlist hkey hlacks => exact haccepted.elements hlawful hlist hkey hlacks

end Holes

/-! ### What is refused -/

/-- Whatever name of a type the document has, it is that type's. -/
def Names (type : TransactionType) (root : Json) : Prop :=
  ∀ name, .string name ∈ root.under Key.transactionType → TransactionType.fromString name = type

theorem Hole.refused (hlawful : arnm.Lawful) {type : TransactionType} (hhole : Hole type root)
    (hnames : Names type root) (reading : Reading) (room : Room) :
    ∃ code left rest,
      readDocument arnm root root.nodes reading room = (.error code, left, rest) := by
  rcases hrun : readDocument arnm root root.nodes reading room with ⟨code | _, left, rest⟩
  · exact ⟨code, left, rest, rfl⟩
  · obtain ⟨other, view, haccepted⟩ := readDocument_accepts hlawful hrun
    obtain ⟨name, hname, hother⟩ := haccepted.named
    rw [← hother, hnames name hname] at haccepted
    exact absurd hhole (haccepted.no_hole hlawful)

/-- A document with a hole is refused, whatever memory there is. -/
theorem Hole.error (hlawful : arnm.Lawful) {type : TransactionType} (hhole : Hole type root)
    (hnames : Names type root) {text : Text} (hparses : Parses arnm text root) (start : Reading)
    (room : Room) :
    ∃ code left rest,
      completeTransactionFromJson arnm text start room = (.error code, left, rest) := by
  obtain ⟨-, rest, hrun⟩ | ⟨between, -, hrun⟩ := completeTransactionFromJson_run hparses start room
  · exact ⟨_, _, rest, hrun⟩
  · obtain ⟨code, left, rest, hread⟩ := hhole.refused hlawful hnames start.release between
    exact ⟨code, left.release, rest, hrun.trans (orUndo_error.2 ⟨left, hread, rfl⟩)⟩

end Mapping

end GradidoBlockchain
