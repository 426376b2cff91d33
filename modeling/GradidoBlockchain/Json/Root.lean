import GradidoBlockchain.Json.Written

/-!
# The root of what has been written

The members of a document stand in three parts, and the table of the root has the same keys in
the same parts: what every type has, what the type of the transaction owns, and what every
type has after it. The walk fills the table with what was written, and the record is then as
it was in those fields.
-/

namespace GradidoBlockchain

open Fallible Fallible.Call

namespace Mapping

open JsonArnm

variable {arnm : JsonArnm}

/-! ### The root -/

/-- A field and what it is filled with. -/
abbrev Slot : Type := Σ field : Field, Option field.type.Slot

section Root

variable (arnm) (tx : Runtime.CompleteTransaction)

def headSlots : List Slot :=
  [⟨.string Key.transactionType, some tx.transactionType.toString⟩,
    ⟨.uint64 Key.txNr, some tx.txNr⟩,
    ⟨.value Key.confirmedAt, some (addTimestamp Key.confirmedAt tx.confirmedAt).2⟩,
    ⟨.value Key.createdAt, some (addTimestamp Key.createdAt tx.createdAt).2⟩,
    ⟨.uuid Key.txCommunityUuid, some tx.txCommunityUuid⟩,
    ⟨.value Key.ledgerAnchor, some (addLedgerAnchor Key.ledgerAnchor (some tx.ledgerAnchor)).2⟩]

def detailSlots : List Slot :=
  match tx.transactionType with
  | .transfer => [⟨.value Key.transfer, some (addTransfer arnm tx).2⟩]
  | .creation =>
      [⟨.value Key.transfer, some (addTransfer arnm tx).2⟩,
        ⟨.int64 Key.targetDate, some tx.targetDate⟩]
  | .registerAddress =>
      [⟨.value Key.registerAddress, some (addRegisterAddress arnm tx).2⟩,
        ⟨.string Key.addressType, some tx.addressType.toString⟩,
        ⟨.uint32 Key.derivationIndex, some tx.derivationIndex⟩]
  | .deferredTransfer =>
      [⟨.value Key.transfer, some (addTransfer arnm tx).2⟩,
        ⟨.int64 Key.timeoutDuration, some tx.timeoutDuration⟩]
  | .redeemDeferredTransfer =>
      [⟨.value Key.transfer, some (addTransfer arnm tx).2⟩,
        ⟨.uint64 Key.previousTx, some tx.previousTx⟩]
  | .timeoutDeferredTransfer => [⟨.uint64 Key.previousTx, some tx.previousTx⟩]
  | .communityRoot => [⟨.value Key.communityRoot, some (addCommunityRoot arnm tx).2⟩]
  | .none | .communityFriendsUpdate | .unknown _ => []

def tailSlots : List Slot :=
  [⟨.hexFixed 32 Key.txRunningHash, some tx.txRunningHash⟩,
    ⟨.value Key.accountBalances, some (.array (tx.accountBalances.map (accountBalanceJson arnm)))⟩,
    ⟨.value Key.encryptedMemos, some (.array (tx.encryptedMemos.map (encryptedMemoJson arnm)))⟩,
    ⟨.value Key.signaturePairs, some (.array (tx.signaturePairs.map (signaturePairJson arnm)))⟩,
    ⟨.string Key.crossGroupType, some tx.crossGroupType.toString⟩,
    ⟨.uuid Key.txPairingCommunityUuid, tx.txPairingCommunityUuid⟩,
    ⟨.value Key.pairingLedgerAnchor,
      some (addLedgerAnchor Key.pairingLedgerAnchor tx.pairingLedgerAnchor).2⟩,
    ⟨.string Key.bodyBytes, some (arnm.base64 tx.bodyBytes)⟩]

/-- What the table of the root is filled with. -/
def rootSlots : List Slot := headSlots tx ++ detailSlots arnm tx ++ tailSlots arnm tx

end Root

variable {tx : Runtime.CompleteTransaction} {document : Json}

theorem rootSlots_fields (arnm : JsonArnm) (tx : Runtime.CompleteTransaction) :
    (rootSlots arnm tx).map Sigma.fst = (rootTable tx.transactionType).map Entry.field := by
  rw [rootSlots, detailSlots]
  cases tx.transactionType <;> rfl

/-- The members of what has been written. -/
theorem addCompleteTransaction_ok (hwritten : addCompleteTransaction arnm tx = .ok document) :
    ∃ detail, addTransactionDetail arnm tx = .ok detail ∧
      document = .object (headMembers arnm tx ++ detail ++ tailMembers arnm tx) := by
  obtain ⟨detail, hdetail, hdocument⟩ := Outcome.bind_ok.1 hwritten
  exact ⟨detail, hdetail, (Except.ok.inj hdocument).symm⟩

theorem lookup_eq_none {members : List Member} {key : String} (hkey : key ∉ members.map Prod.fst) :
    members.lookup key = none := by
  apply List.lookup_eq_none_iff.2
  intro member hmem
  exact bne_iff_ne.2 fun heq => hkey (heq ▸ List.mem_map_of_mem hmem)

/-- The keys of what is written are those that are looked for. -/
theorem detail_keys {detail : List Member} (hdetail : addTransactionDetail arnm tx = .ok detail) :
    detail.map Prod.fst =
      ((detailTable tx.transactionType ++ contextTable tx.transactionType).map Entry.field).map
        Field.key := by
  rw [addTransactionDetail] at hdetail
  cases htype : tx.transactionType <;> rw [htype] at hdetail <;> cases hdetail <;> rfl

/-- What a field of the tail finds is the same behind any detail. -/
theorem reads_tail {detail : List Member} (hdetail : addTransactionDetail arnm tx = .ok detail)
    {field : Field} (hfield : field ∈ tailTable.map Entry.field) :
    arnm.reads (headMembers arnm tx ++ detail ++ tailMembers arnm tx) field =
      arnm.reads (tailMembers arnm tx) field := by
  have hbefore : (headMembers arnm tx ++ detail).map Prod.fst =
      ((headTable ++ detailTable tx.transactionType ++ contextTable tx.transactionType).map
        Entry.field).map Field.key := by
    simp only [List.map_append, detail_keys hdetail, List.append_assoc]
    rfl
  have hkeys := rootTable_keys tx.transactionType
  rw [rootTable, List.map_append, List.map_append] at hkeys
  have hnone : (headMembers arnm tx ++ detail).lookup field.key = none := by
    apply lookup_eq_none
    rw [hbefore]
    exact fun hmem => List.disjoint_of_nodup_append hkeys hmem (List.mem_map_of_mem hfield)
  rw [reads, reads, List.lookup_append, hnone]
  rfl

theorem reads_detail (hlawful : arnm.Lawful) {detail : List Member}
    (hdetail : addTransactionDetail arnm tx = .ok detail) :
    ∀ slot ∈ detailSlots arnm tx,
      arnm.reads (headMembers arnm tx ++ detail ++ tailMembers arnm tx) slot.1 = .ok slot.2 := by
  rw [addTransactionDetail] at hdetail
  rw [detailSlots]
  cases htype : tx.transactionType <;> rw [htype] at hdetail <;> cases hdetail <;>
    simp only [List.forall_mem_cons]
  case transfer.refl | communityRoot.refl => exact ⟨reads_value hlawful rfl, nofun⟩
  case creation.refl |
    deferredTransfer.refl => exact ⟨reads_value hlawful rfl, reads_int64 hlawful rfl, nofun⟩
  case registerAddress.refl => exact ⟨reads_value hlawful rfl, reads_string hlawful rfl,
    reads_uint32 hlawful rfl, nofun⟩
  case redeemDeferredTransfer.refl => exact ⟨reads_value hlawful rfl, reads_uint64 hlawful rfl,
    nofun⟩
  case timeoutDeferredTransfer.refl => exact ⟨reads_uint64 hlawful rfl, nofun⟩

/-- What is written is what the table of the root finds. -/
theorem reads_root (hlawful : arnm.Lawful) {detail : List Member}
    (hdetail : addTransactionDetail arnm tx = .ok detail) :
    ∀ slot ∈ rootSlots arnm tx,
      arnm.reads (headMembers arnm tx ++ detail ++ tailMembers arnm tx) slot.1 = .ok slot.2 := by
  simp only [rootSlots, List.forall_mem_append]
  refine ⟨⟨?_, reads_detail hlawful hdetail⟩, fun slot hslot => ?_⟩
  · simp only [headSlots, List.forall_mem_cons]
    exact ⟨reads_string hlawful rfl, reads_uint64 hlawful rfl, reads_value hlawful rfl,
      reads_value hlawful rfl, reads_uuid hlawful rfl, reads_value hlawful rfl, nofun⟩
  · have hall : ∀ slot ∈ tailSlots arnm tx,
        arnm.reads (tailMembers arnm tx) slot.1 = .ok slot.2 := by
      simp only [tailSlots, List.forall_mem_cons]
      exact ⟨reads_hex hlawful rfl, reads_value hlawful rfl, reads_value hlawful rfl,
        reads_value hlawful rfl, reads_string hlawful rfl, reads_uuid hlawful rfl,
        reads_value hlawful rfl, reads_string hlawful rfl, nofun⟩
    rw [reads_tail hdetail (List.mem_map_of_mem (f := Sigma.fst) hslot)]
    exact hall slot hslot

/-- The walk of the root fills its table. -/
theorem walkRoot_written (hlawful : arnm.Lawful)
    (hwritten : addCompleteTransaction arnm tx = .ok document) :
    ∃ seen, arnm.readObject document ((rootTable tx.transactionType).map Entry.field) = .ok seen ∧
      ∀ slot ∈ rootSlots arnm tx, seen slot.1 = slot.2 := by
  obtain ⟨detail, hdetail, rfl⟩ := addCompleteTransaction_ok hwritten
  exact readObject_slots hlawful _ _ (rootSlots_fields arnm tx) (rootTable_keys _)
    (reads_root hlawful hdetail)

/-- The walk before it finds the name of the type. -/
theorem walkType_written (hlawful : arnm.Lawful)
    (hwritten : addCompleteTransaction arnm tx = .ok document) :
    ∃ seen, arnm.readObject document [.string Key.transactionType] = .ok seen ∧
      seen (.string Key.transactionType) = some tx.transactionType.toString := by
  obtain ⟨detail, -, rfl⟩ := addCompleteTransaction_ok hwritten
  obtain ⟨seen, hseen, hslots⟩ :=
    readObject_slots hlawful (headMembers arnm tx ++ detail ++ tailMembers arnm tx)
    [⟨.string Key.transactionType, some tx.transactionType.toString⟩] (show _ = [Field.string Key.transactionType] from rfl) (by decide) (by
      simp only [List.forall_mem_cons]
      exact ⟨reads_string hlawful rfl, nofun⟩)
  exact ⟨seen, hseen, hslots _ List.mem_cons_self⟩

/-! ### What the root is read as -/

/-- The member of the first union that the type owns is the same. -/
def SameDetail (tx record : Runtime.CompleteTransaction) : Prop :=
  match tx.transactionType with
  | .transfer | .creation | .deferredTransfer | .redeemDeferredTransfer =>
      record.transfer = tx.transfer
  | .registerAddress => record.registerAddress = tx.registerAddress
  | .communityRoot => record.communityRoot = tx.communityRoot
  | .timeoutDeferredTransfer | .none | .communityFriendsUpdate | .unknown _ => True

/-- And that of the second. -/
def SameContext (tx record : Runtime.CompleteTransaction) : Prop :=
  match tx.transactionType with
  | .creation => record.targetDate = tx.targetDate
  | .registerAddress =>
      record.addressType = tx.addressType ∧ record.derivationIndex = tx.derivationIndex
  | .deferredTransfer => record.timeoutDuration = tx.timeoutDuration
  | .redeemDeferredTransfer | .timeoutDeferredTransfer => record.previousTx = tx.previousTx
  | .transfer | .communityRoot | .none | .communityFriendsUpdate | .unknown _ => True

/-- The view has the object that the type owns. -/
def HoldsDetail (arnm : JsonArnm) (tx : Runtime.CompleteTransaction) (view : RootView) : Prop :=
  match tx.transactionType with
  | .transfer | .creation | .deferredTransfer | .redeemDeferredTransfer =>
      view.transfer = some (addTransfer arnm tx).2
  | .registerAddress => view.registerAddress = some (addRegisterAddress arnm tx).2
  | .communityRoot => view.communityRoot = some (addCommunityRoot arnm tx).2
  | .timeoutDeferredTransfer => True
  | .none | .communityFriendsUpdate | .unknown _ => False

/-- The view has what has been written. -/
structure Holds (arnm : JsonArnm) (tx : Runtime.CompleteTransaction) (view : RootView) : Prop where
  confirmedAt : view.confirmedAt = some (addTimestamp Key.confirmedAt tx.confirmedAt).2
  createdAt : view.createdAt = some (addTimestamp Key.createdAt tx.createdAt).2
  ledgerAnchor : view.ledgerAnchor =
    some (addLedgerAnchor Key.ledgerAnchor (some tx.ledgerAnchor)).2
  detail : HoldsDetail arnm tx view
  accountBalances : view.accountBalances =
    some (.array (tx.accountBalances.map (accountBalanceJson arnm)))
  encryptedMemos : view.encryptedMemos =
    some (.array (tx.encryptedMemos.map (encryptedMemoJson arnm)))
  signaturePairs : view.signaturePairs =
    some (.array (tx.signaturePairs.map (signaturePairJson arnm)))
  crossGroupType : view.crossGroupType = tx.crossGroupType.toString
  txPairingCommunityUuid : view.txPairingCommunityUuid = tx.txPairingCommunityUuid
  pairingLedgerAnchor : view.pairingLedgerAnchor =
    some (addLedgerAnchor Key.pairingLedgerAnchor tx.pairingLedgerAnchor).2
  bodyBytes : view.bodyBytes = arnm.base64 tx.bodyBytes

/-- The record has what the walk of the root converts, and is else as it was. -/
structure Rooted (tx before record : Runtime.CompleteTransaction) : Prop where
  context : SameContext tx record
  rest : ∃ targetDate timeoutDuration previousTx addressType derivationIndex, record = { before with
    txNr := tx.txNr
    txCommunityUuid := tx.txCommunityUuid
    targetDate := targetDate
    timeoutDuration := timeoutDuration
    previousTx := previousTx
    addressType := addressType
    derivationIndex := derivationIndex
    txRunningHash := tx.txRunningHash }

theorem required_seen {seen : Seen} (hslots : ∀ slot ∈ rootSlots arnm tx, seen slot.1 = slot.2) :
    ((rootTable tx.transactionType).all fun entry => !entry.required || (seen entry.field).isSome) =
      true := by
  simp only [rootSlots, List.forall_mem_append, headSlots, tailSlots, List.forall_mem_cons]
    at hslots
  obtain ⟨⟨hhead, hdetail⟩, htail⟩ := hslots
  rw [detailSlots] at hdetail
  rw [rootTable]
  simp only [List.all_append, headTable, tailTable, List.all_cons, List.all_nil, hhead, htail]
  cases htype : tx.transactionType <;> rw [htype] at hdetail <;>
    simp only [List.forall_mem_cons] at hdetail <;> simp [detailTable, contextTable, hdetail]

theorem viewOf_holds {seen : Seen} (hslots : ∀ slot ∈ rootSlots arnm tx, seen slot.1 = slot.2)
    (hwritten : addCompleteTransaction arnm tx = .ok document) : Holds arnm tx (viewOf seen) := by
  obtain ⟨detail, hmapped, -⟩ := addCompleteTransaction_ok hwritten
  simp only [rootSlots, List.forall_mem_append, headSlots, tailSlots, List.forall_mem_cons]
    at hslots
  obtain ⟨⟨hhead, hdetail⟩, htail⟩ := hslots
  constructor
  case detail =>
    rw [addTransactionDetail] at hmapped
    rw [detailSlots] at hdetail
    rw [HoldsDetail]
    cases htype : tx.transactionType <;> rw [htype] at hdetail hmapped <;>
      simp only [List.forall_mem_cons] at hdetail
    all_goals first | exact hdetail.1 | trivial
  all_goals simp only [viewOf, hhead, htail, Option.getD]

/-- What the walk converts is what has been written. -/
theorem convertedInto_rooted {seen : Seen}
    (hslots : ∀ slot ∈ rootSlots arnm tx, seen slot.1 = slot.2)
    (before : Runtime.CompleteTransaction) {addressType : AddressType}
    (haddress : tx.transactionType = .registerAddress → addressType = tx.addressType) :
    Rooted tx before { convertedInto seen before with addressType } := by
  simp only [rootSlots, List.forall_mem_append, headSlots, tailSlots, List.forall_mem_cons]
    at hslots
  obtain ⟨⟨hhead, hdetail⟩, htail⟩ := hslots
  constructor
  case rest =>
    have hconverted : convertedInto seen before = { before with
        txNr := tx.txNr
        txCommunityUuid := tx.txCommunityUuid
        targetDate := (convertedInto seen before).targetDate
        timeoutDuration := (convertedInto seen before).timeoutDuration
        previousTx := (convertedInto seen before).previousTx
        derivationIndex := (convertedInto seen before).derivationIndex
        txRunningHash := tx.txRunningHash } := by
      simp only [convertedInto, hhead, htail, Option.getD]
    exact ⟨_, _, _, addressType, _, congrArg (fun record => { record with addressType }) hconverted⟩
  case context =>
    rw [detailSlots] at hdetail
    rw [SameContext]
    cases htype : tx.transactionType <;> rw [htype] at hdetail <;>
      simp only [List.forall_mem_cons] at hdetail
    case registerAddress => exact ⟨haddress htype,
      by simp only [convertedInto, hdetail, Option.getD]⟩
    all_goals first | trivial | simp only [convertedInto, hdetail, Option.getD]

theorem addressType_seen {seen : Seen} (hslots : ∀ slot ∈ rootSlots arnm tx, seen slot.1 = slot.2)
    (htype : tx.transactionType = .registerAddress) :
    seen (.string Key.addressType) = some tx.addressType.toString := by
  apply hslots ⟨.string Key.addressType, some tx.addressType.toString⟩
  rw [rootSlots, detailSlots, htype]
  simp

/-- What is refused of a root is an address type that has no name. -/
theorem readRoot_unnamed (hlawful : arnm.Lawful)
    (hwritten : addCompleteTransaction arnm tx = .ok document)
    (htype : tx.transactionType = .registerAddress) (hnamed : ¬tx.addressType.Named)
    (before : Runtime.CompleteTransaction) :
    readRoot arnm document tx.transactionType before = .error .enumUnknown := by
  obtain ⟨seen, hseen, hslots⟩ := walkRoot_written hlawful hwritten
  rw [readRoot, hseen]
  simp only [bind, Except.bind, required_seen hslots, if_true, if_pos htype,
    addressType_seen hslots htype, Option.getD, AddressType.fromString_toString, if_neg hnamed]

theorem readRoot_written (hlawful : arnm.Lawful)
    (hwritten : addCompleteTransaction arnm tx = .ok document)
    (hnamed : tx.transactionType = .registerAddress → tx.addressType.Named)
    (before : Runtime.CompleteTransaction) :
    ∃ view record, readRoot arnm document tx.transactionType before = .ok (view, record) ∧
      Holds arnm tx view ∧ Rooted tx before record := by
  obtain ⟨seen, hseen, hslots⟩ := walkRoot_written hlawful hwritten
  rw [readRoot, hseen]
  simp only [bind, Except.bind, required_seen hslots, if_true]
  by_cases htype : tx.transactionType = .registerAddress
  · simp only [if_pos htype, addressType_seen hslots htype, Option.getD,
      AddressType.fromString_toString, if_pos (hnamed htype), if_neg (hnamed htype).ne_none]
    exact ⟨_, _, rfl, viewOf_holds hslots hwritten, convertedInto_rooted hslots before fun _ => rfl⟩
  · have hother : tx.transactionType = .registerAddress → before.addressType = tx.addressType :=
      fun h => absurd h htype
    rw [if_neg htype]
    exact ⟨_, _, rfl, viewOf_holds hslots hwritten, convertedInto_rooted hslots before hother⟩

/-- The type has a layout, and a name that is read back. -/
theorem transactionType_written (hwritten : addCompleteTransaction arnm tx = .ok document) :
    TransactionType.fromString tx.transactionType.toString = tx.transactionType ∧
      tx.transactionType.toString ≠ "" ∧ tx.transactionType ≠ .none := by
  obtain ⟨detail, hdetail, -⟩ := addCompleteTransaction_ok hwritten
  rw [addTransactionDetail] at hdetail
  cases htype : tx.transactionType <;> rw [htype] at hdetail
  case none | communityFriendsUpdate | unknown => cases hdetail
  all_goals exact ⟨rfl, by decide, nofun⟩

/-- The names of enumerators without which no document is read. -/
structure NamesKept (tx : Runtime.CompleteTransaction) : Prop where
  crossGroupType : tx.crossGroupType.Named
  addressType : tx.transactionType = .registerAddress → tx.addressType.Named

/-- The root is read as one of the type. -/
theorem readType_eq (hlawful : arnm.Lawful)
    (hwritten : addCompleteTransaction arnm tx = .ok document) (start : Filling) (room : Room) :
    readType arnm document start room =
      readRootInto arnm document tx.transactionType
        (start.withTx fun before => { before with transactionType := tx.transactionType })
        room := by
  obtain ⟨seen, hseen, hname⟩ := walkType_written hlawful hwritten
  obtain ⟨hback, hsome, hnone⟩ := transactionType_written hwritten
  rw [readType, hseen, answer_bind_ok]
  simp only [hname, Option.getD, if_neg hsome, hback, putTx_bind, if_neg hnone]

theorem readType_written (hlawful : arnm.Lawful)
    (hwritten : addCompleteTransaction arnm tx = .ok document) (hnames : NamesKept tx)
    (start : Filling) (room : Room) :
    ∃ view record, readType arnm document start room =
        (.ok view, start.withTx fun _ => { record with crossGroupType := tx.crossGroupType },
          room) ∧ Holds arnm tx view ∧
      Rooted tx { start.tx with transactionType := tx.transactionType } record := by
  obtain ⟨view, record, hroot, hholds, hrooted⟩ :=
    readRoot_written hlawful hwritten hnames.addressType
      (start.withTx fun before => { before with transactionType := tx.transactionType }).tx
  refine ⟨view, record, ?_, hholds, hrooted⟩
  rw [readType_eq hlawful hwritten, readRootInto, bind_run_ok (gets_run _ _ _), hroot,
    answer_bind_ok]
  simp only [putTx_bind, hholds.crossGroupType, CrossGroup.fromString_toString,
    if_pos hnames.crossGroupType, if_neg hnames.crossGroupType.ne_none]
  rfl

/-- Without these names the root is as far as a document is read. -/
theorem readType_unnamed (hlawful : arnm.Lawful)
    (hwritten : addCompleteTransaction arnm tx = .ok document) (hnames : ¬NamesKept tx)
    (start : Filling) (room : Room) :
    ∃ left, readType arnm document start room = (.error .enumUnknown, left, room) := by
  rw [readType_eq hlawful hwritten, readRootInto, bind_run_ok (gets_run _ _ _)]
  by_cases haddress : tx.transactionType = .registerAddress → tx.addressType.Named
  · obtain ⟨view, record, hroot, hholds, -⟩ := readRoot_written hlawful hwritten haddress
      (start.withTx fun before => { before with transactionType := tx.transactionType }).tx
    have hgroup : ¬tx.crossGroupType.Named := fun hnamed => hnames ⟨hnamed, haddress⟩
    rw [hroot, answer_bind_ok]
    simp only [putTx_bind, hholds.crossGroupType, CrossGroup.fromString_toString, if_neg hgroup,
      if_true]
    exact ⟨_, rfl⟩
  · obtain ⟨htype, hnamed⟩ := Classical.not_imp.1 haddress
    rw [readRoot_unnamed hlawful hwritten htype hnamed]
    exact ⟨_, rfl⟩

end Mapping

end GradidoBlockchain
