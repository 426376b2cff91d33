import GradidoBlockchain.Json.Reference
import GradidoBlockchain.Json.Required
import GradidoBlockchain.Json.Writer
import GradidoBlockchain.Lib.Alongside

/-!
# What a document may leave out

A member that may be missing may be `null` as well: both are read alike, to the same end and
into the same record. The two documents need blocks of different sizes for long lists, and that
is all they differ in.
-/

namespace GradidoBlockchain

open Fallible Fallible.Call

namespace Mapping

variable {arnm : JsonArnm}

/-! ### The root -/

/-- The members that a document may leave out. -/
def optionalMembers : List String :=
  [Key.accountBalances, Key.encryptedMemos, Key.signaturePairs, Key.txPairingCommunityUuid,
    Key.pairingLedgerAnchor]

/-- A view as far as the reading after it looks: a list that is none is empty, an anchor that
is `null` is none. -/
def RootView.plain (view : RootView) : RootView :=
  { view with
    accountBalances := some (.array (Json.items view.accountBalances))
    encryptedMemos := some (.array (Json.items view.encryptedMemos))
    signaturePairs := some (.array (Json.items view.signaturePairs))
    pairingLedgerAnchor := view.presentAnchor }

theorem presentAnchor_plain (view : RootView) : view.plain.presentAnchor = view.presentAnchor := by
  rw [RootView.presentAnchor, RootView.plain, RootView.presentAnchor, Option.filter_filter]
  simp only [Bool.and_self]

/-- No required member is one of them. -/
theorem required_ne_optional {key : String} (hkey : key ∈ optionalMembers)
    (type : TransactionType) :
    ∀ entry ∈ rootTable type, entry.required = true → entry.field ≠ .value key := by
  have hall : ∀ key ∈ optionalMembers,
      ∀ entry ∈ rootTable type, entry.required = true → entry.field ≠ .value key := by
    cases type with
    | unknown past =>
        change ∀ key ∈ optionalMembers,
          ∀ entry ∈ headTable ++ tailTable, entry.required = true → entry.field ≠ .value key
        decide
    | _ => decide
  exact hall key hkey

theorem fileNull_of_type {field : Field} (htype : field.type ≠ .value) (key : String)
    (seen : Seen) : seen.fileNull key field = seen field :=
  Function.update_of_ne (fun heq => htype (congrArg Field.type heq)) _ _

/-- A handle of `null` for an optional member counts for nothing. -/
theorem viewOf_fileNull {key : String} (hkey : key ∈ optionalMembers) {seen : Seen}
    (hnone : seen (.value key) = none) :
    (viewOf (seen.fileNull key)).plain = (viewOf seen).plain := by
  have hother : ∀ field, field ≠ .value key → seen.fileNull key field = seen field :=
    fun field hne => Function.update_of_ne hne _ _
  have hself : seen.fileNull key (.value key) = some .null := Function.update_self ..
  have hitems : Json.items (some .null) = Json.items none := rfl
  have hfilter : (some Json.null).filter (fun anchor => !anchor.isNull) = none := rfl
  simp only [optionalMembers, List.mem_cons, List.not_mem_nil, or_false] at hkey
  rcases hkey with rfl | rfl | rfl | rfl | rfl
  all_goals simp (disch := decide) only [viewOf, RootView.plain, RootView.presentAnchor, hother,
    hself, hnone, hitems, hfilter, Option.filter_none]

theorem convertedInto_fileNull (key : String) (seen : Seen) (tx : Runtime.CompleteTransaction) :
    convertedInto (seen.fileNull key) tx = convertedInto seen tx := by
  simp (disch := decide) only [convertedInto, fileNull_of_type]

theorem all_fileNull {key : String} (hkey : key ∈ optionalMembers) (seen : Seen)
    (type : TransactionType) :
    ((rootTable type).all fun entry => !entry.required || (seen.fileNull key entry.field).isSome) =
      (rootTable type).all fun entry => !entry.required || (seen entry.field).isSome := by
  rw [Bool.eq_iff_iff, List.all_eq_true, List.all_eq_true]
  refine forall₂_congr fun entry hentry => ?_
  rcases hrequired : entry.required
  · rfl
  · rw [show seen.fileNull key entry.field = seen entry.field from
      Function.update_of_ne (required_ne_optional hkey type entry hentry hrequired) _ _]

section Null

variable {key : String} {members : List (String × Json)}

theorem readRoot_null (hlawful : arnm.Lawful) (hkey : key ∈ optionalMembers)
    (members : List (String × Json)) (type : TransactionType) (tx : Runtime.CompleteTransaction) :
    (readRoot arnm (.object (Json.nullOut key members)) type tx).map (Prod.map RootView.plain id) =
      (readRoot arnm (.object (Json.without key members)) type tx).map
        (Prod.map RootView.plain id) := by
  rw [readRoot, readRoot, hlawful.readObject_null _ _ _ (rootTable_keys type)]
  split
  · rename_i hthere
    rcases hseen :
        arnm.readObject (.object (Json.without key members)) ((rootTable type).map Entry.field)
      with code | seen
    · rfl
    have hnone : seen (.value key) = none := by
      rcases hfiled : seen (.value key) with _ | value
      · rfl
      · have hvalue := mem_under_of_seen hlawful hseen (rootTable_keys type) hthere.1 hfiled
        rw [Json.under_without] at hvalue
        exact absurd hvalue List.not_mem_nil
    have hmap : (Except.ok seen).map (Seen.fileNull key) =
        (.ok (seen.fileNull key) : Except ArnmResult Seen) := rfl
    rw [hmap]
    simp only [bind, Except.bind, all_fileNull hkey, convertedInto_fileNull]
    rw [fileNull_of_type (by decide)]
    split
    · split
      · split
        · rfl
        · exact congrArg (fun view => Except.ok (view, _)) (viewOf_fileNull hkey hnone)
      · exact congrArg (fun view => Except.ok (view, _)) (viewOf_fileNull hkey hnone)
    · rfl
  · rfl

/-- The runs end alike but for what nothing looks at. -/
def SameView (outcome other : Except ArnmResult RootView × Filling × Room) : Prop :=
  outcome.1.map RootView.plain = other.1.map RootView.plain ∧ outcome.2 = other.2

theorem readRootInto_null (hlawful : arnm.Lawful) (hkey : key ∈ optionalMembers)
    (type : TransactionType) (filling : Filling) (room : Room) :
    SameView (readRootInto arnm (.object (Json.nullOut key members)) type filling room)
      (readRootInto arnm (.object (Json.without key members)) type filling room) := by
  have hsame := readRoot_null hlawful hkey members type filling.tx
  rw [readRootInto, readRootInto, bind_run_ok (gets_run _ _ _), bind_run_ok (gets_run _ _ _)]
  rcases hnulled : readRoot arnm (.object (Json.nullOut key members)) type filling.tx
    with code | ⟨view, tx⟩ <;>
    rcases hremoved : readRoot arnm (.object (Json.without key members)) type filling.tx
      with code' | ⟨other, tx'⟩ <;>
    rw [hnulled, hremoved] at hsame
  · cases hsame
    exact ⟨rfl, rfl⟩
  · cases hsame
  · cases hsame
  · obtain ⟨hplain, htx⟩ := Prod.ext_iff.1 (Except.ok.inj hsame)
    obtain rfl : tx = tx' := htx
    change view.plain = other.plain at hplain
    have hgroup := congrArg RootView.crossGroupType hplain
    change view.crossGroupType = other.crossGroupType at hgroup
    rw [answer_bind_ok, answer_bind_ok]
    simp only [putTx_bind, hgroup]
    split
    · exact ⟨rfl, rfl⟩
    · exact ⟨congrArg Except.ok hplain, rfl⟩

theorem readType_null (hlawful : arnm.Lawful) (hkey : key ∈ optionalMembers)
    (members : List (String × Json)) (filling : Filling) (room : Room) :
    SameView (readType arnm (.object (Json.nullOut key members)) filling room)
      (readType arnm (.object (Json.without key members)) filling room) := by
  have hkept :
      ¬(Field.value key ∈ [Field.string Key.transactionType] ∧ key ∈ members.map Prod.fst) := by
    intro h
    cases List.mem_singleton.1 h.1
  rw [readType, readType, hlawful.readObject_null _ _ _ (by decide), if_neg hkept]
  rcases arnm.readObject (.object (Json.without key members)) [.string Key.transactionType]
    with code | seen
  · exact ⟨rfl, rfl⟩
  rw [answer_bind_ok, answer_bind_ok]
  by_cases hname : (seen (.string Key.transactionType)).getD "" = ""
  · simp only [if_pos hname]
    exact ⟨rfl, rfl⟩
  simp only [if_neg hname, putTx_bind]
  split
  · exact ⟨rfl, rfl⟩
  · exact readRootInto_null hlawful hkey _ _ room

end Null

/-! ### The lists -/

/-- The lists have the same elements, and as many blocks have been handed out. -/
def SameList (state twin : ElementList × Scratch) : Prop :=
  state.1.values = twin.1.values ∧ state.2.handedOut = twin.2.handedOut

/-- Two readings that nothing tells apart but the blocks they hold. -/
structure SameReading (reading twin : Reading) : Prop where
  record : reading.record = twin.record
  handedOut : reading.scratch.handedOut = twin.scratch.handedOut
  balances : reading.balances.values = twin.balances.values
  memos : reading.memos.values = twin.memos.values
  signatures : reading.signatures.values = twin.signatures.values

section Lists

variable {array other : Option Json} {bound bound' : ℕ}

/-- The block for the handles of so many elements can be asked for. -/
def Narrow (arnm : JsonArnm) (bound : ℕ) : Prop := bound ≤ arnm.maxAllocSize / sizeofHandle

theorem readElements_alongside (hlawful : arnm.Lawful) (hsame : Json.items array = Json.items other)
    (hbound : (Json.items array).length ≤ bound) (hbound' : (Json.items other).length ≤ bound')
    (hnarrow : Narrow arnm bound) (hnarrow' : Narrow arnm bound') :
    Alongside SameList (readElements arnm array bound) (readElements arnm other bound') := by
  intro state twin room hrel
  rw [readElements_run hlawful hbound, readElements_run hlawful hbound', hsame,
    if_neg (Nat.not_lt.2 hnarrow), if_neg (Nat.not_lt.2 hnarrow')]
  have hboth : Alongside SameList
      (if (Json.items other).length ≤ elementsInline then
          write fun state => (⟨Json.items array, none⟩, state.2)
        else grow .outOfMemory (widen array (bound * sizeofHandle)) :
          Call ArnmResult (ElementList × Scratch) Unit)
      (if (Json.items other).length ≤ elementsInline then
          write fun state => (⟨Json.items other, none⟩, state.2)
        else grow .outOfMemory (widen other (bound' * sizeofHandle))) :=
    .ite (.write fun _ _ hrel => ⟨hsame, hrel.2⟩)
      (.grow fun _ _ hrel => ⟨hsame, congrArg (· + 1) hrel.2⟩)
  rw [hsame] at hboth
  exact hboth room ⟨rfl, hrel.2⟩

theorem refuseEmpty_alongside {σ τ : Type} {rel : σ → τ → Prop} (size : ℕ) :
    Alongside rel (refuseEmpty arnm size : Call ArnmResult σ Unit)
      (refuseEmpty arnm size : Call ArnmResult τ Unit) := by
  rw [refuseEmpty, refuseEmpty]
  split
  · exact .ite (.fail _) (.pure _)
  · exact .pure _

theorem takeMemoBlock_alongside (count : ℕ) :
    Alongside SameReading (takeMemoBlock arnm count) (takeMemoBlock arnm count) := by
  have htake : Alongside (fun scratch twin : Scratch => scratch.handedOut = twin.handedOut)
      (takeBlock arnm (count * sizeofEncryptedMemo % 2 ^ 32))
      (takeBlock arnm (count * sizeofEncryptedMemo % 2 ^ 32)) :=
    .bind (refuseEmpty_alongside _) fun _ =>
      .growWith (fun _ _ hrel => congrArg (Block.mk · _) hrel) fun _ _ hrel => congrArg (· + 1) hrel
  refine .bind (.within htake (fun _ _ hrel => hrel.handedOut) fun _ _ _ _ hrel hleft => ?_)
    fun _ => .write fun _ _ hrel => ?_
  · exact ⟨hrel.record, hleft, hrel.balances, hrel.memos, hrel.signatures⟩
  · exact ⟨hrel.record, hrel.handedOut, hrel.balances, hrel.memos, hrel.signatures⟩

theorem readMemoList_alongside (hlawful : arnm.Lawful) (hsame : Json.items array = Json.items other)
    (hbound : (Json.items array).length ≤ bound) (hbound' : (Json.items other).length ≤ bound')
    (hnarrow : Narrow arnm bound) (hnarrow' : Narrow arnm bound') :
    Alongside SameReading (readMemoList arnm array bound) (readMemoList arnm other bound') := by
  refine .bind
    (.attempt (.within (readElements_alongside hlawful hsame hbound hbound' hnarrow hnarrow')
      (fun _ _ hrel => ⟨hrel.memos, hrel.handedOut⟩) fun _ _ _ _ hrel hleft => ?_)) fun _ =>
    .bind (.gets fun _ _ hrel => hrel.memos) fun _ =>
      .ite (takeMemoBlock_alongside _) (.check fun _ _ _ => rfl)
  exact ⟨hrel.record, hleft.2, hrel.balances, hleft.1, hrel.signatures⟩

/-- What is filled in does not depend on what the plain view leaves out. -/
theorem readCompleteTransaction_plain (view : RootView) (balances memos signatures : List Json) :
    readCompleteTransaction arnm view.plain balances memos signatures =
      readCompleteTransaction arnm view balances memos signatures := by
  have hsize : calculateJsonSize arnm view.plain balances memos signatures =
      calculateJsonSize arnm view balances memos signatures := by
    simp only [calculateJsonSize, jsonTotal, presentAnchor_plain]
    rfl
  have harrays : ∀ texts, readArrays arnm view.plain balances texts signatures =
      readArrays arnm view balances texts signatures := by
    intro texts
    simp only [readArrays, presentAnchor_plain]
    rfl
  rw [readCompleteTransaction, readCompleteTransaction, hsize]
  simp only [harrays]
  rfl

theorem readLists_alongside (hlawful : arnm.Lawful) {view twin : RootView}
    (hplain : view.plain = twin.plain) (hbounded : view.Bounded bound)
    (hbounded' : twin.Bounded bound') (hnarrow : Narrow arnm bound)
    (hnarrow' : Narrow arnm bound') :
    Alongside SameReading (readLists arnm view bound) (readLists arnm twin bound') := by
  have hbalances : Json.items view.accountBalances = Json.items twin.accountBalances :=
    congrArg (Json.items ·.accountBalances) hplain
  have hmemos : Json.items view.encryptedMemos = Json.items twin.encryptedMemos :=
    congrArg (Json.items ·.encryptedMemos) hplain
  have hsignatures : Json.items view.signaturePairs = Json.items twin.signaturePairs :=
    congrArg (Json.items ·.signaturePairs) hplain
  refine .bind
    (.within (readElements_alongside hlawful hbalances hbounded.balances hbounded'.balances hnarrow
      hnarrow') (fun _ _ hrel => ⟨hrel.balances, hrel.handedOut⟩) fun _ _ _ _ hrel hleft => ?_)
    fun _ => ?_
  · exact ⟨hrel.record, hleft.2, hleft.1, hrel.memos, hrel.signatures⟩
  refine .bind
    (readMemoList_alongside hlawful hmemos hbounded.memos hbounded'.memos hnarrow hnarrow') fun _ =>
    ?_
  refine .bind
    (.within (readElements_alongside hlawful hsignatures hbounded.signatures hbounded'.signatures
      hnarrow hnarrow') (fun _ _ hrel => ⟨hrel.signatures, hrel.handedOut⟩)
      fun _ _ _ _ hrel hleft => ?_) fun _ => ?_
  · exact ⟨hrel.record, hleft.2, hrel.balances, hrel.memos, hleft.1⟩
  refine .bind (.gets fun _ _ hrel => hrel.balances) fun balances =>
    .bind (.gets fun _ _ hrel => hrel.memos) fun memos =>
      .bind (.gets fun _ _ hrel => hrel.signatures) fun signatures => ?_
  rw [← readCompleteTransaction_plain view, ← readCompleteTransaction_plain twin, hplain]
  exact .within (.refl _) (fun _ _ hrel => hrel.record) fun _ _ _ _ hrel hleft =>
    ⟨hleft, hrel.handedOut, hrel.balances, hrel.memos, hrel.signatures⟩

end Lists

/-! ### The whole reading -/

theorem free_handedOut (block : Option Block) (size : ℕ) (scratch : Scratch) :
    (scratch.free block size).handedOut = scratch.handedOut := by
  cases block with
  | none => rfl
  | some block =>
      change (if block ∈ scratch.live ∧ block.size = size then _ else _ : Scratch).handedOut = _
      split <;> rfl

theorem releaseElements_handedOut (state : ElementList × Scratch) :
    (releaseElements state).2.handedOut = state.2.handedOut := by
  rw [releaseElements]
  cases state.1.widened with
  | none => rfl
  | some block => exact free_handedOut _ _ _

theorem releaseLists_handedOut (reading : Reading) :
    (releaseLists reading).scratch.handedOut = reading.scratch.handedOut := by
  rw [releaseLists]
  simp only [releaseElements_handedOut]
  split
  · rw [free_handedOut, releaseElements_handedOut]
  · rw [releaseElements_handedOut]

theorem releaseLists_same {reading twin : Reading} (hsame : SameReading reading twin) :
    SameReading (releaseLists reading) (releaseLists twin) := by
  refine ⟨hsame.record, ?_, rfl, rfl, rfl⟩
  rw [releaseLists_handedOut, releaseLists_handedOut, hsame.handedOut]

section Null

variable {key : String} {members : List (String × Json)} {bound bound' : ℕ}

theorem readDocument_null (hlawful : arnm.Lawful) (hkey : key ∈ optionalMembers)
    (hnarrow : Narrow arnm (Json.object (Json.nullOut key members)).nodes)
    (hnarrow' : Narrow arnm (Json.object (Json.without key members)).nodes) :
    Alongside SameReading
      (readDocument arnm (.object (Json.nullOut key members))
        (Json.object (Json.nullOut key members)).nodes)
      (readDocument arnm (.object (Json.without key members))
        (Json.object (Json.without key members)).nodes) := by
  intro reading twin room hrel
  obtain ⟨houtcome, hleft⟩ := readType_null hlawful hkey members reading.record room
  obtain ⟨filling, hnulled⟩ :=
    readType_run arnm (.object (Json.nullOut key members)) reading.record room
  obtain ⟨filling', hremoved⟩ :=
    readType_run arnm (.object (Json.without key members)) reading.record room
  rw [hnulled, hremoved] at houtcome hleft
  obtain rfl : filling = filling' := congrArg Prod.fst hleft
  rw [hrel.record] at hremoved
  have hfirst : onRecord (readType arnm (.object (Json.nullOut key members))) reading room =
      (viewOfDocument arnm (.object (Json.nullOut key members)), reading.putRecord filling, room) :=
    within_run_eq hnulled
  have hsecond : onRecord (readType arnm (.object (Json.without key members))) twin room =
      (viewOfDocument arnm (.object (Json.without key members)), twin.putRecord filling, room) :=
    within_run_eq hremoved
  have hrecord : ∀ reading twin : Reading, SameReading reading twin →
      SameReading (reading.putRecord filling) (twin.putRecord filling) :=
    fun _ _ hrel => ⟨rfl, hrel.handedOut, hrel.balances, hrel.memos, hrel.signatures⟩
  rcases hview : viewOfDocument arnm (.object (Json.nullOut key members)) with code | view <;>
    rcases hother : viewOfDocument arnm (.object (Json.without key members)) with code' | other <;>
    rw [hview] at hfirst houtcome <;> rw [hother] at hsecond houtcome
  · obtain rfl := Except.error.inj houtcome
    rw [readDocument, readDocument, bind_run_error hfirst, bind_run_error hsecond]
    exact ⟨rfl, rfl, hrecord _ _ hrel⟩
  · cases houtcome
  · cases houtcome
  · have hlists :=
      readLists_alongside hlawful (Except.ok.inj houtcome) (viewOfDocument_bounded hlawful hview)
        (viewOfDocument_bounded hlawful hother) hnarrow hnarrow'
    rw [readDocument, readDocument, bind_run_ok hfirst, bind_run_ok hsecond]
    exact (Alongside.bind (.write fun _ _ hrel => ⟨hrel.record, hrel.handedOut, rfl, rfl, rfl⟩)
      fun _ => .andRelease hlists fun _ _ => releaseLists_same) room (hrecord _ _ hrel)

/-- The calls end alike and leave the same record. -/
structure EndAlike (run other : Except ArnmResult Unit × Reading × Room) : Prop where
  outcome : run.1 = other.1
  record : run.2.1.record = other.2.1.record
  room : run.2.2 = other.2.2

theorem parses_narrow (hlawful : arnm.Lawful) {text : Text} {root : Json}
    (hparses : Parses arnm text root) : Narrow arnm root.nodes := by
  have hnodes := hlawful.parse_nodes text root hparses.2
  rw [Narrow, sizeofHandle]
  omega

/-- An optional member that is `null` is read as one that is not there. -/
theorem completeTransactionFromJson_null (hlawful : arnm.Lawful) (hkey : key ∈ optionalMembers)
    {nulled removed : Text} (hnulled : Parses arnm nulled (.object (Json.nullOut key members)))
    (hremoved : Parses arnm removed (.object (Json.without key members))) (start : Reading)
    (room : Room) :
    EndAlike (completeTransactionFromJson arnm nulled start room)
      (completeTransactionFromJson arnm removed start room) := by
  have hdocument :=
    readDocument_null hlawful hkey (parses_narrow hlawful hnulled) (parses_narrow hlawful hremoved)
  have hrelease : ∀ reading twin : Reading, SameReading reading twin →
      SameReading reading.release twin.release :=
    fun _ _ hrel => ⟨congrArg Filling.release hrel.record, hrel.handedOut, hrel.balances,
      hrel.memos, hrel.signatures⟩
  rw [completeTransactionFromJson_eq hnulled, completeTransactionFromJson_eq hremoved]
  obtain ⟨houtcome, hroom, hleft⟩ :=
    Alongside.bind (.forM fun _ => .ask _)
      (fun _ => .bind (.write hrelease) fun _ => .orUndo hdocument hrelease) room
      (SameReading.mk rfl rfl rfl rfl rfl : SameReading start start)
  exact ⟨houtcome, hleft.record, hroom⟩

end Null

/-! ### Optional and required -/

/-- What a document may leave out may be `null`, and nothing changes; what it has to have
may be neither, wherever it is: the document is refused, and the record it was to be read
into is left empty. -/
structure OptionalAndRequired (arnm : JsonArnm) : Prop where
  optional : ∀ key ∈ optionalMembers, ∀ members nulled removed, Parses arnm nulled
      (.object (Json.nullOut key members)) →
    Parses arnm removed (.object (Json.without key members)) →
    ∀ start room, EndAlike (completeTransactionFromJson arnm nulled (.fresh start) room)
      (completeTransactionFromJson arnm removed (.fresh start) room)
  required : ∀ text root type, Parses arnm text root → Names type root → Hole type root →
    ∀ start room, ∃ code left rest, completeTransactionFromJson arnm text (.fresh start) room =
        (.error code, left, rest) ∧ (granted 2 room ≠ none → Emptied start left.record.owned)

/-- Every document is read so. -/
theorem optionalAndRequired (hlawful : arnm.Lawful) : OptionalAndRequired arnm where
  optional := by
    intro key hkey members nulled removed hnulled hremoved start room
    exact completeTransactionFromJson_null hlawful hkey hnulled hremoved (.fresh start) room
  required := by
    intro text root type hparses hnames hhole start room
    obtain ⟨code, left, rest, hrun⟩ := hhole.error hlawful hnames hparses (.fresh start) room
    exact ⟨code, left, rest, hrun,
      fun hgranted => completeTransactionFromJson_emptied hparses hgranted hrun⟩

/-- A transfer with one byte of a body. -/
def oneByte : Runtime.CompleteTransaction :=
  { Runtime.CompleteTransaction.init with
    transactionType := .transfer
    bodyBytes := [1] }

/-- The members of its document. -/
def oneByteMembers : List (String × Json) :=
  headMembers (.reference []) oneByte ++ [addTransfer (.reference []) oneByte] ++
    tailMembers (.reference []) oneByte

/-- The document without its memos, with `null` in their place, and without its number. -/
def oneByteDocuments : List Json :=
  [.object (Json.without Key.encryptedMemos oneByteMembers),
    .object (Json.nullOut Key.encryptedMemos oneByteMembers),
    .object (Json.without Key.txNr oneByteMembers)]

theorem oneByte_parses : ∀ document ∈ oneByteDocuments,
    Parses (.reference oneByteDocuments) (Reference.documentText document) document := by
  decide +kernel

theorem oneByte_hole : Hole .transfer (.object (Json.without Key.txNr oneByteMembers)) := by
  refine .member (show Key.txNr ∈ requiredMembers .transfer by decide) fun value hvalue => ?_
  rw [Json.under_without] at hvalue
  exact absurd hvalue List.not_mem_nil

theorem oneByte_names : Names .transfer (.object (Json.without Key.txNr oneByteMembers)) := by
  intro name hname
  rw [show (Json.object (Json.without Key.txNr oneByteMembers)).under Key.transactionType =
      [.string "GRDT_TRANSACTION_TRANSFER"] from rfl, List.mem_singleton] at hname
  rw [Json.string.inj hname]
  rfl

theorem optionalAndRequired_oneByte :
    EndAlike (completeTransactionFromJson (.reference oneByteDocuments)
        (Reference.documentText (.object (Json.nullOut Key.encryptedMemos oneByteMembers)))
        (.fresh (.init, .empty)) [])
        (completeTransactionFromJson (.reference oneByteDocuments)
          (Reference.documentText (.object (Json.without Key.encryptedMemos oneByteMembers)))
          (.fresh (.init, .empty)) []) ∧
      ∃ code left rest, completeTransactionFromJson (.reference oneByteDocuments)
            (Reference.documentText (.object (Json.without Key.txNr oneByteMembers)))
            (.fresh (.init, .empty)) [] = (.error code, left, rest) ∧
        (granted 2 [] ≠ none → Emptied (.init, .empty) left.record.owned) := by
  have hlawful := JsonArnm.reference_lawful oneByteDocuments
  refine ⟨(optionalAndRequired hlawful).optional Key.encryptedMemos (by decide) oneByteMembers _ _
      (oneByte_parses _ ?_) (oneByte_parses _ ?_) _ _,
    (optionalAndRequired hlawful).required _ _ .transfer (oneByte_parses _ ?_) oneByte_names
      oneByte_hole _ _⟩
  · exact List.mem_cons_of_mem _ List.mem_cons_self
  · exact List.mem_cons_self
  · exact List.mem_cons_of_mem _ (List.mem_cons_of_mem _ List.mem_cons_self)

end Mapping

end GradidoBlockchain
