import GradidoBlockchain.Runtime.Carried
import GradidoBlockchain.Store.Coherence
import GradidoBlockchain.Store.Content
import GradidoBlockchain.Wire.Sent

/-!
# Two stores of the same transactions

A store in memory keeps records, an adapter keeps the rows of a host and decodes them when it is
asked. Brought the same transactions in the same order, they answer alike: with the record of what
was sent, under the numbers that were sent and no others.
-/

namespace GradidoBlockchain

open Fallible Fallible.Call

/-! ### Bytes that make a record -/

namespace Mapping

variable {codec : Codec} {recordHost : RecordHost} {opener : Runtime.Opener} {communityUuid : Uuid}
  {bytes : List UInt8} {confirmed : Wire.ConfirmedTransaction} {body : Wire.TransactionBody}

/-- With enough memory the bytes are decoded to a record of these values. -/
structure Recordable (codec : Codec) (recordHost : RecordHost) (bytes : List UInt8)
    (confirmed : Wire.ConfirmedTransaction) (body : Wire.TransactionBody) : Prop where
  reads : Gives (decodeBoth codec recordHost.toHost bytes) (confirmed, body)
  size : calculateMemorySize confirmed body ≤ recordHost.maxAllocSize
  fillable : Fillable recordHost body confirmed

theorem recordable_of_ok {owned left : Runtime.Owned} {room rest : Room}
    (hrun : initFromProtobuf codec recordHost opener bytes communityUuid owned room =
      (.ok (), left, rest)) :
    ∃ confirmed body, Recordable codec recordHost bytes confirmed body := by
  rcases initFromProtobuf_cases hrun
    with ⟨hfails, -⟩ | ⟨confirmed, body, _, after, inner, hboth, hsize, -, hfill, houtcome⟩
  · exact absurd rfl hfails
  · cases inner with
    | error code => cases houtcome
    | ok _ => exact ⟨confirmed, body, decodeBoth_gives hboth, hsize, (fillRecord_ok_iff.1 hfill).1⟩

theorem Recordable.decoded (hrecordable : Recordable codec recordHost bytes confirmed body) :
    Mapping.decoded codec recordHost.toHost bytes = some (confirmed, body) := by
  rw [Mapping.decoded, hrecordable.reads]
  rfl

theorem Recordable.ne_nil
    (hrecordable : Recordable codec recordHost bytes confirmed body) : bytes ≠ [] := by
  intro hempty
  have hreads := hrecordable.reads
  rw [hempty] at hreads
  cases hreads

theorem Recordable.run (hrecordable : Recordable codec recordHost bytes confirmed body)
    (owned : Runtime.Owned) :
    initFromProtobuf codec recordHost opener bytes communityUuid owned [] =
      (.ok (),
        (recordOf confirmed body communityUuid ((Runtime.release owned).2.next opener),
          (Runtime.release owned).2.openNext opener), []) := by
  have hbeside : beside (decodeBoth codec recordHost.toHost bytes) owned [] =
      (.ok (confirmed, body), owned, []) := within_run_eq hrecordable.reads
  rw [initFromProtobuf, bind_run_ok hbeside]
  change mapError Failure.refused
      (completeTransactionFromWire recordHost opener body confirmed communityUuid)
      (Runtime.release owned) [] = _
  apply mapError_ok.2
  exact completeTransactionFromWire_granted hrecordable.fillable hrecordable.size opener
    (Runtime.release owned)

theorem recordOf_txNr (confirmed : Wire.ConfirmedTransaction) (body : Wire.TransactionBody)
    (communityUuid : Uuid) (area : Runtime.Arena) :
    (recordOf confirmed body communityUuid area).txNr = confirmed.id := by
  obtain ⟨_, _, _, _, _, _, _, _, hcopied⟩ :=
    copied_bare body.detail (bareRecord confirmed body communityUuid area)
  rw [recordOf_fields, hcopied]
  rfl

end Mapping

/-! ### A store in memory -/

namespace InMemory

variable {codec : Mapping.Codec} {host : Mapping.RecordHost} {communityUuid : Uuid}
  {store : InMemory} {taken : List Runtime.CompleteTransaction} {tx : Runtime.CompleteTransaction}

/-- A decode that is taken is one of the bytes alone. -/
theorem decodes_of_appendSerialized_ok {serialized : List UInt8} {arenas : Runtime.Arenas}
    {left : InMemory × Runtime.Arenas} {room rest : Room}
    (hrun : appendSerialized codec host serialized (store, arenas) room = (.ok (), left, rest)) :
    ∃ owned before after, Mapping.initFromProtobuf codec host .store serialized store.communityUuid
        (.init, arenas) before = (.ok (), owned, after) := by
  rw [appendSerialized] at hrun
  split at hrun
  · cases hrun
  · obtain ⟨_, _, _, hemplace, hrun⟩ := bind_ok.1 hrun
    obtain ⟨hlt, rfl⟩ := emplace_ok (mapError_ok.1 hemplace)
    obtain ⟨_, _, _, hdecode, -⟩ := bind_ok.1 hrun
    have hkept := orUndo_ok.1 hdecode
    rw [decodeKept, bind_run_ok (gets_run _ _ _), id] at hkept
    obtain ⟨_, _, _, hwithin, -⟩ := bind_ok.1 hkept
    obtain ⟨owned, hinit, -⟩ := within_ok.1 hwithin
    rw [kept_slotted hlt] at hinit
    exact ⟨owned, _, _, hinit⟩

/-- What has been taken is inside the run. -/
theorem Holds.inRun (hholds : Holds communityUuid store taken)
    (htx : tx ∈ taken) : store.InRun tx.txNr := by
  obtain ⟨position, hposition⟩ := List.getElem?_of_mem htx
  have hnr : tx.txNr.toNat = store.firstTxNr.toNat + position :=
    hholds.numbered position tx hposition
  have hlt := (List.getElem?_eq_some_iff.1 hposition).1
  obtain ⟨hpos, hspan⟩ := hholds.span (List.ne_nil_of_mem htx)
  rw [InRun, UInt64.le_iff_toNat_le, UInt64.le_iff_toNat_le]
  refine ⟨fun hzero => ?_, by omega, by omega⟩
  rw [hzero] at hpos
  exact Nat.lt_irrefl 0 hpos

theorem Holds.fetch_mem (hholds : Holds communityUuid store taken) (htx : tx ∈ taken) :
    store.fetch tx.txNr = .ok (some tx) := by
  obtain ⟨other, hfetch, hother, hsame⟩ := hholds.fetch_of_inRun (hholds.inRun htx)
  rw [hfetch, hholds.numbered.unique hother htx (congrArg UInt64.toNat hsame)]

theorem Holds.fetch_absent (hholds : Holds communityUuid store taken) {txNr : UInt64}
    (habsent : ∀ tx ∈ taken, tx.txNr ≠ txNr) :
    store.fetch txNr = .error .arrayIndexOutOfBounds := by
  apply fetch_of_not_inRun
  intro hin
  obtain ⟨tx, -, htx, hnr⟩ := hholds.fetch_of_inRun hin
  exact habsent tx htx hnr

/-- The number that comes next has not been taken. -/
theorem Holds.fresh (hholds : Holds communityUuid store taken) {txNr : UInt64}
    (hnext : store.isNext txNr = true) (htx : tx ∈ taken) : tx.txNr ≠ txNr := by
  intro hsame
  obtain ⟨position, hposition⟩ := List.getElem?_of_mem htx
  have hnr : tx.txNr.toNat = store.firstTxNr.toNat + position :=
    hholds.numbered position tx hposition
  have hlt := (List.getElem?_eq_some_iff.1 hposition).1
  have hafter := hholds.next_nr hnext (List.ne_nil_of_mem htx)
  rw [hsame] at hnr
  omega

end InMemory

/-! ### The adapter -/

namespace ChainFfi

variable {codec : Mapping.Codec} {recordHost : Mapping.RecordHost} {host : FfiHost}
  {ffi left : ChainFfi} {txNr : UInt64} {room rest : Room} {row : List UInt8}
  {confirmed : Wire.ConfirmedTransaction} {body : Wire.TransactionBody}

/-- What is held under a number has a row. -/
theorem Settled.row_of_held (hsettled : Settled codec recordHost host ffi)
    (hheld : ffi.heldTxNr ≠ 0 ∧ ffi.heldTxNr = txNr) :
    ∃ row, ffi.rows txNr = some row ∧ Means codec recordHost ffi.communityUuid row ffi.held := by
  apply hsettled.coherent
  rw [slot, if_neg hheld.1, hheld.2]

theorem Means.recordOf {tx : Runtime.CompleteTransaction} {communityUuid : Uuid}
    (hmeans : Means codec recordHost communityUuid row tx)
    (hrecordable : Mapping.Recordable codec recordHost row confirmed body) :
    ∃ area, tx = Mapping.recordOf confirmed body communityUuid area := by
  obtain ⟨_, _, area, hdecoded, rfl⟩ := hmeans
  rw [hrecordable.decoded] at hdecoded
  cases hdecoded
  exact ⟨area, rfl⟩

theorem decodeHeld_recordable (hrecordable : Mapping.Recordable codec recordHost row confirmed body)
    (ffi : ChainFfi) :
    ∃ area left, decodeHeld codec recordHost row ffi [] = (.ok (), left, []) ∧
      left.held = Mapping.recordOf confirmed body ffi.communityUuid area := by
  rw [decodeHeld, bind_run_ok (gets_run _ _ _)]
  exact ⟨_, _, within_run_eq (hrecordable.run (ffi.held, ffi.arenas)), rfl⟩

/-- With enough memory a row that makes a record is answered with it. -/
theorem Settled.fetch_found (hsettled : Settled codec recordHost host ffi)
    (hrow : ffi.rows txNr = some row)
    (hrecordable : Mapping.Recordable codec recordHost row confirmed body) :
    ∃ area left, fetch codec recordHost host txNr (.found row) ffi [] =
      (.ok (Mapping.recordOf confirmed body ffi.communityUuid area), left, []) := by
  by_cases hheld : ffi.heldTxNr ≠ 0 ∧ ffi.heldTxNr = txNr
  · obtain ⟨other, hother, hmeans⟩ := hsettled.row_of_held hheld
    cases hrow.symm.trans hother
    obtain ⟨area, htx⟩ := hmeans.recordOf hrecordable
    refine ⟨area, ffi, ?_⟩
    rw [← htx]
    exact fetch_held hheld _
  · unfold fetch
    rw [bind_run_ok (gets_run _ _ _)]
    simp only [id, if_neg hheld]
    rw [bind_run_ok (write_run _ _ _), fetchFound, if_neg hrecordable.ne_nil,
      bind_run_ok (write_run _ _ _)]
    obtain ⟨area, middle, hdecode, hmiddle⟩ :=
      decodeHeld_recordable hrecordable { ffi.said (.get txNr (.found row)) with heldTxNr := 0 }
    rw [bind_run_ok (orUndo_ok.2 hdecode), bind_run_ok (write_run _ _ _),
      bind_run_ok (write_run _ _ _)]
    refine ⟨area, _, Prod.ext ?_ rfl⟩
    change Except.ok (ChainFfi.released host row middle).held = _
    have hreleased : (ChainFfi.released host row middle).held = middle.held := by
      rw [ChainFfi.released]
      split
      · rfl
      · rfl
    rw [hreleased, hmiddle]
    rfl

/-- A number without a row is answered with that. -/
theorem Settled.fetch_absent (hsettled : Settled codec recordHost host ffi)
    (hrow : ffi.rows txNr = none) {answer : GetAnswer} (hanswer : Answers ffi.rows txNr answer)
    (hlooked : answer ≠ .failed) :
    (fetch codec recordHost host txNr answer ffi room).1 =
      .error (.refused .arrayIndexOutOfBounds) := by
  have hheld : ¬(ffi.heldTxNr ≠ 0 ∧ ffi.heldTxNr = txNr) := by
    intro hheld
    obtain ⟨row, hsome, -⟩ := hsettled.row_of_held hheld
    cases hrow.symm.trans hsome
  unfold fetch
  rw [bind_run_ok (gets_run _ _ _)]
  simp only [id, if_neg hheld]
  rw [bind_run_ok (write_run _ _ _)]
  cases answer with
  | found data => cases hrow.symm.trans hanswer
  | notFound => rfl
  | failed => exact absurd rfl hlooked

end ChainFfi

/-! ### Both -/

namespace Stores

/-- The transactions and their bodies that have been appended, the first one first. -/
abbrev SentList : Type := List (Wire.ConfirmedTransaction × Wire.TransactionBody)

/-- A store in memory and an adapter over the rows of a host, which start empty. What the one takes
the other is brought; in between transactions are refused or not kept, and fetched. -/
inductive Both (recordHost : Mapping.RecordHost) (host : FfiHost) (communityUuid : Uuid) :
    SentList → InMemory → ChainFfi → Prop
  | init (arenas : Runtime.Arenas) : Both recordHost host communityUuid [] (.init communityUuid)
      (.init communityUuid arenas fun _ => none)
  | appended {sent store grown ffi left tx body bytes arenas after roomy room rest last outcome} :
      Both recordHost host communityUuid sent store ffi → Mapping.Sent tx body bytes →
      InMemory.appendSerialized PbTools.codec recordHost bytes (store, arenas) roomy =
        (.ok (), (grown, after), rest) →
      ChainFfi.appendSerialized host bytes true ffi room = (outcome, left, last) →
      Both recordHost host communityUuid (sent ++ [(tx, body)]) grown left
  | refused {sent store left ffi bytes arenas after room rest failure} :
      Both recordHost host communityUuid sent store ffi →
      InMemory.appendSerialized PbTools.codec recordHost bytes (store, arenas) room =
        (.error failure, (left, after), rest) → Both recordHost host communityUuid sent left ffi
  | notKept {sent store ffi left bytes room rest outcome} :
      Both recordHost host communityUuid sent store ffi →
      ChainFfi.appendSerialized host bytes false ffi room = (outcome, left, rest) →
      Both recordHost host communityUuid sent store left
  | fetched {sent store ffi left txNr answer room rest outcome} :
      Both recordHost host communityUuid sent store ffi → ChainFfi.Answers ffi.rows txNr answer →
      ChainFfi.fetch PbTools.codec recordHost host txNr answer ffi room = (outcome, left, rest) →
      Both recordHost host communityUuid sent store left

/-- The record is that of the pair, in some arena. -/
def RecordOf (communityUuid : Uuid) (pair : Wire.ConfirmedTransaction × Wire.TransactionBody)
    (tx : Runtime.CompleteTransaction) : Prop :=
  ∃ area, tx = Mapping.recordOf pair.1 pair.2 communityUuid area

/-- The one holds the records of what has been sent, the other has a row for each of
them that makes it. -/
structure Agree (recordHost : Mapping.RecordHost) (host : FfiHost) (communityUuid : Uuid)
    (sent : SentList) (store : InMemory) (ffi : ChainFfi) : Prop where
  holds : InMemory.Holds communityUuid store store.records.slots
  records : List.Forall₂ (RecordOf communityUuid) sent store.records.slots
  settled : ChainFfi.Settled PbTools.codec recordHost host ffi
  community : ffi.communityUuid = communityUuid
  row : ∀ pair ∈ sent, ∃ bytes, ffi.rows pair.1.id = some bytes ∧
    Mapping.Recordable PbTools.codec recordHost bytes pair.1.settled pair.2
  absent : ∀ txNr, (∀ pair ∈ sent, pair.1.id ≠ txNr) → ffi.rows txNr = none

variable {recordHost : Mapping.RecordHost} {host : FfiHost} {communityUuid : Uuid} {sent : SentList}
  {store grown : InMemory} {ffi left : ChainFfi} {tx : Wire.ConfirmedTransaction}
  {body : Wire.TransactionBody} {bytes : List UInt8} {room rest : Room}

theorem RecordOf.txNr {pair : Wire.ConfirmedTransaction × Wire.TransactionBody}
    {record : Runtime.CompleteTransaction}
    (hrecord : RecordOf communityUuid pair record) : record.txNr = pair.1.id := by
  obtain ⟨area, rfl⟩ := hrecord
  exact Mapping.recordOf_txNr ..

/-- What is related to a member of the one list is a member of the other. -/
theorem related {α β : Type} {R : α → β → Prop} {items : List α} {others : List β}
    (hrelated : List.Forall₂ R items others) {item : α} (hitem : item ∈ items) :
    ∃ other ∈ others, R item other := by
  induction hrelated with
  | nil => cases hitem
  | cons hfirst _ ih =>
      rcases List.mem_cons.1 hitem with rfl | hitem
      · exact ⟨_, List.mem_cons_self, hfirst⟩
      · obtain ⟨other, hother, hboth⟩ := ih hitem
        exact ⟨other, List.mem_cons_of_mem _ hother, hboth⟩

theorem Agree.init (arenas : Runtime.Arenas) :
    Agree recordHost host communityUuid [] (.init communityUuid)
      (.init communityUuid arenas fun _ => none) :=
  ⟨.init, .nil, ⟨.empty, by cases host.release <;> rfl⟩, rfl, (fun _ hpair => by cases hpair),
    fun _ _ => rfl⟩

/-- What the store in memory takes, the host is given a row of. -/
theorem Agree.appended (hagree : Agree recordHost host communityUuid sent store ffi)
    (hput : host.put = true) (hsent : Mapping.Sent tx body bytes) {arenas after : Runtime.Arenas}
    {roomy last : Room} {outcome : Except ArnmResult Unit}
    (hstore : InMemory.appendSerialized PbTools.codec recordHost bytes (store, arenas) roomy =
      (.ok (), (grown, after), rest))
    (hffi : ChainFfi.appendSerialized host bytes true ffi room = (outcome, left, last)) :
    Agree recordHost host communityUuid (sent ++ [(tx, body)]) grown left := by
  obtain ⟨owned, _, _, hdecodes⟩ := InMemory.decodes_of_appendSerialized_ok hstore
  obtain ⟨confirmed, read, hrecordable⟩ := Mapping.recordable_of_ok hdecodes
  obtain ⟨_, _, hdecoded, hlt, hnext, hgrown⟩ := InMemory.appendSerialized_ok hstore
  cases hrecordable.decoded.symm.trans hdecoded
  cases hsent.decoded hrecordable.decoded
  cases hgrown
  have hrecord : RecordOf communityUuid (tx, body) (store.decodedInto arenas tx.settled body) := by
    rw [← hagree.holds.community]
    exact ⟨_, Mapping.recordOf_settled ..⟩
  rw [hrecord.txNr] at hnext
  have hfresh : ∀ pair ∈ sent, pair.1.id ≠ tx.id := by
    intro pair hpair
    obtain ⟨record, hmem, hof⟩ := related hagree.records hpair
    rw [← hof.txNr]
    exact hagree.holds.fresh hnext hmem
  have hunder : ChainFfi.PutUnder host bytes tx.id :=
    ⟨hput, hsent.peeked, (InMemory.isNext_iff.1 hnext).1⟩
  have hslots : (store.took (store.decodedInto arenas tx.settled body)).records.slots =
      store.records.slots ++ [store.decodedInto arenas tx.settled body] :=
    InMemory.slots_slotted hlt _
  have hholds :=
    hagree.holds.took hlt
      (show store.isNext (store.decodedInto arenas tx.settled body).txNr = true
        from hrecord.txNr ▸ hnext)
  rw [← hslots] at hholds
  have htimely : ChainFfi.Timely PbTools.codec recordHost host ffi bytes true := by
    intro txNr held hother _ hslot
    cases hunder.2.1.symm.trans hother.2.1
    obtain ⟨row, hrow, -⟩ := hagree.settled.coherent _ _ hslot
    cases (hagree.absent _ hfresh).symm.trans hrow
  have hsettled := (hagree.settled.appended_iff hffi).2 htimely
  rcases ChainFfi.appendSerialized_cases hffi with ⟨hnone, -⟩ | ⟨txNr, hput, rfl⟩
  · exact absurd hunder (hnone tx.id)
  · cases hunder.2.1.symm.trans hput.2.1
    refine ⟨hholds, ?_, hsettled, hagree.community, fun pair hpair => ?_, fun txNr habsent => ?_⟩
    · rw [hslots]
      exact List.rel_append hagree.records (.cons hrecord .nil)
    · rcases List.mem_append.1 hpair with hpair | hpair
      · obtain ⟨row, hrow, hmakes⟩ := hagree.row pair hpair
        exact ⟨row, (Function.update_of_ne (hfresh pair hpair) ..).trans hrow, hmakes⟩
      · cases List.mem_singleton.1 hpair
        exact ⟨bytes, Function.update_self .., hrecordable⟩
    · have hother := habsent (tx, body) (List.mem_append_right _ List.mem_cons_self)
      exact (Function.update_of_ne (Ne.symm hother) ..).trans
        (hagree.absent txNr fun pair hpair => habsent pair (List.mem_append_left _ hpair))

/-- What a host has not kept leaves its rows as they were. -/
theorem Agree.notKept (hagree : Agree recordHost host communityUuid sent store ffi)
    {outcome : Except ArnmResult Unit}
    (hffi : ChainFfi.appendSerialized host bytes false ffi room = (outcome, left, rest)) :
    Agree recordHost host communityUuid sent store left := by
  have htimely : ChainFfi.Timely PbTools.codec recordHost host ffi bytes false :=
    fun _ _ _ hkept => absurd hkept Bool.false_ne_true
  have hsettled := (hagree.settled.appended_iff hffi).2 htimely
  rcases ChainFfi.appendSerialized_cases hffi with ⟨-, rfl⟩ | ⟨txNr, -, rfl⟩
  · exact hagree
  · exact ⟨hagree.holds, hagree.records, hsettled, hagree.community, hagree.row, hagree.absent⟩

theorem Agree.fetched (hagree : Agree recordHost host communityUuid sent store ffi) {txNr : UInt64}
    {answer : GetAnswer} {outcome : Except Mapping.Failure Runtime.CompleteTransaction}
    (hanswer : ChainFfi.Answers ffi.rows txNr answer)
    (hffi : ChainFfi.fetch PbTools.codec recordHost host txNr answer ffi room =
      (outcome, left, rest)) : Agree recordHost host communityUuid sent store left := by
  have hsettled := hagree.settled.fetched hanswer hffi
  rcases ChainFfi.fetch_cases hffi with ⟨-, -, -, rfl⟩ | ⟨hbeside, -⟩
  · exact hagree
  · refine ⟨hagree.holds, hagree.records, hsettled, hbeside.communityUuid.trans hagree.community,
      ?_, ?_⟩
    · rw [hbeside.rows]
      exact hagree.row
    · rw [hbeside.rows]
      exact hagree.absent

theorem Both.agree (hboth : Both recordHost host communityUuid sent store ffi)
    (hput : host.put = true) : Agree recordHost host communityUuid sent store ffi := by
  induction hboth with
  | init arenas => exact .init arenas
  | appended _ hsent hstore hffi ih => exact ih.appended hput hsent hstore hffi
  | refused _ hstore ih =>
      obtain ⟨rfl, -⟩ := InMemory.appendSerialized_error hstore
      exact ih
  | notKept _ hffi ih => exact ih.notKept hffi
  | fetched _ hanswer hffi ih => exact ih.fetched hanswer hffi

/-! ### Answers -/

/-- Both answer a number that has been sent with the record of what was sent, and any other with its
not being there. The adapter may also have too little memory, or a host that cannot look. -/
structure Alike (recordHost : Mapping.RecordHost) (host : FfiHost) (communityUuid : Uuid)
    (sent : SentList) (store : InMemory) (ffi : ChainFfi) : Prop where
  stored : ∀ pair ∈ sent,
    ∃ area, store.fetch pair.1.id = .ok (some (Mapping.recordOf pair.1 pair.2 communityUuid area))
  served : ∀ pair ∈ sent, ∃ bytes, ffi.rows pair.1.id = some bytes ∧
    ∃ area left, ChainFfi.fetch PbTools.codec recordHost host pair.1.id (.found bytes) ffi [] =
      (.ok (Mapping.recordOf pair.1 pair.2 communityUuid area), left, [])
  answered : ∀ pair ∈ sent, ∀ answer room record left rest, ChainFfi.Answers ffi.rows pair.1.id
      answer →
    ChainFfi.fetch PbTools.codec recordHost host pair.1.id answer ffi room =
      (.ok record, left, rest) → ∃ area, record = Mapping.recordOf pair.1 pair.2 communityUuid area
  absent : ∀ txNr, (∀ pair ∈ sent, pair.1.id ≠ txNr) →
    store.fetch txNr = .error .arrayIndexOutOfBounds ∧
      ∀ answer room, ChainFfi.Answers ffi.rows txNr answer → answer ≠ .failed →
        (ChainFfi.fetch PbTools.codec recordHost host txNr answer ffi room).1 =
          .error (.refused .arrayIndexOutOfBounds)

theorem Agree.alike (hagree : Agree recordHost host communityUuid sent store ffi) :
    Alike recordHost host communityUuid sent store ffi := by
  refine ⟨fun pair hpair => ?_, fun pair hpair => ?_, fun pair hpair => ?_,
    fun txNr habsent => ⟨?_, ?_⟩⟩
  · obtain ⟨record, hmem, hof⟩ := related hagree.records hpair
    have hfetch := hagree.holds.fetch_mem hmem
    rw [hof.txNr] at hfetch
    obtain ⟨area, rfl⟩ := hof
    exact ⟨area, hfetch⟩
  · obtain ⟨bytes, hrow, hmakes⟩ := hagree.row pair hpair
    obtain ⟨area, left, hfetch⟩ := hagree.settled.fetch_found hrow hmakes
    rw [Mapping.recordOf_settled, hagree.community] at hfetch
    exact ⟨bytes, hrow, area, left, hfetch⟩
  · intro answer room record left rest hanswer hfetch
    obtain ⟨row, hrow, hmeans⟩ := hagree.settled.answered hanswer hfetch
    obtain ⟨bytes, hbytes, hmakes⟩ := hagree.row pair hpair
    cases hrow.symm.trans hbytes
    obtain ⟨area, hrecord⟩ := hmeans.recordOf hmakes
    rw [Mapping.recordOf_settled, hagree.community] at hrecord
    exact ⟨area, hrecord⟩
  · apply hagree.holds.fetch_absent
    intro record hmem hnr
    obtain ⟨pair, hpair, hof⟩ := related hagree.records.flip hmem
    exact habsent pair hpair ((RecordOf.txNr hof).symm.trans hnr)
  · intro answer room hanswer hlooked
    exact hagree.settled.fetch_absent (hagree.absent txNr habsent) hanswer hlooked

/-- What bytes make of a store in a plain host. -/
def bringing (bytes : List UInt8) (store : InMemory) :
    Except Mapping.Failure Unit × (InMemory × Runtime.Arenas) × Room :=
  InMemory.appendSerialized PbTools.codec ⟨Mapping.plainHost, none⟩ bytes (store, .empty) []

section

variable {sent : SentList} {store : InMemory} {ffi : ChainFfi} {tx : Wire.ConfirmedTransaction}
  {body : Wire.TransactionBody} {bytes : List UInt8}

theorem Both.brings
    (hboth : Both ⟨Mapping.plainHost, none⟩ ⟨true, true⟩ communityUuid sent store ffi)
    (hsent : Mapping.Sent tx body bytes) (htaken : (bringing bytes store).1 = .ok ()) :
    Both ⟨Mapping.plainHost, none⟩ ⟨true, true⟩ communityUuid (sent ++ [(tx, body)])
      (bringing bytes store).2.1.1 (ffi.putting bytes) := by
  have hstore : bringing bytes store =
      (.ok (), ((bringing bytes store).2.1.1, (bringing bytes store).2.1.2),
        (bringing bytes store).2.2) := Prod.ext htaken rfl
  exact .appended hboth hsent hstore (Prod.ext rfl (Prod.ext rfl rfl))

theorem Both.refuses {failure : Mapping.Failure}
    (hboth : Both ⟨Mapping.plainHost, none⟩ ⟨true, true⟩ communityUuid sent store ffi)
    (hrefused : (bringing bytes store).1 = .error failure) :
    Both ⟨Mapping.plainHost, none⟩ ⟨true, true⟩ communityUuid sent (bringing bytes store).2.1.1
      ffi := by
  have hstore : bringing bytes store =
      (.error failure, ((bringing bytes store).2.1.1, (bringing bytes store).2.1.2),
        (bringing bytes store).2.2) := Prod.ext hrefused rfl
  exact .refused hboth hstore

theorem Both.fetches {txNr : UInt64} {answer : GetAnswer}
    (hboth : Both ⟨Mapping.plainHost, none⟩ ⟨true, true⟩ communityUuid sent store ffi)
    (hanswer : ChainFfi.Answers ffi.rows txNr answer) :
    Both ⟨Mapping.plainHost, none⟩ ⟨true, true⟩ communityUuid sent store
      (ffi.fetching txNr answer) :=
  .fetched hboth hanswer (Prod.ext rfl (Prod.ext rfl rfl))

end

/-- A timeout under the number 7 and a transfer under 8. -/
def timeoutAndTransfer : SentList :=
  [(Mapping.carrying 7 Mapping.timedOut, Mapping.timedOut),
    (Mapping.carrying 8 (Mapping.transferred .outbound 2), Mapping.transferred .outbound 2)]

/-- The first is brought, refused when it comes again and fetched, the second is brought, and the
number after it is asked for in vain. -/
theorem both_timeoutAndTransfer : ∃ store ffi,
    Both ⟨Mapping.plainHost, none⟩ ⟨true, true⟩ (zeroBytes 16) timeoutAndTransfer store ffi := by
  let first := (Mapping.writtenWhole (Mapping.carrying 7 Mapping.timedOut)).bytes
  let second := (Mapping.writtenWhole (Mapping.carrying 8 (Mapping.transferred .outbound 2))).bytes
  let store := (bringing first (bringing first (.init (zeroBytes 16))).2.1.1).2.1.1
  let ffi :=
    ChainFfi.fetching 7 (.found first)
      (ChainFfi.putting first (.init (zeroBytes 16) .empty fun _ => none))
  have hfirst : (bringing first (.init (zeroBytes 16))).1 = .ok () := by decide +kernel
  have hagain : (bringing first (bringing first (.init (zeroBytes 16))).2.1.1).1 =
      .error (.refused .invalidParam) := by
    decide +kernel
  have hseven : ChainFfi.Answers
      (ChainFfi.putting first (.init (zeroBytes 16) .empty fun _ => none)).rows 7
      (.found first) := by
    decide +kernel
  have hsecond : (bringing second store).1 = .ok () := by decide +kernel
  have hnine : ChainFfi.Answers (ffi.putting second).rows 9 .notFound := by decide +kernel
  have hsent : Mapping.Sent (Mapping.carrying 7 Mapping.timedOut) Mapping.timedOut first :=
    Mapping.timedOut_sent 7 (by decide +kernel)
  have hafter : Both ⟨Mapping.plainHost, none⟩ ⟨true, true⟩ (zeroBytes 16)
      [(Mapping.carrying 7 Mapping.timedOut, Mapping.timedOut)] store ffi :=
    (((Both.init .empty).brings hsent hfirst).refuses hagain).fetches hseven
  exact ⟨_, _,
    (hafter.brings (Mapping.transferred_sent (by decide) (by decide +kernel) (by decide +kernel))
      hsecond).fetches hnine⟩

end Stores

end GradidoBlockchain
