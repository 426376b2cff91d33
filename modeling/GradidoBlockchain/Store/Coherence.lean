import GradidoBlockchain.Lib.Cache
import GradidoBlockchain.Runtime.Filled
import GradidoBlockchain.Store.Ffi

/-!
# What the adapter answers with

The adapter is a cache of one transaction over the rows of the host. Every answer is what the row
says, as long as no put replaces the row of the transaction that is held by one that says something
else: nothing tells the adapter that what it holds is out of date.
-/

namespace GradidoBlockchain

open Fallible Fallible.Call

namespace ChainFfi

open PbTools (timeoutBytes)

variable {codec : Mapping.Codec} {recordHost : Mapping.RecordHost} {host : FfiHost}
  {ffi left : ChainFfi} {txNr : UInt64} {room rest : Room}

/-! ### One call -/

/-- The transaction is what the bytes say, in some arena. -/
def Means (codec : Mapping.Codec) (recordHost : Mapping.RecordHost) (communityUuid : Uuid)
    (row : List UInt8) (tx : Runtime.CompleteTransaction) : Prop :=
  ∃ confirmed body area, Mapping.decoded codec recordHost.toHost row = some (confirmed, body) ∧
    tx = Mapping.recordOf confirmed body communityUuid area

/-- What the adapter keeps, under its number. -/
def slot (ffi : ChainFfi) : Option (UInt64 × Runtime.CompleteTransaction) :=
  if ffi.heldTxNr = 0 then none else some (ffi.heldTxNr, ffi.held)

/-- The bytes that have been handed over, in their order. -/
def handed (calls : List HostCall) : List (List UInt8) :=
  calls.filterMap fun call =>
    match call with
    | .get _ (.found data) => some data
    | _ => none

/-- The bytes that have been released, in their order. -/
def releasedOf (calls : List HostCall) : List (List UInt8) :=
  calls.filterMap fun call =>
    match call with
    | .release data => some data
    | _ => none

/-- A host that keeps one row for each number answers with the row, or that there is none, or that
it could not look. -/
def Answers (rows : UInt64 → Option (List UInt8)) (txNr : UInt64) : GetAnswer → Prop
  | .found data => rows txNr = some data
  | .notFound => rows txNr = none
  | .failed => True

instance (rows : UInt64 → Option (List UInt8)) (txNr : UInt64) :
    ∀ answer, Decidable (Answers rows txNr answer)
  | .found data => inferInstanceAs (Decidable (rows txNr = some data))
  | .notFound => inferInstanceAs (Decidable (rows txNr = none))
  | .failed => .isTrue trivial

/-- What a call leaves of the adapter besides what it holds. -/
structure Beside (host : FfiHost) (ffi left : ChainFfi) : Prop where
  communityUuid : left.communityUuid = ffi.communityUuid
  rows : left.rows = ffi.rows
  calls : ∃ more, left.calls = ffi.calls ++ more ∧
    releasedOf more = if host.release then handed more else []

theorem released_calls (data : List UInt8) (ffi : ChainFfi) :
    (released host data ffi).calls = ffi.calls ++ if host.release then [.release data] else [] := by
  rw [released]
  split
  · rfl
  · exact (List.append_nil _).symm

theorem decodeHeld_calls {data : List UInt8} {outcome : Except Mapping.Failure Unit}
    (hrun : decodeHeld codec recordHost data ffi room = (outcome, left, rest)) :
    left.communityUuid = ffi.communityUuid ∧ left.rows = ffi.rows ∧ left.calls = ffi.calls ∧
      left.heldTxNr = ffi.heldTxNr := by
  rw [decodeHeld, bind_run_ok (gets_run _ _ _), within] at hrun
  cases hrun
  exact ⟨rfl, rfl, rfl, rfl⟩

theorem decodeHeld_ok {data : List UInt8}
    (hrun : decodeHeld codec recordHost data ffi room = (.ok (), left, rest)) :
    Means codec recordHost ffi.communityUuid data left.held := by
  rw [decodeHeld, bind_run_ok (gets_run _ _ _)] at hrun
  obtain ⟨owned, hinit, rfl⟩ := within_ok.1 hrun
  obtain ⟨confirmed, body, hdecoded, rfl⟩ := Mapping.initFromProtobuf_ok hinit
  exact ⟨confirmed, body, _, hdecoded, rfl⟩

/-- The bytes that have been handed over are released, and the adapter holds what they say, or what
it held before, or nothing. -/
theorem fetchFound_cases {data : List UInt8}
    {outcome : Except Mapping.Failure Runtime.CompleteTransaction}
    (hrun : fetchFound codec recordHost host txNr data ffi room = (outcome, left, rest)) :
    left.communityUuid = ffi.communityUuid ∧ left.rows = ffi.rows ∧
      left.calls = ffi.calls ++ (if host.release then [.release data] else []) ∧
      ((∃ failure, outcome = .error failure) ∧ (left.slot = ffi.slot ∨ left.slot = none) ∨
        outcome = .ok left.held ∧ left.heldTxNr = txNr ∧
          Means codec recordHost ffi.communityUuid data left.held) := by
  have hbeside : ∀ ffi : ChainFfi, (released host data ffi).communityUuid = ffi.communityUuid ∧
      (released host data ffi).rows = ffi.rows ∧ (released host data ffi).held = ffi.held ∧
      (released host data ffi).heldTxNr = ffi.heldTxNr := by
    intro ffi
    rw [released]
    split
    · exact ⟨rfl, rfl, rfl, rfl⟩
    · exact ⟨rfl, rfl, rfl, rfl⟩
  rw [fetchFound] at hrun
  split at hrun
  · rw [bind_run_ok (write_run _ _ _)] at hrun
    cases hrun
    obtain ⟨huuid, hrows, hheld, hnr⟩ := hbeside ffi
    refine ⟨huuid, hrows, released_calls data ffi, .inl ⟨⟨_, rfl⟩, .inl ?_⟩⟩
    rw [slot, hheld, hnr]
    rfl
  · rw [bind_run_ok (write_run _ _ _)] at hrun
    rcases hdecode : decodeHeld codec recordHost data { ffi with heldTxNr := 0 } room
      with ⟨failure | ⟨⟩, middle, between⟩
    · obtain ⟨hmuuid, hmrows, hmcalls, hmnr⟩ := decodeHeld_calls hdecode
      rw [bind_run_error (orUndo_error.2 ⟨middle, hdecode, rfl⟩)] at hrun
      cases hrun
      obtain ⟨huuid, hrows, -, hnr⟩ := hbeside middle
      refine ⟨huuid.trans hmuuid, hrows.trans hmrows, ?_,
        .inl ⟨⟨_, rfl⟩, .inr (if_pos (hnr.trans hmnr))⟩⟩
      rw [released_calls, hmcalls]
    · obtain ⟨hmuuid, hmrows, hmcalls, -⟩ := decodeHeld_calls hdecode
      rw [bind_run_ok (orUndo_ok.2 hdecode), bind_run_ok (write_run _ _ _),
        bind_run_ok (write_run _ _ _)] at hrun
      cases hrun
      obtain ⟨huuid, hrows, hheld, -⟩ := hbeside middle
      refine ⟨huuid.trans hmuuid, hrows.trans hmrows, ?_, .inr ⟨rfl, rfl, ?_⟩⟩
      · exact (released_calls data middle).trans (congrArg (· ++ _) hmcalls)
      · change Means _ _ _ _ (released host data middle).held
        rw [hheld]
        have hmeans := decodeHeld_ok hdecode
        exact hmeans

/-- A fetch answers with what is held, or it asks the host, and holds what it is told, or what it
held before, or nothing. -/
theorem fetch_cases {answer : GetAnswer}
    {outcome : Except Mapping.Failure Runtime.CompleteTransaction}
    (hrun : fetch codec recordHost host txNr answer ffi room = (outcome, left, rest)) :
    (ffi.heldTxNr ≠ 0 ∧ ffi.heldTxNr = txNr ∧ outcome = .ok ffi.held ∧ left = ffi) ∨
      Beside host ffi left ∧
        ((∃ failure, outcome = .error failure) ∧ (left.slot = ffi.slot ∨ left.slot = none) ∨
          ∃ data, answer = .found data ∧ outcome = .ok left.held ∧ left.heldTxNr = txNr ∧
            Means codec recordHost ffi.communityUuid data left.held) := by
  unfold fetch at hrun
  rw [bind_run_ok (gets_run _ _ _)] at hrun
  simp only [id] at hrun
  split at hrun
  · rename_i hheld
    cases hrun
    exact .inl ⟨hheld.1, hheld.2, rfl, rfl⟩
  · rw [bind_run_ok (write_run _ _ _)] at hrun
    refine .inr ?_
    cases answer with
    | found data =>
        obtain ⟨huuid, hrows, hcalls, hends⟩ := fetchFound_cases hrun
        refine ⟨⟨huuid, hrows,
            .get txNr (.found data) :: (if host.release then [.release data] else []), ?_, ?_⟩, ?_⟩
        · rw [hcalls]
          exact List.append_assoc ..
        · cases host.release
          · rfl
          · rfl
        · exact hends.imp_right fun hgiven => ⟨data, rfl, hgiven⟩
    | notFound =>
        cases hrun
        refine ⟨⟨rfl, rfl, [.get txNr .notFound], rfl, ?_⟩, .inl ⟨⟨_, rfl⟩, .inl rfl⟩⟩
        cases host.release
        · rfl
        · rfl
    | failed =>
        cases hrun
        refine ⟨⟨rfl, rfl, [.get txNr .failed], rfl, ?_⟩, .inl ⟨⟨_, rfl⟩, .inl rfl⟩⟩
        cases host.release
        · rfl
        · rfl

/-- The number that bytes are put under, if they are put at all. -/
def PutUnder (host : FfiHost) (serialized : List UInt8) (txNr : UInt64) : Prop :=
  host.put = true ∧ Wire.confirmedTransactionPeekId serialized = .ok txNr ∧ txNr ≠ 0

/-- Bytes that are appended are handed over under their number, or nothing happens. -/
theorem appendSerialized_cases {serialized : List UInt8} {kept : Bool}
    {outcome : Except ArnmResult Unit}
    (hrun : appendSerialized host serialized kept ffi room = (outcome, left, rest)) :
    (∀ txNr, ¬PutUnder host serialized txNr) ∧ left = ffi ∨
      ∃ txNr, PutUnder host serialized txNr ∧ left = handedOver txNr serialized kept ffi := by
  rw [appendSerialized] at hrun
  split at hrun
  · rename_i hput
    cases hrun
    exact .inl ⟨fun _ hunder => Bool.false_ne_true (hput ▸ hunder.1), rfl⟩
  · rename_i hput
    split at hrun
    · rename_i hempty
      cases hrun
      refine .inl ⟨fun txNr hunder => hunder.2.2 ?_, rfl⟩
      have hpeek := hunder.2.1
      rw [hempty] at hpeek
      cases hpeek
      rfl
    · cases hpeek : Wire.confirmedTransactionPeekId serialized with
      | error code =>
          rw [hpeek] at hrun
          cases hrun
          refine .inl ⟨fun txNr hunder => ?_, rfl⟩
          cases hpeek.symm.trans hunder.2.1
      | ok txNr =>
          rw [hpeek] at hrun
          simp only at hrun
          split at hrun
          · rename_i hzero
            cases hrun
            refine .inl ⟨fun other hunder => hunder.2.2 ?_, rfl⟩
            cases hpeek.symm.trans hunder.2.1
            exact hzero
          · rename_i hne
            rw [bind_run_ok (write_run _ _ _)] at hrun
            refine .inr ⟨txNr, ⟨eq_true_of_ne_false hput, hpeek, hne⟩, ?_⟩
            split at hrun
            · cases hrun
              rfl
            · cases hrun
              rfl

/-! ### Runs -/

/-- What becomes of an adapter over fetches and appends. `allowed` says which bytes are brought, and
whether the host keeps them. -/
inductive Served (codec : Mapping.Codec) (recordHost : Mapping.RecordHost) (host : FfiHost)
    (communityUuid : Uuid) (allowed : ChainFfi → List UInt8 → Bool → Prop) : ChainFfi → Prop
  | init (arenas : Runtime.Arenas) (rows : UInt64 → Option (List UInt8)) :
      Served codec recordHost host communityUuid allowed (.init communityUuid arenas rows)
  | fetched {ffi left txNr answer outcome room rest} :
      Served codec recordHost host communityUuid allowed ffi → Answers ffi.rows txNr answer →
      fetch codec recordHost host txNr answer ffi room = (outcome, left, rest) →
      Served codec recordHost host communityUuid allowed left
  | appended {ffi left serialized kept outcome room rest} :
      Served codec recordHost host communityUuid allowed ffi → allowed ffi serialized kept →
      appendSerialized host serialized kept ffi room = (outcome, left, rest) →
      Served codec recordHost host communityUuid allowed left

/-- Bytes that replace the row of the transaction that is held say what is held. -/
def Timely (codec : Mapping.Codec) (recordHost : Mapping.RecordHost) (host : FfiHost)
    (ffi : ChainFfi) (serialized : List UInt8) (kept : Bool) : Prop :=
  ∀ txNr tx, PutUnder host serialized txNr → kept = true → ffi.slot = some (txNr, tx) →
    Means codec recordHost ffi.communityUuid serialized tx

/-- The adapter is a coherent cache, and every handover has been answered with a release. -/
structure Settled (codec : Mapping.Codec) (recordHost : Mapping.RecordHost) (host : FfiHost)
    (ffi : ChainFfi) : Prop where
  coherent : Cache.Coherent (Means codec recordHost ffi.communityUuid) ffi.rows ffi.slot
  released : releasedOf ffi.calls = if host.release then handed ffi.calls else []

theorem Settled.beside (hsettled : Settled codec recordHost host ffi)
    (hbeside : Beside host ffi left)
    (hcoherent : Cache.Coherent (Means codec recordHost ffi.communityUuid) ffi.rows left.slot) :
    Settled codec recordHost host left := by
  obtain ⟨more, hcalls, hreleased⟩ := hbeside.calls
  refine ⟨?_, ?_⟩
  · rw [hbeside.communityUuid, hbeside.rows]
    exact hcoherent
  · rw [hcalls, releasedOf, List.filterMap_append, handed, List.filterMap_append]
    change releasedOf ffi.calls ++ releasedOf more =
      if host.release then handed ffi.calls ++ handed more else []
    rw [hsettled.released, hreleased]
    split
    · rfl
    · rfl

theorem Settled.fetched {answer : GetAnswer}
    {outcome : Except Mapping.Failure Runtime.CompleteTransaction}
    (hsettled : Settled codec recordHost host ffi) (hanswer : Answers ffi.rows txNr answer)
    (hrun : fetch codec recordHost host txNr answer ffi room = (outcome, left, rest)) :
    Settled codec recordHost host left := by
  rcases fetch_cases hrun with ⟨-, -, -, rfl⟩ | ⟨hbeside, ⟨-, hslot⟩ | ⟨data, rfl, -, hnr, hmeans⟩⟩
  · exact hsettled
  · apply hsettled.beside hbeside
    rcases hslot with hslot | hslot
    · rw [hslot]
      exact hsettled.coherent
    · rw [hslot]
      exact .empty
  · apply hsettled.beside hbeside
    rw [slot]
    split
    · exact .empty
    · rw [hnr]
      exact .fill hanswer hmeans

theorem Settled.handedOver_iff (hsettled : Settled codec recordHost host ffi) (data : List UInt8)
    (kept : Bool) :
    Settled codec recordHost host (handedOver txNr data kept ffi) ↔
      (kept = true →
        ∀ tx, ffi.slot = some (txNr, tx) → Means codec recordHost ffi.communityUuid data tx) := by
  have hcalls : (ffi.said (.put txNr data kept)).calls = ffi.calls ++ [.put txNr data kept] := rfl
  have hreleased : releasedOf (ffi.said (.put txNr data kept)).calls =
      if host.release then handed (ffi.said (.put txNr data kept)).calls else [] := by
    rw [hcalls, releasedOf, List.filterMap_append, handed, List.filterMap_append]
    change releasedOf ffi.calls ++ [] = if host.release then handed ffi.calls ++ [] else []
    rw [List.append_nil, List.append_nil]
    exact hsettled.released
  cases kept with
  | false => exact ⟨fun _ h => (Bool.false_ne_true h).elim, fun _ => ⟨hsettled.coherent, hreleased⟩⟩
  | true =>
      have hupdate := @Cache.Coherent.update_iff _ _ _ _ _ _ _ hsettled.coherent txNr data
      exact ⟨fun hafter _ => hupdate.1 hafter.coherent,
        fun hmeans => ⟨hupdate.2 (hmeans rfl), hreleased⟩⟩

/-- A put leaves the adapter coherent just when what it brings says what is held of that number. -/
theorem Settled.appended_iff {serialized : List UInt8} {kept : Bool}
    {outcome : Except ArnmResult Unit} (hsettled : Settled codec recordHost host ffi)
    (hrun : appendSerialized host serialized kept ffi room = (outcome, left, rest)) :
    Settled codec recordHost host left ↔ Timely codec recordHost host ffi serialized kept := by
  rcases appendSerialized_cases hrun with ⟨hnone, rfl⟩ | ⟨txNr, hunder, rfl⟩
  · exact ⟨fun _ txNr _ hunder => absurd hunder (hnone txNr), fun _ => hsettled⟩
  · rw [hsettled.handedOver_iff]
    constructor
    · intro hmeans other tx hother hkept hslot
      cases hunder.2.1.symm.trans hother.2.1
      exact hmeans hkept tx hslot
    · exact fun htimely hkept tx hslot => htimely txNr tx hunder hkept hslot

theorem Served.settled {communityUuid : Uuid}
    (hserved : Served codec recordHost host communityUuid (Timely codec recordHost host) ffi) :
    Settled codec recordHost host ffi := by
  induction hserved with
  | init arenas rows => exact ⟨.empty, by cases host.release <;> rfl⟩
  | fetched _ hanswer hrun ih => exact ih.fetched hanswer hrun
  | appended _ htimely hrun ih => exact (ih.appended_iff hrun).2 htimely

/-! ### Answers -/

/-- Every answer is what the host's row says, a fetch that fails leaves nothing that another number
could be answered with, and every handover has been answered with a release. -/
structure Faithful (codec : Mapping.Codec) (recordHost : Mapping.RecordHost) (host : FfiHost)
    (ffi : ChainFfi) : Prop where
  answered : ∀ txNr answer room tx left rest, Answers ffi.rows txNr answer →
    fetch codec recordHost host txNr answer ffi room = (.ok tx, left, rest) →
    ∃ row, ffi.rows txNr = some row ∧ Means codec recordHost ffi.communityUuid row tx
  failed : ∀ txNr answer room failure left rest, Answers ffi.rows txNr answer →
    fetch codec recordHost host txNr answer ffi room = (.error failure, left, rest) →
    ∀ other tx, left.slot = some (other, tx) →
      ∃ row, left.rows other = some row ∧ Means codec recordHost left.communityUuid row tx
  released : releasedOf ffi.calls = if host.release then handed ffi.calls else []

theorem Settled.answered {answer : GetAnswer} {tx : Runtime.CompleteTransaction}
    (hsettled : Settled codec recordHost host ffi) (hanswer : Answers ffi.rows txNr answer)
    (hrun : fetch codec recordHost host txNr answer ffi room = (.ok tx, left, rest)) :
    ∃ row, ffi.rows txNr = some row ∧ Means codec recordHost ffi.communityUuid row tx := by
  rcases fetch_cases hrun
    with ⟨hne, rfl, htx, -⟩ | ⟨-, ⟨⟨_, hfails⟩, -⟩ | ⟨data, rfl, htx, -, hmeans⟩⟩
  · cases htx
    exact hsettled.coherent _ _ (if_neg hne)
  · cases hfails
  · cases htx
    exact ⟨data, hanswer, hmeans⟩

theorem Served.faithful {communityUuid : Uuid}
    (hserved : Served codec recordHost host communityUuid (Timely codec recordHost host) ffi) :
    Faithful codec recordHost host ffi := by
  have hsettled := hserved.settled
  refine ⟨fun _ _ _ _ _ _ hanswer hrun => hsettled.answered hanswer hrun,
    fun _ _ _ _ _ _ hanswer hrun => ?_, hsettled.released⟩
  exact (hsettled.fetched hanswer hrun).coherent

theorem fetch_held (hheld : ffi.heldTxNr ≠ 0 ∧ ffi.heldTxNr = txNr) (answer : GetAnswer) :
    fetch codec recordHost host txNr answer ffi room = (.ok ffi.held, ffi, room) := by
  unfold fetch
  rw [bind_run_ok (gets_run _ _ _)]
  simp only [id, if_pos hheld]
  rfl

/-- Bytes are put in time if they are the row already, or go under a number that is not held. -/
theorem Settled.timely (hsettled : Settled codec recordHost host ffi) {serialized : List UInt8}
    {kept : Bool}
    (hput : ∀ txNr, PutUnder host serialized txNr →
      txNr ≠ ffi.heldTxNr ∨ ffi.rows txNr = some serialized) :
    Timely codec recordHost host ffi serialized kept := by
  intro txNr tx hunder _ hslot
  rcases hput txNr hunder with hother | hrow
  · rw [slot] at hslot
    split at hslot
    · cases hslot
    · cases hslot
      exact absurd rfl hother
  · obtain ⟨row, hsame, hmeans⟩ := hsettled.coherent txNr tx hslot
    cases hrow.symm.trans hsame
    exact hmeans

/-- What a fetch leaves, with a host that has both callbacks. -/
def fetching (txNr : UInt64) (answer : GetAnswer) (ffi : ChainFfi) : ChainFfi :=
  (fetch PbTools.codec ⟨Mapping.plainHost, none⟩ ⟨true, true⟩ txNr answer ffi []).2.1

/-- What an append leaves that the host keeps. -/
def putting (serialized : List UInt8) (ffi : ChainFfi) : ChainFfi :=
  (appendSerialized ⟨true, true⟩ serialized true ffi []).2.1

section
variable {communityUuid : Uuid} {allowed : ChainFfi → List UInt8 → Bool → Prop}

theorem Served.fetches
    (hserved :
      Served PbTools.codec ⟨Mapping.plainHost, none⟩ ⟨true, true⟩ communityUuid allowed ffi)
    {answer : GetAnswer} (hanswer : Answers ffi.rows txNr answer) :
    Served PbTools.codec ⟨Mapping.plainHost, none⟩ ⟨true, true⟩ communityUuid allowed
      (fetching txNr answer ffi) :=
  .fetched hserved hanswer (Prod.ext rfl (Prod.ext rfl rfl))

theorem Served.puts
    (hserved :
      Served PbTools.codec ⟨Mapping.plainHost, none⟩ ⟨true, true⟩ communityUuid allowed ffi)
    {serialized : List UInt8} (hallowed : allowed ffi serialized true) :
    Served PbTools.codec ⟨Mapping.plainHost, none⟩ ⟨true, true⟩ communityUuid allowed
      (putting serialized ffi) :=
  .appended hserved hallowed (Prod.ext rfl (Prod.ext rfl rfl))

end

/-- An adapter without rows is brought the number 1 and answers with it. -/
def holdingOne : ChainFfi :=
  fetching 1 (.found (timeoutBytes 1 0))
    (putting (timeoutBytes 1 0) (.init (zeroBytes 16) .empty fun _ => none))

theorem served_holdingOne {allowed : ChainFfi → List UInt8 → Bool → Prop}
    (hallowed : allowed (.init (zeroBytes 16) .empty fun _ => none) (timeoutBytes 1 0) true) :
    Served PbTools.codec ⟨Mapping.plainHost, none⟩ ⟨true, true⟩ (zeroBytes 16) allowed holdingOne :=
  have hanswer : Answers
      (putting (timeoutBytes 1 0) (.init (zeroBytes 16) .empty fun _ => none)).rows 1
      (.found (timeoutBytes 1 0)) := by decide +kernel
  .fetches (.puts (.init .empty _) hallowed) hanswer

/-- The number 1 is put and fetched, the number 2 is put, 1 is put again as it was, 3 is not there,
and 2 is fetched. -/
theorem Served.faithful_two : ∃ ffi, ffi.heldTxNr = 2 ∧ ffi.calls.length = 8 ∧
    Faithful PbTools.codec ⟨Mapping.plainHost, none⟩ ⟨true, true⟩ ffi := by
  have hpeek : ∀ number serialized txNr, Wire.confirmedTransactionPeekId serialized = .ok number →
      PutUnder ⟨true, true⟩ serialized txNr → number = txNr :=
    fun _ _ _ hnumber hunder => Except.ok.inj (hnumber.symm.trans hunder.2.1)
  have hone :
      Served _ _ _ _ (Timely PbTools.codec ⟨Mapping.plainHost, none⟩ ⟨true, true⟩) holdingOne :=
    served_holdingOne fun _ _ _ _ hslot => by cases hslot
  have htwo : Timely _ _ _ holdingOne (timeoutBytes 2 0) true :=
    hone.settled.timely fun txNr hunder =>
      .inl (hpeek 2 (timeoutBytes 2 0) txNr (by decide +kernel) hunder ▸ by decide +kernel)
  have hagain : Timely _ _ _ (putting (timeoutBytes 2 0) holdingOne) (timeoutBytes 1 0) true :=
    (hone.puts htwo).settled.timely fun txNr hunder =>
      .inr (hpeek 1 (timeoutBytes 1 0) txNr (by decide +kernel) hunder ▸ by decide +kernel)
  have hmissing :
      Answers (putting (timeoutBytes 1 0) (putting (timeoutBytes 2 0) holdingOne)).rows 3
        .notFound := by
    decide +kernel
  have hfound : Answers
      (fetching 3 .notFound
        (putting (timeoutBytes 1 0) (putting (timeoutBytes 2 0) holdingOne))).rows 2
      (.found (timeoutBytes 2 0)) := by decide +kernel
  exact ⟨_, by decide +kernel, by decide +kernel,
    Served.faithful ((((hone.puts htwo).puts hagain).fetches hmissing).fetches hfound)⟩

/-- Another row is put under the number that is held, and the number is still answered with what the
first one said. -/
theorem Served.not_faithful :
    ∃ ffi, Served PbTools.codec ⟨Mapping.plainHost, none⟩ ⟨true, true⟩ (zeroBytes 16)
        (fun _ _ _ => True) ffi ∧
      ¬Faithful PbTools.codec ⟨Mapping.plainHost, none⟩ ⟨true, true⟩ ffi := by
  have hput : Served PbTools.codec ⟨Mapping.plainHost, none⟩ ⟨true, true⟩ (zeroBytes 16)
      (fun _ _ _ => True)
      (appendSerialized ⟨true, true⟩ (timeoutBytes 1 1) true holdingOne []).2.1 :=
    .appended (served_holdingOne trivial) trivial (Prod.ext rfl (Prod.ext rfl rfl))
  have hrow : (appendSerialized ⟨true, true⟩ (timeoutBytes 1 1) true holdingOne []).2.1.rows 1 =
      some (timeoutBytes 1 1) := by
    decide +kernel
  have hheld :
      (appendSerialized ⟨true, true⟩ (timeoutBytes 1 1) true holdingOne []).2.1.heldTxNr = 1 := by
    decide +kernel
  have hhash :
      (appendSerialized ⟨true, true⟩ (timeoutBytes 1 1) true holdingOne []).2.1.held.txRunningHash =
        zeroBytes 32 := by
    decide +kernel
  have hdecoded :
      (Mapping.decoded PbTools.codec Mapping.plainHost (timeoutBytes 1 1)).map (·.1.runningHash) =
        some (Vector.replicate 32 1) := by decide +kernel
  refine ⟨_, hput, fun hfaithful => ?_⟩
  obtain ⟨row, hsame, confirmed, body, area, hboth, htx⟩ :=
    hfaithful.answered 1 (.found (timeoutBytes 1 1)) [] _ _ _ hrow
      (fetch_held ⟨by rw [hheld]; decide, hheld⟩ _)
  cases hrow.symm.trans hsame
  rw [hboth] at hdecoded
  have hnew : confirmed.runningHash = Vector.replicate 32 1 := Option.some.inj hdecoded
  rw [htx, Mapping.recordOf_txRunningHash, hnew] at hhash
  exact absurd hhash (by decide)

end ChainFfi

end GradidoBlockchain
