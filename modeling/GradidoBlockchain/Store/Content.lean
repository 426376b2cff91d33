import GradidoBlockchain.Lib.Numbered
import GradidoBlockchain.Pb.Messages
import GradidoBlockchain.Store.Appending
import GradidoBlockchain.Wire.RoundTrip

/-!
# What a store holds

Over any run of appends, decodes and resets, taken or refused, a store holds the records it has
taken since the last reset, under a run of numbers without gaps, and answers with them.
-/

namespace GradidoBlockchain

open Fallible Fallible.Call

namespace InMemory

/-! ### Runs -/

/-- The stores that come of an empty one, each with the records it has taken since the last reset. A
record that is decoded is what its bytes say; the arenas of the host may have changed in between. -/
inductive Reached (codec : Mapping.Codec) (host : Mapping.RecordHost) (communityUuid : Uuid) :
    InMemory → List Runtime.CompleteTransaction → Prop
  | init : Reached codec host communityUuid (.init communityUuid) []
  | appended {store left tx moved taken room rest} : Reached codec host communityUuid store taken →
      append (store, tx) room = (.ok (), (left, moved), rest) →
      Reached codec host communityUuid left (taken ++ [tx])
  | appendRefused {store left tx kept taken room rest code} :
      Reached codec host communityUuid store taken →
      append (store, tx) room = (.error code, (left, kept), rest) →
      Reached codec host communityUuid left taken
  | decoded {store left taken serialized arenas after room rest} :
      Reached codec host communityUuid store taken →
      appendSerialized codec host serialized (store, arenas) room = (.ok (), (left, after), rest) →
      Reached codec host communityUuid left (taken ++ ((Mapping.decoded codec host.toHost serialized).map fun both =>
        Mapping.recordOf both.1 both.2 communityUuid (arenas.next .store)).toList)
  | decodeRefused {store left taken serialized arenas after room rest failure} :
      Reached codec host communityUuid store taken →
      appendSerialized codec host serialized (store, arenas) room =
        (.error failure, (left, after), rest) → Reached codec host communityUuid left taken
  | reset {store taken} (arenas : Runtime.Arenas) : Reached codec host communityUuid store taken →
      Reached codec host communityUuid (reset (store, arenas)).1 []

/-- The store holds the records it has taken, numbered from its first number to its largest. -/
structure Holds (communityUuid : Uuid) (store : InMemory)
    (taken : List Runtime.CompleteTransaction) : Prop where
  records : store.records.slots = taken
  community : store.communityUuid = communityUuid
  unused : taken = [] → store.firstTxNr = 0 ∧ store.maxTxNr = 0
  span : taken ≠ [] →
    0 < store.firstTxNr.toNat ∧ store.maxTxNr.toNat + 1 = store.firstTxNr.toNat + taken.length
  numbered : Numbered.Run (·.txNr.toNat) store.firstTxNr.toNat taken

variable {codec : Mapping.Codec} {host : Mapping.RecordHost} {communityUuid : Uuid}
  {store : InMemory} {taken : List Runtime.CompleteTransaction} {tx : Runtime.CompleteTransaction}

theorem Holds.init : Holds communityUuid (.init communityUuid) [] :=
  ⟨rfl, rfl, fun _ => ⟨rfl, rfl⟩, fun h => absurd rfl h, .nil⟩

theorem isNext_iff {txNr : UInt64} :
    store.isNext txNr = true ↔ txNr ≠ 0 ∧ (store.firstTxNr = 0 ∨ txNr = store.maxTxNr + 1) := by
  rw [isNext, decide_eq_true_iff]

/-- The number that comes next is one above the largest, which has not run over. -/
theorem Holds.next_nr (hholds : Holds communityUuid store taken) {txNr : UInt64}
    (hnext : store.isNext txNr = true) (hne : taken ≠ []) :
    txNr.toNat = store.firstTxNr.toNat + taken.length := by
  obtain ⟨hpos, hspan⟩ := hholds.span hne
  obtain ⟨hzero, hfirst | hmax⟩ := isNext_iff.1 hnext
  · rw [hfirst] at hpos
    exact absurd hpos (Nat.lt_irrefl 0)
  · have hnr : txNr.toNat ≠ 0 := fun h => hzero (UInt64.toNat_inj.1 h)
    rw [hmax, UInt64.toNat_add] at hnr ⊢
    have hlt := store.maxTxNr.toNat_lt
    have hone : (1 : UInt64).toNat = 1 := rfl
    omega

/-- The next record is one more. -/
theorem Holds.took (hholds : Holds communityUuid store taken) (hlt : store.records.size < uint32Max)
    (hnext : store.isNext tx.txNr = true) :
    Holds communityUuid (store.took tx) (taken ++ [tx]) := by
  have hslots : (store.took tx).records.slots = taken ++ [tx] := by
    rw [← hholds.records]; exact Bvec.concat_slots hlt
  have hpos : 0 < tx.txNr.toNat :=
    Nat.pos_of_ne_zero fun h => (isNext_iff.1 hnext).1 (UInt64.toNat_inj.1 h)
  by_cases hne : taken = []
  · have hfirst : (store.took tx).firstTxNr = tx.txNr := if_pos (hholds.unused hne).1
    refine ⟨hslots, hholds.community,
      fun h => absurd h (List.append_ne_nil_of_right_ne_nil _ (List.cons_ne_nil _ _)), fun _ => ?_,
      ?_⟩
    · rw [hfirst, hne]
      exact ⟨hpos, rfl⟩
    · rw [hfirst, hne]
      exact Numbered.Run.nil.concat rfl
  · have hfirst : (store.took tx).firstTxNr = store.firstTxNr := by
      apply if_neg
      intro hzero
      have hused := (hholds.span hne).1
      change store.firstTxNr = 0 at hzero
      rw [hzero] at hused
      exact Nat.lt_irrefl 0 hused
    have hnr := hholds.next_nr hnext hne
    refine ⟨hslots, hholds.community,
      fun h => absurd h (List.append_ne_nil_of_right_ne_nil _ (List.cons_ne_nil _ _)), fun _ => ?_,
      ?_⟩
    · rw [hfirst, List.length_append]
      exact ⟨(hholds.span hne).1, congrArg (· + 1) hnr⟩
    · rw [hfirst]
      exact hholds.numbered.concat hnr

/-- What a run of calls has made of a store is the list of what it has taken. -/
theorem Reached.holds (hreached : Reached codec host communityUuid store taken) :
    Holds communityUuid store taken := by
  induction hreached with
  | init => exact .init
  | appended _ hrun ih =>
      obtain ⟨hlt, hnext, hleft⟩ := append_ok hrun
      cases hleft
      exact ih.took hlt hnext
  | appendRefused _ hrun ih =>
      cases append_error hrun
      exact ih
  | decoded _ hrun ih =>
      obtain ⟨confirmed, body, hdecoded, hlt, hnext, hleft⟩ := appendSerialized_ok hrun
      cases hleft
      obtain rfl := ih.community
      rw [hdecoded]
      exact ih.took hlt hnext
  | decodeRefused _ hrun ih =>
      obtain ⟨rfl, -⟩ := appendSerialized_error hrun
      exact ih
  | reset arenas _ ih => exact ⟨rfl, ih.community, fun _ => ⟨rfl, rfl⟩, fun h => absurd rfl h, .nil⟩

/-! ### Fetching -/

/-- The numbers of the run, which is empty as long as nothing has been taken. -/
def InRun (store : InMemory) (txNr : UInt64) : Prop :=
  store.firstTxNr ≠ 0 ∧ store.firstTxNr ≤ txNr ∧ txNr ≤ store.maxTxNr

theorem fetch_of_not_inRun {txNr : UInt64} (hnot : ¬store.InRun txNr) :
    store.fetch txNr = .error .arrayIndexOutOfBounds := by
  have hnone : store.positionOf txNr = none := by
    rw [positionOf]
    apply if_pos
    rw [InRun, not_and_or, not_and_or, not_not, UInt64.not_le, UInt64.not_le] at hnot
    exact hnot
  rw [fetch, hnone]

theorem Holds.fetch_of_inRun (hholds : Holds communityUuid store taken) {txNr : UInt64}
    (hin : store.InRun txNr) :
    ∃ tx, store.fetch txNr = .ok (some tx) ∧ tx ∈ taken ∧ tx.txNr = txNr := by
  obtain ⟨hfirst, hge, hle⟩ := hin
  have hne : taken ≠ [] := fun h => hfirst (hholds.unused h).1
  obtain ⟨-, hspan⟩ := hholds.span hne
  rw [UInt64.le_iff_toNat_le] at hge hle
  obtain ⟨tx, hget, hnr⟩ := hholds.numbered.at_distance hge (by omega)
  have hdistance : (txNr - store.firstTxNr).toNat = txNr.toNat - store.firstTxNr.toNat :=
    UInt64.toNat_sub_of_le _ _ (UInt64.le_iff_toNat_le.2 hge)
  have hbounded := store.records.bounded
  have hposition : store.positionOf txNr = some (txNr.toNat - store.firstTxNr.toNat) := by
    rw [positionOf, if_neg, hdistance, Nat.mod_eq_of_lt]
    · have hlength : store.records.slots.length = taken.length :=
        congrArg List.length hholds.records
      have hmax : uint32Max < 2 ^ 32 := by decide
      omega
    · rw [not_or, not_or, UInt64.not_lt, UInt64.not_lt, UInt64.le_iff_toNat_le,
        UInt64.le_iff_toNat_le]
      exact ⟨hfirst, hge, hle⟩
  refine ⟨tx, ?_, List.mem_of_getElem? hget, UInt64.toNat_inj.1 hnr⟩
  rw [fetch, hposition]
  change Except.ok store.records.slots[_]? = _
  rw [hholds.records, hget]

/-! ### What is held -/

/-- A store holds one run of numbers or nothing, answers with the records it has taken, and is
unchanged by what it refuses. -/
structure Content (codec : Mapping.Codec) (host : Mapping.RecordHost) (store : InMemory)
    (taken : List Runtime.CompleteTransaction) : Prop where
  records : store.records.slots = taken
  run : taken = [] ∧ store.firstTxNr = 0 ∧ store.maxTxNr = 0 ∨
    0 < store.firstTxNr ∧ store.firstTxNr ≤ store.maxTxNr ∧
      store.records.size = store.maxTxNr.toNat - store.firstTxNr.toNat + 1
  numbered : ∀ position tx, store.records.slots[position]? = some tx →
    tx.txNr.toNat = store.firstTxNr.toNat + position
  answers : ∀ txNr, (∃ found, store.fetch txNr = .ok found) ↔ store.InRun txNr
  answered : ∀ txNr found, store.fetch txNr = .ok found →
    ∃ tx, found = some tx ∧ tx ∈ taken ∧ tx.txNr = txNr ∧
      ∀ other ∈ taken, other.txNr = txNr → other = tx
  appendRefused : ∀ tx room code left rest, append (store, tx) room = (.error code, left, rest) →
    left = (store, tx)
  decodeRefused : ∀ serialized arenas room failure left rest, appendSerialized codec host serialized
        (store, arenas) room = (.error failure, left, rest) → left.1 = store

theorem Holds.run (hholds : Holds communityUuid store taken) :
    taken = [] ∧ store.firstTxNr = 0 ∧ store.maxTxNr = 0 ∨
      0 < store.firstTxNr ∧ store.firstTxNr ≤ store.maxTxNr ∧
        store.records.size = store.maxTxNr.toNat - store.firstTxNr.toNat + 1 := by
  by_cases hne : taken = []
  · exact .inl ⟨hne, hholds.unused hne⟩
  · obtain ⟨hpos, hspan⟩ := hholds.span hne
    have hlength := List.length_pos_iff.2 hne
    refine .inr ⟨UInt64.lt_iff_toNat_lt.2 hpos, UInt64.le_iff_toNat_le.2 (by omega), ?_⟩
    rw [Bvec.size, hholds.records]
    omega

/-- What a store answers is the one record of that number. -/
theorem Holds.answered (hholds : Holds communityUuid store taken) {txNr : UInt64}
    {found : Option Runtime.CompleteTransaction} (hfetch : store.fetch txNr = .ok found) :
    ∃ tx, found = some tx ∧ tx ∈ taken ∧ tx.txNr = txNr ∧
      ∀ other ∈ taken, other.txNr = txNr → other = tx := by
  by_cases hin : store.InRun txNr
  · obtain ⟨tx, hgives, hmem, hnr⟩ := hholds.fetch_of_inRun hin
    cases hgives.symm.trans hfetch
    refine ⟨tx, rfl, hmem, hnr, fun other hother hsame => ?_⟩
    apply hholds.numbered.unique hother hmem
    rw [hsame, hnr]
  · rw [fetch_of_not_inRun hin] at hfetch
    cases hfetch

theorem Reached.content (hreached : Reached codec host communityUuid store taken) :
    Content codec host store taken := by
  have hholds := hreached.holds
  refine ⟨hholds.records, hholds.run, fun position tx hget => ?_, fun txNr => ⟨?_, fun hin => ?_⟩,
    fun _ _ => hholds.answered, fun _ _ _ _ _ => append_error,
    fun _ _ _ _ _ _ hrun => (appendSerialized_error hrun).1⟩
  · rw [hholds.records] at hget
    exact hholds.numbered position tx hget
  · intro ⟨found, hfetch⟩
    by_contra hnot
    rw [fetch_of_not_inRun hnot] at hfetch
    cases hfetch
  · obtain ⟨tx, hgives, -⟩ := hholds.fetch_of_inRun hin
    exact ⟨some tx, hgives⟩

/-- A record of this number and nothing else. -/
def numbered (txNr : UInt64) : Runtime.CompleteTransaction :=
  { Runtime.CompleteTransaction.init with txNr := txNr }

/-- A store takes number seven, refuses number nine and a block of one byte, is reset and takes a
block that says number one. -/
theorem Reached.content_afterReset :
    ∃ (store : InMemory) (taken : List Runtime.CompleteTransaction), taken.map
          Runtime.CompleteTransaction.txNr = [1] ∧
      Content PbTools.codec ⟨Mapping.plainHost, none⟩ store taken := by
  let host : Mapping.RecordHost := ⟨Mapping.plainHost, none⟩
  let held := (InMemory.init (zeroBytes 16)).took (numbered 7)
  have hseven : append (InMemory.init (zeroBytes 16), numbered 7) [] = (.ok (), (held, _), []) :=
    rfl
  have hnine : append (held, numbered 9) [] = (.error .invalidParam, (held, numbered 9), []) := rfl
  have hbroken : (appendSerialized PbTools.codec host [255] (held, .empty) []).1 =
      .error (.refused .decodeFailed) := by
    decide +kernel
  rcases hrefused : appendSerialized PbTools.codec host [255] (held, .empty) []
    with ⟨outcome, ⟨left, after⟩, rest⟩
  rw [hrefused] at hbroken
  cases hbroken
  have hleft : left = held := (appendSerialized_error hrefused).1
  have hreached : Reached PbTools.codec host (zeroBytes 16) held [numbered 7] :=
    hleft ▸ .decodeRefused (.appendRefused (.appended .init hseven) hnine) hrefused
  let emptied := (InMemory.reset (held, .empty)).1
  let block := PbTools.timeoutBytes 1 0
  have htaken : (appendSerialized PbTools.codec host block (emptied, .empty) []).1 = .ok () := by
    decide +kernel
  rcases hrun : appendSerialized PbTools.codec host block (emptied, .empty) []
    with ⟨outcome, ⟨store, after⟩, rest⟩
  rw [hrun] at htaken
  cases htaken
  exact ⟨store, _, by decide +kernel, Reached.content (.decoded (.reset .empty hreached) hrun)⟩

end InMemory

end GradidoBlockchain
