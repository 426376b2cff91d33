import GradidoBlockchain.Pb.Messages
import GradidoBlockchain.Store.Appending
import GradidoBlockchain.Wire.RoundTrip

/-!
# Who holds the arenas

The arena of a record that is moved in comes with it, and a record that is decoded has one of its
own. A decode that opens the arena and cannot fill the record leaves the arena behind with nobody to
give it back; as long as that does not happen, the store holds what it has opened.
-/

namespace GradidoBlockchain

open Fallible Fallible.Call Ownership

namespace InMemory

variable {store : InMemory} {arenas : Runtime.Arenas} {codec : Mapping.Codec}
  {host : Mapping.RecordHost} {communityUuid : Uuid}

/-! ### Histories -/

/-- The records that a store has taken since the last reset, with who made each of them. -/
abbrev Taken : Type := List (Runtime.Opener × Runtime.CompleteTransaction)

/-- What becomes of a store and the arenas of the host while callers open and give back arenas of
their own, and move records in. `allowed` says which bytes are brought to a decode. -/
inductive History (codec : Mapping.Codec) (host : Mapping.RecordHost) (communityUuid : Uuid)
    (allowed : InMemory → List UInt8 → Room → Prop) :
    InMemory → Runtime.Arenas → List Runtime.Arena → Taken → Prop
  | init : History codec host communityUuid allowed (.init communityUuid) .empty [] []
  | opened {store arenas callers taken} :
      History codec host communityUuid allowed store arenas callers taken →
      History codec host communityUuid allowed store (arenas.openNext .caller)
        (arenas.next .caller :: callers) taken
  | closed {store arenas area callers taken} :
      History codec host communityUuid allowed store arenas (area :: callers) taken →
      History codec host communityUuid allowed store (arenas.release (some area)) callers taken
  | reordered {store arenas callers others taken} : callers.Perm others →
      History codec host communityUuid allowed store arenas callers taken →
      History codec host communityUuid allowed store arenas others taken
  | appended {store left arenas callers taken tx moved room rest} : History codec host communityUuid
        allowed store arenas (tx.memoryArea.toList ++ callers) taken →
      append (store, tx) room = (.ok (), (left, moved), rest) →
      History codec host communityUuid allowed left arenas callers (taken ++ [(.caller, tx)])
  | appendRefused {store left arenas callers taken tx kept room rest code} :
      History codec host communityUuid allowed store arenas callers taken →
      append (store, tx) room = (.error code, (left, kept), rest) →
      History codec host communityUuid allowed left arenas callers taken
  | decoded {store left arenas after callers taken serialized room rest} :
      History codec host communityUuid allowed store arenas callers taken →
      allowed store serialized room →
      appendSerialized codec host serialized (store, arenas) room = (.ok (), (left, after), rest) →
      History codec host communityUuid allowed left after callers
        (taken ++ [(.store, (kept (left, after)).1)])
  | decodeRefused {store left arenas after callers taken serialized room rest failure} :
      History codec host communityUuid allowed store arenas callers taken →
      allowed store serialized room →
      appendSerialized codec host serialized (store, arenas) room =
        (.error failure, (left, after), rest) →
      History codec host communityUuid allowed left after callers taken
  | reset {store arenas callers taken} :
      History codec host communityUuid allowed store arenas callers taken →
      History codec host communityUuid allowed (InMemory.reset (store, arenas)).1
        (InMemory.reset (store, arenas)).2 callers []

/-- The arenas of the records. -/
def areas (store : InMemory) : List Runtime.Arena := store.records.slots.filterMap (·.memoryArea)

/-- The store holds the arenas of its records, and a record's arena has been opened by
who made the record. -/
structure Tended (store : InMemory) (arenas : Runtime.Arenas) (callers : List Runtime.Arena)
    (taken : Taken) : Prop where
  records : store.records.slots = taken.map (·.2)
  owns : Owns arenas (store.areas ++ callers)
  opener : ∀ who tx area, (who, tx) ∈ taken → tx.memoryArea = some area → area.opener = who
  decoded : ∀ tx, (.store, tx) ∈ taken → tx.memoryArea.isSome
  callers : ∀ area ∈ callers, area.opener = .caller

variable {callers : List Runtime.Arena} {taken : Taken} {tx : Runtime.CompleteTransaction}

theorem Tended.init : Tended (.init communityUuid) .empty [] [] :=
  ⟨rfl, .empty, by simp, by simp, by simp⟩

theorem areas_took (hlt : store.records.size < uint32Max) :
    (store.took tx).areas = store.areas ++ tx.memoryArea.toList := by
  have hslots : (store.took tx).records.slots = store.records.slots ++ [tx] := slots_slotted hlt tx
  rw [areas, hslots, List.filterMap_append, areas]
  cases harea : tx.memoryArea <;> simp [harea]

/-- A record that comes with its arena is held by the store from then on. -/
theorem Tended.took {who : Runtime.Opener} (htended : Tended store arenas callers taken)
    (hlt : store.records.size < uint32Max) {after : Runtime.Arenas} {others : List Runtime.Arena}
    (howns : Owns after (store.areas ++ (tx.memoryArea.toList ++ others)))
    (hothers : ∀ area ∈ others, area.opener = .caller)
    (hopener : ∀ area, tx.memoryArea = some area → area.opener = who)
    (hdecoded : who = .store → tx.memoryArea.isSome) :
    Tended (store.took tx) after others (taken ++ [(who, tx)]) := by
  refine ⟨?_, ?_, fun someone record area hmem harea => ?_, fun record hmem => ?_, hothers⟩
  · rw [List.map_append, ← htended.records]
    exact slots_slotted hlt tx
  · rw [areas_took hlt, List.append_assoc]
    exact howns
  · rcases List.mem_append.1 hmem with hmem | hmem
    · exact htended.opener someone record area hmem harea
    · cases List.mem_singleton.1 hmem
      exact hopener area harea
  · rcases List.mem_append.1 hmem with hmem | hmem
    · exact htended.decoded record hmem
    · cases List.mem_singleton.1 hmem
      exact hdecoded rfl

/-- A reset gives back every arena the store holds. -/
theorem Tended.reset (htended : Tended store arenas callers taken) :
    Tended (reset (store, arenas)).1 (reset (store, arenas)).2 callers [] := by
  refine ⟨rfl, ?_, by simp, by simp, htended.callers⟩
  apply Owns.releaseAll
  rw [List.filterMap_map]
  exact htended.owns

/-- A decode either leaves no arena behind, or its bytes could not fill the record it
had opened one for. -/
def Settling (codec : Mapping.Codec) (host : Mapping.RecordHost) (store : InMemory)
    (serialized : List UInt8) (room : Room) : Prop :=
  ∀ middle, store.records.size < uint32Max → granted 1 room = some middle →
    Settles codec host serialized middle

/-- With enough memory, all it takes is a record that the decoded values can fill. -/
theorem settling_of_fillable {serialized : List UInt8}
    (hfillable : ∀ confirmed body, Mapping.decoded codec host.toHost serialized =
        some (confirmed, body) → Mapping.Fillable host body confirmed) :
    Settling codec host store serialized [] := by
  intro middle _ hmiddle confirmed body after last hboth _ hlast
  rw [granted_nil] at hmiddle
  cases hmiddle
  have hgives := Mapping.decodeBoth_gives hboth
  cases hboth.symm.trans hgives
  rw [granted_nil] at hlast
  cases hlast
  exact ⟨hfillable confirmed body (Mapping.decodeBoth_decoded hboth), [], granted_nil _⟩

theorem Tended.decodeRefused {serialized : List UInt8} {left : InMemory × Runtime.Arenas}
    {room rest : Room} {failure : Mapping.Failure} (htended : Tended store arenas callers taken)
    (hsettling : Settling codec host store serialized room)
    (hrun : appendSerialized codec host serialized (store, arenas) room =
      (.error failure, left, rest)) : Tended left.1 left.2 callers taken := by
  obtain ⟨hstore, harenas | harenas | ⟨hleaks, -⟩⟩ := appendSerialized_error hrun
  · rw [hstore, harenas]
    exact htended
  · rw [hstore, harenas]
    exact ⟨htended.records, (htended.owns.openNext .store).release, htended.opener, htended.decoded,
      htended.callers⟩
  · exact absurd hsettling hleaks

theorem History.tended
    (hhistory : History codec host communityUuid (Settling codec host) store arenas callers taken) :
    Tended store arenas callers taken := by
  induction hhistory with
  | init => exact .init
  | @opened store arenas callers taken _ ih =>
      refine ⟨ih.records, (ih.owns.openNext .caller).perm List.perm_middle.symm, ih.opener,
        ih.decoded, fun area hmem => ?_⟩
      rcases List.mem_cons.1 hmem with rfl | hmem
      · rfl
      · exact ih.callers area hmem
  | closed _ ih =>
      exact ⟨ih.records, (ih.owns.perm List.perm_middle).release, ih.opener, ih.decoded,
        fun area hmem => ih.callers area (List.mem_cons_of_mem _ hmem)⟩
  | reordered hperm _ ih =>
      exact ⟨ih.records, ih.owns.perm (hperm.append_left _), ih.opener, ih.decoded,
        fun area hmem => ih.callers area (hperm.mem_iff.2 hmem)⟩
  | appended _ hrun ih =>
      obtain ⟨hlt, -, hleft⟩ := append_ok hrun
      cases hleft
      refine ih.took hlt ih.owns (fun area hmem => ih.callers area (List.mem_append_right _ hmem))
        (fun area harea => ?_) ?_
      · apply ih.callers
        rw [harea]
        exact List.mem_cons_self
      · intro h
        cases h
  | appendRefused _ hrun ih =>
      cases append_error hrun
      exact ih
  | @decoded store left arenas after callers taken serialized room rest _ _ hrun ih =>
      obtain ⟨confirmed, body, -, hlt, -, hleft⟩ := appendSerialized_ok hrun
      cases hleft
      have harea : (store.decodedInto arenas confirmed body).memoryArea =
          some (arenas.next .store) := decodedInto_memoryArea confirmed body
      have hkept :
          kept (store.took (store.decodedInto arenas confirmed body), arenas.openNext .store) =
            (store.decodedInto arenas confirmed body, arenas.openNext .store) := kept_slotted hlt
      rw [hkept]
      refine ih.took hlt ?_ ih.callers (fun area hsome => ?_) fun _ => ?_
      · rw [harea]
        exact (ih.owns.openNext .store).perm List.perm_middle.symm
      · rw [harea] at hsome
        cases hsome
        rfl
      · rw [harea]
        rfl
  | decodeRefused _ hsettling hrun ih => exact ih.decodeRefused hsettling hrun
  | reset _ ih => exact ih.reset

/-- The end of a decode that is refused, whatever it is. -/
theorem History.refused {allowed : InMemory → List UInt8 → Room → Prop} {serialized : List UInt8}
    {room : Room} {failure : Mapping.Failure}
    (hhistory : History codec host communityUuid allowed store arenas callers taken)
    (hallowed : allowed store serialized room)
    (hrun : (appendSerialized codec host serialized (store, arenas) room).1 = .error failure) :
    History codec host communityUuid allowed
      (appendSerialized codec host serialized (store, arenas) room).2.1.1
      (appendSerialized codec host serialized (store, arenas) room).2.1.2 callers taken :=
  .decodeRefused hhistory hallowed (Prod.ext hrun rfl)

/-- The end of a decode that is accepted. -/
theorem History.accepted {allowed : InMemory → List UInt8 → Room → Prop} {serialized : List UInt8}
    {room : Room} (hhistory : History codec host communityUuid allowed store arenas callers taken)
    (hallowed : allowed store serialized room)
    (hrun : (appendSerialized codec host serialized (store, arenas) room).1 = .ok ()) :
    History codec host communityUuid allowed
      (appendSerialized codec host serialized (store, arenas) room).2.1.1
      (appendSerialized codec host serialized (store, arenas) room).2.1.2 callers
      (taken ++
        [(.store, (kept (appendSerialized codec host serialized (store, arenas) room).2.1).1)]) :=
  .decoded hhistory hallowed (Prod.ext hrun rfl)

/-! ### The account -/

/-- The live arenas that the store has opened are those of the stored records it has decoded, one
for each, and nothing has been given back twice. -/
structure Accounted (store : InMemory) (arenas : Runtime.Arenas) (taken : Taken) : Prop where
  records : store.records.slots = taken.map (·.2)
  live : ∀ area : Runtime.Arena, area.opener = .store →
    (arenas.Live area ↔ ∃ tx, (.store, tx) ∈ taken ∧ tx.memoryArea = some area)
  arena : ∀ tx, (.store, tx) ∈ taken → tx.memoryArea.isSome
  once : (store.records.slots.filterMap (·.memoryArea)).Nodup
  releasedOnce : arenas.released.Nodup

theorem Tended.live (htended : Tended store arenas callers taken) {area : Runtime.Arena}
    (hopener : area.opener = .store) :
    arenas.Live area ↔ ∃ tx, (.store, tx) ∈ taken ∧ tx.memoryArea = some area := by
  rw [← htended.owns.mem_held, List.mem_append, areas, List.mem_filterMap, htended.records]
  constructor
  · rintro (⟨tx, hmem, harea⟩ | hmem)
    · obtain ⟨⟨who, _⟩, htaken, rfl⟩ := List.mem_map.1 hmem
      have hwho := htended.opener who _ area htaken harea
      rw [hopener] at hwho
      rw [hwho] at *
      exact ⟨_, htaken, harea⟩
    · have hcaller := htended.callers area hmem
      rw [hopener] at hcaller
      cases hcaller
  · intro ⟨tx, htaken, harea⟩
    exact .inl ⟨tx, List.mem_map.2 ⟨_, htaken, rfl⟩, harea⟩

theorem History.accounted
    (hhistory : History codec host communityUuid (Settling codec host) store arenas callers taken) :
    Accounted store arenas taken := by
  have htended := hhistory.tended
  exact ⟨htended.records, fun _ => htended.live, htended.decoded,
    htended.owns.heldOnce.of_append_left, htended.owns.releasedOnce⟩

/-- An update of the friends of a community. -/
def friendsUpdateBytes : List UInt8 := PbTools.shortBytes [1] (PbTools.emptyBody 66) 0

theorem History.accounted_timeout :
    Accounted (appendSerialized PbTools.codec ⟨Mapping.plainHost, none⟩ (PbTools.timeoutBytes 1 0)
      (InMemory.init (zeroBytes 16), .empty) []).2.1.1
      (appendSerialized PbTools.codec ⟨Mapping.plainHost, none⟩ (PbTools.timeoutBytes 1 0)
        (InMemory.init (zeroBytes 16), .empty) []).2.1.2
      [(.store,
        (kept (appendSerialized PbTools.codec ⟨Mapping.plainHost, none⟩ (PbTools.timeoutBytes 1 0)
          (InMemory.init (zeroBytes 16), .empty) []).2.1).1)] := by
  have hdecoded : (Mapping.decoded PbTools.codec Mapping.plainHost (PbTools.timeoutBytes 1 0)).map
        (fun both => both.2.detail) = some (.timeoutDeferredTransfer 0) := by decide +kernel
  apply History.accounted
  apply History.init.accepted
  · apply settling_of_fillable
    intro confirmed body hboth
    rw [hboth] at hdecoded
    have hdetail : body.detail = .timeoutDeferredTransfer 0 := Option.some.inj hdecoded
    refine ⟨?_, fun _ _ _ => rfl, fun _ => rfl⟩
    rw [hdetail]
    trivial
  · decide +kernel

/-- The update is well formed, but no record has a place for it: it is refused, and its arena is
live and nobody's. -/
theorem History.not_accounted :
    ∃ store arenas, History PbTools.codec ⟨Mapping.plainHost, none⟩ (zeroBytes 16)
        (fun _ _ _ => True) store arenas [] [] ∧ ¬Accounted store arenas [] := by
  have hrun : (appendSerialized PbTools.codec ⟨Mapping.plainHost, none⟩ friendsUpdateBytes
        (InMemory.init (zeroBytes 16), Ownership.Supply.empty) []).1 =
      .error (.refused .enumUnhandled) := by decide +kernel
  have harenas : (appendSerialized PbTools.codec ⟨Mapping.plainHost, none⟩ friendsUpdateBytes
        (InMemory.init (zeroBytes 16), Ownership.Supply.empty) []).2.1.2 = ⟨[⟨.store, 0⟩], []⟩ := by
    decide +kernel
  refine ⟨_, _, History.init.refused trivial hrun, fun haccounted => ?_⟩
  have hlive := haccounted.live ⟨.store, 0⟩ rfl
  rw [harenas] at hlive
  obtain ⟨tx, hmem, -⟩ := hlive.1 ⟨List.mem_singleton.2 rfl, List.not_mem_nil⟩
  cases hmem

end InMemory

end GradidoBlockchain
