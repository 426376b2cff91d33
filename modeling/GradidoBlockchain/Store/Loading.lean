import GradidoBlockchain.Chain.Answers
import GradidoBlockchain.Chain.Load
import GradidoBlockchain.Store.Alike

/-!
# A chain filled from either store

`grdb_chain_load` over a store that is asked one number after the other, and is not what it was once
it has been asked: an adapter decodes, and keeps what it has decoded. The chain that is filled is
the same whichever of two stores of the same transactions it is filled from, and answers as the
ledger of what was sent.
-/

namespace GradidoBlockchain

open Fallible Fallible.Call

/-- What an index reads of a record. -/
def Runtime.CompleteTransaction.indexed (tx : Runtime.CompleteTransaction) :
    GradidoBlockchain.CompleteTransaction where
  txNr := tx.txNr
  confirmedAt := tx.confirmedAt
  txCommunityUuid := tx.txCommunityUuid
  transfer := ⟨tx.transfer.senderPubkey, tx.transfer.recipientPubkey⟩
  registerAddress := ⟨tx.registerAddress.userPublicKey, tx.registerAddress.accountPublicKey⟩
  communityRoot := tx.communityRoot
  addressType := tx.addressType
  transactionType := tx.transactionType
  accountBalances := tx.accountBalances
  signaturePairs := tx.signaturePairs

/-! ### Loading -/

namespace Chain

variable {A : Arnm} {σ : Type}

/-- What a store answers a number with, and what it is then; nothing where a null pointer
would be followed. -/
abbrev Serving (σ : Type) : Type := Nat → σ → Option (Except ArnmResult CompleteTransaction × σ)

/-- The loop of `grdb_chain_load`, at most `fuel` rounds of it. -/
def loadRoundsFrom (serve : Serving σ) (toTxNr : Nat) :
    Nat → Nat → Nat → Chain A → Room → σ → Option (Loaded A × σ)
  | 0, _, _, _, _, _ => none
  | fuel + 1, number, count, chain, room, store =>
      if toTxNr ≠ 0 ∧ toTxNr < number then some (⟨.ok (), count, chain, room⟩, store)
      else match serve number store with
        | none => none
        | some (.error code, asked) =>
            some (⟨if code = .arrayIndexOutOfBounds ∧ toTxNr = 0 then .ok () else .error code,
                count, chain, room⟩, asked)
        | some (.ok tx, asked) => match add tx chain room with
          | (.error code, left, rest) => some (⟨.error code, count, left, rest⟩, asked)
          | (.ok (), left, rest) =>
              loadRoundsFrom serve toTxNr fuel ((number + 1) % 2 ^ 64) ((count + 1) % 2 ^ 64) left
                rest asked

/-- `grdb_chain_load` from a store that can be read. -/
def loadFrom (serve : Serving σ) (fromTxNr toTxNr : UInt64) (chain : Chain A) (room : Room)
    (store : σ) : Option (Loaded A × σ) :=
  if ¬chain.ready then some (⟨.error .invalidState, 0, chain, room⟩, store)
  else if toTxNr ≠ 0 ∧ toTxNr.toNat < firstOf fromTxNr then
    some (⟨.error .invalidParam, 0, chain, room⟩, store)
  else loadRoundsFrom serve toTxNr.toNat (2 ^ 64) (firstOf fromTxNr) 0 chain room store

/-- As long as it is kept, the store answers every number with what is foretold. -/
def Serves (serve : Serving σ) (kept : σ → Prop)
    (fetch : Nat → Except ArnmResult CompleteTransaction) : Prop :=
  ∀ number store, number < 2 ^ 64 → kept store →
    ∃ asked, serve number store = some (fetch number, asked) ∧ kept asked

variable {serve : Serving σ} {kept : σ → Prop} {fetch : Nat → Except ArnmResult CompleteTransaction}
  {chain : Chain A} {room : Room} {store : σ} {loaded : Loaded A}

/-- A loop over such a store is the loop over what is foretold. -/
theorem loadRoundsFrom_eq (hserves : Serves serve kept fetch) {toTxNr fuel number count : Nat}
    (hlt : number < 2 ^ 64) (hkept : kept store)
    (hrun : loadRounds fetch toTxNr fuel number count chain room = some loaded) :
    ∃ asked, loadRoundsFrom serve toTxNr fuel number count chain room store = some (loaded, asked) ∧
      kept asked := by
  induction fuel generalizing number count chain room store with
  | zero => cases hrun
  | succ fuel ih =>
      rw [loadRounds] at hrun
      rw [loadRoundsFrom]
      split at hrun
      · rw [if_pos ‹_›]
        cases hrun
        exact ⟨store, rfl, hkept⟩
      · rw [if_neg ‹_›]
        obtain ⟨asked, hserve, hasked⟩ := hserves number store hlt hkept
        rw [hserve]
        rcases hfetch : fetch number with code | tx
        · rw [hfetch] at hrun
          cases hrun
          exact ⟨asked, rfl, hasked⟩
        · rw [hfetch] at hrun
          rcases hadd : add tx chain room with ⟨code | _, left, rest⟩
          · simp only [hadd] at hrun ⊢
            cases hrun
            exact ⟨asked, rfl, hasked⟩
          · simp only [hadd] at hrun ⊢
            exact ih (Nat.mod_lt _ (by decide)) hasked hrun

theorem loadFrom_eq (hserves : Serves serve kept fetch) (hkept : kept store)
    {fromTxNr toTxNr : UInt64} (hrun : load ⟨some fetch⟩ fromTxNr toTxNr chain room = some loaded) :
    ∃ asked, loadFrom serve fromTxNr toTxNr chain room store = some (loaded, asked) ∧
      kept asked := by
  rw [load] at hrun
  rw [loadFrom]
  split at hrun
  · rw [if_pos ‹_›]
    cases hrun
    exact ⟨store, rfl, hkept⟩
  · rw [if_neg ‹_›]
    simp only at hrun
    split at hrun
    · rw [if_pos ‹_›]
      cases hrun
      exact ⟨store, rfl, hkept⟩
    · rw [if_neg ‹_›]
      exact loadRoundsFrom_eq hserves (firstOf_lt fromTxNr) hkept hrun

/-! ### A whole store -/

theorem load_returns {options : ChainOptions} (hreachable : Reachable options chain)
    (fetch : Nat → Except ArnmResult CompleteTransaction) (fromTxNr toTxNr : UInt64) (room : Room) :
    ∃ loaded, load ⟨some fetch⟩ fromTxNr toTxNr chain room = some loaded := by
  by_cases hback : toTxNr ≠ 0 ∧ toTxNr.toNat < firstOf fromTxNr
  · rw [load, if_neg (by simp [hreachable.ready])]
    exact ⟨_, if_pos hback⟩
  · rw [load_rounds hreachable.ready hback]
    exact loadRounds_returns hreachable.sound (by omega)

section Stored

variable {txs : List CompleteTransaction} {number : Nat} {tx : CompleteTransaction}

theorem stored_ok (hstored : stored txs number = .ok tx) : tx ∈ txs ∧ tx.nr = number := by
  rw [stored] at hstored
  rcases hfind : txs.find? (fun tx => tx.nr = number) with _ | found
  · rw [hfind] at hstored
    cases hstored
  · rw [hfind] at hstored
    cases hstored
    exact ⟨List.mem_of_find?_eq_some hfind, by simpa using List.find?_some hfind⟩

theorem stored_error {code : ArnmResult} (hstored : stored txs number = .error code) :
    code = .arrayIndexOutOfBounds ∧ ∀ tx ∈ txs, tx.nr ≠ number := by
  rw [stored] at hstored
  rcases hfind : txs.find? (fun tx => tx.nr = number) with _ | found
  · rw [hfind] at hstored
    cases hstored
    exact ⟨rfl, fun tx htx hnr => List.find?_eq_none.1 hfind tx htx (decide_eq_true hnr)⟩
  · rw [hfind] at hstored
    cases hstored

variable {options : ChainOptions} {first count : Nat} {middle : Chain A} {between : Room}

/-- What is taken of consecutive transactions is the next part of them. -/
theorem Taken.grown (hnumbered : Numbered.Run CompleteTransaction.nr first txs)
    (htaken : Taken (stored txs) number count chain room middle between) {position : Nat}
    (hnumber : number = first + position) (hposition : position ≤ txs.length)
    (hgrown : Grown options (txs.take position) chain) :
    position + count ≤ txs.length ∧ Grown options (txs.take (position + count)) middle := by
  induction htaken generalizing position with
  | none => exact ⟨hposition, hgrown⟩
  | @more number count _ _ _ _ _ _ tx _ hfetch hadd _ ih =>
      obtain ⟨hmem, hnr⟩ := stored_ok hfetch
      obtain ⟨place, hplace⟩ := List.getElem?_of_mem hmem
      have hlt := (List.getElem?_eq_some_iff.1 hplace).1
      have hsame : place = position := by
        have hcounted := hnumbered place tx hplace
        omega
      rw [hsame] at hplace hlt
      have hnext : txs.take (position + 1) = txs.take position ++ [tx] := by
        rw [List.take_add_one, hplace]
        rfl
      have hadded := hgrown.add hadd
      rw [← hnext] at hadded
      have hrest := ih (show number + 1 = first + (position + 1) by omega) (by omega) hadded
      rwa [Nat.add_assoc, Nat.add_comm 1] at hrest

/-- A part of the ledger from its beginning has been loaded, and all of it if
nothing was refused. -/
structure Restored (options : ChainOptions) (txs : List CompleteTransaction)
    (loaded : Loaded A) : Prop where
  part : loaded.loaded ≤ txs.length
  whole : loaded.result = .ok () ↔ loaded.loaded = txs.length
  grown : ∃ chain, Grown options (txs.take loaded.loaded) chain ∧
    (loaded.result = .ok () → loaded.chain = chain)

/-- A new chain is filled with consecutive transactions from their first one on. -/
theorem load_stored (options : ChainOptions) {fromTxNr : UInt64}
    (hnumbered : Numbered.Run CompleteTransaction.nr (firstOf fromTxNr) txs) (room : Room) :
    ∃ loaded, load ⟨some (stored txs)⟩ fromTxNr 0 (fresh options : Chain A) room = some loaded ∧
      Restored options txs loaded := by
  have hreachable : Reachable options (fresh options : Chain A) := reachable_fresh options
  have hpos := firstOf_pos fromTxNr
  have hzero : stored txs 0 = .error .arrayIndexOutOfBounds := by
    rcases hstored : stored txs 0 with code | tx
    · rw [(stored_error hstored).1]
    · obtain ⟨hmem, hnr⟩ := stored_ok hstored
      obtain ⟨place, hplace⟩ := List.getElem?_of_mem hmem
      have hcounted := hnumbered place tx hplace
      omega
  obtain ⟨loaded, hrun, hlongest⟩ : ∃ loaded, loadRounds (stored txs) 0 (2 ^ 64) (firstOf fromTxNr)
          0 (fresh options : Chain A) room = some loaded ∧ _ :=
    loadRounds_longest_iff hreachable.sound hpos (firstOf_lt fromTxNr) (by decide) fun h =>
      absurd rfl h
  obtain ⟨middle, between, htaken, -, hends⟩ :=
    hlongest.2 fun hover => hover.2.elim (fun h => by cases h) fun h => h.2 hzero
  obtain ⟨hpart, hgrown⟩ :=
    htaken.grown hnumbered (show _ = _ + 0 from rfl) (Nat.zero_le _) (grown_fresh options)
  rw [Nat.zero_add] at hpart hgrown
  have hforward : ¬((0 : UInt64) ≠ 0 ∧ (0 : UInt64).toNat < firstOf fromTxNr) := fun h => h.1 rfl
  obtain ⟨result, count, left, rest⟩ := loaded
  refine ⟨⟨result, count, left, rest⟩, (load_rounds hreachable.ready hforward).trans hrun, hpart,
    ?_, middle, hgrown, ?_⟩
  · constructor
    · intro hok
      subst hok
      cases hends with
      | reached hne => exact absurd rfl hne
      | storeEnded _ hended =>
          by_contra hshort
          have hlt : count < txs.length := Nat.lt_of_le_of_ne hpart hshort
          have hcounted : (txs[count]).nr = firstOf fromTxNr + count :=
            hnumbered _ _ (List.getElem?_eq_getElem hlt)
          have hfits := (txs[count]).nr_lt
          exact (stored_error (hended (show firstOf fromTxNr + count < 2 ^ 64 by omega))).2 _
            (List.getElem_mem hlt) hcounted
    · intro hall
      cases hends with
      | reached => rfl
      | storeEnded => rfl
      | notFetched _ hfetch hcode => exact absurd (stored_error hfetch).1 (hcode rfl)
      | @refused _ _ _ tx _ hfetch =>
          obtain ⟨hmem, hnr⟩ := stored_ok hfetch
          obtain ⟨place, hplace⟩ := List.getElem?_of_mem hmem
          have hcounted := hnumbered place tx hplace
          have hlt := (List.getElem?_eq_some_iff.1 hplace).1
          change count = txs.length at hall
          change tx.nr = firstOf fromTxNr + count at hnr
          omega
  · intro hok
    cases hok
    cases hends with
    | reached hne => exact absurd rfl hne
    | storeEnded => rfl

/-- The chain answers every filter and every key as its ledger does. -/
structure AnswersAs (home : Uuid) (txs : List CompleteTransaction) (chain : Chain A) : Prop where
  count : ∀ filter : TransactionsFilter, (filter.NamesDates → DaysAscend dayOfSecond txs) →
    chain.count filter = .ok (scan dayOfSecond home filter txs).length
  listing : ∀ (filter : TransactionsFilter) skip size descending, (filter.NamesDates →
      DaysAscend dayOfSecond txs) → size ≤ Transactions.pageMax →
    chain.listing filter skip size descending =
      .ok (Page.page skip size (Page.oriented descending (scan dayOfSecond home filter txs)),
        (scan dayOfSecond home filter txs).length)
  newest : ∀ filter : TransactionsFilter, (filter.NamesDates → DaysAscend dayOfSecond txs) →
    chain.newest filter = (scan dayOfSecond home filter txs).getLast?
  lastBalance : ∀ key, key ≠ zeroBytes 32 →
    chain.addressLastBalance key = (balanceNumbers key txs).max?
  typeAt : ∀ key atTxNr, key ≠ zeroBytes 32 → chain.addressTypeAt key atTxNr =
    ((typeEvents key txs).filter fun event => event.1 ≤ atTxNr).getLast?.map Prod.snd

theorem Grown.answersAs {home : Uuid} (hgrown : Grown options txs chain)
    (hcommunity : ∀ tx ∈ txs, tx.txCommunityUuid = home) : AnswersAs home txs chain := by
  obtain ⟨volumes, hrow⟩ := hgrown.row
  have hpositive : ∀ tx ∈ txs, 1 ≤ tx.nr := fun tx htx => (hrow.nr_mem htx).1
  exact ⟨fun filter hdates => hrow.count_eq_scan (.inr hcommunity) hdates,
    fun filter skip size descending hdates hsize =>
      hrow.listing_eq_scan (.inr hcommunity) hdates skip hsize descending,
    fun filter hdates => hrow.newest_eq_scan (.inr hcommunity) hdates,
    fun key hkey => hrow.registered.lastBalance_eq_max hrow.ascending hpositive hkey,
    fun key atTxNr hkey => hrow.registered.typeAt_eq_last hrow.ascending hkey atTxNr⟩

end Stored

end Chain

/-! ### What the two stores serve -/

/-- A store in memory as `grdb_chain_load` reads it. A record that is not there would be
refused by the add. -/
def InMemory.serve : Chain.Serving InMemory := fun number store =>
  match store.fetch (UInt64.ofNat number) with
  | .error code => some (.error code, store)
  | .ok none => some (.error .nullPointer, store)
  | .ok (some tx) => some (.ok tx.indexed, store)

/-- What a host says of a row it can look for. -/
def ChainFfi.rowAnswer (ffi : ChainFfi) (txNr : UInt64) : GetAnswer :=
  match ffi.rows txNr with
  | some row => .found row
  | none => .notFound

/-- An adapter as `grdb_chain_load` reads it, with memory enough to decode. -/
def ChainFfi.serve (codec : Mapping.Codec) (recordHost : Mapping.RecordHost)
    (host : FfiHost) : Chain.Serving ChainFfi :=
  fun number ffi =>
    match fetch codec recordHost host (UInt64.ofNat number) (ffi.rowAnswer (UInt64.ofNat number)) ffi [] with
    | (.ok tx, left, _) => some (.ok tx.indexed, left)
    | (.error (.refused code), left, _) => some (.error code, left)
    | (.error .readAbsent, _, _) => none

theorem ChainFfi.answers_rowAnswer (ffi : ChainFfi) (txNr : UInt64) :
    Answers ffi.rows txNr (ffi.rowAnswer txNr) := by
  rw [rowAnswer]
  split
  · assumption
  · assumption

namespace Stores

/-- What the indices are told of a transaction that has been sent, whatever arena
its record is in. -/
def ledgerEntry (communityUuid : Uuid)
    (pair : Wire.ConfirmedTransaction × Wire.TransactionBody) : CompleteTransaction :=
  (Mapping.recordOf pair.1 pair.2 communityUuid ⟨.store, 0⟩).indexed

/-- The ledger of what has been sent. -/
def ledger (communityUuid : Uuid) (sent : SentList) : List CompleteTransaction :=
  sent.map (ledgerEntry communityUuid)

variable {recordHost : Mapping.RecordHost} {host : FfiHost} {communityUuid : Uuid} {sent : SentList}
  {store : InMemory} {ffi : ChainFfi}

theorem indexed_recordOf (pair : Wire.ConfirmedTransaction × Wire.TransactionBody)
    (area : Runtime.Arena) :
    (Mapping.recordOf pair.1 pair.2 communityUuid area).indexed =
      ledgerEntry communityUuid pair := by
  rw [ledgerEntry, Mapping.recordOf_fields, Mapping.recordOf_fields]
  cases pair.2.detail <;> rfl

theorem ledgerEntry_txNr (pair : Wire.ConfirmedTransaction × Wire.TransactionBody) :
    (ledgerEntry communityUuid pair).txNr = pair.1.id := Mapping.recordOf_txNr ..

theorem ledgerEntry_community (pair : Wire.ConfirmedTransaction × Wire.TransactionBody) :
    (ledgerEntry communityUuid pair).txCommunityUuid = communityUuid := by
  obtain ⟨_, _, _, _, _, _, _, _, hcopied⟩ :=
    Mapping.copied_bare pair.2.detail (Mapping.bareRecord pair.1 pair.2 communityUuid ⟨.store, 0⟩)
  rw [ledgerEntry, Mapping.recordOf_fields, hcopied]
  rfl

/-- A number is answered with the entry of what was sent under it, or it has not been sent. -/
theorem stored_ledger (txNr : UInt64) :
    (∃ pair ∈ sent, pair.1.id = txNr ∧
        Chain.stored (ledger communityUuid sent) txNr.toNat =
          .ok (ledgerEntry communityUuid pair)) ∨
      (∀ pair ∈ sent, pair.1.id ≠ txNr) ∧
        Chain.stored (ledger communityUuid sent) txNr.toNat = .error .arrayIndexOutOfBounds := by
  rcases hfind : (ledger communityUuid sent).find? (fun tx => tx.nr = txNr.toNat) with _ | tx
  · refine .inr ⟨fun pair hpair hid => ?_, by rw [Chain.stored, hfind]⟩
    have hnot := List.find?_eq_none.1 hfind _ (List.mem_map_of_mem hpair)
    apply hnot
    rw [CompleteTransaction.nr, ledgerEntry_txNr, hid]
    exact decide_eq_true rfl
  · obtain ⟨pair, hpair, rfl⟩ := List.mem_map.1 (List.mem_of_find?_eq_some hfind)
    have hfound := List.find?_some hfind
    have hnr : (ledgerEntry communityUuid pair).nr = txNr.toNat := of_decide_eq_true hfound
    rw [CompleteTransaction.nr, ledgerEntry_txNr] at hnr
    exact .inl ⟨pair, hpair, UInt64.toNat_inj.1 hnr, by rw [Chain.stored, hfind]⟩

theorem Alike.memory_serves (halike : Alike recordHost host communityUuid sent store ffi) :
    Chain.Serves InMemory.serve (· = store) (Chain.stored (ledger communityUuid sent)) := by
  rintro number _ hlt rfl
  have hnumber : (UInt64.ofNat number).toNat = number := UInt64.toNat_ofNat_of_lt' hlt
  refine ⟨_, ?_, rfl⟩
  rw [InMemory.serve]
  rcases stored_ledger (UInt64.ofNat number) with ⟨pair, hpair, hid, hstored⟩ | ⟨habsent, hstored⟩
  · obtain ⟨area, hfetch⟩ := halike.stored pair hpair
    rw [hid] at hfetch
    rw [hnumber] at hstored
    rw [hfetch, hstored]
    simp only [indexed_recordOf]
  · rw [hnumber] at hstored
    rw [(halike.absent _ habsent).1, hstored]

theorem Both.adapter_serves (hput : host.put = true) :
    Chain.Serves (ChainFfi.serve PbTools.codec recordHost host)
      (Both recordHost host communityUuid sent store)
      (Chain.stored (ledger communityUuid sent)) := by
  intro number ffi hlt hboth
  have halike := (hboth.agree hput).alike
  have hnumber : (UInt64.ofNat number).toNat = number := UInt64.toNat_ofNat_of_lt' hlt
  have hanswer := ffi.answers_rowAnswer (UInt64.ofNat number)
  rw [ChainFfi.serve]
  rcases hfetch : ChainFfi.fetch PbTools.codec recordHost host (UInt64.ofNat number)
      (ffi.rowAnswer (UInt64.ofNat number)) ffi []
    with ⟨outcome, left, rest⟩
  refine ⟨left, ?_, hboth.fetched hanswer hfetch⟩
  rcases stored_ledger (UInt64.ofNat number) with ⟨pair, hpair, hid, hstored⟩ | ⟨habsent, hstored⟩
  · obtain ⟨bytes, hrow, area, after, hserved⟩ := halike.served pair hpair
    rw [hid] at hrow hserved
    have hanswered : ffi.rowAnswer (UInt64.ofNat number) = .found bytes := by
      rw [ChainFfi.rowAnswer, hrow]
    rw [hanswered, hserved] at hfetch
    cases hfetch
    rw [hnumber] at hstored
    rw [hstored]
    simp only [indexed_recordOf]
  · have hlooked : ffi.rowAnswer (UInt64.ofNat number) ≠ .failed := by
      rw [ChainFfi.rowAnswer]
      split
      · exact fun h => by cases h
      · exact fun h => by cases h
    have houtcome := (halike.absent _ habsent).2 _ [] hanswer hlooked
    rw [hfetch] at houtcome
    cases houtcome
    rw [hnumber] at hstored
    rw [hstored]

variable {A : Arnm}

/-- What is loaded of the ledger is loaded from both stores. -/
theorem Both.loads (hboth : Both recordHost host communityUuid sent store ffi)
    (hput : host.put = true) {fromTxNr toTxNr : UInt64} {chain : Chain A} {room : Room}
    {loaded : Chain.Loaded A}
    (hrun :
      Chain.load ⟨some (Chain.stored (ledger communityUuid sent))⟩ fromTxNr toTxNr chain room =
        some loaded) :
    Chain.loadFrom InMemory.serve fromTxNr toTxNr chain room store = some (loaded, store) ∧
      ∃ left, Chain.loadFrom (ChainFfi.serve PbTools.codec recordHost host) fromTxNr toTxNr chain
            room ffi = some (loaded, left) ∧
        Both recordHost host communityUuid sent store left := by
  obtain ⟨_, hmemory, rfl⟩ := Chain.loadFrom_eq (hboth.agree hput).alike.memory_serves rfl hrun
  exact ⟨hmemory, Chain.loadFrom_eq (Both.adapter_serves hput) hboth hrun⟩

theorem Agree.ledger_eq (hagree : Agree recordHost host communityUuid sent store ffi) :
    ledger communityUuid sent = store.records.slots.map Runtime.CompleteTransaction.indexed := by
  have hrecords := hagree.records
  rw [ledger]
  clear hagree
  generalize store.records.slots = slots at hrecords ⊢
  induction hrecords with
  | nil => rfl
  | cons hfirst _ ih =>
      obtain ⟨area, rfl⟩ := hfirst
      rw [List.map_cons, List.map_cons, ih, indexed_recordOf]

/-- The transactions that have been sent are numbered from the first number of the store on. -/
theorem Agree.numbered (hagree : Agree recordHost host communityUuid sent store ffi) :
    Numbered.Run CompleteTransaction.nr (Chain.firstOf store.firstTxNr)
      (ledger communityUuid sent) := by
  rw [hagree.ledger_eq]
  intro position tx hget
  rw [List.getElem?_map, Option.map_eq_some_iff] at hget
  obtain ⟨record, hrecord, rfl⟩ := hget
  have hne := (hagree.holds.span (List.ne_nil_of_mem (List.mem_of_getElem? hrecord))).1
  have hfirst : Chain.firstOf store.firstTxNr = store.firstTxNr.toNat :=
    if_neg (Chain.toNat_ne_zero.1 (Nat.ne_of_gt hne))
  rw [hfirst]
  exact hagree.holds.numbered position record hrecord

end Stores

end GradidoBlockchain
