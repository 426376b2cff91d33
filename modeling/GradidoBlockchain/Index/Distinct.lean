import GradidoBlockchain.Arnm.Distinct
import GradidoBlockchain.Index.Reached
import Mathlib.Data.Finset.Dedup

/-!
# How many addresses and coins an index knows

An index opens an entry for every address and every foreign coin community on first sight, also for
a transaction that is then refused. Followed along a run with the ledger it leaves, the entries are
those of the ledger, and at most those of the transaction that waits besides.
-/

namespace GradidoBlockchain

open Fallible Fallible.Call

variable {A : Arnm} {C : Clearing A} {tx : CompleteTransaction} {txs : List CompleteTransaction}
  {pending : Option CompleteTransaction} {index left start : Transactions A} {offset : Nat}
  {names : PublicKey → Prop} {coins : Uuid → Prop}

/-! ### The addresses and coins of a ledger -/

/-- The addresses a transaction signs with, lists or names in its body. -/
def CompleteTransaction.keys (tx : CompleteTransaction) : List PublicKey :=
  (tx.signaturePairs.map SignaturePair.publicKey ++ tx.accountBalances.map AccountBalance.pubkey ++
    Transactions.named tx).filter fun key => key ≠ zeroBytes 32

theorem CompleteTransaction.mem_keys {key : PublicKey} : key ∈ tx.keys ↔ tx.Involves key := by
  have hnamed := @Transactions.bodyNames_iff tx key
  simp only [CompleteTransaction.keys, CompleteTransaction.Involves, CompleteTransaction.SignedBy,
    CompleteTransaction.ListsBalance, hnamed, List.mem_filter, List.mem_append, List.mem_map,
    decide_eq_true_eq]
  rw [and_comm, and_or_left, and_or_left, or_assoc]

/-- All addresses of a ledger. -/
def addressesOf (txs : List CompleteTransaction) : Finset PublicKey :=
  (txs.flatMap CompleteTransaction.keys).toFinset

theorem mem_addressesOf {key : PublicKey} :
    key ∈ addressesOf txs ↔ ∃ tx ∈ txs, tx.Involves key := by
  rw [addressesOf, List.mem_toFinset, List.mem_flatMap]
  exact exists_congr fun _ => and_congr_right fun _ => CompleteTransaction.mem_keys

/-- The community of a chain is that of its first transaction. -/
def homeOfLedger (txs : List CompleteTransaction) : Uuid :=
  (txs.head?.map CompleteTransaction.txCommunityUuid).getD (zeroBytes 16)

/-- All coin communities of a ledger but its own. -/
def foreignCoinsOf (txs : List CompleteTransaction) : Finset Uuid :=
  ((txs.flatMap fun tx => tx.accountBalances.map AccountBalance.communityUuid).filter fun uuid =>
    uuid ≠ homeOfLedger txs).toFinset

theorem mem_foreignCoinsOf {uuid : Uuid} :
    uuid ∈ foreignCoinsOf txs ↔ uuid ≠ homeOfLedger txs ∧ ∃ tx ∈ txs, tx.CarriesCoin uuid := by
  simp only [foreignCoinsOf, CompleteTransaction.CarriesCoin, List.mem_toFinset, List.mem_filter,
    List.mem_flatMap, List.mem_map, decide_eq_true_eq]
  exact and_comm

theorem homeOfLedger_append (hne : txs ≠ []) (more : List CompleteTransaction) :
    homeOfLedger (txs ++ more) = homeOfLedger txs := by
  obtain ⟨first, rest, rfl⟩ := List.exists_cons_of_ne_nil hne
  rfl

theorem foreignCoinsOf_append {uuid : Uuid} (more : List CompleteTransaction)
    (hmem : uuid ∈ foreignCoinsOf txs) : uuid ∈ foreignCoinsOf (txs ++ more) := by
  obtain ⟨hforeign, tx, htx, hcarries⟩ := mem_foreignCoinsOf.1 hmem
  refine mem_foreignCoinsOf.2 ⟨?_, tx, List.mem_append_left _ htx, hcarries⟩
  rwa [homeOfLedger_append (List.ne_nil_of_mem htx)]

namespace Transactions

/-- `grdb_transactions_address_count`. -/
def addressCount (index : Transactions A) : Nat :=
  if index.ready then A.keyCount index.addresses.keys else 0

/-- `grdb_transactions_coin_community_count`. -/
def coinCommunityCount (index : Transactions A) : Nat :=
  if index.ready then A.keyCount index.coins.keys else 0

/-- `grdb_transactions_address`. -/
def address (index : Transactions A) (publicKey : PublicKey) : Option (AddressSets A) :=
  if index.ready then index.addresses.lookup publicKey else none

/-! ### No entry without a transaction -/

/-- Every address and every coin the index knows is one of these. -/
def KnowsOnly (names : PublicKey → Prop) (coins : Uuid → Prop) (index : Transactions A) : Prop :=
  (∀ key, index.addresses.Known key → names key) ∧ ∀ uuid, index.coins.Known uuid → coins uuid

theorem KnowsOnly.mono {names' : PublicKey → Prop} {coins' : Uuid → Prop}
    (honly : KnowsOnly names coins index) (hnames : ∀ key, names key → names' key)
    (hcoins : ∀ uuid, coins uuid → coins' uuid) : KnowsOnly names' coins' index :=
  ⟨fun key hknown => hnames key (honly.1 key hknown),
    fun uuid hknown => hcoins uuid (honly.2 uuid hknown)⟩

theorem KnowsOnly.of_sameButDay (hsame : SameButDay start index)
    (honly : KnowsOnly names coins start) : KnowsOnly names coins index := by
  rw [SameButDay] at hsame
  rw [hsame]
  exact honly

theorem SameButDay.home_openWith (hsame : SameButDay start index) :
    (openWith tx index).chainCommunityUuid = homeOf tx start := by
  rw [SameButDay] at hsame
  rw [hsame]
  rfl

/-- The same, the transaction let in and the community of the chain therefore known. -/
def KnowsOnlyAt (home : Uuid) (names : PublicKey → Prop) (coins : Uuid → Prop)
    (index : Transactions A) : Prop :=
  KnowsOnly names coins index ∧ index.chainCommunityUuid = home

section Only

variable {home : Uuid}

theorem setsForKey_knowsOnly {key : PublicKey} (hkey : names key) :
    Keeps (KnowsOnlyAt (A := A) home names coins) (setsForKey key) := by
  intro index room honly
  refine ⟨⟨?_, honly.1.2⟩, honly.2⟩
  exact Keyed.slotForKey_knownOnly AddressSets.blank hkey index.addresses room honly.1.1

theorem coinSetForUuid_knowsOnly {uuid : Uuid} (huuid : coins uuid) :
    Keeps (KnowsOnlyAt (A := A) home names coins) (coinSetForUuid uuid) := by
  intro index room honly
  refine ⟨⟨honly.1.1, ?_⟩, honly.2⟩
  exact Keyed.slotForKey_knownOnly A.blank huuid index.coins room honly.1.2

theorem markKey_knowsOnly {key : PublicKey} {change : AddressSets A → AddressSets A}
    (hkey : key ≠ zeroBytes 32 → names key) :
    Keeps (KnowsOnlyAt (A := A) home names coins) (markKey key change) := by
  rw [markKey]
  split
  · exact .pure ()
  · rename_i hempty
    exact (setsForKey_knowsOnly (hkey (isEmpty_eq_false_iff.1 (by simpa using hempty)))).bind
      fun id => .grow fun _ honly => honly

theorem noteNamed_knowsOnly {key : PublicKey} (hkey : key ≠ zeroBytes 32 → names key) :
    Keeps (KnowsOnlyAt (A := A) home names coins) (noteNamed offset key) := by
  rw [noteNamed]
  split
  · exact .pure ()
  · rename_i hempty
    refine (setsForKey_knowsOnly (hkey (isEmpty_eq_false_iff.1 (by simpa using hempty)))).bind
      fun id => (Keeps.gets _).bind fun _ => ?_
    exact .ite (.pure ()) (.grow fun _ honly => honly)

theorem noteBalanceCoin_knowsOnly {balance : AccountBalance}
    (hcoin : balance.communityUuid ≠ home → coins balance.communityUuid) :
    Keeps (KnowsOnlyAt (A := A) home names coins) (noteBalanceCoin offset balance) := by
  intro index room honly
  rw [noteBalanceCoin, bind_run_ok (gets_run _ _ _), honly.2]
  split
  · exact honly
  · rename_i hforeign
    have hnoted : Keeps (KnowsOnlyAt (A := A) home names coins) (do
        let id ← coinSetForUuid balance.communityUuid
        grow .outOfMemory (markCoin id offset)
        grow .outOfMemory (markForeign offset)) :=
      (coinSetForUuid_knowsOnly (hcoin hforeign)).bind fun id =>
        .bind (.grow fun _ h => h) fun _ => .grow fun _ h => h
    exact hnoted index room honly

/-- Marking makes known what the transaction names, wherever it ends. -/
theorem mark_knowsOnly (hnames : ∀ key, tx.Involves key → names key)
    (hcoins : ∀ uuid, uuid ≠ homeOf tx index → tx.CarriesCoin uuid → coins uuid)
    (honly : KnowsOnly names coins index) (room : Room) :
    KnowsOnly names coins (mark tx offset index room).2.1 := by
  have hday :
      Keeps (fun middle => SameButDay index middle) (noteDay tx.confirmedAt.seconds offset) :=
    noteDay_sameButDay _ index
  have hrest : Keeps (KnowsOnlyAt (A := A) (homeOf tx index) names coins) (do
      tx.signaturePairs.forM (noteSignature offset)
      tx.accountBalances.forM (noteBalance offset)
      (named tx).forM (noteNamed offset)
      grow .outOfMemory (markType tx.transactionType offset)) := by
    refine .bind (.forM fun pair hpair => markKey_knowsOnly fun hkey => ?_) fun _ =>
      .bind (.forM fun balance hbalance => ?_) fun _ =>
        .bind (.forM fun key hkey => noteNamed_knowsOnly fun hne => ?_) fun _ => .grow fun _ h => h
    · exact hnames _ (.inl ⟨hkey, pair, hpair, rfl⟩)
    · refine (markKey_knowsOnly fun hkey => ?_).bind fun _ =>
        noteBalanceCoin_knowsOnly fun hforeign => ?_
      · exact hnames _ (.inr (.inl ⟨hkey, balance, hbalance, rfl⟩))
      · exact hcoins _ hforeign ⟨balance, hbalance, rfl⟩
    · exact hnames _ (.inr (.inr (bodyNames_iff.2 ⟨hne, hkey⟩)))
  have hleads : Leads (fun middle => SameButDay index middle) (KnowsOnly names coins)
      (mark tx offset : Call ArnmResult (Transactions A) Unit) := by
    refine hday.leads (fun middle hsame => honly.of_sameButDay hsame) fun _ middle between hsame =>
      ?_
    have hnoted : KnowsOnly names coins middle := honly.of_sameButDay hsame
    rw [bind_run_ok (write_run _ _ _)]
    refine (hrest (openWith tx middle) between ⟨hnoted, ?_⟩).1
    exact hsame.home_openWith
  exact hleads index room rfl

end Only

/-! ### No transaction without its entries -/

/-- The entries of these addresses and coins are open. -/
structure Opens (names : PublicKey → Prop) (coins : Uuid → Prop)
    (index : Transactions A) : Prop where
  address : ∀ key, names key → ∃ id, index.addresses.OpenAt key id
  coin : ∀ uuid, coins uuid → ∃ id, index.coins.OpenAt uuid id

theorem lasts_opens : Lasts offset (Opens (A := A) names coins) := by
  intro start index honward hopens
  refine ⟨fun key hkey => ?_, fun uuid huuid => ?_⟩
  · exact (hopens.address key hkey).imp fun _ hopen => hopen.carried honward.addresses
  · exact (hopens.coin uuid huuid).imp fun _ hopen => hopen.carried honward.coins

theorem Opens.of_sameButDay (hsame : SameButDay start index)
    (hopens : Opens names coins start) : Opens names coins index := by
  rw [SameButDay] at hsame
  rw [hsame]
  exact ⟨hopens.address, hopens.coin⟩

theorem KeyDone.opened {done : AddressSets A → Prop} {key : PublicKey}
    (hdone : KeyDone done key index) (hkey : key ≠ zeroBytes 32) :
    ∃ id, index.addresses.OpenAt key id := by
  obtain hempty | hentry := hdone
  · rw [isEmpty_eq_false_iff.2 hkey] at hempty
    cases hempty
  · obtain ⟨id, -, hopen, -⟩ := hentry
    exact ⟨id, hopen⟩

/-- A loop whose rounds open entries has opened those of all its items. -/
theorem forM_opens {α : Type} {items : List α} {body : α → Call ArnmResult (Transactions A) Unit}
    {done : α → Transactions A → Prop}
    (honward : ∀ start item, Keeps (Onward offset start) (body item))
    (hbody : ∀ item,
      Retryable (fun _ => True) ArnmResult.outOfMemory (body item) (fun _ => done item))
    (hdone : ∀ item, Lasts offset (done item)) {room rest : Room}
    (hrun : items.forM body index room = (.ok (), left, rest)) :
    Onward offset index left ∧ ∀ item ∈ items, done item left := by
  refine forM_ok (fun items middle => Onward offset index middle ∧ ∀ item ∈ items, done item middle)
    ⟨.refl offset index, nofun⟩ ?_ hrun
  intro before item after middle state room rest _ hbefore hround
  have hstep := honward state item state room (.refl offset state)
  have hstays := honward index item state room hbefore.1
  rw [hround] at hstep hstays
  refine ⟨hstays, fun other hother => ?_⟩
  obtain hearlier | hlast := List.mem_append.1 hother
  · exact hdone other state middle hstep (hbefore.2 other hearlier)
  · obtain rfl := List.mem_singleton.1 hlast
    exact (hbody other).settles trivial hround

/-- A transaction that has been marked has all its entries. -/
theorem mark_opens (hopens : Opens names coins index) {room rest : Room}
    (hrun : mark tx offset index room = (.ok (), left, rest)) :
    Opens (fun key => names key ∨ tx.Involves key)
        (fun uuid => coins uuid ∨ uuid ≠ homeOf tx index ∧ tx.CarriesCoin uuid) left ∧
      left.chainCommunityUuid = homeOf tx index := by
  obtain ⟨_, noted, _, hday, hmark⟩ := bind_ok.1 hrun
  obtain ⟨_, opened, between, hopen, hmark⟩ := bind_ok.1 hmark
  obtain ⟨rfl, -⟩ := write_ok.1 hopen
  obtain ⟨_, signed, _, hsigned, hmark⟩ := bind_ok.1 hmark
  obtain ⟨_, balanced, _, hbalanced, hmark⟩ := bind_ok.1 hmark
  obtain ⟨_, done, _, hnamed, htype⟩ := bind_ok.1 hmark
  have hsame : SameButDay index noted := by
    have hkept : SameButDay index (noteDay tx.confirmedAt.seconds offset index room).2.1 :=
      noteDay_sameButDay _ index index room rfl
    rwa [hday] at hkept
  obtain ⟨hfirst, hsigned⟩ := forM_opens noteSignature_onward noteSignature_retryable
    (fun _ _ _ honward => honward.keyDone fun _ _ h => h.signed.mono offset) hsigned
  obtain ⟨hsecond, hbalanced⟩ :=
    forM_opens noteBalance_onward noteBalance_retryable
      (fun _ _ _ honward hdone => ⟨honward.keyDone (fun _ _ h => h.balance.mono offset) hdone.1,
        honward.coinDone hdone.2⟩) hbalanced
  obtain ⟨hthird, hnamed⟩ :=
    forM_opens noteNamed_onward noteNamed_retryable
      (fun _ _ _ honward => honward.keyDone fun _ _ h => h.named) hnamed
  have hopened : Opens names coins noted := hopens.of_sameButDay hsame
  have hkept : Opens names coins done :=
    lasts_opens _ _ hthird
      (lasts_opens _ _ hsecond (lasts_opens _ _ hfirst ⟨hopened.address, hopened.coin⟩))
  have hhome : done.chainCommunityUuid = homeOf tx index := by
    rw [hthird.same, hsecond.same, hfirst.same]
    exact hsame.home_openWith
  rw [← grow_ok htype]
  refine ⟨⟨fun key hkey => ?_, fun uuid huuid => ?_⟩, hhome⟩
  · obtain hkey | ⟨hne, pair, hpair, rfl⟩ | ⟨hne, balance, hbalance, rfl⟩ | hbody := hkey
    · exact hkept.address key hkey
    · have hentry := (hsigned pair hpair).opened hne
      exact (hentry.imp fun _ hopen => hopen.carried hsecond.addresses).imp fun _ hopen =>
        hopen.carried hthird.addresses
    · have hentry := (hbalanced balance hbalance).1.opened hne
      exact hentry.imp fun _ hopen => hopen.carried hthird.addresses
    · obtain ⟨hne, hmem⟩ := bodyNames_iff.1 hbody
      exact (hnamed key hmem).opened hne
  · obtain huuid | ⟨hforeign, balance, hbalance, rfl⟩ := huuid
    · exact hkept.coin uuid huuid
    · obtain hown | ⟨⟨id, _, hopen, -⟩, -⟩ := (hbalanced balance hbalance).2
      · rw [← hhome, hthird.same] at hforeign
        exact absurd hown hforeign
      · exact ⟨id, hopen.carried hthird.coins⟩

/-- What a mark leaves when it is cut short: the entries that were open, and a chain that
has begun as it was. -/
def Begun (names : PublicKey → Prop) (coins : Uuid → Prop) (counted : Nat) (home : Uuid)
    (index : Transactions A) : Prop :=
  Opens names coins index ∧ index.transactionCount = counted ∧
    (counted ≠ 0 → index.chainCommunityUuid = home)

theorem lasts_begun {counted : Nat} {home : Uuid} :
    Lasts offset (Begun (A := A) names coins counted home) := by
  intro start index honward hbegun
  refine ⟨lasts_opens start index honward hbegun.1, ?_⟩
  rw [honward.same]
  exact hbegun.2

theorem mark_begun (tx : CompleteTransaction) {counted : Nat} {home : Uuid} :
    Keeps (Begun (A := A) names coins counted home) (mark tx offset) := by
  have hloop : ∀ {α : Type} {items : List α} {body : α → Call ArnmResult (Transactions A) Unit},
      (∀ start item, Keeps (Onward offset start) (body item)) →
          Keeps (Begun (A := A) names coins counted home) (items.forM body) :=
    fun honward => .forM fun item _ => lasts_begun.keeps fun start => honward start item
  refine .bind
    (.of_onward (noteDay_sameButDay _) (fun _ => rfl) fun before after hsame hbegun => ?_) fun _ =>
    .bind (.write fun index hbegun => ?_) fun _ =>
      .bind (hloop noteSignature_onward) fun _ =>
        .bind (hloop noteBalance_onward) fun _ =>
          .bind (hloop noteNamed_onward) fun _ => .grow fun index hbegun => ?_
  · refine ⟨hbegun.1.of_sameButDay hsame, ?_⟩
    rw [SameButDay] at hsame
    rw [hsame]
    exact hbegun.2
  · refine ⟨⟨hbegun.1.address, hbegun.1.coin⟩, hbegun.2.1, fun hne => ?_⟩
    change (if index.transactionCount = 0 then _ else index.chainCommunityUuid) = home
    rw [hbegun.2.1, if_neg hne]
    exact hbegun.2.2 hne
  · exact ⟨⟨hbegun.1.address, hbegun.1.coin⟩, hbegun.2⟩

/-! ### Along a run -/

/-- The states of an index as `Reached` has them, with the ledger of what has been counted in the
place of its length. -/
inductive Recorded (C : Clearing A) :
    List CompleteTransaction → Option CompleteTransaction → Transactions A → Prop
  | init {options : TransactionsOptions} {start index : Transactions A} {room rest : Room} :
      init options start room = (.ok (), index, rest) → Recorded C [] none index
  | taken {txs : List CompleteTransaction} {pending : Option CompleteTransaction}
      {tx : CompleteTransaction} {index left : Transactions A} {room rest : Room} :
      Recorded C txs pending index → (∀ waiting, pending = some waiting → waiting = tx) →
      add tx index room = (.ok (), left, rest) → Recorded C (txs ++ [tx]) none left
  | lacking {txs : List CompleteTransaction} {pending : Option CompleteTransaction}
      {tx : CompleteTransaction} {index left : Transactions A} {room rest : Room} :
      Recorded C txs pending index → (∀ waiting, pending = some waiting → waiting = tx) →
      add tx index room = (.error .outOfMemory, left, rest) → Recorded C txs (some tx) left
  | refused {txs : List CompleteTransaction} {pending : Option CompleteTransaction}
      {tx : CompleteTransaction} {index left : Transactions A} {room rest : Room}
      {code : ArnmResult} : Recorded C txs pending index → code ≠ .outOfMemory →
      add tx index room = (.error code, left, rest) → Recorded C txs pending left
  | reset {txs : List CompleteTransaction} {pending : Option CompleteTransaction}
      {index : Transactions A} : Recorded C txs pending index → Recorded C [] none (index.reset C)

theorem Recorded.reached (hrecorded : Recorded C txs pending index) :
    Reached C txs.length pending index := by
  induction hrecorded with
  | init hrun => exact .init hrun
  | taken _ hsame hrun ih =>
      rw [List.length_append]
      exact ih.taken hsame hrun
  | lacking _ hsame hrun ih => exact ih.lacking hsame hrun
  | refused _ hcode hrun ih => exact ih.refused hcode hrun
  | reset _ ih => exact ih.reset

/-- The tables of an index: opened are the entries of the ledger, and known is nothing but these and
those of the transaction that waits. -/
structure Listed (txs : List CompleteTransaction) (pending : Option CompleteTransaction)
    (index : Transactions A) : Prop where
  home : txs ≠ [] → index.chainCommunityUuid = homeOfLedger txs
  opens : Opens (· ∈ addressesOf txs) (· ∈ foreignCoinsOf txs) index
  only : KnowsOnly (· ∈ addressesOf (txs ++ pending.toList))
    (· ∈ foreignCoinsOf (txs ++ pending.toList)) index

theorem listed_empty (haddresses : ∀ key, ¬index.addresses.Known key)
    (hcoins : ∀ uuid, ¬index.coins.Known uuid) : Listed [] none index where
  home := fun hne => absurd rfl hne
  opens := ⟨nofun, nofun⟩
  only :=
    ⟨fun key hknown => absurd hknown (haddresses key),
      fun uuid hknown => absurd hknown (hcoins uuid)⟩

section Step

variable (hlisted : Listed txs pending index) (hcount : index.transactionCount = txs.length)
  (hsame : ∀ waiting, pending = some waiting → waiting = tx)

include hlisted hcount

theorem Listed.homeOf : homeOf tx index = homeOfLedger (txs ++ [tx]) := by
  rw [Transactions.homeOf, hcount]
  by_cases hempty : txs = []
  · rw [hempty]
    rfl
  · rw [if_neg (mt List.length_eq_zero_iff.1 hempty), hlisted.home hempty,
      homeOfLedger_append hempty]

include hsame

/-- A mark that is cut short has made known no more than the whole of it would have. -/
theorem Listed.mark_only (room : Room) :
    KnowsOnly (· ∈ addressesOf (txs ++ [tx])) (· ∈ foreignCoinsOf (txs ++ [tx]))
      (mark tx offset index room).2.1 := by
  have hwaits : txs ++ pending.toList = txs ∨ txs ++ pending.toList = txs ++ [tx] := by
    cases pending with
    | none => exact .inl (List.append_nil txs)
    | some waiting => exact .inr (by rw [hsame waiting rfl]; rfl)
  apply mark_knowsOnly
  · exact fun key hinvolves =>
      mem_addressesOf.2 ⟨tx, List.mem_append_right _ List.mem_cons_self, hinvolves⟩
  · intro uuid hforeign hcarries
    rw [hlisted.homeOf hcount] at hforeign
    exact mem_foreignCoinsOf.2 ⟨hforeign, tx, List.mem_append_right _ List.mem_cons_self, hcarries⟩
  · obtain heq | heq := hwaits
    · have honly := hlisted.only
      rw [heq] at honly
      refine honly.mono (fun key hkey => ?_) fun uuid => foreignCoinsOf_append [tx]
      obtain ⟨other, hother, hinvolves⟩ := mem_addressesOf.1 hkey
      exact mem_addressesOf.2 ⟨other, List.mem_append_left _ hother, hinvolves⟩
    · exact heq ▸ hlisted.only

theorem Listed.lacking {room rest : Room}
    (hrun : add tx index room = (.error .outOfMemory, left, rest)) : Listed txs (some tx) left := by
  obtain hcheck | ⟨offset, same, between, hcheck, hrest⟩ := bind_error.1 hrun
  · exact absurd (check_error.1 hcheck).1 (offsetOf_ne_oom tx index)
  obtain ⟨hoffset, rfl, rfl⟩ := check_ok.1 hcheck
  have hmark : (mark tx offset : Call ArnmResult (Transactions A) Unit) index room =
      (.error .outOfMemory, left, rest) := by
    obtain hmark | ⟨_, marked, _, -, hcommit⟩ := bind_error.1 hrest
    · exact hmark
    · cases hcommit
  have honly : KnowsOnly _ _ (mark tx offset index room).2.1 := hlisted.mark_only hcount hsame room
  have hbegun : Begun _ _ _ _ (mark tx offset index room).2.1 :=
    mark_begun tx index room
      ⟨hlisted.opens, hcount, fun hne => hlisted.home (mt List.length_eq_zero_iff.2 hne)⟩
  rw [hmark] at honly hbegun
  exact ⟨fun hne => hbegun.2.2 (mt List.length_eq_zero_iff.1 hne), hbegun.1, honly⟩

theorem Listed.taken {room rest : Room} (hrun : add tx index room = (.ok (), left, rest)) :
    Listed (txs ++ [tx]) none left := by
  obtain ⟨offset, same, between, hcheck, hrest⟩ := bind_ok.1 hrun
  obtain ⟨hoffset, rfl, rfl⟩ := check_ok.1 hcheck
  obtain ⟨_, marked, after, hmark, hcommit⟩ := bind_ok.1 hrest
  obtain ⟨rfl, -⟩ := write_ok.1 hcommit
  have honly : KnowsOnly _ _ (mark tx offset index room).2.1 := hlisted.mark_only hcount hsame room
  obtain ⟨hopens, hhome⟩ := mark_opens hlisted.opens hmark
  rw [hlisted.homeOf hcount] at hopens hhome
  rw [hmark] at honly
  refine ⟨fun _ => hhome,
    ⟨fun key hkey => hopens.address key ?_, fun uuid huuid => hopens.coin uuid ?_⟩, ?_⟩
  · obtain ⟨other, hother, hinvolves⟩ := mem_addressesOf.1 hkey
    obtain hearlier | hlast := List.mem_append.1 hother
    · exact .inl (mem_addressesOf.2 ⟨other, hearlier, hinvolves⟩)
    · exact .inr (List.mem_singleton.1 hlast ▸ hinvolves)
  · obtain ⟨hforeign, other, hother, hcarries⟩ := mem_foreignCoinsOf.1 huuid
    obtain hearlier | hlast := List.mem_append.1 hother
    · rw [homeOfLedger_append (List.ne_nil_of_mem hearlier)] at hforeign
      exact .inl (mem_foreignCoinsOf.2 ⟨hforeign, other, hearlier, hcarries⟩)
    · exact .inr ⟨hforeign, List.mem_singleton.1 hlast ▸ hcarries⟩
  · rw [Option.toList_none, List.append_nil]
    exact honly

end Step

theorem Recorded.listed (hrecorded : Recorded C txs pending index) (hfew : txs.length < 2 ^ 32) :
    Listed txs pending index := by
  induction hrecorded with
  | init hrun =>
      rw [init_ok hrun]
      exact listed_empty Keyed.not_known_empty Keyed.not_known_empty
  | taken hrecorded hsame hrun ih =>
      rw [List.length_append] at hfew
      have hbefore := Nat.lt_of_succ_lt hfew
      exact (ih hbefore).taken (hrecorded.reached.sound hbefore).counts.size hsame hrun
  | lacking hrecorded hsame hrun ih =>
      exact (ih hfew).lacking (hrecorded.reached.sound hfew).counts.size hsame hrun
  | refused _ hcode hrun ih =>
      obtain hoom | ⟨-, rfl⟩ := add_error hrun
      · exact absurd hoom hcode
      · exact ih hfew
  | reset hrecorded =>
      obtain ⟨base, hhistory⟩ := hrecorded.reached.history
      rw [Transactions.reset, if_neg (not_not_intro hhistory.ready.1)]
      exact listed_empty (Keyed.not_known_clear C _) (Keyed.not_known_clear C _)

/-- In every state an index counts the addresses and the foreign coins of what has been counted,
each once, and at most those of the transaction that waits besides; the entry of an address is there
for every address of the ledger. -/
theorem Recorded.countsDistinct (hrecorded : Recorded C txs pending index)
    (hfew : txs.length < 2 ^ 32) :
    ((addressesOf txs).card ≤ index.addressCount ∧
        index.addressCount ≤ (addressesOf (txs ++ pending.toList)).card) ∧
      ((foreignCoinsOf txs).card ≤ index.coinCommunityCount ∧
        index.coinCommunityCount ≤ (foreignCoinsOf (txs ++ pending.toList)).card) ∧
      (∀ key ∈ addressesOf txs, (index.address key).isSome) ∧
      ∀ key, (index.address key).isSome → key ∈ addressesOf (txs ++ pending.toList) := by
  have hsound := hrecorded.reached.sound hfew
  obtain ⟨-, hopens, honly⟩ := hrecorded.listed hfew
  simp only [addressCount, coinCommunityCount, address, hsound.counts.ready, if_true]
  refine ⟨⟨?_, ?_⟩, ⟨?_, ?_⟩, fun key hkey => ?_, fun key hsome => ?_⟩
  · apply Keyed.card_le_keyCount
    exact fun key hkey => (hopens.address key hkey).elim fun _ hopen => hopen.known
  · exact hsound.agreed.addresses.keyCount_le_card honly.1
  · apply Keyed.card_le_keyCount
    exact fun uuid huuid => (hopens.coin uuid huuid).elim fun _ hopen => hopen.known
  · exact hsound.agreed.coins.keyCount_le_card honly.2
  · obtain ⟨id, hopen⟩ := hopens.address key hkey
    obtain ⟨sets, -, hlookup⟩ := hopen.lookup
    rw [hlookup]
    rfl
  · exact honly.1 key (.of_lookup hsome)

theorem cutShort_recorded : Recorded Clearing.reference [] (some foreignPayment) cutShort := by
  have hfresh : Recorded Clearing.reference [] none (fresh 0 : Transactions Arnm.reference) :=
    @Recorded.init _ _ ⟨0, 0, 0⟩ zero _ [] [] rfl
  have hrefused : (add foreignPayment (fresh 0 : Transactions Arnm.reference)
        [true, true, true, true, false]).1 = .error .outOfMemory := rfl
  exact hfresh.lacking (fun _ h => nomatch h) (Prod.ext hrefused rfl)

/-- The coin of a payment that has been cut short is counted already, and it is the
only one that may be. -/
theorem countsDistinct_cutShort :
    cutShort.coinCommunityCount = 1 ∧
      cutShort.coinCommunityCount ≤ (foreignCoinsOf [foreignPayment]).card :=
  ⟨rfl, (Recorded.countsDistinct cutShort_recorded (by decide)).2.1.2⟩

end Transactions

end GradidoBlockchain
