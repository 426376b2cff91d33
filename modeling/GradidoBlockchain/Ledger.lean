import GradidoBlockchain.Index.Filter
import GradidoBlockchain.Index.Day

/-!
# The ledger the indices stand for

What a chain is without its indices: the transactions in the order of their numbers, each question
answered by reading all of them.
-/

namespace GradidoBlockchain

namespace CompleteTransaction

/-! ### How a transaction touches a key and a coin -/

def SignedBy (tx : CompleteTransaction) (key : PublicKey) : Prop :=
  key ≠ zeroBytes 32 ∧ ∃ pair ∈ tx.signaturePairs, pair.publicKey = key

def ListsBalance (tx : CompleteTransaction) (key : PublicKey) : Prop :=
  key ≠ zeroBytes 32 ∧ ∃ balance ∈ tx.accountBalances, balance.pubkey = key

/-- The body of this type of transaction names the key. -/
def BodyNames (tx : CompleteTransaction) (key : PublicKey) : Prop :=
  key ≠ zeroBytes 32 ∧
    match tx.transactionType with
    | .creation | .transfer | .deferredTransfer | .redeemDeferredTransfer =>
        key = tx.transfer.senderPubkey ∨ key = tx.transfer.recipientPubkey
    | .registerAddress =>
        key = tx.registerAddress.userPublicKey ∨ key = tx.registerAddress.accountPublicKey
    | .communityRoot =>
        key = tx.communityRoot.publicKey ∨ key = tx.communityRoot.gmwPublicKey ∨
          key = tx.communityRoot.aufPublicKey
    | _ => False

def Involves (tx : CompleteTransaction) (key : PublicKey) : Prop :=
  tx.SignedBy key ∨ tx.ListsBalance key ∨ tx.BodyNames key

def CarriesCoin (tx : CompleteTransaction) (uuid : Uuid) : Prop :=
  ∃ balance ∈ tx.accountBalances, balance.communityUuid = uuid

def CarriesForeign (tx : CompleteTransaction) (home : Uuid) : Prop :=
  ∃ balance ∈ tx.accountBalances, balance.communityUuid ≠ home

/-- The types a transaction gives to a key, in the order it gives them. -/
def typesGiven (tx : CompleteTransaction) (key : PublicKey) : List AddressType :=
  match tx.transactionType with
  | .registerAddress =>
      (if tx.registerAddress.userPublicKey = key then [tx.addressType] else []) ++
        if tx.registerAddress.accountPublicKey = key then [tx.addressType] else []
  | .communityRoot =>
      (if tx.communityRoot.gmwPublicKey = key then [.communityGmw] else []) ++
        if tx.communityRoot.aufPublicKey = key then [.communityAuf] else []
  | .deferredTransfer => if tx.transfer.recipientPubkey = key then [.deferredTransfer] else []
  | _ => []

/-! ### Filters -/

/-- The transaction was confirmed on a day of the span, days counted by `day`; a
bound of 0 is none. -/
def InSpan (day : Int64 → Int) (fromSecond toSecond : Int64) (tx : CompleteTransaction) : Prop :=
  (fromSecond ≠ 0 → day fromSecond ≤ day tx.confirmedAt.seconds) ∧
    (toSecond ≠ 0 → day tx.confirmedAt.seconds ≤ day toSecond)

def InRole (filter : TransactionsFilter) (tx : CompleteTransaction) : Prop :=
  match filter.role with
  | .none => True
  | .balance => tx.ListsBalance filter.publicKey
  | .involved => tx.Involves filter.publicKey

def OfType (filter : TransactionsFilter) (tx : CompleteTransaction) : Prop :=
  filter.transactionType = .none ∨ tx.transactionType = filter.transactionType

def InCoin (home : Uuid) (filter : TransactionsFilter) (tx : CompleteTransaction) : Prop :=
  match filter.coinCommunity with
  | none => True
  | some uuid => if uuid = home then ¬tx.CarriesForeign home else tx.CarriesCoin uuid

def InRange (filter : TransactionsFilter) (tx : CompleteTransaction) : Prop :=
  (filter.minTxNr ≠ 0 → filter.minTxNr.toNat ≤ tx.nr) ∧
    (filter.maxTxNr ≠ 0 → tx.nr ≤ filter.maxTxNr.toNat)

/-- A transaction of a chain of the community `home` matches a filter when every part of the filter
that is set holds of it. -/
def Matches (day : Int64 → Int) (home : Uuid) (filter : TransactionsFilter)
    (tx : CompleteTransaction) : Prop :=
  InRole filter tx ∧ OfType filter tx ∧ InCoin home filter tx ∧ InRange filter tx ∧
    InSpan day filter.fromSeconds filter.toSeconds tx

instance (tx : CompleteTransaction) (key : PublicKey) : Decidable (tx.SignedBy key) :=
  inferInstanceAs (Decidable (_ ∧ _))

instance (tx : CompleteTransaction) (key : PublicKey) : Decidable (tx.ListsBalance key) :=
  inferInstanceAs (Decidable (_ ∧ _))

instance (tx : CompleteTransaction) (key : PublicKey) : Decidable (tx.BodyNames key) := by
  unfold BodyNames
  refine @instDecidableAnd _ _ _ ?_
  split <;> infer_instance

instance (tx : CompleteTransaction) (key : PublicKey) : Decidable (tx.Involves key) :=
  inferInstanceAs (Decidable (_ ∨ _ ∨ _))

instance (tx : CompleteTransaction) (uuid : Uuid) : Decidable (tx.CarriesCoin uuid) :=
  inferInstanceAs (Decidable (∃ balance ∈ tx.accountBalances, _))

instance (tx : CompleteTransaction) (home : Uuid) : Decidable (tx.CarriesForeign home) :=
  inferInstanceAs (Decidable (∃ balance ∈ tx.accountBalances, _))

instance (day : Int64 → Int) (fromSecond toSecond : Int64) (tx : CompleteTransaction) :
    Decidable (InSpan day fromSecond toSecond tx) :=
  inferInstanceAs (Decidable (_ ∧ _))

instance (filter : TransactionsFilter) (tx : CompleteTransaction) :
    Decidable (InRole filter tx) := by
  unfold InRole
  split <;> infer_instance

instance (filter : TransactionsFilter) (tx : CompleteTransaction) : Decidable (OfType filter tx) :=
  inferInstanceAs (Decidable (_ ∨ _))

instance (home : Uuid) (filter : TransactionsFilter) (tx : CompleteTransaction) :
    Decidable (InCoin home filter tx) := by
  unfold InCoin
  split <;> infer_instance

instance (filter : TransactionsFilter) (tx : CompleteTransaction) : Decidable (InRange filter tx) :=
  inferInstanceAs (Decidable (_ ∧ _))

instance (day : Int64 → Int) (home : Uuid) (filter : TransactionsFilter)
    (tx : CompleteTransaction) : Decidable (Matches day home filter tx) :=
  inferInstanceAs (Decidable (_ ∧ _ ∧ _ ∧ _ ∧ _))

/-- A creation that nobody signed and that moved no balance, for the examples. -/
def bare (nr : UInt64) (seconds : Int64) : CompleteTransaction :=
  { init with txNr := nr, confirmedAt := ⟨seconds, 0⟩, transactionType := .creation }

end CompleteTransaction

/-- The numbers of the transactions that match, in the order of the ledger. -/
def scan (day : Int64 → Int) (home : Uuid) (filter : TransactionsFilter)
    (txs : List CompleteTransaction) : List Nat :=
  (txs.filter fun tx => decide (CompleteTransaction.Matches day home filter tx)).map
    CompleteTransaction.nr

/-- The community of a chain is that of its first transaction. -/
def homeOf (txs : List CompleteTransaction) : Uuid :=
  (txs.head?.map CompleteTransaction.txCommunityUuid).getD (zeroBytes 16)

/-- The numbers of the transactions confirmed inside a span. -/
def numbersIn (day : Int64 → Int) (fromSecond toSecond : Int64)
    (txs : List CompleteTransaction) : List Nat :=
  (txs.filter fun tx => decide (CompleteTransaction.InSpan day fromSecond toSecond tx)).map
    CompleteTransaction.nr

/-- The smallest and the largest of some numbers. -/
def outermost (numbers : List Nat) : Option (Nat × Nat) :=
  numbers.min?.bind fun low => numbers.max?.map fun high => (low, high)

/-- Every time a ledger gives a type to a key, with the number of the transaction that gives it. -/
def typeEvents (key : PublicKey) (txs : List CompleteTransaction) : List (Nat × AddressType) :=
  txs.flatMap fun tx => (tx.typesGiven key).map fun type => (tx.nr, type)

/-- The numbers of the transactions that list a balance of a key. -/
def balanceNumbers (key : PublicKey) (txs : List CompleteTransaction) : List Nat :=
  (txs.filter fun tx => decide (tx.ListsBalance key)).map CompleteTransaction.nr

/-- The numbers of the transactions rise. -/
def Ascending (txs : List CompleteTransaction) : Prop :=
  txs.Pairwise fun earlier later => earlier.nr < later.nr

instance (txs : List CompleteTransaction) : Decidable (Ascending txs) :=
  inferInstanceAs (Decidable (txs.Pairwise _))

/-- The days of confirmation, counted by `day`, never go back. -/
def DaysAscend (day : Int64 → Int) (txs : List CompleteTransaction) : Prop :=
  txs.Pairwise fun earlier later => day earlier.confirmedAt.seconds ≤ day later.confirmedAt.seconds

instance (day : Int64 → Int) (txs : List CompleteTransaction) : Decidable (DaysAscend day txs) :=
  inferInstanceAs (Decidable (txs.Pairwise _))

/-- An answer of a range of days is the right one: a span no transaction falls in has none, and the
numbers of any other are those of the transactions that fall in it. -/
def ExactDays (day : Int64 → Int) (txs : List CompleteTransaction) (fromSecond toSecond : Int64)
    (answer : Option (Nat × Nat)) : Prop :=
  match answer with
  | none => ∀ tx ∈ txs, ¬CompleteTransaction.InSpan day fromSecond toSecond tx
  | some (low, high) =>
      (∃ tx ∈ txs, CompleteTransaction.InSpan day fromSecond toSecond tx) ∧
        ∀ tx ∈ txs, (low ≤ tx.nr ∧ tx.nr ≤ high) ↔
          CompleteTransaction.InSpan day fromSecond toSecond tx

/-- Numbers below the last one, which is the only one not below it. -/
theorem Ascending.concat {txs : List CompleteTransaction} {tx : CompleteTransaction}
    (hascend : Ascending (txs ++ [tx])) : Ascending txs ∧ ∀ other ∈ txs, other.nr < tx.nr := by
  obtain ⟨hfront, -, hlast⟩ := List.pairwise_append.1 hascend
  exact ⟨hfront, fun other hother => hlast other hother tx (List.mem_singleton_self tx)⟩

theorem inSpan_congr {day other : Int64 → Int} {fromSecond toSecond : Int64}
    {tx : CompleteTransaction} (hfrom : day fromSecond = other fromSecond)
    (hto : day toSecond = other toSecond)
    (htx : day tx.confirmedAt.seconds = other tx.confirmedAt.seconds) :
    CompleteTransaction.InSpan day fromSecond toSecond tx ↔
      CompleteTransaction.InSpan other fromSecond toSecond tx := by
  rw [CompleteTransaction.InSpan, CompleteTransaction.InSpan, hfrom, hto, htx]

theorem daysAscend_congr {day other : Int64 → Int} {txs : List CompleteTransaction}
    (hsame : ∀ tx ∈ txs, day tx.confirmedAt.seconds = other tx.confirmedAt.seconds) :
    DaysAscend day txs ↔ DaysAscend other txs := by
  constructor <;> intro hascend <;> refine List.Pairwise.imp_of_mem ?_ hascend
  · intro earlier later hearlier hlater hle
    rwa [hsame earlier hearlier, hsame later hlater] at hle
  · intro earlier later hearlier hlater hle
    rwa [hsame earlier hearlier, hsame later hlater]

theorem outermost_eq_some {numbers : List Nat} {low high : Nat} :
    outermost numbers = some (low, high) ↔
      low ∈ numbers ∧ high ∈ numbers ∧ ∀ number ∈ numbers, low ≤ number ∧ number ≤ high := by
  have hmin : numbers.min? = some low ↔ _ := List.min?_eq_some_iff
  have hmax : numbers.max? = some high ↔ _ := List.max?_eq_some_iff
  rw [outermost]
  simp only [Option.bind_eq_some_iff, Option.map_eq_some_iff, Prod.mk.injEq]
  constructor
  · rintro ⟨_, hlow, _, hhigh, rfl, rfl⟩
    have hlow := hmin.1 hlow
    have hhigh := hmax.1 hhigh
    exact ⟨hlow.1, hhigh.1, fun number hnumber => ⟨hlow.2 number hnumber, hhigh.2 number hnumber⟩⟩
  · rintro ⟨hlow, hhigh, hall⟩
    exact ⟨low, hmin.2 ⟨hlow, fun number hnumber => (hall number hnumber).1⟩, high,
      hmax.2 ⟨hhigh, fun number hnumber => (hall number hnumber).2⟩, rfl, rfl⟩

theorem outermost_eq_none {numbers : List Nat} : outermost numbers = none ↔ numbers = [] := by
  rcases numbers with _ | ⟨number, numbers⟩
  · simp [outermost]
  · simp [outermost]

theorem scan_congr {day other : Int64 → Int} {home : Uuid} {filter : TransactionsFilter}
    {txs : List CompleteTransaction}
    (hsame : ∀ tx ∈ txs, CompleteTransaction.Matches day home filter tx ↔
      CompleteTransaction.Matches other home filter tx) :
    scan day home filter txs = scan other home filter txs := by
  rw [scan, scan]
  congr 1
  exact List.filter_congr fun tx htx => decide_eq_decide.2 (hsame tx htx)

end GradidoBlockchain
