import GradidoBlockchain.Types

/-!
# The question

`grdb_transactions_filter`: a plain value in which zero, everywhere, means unset.
-/

namespace GradidoBlockchain

/-- `grdb_address_role`. -/
inductive AddressRole
  | none
  | involved
  | balance
  deriving DecidableEq, Repr

structure TransactionsFilter where
  publicKey : PublicKey
  coinCommunityUuid : Uuid
  role : AddressRole
  transactionType : TransactionType
  minTxNr : UInt64
  maxTxNr : UInt64
  fromSeconds : Int64
  toSeconds : Int64
  deriving DecidableEq

namespace TransactionsFilter

/-- `grdb_transactions_filter_init`. -/
def init : TransactionsFilter where
  publicKey := zeroBytes 32
  coinCommunityUuid := zeroBytes 16
  role := .none
  transactionType := .none
  minTxNr := 0
  maxTxNr := 0
  fromSeconds := 0
  toSeconds := 0

/-- `grdb_transactions_filter_coin_community`. -/
def coinCommunity (filter : TransactionsFilter) : Option Uuid :=
  if isEmpty filter.coinCommunityUuid then Option.none else some filter.coinCommunityUuid

/-- The filter names a first or a last day. -/
def NamesDates (filter : TransactionsFilter) : Prop := filter.fromSeconds ≠ 0 ∨ filter.toSeconds ≠ 0

end TransactionsFilter

end GradidoBlockchain
