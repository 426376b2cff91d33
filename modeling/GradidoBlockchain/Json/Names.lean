import GradidoBlockchain.Wire.Messages

/-!
# The names of a document

`complete_transaction_json.h` and the spellings of the enumerators in `types/`. A member is read
back under the key it was written under, since both directions take it from here. An enumerator is
written as its name; a value that has none is written as a name no enumerator has.
-/

namespace GradidoBlockchain

namespace Mapping

/-! ### Keys -/

namespace Key

abbrev txNr : String := "tx_nr"
abbrev confirmedAt : String := "confirmed_at"
abbrev createdAt : String := "created_at"
abbrev txCommunityUuid : String := "tx_community_uuid"
abbrev ledgerAnchor : String := "ledger_anchor"
abbrev transactionType : String := "transaction_type"
abbrev crossGroupType : String := "cross_group_type"
abbrev txRunningHash : String := "tx_running_hash"
abbrev bodyBytes : String := "body_bytes"

abbrev seconds : String := "seconds"
abbrev nanos : String := "nanos"

abbrev type : String := "type"
abbrev id : String := "id"
abbrev hieroTransactionId : String := "hiero_transaction_id"
abbrev transactionValidStart : String := "transaction_valid_start"
abbrev accountId : String := "account_id"
abbrev shardNum : String := "shard_num"
abbrev realmNum : String := "realm_num"
abbrev accountNum : String := "account_num"

abbrev transfer : String := "transfer"
abbrev senderPubkey : String := "sender_pubkey"
abbrev recipientPubkey : String := "recipient_pubkey"
abbrev amount : String := "amount"
abbrev coinCommunityUuid : String := "coin_community_uuid"

abbrev registerAddress : String := "register_address"
abbrev userPublicKey : String := "user_public_key"
abbrev nameHash : String := "name_hash"
abbrev accountPublicKey : String := "account_public_key"
abbrev addressType : String := "address_type"
abbrev derivationIndex : String := "derivation_index"

abbrev communityRoot : String := "community_root"
abbrev publicKey : String := "public_key"
abbrev gmwPublicKey : String := "gmw_public_key"
abbrev aufPublicKey : String := "auf_public_key"

abbrev targetDate : String := "target_date"
abbrev timeoutDuration : String := "timeout_duration"
abbrev previousTx : String := "previous_tx"

abbrev accountBalances : String := "account_balances"
abbrev pubkey : String := "pubkey"
abbrev balance : String := "balance"
abbrev communityUuid : String := "community_uuid"

abbrev encryptedMemos : String := "encrypted_memos"
abbrev memo : String := "memo"

abbrev signaturePairs : String := "signature_pairs"
abbrev signature : String := "signature"

abbrev txPairingCommunityUuid : String := "tx_pairing_community_uuid"
abbrev pairingLedgerAnchor : String := "pairing_ledger_anchor"

end Key

end Mapping

/-! ### Enumerators

The functions that read a name compare it with one spelling after the other, and answer the same
value for every name they do not know. -/

/-- The value a name stands for among `names`. -/
def named {α : Type} (names : List (String × α)) (otherwise : α) (name : String) : α :=
  (names.lookup name).getD otherwise

namespace TransactionType

/-- `grdt_transaction_to_string`. -/
def toString : TransactionType → String
  | none => "GRDT_TRANSACTION_NONE"
  | creation => "GRDT_TRANSACTION_CREATION"
  | transfer => "GRDT_TRANSACTION_TRANSFER"
  | communityFriendsUpdate => "GRDT_TRANSACTION_COMMUNITY_FRIENDS_UPDATE"
  | registerAddress => "GRDT_TRANSACTION_REGISTER_ADDRESS"
  | deferredTransfer => "GRDT_TRANSACTION_DEFERRED_TRANSFER"
  | communityRoot => "GRDT_TRANSACTION_COMMUNITY_ROOT"
  | redeemDeferredTransfer => "GRDT_TRANSACTION_REDEEM_DEFERRED_TRANSFER"
  | timeoutDeferredTransfer => "GRDT_TRANSACTION_TIMEOUT_DEFERRED_TRANSFER"
  | unknown _ => "GRDT_TRANSACTION_UNKNOWN"

/-- `grdt_transaction_from_string`. -/
def fromString : String → TransactionType :=
  named [("GRDT_TRANSACTION_TRANSFER", transfer), ("GRDT_TRANSACTION_CREATION", creation),
    ("GRDT_TRANSACTION_REGISTER_ADDRESS", registerAddress),
    ("GRDT_TRANSACTION_DEFERRED_TRANSFER", deferredTransfer),
    ("GRDT_TRANSACTION_REDEEM_DEFERRED_TRANSFER", redeemDeferredTransfer),
    ("GRDT_TRANSACTION_TIMEOUT_DEFERRED_TRANSFER", timeoutDeferredTransfer),
    ("GRDT_TRANSACTION_COMMUNITY_ROOT", communityRoot),
    ("GRDT_TRANSACTION_COMMUNITY_FRIENDS_UPDATE", communityFriendsUpdate)] none

end TransactionType

namespace AddressType

/-- `grdt_address_to_string`. -/
def toString : AddressType → String
  | none => "GRDT_ADDRESS_NONE"
  | communityHuman => "GRDT_ADDRESS_COMMUNITY_HUMAN"
  | communityGmw => "GRDT_ADDRESS_COMMUNITY_GMW"
  | communityAuf => "GRDT_ADDRESS_COMMUNITY_AUF"
  | communityProject => "GRDT_ADDRESS_COMMUNITY_PROJECT"
  | subaccount => "GRDT_ADDRESS_SUBACCOUNT"
  | cryptoAccount => "GRDT_ADDRESS_CRYPTO_ACCOUNT"
  | deferredTransfer => "GRDT_ADDRESS_DEFERRED_TRANSFER"
  | unknown _ => "GRDT_ADDRESS_UNKNOWN"

/-- `grdt_address_from_string`. -/
def fromString : String → AddressType :=
  named [("GRDT_ADDRESS_COMMUNITY_HUMAN", communityHuman),
    ("GRDT_ADDRESS_DEFERRED_TRANSFER", deferredTransfer),
    ("GRDT_ADDRESS_COMMUNITY_GMW", communityGmw), ("GRDT_ADDRESS_COMMUNITY_AUF", communityAuf),
    ("GRDT_ADDRESS_COMMUNITY_PROJECT", communityProject), ("GRDT_ADDRESS_SUBACCOUNT", subaccount),
    ("GRDT_ADDRESS_CRYPTO_ACCOUNT", cryptoAccount)] none

/-- A name that is read back. -/
def Named : AddressType → Prop
  | none | unknown _ => False
  | _ => True

instance : DecidablePred Named := fun type => by cases type <;> unfold Named <;> infer_instance

theorem Named.ne_none {type : AddressType} (hnamed : type.Named) : type ≠ none := by
  intro hnone
  rw [hnone] at hnamed
  exact hnamed

theorem fromString_toString (type : AddressType) :
    fromString type.toString = if type.Named then type else none := by
  cases type <;> rfl

end AddressType

namespace CrossGroup

/-- `grdt_cross_group_to_string`. -/
def toString : CrossGroup → String
  | «local» => "GRDT_CROSS_GROUP_LOCAL"
  | inbound => "GRDT_CROSS_GROUP_INBOUND"
  | outbound => "GRDT_CROSS_GROUP_OUTBOUND"
  | cross => "GRDT_CROSS_GROUP_CROSS"
  | none => "GRDT_CROSS_GROUP_NONE"
  | unknown _ => "GRDT_CROSS_GROUP_UNKNOWN"

/-- `grdt_cross_group_from_string`. -/
def fromString : String → CrossGroup :=
  named [("GRDT_CROSS_GROUP_LOCAL", .local), ("GRDT_CROSS_GROUP_INBOUND", inbound),
    ("GRDT_CROSS_GROUP_OUTBOUND", outbound), ("GRDT_CROSS_GROUP_CROSS", cross)] none

/-- A name that is read back. -/
def Named : CrossGroup → Prop
  | none | unknown _ => False
  | _ => True

instance : DecidablePred Named := fun type => by cases type <;> unfold Named <;> infer_instance

theorem Named.ne_none {type : CrossGroup} (hnamed : type.Named) : type ≠ none := by
  intro hnone
  rw [hnone] at hnamed
  exact hnamed

theorem fromString_toString (type : CrossGroup) :
    fromString type.toString = if type.Named then type else none := by
  cases type <;> rfl

end CrossGroup

namespace MemoKey

/-- `grdt_memo_key_to_string`. -/
def toString : MemoKey → String
  | sharedSecret => "GRDT_MEMO_KEY_SHARED_SECRET"
  | communitySecret => "GRDT_MEMO_KEY_COMMUNITY_SECRET"
  | plain => "GRDT_MEMO_KEY_PLAIN"
  | none => "GRDT_MEMO_KEY_NONE"
  | unknown _ => "GRDT_MEMO_KEY_UNKNOWN"

/-- `grdt_memo_key_from_string`. -/
def fromString : String → MemoKey :=
  named [("GRDT_MEMO_KEY_SHARED_SECRET", sharedSecret),
    ("GRDT_MEMO_KEY_COMMUNITY_SECRET", communitySecret), ("GRDT_MEMO_KEY_PLAIN", plain)] none

/-- A name that is read back. -/
def Named : MemoKey → Prop
  | none | unknown _ => False
  | _ => True

instance : DecidablePred Named := fun key => by cases key <;> unfold Named <;> infer_instance

theorem fromString_toString (key : MemoKey) :
    fromString key.toString = if key.Named then key else none := by
  cases key <;> rfl

end MemoKey

namespace LedgerAnchorType

/-- `grdt_ledger_anchor_to_string`. -/
def toString : LedgerAnchorType → String
  | unspecified => "GRDT_LEDGER_ANCHOR_UNSPECIFIED"
  | hieroTransactionId => "GRDT_LEDGER_ANCHOR_HIERO_TRANSACTION_ID"
  | legacyGradidoDbTransactionId => "GRDT_LEDGER_ANCHOR_LEGACY_GRADIDO_DB_TRANSACTION_ID"
  | nodeTriggerTransactionId => "GRDT_LEDGER_ANCHOR_NODE_TRIGGER_TRANSACTION_ID"
  | legacyGradidoDbCommunityId => "GRDT_LEDGER_ANCHOR_LEGACY_GRADIDO_DB_COMMUNITY_ID"
  | legacyGradidoDbUserId => "GRDT_LEDGER_ANCHOR_LEGACY_GRADIDO_DB_USER_ID"
  | legacyGradidoDbContributionId => "GRDT_LEDGER_ANCHOR_LEGACY_GRADIDO_DB_CONTRIBUTION_ID"
  | legacyGradidoDbTransactionLinkId => "GRDT_LEDGER_ANCHOR_LEGACY_GRADIDO_DB_TRANSACTION_LINK_ID"
  | retired | unknown _ => "GRDT_LEDGER_ANCHOR_UNKNOWN"

/-- `grdt_ledger_anchor_from_string`. -/
def fromString : String → LedgerAnchorType :=
  named [("GRDT_LEDGER_ANCHOR_HIERO_TRANSACTION_ID", hieroTransactionId),
    ("GRDT_LEDGER_ANCHOR_LEGACY_GRADIDO_DB_TRANSACTION_ID", legacyGradidoDbTransactionId),
    ("GRDT_LEDGER_ANCHOR_NODE_TRIGGER_TRANSACTION_ID", nodeTriggerTransactionId),
    ("GRDT_LEDGER_ANCHOR_LEGACY_GRADIDO_DB_TRANSACTION_LINK_ID", legacyGradidoDbTransactionLinkId),
    ("GRDT_LEDGER_ANCHOR_LEGACY_GRADIDO_DB_CONTRIBUTION_ID", legacyGradidoDbContributionId),
    ("GRDT_LEDGER_ANCHOR_LEGACY_GRADIDO_DB_USER_ID", legacyGradidoDbUserId),
    ("GRDT_LEDGER_ANCHOR_LEGACY_GRADIDO_DB_COMMUNITY_ID", legacyGradidoDbCommunityId)] unspecified

/-- A name that is read back. -/
def Named : LedgerAnchorType → Prop
  | retired | unknown _ => False
  | _ => True

instance : DecidablePred Named := fun type => by cases type <;> unfold Named <;> infer_instance

theorem fromString_toString (type : LedgerAnchorType) :
    fromString type.toString = if type.Named then type else unspecified := by
  cases type <;> rfl

end LedgerAnchorType

end GradidoBlockchain
