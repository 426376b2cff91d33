import GradidoBlockchain.Store.Loading

/-!
# What a record tells of those it concerns

The getters of a record look at its type, and at its group for the two communities, before they
answer. Of a record that is made from bytes that were sent they tell what the body says. Every key
they give is one that an index finds the transaction by, and a balance is given for just the keys
that it lists in that role. The two halves of a transaction between communities name the same two
communities, each from its own side.
-/

namespace GradidoBlockchain

namespace Runtime.CompleteTransaction

variable (tx : Runtime.CompleteTransaction)

def getAccountBalanceForPublicKey (publicKey : PublicKey) : Option AccountBalance :=
  tx.accountBalances.find? fun balance => balance.pubkey = publicKey

def getSenderCommunityUuid : Option Uuid :=
  match tx.crossGroupType with
  | .local | .outbound => some tx.txCommunityUuid
  | .inbound => tx.txPairingCommunityUuid
  | _ => none

def getRecipientCommunityUuid : Option Uuid :=
  match tx.crossGroupType with
  | .local | .inbound => some tx.txCommunityUuid
  | .outbound => tx.txPairingCommunityUuid
  | _ => none

def getSenderPublicKey : Option PublicKey :=
  match tx.transactionType with
  | .transfer | .redeemDeferredTransfer | .deferredTransfer => some tx.transfer.senderPubkey
  | _ => none

def getRecipientPublicKey : Option PublicKey :=
  match tx.transactionType with
  | .transfer | .redeemDeferredTransfer | .deferredTransfer | .creation =>
      some tx.transfer.recipientPubkey
  | _ => none

def getRegisteredAccount : Option PublicKey :=
  match tx.transactionType with
  | .registerAddress => some tx.registerAddress.accountPublicKey
  | _ => none

def getAmount : Int64 :=
  match tx.transactionType with
  | .transfer | .redeemDeferredTransfer | .deferredTransfer | .creation => tx.transfer.amount
  | _ => 0

def getTargetDate : Int64 :=
  match tx.transactionType with
  | .creation => tx.targetDate
  | _ => 0

def getTimeoutDuration : Int64 :=
  match tx.transactionType with
  | .deferredTransfer => tx.timeoutDuration
  | _ => 0

/-! ### The index -/

/-- An index lists a transaction in the role of a balance under just the keys that have one. -/
theorem listsBalance_iff (key : PublicKey) :
    tx.indexed.ListsBalance key ↔
      key ≠ zeroBytes 32 ∧ (tx.getAccountBalanceForPublicKey key).isSome := by
  rw [CompleteTransaction.ListsBalance, getAccountBalanceForPublicKey, List.find?_isSome]
  simp [indexed]

/-- The keys that the getters give. -/
def given : List PublicKey :=
  tx.getSenderPublicKey.toList ++ tx.getRecipientPublicKey.toList ++ tx.getRegisteredAccount.toList

/-- An index finds a transaction by the keys that are given of it. -/
theorem involves_of_given {key : PublicKey} (hgiven : key ∈ tx.given)
    (hkey : key ≠ zeroBytes 32) : tx.indexed.Involves key := by
  refine .inr (.inr ⟨hkey, ?_⟩)
  rw [given, getSenderPublicKey, getRecipientPublicKey, getRegisteredAccount] at hgiven
  rw [indexed]
  cases htype : tx.transactionType <;> rw [htype] at hgiven <;> simp at hgiven ⊢
  -- what is created has no sender, and of an address only the account is given
  case creation | registerAddress => exact .inr hgiven
  all_goals exact hgiven

end Runtime.CompleteTransaction

/-! ### What a body says -/

namespace Wire

/-- Units that go from somebody, or from nobody where they are created, to somebody. -/
structure Movement where
  sender : Option PublicKey
  recipient : PublicKey
  amount : Int64

def GradidoTransfer.movement (transfer : GradidoTransfer) : Movement :=
  ⟨some transfer.sender.pubkey, transfer.recipient, transfer.sender.amount⟩

def Detail.movement : Detail → Option Movement
  | .creation created => some ⟨.none, created.recipient.pubkey, created.recipient.amount⟩
  | .transfer moved => some moved.movement
  | .deferredTransfer deferred => some deferred.transfer.movement
  | .redeemDeferredTransfer redeem => some redeem.transfer.movement
  | _ => .none

/-- The account that is registered. -/
def Detail.account : Detail → Option PublicKey
  | .registerAddress address => some address.accountPubkey
  | _ => .none

/-- When what is created is meant for, and how long what is deferred can be redeemed. -/
def Detail.times : Detail → Int64 × Int64
  | .creation created => (created.targetDate, 0)
  | .deferredTransfer deferred => (0, deferred.timeoutDuration.toUInt64.toInt64)
  | _ => (0, 0)

/-- The communities of the sender and of the recipient, as they are seen from `home`. -/
def TransactionBody.between (home : Uuid) (body : TransactionBody) : Option Uuid × Option Uuid :=
  match body.type with
  | .local => (some home, some home)
  | .outbound => (some home, body.otherCommunityUuid)
  | .inbound => (body.otherCommunityUuid, some home)
  | _ => (none, none)

/-- The two bodies of a transaction between two communities, one sent from each of them. -/
structure Halves (home other : Uuid) (outgoing incoming : TransactionBody) : Prop where
  outbound : outgoing.type = .outbound ∧ outgoing.otherCommunityUuid = some other
  inbound : incoming.type = .inbound ∧ incoming.otherCommunityUuid = some home

theorem Halves.between_eq {home other : Uuid} {outgoing incoming : TransactionBody}
    (hhalves : Halves home other outgoing incoming) :
    outgoing.between home = (some home, some other) ∧
      incoming.between other = (some home, some other) := by
  rw [TransactionBody.between, hhalves.outbound.1, hhalves.outbound.2, TransactionBody.between,
    hhalves.inbound.1, hhalves.inbound.2]
  exact ⟨rfl, rfl⟩

end Wire

namespace Mapping

variable {tx : Wire.ConfirmedTransaction} {body : Wire.TransactionBody} {communityUuid : Uuid}
  {record : Runtime.CompleteTransaction}

/-- The getters of a record tell what a body says, and an index finds it by what they give. -/
structure Tells (tx : Wire.ConfirmedTransaction) (body : Wire.TransactionBody)
    (communityUuid : Uuid) (record : Runtime.CompleteTransaction) : Prop where
  sender : record.getSenderPublicKey = body.detail.movement.bind Wire.Movement.sender
  recipient : record.getRecipientPublicKey = body.detail.movement.map Wire.Movement.recipient
  amount : record.getAmount = (body.detail.movement.map Wire.Movement.amount).getD 0
  account : record.getRegisteredAccount = body.detail.account
  times : (record.getTargetDate, record.getTimeoutDuration) = body.detail.times
  communities : (record.getSenderCommunityUuid, record.getRecipientCommunityUuid) =
    body.between communityUuid
  balance key : record.getAccountBalanceForPublicKey key =
    tx.accountBalances.items.find? fun balance => balance.pubkey = key
  listed key : record.indexed.ListsBalance key ↔
    key ≠ zeroBytes 32 ∧ (record.getAccountBalanceForPublicKey key).isSome
  involved : ∀ key ∈ record.given, key ≠ zeroBytes 32 → record.indexed.Involves key

theorem tells_recordOf (tx : Wire.ConfirmedTransaction) (body : Wire.TransactionBody)
    (communityUuid : Uuid) (area : Runtime.Arena) :
    Tells tx body communityUuid (recordOf tx body communityUuid area) := by
  have hcommunities : ((recordOf tx body communityUuid area).getSenderCommunityUuid,
        (recordOf tx body communityUuid area).getRecipientCommunityUuid) =
      body.between communityUuid := by
    obtain ⟨_, _, _, _, _, _, _, _, hcopied⟩ :=
      copied_bare body.detail (bareRecord tx body communityUuid area)
    rw [recordOf_fields, hcopied, Runtime.CompleteTransaction.getSenderCommunityUuid,
      Runtime.CompleteTransaction.getRecipientCommunityUuid, Wire.TransactionBody.between]
    cases body.type <;> rfl
  refine ⟨?_, ?_, ?_, ?_, ?_, hcommunities, fun key => ?_,
    Runtime.CompleteTransaction.listsBalance_iff _,
    fun key hgiven hkey => Runtime.CompleteTransaction.involves_of_given _ hgiven hkey⟩
  all_goals
    rw [recordOf_fields]
    cases body.detail <;> rfl

section

variable {bytes : List UInt8} {recordHost : RecordHost} {opener : Runtime.Opener}
  {owned left : Runtime.Owned} {room rest : Fallible.Room}

variable {home other : Uuid} {incoming : Wire.TransactionBody}
  {received : Wire.ConfirmedTransaction} {otherBytes : List UInt8} {otherHost : RecordHost}
  {otherOpener : Runtime.Opener} {otherOwned otherLeft : Runtime.Owned}
  {otherRoom otherRest : Fallible.Room}

/-- The records of the two halves of a transaction, each made in its own community, give the same
sender and the same recipient community. -/
theorem Sent.halves_agree (hhalves : Wire.Halves home other body incoming)
    (hsent : Sent tx body bytes) (hreceived : Sent received incoming otherBytes)
    (hrun : initFromProtobuf PbTools.codec recordHost opener bytes home owned room =
      (.ok (), left, rest))
    (hother :
      initFromProtobuf PbTools.codec otherHost otherOpener otherBytes other otherOwned otherRoom =
        (.ok (), otherLeft, otherRest)) :
    (left.1.getSenderCommunityUuid = some home ∧ left.1.getRecipientCommunityUuid = some other) ∧
      otherLeft.1.getSenderCommunityUuid = some home ∧
      otherLeft.1.getRecipientCommunityUuid = some other := by
  obtain ⟨hhere, hthere⟩ := hhalves.between_eq
  rw [hsent.recorded hrun, hreceived.recorded hother]
  constructor
  · apply Prod.mk.inj
    exact (tells_recordOf tx body home _).communities.trans hhere
  · apply Prod.mk.inj
    exact (tells_recordOf received incoming other _).communities.trans hthere

end

/-! ### A transfer between two communities -/

/-- The record of each half in a host that refuses nothing. -/
def recordMade (body : Wire.TransactionBody) (communityUuid : Uuid) :
    Except Failure Unit × Runtime.Owned × Fallible.Room :=
  initFromProtobuf PbTools.codec ⟨plainHost, none⟩ .store (writtenWhole (carrying 1 body)).bytes
    communityUuid (.init, .empty) []

theorem recordMade_ok : (recordMade (transferred .outbound 2) (Vector.replicate 16 1)).1 = .ok () ∧
    (recordMade (transferred .inbound 1) (Vector.replicate 16 2)).1 = .ok () := by decide +kernel

theorem recordMade_run {body : Wire.TransactionBody} {communityUuid : Uuid}
    (hok : (recordMade body communityUuid).1 = .ok ()) :
    initFromProtobuf PbTools.codec ⟨plainHost, none⟩ .store (writtenWhole (carrying 1 body)).bytes
        communityUuid (.init, .empty) [] =
      (.ok (), (recordMade body communityUuid).2.1, (recordMade body communityUuid).2.2) := by
  rcases hrun : recordMade body communityUuid with ⟨outcome, left, rest⟩
  rw [hrun] at hok
  rw [recordMade] at hrun
  rw [hrun, show outcome = .ok () from hok]

theorem halves_agree_transferred :
    (recordMade (transferred .outbound 2) (Vector.replicate 16 1)).2.1.1.getRecipientCommunityUuid =
        some (Vector.replicate 16 2) ∧
      (recordMade (transferred .inbound 1) (Vector.replicate 16 2)).2.1.1.getSenderCommunityUuid =
        some (Vector.replicate 16 1) := by
  have hhalves : Wire.Halves (Vector.replicate 16 1) (Vector.replicate 16 2)
      (transferred .outbound 2) (transferred .inbound 1) := ⟨⟨rfl, rfl⟩, rfl, rfl⟩
  have hagree :=
    Sent.halves_agree hhalves (transferred_sent (by decide) (by decide +kernel) (by decide +kernel))
      (transferred_sent (by decide) (by decide +kernel) (by decide +kernel))
      (recordMade_run recordMade_ok.1) (recordMade_run recordMade_ok.2)
  exact ⟨hagree.1.2, hagree.2.1⟩

end Mapping

end GradidoBlockchain
