import GradidoBlockchain.Json.Elements
import GradidoBlockchain.Json.Writer
import GradidoBlockchain.Lib.Outcome

/-!
# Reading what has been written

Each object of a document is read back as what it was written from. A member is found under its key
because no two members of an object share one. What an anchor comes back as is settled here: a type
without a name is read as the unspecified one, which has no id.
-/

namespace GradidoBlockchain

namespace Mapping

namespace JsonArnm

variable {arnm : JsonArnm} {members : List Member} {table : List Field} {key : String}

/-! ### Members -/

/-- A walk whose fields can all be filled fills each of them with what it finds. -/
theorem readObject_slots (hlawful : arnm.Lawful) (members : List Member)
    (slots : List (Σ field : Field, Option field.type.Slot)) (htable : slots.map Sigma.fst = table)
    (hkeys : (table.map Field.key).Nodup)
    (hreads : ∀ slot ∈ slots, arnm.reads members slot.1 = .ok slot.2) :
    ∃ seen, arnm.readObject (.object members) table = .ok seen ∧
      ∀ slot ∈ slots, seen slot.1 = slot.2 := by
  have hfound : ∀ field ∈ table, ∃ slot, arnm.reads members field = .ok slot := by
    intro field hmem
    rw [← htable] at hmem
    obtain ⟨slot, hslot, rfl⟩ := List.mem_map.1 hmem
    exact ⟨slot.2, hreads slot hslot⟩
  choose! found hfilled using hfound
  refine ⟨_, hlawful.readObject_ok members table found hkeys hfilled, fun slot hslot => ?_⟩
  have hmem : slot.1 ∈ table := htable ▸ List.mem_map_of_mem hslot
  rw [if_pos hmem]
  exact Except.ok.inj ((hfilled _ hmem).symm.trans (hreads slot hslot))

theorem reads_converted {field : Field} {json : Json} {slot : field.type.Slot}
    (hfound : members.lookup field.key = some json) (hnull : json.isNull = false)
    (hconvert : arnm.convert field.type json = .ok slot) :
    arnm.reads members field = .ok (some slot) := by
  simp only [reads, hfound, hnull, Bool.false_eq_true, false_and, if_false, hconvert, Except.map]

theorem reads_value (hlawful : arnm.Lawful) {json : Json}
    (hfound : members.lookup key = some json) :
    arnm.reads members (.value key) = .ok (some json) := by
  simp only [reads, hfound, ne_eq, not_true_eq_false, and_false, if_false, hlawful.convert_value,
    Except.map]

theorem reads_uint64 (hlawful : arnm.Lawful) {value : UInt64}
    (hfound : members.lookup key = some (addUint64 key value).2) :
    arnm.reads members (.uint64 key) = .ok (some value) :=
  reads_converted hfound rfl (hlawful.convert_uint64 value)

theorem reads_int64 (hlawful : arnm.Lawful) {value : Int64}
    (hfound : members.lookup key = some (addInt64 key value).2) :
    arnm.reads members (.int64 key) = .ok (some value) :=
  reads_converted hfound rfl (hlawful.convert_int64 value)

theorem reads_int32 (hlawful : arnm.Lawful) {value : Int32}
    (hfound : members.lookup key = some (.number value.toInt)) :
    arnm.reads members (.int32 key) = .ok (some value) :=
  reads_converted hfound rfl (hlawful.convert_int32 value)

theorem reads_uint32 (hlawful : arnm.Lawful) {value : UInt32}
    (hfound : members.lookup key = some (addUint64 key value.toUInt64).2) :
    arnm.reads members (.uint32 key) = .ok (some value) :=
  reads_converted hfound rfl (hlawful.convert_uint32 value)

theorem reads_string (hlawful : arnm.Lawful) {text : String}
    (hfound : members.lookup key = some (.string text)) :
    arnm.reads members (.string key) = .ok (some text) :=
  reads_converted hfound rfl (hlawful.convert_string text)

theorem reads_hex (hlawful : arnm.Lawful) {size : ℕ} {bytes : Bytes size}
    (hfound : members.lookup key = some (addHex arnm key bytes).2) :
    arnm.reads members (.hexFixed size key) = .ok (some bytes) :=
  reads_converted hfound rfl (hlawful.convert_hex bytes)

theorem reads_uuid (hlawful : arnm.Lawful) {uuid : Option Uuid}
    (hfound : members.lookup key = some (addUuid arnm key uuid).2) :
    arnm.reads members (.uuid key) = .ok uuid := by
  cases uuid with
  | none =>
      simp only [reads, hfound, addUuid, Json.isNull, true_and,
        if_pos (show FieldType.uuid ≠ .value from nofun)]
  | some uuid => exact reads_converted hfound rfl (hlawful.convert_uuid uuid)

end JsonArnm

open JsonArnm

variable {arnm : JsonArnm}

/-! ### The objects below the root -/

theorem readTimestamp_written (hlawful : arnm.Lawful) (key : String) (timestamp : Timestamp) :
    readTimestamp arnm (some (addTimestamp key timestamp).2) = .ok timestamp := by
  obtain ⟨seen, hseen, hslots⟩ := readObject_slots hlawful
    [addInt64 Key.seconds timestamp.seconds, (Key.nanos, .number timestamp.nanos.toInt)]
    [⟨.int64 Key.seconds, some timestamp.seconds⟩, ⟨.int32 Key.nanos, some timestamp.nanos⟩]
    (show _ = timestampTable from rfl) (by decide) (by
      simp only [List.forall_mem_cons]
      exact ⟨reads_int64 hlawful rfl, reads_int32 hlawful rfl, nofun⟩)
  simp only [List.forall_mem_cons] at hslots
  simp only [readTimestamp, addTimestamp, required, bind, Except.bind, hseen, hslots]

theorem readAccountId_written (hlawful : arnm.Lawful) (id : Wire.HieroAccountId) :
    readAccountId arnm
        (some (.object
          [addInt64 Key.shardNum id.shardNum, addInt64 Key.realmNum id.realmNum,
            addInt64 Key.accountNum id.accountNum])) = .ok id := by
  obtain ⟨seen, hseen, hslots⟩ := readObject_slots hlawful
    [addInt64 Key.shardNum id.shardNum, addInt64 Key.realmNum id.realmNum,
      addInt64 Key.accountNum id.accountNum]
    [⟨.int64 Key.shardNum, some id.shardNum⟩, ⟨.int64 Key.realmNum, some id.realmNum⟩,
      ⟨.int64 Key.accountNum, some id.accountNum⟩]
    (show _ = accountIdTable from rfl) (by decide) (by
      simp only [List.forall_mem_cons]
      exact ⟨reads_int64 hlawful rfl, reads_int64 hlawful rfl, reads_int64 hlawful rfl, nofun⟩)
  simp only [List.forall_mem_cons] at hslots
  simp only [readAccountId, required, bind, Except.bind, hseen, hslots]

theorem readHieroTransactionId_written (hlawful : arnm.Lawful) (id : Wire.HieroTransactionId) :
    readHieroTransactionId arnm
        (some (.object
          [addTimestamp Key.transactionValidStart id.transactionValidStart,
            (Key.accountId,
              .object [addInt64 Key.shardNum id.accountId.shardNum,
                addInt64 Key.realmNum id.accountId.realmNum,
                addInt64 Key.accountNum id.accountId.accountNum])])) = .ok id := by
  obtain ⟨seen, hseen, hslots⟩ := readObject_slots hlawful
    [addTimestamp Key.transactionValidStart id.transactionValidStart,
      (Key.accountId, .object [addInt64 Key.shardNum id.accountId.shardNum, addInt64 Key.realmNum id.accountId.realmNum,
        addInt64 Key.accountNum id.accountId.accountNum])]
    [⟨.value Key.transactionValidStart, some (addTimestamp Key.transactionValidStart id.transactionValidStart).2⟩,
      ⟨.value Key.accountId, some (.object [addInt64 Key.shardNum id.accountId.shardNum, addInt64 Key.realmNum id.accountId.realmNum,
        addInt64 Key.accountNum id.accountId.accountNum])⟩]
    (show _ = hieroTable from rfl) (by decide) (by
      simp only [List.forall_mem_cons]
      exact ⟨reads_value hlawful rfl, reads_value hlawful rfl, nofun⟩)
  simp only [List.forall_mem_cons] at hslots
  simp only [readHieroTransactionId, required, bind, Except.bind, hseen, hslots,
    readTimestamp_written hlawful, readAccountId_written hlawful]

/-- An anchor that comes back as it was: its type has a name, and an unspecified one is all zero. -/
def Kept (anchor : Wire.LedgerAnchor) : Prop :=
  anchor.type.Named ∧ (anchor.type = .unspecified → anchor = .init)

instance : DecidablePred Kept := fun _ => inferInstanceAs (Decidable (_ ∧ _))

/-- What an anchor comes back as. -/
def reread (anchor : Wire.LedgerAnchor) : Wire.LedgerAnchor := if Kept anchor then anchor else .init

theorem reread_eq_self {anchor : Wire.LedgerAnchor} : reread anchor = anchor ↔ Kept anchor := by
  by_cases hkept : Kept anchor
  · exact iff_of_true (if_pos hkept) hkept
  · refine iff_of_false (fun hsame => hkept ?_) hkept
    rw [reread, if_neg hkept] at hsame
    rw [← hsame]
    decide

/-- What the name of a type that is no Hiero one is read as, with the id beside it. -/
theorem readLedgerAnchor_id (hlawful : arnm.Lawful) {type : LedgerAnchorType}
    (other : type ≠ .hieroTransactionId) (hspecified : type ≠ .unspecified) (id : UInt64) :
    readLedgerAnchor arnm
        (some (.object [addEnumString Key.type type.toString, addUint64 Key.id id])) =
      .ok (if type.Named then .id type other id else .init) := by
  obtain ⟨seen, hseen, hslots⟩ :=
    readObject_slots hlawful [addEnumString Key.type type.toString, addUint64 Key.id id]
    [⟨.string Key.type, some type.toString⟩, ⟨.value Key.hieroTransactionId, none⟩,
      ⟨.uint64 Key.id, some id⟩]
    (show _ = anchorTable from rfl) (by decide) (by
      simp only [List.forall_mem_cons]
      exact ⟨reads_string hlawful rfl, rfl, reads_uint64 hlawful rfl, nofun⟩)
  simp only [List.forall_mem_cons] at hslots
  have hname : LedgerAnchorType.fromString type.toString =
      if type.Named then type else .unspecified := LedgerAnchorType.fromString_toString type
  simp only [readLedgerAnchor, required, bind, Except.bind, hseen, hslots]
  by_cases hnamed : type.Named
  · rw [if_pos hnamed] at hname
    simp only [hname, other, hspecified, dite_false, if_false, if_pos hnamed]
  · rw [if_neg hnamed] at hname
    simp only [hname, if_neg hnamed]
    rfl

theorem readLedgerAnchor_written (hlawful : arnm.Lawful) (key : String)
    (anchor : Wire.LedgerAnchor) :
    readLedgerAnchor arnm (some (addLedgerAnchor key (some anchor)).2) = .ok (reread anchor) := by
  cases anchor with
  | hieroTransactionId id =>
      obtain ⟨seen, hseen, hslots⟩ := readObject_slots hlawful
        (addEnumString Key.type LedgerAnchorType.hieroTransactionId.toString ::
          anchorMembers (.hieroTransactionId id))
        [⟨.string Key.type, some LedgerAnchorType.hieroTransactionId.toString⟩,
          ⟨.value Key.hieroTransactionId, (anchorMembers (.hieroTransactionId id)).lookup Key.hieroTransactionId⟩, ⟨.uint64 Key.id, none⟩]
        (show _ = anchorTable from rfl) (by decide) (by
          simp only [List.forall_mem_cons]
          exact ⟨reads_string hlawful rfl, reads_value hlawful rfl, rfl, nofun⟩)
      simp only [List.forall_mem_cons] at hslots
      have hread := readHieroTransactionId_written hlawful id
      simp only [readLedgerAnchor, addLedgerAnchor, required, bind, Except.bind,
        Wire.LedgerAnchor.type, hseen, hslots]
      exact congrArg (Except.map Wire.LedgerAnchor.hieroTransactionId) hread
  | id type other id =>
      cases type with
      | hieroTransactionId => exact absurd rfl other
      | unspecified =>
          obtain ⟨seen, hseen, hslots⟩ :=
            readObject_slots hlawful [addEnumString Key.type LedgerAnchorType.unspecified.toString]
            [⟨.string Key.type, some LedgerAnchorType.unspecified.toString⟩,
              ⟨.value Key.hieroTransactionId, none⟩, ⟨.uint64 Key.id, none⟩]
            (show _ = anchorTable from rfl) (by decide) (by
              simp only [List.forall_mem_cons]
              exact ⟨reads_string hlawful rfl, rfl, rfl, nofun⟩)
          simp only [List.forall_mem_cons] at hslots
          have hinit : reread (.id .unspecified other id) = .init := by
            rw [reread]
            split
            · rename_i hkept
              exact hkept.2 rfl
            · rfl
          rw [hinit]
          simp only [readLedgerAnchor, addLedgerAnchor, anchorMembers, required, bind, Except.bind,
            Wire.LedgerAnchor.type, hseen, hslots]
          rfl
      | _ =>
          refine (readLedgerAnchor_id hlawful other nofun id).trans ?_
          rfl

/-! ### The detail of a transaction -/

theorem readTransfer_written (hlawful : arnm.Lawful) (tx : Runtime.CompleteTransaction) :
    readTransfer arnm (some (addTransfer arnm tx).2) = .ok tx.transfer := by
  obtain ⟨seen, hseen, hslots⟩ := readObject_slots hlawful
    [addHex arnm Key.senderPubkey tx.transfer.senderPubkey, addHex arnm Key.recipientPubkey tx.transfer.recipientPubkey,
      addInt64 Key.amount tx.transfer.amount, addUuid arnm Key.coinCommunityUuid (some tx.transfer.coinCommunityUuid)]
    [⟨.hexFixed 32 Key.senderPubkey, some tx.transfer.senderPubkey⟩, ⟨.hexFixed 32 Key.recipientPubkey, some tx.transfer.recipientPubkey⟩,
      ⟨.int64 Key.amount, some tx.transfer.amount⟩, ⟨.uuid Key.coinCommunityUuid, some tx.transfer.coinCommunityUuid⟩]
    (show _ = transferTable from rfl) (by decide) (by
      simp only [List.forall_mem_cons]
      exact ⟨reads_hex hlawful rfl, reads_hex hlawful rfl, reads_int64 hlawful rfl, reads_uuid hlawful rfl, nofun⟩)
  simp only [List.forall_mem_cons] at hslots
  simp only [readTransfer, addTransfer, required, bind, Except.bind, hseen, hslots]

theorem readRegisterAddress_written (hlawful : arnm.Lawful) (tx : Runtime.CompleteTransaction) :
    readRegisterAddress arnm (some (addRegisterAddress arnm tx).2) = .ok tx.registerAddress := by
  obtain ⟨seen, hseen, hslots⟩ := readObject_slots hlawful
    [addHex arnm Key.userPublicKey tx.registerAddress.userPublicKey, addHex arnm Key.nameHash tx.registerAddress.nameHash,
      addHex arnm Key.accountPublicKey tx.registerAddress.accountPublicKey]
    [⟨.hexFixed 32 Key.userPublicKey, some tx.registerAddress.userPublicKey⟩, ⟨.hexFixed 32 Key.nameHash, some tx.registerAddress.nameHash⟩,
      ⟨.hexFixed 32 Key.accountPublicKey, some tx.registerAddress.accountPublicKey⟩]
    (show _ = registerAddressTable from rfl) (by decide) (by
      simp only [List.forall_mem_cons]
      exact ⟨reads_hex hlawful rfl, reads_hex hlawful rfl, reads_hex hlawful rfl, nofun⟩)
  simp only [List.forall_mem_cons] at hslots
  simp only [readRegisterAddress, addRegisterAddress, required, bind, Except.bind, hseen, hslots]

theorem readCommunityRoot_written (hlawful : arnm.Lawful) (tx : Runtime.CompleteTransaction) :
    readCommunityRoot arnm (some (addCommunityRoot arnm tx).2) = .ok tx.communityRoot := by
  obtain ⟨seen, hseen, hslots⟩ := readObject_slots hlawful
    [addHex arnm Key.publicKey tx.communityRoot.publicKey, addHex arnm Key.gmwPublicKey tx.communityRoot.gmwPublicKey,
      addHex arnm Key.aufPublicKey tx.communityRoot.aufPublicKey]
    [⟨.hexFixed 32 Key.publicKey, some tx.communityRoot.publicKey⟩, ⟨.hexFixed 32 Key.gmwPublicKey, some tx.communityRoot.gmwPublicKey⟩,
      ⟨.hexFixed 32 Key.aufPublicKey, some tx.communityRoot.aufPublicKey⟩]
    (show _ = communityRootTable from rfl) (by decide) (by
      simp only [List.forall_mem_cons]
      exact ⟨reads_hex hlawful rfl, reads_hex hlawful rfl, reads_hex hlawful rfl, nofun⟩)
  simp only [List.forall_mem_cons] at hslots
  simp only [readCommunityRoot, addCommunityRoot, required, bind, Except.bind, hseen, hslots]

/-! ### The elements of the lists -/

theorem readAccountBalance_written (hlawful : arnm.Lawful) (balance : AccountBalance) :
    readAccountBalance arnm (accountBalanceJson arnm balance) = .ok balance := by
  obtain ⟨seen, hseen, hslots⟩ := readObject_slots hlawful
    [addHex arnm Key.pubkey balance.pubkey, addInt64 Key.balance balance.balance,
      addUuid arnm Key.communityUuid (some balance.communityUuid)]
    [⟨.hexFixed 32 Key.pubkey, some balance.pubkey⟩, ⟨.int64 Key.balance, some balance.balance⟩,
      ⟨.uuid Key.communityUuid, some balance.communityUuid⟩]
    (show _ = accountBalanceTable from rfl) (by decide) (by
      simp only [List.forall_mem_cons]
      exact ⟨reads_hex hlawful rfl, reads_int64 hlawful rfl, reads_uuid hlawful rfl, nofun⟩)
  simp only [List.forall_mem_cons] at hslots
  simp only [readAccountBalance, accountBalanceJson, required, bind, Except.bind, hseen, hslots]

/-- The payload of a memo is left as the text it has. -/
def memoText (arnm : JsonArnm) (memo : Wire.EncryptedMemo) : MemoText :=
  ⟨memo.type, arnm.base64 memo.memo⟩

theorem readEncryptedMemo_written (hlawful : arnm.Lawful) (memo : Wire.EncryptedMemo) :
    readEncryptedMemo arnm (encryptedMemoJson arnm memo) =
      if memo.type.Named then .ok (memoText arnm memo) else .error .enumUnknown := by
  obtain ⟨seen, hseen, hslots⟩ := readObject_slots hlawful
    [addEnumString Key.type memo.type.toString, addBase64 arnm Key.memo memo.memo]
    [⟨.string Key.type, some memo.type.toString⟩, ⟨.string Key.memo, some (arnm.base64 memo.memo)⟩]
    (show _ = encryptedMemoTable from rfl) (by decide) (by
      simp only [List.forall_mem_cons]
      exact ⟨reads_string hlawful rfl, reads_string hlawful rfl, nofun⟩)
  simp only [List.forall_mem_cons] at hslots
  simp only [readEncryptedMemo, encryptedMemoJson, required, bind, Except.bind, hseen, hslots,
    MemoKey.fromString_toString]
  by_cases hnamed : memo.type.Named
  · have hsome : memo.type ≠ .none := fun hnone => by rw [hnone] at hnamed; exact hnamed
    simp only [if_pos hnamed, if_neg hsome, memoText]
  · simp only [if_neg hnamed, if_true]

theorem readSignaturePair_written (hlawful : arnm.Lawful) (pair : SignaturePair) :
    readSignaturePair arnm (signaturePairJson arnm pair) = .ok pair := by
  obtain ⟨seen, hseen, hslots⟩ := readObject_slots hlawful
    [addHex arnm Key.publicKey pair.publicKey, addHex arnm Key.signature pair.signature]
    [⟨.hexFixed 32 Key.publicKey, some pair.publicKey⟩,
      ⟨.hexFixed 64 Key.signature, some pair.signature⟩]
    (show _ = signaturePairTable from rfl) (by decide) (by
      simp only [List.forall_mem_cons]
      exact ⟨reads_hex hlawful rfl, reads_hex hlawful rfl, nofun⟩)
  simp only [List.forall_mem_cons] at hslots
  simp only [readSignaturePair, signaturePairJson, required, bind, Except.bind, hseen, hslots]

end Mapping

end GradidoBlockchain
