import GradidoBlockchain.Json.Root
import GradidoBlockchain.Runtime.Sized

/-!
# The room that a written document needs

Everything that a record keeps in its arena is longer in the text of its document: a byte takes two
digits of hex or a character of base64, and every value has a key. So what has been written is never
refused for its size, and the size that is found is that of the record.
-/

namespace GradidoBlockchain

namespace Mapping

variable {arnm : JsonArnm} {tx : Runtime.CompleteTransaction} {document : Json} {view : RootView}

/-! ### The room in a text -/

theorem accountBalance_fits (hlawful : arnm.Lawful) (balance : AccountBalance) :
    sizeofAccountBalance ≤ (accountBalanceJson arnm balance).text.length := by
  have hlength := balance.pubkey.length_toList
  simp only [accountBalanceJson, Json.length_object, List.map_cons, List.map_nil, List.sum_cons,
    List.sum_nil, Json.memberLength, addHex, addUuid, Json.length_string, hlawful.length_hex,
    hlawful.length_uuidText, hlength, sizeofAccountBalance]
  omega

theorem le_length_base64 (hlawful : arnm.Lawful) (bytes : List UInt8) :
    bytes.length ≤ (arnm.base64 bytes).length := by
  rw [hlawful.length_base64]
  omega

theorem encryptedMemo_fits (hlawful : arnm.Lawful) (memo : Wire.EncryptedMemo) :
    sizeofEncryptedMemo + align8 memo.memo.length ≤ (encryptedMemoJson arnm memo).text.length := by
  have hbytes := le_length_base64 hlawful memo.memo
  have haligned := align8_le memo.memo.length
  have hname : 18 ≤ memo.type.toString.length := by
    cases memo.type with
    | unknown past => exact (show 18 ≤ "GRDT_MEMO_KEY_UNKNOWN".length by decide)
    | _ => decide
  simp only [encryptedMemoJson, Json.length_object, List.map_cons, List.map_nil, List.sum_cons,
    List.sum_nil, Json.memberLength, addEnumString, addBase64, Json.length_string,
    sizeofEncryptedMemo, show Key.type.length = 4 from rfl, show Key.memo.length = 4 from rfl]
  omega

theorem signaturePair_fits (hlawful : arnm.Lawful) (pair : SignaturePair) :
    sizeofSignaturePair ≤ (signaturePairJson arnm pair).text.length := by
  have hkey := pair.publicKey.length_toList
  have hsignature := pair.signature.length_toList
  simp only [signaturePairJson, Json.length_object, List.map_cons, List.map_nil, List.sum_cons,
    List.sum_nil, Json.memberLength, addHex, Json.length_string, hlawful.length_hex, hkey,
    hsignature, sizeofSignaturePair]
  omega

theorem ledgerAnchor_fits (key : String) (anchor : Wire.LedgerAnchor) :
    36 ≤ (addLedgerAnchor key (some anchor)).2.text.length := by
  have hname : 26 ≤ anchor.type.toString.length := by
    cases anchor.type with
    | unknown past => exact (show 26 ≤ "GRDT_LEDGER_ANCHOR_UNKNOWN".length by decide)
    | _ => decide
  simp only [addLedgerAnchor, Json.length_object, List.map_cons, List.sum_cons, Json.memberLength,
    addEnumString, Json.length_string, show Key.type.length = 4 from rfl]
  omega

/-- The elements of a list need no more than their text is long. -/
theorem elements_fit {α : Type} {json : α → Json} {size : α → ℕ}
    (hsize : ∀ item, size item ≤ (json item).text.length) (items : List α) :
    (items.map size).sum ≤ (Json.array (items.map json)).text.length := by
  have hsum : (items.map size).sum ≤ (items.map (Json.itemLength ∘ json)).sum :=
    List.sum_le_sum fun item _ => Nat.le_succ_of_le (hsize item)
  rw [Json.length_array, List.map_map]
  omega

/-- What a record needs of an arena is less than its document is long. -/
theorem jsonTotal_fits (hlawful : arnm.Lawful)
    (hwritten : addCompleteTransaction arnm tx = .ok document) (hholds : Holds arnm tx view) :
    jsonTotal view (tx.accountBalances.map (accountBalanceJson arnm))
        (tx.encryptedMemos.map (encryptedMemoJson arnm))
        (tx.signaturePairs.map (signaturePairJson arnm))
        (tx.encryptedMemos.map fun memo => memo.memo.length) tx.bodyBytes.length ≤
      document.text.length := by
  obtain ⟨detail, -, rfl⟩ := addCompleteTransaction_ok hwritten
  have hbalances := elements_fit (accountBalance_fits hlawful) tx.accountBalances
  have hmemos := elements_fit (encryptedMemo_fits hlawful) tx.encryptedMemos
  have hsignatures := elements_fit (signaturePair_fits hlawful) tx.signaturePairs
  have hbody := le_length_base64 hlawful tx.bodyBytes
  have haligned := align8_le tx.bodyBytes.length
  have huuid : (if view.txPairingCommunityUuid.isSome then align8 16 else 0) ≤
      (addUuid arnm Key.txPairingCommunityUuid tx.txPairingCommunityUuid).2.text.length := by
    rw [hholds.txPairingCommunityUuid]
    cases tx.txPairingCommunityUuid with
    | none => exact Nat.zero_le _
    | some uuid =>
        simp only [addUuid, Json.length_string, hlawful.length_uuidText]
        exact (show align8 16 ≤ 36 + 2 by decide)
  have hanchor : (if view.presentAnchor.isSome then align8 sizeofLedgerAnchor else 0) ≤
      Json.memberLength (addLedgerAnchor Key.pairingLedgerAnchor tx.pairingLedgerAnchor) := by
    rw [RootView.presentAnchor, hholds.pairingLedgerAnchor]
    cases tx.pairingLedgerAnchor with
    | none => exact Nat.zero_le _
    | some anchor =>
        have hlength := ledgerAnchor_fits Key.pairingLedgerAnchor anchor
        have hkey : (addLedgerAnchor Key.pairingLedgerAnchor (some anchor)).1.length = 21 :=
          (show Key.pairingLedgerAnchor.length = 21 by decide)
        have hneeded : align8 sizeofLedgerAnchor = 48 := rfl
        rw [Json.memberLength, hkey]
        split <;> omega
  rw [List.sum_map_add] at hmemos
  rw [List.map_const', List.sum_replicate, Nat.nsmul_eq_mul] at hbalances hmemos hsignatures
  rw [jsonTotal, List.length_map, List.length_map, List.length_map, List.map_map,
    Json.length_object, List.map_append, List.sum_append]
  simp only [tailMembers, addArrays, List.cons_append, List.nil_append, List.map_cons, List.map_nil,
    List.sum_cons, List.sum_nil]
  have hmember : ∀ key json, json.text.length ≤ Json.memberLength (key, json) :=
    fun key json => Nat.le_add_left _ _
  have hbytes : tx.bodyBytes.length + 7 ≤
      Json.memberLength (addBase64 arnm Key.bodyBytes tx.bodyBytes) := by
    rw [Json.memberLength, addBase64, Json.length_string, show Key.bodyBytes.length = 10 by decide]
    omega
  have hbalances' := Nat.le_trans hbalances (hmember Key.accountBalances _)
  have hmemos' := Nat.le_trans hmemos (hmember Key.encryptedMemos _)
  have hsignatures' := Nat.le_trans hsignatures (hmember Key.signaturePairs _)
  have huuid' := Nat.le_trans huuid (hmember Key.txPairingCommunityUuid _)
  change _ ≤
    Json.memberLength (addUuid arnm Key.txPairingCommunityUuid tx.txPairingCommunityUuid) at huuid'
  rw [aligned_of_dvd (by decide), aligned_of_dvd (by decide), aligned_of_dvd (by decide)]
  change _ + (tx.encryptedMemos.map fun memo => align8 memo.memo.length).sum + _ + _ + _ + _ ≤ _
  omega

/-! ### The size of the arena -/

/-- What the record needs of an arena. -/
def neededSize (arnm : JsonArnm) (tx : Runtime.CompleteTransaction) (view : RootView) : ℕ :=
  jsonTotal view (tx.accountBalances.map (accountBalanceJson arnm))
    (tx.encryptedMemos.map (encryptedMemoJson arnm))
    (tx.signaturePairs.map (signaturePairJson arnm))
    (tx.encryptedMemos.map fun memo => memo.memo.length) tx.bodyBytes.length

theorem calculateJsonSize_written (hlawful : arnm.Lawful) (hholds : Holds arnm tx view)
    (hnamed : ∀ memo ∈ tx.encryptedMemos, memo.type.Named)
    (hfits : neededSize arnm tx view ≤ arnm.maxAllocSize) :
    calculateJsonSize arnm view (tx.accountBalances.map (accountBalanceJson arnm))
        (tx.encryptedMemos.map (encryptedMemoJson arnm))
        (tx.signaturePairs.map (signaturePairJson arnm)) =
      .ok (neededSize arnm tx view, tx.encryptedMemos.map (memoText arnm)) := by
  have htexts : readEncryptedMemos arnm (tx.encryptedMemos.map (encryptedMemoJson arnm)) =
      .ok (tx.encryptedMemos.map (memoText arnm)) := by
    apply Outcome.mapM_of_forall₂
    rw [List.forall₂_map_left_iff, List.forall₂_map_right_iff, List.forall₂_same]
    intro memo hmem
    rw [readEncryptedMemo_written hlawful, if_pos (hnamed memo hmem)]
  have hsizes :
      (tx.encryptedMemos.map (memoText arnm)).mapM (fun text => arnm.base64BinarySize text.memo) =
        .ok (tx.encryptedMemos.map fun memo => memo.memo.length) := by
    apply Outcome.mapM_of_forall₂
    rw [List.forall₂_map_left_iff, List.forall₂_map_right_iff, List.forall₂_same]
    exact fun memo _ => hlawful.base64BinarySize_base64 memo.memo
  rw [calculateJsonSize, htexts]
  simp only [bind, Except.bind, hsizes, hholds.bodyBytes, hlawful.base64BinarySize_base64]
  exact if_neg (Nat.not_lt.2 hfits)

end Mapping

end GradidoBlockchain
