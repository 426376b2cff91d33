import GradidoBlockchain.Runtime.Record
import GradidoBlockchain.Time.Timestamp
import GradidoBlockchain.Unit.R128
import Mathlib.Algebra.Order.Ring.Int

/-!
# What a transaction has to pass by itself

`validateCommon` of `interactions/validate/context.c`: the checks of a transaction that need no
other transaction. The two times of a transaction may be two minutes apart, and the check of that
looks at the seconds of their difference.
-/

namespace GradidoBlockchain

namespace Validate

/-- The codes of `grdi_validate_result_type` that the checks answer; success is the
`ok` of `Except`. -/
inductive Code
  | invalidField
  | invalidTransactionType
  | cryptoSignInvalid
  deriving DecidableEq, Repr

/-- `actual` of the error details, which may be given as a number. -/
inductive Actual
  | none
  | text (text : String)
  | number (number : Int64)
  deriving DecidableEq

/-- What a check that fails answers, and what it fills into `grd_error_details`. -/
structure Refusal where
  code : Code
  message : String
  actual : Actual
  expected : Option String
  deriving DecidableEq

/-- `grdi_validate_options`, with the `crypto_sign_verify_detached` of the build; a build without
libsodium has no `verify`. -/
structure Options where
  enableVerify : Bool
  verify : Option (Bytes 64 → List UInt8 → PublicKey → Bool)

/-- A refusal of a field without further details. -/
def invalidField (message : String) : Except Refusal Unit :=
  .error ⟨.invalidField, message, .none, none⟩

/-- `MAGIC_NUMBER_MAX_TIMESPAN_BETWEEN_CREATING_AND_RECEIVING_TRANSACTION_SECONDS`. -/
def maxTimespanSeconds : UInt64 := 120

/-- The first of January 2000. -/
def earliestSeconds : Int64 := 946681200

/-- The checks before that of the timespan. -/
def checkHead (tx : Runtime.CompleteTransaction) : Except Refusal Unit :=
  if tx.txNr = 0 then .error ⟨.invalidField, "txNr is invalid", .text "0", some "> 0"⟩
  else if tx.bodyBytes.length = 0 then invalidField "empty body bytes"
  else if tx.confirmedAt.seconds < earliestSeconds then
    .error ⟨.invalidField, "confirmedAt.seconds is to small", .number tx.confirmedAt.seconds,
      some "> 946681200 (01.01.2000)"⟩
  else if isEmpty tx.txCommunityUuid then invalidField "empty community uuid"
  else .ok ()

/-- The seconds of a difference without their sign. -/
def diffSeconds (diff : Timestamp) : UInt64 :=
  if diff.seconds < 0 then 0 - diff.seconds.toUInt64 else diff.seconds.toUInt64

/-- The check of the timespan. The number that it reports is pinned to the largest there is. -/
def checkTimespan (created confirmed : Timestamp) : Except Refusal Unit :=
  let seconds := diffSeconds (created.minus confirmed)
  if maxTimespanSeconds < seconds then
    .error ⟨.invalidField, "timespan between created at and confirmed at are more than expected",
      .number (if 0x7fffffffffffffff < seconds then 0x7fffffffffffffff else seconds.toInt64),
      some "120 seconds"⟩
  else .ok ()

/-- The checks of a transaction that crosses communities. -/
def checkCrossGroup (tx : Runtime.CompleteTransaction) : Except Refusal Unit :=
  if tx.crossGroupType ≠ .local then
    if tx.transactionType ≠ .communityFriendsUpdate ∧ tx.transactionType ≠ .redeemDeferredTransfer ∧
        tx.transactionType ≠ .transfer then
      .error ⟨.invalidTransactionType, "cross group transactions (currently) only possible with Transfer, Redeem Deferred Transfer and Community Friends Update",
        .none, none⟩
    else if tx.txPairingCommunityUuid.isNone then
      invalidField "missing pairing community id index for cross group transaction"
    else if tx.crossGroupType = .inbound ∧ tx.pairingLedgerAnchor.isNone then
      invalidField "empty pairing ledger anchor for Inbound Cross Group Transaction"
    else .ok ()
  else .ok ()

/-- The checks of one signature. -/
def checkSignature (options : Options) (bodyBytes : List UInt8)
    (pair : SignaturePair) : Except Refusal Unit :=
  if isEmpty pair.publicKey then invalidField "empty public key in signature map"
  else if isEmpty pair.signature then invalidField "empty signature in signature map"
  else match options.verify with
    | some verify =>
        if options.enableVerify ∧ verify pair.signature bodyBytes pair.publicKey = false then
          .error ⟨.cryptoSignInvalid, "on of the signatures cannot be verified", .none, none⟩
        else .ok ()
    | none => .ok ()

/-- The checks after that of the timespan. -/
def checkRest (options : Options) (tx : Runtime.CompleteTransaction) : Except Refusal Unit := do
  if tx.ledgerAnchor.type = .unspecified then invalidField "empty ledger anchor" else .ok ()
  checkCrossGroup tx
  tx.signaturePairs.forM (checkSignature options tx.bodyBytes)

/-- `validateCommon`. -/
def validateCommon (options : Options)
    (tx : Runtime.CompleteTransaction) : Except Refusal Unit := do
  checkHead tx
  checkTimespan tx.createdAt tx.confirmedAt
  checkRest options tx

/-- The same transaction, created and confirmed at these times. -/
def timed (tx : Runtime.CompleteTransaction) (created confirmed : Timestamp) :
    Runtime.CompleteTransaction :=
  { tx with createdAt := created, confirmedAt := confirmed }

/-! ### The verdict -/

/-- What a transaction with these times passes apart from the check of the timespan: it has both of
them after the beginning of 2000, and the rest in order. -/
structure PassesOthers (options : Options) (tx : Runtime.CompleteTransaction)
    (created confirmed : Timestamp) : Prop where
  head : checkHead (timed tx created confirmed) = .ok ()
  created_after : earliestSeconds.toInt ≤ created.seconds.toInt
  confirmed_after : earliestSeconds.toInt ≤ confirmed.seconds.toInt
  created_normal : created.Normal
  confirmed_normal : confirmed.Normal
  rest : checkRest options tx = .ok ()

/-- The nanoseconds from the confirmation to the creation. -/
def distance (created confirmed : Timestamp) : ℤ := created.total - confirmed.total

/-- The timespan is judged by its length alone: the verdict is the same for the times exchanged, and
favourable just when there are no more than 120 seconds between them. -/
def JudgedByLength (options : Options) (tx : Runtime.CompleteTransaction)
    (created confirmed : Timestamp) : Prop :=
  (validateCommon options (timed tx created confirmed) = .ok () ↔
      validateCommon options (timed tx confirmed created) = .ok ()) ∧
    (validateCommon options (timed tx created confirmed) = .ok () ↔
      |distance created confirmed| ≤ 120 * nanosPerSecond)

theorem toNat_diffSeconds (diff : Timestamp) :
    (diffSeconds diff).toNat = diff.seconds.toInt.natAbs := by
  rw [diffSeconds, UInt64.zero_sub, R128.toNat_magnitude]

variable {options : Options} {tx : Runtime.CompleteTransaction} {created confirmed : Timestamp}

theorem checkHead_timed (hconfirmed : earliestSeconds.toInt ≤ confirmed.seconds.toInt)
    (hhead : checkHead (timed tx created confirmed) = .ok ())
    (hcreated : earliestSeconds.toInt ≤ created.seconds.toInt) :
    checkHead (timed tx confirmed created) = .ok () := by
  have hnot : ¬confirmed.seconds < earliestSeconds := by rw [Int64.lt_iff_toInt_lt]; omega
  have hnot' : ¬created.seconds < earliestSeconds := by rw [Int64.lt_iff_toInt_lt]; omega
  simp only [checkHead, timed, hnot, if_false] at hhead
  simp only [checkHead, timed, hnot', if_false]
  exact hhead

/-- The seconds of the difference are those of the distance, rounded down. -/
theorem toInt_minus_seconds (hcreated : earliestSeconds.toInt ≤ created.seconds.toInt)
    (hconfirmed : earliestSeconds.toInt ≤ confirmed.seconds.toInt) (hnormal : created.Normal)
    (hnormal' : confirmed.Normal) :
    (created.minus confirmed).seconds.toInt = distance created confirmed / nanosPerSecond := by
  have hearliest : earliestSeconds.toInt = 946681200 := by decide
  obtain ⟨-, hhigh⟩ := secondsFit_toInt created.seconds
  obtain ⟨-, hhigh'⟩ := secondsFit_toInt confirmed.seconds
  simp only [Timestamp.Normal, nanosPerSecond] at hnormal hnormal'
  have hfit : SecondsFit (created.seconds.toInt - confirmed.seconds.toInt) := ⟨by omega, by omega⟩
  rw [(Timestamp.minus_eq created confirmed).1, pinned_eq hfit, distance, Timestamp.total,
    Timestamp.total, nanosPerSecond, pinned_eq ⟨by omega, by omega⟩]
  omega

theorem checkTimespan_ok_iff (hcreated : earliestSeconds.toInt ≤ created.seconds.toInt)
    (hconfirmed : earliestSeconds.toInt ≤ confirmed.seconds.toInt) (hnormal : created.Normal)
    (hnormal' : confirmed.Normal) :
    checkTimespan created confirmed = .ok () ↔
      -(120 * nanosPerSecond) ≤ distance created confirmed ∧
        distance created confirmed < 121 * nanosPerSecond := by
  have hseconds := toInt_minus_seconds hcreated hconfirmed hnormal hnormal'
  have hlength := toNat_diffSeconds (created.minus confirmed)
  have hmax : maxTimespanSeconds.toNat = 120 := by decide
  rw [hseconds, nanosPerSecond] at hlength
  simp only [checkTimespan, nanosPerSecond, UInt64.lt_iff_toNat_lt, hmax, hlength]
  split
  case isTrue hlong =>
    refine iff_of_false (fun h => ?_) fun h => ?_
    · cases h
    · omega
  case isFalse hshort =>
    refine iff_of_true rfl ?_
    omega

theorem validateCommon_ok_iff (hhead : checkHead (timed tx created confirmed) = .ok ())
    (hrest : checkRest options tx = .ok ()) :
    validateCommon options (timed tx created confirmed) = .ok () ↔
      checkTimespan created confirmed = .ok () := by
  have hrun : validateCommon options (timed tx created confirmed) = checkTimespan created confirmed >>= fun _ => checkRest options tx := by
    rw [validateCommon, hhead]
    rfl
  rw [hrun, hrest]
  cases checkTimespan created confirmed with
  | ok value => exact ⟨fun _ => rfl, fun _ => rfl⟩
  | error refusal => exact ⟨nofun, nofun⟩

/-- The timespan is judged by its length unless it is longer than 120 seconds and
shorter than 121. -/
theorem judgedByLength_iff (hothers : PassesOthers options tx created confirmed) :
    JudgedByLength options tx created confirmed ↔
      ¬(120 * nanosPerSecond < |distance created confirmed| ∧
        |distance created confirmed| < 121 * nanosPerSecond) := by
  obtain ⟨hhead, hcreated, hconfirmed, hnormal, hnormal', hrest⟩ := hothers
  have hmirrored : distance confirmed created = -distance created confirmed := by
    rw [distance, distance, neg_sub]
  rw [JudgedByLength, validateCommon_ok_iff hhead hrest,
    validateCommon_ok_iff (checkHead_timed hconfirmed hhead hcreated) hrest,
    checkTimespan_ok_iff hcreated hconfirmed hnormal hnormal',
    checkTimespan_ok_iff hconfirmed hcreated hnormal' hnormal, hmirrored, abs_le, lt_abs, abs_lt]
  simp only [nanosPerSecond]
  omega

/-- A transaction of the timeout of a deferred transfer, and of nobody else's interest. -/
def plainTransaction : Runtime.CompleteTransaction where
  txNr := 1
  confirmedAt := ⟨0, 0⟩
  createdAt := ⟨0, 0⟩
  txCommunityUuid := Vector.replicate 16 1
  ledgerAnchor := .id .nodeTriggerTransactionId (by decide) 1
  transfer := ⟨zeroBytes 32, zeroBytes 32, 0, zeroBytes 16⟩
  registerAddress := ⟨zeroBytes 32, zeroBytes 32, zeroBytes 32⟩
  communityRoot := ⟨zeroBytes 32, zeroBytes 32, zeroBytes 32⟩
  targetDate := 0
  timeoutDuration := 0
  previousTx := 0
  addressType := .none
  derivationIndex := 0
  transactionType := .timeoutDeferredTransfer
  txRunningHash := zeroBytes 32
  accountBalances := []
  encryptedMemos := []
  signaturePairs := []
  crossGroupType := .local
  txPairingCommunityUuid := none
  pairingLedgerAnchor := none
  bodyBytes := [1]
  memoryArea := none

/-- Two minutes to the nanosecond. -/
theorem judgedByLength_iff_twoMinutes :
    JudgedByLength ⟨true, none⟩ plainTransaction ⟨1700000120, 5⟩ ⟨1700000000, 5⟩ ↔
      ¬(120 * nanosPerSecond < |distance ⟨1700000120, 5⟩ ⟨1700000000, 5⟩| ∧
        |distance ⟨1700000120, 5⟩ ⟨1700000000, 5⟩| < 121 * nanosPerSecond) :=
  judgedByLength_iff ⟨by decide, by decide, by decide, by decide, by decide, by decide⟩

/-- Half a second more is accepted of a transaction that was created after its confirmation, and
refused of one that was created before it. -/
theorem not_judgedByLength :
    validateCommon ⟨true, none⟩ (timed plainTransaction ⟨1700000120, 500000000⟩ ⟨1700000000, 0⟩) =
        .ok () ∧
      ¬validateCommon ⟨true, none⟩
          (timed plainTransaction ⟨1700000000, 0⟩ ⟨1700000120, 500000000⟩) = .ok () ∧
      ¬JudgedByLength ⟨true, none⟩ plainTransaction ⟨1700000120, 500000000⟩ ⟨1700000000, 0⟩ := by
  have haccepted :
      validateCommon ⟨true, none⟩ (timed plainTransaction ⟨1700000120, 500000000⟩ ⟨1700000000, 0⟩) =
        .ok () := by decide
  have hrefused : ¬validateCommon ⟨true, none⟩
        (timed plainTransaction ⟨1700000000, 0⟩ ⟨1700000120, 500000000⟩) = .ok () := by decide
  exact ⟨haccepted, hrefused, fun hjudged => hrefused (hjudged.1.1 haccepted)⟩

end Validate

end GradidoBlockchain
