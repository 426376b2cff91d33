import GradidoBlockchain.Json.Written
import Mathlib.Data.List.Induction

/-!
# Anchors that are put together by hand

A caller makes a ledger anchor with one of three functions, and one call after the other
overwrites what is there. The function for ids of older systems refuses three types and takes
any other, among them the retired one and those past the last name, which no getter tells back
and no document keeps. What the last accepted call has made is told back by the getters just
where it is kept by a document.
-/

namespace GradidoBlockchain

namespace Wire.LedgerAnchor

/-! ### The getters -/

def isLegacy (anchor : LedgerAnchor) : Bool :=
  match anchor.type with
  | .legacyGradidoDbTransactionId | .legacyGradidoDbCommunityId | .legacyGradidoDbUserId |
      .legacyGradidoDbContributionId
  | .legacyGradidoDbTransactionLinkId => true
  | _ => false

def isNodeTriggerTransactionId (anchor : LedgerAnchor) : Bool :=
  anchor.type = .nodeTriggerTransactionId

/-- The number of the union, which is not read of a Hiero anchor. -/
def number : LedgerAnchor → UInt64
  | .hieroTransactionId _ => 0
  | .id _ _ legacyId => legacyId

def getLegacyId (anchor : LedgerAnchor) : UInt64 := if anchor.isLegacy then anchor.number else 0

def getNodeTriggerId (anchor : LedgerAnchor) : UInt64 :=
  if anchor.isNodeTriggerTransactionId then anchor.number else 0

def getHieroTransactionId : LedgerAnchor → Option HieroTransactionId
  | .hieroTransactionId hiero => some hiero
  | .id .. => none

/-! ### The calls -/

def assembleHieroTransactionId (startSeconds : Int64) (startNanos : Int32)
    (shardNum realmNum accountNum : Int64) : LedgerAnchor :=
  .hieroTransactionId ⟨⟨startSeconds, startNanos⟩, ⟨shardNum, realmNum, accountNum⟩⟩

def assembleLegacyId (type : LedgerAnchorType) (legacyId : UInt64) :
    Except ArnmResult LedgerAnchor :=
  if h : type = .unspecified ∨ type = .hieroTransactionId ∨ type = .nodeTriggerTransactionId then
    .error .invalidEnumType
  else .ok (.id type (fun hiero => h (.inr (.inl hiero))) legacyId)

def assembleNodeTriggerTransactionId (id : UInt64) : LedgerAnchor :=
  .id .nodeTriggerTransactionId (fun h => by cases h) id

end Wire.LedgerAnchor

namespace Mapping

/-- A call of one of the three functions. -/
inductive Assembly
  | hieroTransactionId (id : Wire.HieroTransactionId)
  | legacyId (type : LedgerAnchorType) (id : UInt64)
  | nodeTriggerTransactionId (id : UInt64)

namespace Assembly

/-- The anchor that a call makes. -/
def made : Assembly → Except ArnmResult Wire.LedgerAnchor
  | hieroTransactionId id =>
      .ok (.assembleHieroTransactionId id.transactionValidStart.seconds
        id.transactionValidStart.nanos id.accountId.shardNum id.accountId.realmNum
        id.accountId.accountNum)
  | legacyId type id => Wire.LedgerAnchor.assembleLegacyId type id
  | nodeTriggerTransactionId id => .ok (.assembleNodeTriggerTransactionId id)

/-- A call on an anchor that is there; refused, it leaves it as it is. -/
def write (anchor : Wire.LedgerAnchor) (call : Assembly) : Wire.LedgerAnchor :=
  match call.made with
  | .ok made => made
  | .error _ => anchor

/-- The getters tell what a call has been given. -/
def Told (anchor : Wire.LedgerAnchor) : Assembly → Prop
  | hieroTransactionId id => anchor.getHieroTransactionId = some id
  | legacyId type id => anchor.type = type ∧ anchor.isLegacy ∧ anchor.getLegacyId = id
  | nodeTriggerTransactionId id => anchor.isNodeTriggerTransactionId ∧ anchor.getNodeTriggerId = id

end Assembly

/-- An anchor after some calls, all zero before the first. -/
def assembled (calls : List Assembly) : Wire.LedgerAnchor := calls.foldl Assembly.write .init

theorem assembled_concat (calls : List Assembly) (call : Assembly) :
    assembled (calls ++ [call]) = call.write (assembled calls) :=
  List.foldl_concat ..

/-- An anchor is written to a document and read from it again as it was. -/
def KeptBy (arnm : JsonArnm) (anchor : Wire.LedgerAnchor) : Prop :=
  ∀ key, readLedgerAnchor arnm (some (addLedgerAnchor key (some anchor)).2) = .ok anchor

theorem keptBy_iff {arnm : JsonArnm} (hlawful : arnm.Lawful) {anchor : Wire.LedgerAnchor} :
    KeptBy arnm anchor ↔ Kept anchor := by
  rw [← reread_eq_self]
  constructor
  · intro hkept
    have hread := readLedgerAnchor_written hlawful Key.ledgerAnchor anchor
    rw [hkept Key.ledgerAnchor] at hread
    exact (Except.ok.inj hread).symm
  · intro hsame key
    rw [readLedgerAnchor_written hlawful key, hsame]

/-- What a call has made has a type, and is told back just where it is kept. -/
theorem Assembly.told_iff {call : Assembly} {anchor : Wire.LedgerAnchor}
    (hmade : call.made = .ok anchor) :
    anchor.type ≠ .unspecified ∧ (call.Told anchor ↔ Kept anchor) := by
  cases call with
  | hieroTransactionId id =>
    cases hmade
    exact ⟨(fun h => by cases h), iff_of_true rfl ⟨trivial, fun h => by cases h⟩⟩
  | nodeTriggerTransactionId id =>
    cases hmade
    exact ⟨(fun h => by cases h), iff_of_true ⟨rfl, rfl⟩ ⟨trivial, fun h => by cases h⟩⟩
  | legacyId type id =>
    rw [made, Wire.LedgerAnchor.assembleLegacyId] at hmade
    split at hmade
    next => cases hmade
    next hother =>
      cases hmade
      refine ⟨fun hunspecified => hother (.inl hunspecified), ?_⟩
      cases type with
      | unspecified => exact absurd (.inl rfl) hother
      | hieroTransactionId => exact absurd (.inr (.inl rfl)) hother
      | nodeTriggerTransactionId => exact absurd (.inr (.inr rfl)) hother
      | retired | unknown =>
          exact iff_of_false (fun htold => Bool.noConfusion htold.2.1) fun hkept => hkept.1
      | _ => exact iff_of_true ⟨rfl, rfl, rfl⟩ ⟨trivial, fun h => by cases h⟩

/-- The call was refused. -/
def Assembly.Refused (call : Assembly) : Prop := ∃ code, call.made = .error code

/-- An anchor is what the last accepted call has made of it, and that is told back by the getters
just where a document keeps it. -/
theorem assembled_told (calls : List Assembly) :
    (assembled calls = .init ∧ ∀ call ∈ calls, call.Refused) ∨
      ∃ before call after, calls = before ++ call :: after ∧ call.made = .ok (assembled calls) ∧
        (∀ later ∈ after, later.Refused) ∧ (assembled calls).type ≠ .unspecified ∧
        ∀ arnm : JsonArnm, arnm.Lawful →
          (call.Told (assembled calls) ↔ KeptBy arnm (assembled calls)) := by
  induction calls using List.reverseRecOn with
  | nil => exact .inl ⟨rfl, fun _ h => absurd h List.not_mem_nil⟩
  | append_singleton calls call ih =>
    rw [assembled_concat, Assembly.write]
    cases hmade : call.made with
    | ok made =>
      obtain ⟨htype, htold⟩ := Assembly.told_iff hmade
      exact .inr ⟨calls, call, [], rfl, hmade, fun _ h => absurd h List.not_mem_nil, htype,
        fun arnm hlawful => htold.trans (keptBy_iff hlawful).symm⟩
    | error code =>
      have hrefused (after : List Assembly) (hafter : ∀ later ∈ after, later.Refused) : ∀ later ∈ after ++ [call], later.Refused := by
        intro later hlater
        obtain hmem | hmem := List.mem_append.1 hlater
        · exact hafter later hmem
        · rw [List.mem_singleton.1 hmem]
          exact ⟨code, hmade⟩
      obtain ⟨hinit, hall⟩ | ⟨before, last, after, rfl, hlast, hafter, hrest⟩ := ih
      · exact .inl ⟨hinit, hrefused calls hall⟩
      · exact .inr ⟨before, last, after ++ [call], by simp, hlast, hrefused after hafter, hrest⟩

end Mapping

end GradidoBlockchain
