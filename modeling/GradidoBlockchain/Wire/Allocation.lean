import GradidoBlockchain.Lib.Granted
import GradidoBlockchain.Wire.RoundTrip

/-!
# Writing a transaction when memory runs out

Every sub-message of an encoding is a request to the allocator of the message. A request that is
refused ends the encoding with the code that says so, apart from the two parts of a Hiero id:
`ledger_anchor_from_wire` does not look at what became of them.
-/

namespace GradidoBlockchain

open Fallible Fallible.Call

namespace Mapping

/-! ### Requests -/

/-- What a Hiero id that has been written lacks. -/
inductive Loss
  | nothing
  | accountId
  | both
  deriving DecidableEq, Repr

/-- The requests for the two parts of a Hiero id. After the first one is refused the
second one is not made. -/
def parts : Room → Loss × Room
  | [] => (.nothing, [])
  | false :: rest => (.both, rest)
  | [true] => (.nothing, [])
  | true :: true :: rest => (.nothing, rest)
  | true :: false :: rest => (.accountId, rest)

/-- What becomes of the requests for an anchor. -/
def servedAnchor (anchor : Wire.LedgerAnchor) (room : Room) : Option (Loss × Room) :=
  match anchor with
  | .hieroTransactionId _ => (granted 1 room).map parts
  | .id _ _ _ => some (.nothing, room)

/-- What becomes of the requests for a pairing anchor. -/
def servedPairing (anchor : Wire.LedgerAnchor) (room : Room) : Option (Loss × Room) :=
  if anchor.type ≠ .unspecified then (granted 1 room).bind (servedAnchor anchor)
    else some (.nothing, room)

/-- What becomes of the requests for the transaction that is confirmed: what its
pairing anchor lacks. -/
def servedTransaction (tx : Wire.GradidoTransaction) (room : Room) : Option (Loss × Room) :=
  (granted (if 0 < tx.sigMap.items.length then 2 else 0) room).bind
    (servedPairing tx.pairingLedgerAnchor)

/-- What becomes of the requests for a confirmed transaction: what its two anchors lack. 255
balances are refused without a request. -/
def served (tx : Wire.ConfirmedTransaction) (room : Room) : Option ((Loss × Loss) × Room) :=
  let balances := tx.accountBalances.items.length
  (granted 1 room).bind fun room =>
    (servedTransaction tx.transaction room).bind fun (pairing, room) =>
      (granted 1 room).bind fun room =>
        (granted 1 room).bind fun room =>
          (servedAnchor tx.ledgerAnchor room).bind fun (anchor, room) =>
            (granted (if 0 < balances ∧ balances < 255 then 1 else 0) room).map fun room =>
              ((pairing, anchor), room)

/-- From `room` on `rest` is left, and one of the requests was refused just when
`refused` says so. -/
def Spends (room rest : Room) (refused : Prop) : Prop :=
  ∃ used, room = used ++ rest ∧ (false ∈ used ↔ refused)

namespace Spends

variable {room rest last : Room} {refused other : Prop}

theorem none : Spends room room (Loss.nothing ≠ .nothing) := ⟨[], rfl, by simp⟩

theorem congr (hspends : Spends room rest refused)
    (hsame : refused ↔ other) : Spends room rest other := by
  obtain ⟨used, hroom, hused⟩ := hspends
  exact ⟨used, hroom, hused.trans hsame⟩

theorem trans (hfirst : Spends room rest refused) (hsecond : Spends rest last other) :
    Spends room last (refused ∨ other) := by
  obtain ⟨used, rfl, hused⟩ := hfirst
  obtain ⟨more, rfl, hmore⟩ := hsecond
  exact ⟨used ++ more, (List.append_assoc ..).symm, by rw [List.mem_append, hused, hmore]⟩

theorem unique (hfirst : Spends room rest refused)
    (hsecond : Spends room rest other) : refused ↔ other := by
  obtain ⟨used, rfl, hused⟩ := hfirst
  obtain ⟨more, hsame, hmore⟩ := hsecond
  rw [← hused, ← hmore, List.append_cancel_right hsame]

theorem granted {requests : Nat}
    (hgranted : Fallible.granted requests room = some rest) : Spends room rest False := by
  induction requests generalizing room with
  | zero =>
      cases hgranted
      exact ⟨[], rfl, by simp⟩
  | succ requests ih =>
      rcases room with _ | ⟨_ | _, room⟩
      · exact ih hgranted
      · cases hgranted
      · obtain ⟨used, rfl, hused⟩ := ih hgranted
        exact ⟨true :: used, rfl, by simpa using hused⟩

theorem parts {loss : Loss} (hparts : Mapping.parts room = (loss, rest)) :
    Spends room rest (loss ≠ .nothing) := by
  rcases room with _ | ⟨_ | _, _ | ⟨_ | _, room⟩⟩ <;> cases hparts
  · exact ⟨[], rfl, by simp⟩
  · exact ⟨[false], rfl, by simp⟩
  · exact ⟨[false], rfl, by simp⟩
  · exact ⟨[false], rfl, by simp⟩
  · exact ⟨[true], rfl, by simp⟩
  · exact ⟨[true, false], rfl, by simp⟩
  · exact ⟨[true, true], rfl, by simp⟩

end Spends

/-! ### Runs -/

/-- The message an anchor is written to, with what it lacks. -/
def writtenAnchor (anchor : Wire.LedgerAnchor) (loss : Loss) : Proto.LedgerAnchor :=
  match anchor with
  | .hieroTransactionId id => ⟨.hieroTransactionId, .hieroTransactionId (some {
      transactionValidStart :=
        if loss = .both then none else some (timestampFromWire id.transactionValidStart)
      accountId := if loss = .nothing then some (hieroAccountIdFromWire id.accountId) else none
      scheduled := false
      nonce := 0 })⟩
  | .id type _ id => ⟨type, .id id⟩

theorem ledgerAnchorFromWire_follows (anchor : Wire.LedgerAnchor) (room : Room) :
    Follows .outOfMemory (ledgerAnchorFromWire anchor) .init room (servedAnchor anchor room)
      (.ok ()) (writtenAnchor anchor) := by
  cases anchor with
  | hieroTransactionId id => rcases room with _ | ⟨_ | _, _ | ⟨_ | _, _ | ⟨_ | _, room⟩⟩⟩ <;> rfl
  | id type other id => rfl

/-- The message a transaction is written to, with what its pairing anchor lacks. -/
def writtenTransaction (tx : Wire.GradidoTransaction) (loss : Loss) : Proto.GradidoTransaction where
  sigMap :=
    if 0 < tx.sigMap.items.length then some ⟨tx.sigMap.items.map signaturePairFromWire⟩ else none
  bodyBytes := tx.bodyBytes
  pairingLedgerAnchor :=
    if tx.pairingLedgerAnchor.type ≠ .unspecified then
        some (writtenAnchor tx.pairingLedgerAnchor loss)
      else none

theorem sigMapFromWire_follows {sigMap : Few SignaturePair} (hfew : sigMap.items.length < 255)
    (room : Room) : 
    Follows .outOfMemory (sigMapFromWire sigMap) .init room
      ((granted (if 0 < sigMap.items.length then 2 else 0) room).map (Prod.mk ()))
      (.ok ()) fun _ => { Proto.GradidoTransaction.init with
        sigMap := if 0 < sigMap.items.length then some ⟨sigMap.items.map signaturePairFromWire⟩ else none } := by
  rw [sigMapFromWire]
  by_cases hsome : 0 < sigMap.items.length
  · simp only [if_pos hsome]
    rw [if_neg (Nat.not_le_of_lt hfew)]
    rcases room with _ | ⟨_ | _, _ | ⟨_ | _, room⟩⟩ <;> rfl
  · simp only [if_neg hsome]
    rfl

theorem pairingLedgerAnchorFromWire_follows (anchor : Wire.LedgerAnchor)
    {start : Proto.GradidoTransaction}
    (hstart : start.pairingLedgerAnchor = none) (room : Room) :
    Follows .outOfMemory (pairingLedgerAnchorFromWire anchor) start room (servedPairing anchor room) (.ok ()) fun loss => { start with
      pairingLedgerAnchor := if anchor.type ≠ .unspecified then some (writtenAnchor anchor loss) else none } := by
  rw [pairingLedgerAnchorFromWire, servedPairing]
  by_cases hpairing : anchor.type ≠ .unspecified
  · simp only [if_pos hpairing]
    refine (Follows.grow _ _ start room).andThen fun rest => ?_
    apply Follows.within (writtenAnchor anchor)
    exact ledgerAnchorFromWire_follows anchor rest
  · simp only [if_neg hpairing]
    obtain ⟨sigMap, bodyBytes, pairing⟩ := start
    cases hstart
    rfl

theorem gradidoTransactionFromWire_follows {tx : Wire.GradidoTransaction}
    (hfew : tx.sigMap.items.length < 255) (room : Room) :
    Follows .outOfMemory (gradidoTransactionFromWire tx) .init room (servedTransaction tx room)
      (.ok ()) (writtenTransaction tx) :=
  (sigMapFromWire_follows hfew room).andThen fun rest =>
    (pairingLedgerAnchorFromWire_follows tx.pairingLedgerAnchor rfl rest).thenWrite

/-- How the writing of the balances ends, which come last. -/
def balancesEnding (balances : Few AccountBalance) : Except ArnmResult Unit :=
  if balances.items.length < 255 then .ok () else .error .arrayIndexOutOfBounds

theorem accountBalancesFromWire_follows {κ : Type} (balances : Few AccountBalance)
    {start : Proto.ConfirmedTransaction} {loss : κ}
    {left : κ → Proto.ConfirmedTransaction} (hstart : start.accountBalances = []) (hleft : left loss = { start with
      accountBalances := if balances.items.length < 255 then balances.items.map accountBalanceFromWire else [] }) (room : Room) :
    Follows .outOfMemory (accountBalancesFromWire balances) start room
        ((granted (if 0 < balances.items.length ∧ balances.items.length < 255 then 1 else 0)
          room).map (Prod.mk loss)) (balancesEnding balances) left := by
  have hsame : { start with accountBalances := [] } = start := by rw [← hstart]
  rw [accountBalancesFromWire, balancesEnding]
  by_cases hfew : balances.items.length < 255
  · simp only [hfew, and_true, if_true] at hleft ⊢
    rw [if_neg (Nat.not_le_of_lt hfew)]
    by_cases hsome : 0 < balances.items.length
    · rw [if_pos hsome, if_pos hsome]
      rcases room with _ | ⟨_ | _, room⟩
      · exact Prod.ext rfl (Prod.ext hleft.symm rfl)
      · rfl
      · exact Prod.ext rfl (Prod.ext hleft.symm rfl)
    · rw [List.length_eq_zero_iff.1 (Nat.eq_zero_of_not_pos hsome), List.map_nil, hsame] at hleft
      rw [if_neg hsome, if_neg hsome]
      exact Prod.ext rfl (Prod.ext hleft.symm rfl)
  · simp only [hfew, and_false, if_false, hsame] at hleft ⊢
    rw [if_pos (by omega), if_pos (Nat.le_of_not_lt hfew)]
    exact Prod.ext rfl (Prod.ext hleft.symm rfl)

/-- The message a confirmed transaction is written to, with what its two anchors lack. -/
def writtenConfirmed (tx : Wire.ConfirmedTransaction) (losses : Loss × Loss) :
    Proto.ConfirmedTransaction where
  id := tx.id
  transaction := some (writtenTransaction tx.transaction losses.1)
  confirmedAt := some (timestampFromWire tx.confirmedAt)
  versionNumber := protocolVersion
  runningHash := tx.runningHash.toList
  ledgerAnchor := some (writtenAnchor tx.ledgerAnchor losses.2)
  accountBalances :=
    if tx.accountBalances.items.length < 255 then
        tx.accountBalances.items.map accountBalanceFromWire
      else []

theorem confirmedTransactionFromWire_follows {tx : Wire.ConfirmedTransaction}
    (hfew : tx.transaction.sigMap.items.length < 255) (room : Room) :
    Follows .outOfMemory (confirmedTransactionFromWire tx) .init room (served tx room)
      (balancesEnding tx.accountBalances) (writtenConfirmed tx) := by
  rw [confirmedTransactionFromWire, served]
  apply Follows.afterWrite
  refine (Follows.grow _ _ _ room).andThen fun room => ?_
  refine Follows.bind (.within (writtenTransaction tx.transaction) ?_) fun pairing room => ?_
  · exact gradidoTransactionFromWire_follows hfew room
  refine (Follows.grow _ _ _ room).andThen fun room => ?_
  apply Follows.afterWrite
  refine (Follows.grow _ _ _ room).andThen fun room => ?_
  refine Follows.bind (.within (writtenAnchor tx.ledgerAnchor) ?_) fun anchor room => ?_
  · exact ledgerAnchorFromWire_follows tx.ledgerAnchor room
  exact accountBalancesFromWire_follows tx.accountBalances (by rfl) (by rfl) room

/-! ### What the requests cost -/

theorem servedAnchor_spends {anchor : Wire.LedgerAnchor} {room rest : Room} {loss : Loss}
    (hserved : servedAnchor anchor room = some (loss, rest)) :
    Spends room rest (loss ≠ .nothing) := by
  cases anchor with
  | hieroTransactionId id =>
      obtain ⟨between, hgranted, hparts⟩ := Option.map_eq_some_iff.1 hserved
      exact ((Spends.granted hgranted).trans (.parts hparts)).congr (by simp)
  | id type other id =>
      cases hserved
      exact .none

theorem servedPairing_spends {anchor : Wire.LedgerAnchor} {room rest : Room} {loss : Loss}
    (hserved : servedPairing anchor room = some (loss, rest)) :
    Spends room rest (loss ≠ .nothing) := by
  rw [servedPairing] at hserved
  split at hserved
  · obtain ⟨between, hgranted, hanchor⟩ := Option.bind_eq_some_iff.1 hserved
    exact ((Spends.granted hgranted).trans (servedAnchor_spends hanchor)).congr (by simp)
  · cases hserved
    exact .none

theorem servedTransaction_spends {tx : Wire.GradidoTransaction} {room rest : Room} {loss : Loss}
    (hserved : servedTransaction tx room = some (loss, rest)) :
    Spends room rest (loss ≠ .nothing) := by
  obtain ⟨between, hgranted, hpairing⟩ := Option.bind_eq_some_iff.1 hserved
  exact ((Spends.granted hgranted).trans (servedPairing_spends hpairing)).congr (by simp)

/-- What was refused on the way is what the anchors lack. -/
theorem served_spends {tx : Wire.ConfirmedTransaction} {room rest : Room} {losses : Loss × Loss}
    (hserved : served tx room = some (losses, rest)) :
    Spends room rest (losses.1 ≠ .nothing ∨ losses.2 ≠ .nothing) := by
  obtain ⟨_, hmessage, hserved⟩ := Option.bind_eq_some_iff.1 hserved
  obtain ⟨⟨pairing, _⟩, htransaction, hserved⟩ := Option.bind_eq_some_iff.1 hserved
  obtain ⟨_, hconfirmedAt, hserved⟩ := Option.bind_eq_some_iff.1 hserved
  obtain ⟨_, hledgerAnchor, hserved⟩ := Option.bind_eq_some_iff.1 hserved
  obtain ⟨⟨anchor, _⟩, hanchor, hserved⟩ := Option.bind_eq_some_iff.1 hserved
  obtain ⟨_, hbalances, hlast⟩ := Option.map_eq_some_iff.1 hserved
  cases hlast
  exact ((Spends.granted hmessage).trans
    ((servedTransaction_spends htransaction).trans
      ((Spends.granted hconfirmedAt).trans
        ((Spends.granted hledgerAnchor).trans
          ((servedAnchor_spends hanchor).trans (.granted hbalances)))))).congr (by simp)

/-! ### With memory for all of it -/

theorem servedAnchor_nil (anchor : Wire.LedgerAnchor) :
    servedAnchor anchor [] = some (.nothing, []) := by
  cases anchor <;> rfl

theorem served_nil (tx : Wire.ConfirmedTransaction) :
    served tx [] = some ((.nothing, .nothing), []) := by
  have hpairing : servedPairing tx.transaction.pairingLedgerAnchor [] = some (.nothing, []) := by
    rw [servedPairing]
    split
    · exact servedAnchor_nil _
    · rfl
  simp only [served, servedTransaction, granted_nil, hpairing, servedAnchor_nil, Option.bind_some,
    Option.map_some]

/-- A run that is served leaves its message and has spent what its anchors lack. -/
theorem confirmedTransactionFromWire_served {tx : Wire.ConfirmedTransaction} {room rest : Room}
    {losses : Loss × Loss} (hfew : tx.transaction.sigMap.items.length < 255)
    (hserved : served tx room = some (losses, rest)) :
    confirmedTransactionFromWire tx .init room =
      (balancesEnding tx.accountBalances, writtenConfirmed tx losses, rest) := by
  have hfollows := confirmedTransactionFromWire_follows hfew room
  rw [hserved] at hfollows
  exact hfollows

end Mapping

end GradidoBlockchain
