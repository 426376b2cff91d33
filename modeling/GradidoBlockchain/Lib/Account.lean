import GradidoBlockchain.Lib.Call
import Mathlib.Algebra.BigOperators.Group.List.Basic
import Mathlib.Algebra.Ring.Nat

/-!
# Calls that draw on a budget

A state has spent so much of what its terms allow. Of a call it can be foretold what it draws: no
more than that, and all of it where the call comes to its end. Begun where the budget reaches, the
call leaves the terms as they are, so that what refuses a draw cannot have happened where the terms
record it; and what two calls draw one after the other adds up.
-/

namespace Fallible

open Call

/-- What a state has spent, and the terms it does so on. -/
structure Account (σ κ : Type) where
  terms : σ → κ
  spent : σ → ℕ
  /-- The terms allow for so much to have been spent. -/
  Fits : κ → ℕ → Prop
  fits_le : ∀ {terms more less}, Fits terms more → less ≤ more → Fits terms less

variable {ε σ κ α β : Type} {account : Account σ κ}

/-- Begun where the terms allow for it, the call draws so much, or less where it does
not come to its end. -/
def Draws (account : Account σ κ) (amount : ℕ) (call : Call ε σ α) : Prop :=
  ∀ state room, account.Fits (account.terms state) (account.spent state + amount) →
    (call state room).2.2 = room ∧ account.terms (call state room).2.1 = account.terms state ∧
      account.spent (call state room).2.1 ≤ account.spent state + amount ∧
      ∀ value, (call state room).1 = .ok value →
        account.spent (call state room).2.1 = account.spent state + amount

namespace Draws

variable {amount more : ℕ}

theorem pure (value : α) : Draws account 0 (Pure.pure value : Call ε σ α) :=
  fun _ _ _ => ⟨rfl, rfl, Nat.le_refl _, fun _ _ => rfl⟩

theorem fail (code : ε) : Draws account amount (Call.fail code : Call ε σ α) :=
  fun _ _ _ => ⟨rfl, rfl, Nat.le_add_right _ _, fun _ h => nomatch h⟩

theorem check (test : σ → Except ε α) : Draws account 0 (Call.check test) :=
  fun _ _ _ => ⟨rfl, rfl, Nat.le_refl _, fun _ _ => rfl⟩

/-- A write that spends nothing. -/
theorem write {change : σ → σ}
    (hterms : ∀ state, account.terms (change state) = account.terms state)
    (hspent : ∀ state, account.spent (change state) = account.spent state) :
    Draws account 0 (Call.write change : Call ε σ Unit) :=
  fun state _ _ => ⟨rfl, hterms state, Nat.le_of_eq (hspent state), fun _ _ => hspent state⟩

theorem bind {call : Call ε σ α} {next : α → Call ε σ β} (hcall : Draws account amount call)
    (hnext : ∀ value, Draws account more (next value)) :
    Draws account (amount + more) (call >>= next) := by
  intro state room hfits
  rw [← Nat.add_assoc] at hfits
  obtain ⟨hroom, hterms, hle, hexact⟩ :=
    hcall state room (account.fits_le hfits (Nat.le_add_right _ _))
  rw [bind_run]
  rcases hrun : call state room
    with ⟨_ | value, left, rest⟩ <;> rw [hrun] at hroom hterms hle hexact
  · exact ⟨hroom, hterms, Nat.le_trans hle (Nat.add_le_add_left (Nat.le_add_right _ _) _),
      fun _ h => nomatch h⟩
  · have hspent : account.spent left = account.spent state + amount := hexact value rfl
    change account.terms left = account.terms state at hterms
    rw [← hspent, ← hterms] at hfits
    obtain ⟨hroom', hterms', hle', hexact'⟩ := hnext value left rest hfits
    rw [hspent, Nat.add_assoc] at hle' hexact'
    exact ⟨hroom'.trans hroom, hterms'.trans hterms, hle', hexact'⟩

/-- What is drawn after a call that draws nothing is all that is drawn. -/
theorem after {call : Call ε σ α} {next : α → Call ε σ β} (hcall : Draws account 0 call)
    (hnext : ∀ value, Draws account more (next value)) : Draws account more (call >>= next) := by
  rw [← Nat.zero_add more]
  exact hcall.bind hnext

/-- And what is drawn before one. -/
theorem before {call : Call ε σ α} {next : α → Call ε σ β} (hcall : Draws account amount call)
    (hnext : ∀ value, Draws account 0 (next value)) : Draws account amount (call >>= next) :=
  hcall.bind hnext

theorem forM {draw : α → ℕ} {body : α → Call ε σ Unit} {items : List α}
    (hbody : ∀ item ∈ items, Draws account (draw item) (body item)) :
    Draws account (items.map draw).sum (items.forM body) := by
  induction items with
  | nil => exact pure ()
  | cons item items ih =>
      exact (hbody item List.mem_cons_self).bind fun _ =>
        ih fun other hother => hbody other (List.mem_cons_of_mem _ hother)

end Draws

end Fallible
