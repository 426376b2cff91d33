import GradidoBlockchain.Arnm.Keyed
import GradidoBlockchain.Arnm.Reference
import GradidoBlockchain.Lib.Alongside

/-!
# Tables that have been cleared

A key map that is cleared has no keys, and hands out ids from 0 again. Whether it is the map it was
when it was new cannot be told from outside, so tables are compared by what they answer.
-/

namespace GradidoBlockchain

open Fallible Fallible.Call

/-- `arnm_key_map_clear`. -/
structure Clearing (A : Arnm) where
  clear : {size : Nat} → A.KeyMap size → A.KeyMap size
  keyCount_clear : ∀ {size} (keys : A.KeyMap size), A.keyCount (clear keys) = 0

namespace Clearing

variable {A : Arnm}

theorem find_clear (C : Clearing A) {size : Nat} (keys : A.KeyMap size) (key : Bytes size) :
    A.find (C.clear keys) key = none := by
  rcases hfind : A.find (C.clear keys) key with _ | id
  · rfl
  · have hlt := A.find_lt _ _ _ hfind
    rw [C.keyCount_clear] at hlt
    omega

/-- The reference map starts over as a new one. -/
def reference : Clearing Arnm.reference where
  clear := fun _ => Arnm.reference.noKeys
  keyCount_clear := fun _ => rfl

end Clearing

namespace Keyed

variable {A : Arnm} {size : Nat} {V : Type}

/-- The keys forgotten and the slots given up. -/
def clear (C : Clearing A) (table : Keyed A size V) : Keyed A size V := ⟨C.clear table.keys, .empty⟩

/-- The two tables answer alike and hand out the same ids. -/
structure Same (table twin : Keyed A size V) : Prop where
  entries : table.entries = twin.entries
  find : ∀ key, A.find table.keys key = A.find twin.keys key
  keyCount : A.keyCount table.keys = A.keyCount twin.keys

theorem same_clear (C : Clearing A) (table : Keyed A size V) : Same (table.clear C) empty where
  entries := rfl
  find := fun key => (C.find_clear table.keys key).trans (A.find_noKeys key).symm
  keyCount := (C.keyCount_clear table.keys).trans (A.keyCount_noKeys size).symm

theorem Same.lookup {table twin : Keyed A size V} (hsame : Same table twin) (key : Bytes size) :
    table.lookup key = twin.lookup key := by
  rw [Keyed.lookup, Keyed.lookup, hsame.find, hsame.entries]

theorem Same.modify {table twin : Keyed A size V} (hsame : Same table twin) (id : Nat)
    (change : V → V) : Same (table.modify id change) (twin.modify id change) :=
  ⟨congrArg (Bvec.modify · id change) hsame.entries, hsame.find, hsame.keyCount⟩

theorem Same.putKeys {table twin : Keyed A size V} (hsame : Same table twin) (key : Bytes size) :
    (A.getOrInsert table.keys key).2 = (A.getOrInsert twin.keys key).2 ∧
      Same (table.putKeys (A.getOrInsert table.keys key).1)
        (twin.putKeys (A.getOrInsert twin.keys key).1) := by
  rcases hfind : A.find table.keys key with _ | id
  · obtain ⟨hid, hcount, hall⟩ := A.getOrInsert_new table.keys key hfind
    obtain ⟨hid', hcount', hall'⟩ :=
      A.getOrInsert_new twin.keys key ((hsame.find key).symm.trans hfind)
    refine ⟨by rw [hid, hid', hsame.keyCount], hsame.entries, fun other => ?_, ?_⟩
    · change A.find (A.getOrInsert table.keys key).1 other =
        A.find (A.getOrInsert twin.keys key).1 other
      rw [hall, hall', hsame.find, hsame.keyCount]
    · change A.keyCount (A.getOrInsert table.keys key).1 =
        A.keyCount (A.getOrInsert twin.keys key).1
      rw [hcount, hcount', hsame.keyCount]
  · rw [A.getOrInsert_known _ _ _ hfind,
      A.getOrInsert_known _ _ _ ((hsame.find key).symm.trans hfind)]
    exact ⟨rfl, hsame⟩

theorem slotForKey_alongside (blank : V) (key : Bytes size) :
    Alongside Same (slotForKey blank key : Call ArnmResult (Keyed A size V) Nat)
      (slotForKey blank key) := by
  refine Alongside.bind
    (.growWith (fun _ _ hsame => (hsame.putKeys key).1) fun _ _ hsame => (hsame.putKeys key).2)
    fun id => ?_
  refine Alongside.bind (.within (.refl _) (fun _ _ hsame => hsame.entries) ?_) fun _ => .pure id
  exact fun _ _ _ _ hsame hentries => ⟨hentries, hsame.find, hsame.keyCount⟩

end Keyed

end GradidoBlockchain
