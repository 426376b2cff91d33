import GradidoBlockchain.Register.History
import GradidoBlockchain.Arnm.Reference

/-!
# The register answers as the ledger says

After any transactions of rising numbers the four questions about an address have the answers the
ledger gives: the last type given up to a number, the last one of all, the largest number with a
balance, and the numbers that gave a type, newest first.
-/

namespace GradidoBlockchain

open Fallible Fallible.Call Backlinks

variable {A : Arnm}

namespace Addresses

/-- A register prepared and given the transactions one after the other, whatever room there was. -/
inductive Registered : List CompleteTransaction → Addresses A → Prop
  | init {expectedAddresses : Nat} {start index : Addresses A} {room rest : Room} :
      init expectedAddresses start room = (.ok (), index, rest) → Registered [] index
  | add {txs : List CompleteTransaction} {tx : CompleteTransaction} {index left : Addresses A}
      {room rest : Room} : Registered txs index → add tx index room = (.ok (), left, rest) →
      Registered (txs ++ [tx]) left

theorem registered_fresh : Registered [] (fresh : Addresses A) :=
  @Registered.init _ 0 zero _ [] [] rfl

/-- The largest number of a ledger, 0 without one. -/
def largest (txs : List CompleteTransaction) : Nat := ((txs.map CompleteTransaction.nr).max?).getD 0

/-! ### Runs -/

theorem init_ok {expectedAddresses : Nat} {start left : Addresses A} {room rest : Room}
    (hrun : init expectedAddresses start room = (.ok (), left, rest)) : left = fresh := by
  obtain ⟨_, _, _, -, hrun⟩ := bind_ok.1 hrun
  obtain ⟨_, _, _, -, hrun⟩ := bind_ok.1 hrun
  have hlast : ∀ {state : Addresses A} {room rest : Room}, (write (fun _ => fresh) :
          Call ArnmResult (Addresses A) Unit) state room = (.ok (), left, rest) → left = fresh :=
    fun hwrite => (write_ok.1 hwrite).1.symm
  split at hrun
  · obtain ⟨_, _, _, -, hrun⟩ := bind_ok.1 hrun
    exact hlast hrun
  · exact hlast hrun

theorem tells_fresh : Tells (fun _ => []) (fun _ => 0) (fresh : Addresses A) where
  dense := Keyed.empty_dense
  trail := fun key _ => by
    change ∃ changes, Trail _ _ _
        ((Keyed.empty : Keyed A 32 AddressEntry).read .blank key).lastChange changes ∧ _
    rw [Keyed.read_empty]
    exact ⟨[], .done, rfl⟩
  balance := fun key _ => by
    change ((Keyed.empty : Keyed A 32 AddressEntry).read .blank key).lastBalanceTx = 0
    rw [Keyed.read_empty]
    rfl

theorem balanceNumbers_append (key : PublicKey) (txs : List CompleteTransaction)
    (tx : CompleteTransaction) :
    balanceNumbers key (txs ++ [tx]) =
      balanceNumbers key txs ++ if tx.ListsBalance key then [tx.nr] else [] := by
  by_cases hlists : tx.ListsBalance key <;> simp [balanceNumbers, hlists]

theorem mem_balanceNumbers {key : PublicKey} {txs : List CompleteTransaction} {number : Nat} :
    number ∈ balanceNumbers key txs ↔ ∃ tx ∈ txs, tx.ListsBalance key ∧ tx.nr = number := by
  simp [balanceNumbers, and_assoc]

theorem max?_concat {numbers : List Nat} {number : Nat}
    (hbelow : ∀ other ∈ numbers, other ≤ number) : (numbers ++ [number]).max? = some number := by
  rw [List.max?_eq_some_iff]
  refine ⟨by simp, fun other hother => ?_⟩
  rcases List.mem_append.1 hother with hmem | hmem
  · exact hbelow other hmem
  · exact Nat.le_of_eq (List.mem_singleton.1 hmem)

theorem Registered.tells {txs : List CompleteTransaction} {index : Addresses A}
    (hregistered : Registered txs index) (hascend : Ascending txs) :
    index.ready = true ∧
      Tells (fun key => typeEvents key txs) (fun key => (balanceNumbers key txs).max?.getD 0)
        index := by
  induction hregistered with
  | init hrun =>
      rw [init_ok hrun]
      exact ⟨rfl, tells_fresh⟩
  | @add txs tx index left room rest _ hrun ih =>
      obtain ⟨hfront, hbelow⟩ := hascend.concat
      have hle : ∀ other ∈ txs, other.nr ≤ tx.nr :=
        fun other hother => Nat.le_of_lt (hbelow other hother)
      obtain ⟨⟨-, hready⟩, htells⟩ :=
        add_tells (ih hfront).2 (fun key => upto_typeEvents hfront hle) hrun
      refine ⟨hready,
        htells.congr (fun key _ => (typeEvents_append key txs tx).symm) fun key _ => ?_⟩
      rw [balanceNumbers_append]
      split
      · rw [max?_concat fun number hnumber => ?_, Option.getD_some]
        obtain ⟨other, hother, -, rfl⟩ := mem_balanceNumbers.1 hnumber
        exact hle other hother
      · rw [List.append_nil]

/-! ### Answers -/

section Answers

variable {events : PublicKey → List (Nat × AddressType)} {balance : PublicKey → Nat}
  {index : Addresses A} {key : PublicKey}

/-- An address that was never seen has no entry and answers as a blank one does. -/
private theorem entryOfKey_cases (hready : index.ready = true) :
    index.entryOfKey key = some (index.entries.read .blank key) ∨
      index.entryOfKey key = none ∧ index.entries.read .blank key = .blank := by
  rw [entryOfKey, if_neg (by simp [hready]), Keyed.read]
  rcases index.entries.lookup key with _ | entry
  · exact .inr ⟨rfl, rfl⟩
  · exact .inl rfl

theorem changesFrom_noChange : index.changesFrom noChange = [] := follow_stop _

theorem typeAt_eq (hready : index.ready = true) (htells : Tells events balance index)
    (hkey : key ≠ zeroBytes 32) (n : Nat) :
    index.typeAt key n =
      ((events key).eraseDups.reverse.find? fun event => event.1 ≤ n).map Prod.snd := by
  obtain ⟨changes, htrail, hevents⟩ := htells.trail key hkey
  rw [← hevents, List.find?_map, Option.map_map, ← changesFrom_eq htrail, typeAt]
  rcases entryOfKey_cases hready with hentry | ⟨hentry, hblank⟩
  · rw [hentry]
    rfl
  · rw [hentry, hblank, AddressEntry.blank, changesFrom_noChange]
    rfl

theorem type_eq (hready : index.ready = true) (htells : Tells events balance index)
    (hkey : key ≠ zeroBytes 32) :
    index.type key = ((events key).eraseDups.reverse.head?.map Prod.snd).getD .none := by
  obtain ⟨changes, htrail, hevents⟩ := htells.trail key hkey
  rw [← hevents, List.head?_map, Option.map_map, type]
  rcases entryOfKey_cases hready with hentry | ⟨hentry, hblank⟩
  · rw [hentry]
    dsimp only
    generalize (index.entries.read .blank key).lastChange = position at htrail ⊢
    cases htrail with
    | done => rfl
    | step hne hget =>
        rw [if_neg hne, hget]
        rfl
  · rw [hblank] at htrail
    rw [hentry, ← changesFrom_eq htrail, AddressEntry.blank, changesFrom_noChange]
    rfl

theorem typeChangesOf_eq (hready : index.ready = true) (htells : Tells events balance index)
    (hkey : key ≠ zeroBytes 32) (size : Nat) :
    index.typeChangesOf key size = ((events key).eraseDups.map Prod.fst).reverse.take size := by
  obtain ⟨changes, htrail, hevents⟩ := htells.trail key hkey
  rw [← List.map_reverse, ← hevents, List.map_map, ← changesFrom_eq htrail, typeChangesOf]
  rcases entryOfKey_cases hready with hentry | ⟨hentry, hblank⟩
  · rw [hentry, ← List.map_take]
    rfl
  · rw [hentry, hblank, AddressEntry.blank, changesFrom_noChange]
    simp

theorem lastBalance_eq (hready : index.ready = true) (htells : Tells events balance index)
    (hkey : key ≠ zeroBytes 32) :
    index.lastBalance key = if balance key = 0 then none else some (balance key) := by
  rw [← htells.balance key hkey, lastBalance]
  rcases entryOfKey_cases hready with hentry | ⟨hentry, hblank⟩
  · rw [hentry]
  · rw [hentry, hblank]
    rfl

end Answers

/-! ### The last type given -/

/-- A transaction gives a key one type, the same type twice, or the two types of a community
root. -/
private theorem typesGiven_cases (tx : CompleteTransaction) (key : PublicKey) :
    tx.typesGiven key = [] ∨ (∃ type, tx.typesGiven key = [type]) ∨
      (∃ type, tx.typesGiven key = [type, type]) ∨
      tx.typesGiven key = [.communityGmw, .communityAuf] := by
  rw [CompleteTransaction.typesGiven]
  cases tx.transactionType <;> simp only [true_or]
  · split <;> split <;> simp
  · split <;> simp
  · split <;> split <;> simp

/-- A record dropped as one that is there already never hides the last type given up to a number. -/
theorem find?_eraseDups_typeEvents {key : PublicKey} {txs : List CompleteTransaction}
    (hascend : Ascending txs) (n : Nat) :
    ((typeEvents key txs).eraseDups.reverse.find? fun event => event.1 ≤ n) =
      ((typeEvents key txs).filter fun event => event.1 ≤ n).getLast? := by
  rw [List.getLast?_filter]
  induction txs using List.reverseRecOn with
  | nil => rfl
  | append_singleton txs tx ih =>
      obtain ⟨hfront, hbelow⟩ := hascend.concat
      have hnew : ((tx.typesGiven key).map fun type => (tx.nr, type)).removeAll (typeEvents key txs) =
          (tx.typesGiven key).map fun type => (tx.nr, type) := by
        rw [List.removeAll, List.filter_eq_self]
        intro event hevent
        obtain ⟨type, -, rfl⟩ := List.mem_map.1 hevent
        simp only [List.elem_eq_mem, Bool.not_eq_true', decide_eq_false_iff_not]
        intro hmem
        obtain ⟨other, hother, hnr⟩ := mem_typeEvents hmem
        have := hbelow other hother
        omega
      rw [typeEvents_append, List.eraseDups_append, hnew, List.reverse_append, List.reverse_append,
        List.find?_append, List.find?_append, ih hfront]
      congr 1
      rcases typesGiven_cases tx key
        with hgiven | ⟨type, hgiven⟩ | ⟨type, hgiven⟩ | hgiven <;> rw [hgiven]
      · rfl
      · rfl
      · by_cases hle : tx.nr ≤ n <;> simp [List.eraseDups_cons, hle]
      · simp [List.eraseDups_cons]

end Addresses

namespace Addresses.Registered

variable {txs : List CompleteTransaction} {index : Addresses A} {key : PublicKey}

theorem typeAt_eq_last (hregistered : Registered txs index) (hascend : Ascending txs)
    (hkey : key ≠ zeroBytes 32) (n : Nat) :
    index.typeAt key n =
      ((typeEvents key txs).filter fun event => event.1 ≤ n).getLast?.map Prod.snd := by
  obtain ⟨hready, htells⟩ := hregistered.tells hascend
  rw [typeAt_eq hready htells hkey, find?_eraseDups_typeEvents hascend]

theorem nr_le_largest {tx : CompleteTransaction} (htx : tx ∈ txs) : tx.nr ≤ largest txs := by
  have hne : txs.map CompleteTransaction.nr ≠ [] := List.ne_nil_of_mem (List.mem_map_of_mem htx)
  rcases hmax : (txs.map CompleteTransaction.nr).max? with _ | number
  · exact absurd (List.max?_eq_none_iff.1 hmax) hne
  · rw [largest, hmax]
    exact (List.max?_eq_some_iff.1 hmax).2 _ (List.mem_map_of_mem htx)

theorem type_eq_typeAt_largest (hregistered : Registered txs index) (hascend : Ascending txs)
    (hkey : key ≠ zeroBytes 32) : index.type key = (index.typeAt key (largest txs)).getD .none := by
  obtain ⟨hready, htells⟩ := hregistered.tells hascend
  rw [type_eq hready htells hkey, typeAt_eq hready htells hkey]
  congr 2
  rw [← List.head?_filter]
  congr 1
  symm
  rw [List.filter_eq_self]
  intro event hevent
  rw [List.mem_reverse, List.mem_eraseDups] at hevent
  obtain ⟨tx, htx, hnr⟩ := mem_typeEvents hevent
  exact decide_eq_true (hnr ▸ nr_le_largest htx)

theorem lastBalance_eq_max (hregistered : Registered txs index) (hascend : Ascending txs)
    (hpositive : ∀ tx ∈ txs, 1 ≤ tx.nr) (hkey : key ≠ zeroBytes 32) :
    index.lastBalance key = (balanceNumbers key txs).max? := by
  obtain ⟨hready, htells⟩ := hregistered.tells hascend
  rw [lastBalance_eq hready htells hkey]
  rcases hmax : (balanceNumbers key txs).max? with _ | number
  · rfl
  · obtain ⟨tx, htx, -, hnr⟩ := mem_balanceNumbers.1 (List.max?_eq_some_iff.1 hmax).1
    have := hpositive tx htx
    rw [Option.getD_some, if_neg (by omega)]

theorem typeChangesOf_eq_events (hregistered : Registered txs index) (hascend : Ascending txs)
    (hkey : key ≠ zeroBytes 32) (size : Nat) :
    index.typeChangesOf key size =
      ((typeEvents key txs).eraseDups.map Prod.fst).reverse.take size := by
  obtain ⟨hready, htells⟩ := hregistered.tells hascend
  exact typeChangesOf_eq hready htells hkey size

/-- Whatever transactions of rising numbers a register was given, it answers every question about a
key as their history does. -/
theorem answers_eq_history (hregistered : Registered txs index) (hascend : Ascending txs)
    (hpositive : ∀ tx ∈ txs, 1 ≤ tx.nr) (hkey : key ≠ zeroBytes 32) (n size : Nat) :
    index.typeAt key n =
        ((typeEvents key txs).filter fun event => event.1 ≤ n).getLast?.map Prod.snd ∧
      index.type key = (index.typeAt key (largest txs)).getD .none ∧
      index.lastBalance key = (balanceNumbers key txs).max? ∧
      index.typeChangesOf key size =
        ((typeEvents key txs).eraseDups.map Prod.fst).reverse.take size :=
  ⟨hregistered.typeAt_eq_last hascend hkey n, hregistered.type_eq_typeAt_largest hascend hkey,
    hregistered.lastBalance_eq_max hascend hpositive hkey,
    hregistered.typeChangesOf_eq_events hascend hkey size⟩

/-- A registration that names one key as user and as account. -/
def twiceRegistered : CompleteTransaction :=
  { CompleteTransaction.init with
    txNr := 1
    transactionType := .registerAddress
    addressType := .communityHuman
    registerAddress := ⟨Vector.replicate 32 7, Vector.replicate 32 7⟩ }

def twiceRegister : Addresses Arnm.reference := (Addresses.add twiceRegistered fresh []).2.1

theorem twiceRegister_registered : Registered [twiceRegistered] twiceRegister :=
  @Registered.add _ [] _ _ _ [] [] registered_fresh rfl

theorem answers_eq_history_twice :
    twiceRegister.typeAt (Vector.replicate 32 7) 1 =
        ((typeEvents (Vector.replicate 32 7) [twiceRegistered]).filter fun event =>
          event.1 ≤ 1).getLast?.map Prod.snd ∧
      twiceRegister.type (Vector.replicate 32 7) =
        (twiceRegister.typeAt (Vector.replicate 32 7) (largest [twiceRegistered])).getD .none ∧
      twiceRegister.lastBalance (Vector.replicate 32 7) =
        (balanceNumbers (Vector.replicate 32 7) [twiceRegistered]).max? ∧
      twiceRegister.typeChangesOf (Vector.replicate 32 7) 5 =
        ((typeEvents (Vector.replicate 32 7) [twiceRegistered]).eraseDups.map Prod.fst).reverse.take
          5 :=
  answers_eq_history twiceRegister_registered (by decide) (by decide) (by decide) 1 5

end Addresses.Registered

end GradidoBlockchain
