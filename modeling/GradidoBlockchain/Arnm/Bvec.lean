import GradidoBlockchain.Types
import GradidoBlockchain.Lib.Retry

/-!
# Bucket vectors

A vector counts its slots in 32 bits and never moves them. Every growth can be refused, and a vector
that is full refuses it whatever the allocator says.
-/

namespace GradidoBlockchain

open Fallible Fallible.Call

/-- `arnm_bvec`. -/
@[ext]
structure Bvec (V : Type) where
  slots : List V
  bounded : slots.length ≤ uint32Max

namespace Bvec

variable {V : Type}

def empty : Bvec V := ⟨[], Nat.zero_le _⟩

/-- `arnm_bvec_size`. -/
def size (vec : Bvec V) : Nat := vec.slots.length

/-- `arnm_bvec_get`. -/
def get? (vec : Bvec V) (position : Nat) : Option V := vec.slots[position]?

/-- A write through the pointer `arnm_bvec_get` gives. -/
def modify (vec : Bvec V) (position : Nat) (change : V → V) : Bvec V :=
  ⟨vec.slots.modify position change, by rw [List.length_modify]; exact vec.bounded⟩

/-- `arnm_bvec_pop`. -/
def pop (vec : Bvec V) : Bvec V :=
  ⟨vec.slots.dropLast,
    by rw [List.length_dropLast]; exact Nat.le_trans (Nat.sub_le _ _) vec.bounded⟩

/-- Slots put at the end as far as the vector can count them. -/
def append (vec : Bvec V) (more : List V) : Bvec V :=
  ⟨vec.slots ++ more.take (uint32Max - vec.slots.length), by
    have hbounded := vec.bounded
    rw [List.length_append, List.length_take]
    omega⟩

/-- `arnm_bvec_emplace` and `arnm_bvec_push_ptr`, the new slot written at once. -/
def emplace (slot : V) : Call ArnmResult (Bvec V) Unit := do
  if (← gets size) < uint32Max then grow .outOfMemory (·.append [slot]) else fail .outOfMemory

def growBy (slot : V) : Nat → Call ArnmResult (Bvec V) Unit
  | 0 => pure ()
  | count + 1 => do
      emplace slot
      growBy slot count

/-- The loop that emplaces slots while the vector has no slot `id`; it runs once for each
slot that is missing. -/
def growPast (slot : V) (id : Nat) : Call ArnmResult (Bvec V) Unit := do
  growBy slot (id + 1 - (← gets size))

/-! ### Reading -/

theorem get?_eq_some_lt {vec : Bvec V} {position : Nat} {slot : V}
    (hget : vec.get? position = some slot) : position < vec.size :=
  (List.getElem?_eq_some_iff.1 hget).1

theorem get?_isSome {vec : Bvec V} {position : Nat} (hlt : position < vec.size) :
    ∃ slot, vec.get? position = some slot :=
  ⟨_, List.getElem?_eq_getElem hlt⟩

theorem get?_eq_none {vec : Bvec V} {position : Nat} (hle : vec.size ≤ position) :
    vec.get? position = none :=
  List.getElem?_eq_none hle

@[simp] theorem size_modify (vec : Bvec V) (position : Nat) (change : V → V) :
    (vec.modify position change).size = vec.size := List.length_modify ..

theorem get?_modify (vec : Bvec V) (position other : Nat) (change : V → V) :
    (vec.modify position change).get? other =
      if position = other then (vec.get? other).map change else vec.get? other := by
  simp only [get?, modify, List.getElem?_modify]
  split <;> simp

/-- A write that leaves its slot as it is leaves the vector as it is. -/
theorem modify_eq_self {vec : Bvec V} {position : Nat} {change : V → V} {slot : V}
    (hget : vec.get? position = some slot) (hsame : change slot = slot) :
    vec.modify position change = vec := by
  ext1
  apply List.ext_getElem?
  intro other
  change (vec.modify position change).get? other = vec.get? other
  rw [get?_modify]
  by_cases heq : position = other
  · rw [if_pos heq, ← heq, hget, Option.map_some, hsame]
  · rw [if_neg heq]

theorem size_le (vec : Bvec V) : vec.size ≤ uint32Max := vec.bounded

theorem append_slots {vec : Bvec V} {more : List V} (hroom : vec.size + more.length ≤ uint32Max) :
    (vec.append more).slots = vec.slots ++ more := by
  rw [size] at hroom
  have htake : more.take (uint32Max - vec.slots.length) = more := List.take_of_length_le (by omega)
  simp only [append, htake]

theorem size_append {vec : Bvec V} {more : List V} (hroom : vec.size + more.length ≤ uint32Max) :
    (vec.append more).size = vec.size + more.length := by
  rw [size, append_slots hroom, List.length_append, size]

theorem size_concat {vec : Bvec V} {slot : V} (hlt : vec.size < uint32Max) :
    (vec.append [slot]).size = vec.size + 1 :=
  size_append hlt

@[simp] theorem append_nil (vec : Bvec V) : vec.append [] = vec := by
  ext1
  simp [append]

theorem append_append (vec : Bvec V) (first second : List V) :
    (vec.append first).append second = vec.append (first ++ second) := by
  ext1
  simp only [append, List.append_assoc, List.length_append, List.length_take, List.take_append]
  congr 3
  omega

theorem get?_append_left {vec : Bvec V} {more : List V} {position : Nat}
    (hlt : position < vec.size) : (vec.append more).get? position = vec.get? position :=
  List.getElem?_append_left hlt

/-- A write below the appended slots and the append come to the same in either order. -/
theorem modify_append_left {vec : Bvec V} {more : List V} {position : Nat}
    (hlt : position < vec.size) (change : V → V) :
    (vec.append more).modify position change = (vec.modify position change).append more := by
  have hlists : ∀ (slots rest : List V) (position : Nat), position < slots.length →
      (slots ++ rest).modify position change = slots.modify position change ++ rest := by
    intro slots rest
    induction slots with
    | nil => exact fun position hlt => absurd hlt (Nat.not_lt_zero position)
    | cons slot slots ih =>
        intro position hlt
        cases position with
        | zero => rfl
        | succ position => exact congrArg (slot :: ·) (ih position (Nat.lt_of_succ_lt_succ hlt))
  ext1
  simp only [append, modify, List.length_modify]
  exact hlists _ _ position hlt

/-! ### The last slot -/

theorem get?_last {vec : Bvec V} {front : List V} {slot : V}
    (hslots : vec.slots = front ++ [slot]) : vec.get? front.length = some slot := by
  rw [get?, hslots, List.getElem?_append_right (Nat.le_refl _), Nat.sub_self]
  rfl

theorem modify_last {vec : Bvec V} {front : List V} {slot : V}
    (hslots : vec.slots = front ++ [slot]) (change : V → V) :
    (vec.modify front.length change).slots = front ++ [change slot] := by
  change vec.slots.modify front.length change = _
  rw [hslots]
  clear hslots
  induction front with
  | nil => rfl
  | cons first front ih => exact congrArg (first :: ·) ih

theorem concat_slots {vec : Bvec V} {slot : V} (hlt : vec.size < uint32Max) :
    (vec.append [slot]).slots = vec.slots ++ [slot] :=
  append_slots hlt

theorem pop_concat {vec : Bvec V} {slot : V} (hlt : vec.size < uint32Max) :
    (vec.append [slot]).pop = vec := by
  ext1
  change (vec.append [slot]).slots.dropLast = vec.slots
  rw [concat_slots hlt, List.dropLast_concat]

/-! ### Growing -/

theorem emplace_nil (slot : V) (vec : Bvec V) :
    emplace slot vec [] =
      if vec.size < uint32Max then (.ok (), vec.append [slot], [])
        else (.error .outOfMemory, vec, []) := by
  rw [emplace, bind_run_ok (gets_run _ _ _)]
  split <;> rfl

theorem emplace_ok {slot : V} {vec left : Bvec V} {room rest : Room}
    (hrun : emplace slot vec room = (.ok (), left, rest)) :
    vec.size < uint32Max ∧ left = vec.append [slot] := by
  rw [emplace, bind_run_ok (gets_run _ _ _)] at hrun
  split at hrun
  · exact ⟨‹_›, (grow_ok hrun).symm⟩
  · cases hrun

theorem emplace_error {slot : V} {vec left : Bvec V} {room rest : Room} {code : ArnmResult}
    (hrun : emplace slot vec room = (.error code, left, rest)) :
    code = .outOfMemory ∧ left = vec := by
  rw [emplace, bind_run_ok (gets_run _ _ _)] at hrun
  split at hrun
  · exact grow_error hrun
  · cases hrun
    exact ⟨rfl, rfl⟩

/-- A refused growth by one slot has left the vector as it was. -/
theorem emplace_resumable {inv : Bvec V → Prop} (slot : V) :
    Resumable inv ArnmResult.outOfMemory (emplace slot) where
  refused := fun hinv hrun => (emplace_error hrun).2 ▸ hinv
  steady := by
    intro vec left room rest outcome _ hrun hne
    rcases outcome with code | _
    · exact absurd (congrArg Except.error (emplace_error hrun).1) hne
    · obtain ⟨hlt, rfl⟩ := emplace_ok hrun
      rw [emplace_nil, if_pos hlt]
  resumes := by
    intro vec left room rest _ hrun
    rw [(emplace_error hrun).2]

theorem growBy_ok {slot : V} {count : Nat} {vec left : Bvec V} {room rest : Room}
    (hrun : growBy slot count vec room = (.ok (), left, rest)) :
    (count = 0 ∨ vec.size + count ≤ uint32Max) ∧ left = vec.append (List.replicate count slot) := by
  induction count generalizing vec room with
  | zero =>
      obtain ⟨-, rfl, -⟩ := pure_ok.1 hrun
      exact ⟨.inl rfl, (append_nil _).symm⟩
  | succ count ih =>
      obtain ⟨_, middle, between, hfirst, hrest⟩ := bind_ok.1 hrun
      obtain ⟨hlt, rfl⟩ := emplace_ok hfirst
      obtain ⟨hroom, rfl⟩ := ih hrest
      rw [size_concat hlt] at hroom
      refine ⟨.inr (by omega), ?_⟩
      rw [append_append]
      rfl

/-- Refused, the loop has put some of the slots it was to put. -/
theorem growBy_error {slot : V} {count : Nat} {vec left : Bvec V} {room rest : Room}
    {code : ArnmResult} (hrun : growBy slot count vec room = (.error code, left, rest)) :
    code = .outOfMemory ∧
      ∃ made, made < count ∧ vec.size + made ≤ uint32Max ∧
        left = vec.append (List.replicate made slot) := by
  induction count generalizing vec room with
  | zero => cases hrun
  | succ count ih =>
      rcases bind_error.1 hrun with hfirst | ⟨_, middle, between, hfirst, hrest⟩
      · obtain ⟨rfl, rfl⟩ := emplace_error hfirst
        exact ⟨rfl, 0, Nat.succ_pos _, size_le _, (append_nil _).symm⟩
      · obtain ⟨hlt, rfl⟩ := emplace_ok hfirst
        obtain ⟨hcode, made, hmade, hroom, rfl⟩ := ih hrest
        rw [size_concat hlt] at hroom
        refine ⟨hcode, made + 1, by omega, by omega, ?_⟩
        rw [append_append]
        rfl

theorem growBy_nil (slot : V) (count : Nat) (vec : Bvec V) :
    growBy slot count vec [] =
      (if vec.size + count ≤ uint32Max then .ok () else .error .outOfMemory,
        vec.append (List.replicate count slot), []) := by
  induction count generalizing vec with
  | zero =>
      rw [Nat.add_zero, if_pos vec.size_le, List.replicate_zero, append_nil]
      rfl
  | succ count ih =>
      rw [growBy, bind_run, emplace_nil]
      by_cases hlt : vec.size < uint32Max
      · rw [if_pos hlt]
        change growBy slot count (vec.append [slot]) [] = _
        rw [ih, size_concat hlt, append_append, Nat.add_right_comm, Nat.add_assoc]
        rfl
      · rw [if_neg hlt, if_neg (by omega)]
        have hfull : vec.append (List.replicate (count + 1) slot) = vec := by
          ext1
          have hnone : uint32Max - vec.slots.length = 0 := by
            rw [size] at hlt
            omega
          simp only [append, hnone, List.take_zero, List.append_nil]
        rw [hfull]

theorem growPast_failsOnly (slot : V) (id : Nat) : FailsOnly .outOfMemory (growPast slot id) := by
  intro vec left room rest code hrun
  rw [growPast, bind_run_ok (gets_run _ _ _)] at hrun
  exact (growBy_error hrun).1

theorem growPast_ok {slot : V} {id : Nat} {vec left : Bvec V} {room rest : Room}
    (hrun : growPast slot id vec room = (.ok (), left, rest)) :
    id < left.size ∧ left = vec.append (List.replicate (id + 1 - vec.size) slot) := by
  rw [growPast, bind_run_ok (gets_run _ _ _)] at hrun
  obtain ⟨hroom, rfl⟩ := growBy_ok hrun
  refine ⟨?_, rfl⟩
  rcases hroom with hzero | hroom
  · rw [hzero, List.replicate_zero, append_nil]
    omega
  · rw [size_append (by simpa using hroom), List.length_replicate]
    omega

/-- Whether it succeeds or not, growing appends as many slots as are missing, or fewer. -/
theorem growPast_made (slot : V) (id : Nat) (vec : Bvec V) (room : Room) :
    ∃ made ≤ id + 1 - vec.size,
      (growPast slot id vec room).2.1 = vec.append (List.replicate made slot) := by
  rw [growPast, bind_run_ok (gets_run _ _ _)]
  rcases hrun : growBy slot (id + 1 - vec.size) vec room with ⟨code | _, left, rest⟩
  · obtain ⟨-, made, hmade, -, hleft⟩ := growBy_error hrun
    exact ⟨made, Nat.le_of_lt hmade, hleft⟩
  · exact ⟨_, Nat.le_refl _, (growBy_ok hrun).2⟩

theorem growPast_keeps {inv : Bvec V → Prop} {slot : V} (id : Nat)
    (hinv : ∀ vec count, inv vec → inv (vec.append (List.replicate count slot))) :
    Keeps inv (growPast slot id) := by
  intro vec room hvec
  obtain ⟨made, -, hleft⟩ := growPast_made slot id vec room
  rw [hleft]
  exact hinv vec made hvec

theorem growPast_retryable {inv : Bvec V → Prop} {slot : V} (id : Nat)
    (hinv : ∀ vec count, inv vec → inv (vec.append (List.replicate count slot))) :
    Retryable inv ArnmResult.outOfMemory (growPast slot id) (fun _ vec => id < vec.size) where
  keeps := growPast_keeps id hinv
  steady := by
    intro vec left room rest outcome _ hrun hne
    rw [growPast, bind_run_ok (gets_run _ _ _)] at hrun ⊢
    rcases outcome with code | _
    · obtain ⟨rfl, -⟩ := growBy_error hrun
      exact absurd rfl hne
    · obtain ⟨hroom, rfl⟩ := growBy_ok hrun
      rw [growBy_nil]
      rcases hroom with hzero | hroom
      · rw [hzero, Nat.add_zero, if_pos vec.size_le]
      · rw [if_pos hroom]
  resumes := by
    intro vec left room rest _ hrun
    rw [growPast, bind_run_ok (gets_run _ _ _)] at hrun
    obtain ⟨-, made, hmade, hroom, rfl⟩ := growBy_error hrun
    have hsize : (vec.append (List.replicate made slot)).size = vec.size + made := by
      rw [size_append (by simpa using hroom), List.length_replicate]
    rw [growPast, bind_run_ok (gets_run _ _ _), bind_run_ok (gets_run _ _ _), growBy_nil, growBy_nil, hsize,
      append_append, List.replicate_append_replicate,
      show vec.size + made + (id + 1 - (vec.size + made)) = vec.size + (id + 1 - vec.size) by omega,
      show made + (id + 1 - (vec.size + made)) = id + 1 - vec.size by omega]
  settles := fun _ hrun => (growPast_ok hrun).1
  idle := by
    intro vec _ _ hlt
    rw [growPast, bind_run_ok (gets_run _ _ _), show id + 1 - vec.size = 0 by omega]
    rfl

end Bvec

end GradidoBlockchain
