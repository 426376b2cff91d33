import Mathlib.Algebra.BigOperators.Group.List.Basic
import Mathlib.Algebra.Order.Group.Nat
import Mathlib.Algebra.Ring.Nat

/-!
# Room that is taken from one end

An arena hands out its bytes one block behind the other, each at a rounded size. The newest block
that is given back frees its bytes; any other is buried and frees none. What an arena has left after
some blocks have been given back is a matter of their order: the reverse of the order they were
taken in unwinds it, and whatever is given back before the blocks on top of it stays where it is.
-/

namespace Unwind

/-- The place and the size of a block. -/
structure Extent where
  start : ℕ
  size : ℕ
  deriving DecidableEq, Repr

/-- What can be asked of an arena: the place of its next block and the bytes behind it, and to take
a block, to make one smaller and to give one back. -/
structure Arena (σ : Type*) where
  mark : σ → ℕ
  room : σ → ℕ
  alloc : ℕ → σ → Option (ℕ × σ)
  resize : Extent → ℕ → σ → σ
  free : Extent → σ → σ

variable {σ : Type*} {arena : Arena σ} {pad : ℕ → ℕ}

/-- Since it was in the state `start` the arena has handed out some bytes. -/
def Arena.Spent (arena : Arena σ) (start : σ) (bytes : ℕ) (left : σ) : Prop :=
  arena.mark left = arena.mark start + bytes ∧ arena.room left + bytes = arena.room start

/-- How an arena that rounds sizes with `pad` answers. Of a block with others on top of it nothing
but that they stay is said. -/
structure Arena.Lawful (arena : Arena σ) (pad : ℕ → ℕ) : Prop where
  le_pad size : size ≤ pad size
  alloc_some {size : ℕ} {state left : σ} {start : ℕ} : 0 < size →
    arena.alloc size state = some (start, left) →
    start = arena.mark state ∧ arena.Spent state (pad size) left
  resize_newest {block : Extent} {size : ℕ} {state : σ} : 0 < size → size ≤ block.size →
    block.start + pad block.size = arena.mark state →
    arena.mark (arena.resize block size state) = block.start + pad size ∧
      arena.room (arena.resize block size state) + pad size = arena.room state + pad block.size
  free_newest {block : Extent} {state : σ} : 0 < block.size →
    block.start + pad block.size = arena.mark state →
    arena.mark (arena.free block state) = block.start ∧
      arena.room (arena.free block state) = arena.room state + pad block.size
  free_buried {block : Extent} {state : σ} : block.start + pad block.size < arena.mark state →
    arena.mark (arena.free block state) = arena.mark state ∧
      arena.room (arena.free block state) = arena.room state

variable (arena) in
def giveAll (blocks : List Extent) (state : σ) : σ :=
  blocks.foldl (fun state block => arena.free block state) state

@[simp] theorem giveAll_nil (state : σ) : giveAll arena [] state = state := rfl

@[simp] theorem giveAll_cons (block : Extent) (blocks : List Extent) (state : σ) :
    giveAll arena (block :: blocks) state = giveAll arena blocks (arena.free block state) := rfl

theorem giveAll_append (blocks others : List Extent) (state : σ) :
    giveAll arena (blocks ++ others) state = giveAll arena others (giveAll arena blocks state) :=
  List.foldl_append

namespace Arena.Spent

variable {start state left : σ} {bytes more : ℕ}

theorem refl (state : σ) : arena.Spent state 0 state := ⟨rfl, rfl⟩

theorem trans (hfirst : arena.Spent start bytes state) (hsecond : arena.Spent state more left) :
    arena.Spent start (bytes + more) left := by
  obtain ⟨hmark, hroom⟩ := hfirst
  obtain ⟨hmark', hroom'⟩ := hsecond
  exact ⟨by omega, by omega⟩

/-- A block at the end is given back. -/
theorem free_newest (hspent : arena.Spent start (bytes + pad more) state)
    (hlawful : arena.Lawful pad) (hpos : 0 < more) :
    arena.Spent start bytes (arena.free ⟨arena.mark start + bytes, more⟩ state) := by
  obtain ⟨hmark, hroom⟩ := hspent
  have hend : arena.mark start + bytes + pad more = arena.mark state := by rw [hmark, Nat.add_assoc]
  obtain ⟨hback, hfreed⟩ :=
    @Lawful.free_newest _ _ _ hlawful ⟨arena.mark start + bytes, more⟩ state hpos hend
  rw [← Nat.add_assoc, Nat.add_right_comm] at hroom
  exact ⟨hback, hfreed ▸ hroom⟩

/-- A block that others lie on is given back to no avail. -/
theorem free_buried (hspent : arena.Spent start bytes state) (hlawful : arena.Lawful pad)
    {block : Extent} (hburied : block.start + pad block.size < arena.mark start + bytes) :
    arena.Spent start bytes (arena.free block state) := by
  obtain ⟨hmark, hroom⟩ := hspent
  obtain ⟨hsame, hsame'⟩ := hlawful.free_buried (hmark ▸ hburied)
  exact ⟨hsame.trans hmark, hsame' ▸ hroom⟩

end Arena.Spent

/-! ### Blocks behind one another -/

variable (pad) in
/-- The bytes that some blocks take up. -/
def charged (blocks : List Extent) : ℕ := (blocks.map fun block => pad block.size).sum

@[simp] theorem charged_nil : charged pad [] = 0 := rfl

@[simp] theorem charged_cons (block : Extent) (blocks : List Extent) :
    charged pad (block :: blocks) = pad block.size + charged pad blocks := List.sum_cons

@[simp] theorem charged_append (blocks others : List Extent) :
    charged pad (blocks ++ others) = charged pad blocks + charged pad others := by
  rw [charged, List.map_append, List.sum_append, charged, charged]

/-- Blocks of some bytes that lie behind one another, the first of them at `base`. -/
def Stacked (pad : ℕ → ℕ) : ℕ → List Extent → Prop
  | _, [] => True
  | base, block :: blocks =>
      block.start = base ∧ 0 < block.size ∧ Stacked pad (base + pad block.size) blocks

theorem stacked_append {base : ℕ} {blocks others : List Extent} :
    Stacked pad base (blocks ++ others) ↔
      Stacked pad base blocks ∧ Stacked pad (base + charged pad blocks) others := by
  induction blocks generalizing base with
  | nil => simp [Stacked]
  | cons block blocks ih =>
    rw [List.cons_append, Stacked, Stacked, ih, charged_cons, ← Nat.add_assoc, and_assoc, and_assoc]

theorem Stacked.charged_pos (hlawful : arena.Lawful pad) {base : ℕ} {blocks : List Extent}
    (hstacked : Stacked pad base blocks) (hne : blocks ≠ []) : 0 < charged pad blocks := by
  obtain ⟨block, blocks, rfl⟩ := List.exists_cons_of_ne_nil hne
  have hle := hlawful.le_pad block.size
  have hpos := hstacked.2.1
  rw [charged_cons]
  omega

theorem Stacked.end_le {base : ℕ} {blocks : List Extent} (hstacked : Stacked pad base blocks)
    {block : Extent} (hblock : block ∈ blocks) :
    block.start + pad block.size ≤ base + charged pad blocks := by
  induction blocks generalizing base with
  | nil => cases hblock
  | cons first blocks ih =>
    obtain ⟨hstart, -, hrest⟩ := hstacked
    rw [charged_cons]
    obtain rfl | hmem := List.mem_cons.1 hblock
    · omega
    · have hle := ih hrest hmem
      omega

/-! ### What is given back -/

variable {start state : σ} {bytes : ℕ}

/-- Blocks that others lie on stay where they are. -/
theorem giveAll_buried (hlawful : arena.Lawful pad) {blocks : List Extent}
    (hspent : arena.Spent start bytes state)
    (hburied : ∀ block ∈ blocks, block.start + pad block.size < arena.mark start + bytes) :
    arena.Spent start bytes (giveAll arena blocks state) := by
  induction blocks generalizing state with
  | nil => exact hspent
  | cons block blocks ih =>
    rw [giveAll_cons]
    exact ih (hspent.free_buried hlawful (hburied block List.mem_cons_self))
      fun other hother => hburied other (List.mem_cons_of_mem _ hother)

/-- Given back from the newest to the oldest, blocks leave the arena as it was before the first. -/
theorem giveAll_reverse (hlawful : arena.Lawful pad) {blocks : List Extent}
    (hstacked : Stacked pad (arena.mark start + bytes) blocks)
    (hspent : arena.Spent start (bytes + charged pad blocks) state) :
    arena.Spent start bytes (giveAll arena blocks.reverse state) := by
  induction blocks generalizing bytes state with
  | nil => exact hspent
  | cons block blocks ih =>
    obtain ⟨hstart, hpos, hrest⟩ := hstacked
    rw [charged_cons, ← Nat.add_assoc] at hspent
    rw [Nat.add_assoc] at hrest
    rw [List.reverse_cons, giveAll_append, giveAll_cons, giveAll_nil]
    have hunwound := (ih hrest hspent).free_newest hlawful hpos
    rwa [← hstart] at hunwound

/-- What is left of some blocks that are given back before those on top of them. -/
def stuck (pad : ℕ → ℕ) (under above : List Extent) : ℕ :=
  if above = [] then 0 else charged pad under

theorem giveAll_under (hlawful : arena.Lawful pad) {under above : List Extent}
    (hstacked : Stacked pad (arena.mark start + bytes) (under ++ above))
    (hspent : arena.Spent start (bytes + charged pad (under ++ above)) state) :
    arena.Spent start (bytes + stuck pad under above)
      (giveAll arena (under.reverse ++ above.reverse) state) := by
  obtain ⟨hunder, habove⟩ := stacked_append.1 hstacked
  rw [stuck, giveAll_append]
  split
  next hnil =>
    rw [hnil, List.append_nil] at hspent
    rw [hnil, Nat.add_zero, List.reverse_nil, giveAll_nil]
    exact giveAll_reverse hlawful hunder hspent
  next hne =>
    have hpos := habove.charged_pos hlawful hne
    rw [charged_append, ← Nat.add_assoc] at hspent
    rw [Nat.add_assoc] at habove
    refine giveAll_reverse hlawful habove (giveAll_buried hlawful hspent fun block hblock => ?_)
    have hle := hunder.end_le (List.mem_reverse.1 hblock)
    omega

/-- What is left where a block beneath all the others has been given back before any of them. -/
theorem giveAll_beneath (hlawful : arena.Lawful pad) {used : ℕ} (hused : 0 < used)
    {under above : List Extent}
    (hstacked : Stacked pad (arena.mark start + pad used) (under ++ above))
    (hspent : arena.Spent start (pad used + charged pad (under ++ above)) state) :
    arena.Spent start (if under ++ above = [] then 0 else pad used + stuck pad under above)
      (giveAll arena (under.reverse ++ above.reverse)
        (arena.free ⟨arena.mark start, used⟩ state)) := by
  split
  next hnone =>
    obtain ⟨rfl, rfl⟩ := List.append_eq_nil_iff.1 hnone
    have hworkspace : arena.Spent start (0 + pad used) state := by simpa using hspent
    exact hworkspace.free_newest hlawful hused
  next hsome =>
    have hpos := hstacked.charged_pos hlawful hsome
    have hburied : arena.mark start + pad used <
        arena.mark start + (pad used + charged pad (under ++ above)) := by omega
    exact giveAll_under hlawful hstacked (hspent.free_buried hlawful hburied)

end Unwind
