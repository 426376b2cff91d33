import Mathlib.Data.List.Basic
import Mathlib.Data.List.Range

/-!
# Pages

A listing is read from either end, some of it is passed over, and a page of it is kept. The lemmas
say how the page of a listing in parts is put together from the pages of its parts, and how a
listing of consecutive numbers narrows to a span.
-/

namespace Page

variable {α β : Type}

/-- The list from the end it is read from. -/
def oriented (descending : Bool) (items : List α) : List α :=
  if descending then items.reverse else items

/-- At most `size` items after the first `skip`. -/
def page (skip size : Nat) (items : List α) : List α := (items.drop skip).take size

/-! ### Orientation -/

@[simp] theorem length_oriented (descending : Bool) (items : List α) :
    (oriented descending items).length = items.length := by
  cases descending <;> simp [oriented]

theorem oriented_filter (descending : Bool) (keep : α → Bool) (items : List α) :
    (oriented descending items).filter keep = oriented descending (items.filter keep) := by
  cases descending <;> simp [oriented]

theorem oriented_map (descending : Bool) (f : α → β) (items : List α) :
    (oriented descending items).map f = oriented descending (items.map f) := by
  cases descending <;> simp [oriented]

/-- A list in parts is read part by part, each part from the same end. -/
theorem oriented_flatten (descending : Bool) (parts : List (List α)) :
    oriented descending parts.flatten =
      ((oriented descending parts).map (oriented descending)).flatten := by
  cases descending with
  | false =>
      have hsame : oriented (α := α) false = id := by
        funext items
        simp [oriented]
      simp [hsame, oriented]
  | true =>
      have hreverse : oriented (α := α) true = List.reverse := by
        funext items
        simp [oriented]
      rw [hreverse, List.reverse_flatten]
      simp [oriented]

/-! ### Pages of parts -/

theorem page_map (skip size : Nat) (f : α → β) (items : List α) :
    (page skip size items).map f = page skip size (items.map f) := by
  simp [page, List.map_drop, List.map_take]

theorem length_page (skip size : Nat) (items : List α) :
    (page skip size items).length = min size (items.length - skip) := by
  simp [page]

@[simp] theorem page_zero (skip : Nat) (items : List α) : page skip 0 items = [] := by
  simp [page]

/-- What the first part does not use up of the skip and of the room goes to the rest. -/
theorem page_append (skip size : Nat) (first rest : List α) :
    page skip size (first ++ rest) = page skip size first ++
      page (skip - first.length) (size - (page skip size first).length) rest := by
  rw [length_page, page, List.drop_append, List.take_append, page, page, List.length_drop]
  have hroom : size - (first.length - skip) = size - min size (first.length - skip) := by omega
  rw [hroom]

/-- Consecutive pages are the beginning of the list. -/
theorem flatten_pages (size pages : Nat) (items : List α) :
    ((List.range pages).map fun index => page (index * size) size items).flatten =
      items.take (pages * size) := by
  induction pages with
  | zero => simp
  | succ pages ih =>
      rw [List.range_succ, List.map_append, List.flatten_append, ih, Nat.succ_mul, List.take_add]
      simp [page]

/-- Of parts that are told apart by a key, each is what the key picks out of them all. -/
theorem filter_flatten_parts {key : α → Nat} {first position : Nat} {parts : List (List α)}
    {part : List α}
    (hkeys : ∀ place items, parts[place]? = some items → ∀ item ∈ items, key item = first + place)
    (hpart : parts[position]? = some part) :
    (parts.flatten.filter fun item => key item = first + position) = part := by
  induction parts generalizing first position with
  | nil => cases hpart
  | cons head parts ih =>
      have hhead : ∀ item ∈ head, key item = first := hkeys 0 head rfl
      have hrest : ∀ place items, parts[place]? = some items →
          ∀ item ∈ items, key item = first + 1 + place := by
        intro place items hitems item hitem
        rw [hkeys (place + 1) items hitems item hitem]
        omega
      rw [List.flatten_cons, List.filter_append]
      cases position with
      | zero =>
          cases hpart
          have hothers : (parts.flatten.filter fun item => key item = first + 0) = [] := by
            rw [List.filter_eq_nil_iff]
            intro item hitem
            obtain ⟨items, hitems, hmem⟩ := List.mem_flatten.1 hitem
            obtain ⟨place, hplace⟩ := List.getElem?_of_mem hitems
            have hkey := hrest place items hplace item hmem
            simp only [decide_eq_true_eq]
            omega
          rw [hothers, List.append_nil, List.filter_eq_self]
          intro item hitem
          simp [hhead item hitem]
      | succ position =>
          have hnone : (head.filter fun item => key item = first + (position + 1)) = [] := by
            rw [List.filter_eq_nil_iff]
            intro item hitem
            have hkey := hhead item hitem
            simp only [decide_eq_true_eq]
            omega
          have hnext := ih hrest hpart
          rw [Nat.add_assoc, Nat.add_comm 1] at hnext
          rw [hnone, List.nil_append, hnext]

/-! ### Stepping through -/

/-- Walks a list, steps over what is excluded, passes over the first `skip` of the rest and
keeps the next `size`. -/
def walk (excluded : α → Bool) : Nat → Nat → List α → List α
  | _, _, [] => []
  | _, 0, _ :: _ => []
  | skip, size + 1, item :: items =>
      if excluded item then walk excluded skip (size + 1) items
      else if skip ≠ 0 then walk excluded (skip - 1) (size + 1) items
      else item :: walk excluded 0 size items

theorem walk_eq_page (excluded : α → Bool) (skip size : Nat) (items : List α) :
    walk excluded skip size items = page skip size (items.filter fun item => !excluded item) := by
  induction items generalizing skip size with
  | nil => simp [walk, page]
  | cons item items ih =>
      cases size with
      | zero => simp [walk]
      | succ size =>
          rw [walk]
          by_cases hexcluded : excluded item = true
          · rw [if_pos hexcluded, ih, List.filter_cons_of_neg (by simp [hexcluded])]
          · rw [if_neg hexcluded, List.filter_cons_of_pos (by simp [hexcluded])]
            cases skip with
            | zero =>
                rw [if_neg (by simp), ih]
                rfl
            | succ skip =>
                rw [if_pos (by simp), ih]
                rfl

/-! ### Spans of numbers -/

/-- The numbers from `low` to `high`, both included. -/
def span (low high : Nat) : List Nat := List.range' low (high + 1 - low)

@[simp] theorem mem_span {low high number : Nat} :
    number ∈ span low high ↔ low ≤ number ∧ number ≤ high := by
  rw [span, List.mem_range'_1]
  omega

@[simp] theorem length_span (low high : Nat) : (span low high).length = high + 1 - low := by
  simp [span]

/-- A span inside a longer run of numbers is the part of the run within its bounds. -/
theorem span_eq_filter {low high first count : Nat} (hlow : first ≤ low)
    (hhigh : high < first + count) :
    span low high =
      (List.range' first count).filter fun number => decide (low ≤ number ∧ number ≤ high) := by
  by_cases hempty : high < low
  · have hnil : span low high = [] := by
      rw [span, show high + 1 - low = 0 by omega]
      rfl
    rw [hnil, eq_comm, List.filter_eq_nil_iff]
    intro number _
    simp only [decide_eq_true_eq]
    omega
  · have hsplit : List.range' first count =
        List.range' first (low - first) ++ span low high ++
          List.range' (high + 1) (first + count - (high + 1)) := by
      rw [span, show low = first + (low - first) by omega, Nat.add_sub_cancel_left]
      have hmiddle :=
        List.range'_append_1 (s := first) (m := low - first)
          (n := high + 1 - (first + (low - first)))
      rw [hmiddle]
      have hlast :=
        List.range'_append_1 (s := first) (m := low - first + (high + 1 - (first + (low - first))))
          (n := first + count - (high + 1))
      rw [show first + (low - first + (high + 1 - (first + (low - first)))) = high + 1 by omega]
        at hlast
      rw [hlast]
      congr 1
      omega
    have hbefore : (List.range' first (low - first)).filter
          (fun number => decide (low ≤ number ∧ number ≤ high)) = [] := by
      rw [List.filter_eq_nil_iff]
      intro number hnumber
      rw [List.mem_range'_1] at hnumber
      simp only [decide_eq_true_eq]
      omega
    have hafter : (List.range' (high + 1) (first + count - (high + 1))).filter
        (fun number => decide (low ≤ number ∧ number ≤ high)) = [] := by
      rw [List.filter_eq_nil_iff]
      intro number hnumber
      rw [List.mem_range'_1] at hnumber
      simp only [decide_eq_true_eq]
      omega
    have hinside : (span low high).filter (fun number => decide (low ≤ number ∧ number ≤ high)) =
        span low high := by
      rw [List.filter_eq_self]
      intro number hnumber
      simpa using mem_span.1 hnumber
    rw [hsplit, List.filter_append, List.filter_append, hbefore, hafter, hinside, List.nil_append,
      List.append_nil]

theorem filter_span {low high first count : Nat} (keep : Nat → Bool) (hlow : first ≤ low)
    (hhigh : high < first + count) :
    (span low high).filter keep =
      (List.range' first count).filter fun number =>
        keep number && decide (low ≤ number ∧ number ≤ high) := by
  rw [span_eq_filter hlow hhigh, List.filter_filter]

theorem span_eq_map (low high : Nat) :
    span low high = (List.range (high + 1 - low)).map fun step => low + step := by
  rw [span, List.range'_eq_map_range]

/-- Counting down from the top of a span is reading it from its other end. -/
theorem reverse_span {low high : Nat} (hle : low ≤ high) :
    (span low high).reverse = (List.range (high + 1 - low)).map fun step => high - step := by
  apply List.ext_getElem
  · simp
  · intro index hleft hright
    simp only [List.length_reverse, length_span] at hleft
    rw [List.getElem_reverse, List.getElem_map, List.getElem_range]
    simp only [span, List.getElem_range', List.length_range']
    omega

theorem span_oriented (descending : Bool) {low high : Nat} (hle : low ≤ high) :
    oriented descending (span low high) =
      (List.range (high + 1 - low)).map fun step =>
        if descending then high - step else low + step := by
  cases descending with
  | false => simp [oriented, span_eq_map]
  | true => simp [oriented, reverse_span hle]

end Page
