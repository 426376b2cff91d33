import Mathlib.Tactic.Common

/-!
# A buffer of fixed size

Bytes that are written in place: a write that would leave the buffer is an error, and all other
writes replace a region and leave what is around it.
-/

/-- The bytes of a buffer. -/
abbrev Buffer := List UInt8

namespace Buffer

/-- What stops a run over a buffer. -/
inductive WriteFault
  | outside
  deriving DecidableEq, Repr

/-- The bytes `new` from the place `i` on. -/
def write (buffer : Buffer) (i : ℕ) (new : List UInt8) : Except WriteFault Buffer :=
  if i + new.length ≤ buffer.length then
      .ok (buffer.take i ++ (new ++ buffer.drop (i + new.length)))
    else .error .outside

/-- The buffer after such a write. -/
def put (buffer : Buffer) (i : ℕ) (new : List UInt8) : Buffer :=
  buffer.take i ++ (new ++ buffer.drop (i + new.length))

/-- `memset`. -/
def memset (buffer : Buffer) (i : ℕ) (c : UInt8) (n : ℕ) : Except WriteFault Buffer :=
  buffer.write i (List.replicate n c)

/-- `memmove`, with places in the buffer for its pointers. -/
def memmove (buffer : Buffer) (destination source n : ℕ) : Except WriteFault Buffer :=
  if source + n ≤ buffer.length then buffer.write destination ((buffer.drop source).take n)
    else .error .outside

variable {left old new right moved : List UInt8} {i n source : ℕ}

theorem fault_bind {α β : Type} (a : α) (next : α → Except WriteFault β) :
    (Except.ok a >>= next) = next a :=
  rfl

/-! ### Writing one text after another -/

theorem write_eq_put {buffer : Buffer} (hinside : i + new.length ≤ buffer.length) :
    buffer.write i new = .ok (buffer.put i new) :=
  if_pos hinside

theorem length_put {buffer : Buffer} (hinside : i + new.length ≤ buffer.length) :
    (buffer.put i new).length = buffer.length := by
  simp only [put, List.length_append, List.length_take, List.length_drop]
  omega

/-- What is written where a text has its end replaces that end. -/
theorem put_put {buffer : Buffer} {text ending next : List UInt8}
    (hinside : i + (text ++ ending).length ≤ buffer.length)
    (hlength : ending.length ≤ next.length) :
    (buffer.put i (text ++ ending)).put (i + text.length) next = buffer.put i (text ++ next) := by
  rw [List.length_append] at hinside
  have htake : (buffer.take i).length = i := List.length_take_of_le (by omega)
  have hkept : (buffer.put i (text ++ ending)).take (i + text.length) = buffer.take i ++ text := by
    rw [put, ← List.append_assoc, ← List.append_assoc, List.append_assoc (buffer.take i ++ text)]
    exact List.take_left' (by rw [List.length_append, htake])
  have hrest : (buffer.put i (text ++ ending)).drop (i + text.length + next.length) =
      buffer.drop (i + text.length + next.length) := by
    rw [put, ← List.append_assoc, List.drop_append, List.drop_of_length_le, List.nil_append,
      List.drop_drop]
    · congr 1
      simp only [List.length_append]
      omega
    · simp only [List.length_append]
      omega
  rw [put, hkept, hrest, put, List.append_assoc, List.append_assoc, List.length_append,
    Nat.add_assoc]

theorem put_append {buffer : Buffer} {text next : List UInt8}
    (hinside : i + text.length ≤ buffer.length) :
    (buffer.put i text).put (i + text.length) next = buffer.put i (text ++ next) := by
  have hput := @put_put i buffer text [] next (by rwa [List.append_nil]) (Nat.zero_le _)
  rwa [List.append_nil] at hput

/-- A write behind a text that is there already, over the end that the text has had. -/
theorem write_after {buffer : Buffer} {held text ending next : List UInt8} {j : ℕ}
    (hheld : held = text ++ ending) (hj : j = i + text.length)
    (hlength : ending.length ≤ next.length)
    (hinside : i + (text.length + next.length) ≤ buffer.length) :
    (buffer.put i held).write j next = .ok (buffer.put i (text ++ next)) := by
  subst hheld hj
  have hheld : i + (text ++ ending).length ≤ buffer.length := by
    rw [List.length_append]
    omega
  rw [write_eq_put, put_put hheld hlength]
  rw [length_put hheld]
  omega

/-- A write behind a text that is there already, which keeps all of it. -/
theorem write_next {buffer : Buffer} {held next : List UInt8} {j : ℕ} (hj : j = i + held.length)
    (hinside : i + (held.length + next.length) ≤ buffer.length) :
    (buffer.put i held).write j next = .ok (buffer.put i (held ++ next)) :=
  write_after (List.append_nil held).symm hj (Nat.zero_le _) hinside

/-- Outside of what is written a write changes nothing. -/
theorem getElem?_put {buffer : Buffer} {j : ℕ} (hinside : i + new.length ≤ buffer.length)
    (houtside : j < i ∨ i + new.length ≤ j) : (buffer.put i new)[j]? = buffer[j]? := by
  have htake : (buffer.take i).length = i := List.length_take_of_le (by omega)
  obtain hbefore | hbehind := houtside
  · rw [put, List.getElem?_append_left (by omega), List.getElem?_take_of_lt hbefore]
  · rw [put, ← List.append_assoc, List.getElem?_append_right, List.getElem?_drop]
    · congr 1
      simp only [List.length_append]
      omega
    · simp only [List.length_append]
      omega

/-- A text with a zero byte behind it, where both have room in a size, and nothing elsewhere. -/
def printed (buffer : Buffer) (i size : ℕ) (text : List UInt8) : Buffer :=
  if text.length < size then buffer.put i (text ++ [0]) else buffer

theorem length_printed {buffer : Buffer} {size : ℕ} (hroom : i + size ≤ buffer.length)
    (text : List UInt8) : (buffer.printed i size text).length = buffer.length := by
  rw [printed]
  split
  · apply length_put
    rw [List.length_append, List.length_singleton]
    omega
  · rfl

theorem getElem?_printed {buffer : Buffer} {size j : ℕ} (hroom : i + size ≤ buffer.length)
    (houtside : j < i ∨ i + size ≤ j) (text : List UInt8) :
    (buffer.printed i size text)[j]? = buffer[j]? := by
  rw [printed]
  split
  · apply getElem?_put <;> rw [List.length_append, List.length_singleton] <;> omega
  · rfl

/-! ### Regions -/

/-- A write replaces a region of its own length. -/
theorem write_region (hi : i = left.length) (hlength : new.length = old.length) :
    write (left ++ (old ++ right)) i new = .ok (left ++ (new ++ right)) := by
  subst hi
  rw [write, if_pos, List.take_left, List.drop_append, hlength, Nat.add_sub_cancel_left,
    List.drop_left, List.drop_of_length_le (Nat.le_add_right _ _), List.nil_append]
  simp only [List.length_append]
  omega

/-- A move writes the bytes that stand at its source. -/
theorem memmove_region {buffer : Buffer} (hbuffer : buffer = left ++ (old ++ right))
    (hi : i = left.length) (hmoved : (buffer.drop source).take n = moved)
    (hlength : moved.length = n) (hold : old.length = n) (hpos : 0 < n) :
    memmove buffer i source n = .ok (left ++ (moved ++ right)) := by
  have hinside : source + n ≤ buffer.length := by
    rw [← hmoved, List.length_take, List.length_drop] at hlength
    omega
  rw [memmove, if_pos hinside, hmoved, hbuffer]
  exact write_region hi (hlength.trans hold.symm)

end Buffer
