import Mathlib.Data.List.Basic
import Mathlib.Order.MinMax

/-!
# Files as sequences of bytes

A file has a size, and a byte at every offset; behind the end the bytes are zero, so that a write behind the end leaves a
hole of zeros in front of it.  Copying a part of one file to the same place in another makes the two equal there
(`write_read_inside`) and changes nothing else (`bytes_write_of_outside`).
-/

namespace FileIo

structure File (β : Type) where
  bytes : Nat → β
  size : Nat

namespace File

variable {β : Type} (f g : File β) (off n : Nat) (l : List β) {x : Nat}

/-- The bytes from `off` on, `n` at most. -/
def read : List β := (List.range (min n (f.size - off))).map fun i => f.bytes (off + i)

theorem length_read : (f.read off n).length = min n (f.size - off) := by
  unfold read
  rw [List.length_map, List.length_range]

theorem getElem?_read {i : Nat} (h : i < (f.read off n).length) : (f.read off n)[i]? = some (f.bytes (off + i)) := by
  rw [length_read] at h
  unfold read
  rw [List.getElem?_map, List.getElem?_range h]
  rfl

variable [Inhabited β]

def empty : File β := ⟨fun _ => default, 0⟩

def write : File β :=
  if l = [] then f
  else
    { bytes := fun x => if off ≤ x ∧ x < off + l.length then l.getD (x - off) default else f.bytes x
      size := max f.size (off + l.length) }

def truncate (len : Nat) : File β := ⟨fun x => if x < len then f.bytes x else default, len⟩

theorem size_write : (f.write off l).size = if l = [] then f.size else max f.size (off + l.length) := by
  unfold write
  split <;> rfl

theorem size_le_write : f.size ≤ (f.write off l).size := by
  rw [size_write]
  split
  · exact le_rfl
  · exact le_max_left _ _

theorem bytes_write_of_outside (h : ¬(off ≤ x ∧ x < off + l.length)) : (f.write off l).bytes x = f.bytes x := by
  unfold write
  split
  · rfl
  · exact if_neg h

theorem inside_write (h : off ≤ x ∧ x < off + l.length) : x < (f.write off l).size := by
  have hne : l ≠ [] := by
    rintro rfl
    exact absurd h.2 (by simpa using h.1)
  rw [size_write, if_neg hne]
  exact lt_max_of_lt_right h.2

theorem bytes_write_of_inside (h : off ≤ x ∧ x < off + l.length) : (f.write off l).bytes x = l.getD (x - off) default := by
  have hne : l ≠ [] := by
    rintro rfl
    exact absurd h.2 (by simpa using h.1)
  unfold write
  rw [if_neg hne]
  exact if_pos h

/-- What has been read of `g` and is written to `f` at the same offset. -/
theorem write_read_inside (k : Nat) (h : off ≤ x ∧ x < off + ((g.read off n).take k).length) :
    x < (f.write off ((g.read off n).take k)).size ∧ x < g.size ∧
      (f.write off ((g.read off n).take k)).bytes x = g.bytes x := by
  have hlen := h.2
  rw [List.length_take, length_read] at hlen
  refine ⟨inside_write f off _ h, by omega, ?_⟩
  rw [bytes_write_of_inside f off _ h, List.getD_eq_getElem?_getD, List.getElem?_take_of_lt (by omega),
    getElem?_read g off n (by rw [length_read]; omega)]
  rw [Option.getD_some, Nat.add_sub_cancel' h.1]

end File

end FileIo
