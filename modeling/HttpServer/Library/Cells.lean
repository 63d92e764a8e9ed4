import Mathlib.Data.Vector.Basic

set_option autoImplicit false

/-!
# Arrays of a fixed size

What is read and written must lie inside the array. A queue kept at the front of an array grows
by a copy behind its last element and shrinks by moving the rest down.
-/

abbrev Cells (α : Type) (size : Nat) := List.Vector α size

namespace Cells

variable {α : Type} {size : Nat}

def read (c : Cells α size) (i n : Nat) : List α := (c.toList.drop i).take n

-- `memcpy` to `c + i`.
def write (c : Cells α size) (i : Nat) (xs : List α) (room : i + xs.length ≤ size) : Cells α size :=
  ⟨c.toList.take i ++ xs ++ c.toList.drop (i + xs.length), by simp; omega⟩

theorem toList_write (c : Cells α size) {i : Nat} {xs : List α} (room : i + xs.length ≤ size) :
    (c.write i xs room).toList = c.toList.take i ++ (xs ++ c.toList.drop (i + xs.length)) :=
  List.append_assoc _ _ _

theorem length_read_le (c : Cells α size) (i n : Nat) : (c.read i n).length ≤ n := by
  simp [read]

theorem length_read (c : Cells α size) {i n : Nat} (inside : i + n ≤ size) :
    (c.read i n).length = n := by
  simp only [read, List.length_take, List.length_drop, List.Vector.toList_length]
  omega

-- `memmove` from `c + src` to `c + dst`: every cell is read before one is written.
def move (c : Cells α size) (dst src n : Nat) (room : dst + n ≤ size) : Cells α size :=
  c.write dst (c.read src n) (Nat.le_trans (Nat.add_le_add_left (c.length_read_le src n) dst) room)

@[simp] theorem read_zero (c : Cells α size) (i : Nat) : c.read i 0 = [] := List.take_zero

theorem read_add (c : Cells α size) (i m n : Nat) :
    c.read i (m + n) = c.read i m ++ c.read (i + m) n := by
  simp only [read, List.take_add, List.drop_drop]

theorem read_write (c : Cells α size) {i n : Nat} {xs : List α} (room : i + xs.length ≤ size)
    (count : xs.length = n) : (c.write i xs room).read i n = xs := by
  have front : (c.toList.take i).length = i := by
    rw [List.length_take, List.Vector.toList_length]
    omega
  rw [read, toList_write, List.drop_left' front, ← count, List.take_left]

theorem read_write_before (c : Cells α size) {i n : Nat} {xs : List α}
    (room : i + xs.length ≤ size) (before : n ≤ i) : (c.write i xs room).read 0 n = c.read 0 n := by
  have front : n ≤ (c.toList.take i).length := by
    rw [List.length_take, List.Vector.toList_length]
    omega
  rw [read, read, List.drop_zero, List.drop_zero, toList_write,
    List.take_append_of_le_length front, List.take_take, Nat.min_eq_left before]

theorem read_write_behind (c : Cells α size) {fill n : Nat} {xs : List α}
    (room : fill + xs.length ≤ size) (count : xs.length = n) :
    (c.write fill xs room).read 0 (fill + n) = c.read 0 fill ++ xs := by
  rw [read_add, Nat.zero_add, read_write c room count, read_write_before c room (Nat.le_refl fill)]

-- The rest moves down when the first `n` have been taken.
theorem read_move_front (c : Cells α size) {fill n : Nat} (taken : n ≤ fill) (fits : fill ≤ size)
    (room : 0 + (fill - n) ≤ size) :
    c.read 0 n ++ (c.move 0 n (fill - n) room).read 0 (fill - n) = c.read 0 fill := by
  have moved : (c.move 0 n (fill - n) room).read 0 (fill - n) = c.read n (fill - n) :=
    c.read_write _ (c.length_read (by omega))
  have split : fill = n + (fill - n) := by omega
  rw [moved]
  conv_rhs => rw [split, read_add, Nat.zero_add]

end Cells
