/-
Module: Ppcom.Lib.Buffer
Purpose: A block of memory of fixed size as the list of its cells, with the two copies that a queue
  at the start of a block needs: writing at an offset, and moving a part down to the start.
Trusted boundary: none
Main exports: Buffer.blit, Buffer.moveDown, Buffer.take_blit, Buffer.take_moveDown
-/
import Mathlib.Data.List.Basic

namespace Buffer

variable {α : Type}

/-- The block after `xs` was written at offset `n`. -/
def blit (block : List α) (n : Nat) (xs : List α) : List α :=
  block.take n ++ xs ++ block.drop (n + xs.length)

/-- The block after its cells from `n` to `n + k` were moved to its start. -/
def moveDown (block : List α) (n k : Nat) : List α :=
  (block.drop n).take k ++ block.drop k

section Blit

variable {block xs : List α} {n : Nat}

theorem length_blit (fits : n + xs.length ≤ block.length) :
    (blit block n xs).length = block.length := by
  simp only [blit, List.length_append, List.length_take, List.length_drop]
  omega

/-- Writing behind what is held adds to it. -/
theorem take_blit (fits : n ≤ block.length) :
    (blit block n xs).take (n + xs.length) = block.take n ++ xs := by
  have held : (block.take n ++ xs).length = n + xs.length := by
    simp [Nat.min_eq_left fits]
  rw [blit, ← held, List.take_left]

end Blit

section MoveDown

variable {block : List α} {n k : Nat}

theorem length_moveDown (fits : n + k ≤ block.length) :
    (moveDown block n k).length = block.length := by
  simp only [moveDown, List.length_append, List.length_take, List.length_drop]
  omega

/-- Moving the rest down drops the front of what is held. -/
theorem take_moveDown (fits : n + k ≤ block.length) :
    (moveDown block n k).take k = (block.take (n + k)).drop n := by
  have moved : ((block.drop n).take k).length = k := by
    simp only [List.length_take, List.length_drop]
    omega
  rw [moveDown, List.take_left' moved, List.drop_take, Nat.add_sub_cancel_left]

end MoveDown

/-- A larger block holds at its start what the smaller one held. -/
theorem take_grow {block more : List α} {n : Nat} (fits : n ≤ block.length) :
    (block ++ more).take n = block.take n :=
  List.take_append_of_le_length fits

end Buffer
