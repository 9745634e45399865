/-
Module: Ppcom.Lib.Block
Purpose: A block of memory as the list of its cells, with accesses that are checked: a read, a write or a
  move that would leave the block gives nothing.
Trusted boundary: none
Main exports: Block.read, Block.write, Block.move, Block.read_between, Block.write_between,
  Block.move_between, Block.move_down
-/
import Ppcom.Lib.Buffer

namespace Block

variable {α : Type}

/-- The `k` cells from offset `n` on. -/
def read (block : List α) (n k : Nat) : Option (List α) :=
  if n + k ≤ block.length then some ((block.drop n).take k) else none

/-- The block after `xs` was written at offset `n`. -/
def write (block : List α) (n : Nat) (xs : List α) : Option (List α) :=
  if n + xs.length ≤ block.length then some (Buffer.blit block n xs) else none

/-- The block after `k` cells were copied from offset `src` to offset `dst`; the parts may overlap. -/
def move (block : List α) (dst src k : Nat) : Option (List α) :=
  (read block src k).bind (write block dst)

variable {block xs ys : List α} {n k : Nat}

/-- A part of the block is read. -/
theorem read_between (front xs back : List α) (is : block = front ++ xs ++ back) (offset : n = front.length)
    (size : k = xs.length) : read block n k = some xs := by
  subst is offset size
  have fits : front.length + xs.length ≤ (front ++ xs ++ back).length := by
    simp
  rw [read, if_pos fits, List.append_assoc, List.drop_left, List.take_left]

/-- A part of the block is replaced. -/
theorem write_between (front xs back : List α) (is : block = front ++ xs ++ back) (offset : n = front.length)
    (size : ys.length = xs.length) : write block n ys = some (front ++ ys ++ back) := by
  subst is offset
  have fits : front.length + ys.length ≤ (front ++ xs ++ back).length := by
    rw [size]
    simp
  have rest : (front ++ xs ++ back).drop (front.length + ys.length) = back := by
    rw [size, ← List.length_append, List.drop_left]
  rw [write, if_pos fits, Buffer.blit, rest, List.append_assoc front xs back, List.take_left]

/-- A part is copied over another of the same size. -/
theorem move_between {dst src : Nat} (front xs back front' ys back' : List α)
    (is : block = front ++ xs ++ back) (offset : src = front.length) (size : k = xs.length)
    (is' : block = front' ++ ys ++ back') (offset' : dst = front'.length) (size' : xs.length = ys.length) :
    move block dst src k = some (front' ++ xs ++ back') := by
  rw [move, read_between front xs back is offset size]
  exact write_between front' ys back' is' offset' size'

/-- A part is moved down over a gap before it. -/
theorem move_down {dst src : Nat} (front gap xs back : List α) (is : block = front ++ gap ++ xs ++ back)
    (offset : dst = front.length) (offset' : src = front.length + gap.length) (size : k = xs.length) :
    ∃ junk, junk.length = gap.length ∧ move block dst src k = some (front ++ xs ++ (junk ++ back)) := by
  have parts := List.take_append_drop xs.length (gap ++ xs)
  have shorter : xs.length ≤ (gap ++ xs).length := by
    simp
  exists (gap ++ xs).drop xs.length
  constructor
  · simp
  · apply move_between (front ++ gap) xs back front ((gap ++ xs).take xs.length) _ is
    · rw [offset', List.length_append]
    · exact size
    · simp only [is, List.append_assoc]
      rw [← List.append_assoc gap xs, ← List.append_assoc (List.take _ _), parts]
    · exact offset
    · rw [List.length_take, Nat.min_eq_left shorter]

end Block
