/-
Module: Ppcom.Lib.StringBlock
Purpose: A block of memory that a string is built in, with the stores made to it. Strings that are put
  one behind the other, with a terminator, stay within a block that is large enough for all of them.
Trusted boundary: none
Main exports: StringBlock, StringBlock.strcat, StringBlock.Holds, StringBlock.Holds.strcat
-/
import Ppcom.Lib.Stores

/-- A block of `size` bytes: what is found in memory from its start on, and the stores made. -/
structure StringBlock where
  size : Nat
  cells : Nat → UInt8
  log : List (Nat × UInt8)

namespace StringBlock

/-- `malloc`, where memory holds `cells`. -/
def malloc (size : Nat) (cells : Nat → UInt8) : StringBlock := ⟨size, cells, []⟩

/-- The string at the start of the block. -/
def text (block : StringBlock) : List UInt8 :=
  ((List.range block.size).map block.cells).takeWhile (· != 0)

/-- Bytes are stored from offset `n` on. -/
def store (block : StringBlock) (n : Nat) (bytes : List UInt8) : StringBlock :=
  { block with
    cells := Stores.apply block.cells (Stores.block n bytes)
    log := block.log ++ Stores.block n bytes }

/-- `strcat`. -/
def strcat (block : StringBlock) (s : List UInt8) : StringBlock :=
  block.store block.text.length (s ++ [0])

/-- `strncat`. -/
def strncat (block : StringBlock) (s : List UInt8) (n : Nat) : StringBlock := block.strcat (s.take n)

/-- No store left the block. -/
def Within (block : StringBlock) : Prop := ∀ store ∈ block.log, store.1 < block.size

/-- The block holds the string with its terminator, and no store left it. -/
structure Holds (block : StringBlock) (s : List UInt8) : Prop where
  within : block.Within
  fits : s.length < block.size
  noNul : 0 ∉ s
  cells : ∀ i ≤ s.length, block.cells i = (s[i]?).getD 0

variable {block : StringBlock} {s t : List UInt8}

/-- A string and its terminator are stored behind one another. -/
theorem store_behind (within : block.Within) {n : Nat} (fits : n + t.length < block.size) :
    (block.store n (t ++ [0])).Within ∧
      (∀ i < n, (block.store n (t ++ [0])).cells i = block.cells i) ∧
      ∀ i ≤ t.length, (block.store n (t ++ [0])).cells (n + i) = (t[i]?).getD 0 := by
  refine ⟨fun store made => ?_, fun i before => ?_, fun i inside => ?_⟩
  · rcases List.mem_append.mp made with earlier | this
    · exact within store earlier
    · have bounds := Stores.block_mem this
      rw [List.length_append, List.length_singleton] at bounds
      show store.1 < block.size
      omega
  · apply Stores.apply_of_notMem
    intro store made
    have bounds := Stores.block_mem made
    omega
  · show Stores.apply block.cells (Stores.block n (t ++ [0])) (n + i) = _
    rw [Stores.apply_block]
    rcases Nat.lt_or_eq_of_le inside with inner | rfl
    · rw [List.getElem?_append_left inner, List.getElem?_eq_getElem inner]
      rfl
    · simp

/-- The first string in a block. -/
theorem Holds.start (within : block.Within) (noNul : 0 ∉ s) (fits : s.length < block.size) :
    (block.store 0 (s ++ [0])).Holds s := by
  obtain ⟨stays, _, cells⟩ := store_behind (t := s) within (Nat.zero_add s.length ▸ fits)
  refine ⟨stays, fits, noNul, fun i inside => ?_⟩
  have cell := cells i inside
  rwa [Nat.zero_add] at cell

/-- What a block holds is the string at its start. -/
theorem Holds.text (holds : block.Holds s) : block.text = s := by
  obtain ⟨rest, size⟩ := Nat.exists_eq_add_of_lt holds.fits
  have cells : (List.range (s.length + 1)).map block.cells = s ++ [0] := by
    apply List.ext_getElem
    · simp
    · intro i inside _
      rw [List.length_map, List.length_range] at inside
      rw [List.getElem_map, List.getElem_range, holds.cells i (by omega)]
      rcases Nat.lt_or_eq_of_le (Nat.le_of_lt_succ inside) with inner | rfl
      · rw [List.getElem_append_left inner, List.getElem?_eq_getElem inner]
        rfl
      · simp
  have plain : ∀ c ∈ s, (c != 0) = true := by
    intro c inside
    exact bne_iff_ne.mpr fun zero => holds.noNul (zero ▸ inside)
  unfold StringBlock.text
  rw [size, Nat.add_right_comm, List.range_add, List.map_append, cells, List.append_assoc,
    List.takeWhile_append_of_pos plain]
  exact List.append_nil s

/-- A string is put behind what the block holds. -/
theorem Holds.strcat (holds : block.Holds s) (noNul : 0 ∉ t)
    (fits : s.length + t.length < block.size) : (block.strcat t).Holds (s ++ t) := by
  obtain ⟨stays, before, behind⟩ := store_behind (t := t) holds.within fits
  unfold StringBlock.strcat
  rw [holds.text]
  refine ⟨stays, ?_, ?_, fun i inside => ?_⟩
  · rw [List.length_append]
    exact fits
  · rw [List.mem_append]
    rintro (first | second)
    · exact holds.noNul first
    · exact noNul second
  · rw [List.length_append] at inside
    by_cases first : i < s.length
    · rw [before i first, holds.cells i (Nat.le_of_lt first), List.getElem?_append_left first]
    · obtain ⟨j, rfl⟩ := Nat.exists_eq_add_of_le (Nat.le_of_not_lt first)
      rw [behind j (by omega), List.getElem?_append_right (Nat.le_add_right ..),
        Nat.add_sub_cancel_left]

@[simp] theorem size_store (n : Nat) (bytes : List UInt8) : (block.store n bytes).size = block.size :=
  rfl

@[simp] theorem size_strcat (s : List UInt8) : (block.strcat s).size = block.size := rfl

end StringBlock
