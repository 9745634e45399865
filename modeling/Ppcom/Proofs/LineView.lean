/-
Module: Ppcom.Proofs.LineView
Purpose: What `refreshSingleLine` writes: the prompt and the part of the line that the rest of the row has
  room for and that the cursor is in. Where the prompt leaves no room it goes outside the buffer.
Trusted boundary: none
Main exports: HoldsLine, rowBytes, refreshSingleLine_eq, refreshSingleLine_held,
  refreshSingleLine_within_iff, HoldsLine.refresh
-/
import Ppcom.Lib.CursorLine
import Ppcom.Linenoise

namespace Ppcom

/-- The buffer holds the line with a terminator behind it, and the prompt leaves room in the row. -/
structure HoldsLine (z : CursorLine UInt8) (l : Linenoise) : Prop where
  held : ∃ rest, l.buf = z.left ++ z.right ++ 0 :: rest
  size : l.buf.length = l.buflen + 1
  pos : l.pos = z.left.length
  len : l.len = z.left.length + z.right.length
  plen : l.plen = l.prompt.length
  wide : l.prompt.length < l.cols
  small : l.prompt.length + l.buflen < 2 ^ 31

theorem sizeSub_of_le {m n : Nat} (le : n ≤ m) : sizeSub m n = m - n := if_pos le

theorem sizeAdd_of_small {m n : Nat} (small : m + n < 2 ^ 64) : sizeAdd m n = m + n :=
  Nat.mod_eq_of_lt small

theorem sizeSub_succ {m n : Nat} (small : m < 2 ^ 64) (le : n < 2 ^ 64) :
    sizeSub (sizeSub m n) 1 = sizeSub m (n + 1) := by
  unfold sizeSub
  split
  · split
    · rw [if_pos (by omega)]
      omega
    · rw [if_neg (by omega)]
      omega
  · rw [if_pos (by omega), if_neg (by omega)]
    omega

theorem sizeAdd_sizeSub {plen m n : Nat} (small : plen + m < 2 ^ 64) (le : n ≤ plen + m) :
    sizeAdd plen (sizeSub m n) = plen + m - n := by
  unfold sizeAdd sizeSub
  split
  · omega
  · omega

/-- A length that was counted down below zero is a negative `int`. -/
theorem toInt_sizeSub {m n : Nat} (small : m < 2 ^ 31) (le : n ≤ 2 ^ 31) :
    toInt (sizeSub m n) = (m : Int) - n := by
  unfold sizeSub
  split
  · rw [toInt_of_fits (by omega)]
    omega
  · unfold toInt
    rw [BitVec.toInt_ofInt, Int.bmod_def]
    split
    · omega
    · omega

/-- The first loop takes as many bytes off the line as the cursor is too far to the right, even where the
line has not so many. -/
theorem scrollView_eq {plen cols len pos n i : Nat} (positive : 0 < cols) (small : plen + pos < 2 ^ 64)
    (smallLen : len < 2 ^ 64) (le : i ≤ plen + pos + 1 - cols)
    (enough : plen + pos + 1 - cols < n + i) :
    scrollView plen cols n ⟨i, sizeSub len i, sizeSub pos i⟩ =
      some ⟨plen + pos + 1 - cols, sizeSub len (plen + pos + 1 - cols),
        sizeSub pos (plen + pos + 1 - cols)⟩ := by
  induction n generalizing i with
  | zero => omega
  | succ n ih =>
      rw [scrollView, sizeAdd_sizeSub small (by omega)]
      by_cases more : cols ≤ plen + pos - i
      · rw [if_pos more, sizeSub_succ smallLen (by omega), sizeSub_succ (by omega) (by omega)]
        exact ih (i := i + 1) (by omega) (by omega)
      · have last : i = plen + pos + 1 - cols := by omega
        rw [if_neg more, ← last]

/-- The second loop takes off what the row has no room for. -/
theorem clipLen_eq {plen cols len n i : Nat} (small : plen + len < 2 ^ 64) (le : i ≤ plen + len)
    (enough : plen + len - i ≤ cols + n) :
    clipLen plen cols n (sizeSub len i) = sizeSub len (max i (plen + len - cols)) := by
  induction n generalizing i with
  | zero => rw [clipLen, Nat.max_eq_left (by omega)]
  | succ n ih =>
      rw [clipLen, sizeAdd_sizeSub small le]
      by_cases long : cols < plen + len - i
      · rw [if_pos long, sizeSub_succ (by omega) (by omega), ih (by omega) (by omega)]
        congr 1
        omega
      · rw [if_neg long, Nat.max_eq_left (by omega)]

/-- What is shown of a line: nothing, and an access outside the buffer, where more is taken off it than it
is long. -/
theorem refreshSingleLine_eq {l : Linenoise} (positive : 0 < l.cols) (inside : l.pos ≤ l.len)
    (small : l.prompt.length + l.len < 2 ^ 31) :
    refreshSingleLine l =
      let hidden := l.prompt.length + l.pos + 1 - l.cols
      let off := max hidden (l.prompt.length + l.len - l.cols)
      if l.len < off then none
      else (Block.read l.buf hidden (l.len - off)).map fun text =>
        l.write (refreshBytes l.prompt text (toInt (sizeAdd (sizeSub l.pos hidden) l.prompt.length))) := by
  have start : LineView.mk 0 l.len l.pos = ⟨0, sizeSub l.len 0, sizeSub l.pos 0⟩ := rfl
  have length := sizeAdd_of_small (show l.prompt.length + l.pos < 2 ^ 64 by omega)
  have scrolled := scrollView_eq (n := l.prompt.length + l.pos + 1) (i := 0) positive
    (show l.prompt.length + l.pos < 2 ^ 64 by omega) (show l.len < 2 ^ 64 by omega) (Nat.zero_le _)
    (by omega)
  unfold refreshSingleLine
  simp only [start, length, scrolled, Option.bind_eq_bind, Option.bind_some]
  generalize hidden : l.prompt.length + l.pos + 1 - l.cols = k
  rw [sizeAdd_sizeSub (by omega) (by omega), clipLen_eq (by omega) (by omega) (by omega),
    toInt_sizeSub (by omega) (by omega)]
  by_cases beyond : l.len < max k (l.prompt.length + l.len - l.cols)
  · rw [if_pos beyond, if_pos (by omega)]
  · have count : ((l.len : Int) - (max k (l.prompt.length + l.len - l.cols) : Nat)).toNat =
        l.len - max k (l.prompt.length + l.len - l.cols) := by omega
    rw [if_neg beyond, if_neg (by omega), count, Option.map_eq_bind]
    rfl

/-- The bytes that show the line in the row. -/
def rowBytes (prompt : List UInt8) (cols : Nat) (z : CursorLine UInt8) : List UInt8 :=
  let width := cols - prompt.length
  refreshBytes prompt (z.window width) (z.column width + prompt.length)

/-- The line in a block is shown, with as much of it as there is room for. -/
theorem refreshSingleLine_held {z : CursorLine UInt8} {l : Linenoise} {rest : List UInt8}
    (held : l.buf = z.left ++ z.right ++ 0 :: rest) (pos : l.pos = z.left.length)
    (len : l.len = z.left.length + z.right.length) (wide : l.prompt.length < l.cols)
    (small : l.prompt.length + l.len < 2 ^ 31) :
    refreshSingleLine l = some (l.write (rowBytes l.prompt l.cols z)) := by
  have hidden : l.prompt.length + l.pos + 1 - l.cols = z.hidden (l.cols - l.prompt.length) := by
    unfold CursorLine.hidden
    omega
  have hiddenLe : z.hidden (l.cols - l.prompt.length) ≤ z.left.length := by
    unfold CursorLine.hidden
    omega
  have shown : l.len - max (z.hidden (l.cols - l.prompt.length)) (l.prompt.length + l.len - l.cols) =
      (z.window (l.cols - l.prompt.length)).length := by
    rw [CursorLine.length_window, CursorLine.length_text, ← len]
    omega
  have text : Block.read l.buf (z.hidden (l.cols - l.prompt.length))
      (z.window (l.cols - l.prompt.length)).length = some (z.window (l.cols - l.prompt.length)) := by
    apply Block.read_between (z.text.take (z.hidden (l.cols - l.prompt.length)))
      (z.window (l.cols - l.prompt.length))
      ((z.text.drop (z.hidden (l.cols - l.prompt.length))).drop (l.cols - l.prompt.length) ++ 0 :: rest)
    · rw [← List.append_assoc, CursorLine.window_between]
      exact held
    · rw [List.length_take, CursorLine.length_text]
      omega
    · rfl
  have column : sizeSub l.pos (z.hidden (l.cols - l.prompt.length)) =
      z.column (l.cols - l.prompt.length) := by
    rw [sizeSub_of_le (by omega), CursorLine.column, pos]
  have columnLe : z.column (l.cols - l.prompt.length) ≤ z.left.length := Nat.sub_le _ _
  rw [refreshSingleLine_eq (by omega) (by omega) small]
  simp only [hidden]
  rw [if_neg (by omega), shown, text, Option.map_some, column, sizeAdd_of_small (by omega),
    toInt_of_fits (by omega)]
  rfl

/-- A line is shown without an access outside the buffer if the prompt leaves room in the row, or else only
where it fills the row and the cursor is not at the end of the line. -/
theorem refreshSingleLine_within_iff {l : Linenoise} (positive : 0 < l.cols) (inside : l.pos ≤ l.len)
    (within : l.len ≤ l.buf.length) (small : l.prompt.length + l.len < 2 ^ 31) :
    (refreshSingleLine l).isSome ↔
      l.prompt.length < l.cols ∨ (l.prompt.length = l.cols ∧ l.pos < l.len) := by
  rw [refreshSingleLine_eq positive inside small]
  simp only
  split
  · next beyond =>
    simp only [Option.isSome_none, Bool.false_eq_true, false_iff]
    omega
  · next within' =>
    rw [Option.isSome_map, Block.read, if_pos (by omega)]
    simp only [Option.isSome_some, true_iff]
    omega

namespace HoldsLine

variable {z : CursorLine UInt8} {l : Linenoise}

theorem length_text (holds : HoldsLine z l) : z.text.length = l.len := by
  rw [CursorLine.length_text, holds.len]

theorem len_le (holds : HoldsLine z l) : l.len ≤ l.buflen := by
  obtain ⟨rest, held⟩ := holds.held
  have total := congrArg List.length held
  rw [holds.size, List.length_append, List.length_append, List.length_cons] at total
  rw [holds.len]
  omega

/-- The line is held whatever else changes. -/
theorem elsewhere (holds : HoldsLine z l) (historyIndex : Int) (history : LineHistory) (out : List UInt8)
    (beeps : Nat) : HoldsLine z
      { l with historyIndex := historyIndex, history := history, out := out, beeps := beeps } :=
  ⟨holds.held, holds.size, holds.pos, holds.len, holds.plen, holds.wide, holds.small⟩

/-- The line is shown. -/
theorem refresh (holds : HoldsLine z l) :
    refreshSingleLine l = some (l.write (rowBytes l.prompt l.cols z)) := by
  obtain ⟨rest, held⟩ := holds.held
  have le := holds.len_le
  have small := holds.small
  exact refreshSingleLine_held held holds.pos holds.len holds.wide (by omega)

end HoldsLine

end Ppcom
