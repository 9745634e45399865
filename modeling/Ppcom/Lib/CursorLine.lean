/-
Module: Ppcom.Lib.CursorLine
Purpose: A line with a cursor in it, as what is before the cursor and what is behind it, the commands that
  edit it, and what a row shows of it that may be too short.
Trusted boundary: human-reviewed spec
Main exports: CursorLine, CursorLine.text, CursorLine.insert, CursorLine.backspace, CursorLine.dropWord,
  CursorLine.swap, CursorLine.window, CursorLine.column
-/
import Mathlib.Data.List.DropRight

/-- A line, cut at its cursor. -/
structure CursorLine (α : Type) where
  left : List α
  right : List α
deriving DecidableEq, Repr

namespace CursorLine

variable {α : Type}

def text (z : CursorLine α) : List α := z.left ++ z.right

/-- A text with the cursor behind it. -/
def ending (s : List α) : CursorLine α := ⟨s, []⟩

/-- An element is put before the cursor. -/
def insert (z : CursorLine α) (c : α) : CursorLine α := ⟨z.left ++ [c], z.right⟩

/-- The element behind the cursor goes. -/
def delete (z : CursorLine α) : CursorLine α := ⟨z.left, z.right.tail⟩

/-- The element before the cursor goes. -/
def backspace (z : CursorLine α) : CursorLine α := ⟨z.left.dropLast, z.right⟩

def moveLeft (z : CursorLine α) : CursorLine α := ⟨z.left.dropLast, z.left.getLast?.toList ++ z.right⟩

def moveRight (z : CursorLine α) : CursorLine α := ⟨z.left ++ z.right.head?.toList, z.right.tail⟩

def home (z : CursorLine α) : CursorLine α := ⟨[], z.text⟩

def last (z : CursorLine α) : CursorLine α := ending z.text

/-- The word before the cursor goes, with the blanks behind it. -/
def dropWord (blank : α → Bool) (z : CursorLine α) : CursorLine α :=
  ⟨(z.left.rdropWhile blank).rdropWhile (!blank ·), z.right⟩

/-- What is behind the cursor goes. -/
def truncate (z : CursorLine α) : CursorLine α := ending z.left

/-- The elements on both sides of the cursor change places, and the cursor goes behind them unless the
line ends there. -/
def swap (z : CursorLine α) : CursorLine α :=
  match z.left.getLast?, z.right with
  | some a, [b] => ⟨z.left.dropLast ++ [b], [a]⟩
  | some a, b :: rest => ⟨z.left.dropLast ++ [b, a], rest⟩
  | _, _ => z

/-! ### Moving -/

variable {z : CursorLine α}

/-- Where the cursor is moves, and the text stays. -/
theorem text_moveLeft (z : CursorLine α) : z.moveLeft.text = z.text := by
  cases z with
  | mk left right =>
      cases left using List.reverseRecOn with
      | nil => rfl
      | append_singleton left c => simp [moveLeft, text]

theorem text_moveRight (z : CursorLine α) : z.moveRight.text = z.text := by
  cases z with
  | mk left right =>
      cases right with
      | nil => simp [moveRight, text]
      | cons c right => simp [moveRight, text]

theorem text_last (z : CursorLine α) : z.last.text = z.text := List.append_nil _

theorem moveLeft_of_start (start : z.left = []) : z.moveLeft = z := by
  cases z with
  | mk left right =>
      cases start
      rfl

theorem moveRight_of_end (atEnd : z.right = []) : z.moveRight = z := by
  cases z with
  | mk left right =>
      cases atEnd
      simp [moveRight]

theorem home_of_start (start : z.left = []) : z.home = z := by
  cases z with
  | mk left right =>
      cases start
      rfl

theorem last_of_end (atEnd : z.right = []) : z.last = z := by
  cases z with
  | mk left right =>
      cases atEnd
      simp [last, ending, text]

theorem swap_of_start (start : z.left = []) : z.swap = z := by
  cases z with
  | mk left right =>
      cases start
      rfl

theorem swap_of_end (atEnd : z.right = []) : z.swap = z := by
  cases z with
  | mk left right =>
      cases atEnd
      simp [swap]

/-! ### Rows that are too short -/

/-- How many elements at the start are hidden where a row of `width` cells is to have the cursor in it. -/
def hidden (width : Nat) (z : CursorLine α) : Nat := z.left.length + 1 - width

/-- What the row shows. -/
def window (width : Nat) (z : CursorLine α) : List α := (z.text.drop (z.hidden width)).take width

/-- Where in the row the cursor is. -/
def column (width : Nat) (z : CursorLine α) : Nat := z.left.length - z.hidden width

variable {width : Nat}

theorem length_text : z.text.length = z.left.length + z.right.length := List.length_append

theorem length_left_le : z.left.length ≤ z.text.length := by
  rw [length_text]
  exact Nat.le_add_right _ _

theorem column_lt (z : CursorLine α) (positive : 0 < width) : z.column width < width := by
  unfold column hidden
  omega

theorem length_window : (z.window width).length = min width (z.text.length - z.hidden width) := by
  rw [window, List.length_take, List.length_drop]

/-- What the row shows is between what is hidden and what there is no room for. -/
theorem window_between (z : CursorLine α) (width : Nat) :
    z.text.take (z.hidden width) ++ z.window width ++ (z.text.drop (z.hidden width)).drop width =
      z.text := by
  rw [window, List.append_assoc, List.take_append_drop, List.take_append_drop]

/-- A line that a row has room for is shown whole. -/
theorem window_of_fits (fits : z.text.length < width) :
    z.window width = z.text ∧ z.column width = z.left.length := by
  have none : z.hidden width = 0 := by
    have bound := z.length_left_le
    unfold hidden
    omega
  rw [window, column, none]
  exact ⟨List.take_of_length_le fits.le, rfl⟩

end CursorLine
