/-
Module: Ppcom.Lib.Screen
Purpose: The screen of a terminal: its cells, the cursor, and what printable bytes, carriage returns and a
  few escape sequences do to them, one of which the terminal answers with the position of the cursor. A row
  shows a text from its left edge on if nothing else is in it. Behind a row that is full the cursor is in
  the last column, and what erases the rest of the line erases that column.
Trusted boundary: human-reviewed spec
Main exports: Screen, Screen.put, Screen.write, Screen.answers, Screen.Shows, Screen.Shows.append,
  Screen.shows_redraw
-/
import Ppcom.Lib.TextRow

/-- What has been read of an escape sequence. -/
inductive ScreenMode where
  | ground
  | escape
  | control (arg : Option Nat)
deriving DecidableEq, Repr

/-- The cells by row and column, and the cursor. Where it is in column `cols`, the last column was written
to: the cursor is still there, and the next printable byte goes to the next row. -/
structure Screen where
  cells : Nat → Nat → UInt8
  row : Nat
  col : Nat
  mode : ScreenMode

namespace Screen

open TextRow (Printable blank)

variable (cols : Nat)

/-- A printable byte. -/
def print (s : Screen) (c : UInt8) : Screen :=
  if s.col < cols then
    { s with cells := Function.update s.cells s.row (Function.update (s.cells s.row) s.col c)
             col := s.col + 1 }
  else
    { s with cells := Function.update s.cells (s.row + 1) (Function.update (s.cells (s.row + 1)) 0 c)
             row := s.row + 1
             col := 1 }

/-- The control sequence with a final byte: cursor forward and backward, erase in line, cursor position, and
erase in display, as far as a line editor uses them. -/
def control (s : Screen) (arg : Option Nat) (final : UInt8) : Screen :=
  if final = 0x43 then { s with col := min (s.col + max 1 (arg.getD 1)) (cols - 1) }
  else if final = 0x44 then { s with col := min s.col (cols - 1) - max 1 (arg.getD 1) }
  else if final = 0x4b ∧ arg.getD 0 = 0 then
    { s with cells := Function.update s.cells s.row fun i =>
        if min s.col (cols - 1) ≤ i then blank else s.cells s.row i }
  else if final = 0x48 ∧ arg = none then { s with row := 0, col := 0 }
  else if final = 0x4a ∧ arg = some 2 then { s with cells := fun _ _ => blank }
  else s

/-- A byte that the terminal receives. -/
def put (s : Screen) (c : UInt8) : Screen :=
  match s.mode with
  | .ground =>
      if c = 0x1b then { s with mode := .escape }
      else if c = 0x0d then { s with col := 0 }
      else if Printable c then s.print cols c
      else s
  | .escape => { s with mode := if c = 0x5b then .control none else .ground }
  | .control arg =>
      if 0x30 ≤ c ∧ c ≤ 0x39 then { s with mode := .control (some (arg.getD 0 * 10 + (c.toNat - 0x30))) }
      else { s.control cols arg c with mode := .ground }

def write (s : Screen) (bytes : List UInt8) : Screen := bytes.foldl (put cols) s

/-- The digits of a number. -/
def digits (n : Nat) : List UInt8 := (Nat.toDigits 10 n).map fun c => c.toNat.toUInt8

/-- The report of the position of the cursor, from row and column 1 on. -/
def report (s : Screen) : List UInt8 :=
  0x1b :: 0x5b :: (digits (s.row + 1) ++ 0x3b :: (digits (min s.col (cols - 1) + 1) ++ [0x52]))

/-- What the terminal sends when it receives a byte. -/
def answer (s : Screen) (c : UInt8) : List UInt8 :=
  if s.mode = .control (some 6) ∧ c = 0x6e then s.report cols else []

/-- What it sends when it receives bytes. -/
def answers : Screen → List UInt8 → List UInt8
  | _, [] => []
  | s, c :: bytes => s.answer cols c ++ answers (s.put cols c) bytes

/-- The row with the cursor shows the text as far as all columns but the last have room for it, the rest of
the row is blank, the last column included, and the cursor is in column `col`. -/
structure Shows (s : Screen) (text : List UInt8) (col : Nat) : Prop where
  mode : s.mode = .ground
  cursor : s.col = col
  cells : ∀ i, s.cells s.row i = ((text.take (cols - 1))[i]?).getD blank

variable {cols} {s : Screen} {text bytes : List UInt8} {col : Nat}

@[simp] theorem write_nil (s : Screen) : s.write cols [] = s := rfl

@[simp] theorem write_cons (s : Screen) (c : UInt8) (bytes : List UInt8) :
    s.write cols (c :: bytes) = (s.put cols c).write cols bytes := rfl

theorem write_append (s : Screen) (bytes more : List UInt8) :
    s.write cols (bytes ++ more) = (s.write cols bytes).write cols more := by
  simp [write]

theorem put_printable (ground : s.mode = .ground) {c : UInt8} (printable : Printable c) :
    s.put cols c = s.print cols c := by
  obtain ⟨low, high⟩ := printable
  have noEscape : c ≠ 0x1b := by
    rintro rfl
    exact absurd low (by decide)
  have noReturn : c ≠ 0x0d := by
    rintro rfl
    exact absurd low (by decide)
  unfold put
  rw [ground]
  simp only [if_neg noEscape, if_neg noReturn]
  exact if_pos ⟨low, high⟩

theorem put_return (ground : s.mode = .ground) : s.put cols 0x0d = { s with col := 0 } := by
  unfold put
  rw [ground]
  rfl

/-- A text that the row has room for goes to the cells from the cursor on. -/
theorem write_text (ground : s.mode = .ground) (printable : ∀ c ∈ text, Printable c)
    (fits : s.col + text.length ≤ cols) :
    (s.write cols text).mode = .ground ∧ (s.write cols text).row = s.row ∧
      (s.write cols text).col = s.col + text.length ∧
      ∀ i, (s.write cols text).cells s.row i =
        if s.col ≤ i ∧ i < s.col + text.length then (text[i - s.col]?).getD blank
        else s.cells s.row i := by
  induction text generalizing s with
  | nil =>
      refine ⟨ground, rfl, rfl, fun i => ?_⟩
      rw [if_neg (by simp only [List.length_nil]; omega)]
      rfl
  | cons c text ih =>
      rw [List.length_cons] at fits
      have inside : s.col < cols := by omega
      rw [write_cons, put_printable ground (printable c List.mem_cons_self), print, if_pos inside]
      obtain ⟨mode, row, col, cells⟩ := ih (s := { s with
        cells := Function.update s.cells s.row (Function.update (s.cells s.row) s.col c)
        col := s.col + 1 }) ground (fun d member => printable d (List.mem_cons_of_mem _ member))
        (by simp only; omega)
      refine ⟨mode, row, by rw [col, List.length_cons]; simp only; omega, fun i => ?_⟩
      rw [cells i]
      simp only [Function.update_self]
      by_cases first : i = s.col
      · subst first
        rw [if_neg (by omega), if_pos (by rw [List.length_cons]; omega), Function.update_self,
          Nat.sub_self]
        rfl
      · rw [Function.update_of_ne first]
        by_cases later : s.col + 1 ≤ i ∧ i < s.col + 1 + text.length
        · have place : i - s.col = i - (s.col + 1) + 1 := by omega
          rw [if_pos later, if_pos (by rw [List.length_cons]; omega), place, List.getElem?_cons_succ]
        · rw [if_neg later, if_neg (by rw [List.length_cons]; omega)]

/-- A text is shown at the left edge of a row that was blank. -/
theorem shows_of_blank (ground : s.mode = .ground) (left : s.col = 0)
    (empty : ∀ i, s.cells s.row i = blank) (printable : ∀ c ∈ text, Printable c)
    (fits : text.length < cols) : (s.write cols text).Shows cols text text.length := by
  obtain ⟨mode, row, col, cells⟩ := write_text ground printable
    (show s.col + text.length ≤ cols by omega)
  refine ⟨mode, by omega, fun i => ?_⟩
  rw [row, cells i, left, Nat.zero_add, List.take_of_length_le (by omega)]
  by_cases inside : i < text.length
  · rw [if_pos ⟨Nat.zero_le _, inside⟩, Nat.sub_zero]
  · rw [if_neg (fun both => inside both.2), empty, List.getElem?_eq_none (Nat.le_of_not_lt inside)]
    rfl

/-- What is written behind a text that is shown is shown behind it. -/
theorem Shows.append (shows : s.Shows cols text text.length) (printable : ∀ c ∈ bytes, Printable c)
    (fits : text.length + bytes.length < cols) :
    (s.write cols bytes).Shows cols (text ++ bytes) (text ++ bytes).length := by
  have cursor := shows.cursor
  have shown := shows.cells
  rw [List.take_of_length_le (by omega)] at shown
  obtain ⟨mode, row, col, cells⟩ := write_text shows.mode printable
    (show s.col + bytes.length ≤ cols by omega)
  refine ⟨mode, by rw [col, cursor, List.length_append], fun i => ?_⟩
  rw [row, cells i, cursor, List.take_of_length_le (by rw [List.length_append]; omega)]
  by_cases before : i < text.length
  · rw [if_neg (by omega), shown i, List.getElem?_append_left before]
  · rw [List.getElem?_append_right (Nat.le_of_not_lt before)]
    by_cases inside : i < text.length + bytes.length
    · rw [if_pos ⟨Nat.le_of_not_lt before, inside⟩]
    · rw [if_neg (fun both => inside both.2), shown i,
        List.getElem?_eq_none (Nat.le_of_not_lt before), List.getElem?_eq_none (by omega)]

/-! ### Control sequences -/

/-- The number that digits stand for, behind the digits of `n`. -/
def number (n : Nat) (digits : List UInt8) : Nat :=
  digits.foldl (fun n c => n * 10 + (c.toNat - 0x30)) n

theorem write_digits {n : Nat} {digits : List UInt8} (all : ∀ c ∈ digits, 0x30 ≤ c ∧ c ≤ 0x39) :
    ({ s with mode := .control (some n) } : Screen).write cols digits =
      { s with mode := .control (some (number n digits)) } := by
  induction digits generalizing n with
  | nil => rfl
  | cons c digits ih =>
      have first : ({ s with mode := .control (some n) } : Screen).put cols c =
          { s with mode := .control (some (n * 10 + (c.toNat - 0x30))) } := by
        unfold put
        simp only [if_pos (all c List.mem_cons_self), Option.getD_some]
      rw [write_cons, first, ih fun d member => all d (List.mem_cons_of_mem _ member)]
      rfl

/-- The digits of a control sequence are read as a number. -/
theorem write_number {c : UInt8} {digits : List UInt8} (all : ∀ d ∈ c :: digits, 0x30 ≤ d ∧ d ≤ 0x39) :
    ({ s with mode := .control none } : Screen).write cols (c :: digits) =
      { s with mode := .control (some (number 0 (c :: digits))) } := by
  have first : ({ s with mode := .control none } : Screen).put cols c =
      { s with mode := .control (some (0 * 10 + (c.toNat - 0x30))) } := by
    unfold put
    simp only [if_pos (all c List.mem_cons_self), Option.getD_none]
  rw [write_cons, first, write_digits fun d member => all d (List.mem_cons_of_mem _ member)]
  rfl

/-- A control sequence does what its final byte says. -/
theorem write_control (ground : s.mode = .ground) {arg : Option Nat} {digits : List UInt8} {final : UInt8}
    (reads : ({ s with mode := .control none } : Screen).write cols digits = { s with mode := .control arg })
    (noDigit : ¬ (0x30 ≤ final ∧ final ≤ 0x39)) (rest : List UInt8) :
    s.write cols (0x1b :: 0x5b :: (digits ++ final :: rest)) =
      (s.control cols arg final).write cols rest := by
  have start : s.put cols 0x1b = { s with mode := .escape } := by
    unfold put
    rw [ground]
    rfl
  have bracket : ({ s with mode := .escape } : Screen).put cols 0x5b = { s with mode := .control none } :=
    rfl
  have last : ({ s with mode := .control arg } : Screen).put cols final = s.control cols arg final := by
    cases s with
    | mk cells row col mode =>
        cases ground
        unfold put control
        simp only [if_neg noDigit]
        repeat' split
        all_goals rfl
  rw [write_cons, start, write_cons, bracket, write_append, reads, write_cons, last]

/-- A row that is written from its left edge on, erased behind that, and given the cursor shows the text.
Where the text fills the row, its last byte is erased again. -/
theorem shows_redraw (ground : s.mode = .ground) (printable : ∀ c ∈ text, Printable c)
    (fits : text.length ≤ cols) {c : UInt8} {digits : List UInt8}
    (all : ∀ d ∈ c :: digits, 0x30 ≤ d ∧ d ≤ 0x39) (positive : 0 < number 0 (c :: digits))
    (inside : number 0 (c :: digits) < cols) :
    (s.write cols (0x0d :: (text ++ (0x1b :: 0x5b :: ([0x30] ++ 0x4b ::
      0x0d :: 0x1b :: 0x5b :: (c :: digits ++ 0x43 :: [])))))).Shows cols text
        (number 0 (c :: digits)) := by
  obtain ⟨mode, row, col, cells⟩ := write_text (s := { s with col := 0 }) ground printable
    (show 0 + text.length ≤ cols by omega)
  simp only [Nat.zero_add, Nat.zero_le, true_and, Nat.sub_zero] at col cells
  have zero : ∀ d ∈ [(0x30 : UInt8)], 0x30 ≤ d ∧ d ≤ 0x39 := List.forall_mem_singleton.mpr (by decide)
  rw [write_cons, put_return ground, write_append]
  generalize ({ s with col := 0 } : Screen).write cols text = shown at mode row col cells
  have erasedMode : (shown.control cols (some (number 0 [0x30])) 0x4b).mode = .ground := mode
  have erasedRow : (shown.control cols (some (number 0 [0x30])) 0x4b).row = s.row := row
  have erasedCells : ∀ i, (shown.control cols (some (number 0 [0x30])) 0x4b).cells shown.row i =
      if min shown.col (cols - 1) ≤ i then blank else shown.cells shown.row i := by
    intro i
    show Function.update shown.cells shown.row _ shown.row i = _
    rw [Function.update_self]
  rw [write_control mode (write_number zero) (by decide)]
  generalize shown.control cols (some (number 0 [0x30])) 0x4b = erased at erasedMode erasedRow erasedCells
  rw [write_cons, put_return erasedMode,
    write_control (s := { erased with col := 0 }) erasedMode (write_number all) (by decide)]
  generalize number 0 (c :: digits) = n at positive inside
  have moved : min (0 + max 1 n) (cols - 1) = n := by omega
  refine ⟨erasedMode, moved, fun i => ?_⟩
  show erased.cells erased.row i = _
  rw [erasedRow, ← row, erasedCells i, row, cells i, col]
  by_cases behind : min text.length (cols - 1) ≤ i
  · rw [if_pos behind, List.getElem?_eq_none (by rw [List.length_take]; omega)]
    rfl
  · rw [if_neg behind, if_pos (by omega), List.getElem?_take_of_lt (by omega)]

/-! ### Answers -/

theorem answers_append (s : Screen) (bytes more : List UInt8) :
    s.answers cols (bytes ++ more) = s.answers cols bytes ++ (s.write cols bytes).answers cols more := by
  induction bytes generalizing s with
  | nil => rfl
  | cons c bytes ih => rw [List.cons_append, answers, answers, ih, List.append_assoc, write_cons]

/-- The terminal sends nothing unless it is asked. -/
theorem answers_silent (silent : 0x6e ∉ bytes) : s.answers cols bytes = [] := by
  induction bytes generalizing s with
  | nil => rfl
  | cons c bytes ih =>
      have other : c ≠ 0x6e := fun is => silent (is ▸ List.mem_cons_self)
      rw [answers, answer, if_neg fun both => other both.2, List.nil_append]
      exact ih fun inside => silent (List.mem_cons_of_mem _ inside)

/-- Asked for the position of the cursor, the terminal reports it, and changes nothing. -/
theorem answers_query (ground : s.mode = .ground) :
    s.answers cols [0x1b, 0x5b, 0x36, 0x6e] = s.report cols ∧
      s.write cols [0x1b, 0x5b, 0x36, 0x6e] = s := by
  obtain ⟨cells, row, col, mode⟩ := s
  cases ground
  constructor
  · show [] ++ ([] ++ ([] ++ (report cols _ ++ []))) = _
    rw [List.append_nil]
    rfl
  · rfl

/-- The screen is cleared, and the cursor goes to its first row. -/
theorem write_clear (ground : s.mode = .ground) :
    s.write cols (0x1b :: 0x5b :: ([] ++ 0x48 :: 0x1b :: 0x5b :: ([0x32] ++ 0x4a :: []))) =
      ⟨fun _ _ => blank, 0, 0, .ground⟩ := by
  have two : ∀ d ∈ [(0x32 : UInt8)], 0x30 ≤ d ∧ d ≤ 0x39 := List.forall_mem_singleton.mpr (by decide)
  have home : s.control cols none 0x48 = { s with row := 0, col := 0 } := rfl
  rw [write_control ground (write_nil _) (by decide), home,
    write_control (s := { s with row := 0, col := 0 }) ground (write_number two) (by decide), write_nil]
  cases s with
  | mk cells row col mode =>
      cases ground
      rfl

end Screen
