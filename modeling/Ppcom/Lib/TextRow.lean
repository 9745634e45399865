/-
Module: Ppcom.Lib.TextRow
Purpose: The row of a terminal that text is written to: its cells, the cursor, and what printable bytes
  and backspaces do to them. A text that is shown is extended by what is written behind it, and is
  what it was before once that much is wiped out again.
Trusted boundary: human-reviewed spec
Main exports: TextRow, TextRow.write, TextRow.Shows, TextRow.Shows.append, TextRow.Shows.wipe
-/
import Mathlib.Data.List.Basic
import Mathlib.Logic.Function.Basic

/-- The cells of a row from the left, and the cell that the cursor is at. The row is as long as the
text needs it to be. -/
structure TextRow where
  cells : Nat → UInt8
  cursor : Nat

namespace TextRow

/-- The backspace, which moves the cursor. -/
def backspace : UInt8 := 0x08

/-- What an empty cell shows. -/
def blank : UInt8 := 0x20

/-- The bytes that take a cell. -/
def Printable (c : UInt8) : Prop := 0x20 ≤ c ∧ c ≤ 0x7e

instance (c : UInt8) : Decidable (Printable c) := by
  unfold Printable; infer_instance

/-- A printable byte goes to the cell at the cursor, a backspace moves the cursor to the left, and
other bytes, such as the bell, change nothing on the row. -/
def put (row : TextRow) (c : UInt8) : TextRow :=
  if Printable c then
    { cells := Function.update row.cells row.cursor c, cursor := row.cursor + 1 }
  else if c = backspace then { row with cursor := row.cursor - 1 }
  else row

def write (row : TextRow) (bytes : List UInt8) : TextRow := bytes.foldl put row

/-- The row shows the text and nothing else, and the cursor is behind it. -/
structure Shows (row : TextRow) (text : List UInt8) : Prop where
  cells : ∀ i, row.cells i = (text[i]?).getD blank
  cursor : row.cursor = text.length

@[simp] theorem write_nil (row : TextRow) : row.write [] = row := rfl

@[simp] theorem write_cons (row : TextRow) (c : UInt8) (bytes : List UInt8) :
    row.write (c :: bytes) = (row.put c).write bytes := rfl

theorem write_append (row : TextRow) (bytes more : List UInt8) :
    row.write (bytes ++ more) = (row.write bytes).write more := by
  simp [write]

theorem put_printable {c : UInt8} (printable : Printable c) (row : TextRow) :
    row.put c = { cells := Function.update row.cells row.cursor c, cursor := row.cursor + 1 } :=
  if_pos printable

theorem put_backspace (row : TextRow) :
    row.put backspace = { row with cursor := row.cursor - 1 } := by
  have control : ¬ Printable backspace := by decide
  unfold put
  rw [if_neg control, if_pos rfl]

theorem write_backspaces (row : TextRow) (n : Nat) :
    row.write (List.replicate n backspace) = { row with cursor := row.cursor - n } := by
  induction n generalizing row with
  | zero => rfl
  | succ n ih =>
      rw [List.replicate_succ, write_cons, put_backspace, ih]
      congr 1
      simp only
      omega

theorem write_blanks (row : TextRow) (n : Nat) :
    row.write (List.replicate n blank) =
      { cells := fun i => if row.cursor ≤ i ∧ i < row.cursor + n then blank else row.cells i
        cursor := row.cursor + n } := by
  induction n generalizing row with
  | zero =>
      cases row with
      | mk cells cursor =>
          simp only [List.replicate_zero, write_nil, Nat.add_zero, TextRow.mk.injEq, and_true]
          funext i
          rw [if_neg (by omega)]
  | succ n ih =>
      have printable : Printable blank := by decide
      rw [List.replicate_succ, write_cons, put_printable printable, ih]
      simp only [TextRow.mk.injEq]
      refine ⟨?_, by omega⟩
      funext i
      by_cases first : i = row.cursor
      · subst first
        rw [if_neg (by omega), if_pos (by omega)]
        exact Function.update_self _ _ _
      · rw [Function.update_of_ne first]
        by_cases later : row.cursor + 1 ≤ i ∧ i < row.cursor + 1 + n
        · rw [if_pos later, if_pos (by omega)]
        · rw [if_neg later, if_neg (by omega)]

/-- What is written behind a text is shown behind it. -/
theorem Shows.append {row : TextRow} {text : List UInt8} (shown : row.Shows text)
    {bytes : List UInt8} (printable : ∀ c ∈ bytes, Printable c) :
    (row.write bytes).Shows (text ++ bytes) := by
  induction bytes generalizing row text with
  | nil => simpa using shown
  | cons c bytes ih =>
      have first : (row.put c).Shows (text ++ [c]) := by
        rw [put_printable (printable c (by simp))]
        refine ⟨fun i => ?_, by simp [shown.cursor]⟩
        rw [shown.cursor]
        show Function.update row.cells text.length c i = _
        by_cases here : i = text.length
        · subst here
          simp
        · rw [Function.update_of_ne here, shown.cells]
          rcases Nat.lt_or_gt_of_ne here with before | behind
          · rw [List.getElem?_append_left before]
          · rw [List.getElem?_eq_none (Nat.le_of_lt behind),
              List.getElem?_eq_none (by rw [List.length_append, List.length_singleton]; omega)]
      have later := ih first fun d member => printable d (List.mem_cons_of_mem c member)
      rwa [List.append_assoc] at later

/-- The end of a text is wiped out by going back over it, writing blanks, and going back again. -/
theorem Shows.wipe {row : TextRow} {text last : List UInt8} (shown : row.Shows (text ++ last)) :
    (row.write (List.replicate last.length backspace ++ List.replicate last.length blank ++
      List.replicate last.length backspace)).Shows text := by
  have start : row.cursor - last.length = text.length := by
    rw [shown.cursor, List.length_append]
    omega
  rw [write_append, write_append, write_backspaces, write_blanks, write_backspaces]
  refine ⟨fun i => ?_, by simp only [start]; omega⟩
  simp only [start]
  by_cases wiped : text.length ≤ i ∧ i < text.length + last.length
  · rw [if_pos wiped, List.getElem?_eq_none wiped.1]
    rfl
  · rw [if_neg wiped, shown.cells]
    rcases Nat.lt_or_ge i text.length with before | behind
    · rw [List.getElem?_append_left before]
    · rw [List.getElem?_eq_none behind,
        List.getElem?_eq_none (by rw [List.length_append]; omega)]

end TextRow
