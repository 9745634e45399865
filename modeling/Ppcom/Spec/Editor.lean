/-
Module: Ppcom.Spec.Editor
Purpose: The line editor that a prompt is: the bytes held, what each byte that is typed does to them, and
  how they look on the terminal. It knows nothing of buffers, pointers or cursor movements. What it has
  to do with those of `fd_readline` is `Agrees`.
Trusted boundary: human-reviewed spec
Main exports: Editor, Editor.key, edited, rendering, Source.typed, Holding, Agrees
-/
import Ppcom.Lib.TextRow
import Ppcom.Readline

namespace Ppcom

/-- A line that is being edited, is finished, or was given up. -/
inductive Editor where
  | editing (held : List UInt8)
  | finished (held : List UInt8)
  | aborted (held : List UInt8)
deriving DecidableEq, Repr

namespace Editor

/-- The bytes held. -/
def held : Editor → List UInt8
  | editing held | finished held | aborted held => held

/-- The line, once it is finished. -/
def line : Editor → Option (List UInt8)
  | finished held => some held
  | _ => none

/-- One byte typed, where a line has at most `limit` bytes: backspace and delete remove the last byte,
carriage return finishes the line and control-C gives it up. -/
def key (limit : Nat) : Editor → UInt8 → Editor
  | editing held, c =>
      if c = 0x08 ∨ c = 0x7f then editing held.dropLast
      else if c = 0x03 then aborted held
      else if c = 0x0d then finished held
      else if held.length < limit then editing (held ++ [c])
      else editing held
  | ended, _ => ended

end Editor

/-- The editor after the bytes typed. -/
def edited (limit : Nat) (typed : List UInt8) : Editor :=
  typed.foldl (Editor.key limit) (.editing [])

/-- A digit of a byte shown in hexadecimal. -/
def hexDigit (n : Nat) : UInt8 := (ascii "0123456789abcdef").getD n 0

/-- How a byte is shown. -/
def renderByte (c : UInt8) : List UInt8 :=
  if 0x20 ≤ c ∧ c ≤ 0x7e then [c]
  else ascii "\\x" ++ [hexDigit (c.toNat / 16), hexDigit (c.toNat % 16)]

/-- How the bytes held are shown. -/
def rendering (held : List UInt8) : List UInt8 := held.flatMap renderByte

/-- The bytes that edit no line: they are held, if there is room. -/
def Ordinary (c : UInt8) : Prop := ¬ (c = 0x08 ∨ c = 0x7f) ∧ c ≠ 0x03 ∧ c ≠ 0x0d

/-- The bytes that can be read before the input ends or fails. -/
def Source.typed : Source → List UInt8
  | .data first rest :: later => first :: (rest ++ Source.typed later)
  | _ => []

/-! ### The editor and the variables of `fd_readline` -/

section

variable (b : Nat → UInt8) (bsz : Nat) (row : TextRow) (prompt : List UInt8)

/-- The buffer holds the bytes held, no store left it, and the row shows them behind the prompt. -/
structure Holding (held : List UInt8) (l : Readline) : Prop where
  count : l.bp = held.length
  room : held.length ≤ bsz - 1
  kept : ∀ i c, held[i]? = some c → Stores.apply b l.stores i = c
  within : ∀ store ∈ l.stores, store.1 < bsz
  text : (row.write l.echo).Shows (prompt ++ rendering held)

/-- What `fd_readline` is to do where the editor is: go on, return the number of bytes of the finished
line, behind which there is a NUL in the buffer, or return -1. -/
inductive Agrees : Editor → ReadlineTurn → Prop where
  | editing {held : List UInt8} {l : Readline} (holds : Holding b bsz row prompt held l) :
      Agrees (.editing held) (.next l)
  | finished {held : List UInt8} {l : Readline} (holds : Holding b bsz row prompt held l)
      (terminated : Stores.apply b l.stores held.length = 0) :
      Agrees (.finished held) (.out held.length l)
  | aborted {held : List UInt8} {l : Readline} (holds : Holding b bsz row prompt held l) :
      Agrees (.aborted held) (.out (-1) l)

end

end Ppcom
