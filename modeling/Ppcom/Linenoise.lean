/-
Module: Ppcom.Linenoise
Purpose: The state of the line editor in `linenoise.cpp` and what its functions do to it: the buffer with
  the moves inside it, the history entry that is edited, and what is written to the terminal. A function
  gives nothing where it would read or store outside a block of memory.
Trusted boundary: the writes to the terminal are complete, and memory is never short
Main exports: Linenoise, refreshSingleLine, linenoiseEditInsert, linenoiseEditHistoryNext,
  linenoiseEditDelete, linenoiseEditBackspace, linenoiseEditDeletePrevWord
-/
import Ppcom.Lib.Block
import Ppcom.LineHistory
import Ppcom.LogName

namespace Ppcom

/-! ### Numbers -/

/-- `m + n` of two `size_t`. -/
def sizeAdd (m n : Nat) : Nat := (m + n) % 2 ^ 64

/-- `m - n` of two `size_t`. -/
def sizeSub (m n : Nat) : Nat := if n ≤ m then m - n else 2 ^ 64 + m - n

/-- A number as `%d` prints it. -/
def printInt (x : Int) : List UInt8 :=
  if x < 0 then 0x2d :: decimal 1 x.natAbs else decimal 1 x.toNat

/-! ### Strings in a block -/

/-- `strdup` of a block, which has to hold a terminator. -/
def strdup (block : List UInt8) : Option (List UInt8) :=
  if 0 ∈ block then some (cString block) else none

/-- What `strncpy` stores. -/
def strncpyBytes (s : List UInt8) (n : Nat) : List UInt8 := (s ++ List.replicate n 0).take n

/-- What `snprintf` with `%s` stores. -/
def snprintfBytes (s : List UInt8) (n : Nat) : List UInt8 :=
  if n = 0 then [] else s.take (n - 1) ++ [0]

/-! ### The state -/

/-- A `struct linenoiseState`, in single line mode, with the history, what was written to the terminal and
how often the bell was rung. `buf` is the block at `l->buf`. -/
structure Linenoise where
  buf : List UInt8
  buflen : Nat
  prompt : List UInt8
  plen : Nat
  pos : Nat
  len : Nat
  cols : Nat
  historyIndex : Int
  history : LineHistory
  out : List UInt8
  beeps : Nat
deriving DecidableEq, Repr

namespace Linenoise

def write (l : Linenoise) (bytes : List UInt8) : Linenoise := { l with out := l.out ++ bytes }

/-- `linenoiseBeep`. -/
def beep (l : Linenoise) : Linenoise := { l with beeps := l.beeps + 1 }

end Linenoise

/-! ### Showing the line -/

/-- What `refreshSingleLine` shows of the line: `buf - l->buf`, `len` and `pos`. -/
structure LineView where
  skipped : Nat
  len : Nat
  pos : Nat
deriving DecidableEq, Repr

/-- The first loop of `refreshSingleLine`. The first argument bounds its turns. -/
def scrollView (plen cols : Nat) : Nat → LineView → Option LineView
  | 0, _ => none
  | n + 1, v =>
      if cols ≤ sizeAdd plen v.pos then
        scrollView plen cols n ⟨v.skipped + 1, sizeSub v.len 1, sizeSub v.pos 1⟩
      else some v

/-- The second loop of `refreshSingleLine`, on `len`. The first argument bounds its turns. -/
def clipLen (plen cols : Nat) : Nat → Nat → Nat
  | 0, len => len
  | n + 1, len => if cols < sizeAdd plen len then clipLen plen cols n (sizeSub len 1) else len

/-- What `refreshSingleLine` writes for a prompt, a text and a column. -/
def refreshBytes (prompt text : List UInt8) (col : Int) : List UInt8 :=
  ascii "\r" ++ prompt ++ text ++ (0x1b :: ascii "[0K") ++
    (ascii "\r" ++ (0x1b :: ascii "[") ++ printInt col ++ ascii "C")

/-- `refreshSingleLine`. -/
def refreshSingleLine (l : Linenoise) : Option Linenoise := do
  let plen := l.prompt.length
  let v ← scrollView plen l.cols (sizeAdd plen l.pos + 1) ⟨0, l.len, l.pos⟩
  let len := clipLen plen l.cols (sizeAdd plen v.len) v.len
  -- the argument of `abAppend` is an `int`
  let len := toInt len
  if len < 0 then none
  else do
    let text ← Block.read l.buf v.skipped len.toNat
    some (l.write (refreshBytes l.prompt text (toInt (sizeAdd v.pos plen))))

/-! ### Editing -/

/-- `linenoiseEditInsert`. -/
def linenoiseEditInsert (l : Linenoise) (c : UInt8) : Option Linenoise :=
  if l.len < l.buflen then
    if l.len = l.pos then do
      let buf ← Block.write l.buf l.pos [c]
      let buf ← Block.write buf (l.len + 1) [0]
      let l := { l with buf := buf, pos := l.pos + 1, len := l.len + 1 }
      if sizeAdd l.plen l.len < l.cols then some (l.write [c]) else refreshSingleLine l
    else do
      let buf ← Block.move l.buf (l.pos + 1) l.pos (sizeSub l.len l.pos)
      let buf ← Block.write buf l.pos [c]
      let buf ← Block.write buf (l.len + 1) [0]
      refreshSingleLine { l with buf := buf, pos := l.pos + 1, len := l.len + 1 }
  else some l

/-- `linenoiseEditMoveLeft`. -/
def linenoiseEditMoveLeft (l : Linenoise) : Option Linenoise :=
  if 0 < l.pos then refreshSingleLine { l with pos := l.pos - 1 } else some l

/-- `linenoiseEditMoveRight`. -/
def linenoiseEditMoveRight (l : Linenoise) : Option Linenoise :=
  if l.pos ≠ l.len then refreshSingleLine { l with pos := l.pos + 1 } else some l

/-- `linenoiseEditMoveHome`. -/
def linenoiseEditMoveHome (l : Linenoise) : Option Linenoise :=
  if l.pos ≠ 0 then refreshSingleLine { l with pos := 0 } else some l

/-- `linenoiseEditMoveEnd`. -/
def linenoiseEditMoveEnd (l : Linenoise) : Option Linenoise :=
  if l.pos ≠ l.len then refreshSingleLine { l with pos := l.len } else some l

/-- `LINENOISE_HISTORY_NEXT` and `LINENOISE_HISTORY_PREV`. -/
inductive HistoryDir where
  | next
  | prev
deriving DecidableEq, Repr

/-- `history[i]`, for an index that may lie outside. -/
def historyAt (lines : List (List UInt8)) (i : Int) : Option (List UInt8) :=
  if i < 0 then none else lines[i.toNat]?

/-- The end of `linenoiseEditHistoryNext`: the line is replaced by entry `index` of the history. -/
def showEntry (l : Linenoise) (index : Int) : Option Linenoise := do
  let line ← historyAt l.history.lines (l.history.len - 1 - index)
  let buf ← Block.write l.buf 0 (strncpyBytes line l.buflen)
  let buf ← Block.write buf (sizeSub l.buflen 1) [0]
  let text ← strdup buf
  refreshSingleLine { l with
    buf := buf, historyIndex := index, len := text.length, pos := text.length }

/-- `linenoiseEditHistoryNext`. -/
def linenoiseEditHistoryNext (l : Linenoise) (dir : HistoryDir) : Option Linenoise :=
  if 1 < l.history.len then do
    let entry := l.history.len - 1 - l.historyIndex
    let _ ← historyAt l.history.lines entry
    let line ← strdup l.buf
    let l := { l with history := { l.history with lines := l.history.lines.set entry.toNat line } }
    let index := l.historyIndex + (if dir = .prev then 1 else -1)
    if index < 0 then some { l with historyIndex := 0 }
    else if l.history.len ≤ index then some { l with historyIndex := l.history.len - 1 }
    else showEntry l index
  else some l

/-- `linenoiseEditDelete`. -/
def linenoiseEditDelete (l : Linenoise) : Option Linenoise :=
  if 0 < l.len ∧ l.pos < l.len then do
    let buf ← Block.move l.buf l.pos (l.pos + 1) (l.len - l.pos - 1)
    let buf ← Block.write buf (l.len - 1) [0]
    refreshSingleLine { l with buf := buf, len := l.len - 1 }
  else some l

/-- `linenoiseEditBackspace`. -/
def linenoiseEditBackspace (l : Linenoise) : Option Linenoise :=
  if 0 < l.pos ∧ 0 < l.len then do
    let buf ← Block.move l.buf (l.pos - 1) l.pos (sizeSub l.len l.pos)
    let buf ← Block.write buf (l.len - 1) [0]
    refreshSingleLine { l with buf := buf, pos := l.pos - 1, len := l.len - 1 }
  else some l

/-- A loop of `linenoiseEditDeletePrevWord`: `pos` goes down behind bytes that meet the condition. -/
def skipBack (meets : UInt8 → Bool) (buf : List UInt8) : Nat → Option Nat
  | 0 => some 0
  | pos + 1 =>
      match buf[pos]? with
      | none => none
      | some c => if meets c then skipBack meets buf pos else some (pos + 1)

/-- `linenoiseEditDeletePrevWord`. -/
def linenoiseEditDeletePrevWord (l : Linenoise) : Option Linenoise := do
  let oldPos := l.pos
  let pos ← skipBack (· == 0x20) l.buf l.pos
  let pos ← skipBack (· != 0x20) l.buf pos
  let diff := oldPos - pos
  let buf ← Block.move l.buf pos oldPos (sizeAdd (sizeSub l.len oldPos) 1)
  refreshSingleLine { l with buf := buf, pos := pos, len := sizeSub l.len diff }

/-- The case `CTRL_T` of `linenoiseEdit`: the bytes before and at the cursor change places. -/
def swapChars (l : Linenoise) : Option Linenoise :=
  if 0 < l.pos ∧ l.pos < l.len then do
    let before ← l.buf[l.pos - 1]?
    let here ← l.buf[l.pos]?
    let buf ← Block.write l.buf (l.pos - 1) [here]
    let buf ← Block.write buf l.pos [before]
    refreshSingleLine { l with buf := buf, pos := if l.pos ≠ l.len - 1 then l.pos + 1 else l.pos }
  else some l

/-- The case `CTRL_U`: the whole line is deleted. -/
def deleteLine (l : Linenoise) : Option Linenoise := do
  let buf ← Block.write l.buf 0 [0]
  refreshSingleLine { l with buf := buf, pos := 0, len := 0 }

/-- The case `CTRL_K`: the line is deleted from the cursor on. -/
def deleteTail (l : Linenoise) : Option Linenoise := do
  let buf ← Block.write l.buf l.pos [0]
  refreshSingleLine { l with buf := buf, len := l.pos }

/-- `linenoiseClearScreen`. -/
def linenoiseClearScreen (l : Linenoise) : Linenoise :=
  l.write ((0x1b :: ascii "[H") ++ (0x1b :: ascii "[2J"))

/-- The last history entry is freed. -/
def dropEntry (l : Linenoise) : Option Linenoise :=
  if l.history.lines = [] then none
  else some { l with history := { l.history with lines := l.history.lines.dropLast } }

end Ppcom
