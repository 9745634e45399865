/-
Module: Ppcom.LineHistory
Purpose: The history of the line editor in `linenoise.cpp`: adding a line, limiting the number of lines,
  and saving and loading them.
Trusted boundary: memory is never short, and files are read and written without errors once they are open
Main exports: LineHistory, linenoiseHistoryAdd, linenoiseHistorySetMaxLen, linenoiseHistorySave,
  linenoiseHistoryLoad
-/
import Ppcom.CLib

namespace Ppcom

/-- `LINENOISE_MAX_LINE`. -/
def linenoiseMaxLine : Nat := 4096

/-- `LINENOISE_DEFAULT_HISTORY_MAX_LEN`. -/
def linenoiseDefaultHistoryMaxLen : Nat := 100

/-- The strings of `history`, from the oldest one on, and `history_max_len`. -/
structure LineHistory where
  lines : List (List UInt8)
  maxLen : Nat
deriving DecidableEq, Repr

namespace LineHistory

/-- The history before anything was added. -/
def initial : LineHistory := ⟨[], linenoiseDefaultHistoryMaxLen⟩

/-- `history_len`. -/
def len (h : LineHistory) : Nat := h.lines.length

end LineHistory

/-- `linenoiseHistoryAdd`, with the value returned. -/
def linenoiseHistoryAdd (h : LineHistory) (line : List UInt8) : LineHistory × Int :=
  if h.maxLen = 0 then (h, 0)
  else if h.lines.getLast? = some line then (h, 0)
  else
    -- the oldest line makes room
    let lines := if h.len = h.maxLen then h.lines.drop 1 else h.lines
    ({ h with lines := lines ++ [line] }, 1)

/-- `linenoiseHistorySetMaxLen`, with the value returned. -/
def linenoiseHistorySetMaxLen (h : LineHistory) (len : Int) : LineHistory × Int :=
  if len < 1 then (h, 0)
  else
    let tocopy := min h.len len.toNat
    (⟨h.lines.drop (h.len - tocopy), len.toNat⟩, 1)

/-! ### The file -/

/-- What `linenoiseHistorySave` writes. -/
def historyText (lines : List (List UInt8)) : List UInt8 :=
  lines.flatMap (· ++ [0x0a])

/-- `linenoiseHistorySave`: what the file holds afterwards, where `fopen` opens it, and the value
returned. -/
def linenoiseHistorySave (h : LineHistory) (opened : Bool) : Option (List UInt8) × Int :=
  if opened then (some (historyText h.lines), 0) else (none, -1)

/-- The bytes that `fgets` stores before its terminator, where there is room for `n`, and those that it
leaves. -/
def fgetsLine : Nat → List UInt8 → List UInt8 × List UInt8
  | 0, bytes => ([], bytes)
  | _, [] => ([], [])
  | n + 1, c :: rest =>
      if c = 0x0a then ([c], rest)
      else (c :: (fgetsLine n rest).1, (fgetsLine n rest).2)

/-- `fgets` into a block of `size` bytes. -/
def fgets (size : Nat) (bytes : List UInt8) : Option (List UInt8 × List UInt8) :=
  if bytes = [] then none else some (fgetsLine (size - 1) bytes)

/-- The string that a line of the file is cut to before it is added. -/
def cutLine (buf : List UInt8) : List UInt8 :=
  let s := cString buf
  if 0x0d ∈ s then s.takeWhile (· != 0x0d) else s.takeWhile (· != 0x0a)

/-- The loop of `linenoiseHistoryLoad`. The first argument bounds the lines there are to read. -/
def historyLoadLoop : Nat → LineHistory → List UInt8 → LineHistory
  | 0, h, _ => h
  | n + 1, h, bytes =>
      match fgets linenoiseMaxLine bytes with
      | none => h
      | some (buf, rest) => historyLoadLoop n (linenoiseHistoryAdd h (cutLine buf)).1 rest

/-- `linenoiseHistoryLoad` of a file that holds `file`, if it is there, with the value returned. -/
def linenoiseHistoryLoad (h : LineHistory) (file : Option (List UInt8)) : LineHistory × Int :=
  match file with
  | none => (h, -1)
  | some bytes => (historyLoadLoop (bytes.length + 1) h bytes, 0)

end Ppcom
