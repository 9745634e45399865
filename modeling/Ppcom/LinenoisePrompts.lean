/-
Module: Ppcom.LinenoisePrompts
Purpose: The prompts of `ppcom.cpp` where it is built with the line editor of `linenoise.cpp`, and the
  history that they share, with its file. A string that was freed is not read: what would do so gives
  nothing.
Trusted boundary: what is written around the line is left out; memory is never short
Main exports: LineCall, LinePrompts, initHistory, addHistory, readFilenameLine, readBaudLine, readHexLine
-/
import Ppcom.Completion
import Ppcom.LinenoiseEdit

namespace Ppcom

/-- What a call of `linenoise` finds: what is in `buf` and in `seq`, and the columns of the terminal. -/
structure LineCall where
  buf : List UInt8
  stack : Nat → Nat → UInt8
  cols : Nat
  size : buf.length = linenoiseMaxLine

/-- The history, what the history file holds, if it is there, and whether there is a path to it and it can
be opened for writing. -/
structure LinePrompts where
  history : LineHistory
  file : Option (List UInt8)
  hasPath : Bool
  opened : Bool
deriving DecidableEq, Repr

/-- A `char *` that is freed once: what it points to. -/
inductive HeapString where
  | null
  | held (s : List UInt8)
  | freed
deriving DecidableEq, Repr

namespace HeapString

/-- What `linenoise` returns. -/
def returned : Option (List UInt8) → HeapString
  | none => null
  | some s => held s

/-- The string is read. -/
def read : HeapString → Option (List UInt8)
  | held s => some s
  | null | freed => none

/-- `free`. -/
def free : HeapString → HeapString
  | null => null
  | held _ | freed => freed

end HeapString

/-! ### The history -/

/-- `HISTFILE`. -/
def histfile : List UInt8 := ascii ".ppcom_history"

/-- The path that `init_history` makes of the variable `HOME`. The byte before an empty string is outside of
it. -/
def historyFilePath (homeDirectory : List UInt8) : Option (List UInt8) :=
  match homeDirectory.getLast? with
  | none => none
  | some c => some (homeDirectory ++ (if c ≠ 0x2f then [0x2f] else []) ++ histfile)

/-- `init_history`, where `files` has what is read at a path. -/
def initHistory (home : Option (List UInt8)) (files : List UInt8 → Option (List UInt8)) (opened : Bool)
    (h : LineHistory) : Option LinePrompts :=
  match home with
  | none => some ⟨h, none, false, opened⟩
  | some homeDirectory =>
      (historyFilePath homeDirectory).map fun path =>
        ⟨(linenoiseHistoryLoad h (files path)).1, files path, true, opened⟩

/-- `add_history`. -/
def addHistory (s : LinePrompts) (fname : List UInt8) : LinePrompts :=
  let s := { s with history := (linenoiseHistoryAdd s.history fname).1 }
  if s.hasPath then
    match (linenoiseHistorySave s.history s.opened).1 with
    | some text => { s with file := some text }
    | none => s
  else s

/-! ### Prompts -/

/-- A call of `linenoise` with a prompt. -/
def LinePrompts.ask (s : LinePrompts) (call : LineCall) (complete : Option (List UInt8 → List (List UInt8)))
    (prompt : List UInt8) (src : Source) : Option (HeapString × LinePrompts × Source) :=
  (linenoise complete call.stack s.history call.buf prompt call.cols src).map fun (line, l, src) =>
    (.returned line, { s with history := l.history }, src)

/-- `read_filename`, with `file_completion_cb` for completions. -/
def readFilenameLine (complete : List UInt8 → List (List UInt8)) (call : LineCall) (s : LinePrompts)
    (src : Source) : Option (HeapString × LinePrompts × Source) :=
  (s.ask call (some complete) (ascii "*** file: ") src).map fun (fname, s, src) =>
    match fname with
    | .held name => (fname, addHistory s name, src)
    | _ => (fname, s, src)

/-- The `do` loop of `read_baud`. The first argument bounds the lines there are to read. -/
def readBaudLineLoop (plat : Platform) (calls : Nat → LineCall) :
    Nat → Int → LinePrompts → Source → Option (Int × HeapString × LinePrompts × Source)
  | 0, _, _, _ => none
  | n + 1, baud, s, src =>
      (s.ask (calls n) none (ascii "*** baud: ") src).bind fun (baudstr, s, src) =>
        match baudstr.read with
        | none => some (baud, baudstr, s, src)
        | some line =>
            let baud := baudOfLine plat line
            let baudstr := baudstr.free
            if baud < 0 then readBaudLineLoop plat calls n baud s src else some (baud, baudstr, s, src)

/-- `read_baud`. -/
def readBaudLine (plat : Platform) (calls : Nat → LineCall) (s : LinePrompts) (src : Source) :
    Option (Int × LinePrompts × Source) :=
  (readBaudLineLoop plat calls (Source.size src + 1) (-1) s src).bind fun (baud, baudstr, s, src) =>
    if baudstr ≠ .null then baudstr.read.map fun line => (baud, addHistory s line, src)
    else some (baud, s, src)

/-- The `do` loop of `read_hex`. The first argument bounds the lines there are to read. -/
def readHexLineLoop (sz : Nat) (calls : Nat → LineCall) :
    Nat → LinePrompts → Source → Option (List UInt8 × LinePrompts × Source)
  | 0, _, _ => none
  | n + 1, s, src =>
      (s.ask (calls n) none (ascii "*** hex: ") src).bind fun (hexstr, s, src) =>
        match hexstr.read with
        | none => some ([], s, src)
        | some line =>
            match hex2bin sz line with
            | none => readHexLineLoop sz calls n s src
            | some buff => some (buff, s, src)

/-- `read_hex`: the bytes that it stores. -/
def readHexLine (sz : Nat) (calls : Nat → LineCall) (s : LinePrompts) (src : Source) :
    Option (List UInt8 × LinePrompts × Source) :=
  readHexLineLoop sz calls (Source.size src + 1) s src

end Ppcom
