/-
Module: Ppcom.Spec.LineEditor
Purpose: What the line editor of `linenoise.cpp` is for: a line with a cursor and the lines of the history,
  from the one that is being entered back, of which every one can be edited. It knows nothing of memory or
  of the terminal.
Trusted boundary: human-reviewed spec
Main exports: LineEditor, LineEditor.recalled, LineEditor.press, LineEditor.turn, LineEditor.run
-/
import Ppcom.Lib.CursorLine
import Ppcom.LinenoiseEdit

namespace Ppcom

/-- The line that is edited, the entries of the history from the latest one back, and which of them the
line takes the place of. -/
structure LineEditor where
  line : CursorLine UInt8
  entries : List (List UInt8)
  index : Nat
deriving DecidableEq, Repr

/-- What a step leads to: the next one, or the end, at which the line is entered or given up. -/
inductive EditorStep where
  | next (d : LineEditor)
  | entered (d : LineEditor)
  | givenUp (d : LineEditor)
deriving DecidableEq, Repr

/-- The value that stands for an end. -/
def EditorStep.value : EditorStep → Int
  | entered d => d.line.text.length
  | _ => -1

/-- The string that stands for an end, which a NUL cuts off. -/
def EditorStep.line : EditorStep → Option (List UInt8)
  | entered d => some (cString d.line.text)
  | _ => none

def EditorStep.editor : EditorStep → LineEditor
  | next d | entered d | givenUp d => d

namespace LineEditor

/-- The editor with nothing typed yet. -/
def start (entries : List (List UInt8)) : LineEditor := ⟨.ending [], entries, 0⟩

/-- Another line. -/
def withLine (d : LineEditor) (line : CursorLine UInt8) : LineEditor := { d with line := line }

/-- The entry is as the line has it. -/
def store (d : LineEditor) : LineEditor :=
  { d with entries := d.entries.set d.index (cString d.line.text) }

/-- The line is that of entry `i`, which is cut where it would be too long. -/
def goTo (limit : Nat) (d : LineEditor) (i : Nat) : LineEditor :=
  { d with line := .ending ((d.entries.getD i []).take (limit - 1)), index := i }

/-- The next entry of the history in a direction, if there is one, after the line was stored. -/
def recalled (limit : Nat) (d : LineEditor) (dir : HistoryDir) : LineEditor :=
  if d.entries.length ≤ 1 then d
  else
    match dir with
    | .prev => if d.index + 1 < d.entries.length then goTo limit d.store (d.index + 1) else d.store
    | .next => if 0 < d.index then goTo limit d.store (d.index - 1) else d.store

/-- A byte is inserted if there is room for it. -/
def insert (limit : Nat) (d : LineEditor) (c : UInt8) : LineEditor :=
  if d.line.text.length < limit then d.withLine (d.line.insert c) else d

/-- The latest entry goes. -/
def forget (d : LineEditor) : LineEditor := { d with entries := d.entries.tail }

/-- A key, where a line has at most `limit` bytes. -/
def press (limit : Nat) (d : LineEditor) : EditKey → EditorStep
  | .enter => .entered d.forget
  | .ctrlC => .givenUp d
  | .ctrlD => if d.line.text = [] then .givenUp d.forget else .next (d.withLine d.line.delete)
  | .backspace => .next (d.withLine d.line.backspace)
  | .ctrlT => .next (d.withLine d.line.swap)
  | .left => .next (d.withLine d.line.moveLeft)
  | .right => .next (d.withLine d.line.moveRight)
  | .history dir => .next (d.recalled limit dir)
  | .delete => .next (d.withLine d.line.delete)
  | .home => .next (d.withLine d.line.home)
  | .last => .next (d.withLine d.line.last)
  | .insert c => .next (d.insert limit c)
  | .ctrlU => .next (d.withLine (.ending []))
  | .ctrlK => .next (d.withLine d.line.truncate)
  | .ctrlW => .next (d.withLine (d.line.dropWord (· == 0x20)))
  | .ctrlL | .esc | .ignored => .next d

/-! ### What is typed -/

/-- How many tabs are typed, which byte behind them, if any, and what is left to read. The first argument
bounds the bytes there are to read. -/
def readChoice : Nat → Source → Option (Nat × Option UInt8 × Source)
  | 0, _ => none
  | n + 1, src =>
      match Source.read 1 src with
      | (.data c _, src) =>
          if c = 9 then (readChoice n src).map fun (tabs, key, src) => (tabs + 1, key, src)
          else some (0, some c, src)
      | (_, src) => some (0, none, src)

/-- The completion that is shown after so many tabs; behind the last one comes the line itself. -/
def offered (cvec : List (List UInt8)) (tabs : Nat) : Option (List UInt8) :=
  cvec[tabs % (cvec.length + 1)]?

/-- The line after a completion was taken. -/
def complete (d : LineEditor) : Option (List UInt8) → LineEditor
  | some s => d.withLine (.ending s)
  | none => d

/-- What a byte stands for, with those that follow an escape character. -/
def readKey (seq : Nat → UInt8) (c : UInt8) (src : Source) : EditKey × Source :=
  if keyAction c = .esc then readEscape seq src else (keyAction c, src)

/-- A byte and what it stands for. -/
def byte (limit : Nat) (seq : Nat → UInt8) (d : LineEditor) (c : UInt8) (src : Source) :
    EditorStep × Source :=
  let (key, src) := readKey seq c src
  (d.press limit key, src)

/-- A tab, for which there are completions `cvec`. -/
def tab (limit : Nat) (seq : Nat → UInt8) (d : LineEditor) (cvec : List (List UInt8)) (src : Source) :
    Option (EditorStep × Source) :=
  if cvec = [] then some (.next d, src)
  else (readChoice (Source.size src + 1) src).map fun (tabs, key, src) =>
    match key with
    | none => (.entered d, src)
    | some c =>
        if c = 27 then d.byte limit seq c src
        else
          let d := d.complete (offered cvec tabs)
          if 0x80 ≤ c then (.entered d, src)
          else if c = 0 then (.next d, src)
          else d.byte limit seq c src

/-- A turn: a byte, or a tab where completions are offered. -/
def turn (completions : Option (List UInt8 → List (List UInt8))) (limit : Nat) (seq : Nat → UInt8)
    (d : LineEditor) (src : Source) : Option (EditorStep × Source) :=
  match Source.read 1 src with
  | (.data c _, src) =>
      match completions with
      | some completions =>
          if c = 9 then d.tab limit seq (completions (cString d.line.text)) src
          else some (d.byte limit seq c src)
      | none => some (d.byte limit seq c src)
  | (_, src) => some (.givenUp d, src)

/-- The turns up to the end. The first argument bounds their number. -/
def run (completions : Option (List UInt8 → List (List UInt8))) (limit : Nat)
    (stack : Nat → Nat → UInt8) : Nat → LineEditor → Source → Option (EditorStep × Source)
  | 0, _, _ => none
  | n + 1, d, src =>
      (d.turn completions limit (stack n) src).bind fun (step, src) =>
        match step with
        | .next d => run completions limit stack n d src
        | ended => some (ended, src)

end LineEditor

end Ppcom
