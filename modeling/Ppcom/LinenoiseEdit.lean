/-
Module: Ppcom.LinenoiseEdit
Purpose: The loop of the line editor in `linenoise.cpp`: the bytes it reads, the completions it offers, the
  `switch` on what was typed, and `linenoise` over it.
Trusted boundary: standard input is a terminal that raw mode can be set for, and the same text has the same
  completions each time
Main exports: EditKey, keyAction, readEscape, completeLine, Linenoise.press, editTurn, linenoiseEdit,
  linenoise
-/
import Ppcom.Input
import Ppcom.Linenoise

namespace Ppcom

/-! ### Keys -/

/-- The cases of the `switch` in `linenoiseEdit`, with what the escape sequences stand for; `ignored` is
one that has no case. -/
inductive EditKey where
  | enter
  | ctrlC
  | backspace
  | ctrlD
  | ctrlT
  | left
  | right
  | history (dir : HistoryDir)
  | esc
  | delete
  | home
  | last
  | insert (c : UInt8)
  | ctrlU
  | ctrlK
  | ctrlL
  | ctrlW
  | ignored
deriving DecidableEq, Repr

/-- The case of a byte. -/
def keyAction (c : UInt8) : EditKey :=
  if c = 13 then .enter
  else if c = 3 then .ctrlC
  else if c = 127 ∨ c = 8 then .backspace
  else if c = 4 then .ctrlD
  else if c = 20 then .ctrlT
  else if c = 2 then .left
  else if c = 6 then .right
  else if c = 16 then .history .prev
  else if c = 14 then .history .next
  else if c = 27 then .esc
  else if c = 21 then .ctrlU
  else if c = 11 then .ctrlK
  else if c = 1 then .home
  else if c = 5 then .last
  else if c = 12 then .ctrlL
  else if c = 23 then .ctrlW
  else .insert c

/-- A `read` into `seq[i]`, which holds `old`: what it holds then, or `none` where the value is -1. -/
def readSeq (old : UInt8) (src : Source) : Option UInt8 × Source :=
  match Source.read 1 src with
  | (.data c _, src) => (some c, src)
  | (.zero, src) => (some old, src)
  | (_, src) => (none, src)

/-- The key of the sequence ESC [ and a byte that is no digit. -/
def bracketKey (c : UInt8) : EditKey :=
  if c = 0x41 then .history .prev
  else if c = 0x42 then .history .next
  else if c = 0x43 then .right
  else if c = 0x44 then .left
  else if c = 0x48 then .home
  else if c = 0x46 then .last
  else .ignored

/-- The bytes behind an escape character, and the key that they make; `seq` is what the block of that name
holds before. -/
def readEscape (seq : Nat → UInt8) (src : Source) : EditKey × Source :=
  match readSeq (seq 0) src with
  | (none, src) => (.ignored, src)
  | (some seq0, src) =>
      match readSeq (seq 1) src with
      | (none, src) => (.ignored, src)
      | (some seq1, src) =>
          if seq0 = 0x5b then
            if 0x30 ≤ seq1 ∧ seq1 ≤ 0x39 then
              match readSeq (seq 2) src with
              | (none, src) => (.ignored, src)
              | (some seq2, src) =>
                  (if seq2 = 0x7e ∧ seq1 = 0x33 then .delete else .ignored, src)
            else (bracketKey seq1, src)
          else if seq0 = 0x4f then
            (if seq1 = 0x48 then .home else if seq1 = 0x46 then .last else .ignored, src)
          else (.ignored, src)

/-! ### Completions -/

/-- The value of a `char`. -/
def charValue (c : UInt8) : Int := if c < 0x80 then c.toNat else (c.toNat : Int) - 256

/-- A completion is shown in place of the line. -/
def showCompletion (l : Linenoise) (s : List UInt8) : Option Linenoise :=
  (refreshSingleLine { l with buf := s ++ [0], len := s.length, pos := s.length }).map fun shown =>
    { l with out := shown.out }

/-- A completion is put into the buffer. -/
def acceptCompletion (l : Linenoise) (s : List UInt8) : Option Linenoise :=
  (Block.write l.buf 0 (snprintfBytes s l.buflen)).map fun buf =>
    { l with buf := buf, len := s.length, pos := s.length }

/-- Completion `i` is shown, or the line itself behind the last one. -/
def showChoice (cvec : List (List UInt8)) (i : Nat) (l : Linenoise) : Option Linenoise :=
  match cvec[i]? with
  | some s => showCompletion l s
  | none => refreshSingleLine l

/-- Completion `i` is put into the buffer, where there is one. -/
def acceptChoice (cvec : List (List UInt8)) (i : Nat) (l : Linenoise) : Option Linenoise :=
  match cvec[i]? with
  | some s => acceptCompletion l s
  | none => some l

/-- The loop of `completeLine`, at completion `i`. The first argument bounds the bytes there are to
read. -/
def completeLoop (cvec : List (List UInt8)) :
    Nat → Nat → Linenoise → Source → Option (Int × Linenoise × Source)
  | 0, _, _, _ => none
  | n + 1, i, l, src =>
      (showChoice cvec i l).bind fun l =>
      match Source.read 1 src with
      | (.data c _, src) =>
          if c = 9 then
            let i := (i + 1) % (cvec.length + 1)
            completeLoop cvec n i (if i = cvec.length then l.beep else l) src
          else if c = 27 then
            (if i < cvec.length then refreshSingleLine l else some l).map fun l => (27, l, src)
          else (acceptChoice cvec i l).map fun l => (charValue c, l, src)
      | (_, src) => some (-1, l, src)

/-- `completeLine`, where `complete` is the function registered for completions. -/
def completeLine (complete : List UInt8 → List (List UInt8)) (l : Linenoise) (src : Source) :
    Option (Int × Linenoise × Source) := do
  let text ← strdup l.buf
  match complete text with
  | [] => some (0, l.beep, src)
  | s :: rest => completeLoop (s :: rest) (Source.size src + 1) 0 l src

/-! ### The loop -/

/-- What a key leads to: the next turn, or the end with the value returned. -/
inductive Pressed where
  | next (l : Linenoise)
  | ret (r : Int) (l : Linenoise)
deriving DecidableEq, Repr

/-- The `switch` for a key. -/
def Linenoise.press (l : Linenoise) : EditKey → Option Pressed
  | .enter => (dropEntry l).map fun l => .ret (toInt l.len) l
  | .ctrlC => some (.ret (-1) l)
  | .backspace => (linenoiseEditBackspace l).map .next
  | .ctrlD =>
      if 0 < l.len then (linenoiseEditDelete l).map .next
      else (dropEntry l).map fun l => .ret (-1) l
  | .ctrlT => (swapChars l).map .next
  | .left => (linenoiseEditMoveLeft l).map .next
  | .right => (linenoiseEditMoveRight l).map .next
  | .history dir => (linenoiseEditHistoryNext l dir).map .next
  | .delete => (linenoiseEditDelete l).map .next
  | .home => (linenoiseEditMoveHome l).map .next
  | .last => (linenoiseEditMoveEnd l).map .next
  | .insert c => (linenoiseEditInsert l c).map .next
  | .ctrlU => (deleteLine l).map .next
  | .ctrlK => (deleteTail l).map .next
  | .ctrlL => (refreshSingleLine (linenoiseClearScreen l)).map .next
  | .ctrlW => (linenoiseEditDeletePrevWord l).map .next
  | .esc | .ignored => some (.next l)

/-- What a turn leads to, with what is left to read. -/
inductive EditTurn where
  | next (l : Linenoise) (src : Source)
  | ret (r : Int) (l : Linenoise) (src : Source)
deriving DecidableEq, Repr

def Pressed.turn (src : Source) : Pressed → EditTurn
  | .next l => .next l src
  | .ret r l => .ret r l src

/-- The `switch` for a byte; `seq` is what the block of that name holds. -/
def switchByte (seq : Nat → UInt8) (l : Linenoise) (c : UInt8) (src : Source) : Option EditTurn :=
  match keyAction c with
  | .esc =>
      let (key, src) := readEscape seq src
      (l.press key).map (Pressed.turn src)
  | key => (l.press key).map (Pressed.turn src)

/-- A turn of the `while (1)` in `linenoiseEdit`; `complete` is the function registered for completions. -/
def editTurn (complete : Option (List UInt8 → List (List UInt8))) (seq : Nat → UInt8) (l : Linenoise)
    (src : Source) : Option EditTurn :=
  match Source.read 1 src with
  | (.data c _, src) =>
      match complete with
      | some complete =>
          if c = 9 then
            (completeLine complete l src).bind fun (r, l, src) =>
              let c := UInt8.ofInt r
              -- a negative `char`
              if 0x80 ≤ c then some (.ret (toInt l.len) l src)
              else if c = 0 then some (.next l src)
              else switchByte seq l c src
          else switchByte seq l c src
      | none => switchByte seq l c src
  | (_, src) => some (.ret (-1) l src)

/-- The loop. The first argument bounds its turns; `stack` is what the block `seq` holds in each. -/
def editLoop (complete : Option (List UInt8 → List (List UInt8))) (stack : Nat → Nat → UInt8) :
    Nat → Linenoise → Source → Option (Int × Linenoise × Source)
  | 0, _, _ => none
  | n + 1, l, src =>
      (editTurn complete (stack n) l src).bind fun turn =>
        match turn with
        | .next l src => editLoop complete stack n l src
        | .ret r l src => some (r, l, src)

/-- The state before the loop, where memory holds `block` at `buf`. -/
def Linenoise.start (history : LineHistory) (block prompt : List UInt8) (cols : Nat) : Option Linenoise :=
  (Block.write block 0 [0]).map fun buf =>
    { buf := buf
      buflen := sizeSub block.length 1
      prompt := prompt
      plen := prompt.length
      pos := 0
      len := 0
      cols := cols
      historyIndex := 0
      history := (linenoiseHistoryAdd history []).1
      out := prompt
      beeps := 0 }

/-- `linenoiseEdit` into a block; its length is the argument `buflen`. -/
def linenoiseEdit (complete : Option (List UInt8 → List (List UInt8))) (stack : Nat → Nat → UInt8)
    (history : LineHistory) (block prompt : List UInt8) (cols : Nat) (src : Source) :
    Option (Int × Linenoise × Source) :=
  (Linenoise.start history block prompt cols).bind fun l =>
    editLoop complete stack (Source.size src + 1) l src

/-- `linenoise` on a terminal: the string that it returns, the history, and what is left to read. -/
def linenoise (complete : Option (List UInt8 → List (List UInt8))) (stack : Nat → Nat → UInt8)
    (history : LineHistory) (block prompt : List UInt8) (cols : Nat) (src : Source) :
    Option (Option (List UInt8) × Linenoise × Source) :=
  (linenoiseEdit complete stack history block prompt cols src).bind fun (count, l, src) =>
    if count = -1 then some (none, l, src)
    else (strdup l.buf).map fun line => (some line, l, src)

end Ppcom
