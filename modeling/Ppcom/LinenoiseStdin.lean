/-
Module: Ppcom.LinenoiseStdin
Purpose: `linenoise` where there is no line editor: standard input is no terminal, or the terminal is not
  supported. It then reads lines with `fgets` from `stdin`, which reads ahead, while `loop` of `ppcom.cpp`
  reads the descriptor itself.
Trusted boundary: `stdin` is that of glibc, in blocks of 4096 bytes
Main exports: isUnsupportedTerm, Stdin, Stdin.fgets, linenoisePlain, StdinUse, StdinUsers
-/
import Mathlib.Data.List.DropRight
import Ppcom.LineHistory
import Ppcom.Loop

namespace Ppcom

/-- `tolower` in the locale of C. -/
def tolower (c : UInt8) : UInt8 := if 0x41 ≤ c ∧ c ≤ 0x5a then c + 0x20 else c

/-- `unsupported_term`. -/
def unsupportedTerm : List (List UInt8) := [ascii "dumb", ascii "cons25", ascii "emacs"]

/-- `isUnsupportedTerm`, where `term` is the variable `TERM`. The names are compared by `strcasecmp`. -/
def isUnsupportedTerm (term : Option (List UInt8)) : Bool :=
  term.any fun term => unsupportedTerm.contains (term.map tolower)

/-! ### Standard input -/

/-- The size of the buffer of `stdin`. -/
def stdinBufSz : Nat := 4096

/-- `stdin`: what is in its buffer, what is to be read from the descriptor, and whether the end was seen. -/
structure Stdin where
  buf : List UInt8
  src : Source
  ended : Bool
deriving DecidableEq, Repr

namespace Stdin

/-- The next byte, or the reply of the `read` that found none. -/
def getc (s : Stdin) : ReadReply × Stdin :=
  match s.buf with
  | c :: buf => (.data c [], { s with buf := buf })
  | [] =>
      if s.ended then (.zero, s)
      else
        match Source.read stdinBufSz s.src with
        | (.data c rest, src) => (.data c [], { s with buf := rest, src := src })
        | (.zero, src) => (.zero, { s with src := src, ended := true })
        | (reply, src) => (reply, { s with src := src })

/-- The bytes that `fgets` stores, where there is room for `n`, and the reply that it ends with if it finds
no byte. -/
def fgetsLoop : Nat → Stdin → List UInt8 × Option ReadReply × Stdin
  | 0, s => ([], none, s)
  | n + 1, s =>
      match s.getc with
      | (.data c _, s) =>
          if c = 0x0a then ([c], none, s)
          else (c :: (fgetsLoop n s).1, (fgetsLoop n s).2)
      | (reply, s) => ([], some reply, s)

/-- `fgets` into a block of `size` bytes, with what it has stored also where it returns `NULL`. -/
def fgets (size : Nat) (s : Stdin) : Bool × List UInt8 × Stdin :=
  let (bytes, reply, s) := fgetsLoop (size - 1) s
  (bytes ≠ [] ∧ reply ≠ some .failed, bytes, s)

end Stdin

/-! ### Lines -/

/-- The string that `linenoiseRaw` leaves of a line: without the line feed that ends it. -/
def cutNewline (s : List UInt8) : List UInt8 := if s.getLast? = some 0x0a then s.dropLast else s

/-- The string that `linenoise` leaves of a line where the terminal is not supported: without the line feeds
and carriage returns that end it. -/
def cutNewlines (s : List UInt8) : List UInt8 := s.rdropWhile fun c => c == 0x0a || c == 0x0d

/-- What is left of a line. -/
def cutPlain (unsupported : Bool) (s : List UInt8) : List UInt8 :=
  if unsupported then cutNewlines s else cutNewline s

/-- `linenoise` without the line editor: the string that it returns, if it returns one. The terminal is not
supported, or standard input is no terminal. -/
def linenoisePlain (unsupported : Bool) (s : Stdin) : Option (List UInt8) × Stdin :=
  let (read, bytes, s) := s.fgets linenoiseMaxLine
  (if read then some (cutPlain unsupported (cString bytes)) else none, s)

/-- The strings that so many calls return. -/
def linenoisePlains (unsupported : Bool) : Nat → Stdin → List (Option (List UInt8)) × Stdin
  | 0, s => ([], s)
  | n + 1, s =>
      let (line, s) := linenoisePlain unsupported s
      (line :: (linenoisePlains unsupported n s).1, (linenoisePlains unsupported n s).2)

/-! ### Two readers -/

/-- Who reads standard input: `loop`, or a prompt. -/
inductive StdinUse where
  | loop
  | prompt
deriving DecidableEq, Repr

/-- `stdin` with what the two have been given so far. -/
structure StdinUsers where
  stdin : Stdin
  toLoop : List UInt8
  toPrompts : List UInt8
deriving DecidableEq, Repr

namespace StdinUsers

/-- One of the two reads: `loop` from the descriptor, a prompt a line from `stdin`. -/
def step (s : StdinUsers) : StdinUse → StdinUsers
  | .loop =>
      match Source.read stiRdSz s.stdin.src with
      | (.data c rest, src) =>
          { s with stdin := { s.stdin with src := src }, toLoop := s.toLoop ++ c :: rest }
      | (_, src) => { s with stdin := { s.stdin with src := src } }
  | .prompt =>
      let (_, bytes, stdin) := s.stdin.fgets linenoiseMaxLine
      { s with stdin := stdin, toPrompts := s.toPrompts ++ bytes }

def run (s : StdinUsers) (uses : List StdinUse) : StdinUsers := uses.foldl step s

/-- Nobody has read yet. -/
def start (src : Source) : StdinUsers := ⟨⟨[], src, false⟩, [], []⟩

end StdinUsers

end Ppcom
