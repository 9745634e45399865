/-
Module: Ppcom.LinenoiseColumns
Purpose: How `linenoise.cpp` finds the number of columns: it asks the system, or the terminal itself, which
  answers with the position of its cursor on standard input.
Trusted boundary: the writes to the terminal are complete; `sscanf` is that of glibc
Main exports: getCursorPosition, getColumns
-/
import Ppcom.Input
import Ppcom.Linenoise

namespace Ppcom

/-- `sscanf` with `%d`: the number, and what is behind it. -/
def scanInt (s : List UInt8) : Option (Int × List UInt8) :=
  let (negative, unsigned) := readSign (s.dropWhile isspace)
  match unsigned with
  | [] => none
  | c :: _ =>
      if (digit 10 c).isNone then none
      else
        let (value, rest) := readDigits 10 0 unsigned
        some (toInt (if negative then max (-2 ^ 63) (-(value : Int)) else min (2 ^ 63 - 1) value), rest)

/-- `sscanf` with `%d;%d`, where it stores both numbers. -/
def scanPosition (s : List UInt8) : Option (Int × Int) :=
  (scanInt s).bind fun (rows, s) =>
    match s with
    | [] => none
    | c :: s => if c = 0x3b then (scanInt s).map fun (cols, _) => (rows, cols) else none

/-- The loop that reads the response into `buf`, where there is room for `n` more bytes: those before R, and
what is left to read. -/
def readResponse : Nat → Source → List UInt8 × Source
  | 0, src => ([], src)
  | n + 1, src =>
      match Source.read 1 src with
      | (.data c _, src) =>
          if c = 0x52 then ([], src)
          else (c :: (readResponse n src).1, (readResponse n src).2)
      | (_, src) => ([], src)

/-- What is written to ask for the position of the cursor. -/
def askPosition : List UInt8 := 0x1b :: ascii "[6n"

/-- What is written to go to the right margin. -/
def goRight : List UInt8 := 0x1b :: ascii "[999C"

/-- What is written to go back `n` columns. -/
def goBack (n : Int) : List UInt8 := 0x1b :: ascii "[" ++ printInt n ++ ascii "D"

/-- `getCursorPosition`, when it has written `askPosition`. -/
def getCursorPosition (src : Source) : Int × Source :=
  let (buf, src) := readResponse 31 src
  match cString buf with
  | 0x1b :: 0x5b :: response => (((scanPosition response).map Prod.snd).getD (-1), src)
  | _ => (-1, src)

/-- `getColumns`: the value, what is written, and what is left to read. The columns that the system knows
of are `winsize`, if it knows the size. -/
def getColumns (winsize : Option UInt16) (src : Source) : Int × List UInt8 × Source :=
  if winsize.getD 0 = 0 then
    let (start, src) := getCursorPosition src
    if start = -1 then (80, askPosition, src)
    else
      let (cols, src) := getCursorPosition src
      if cols = -1 then (80, askPosition ++ goRight ++ askPosition, src)
      else
        (cols, askPosition ++ goRight ++ askPosition ++
          (if start < cols then goBack (toInt (cols - start)) else []), src)
  else ((winsize.getD 0).toNat, [], src)

end Ppcom
