/-
Module: Ppcom.Input
Purpose: What a descriptor has to read, and the prompts that read standard input byte by byte:
  `fd_readline` and, over it, `read_filename`, `read_baud` and `read_hex`, with `hex2bin`.
Trusted boundary: what the prompts write to standard output is left out
Main exports: ReadReply, Source, Source.read, fdReadline, hex2bin, readFilename, readBaud, readHex
-/
import Ppcom.CLib
import Ppcom.Termios

namespace Ppcom

/-! ### Descriptors -/

/-- What a `read` finds: bytes, of which it takes as many as it asked for, the end of the input, or
an error that is `EAGAIN` or another. -/
inductive ReadReply where
  | data (first : UInt8) (rest : List UInt8)
  | zero
  | again
  | failed
deriving DecidableEq, Repr

/-- What is to be read from a descriptor, in the portions in which it arrives. Behind the last one
every `read` returns zero. -/
abbrev Source := List ReadReply

/-- `read` of at most `sz` bytes. A portion that is larger is left with its rest. -/
def Source.read (sz : Nat) : Source → ReadReply × Source
  | [] => (.zero, [])
  | .data first rest :: later =>
      (.data first (rest.take (sz - 1)),
        match rest.drop (sz - 1) with
        | [] => later
        | next :: more => .data next more :: later)
  | reply :: later => (reply, later)

/-- How often a descriptor can be read before it is at its end. -/
def Source.size : Source → Nat
  | [] => 0
  | .data _ rest :: later => rest.length + 1 + Source.size later
  | _ :: later => 1 + Source.size later

/-! ### Lines -/

/-- The loop of `fd_readline`, which holds the bytes before `bp`. The first argument bounds the bytes
that there are to read. -/
def readlineLoop (bsz : Nat) : Nat → List UInt8 → Source → Option (List UInt8) × Source
  | 0, _, src => (none, src)
  | n + 1, held, src =>
      match Source.read 1 src with
      | (.data c _, src) =>
          if c = 0x08 ∨ c = 0x7f then readlineLoop bsz n held.dropLast src
          else if c = 0x03 then (none, src)
          else if c = 0x0d then (some held, src)
          else if held.length < bsz - 1 then readlineLoop bsz n (held ++ [c]) src
          else readlineLoop bsz n held src
      | (_, src) => (none, src)

/-- `fd_readline`; `none` is the value -1. -/
def fdReadline (bsz : Nat) (src : Source) : Option (List UInt8) × Source :=
  readlineLoop bsz (Source.size src) [] src

/-! ### Hexadecimal strings -/

def hexbufSz : Nat := 128

/-- `hexisdelim`. -/
def hexisdelim (c : UInt8) : Bool := (ascii " \r;:-_.,/").contains c

/-- `hex2byte`; `none` is the value -1. -/
def hex2byte (c : UInt8) : Option UInt8 :=
  if 0x30 ≤ c ∧ c ≤ 0x39 then some (c - 0x30)
  else if 0x41 ≤ c ∧ c ≤ 0x46 then some (c - 0x41 + 10)
  else if 0x61 ≤ c ∧ c ≤ 0x66 then some (c - 0x61 + 10)
  else none

/-- The loop of `hex2bin`, with what it has stored. -/
def hex2binFrom (sz : Nat) : List UInt8 → List UInt8 → Option (List UInt8)
  | buf, [] => some buf
  | buf, c :: rest =>
      if sz ≤ buf.length then some buf
      else if hexisdelim c then hex2binFrom sz buf rest
      else
        match hex2byte c, rest with
        | none, _ => none
        | some _, [] => none
        | some high, d :: rest =>
            match hex2byte d with
            | none => none
            | some low => hex2binFrom sz (buf ++ [high <<< 4 ||| low]) rest

/-- `hex2bin` of a string; `none` is the value -1. -/
def hex2bin (sz : Nat) (str : List UInt8) : Option (List UInt8) := hex2binFrom sz [] str

/-- The loop of `hex2bin` from the index `i` on, with the value returned and the stores into `buf`. -/
def hex2binLoop (sz : Int) : Nat → List UInt8 → Int × List (Nat × UInt8)
  | i, [] => (i, [])
  | i, c :: rest =>
      if ¬ (i : Int) < sz then (i, [])
      else if hexisdelim c then hex2binLoop sz i rest
      else
        match hex2byte c, rest with
        | none, _ => (-1, [])
        | some _, [] => (-1, [])
        | some b0, d :: rest =>
            match hex2byte d with
            | none => (-1, [])
            | some b1 =>
                let later := hex2binLoop sz (i + 1) rest
                (later.1, (i, b0 <<< 4 ||| b1) :: later.2)

/-- `hex2bin` with the stores that it makes into `buf`, whatever it returns. -/
def hex2binStores (sz : Int) (str : List UInt8) : Int × List (Nat × UInt8) := hex2binLoop sz 0 str

/-! ### Prompts -/

/-- The size of the buffer for file names. -/
def posixPathMax : Nat := 256

/-- `read_filename`. -/
def readFilename (src : Source) : Option (List UInt8) × Source :=
  match fdReadline posixPathMax src with
  | (none, src) => (none, src)
  | (some fname, src) => (some (cString fname), src)

/-- What `read_baud` makes of a line. -/
def baudOfLine (plat : Platform) (line : List UInt8) : Int :=
  let (value, ep) := strtol (cString line)
  let baud := toInt value
  if ep ≠ [] ∨ ¬ termBaudOk plat baud ∨ baud = 0 then -1 else baud

/-- The loop of `read_baud`. The first argument bounds the lines there are to read. -/
def readBaudLoop (plat : Platform) : Nat → Int → Source → Int × Source
  | 0, baud, src => (baud, src)
  | n + 1, baud, src =>
      match fdReadline 9 src with
      | (none, src) => (baud, src)
      | (some line, src) =>
          let baud := baudOfLine plat line
          if baud < 0 then readBaudLoop plat n baud src else (baud, src)

/-- `read_baud`. -/
def readBaud (plat : Platform) (src : Source) : Int × Source :=
  readBaudLoop plat (Source.size src + 1) (-1) src

/-- The loop of `read_hex`. The first argument bounds the lines there are to read. -/
def readHexLoop (sz : Nat) : Nat → Source → List UInt8 × Source
  | 0, src => ([], src)
  | n + 1, src =>
      match fdReadline 256 src with
      | (none, src) => ([], src)
      | (some line, src) =>
          match hex2bin sz (cString line) with
          | none => readHexLoop sz n src
          | some buff => (buff, src)

/-- `read_hex`: the bytes that it stores. -/
def readHex (sz : Nat) (src : Source) : List UInt8 × Source :=
  readHexLoop sz (Source.size src + 1) src

end Ppcom
