/-
Module: Ppcom.Readline
Purpose: `fd_readline` of `fdio.cpp` with its echo: the buffer it stores into, the pointer `bp`, and what
  `cput`, `cdel`, `xput` and `xdel` write.
Trusted boundary: the writes of a few bytes to the terminal are complete
Main exports: Readline, readlineTurn, readlineBytes, fdReadlineEcho
-/
import Ppcom.Input
import Ppcom.Lib.Stores

namespace Ppcom

/-- The variables of `fd_readline`: `bp - b`, the stores made so far into the block that starts at `b`,
and the bytes written to `fdo`. -/
structure Readline where
  bp : Nat
  stores : List (Nat × UInt8)
  echo : List UInt8
deriving DecidableEq, Repr

/-- What one turn of the `while (1)` leads to: the next one, or `out` with the value of `r`. -/
inductive ReadlineTurn where
  | next (l : Readline)
  | out (r : Int) (l : Readline)
deriving DecidableEq, Repr

namespace ReadlineTurn

/-- The value returned; a `read` that finds nothing more makes it -1. -/
def value : ReadlineTurn → Int
  | next _ => -1
  | out r _ => r

def line : ReadlineTurn → Readline
  | next l | out _ l => l

end ReadlineTurn

namespace Readline

def start : Readline where
  bp := 0
  stores := []
  echo := []

/-- `*bp = c`. -/
def store (l : Readline) (c : UInt8) : Readline := { l with stores := l.stores ++ [(l.bp, c)] }

/-- `*bp`, where the block held `b` before the call. -/
def deref (b : Nat → UInt8) (l : Readline) : UInt8 := Stores.apply b l.stores l.bp

def write (l : Readline) (bytes : List UInt8) : Readline := { l with echo := l.echo ++ bytes }

/-- `cput`. -/
def cput (l : Readline) (c : UInt8) : Readline := l.write [c]

/-- `cdel`. -/
def cdel (l : Readline) : Readline := l.write [0x08, 0x20, 0x08]

/-- `xput`. -/
def xput (l : Readline) (c : UInt8) : Readline :=
  let hex := ascii "0123456789abcdef"
  l.write [0x5c, 0x78, hex.getD (c >>> 4).toNat 0, hex.getD (c &&& 0x0f).toNat 0]

/-- `xdel`. -/
def xdel (l : Readline) : Readline :=
  l.write [0x08, 0x08, 0x08, 0x08, 0x20, 0x20, 0x20, 0x20, 0x08, 0x08, 0x08, 0x08]

end Readline

/-- One turn of the loop, with what its `read` of one byte finds. -/
def readlineTurn (b : Nat → UInt8) (bsz : Nat) (l : Readline) : ReadReply → ReadlineTurn
  | .data c _ =>
      if c = 0x08 ∨ c = 0x7f then
        if 0 < l.bp then
          let l := { l with bp := l.bp - 1 }
          if isprint (l.deref b) then .next l.cdel else .next l.xdel
        else .next (l.cput 0x07)
      else if c = 0x03 then .out (-1) l
      else if c = 0x0d then .out l.bp (l.store 0)
      else if l.bp < bsz - 1 then
        let l := { l.store c with bp := l.bp + 1 }
        if isprint c then .next (l.cput c) else .next (l.xput c)
      else .next (l.cput 0x07)
  | _ => .out (-1) l

/-- The turns for a list of bytes that are read one after the other. -/
def readlineBytes (b : Nat → UInt8) (bsz : Nat) : List UInt8 → Readline → ReadlineTurn
  | [], l => .next l
  | c :: rest, l =>
      match readlineTurn b bsz l (.data c []) with
      | .next l => readlineBytes b bsz rest l
      | .out r l => .out r l

/-- The loop on a descriptor. The first argument bounds the number of turns. -/
def readlineEchoLoop (b : Nat → UInt8) (bsz : Nat) : Nat → Readline → Source → Int × Readline × Source
  | 0, l, src => (-1, l, src)
  | n + 1, l, src =>
      let (reply, src) := Source.read 1 src
      match readlineTurn b bsz l reply with
      | .next l => readlineEchoLoop b bsz n l src
      | .out r l => (r, l, src)

/-- `fd_readline` into a block of `bsz` bytes at `b`: the value returned, the stores and the echo, and
what is left to read. -/
def fdReadlineEcho (b : Nat → UInt8) (bsz : Nat) (src : Source) : Int × Readline × Source :=
  readlineEchoLoop b bsz (Source.size src + 1) .start src

end Ppcom
