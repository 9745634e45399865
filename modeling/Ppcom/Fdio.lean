/-
Module: Ppcom.Fdio
Purpose: Formatted output of `fdio.cpp`: `writen_ni` with the loop over `write`, and `fd_vprintf` with its
  buffer on the stack. Memory is a function of the distance from the start of that buffer.
Trusted boundary: the text that a format and its arguments stand for
Main exports: WriteResult, writenNi, vsnprintf, fdVprintf, runCmdMessage
-/
import Mathlib.Algebra.Group.Nat.Defs
import Ppcom.CLib
import Ppcom.Lib.Stores

namespace Ppcom.Fdio

/-- What a `write` comes to: a number of bytes, an interruption, or another error. -/
inductive WriteResult where
  | wrote (nw : Nat)
  | interrupted
  | failed
deriving DecidableEq, Repr

/-- The loop of `writen_ni` with `p` and `nl`, on the results that the calls of `write` have one after
the other: the bytes written, and the last value of `nl`. -/
def writenNiLoop (mem : Nat → UInt8) : List WriteResult → (p nl : Nat) → List UInt8 × Nat
  | [], _, nl => ([], nl)
  | .interrupted :: results, p, nl =>
      if nl = 0 then ([], nl) else writenNiLoop mem results p nl
  | .failed :: _, _, nl => ([], nl)
  | .wrote nw :: results, p, nl =>
      let nw := min nw nl
      if nl = 0 ∨ nw = 0 then ([], nl)
      else
        let later := writenNiLoop mem results (p + nw) (nl - nw)
        ((List.range nw).map (fun i => mem (p + i)) ++ later.1, later.2)

/-- `writen_ni` of `n` bytes at the start of `mem`: the bytes written, and the value returned. -/
def writenNi (mem : Nat → UInt8) (n : Nat) (results : List WriteResult) : List UInt8 × Nat :=
  let (bytes, nl) := writenNiLoop mem results 0 n
  (bytes, n - nl)

/-- `vsnprintf` of the text `t` into a buffer of `sz` bytes: the value returned, which is the length of
the whole text or, where that is no `int`, -1, and the stores into the buffer. -/
def vsnprintf (sz : Nat) (t : List UInt8) : Int × List (Nat × UInt8) :=
  (if t.length < 2 ^ 31 then t.length else -1,
    if sz = 0 then []
    else Stores.block 0 (t.take (sz - 1)) ++ [(min t.length (sz - 1), 0)])

/-- `sizeof(buf)`. -/
def bufSize : Nat := 256

/-- The argument `n` of `writen_ni` that `fd_vprintf` passes, a `size_t` that an `int` becomes. -/
def passed (t : List UInt8) : Nat := (BitVec.ofInt 64 (vsnprintf bufSize t).1).toNat

/-- The memory that `fd_vprintf` passes, where `stack` is there before the call. -/
def buffer (stack : Nat → UInt8) (t : List UInt8) : Nat → UInt8 :=
  Stores.apply stack ((vsnprintf bufSize t).2 ++ [(bufSize - 1, 0)])

/-- `fd_vprintf` of a format and arguments that stand for the text `t`. -/
def fdVprintf (stack : Nat → UInt8) (t : List UInt8) (results : List WriteResult) :
    List UInt8 × Nat :=
  writenNi (buffer stack t) (passed t) results

/-- The text of `"$ %s %s\n"`, which `run_cmd` prints before it executes a command. -/
def runCmdMessage (cmd argsExtra : List UInt8) : List UInt8 :=
  ascii "$ " ++ cmd ++ ascii " " ++ argsExtra ++ ascii "\n"

end Ppcom.Fdio
