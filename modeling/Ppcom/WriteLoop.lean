/-
Module: Ppcom.WriteLoop
Purpose: `writen_ni` of `fdio.cpp` with its two loops, against a kernel that answers each `write` as it
  likes: it takes some of the bytes or none, is interrupted, or fails. The kernel keeps what it was asked
  and what it took; pointers and counts are machine words.
Trusted boundary: `write` takes bytes from the start of what it is passed
Main exports: Outcome, Schedule, Call, Kernel, write, writeAgain, writeLoop, writenNi, Buffer,
  Returns
-/
import Ppcom.Fdio

namespace Ppcom.WriteLoop

/-- A pointer, a `size_t` or a `ssize_t`. -/
abbrev Word := BitVec 64

def EINTR : Nat := 4

/-! ### The calls of `write` -/

/-- What a `write` of `nl` bytes comes to: a number of bytes that it takes, an interruption, or another
error. -/
inductive Outcome (nl : Nat) where
  | wrote (nw : Nat) (within : nw ≤ nl)
  | interrupted
  | failed (errno : Nat) (other : errno ≠ EINTR)
deriving DecidableEq, Repr

namespace Outcome

variable {nl : Nat}

/-- The number of bytes that are taken. -/
def taken : Outcome nl → Nat
  | wrote nw _ => nw
  | _ => 0

/-- The value that `write` returns. -/
def nw : Outcome nl → Word
  | wrote nw _ => BitVec.ofNat 64 nw
  | _ => -1

/-- `errno`, where the value is negative. -/
def errno : Outcome nl → Nat
  | wrote _ _ => 0
  | interrupted => EINTR
  | failed errno _ => errno

/-- The `write` took nothing, or failed with another error than an interruption. -/
def Refused : Outcome nl → Prop
  | wrote nw _ => nw = 0
  | interrupted => False
  | failed _ _ => True

/-- The result without what tells that it is one of `nl` bytes. -/
def result : Outcome nl → Fdio.WriteResult
  | wrote nw _ => .wrote nw
  | interrupted => .interrupted
  | failed _ _ => .failed

end Outcome

/-- What the calls of `write` come to one after the other, each for any number of bytes: interruptions
follow each other a finite number of times only. -/
structure Schedule where
  outcome : Nat → (nl : Nat) → Outcome nl
  finite : ∀ i nl, ∃ j, i ≤ j ∧ outcome j nl ≠ .interrupted

/-- Every second call is interrupted, and the others take two bytes or what there is. -/
def Schedule.stuttering : Schedule where
  outcome i nl := if i % 2 = 0 then .interrupted else .wrote (min 2 nl) (Nat.min_le_right ..)
  finite i nl := by
    refine ⟨2 * i + 1, by omega, ?_⟩
    rw [if_neg (by omega)]
    exact nofun

/-- A call of `write`, and what it came to. -/
structure Call where
  p : Word
  nl : Word
  outcome : Outcome nl.toNat

/-- The kernel: the calls of `write` that were made, and the bytes delivered to the descriptor. -/
structure Kernel where
  calls : List Call
  delivered : List UInt8

/-- The kernel before the first call. -/
def Kernel.fresh : Kernel := ⟨[], []⟩

def Kernel.results (kernel : Kernel) : List Fdio.WriteResult :=
  kernel.calls.map fun call => call.outcome.result

/-- The `k` bytes of memory from `p` on. -/
def load (mem : Word → UInt8) (p : Word) (k : Nat) : List UInt8 :=
  (List.range k).map fun i => mem (p + BitVec.ofNat 64 i)

/-- What the next call of `write` comes to, where it is for `nl` bytes. -/
def Schedule.next (schedule : Schedule) (kernel : Kernel) (nl : Word) : Outcome nl.toNat :=
  schedule.outcome kernel.calls.length nl.toNat

/-- `write`: the value, `errno`, and the kernel afterwards. -/
def write (schedule : Schedule) (mem : Word → UInt8) (p nl : Word) (kernel : Kernel) :
    Word × Nat × Kernel :=
  let outcome := schedule.next kernel nl
  (outcome.nw, outcome.errno,
    { calls := kernel.calls ++ [⟨p, nl, outcome⟩]
      delivered := kernel.delivered ++ load mem p outcome.taken })

/-! ### The loops -/

/-- The inner loop of `writen_ni`, unless it takes more than `turns` turns: `nw`. -/
def writeAgain (schedule : Schedule) (mem : Word → UInt8) (p nl : Word) :
    Nat → Kernel → Option (Word × Kernel)
  | 0, _ => none
  | turns + 1, kernel =>
      let (nw, errno, kernel) := write schedule mem p nl kernel
      if nw.slt 0 ∧ errno = EINTR then writeAgain schedule mem p nl turns kernel
      else some (nw, kernel)

/-- The outer loop, unless one of the two takes more than `turns` turns: the last value of `nl`. -/
def writeLoop (schedule : Schedule) (mem : Word → UInt8) :
    Nat → (p nl : Word) → Kernel → Option (Word × Kernel)
  | 0, _, _, _ => none
  | turns + 1, p, nl, kernel =>
      if 0 < nl then
        match writeAgain schedule mem p nl turns kernel with
        | none => none
        | some (nw, kernel) =>
            if nw.sle 0 then some (nl, kernel)
            else writeLoop schedule mem turns (p + nw) (nl - nw) kernel
      else some (nl, kernel)

/-- `writen_ni`, unless a loop takes more than `turns` turns: the value, which is a `ssize_t`. -/
def writenNi (schedule : Schedule) (mem : Word → UInt8) (buff n : Word) (turns : Nat)
    (kernel : Kernel) : Option (Int × Kernel) :=
  (writeLoop schedule mem turns buff n kernel).map fun (nl, kernel) => ((n - nl).toInt, kernel)

/-! ### Buffers -/

/-- A buffer in memory. No object is larger than `PTRDIFF_MAX`, and none is wrapped around. -/
structure Buffer where
  mem : Word → UInt8
  buff : Word
  n : Word
  size : n.toNat < 2 ^ 63
  addresses : buff.toNat + n.toNat < 2 ^ 64

def Buffer.bytes (buffer : Buffer) : List UInt8 := load buffer.mem buffer.buff buffer.n.toNat

/-- The memory as it is seen from the start of the buffer. -/
def Buffer.cells (buffer : Buffer) (i : Nat) : UInt8 := buffer.mem (buffer.buff + BitVec.ofNat 64 i)

/-- `writen_ni` of the buffer returns `k`: with enough turns of the loops, it does so whatever their
number. -/
def Returns (schedule : Schedule) (buffer : Buffer) (k : Nat) (after : Kernel) : Prop :=
  ∃ turns, ∀ enough, turns ≤ enough →
    writenNi schedule buffer.mem buffer.buff buffer.n enough .fresh = some ((k : Int), after)

/-- Five bytes in the memory. -/
def Buffer.hello : Buffer where
  mem p := ([0x68, 0x65, 0x6c, 0x6c, 0x6f].getD (p.toNat - 4096) 0)
  buff := 4096
  n := 5
  size := by decide
  addresses := by decide

/-- The bytes that a call passes are bytes of the buffer, and there are some. -/
def Buffer.Within (buffer : Buffer) (call : Call) : Prop :=
  buffer.buff ≤ call.p ∧ 0 < call.nl.toNat ∧
    call.p.toNat + call.nl.toNat ≤ buffer.buff.toNat + buffer.n.toNat

end Ppcom.WriteLoop
