/-
Module: Ppcom.QueueTurns
Purpose: `tty_q_push` turn by turn, so that what each turn computes can be looked at, with the other
  things that are done to the output queue between its calls.
Trusted boundary: none
Main exports: Pushing, QueueInput, queueTurn, QueueInput.evaluates
-/
import Ppcom.Queue

namespace Ppcom

/-- The queue, and the bytes that a call of `tty_q_push` under way has still to store. -/
structure Pushing where
  q : TtyQ
  pending : List UInt8

/-- What happens to the queue next. -/
inductive QueueInput where
  /-- `tty_q_push` is called. -/
  | push (bytes : List UInt8)
  /-- It evaluates the condition of its `while` loop and does what follows, up to the next evaluation;
  `reply` is what a `realloc` fills the new cells with, or a failure. -/
  | turn (reply : Option (Nat → UInt8))
  /-- `loop` writes to the port. -/
  | write (ttyWriteSz : Int) (reply : Option Nat)
  /-- A command that changes a setting empties the queue. -/
  | reset

/-- What `tty_q_push` does with the first of its bytes, or for it; the size is the one handed to
`realloc`. -/
def pushTurn (build : Build) (omap : Word) (q : TtyQ) (b : UInt8) (rest : List UInt8)
    (reply : Option (Nat → UInt8)) : Option (Pushing × Option Int) :=
  if q.len + mMaxmap ≤ q.sz then
    (doMap omap b).map fun image => (⟨q.store image, rest⟩, none)
  else
    let sz := toInt (q.sz * 2)
    if build.ttyQSz ≠ 0 ∧ (build.ttyQSz : Int) < sz then some (⟨q, []⟩, none)
    else
      -- a negative size is as large as no block can be
      match if sz ≤ 0 then none else reply with
      | none => some (⟨q, []⟩, some sz)
      | some fill => some (⟨q.grow sz.toNat fill, b :: rest⟩, some sz)

/-- The step of the queue. There is none after a failed assertion or a write that the port takes
nothing of, which end the program. -/
def queueTurn (build : Build) (omap : Word) (s : Pushing) :
    QueueInput → Option (Pushing × Option Int)
  | .push bytes => if s.pending = [] then some (⟨s.q, bytes⟩, none) else none
  | .turn reply =>
      match s.pending with
      | [] => none
      | b :: rest => pushTurn build omap s.q b rest reply
  | .write ttyWriteSz reply =>
      let taken := s.q.taken (s.q.request ttyWriteSz) reply
      if s.pending = [] ∧ taken.length ≠ 0 then some (⟨s.q.drop taken.length, []⟩, none) else none
  | .reset => if s.pending = [] then some (⟨{ s.q with len := 0 }, []⟩, none) else none

/-- What is computed in an `int`: `tty_q.len + M_MAXMAP`, and `tty_q.sz * 2` where there is no room. -/
def QueueInput.evaluates (s : Pushing) : QueueInput → List Nat
  | .turn _ =>
      if s.pending = [] then []
      else if s.q.len + mMaxmap ≤ s.q.sz then [s.q.len + mMaxmap]
      else [s.q.len + mMaxmap, s.q.sz * 2]
  | _ => []

end Ppcom
