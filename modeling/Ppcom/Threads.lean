/-
Module: Ppcom.Threads
Purpose: The descriptors of the process, and the two threads that open and close them: the thread of
  the forwarding servers, which makes the calls of a callback one after the other, and the main thread,
  which opens and closes descriptors of its own at any time. The system gives every new descriptor the
  lowest number that is free.
Trusted boundary: a `close` of a number that is not open does nothing
Main exports: Owner, Threads, Lowest, Threads.move, ThreadsRun
-/
import Mathlib.Data.Finset.Basic
import Ppcom.Ffwd

namespace Ppcom

/-- What a descriptor was opened for: by the main thread, or as the client that was accepted after `n`
others. -/
inductive Owner where
  | program
  | client (n : Nat)
deriving DecidableEq, Repr

/-- The threads. -/
inductive Thread where
  | main
  | server
deriving DecidableEq, Repr

/-- The state of the process. `mine` are the descriptors that the main thread has opened and not
closed, `pending` is what is left of the calls of the callback that the thread of the servers is in,
and `closed` lists the descriptors that were closed, with the thread that did it. -/
structure Threads where
  ffwd : Ffwd
  table : Int → Option Owner
  mine : Finset Int
  pending : List SysCall
  accepted : Nat
  closed : List (Thread × Owner)

/-- The number that the system gives to a new descriptor. -/
def Lowest (table : Int → Option Owner) (fd : Int) : Prop :=
  0 ≤ fd ∧ table fd = none ∧ ∀ k < fd.toNat, table k ≠ none

instance (table : Int → Option Owner) (fd : Int) : Decidable (Lowest table fd) :=
  inferInstanceAs (Decidable (_ ∧ _))

namespace Threads

variable (t : Threads)

/-- A descriptor is opened. -/
def openFd (fd : Int) (owner : Owner) : Threads :=
  { t with table := Function.update t.table fd (some owner) }

/-- `close`. -/
def closeFd (thread : Thread) (fd : Int) : Threads :=
  match t.table fd with
  | none => t
  | some owner =>
      { t with table := Function.update t.table fd none, closed := t.closed ++ [(thread, owner)] }

/-- The main thread opens a descriptor. -/
def mainOpen (fd : Int) : Threads :=
  { t.openFd fd .program with mine := insert fd t.mine }

/-- The main thread closes a descriptor of its own. -/
def mainClose (fd : Int) : Threads :=
  { t.closeFd .main fd with mine := t.mine.erase fd }

/-- The thread of the servers accepts a client. -/
def accept (side : Side) (fd : Int) : Threads :=
  { t.openFd fd (.client t.accepted) with
    ffwd := t.ffwd.accept side fd
    accepted := t.accepted + 1 }

/-- The callback of a client has read, and has its calls before it. -/
def read (side : Side) (fd : Int) (stack : List UInt8) (got : ReadResult) : Threads :=
  let done := t.ffwd.callback side fd stack got
  { t with ffwd := t.ffwd.withServer side done.server, pending := done.calls }

/-- A call of the thread of the servers, with `rest` to come. -/
def call (c : SysCall) (rest : List SysCall) : Threads :=
  let t := { t with ffwd := t.ffwd.call c, pending := rest }
  match c with
  | .close fd => t.closeFd .server fd
  | _ => t

/-- The process when the servers start. -/
def start (mine : Finset Int) (msgfd ctlfd : Int) : Threads where
  ffwd := .static msgfd ctlfd
  table fd := if fd ∈ mine then some .program else none
  mine := mine
  pending := []
  accepted := 0
  closed := []

end Threads

/-- What a thread does next. -/
inductive Move where
  | mainOpen (fd : Int)
  | mainClose (fd : Int)
  | accept (side : Side) (fd : Int)
  | read (fd : Int) (stack : List UInt8) (got : ReadResult)
  | call

/-- What a move does. The thread of the servers is in one callback at a time. -/
def Threads.move (t : Threads) : Move → Option (Threads × Unit)
  | .mainOpen fd => if Lowest t.table fd then some (t.mainOpen fd, ()) else none
  | .mainClose fd => if fd ∈ t.mine then some (t.mainClose fd, ()) else none
  | .accept side fd =>
      if t.pending = [] ∧ Lowest t.table fd then some (t.accept side fd, ()) else none
  | .read fd stack got =>
      if t.pending = [] then (t.ffwd.cbs fd).map fun side => (t.read side fd stack got, ()) else none
  | .call =>
      match t.pending with
      | [] => none
      | c :: rest => some (t.call c rest, ())

/-- A move in a run. -/
abbrev ThreadsStep := Machine.Step Threads Move Unit

/-- The runs of the process, with the moves of the threads in any order. -/
abbrev ThreadsRun (start : Threads) : List ThreadsStep → Threads → Prop :=
  Machine.Run Threads.move start

end Ppcom
