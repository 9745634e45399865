/-
Module: Ppcom.Relaying
Purpose: The servers of `ffwd` together with the descriptors of the process: from the moment that
  `startSrv` returns, `init` makes a connection to the server of messages, whose two ends are both
  descriptors of this process, while the server accepts, reads and drops the clients of both sides.
Trusted boundary: a call that opens a descriptor returns a number that is not in use; the calls of a
  callback are made without another thread in between
Main exports: OwnConnection, Relaying, Relaying.step, RelayingRun
-/
import Ppcom.Ffwd

namespace Ppcom

/-- The program's own connection to the server of messages. -/
inductive OwnConnection where
  | unmade
  /-- `connect` has succeeded, and the server has not accepted yet. -/
  | waiting (clientEnd : Int)
  | accepted (clientEnd serverEnd : Int)
  /-- The server has closed its end. -/
  | dropped (clientEnd : Int)
  /-- `ffwd::exit` has closed the client end. -/
  | closed
deriving DecidableEq, Repr

namespace OwnConnection

/-- The descriptor of the connection in the program. -/
def clientEnd : OwnConnection → Option Int
  | .waiting clientEnd | .accepted clientEnd _ | .dropped clientEnd => some clientEnd
  | .unmade | .closed => none

/-- The descriptor of the connection in the server. -/
def serverEnd : OwnConnection → Option Int
  | .accepted _ serverEnd => some serverEnd
  | _ => none

/-- The server has closed `fd`. -/
def drop (fd : Int) : OwnConnection → OwnConnection
  | .accepted clientEnd serverEnd =>
      if serverEnd = fd then .dropped clientEnd else .accepted clientEnd serverEnd
  | own => own

end OwnConnection

/-- `ffwd`, the descriptors in use, and the own connection. -/
structure Relaying where
  ffwd : Ffwd
  taken : List Int
  own : OwnConnection

namespace Relaying

variable (r : Relaying)

/-- A new descriptor can have this number. -/
def Free (fd : Int) : Prop := 0 ≤ fd ∧ fd ∉ r.taken

instance (fd : Int) : Decidable (r.Free fd) := inferInstanceAs (Decidable (_ ∧ _))

/-- A server has `fd` as a client. -/
def Client (fd : Int) : Prop :=
  fd ∈ r.ffwd.sockServMsg.clientFds ∨ fd ∈ r.ffwd.sockServCtl.clientFds

instance (fd : Int) : Decidable (r.Client fd) := inferInstanceAs (Decidable (_ ∨ _))

/-- The descriptors without `fd`. -/
def closing (fd : Int) : List Int := r.taken.filter (· ≠ fd)

/-- What is left of the descriptors and of the own connection once a client was read: a client whose
`read` finds nothing is closed. -/
def afterRead (f : Ffwd) (fd : Int) (got : ReadResult) : Relaying :=
  match got.message with
  | some _ => ⟨f, r.taken, r.own⟩
  | none => ⟨f, r.closing fd, r.own.drop fd⟩

end Relaying

/-- What can happen to the servers and to the descriptors. -/
inductive Happening where
  /-- Another part of the process opens or closes a descriptor. -/
  | opens (fd : Int)
  | closes (fd : Int)
  /-- In `setup_socket` the connection to the server of messages is made with the socket `fd`. -/
  | dial (fd : Int)
  /-- `setup_socket` has had these replies, and `init` stores what it returns. -/
  | connected (side : Side) (replies : SocketReplies)
  /-- The server accepts the own connection. -/
  | acceptOwn (fd : Int)
  /-- A server accepts a connection from outside, or its `accept` fails. -/
  | accept (side : Side) (fd : Int)
  | read (fd : Int) (stack : List UInt8) (got : ReadResult)
  /-- `ffwd::exit` closes the client end. -/
  | exit

/-- What a happening does, and the calls that the thread of the servers makes. -/
def Relaying.step (r : Relaying) : Happening → Option (Relaying × List SysCall)
  | .opens fd => if r.Free fd then some (⟨r.ffwd, fd :: r.taken, r.own⟩, []) else none
  | .closes fd =>
      if r.Client fd ∨ r.own.clientEnd = some fd then none
      else some (⟨r.ffwd, r.closing fd, r.own⟩, [])
  | .dial fd =>
      if r.own = .unmade ∧ r.ffwd.msgfd = -1 ∧ r.Free fd then
        some (⟨r.ffwd, fd :: r.taken, .waiting fd⟩, [])
      else none
  | .connected .msg replies =>
      -- where no connection was made, it returns 1
      if r.ffwd.msgfd = -1 ∧ setupSocket replies = r.own.clientEnd.getD 1 then
        (r.ffwd.step (.connect .msg (setupSocket replies))).map fun (f, calls) =>
          (⟨f, r.taken, r.own⟩, calls)
      else none
  | .connected .ctl replies =>
      (r.ffwd.step (.connect .ctl (setupSocket replies))).map fun (f, calls) =>
        (⟨f, r.taken, r.own⟩, calls)
  | .acceptOwn fd =>
      match r.own with
      | .waiting clientEnd =>
          if r.Free fd then
            (r.ffwd.step (.accept .msg fd)).map fun (f, calls) =>
              (⟨f, fd :: r.taken, .accepted clientEnd fd⟩, calls)
          else none
      | _ => none
  | .accept side fd =>
      if fd < 0 then some (⟨r.ffwd.accept side fd, r.taken, r.own⟩, [])
      else if r.Free fd then
        (r.ffwd.step (.accept side fd)).map fun (f, calls) => (⟨f, fd :: r.taken, r.own⟩, calls)
      else none
  | .read fd stack got =>
      (r.ffwd.step (.read fd stack got)).map fun (f, calls) => (r.afterRead f fd got, calls)
  | .exit =>
      match r.own.clientEnd with
      | some clientEnd => some (⟨r.ffwd, r.closing clientEnd, .closed⟩, [])
      | none => none

/-- The servers without clients, with the descriptors in use when `startSrv` returns. The constructor of
`ffwd` gives `ctlfd` no value. -/
def Relaying.begun (ctlfd : Int) (taken : List Int) : Relaying :=
  ⟨.static (-1) ctlfd, taken, .unmade⟩

/-- A step of the servers and the descriptors. -/
abbrev RelayingStep := Machine.Step Relaying Happening (List SysCall)

/-- The runs of the servers and the descriptors. -/
abbrev RelayingRun (ctlfd : Int) (taken : List Int) : List RelayingStep → Relaying → Prop :=
  Machine.Run Relaying.step (.begun ctlfd taken)

end Ppcom
