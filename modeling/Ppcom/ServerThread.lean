/-
Module: Ppcom.ServerThread
Purpose: The thread that `startSrv` of `ffwd.cpp` starts: it calls `Epoll::wait` over and over, which looks
  up each descriptor that `epoll_wait` reports in the containers of `Epoll` and calls its callback, a
  lambda of `startSrv` for the descriptors that the servers listen on, and `ppcom_EpollCallbackMsg` or
  `ppcom_EpollCallbackCtl` for their clients.
Trusted boundary: nothing is registered with `Epoll::add`, which this program does not call; `epoll_wait`
  reports registered descriptors, each once; `accept` returns -1 or a number that is not open; nothing but
  the numbers themselves is in the way of `EPOLL_CTL_ADD`; a callback that is erased while it runs goes on
Main exports: Callback, PollEvent, Attended, ServerThread, ServerThread.event, ServerThread.wait, waitStep
-/
import Ppcom.Epoll
import Ppcom.Ffwd

namespace Ppcom

/-- The callbacks that `Epoll` is given: that of a descriptor on which a server listens, and that of its
clients. -/
inductive Callback where
  | accepts (side : Side)
  | reads (side : Side)
deriving DecidableEq, Repr

/-- What the call finds with which a callback begins: `accept` returns a number, or `read` its result. -/
inductive Found where
  | accepted (fd : Int)
  | read (stack : List UInt8) (got : ReadResult)

/-- A descriptor that is reported with `EPOLLIN`, and what its callback will find. -/
structure PollEvent where
  fd : Int
  found : Found

/-- What was done about an event: what was looked up in the containers, the calls of the callback, and
whether it threw. -/
structure Attended where
  handed : Option (EpollSt × Callback)
  calls : List SysCall
  threw : Bool

/-- The servers, the connections of the program to them, `Epoll` and the kernel. -/
structure ServerThread where
  server : Side → SocketServer
  ownfd : Side → Int
  mepoll : Epoll Callback
  kernel : EpollKernel

namespace ServerThread

variable (w : ServerThread)

/-- The lambda of a server, where `accept` returns `fd`; the last value is whether `addSt` throws. -/
def acceptClient (side : Side) (fd : Int) : ServerThread × Bool :=
  let (server, client) := (w.server side).acceptClient fd
  let kernel := if fd < 0 then w.kernel else w.kernel.opens fd
  let w := { w with server := Function.update w.server side server, kernel := kernel }
  if client ≠ -1 then
    let (mepoll, kernel, threw) := w.mepoll.addSt w.kernel client 1 (.reads side) true
    ({ w with mepoll := mepoll, kernel := kernel }, threw)
  else (w, false)

/-- What a call of a callback does to the descriptors. -/
def call : SysCall → ServerThread
  | .close fd => { w with kernel := w.kernel.closes fd }
  | .write _ _ => w
  | .epollRemove fd =>
      let (mepoll, kernel) := w.mepoll.remove w.kernel fd
      { w with mepoll := mepoll, kernel := kernel }

/-- `ppcom_EpollCallbackMsg` or `ppcom_EpollCallbackCtl`, with the calls that it makes. -/
def readClient (side : Side) (fd : Int) (stack : List UInt8) (got : ReadResult) :
    ServerThread × List SysCall :=
  let done := relay (w.server side) (w.ownfd side) fd stack got
  (done.calls.foldl call { w with server := Function.update w.server side done.server }, done.calls)

/-- What `Epoll::wait` does about one event. There is nothing where `found` cannot be what the callback
finds. -/
def event (e : PollEvent) : Option (ServerThread × Attended) :=
  match w.mepoll.handed e.fd, e.found with
  | none, _ => some (w, ⟨none, [], false⟩)
  | some (st, .accepts side), .accepted fd =>
      if fd = -1 ∨ 0 ≤ fd ∧ w.kernel.opened fd = false then
        let (w, threw) := w.acceptClient side fd
        some (w, ⟨some (st, .accepts side), [], threw⟩)
      else none
  | some (st, .reads side), .read stack got =>
      let (w, calls) := w.readClient side e.fd stack got
      some (w, ⟨some (st, .reads side), calls, false⟩)
  | some (_, .accepts _), .read _ _ | some (_, .reads _), .accepted _ => none

/-- `Epoll::wait`, where `epoll_wait` reports the events; an exception ends it. -/
def wait : ServerThread → List PollEvent → Option (ServerThread × List Attended)
  | w, [] => some (w, [])
  | w, e :: later =>
      (w.event e).bind fun (w, attended) =>
        if attended.threw then some (w, [attended])
        else (wait w later).map fun (w, more) => (w, attended :: more)

end ServerThread

/-- What `epoll_wait` can report. -/
def Reported (k : EpollKernel) (events : List PollEvent) : Prop :=
  (events.map PollEvent.fd).Nodup ∧ ∀ e ∈ events, k.watched e.fd = true

instance (k : EpollKernel) (events : List PollEvent) : Decidable (Reported k events) :=
  inferInstanceAs (Decidable (_ ∧ _))

/-! ### Runs -/

/-- The thread waits, or the program has made its own connection to a side. -/
inductive WaitInput where
  | wait (events : List PollEvent)
  | connect (side : Side) (fd : Int)

/-- The step, and what was done about the events. -/
def waitStep (w : ServerThread) : WaitInput → Option (ServerThread × List Attended)
  | .wait events => if Reported w.kernel events then w.wait events else none
  | .connect side fd => some ({ w with ownfd := Function.update w.ownfd side fd }, [])

/-- The descriptors on which the servers listen. -/
structure Ears where
  kernel : EpollKernel
  fd : Side → Int
  valid : ∀ side, 0 ≤ fd side
  opened : ∀ side, kernel.opened (fd side) = true
  apart : fd .msg ≠ fd .ctl
  fresh : ∀ n, kernel.watched n = false

/-- The state that `startSrv` leaves when both servers have started. -/
def ServerThread.begun (ears : Ears) (ownfd : Side → Int) : ServerThread :=
  let (mepoll, kernel, _) := Epoll.empty.addSt ears.kernel (ears.fd .msg) 1 (.accepts .msg) true
  let (mepoll, kernel, _) := mepoll.addSt kernel (ears.fd .ctl) 1 (.accepts .ctl) true
  ⟨fun _ => ⟨[]⟩, ownfd, mepoll, kernel⟩

end Ppcom
