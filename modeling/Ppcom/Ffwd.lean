/-
Module: Ppcom.Ffwd
Purpose: The forwarding of `ffwd.cpp` over `SocketServer` and `Epoll` of `libffwd`: the connections
  that `init` makes for `loop`, and the callbacks of the two servers with which a client relays to the
  others. A callback is given what `read` finds and what is on its stack, and it gives the calls that
  it makes, in their order.
Trusted boundary: what is logged, and the descriptors that the servers listen on, are left out
Main exports: Message, relay, Ffwd, Ffwd.handle, Ffwd.step, ServerRun, setupSocket, Ffwd.init
-/
import Mathlib.Logic.Function.Basic
import Ppcom.CLib
import Ppcom.Lib.Machine

namespace Ppcom

/-- The size of `buffer` in the callbacks. -/
def relayBufSz : Nat := 1024

/-! ### Clients of a server -/

/-- A call that the thread of the servers makes. -/
inductive SysCall where
  | close (fd : Int)
  | write (fd : Int) (text : List UInt8)
  /-- `Epoll::remove`. -/
  | epollRemove (fd : Int)
deriving DecidableEq, Repr

/-- `SocketServer`. -/
structure SocketServer where
  clientFds : List Int
deriving DecidableEq, Repr

namespace SocketServer

/-- `SocketServer::acceptClient`, where `accept` returns `fd`. -/
def acceptClient (server : SocketServer) (fd : Int) : SocketServer × Int :=
  if fd < 0 then (server, -1) else (⟨server.clientFds ++ [fd]⟩, fd)

/-- `SocketServer::removeClient`, and the calls that it makes. -/
def removeClient (server : SocketServer) (fd : Int) : SocketServer × List SysCall :=
  if fd ∈ server.clientFds then (⟨server.clientFds.erase fd⟩, [.close fd]) else (server, [])

end SocketServer

/-! ### Callbacks -/

/-- What `read` can store in `buffer`. -/
structure Message where
  bytes : List UInt8
  nonempty : 0 < bytes.length
  fits : bytes.length ≤ relayBufSz
deriving DecidableEq

/-- What the `read` of a callback finds: `bytes_read` is positive, zero or negative. -/
inductive ReadResult where
  | data (m : Message)
  | zero
  | failed
deriving DecidableEq

/-- The message of a `read` that finds one. -/
def ReadResult.message : ReadResult → Option Message
  | .data m => some m
  | _ => none

/-- What `read` and the store behind the message leave on the stack from `buffer` on. -/
def ReadResult.store (stack : List UInt8) : ReadResult → List UInt8
  | .data m => m.bytes ++ 0 :: stack.drop (m.bytes.length + 1)
  | _ => stack

/-- The number of bytes that `read` and that store reach. -/
def ReadResult.reach : ReadResult → Nat
  | .data m => m.bytes.length + 1
  | _ => 0

/-- The loop over the clients: a client is left out that is `ownfd`, a descriptor of the program's own
connection, or `fd`, or not positive. -/
def broadcast (ownfd fd : Int) (buffer : List UInt8) (clientFds : List Int) : List SysCall :=
  clientFds.filterMap fun clientFd =>
    if clientFd = ownfd ∨ clientFd = fd then none
    else if 0 < clientFd then some (.write clientFd (cString buffer))
    else none

/-- What a callback does: the server that it leaves, the calls that it makes, and how many bytes from
`buffer` on it reaches. -/
structure Relayed where
  server : SocketServer
  calls : List SysCall
  reach : Nat

/-- What a callback does with the client itself: it drops one whose `read` found nothing. -/
def dropFailed (server : SocketServer) (fd : Int) : ReadResult → SocketServer × List SysCall
  | .data _ => (server, [])
  | .zero | .failed =>
      let (server, removed) := server.removeClient fd
      (server, removed ++ [.close fd, .epollRemove fd])

/-- The body of the callbacks. After a failed `read` it goes on with what is on the stack. -/
def relay (server : SocketServer) (ownfd fd : Int) (stack : List UInt8) (got : ReadResult) :
    Relayed :=
  let (server, dropped) := dropFailed server fd got
  let buffer := got.store stack
  let sends := broadcast ownfd fd buffer server.clientFds
  ⟨server, dropped ++ sends, max got.reach (if sends = [] then 0 else strlen buffer + 1)⟩

/-- The two servers: messages and control. -/
inductive Side where
  | msg
  | ctl
deriving DecidableEq, Repr

/-- `ffwd`, with the callbacks that its `Epoll` has. -/
structure Ffwd where
  sockServMsg : SocketServer
  sockServCtl : SocketServer
  cbs : Int → Option Side
  msgfd : Int
  ctlfd : Int

namespace Ffwd

variable (f : Ffwd)

/-- `ppcom_EpollCallbackMsg`. -/
def ppcomEpollCallbackMsg (fd : Int) (stack : List UInt8) (got : ReadResult) : Relayed :=
  relay f.sockServMsg f.msgfd fd stack got

/-- `ppcom_EpollCallbackCtl`. -/
def ppcomEpollCallbackCtl (fd : Int) (stack : List UInt8) (got : ReadResult) : Relayed :=
  relay f.sockServCtl f.ctlfd fd stack got

/-- The server of a side. -/
def server : Side → SocketServer
  | .msg => f.sockServMsg
  | .ctl => f.sockServCtl

/-- The connection of the program to the server of a side. -/
def ownfd : Side → Int
  | .msg => f.msgfd
  | .ctl => f.ctlfd

/-- The callback of the clients of a side. -/
def callback : Side → Int → List UInt8 → ReadResult → Relayed
  | .msg => f.ppcomEpollCallbackMsg
  | .ctl => f.ppcomEpollCallbackCtl

/-- The server of a side is now `server`. -/
def withServer (side : Side) (server : SocketServer) : Ffwd :=
  match side with
  | .msg => { f with sockServMsg := server }
  | .ctl => { f with sockServCtl := server }

/-- The connection of the program to a side is now `fd`. -/
def withOwnfd (side : Side) (fd : Int) : Ffwd :=
  match side with
  | .msg => { f with msgfd := fd }
  | .ctl => { f with ctlfd := fd }

/-- The callback that `Epoll` has for `fd` is now `side`. -/
def withCallback (fd : Int) (side : Option Side) : Ffwd :=
  { f with cbs := Function.update f.cbs fd side }

/-- The callback of the descriptor that a server listens on, where `accept` returns `fd`. -/
def accept (side : Side) (fd : Int) : Ffwd :=
  let (server, client) := (f.server side).acceptClient fd
  let f := f.withServer side server
  if client ≠ -1 then f.withCallback client (some side) else f

/-- What the calls of a callback do to `ffwd` itself. -/
def call : SysCall → Ffwd
  | .epollRemove fd => f.withCallback fd none
  | _ => f

/-- The callback of a client from beginning to end, and the calls that it makes. -/
def handle (side : Side) (fd : Int) (stack : List UInt8) (got : ReadResult) :
    Ffwd × List SysCall :=
  let done := f.callback side fd stack got
  (done.calls.foldl call (f.withServer side done.server), done.calls)

/-- `ffwd` without clients. -/
def static (msgfd ctlfd : Int) : Ffwd := ⟨⟨[]⟩, ⟨[]⟩, fun _ => none, msgfd, ctlfd⟩

end Ffwd

/-! ### Runs of the servers -/

/-- What can happen to the servers: `accept` returns `fd`, the `read` of a client finds something, or
the program has made its own connection to a side. -/
inductive Activity where
  | accept (side : Side) (fd : Int)
  | read (fd : Int) (stack : List UInt8) (got : ReadResult)
  | connect (side : Side) (fd : Int)

/-- What an activity does, and the calls that it makes. The system accepts no client under a number
that another client has, and `Epoll` calls back for no descriptor without a callback. -/
def Ffwd.step (f : Ffwd) : Activity → Option (Ffwd × List SysCall)
  | .accept side fd =>
      if fd ∈ f.sockServMsg.clientFds ∨ fd ∈ f.sockServCtl.clientFds then none
      else some (f.accept side fd, [])
  | .read fd stack got => (f.cbs fd).map fun side => f.handle side fd stack got
  | .connect side fd => some (f.withOwnfd side fd, [])

/-- A step of the servers, which puts out the calls that it makes. -/
abbrev ServerStep := Machine.Step Ffwd Activity (List SysCall)

/-- The runs of the servers. -/
abbrev ServerRun (start : Ffwd) : List ServerStep → Ffwd → Prop := Machine.Run Ffwd.step start

/-! ### Connections of the program -/

/-- What the calls of `setup_socket` return. -/
structure SocketReplies where
  socket : Int
  inetPton : Int
  connect : Int
deriving DecidableEq, Repr

/-- `setup_socket`. -/
def setupSocket (replies : SocketReplies) : Int :=
  if replies.socket < 0 then 1
  else if replies.inetPton ≤ 0 then 1
  else if replies.connect < 0 then 1
  else replies.socket

/-- The calls of `setup_socket` have succeeded. -/
def SocketReplies.Connects (replies : SocketReplies) : Prop :=
  0 ≤ replies.socket ∧ 0 < replies.inetPton ∧ 0 ≤ replies.connect

instance (replies : SocketReplies) : Decidable replies.Connects :=
  inferInstanceAs (Decidable (_ ∧ _))

/-- `ffwd::init` once `startSrv` has returned: what it returns, and the `ffwd` that it leaves. -/
def Ffwd.init (f : Ffwd) (msg ctl : SocketReplies) : Int × Ffwd :=
  let f := f.withOwnfd .msg (setupSocket msg)
  if f.msgfd < 0 then (f.msgfd, f)
  else
    let f := f.withOwnfd .ctl (setupSocket ctl)
    if f.ctlfd < 0 then (f.ctlfd, f) else (0, f)

end Ppcom
