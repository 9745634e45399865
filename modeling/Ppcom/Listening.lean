/-
Module: Ppcom.Listening
Purpose: `SocketServer` of `libffwd` with the descriptor that it listens on, and `startSrv` of
  `ffwd.cpp`, which starts two servers and registers their descriptors with `Epoll`.
Trusted boundary: a call that makes a descriptor returns -1 or a number that is not open; the rest of
  the program closes no socket that listens; `bind` to port 0 is given a port by the system
Main exports: Listener, SocketKernel, Listener.start, Servers, Servers.startSrv, serversStep
-/
import Ppcom.Epoll
import Ppcom.Ffwd

namespace Ppcom

/-! ### What the kernel knows -/

/-- The descriptors, with the port that each socket listens on. -/
structure SocketKernel extends EpollKernel where
  listening : Int → Option UInt16

namespace SocketKernel

variable (k : SocketKernel)

/-- What a call that makes a descriptor can return. -/
def Grants (fd : Int) : Prop := fd = -1 ∨ 0 ≤ fd ∧ k.opened fd = false

instance (fd : Int) : Decidable (k.Grants fd) := inferInstanceAs (Decidable (_ ∨ _))

/-- A descriptor is opened. -/
def opens (fd : Int) : SocketKernel := { k with toEpollKernel := k.toEpollKernel.opens fd }

/-- And closed. -/
def closes (fd : Int) : SocketKernel where
  toEpollKernel := k.toEpollKernel.closes fd
  listening := Function.update k.listening fd none

/-- A socket listens on a port. -/
def listens (fd : Int) (port : UInt16) : SocketKernel :=
  { k with listening := Function.update k.listening fd (some port) }

end SocketKernel

/-! ### A server -/

/-- `SocketServer` with the descriptor that it listens on. -/
structure Listener extends SocketServer where
  serverPort : Int
  serverFd : Int
deriving DecidableEq, Repr

/-- What the calls of `start` return, and the port that `bind` is given where it asks for none. -/
structure StartReplies where
  socket : Int
  assigned : UInt16
  bind : Int
  listen : Int
deriving DecidableEq, Repr

/-- `htons(server_port)`, as the port that it stands for. -/
def sinPort (serverPort : Int) : UInt16 := .ofInt serverPort

/-- The port of a socket that is bound. -/
def boundPort (serverPort : Int) (assigned : UInt16) : UInt16 :=
  if sinPort serverPort = 0 then assigned else sinPort serverPort

namespace Listener

variable (server : Listener) (k : SocketKernel)

/-- `SocketServer::SocketServer`. -/
def new (port : Int) : Listener := ⟨⟨[]⟩, port, -1⟩

/-- `SocketServer::start`. -/
def start (replies : StartReplies) : Listener × SocketKernel × Bool :=
  let server := { server with serverFd := replies.socket }
  if server.serverFd < 0 then (server, k, false)
  else
    let k := k.opens server.serverFd
    if replies.bind < 0 then (server, k.closes server.serverFd, false)
    else if replies.listen < 0 then (server, k.closes server.serverFd, false)
    else (server, k.listens server.serverFd (boundPort server.serverPort replies.assigned), true)

/-- `SocketServer::stop`, with the descriptors that it closes. -/
def stop : Listener × SocketKernel × List Int :=
  if 0 ≤ server.serverFd then
    ({ server with serverFd := -1 }, k.closes server.serverFd, [server.serverFd])
  else (server, k, [])

/-- `SocketServer::acceptClient`, where `accept` returns `fd`. -/
def acceptClient (fd : Int) : Listener × SocketKernel × Int :=
  let (clients, ret) := server.toSocketServer.acceptClient fd
  ({ server with toSocketServer := clients }, if fd < 0 then k else k.opens fd, ret)

end Listener

/-! ### Two servers -/

/-- The two servers of `ffwd`, its `Epoll`, and the kernel. -/
structure Servers where
  sockServ : Side → Listener
  mepoll : Epoll Side
  kernel : SocketKernel

namespace Servers

variable (s : Servers)

/-- `ffwd::ffwd`, where `kernel` has what is open before. -/
def new (srvPort : Int) (kernel : SocketKernel) : Servers where
  sockServ
    | .msg => .new srvPort
    | .ctl => .new (srvPort + 1)
  mepoll := .empty
  kernel := kernel

/-- `start` of one server. -/
def start (side : Side) (replies : StartReplies) : Servers × Bool :=
  let (server, kernel, ret) := (s.sockServ side).start s.kernel replies
  ({ s with sockServ := Function.update s.sockServ side server, kernel := kernel }, ret)

/-- `stop` of one server. -/
def stop (side : Side) : Servers × List Int :=
  let (server, kernel, closed) := (s.sockServ side).stop s.kernel
  ({ s with sockServ := Function.update s.sockServ side server, kernel := kernel }, closed)

/-- `acceptClient` of one server. -/
def acceptClient (side : Side) (fd : Int) : Servers × Int :=
  let (server, kernel, ret) := (s.sockServ side).acceptClient s.kernel fd
  ({ s with sockServ := Function.update s.sockServ side server, kernel := kernel }, ret)

/-- `mepoll.addSt(getSocketServerFD(), EPOLLIN, ..)` for one server, with the descriptor for which it
throws. -/
def watch (side : Side) (granted : Bool) : Servers × Option Int :=
  let fd := (s.sockServ side).serverFd
  let (mepoll, kernel, threw) := s.mepoll.addSt s.kernel.toEpollKernel fd 1 side granted
  ({ s with mepoll := mepoll, kernel := { s.kernel with toEpollKernel := kernel } },
    if threw then some fd else none)

/-- `startSrv` up to the thread that it starts; an exception ends it. -/
def startSrv (msg ctl : StartReplies) (granted : Side → Bool) : Servers × Option Int :=
  let s := (s.start .msg msg).1
  let s := (s.start .ctl ctl).1
  let (s, threw) := s.watch .msg (granted .msg)
  match threw with
  | some fd => (s, some fd)
  | none => s.watch .ctl (granted .ctl)

end Servers

/-! ### Runs -/

/-- A call with its replies, or a descriptor is opened or closed by the rest of the program. -/
inductive ServersInput where
  | start (side : Side) (replies : StartReplies)
  | stop (side : Side)
  | acceptClient (side : Side) (fd : Int)
  | startSrv (msg ctl : StartReplies) (granted : Side → Bool)
  | opened (fd : Int)
  | closed (fd : Int)

/-- What `stop` closes, and the descriptor for which `startSrv` throws. -/
structure ServersOutput where
  closed : List Int
  threw : Option Int
deriving DecidableEq, Repr

/-- The replies are those of some kernel that has the descriptors of `k`. -/
def StartReplies.Possible (replies : StartReplies) (k : SocketKernel) : Prop :=
  k.Grants replies.socket ∧ replies.assigned ≠ 0

instance (replies : StartReplies) (k : SocketKernel) : Decidable (replies.Possible k) :=
  inferInstanceAs (Decidable (_ ∧ _))

/-- The step. There is none for replies that are not possible. -/
def serversStep (s : Servers) : ServersInput → Option (Servers × ServersOutput)
  | .start side replies =>
      if replies.Possible s.kernel then some ((s.start side replies).1, ⟨[], none⟩) else none
  | .stop side =>
      let (s, closed) := s.stop side
      some (s, ⟨closed, none⟩)
  | .acceptClient side fd =>
      if s.kernel.Grants fd then some ((s.acceptClient side fd).1, ⟨[], none⟩) else none
  | .startSrv msg ctl granted =>
      if msg.Possible s.kernel ∧ ctl.Possible (s.start .msg msg).1.kernel then
        let (s, threw) := s.startSrv msg ctl granted
        some (s, ⟨[], threw⟩)
      else none
  | .opened fd =>
      if 0 ≤ fd ∧ s.kernel.opened fd = false then
        some ({ s with kernel := s.kernel.opens fd }, ⟨[], none⟩)
      else none
  | .closed fd =>
      if s.kernel.listening fd = none then
        some ({ s with kernel := s.kernel.closes fd }, ⟨[], none⟩)
      else none

end Ppcom
