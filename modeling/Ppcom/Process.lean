/-
Module: Ppcom.Process
Purpose: The process, with its two threads in any order: the main thread, which executes `main`, and the
  one that `startSrv` starts for the servers and detaches, which calls `Epoll::wait` over and over and
  logs on standard output what it relays. `loop` has `mffwd` as a local variable: where it is left,
  `mffwd.exit()` closes the connections, and then `mffwd` is destroyed, with the descriptor of its `Epoll`.
  The thread goes on. Where `epoll_wait` fails, `Epoll::wait` throws, nothing catches it, and the process
  is aborted with all that the main thread has not done.
Trusted boundary: the main thread goes on from one point of observation to the next at once, and makes a
  call of the framework at once; of what the thread logs, the lines that have no data are left out;
  an assertion that fails and an exception that nothing catches end the process without its exit function;
  a callback that has begun when `mffwd` is destroyed goes on as if it were there
Main exports: Launch, EndStep, MainThread, PpcomProcess, ProcessInput, PpcomProcess.step, ProcessRun,
  ProcessStep.WaitFails, ProcessInput.Guest, Launch.Fresh
-/
import Ppcom.Main
import Ppcom.ServerThread
import Ppcom.Spec.Copies
import Ppcom.Spec.Streams

namespace Ppcom

/-! ### The end of `main` -/

/-- What is done, piece by piece, once `loop` is left. -/
inductive EndStep where
  /-- `mffwd.exit()`. -/
  | exitFfwd
  /-- `mffwd` is destroyed: `~Epoll` closes `epoll_fd`. -/
  | destroyFfwd
  | drain (fd : Int)
  | flush (fd : Int)
  | fakeFlush (fd : Int)
  | setHupcl (fd : Int) (on : Bool)
  | apply (fd : Int)
  | closePort (fd : Int)
  | release
  /-- `term_exitfunc`, for one slot. -/
  | reset (i : Slot)
deriving DecidableEq

/-- What a piece does for the main thread. -/
def EndStep.exec : EndStep → SessionM Unit
  | .exitFfwd | .destroyFfwd => return
  | .drain fd => discard <| onTerm fd fun answers => termDrain answers.toReplies fd
  | .flush fd => discard <| onTerm fd fun answers => termFlush answers.toReplies fd
  | .fakeFlush fd => discard <| onTerm fd fun answers => termFakeFlush answers.toReplies fd
  | .setHupcl fd on => discard <| onTerm fd fun _ => termSetHupcl fd on
  | .apply fd => discard <| applyTerm fd true
  | .closePort fd => Ppcom.closePort fd
  | .release =>
      modify fun s => { s with
        opts := { s.opts with initstring := none }
        ttyQ := { s.ttyQ with buff := [] } }
  | .reset i =>
      modify fun s =>
        let replies := fun i => (s.env.term (s.sys.term.fd i)).head.toReplies
        if s.sys.term.init then { s with sys := (resetSlot replies i).after s.sys } else s

namespace Session

variable (s : Session)

/-- The pieces of `cleanup`. -/
def cleanupSteps (drain noreset hup : Bool) : List EndStep :=
  (if 0 ≤ s.ttyFd then
    (if drain then [.drain s.ttyFd] else []) ++ [.flush s.ttyFd] ++
      (if s.opts.flow ≠ .none then [.fakeFlush s.ttyFd] else []) ++
      [.setHupcl s.ttyFd (!noreset || hup), .apply s.ttyFd] ++
      (if noreset then [.closePort s.ttyFd] else [])
  else []) ++ [.release]

/-- The pieces of the exit function. -/
def resetSteps : List EndStep := (List.finRange maxTerms).map .reset

/-- What follows `loop_end`. -/
def leaveSteps (ler : LeReason) : List EndStep :=
  [.exitFfwd, .destroyFfwd] ++ s.cleanupSteps (ler = .idle ∨ ler = .stdin) s.opts.noreset s.opts.hangup ++
    resetSteps

/-- What `fatal` does; `mffwd`, if there is one, stays. -/
def fatalSteps : List EndStep := s.cleanupSteps false s.opts.noreset s.opts.hangup ++ resetSteps

end Session

/-! ### The process -/

/-- What a process starts with. `ears` are the descriptors on which the servers listen once `startSrv` has
registered them, and there are none where it throws instead; `replies` are those to `setup_socket` for a
side; `stack` is what is in `mffwd.ctlfd` before. -/
structure Launch where
  build : Build
  opts : Opts
  world : World
  env : Env
  ears : Option Ears
  stack : Int
  replies : Side → SocketReplies

namespace Launch

variable (l : Launch)

/-- `mffwd` after `init`. -/
def ffwd : Ffwd := ((Ffwd.static (-1) l.stack).init (l.replies .msg) (l.replies .ctl)).2

/-- The system, with the connections that `init` leaves. -/
def settled : Env := { l.env with msgfd := l.ffwd.msgfd, ctlfd := l.ffwd.ctlfd }

/-- Where the main thread starts, if it is observed after `passed` points. -/
def start (passed : Nat) : Session := .start l.opts l.world l.settled passed

/-- What the main thread has come to after `passed` points, unless it has left `loop` before. -/
def run (passed : Nat) : EStateM.Result Stop Session LeReason := (untilLeft l.build).run (l.start passed)

end Launch

/-- Two descriptors that can be listened on. -/
def Ears.works : Ears where
  kernel := ⟨fun n => decide (0 ≤ n ∧ n ≤ 5), fun _ => false⟩
  fd
    | .msg => 4
    | .ctl => 5
  valid side := by cases side <;> decide
  opened side := by cases side <;> decide
  apart := by decide
  fresh _ := rfl

/-- A process whose servers start and whose connections are made. -/
def Launch.works (opts : Opts) (env : Env) : Launch where
  build := .cmake
  opts := opts
  world := .fresh
  env := env
  ears := some .works
  stack := 0
  replies
    | .msg => ⟨6, 1, 0⟩
    | .ctl => ⟨7, 1, 0⟩

/-- How the process ends: it exits, an assertion fails, or nothing catches an exception. -/
inductive Ending where
  | exited (xcode : Int)
  | asserted
  | terminated
deriving DecidableEq, Repr

/-- Where the main thread is. -/
inductive MainThread where
  /-- Before `startSrv`. -/
  | starting
  /-- In the call of `setup_socket` for a side. -/
  | connecting (side : Side)
  /-- In the `while` loop. -/
  | looping
  /-- On the way out, with what is left to be done. -/
  | leaving (todo : List EndStep) (s : Session) (xcode : Int)
  /-- The process has ended. -/
  | gone (ending : Ending) (s : Session)

/-- Who connects to a server: the program itself, or another one. -/
inductive Peer where
  | program
  | guest
deriving DecidableEq, Repr

/-- The server's end of the connection of the program. -/
inductive OwnEnd where
  | awaited
  | accepted (fd : Int)
  | dropped
deriving DecidableEq, Repr

/-- A line on standard output that has data in it, printed as a string. -/
inductive LogLine where
  /-- `[%d] Sent message to client fd %d: %s`. -/
  | sent (fd client : Int) (text : List UInt8)
  /-- `[%d] Received message(%d): %s`. -/
  | received (fd : Int) (bytesRead : Nat) (text : List UInt8)
deriving DecidableEq, Repr

/-- The state of the process. `passed` counts the points that the main thread has passed in `loop`;
`srvThrd` is the thread, once there is one, `polling` whether it is in `epoll_wait`, and `waited` what was
reported to it and callbacks are still to be called for. `ffwdExited` is whether `mffwd.exit()` was called,
and `epollOpen` whether `epoll_fd` is open. `own` is the end that a server has of the connection of the
program, `heard` what it has read from it, and `told` what it has written to it. -/
structure PpcomProcess where
  main : MainThread
  passed : Nat
  srvThrd : Option ServerThread
  polling : Bool
  waited : List Int
  ffwdExited : Bool
  epollOpen : Bool
  own : Side → OwnEnd
  heard : Side → List UInt8
  told : Side → List UInt8

/-- What happens next. -/
inductive ProcessInput where
  /-- The main thread goes on. -/
  | main
  /-- The other one calls `epoll_wait`. -/
  | poll
  /-- That call reports descriptors. -/
  | report (fds : List Int)
  /-- It calls the callback of the first of them, which finds something; where this is a new connection,
  `peer` has made it. -/
  | attend (found : Found) (peer : Peer)
  /-- A signal is handled by the other one while it is in that call, which fails. -/
  | interrupt

/-! ### The thread of the servers -/

/-- The lines that a callback logs. -/
def logLines (side : Side) (fd : Int) (stack : List UInt8) (got : ReadResult) (calls : List SysCall) :
    List LogLine :=
  (match side, got with
    | .ctl, .data m => [.received fd m.bytes.length (cString (got.store stack))]
    | _, _ => []) ++
  calls.filterMap fun
    | .write client text => some (.sent fd client text)
    | _ => none

namespace PpcomProcess

variable (l : Launch) (p : PpcomProcess)

/-- What the main thread has come to in `loop`. -/
def reached : Session := Program.final (l.run p.passed)

/-- The state of the main thread. -/
def session : Session :=
  match p.main with
  | .leaving _ s _ | .gone _ s => s
  | _ => p.reached l

/-- Whether the process has ended. -/
def ended : Bool :=
  match p.main with
  | .gone _ _ => true
  | _ => false

/-- An exception that nothing catches ends the process. -/
def abort : PpcomProcess := { p with main := .gone .terminated (p.session l) }

/-- Whether the program has begun to connect to a side. -/
def reaches (side : Side) : Bool :=
  match p.main, side with
  | .starting, _ => false
  | .connecting .msg, .ctl => false
  | _, _ => true

/-- Whether `accept` can return `client` on a server that listens on `fd`: a failure, or a connection that
`peer` has made. -/
def Accepts (w : ServerThread) (side : Side) (fd client : Int) (peer : Peer) : Prop :=
  client = -1 ∨ (w.kernel.opened fd = true ∧
    (peer = .program → (l.replies side).Connects ∧ p.reaches side = true ∧ p.own side = .awaited))

instance (w : ServerThread) (side : Side) (fd client : Int) (peer : Peer) :
    Decidable (p.Accepts l w side fd client peer) :=
  inferInstanceAs (Decidable (_ ∨ _ ∧ (_ → _ ∧ _ ∧ _)))

/-- Whether `read` can have this result on `fd`: from the connection of the program come the bytes that
`loop` has written to it, and the end when `mffwd.exit()` has closed it. -/
def Reads (side : Side) (fd : Int) (got : ReadResult) : Prop :=
  p.own side = .accepted fd →
    match got with
    | .data m => p.heard side ++ m.bytes <+: putTo (l.ffwd.ownfd side) (p.reached l).trace
    | .zero => p.ffwdExited = true
    | .failed => True

instance (side : Side) (fd : Int) (got : ReadResult) : Decidable (p.Reads l side fd got) := by
  unfold Reads
  cases got <;> infer_instance

/-- The thread has made its way to `w` and has the callbacks for `later` before it; an exception that a
callback throws ends the process. -/
def served (w : ServerThread) (later : List Int) (threw : Bool) : PpcomProcess :=
  { p with
    main := if threw then (p.abort l).main else p.main
    srvThrd := some w
    waited := later }

/-- `accept` has returned `client`. -/
def accepted (side : Side) (client : Int) (peer : Peer) : PpcomProcess :=
  if client ≠ -1 ∧ peer = .program then
    { p with own := Function.update p.own side (.accepted client) }
  else p

/-- A client was read from, and the callback has made its calls. -/
def read (side : Side) (fd : Int) (got : ReadResult) (calls : List SysCall) : PpcomProcess :=
  let heard := if p.own side = .accepted fd then (got.message.map Message.bytes).getD [] else []
  let told := calls.flatMap fun
    | .write client text => if p.own side = .accepted client then text else []
    | _ => []
  { p with
    own := if p.own side = .accepted fd ∧ got.message = none then Function.update p.own side .dropped
      else p.own
    heard := Function.update p.heard side (p.heard side ++ heard)
    told := Function.update p.told side (p.told side ++ told) }

/-- A callback of the thread, from beginning to end. -/
def attend (w : ServerThread) (fd : Int) (later : List Int) (found : Found) (peer : Peer) :
    Option (PpcomProcess × List LogLine) :=
  (w.event ⟨fd, found⟩).bind fun (w', done) =>
    let next := p.served l w' later done.threw
    match done.handed, found with
    | some (_, .accepts side), .accepted client =>
        if p.Accepts l w side fd client peer then some (next.accepted side client peer, []) else none
    | some (_, .reads side), .read stack got =>
        if p.Reads l side fd got then
          some (next.read side fd got done.calls, logLines side fd stack got done.calls)
        else none
    | _, _ => some (next, [])

/-! ### The main thread -/

/-- The main thread has left `loop`, or `main` before it. -/
def leave : EStateM.Result Stop Session LeReason → Option PpcomProcess
  | .ok ler s => some { p with main := .leaving (s.leaveSteps ler) s (if ler = .signal then 1 else 0) }
  | .error (.fatal _) s => some { p with main := .leaving s.fatalSteps s 1 }
  | .error .abort s => some { p with main := .gone .asserted s }
  | .error _ _ => none

/-- What is done to the descriptors that the servers know. -/
def atServers (step : EndStep) : PpcomProcess :=
  match step with
  | .exitFfwd =>
      let ears := (l.ears.map fun ears => [ears.fd .ctl, ears.fd .msg]).getD []
      let closing := ears ++ [l.ffwd.msgfd, l.ffwd.ctlfd]
      { p with
        ffwdExited := true
        srvThrd := p.srvThrd.map fun w => { w with kernel := closing.foldl EpollKernel.closes w.kernel } }
  | .destroyFfwd => { p with epollOpen := false }
  | _ => p

/-- The program makes its connection to a side. -/
def connect (side : Side) (next : MainThread) : PpcomProcess :=
  let socket := (l.replies side).socket
  { p with
    main := next
    srvThrd := p.srvThrd.map fun w => { w with
      ownfd := Function.update w.ownfd side (setupSocket (l.replies side))
      kernel := if 0 ≤ socket then w.kernel.opens socket else w.kernel } }

/-- What the main thread reads from the control connection is what the server has written to it. -/
def Hears (s : Session) : Prop :=
  (l.replies .ctl).Connects → (ctlChunks s.trace).flatten <+: p.told .ctl

instance (s : Session) : Decidable (p.Hears l s) := inferInstanceAs (Decidable (_ → _))

/-- The main thread goes on: up to `startSrv`, in `init`, to the next point in `loop` or out of it, and then
piece by piece to its end. -/
def mainStep : Option PpcomProcess :=
  match p.main with
  | .starting =>
      match l.run p.passed with
      | .error .observed s =>
          match l.ears with
          | some ears => some { p with
              main := .connecting .msg
              srvThrd := some (.begun ears (Ffwd.static (-1) l.stack).ownfd) }
          | none => some { p with main := .gone .terminated s }
      | early => p.leave early
  | .connecting .msg => some (p.connect l .msg (.connecting .ctl))
  | .connecting .ctl => some (p.connect l .ctl .looping)
  | .looping =>
      let next := { p with passed := p.passed + 1 }
      if p.Hears l (Program.final (l.run next.passed)) then
        match l.run next.passed with
        | .error .observed _ => some next
        | left => next.leave left
      else none
  | .leaving [] s xcode => some { p with main := .gone (.exited xcode) s }
  | .leaving (step :: todo) s xcode =>
      match step.exec.run s with
      | .ok _ s' => some { p.atServers l step with main := .leaving todo s' xcode }
      | .error _ _ => none
  | .gone _ _ => none

/-! ### Runs -/

/-- The step, and the lines that the thread of the servers logs. -/
def step (l : Launch) (p : PpcomProcess) : ProcessInput → Option (PpcomProcess × List LogLine)
  | .main => (p.mainStep l).map fun p => (p, [])
  | .poll =>
      match p.srvThrd, p.waited with
      | some _, [] =>
          if p.ended = false ∧ p.polling = false then
            some (if p.epollOpen then { p with polling := true } else p.abort l, [])
          else none
      | _, _ => none
  | .report fds =>
      match p.srvThrd with
      | some w =>
          if p.ended = false ∧ p.polling = true ∧ fds.Nodup ∧ ∀ fd ∈ fds, w.kernel.watched fd = true then
            some ({ p with polling := false, waited := fds }, [])
          else none
      | none => none
  | .attend found peer =>
      match p.srvThrd, p.waited with
      | some w, fd :: later => if p.ended = false then p.attend l w fd later found peer else none
      | _, _ => none
  | .interrupt => if p.ended = false ∧ p.polling = true then some (p.abort l, []) else none

/-- The process when it starts. -/
def start : PpcomProcess where
  main := .starting
  passed := 0
  srvThrd := none
  polling := false
  waited := []
  ffwdExited := false
  epollOpen := true
  own _ := .awaited
  heard _ := []
  told _ := []

end PpcomProcess

/-- A step of the process. -/
abbrev ProcessStep := Machine.Step PpcomProcess ProcessInput (List LogLine)

/-- The runs of the process. -/
abbrev ProcessRun (l : Launch) : List ProcessStep → PpcomProcess → Prop :=
  Machine.Run (PpcomProcess.step l) .start

/-- A call of `epoll_wait` fails: its descriptor is closed, or a signal comes. `Epoll::wait` throws then. -/
def ProcessStep.WaitFails (st : ProcessStep) : Prop :=
  st.input = .poll ∧ st.before.epollOpen = false ∨ st.input = .interrupt

/-- Another program connects to a server. -/
def ProcessInput.Guest : ProcessInput → Prop
  | .attend (.accepted client) .guest => client ≠ -1
  | _ => False

/-- A descriptor that the system makes is none of those in use. -/
structure Launch.Fresh (l : Launch) : Prop where
  socket (side : Side) : (l.replies side).socket ≠ sto
  apart : (l.replies .msg).Connects → (l.replies .ctl).socket ≠ (l.replies .msg).socket
  log : l.opts.logFilename.isSome →
    l.env.openLog ≠ sto ∧ ∀ side, l.env.openLog ≠ setupSocket (l.replies side)

end Ppcom
