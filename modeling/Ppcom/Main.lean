/-
Module: Ppcom.Main
Purpose: `main` of `ppcom.cpp` from the parsed options on, with `cleanup`, and the exit function, as the
  main thread executes them. The process has a second thread, which can end it before the main thread is
  done: `Ppcom.Process` has both.
Trusted boundary: the lock on the port; a descriptor that is closed keeps its device, which nothing
  uses any more
Main exports: cleanup, setDtrRts, openFiles, addPort, startUp, untilAdded, untilLeft, runMain, upTo,
  main, Session.start
-/
import Ppcom.Lib.Program
import Ppcom.Loop

namespace Ppcom

/-- The first part of `cleanup`: no data is left in the output buffer of the port. -/
def emptyPort (drain : Bool) (fd : Int) : SessionM Unit := do
  if drain then discard <| onTerm fd fun answers => termDrain answers.toReplies fd
  discard <| onTerm fd fun answers => termFlush answers.toReplies fd
  if (← get).opts.flow ≠ .none then
    discard <| onTerm fd fun answers => termFakeFlush answers.toReplies fd

/-- The part of `cleanup` for `noreset`: the port leaves the framework as it is and is closed. -/
def closePort (fd : Int) : SessionM Unit := do
  discard <| onTerm fd fun _ => termErase fd
  modify fun s => { s with ttyFd := -1 }

/-- The part of `cleanup` for an open port. -/
def releasePort (drain noreset hup : Bool) (fd : Int) : SessionM Unit := do
  emptyPort drain fd
  discard <| onTerm fd fun _ => termSetHupcl fd (!noreset || hup)
  discard <| applyTerm fd true
  if noreset then closePort fd

/-- `cleanup`. -/
def cleanup (drain noreset hup : Bool) : SessionM Unit := do
  let fd := (← get).ttyFd
  if 0 ≤ fd then releasePort drain noreset hup fd
  modify fun s => { s with
    opts := { s.opts with initstring := none }
    ttyQ := { s.ttyQ with buff := [] } }

/-- The end of the process: `exit` calls `term_exitfunc`. The calls it makes for a slot have the replies
that the descriptor in it has. -/
def exitProcess : SessionM Unit := do
  let s ← get
  let replies := fun i => (s.env.term (s.sys.term.fd i)).head.toReplies
  set { s with sys := (termExitfunc replies).after s.sys }

/-- One half of `set_dtr_rts`: the line is lowered, raised or left alone, as the options say. -/
def setLine (lower raise : Bool) (name : String) (lowerLine raiseLine : Replies → Int → TermM Unit)
    (record : Bool → Session → Session) : SessionM Unit := do
  let fd := (← get).ttyFd
  if lower then
    let r ← onTerm fd fun answers => lowerLine answers.toReplies fd
    if !succeeded r then fatal ("failed to lower " ++ name ++ " of port: %s")
    modify (record false)
  else if raise then
    let r ← onTerm fd fun answers => raiseLine answers.toReplies fd
    if !succeeded r then fatal ("failed to raise " ++ name ++ " of port: %s")
    modify (record true)

/-- `set_dtr_rts`. -/
def setDtrRts : SessionM Unit := do
  let opts := (← get).opts
  setLine opts.lowerRts opts.raiseRts "RTS" termLowerRts termRaiseRts
    fun up s => { s with rtsUp := up }
  setLine opts.lowerDtr opts.raiseDtr "DTR" termLowerDtr termRaiseDtr
    fun up s => { s with dtrUp := up }
  let fd := (← get).ttyFd
  match ← onTerm fd fun answers => termGetMctl answers.toReplies fd with
  | .ok (some mctl) =>
      if mctl ≠ mctlUnavail then
        modify fun s => { s with
          rtsUp := decide (mctl &&& mctlRts ≠ 0)
          dtrUp := decide (mctl &&& mctlDtr ≠ 0) }
  | _ => return

section Main

variable (build : Build)

/-- `term_lib_init`. -/
def initFramework : SessionM Unit := do
  let s ← get
  let init := termLibInit s.env.atexit fun _ => (s.env.term (-1)).head.toReplies
  set { s with sys := init.after s.sys }
  if !succeeded (init.outcome s.sys) then fatal "term_lib_init failed: %s"

/-- The log file is opened. -/
def openLog : SessionM Unit := do
  let s ← get
  if s.opts.logFilename.isSome then
    set { s with logFd := s.env.openLog }
    if s.env.openLog < 0 then fatal "cannot open %s: %s"

/-- The port is opened. -/
def openPort : SessionM Unit := do
  let s ← get
  set { s with ttyFd := s.env.openPort }
  if s.env.openPort < 0 then fatal "cannot open %s: %s"

/-- `main` up to where the port is open. -/
def openFiles : SessionM Unit := do
  initFramework
  openLog
  openPort

/-- The parameters of the `term_set` in `main`. -/
def Opts.params (opts : Opts) : Params where
  raw := true
  baud := opts.baud
  parity := opts.parity
  databits := opts.databits
  stopbits := opts.stopbits
  fc := opts.flow
  loc := true
  hupClose := !opts.noreset

/-- The port is added to the framework. -/
def addPort : SessionM Unit := do
  let s ← get
  let fd := s.ttyFd
  let r ← onTerm fd fun answers =>
    if s.opts.noinit then discard <| termAdd answers.toReplies fd
    else termSet build.toPlatform answers.toReplies fd s.opts.params
  if !succeeded r then fatal "failed to add port: %s"

/-- The port is configured. -/
def configurePort : SessionM Unit := do
  setDtrRts
  let fd := (← get).ttyFd
  let r ← applyTerm fd false
  if !succeeded r then fatal "failed to config port: %s"
  setDtrRts
  let baud ← onTerm fd fun _ => termGetBaudrate build.toPlatform fd
  setTtyWriteSz (intValue baud)
  let opts := (← get).opts
  if !opts.quiet && !opts.noinit then discard <| showStatus build

/-- Standard input is added to the framework and set to raw mode. -/
def addStdin : SessionM Unit := do
  let s ← get
  if !s.opts.exit && s.env.stdinTty then
    let r ← onTerm sti fun answers => termAdd answers.toReplies sti
    if !succeeded r then fatal "failed to add I/O device: %s"
    discard <| onTerm sti fun _ => termSetRaw sti
    let r ← applyTerm sti false
    if !succeeded r then fatal "failed to set I/O device to raw mode: %s"

/-- The queue is allocated. -/
def allocQueue : SessionM Unit := do
  if !(← get).env.calloc then fatal "out of memory"
  modify fun s => { s with
    ttyQ := { sz := ttyQSzMin, len := 0, buff := List.replicate ttyQSzMin 0 } }

/-- The init string goes into the queue. -/
def pushInitstring : SessionM Unit := do
  let opts := (← get).opts
  match opts.initstring with
  | none => return
  | some initstring => do
      if !opts.noinit then
        if (← ttyQPush build initstring) ≠ initstring.length then fatal "initstring too long!"
      modify fun s => { s with opts := { s.opts with initstring := none } }

/-- `main` from where the port is in the framework up to `loop`. -/
def startUp : SessionM Unit := do
  configurePort build
  addStdin
  allocQueue
  pushInitstring build

/-- `main` up to where the port is added. -/
def untilAdded : SessionM Unit := do
  openFiles
  addPort build

/-- `main` until `loop` has returned. -/
def untilLeft : SessionM LeReason := do
  openFiles
  addPort build
  startUp build
  loop build

/-- The end of `main` after `loop`: the exit code. -/
def terminate (ler : LeReason) : SessionM Int := do
  let opts := (← get).opts
  cleanup (ler = .idle ∨ ler = .stdin) opts.noreset opts.hangup
  return if ler = .signal then 1 else 0

/-- `main` after the options were parsed. -/
def runMain : SessionM Int := do
  openFiles
  addPort build
  startUp build
  let ler ← loop build
  terminate ler

/-- `main` up to the top of turn `n` of `loop`. -/
def upTo (n : Nat) : SessionM Unit := do
  openFiles
  addPort build
  startUp build
  enterLoop
  Program.times (loopTurn build) n

/-- The main thread: `fatal` cleans up and exits, and so does a `main` that returns, unless the other thread
ends the process before. -/
def main : SessionM Int := do
  let xcode ← tryCatch (runMain build) fun
    | .fatal _ => do
        let opts := (← get).opts
        cleanup false opts.noreset opts.hangup
        return 1
    | stop => throw stop
  exitProcess
  return xcode

end Main

/-- The state in which `main` starts once the options are parsed. -/
def Session.start (opts : Opts) (world : World) (env : Env) (budget : Nat) : Session where
  opts := opts
  ttyFd := -1
  logFd := -1
  rtsUp := true
  dtrUp := true
  ttyQ := TtyQ.static
  ttyWriteSz := 0
  sys := ⟨Term.static, world⟩
  msgfd := -1
  ctlfd := -1
  state := .transparent
  stdinClosed := false
  env := env
  budget := budget
  trace := []

/-- The build that the repository's `CMakeLists.txt` makes. -/
def Build.cmake : Build := ⟨⟨false, true⟩, 32768⟩

/-- A terminal behind every descriptor. -/
def World.fresh : World := ⟨Int.toNat, fun _ => Termios.zero, []⟩

/-- A system in which the port is descriptor 3 and every call succeeds, with the given input and
descriptors that are ready. -/
def Env.works (stdin port ctl : Source) (rd wr : Int → Bool) : Env where
  sigExit := Stream'.const false
  select := Stream'.const (.ready rd wr)
  stdin := stdin
  port := port
  ctl := ctl
  write := Stream'.const (some 1)
  put := Stream'.const 1000
  realloc := Stream'.const (some fun _ => 0)
  term := fun _ => Stream'.const ⟨allSucceed, fun _ => allSucceed⟩
  child := Stream'.const none
  calloc := true
  atexit := true
  openLog := 5
  openPort := 3
  stdinTty := false
  msgfd := 6
  ctlfd := 7

end Ppcom
