/-
Module: Ppcom.Session
Purpose: The state of a run of `ppcom` and the operations its functions are written with. A function
  is a program over the static variables, the local variables of `loop`, the terminal framework, and
  what the system is going to reply; a throw of it ends the run. The history of the run is kept in the
  state for statements to read, and nothing else reads it.
Trusted boundary: a call that is repeated while it is interrupted has the reply of its last round;
  messages on standard output and standard error are left out
Main exports: Build, Opts, TtyQ, Env, Event, Session, Stop, SessionM, checkpoint, onTerm, writenNi
-/
import Mathlib.Data.Stream.Init
import Ppcom.CharMap
import Ppcom.Input
import Ppcom.Lib.Buffer
import Ppcom.TermCall

namespace Ppcom

/-- What a build of the program fixes: `TTY_Q_SZ` and the baud rates. -/
structure Build extends Platform where
  ttyQSz : Nat

/-- `STI` and `STO`. -/
def sti : Int := 0

def sto : Int := 1

/-- `ppcom_opt_t`, without the port's name. A file name that is not set is `none`. -/
structure Opts where
  baud : Int
  flow : Flowcntrl
  parity : Parity
  databits : Int
  stopbits : Int
  lecho : Bool
  noinit : Bool
  noreset : Bool
  hangup : Bool
  escape : UInt8
  noescape : Bool
  sendCmd : List UInt8
  receiveCmd : List UInt8
  imap : Word
  omap : Word
  emap : Word
  logFilename : Option (List UInt8)
  initstring : Option (List UInt8)
  exitAfter : Int
  exit : Bool
  lowerRts : Bool
  lowerDtr : Bool
  raiseRts : Bool
  raiseDtr : Bool
  quiet : Bool

/-- `init_default_options`. -/
def Opts.default : Opts where
  baud := 9600
  flow := .none
  parity := .none
  databits := 8
  stopbits := 1
  lecho := false
  noinit := false
  noreset := false
  hangup := false
  escape := 0x71 &&& 0x1f
  noescape := false
  sendCmd := ascii "sz -vv"
  receiveCmd := ascii "rz -vv -E"
  imap := mIDfl
  omap := mODfl
  emap := mEDfl
  logFilename := none
  initstring := none
  exitAfter := -1
  exit := false
  lowerRts := false
  lowerDtr := false
  raiseRts := false
  raiseDtr := false
  quiet := false

/-- `struct tty_q`: `buff` is the allocated block. -/
structure TtyQ where
  sz : Nat
  len : Nat
  buff : List UInt8
deriving DecidableEq, Repr

namespace TtyQ

/-- `tty_q` when the program starts. -/
def static : TtyQ := ⟨0, 0, []⟩

/-- `tty_q.buff[0..tty_q.len)`. -/
def contents (q : TtyQ) : List UInt8 := q.buff.take q.len

end TtyQ

/-- The states of the escape machine of `loop`. -/
inductive LoopState where
  | command
  | transparent
deriving DecidableEq, Repr

/-! ### The system -/

/-- What `select` returns: which descriptors are ready to be read and written, nothing, or an error
that is `EINTR` or another. -/
inductive SelectReply where
  | ready (rd wr : Int → Bool)
  | timeout
  | eintr
  | failed

/-- What the system is going to reply. `write k` is how much of a request to the port is taken, and
`none` an error; `put` is how much of a request to another descriptor is taken before an error;
`realloc` gives the contents of the cells that a block gains, or fails; `term fd` has the replies
during the calls of the framework on `fd`; `child` is what an external program does to the settings of
the terminals, or `none` where it is not started. -/
structure Env where
  sigExit : Stream' Bool
  select : Stream' SelectReply
  stdin : Source
  port : Source
  ctl : Source
  write : Stream' (Option Nat)
  put : Stream' Nat
  realloc : Stream' (Option (Nat → UInt8))
  term : Int → Stream' Answers
  child : Stream' (Option ((Nat → Termios) → Nat → Termios))
  calloc : Bool
  atexit : Bool
  openLog : Int
  openPort : Int
  stdinTty : Bool
  msgfd : Int
  ctlfd : Int

/-! ### The history of a run -/

/-- What the loop does with a byte from standard input: it offers a byte to the queue or executes a
command. -/
inductive Action where
  | data (b : UInt8)
  | command (key : UInt8)
deriving DecidableEq, Repr

/-- The settings that a command can change. -/
inductive Setting where
  | baud
  | flow
  | parity
  | databits
  | stopbits
deriving DecidableEq, Repr

/-- What a prompt has read: a baud rate, which is negative where none was entered, a file name, or the
bytes of a hexadecimal string. -/
inductive Entry where
  | baud (newbaud : Int)
  | fname (fname : Option (List UInt8))
  | hex (hexbuf : List UInt8)
deriving DecidableEq, Repr

/-- What a run has done. -/
inductive Event where
  /-- `loop` read `buff` from standard input. -/
  | stdin (buff : List UInt8)
  /-- `loop` found that standard input was closed. -/
  | eof
  /-- `loop` starts to do `action` for a byte of it. -/
  | act (action : Action)
  /-- The prompt of a command has read `entry`. -/
  | enter (entry : Entry)
  /-- A command has switched local echo. -/
  | lecho (on : Bool)
  /-- `tty_q_push` stored the image of `b` in the queue. -/
  | accept (b : UInt8)
  /-- A settings command emptied the queue, which held `held`. -/
  | discard (setting : Setting) (held : List UInt8)
  /-- With `len` bytes in the queue, `sz` bytes were written to the port, which took `taken`; that is
  nothing where `write` returned zero or less. -/
  | write (len : Nat) (sz : Int) (taken : List UInt8)
  /-- `loop` read `buff` from the port. -/
  | port (buff : List UInt8)
  /-- `loop` read `buff` from `fd`, which it takes for the control socket. -/
  | ctl (fd : Int) (buff : List UInt8)
  /-- `loop` offers a byte of it to the queue. -/
  | ctlByte (b : UInt8)
  /-- `buff` was written to another descriptor. -/
  | put (fd : Int) (buff : List UInt8)
  /-- `term_apply` of `fd` succeeded, and the settings applied were `tio`. -/
  | applied (fd : Int) (tio : Termios)
deriving DecidableEq, Repr

/-! ### Runs -/

/-- `le_reason`. -/
inductive LeReason where
  | cmd
  | idle
  | stdin
  | signal
deriving DecidableEq, Repr

/-- Why a function does not return. `left` is the `goto` out of the loop, `fatal` a call of `fatal`
with a message of the given format, `abort` a failed assertion. A run is `blocked` in a `select` that nothing
ends, and `observed` where the statement that looks at it stops it. -/
inductive Stop where
  | left (reason : LeReason)
  | fatal (message : String)
  | abort
  | blocked
  | observed
deriving DecidableEq, Repr

/-- The state of a run. `budget` is the number of points that it may still pass before it is
observed. -/
structure Session where
  opts : Opts
  ttyFd : Int
  logFd : Int
  rtsUp : Bool
  dtrUp : Bool
  ttyQ : TtyQ
  ttyWriteSz : Int
  sys : Sys
  msgfd : Int
  ctlfd : Int
  state : LoopState
  stdinClosed : Bool
  env : Env
  budget : Nat
  trace : List Event

/-- A function of `ppcom.cpp`. -/
abbrev SessionM := EStateM Stop Session

/-- A point at which a run can be observed. -/
def checkpoint : SessionM Unit := do
  match (← get).budget with
  | 0 => throw .observed
  | n + 1 => modify fun s => { s with budget := n }

/-- The event is part of the history. -/
def emit (e : Event) : SessionM Unit :=
  modify fun s => { s with trace := s.trace ++ [e] }

/-- `fatal`, up to the point where it has left the functions that called it; `main` does the rest. -/
def fatal {α : Type} (message : String) : SessionM α := throw (.fatal message)

/-- The end of a program whose assertion failed. -/
def abort {α : Type} : SessionM α := throw .abort

/-! ### Calls -/

/-- The next value of a reply that comes as a stream. -/
def nextReply {α : Type} (stream : Env → Stream' α) (advance : Env → Stream' α → Env) :
    SessionM α := do
  let s ← get
  set { s with env := advance s.env (stream s.env).tail }
  return (stream s.env).head

/-- A call of the terminal framework on `fd`. -/
def onTerm {α : Type} (fd : Int) (f : Answers → TermM α) : SessionM (Except TermErrno α) := do
  let s ← get
  let answers := (s.env.term fd).head
  set { s with
    sys := (f answers).after s.sys
    env := { s.env with term := Function.update s.env.term fd (s.env.term fd).tail } }
  return (f answers).outcome s.sys

/-- Whether a call succeeded: `r >= 0`. -/
def succeeded {α : Type} (r : Except TermErrno α) : Bool := r.isOk

/-- The settings that `term_apply` of `fd` applies. -/
def Term.nextOf (term : Term) (fd : Int) : Termios :=
  match term.find fd with
  | .ok i => term.nexttermios i
  | .error _ => Termios.zero

/-- `term_apply`, as `ppcom.cpp` calls it. -/
def applyTerm (fd : Int) (now : Bool) : SessionM (Except TermErrno Unit) := do
  let next := (← get).sys.term.nextOf fd
  let r ← onTerm fd fun answers => termApply answers.toReplies fd now
  if succeeded r then emit (.applied fd next)
  return r

/-- `writen_ni`: the number of bytes written. -/
def writenNi (fd : Int) (buff : List UInt8) : SessionM Nat := do
  let k ← nextReply Env.put fun env rest => { env with put := rest }
  emit (.put fd (buff.take k))
  return (buff.take k).length

/-- `writen_ni` of bytes that all have to be written. -/
def writeAll (fd : Int) (buff : List UInt8) (message : String) : SessionM Unit := do
  if (← writenNi fd buff) < buff.length then fatal message

/-- What `realloc` to `sz` bytes fills the cells that the block gains with. A negative size is as
large as no block can be. -/
def realloc (sz : Int) : SessionM (Option (Nat → UInt8)) := do
  let reply ← nextReply Env.realloc fun env rest => { env with realloc := rest }
  return if sz ≤ 0 then none else reply

end Ppcom
