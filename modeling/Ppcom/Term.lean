/-
Module: Ppcom.Term
Purpose: The terminal framework of `term.cpp`. A function of the framework is a program over the
  static structure `term` and the devices behind the descriptors; a throw of `e` is
  `term_errno = e; rval = -1; break`. The replies of the system calls that one call of the framework
  makes are an argument of it, so that a statement for all replies covers every pattern of failures.
Trusted boundary: a failing system call changes nothing; a call on a negative descriptor fails
Main exports: Term, World, Sys, Replies, TermM, termFind, termAdd, termRemove, termErase, termReplace,
  termReset, termRevert, termRefresh, termApply, termSet, termFakeFlush, termLibInit, termExitfunc
-/
import Mathlib.Data.Fin.Tuple.Basic
import Ppcom.Termios

namespace Ppcom

/-- The number of slots of the framework. -/
abbrev maxTerms : Nat := 16

instance : NeZero maxTerms := ⟨by decide⟩

/-- `term_errno_e`, without the code for no error. -/
inductive TermErrno where
  | enoinit | efull | enotfound | eexists | eatexit | eisatty | eflush | egetattr | esetattr | ebaud
  | esetospeed | esetispeed | egetspeed | eparity | edatabits | estopbits | eflow | edtrdown | edtrup
  | emctl | edrain | ebreak | ertsdown | ertsup
deriving DecidableEq, Repr

/-- `parity_e`. -/
inductive Parity where
  | none | even | odd | mark | space | error
deriving DecidableEq, Repr

/-- `flowcntrl_e`. -/
inductive Flowcntrl where
  | none | rtscts | xonxoff | other | error
deriving DecidableEq, Repr

/-- The `optional_actions` of `tcsetattr` that the framework uses. -/
inductive When where
  | tcsanow | tcsaflush
deriving DecidableEq, Repr

/-- A slot of the framework. -/
abbrev Slot := Fin maxTerms

/-- The static structure `term`. -/
structure Term where
  init : Bool
  fd : Slot → Int
  origtermios : Slot → Termios
  currtermios : Slot → Termios
  nexttermios : Slot → Termios

namespace Term

/-- `term` when the program starts. -/
def static : Term where
  init := false
  fd := fun _ => 0
  origtermios := fun _ => Termios.zero
  currtermios := fun _ => Termios.zero
  nexttermios := fun _ => Termios.zero

/-- `term_find`. -/
def find (term : Term) (fd : Int) : Except TermErrno Slot :=
  if ¬ term.init then .error .enoinit
  else
    match Fin.find? fun i => decide (term.fd i = fd) with
    | some i => .ok i
    | none => .error .enotfound

/-- `term_find_next_free`. -/
def findNextFree (term : Term) : Except TermErrno Slot :=
  if ¬ term.init then .error .enoinit
  else
    match Fin.find? fun i => decide (term.fd i = -1) with
    | some i => .ok i
    | none => .error .efull

end Term

/-- A `tcsetattr` that succeeded. -/
structure SetCall where
  fd : Int
  when : When
  termios : Termios
deriving DecidableEq, Repr

/-- The terminal devices: which one a descriptor is open on, what settings each has, and the settings
written so far. -/
structure World where
  device : Int → Nat
  settings : Nat → Termios
  written : List SetCall

namespace World

/-- The settings of the device that `fd` is open on. -/
def settingsOf (w : World) (fd : Int) : Termios := w.settings (w.device fd)

/-- The world after `tcsetattr` of `t` on `fd`, where the device stored `stored`. -/
def store (w : World) (fd : Int) (when : When) (t stored : Termios) : World :=
  { w with
    settings := Function.update w.settings (w.device fd) stored
    written := w.written ++ [⟨fd, when, t⟩] }

end World

/-- What the framework works on. -/
structure Sys where
  term : Term
  world : World

/-- The replies of the system to the calls made by one function of the framework. `tcsetattr t` is
what a device stores when it is asked for `t`, and `none` where the call fails; `restore` is the same
for the second `tcsetattr` of `term_fake_flush`. A call that is repeated while it is interrupted has
the reply of its last round. -/
structure Replies where
  isatty : Bool
  tcgetattr : Bool
  tcsetattr : Termios → Option Termios
  restore : Termios → Option Termios
  tcflush : Bool
  tcdrain : Bool
  tcsendbreak : Bool
  atexit : Bool
  tiocmbic : Bool
  tiocmbis : Bool
  tiocmget : Option Word

/-- A function of the framework. -/
abbrev TermM := EStateM TermErrno Sys

/-! ### System calls -/

/-- `tcsetattr`; the reply is whether it succeeded. -/
def tcsetattr (stores : Termios → Option Termios) (fd : Int) (when : When) (t : Termios) :
    TermM Bool := do
  if fd < 0 then return false
  match stores t with
  | none => return false
  | some stored =>
      modify fun s => { s with world := s.world.store fd when t stored }
      return true

/-- `tcgetattr`; `none` is a failure, which writes nothing. -/
def tcgetattr (succeeds : Bool) (fd : Int) : TermM (Option Termios) := do
  if fd < 0 || !succeeds then return none
  return some ((← get).world.settingsOf fd)

/-- `isatty`. -/
def isatty (replies : Replies) (fd : Int) : Bool :=
  decide (0 ≤ fd) && replies.isatty

/-- `tcflush`. -/
def tcflush (replies : Replies) (fd : Int) : Bool :=
  decide (0 ≤ fd) && replies.tcflush

/-- `tcdrain`. -/
def tcdrain (replies : Replies) (fd : Int) : Bool :=
  decide (0 ≤ fd) && replies.tcdrain

/-! ### Access to `term` -/

/-- `term_find`, as the functions call it: a failure ends them. -/
def termFind (fd : Int) : TermM Slot := do
  match (← get).term.find fd with
  | .ok i => return i
  | .error e => throw e

/-- `term_find_next_free`, called likewise. -/
def termFindNextFree : TermM Slot := do
  match (← get).term.findNextFree with
  | .ok i => return i
  | .error e => throw e

/-- `term.fd[i] = fd`. -/
def setFd (i : Slot) (fd : Int) : TermM Unit :=
  modify fun s => { s with term := { s.term with fd := Function.update s.term.fd i fd } }

/-- `term.origtermios[i] = t`. -/
def setOrig (i : Slot) (t : Termios) : TermM Unit :=
  modify fun s =>
    { s with term := { s.term with origtermios := Function.update s.term.origtermios i t } }

/-- `term.currtermios[i] = t`. -/
def setCurr (i : Slot) (t : Termios) : TermM Unit :=
  modify fun s =>
    { s with term := { s.term with currtermios := Function.update s.term.currtermios i t } }

/-- `term.nexttermios[i] = t`. -/
def setNext (i : Slot) (t : Termios) : TermM Unit :=
  modify fun s =>
    { s with term := { s.term with nexttermios := Function.update s.term.nexttermios i t } }

/-- `c_cflag` of `t` with its `HUPCL` bit as `applied` has it. -/
def copyHupcl (applied t : Termios) : Termios :=
  if applied.cCflag &&& hupcl ≠ 0 then { t with cCflag := t.cCflag ||| hupcl }
  else { t with cCflag := t.cCflag &&& ~~~hupcl }

section Framework

variable (plat : Platform) (replies : Replies)

/-! ### The list of descriptors -/

/-- `term_add`. The value is what the C function returns on success, which is zero whatever the slot
is. -/
def termAdd (fd : Int) : TermM Slot := do
  if ((← get).term.find fd).isOk then throw .eexists
  unless isatty replies fd do throw .eisatty
  let i ← termFindNextFree
  match ← tcgetattr replies.tcgetattr fd with
  | none => throw .egetattr
  | some t =>
      setOrig i t
      setCurr i t
      setNext i t
      setFd i fd
      return 0

/-- `term_remove`. -/
def termRemove (fd : Int) : TermM Unit := do
  let i ← termFind fd
  if tcflush replies fd then
    if ← tcsetattr replies.tcsetattr fd .tcsanow ((← get).term.origtermios i) then
      setFd i (-1)
    else
      setFd i (-1)
      throw .esetattr
  else
    setFd i (-1)
    throw .eflush

/-- `term_erase`. -/
def termErase (fd : Int) : TermM Unit := do
  let i ← termFind fd
  setFd i (-1)

/-- `term_replace`. -/
def termReplace (oldfd newfd : Int) : TermM Unit := do
  let i ← termFind oldfd
  unless ← tcsetattr replies.tcsetattr newfd .tcsanow ((← get).term.currtermios i) do
    throw .esetattr
  match ← tcgetattr replies.tcgetattr newfd with
  | none => throw .egetattr
  | some t =>
      setCurr i t
      setFd i newfd

/-! ### Settings and the device -/

/-- `term_reset`. -/
def termReset (fd : Int) : TermM Unit := do
  let i ← termFind fd
  unless tcflush replies fd do throw .eflush
  unless ← tcsetattr replies.tcsetattr fd .tcsanow ((← get).term.origtermios i) do
    throw .esetattr
  match ← tcgetattr replies.tcgetattr fd with
  | none => throw .egetattr
  | some t =>
      setCurr i t
      setNext i t

/-- `term_revert`. -/
def termRevert (fd : Int) : TermM Unit := do
  let i ← termFind fd
  setNext i ((← get).term.currtermios i)

/-- `term_refresh`. -/
def termRefresh (fd : Int) : TermM Unit := do
  let i ← termFind fd
  match ← tcgetattr replies.tcgetattr fd with
  | none => throw .egetattr
  | some t => setCurr i t

/-- The `when` of `term_apply`. -/
def applyWhen (now : Bool) : When := if now then .tcsanow else .tcsaflush

/-- `term_apply`. -/
def termApply (fd : Int) (now : Bool) : TermM Unit := do
  let i ← termFind fd
  unless ← tcsetattr replies.tcsetattr fd (applyWhen now) ((← get).term.nexttermios i) do
    throw .esetattr
  match ← tcgetattr replies.tcgetattr fd with
  | none => throw .egetattr
  | some t =>
      setNext i t
      setCurr i t
      setOrig i (copyHupcl t ((← get).term.origtermios i))

/-! ### Setters of one parameter

Each finds the descriptor and then changes its `nexttermios`, or refuses the parameter and changes
nothing. -/

/-- The frame that the setters share. -/
def setParameter (change : Termios → Except TermErrno Termios) (fd : Int) : TermM Unit := do
  let i ← termFind fd
  match change ((← get).term.nexttermios i) with
  | .ok t => setNext i t
  | .error e => throw e

/-- What `term_set_raw` makes of `nexttermios`. -/
def withRaw (tio : Termios) : Except TermErrno Termios :=
  let tio := cfmakeraw tio
  .ok { tio with cCc := (tio.cCc.set vmin 1 vmin_lt).set vtime 0 vtime_lt }

/-- `term_set_raw`. -/
def termSetRaw (fd : Int) : TermM Unit := setParameter withRaw fd

/-- What `term_set_baudrate` makes of `nexttermios`. -/
def withBaudrate (baudrate : Int) (tio : Termios) : Except TermErrno Termios :=
  let spd := bcode plat baudrate
  if spd ≠ bnone then
    match cfsetospeed tio spd with
    | none => .error .esetospeed
    | some tio => .ok (cfsetispeedB0 plat tio)
  else if ¬ plat.useCustomBaud then .error .ebaud
  else
    match cfsetospeedCustom plat tio baudrate with
    | none => .error .esetospeed
    | some tio => .ok (cfsetispeedB0 plat tio)

/-- `term_set_baudrate`. -/
def termSetBaudrate (fd : Int) (baudrate : Int) : TermM Unit :=
  setParameter (withBaudrate plat baudrate) fd

/-- What `term_set_parity` makes of `nexttermios`. -/
def withParity (parity : Parity) (tio : Termios) : Except TermErrno Termios :=
  match parity with
  | .even => .ok { tio with cCflag := (tio.cCflag &&& ~~~(parodd ||| cmspar)) ||| parenb }
  | .odd => .ok { tio with cCflag := (tio.cCflag &&& ~~~cmspar) ||| (parenb ||| parodd) }
  | .mark => .ok { tio with cCflag := tio.cCflag ||| (parenb ||| parodd ||| cmspar) }
  | .space => .ok { tio with cCflag := (tio.cCflag &&& ~~~parodd) ||| (parenb ||| cmspar) }
  | .none => .ok { tio with cCflag := tio.cCflag &&& ~~~(parenb ||| parodd ||| cmspar) }
  | .error => .error .eparity

/-- `term_set_parity`. -/
def termSetParity (fd : Int) (parity : Parity) : TermM Unit :=
  setParameter (withParity parity) fd

/-- What `term_set_databits` makes of `nexttermios`. -/
def withDatabits (databits : Int) (tio : Termios) : Except TermErrno Termios :=
  match databits with
  | 5 => .ok { tio with cCflag := (tio.cCflag &&& ~~~csize) ||| cs5 }
  | 6 => .ok { tio with cCflag := (tio.cCflag &&& ~~~csize) ||| cs6 }
  | 7 => .ok { tio with cCflag := (tio.cCflag &&& ~~~csize) ||| cs7 }
  | 8 => .ok { tio with cCflag := (tio.cCflag &&& ~~~csize) ||| cs8 }
  | _ => .error .edatabits

/-- `term_set_databits`. -/
def termSetDatabits (fd : Int) (databits : Int) : TermM Unit :=
  setParameter (withDatabits databits) fd

/-- What `term_set_stopbits` makes of `nexttermios`. -/
def withStopbits (stopbits : Int) (tio : Termios) : Except TermErrno Termios :=
  match stopbits with
  | 1 => .ok { tio with cCflag := tio.cCflag &&& ~~~cstopb }
  | 2 => .ok { tio with cCflag := tio.cCflag ||| cstopb }
  | _ => .error .estopbits

/-- `term_set_stopbits`. -/
def termSetStopbits (fd : Int) (stopbits : Int) : TermM Unit :=
  setParameter (withStopbits stopbits) fd

/-- What `term_set_flowcntrl` makes of `nexttermios`. -/
def withFlowcntrl (flowcntl : Flowcntrl) (tio : Termios) : Except TermErrno Termios :=
  match flowcntl with
  | .rtscts =>
      .ok { tio with
        cCflag := tio.cCflag ||| crtscts
        cIflag := tio.cIflag &&& ~~~(ixon ||| ixoff ||| ixany) }
  | .xonxoff =>
      .ok { tio with
        cCflag := tio.cCflag &&& ~~~crtscts
        cIflag := tio.cIflag ||| (ixon ||| ixoff) }
  | .none =>
      .ok { tio with
        cCflag := tio.cCflag &&& ~~~crtscts
        cIflag := tio.cIflag &&& ~~~(ixon ||| ixoff ||| ixany) }
  | .other | .error => .error .eflow

/-- `term_set_flowcntrl`. -/
def termSetFlowcntrl (fd : Int) (flowcntl : Flowcntrl) : TermM Unit :=
  setParameter (withFlowcntrl flowcntl) fd

/-- What the setters of one bit of `c_cflag` make of `nexttermios`. -/
def withBit (bit : Word) (on : Bool) (tio : Termios) : Except TermErrno Termios :=
  .ok <|
    if on then { tio with cCflag := tio.cCflag ||| bit }
    else { tio with cCflag := tio.cCflag &&& ~~~bit }

/-- `term_set_local`. -/
def termSetLocal (fd : Int) (loc : Bool) : TermM Unit := setParameter (withBit clocal loc) fd

/-- `term_set_hupcl`. -/
def termSetHupcl (fd : Int) (on : Bool) : TermM Unit := setParameter (withBit hupcl on) fd

/-! ### All parameters at once -/

/-- The parameters of `term_set`. -/
structure Params where
  raw : Bool
  baud : Int
  parity : Parity
  databits : Int
  stopbits : Int
  fc : Flowcntrl
  loc : Bool
  hupClose : Bool
deriving DecidableEq, Repr

/-- The setters that `term_set` calls, in order, up to the first that fails. -/
def termSetAll (fd : Int) (p : Params) : TermM Unit := do
  if p.raw then termSetRaw fd
  termSetBaudrate plat fd p.baud
  termSetParity fd p.parity
  termSetDatabits fd p.databits
  termSetStopbits fd p.stopbits
  termSetFlowcntrl fd p.fc
  termSetLocal fd p.loc
  termSetHupcl fd p.hupClose

/-- `term_set`. -/
def termSet (fd : Int) (p : Params) : TermM Unit := do
  let found := (← get).term.find fd
  let ni ← match found with
    | .ok i => pure i
    | .error _ => termAdd replies fd
  let tio := (← get).term.nexttermios ni
  try termSetAll plat fd p
  catch e =>
    match found with
    | .error _ => setFd ni (-1)
    | .ok _ => setNext ni tio
    throw e

/-! ### Getters -/

/-- `term_get_baudrate`: the output speed. -/
def termGetBaudrate (fd : Int) : TermM Int := do
  let i ← termFind fd
  let tio := (← get).term.currtermios i
  let ospeed := bspeed plat (cfgetospeed tio)
  if ospeed < 0 then
    if ¬ plat.useCustomBaud then throw .egetspeed
    if cfgetospeedCustom tio < 0 then throw .egetspeed
    return cfgetospeedCustom tio
  return ospeed

/-- The parity mode that a `c_cflag` encodes. -/
def parityOf (flg : Word) : Parity :=
  if flg &&& parenb = 0 then .none
  else if flg &&& cmspar ≠ 0 then (if flg &&& parodd ≠ 0 then .mark else .space)
  else if flg &&& parodd ≠ 0 then .odd else .even

/-- `term_get_parity`. -/
def termGetParity (fd : Int) : TermM Parity := do
  let i ← termFind fd
  return parityOf ((← get).term.currtermios i).cCflag

/-- The number of data bits that a `c_cflag` encodes. -/
def databitsOf (flg : Word) : Int :=
  let size := flg &&& csize
  if size = cs5 then 5 else if size = cs6 then 6 else if size = cs7 then 7 else 8

/-- `term_get_databits`. -/
def termGetDatabits (fd : Int) : TermM Int := do
  let i ← termFind fd
  return databitsOf ((← get).term.currtermios i).cCflag

/-- The number of stop bits that a `c_cflag` encodes. -/
def stopbitsOf (flg : Word) : Int :=
  if flg &&& cstopb ≠ 0 then 2 else 1

/-- `term_get_stopbits`. -/
def termGetStopbits (fd : Int) : TermM Int := do
  let i ← termFind fd
  return stopbitsOf ((← get).term.currtermios i).cCflag

/-- The flow control mode that settings encode. -/
def flowcntrlOf (tio : Termios) : Flowcntrl :=
  let rtscts := tio.cCflag &&& crtscts ≠ 0
  let xoff := tio.cIflag &&& ixoff ≠ 0
  let xon := tio.cIflag &&& (ixon ||| ixany) ≠ 0
  if rtscts ∧ ¬ xoff ∧ ¬ xon then .rtscts
  else if ¬ rtscts ∧ xoff ∧ xon then .xonxoff
  else if ¬ rtscts ∧ ¬ xoff ∧ ¬ xon then .none
  else .other

/-- `term_get_flowcntrl`. -/
def termGetFlowcntrl (fd : Int) : TermM Flowcntrl := do
  let i ← termFind fd
  return flowcntrlOf ((← get).term.currtermios i)

/-! ### Modem lines and queues

None of these touches the settings, `term_fake_flush` apart. -/

/-- `term_lower_dtr` and `term_lower_rts`, which differ in the line and the error. -/
def lowerLine (e : TermErrno) (fd : Int) : TermM Unit := do
  discard <| termFind fd
  unless decide (0 ≤ fd) && replies.tiocmbic do throw e

/-- `term_raise_dtr` and `term_raise_rts`, likewise. -/
def raiseLine (e : TermErrno) (fd : Int) : TermM Unit := do
  discard <| termFind fd
  unless decide (0 ≤ fd) && replies.tiocmbis do throw e

/-- `term_lower_dtr`. -/
def termLowerDtr (fd : Int) : TermM Unit := lowerLine replies .edtrdown fd

/-- `term_raise_dtr`. -/
def termRaiseDtr (fd : Int) : TermM Unit := raiseLine replies .edtrup fd

/-- `term_lower_rts`. -/
def termLowerRts (fd : Int) : TermM Unit := lowerLine replies .ertsdown fd

/-- `term_raise_rts`. -/
def termRaiseRts (fd : Int) : TermM Unit := raiseLine replies .ertsup fd

/-- `term_pulse_dtr`. -/
def termPulseDtr (fd : Int) : TermM Unit := do
  termLowerDtr replies fd
  termRaiseDtr replies fd

/-- The bits of `TIOCMGET` and the `MCTL_` bits they become. -/
def mctlBits : List (Word × Word) :=
  [(0x002, 0x02), (0x100, 0x04), (0x040, 0x08), (0x004, 0x10), (0x020, 0x20), (0x080, 0x40)]

/-- `term_get_mctl`: the control lines, or `none` for the value -1. -/
def termGetMctl (fd : Int) : TermM (Option Word) := do
  discard <| termFind fd
  if fd < 0 then return none
  return replies.tiocmget.map fun pmctl =>
    mctlBits.foldl (fun mctl bit => if pmctl &&& bit.1 ≠ 0 then mctl ||| bit.2 else mctl) 0

/-- `term_drain`. -/
def termDrain (fd : Int) : TermM Unit := do
  discard <| termFind fd
  unless tcdrain replies fd do throw .edrain

/-- `term_flush`. -/
def termFlush (fd : Int) : TermM Unit := do
  discard <| termFind fd
  unless tcflush replies fd do throw .eflush

/-- `term_break`. -/
def termBreak (fd : Int) : TermM Unit := do
  discard <| termFind fd
  unless decide (0 ≤ fd) && replies.tcsendbreak do throw .ebreak

/-- `tio` without flow control. -/
def withoutFlow (tio : Termios) : Termios :=
  { tio with
    cCflag := tio.cCflag &&& ~~~crtscts
    cIflag := tio.cIflag &&& ~~~(ixon ||| ixoff ||| ixany) }

/-- `term_fake_flush`. -/
def termFakeFlush (fd : Int) : TermM Unit := do
  let i ← termFind fd
  match ← tcgetattr replies.tcgetattr fd with
  | none => throw .egetattr
  | some tio =>
      setCurr i tio
      unless ← tcsetattr replies.tcsetattr fd .tcsanow (withoutFlow tio) do throw .esetattr
      unless tcdrain replies fd do throw .edrain
      unless ← tcsetattr replies.restore fd .tcsanow ((← get).term.currtermios i) do
        throw .esetattr

end Framework

/-! ### Start and end of the framework -/

/-- A turn of the loop in `term_lib_init` for an initialised framework. -/
def resetSlot (replies : Slot → Replies) (i : Slot) : TermM Unit := do
  let fd := (← get).term.fd i
  unless fd = -1 do
    -- the results of the two calls decide nothing but a message
    discard <| tcsetattr (replies i).tcsetattr fd .tcsanow ((← get).term.origtermios i)
    setFd i (-1)

/-- `term_lib_init`; `replies i` are the replies to the calls made for slot `i`. -/
def termLibInit (atexitOk : Bool) (replies : Slot → Replies) : TermM Unit := do
  if (← get).term.init then
    (List.finRange maxTerms).forM (resetSlot replies)
  else
    (List.finRange maxTerms).forM fun i => setFd i (-1)
    unless atexitOk do throw .eatexit
    modify fun s => { s with term := { s.term with init := true } }

/-- `term_exitfunc`: per slot it also drains and flushes, and closes the descriptor, none of which
decides what it does to the settings. -/
def termExitfunc (replies : Slot → Replies) : TermM Unit := do
  if (← get).term.init then
    (List.finRange maxTerms).forM (resetSlot replies)

/-- The value that a function of the framework returns to its caller. -/
def rval {α : Type} : EStateM.Result TermErrno Sys α → Int
  | .ok _ _ => 0
  | .error _ _ => -1

end Ppcom
