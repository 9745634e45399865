/-
Module: Ppcom.Modem
Purpose: The modem-line functions of `term.cpp` and the commands of `do_command` that call them, over
  the DTR and RTS lines of the port.
Trusted boundary: the lines change through the ioctls of this program alone; a failing ioctl changes
  nothing
Main exports: ModemLine, Wired, WiredM, Port, LineKey, LineKey.exec, lineStep
-/
import Ppcom.Command

namespace Ppcom

/-- The lines that the framework sets: `TIOCM_DTR` and `TIOCM_RTS`. -/
inductive ModemLine where
  | dtr
  | rts
deriving DecidableEq, Repr

/-- Whether each line of the port is up. -/
abbrev Lines := ModemLine → Bool

/-- What the framework works on, and the lines of the port. -/
structure Wired where
  sys : Sys
  lines : Lines

/-- A function of the framework that may change the lines. -/
abbrev WiredM := EStateM TermErrno Wired

namespace Wired

/-- `term_find`. -/
def termFind (fd : Int) : WiredM Slot := do
  match (← get).sys.term.find fd with
  | .ok i => return i
  | .error e => throw e

section Functions

variable (replies : Replies)

/-- Whether the ioctl `TIOCMBIC` of `fd` succeeds, and `TIOCMBIS` where a line is to go up. -/
def granted (fd : Int) (up : Bool) : Bool :=
  decide (0 ≤ fd) && (if up then replies.tiocmbis else replies.tiocmbic)

/-- `ioctl(fd, TIOCMBIC, &opins)`, and `TIOCMBIS` likewise. -/
def ioctl (fd : Int) (up : Bool) (opins : ModemLine) : WiredM Bool := do
  if granted replies fd up then
    modify fun w => { w with lines := Function.update w.lines opins up }
    return true
  else return false

/-- `term_raise_dtr`, `term_lower_dtr`, `term_raise_rts` and `term_lower_rts`, which differ in the
request, the line and the error. -/
def setLine (up : Bool) (opins : ModemLine) (e : TermErrno) (fd : Int) : WiredM Unit := do
  discard <| termFind fd
  unless ← ioctl replies fd up opins do throw e

/-- `term_lower_dtr`. -/
def termLowerDtr (fd : Int) : WiredM Unit := setLine replies false .dtr .edtrdown fd

/-- `term_raise_dtr`. -/
def termRaiseDtr (fd : Int) : WiredM Unit := setLine replies true .dtr .edtrup fd

/-- `term_lower_rts`. -/
def termLowerRts (fd : Int) : WiredM Unit := setLine replies false .rts .ertsdown fd

/-- `term_raise_rts`. -/
def termRaiseRts (fd : Int) : WiredM Unit := setLine replies true .rts .ertsup fd

/-- `term_pulse_dtr`. -/
def termPulseDtr (fd : Int) : WiredM Unit := do
  discard <| termFind fd
  unless ← ioctl replies fd false .dtr do throw .edtrdown
  unless ← ioctl replies fd true .dtr do throw .edtrup

end Functions

end Wired

/-! ### The commands -/

/-- The program and the lines of its port. -/
structure Port where
  session : Session
  lines : Lines

/-- A command over the lines. -/
abbrev PortM := EStateM Stop Port

/-- Whether the framework returns a value that is not negative. -/
def WiredM.returns (x : WiredM Unit) (w : Wired) : Bool :=
  (Program.returned (x.run w)).isSome

namespace Port

/-- The part of the program that the framework works on, and the lines. -/
def wired (p : Port) : Wired := ⟨p.session.sys, p.lines⟩

/-- The replies to the next call of the framework on the port. -/
def answers (p : Port) : Answers := (p.session.env.term p.session.ttyFd).head

/-- The program after a call of the framework on its port, which leaves `w`. -/
def called (p : Port) (w : Wired) : Port where
  session := { p.session with
    sys := w.sys
    env := { p.session.env with
      term := Function.update p.session.env.term p.session.ttyFd
        (p.session.env.term p.session.ttyFd).tail } }
  lines := w.lines

/-- A call of the framework on the port: whether `r >= 0`. -/
def onTerm (f : Answers → WiredM Unit) : PortM Bool := do
  let p ← get
  let x := f p.answers
  set (p.called (Program.final (x.run p.wired)))
  return x.returns p.wired

/-- `dtr_up = up`. -/
def setDtrUp (up : Bool) : PortM Unit :=
  modify fun p => { p with session := { p.session with dtrUp := up } }

/-- `rts_up = up`. -/
def setRtsUp (up : Bool) : PortM Unit :=
  modify fun p => { p with session := { p.session with rtsUp := up } }

/-- `KEY_PULSE`; the value of it and of the toggles is whether the call of the framework succeeded. -/
def cmdPulse : PortM Bool := do
  let fd := (← get).session.ttyFd
  let r ← onTerm fun answers => Wired.termPulseDtr answers.toReplies fd
  if r then setDtrUp true
  return r

/-- `KEY_TOG_DTR`. -/
def cmdTogDtr : PortM Bool := do
  let s := (← get).session
  let r ← onTerm fun answers =>
    if s.dtrUp then Wired.termLowerDtr answers.toReplies s.ttyFd
    else Wired.termRaiseDtr answers.toReplies s.ttyFd
  if r then setDtrUp !s.dtrUp
  return r

/-- `KEY_TOG_RTS`. -/
def cmdTogRts : PortM Bool := do
  let s := (← get).session
  let r ← onTerm fun answers =>
    if s.rtsUp then Wired.termLowerRts answers.toReplies s.ttyFd
    else Wired.termRaiseRts answers.toReplies s.ttyFd
  if r then setRtsUp !s.rtsUp
  return r

end Port

/-- The keys of the modem lines. -/
inductive LineKey where
  | pulse
  | togDtr
  | togRts
deriving DecidableEq, Repr

namespace LineKey

/-- The command key. -/
def key : LineKey → Key
  | .pulse => .pulse
  | .togDtr => .togDtr
  | .togRts => .togRts

/-- The `case` of a key. -/
def exec : LineKey → PortM Bool
  | .pulse => Port.cmdPulse
  | .togDtr => Port.cmdTogDtr
  | .togRts => Port.cmdTogRts

end LineKey

/-- A command, as a step of a machine that takes one key after the other. -/
def lineStep (p : Port) (key : LineKey) : Option (Port × Bool) :=
  (Program.returned (key.exec.run p)).map fun (r, p') => (p', r)

end Ppcom
