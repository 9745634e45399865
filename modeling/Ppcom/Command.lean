/-
Module: Ppcom.Command
Purpose: The commands of `ppcom.cpp`: the keys, the steps of the settings, `show_status`, `run_cmd` in
  the program itself, and `do_command`.
Trusted boundary: what the commands print is left out; the child of `run_cmd` is part of the system
Main exports: Key, Key.ofByte, changeSetting, showStatus, runCmd, Key.exec, doCommand
-/
import Ppcom.Queue

namespace Ppcom

/-! ### Keys -/

/-- The command keys. -/
inductive Key where
  | exit
  | quit
  | pulse
  | togDtr
  | togRts
  | baud
  | baudUp
  | baudDn
  | flow
  | parity
  | bits
  | stop
  | lecho
  | status
  | help
  | keys
  | send
  | receive
  | hex
  | brk
deriving DecidableEq, Repr

/-- The `case` label of a byte; `none` is the default of the `switch`. -/
def Key.ofByte (c : UInt8) : Option Key :=
  match c with
  | 0x78 => some .exit
  | 0x71 => some .quit
  | 0x70 => some .pulse
  | 0x74 => some .togDtr
  | 0x67 => some .togRts
  | 0x62 => some .baud
  | 0x75 => some .baudUp
  | 0x64 => some .baudDn
  | 0x66 => some .flow
  | 0x79 => some .parity
  | 0x69 => some .bits
  | 0x6a => some .stop
  | 0x63 => some .lecho
  | 0x76 => some .status
  | 0x68 => some .help
  | 0x6b => some .keys
  | 0x73 => some .send
  | 0x72 => some .receive
  | 0x77 => some .hex
  | 0x5c => some .brk
  | _ => none

/-! ### Steps of the settings -/

/-- `baud_up`. -/
def baudUp (plat : Platform) (baud : Int) : Int := termBaudUp plat baud

/-- `baud_down`. -/
def baudDown (plat : Platform) (baud : Int) : Int :=
  let nb := termBaudDown plat baud
  if nb = 0 then baud else nb

/-- `flow_next`. -/
def flowNext : Flowcntrl → Flowcntrl
  | .none => .rtscts
  | .rtscts => .xonxoff
  | .xonxoff => .none
  | _ => .none

/-- `parity_next`. -/
def parityNext : Parity → Parity
  | .none => .even
  | .even => .odd
  | .odd => .none
  | _ => .none

/-- `bits_next`. -/
def bitsNext (bits : Int) : Int := if bits + 1 > 8 then 5 else bits + 1

/-- `stopbits_next`. -/
def stopbitsNext (bits : Int) : Int := if bits + 1 > 2 then 1 else bits + 1

/-! ### Commands -/

/-- A prompt reads standard input. -/
def prompt {α : Type} (read : Source → α × Source) (entry : α → Entry) : SessionM α := do
  let s ← get
  set { s with env := { s.env with stdin := (read s.env.stdin).2 } }
  emit (.enter (entry (read s.env.stdin).1))
  return (read s.env.stdin).1

/-- What the commands that change a setting do once its option has the new value. -/
def changeSetting (setting : Setting) (set : Int → TermM Unit) : SessionM Unit := do
  let fd := (← get).ttyFd
  discard <| onTerm fd fun _ => set fd
  discardQueue setting
  discard <| onTerm fd fun answers => termFlush answers.toReplies fd
  discard <| applyTerm fd true

/-- The value of a getter, which is -1 where it fails. -/
def intValue (r : Except TermErrno Int) : Int :=
  match r with
  | .ok value => value
  | .error _ => -1

/-- Whether the value of a getter is not the one asked for. -/
def mismatch {α : Type} [DecidableEq α] (asked : α) (r : Except TermErrno α) : Bool :=
  match r with
  | .ok value => decide (value ≠ asked)
  | .error _ => true

def mctlUnavail : Word := 0x01

def mctlDtr : Word := 0x02

def mctlRts : Word := 0x10

section Commands

variable (build : Build)

/-- `KEY_BAUD`, `KEY_BAUD_UP` and `KEY_BAUD_DN`, from where `opts.baud` is set. -/
def cmdBaud (baud : Int) : SessionM Unit := do
  modify fun s => { s with opts := { s.opts with baud := baud } }
  changeSetting .baud fun fd => termSetBaudrate build.toPlatform fd baud
  let fd := (← get).ttyFd
  let newbaud ← onTerm fd fun _ => termGetBaudrate build.toPlatform fd
  setTtyWriteSz (intValue newbaud)

/-- `KEY_FLOW`. -/
def cmdFlow : SessionM Unit := do
  let flow := flowNext (← get).opts.flow
  modify fun s => { s with opts := { s.opts with flow := flow } }
  changeSetting .flow fun fd => termSetFlowcntrl fd flow

/-- `KEY_PARITY`. -/
def cmdParity : SessionM Unit := do
  let parity := parityNext (← get).opts.parity
  modify fun s => { s with opts := { s.opts with parity := parity } }
  changeSetting .parity fun fd => termSetParity fd parity

/-- `KEY_BITS`. -/
def cmdBits : SessionM Unit := do
  let databits := bitsNext (← get).opts.databits
  modify fun s => { s with opts := { s.opts with databits := databits } }
  changeSetting .databits fun fd => termSetDatabits fd databits

/-- `KEY_STOP`. -/
def cmdStop : SessionM Unit := do
  let stopbits := stopbitsNext (← get).opts.stopbits
  modify fun s => { s with opts := { s.opts with stopbits := stopbits } }
  changeSetting .stopbits fun fd => termSetStopbits fd stopbits

/-- `show_status`: the number of mismatches. -/
def showStatus : SessionM Nat := do
  let s ← get
  let fd := s.ttyFd
  discard <| onTerm fd fun answers => termRefresh answers.toReplies fd
  let baud ← onTerm fd fun _ => termGetBaudrate build.toPlatform fd
  let flow ← onTerm fd fun _ => termGetFlowcntrl fd
  let parity ← onTerm fd fun _ => termGetParity fd
  let bits ← onTerm fd fun _ => termGetDatabits fd
  let stopbits ← onTerm fd fun _ => termGetStopbits fd
  let settings := [decide (intValue baud ≠ s.opts.baud), mismatch s.opts.flow flow,
    mismatch s.opts.parity parity, decide (intValue bits ≠ s.opts.databits),
    decide (intValue stopbits ≠ s.opts.stopbits)]
  match ← onTerm fd fun answers => termGetMctl answers.toReplies fd with
  | .ok (some mctl) =>
      if mctl = mctlUnavail then return settings.count true
      let lines := [decide (mctl &&& mctlDtr ≠ 0) != s.dtrUp, decide (mctl &&& mctlRts ≠ 0) != s.rtsUp]
      return (settings ++ lines).count true
  | _ => return settings.count true

/-- `KEY_PULSE`. -/
def cmdPulse : SessionM Unit := do
  let fd := (← get).ttyFd
  let r ← onTerm fd fun answers => termPulseDtr answers.toReplies fd
  if succeeded r then modify fun s => { s with dtrUp := true }

/-- `KEY_TOG_DTR`. -/
def cmdTogDtr : SessionM Unit := do
  let s ← get
  let r ← onTerm s.ttyFd fun answers =>
    if s.dtrUp then termLowerDtr answers.toReplies s.ttyFd
    else termRaiseDtr answers.toReplies s.ttyFd
  if succeeded r then modify fun s => { s with dtrUp := !s.dtrUp }

/-- `KEY_TOG_RTS`. -/
def cmdTogRts : SessionM Unit := do
  let s ← get
  let r ← onTerm s.ttyFd fun answers =>
    if s.rtsUp then termLowerRts answers.toReplies s.ttyFd
    else termRaiseRts answers.toReplies s.ttyFd
  if succeeded r then modify fun s => { s with rtsUp := !s.rtsUp }

/-- `run_cmd`, in the parent. It waits for the child to end. -/
def runCmd : SessionM Unit := do
  let child ← nextReply Env.child fun env rest => { env with child := rest }
  match child with
  | none => return
  | some work =>
      modify fun s => { s with
        sys := { s.sys with world := { s.sys.world with settings := work s.sys.world.settings } } }
      discard <| applyTerm sti false

/-- `KEY_SEND` and `KEY_RECEIVE`, which differ in the command. -/
def cmdTransfer (xfrCmd : List UInt8) : SessionM Unit := do
  if xfrCmd = [] then return
  match ← prompt readFilename .fname with
  | none => return
  | some _ => runCmd

/-- `KEY_HEX`. -/
def cmdHex : SessionM Unit := do
  let hexbuf ← prompt (readHex hexbufSz) .hex
  discard <| ttyQPush build hexbuf

/-- The `case` of a key: whether the command ends the program. -/
def Key.exec : Key → SessionM Bool
  | .exit => return true
  | .quit => do
      modify fun s => { s with opts := { s.opts with noreset := true } }
      return true
  | .status => do
      discard <| showStatus build
      return false
  | .help | .keys => return false
  | .pulse => do
      cmdPulse
      return false
  | .togDtr => do
      cmdTogDtr
      return false
  | .togRts => do
      cmdTogRts
      return false
  | .baud => do
      let newbaud ← prompt (readBaud build.toPlatform) .baud
      if newbaud < 0 then return false
      cmdBaud build newbaud
      return false
  | .baudUp => do
      cmdBaud build (Ppcom.baudUp build.toPlatform (← get).opts.baud)
      return false
  | .baudDn => do
      cmdBaud build (Ppcom.baudDown build.toPlatform (← get).opts.baud)
      return false
  | .flow => do
      cmdFlow
      return false
  | .parity => do
      cmdParity
      return false
  | .bits => do
      cmdBits
      return false
  | .stop => do
      cmdStop
      return false
  | .lecho => do
      modify fun s => { s with opts := { s.opts with lecho := !s.opts.lecho } }
      emit (.lecho (← get).opts.lecho)
      return false
  | .send => do
      cmdTransfer (← get).opts.sendCmd
      return false
  | .receive => do
      cmdTransfer (← get).opts.receiveCmd
      return false
  | .hex => do
      cmdHex build
      return false
  | .brk => do
      let fd := (← get).ttyFd
      discard <| onTerm fd fun answers => termBreak answers.toReplies fd
      return false

/-- `do_command`: whether the command ends the program. -/
def doCommand (c : UInt8) : SessionM Bool :=
  match Key.ofByte c with
  | some key => key.exec build
  | none => return false

end Commands

end Ppcom
