/-
Module: Ppcom.Spec.Requested
Purpose: The settings that the options ask for, when they are valid, and the calls of the setters that
  the commands of `ppcom.cpp` make for them.
Trusted boundary: human-reviewed spec
Main exports: Requested, Requested.Valid, Key.calls, Setter.command, Commanded
-/
import Ppcom.Args
import Ppcom.Command

namespace Ppcom

/-- The settings of the line that the options ask for. -/
structure Requested where
  baud : Int
  flow : Flowcntrl
  parity : Parity
  databits : Int
  stopbits : Int

def Opts.requested (opts : Opts) : Requested where
  baud := opts.baud
  flow := opts.flow
  parity := opts.parity
  databits := opts.databits
  stopbits := opts.stopbits

/-- The settings are among those that `ppcom` offers. -/
structure Requested.Valid (plat : Platform) (r : Requested) : Prop where
  positive : 0 < r.baud
  baudOk : termBaudOk plat r.baud = true
  flow : r.flow = .none ∨ r.flow = .rtscts ∨ r.flow = .xonxoff
  parity : r.parity = .none ∨ r.parity = .even ∨ r.parity = .odd
  databits : 5 ≤ r.databits ∧ r.databits ≤ 8
  stopbits : 1 ≤ r.stopbits ∧ r.stopbits ≤ 2

/-! ### The calls -/

/-- The state with other options. -/
def Session.withOpts (s : Session) (opts : Opts) : Session := { s with opts := opts }

/-- The state after the prompt for a baud rate. -/
def Session.askedBaud (plat : Platform) (s : Session) : Session :=
  let answer := readBaud plat s.env.stdin
  { s with env := { s.env with stdin := answer.2 }, trace := s.trace ++ [.enter (.baud answer.1)] }

/-- The setter that the command of a key calls, and the state in which it does so: the prompt has been
answered, and the new value is in the options. -/
def Key.calls (build : Build) (s : Session) : Key → Option (Setter × Session)
  | .baud =>
      let newbaud := (readBaud build.toPlatform s.env.stdin).1
      if newbaud < 0 then none
      else some (.baudrate newbaud,
        (s.askedBaud build.toPlatform).withOpts { s.opts with baud := newbaud })
  | .baudUp =>
      let baud := Ppcom.baudUp build.toPlatform s.opts.baud
      some (.baudrate baud, s.withOpts { s.opts with baud := baud })
  | .baudDn =>
      let baud := Ppcom.baudDown build.toPlatform s.opts.baud
      some (.baudrate baud, s.withOpts { s.opts with baud := baud })
  | .flow =>
      let flow := flowNext s.opts.flow
      some (.flowcntrl flow, s.withOpts { s.opts with flow := flow })
  | .parity =>
      let parity := parityNext s.opts.parity
      some (.parity parity, s.withOpts { s.opts with parity := parity })
  | .bits =>
      let databits := bitsNext s.opts.databits
      some (.databits databits, s.withOpts { s.opts with databits := databits })
  | .stop =>
      let stopbits := stopbitsNext s.opts.stopbits
      some (.stopbits stopbits, s.withOpts { s.opts with stopbits := stopbits })
  | _ => none

/-- What a command does from the call of its setter on. -/
def Setter.command (build : Build) (setter : Setter) : SessionM Bool := do
  let set : Int → TermM Unit := setter.exec build.toPlatform
  match setter with
  | .baudrate _ =>
      changeSetting .baud set
      let fd := (← get).ttyFd
      let newbaud ← onTerm fd fun _ => termGetBaudrate build.toPlatform fd
      setTtyWriteSz (intValue newbaud)
  | .flowcntrl _ => changeSetting .flow set
  | .parity _ => changeSetting .parity set
  | .databits _ => changeSetting .databits set
  | .stopbits _ => changeSetting .stopbits set
  | .raw | .loc _ | .hupcl _ => pure ()
  return false

/-! ### Runs of commands -/

/-- The states that key commands lead to. Whatever is not an option may change before the next key:
what there is to read, what the system replies, and the state of the terminals. -/
inductive Commanded (build : Build) (start : Session) : Session → Prop where
  | start : Commanded build start start
  | between {s s' : Session} (earlier : Commanded build start s) (same : s'.opts = s.opts) :
      Commanded build start s'
  | key {s : Session} (c : UInt8) (earlier : Commanded build start s) :
      Commanded build start (Program.final ((doCommand build c).run s))

end Ppcom
