/-
Module: Ppcom.RawMode
Purpose: The terminal settings around the line editor of `linenoise.cpp`: it takes standard input into a raw
  mode of its own for each line and back, beside the framework of `term.cpp`, which manages the same
  terminal. Both restore settings when the program exits.
Trusted boundary: a failing system call changes nothing; `atexit` does not fail for the line editor
Main exports: RawMode, enableRawMode, disableRawMode, Prompting, Prompting.step, Prompting.exit
-/
import Ppcom.Session
import Ppcom.TermCall

namespace Ppcom

def inpck : Word := 0x10

/-- The static variables of `linenoise.cpp` for the terminal. -/
structure RawMode where
  origTermios : Termios
  rawmode : Bool
  atexitRegistered : Bool

/-- They are zero when the program starts. -/
def RawMode.static : RawMode := ⟨Termios.zero, false, false⟩

/-- The replies to the system calls made for one line. `tcsetattr t` is what the device stores when it is
asked for `t`, and `none` where the call fails; `restore` is the same when raw mode ends. -/
structure RawReplies where
  isatty : Bool
  tcgetattr : Bool
  tcsetattr : Termios → Option Termios
  restore : Termios → Option Termios

/-- The framework with its devices, and the line editor. -/
structure Prompting where
  sys : Sys
  raw : RawMode

/-- The settings that `enableRawMode` makes of those it finds. -/
def rawSettings (tio : Termios) : Termios :=
  { tio with
    cIflag := tio.cIflag &&& ~~~(brkint ||| icrnl ||| inpck ||| istrip ||| ixon)
    cOflag := tio.cOflag &&& ~~~opost
    cCflag := tio.cCflag ||| cs8
    cLflag := tio.cLflag &&& ~~~(echo ||| icanon ||| iexten ||| isig)
    cCc := (tio.cCc.set vmin 1 vmin_lt).set vtime 0 vtime_lt }

/-- `enableRawMode`; `false` is the value -1. -/
def enableRawMode (replies : RawReplies) (s : Prompting) : Bool × Prompting :=
  if ¬ replies.isatty then (false, s)
  else
    let s := { s with raw := { s.raw with atexitRegistered := true } }
    if ¬ replies.tcgetattr then (false, s)
    else
      let tio := s.sys.world.settingsOf sti
      let s := { s with raw := { s.raw with origTermios := tio } }
      match replies.tcsetattr (rawSettings tio) with
      | none => (false, s)
      | some stored =>
          (true,
            { sys := { s.sys with world := s.sys.world.store sti .tcsaflush (rawSettings tio) stored }
              raw := { s.raw with rawmode := true } })

/-- `disableRawMode`. -/
def disableRawMode (restore : Termios → Option Termios) (s : Prompting) : Prompting :=
  if s.raw.rawmode then
    match restore s.raw.origTermios with
    | none => s
    | some stored =>
        { sys := { s.sys with world := s.sys.world.store sti .tcsaflush s.raw.origTermios stored }
          raw := { s.raw with rawmode := false } }
  else s

/-- What `linenoiseRaw` does to the settings of a terminal. -/
def linenoiseRawMode (replies : RawReplies) (s : Prompting) : Prompting :=
  let (entered, s) := enableRawMode replies s
  if entered then disableRawMode replies.restore s else s

/-- A call of the framework, or a prompt. -/
inductive PromptEvent where
  | call (answers : Answers) (call : Call)
  | prompt (replies : RawReplies)

namespace Prompting

def step (plat : Platform) (s : Prompting) : PromptEvent → Prompting
  | .call answers call => { s with sys := (call.exec plat answers).after s.sys }
  | .prompt replies => linenoiseRawMode replies s

def run (plat : Platform) (s : Prompting) (events : List PromptEvent) : Prompting :=
  events.foldl (step plat) s

/-- What `exit` calls: `linenoiseAtExit`, where it was registered, and then `term_exitfunc`, which was
registered before it. -/
def exit (restore : Termios → Option Termios) (replies : Slot → Replies) (s : Prompting) : Sys :=
  (termExitfunc replies).after (if s.raw.atexitRegistered then disableRawMode restore s else s).sys

end Prompting

end Ppcom
