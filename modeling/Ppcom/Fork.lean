/-
Module: Ppcom.Fork
Purpose: `run_cmd` of `ppcom.cpp` with both of its processes: what the program does with its signals
  and its terminal around the child, and what the child does up to `execvp`. A process has its signals,
  its descriptors and its copy of the terminal framework for itself; the terminals and the status flags
  of the open files it shares with the other.
Trusted boundary: what the two print is left out; what the external program does is the system's
Main exports: Process, Kernel, Running, commandArgv, child, runCmd
-/
import Ppcom.Session
import Ppcom.Split

namespace Ppcom.Fork

/-! ### Processes -/

/-- The signals that `run_cmd` deals with. -/
inductive Signal where
  | sigint
  | sigterm
deriving DecidableEq, Repr

/-- `sa_handler`; `deadly` is the handler of the program. -/
inductive Handler where
  | sigDfl
  | sigIgn
  | deadly
deriving DecidableEq, Repr

/-- `struct sigaction`. -/
structure Sigaction where
  saHandler : Handler
  saMask : Signal → Bool
  saFlags : Word

/-- `ign_action` and `dfl_action`. -/
def Sigaction.of (handler : Handler) : Sigaction := ⟨handler, fun _ => false, 0⟩

/-- What a process does not share: `file` is the open file behind a descriptor. -/
structure Process where
  sigaction : Signal → Sigaction
  sigmask : Signal → Bool
  file : Int → Option Nat
  term : Term

/-- What processes share: the terminals, and the status flags of the open files. -/
structure Kernel where
  world : World
  status : Nat → Word

/-- How a process ends. -/
inductive WaitStatus where
  | exited (status : Int)
  | signaled (signal : Int)
  | other
deriving DecidableEq, Repr

/-- A process at work. `lives` is the number of steps it may still make before it is killed, and
`argv` what it called `execvp` with. -/
structure Running where
  proc : Process
  kernel : Kernel
  lives : Nat
  argv : Option (List (List UInt8))

/-- A function of a process; a throw ends the process. -/
abbrev ProcM := EStateM WaitStatus Running

/-- The status flag of a file that does not block. -/
def oNonblock : Word := 0x800

/-! ### System calls -/

/-- `sigaction`: the action that there was before. -/
def sigaction (signal : Signal) (action : Sigaction) : ProcM Sigaction := do
  let s ← get
  set { s with proc := { s.proc with
    sigaction := Function.update s.proc.sigaction signal action } }
  return s.proc.sigaction signal

/-- `sigprocmask` with `SIG_SETMASK`. -/
def setMask (mask : Signal → Bool) : ProcM Unit :=
  modify fun s => { s with proc := { s.proc with sigmask := mask } }

/-- `sigprocmask` with `SIG_BLOCK` of both signals: the mask that there was before. -/
def blockSignals : ProcM (Signal → Bool) := do
  let old := (← get).proc.sigmask
  setMask fun _ => true
  return old

/-- `fcntl` with `F_GETFL`; -1 for a descriptor that is not open. -/
def fcntlGetfl (fd : Int) : ProcM Word := do
  let s ← get
  match s.proc.file fd with
  | none => return BitVec.allOnes 32
  | some file => return s.kernel.status file

/-- `fcntl` with `F_SETFL`. -/
def fcntlSetfl (fd : Int) (fl : Word) : ProcM Unit := do
  let s ← get
  match s.proc.file fd with
  | none => return
  | some file =>
      set { s with kernel := { s.kernel with
        status := Function.update s.kernel.status file fl } }

/-- A descriptor becomes what `file` says: `close` of it, and `dup2` to it. -/
def setFile (fd : Int) (file : Option Nat) : ProcM Unit :=
  modify fun s => { s with proc := { s.proc with
    file := Function.update s.proc.file fd file } }

/-- A call of the terminal framework. -/
def callTerm {α : Type} (f : TermM α) : ProcM (Except TermErrno α) := do
  let s ← get
  let sys : Sys := ⟨s.proc.term, s.kernel.world⟩
  set { s with
    proc := { s.proc with term := (f.after sys).term }
    kernel := { s.kernel with world := (f.after sys).world } }
  return f.outcome sys

/-! ### The child -/

/-- `RUNCMD_ARGS_MAX`. -/
def runcmdArgsMax : Nat := 32

/-- `RUNCMD_EXEC_FAIL`. -/
def runcmdExecFail : Int := 126

/-- What an external program does, with how it ends. -/
structure Work where
  settings : (Nat → Termios) → Nat → Termios
  status : (Nat → Word) → Nat → Word
  ends : WaitStatus

/-- What the system is going to reply to the child: after how many steps it is killed and by which
signal, the replies during its calls of the framework, which copies of arguments can be allocated, and
what a program with given arguments does, if it can be executed. -/
structure ChildEnv where
  lives : Nat
  signal : Int
  drain : Replies
  remove : Replies
  ofSlot : Slot → Replies
  strdupOk : Nat → Bool
  program : List (List UInt8) → Option Work

/-- The argument vector of the command: `none` where the child exits because a part of it cannot be
parsed, or because it is empty. -/
def commandArgv (strdupOk : Nat → Bool) (cmd argsExtra : List UInt8) :
    Option (List (List UInt8)) :=
  let argv := List.replicate runcmdArgsMax []
  match Split.splitQuoted strdupOk cmd 0 argv runcmdArgsMax with
  | .returned r argc argv =>
      if r < 0 then none
      else
        match Split.splitQuoted strdupOk argsExtra argc argv runcmdArgsMax with
        | .returned r argc argv => if r < 0 ∨ argc < 1 then none else some (argv.take argc)
        | _ => none
  | _ => none

/-- The child may be killed between two of its steps. -/
def alive (signal : Int) : ProcM Unit := do
  match (← get).lives with
  | 0 => throw (.signaled signal)
  | n + 1 => modify fun s => { s with lives := n }

/-- `exit`, which calls `term_exitfunc`. -/
def exitChild (env : ChildEnv) (status : Int) : ProcM Unit := do
  discard <| callTerm (termExitfunc env.ofSlot)
  throw (.exited status)

/-- `establish_child_signal_handlers`. -/
def establishChildSignalHandlers : ProcM Unit := do
  discard <| sigaction .sigint (.of .sigDfl)
  discard <| sigaction .sigterm (.of .sigDfl)

/-- `execvp`, which returns only where it fails. -/
def execvp (env : ChildEnv) (argv : List (List UInt8)) : ProcM Unit := do
  modify fun s => { s with argv := some argv }
  match env.program argv with
  | none => return
  | some work =>
      modify fun s => { s with kernel := {
        world := { s.kernel.world with settings := work.settings s.kernel.world.settings }
        status := work.status s.kernel.status } }
      throw work.ends

/-- The part of the child that leaves the terminal and the port to the external program. -/
def handOver (env : ChildEnv) (fd : Int) : ProcM Unit := do
  alive env.signal
  discard <| callTerm (termDrain env.drain sti)
  alive env.signal
  discard <| callTerm (termRemove env.remove sti)
  alive env.signal
  discard <| callTerm (termErase fd)
  alive env.signal
  let fl ← fcntlGetfl fd
  fcntlSetfl fd (fl &&& ~~~oNonblock)
  alive env.signal
  setFile sti none
  setFile sto none
  let file := (← get).proc.file fd
  setFile sti file
  setFile sto file

/-- The child. -/
def child (env : ChildEnv) (sigmOld : Signal → Bool) (fd : Int) (cmd argsExtra : List UInt8) :
    ProcM Unit := do
  handOver env fd
  match commandArgv env.strdupOk cmd argsExtra with
  | none => exitChild env runcmdExecFail
  | some argv => do
      establishChildSignalHandlers
      setMask sigmOld
      alive env.signal
      execvp env argv
      exitChild env runcmdExecFail

/-! ### The program -/

/-- What the system is going to reply to `run_cmd`: whether it forks, how often `waitpid` is
interrupted, and the replies during `term_apply`. -/
structure RunEnv where
  child : Option ChildEnv
  interrupted : Nat
  apply : Replies

/-- The end of a process that has run. -/
def ending : EStateM.Result WaitStatus Running Unit → WaitStatus
  | .ok _ _ => .other
  | .error status _ => status

/-- `fork` of a child that is waited for: what the two share is as the child leaves it. -/
def forkChild (env : ChildEnv) (sigmOld : Signal → Bool) (fd : Int) (cmd argsExtra : List UInt8) :
    ProcM WaitStatus := do
  let s ← get
  let ran := (child env sigmOld fd cmd argsExtra).run { s with lives := env.lives, argv := none }
  set { s with kernel := (Program.final ran).kernel, argv := (Program.final ran).argv }
  return ending ran

/-- `waitpid` until it is not interrupted; an interrupted call changes nothing. -/
def waitChild (status : WaitStatus) : Nat → ProcM WaitStatus
  | 0 => return status
  | n + 1 => waitChild status n

/-- The value of `run_cmd` for the status of the child. -/
def WaitStatus.value : WaitStatus → Int
  | .exited status => status
  | _ => -1

/-- `run_cmd`. -/
def runCmd (env : RunEnv) (fd : Int) (cmd argsExtra : List UInt8) : ProcM Int := do
  let oldAction ← sigaction .sigint (.of .sigIgn)
  let sigmOld ← blockSignals
  match env.child with
  | none => do
      setMask sigmOld
      return -1
  | some childEnv => do
      let status ← forkChild childEnv sigmOld fd cmd argsExtra
      setMask sigmOld
      let status ← waitChild status env.interrupted
      discard <| callTerm (termApply env.apply sti false)
      discard <| sigaction .sigint oldAction
      return status.value

/-- `KEY_SEND` and `KEY_RECEIVE` of `do_command`, with the line at the prompt; the value of `run_cmd`
where it was called. -/
def transfer (env : RunEnv) (fd : Int) (xfrCmd : List UInt8) (fname : Option (List UInt8)) :
    ProcM (Option Int) := do
  if xfrCmd = [] then return none
  match fname with
  | none => return none
  | some fname => return some (← runCmd env fd xfrCmd fname)

end Ppcom.Fork
