/-
Module: Ppcom.Loop
Purpose: `loop` of `ppcom.cpp`, as the main thread executes it: the choice of descriptors, the escape
  machine on standard input, the port and the control socket, turn by turn. Its variable `mffwd` is here
  by the two descriptors that `init` leaves; the thread that `init` starts, what it prints, and what
  becomes of both when `loop` is left, are in `Ppcom.Process`.
Trusted boundary: none
Main exports: processByte, readStdin, readPort, ctlLoop, readCtl, loopTurn, loop
-/
import Ppcom.Command

namespace Ppcom

/-- `STI_RD_SZ`. -/
def stiRdSz : Nat := 16

/-- `TTY_RD_SZ`. -/
def ttyRdSz : Nat := 128

/-- The size of `buf_str`. -/
def ctlBufSz : Nat := 1024

section Loop

variable (build : Build)

/-! ### Standard input -/

/-- A `read` of at most `sz` bytes. -/
def readFd (sz : Nat) (source : Env → Source) (rest : Env → Source → Env) : SessionM ReadReply := do
  let s ← get
  set { s with env := rest s.env (Source.read sz (source s.env)).2 }
  return (Source.read sz (source s.env)).1

/-- A byte that is offered to the queue. -/
def offerData (b : UInt8) : SessionM Unit := do
  emit (.act (.data b))
  discard <| ttyQPush build [b]

/-- A turn of the `for` loop over the bytes read from standard input. -/
def processByte (valChr : UInt8) : SessionM Unit := do
  checkpoint
  let s ← get
  match s.state with
  | .command =>
      if valChr = s.opts.escape then
        -- pass the escape character down
        offerData build valChr
      else
        emit (.act (.command valChr))
        if ← doCommand build valChr then throw (.left .cmd)
      modify fun s => { s with state := .transparent }
  | .transparent =>
      if !s.opts.noescape && valChr == s.opts.escape then
        modify fun s => { s with state := .command }
      else
        offerData build valChr

/-- The part of `loop` that reads standard input. -/
def readStdin : SessionM Unit := do
  match ← readFd stiRdSz Env.stdin fun env src => { env with stdin := src } with
  | .zero => do
      emit .eof
      modify fun s => { s with stdinClosed := true }
  | .again => return
  | .failed => fatal "read from stdin failed: %s"
  | .data first rest => do
      emit (.stdin (first :: rest))
      (first :: rest).forM (processByte build)

/-! ### The port -/

/-- The images of the bytes read from the port, one after the other; `none` is a failed assertion. -/
def mapInput (imap : Word) : List UInt8 → Option (List UInt8)
  | [] => some []
  | b :: rest => do
      let image ← doMap imap b
      let images ← mapInput imap rest
      return image ++ images

/-- What is done with the bytes read from the port. -/
def showInput (buffRd : List UInt8) : SessionM Unit := do
  forward buffRd
  match mapInput (← get).opts.imap buffRd with
  | none => abort
  | some buffMap => writeAll sto buffMap "write to stdout failed: %s"

/-- The part of `loop` that reads the port. -/
def readPort : SessionM Unit := do
  match ← readFd ttyRdSz Env.port fun env src => { env with port := src } with
  | .zero => fatal "read zero bytes from port"
  | .again => return
  | .failed => fatal "read from port failed: %s"
  | .data first rest => do
      emit (.port (first :: rest))
      showInput (first :: rest)

/-! ### The control socket -/

/-- The `for` loop over `buf_str` from index `i` on. The first argument bounds the bytes of the buffer
from there. -/
def ctlLoop : Nat → List UInt8 → Nat → SessionM Unit
  | 0, _, _ => return
  | n + 1, bufStr, i => do
      if i < strlen bufStr then
        checkpoint
        let valChr := bufStr.getD i 0
        let bufStr := if valChr = 0x0a ∨ valChr = 0x0d then bufStr.set i 0 else bufStr
        emit (.ctlByte valChr)
        discard <| ttyQPush build [valChr]
        ctlLoop n bufStr (i + 1)

/-- The part of `loop` that reads the control socket. The buffer is cleared before it. -/
def readCtl : SessionM Unit := do
  let fd := (← get).ctlfd
  match ← readFd (ctlBufSz - 1) Env.ctl fun env src => { env with ctl := src } with
  | .data first rest => do
      emit (.ctl fd (first :: rest))
      let bufStr := (first :: rest) ++ List.replicate (ctlBufSz - (rest.length + 1)) 0
      ctlLoop build ctlBufSz bufStr 0
  | _ => return

/-! ### Turns -/

/-- `FD_ISSET`, after `select` has left of `set` the descriptors that are `ready`. -/
def fdIsset (set : List Int) (ready : Int → Bool) (fd : Int) : Bool :=
  set.contains fd && ready fd

/-- The descriptors that a turn waits to read. -/
def Session.rdSet (s : Session) : List Int :=
  (if s.stdinClosed then [] else [sti]) ++ (if s.opts.exit then [] else [s.ttyFd])
    ++ (if 0 < s.ctlfd then [s.ctlfd] else [])

/-- The descriptors that a turn waits to write. -/
def Session.wrSet (s : Session) : List Int :=
  if s.ttyQ.len ≠ 0 then [s.ttyFd] else []

/-- Whether a turn waits no longer than `opts.exit_after`. -/
def Session.timed (s : Session) : Bool :=
  s.ttyQ.len == 0 && decide (0 ≤ s.opts.exitAfter)

/-- What a turn does with the descriptors that are ready. -/
def serveReady (rdSet wrSet : List Int) (rd wr : Int → Bool) : SessionM Unit := do
  let s ← get
  if fdIsset rdSet rd sti then readStdin build
  if fdIsset rdSet rd s.ttyFd then readPort
  if fdIsset wrSet wr s.ttyFd then writePort
  if fdIsset rdSet rd s.ctlfd then readCtl build

/-- Where a turn leaves `loop` before `select`: after a signal, and when standard input is closed, the
queue empty and no idle timeout set. -/
def leaveLoop : SessionM Unit := do
  let sigExit ← nextReply Env.sigExit fun env rest => { env with sigExit := rest }
  if sigExit then throw (.left .signal)
  let s ← get
  if s.ttyQ.len = 0 ∧ s.opts.exitAfter < 0 ∧ s.stdinClosed then throw (.left .stdin)

/-- The rest of a turn that called `select` in the state `s`. -/
def handleSelect (s : Session) : SelectReply → SessionM Unit
  | .eintr => return
  | .failed => fatal "select failed: %d : %s"
  | .timeout => if s.timed then throw (.left .idle) else throw .blocked
  | .ready rd wr => serveReady build s.rdSet s.wrSet rd wr

/-- A turn of the `while` loop. -/
def loopTurn : SessionM Unit := do
  checkpoint
  leaveLoop
  let s ← get
  let reply ← nextReply Env.select fun env rest => { env with select := rest }
  handleSelect build s reply

/-- The `while` loop, as many turns of it as a run is observed for. -/
def loopTurns : Nat → SessionM Unit
  | 0 => throw .observed
  | n + 1 => do
      loopTurn build
      loopTurns n

/-- `loop` before its `while` loop, once `mffwd.init()` has returned. -/
def enterLoop : SessionM Unit :=
  modify fun s => { s with
    state := .transparent
    stdinClosed := s.opts.exit
    msgfd := s.env.msgfd
    ctlfd := s.env.ctlfd }

/-- `loop`, up to `loop_end`. -/
def loop : SessionM LeReason := do
  enterLoop
  let turns := (← get).budget + 1
  tryCatch (do loopTurns build turns; throw .observed) fun
    | .left reason => return reason
    | stop => throw stop

end Loop

end Ppcom
