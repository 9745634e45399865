/-
Module: Ppcom.TermCall
Purpose: The calls of the terminal framework as data, so that statements can range over sequences of
  them, and the runs they make.
Trusted boundary: none
Main exports: Setter, Query, Call, Call.exec, TermM.after, TermM.outcome, allSucceed
-/
import Ppcom.Lib.Program
import Ppcom.Term

namespace Ppcom

/-- The setters of one parameter. -/
inductive Setter where
  | raw
  | baudrate (baud : Int)
  | parity (mode : Parity)
  | databits (n : Int)
  | stopbits (n : Int)
  | flowcntrl (flow : Flowcntrl)
  | loc (on : Bool)
  | hupcl (on : Bool)
deriving DecidableEq, Repr

/-- The setter's function. -/
def Setter.exec (plat : Platform) : Setter → Int → TermM Unit
  | .raw, fd => termSetRaw fd
  | .baudrate baud, fd => termSetBaudrate plat fd baud
  | .parity mode, fd => termSetParity fd mode
  | .databits n, fd => termSetDatabits fd n
  | .stopbits n, fd => termSetStopbits fd n
  | .flowcntrl flow, fd => termSetFlowcntrl fd flow
  | .loc on, fd => termSetLocal fd on
  | .hupcl on, fd => termSetHupcl fd on

/-- What the setter makes of `nexttermios`. -/
def Setter.change (plat : Platform) : Setter → Termios → Except TermErrno Termios
  | .raw => withRaw
  | .baudrate baud => withBaudrate plat baud
  | .parity mode => withParity mode
  | .databits n => withDatabits n
  | .stopbits n => withStopbits n
  | .flowcntrl flow => withFlowcntrl flow
  | .loc on => withBit clocal on
  | .hupcl on => withBit Ppcom.hupcl on

/-- The functions that read the settings kept, or that only act on the queues and modem lines. -/
inductive Query where
  | getBaudrate | getParity | getDatabits | getStopbits | getFlowcntrl | getMctl
  | pulseDtr | lowerDtr | raiseDtr | lowerRts | raiseRts
  | drain | flush | brk
deriving DecidableEq, Repr

/-- The query's function, its value dropped. -/
def Query.exec (plat : Platform) (replies : Replies) : Query → Int → TermM Unit
  | .getBaudrate, fd => discard <| termGetBaudrate plat fd
  | .getParity, fd => discard <| termGetParity fd
  | .getDatabits, fd => discard <| termGetDatabits fd
  | .getStopbits, fd => discard <| termGetStopbits fd
  | .getFlowcntrl, fd => discard <| termGetFlowcntrl fd
  | .getMctl, fd => discard <| termGetMctl replies fd
  | .pulseDtr, fd => termPulseDtr replies fd
  | .lowerDtr, fd => termLowerDtr replies fd
  | .raiseDtr, fd => termRaiseDtr replies fd
  | .lowerRts, fd => termLowerRts replies fd
  | .raiseRts, fd => termRaiseRts replies fd
  | .drain, fd => termDrain replies fd
  | .flush, fd => termFlush replies fd
  | .brk, fd => termBreak replies fd

/-- A call of the framework. -/
inductive Call where
  | add (fd : Int)
  | remove (fd : Int)
  | erase (fd : Int)
  | replace (oldfd newfd : Int)
  | reset (fd : Int)
  | revert (fd : Int)
  | refresh (fd : Int)
  | apply (fd : Int) (now : Bool)
  | setOne (setter : Setter) (fd : Int)
  | set (fd : Int) (params : Params)
  | fakeFlush (fd : Int)
  | query (which : Query) (fd : Int)
  | libInit
  | exitfunc

/-- The replies that the system gives during a call; `ofSlot i` are those of the turn for slot `i` in
`term_lib_init` and `term_exitfunc`. -/
structure Answers extends Replies where
  ofSlot : Slot → Replies

/-- The function that a call calls. -/
def Call.exec (plat : Platform) (answers : Answers) : Call → TermM Unit
  | .add fd => discard <| termAdd answers.toReplies fd
  | .remove fd => termRemove answers.toReplies fd
  | .erase fd => termErase fd
  | .replace oldfd newfd => termReplace answers.toReplies oldfd newfd
  | .reset fd => termReset answers.toReplies fd
  | .revert fd => termRevert fd
  | .refresh fd => termRefresh answers.toReplies fd
  | .apply fd now => termApply answers.toReplies fd now
  | .setOne setter fd => setter.exec plat fd
  | .set fd params => termSet plat answers.toReplies fd params
  | .fakeFlush fd => termFakeFlush answers.toReplies fd
  | .query which fd => which.exec plat answers.toReplies fd
  | .libInit => termLibInit answers.atexit answers.ofSlot
  | .exitfunc => termExitfunc answers.ofSlot

/-- The state that a function of the framework leaves, whether it succeeds or fails. -/
def TermM.after {α : Type} (x : TermM α) (s : Sys) : Sys :=
  Program.final (x.run s)

/-- Whether a function of the framework succeeds, and the error it sets otherwise. -/
def TermM.outcome {α : Type} (x : TermM α) (s : Sys) : Except TermErrno α :=
  match x.run s with
  | .ok a _ => .ok a
  | .error e _ => .error e

/-- Replies of a system in which every call succeeds and devices store what they are asked for. -/
def allSucceed : Replies where
  isatty := true
  tcgetattr := true
  tcsetattr := some
  restore := some
  tcflush := true
  tcdrain := true
  tcsendbreak := true
  atexit := true
  tiocmbic := true
  tiocmbis := true
  tiocmget := some 0

/-- The program's state before its first call, with one terminal behind all descriptors. -/
def startSys : Sys where
  term := Term.static
  world := ⟨fun _ => 0, fun _ => Termios.zero, []⟩

end Ppcom
