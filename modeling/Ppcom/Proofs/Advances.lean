/-
Module: Ppcom.Proofs.Advances
Purpose: What a run of `loop` can do, said once, as two relations: the steps that lead from a state to
  another, and the last one of a run that is stopped. An invariant of runs is proved by cases of the
  two relations, and not along the functions.
Trusted boundary: none
Main exports: Call.On, Advance, Advances, Halt, Halted, Leads, AdvanceRules
-/
import Mathlib.Logic.Relation
import Ppcom.Proofs.StartUp

namespace Ppcom

open Program

/-! ### Steps -/

/-- The calls that work on the entry of `fd` and leave it in the framework. -/
def Call.On (fd : Int) : Call → Prop
  | .refresh fd' | .apply fd' _ | .setOne _ fd' | .fakeFlush fd' | .query _ fd' => fd' = fd
  | _ => False

namespace Session

variable (s : Session)

/-- The state after a call of the framework on `fd`. -/
def called (plat : Platform) (fd : Int) (call : Call) : Session :=
  { s with
    sys := (call.exec plat (s.env.term fd).head).after s.sys
    env := { s.env with term := Function.update s.env.term fd (s.env.term fd).tail } }

/-- What is written where `forward` is given `buff`: `sent` is what the message connection takes. -/
def forwards (buff sent : List UInt8) : List Event :=
  (if 0 < s.msgfd then [.put s.msgfd sent] else []) ++
    if s.opts.logFilename.isSome then [.put s.logFd buff] else []

/-- What can be in the set of descriptors that a turn waits to read. -/
def Watched (fd : Int) : Prop := fd = sti ∨ fd = s.ttyFd ∨ 0 < fd

end Session

/-- A step of a run. -/
inductive Advance (build : Build) : Session → Session → Prop where
  | observed (s : Session) (budget : Nat) : Advance build s { s with budget := budget }
  | replied (s : Session) (sigExit : Stream' Bool) (select : Stream' SelectReply)
      (write : Stream' (Option Nat)) (put : Stream' Nat)
      (realloc : Stream' (Option (Nat → UInt8))) :
      Advance build s { s with
        env := { s.env with
          sigExit := sigExit, select := select, write := write, put := put, realloc := realloc } }
  | skipped (s : Session) (stdin port ctl : Source) :
      Advance build s { s with env := { s.env with stdin := stdin, port := port, ctl := ctl } }
  | unforked (s : Session) :
      Advance build s { s with env := { s.env with child := s.env.child.tail } }
  | forked (s : Session) {work : (Nat → Termios) → Nat → Termios} (is : s.env.child.head = some work) :
      Advance build s { s with
        env := { s.env with child := s.env.child.tail }
        sys := { s.sys with world := { s.sys.world with settings := work s.sys.world.settings } } }
  | called (s : Session) {fd : Int} {call : Call} (on : call.On fd) :
      Advance build s (s.called build.toPlatform fd call)
  | applied (s : Session) {fd : Int} {now : Bool}
      (ok : (termApply (s.env.term fd).head.toReplies fd now).outcome s.sys = .ok ()) :
      Advance build s { s.called build.toPlatform fd (.apply fd now) with
        trace := s.trace ++ [.applied fd (s.sys.term.nextOf fd)] }
  | joined (s : Session) : Advance build s (s.called build.toPlatform sti (.add sti))
  | lines (s : Session) (rtsUp dtrUp : Bool) :
      Advance build s { s with rtsUp := rtsUp, dtrUp := dtrUp }
  | writeSz (s : Session) {sz : Int} (least : 8 ≤ sz) : Advance build s { s with ttyWriteSz := sz }
  | settings (s : Session) (baud : Int) (flow : Flowcntrl) (parity : Parity)
      (databits stopbits : Int) :
      Advance build s { s with
        opts := { s.opts with
          baud := baud, flow := flow, parity := parity, databits := databits
          stopbits := stopbits } }
  | noreset (s : Session) : Advance build s { s with opts := { s.opts with noreset := true } }
  | freed (s : Session) (ok : s.ttyQ.Ok) :
      Advance build s { s with opts := { s.opts with initstring := none } }
  | lecho (s : Session) :
      Advance build s { s with
        opts := { s.opts with lecho := !s.opts.lecho }
        trace := s.trace ++ [.lecho !s.opts.lecho] }
  | machine (s : Session) (state : LoopState) : Advance build s { s with state := state }
  | closed (s : Session) (stdin : Source) :
      Advance build s { s with
        stdinClosed := true
        env := { s.env with stdin := stdin }
        trace := s.trace ++ [.eof] }
  | typed (s : Session) (stdin : Source) (buff : List UInt8) :
      Advance build s { s with
        env := { s.env with stdin := stdin }
        trace := s.trace ++ [.stdin buff] }
  | acted (s : Session) (action : Action) :
      Advance build s { s with trace := s.trace ++ [.act action] }
  | entered (s : Session) (stdin : Source) (entry : Entry) :
      Advance build s { s with
        env := { s.env with stdin := stdin }
        trace := s.trace ++ [.enter entry] }
  | shown (s : Session) {first : UInt8} {rest image : List UInt8} {port : Source} (sent : List UInt8)
      (put : Stream' Nat) (read : Source.read ttyRdSz s.env.port = (.data first rest, port))
      (mapped : mapInput s.opts.imap (first :: rest) = some image) :
      Advance build s { s with
        env := { s.env with port := port, put := put }
        trace := s.trace ++
          .port (first :: rest) :: (s.forwards (first :: rest) sent ++ [.put sto image]) }
  | grew (s : Session) {q : TtyQ} (ok : s.ttyQ.Ok) (grown : q.Ok)
      (contents : q.contents = s.ttyQ.contents) : Advance build s { s with ttyQ := q }
  | pushed (s : Session) {b : UInt8} {image : List UInt8} {echo : List Event} (ok : s.ttyQ.Ok)
      (put : Stream' Nat) (mapped : doMap s.opts.omap b = some image)
      (room : s.ttyQ.len + mMaxmap ≤ s.ttyQ.sz) (echoed : ∀ e ∈ echo, ∃ buff, e = .put sto buff) :
      Advance build s { s with
        ttyQ := s.ttyQ.store image
        env := { s.env with put := put }
        trace := s.trace ++ .accept b :: echo }
  | discarded (s : Session) (ok : s.ttyQ.Ok) (setting : Setting) :
      Advance build s { s with
        ttyQ := { s.ttyQ with len := 0 }
        trace := s.trace ++ [.discard setting s.ttyQ.contents] }
  | wrote (s : Session) {taken : List UInt8} (ok : s.ttyQ.Ok) (sent : List UInt8)
      (write : Stream' (Option Nat)) (put : Stream' Nat) (some : taken ≠ [])
      (start : taken <+: s.ttyQ.contents) :
      Advance build s { s with
        ttyQ := s.ttyQ.drop taken.length
        env := { s.env with write := write, put := put }
        trace := s.trace ++ .write s.ttyQ.len (s.ttyQ.request s.ttyWriteSz) taken ::
          if s.opts.lecho then s.forwards taken sent else [] }
  | ctlRead (s : Session) (ctl : Source) (buff : List UInt8) (watched : s.Watched s.ctlfd) :
      Advance build s { s with
        env := { s.env with ctl := ctl }
        trace := s.trace ++ [.ctl s.ctlfd buff] }
  | ctlByte (s : Session) (b : UInt8) : Advance build s { s with trace := s.trace ++ [.ctlByte b] }

/-- What leads from a state to another. -/
abbrev Advances (build : Build) : Session → Session → Prop :=
  Relation.ReflTransGen (Advance build)

/-- The stops that end `loop` without being one of its own reasons to leave. -/
def Stop.Inner : Stop → Prop
  | .left .cmd | .fatal _ | .abort | .observed => True
  | _ => False

/-- What is written where the log or, with it, the message connection takes a part of `buff` only. -/
def Session.ForwardsPart (s : Session) (buff : List UInt8) (puts : List Event) : Prop :=
  ∃ sent part, part <+: buff ∧ puts = s.forwards part sent

/-- The last step of a run that is stopped. -/
inductive Halt : Stop → Session → Session → Prop where
  | here {stop : Stop} (s : Session) (inner : stop.Inner) : Halt stop s s
  | signal (s : Session) : Halt (.left .signal) s s
  | stdin (s : Session) (empty : s.ttyQ.len = 0) (untimed : s.opts.exitAfter < 0)
      (closed : s.stdinClosed = true) : Halt (.left .stdin) s s
  | idle (s : Session) (timed : s.timed = true) : Halt (.left .idle) s s
  | blocked (s : Session) : Halt .blocked s s
  /-- What came from the port cannot be forwarded. -/
  | unforwarded (s : Session) {message : String} {first : UInt8} {rest : List UInt8} {port : Source}
      {puts : List Event} (put : Stream' Nat)
      (read : Source.read ttyRdSz s.env.port = (.data first rest, port))
      (part : s.ForwardsPart (first :: rest) puts) :
      Halt (.fatal message) s { s with
        env := { s.env with port := port, put := put }
        trace := s.trace ++ .port (first :: rest) :: puts }
  /-- The assertion of the input mapping fails. -/
  | unmapped (s : Session) {first : UInt8} {rest : List UInt8} {port : Source} (sent : List UInt8)
      (put : Stream' Nat) (read : Source.read ttyRdSz s.env.port = (.data first rest, port))
      (fails : mapInput s.opts.imap (first :: rest) = none) :
      Halt .abort s { s with
        env := { s.env with port := port, put := put }
        trace := s.trace ++ .port (first :: rest) :: s.forwards (first :: rest) sent }
  /-- Standard output takes a part only of what came from the port. -/
  | unshown (s : Session) {message : String} {first : UInt8} {rest image part : List UInt8}
      {port : Source} (sent : List UInt8) (put : Stream' Nat)
      (read : Source.read ttyRdSz s.env.port = (.data first rest, port))
      (mapped : mapInput s.opts.imap (first :: rest) = some image) (start : part <+: image) :
      Halt (.fatal message) s { s with
        env := { s.env with port := port, put := put }
        trace := s.trace ++
          .port (first :: rest) :: (s.forwards (first :: rest) sent ++ [.put sto part]) }
  /-- The port takes nothing. -/
  | unwritten (s : Session) (write : Stream' (Option Nat)) :
      Halt (.fatal portWriteFailed) s { s with
        env := { s.env with write := write }
        trace := s.trace ++ [.write s.ttyQ.len (s.ttyQ.request s.ttyWriteSz) []] }
  /-- What the port took cannot be forwarded. -/
  | unechoed (s : Session) {message : String} {taken : List UInt8} {puts : List Event}
      (write : Stream' (Option Nat)) (put : Stream' Nat) (lecho : s.opts.lecho = true)
      (some : taken ≠ []) (start : taken <+: s.ttyQ.contents) (part : s.ForwardsPart taken puts) :
      Halt (.fatal message) s { s with
        env := { s.env with write := write, put := put }
        trace := s.trace ++ .write s.ttyQ.len (s.ttyQ.request s.ttyWriteSz) taken :: puts }

/-- A run from `s₀` is stopped in `s`. -/
def Halted (build : Build) (s₀ : Session) (stop : Stop) (s : Session) : Prop :=
  ∃ s₁, Advances build s₀ s₁ ∧ Halt stop s₁ s

/-- What every step keeps holds wherever a run leads. -/
theorem Advances.keeps {build : Build} {I : Session → Prop}
    (step : ∀ {s s'}, Advance build s s' → I s → I s') {s s' : Session}
    (run : Advances build s s') (first : I s) : I s' := by
  induction run with
  | refl => exact first
  | tail _ last ih => exact step last ih

/-- What no step of a run changes: most of the options, the descriptors, and those that `ffwd` is to
make. -/
structure Constants where
  opts : Opts
  ttyFd : Int
  logFd : Int
  msgfd : Int
  ctlfd : Int
  newMsgfd : Int
  newCtlfd : Int

/-- What no step from `s` on changes. The options that steps change have one value there. -/
def Session.constants (s : Session) : Constants where
  opts := { s.opts with
    baud := 0, flow := .none, parity := .none, databits := 0, stopbits := 0
    lecho := false, noreset := false, initstring := none }
  ttyFd := s.ttyFd
  logFd := s.logFd
  msgfd := s.msgfd
  ctlfd := s.ctlfd
  newMsgfd := s.env.msgfd
  newCtlfd := s.env.ctlfd

theorem Advance.constants {build : Build} {s s' : Session} (step : Advance build s s') :
    s'.constants = s.constants := by
  cases step <;> rfl

theorem Halt.constants {stop : Stop} {s s' : Session} (last : Halt stop s s') :
    s'.constants = s.constants := by
  cases last <;> rfl

/-- The queue stays a block that holds its contents. -/
theorem Advance.ok {build : Build} {s s' : Session} (step : Advance build s s')
    (held : s.ttyQ.Ok) : s'.ttyQ.Ok := by
  cases step with
  | grew _ grown => exact grown
  | pushed _ _ mapped room =>
      have small := (doMap_image mapped).2.2
      exact held.store (by omega)
  | discarded => exact held.reset
  | wrote _ _ _ _ _ start => exact held.drop (TtyQ.length_contents held ▸ start.length_le)
  | _ => exact held

theorem TtyQ.not_ok_static : ¬ TtyQ.static.Ok :=
  fun ok => absurd ok.atLeast (by decide)

/-- Before the queue is allocated no step touches it or the init string. -/
theorem Advance.static {build : Build} {s s' : Session} (step : Advance build s s')
    (held : s.ttyQ = .static) :
    s'.ttyQ = .static ∧ s'.opts.initstring = s.opts.initstring := by
  have free : ¬ s.ttyQ.Ok := held ▸ TtyQ.not_ok_static
  cases step with
  | freed ok | grew ok | pushed ok | discarded ok | wrote ok => exact absurd ok free
  | _ => exact ⟨held, rfl⟩

/-- Wherever a run has led from `s₀`, the function leads on by steps, or it is stopped. -/
abbrev Leads {α : Type} (build : Build) (s₀ : Session) (x : SessionM α) : Prop :=
  Maintains (Advances build s₀) (Halted build s₀) x

/-- What it takes that the steps keep an invariant, and that a run that is stopped is as `E` says. -/
structure AdvanceRules (build : Build) (I : Session → Prop) (E : Stop → Session → Prop) : Prop where
  step : ∀ {s s'}, Advance build s s' → I s → I s'
  halt : ∀ {stop s s'}, Halt stop s s' → I s → E stop s'

/-- What leads on from the states of an invariant keeps it. -/
theorem AdvanceRules.maintains {α : Type} {build : Build} {I : Session → Prop}
    {E : Stop → Session → Prop} {x : SessionM α} (rules : AdvanceRules build I E)
    (leads : ∀ s, I s → Leads build s x) : Maintains I E x := by
  intro s held
  have led := leads s held s .refl
  cases ran : x.run s with
  | ok a s' =>
      rw [ran] at led
      exact led.keeps rules.step held
  | error stop s' =>
      rw [ran] at led
      obtain ⟨s₁, run, last⟩ := led
      exact rules.halt last (run.keeps rules.step held)

end Ppcom
