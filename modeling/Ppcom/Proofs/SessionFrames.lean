/-
Module: Ppcom.Proofs.SessionFrames
Purpose: What the functions of `ppcom.cpp` leave alone. Most of them touch neither the queue nor the
  escape machine; what they do is part of a frame condition, and an invariant that a frame keeps is
  proved for the few others only.
Trusted boundary: none
Main exports: Opts.fixed, Frame, Quiet, Outer, Inner, Steady, CallRules, Rules, BlindRules,
  BlindRules.and
-/
import Ppcom.Loop

namespace Ppcom

open Program

/-- A read returns no more than it was asked for. -/
theorem length_of_read {sz : Nat} {src : Source} {first : UInt8} {rest : List UInt8}
    (read : (Source.read sz src).1 = .data first rest) : rest.length ≤ sz - 1 := by
  cases src with
  | nil => cases read
  | cons reply later =>
      cases reply with
      | data first' rest' =>
          obtain ⟨-, rfl⟩ := ReadReply.data.inj read
          exact List.length_take_le _ _
      | _ => cases read

/-! ### Frames -/

/-- The options that no command changes. -/
structure FixedOpts where
  escape : UInt8
  noescape : Bool
  imap : Word
  omap : Word
  emap : Word
  sendCmd : List UInt8
  receiveCmd : List UInt8

/-- The options of `opts` that no command changes. -/
def Opts.fixed (opts : Opts) : FixedOpts where
  escape := opts.escape
  noescape := opts.noescape
  imap := opts.imap
  omap := opts.omap
  emap := opts.emap
  sendCmd := opts.sendCmd
  receiveCmd := opts.receiveCmd

/-- The fixed options and the port are untouched, and what was added to the history are `events`. -/
structure Frame (events : Event → Prop) (s s' : Session) : Prop where
  fixed : s'.opts.fixed = s.opts.fixed
  ttyFd : s'.ttyFd = s.ttyFd
  writeSz : 8 ≤ s.ttyWriteSz → 8 ≤ s'.ttyWriteSz
  trace : ∃ new, s'.trace = s.trace ++ new ∧ ∀ e ∈ new, events e

/-- The events that are about neither the queue nor what is typed or comes from the control socket. -/
def Event.Minor : Event → Prop
  | .put _ _ | .applied _ _ | .port _ | .eof | .lecho _ => True
  | _ => False

/-- The events that are about the queue. -/
def Event.Queue : Event → Prop
  | .accept _ | .discard _ _ | .write _ _ _ => True
  | _ => False

/-- The queue, the escape machine and the standard input are untouched. -/
structure Quiet (s s' : Session) : Prop extends Frame Event.Minor s s' where
  ttyQ : s'.ttyQ = s.ttyQ
  state : s'.state = s.state
  stdin : s'.env.stdin = s.env.stdin

/-- The queue is untouched, and nothing was done to it. -/
structure Outer (s s' : Session) : Prop extends Frame (fun e => ¬ e.Queue) s s' where
  ttyQ : s'.ttyQ = s.ttyQ

/-- Nothing but the queue is touched. -/
structure Inner (s s' : Session) : Prop extends Frame Event.Queue s s' where
  state : s'.state = s.state
  stdin : s'.env.stdin = s.env.stdin

instance (events : Event → Prop) : Std.Refl (Frame events) where
  refl _ := ⟨rfl, rfl, id, [], by simp, by simp⟩

instance (events : Event → Prop) : IsTrans Session (Frame events) where
  trans _ _ _ first second := by
    obtain ⟨new, trace, are⟩ := first.trace
    obtain ⟨new', trace', are'⟩ := second.trace
    refine ⟨second.fixed.trans first.fixed, second.ttyFd.trans first.ttyFd,
      second.writeSz ∘ first.writeSz, new ++ new', ?_, ?_⟩
    · rw [trace', trace, List.append_assoc]
    · intro e inside
      rcases List.mem_append.mp inside with early | late
      · exact are e early
      · exact are' e late

instance : Std.Refl Quiet where
  refl s := ⟨refl_of (Frame Event.Minor) s, rfl, rfl, rfl⟩

instance : IsTrans Session Quiet where
  trans _ _ _ first second :=
    ⟨trans_of (Frame Event.Minor) first.toFrame second.toFrame, second.ttyQ.trans first.ttyQ,
      second.state.trans first.state, second.stdin.trans first.stdin⟩

theorem Frame.mono {events events' : Event → Prop} {s s' : Session} (frame : Frame events s s')
    (weaker : ∀ e, events e → events' e) : Frame events' s s' := by
  obtain ⟨new, trace, are⟩ := frame.trace
  exact ⟨frame.fixed, frame.ttyFd, frame.writeSz, new, trace, fun e inside => weaker e (are e inside)⟩

theorem Event.Minor.notQueue {e : Event} (minor : e.Minor) : ¬ e.Queue := by
  cases e with
  | put | applied | port | eof | lecho => exact id
  | _ => cases minor

theorem Quiet.outer {s s' : Session} (quiet : Quiet s s') : Outer s s' :=
  ⟨quiet.toFrame.mono fun _ => Event.Minor.notQueue, quiet.ttyQ⟩

/-- What is read from the history for other events is as it was. -/
theorem Frame.filterMap {events : Event → Prop} {s s' : Session} {α : Type} {f : Event → Option α}
    (frame : Frame events s s') (other : ∀ e, events e → f e = none) :
    s'.trace.filterMap f = s.trace.filterMap f := by
  obtain ⟨new, trace, are⟩ := frame.trace
  rw [trace, List.filterMap_append,
    List.filterMap_eq_nil_iff.mpr fun e inside => other e (are e inside), List.append_nil]

/-- A step that leaves the history alone. -/
theorem Frame.of {events : Event → Prop} {s s' : Session} (fixed : s'.opts.fixed = s.opts.fixed)
    (ttyFd : s'.ttyFd = s.ttyFd) (writeSz : 8 ≤ s.ttyWriteSz → 8 ≤ s'.ttyWriteSz)
    (trace : s'.trace = s.trace) : Frame events s s' :=
  ⟨fixed, ttyFd, writeSz, [], by simp [trace], by simp⟩

/-- A step that adds one event to the history. -/
theorem Frame.one {events : Event → Prop} {s s' : Session} {e : Event} (is : events e)
    (fixed : s'.opts.fixed = s.opts.fixed) (ttyFd : s'.ttyFd = s.ttyFd)
    (writeSz : 8 ≤ s.ttyWriteSz → 8 ≤ s'.ttyWriteSz) (trace : s'.trace = s.trace ++ [e]) :
    Frame events s s' :=
  ⟨fixed, ttyFd, writeSz, [e], trace, by simpa using is⟩

/-- A step that changes only what a quiet step may. -/
theorem Quiet.of {s s' : Session} (fixed : s'.opts.fixed = s.opts.fixed)
    (ttyFd : s'.ttyFd = s.ttyFd) (ttyQ : s'.ttyQ = s.ttyQ)
    (writeSz : 8 ≤ s.ttyWriteSz → 8 ≤ s'.ttyWriteSz) (trace : s'.trace = s.trace)
    (state : s'.state = s.state) (stdin : s'.env.stdin = s.env.stdin) : Quiet s s' :=
  ⟨.of fixed ttyFd writeSz trace, ttyQ, state, stdin⟩

theorem Quiet.emit {s : Session} {e : Event} (minor : e.Minor) :
    Quiet s { s with trace := s.trace ++ [e] } :=
  ⟨.one minor rfl rfl id rfl, rfl, rfl, rfl⟩

/-- The invariants that a quiet step keeps. -/
structure Steady (I : Session → Prop) : Prop where
  quiet : ∀ {s s'}, Quiet s s' → I s → I s'

namespace Steady

variable {I : Session → Prop} {E : Stop → Session → Prop} (steady : Steady I)

include steady

/-! ### Functions that are quiet -/

theorem emit {e : Event} (minor : e.Minor) : Maintains I E (emit e) :=
  .modify fun _ => steady.quiet (.emit minor)

theorem nextReply {α : Type} {stream : Env → Stream' α} {advance : Env → Stream' α → Env}
    (stdin : ∀ env rest, (advance env rest).stdin = env.stdin) :
    Maintains I E (nextReply stream advance) :=
  fun s start => steady.quiet (s := s) (.of rfl rfl rfl id rfl rfl (stdin s.env _)) start

theorem onTerm {α : Type} (fd : Int) (f : Answers → TermM α) : Maintains I E (onTerm fd f) :=
  fun s start => steady.quiet (s := s) (.of rfl rfl rfl id rfl rfl rfl) start

theorem applyTerm (fd : Int) (now : Bool) : Maintains I E (applyTerm fd now) := by
  unfold Ppcom.applyTerm
  refine .read fun s _ => .bind (steady.onTerm _ _) fun r => ?_
  split
  · exact .bind (steady.emit trivial) fun _ => .pure fun _ => id
  · exact .pure fun _ => id

theorem writenNi (fd : Int) (buff : List UInt8) : Maintains I E (writenNi fd buff) := by
  unfold Ppcom.writenNi
  exact .bind (steady.nextReply fun _ _ => rfl) fun _ =>
    .bind (steady.emit trivial) fun _ => .pure fun _ => id

theorem realloc (sz : Int) : Maintains I E (realloc sz) :=
  .bind (steady.nextReply fun _ _ => rfl) fun _ => .pure fun _ => id

theorem modify {f : Session → Session} (quiet : ∀ s, Quiet s (f s)) :
    Maintains I E (modify f : SessionM PUnit) :=
  .modify fun s => steady.quiet (quiet s)

theorem setTtyWriteSz (baud : Int) : Maintains I E (setTtyWriteSz baud) :=
  steady.modify fun _ => .of rfl rfl rfl (fun _ => le_max_right _ _) rfl rfl rfl

theorem showStatus (build : Build) : Maintains I E (showStatus build) := by
  unfold Ppcom.showStatus
  refine .read fun s _ => .bind (steady.onTerm _ _).discard fun _ =>
    .bind (steady.onTerm _ _) fun _ => .bind (steady.onTerm _ _) fun _ =>
    .bind (steady.onTerm _ _) fun _ => .bind (steady.onTerm _ _) fun _ =>
    .bind (steady.onTerm _ _) fun _ => .bind (steady.onTerm _ _) fun r => ?_
  split
  · split <;> exact .pure fun _ => id
  · exact .pure fun _ => id

/-- A call on a modem line, and what it records where it succeeds. -/
theorem lineCall {α : Type} {fd : Int} {f : Answers → TermM α} {record : Session → Session}
    (quiet : ∀ s, Quiet s (record s)) :
    Maintains I E (do
      let r ← Ppcom.onTerm fd f
      if succeeded r then MonadState.modifyGet fun s => (⟨⟩, record s)) := by
  refine .bind (steady.onTerm _ _) fun r => ?_
  split
  · exact steady.modify quiet
  · exact .pure fun _ => id

theorem cmdPulse : Maintains I E cmdPulse :=
  .read fun _ _ => steady.lineCall fun _ => .of rfl rfl rfl id rfl rfl rfl

theorem cmdTogDtr : Maintains I E cmdTogDtr :=
  .read fun _ _ => steady.lineCall fun _ => .of rfl rfl rfl id rfl rfl rfl

theorem cmdTogRts : Maintains I E cmdTogRts :=
  .read fun _ _ => steady.lineCall fun _ => .of rfl rfl rfl id rfl rfl rfl

theorem runCmd : Maintains I E runCmd := by
  unfold Ppcom.runCmd
  refine .bind (steady.nextReply fun _ _ => rfl) fun child => ?_
  cases child with
  | none => exact .pure fun _ => id
  | some work =>
      exact .bind (steady.modify fun _ => .of rfl rfl rfl id rfl rfl rfl) fun _ =>
        (steady.applyTerm _ _).discard

end Steady

/-- The message where nothing was written to the port. -/
def portWriteFailed : String := "write to port failed: %s"

/-- What it takes moreover of `E` that a call of `fatal` with `I` satisfies it, but for the one after a
write to the port. -/
structure CallRules (I : Session → Prop) (E : Stop → Session → Prop) : Prop extends Steady I where
  fatal : ∀ {message s}, message ≠ portWriteFailed → I s → E (.fatal message) s

/-- Not a failed assertion, not one of the commands that end the program, and not the failed write to
the port. -/
def Stop.Plain : Stop → Prop
  | .abort | .left .cmd => False
  | .fatal message => message ≠ portWriteFailed
  | _ => True

/-- The same of every run that is stopped with `I` otherwise. -/
structure Rules (I : Session → Prop) (E : Stop → Session → Prop) : Prop extends CallRules I E where
  stop : ∀ {e s}, e.Plain → I s → E e s
  fatal {message _} other start := stop (e := .fatal message) other start

namespace CallRules

variable {I : Session → Prop} {E : Stop → Session → Prop} (rules : CallRules I E)

include rules

/-! ### Functions that are quiet up to a call of `fatal` -/

theorem throwFatal {α : Type} {Q : α → Session → Prop} (message : String)
    (other : message ≠ portWriteFailed := by decide) : Triple I (Ppcom.fatal message) Q E :=
  .throw fun _ => rules.fatal other

/-- `if ( c ) fatal(..)`, and what follows. -/
theorem fatalIf {α : Type} {Q : α → Session → Prop} {c : Prop} [Decidable c] {message : String}
    {f : PUnit → SessionM α} (rest : ¬ c → Triple I (f ⟨⟩) Q E)
    (other : message ≠ portWriteFailed := by decide) :
    Triple I (if c then Ppcom.fatal message >>= f else f ⟨⟩) Q E := by
  split
  · exact .throw fun _ => rules.fatal other
  · next not => exact rest not

/-- `if ( c ) fatal(..)`, with nothing after it. -/
theorem fatalWhen {c : Prop} [Decidable c] {message : String}
    (other : message ≠ portWriteFailed := by decide) :
    Maintains I E (do if c then Ppcom.fatal message) := by
  split
  · exact rules.throwFatal message other
  · exact .pure fun _ => id

theorem writeAll (fd : Int) (buff : List UInt8) (message : String)
    (other : message ≠ portWriteFailed := by decide) : Maintains I E (writeAll fd buff message) := by
  unfold Ppcom.writeAll
  exact .bind (rules.writenNi fd buff) fun _ => rules.fatalWhen other

theorem mapAndWrite {fd : Int} {map : Word} {b : UInt8}
    (fails : doMap map b = none → ∀ s, I s → E .abort s) :
    Maintains I E (mapAndWrite fd map b) := by
  unfold Ppcom.mapAndWrite
  cases image : doMap map b with
  | none => exact .throw (fails image)
  | some bytes =>
      dsimp only
      split
      · exact rules.writeAll fd bytes _
      · exact .pure fun _ => id

theorem forward (buff : List UInt8) : Maintains I E (forward buff) := by
  unfold Ppcom.forward
  refine .read fun s _ => ?_
  have log : Maintains I E (do
      if s.opts.logFilename.isSome then
        Ppcom.writeAll s.logFd buff "write to logfile failed: %s") := by
    split
    · exact rules.writeAll _ _ _
    · exact .pure fun _ => id
  dsimp only
  split
  · exact .bind (rules.writenNi _ _).discard fun _ => log
  · exact log

end CallRules

namespace Rules

variable {I : Session → Prop} {E : Stop → Session → Prop}

theorem checkpoint (rules : Rules I E) : Maintains I E checkpoint := by
  unfold Ppcom.checkpoint
  refine .read fun s start => ?_
  cases s.budget with
  | zero => exact .throw fun _ => rules.stop trivial
  | succ n => exact .modify fun _ => rules.quiet (.of rfl rfl rfl id rfl rfl rfl)

end Rules

/-! ### The queue, for what is not about it -/

/-- What `tty_q_push` keeps of the bytes that are still to be pushed: none where one is not stored. -/
theorem ttyQPush_triple {I : List UInt8 → Session → Prop} {E : Stop → Session → Prop} (build : Build)
    (checked : ∀ bytes, Maintains (I bytes) E checkpoint)
    (pushed : ∀ b rest, Triple (I (b :: rest)) (pushByte build b)
      (fun stored => I (if stored then rest else [])) E)
    (bytes : List UInt8) : Triple (I bytes) (ttyQPush build bytes) (fun _ => I []) E := by
  induction bytes with
  | nil => exact .pure fun _ => id
  | cons b rest ih =>
      refine .bind (checked _) fun _ => .bind (pushed b rest) fun stored => ?_
      cases stored with
      | false => exact .pure fun _ => id
      | true => exact .bind ih fun _ => .pure fun _ => id

/-- What it takes to keep an invariant that is not about the queue: no step on the queue alone breaks
it, and a failed write to the port or assertion of a mapping does not break `E`. -/
structure BlindRules (I : Session → Prop) (E : Stop → Session → Prop) : Prop
    extends Rules I E where
  inner : ∀ {s s'}, Inner s s' → I s → I s'
  fails : ∀ {s}, I s → E (.fatal portWriteFailed) s
  omap : ∀ {s s' b}, I s → doMap s.opts.omap b = none → I s' → E .abort s'
  emap : ∀ {s s' b}, I s → doMap s.opts.emap b = none → I s' → E .abort s'

/-- Less may be said of the runs that are stopped. -/
theorem BlindRules.weaken {I : Session → Prop} {E F : Stop → Session → Prop} (blind : BlindRules I E)
    (weaker : ∀ {stop s}, E stop s → F stop s) : BlindRules I F where
  quiet := blind.quiet
  stop plain held := weaker (blind.stop plain held)
  inner := blind.inner
  fails held := weaker (blind.fails held)
  omap held none held' := weaker (blind.omap held none held')
  emap held none held' := weaker (blind.emap held none held')

/-- Two invariants that are not about the queue are one. -/
theorem BlindRules.and {I J : Session → Prop} {E F : Stop → Session → Prop} (one : BlindRules I E)
    (two : BlindRules J F) :
    BlindRules (fun s => I s ∧ J s) (fun stop s => E stop s ∧ F stop s) where
  quiet step held := ⟨one.quiet step held.1, two.quiet step held.2⟩
  stop plain held := ⟨one.stop plain held.1, two.stop plain held.2⟩
  inner step held := ⟨one.inner step held.1, two.inner step held.2⟩
  fails held := ⟨one.fails held.1, two.fails held.2⟩
  omap held none held' := ⟨one.omap held.1 none held'.1, two.omap held.2 none held'.2⟩
  emap held none held' := ⟨one.emap held.1 none held'.1, two.emap held.2 none held'.2⟩

namespace BlindRules

variable {I : Session → Prop} {E : Stop → Session → Prop} (rules : BlindRules I E)

include rules

theorem onQueue {f : Session → TtyQ} :
    Maintains I E (MonadState.modifyGet fun s => (⟨⟩, { s with ttyQ := f s }) : SessionM PUnit) :=
  .modify fun _ => rules.inner ⟨.of rfl rfl id rfl, rfl, rfl⟩

theorem emit {e : Event} (queue : e.Queue) : Maintains I E (emit e) :=
  .modify fun _ => rules.inner ⟨.one queue rfl rfl id rfl, rfl, rfl⟩

theorem growQueue (build : Build) (n : Nat) : Maintains I E (growQueue build n) := by
  induction n with
  | zero => exact .pure fun _ => id
  | succ n ih =>
      unfold Ppcom.growQueue
      refine .read fun s _ => ?_
      dsimp only
      split
      · exact .pure fun _ => id
      split
      · exact .pure fun _ => id
      refine .bind (rules.realloc _) fun reply => ?_
      cases reply with
      | none => exact .pure fun _ => id
      | some fill => exact .bind rules.onQueue fun _ => ih

theorem pushByte (build : Build) (b : UInt8) : Maintains I E (pushByte build b) := by
  unfold Ppcom.pushByte
  refine .read fun s start => .bind (rules.growQueue _ _) fun room => ?_
  cases room with
  | false => exact .pure fun _ => id
  | true =>
      dsimp only [if_true]
      have echo : Maintains I E (do
          if s.opts.lecho then Ppcom.mapAndWrite sto s.opts.emap b
          return true) := by
        split
        · exact .bind (rules.mapAndWrite fun fails s' => rules.emap start fails) fun _ =>
            .pure fun _ => id
        · exact .pure fun _ => id
      cases image : doMap s.opts.omap b with
      | none => exact .throw fun s' => rules.omap start image
      | some bytes =>
          exact .bind rules.onQueue fun _ => .bind (rules.emit trivial) fun _ => echo

theorem ttyQPush (build : Build) (bytes : List UInt8) : Maintains I E (ttyQPush build bytes) :=
  ttyQPush_triple (I := fun _ => I) build (fun _ => rules.checkpoint)
    (fun b _ => rules.pushByte build b) bytes

theorem discardQueue (setting : Setting) : Maintains I E (discardQueue setting) :=
  .read fun _ _ => .bind (rules.emit trivial) fun _ => rules.onQueue

theorem writePort : Maintains I E writePort := by
  unfold Ppcom.writePort
  refine .bind rules.checkpoint fun _ => .read fun s _ =>
    .bind (rules.nextReply fun _ _ => rfl) fun reply => .bind (rules.emit trivial) fun _ => ?_
  refine .refuse (fun _ => rules.fails) ?_
  split
  · exact .bind (rules.forward _) fun _ => rules.onQueue
  · exact rules.onQueue

end BlindRules

end Ppcom
