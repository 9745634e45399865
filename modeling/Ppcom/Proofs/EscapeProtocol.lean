/-
Module: Ppcom.Proofs.EscapeProtocol
Purpose: What `loop` does for the bytes it reads from standard input is the tokenisation of their
  concatenation, however they are split into reads and whatever happens in between.
Trusted boundary: none
Main exports: View, At, doCommand_ends, processByte_triple, escape_protocol
-/
import Ppcom.Proofs.StartUp
import Ppcom.Spec.Streams

namespace Ppcom

open Program

/-! ### What the escape machine is about -/

/-- What a run has to do with standard input. -/
structure View where
  escape : Option UInt8
  bytes : List UInt8
  done : List Action
  state : LoopState

/-- The actions that the bytes stand for. -/
def View.tokens (v : View) : List Action := (tokenise v.escape false v.bytes).1

/-- What `s` has to do with standard input. -/
def Session.view (s : Session) : View where
  escape := s.opts.escapeByte
  bytes := stdinBytes s.trace
  done := actions s.trace
  state := s.state

/-- The events that are about standard input. -/
def Event.OnStdin : Event → Prop
  | .stdin _ | .act _ => True
  | _ => False

/-- The actions done are the first of those to do. -/
def Started (escape : Option UInt8) (v : View) : Prop := v.escape = escape ∧ v.done <+: v.tokens

/-- A run that a command ends has done all up to that command, and another that is stopped the start of
what it should do. -/
def EscapeStop (escape : Option UInt8) (stop : Stop) (s : Session) : Prop :=
  s.view.escape = escape ∧
    if stop = .left .cmd then s.view.done = throughExit s.view.tokens
    else s.view.done <+: s.view.tokens

theorem Started.stop {escape : Option UInt8} {stop : Stop} {s : Session}
    (started : Started escape s.view) (other : stop ≠ .left .cmd) : EscapeStop escape stop s := by
  rw [EscapeStop, if_neg other]
  exact started

theorem escapeByte_of_fixed {opts opts' : Opts} (fixed : opts'.fixed = opts.fixed) :
    opts'.escapeByte = opts.escapeByte := by
  unfold Opts.escapeByte
  rw [show opts'.noescape = opts.noescape from congrArg FixedOpts.noescape fixed,
    show opts'.escape = opts.escape from congrArg FixedOpts.escape fixed]

section Frames

variable {s s' : Session}

theorem streams_of_notStdin {new : List Event} (other : ∀ e ∈ new, ¬ e.OnStdin) :
    stdinBytes new = [] ∧ actions new = [] := by
  rw [stdinBytes, List.flatMap_eq_nil_iff, actions, List.filterMap_eq_nil_iff]
  refine ⟨fun e inside => ?_, fun e inside => ?_⟩
  all_goals
    have free := other e inside
    cases e with
    | stdin | act => exact absurd trivial free
    | _ => rfl

theorem Frame.view {events : Event → Prop} (frame : Frame events s s')
    (other : ∀ e, events e → ¬ e.OnStdin) (state : s'.state = s.state) : s'.view = s.view := by
  obtain ⟨new, trace, are⟩ := frame.trace
  obtain ⟨bytes, done⟩ := streams_of_notStdin fun e inside => other e (are e inside)
  have escape := escapeByte_of_fixed frame.fixed
  simp only [Session.view, trace, stdinBytes_append, actions_append, bytes, done, escape, state,
    List.append_nil]

theorem Event.Minor.notStdin {e : Event} (minor : e.Minor) : ¬ e.OnStdin := by
  cases e with
  | put | applied | port | eof | lecho => exact id
  | _ => cases minor

theorem Event.Queue.notStdin {e : Event} (queue : e.Queue) : ¬ e.OnStdin := by
  cases e with
  | accept | discard | write => exact id
  | _ => cases queue

end Frames

/-- What is said of the view alone, and implies that the actions done are the first of those to do, is
kept by all that is not about standard input. -/
theorem blind_view {escape : Option UInt8} {J : View → Prop} (started : ∀ v, J v → Started escape v) :
    BlindRules (fun s => J s.view) (EscapeStop escape) where
  quiet step held := (step.toFrame.view (fun _ => Event.Minor.notStdin) step.state).symm ▸ held
  stop {e _} plain held := (started _ held).stop (by
    rintro rfl
    exact plain)
  fails held := (started _ held).stop nofun
  inner step held := (step.toFrame.view (fun _ => Event.Queue.notStdin) step.state).symm ▸ held
  omap _ _ held := (started _ held).stop nofun
  emap _ _ held := (started _ held).stop nofun

theorem key_view {build : Build} {escape : Option UInt8} {J : View → Prop}
    (started : ∀ v, J v → Started escape v) :
    KeyRules build (fun s => J s.view) (EscapeStop escape) where
  toRules := (blind_view started).toRules
  prompt read entry s held := by
    have same : (Session.view { s with
        env := { s.env with stdin := (read s.env.stdin).2 }
        trace := s.trace ++ [.enter (entry (read s.env.stdin).1)] }) = s.view :=
      Frame.view (.one id rfl rfl id rfl) (fun _ => id) rfl
    have kept : J s.view := held
    rw [← same] at kept
    exact kept
  discard := (blind_view started).discardQueue
  push := (blind_view started).ttyQPush build

/-! ### Commands -/

theorem ofByte_ends (c : UInt8) :
    (match Key.ofByte c with
      | some key => decide (key = .exit ∨ key = .quit)
      | none => false) = (Action.command c).ends := by
  fun_cases Key.ofByte c with
  | case21 _ notExit notQuit =>
      simp only [Action.ends, Bool.false_eq, Bool.or_eq_false_iff, beq_eq_false_iff_ne]
      exact ⟨notExit, notQuit⟩
  | _ => rfl

theorem doCommand_ends (build : Build) (c : UInt8) :
    Triple (fun _ => True) (doCommand build c) (fun ends _ => ends = (Action.command c).ends)
      fun _ _ => True := by
  have value := ofByte_ends c
  unfold doCommand
  cases key : Key.ofByte c with
  | none =>
      rw [key] at value
      exact .pure fun _ _ => value
  | some key' =>
      rw [key] at value
      exact (exec_ends build key').weaken (fun _ => id) (fun _ _ is => is.trans value) fun _ _ => id

/-! ### Bytes -/

/-- The bytes `seen` are done, and the bytes `todo` are read. -/
structure Done (escape : Option UInt8) (seen todo : List UInt8) (v : View) : Prop where
  byte : v.escape = escape
  bytes : v.bytes = seen ++ todo
  done : v.done = (tokenise escape false seen).1

/-- The machine is between two bytes, and none of those that are done ended the program. -/
structure At (escape : Option UInt8) (seen todo : List UInt8) (v : View) : Prop
    extends Done escape seen todo v where
  state : v.state = .of (tokenise escape false seen).2
  stays : ∀ action ∈ (tokenise escape false seen).1, action.ends = false

section Bytes

variable {escape : Option UInt8} {seen todo : List UInt8} {b : UInt8} {v : View}

/-- The actions for a byte follow those for the bytes before it. -/
theorem tokenise_snoc (escape : Option UInt8) (seen : List UInt8) (b : UInt8) :
    tokenise escape false (seen ++ [b]) =
      ((tokenise escape false seen).1 ++ (tokenise escape (tokenise escape false seen).2 [b]).1,
        (tokenise escape (tokenise escape false seen).2 [b]).2) :=
  tokenise_append escape false seen [b]

theorem Done.started (held : Done escape seen todo v) : Started escape v := by
  refine ⟨held.byte, ?_⟩
  rw [held.done, View.tokens, held.byte, held.bytes, tokenise_append]
  exact List.prefix_append _ _

/-- Only with an escape byte a command key can be to come. -/
theorem escape_of_pending (pending : (tokenise escape false seen).2 = true) : escape ≠ none := by
  rintro rfl
  rw [tokenise_none] at pending
  cases pending

theorem isEscape_iff (opts : Opts) (b : UInt8) :
    (!opts.noescape && b == opts.escape) = true ↔ some b = opts.escapeByte := by
  cases off : opts.noescape <;> simp [Opts.escapeByte, off]

theorem eq_escape_iff {opts : Opts} (on : opts.escapeByte ≠ none) (b : UInt8) :
    b = opts.escape ↔ some b = opts.escapeByte := by
  cases off : opts.noescape with
  | true => simp [Opts.escapeByte, off] at on
  | false => simp [Opts.escapeByte, off]

/-- The byte `b` is done with one action. -/
theorem Done.act (held : Done escape seen (b :: todo) v) {action : Action}
    (is : (tokenise escape (tokenise escape false seen).2 [b]).1 = [action]) :
    Done escape (seen ++ [b]) todo { v with done := v.done ++ [action] } where
  byte := held.byte
  bytes := by simp [held.bytes]
  done := by rw [tokenise_snoc, is, held.done]

/-- What is left of the byte `b` is to go to the next state. -/
theorem Done.next (held : Done escape (seen ++ [b]) todo v)
    (stays : ∀ action ∈ (tokenise escape false (seen ++ [b])).1, action.ends = false) :
    At escape (seen ++ [b]) todo
      { v with state := .of (tokenise escape (tokenise escape false seen).2 [b]).2 } where
  toDone := ⟨held.byte, held.bytes, held.done⟩
  state := by rw [tokenise_snoc]
  stays := stays

theorem stays_snoc (stays : ∀ action ∈ (tokenise escape false seen).1, action.ends = false)
    (last : ∀ action ∈ (tokenise escape (tokenise escape false seen).2 [b]).1,
      action.ends = false) :
    ∀ action ∈ (tokenise escape false (seen ++ [b])).1, action.ends = false := by
  rw [tokenise_snoc]
  intro action inside
  rcases List.mem_append.mp inside with early | late
  · exact stays action early
  · exact last action late

theorem view_act (s : Session) (action : Action) :
    ({ s with trace := s.trace ++ [.act action] } : Session).view =
      { s.view with done := s.view.done ++ [action] } := by
  simp [Session.view, stdinBytes, actions]

theorem offerData_triple {build : Build} {J J' : View → Prop}
    (started : ∀ v, J' v → Started escape v)
    (step : ∀ v, J v → J' { v with done := v.done ++ [.data b] }) :
    Triple (fun s => J s.view) (offerData build b) (fun _ s => J' s.view) (EscapeStop escape) := by
  refine .bind (.modify fun s held => ?_) fun _ => ((blind_view started).ttyQPush build _).discard
  rw [view_act]
  exact step _ held

/-- The branch of `ST_TRANSPARENT`. -/
theorem transparentByte_triple (build : Build) {opts : Opts} (byte : opts.escapeByte = escape)
    (pending : (tokenise escape false seen).2 = false) :
    Triple (fun s => At escape seen (b :: todo) s.view)
      (if !opts.noescape && b == opts.escape then
        modify fun s => { s with state := .command }
      else offerData build b)
      (fun _ s => At escape (seen ++ [b]) todo s.view) (EscapeStop escape) := by
  split
  · next isEscape =>
    rw [isEscape_iff, byte] at isEscape
    have tokens : tokenise escape (tokenise escape false seen).2 [b] = ([], true) := by
      simp [pending, tokenise, isEscape]
    refine .modify fun s held => ?_
    have moved : Done escape (seen ++ [b]) todo s.view :=
      ⟨held.byte, by simp [held.bytes], by simp [tokenise_snoc, tokens, held.done]⟩
    have next := moved.next (stays_snoc held.stays (by simp [tokens]))
    rw [tokens] at next
    exact next
  · next notEscape =>
    rw [isEscape_iff, byte] at notEscape
    have tokens : tokenise escape (tokenise escape false seen).2 [b] = ([.data b], false) := by
      simp [pending, tokenise, notEscape]
    apply offerData_triple (fun v held => held.toDone.started)
    intro v held
    have next := (held.toDone.act (congrArg Prod.fst tokens)).next
      (stays_snoc held.stays (by simp [tokens, Action.ends]))
    have state := held.state
    rw [pending] at state
    rw [tokens, ← state] at next
    exact next

/-- The branch of `ST_COMMAND`. -/
theorem commandByte_triple (build : Build) {opts : Opts} (byte : opts.escapeByte = escape)
    (pending : (tokenise escape false seen).2 = true) :
    Triple (fun s => At escape seen (b :: todo) s.view)
      (do
        if b = opts.escape then offerData build b
        else
          emit (.act (.command b))
          if ← doCommand build b then throw (.left .cmd)
        modify fun s => { s with state := .transparent })
      (fun _ s => At escape (seen ++ [b]) todo s.view) (EscapeStop escape) := by
  have on : opts.escapeByte ≠ none := byte ▸ escape_of_pending pending
  have fallBack : ∀ {v}, Done escape (seen ++ [b]) todo v →
      (∀ action ∈ (tokenise escape false (seen ++ [b])).1, action.ends = false) →
      At escape (seen ++ [b]) todo { v with state := .transparent } := by
    intro v acted stays
    have next := acted.next stays
    rw [pending] at next
    exact next
  split
  · next isEscape =>
    rw [eq_escape_iff on, byte] at isEscape
    have tokens : tokenise escape (tokenise escape false seen).2 [b] = ([.data b], false) := by
      simp [pending, tokenise, isEscape]
    let acted : View → Prop := fun v => Done escape (seen ++ [b]) todo v ∧
      ∀ action ∈ (tokenise escape false (seen ++ [b])).1, action.ends = false
    have offer : Triple (fun s => At escape seen (b :: todo) s.view) (offerData build b)
        (fun _ s => acted s.view) (EscapeStop escape) :=
      offerData_triple (fun v held => held.1.started) fun v held => ?_
    · exact .bind offer fun _ => .modify fun s held => fallBack held.1 held.2
    exact ⟨held.toDone.act (congrArg Prod.fst tokens),
      stays_snoc held.stays (by simp [tokens, Action.ends])⟩
  · next notEscape =>
    rw [eq_escape_iff on, byte] at notEscape
    have tokens : tokenise escape (tokenise escape false seen).2 [b] = ([.command b], false) := by
      simp [pending, tokenise, notEscape]
    let acted : View → Prop := fun v => Done escape (seen ++ [b]) todo v ∧
      ∀ action ∈ (tokenise escape false seen).1, action.ends = false
    have command : Maintains (fun s => acted s.view) (EscapeStop escape) (doCommand build b) :=
      (key_view fun v held => held.1.started).doCommand b
    refine .bind (Q := fun _ s => acted s.view) (.modify fun s held => ?_) fun _ =>
      .bind ((command.and ((doCommand_ends build b).pre fun _ _ => trivial)).weaken
        (fun _ => id) (fun _ _ => id) fun _ _ => And.left) fun ends => ?_
    · rw [view_act]
      exact ⟨held.toDone.act (congrArg Prod.fst tokens), held.stays⟩
    cases ends with
    | true =>
        refine .throw fun s held => ?_
        obtain ⟨⟨done, stays⟩, ends⟩ := held
        refine ⟨done.byte, ?_⟩
        rw [if_pos rfl, done.done, View.tokens, done.byte, done.bytes,
          tokenise_append escape false (seen ++ [b]), tokenise_snoc, tokens, List.append_assoc]
        exact (throughExit_of_ends stays ends.symm).symm
    | false =>
        refine .modify fun s held => ?_
        obtain ⟨⟨done, stays⟩, ends⟩ := held
        exact fallBack done (stays_snoc stays (by simpa [tokens] using ends.symm))

/-- One byte, whatever the state of the machine. -/
theorem processByte_triple (build : Build) :
    Triple (fun s => At escape seen (b :: todo) s.view) (processByte build b)
      (fun _ s => At escape (seen ++ [b]) todo s.view) (EscapeStop escape) := by
  unfold processByte
  refine .bind (blind_view fun v held => held.toDone.started).checkpoint fun _ =>
    .read fun s start => ?_
  have state : s.state = .of (tokenise escape false seen).2 := start.state
  have byte : s.opts.escapeByte = escape := start.byte
  cases pending : (tokenise escape false seen).2 with
  | false =>
      rw [state, pending]
      exact transparentByte_triple build byte pending
  | true =>
      rw [state, pending]
      exact commandByte_triple build byte pending

/-- All the bytes of a read, one after the other. -/
theorem processBytes_triple (build : Build) :
    Triple (fun s => At escape seen todo s.view) (todo.forM (processByte build))
      (fun _ s => At escape (seen ++ todo) [] s.view) (EscapeStop escape) := by
  induction todo generalizing seen with
  | nil =>
      rw [List.append_nil]
      exact .pure fun _ => id
  | cons b todo ih =>
      rw [show seen ++ b :: todo = seen ++ [b] ++ todo by simp]
      exact .bind (processByte_triple build) fun _ => ih

end Bytes

/-! ### Turns -/

/-- Between two turns all the bytes read are done. -/
def Settled (escape : Option UInt8) (v : View) : Prop := ∃ seen, At escape seen [] v

theorem Settled.started {escape : Option UInt8} {v : View} (held : Settled escape v) :
    Started escape v := by
  obtain ⟨seen, held⟩ := held
  exact held.toDone.started

theorem readStdin_triple (build : Build) (escape : Option UInt8) :
    Maintains (fun s => Settled escape s.view) (EscapeStop escape) (readStdin build) := by
  have read : Maintains (fun s => Settled escape s.view) (EscapeStop escape)
      (readFd stiRdSz Env.stdin fun env src => { env with stdin := src }) :=
    fun s held => held
  refine .bind read fun reply => ?_
  cases reply with
  | zero =>
      exact .bind ((blind_view fun v => Settled.started).toSteady.emit trivial) fun _ =>
        .modify fun s held => held
  | again => exact .pure fun _ => id
  | failed => exact .throw fun s held => held.started.stop nofun
  | data first rest =>
      intro s held
      obtain ⟨seen, held⟩ := held
      have run : Triple (fun s' => s' = s) (do
          emit (.stdin (first :: rest))
          (first :: rest).forM (processByte build))
          (fun _ s => Settled escape s.view) (EscapeStop escape) := by
        refine .bind (Q := fun _ s' => At escape seen (first :: rest) s'.view)
          (.modify fun s' same => ?_) fun _ =>
          (processBytes_triple build).weaken (fun _ => id) (fun _ _ held => ⟨_, held⟩) fun _ _ => id
        subst same
        exact {
          byte := held.byte
          bytes := by simpa [Session.view, stdinBytes] using held.bytes
          done := by simpa [Session.view, actions] using held.done
          state := held.state
          stays := held.stays }
      exact run s rfl

/-- An event that is not about standard input does not change what was to be done. -/
theorem emit_view {J : View → Prop} {E : Stop → Session → Prop} {e : Event} (other : ¬ e.OnStdin) :
    Maintains (fun s => J s.view) E (emit e) := by
  refine .modify fun s held => ?_
  have view : ({ s with trace := s.trace ++ [e] } : Session).view = s.view :=
    Frame.view (.one other rfl rfl id rfl) (fun _ => id) rfl
  rw [view]
  exact held

theorem settled_turn (build : Build) (escape : Option UInt8) :
    TurnRules build (fun s => Settled escape s.view) (EscapeStop escape) :=
  (blind_view fun _ => Settled.started).turn (fun held => held.started.stop nofun)
    (fun _ _ => emit_view id) (fun _ => emit_view id) (readStdin_triple build escape)

/-- Nothing was read yet. -/
def Fresh (escape : Option UInt8) (v : View) : Prop :=
  v.escape = escape ∧ v.bytes = [] ∧ v.done = []

theorem fresh_blind (escape : Option UInt8) :
    BlindRules (fun s => Fresh escape s.view) (EscapeStop escape) :=
  blind_view fun _ fresh => ⟨fresh.1, fresh.2.2 ▸ List.nil_prefix⟩

theorem fresh_start (build : Build) (escape : Option UInt8) :
    StartRules build (fun s => Fresh escape s.view) (fun s => Fresh escape s.view)
      (EscapeStop escape) :=
  (fresh_blind escape).start build (fun _ _ _ => id) fun _ => id

theorem settled_enterLoop (escape : Option UInt8) {E : Stop → Session → Prop} :
    Triple (fun s => Fresh escape s.view) enterLoop (fun _ s => Settled escape s.view) E :=
  .modify fun _ fresh => ⟨[], ⟨fresh.1, fresh.2.1, fresh.2.2⟩, rfl, by simp [tokenise]⟩

/-- At the top of every turn of `loop` the actions done are the tokenisation of all that `loop` has
read from standard input, and a command key is to come exactly where a lone escape byte ends it. In the
turn that a command ends, the actions are those up to this command; and in a turn that is stopped
otherwise they are the first of those to do. -/
theorem escape_protocol (build : Build) {opts : Opts} {world : World} {env : Env} {budget n : Nat}
    {s : Session} (top : (upTo build n).run (.start opts world env budget) = .ok ⟨⟩ s) :
    actions s.trace = (tokenise opts.escapeByte false (stdinBytes s.trace)).1 ∧
    (s.state = .command ↔ (tokenise opts.escapeByte false (stdinBytes s.trace)).2 = true) ∧
    ∀ stop s', (loopTurn build).run s = .error stop s' →
      if stop = .left .cmd then
        actions s'.trace = throughExit (tokenise opts.escapeByte false (stdinBytes s'.trace)).1
      else
        actions s'.trace <+: (tokenise opts.escapeByte false (stdinBytes s'.trace)).1 := by
  have fresh : Fresh opts.escapeByte (Session.start opts world env budget).view := ⟨rfl, rfl, rfl⟩
  have turn := (settled_turn build opts.escapeByte).loopTurn
  have reached := (fresh_start build opts.escapeByte).upTo (settled_enterLoop opts.escapeByte) turn n
    _ fresh
  rw [top] at reached
  obtain ⟨seen, held⟩ := reached
  have bytes : stdinBytes s.trace = seen := held.bytes.trans (List.append_nil _)
  have state : s.state = .of (tokenise opts.escapeByte false seen).2 := held.state
  refine ⟨bytes ▸ held.done, ?_, fun stop s' stopped => ?_⟩
  · rw [bytes, state]
    cases (tokenise opts.escapeByte false seen).2 <;> simp [LoopState.of]
  · have last := turn s ⟨seen, held⟩
    rw [stopped] at last
    obtain ⟨byte, done⟩ := last
    rw [View.tokens, byte] at done
    exact done

/-- The escape character is typed twice, in two reads, and `a` after it. -/
theorem escape_protocol_two_reads :
    let env := Env.works [.data 0x11 [], .data 0x11 [0x61]] [] [] (fun fd => fd == sti)
      fun _ => false
    let opts := { Opts.default with noinit := true, quiet := true }
    ∃ s, (upTo .cmake 2).run (.start opts .fresh env 9) = .ok ⟨⟩ s ∧
      actions s.trace = [.data 0x11, .data 0x61] ∧ s.state ≠ .command := by
  intro env opts
  have held : (returned ((upTo .cmake 2).run (.start opts .fresh env 9))).map
      (fun t => stdinBytes t.2.trace) = some [0x11, 0x11, 0x61] := by decide +kernel
  obtain ⟨⟨⟨⟩, s⟩, ret, bytes⟩ := Option.map_eq_some_iff.mp held
  have ran := eq_ok_of_returned ret
  obtain ⟨done, pending, -⟩ := escape_protocol .cmake ran
  rw [bytes] at done pending
  exact ⟨s, ran, done, fun command => absurd (pending.mp command) (by decide)⟩

end Ppcom
