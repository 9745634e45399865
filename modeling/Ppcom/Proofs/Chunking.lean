/-
Module: Ppcom.Proofs.Chunking
Purpose: What a run does with what is typed is the script of the bytes, whatever portions they come in,
  as long as the prompts find their answers: `loop` has to have read nothing behind the key of a command
  that asks for something.
Trusted boundary: none
Main exports: Typing, typed_doCommand, OnScript, onScript_processByte, Finished, chunking_irrelevant
-/
import Ppcom.Proofs.EscapeProtocol
import Ppcom.Proofs.Prompts

namespace Ppcom

open Program

/-- A run that is stopped has done the start of what the bytes stand for, and all of it if a command
ends it. -/
def ScriptStop (plat : Platform) (opts : Opts) (typed : List UInt8) (stop : Stop) (s : Session) :
    Prop :=
  deeds s.trace <+: script plat opts .transparent typed ∧
    (stop = .left .cmd → deeds s.trace = script plat opts .transparent typed)

/-- What was done is `done`, and what is to be read are the bytes `left`. -/
structure Typing (opts : Opts) (done : List Event) (left : List UInt8) (state : LoopState)
    (s : Session) : Prop where
  fixed : s.opts.fixed = opts.fixed
  done : deeds s.trace = done
  plain : s.env.stdin.Plain
  left : s.env.stdin.bytes = left
  state : s.state = state

section Runs

variable {build : Build} {opts : Opts} {typed : List UInt8}

/-! ### Commands -/

theorem Frame.deeds {events : Event → Prop} {s s' : Session} (frame : Frame events s s')
    (other : ∀ e, events e → e.isDeed = false) : deeds s'.trace = deeds s.trace := by
  obtain ⟨new, trace, are⟩ := frame.trace
  have none : Ppcom.deeds new = [] :=
    List.filter_eq_nil_iff.mpr fun e inside => by simp [other e (are e inside)]
  rw [trace, deeds_append, none, List.append_nil]

theorem Event.Minor.notDeed {e : Event} (minor : e.Minor) : e.isDeed = false := by
  cases e with
  | put | applied | port | eof | lecho => rfl
  | _ => cases minor

theorem Event.Queue.notDeed {e : Event} (queue : e.Queue) : e.isDeed = false := by
  cases e with
  | accept | discard | write => rfl
  | _ => cases queue

section Typing

variable {done : List Event} {left : List UInt8} {state : LoopState}

theorem typing_blind (begins : done <+: script build.toPlatform opts .transparent typed) :
    BlindRules (Typing opts done left state) (ScriptStop build.toPlatform opts typed) where
  quiet step held :=
    ⟨step.fixed.trans held.fixed,
      (step.toFrame.deeds fun _ => Event.Minor.notDeed).trans held.done,
      step.stdin ▸ held.plain, step.stdin ▸ held.left, step.state.trans held.state⟩
  stop {e _} plain held := ⟨held.done ▸ begins, by
    rintro rfl
    exact absurd plain id⟩
  inner step held :=
    ⟨step.fixed.trans held.fixed,
      (step.toFrame.deeds fun _ => Event.Queue.notDeed).trans held.done,
      step.stdin ▸ held.plain, step.stdin ▸ held.left, step.state.trans held.state⟩
  fails held := ⟨held.done ▸ begins, nofun⟩
  omap _ _ held := ⟨held.done ▸ begins, nofun⟩
  emap _ _ held := ⟨held.done ▸ begins, nofun⟩

theorem typing_commands (begins : done <+: script build.toPlatform opts .transparent typed) :
    CommandRules build (Typing opts done left state) (ScriptStop build.toPlatform opts typed) where
  toRules := (typing_blind begins).toRules
  discard := (typing_blind begins).discardQueue
  push := (typing_blind begins).ttyQPush build

/-- What is done and left once a question, if there is one, has its answer. -/
def answered (asks : Option (Source → Entry × Source)) (done : List Event) (left : List UInt8) :
    List Event × List UInt8 :=
  match asks with
  | none => (done, left)
  | some answer => (done ++ [.enter (answer (.whole left)).1], (answer (.whole left)).2.bytes)

theorem typing_emit {e : Event} (deed : e.isDeed = true) {E : Stop → Session → Prop} :
    Triple (Typing opts done left state) (emit e)
      (fun _ => Typing opts (done ++ [e]) left state) E := by
  refine .modify fun s held => ⟨held.fixed, ?_, held.plain, held.left, held.state⟩
  rw [deeds_append, held.done]
  simp [deeds, deed]

theorem typing_prompt {α : Type} {read : Source → α × Source} (reads : ByBytes read)
    (entry : α → Entry) {E : Stop → Session → Prop} :
    Triple (Typing opts done left state) (prompt read entry)
      (fun _ => Typing opts (answered (some fun src => (read src).map entry id) done left).1
        (answered (some fun src => (read src).map entry id) done left).2 state) E := by
  intro s held
  obtain ⟨value, alike⟩ := reads.same held.plain.alike_whole
  rw [held.left] at value alike
  refine ⟨held.fixed, ?_, alike.plain, ?_, held.state⟩
  · change deeds (s.trace ++ [.enter (entry (read s.env.stdin).1)]) = _
    rw [deeds_append, held.done, value]
    rfl
  · change (read s.env.stdin).2.bytes = (read (.whole left)).2.bytes
    exact alike.bytes

theorem typed_transfer {xfrCmd : List UInt8}
    (begins : (answered (fnameQuestion xfrCmd) done left).1 <+:
      script build.toPlatform opts .transparent typed) :
    Triple (Typing opts done left state) (cmdTransfer xfrCmd)
      (fun _ => Typing opts (answered (fnameQuestion xfrCmd) done left).1
        (answered (fnameQuestion xfrCmd) done left).2 state)
      (ScriptStop build.toPlatform opts typed) := by
  unfold cmdTransfer
  unfold fnameQuestion at begins ⊢
  split
  · exact .pure fun _ => id
  · next some =>
    rw [if_neg some] at begins
    refine .bind (typing_prompt readFilename_byBytes _) fun fname => ?_
    cases fname with
    | none => exact .pure fun _ => id
    | some name => exact (typing_commands begins).runCmd

/-- A command has the answer to its question from the bytes that are left. -/
theorem typed_exec (key : Key)
    (begins : (answered (key.question build.toPlatform opts) done left).1 <+:
      script build.toPlatform opts .transparent typed) :
    Triple (Typing opts done left state) (key.exec build)
      (fun _ => Typing opts (answered (key.question build.toPlatform opts) done left).1
        (answered (key.question build.toPlatform opts) done left).2 state)
      (ScriptStop build.toPlatform opts typed) := by
  cases key with
  | baud =>
      refine .bind (typing_prompt (readBaud_byBytes _) _) fun newbaud => ?_
      split
      · exact .pure fun _ => id
      · exact .bind ((typing_commands begins).settings.cmdBaud build _) fun _ => .pure fun _ => id
  | send =>
      refine .read fun s held => ?_
      rw [show s.opts.sendCmd = opts.sendCmd from congrArg FixedOpts.sendCmd held.fixed]
      exact .bind (typed_transfer begins) fun _ => .pure fun _ => id
  | receive =>
      refine .read fun s held => ?_
      rw [show s.opts.receiveCmd = opts.receiveCmd from congrArg FixedOpts.receiveCmd held.fixed]
      exact .bind (typed_transfer begins) fun _ => .pure fun _ => id
  | hex =>
      exact .bind (.bind (typing_prompt (readHex_byBytes _) _) fun _ =>
        ((typing_commands begins).push _).discard) fun _ => .pure fun _ => id
  | _ => exact (typing_commands begins).exec id

theorem typed_doCommand {b : UInt8}
    (begins : (answered (question build.toPlatform opts b) done left).1 <+:
      script build.toPlatform opts .transparent typed) :
    Triple (Typing opts done left state) (doCommand build b)
      (fun ends s => ends = (Action.command b).ends ∧
        Typing opts (answered (question build.toPlatform opts b) done left).1
          (answered (question build.toPlatform opts b) done left).2 state s)
      (ScriptStop build.toPlatform opts typed) := by
  have command : Triple (Typing opts done left state) (doCommand build b)
      (fun _ => Typing opts (answered (question build.toPlatform opts b) done left).1
        (answered (question build.toPlatform opts b) done left).2 state)
      (ScriptStop build.toPlatform opts typed) := by
    unfold doCommand
    unfold question at begins ⊢
    cases key : Key.ofByte b with
    | none => exact .pure fun _ => id
    | some key' =>
        rw [key] at begins
        exact typed_exec key' begins
  exact (((doCommand_ends build b).pre fun _ _ => trivial).and command).weaken (fun _ => id)
    (fun _ _ => id) fun _ _ => And.right

theorem typed_offerData {b : UInt8}
    (begins : done ++ [.act (.data b)] <+: script build.toPlatform opts .transparent typed) :
    Triple (Typing opts done left state) (offerData build b)
      (fun _ => Typing opts (done ++ [.act (.data b)]) left state)
      (ScriptStop build.toPlatform opts typed) :=
  .bind (typing_emit rfl) fun _ => ((typing_commands begins).push _).discard

end Typing

/-! ### Bytes -/

/-- What is done, and the script of what is left of a read and of standard input, are the script of all
that is typed. -/
structure OnScript (plat : Platform) (opts : Opts) (typed todo : List UInt8) (s : Session) : Prop where
  fixed : s.opts.fixed = opts.fixed
  plain : s.env.stdin.Plain
  escapes : s.state = .command → opts.escapeByte ≠ none
  whole : deeds s.trace ++ script plat opts s.state (todo ++ s.env.stdin.bytes) =
    script plat opts .transparent typed
  prompts : PromptsLast plat opts s.state todo

variable {todo : List UInt8} {b : UInt8}

theorem OnScript.typing {plat : Platform} {s : Session} (held : OnScript plat opts typed todo s) :
    Typing opts (deeds s.trace) s.env.stdin.bytes s.state s :=
  ⟨held.fixed, rfl, held.plain, rfl, rfl⟩

theorem OnScript.begins {plat : Platform} {s : Session} (held : OnScript plat opts typed todo s) :
    deeds s.trace <+: script plat opts .transparent typed :=
  ⟨_, held.whole⟩

/-- The state in which the machine is left for the bytes that are still to do. -/
theorem Typing.onScript {plat : Platform} {done : List Event} {left : List UInt8}
    {state next : LoopState} {s : Session} (held : Typing opts done left state s)
    (escapes : next = .command → opts.escapeByte ≠ none)
    (whole : done ++ script plat opts next (todo ++ left) = script plat opts .transparent typed)
    (prompts : PromptsLast plat opts next todo) :
    OnScript plat opts typed todo { s with state := next } := by
  refine ⟨held.fixed, held.plain, escapes, ?_, prompts⟩
  change deeds s.trace ++ script plat opts next (todo ++ s.env.stdin.bytes) = _
  rw [held.done, held.left, whole]

theorem Typing.here {plat : Platform} {done : List Event} {left : List UInt8} {state : LoopState}
    {s : Session} (held : Typing opts done left state s)
    (escapes : state = .command → opts.escapeByte ≠ none)
    (whole : done ++ script plat opts state (todo ++ left) = script plat opts .transparent typed)
    (prompts : PromptsLast plat opts state todo) : OnScript plat opts typed todo s := by
  have next := held.onScript escapes whole prompts
  rwa [← held.state] at next

/-- The script goes on behind the answer to a command's question. -/
theorem script_answered {plat : Platform} (command : some b ≠ opts.escapeByte) (done : List Event)
    (left : List UInt8) (alone : (question plat opts b).isSome → todo = []) :
    done ++ script plat opts .command (b :: (todo ++ left)) =
      (answered (question plat opts b) (done ++ [.act (.command b)]) left).1 ++
        if (Action.command b).ends then []
        else script plat opts .transparent
          (todo ++ (answered (question plat opts b) (done ++ [.act (.command b)]) left).2) := by
  cases ends : (Action.command b).ends with
  | true =>
      rw [script_ends command _ ends, question_of_ends ends, if_pos rfl, List.append_nil]
      rfl
  | false =>
      rw [if_neg Bool.false_ne_true]
      cases asks : question plat opts b with
      | none =>
          rw [script_command command _ ends asks]
          simp [answered]
      | some answer =>
          obtain rfl := alone (by rw [asks]; rfl)
          rw [List.nil_append, script_question command _ ends asks]
          simp [answered]

theorem onScript_blind : BlindRules (OnScript build.toPlatform opts typed todo)
    (ScriptStop build.toPlatform opts typed) where
  quiet step held :=
    ((typing_blind held.begins).quiet step held.typing).here held.escapes held.whole held.prompts
  stop plain held := (typing_blind held.begins).stop plain held.typing
  inner step held :=
    ((typing_blind held.begins).inner step held.typing).here held.escapes held.whole held.prompts
  fails held := (typing_blind held.begins).fails held.typing
  omap _ _ held := ⟨held.begins, nofun⟩
  emap _ _ held := ⟨held.begins, nofun⟩

theorem onScript_transparent {s₀ : Session} (state : s₀.state = .transparent)
    (held : OnScript build.toPlatform opts typed (b :: todo) s₀) :
    Triple (Typing opts (deeds s₀.trace) s₀.env.stdin.bytes .transparent)
      (if !s₀.opts.noescape && b == s₀.opts.escape then
        modify fun s => { s with state := .command }
      else offerData build b)
      (fun _ => OnScript build.toPlatform opts typed todo)
      (ScriptStop build.toPlatform opts typed) := by
  have whole := held.whole
  have prompts := held.prompts
  rw [state] at whole prompts
  rw [List.cons_append, script_transparent] at whole
  simp only [PromptsLast] at prompts
  split
  · next isEscape =>
    rw [isEscape_iff, escapeByte_of_fixed held.fixed] at isEscape
    rw [if_pos isEscape] at whole prompts
    refine .modify fun s typing => typing.onScript (fun _ none => ?_) whole prompts
    rw [none] at isEscape
    cases isEscape
  · next notEscape =>
    rw [isEscape_iff, escapeByte_of_fixed held.fixed] at notEscape
    rw [if_neg notEscape, ← List.singleton_append, ← List.append_assoc] at whole
    rw [if_neg notEscape] at prompts
    exact (typed_offerData ⟨_, whole⟩).weaken (fun _ => id)
      (fun _ s typing => typing.here nofun whole prompts) fun _ _ => id

theorem onScript_command {s₀ : Session} (state : s₀.state = .command)
    (held : OnScript build.toPlatform opts typed (b :: todo) s₀) :
    Triple (Typing opts (deeds s₀.trace) s₀.env.stdin.bytes .command)
      (do
        if b = s₀.opts.escape then offerData build b
        else
          emit (.act (.command b))
          if ← doCommand build b then throw (.left .cmd)
        modify fun s => { s with state := .transparent })
      (fun _ => OnScript build.toPlatform opts typed todo)
      (ScriptStop build.toPlatform opts typed) := by
  have whole := held.whole
  have prompts := held.prompts
  have on : s₀.opts.escapeByte ≠ none := by
    rw [escapeByte_of_fixed held.fixed]
    exact held.escapes state
  rw [state, List.cons_append] at whole
  rw [state] at prompts
  obtain ⟨last, prompts⟩ := prompts
  split
  · next isEscape =>
    rw [eq_escape_iff on, escapeByte_of_fixed held.fixed] at isEscape
    rw [script_escaped isEscape, ← List.singleton_append, ← List.append_assoc] at whole
    exact .bind (typed_offerData ⟨_, whole⟩) fun _ => .modify fun s typing =>
      typing.onScript nofun whole prompts
  · next notEscape =>
    rw [eq_escape_iff on, escapeByte_of_fixed held.fixed] at notEscape
    rw [script_answered notEscape _ _ (last notEscape)] at whole
    refine .bind (typing_emit rfl) fun _ => .bind (typed_doCommand ⟨_, whole⟩) fun ends =>
      .assume fun is => ?_
    rw [← is] at whole
    cases ends with
    | true =>
        rw [if_pos rfl, List.append_nil] at whole
        exact .throw fun s typing => ⟨typing.done ▸ whole ▸ List.prefix_rfl, fun _ => typing.done ▸ whole⟩
    | false =>
        rw [if_neg Bool.false_ne_true] at whole
        exact .modify fun s typing => typing.onScript nofun whole prompts

/-- One byte of a read. -/
theorem onScript_processByte :
    Triple (OnScript build.toPlatform opts typed (b :: todo)) (processByte build b)
      (fun _ => OnScript build.toPlatform opts typed todo)
      (ScriptStop build.toPlatform opts typed) := by
  unfold processByte
  refine .bind onScript_blind.checkpoint fun _ => .bind_get fun s held => ?_
  have typing := held.typing
  cases state : s.state with
  | transparent =>
      rw [state] at typing
      exact (onScript_transparent state held).pre fun s' here => here.1 ▸ typing
  | command =>
      rw [state] at typing
      exact (onScript_command state held).pre fun s' here => here.1 ▸ typing

/-- All the bytes of a read. -/
theorem onScript_processBytes :
    Triple (OnScript build.toPlatform opts typed todo) (todo.forM (processByte build))
      (fun _ => OnScript build.toPlatform opts typed [])
      (ScriptStop build.toPlatform opts typed) := by
  induction todo with
  | nil => exact .pure fun _ => id
  | cons b todo ih => exact .bind onScript_processByte fun _ => ih

/-! ### Reads -/

/-- In what `loop` has read so far every key that asks for something is the last byte of its read. -/
def Asked (plat : Platform) (opts : Opts) (s : Session) : Prop :=
  PromptsEndReads plat opts false (stdinReads s.trace)

/-- It was so in every earlier state. -/
theorem Asked.earlier {plat : Platform} {s s' : Session} {new : List Event}
    (held : Asked plat opts s') (trace : s'.trace = s.trace ++ new) : Asked plat opts s := by
  unfold Asked at held
  rw [trace, stdinReads_append, promptsEndReads_append] at held
  exact held.1

theorem Frame.asked {plat : Platform} {events : Event → Prop} {s s' : Session}
    (frame : Frame events s s') (held : Asked plat opts s') : Asked plat opts s := by
  obtain ⟨new, trace, -⟩ := frame.trace
  exact held.earlier trace

theorem unasked_blind (plat : Platform) (opts : Opts) :
    BlindRules (fun s => ¬ Asked plat opts s) fun _ s => ¬ Asked plat opts s where
  quiet step held := held ∘ step.toFrame.asked
  stop _ held := held
  inner step held := held ∘ step.toFrame.asked
  fails held := held
  omap _ _ held := held
  emap _ _ held := held

/-- After a read that it is not so of nothing can make it so. -/
theorem unasked_stdin (build : Build) (plat : Platform) (opts : Opts) :
    StdinRules build (fun s => ¬ Asked plat opts s) fun _ s => ¬ Asked plat opts s where
  toRules := (unasked_blind plat opts).toRules
  discard := (unasked_blind plat opts).discardQueue
  push := (unasked_blind plat opts).ttyQPush build
  prompt _ _ _ held := fun asked => held (asked.earlier rfl)
  chunk _ := .modify fun _ held => fun asked => held (asked.earlier rfl)
  act _ := .modify fun _ held => fun asked => held (asked.earlier rfl)
  machine _ := .modify fun _ held => held
  read := fun _ held => held
  leave held := held

/-- Between two turns a run follows the script, unless `loop` has read more than it should. -/
def Kept (plat : Platform) (opts : Opts) (typed : List UInt8) (s : Session) : Prop :=
  Asked plat opts s → OnScript plat opts typed [] s

def KeptStop (plat : Platform) (opts : Opts) (typed : List UInt8) (stop : Stop) (s : Session) : Prop :=
  Asked plat opts s → ScriptStop plat opts typed stop s

theorem kept_blind : BlindRules (Kept build.toPlatform opts typed)
    (KeptStop build.toPlatform opts typed) where
  quiet step held asked := onScript_blind.quiet step (held (step.toFrame.asked asked))
  stop plain held asked := onScript_blind.stop plain (held asked)
  inner step held asked := onScript_blind.inner step (held (step.toFrame.asked asked))
  fails held asked := onScript_blind.fails (held asked)
  omap _ _ held asked := ⟨(held asked).begins, nofun⟩
  emap _ _ held asked := ⟨(held asked).begins, nofun⟩

/-- The bytes of a read that is as it should be are to be followed next. -/
theorem OnScript.read {s : Session} {first : UInt8} {rest : List UInt8} {later : Source}
    (held : OnScript build.toPlatform opts typed [] s) (settled : Settled opts.escapeByte s.view)
    (plain : later.Plain) (bytes : s.env.stdin.bytes = first :: (rest ++ later.bytes))
    (asked : Asked build.toPlatform opts { s with trace := s.trace ++ [.stdin (first :: rest)] }) :
    OnScript build.toPlatform opts typed (first :: rest) { s with
      env := { s.env with stdin := later }
      trace := s.trace ++ [.stdin (first :: rest)] } := by
  obtain ⟨seen, settled⟩ := settled
  have state : s.state = .of (tokenise opts.escapeByte false (stdinBytes s.trace)).2 := by
    rw [show stdinBytes s.trace = seen from settled.bytes.trans (List.append_nil _)]
    exact settled.state
  have prompts : PromptsLast build.toPlatform opts s.state (first :: rest) := by
    unfold Asked at asked
    simp only [stdinReads_append, promptsEndReads_append, flatten_stdinReads] at asked
    rw [state]
    exact asked.2.1
  refine ⟨held.fixed, plain, held.escapes, ?_, prompts⟩
  have whole := held.whole
  rw [List.nil_append, bytes] at whole
  have done : deeds (s.trace ++ [.stdin (first :: rest)]) = deeds s.trace := by
    rw [deeds_append]
    exact List.append_nil _
  rw [← whole, done]
  rfl

theorem kept_readStdin :
    Triple (fun s => Settled opts.escapeByte s.view ∧ Kept build.toPlatform opts typed s)
      (readStdin build) (fun _ => Kept build.toPlatform opts typed)
      (KeptStop build.toPlatform opts typed) := by
  rintro s ⟨settled, held⟩
  suffices run : Triple (fun s' => s' = s) (readStdin build)
      (fun _ => Kept build.toPlatform opts typed) (KeptStop build.toPlatform opts typed) from run s rfl
  by_cases asked : Asked build.toPlatform opts s
  swap
  · refine (unasked_stdin build build.toPlatform opts).readStdin.weaken ?_
      (fun _ _ not asked => absurd asked not) fun _ _ not asked => absurd asked not
    rintro _ rfl
    exact asked
  have held := held asked
  refine .bind (Q := fun reply s' => reply = (Source.read stiRdSz s.env.stdin).1 ∧
    s' = { s with env := { s.env with stdin := (Source.read stiRdSz s.env.stdin).2 } }) ?_
    fun reply => .assume fun is => ?_
  · rintro _ rfl
    exact ⟨rfl, rfl⟩
  rcases held.plain.read stiRdSz with none | ⟨first, rest, later, read, -, plain, bytes⟩
  · rw [is, none]
    refine Triple.pre (P := Kept build.toPlatform opts typed)
      (.bind (kept_blind.toSteady.emit trivial) fun _ =>
        kept_blind.toSteady.modify fun _ => .of rfl rfl rfl id rfl rfl rfl) ?_
    rintro _ rfl _
    have same : (Source.read stiRdSz []).2 = s.env.stdin := none.symm
    rw [same]
    exact held
  · rw [is, read]
    by_cases asked' : Asked build.toPlatform opts
      { s with trace := s.trace ++ [.stdin (first :: rest)] }
    · refine .bind (Q := fun _ => OnScript build.toPlatform opts typed (first :: rest))
        (.modify ?_) fun _ => onScript_processBytes.weaken (fun _ => id) (fun _ _ held _ => held)
          fun _ _ stop _ => stop
      rintro _ rfl
      exact held.read settled plain bytes asked'
    · have bytes := Triple.forM (first :: rest) fun b _ =>
        (unasked_stdin build build.toPlatform opts).processByte b
      refine .bind (Q := fun _ s => ¬ Asked build.toPlatform opts s) (.modify ?_) fun _ =>
        bytes.weaken (fun _ => id) (fun _ _ not asked => absurd asked not)
          fun _ _ not asked => absurd asked not
      rintro _ rfl
      exact asked'

/-! ### Runs -/

/-- What is no deed changes nothing. -/
theorem kept_emit {e : Event} (other : e.isDeed = false) {E : Stop → Session → Prop} :
    Maintains (Kept build.toPlatform opts typed) E (emit e) := by
  refine .modify fun s held asked => ?_
  have before := held (asked.earlier rfl)
  have done : deeds (s.trace ++ [e]) = deeds s.trace := by
    rw [deeds_append]
    simp [deeds, other]
  refine ⟨before.fixed, before.plain, before.escapes, ?_, before.prompts⟩
  rw [done]
  exact before.whole

theorem kept_turn (build : Build) (opts : Opts) (typed : List UInt8) :
    TurnRules build (fun s => Settled opts.escapeByte s.view ∧ Kept build.toPlatform opts typed s)
      fun stop s => EscapeStop opts.escapeByte stop s ∧ KeptStop build.toPlatform opts typed stop s := by
  have settled : BlindRules (fun s => Settled opts.escapeByte s.view) (EscapeStop opts.escapeByte) :=
    blind_view fun _ => Settled.started
  have kept : BlindRules (Kept build.toPlatform opts typed) (KeptStop build.toPlatform opts typed) :=
    kept_blind
  have emits : ∀ e : Event, ¬ e.OnStdin → e.isDeed = false →
      Maintains (fun s => Settled opts.escapeByte s.view ∧ Kept build.toPlatform opts typed s)
        (fun stop s => EscapeStop opts.escapeByte stop s ∧
          KeptStop build.toPlatform opts typed stop s) (emit e) := by
    intro e other notDeed
    exact ((emit_view other).pre fun _ => And.left).and ((kept_emit notDeed).pre fun _ => And.right)
  refine (settled.and kept).turn (fun held => ⟨held.1.started.stop nofun, fun asked => ?_⟩)
    (fun _ _ => emits _ id rfl) (fun _ => emits _ id rfl) ?_
  · exact ⟨(held.2 asked).begins, nofun⟩
  · exact ((readStdin_triple build opts.escapeByte).pre fun _ => And.left).and kept_readStdin

/-- What was typed is still to be read. -/
def Untyped (opts : Opts) (typed : List UInt8) (s : Session) : Prop :=
  Fresh opts.escapeByte s.view ∧ Typing opts [] typed .transparent s

theorem untyped_start (build : Build) (opts : Opts) (typed : List UInt8) :
    StartRules build (Untyped opts typed) (Untyped opts typed)
      fun stop s => EscapeStop opts.escapeByte stop s ∧ KeptStop build.toPlatform opts typed stop s := by
  have typing : BlindRules (Typing opts [] typed .transparent)
      (ScriptStop build.toPlatform opts typed) := typing_blind List.nil_prefix
  have kept : BlindRules (Typing opts [] typed .transparent)
      (KeptStop build.toPlatform opts typed) := typing.weaken fun stop _ => stop
  refine ((fresh_blind opts.escapeByte).and kept).start build (fun _ _ _ held => ?_) fun _ held => ?_
  · exact ⟨held.1, held.2.fixed, held.2.done, held.2.plain, held.2.left, held.2.state⟩
  · exact ⟨held.1, held.2.fixed, held.2.done, held.2.plain, held.2.left, held.2.state⟩

theorem kept_enterLoop {plat : Platform} {E : Stop → Session → Prop} :
    Triple (Untyped opts typed) enterLoop
      (fun _ s => Settled opts.escapeByte s.view ∧ Kept plat opts typed s) E := by
  have settled : Triple (Untyped opts typed) enterLoop
      (fun _ s => Settled opts.escapeByte s.view) E :=
    (settled_enterLoop opts.escapeByte).pre fun _ => And.left
  have kept : Triple (Untyped opts typed) enterLoop (fun _ => Kept plat opts typed) E := by
    refine .modify fun s held asked => ⟨held.2.fixed, held.2.plain, nofun, ?_, trivial⟩
    change deeds s.trace ++ script plat opts .transparent s.env.stdin.bytes = _
    rw [held.2.done, held.2.left, List.nil_append]
  exact (settled.and kept).weaken (fun _ => id) (fun _ _ => id) fun _ _ => And.left

/-- Every run follows the script of the bytes that are to be read, unless `loop` has read more than it
should. -/
theorem upTo_follows (build : Build) {opts : Opts} {world : World} {env : Env}
    (plain : env.stdin.Plain) (budget n : Nat) :
    Triple (fun s => s = .start opts world env budget) (upTo build n)
      (fun _ => Kept build.toPlatform opts env.stdin.bytes)
      (KeptStop build.toPlatform opts env.stdin.bytes) := by
  have turns := kept_turn build opts env.stdin.bytes
  have run := (untyped_start build opts env.stdin.bytes).upTo kept_enterLoop turns.loopTurn n
  refine run.weaken ?_ (fun _ _ => And.right) fun _ _ => And.right
  rintro _ rfl
  exact ⟨⟨rfl, rfl, rfl⟩, rfl, rfl, plain, rfl, rfl⟩

/-- A run that has come to the top of a turn with nothing left to be read, or that a command has
ended. -/
def Finished : EStateM.Result Stop Session Unit → Prop
  | .ok _ s => s.env.stdin = []
  | .error stop _ => stop = .left .cmd

/-- What a run has done is the start of the script, and all of it once the run is finished. -/
theorem deeds_upTo (build : Build) {opts : Opts} {world : World} {env : Env} {budget n : Nat}
    (plain : env.stdin.Plain)
    (asked : Asked build.toPlatform opts
      (final ((upTo build n).run (.start opts world env budget)))) :
    deeds (final ((upTo build n).run (.start opts world env budget))).trace <+:
        script build.toPlatform opts .transparent env.stdin.bytes ∧
      (Finished ((upTo build n).run (.start opts world env budget)) →
        deeds (final ((upTo build n).run (.start opts world env budget))).trace =
          script build.toPlatform opts .transparent env.stdin.bytes) := by
  have reached := upTo_follows build plain budget n (.start opts world env budget) rfl
  cases ran : (upTo build n).run (.start opts world env budget) with
  | ok _ s =>
      rw [ran] at reached asked
      have held := reached asked
      refine ⟨held.begins, fun empty => ?_⟩
      have whole := held.whole
      rw [show s.env.stdin = [] from empty] at whole
      simpa [Source.bytes] using whole
  | error stop s =>
      rw [ran] at reached asked
      exact reached asked

end Runs

/-- What two runs do with what is typed does not depend on the portions it comes in: as far as both
have come they execute the same commands, have the same answers to their prompts and offer the same
bytes to the queue, and once both are finished they have done the same. In both of them every command
key that asks for something is the last byte of its read. -/
theorem chunking_irrelevant (build : Build) {opts : Opts} {world world' : World} {env env' : Env}
    (plain : env.stdin.Plain) (plain' : env'.stdin.Plain)
    (same : env.stdin.bytes = env'.stdin.bytes) (budget budget' n n' : Nat) :
    let run := (upTo build n).run (.start opts world env budget)
    let run' := (upTo build n').run (.start opts world' env' budget')
    PromptsEndReads build.toPlatform opts false (stdinReads (final run).trace) →
    PromptsEndReads build.toPlatform opts false (stdinReads (final run').trace) →
    (deeds (final run).trace <+: deeds (final run').trace ∨
        deeds (final run').trace <+: deeds (final run).trace) ∧
      (Finished run → Finished run' → deeds (final run).trace = deeds (final run').trace) := by
  intro run run' asked asked'
  obtain ⟨begins, whole⟩ := deeds_upTo build plain asked
  obtain ⟨begins', whole'⟩ := deeds_upTo build plain' asked'
  rw [← same] at begins' whole'
  exact ⟨List.prefix_or_prefix_of_prefix begins begins', fun finished finished' =>
    (whole finished).trans (whole' finished').symm⟩

/-- A baud rate is entered in a read of its own, and the keys before it in one read or in two. -/
theorem chunking_irrelevant_baud :
    let ready := fun fd => fd == sti
    let two := Env.works [.data 0x11 [], .data 0x62 [], .data 0x39 (ascii "600\r")] [] [] ready
      fun _ => false
    let one := Env.works [.data 0x11 [0x62], .data 0x39 (ascii "600\r")] [] [] ready fun _ => false
    let opts := { Opts.default with noinit := true, quiet := true }
    ∃ s s', (upTo .cmake 2).run (.start opts .fresh two 99) = .ok ⟨⟩ s ∧
      (upTo .cmake 1).run (.start opts .fresh one 99) = .ok ⟨⟩ s' ∧
      deeds s.trace = [.act (.command 0x62), .enter (.baud 9600)] ∧ deeds s'.trace = deeds s.trace := by
  intro ready two one opts
  have first : (returned ((upTo .cmake 2).run (.start opts .fresh two 99))).map
      (fun t => (stdinReads t.2.trace, t.2.env.stdin, deeds t.2.trace)) =
        some ([[0x11], [0x62]], [], [.act (.command 0x62), .enter (.baud 9600)]) := by
    decide +kernel
  have second : (returned ((upTo .cmake 1).run (.start opts .fresh one 99))).map
      (fun t => (stdinReads t.2.trace, t.2.env.stdin)) = some ([[0x11, 0x62]], []) := by
    decide +kernel
  obtain ⟨⟨⟨⟩, s⟩, ret, values⟩ := Option.map_eq_some_iff.mp first
  obtain ⟨⟨⟨⟩, s'⟩, ret', values'⟩ := Option.map_eq_some_iff.mp second
  have ran := eq_ok_of_returned ret
  have ran' := eq_ok_of_returned ret'
  simp only [Prod.mk.injEq] at values values'
  obtain ⟨reads, empty, done⟩ := values
  obtain ⟨reads', empty'⟩ := values'
  have plain : two.stdin.Plain := .cons <| .cons <| .cons Source.plain_nil
  have plain' : one.stdin.Plain := .cons <| .cons Source.plain_nil
  have same := @chunking_irrelevant .cmake opts .fresh .fresh two one plain plain' rfl 99 99 2 1
  rw [ran, ran'] at same
  simp only [final_ok, reads, reads'] at same
  exact ⟨s, s', ran, ran', done, ((same (by decide) (by decide)).2 empty empty').symm⟩

/-- A baud rate that is typed in one go with its key goes to the port, and the prompt has none. -/
theorem prompt_answer_sent :
    let ready := fun fd => fd == sti
    let two := Env.works [.data 0x11 [0x62], .data 0x39 (ascii "600\r")] [] [] ready fun _ => false
    let one := Env.works [.data 0x11 (0x62 :: ascii "9600\r")] [] [] ready fun _ => false
    let opts := { Opts.default with noinit := true, quiet := true }
    two.stdin.bytes = one.stdin.bytes ∧
    ∃ s s', (upTo .cmake 1).run (.start opts .fresh two 99) = .ok ⟨⟩ s ∧
      (upTo .cmake 1).run (.start opts .fresh one 99) = .ok ⟨⟩ s' ∧
      s.env.stdin = [] ∧ s'.env.stdin = [] ∧
      deeds s.trace = [.act (.command 0x62), .enter (.baud 9600)] ∧
      deeds s'.trace = [.act (.command 0x62), .enter (.baud (-1))] ++
        (ascii "9600\r").map fun b => .act (.data b) := by
  intro ready two one opts
  have first : (returned ((upTo .cmake 1).run (.start opts .fresh two 99))).map
      (fun t => (t.2.env.stdin, deeds t.2.trace)) =
        some ([], [.act (.command 0x62), .enter (.baud 9600)]) := by
    decide +kernel
  have second : (returned ((upTo .cmake 1).run (.start opts .fresh one 99))).map
      (fun t => (t.2.env.stdin, deeds t.2.trace)) =
        some ([], [.act (.command 0x62), .enter (.baud (-1))] ++
          (ascii "9600\r").map fun b => .act (.data b)) := by
    decide +kernel
  obtain ⟨⟨⟨⟩, s⟩, ret, values⟩ := Option.map_eq_some_iff.mp first
  obtain ⟨⟨⟨⟩, s'⟩, ret', values'⟩ := Option.map_eq_some_iff.mp second
  simp only [Prod.mk.injEq] at values values'
  exact ⟨rfl, s, s', eq_ok_of_returned ret, eq_ok_of_returned ret', values.1, values'.1, values.2,
    values'.2⟩

end Ppcom
