/-
Module: Ppcom.Proofs.GracefulExit
Purpose: Where `loop` is left because standard input is closed or the program is idle, the queue is
  empty and nothing that came into it is lost; and with `--exit` exactly the init string is sent.
Trusted boundary: none
Main exports: Advance.channel, graceful_exit
-/
import Ppcom.Proofs.Traversal
import Ppcom.Proofs.Conservation

namespace Ppcom

open Program

/-! ### The queue as a channel -/

@[simp] theorem outbound_forwards (omap : Word) (s : Session) (buff sent : List UInt8) :
    outbound omap (s.forwards buff sent) = [] := by
  unfold Session.forwards
  split <;> split <;> rfl

theorem outbound_puts {omap : Word} {events : List Event}
    (puts : ∀ e ∈ events, ∃ buff, e = .put sto buff) : outbound omap events = [] := by
  rw [outbound, List.filterMap_eq_nil_iff]
  intro e inside
  obtain ⟨buff, rfl⟩ := puts e inside
  rfl

/-- What is shown of the port is not about the queue. -/
theorem outbound_shown (omap : Word) (s : Session) (buff sent image : List UInt8) :
    outbound omap (.port buff :: (s.forwards buff sent ++ [.put sto image])) = [] := by
  change outbound omap (s.forwards buff sent ++ [.put sto image]) = []
  rw [outbound_append, outbound_forwards]
  rfl

/-- A step of a run is a step of the channel from `tty_q_push` to the port, or none. -/
theorem Advance.channel {build : Build} {s s' : Session} (step : Advance build s s') :
    (outbound s.opts.omap s'.trace = outbound s.opts.omap s.trace ∧
        s'.ttyQ.contents = s.ttyQ.contents) ∨
      s.ttyQ.Ok ∧ Channel.Step (outbound s.opts.omap s.trace) s.ttyQ.contents
        (outbound s.opts.omap s'.trace) s'.ttyQ.contents := by
  cases step with
  | @pushed b image echo ok put mapped room echoed =>
      obtain ⟨rfl, -⟩ := doMap_image mapped
      have history : outbound s.opts.omap (.accept b :: echo) =
          .put (doMapBytes s.opts.omap b) :: outbound s.opts.omap echo := rfl
      rw [TtyQ.contents_store ok, outbound_append, history, outbound_puts echoed]
      exact .inr ⟨ok, .put _ _ _⟩
  | discarded ok =>
      rw [outbound_append]
      exact .inr ⟨ok, .reset _ _⟩
  | @wrote taken ok sent write put some start =>
      have fits := TtyQ.length_contents ok ▸ start.length_le
      have whole := List.prefix_iff_eq_append.mp start
      have history : ∀ len sz copies, outbound s.opts.omap (.write len sz taken :: copies) =
          .take taken :: outbound s.opts.omap copies := fun _ _ _ => rfl
      have copies : outbound s.opts.omap
          (if s.opts.lecho then s.forwards taken sent else []) = [] := by
        split
        · exact outbound_forwards _ _ _ _
        · rfl
      have step := Channel.Step.take (outbound s.opts.omap s.trace) taken
        (s.ttyQ.contents.drop taken.length)
      rw [whole] at step
      rw [TtyQ.contents_drop ok fits, outbound_append, history, copies]
      exact .inr ⟨ok, step⟩
  | grew _ _ contents => exact .inl ⟨rfl, contents⟩
  | shown => exact .inl ⟨by rw [outbound_append, outbound_shown, List.append_nil], rfl⟩
  | called | joined => exact .inl ⟨rfl, rfl⟩
  | _ => exact .inl ⟨by simp [outbound, Event.onChannel], rfl⟩

/-! ### Where `loop` is left -/

/-- The options of a run are those of the command line, but for those that commands change. -/
def Session.Has (s : Session) (opts : Opts) : Prop :=
  s.opts.omap = opts.omap ∧ s.opts.exit = opts.exit ∧ s.opts.exitAfter = opts.exitAfter

/-- What came into the queue since it was last emptied has gone to the port or is held, and standard
input was closed where the run takes it to be. -/
structure Accounted (opts : Opts) (s : Session) : Prop where
  has : s.Has opts
  balances : Channel.Balances (outbound opts.omap s.trace) s.ttyQ.contents
  closed : s.stdinClosed = true → .eof ∈ s.trace ∨ opts.exit = true

/-- How `loop` is left gracefully. -/
def GracefulStop (opts : Opts) (stop : Stop) (s : Session) : Prop :=
  match stop with
  | .left .stdin => Accounted opts s ∧ s.ttyQ.contents = [] ∧
      (.eof ∈ s.trace ∨ opts.exit = true) ∧ opts.exitAfter < 0
  | .left .idle => Accounted opts s ∧ s.ttyQ.contents = [] ∧ 0 ≤ opts.exitAfter
  | _ => True

theorem Advance.has {build : Build} {opts : Opts} {s s' : Session} (step : Advance build s s')
    (has : s.Has opts) : s'.Has opts := by
  have same := congrArg Constants.opts step.constants
  exact ⟨(congrArg Opts.omap same).trans has.1, (congrArg Opts.exit same).trans has.2.1,
    (congrArg Opts.exitAfter same).trans has.2.2⟩

theorem Advance.history {build : Build} {s s' : Session} (step : Advance build s s') :
    s.trace <+: s'.trace := by
  cases step with
  | applied | lecho | closed | typed | acted | entered | shown | pushed | discarded | wrote | ctlRead
  | ctlByte => exact List.prefix_append _ _
  | _ => exact List.prefix_refl _

/-- Standard input is taken to be closed only where it is found closed. -/
theorem Advance.stdinClosed {build : Build} {s s' : Session} (step : Advance build s s')
    (closed : s'.stdinClosed = true) : s.stdinClosed = true ∨ .eof ∈ s'.trace := by
  cases step with
  | closed => exact .inr (by simp)
  | _ => exact .inl closed

theorem contents_of_empty {q : TtyQ} (empty : q.len = 0) : q.contents = [] := by
  rw [TtyQ.contents, empty, List.take_zero]

theorem accounted_rules (build : Build) (opts : Opts) :
    RunRules build (Accounted opts) (GracefulStop opts) where
  step step held := by
    refine ⟨step.has held.has, ?_, fun closed => ?_⟩
    · have channel := step.channel
      rw [held.has.1] at channel
      rcases channel with ⟨history, contents⟩ | ⟨-, moved⟩
      · rw [history, contents]
        exact held.balances
      · exact moved.balances held.balances
    · rcases step.stdinClosed closed with before | eof
      · exact (held.closed before).imp (fun early => step.history.subset early) id
      · exact .inl eof
  halt {stop s s'} last held := by
    cases last with
    | stdin _ empty untimed closed =>
        exact ⟨held, contents_of_empty empty, held.closed closed, held.has.2.2 ▸ untimed⟩
    | idle _ timed =>
        simp only [Session.timed, Bool.and_eq_true, beq_iff_eq, decide_eq_true_eq] at timed
        exact ⟨held, contents_of_empty timed.1, held.has.2.2 ▸ timed.2⟩
    | @here stop _ inner =>
        cases stop with
        | left reason =>
            cases reason with
            | stdin | idle => cases inner
            | cmd | signal => trivial
        | fatal | abort | blocked | observed => trivial
    | _ => trivial
  empty static held := by
    refine ⟨held.has, ?_, held.closed⟩
    have balances := held.balances
    rw [static] at balances
    exact balances
  enter held := ⟨held.has, held.balances, fun closed => .inr (held.has.2.1 ▸ closed)⟩

/-! ### Without standard input -/

/-- The queue took in `image` and was never emptied. -/
def TookIn (omap : Word) (image : List UInt8) (trace : List Event) : Prop :=
  Channel.input (outbound omap trace) = image ∧
    Channel.sinceReset (outbound omap trace) = outbound omap trace

/-- That is so as long as nothing comes from the control socket. -/
def Primed (omap : Word) (image : List UInt8) (s : Session) : Prop :=
  s.opts.omap = omap ∧ (ctlChunks s.trace = [] → TookIn omap image s.trace)

/-- That is so where `loop` is left, and no command leaves it. -/
def PrimedStop (omap : Word) (image : List UInt8) (stop : Stop) (s : Session) : Prop :=
  ∀ reason, stop = .left reason → reason ≠ .cmd ∧ Primed omap image s

section Exit

variable {omap : Word} {image : List UInt8} {s s' : Session}

theorem ctlChunks_of_starts (heard : ctlChunks s.trace ≠ []) (start : s.trace <+: s'.trace) :
    ctlChunks s'.trace ≠ [] := by
  obtain ⟨new, trace⟩ := start
  rw [← trace, ctlChunks, List.filterMap_append]
  exact fun none => heard (List.append_eq_nil_iff.mp none).1

theorem Primed.quiet (held : Primed omap image s) (step : Quiet s s') : Primed omap image s' := by
  refine ⟨(congrArg FixedOpts.omap step.fixed).trans held.1, fun silent => ?_⟩
  rw [TookIn, step.outer.toFrame.outbound fun _ => id]
  apply held.2
  by_contra heard
  obtain ⟨new, trace, -⟩ := step.trace
  exact ctlChunks_of_starts heard ⟨new, trace.symm⟩ silent

theorem primed_rules : Rules (Primed omap image) (PrimedStop omap image) where
  quiet step held := held.quiet step
  stop plain held reason left := by
    refine ⟨?_, held⟩
    rintro rfl
    exact (left ▸ plain : Stop.Plain (.left .cmd))

/-- Once something came from the control socket nothing more is said. -/
theorem heard_rules :
    BlindRules (fun s => s.opts.omap = omap ∧ ctlChunks s.trace ≠ []) (PrimedStop omap image) := by
  have kept : ∀ {events : Event → Prop} {s s' : Session}, Frame events s s' →
      s.opts.omap = omap ∧ ctlChunks s.trace ≠ [] → s'.opts.omap = omap ∧ ctlChunks s'.trace ≠ [] := by
    intro events s s' frame held
    obtain ⟨new, trace, -⟩ := frame.trace
    exact ⟨(congrArg FixedOpts.omap frame.fixed).trans held.1,
      ctlChunks_of_starts held.2 ⟨new, trace.symm⟩⟩
  exact {
    quiet := fun step => kept step.toFrame
    stop := fun plain held => primed_rules.stop plain ⟨held.1, fun silent => absurd silent held.2⟩
    fails := fun _ _ left => nomatch left
    inner := fun step => kept step.toFrame
    omap := fun _ _ _ _ left => nomatch left
    emap := fun _ _ _ _ left => nomatch left }

theorem readCtl_primed (build : Build) :
    Maintains (Primed omap image) (PrimedStop omap image) (readCtl build) := by
  have read : Maintains (Primed omap image) (PrimedStop omap image)
      (readFd (ctlBufSz - 1) Env.ctl fun env src => { env with ctl := src }) := fun _ held => held
  refine .read fun s _ => .bind read fun reply => ?_
  cases reply with
  | zero | again | failed => exact .pure fun _ => id
  | data first rest =>
      have heard : Triple (Primed omap image) (emit (.ctl s.ctlfd (first :: rest)))
          (fun _ s => s.opts.omap = omap ∧ ctlChunks s.trace ≠ []) (PrimedStop omap image) :=
        .modify fun s held => ⟨held.1, by simp [ctlChunks]⟩
      have byte : ∀ b, Maintains (fun s => s.opts.omap = omap ∧ ctlChunks s.trace ≠ [])
          (PrimedStop omap image) (emit (.ctlByte b)) := fun b =>
        .modify fun s held => ⟨held.1, ctlChunks_of_starts held.2 (List.prefix_append _ _)⟩
      refine .bind heard fun _ => ?_
      exact (heard_rules.toRules.ctlLoop byte (heard_rules.ttyQPush build) _ _ _).weaken
        (fun _ => id) (fun _ s held => ⟨held.1, fun silent => absurd silent held.2⟩) fun _ _ => id

theorem writePort_primed : Maintains (Primed omap image) (PrimedStop omap image) writePort := by
  have wrote : ∀ {s : Session} taken, Primed omap image s → Primed omap image (s.wrote taken) := by
    refine fun {s} taken held => ⟨held.1, fun silent => ?_⟩
    have before := held.2 (by simpa [Session.wrote, ctlChunks] using silent)
    have history : outbound omap (s.wrote taken).trace = outbound omap s.trace ++ [.take taken] := by
      simp [Session.wrote, outbound, Event.onChannel]
    rw [TookIn, history]
    simpa [TookIn] using before
  refine writePort_triple primed_rules (fun _ _ left => by cases left)
    (fun _ _ _ _ left => by cases left) fun held _ _ step => ?_
  have kept := (wrote _ held).quiet step
  exact kept

/-- The program reads neither standard input nor the port. -/
structure Session.Deaf (s : Session) : Prop where
  ok : s.ttyQ.Ok
  closed : s.stdinClosed = true
  exit : s.opts.exit = true

/-- Nothing that a run does makes the program read them again. -/
theorem deaf_rules (build : Build) : AdvanceRules build Session.Deaf fun _ _ => True where
  step {s s'} step held := by
    have exit := congrArg Opts.exit (congrArg Constants.opts step.constants)
    refine ⟨step.ok held.ok, ?_, exit.trans held.exit⟩
    cases step with
    | closed => rfl
    | _ => exact held.closed
  halt _ _ := trivial

theorem deaf_primed {α : Type} (build : Build) {x : SessionM α}
    (leads : ∀ s, s.ttyQ.Ok → Leads build s x)
    (primed : Triple (fun s => s.Deaf ∧ Primed omap image s) x (fun _ => Primed omap image)
      (PrimedStop omap image)) :
    Maintains (fun s => s.Deaf ∧ Primed omap image s) (PrimedStop omap image) x :=
  ((((deaf_rules build).maintains fun s held => leads s held.ok).pre fun _ => And.left).and
    primed).weaken (fun _ => id) (fun _ _ => id) fun _ _ => And.right

/-- The part of a turn behind `select`. -/
theorem serveReady_primed (build : Build) {s : Session} (deaf : s.Deaf) (rd wr : Int → Bool) :
    Maintains (Primed omap image) (PrimedStop omap image)
      (serveReady build s.rdSet s.wrSet rd wr) := by
  have unset : fdIsset s.rdSet rd sti = false := by
    have other : 0 < s.ctlfd → ¬ sti = s.ctlfd := fun connected same => by
      simp [← same, sti] at connected
    unfold fdIsset Session.rdSet
    rw [if_pos deaf.closed, if_pos deaf.exit]
    split
    · next connected => simp [other connected]
    · rfl
  unfold serveReady
  refine .read fun s' _ => ?_
  rw [unset, if_neg Bool.false_ne_true]
  refine TurnRules.whenReady (primed_rules.toCallRules.readPort fun _ _ _ _ left => nomatch left) <|
    TurnRules.whenReady writePort_primed ?_
  split
  · exact readCtl_primed build
  · exact .pure fun _ => id

/-- A turn with `--exit`. -/
theorem loopTurn_primed (build : Build) :
    Maintains (fun s => s.Deaf ∧ Primed omap image s) (PrimedStop omap image) (loopTurn build) := by
  have rules := @primed_rules omap image
  apply deaf_primed build (fun _ => leads_loopTurn)
  refine .bind (deaf_primed build (fun _ _ => leads_checkpoint) (rules.checkpoint.pre fun _ => And.right))
    fun _ => .bind (deaf_primed build (fun _ _ => leads_leaveLoop)
      (rules.leaveLoop.pre fun _ => And.right)) fun _ => ?_
  refine .read fun s start => Triple.pre ?_ fun _ => And.right
  exact .bind (rules.nextReply fun _ _ => rfl) fun reply =>
    rules.handleSelect reply fun rd wr => serveReady_primed build start.1 rd wr

/-- `loop` with `--exit`. -/
theorem loop_primed (build : Build) :
    Triple (fun s => s.ttyQ.Ok ∧ s.opts.exit = true ∧ Primed omap image s) (loop build)
      (fun reason s => reason ≠ .cmd ∧ Primed omap image s) (fun _ _ => True) := by
  have turns : ∀ n, Maintains (fun s => s.Deaf ∧ Primed omap image s) (PrimedStop omap image)
      (loopTurns build n) := by
    intro n
    induction n with
    | zero => exact .throw fun s held => primed_rules.stop trivial held.2
    | succ n ih => exact .bind (loopTurn_primed build) fun _ => ih
  unfold loop
  refine .bind (Q := fun _ s => s.Deaf ∧ Primed omap image s)
    (.modify fun s held => ⟨⟨held.1, held.2.1, held.2.1⟩, held.2.2⟩) fun _ => .read fun s _ =>
    .tryCatch (Q := fun (reason : LeReason) s => reason ≠ .cmd ∧ Primed omap image s)
    (E := PrimedStop omap image)
    (.bind (turns _) fun _ => .throw fun s held => primed_rules.stop trivial held.2) fun stop => ?_
  cases stop with
  | left reason => exact .pure fun s held => held reason rfl
  | fatal | abort | blocked | observed => exact .throw fun _ _ => trivial

/-! ### The init string -/

/-- The queue took in `image`, and has room for more. -/
structure Taking (omap : Word) (image : List UInt8) (s : Session) : Prop where
  maps : s.opts.omap = omap
  ok : s.ttyQ.Ok
  tookIn : TookIn omap image s.trace

theorem taking_rules : Rules (Taking omap image) fun _ _ => True where
  quiet step held := by
    refine ⟨(congrArg FixedOpts.omap step.fixed).trans held.maps, step.ttyQ ▸ held.ok, ?_⟩
    rw [TookIn, step.outer.toFrame.outbound fun _ => id]
    exact held.tookIn
  stop _ _ := trivial

theorem taking_store (b : UInt8) :
    StoreRules b (Taking omap image) (Taking omap (image ++ doMapBytes omap b)) fun _ _ => True where
  ok held := held.ok
  grown step held := by
    refine ⟨(congrArg FixedOpts.omap step.fixed).trans held.maps, step.ok held.ok, ?_⟩
    rw [TookIn, step.toFrame.outbound fun _ => False.elim]
    exact held.tookIn
  store {s bytes} held mapped room := by
    obtain ⟨rfl, -, small⟩ := doMap_image mapped
    have history : outbound omap (s.trace ++ [.accept b]) =
        outbound omap s.trace ++ [.put (doMapBytes omap b)] := by
      simp [outbound, Event.onChannel]
    have tookIn := held.tookIn
    refine ⟨held.maps, held.ok.store (by omega), ?_⟩
    rw [TookIn, history]
    simpa [TookIn] using tookIn
  rules := taking_rules
  omap _ _ _ := trivial
  emap _ _ _ := trivial

/-- `tty_q_push` takes in the images of the bytes that it counts. -/
theorem ttyQPush_takes (build : Build) (bytes : List UInt8) :
    Triple (Taking omap image) (ttyQPush build bytes)
      (fun n s => n ≤ bytes.length ∧
        Taking omap (image ++ (bytes.take n).flatMap (doMapBytes omap)) s) fun _ _ => True := by
  induction bytes generalizing image with
  | nil => exact .pure fun s held => ⟨le_rfl, by simpa using held⟩
  | cons b rest ih =>
      refine .bind taking_rules.checkpoint fun _ =>
        .bind (taking_store b).pushByte fun stored => ?_
      cases stored with
      | false => exact .pure fun s held => ⟨Nat.zero_le _, by simpa using held.1⟩
      | true =>
          refine .bind ih fun n => .pure fun s held => ⟨?_, ?_⟩
          · have counted := held.1
            simp only [List.length_cons]
            omega
          · rw [Nat.add_comm, List.take_succ_cons, List.flatMap_cons, ← List.append_assoc]
            exact held.2

/-- The init string that fits is what the queue has taken in when `loop` starts. -/
theorem pushInitstring_takes (build : Build) {initstring : List UInt8} :
    Triple (fun s => Taking omap [] s ∧ s.opts.noinit = false ∧ s.opts.initstring = some initstring)
      (pushInitstring build)
      (fun _ => Taking omap (initstring.flatMap (doMapBytes omap))) fun _ _ => True := by
  unfold pushInitstring
  refine .read fun s held => ?_
  simp only [held.2.2, held.2.1, Bool.not_false, if_true]
  refine .bind ((ttyQPush_takes build initstring).pre fun _ => And.left) fun n => ?_
  split
  · exact .bind (Q := fun _ _ => False) (.throw fun _ _ => trivial) fun _ s => False.elim
  · next whole =>
    refine .modify fun s held => ?_
    rw [not_not.mp whole, List.take_length, List.nil_append] at held
    exact ⟨held.2.maps, held.2.ok, held.2.tookIn⟩

/-- Until the queue is allocated nothing comes into it. -/
structure Unprimed (opts : Opts) (s : Session) : Prop where
  static : s.ttyQ = .static
  initstring : s.opts.initstring = opts.initstring
  maps : s.opts.omap = opts.omap
  exit : s.opts.exit = opts.exit
  noinit : s.opts.noinit = opts.noinit
  history : outbound opts.omap s.trace = []

theorem unprimed_rules (build : Build) (opts : Opts) :
    AdvanceRules build (Unprimed opts) fun _ _ => True where
  step {s s'} step held := by
    have same := congrArg Constants.opts step.constants
    obtain ⟨static, initstring⟩ := step.static held.static
    refine ⟨static, initstring.trans held.initstring, (congrArg Opts.omap same).trans held.maps,
      (congrArg Opts.exit same).trans held.exit, (congrArg Opts.noinit same).trans held.noinit, ?_⟩
    have channel := step.channel
    rw [held.maps] at channel
    rcases channel with ⟨history, -⟩ | ⟨ok, -⟩
    · exact history.trans held.history
    · exact absurd (held.static ▸ ok) TtyQ.not_ok_static
  halt _ _ := trivial

/-- A run with `--exit` up to where `loop` is left. -/
theorem untilLeft_primed (build : Build) {opts : Opts} {world : World} {env : Env} {budget : Nat}
    {initstring : List UInt8} (exit : opts.exit = true) (noinit : opts.noinit = false)
    (given : opts.initstring = some initstring) :
    Triple (fun s => s = .start opts world env budget) (untilLeft build)
      (fun reason s => reason ≠ .cmd ∧
        Primed opts.omap (initstring.flatMap (doMapBytes opts.omap)) s) fun _ _ => True := by
  have early := unprimed_rules build opts
  have alloc : Triple (Unprimed opts) allocQueue (fun _ s => (s.ttyQ.Ok ∧ s.opts.exit = true) ∧
      Taking opts.omap [] s ∧ s.opts.noinit = false ∧ s.opts.initstring = some initstring)
      fun _ _ => True := by
    unfold allocQueue
    refine .read fun s _ => ?_
    split
    · exact .throw fun _ _ => trivial
    · refine .modify fun s held => ?_
      have ok : TtyQ.Ok { sz := ttyQSzMin, len := 0, buff := List.replicate ttyQSzMin 0 } :=
        ⟨by simp, by simp, le_rfl, by simp [ttyQSzMin]⟩
      refine ⟨⟨ok, held.exit.trans exit⟩, ⟨held.maps, ok, ?_⟩, held.noinit.trans noinit,
        held.initstring.trans given⟩
      rw [TookIn, held.history]
      exact ⟨rfl, rfl⟩
  have stays : AdvanceRules build (fun s => s.ttyQ.Ok ∧ s.opts.exit = true) fun _ _ => True := {
    step := fun step held =>
      ⟨step.ok held.1, (congrArg Opts.exit (congrArg Constants.opts step.constants)).trans held.2⟩
    halt := fun _ _ => trivial }
  have push : Triple (fun s => (s.ttyQ.Ok ∧ s.opts.exit = true) ∧
      Taking opts.omap [] s ∧ s.opts.noinit = false ∧ s.opts.initstring = some initstring)
      (pushInitstring build) (fun _ s => s.ttyQ.Ok ∧ s.opts.exit = true ∧
        Primed opts.omap (initstring.flatMap (doMapBytes opts.omap)) s) fun _ _ => True :=
    (((stays.maintains fun _ held => leads_pushInitstring held.1).pre fun _ => And.left).and
      ((pushInitstring_takes build).pre fun _ => And.right)).weaken (fun _ => id)
      (fun _ s held => ⟨held.1.1, held.1.2, held.2.maps, fun _ => held.2.tookIn⟩)
      fun _ _ _ => trivial
  unfold untilLeft startUp
  simp only [bind_assoc]
  refine .bind ((openFiles_triple _).weaken (fun _ => id) (fun _ _ => id) fun _ _ _ => trivial)
    fun _ => ?_
  rintro _ ⟨-, -, sys, rfl⟩
  refine Triple.bind (Q := fun _ => Unprimed opts) ((addPort_triple build _).weaken (fun _ => id) ?_
    fun _ _ _ => trivial) (fun _ => ?_) _ rfl
  · rintro _ _ ⟨sys, term, rfl⟩
    exact ⟨rfl, rfl, rfl, rfl, rfl, rfl⟩
  · exact .bind (early.maintains fun _ _ => leads_configurePort) fun _ =>
      .bind (early.maintains fun _ _ => leads_addStdin) fun _ => .bind alloc fun _ =>
      .bind push fun _ => loop_primed build

end Exit

/-- Where `loop` is left because standard input is closed or the program is idle, the queue is empty,
and all that came into it since a settings command last emptied it has gone to the port. Standard input
is given as the reason only where it was closed or never to be read, and no idle time is set; and
idleness only where one is set. With `--exit` and an init string that fits, and as long as nothing comes
from the control socket, the port gets the image of the init string and nothing else. -/
theorem graceful_exit (build : Build) {opts : Opts} {world : World} {env : Env} {budget : Nat}
    {reason : LeReason} {s : Session}
    (ran : (untilLeft build).run (.start opts world env budget) = .ok reason s) :
    (reason = .stdin ∨ reason = .idle → s.ttyQ.contents = [] ∧
      Channel.output (Channel.sinceReset (outbound opts.omap s.trace)) =
        Channel.input (Channel.sinceReset (outbound opts.omap s.trace))) ∧
    (reason = .stdin → (.eof ∈ s.trace ∨ opts.exit = true) ∧ opts.exitAfter < 0) ∧
    (reason = .idle → 0 ≤ opts.exitAfter) ∧
    ∀ initstring, opts.exit = true → opts.noinit = false → opts.initstring = some initstring →
      ctlChunks s.trace = [] → reason ≠ .signal →
      Channel.output (outbound opts.omap s.trace) = initstring.flatMap (doMapBytes opts.omap) := by
  have result := (accounted_rules build opts).untilLeft (s := .start opts world env budget) rfl
    (fun _ _ _ _ => ⟨⟨rfl, rfl, rfl⟩, .empty, nofun⟩) (fun _ _ _ _ _ => trivial) _ rfl
  rw [ran] at result
  have balanced : Accounted opts s → s.ttyQ.contents = [] →
      Channel.output (Channel.sinceReset (outbound opts.omap s.trace)) =
        Channel.input (Channel.sinceReset (outbound opts.omap s.trace)) := by
    intro held empty
    have balances := held.balances
    rw [empty, Channel.Balances, List.append_nil] at balances
    exact balances.symm
  have graceful : reason = .stdin ∨ reason = .idle →
      Accounted opts s ∧ s.ttyQ.contents = [] := by
    rintro (rfl | rfl)
    · exact ⟨result.1, result.2.1⟩
    · exact ⟨result.1, result.2.1⟩
  refine ⟨fun left => ⟨(graceful left).2, balanced (graceful left).1 (graceful left).2⟩, ?_, ?_, ?_⟩
  · rintro rfl
    exact result.2.2
  · rintro rfl
    exact result.2.2
  · intro initstring exit noinit given silent unkilled
    have primed := @untilLeft_primed build opts world env budget initstring exit noinit
      given _ rfl
    rw [ran] at primed
    have left : reason = .stdin ∨ reason = .idle := by
      cases reason with
      | cmd => exact absurd rfl primed.1
      | signal => exact absurd rfl unkilled
      | stdin => exact .inl rfl
      | idle => exact .inr rfl
    obtain ⟨input, whole⟩ := primed.2.2 silent
    have same := balanced (graceful left).1 (graceful left).2
    rw [whole, input] at same
    exact same

/-- The init string `ab` is sent with `--exit`. -/
theorem graceful_exit_initstring :
    let env := Env.works [] [] [] (fun _ => false) fun fd => fd == 3
    let opts := { Opts.default with quiet := true, exit := true, initstring := some (ascii "ab") }
    ∃ s, (untilLeft .cmake).run (.start opts .fresh env 9) = .ok .stdin s ∧
      s.ttyQ.contents = [] ∧ Channel.output (outbound opts.omap s.trace) = ascii "ab" := by
  intro env opts
  have held : (returned ((untilLeft .cmake).run (.start opts .fresh env 9))).map
      (fun t => (t.1, ctlChunks t.2.trace)) = some (.stdin, []) := by decide +kernel
  obtain ⟨⟨reason, s⟩, ret, same⟩ := Option.map_eq_some_iff.mp held
  obtain ⟨rfl, silent⟩ := Prod.mk.inj same
  have ran := eq_ok_of_returned ret
  obtain ⟨empty, -, -, sent⟩ := graceful_exit .cmake ran
  refine ⟨s, ran, (empty (.inl rfl)).1, ?_⟩
  rw [sent (ascii "ab") rfl rfl rfl silent nofun]
  decide +kernel

end Ppcom
