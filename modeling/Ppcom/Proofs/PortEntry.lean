/-
Module: Ppcom.Proofs.PortEntry
Purpose: From where `main` has added the port to the end of `loop`, the port stands in the first slot of
  the framework, with the settings it had then as original settings but for their `HUPCL` bit, and no
  other slot is used but for standard input.
Trusted boundary: none
Main exports: Manages, Session.Managed, Session.Answering, Advance.managed, Advance.attached,
  untilAdded_triple, attached_rules
-/
import Ppcom.Proofs.TermOriginal
import Ppcom.Proofs.Traversal

namespace Ppcom

open Program

/-! ### Queries -/

/-- Nothing is changed. -/
def Unchanged (s s' : Sys) : Prop := s' = s

instance : Std.Refl Unchanged where
  refl _ := rfl

instance : IsTrans Sys Unchanged where
  trans _ _ _ first second := Eq.trans second first

theorem termFind_unchanged (fd : Int) : Keeps Unchanged (termFind fd) := by
  unfold termFind
  refine .bind .get fun s => ?_
  cases s.term.find fd with
  | ok i => exact .pure i
  | error e => exact .throw e

/-- A query finds its descriptor, reads the settings of a slot or works on lines and queues. -/
theorem query_unchanged (plat : Platform) (replies : Replies) (fd : Int) (which : Query) :
    Keeps Unchanged (which.exec plat replies fd) := by
  have found : Keeps Unchanged (discard <| termFind fd) := (termFind_unchanged fd).discard
  have reads : ∀ {α : Type} (decode : Termios → TermM α), (∀ tio, Keeps Unchanged (decode tio)) →
      Keeps Unchanged (discard do
        let i ← termFind fd
        let s ← get
        decode (s.term.currtermios i)) := fun decode keeps =>
    .discard (.bind (termFind_unchanged fd) fun _ => .bind .get fun _ => keeps _)
  have lower : ∀ e, Keeps Unchanged (lowerLine replies e fd) := fun e => by
    unfold lowerLine
    exact .bind found fun _ => .guard (.pure _)
  have raise : ∀ e, Keeps Unchanged (raiseLine replies e fd) := fun e => by
    unfold raiseLine
    exact .bind found fun _ => .guard (.pure _)
  cases which with
  | getBaudrate =>
      refine .discard (.bind (termFind_unchanged fd) fun i => .bind .get fun s => ?_)
      dsimp only
      split
      · exact .refuse (.refuse (.pure _))
      · exact .pure _
  | getParity => exact reads (fun tio => pure (parityOf tio.cCflag)) fun _ => .pure _
  | getDatabits => exact reads (fun tio => pure (databitsOf tio.cCflag)) fun _ => .pure _
  | getStopbits => exact reads (fun tio => pure (stopbitsOf tio.cCflag)) fun _ => .pure _
  | getFlowcntrl => exact reads (fun tio => pure (flowcntrlOf tio)) fun _ => .pure _
  | getMctl =>
      refine .discard (.bind found fun _ => ?_)
      split <;> exact .pure _
  | pulseDtr => exact .bind (lower _) fun _ => raise _
  | lowerDtr | lowerRts => exact lower _
  | raiseDtr | raiseRts => exact raise _
  | drain | flush | brk => exact .bind found fun _ => .guard (.pure _)

theorem after_query (plat : Platform) (replies : Replies) (fd : Int) (which : Query) (s : Sys) :
    (which.exec plat replies fd).after s = s :=
  query_unchanged plat replies fd which s

/-! ### The framework -/

/-- The framework manages `fd`, whose device had the settings `orig` when it was added, and at most
standard input beside it. -/
structure Manages (s : Sys) (fd : Int) (orig : Termios) : Prop where
  init : s.term.init = true
  real : 0 ≤ fd
  port : s.term.fd 0 = fd
  others : ∀ i, i ≠ 0 → s.term.fd i = -1 ∨ s.term.fd i = sti ∧ sti ≠ fd
  orig : ∃ h, s.term.origtermios 0 = withHupcl orig h

section Framework

variable {plat : Platform} {answers : Answers} {s s' : Sys} {fd : Int} {orig : Termios}

theorem Manages.found (held : Manages s fd orig) : s.term.find fd = .ok 0 := by
  apply Term.find_of_only_key held.init held.port
  intro i other same
  rcases held.others i other with free | ⟨stdin, apart⟩
  · have real := held.real
    omega
  · exact apart (stdin.symm.trans same)

/-- A call that leaves the entries in place may give an original setting another `HUPCL` bit. -/
theorem call_entries {fd' : Int} {call : Call} (init : s.term.init = true) (on : call.On fd') :
    ((call.exec plat answers).after s).term.init = true ∧
      ((call.exec plat answers).after s).term.fd = s.term.fd ∧
      ∀ i, ((call.exec plat answers).after s).term.origtermios i = s.term.origtermios i ∨
        ∃ t, ((call.exec plat answers).after s).term.origtermios i =
          copyHupcl t (s.term.origtermios i) := by
  have same : SameSlots s ((call.exec plat answers).after s) →
      ((call.exec plat answers).after s).term.init = true ∧
      ((call.exec plat answers).after s).term.fd = s.term.fd ∧
      ∀ i, ((call.exec plat answers).after s).term.origtermios i = s.term.origtermios i ∨
        ∃ t, ((call.exec plat answers).after s).term.origtermios i =
          copyHupcl t (s.term.origtermios i) :=
    fun kept => ⟨kept.init.trans init, kept.fd, fun i => .inl (congrFun kept.orig i)⟩
  cases call with
  | refresh fd => exact same (sameSlots_rules.termRefresh _ _ _)
  | setOne setter fd => exact same (sameSlots_rules.setter _ _ _ _)
  | fakeFlush fd => exact same (sameSlots_rules.termFakeFlush _ _ _)
  | query which fd => exact same (query_sameSlots _ _ _ _ _)
  | apply fd now =>
      rcases apply_slots answers fd now init with
        ⟨kept, -⟩ | ⟨j, -, -, -, init', keys, origs⟩
      · exact same kept
      · refine ⟨init'.trans init, keys, fun i => ?_⟩
        by_cases here : i = j
        · subst here
          exact .inr ⟨_, (congrFun origs i).trans (Function.update_self ..)⟩
        · exact .inl ((congrFun origs i).trans (Function.update_of_ne here ..))
  | _ => cases on

/-- A call keeps the port managed. -/
theorem Manages.called {fd' : Int} {call : Call} (held : Manages s fd orig) (on : call.On fd') :
    Manages ((call.exec plat answers).after s) fd orig := by
  obtain ⟨init, keys, origs⟩ := call_entries held.init on
  refine ⟨init, held.real, by rw [keys]; exact held.port, by rw [keys]; exact held.others, ?_⟩
  obtain ⟨h, is⟩ := held.orig
  rcases origs 0 with same | ⟨t, copied⟩
  · exact ⟨h, same.trans is⟩
  · exact ⟨t.cCflag, by rw [copied, is, copyHupcl_withHupcl]⟩

/-- So does adding standard input. -/
theorem Manages.joined (held : Manages s fd orig) :
    Manages (((Call.add sti).exec plat answers).after s) fd orig := by
  have after : ((Call.add sti).exec plat answers).after s =
      (termAdd answers.toReplies sti).after s := TermM.after_discard _ _
  rw [after, TermM.after]
  rcases Term.find_cases held.init sti with ⟨i, found, -⟩ | ⟨absent, lost⟩
  · rw [run_termAdd_managed found]
    exact held
  rcases termAdd_cases answers.toReplies held.init lost with
    ⟨e, failed, -⟩ | ⟨i, unused, -, -, -, added⟩
  · rw [failed]
    exact held
  rw [added]
  have real := held.real
  have port := held.port
  have other : i ≠ 0 := by
    rintro rfl
    omega
  refine ⟨held.init, real, ?_, ?_, ?_⟩
  · simpa [other.symm] using port
  · intro j notPort
    by_cases here : j = i
    · subst here
      exact .inr ⟨by simp, fun same => lost 0 (port.trans same.symm)⟩
    · simpa [here] using held.others j notPort
  · simpa [other.symm] using held.orig

/-- A port that was added to an empty framework. -/
theorem Manages.added {replies : Replies} {v : Slot} (init : s.term.init = true)
    (empty : ∀ i, s.term.fd i = -1) (real : 0 ≤ fd)
    (ran : (termAdd replies fd).run s = .ok v s') :
    Manages s' fd (s.world.settingsOf fd) ∧ s'.world = s.world := by
  have lost : ∀ i, s.term.fd i ≠ fd := fun i same => by
    have free := empty i
    omega
  rcases termAdd_cases replies init lost with ⟨e, failed, -⟩ | ⟨i, -, first, -, -, added⟩
  · rw [failed] at ran
    cases ran
  rw [added] at ran
  cases ran
  have here : i = 0 := by
    by_contra other
    exact first 0 (Fin.pos_iff_ne_zero.mpr other) (empty 0)
  subst here
  refine ⟨⟨init, real, by simp, fun j other => .inl (by simp [other, empty]),
    (s.world.settingsOf fd).cCflag, ?_⟩, rfl⟩
  simp [withHupcl_self]

theorem Manages.sameSlots (held : Manages s fd orig) (same : SameSlots s s') :
    Manages s' fd orig :=
  ⟨same.init.trans held.init, held.real, by rw [same.fd]; exact held.port,
    by rw [same.fd]; exact held.others, by rw [same.orig]; exact held.orig⟩

/-- So with its parameters set. -/
theorem Manages.set {replies : Replies} {p : Params} (init : s.term.init = true)
    (empty : ∀ i, s.term.fd i = -1) (real : 0 ≤ fd)
    (ran : (termSet plat replies fd p).run s = .ok () s') :
    Manages s' fd (s.world.settingsOf fd) ∧ s'.world = s.world := by
  have lost : ∀ i, s.term.fd i ≠ fd := fun i same => by
    have free := empty i
    omega
  have absent := (Term.find_eq_error_iff init).mpr lost
  rcases termAdd_cases replies init lost with ⟨e, failed, -⟩ | ⟨i, -, -, -, -, added⟩
  · rw [run_termSet_unadded absent failed] at ran
    cases ran
  obtain ⟨s₁, added, found⟩ : ∃ s₁, (termAdd replies fd).run s = .ok 0 s₁ ∧
      s₁.term.find fd = .ok i := by
    rw [added]
    exact ⟨_, rfl, find_of_added init lost (s.world.settingsOf fd)⟩
  obtain ⟨held, world⟩ := Manages.added init empty real added
  rcases run_termSet_added plat p absent added found with ⟨-, t, set⟩ | ⟨-, e, t, failed⟩
  · rw [set] at ran
    cases ran
    exact ⟨held.sameSlots ⟨rfl, rfl, rfl⟩, world⟩
  · rw [failed] at ran
    cases ran

end Framework

/-! ### Runs -/

/-- The framework manages the port of the session. -/
def Session.Managed (orig : Termios) (s : Session) : Prop := Manages s.sys s.ttyFd orig

/-- The calls on the port will all have answers of a kind. -/
def Session.Answering (kind : Answers → Prop) (s : Session) : Prop :=
  ∀ n, kind (s.env.term s.ttyFd n)

theorem Session.Answering.head {kind : Answers → Prop} {s : Session} (held : s.Answering kind) :
    kind (s.env.term s.ttyFd).head :=
  held 0

/-- A call uses up the first of them. -/
theorem answering_called {kind : Answers → Prop} {term : Int → Stream' Answers} {fd : Int}
    (held : ∀ n, kind (term fd n)) (fd' : Int) (n : Nat) :
    kind (Function.update term fd' (term fd').tail fd n) := by
  by_cases same : fd = fd'
  · subst same
    rw [Function.update_self]
    exact held (n + 1)
  · rw [Function.update_of_ne same]
    exact held n

section Runs

variable {build : Build} {orig : Termios} {kind : Answers → Prop} {s s' : Session}

theorem Advance.managed (step : Advance build s s') (held : s.Managed orig) : s'.Managed orig := by
  cases step with
  | called on => exact Manages.called held on
  | applied ok => exact Manages.called held rfl
  | joined => exact Manages.joined held
  | forked => exact Manages.sameSlots held ⟨rfl, rfl, rfl⟩
  | _ => exact held

theorem Advance.answering (step : Advance build s s') (held : s.Answering kind) :
    s'.Answering kind := by
  cases step with
  | called on => exact answering_called held _
  | applied ok => exact answering_called held _
  | joined => exact answering_called held _
  | _ => exact held

/-- The framework manages the port, which answers so. -/
structure Attached (orig : Termios) (kind : Answers → Prop) (s : Session) : Prop where
  managed : s.Managed orig
  answering : s.Answering kind

theorem Advance.attached (step : Advance build s s') (held : Attached orig kind s) :
    Attached orig kind s' :=
  ⟨step.managed held.managed, step.answering held.answering⟩

end Runs

/-! ### The start -/

/-- The framework is initialised and empty, and the terminals are as they were. -/
structure Empty (world : World) (s : Sys) : Prop where
  init : s.term.init = true
  free : ∀ i, s.term.fd i = -1
  world : s.world = world

theorem initFramework_empty {world : World} {env : Env} :
    Triple (fun s => s.sys = ⟨Term.static, world⟩ ∧ s.env = env) initFramework
      (fun _ s => Empty world s.sys ∧ s.env = env) fun _ _ => True := by
  rintro s ⟨sys, is⟩
  have uninit : s.sys.term.init = false := by rw [sys]; rfl
  have first := fun replies => @run_termLibInit_first s.sys replies uninit s.env.atexit
  unfold initFramework
  simp only [EStateM.run_bind, EStateM.run_get, EStateM.run_set, TermM.after, TermM.outcome, first]
  cases s.env.atexit with
  | false => trivial
  | true =>
      refine ⟨⟨rfl, fun _ => rfl, ?_⟩, is⟩
      rw [sys]
      rfl

/-- Where the files are open the framework is empty. -/
theorem openFiles_empty {world : World} {env : Env} :
    Triple (fun s => s.sys = ⟨Term.static, world⟩ ∧ s.env = env) openFiles
      (fun _ s => Empty world s.sys ∧ s.env = env) fun _ _ => True := by
  have fail : ∀ {c : Prop} [Decidable c] (message : String),
      Maintains (fun s => Empty world s.sys ∧ s.env = env) (fun _ _ => True)
        (do if c then fatal message) := by
    intro c _ message
    split
    · exact .throw fun _ _ => trivial
    · exact .pure fun _ => id
  have log : Maintains (fun s => Empty world s.sys ∧ s.env = env) (fun _ _ => True) openLog := by
    unfold openLog
    refine .bind_get fun s held => ?_
    split
    · refine .bind (Q := fun _ s => Empty world s.sys ∧ s.env = env) ?_ fun _ => fail _
      exact fun _ _ => held
    · exact .pure fun _ => And.right
  have port : Maintains (fun s => Empty world s.sys ∧ s.env = env) (fun _ _ => True) openPort :=
    .getSet (R := fun s => Empty world s.sys ∧ s.env = env) (fun _ => id) fun _ => fail _
  exact .bind initFramework_empty fun _ => .bind log fun _ => port

/-- A run of `main` has come to where the port is added. -/
structure AddedPort (start : Session) (kind : Answers → Prop) (s : Session) : Prop where
  opened : ∃ sys term, s = { start.opened sys with env := { start.env with term := term } }
  named : start.opts.logFilename.isSome → 0 ≤ start.env.openLog
  attached : Attached (start.sys.world.settingsOf start.env.openPort) kind s
  world : s.sys.world = start.sys.world

theorem addPort_managed {build : Build} {start : Session} {kind : Answers → Prop}
    (answers : ∀ n, kind (start.env.term start.env.openPort n)) :
    Triple (fun s => 0 ≤ s.ttyFd ∧ s.ttyFd = start.env.openPort ∧
        Empty start.sys.world s.sys ∧ s.env = start.env) (addPort build)
      (fun _ s => Attached (start.sys.world.settingsOf start.env.openPort) kind s ∧
        s.sys.world = start.sys.world) fun _ _ => True := by
  rintro s ⟨real, port, empty, env⟩
  let call : TermM Unit :=
    if s.opts.noinit then discard <| termAdd (s.env.term s.ttyFd).head.toReplies s.ttyFd
    else termSet build.toPlatform (s.env.term s.ttyFd).head.toReplies s.ttyFd s.opts.params
  have adds : ∀ sys, call.run s.sys = .ok ⟨⟩ sys →
      Manages sys s.ttyFd (s.sys.world.settingsOf s.ttyFd) ∧ sys.world = s.sys.world := by
    intro sys ran
    by_cases noinit : s.opts.noinit = true
    · simp only [call, if_pos noinit] at ran
      cases added : (termAdd (s.env.term s.ttyFd).head.toReplies s.ttyFd).run s.sys with
      | ok v sys' =>
          rw [run_discard_ok added] at ran
          cases ran
          exact Manages.added empty.init empty.free real added
      | error e sys' =>
          rw [run_discard_error added] at ran
          cases ran
    · simp only [call, if_neg noinit] at ran
      exact Manages.set empty.init empty.free real ran
  unfold addPort
  refine Triple.bind_get (P := fun s' => s' = s) (fun s' here => ?_) s rfl
  rw [here]
  refine .bind (Q := fun r s' => succeeded r = true →
    Attached (start.sys.world.settingsOf start.env.openPort) kind s' ∧
      s'.sys.world = start.sys.world) ?_ fun r => ?_
  · intro s' here success
    rw [here.1] at success
    change succeeded (call.outcome s.sys) = true at success
    cases called : call.run s.sys with
    | error e sys =>
        rw [TermM.outcome, called] at success
        cases success
    | ok v sys =>
        obtain ⟨held, world⟩ := adds sys called
        rw [empty.world, port] at held
        have after : call.after s.sys = sys := by rw [TermM.after, called, final_ok]
        rw [← port, ← env] at answers
        rw [here.1]
        refine ⟨⟨?_, ?_⟩, ?_⟩
        · change Manages (call.after s.sys) s.ttyFd _
          rw [after, port]
          exact held
        · exact answering_called answers _
        · change (call.after s.sys).world = _
          rw [after, world, empty.world]
  · split
    · exact .throw fun _ _ => trivial
    · next success => exact .pure fun s' held => held (by simpa using success)

/-- Where the port is added the framework manages it. -/
theorem untilAdded_triple {build : Build} {start : Session} {kind : Answers → Prop}
    (fresh : start.sys.term = Term.static)
    (answers : ∀ n, kind (start.env.term start.env.openPort n)) :
    Triple (fun s => s = start) (untilAdded build) (fun _ => AddedPort start kind)
      fun _ _ => True := by
  have sys : start.sys = ⟨Term.static, start.sys.world⟩ := by rw [← fresh]
  have opens := ((openFiles_triple start).and
    (openFiles_empty.pre fun s here => by
      rw [here]
      exact ⟨sys, rfl⟩)).weaken (fun _ => id) (fun _ _ => id) fun _ _ _ => trivial
  refine .bind opens fun _ => ?_
  rintro s ⟨⟨real, named, sys, is⟩, empty, env⟩
  have port : s.ttyFd = start.env.openPort := congrArg Session.ttyFd is
  have adds := (addPort_triple build s).and ((addPort_managed answers).pre
    fun s' (here : s' = s) => by
      rw [here, port]
      exact ⟨real, rfl, empty, env⟩)
  refine adds.weaken (fun _ => id) ?_ (fun _ _ _ => trivial) s rfl
  rintro _ s' ⟨⟨sys', term, is'⟩, attached, world⟩
  refine ⟨⟨sys', term, ?_⟩, named, attached, world⟩
  rw [is', is]
  rfl

/-! ### The loop -/

theorem attached_rules (build : Build) (orig : Termios) (kind : Answers → Prop) :
    RunRules build (Attached orig kind) fun _ => Attached orig kind where
  step := Advance.attached
  halt last held := by
    cases last <;> exact ⟨held.managed, held.answering⟩
  empty _ held := ⟨held.managed, held.answering⟩
  enter held := ⟨held.managed, held.answering⟩

/-- `main` from there up to the top of turn `n` of `loop`. -/
def turnsFromAdded (build : Build) (n : Nat) : SessionM Unit := do
  startUp build
  enterLoop
  times (loopTurn build) n

theorem upTo_eq (build : Build) (n : Nat) :
    upTo build n = (do
      untilAdded build
      turnsFromAdded build n) := by
  simp only [upTo, untilAdded, turnsFromAdded, bind_assoc]

/-- An invariant of runs holds wherever a run of `main` comes to in `loop`. -/
theorem turnsFromAdded_triple {build : Build} {I : Session → Prop} {E : Stop → Session → Prop}
    (rules : RunRules build I E) (n : Nat) :
    Triple (fun s => s.ttyQ = .static ∧ I s) (turnsFromAdded build n)
      (fun _ s => s.ttyQ.Ok ∧ I s) E :=
  .bind rules.startUp fun _ =>
    .bind (Q := fun _ s => s.ttyQ.Ok ∧ I s) (.modify fun _ held => ⟨held.1, rules.enter held.2⟩)
      fun _ => .times (rules.late.maintains fun _ held => leads_loopTurn held.1) n

/-- Wherever a run of `main` comes to in `loop` the port is attached. -/
theorem upTo_attached {build : Build} {start s : Session} {kind : Answers → Prop} {n : Nat}
    (fresh : start.sys.term = Term.static) (static : start.ttyQ = .static)
    (answers : ∀ n, kind (start.env.term start.env.openPort n))
    (reached : (upTo build n).run start = .ok ⟨⟩ s) :
    s.ttyQ.Ok ∧ Attached (start.sys.world.settingsOf start.env.openPort) kind s := by
  have rules := attached_rules build (start.sys.world.settingsOf start.env.openPort) kind
  have whole : Triple (fun s => s = start) (upTo build n)
      (fun _ s => s.ttyQ.Ok ∧ Attached (start.sys.world.settingsOf start.env.openPort) kind s)
      fun _ _ => True := by
    rw [upTo_eq]
    refine .bind (untilAdded_triple fresh answers) fun _ => ?_
    refine (turnsFromAdded_triple rules n).weaken ?_ (fun _ _ => id) fun _ _ _ => trivial
    rintro s ⟨⟨sys, term, is⟩, -, attached, -⟩
    exact ⟨(congrArg Session.ttyQ is).trans static, attached⟩
  have held := whole start rfl
  rwa [reached] at held

end Ppcom
