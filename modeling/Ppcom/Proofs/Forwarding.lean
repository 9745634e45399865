/-
Module: Ppcom.Proofs.Forwarding
Purpose: What becomes of the terminal where the connections of `ffwd` cannot be made. `setup_socket`
  fails with a value that `init` and `loop` take for a descriptor, and it is the one of standard
  output.
Trusted boundary: none
Main exports: ShownOnce, ReadsControl, Undisturbed, control_run, forwarding_undisturbed_iff
-/
import Ppcom.Proofs.Inbound

namespace Ppcom

open Program

/-! ### What is promised -/

/-- What was read from the port is on standard output once, as its images; where a write has failed,
the start of it. -/
structure ShownOnce (opts : Opts) (run : EStateM.Result Stop Session LeReason) : Prop where
  left : ∀ {reason s}, run = .ok reason s →
    written .port sto s.trace = (portBytes s.trace).flatMap (documentedImage opts.imap)
  stopped : ∀ {stop s}, run = .error stop s → (∀ message, stop ≠ .fatal message) →
    written .port sto s.trace = (portBytes s.trace).flatMap (documentedImage opts.imap)
  fatal : ∀ {message s}, run = .error (.fatal message) s →
    written .port sto s.trace <+: (portBytes s.trace).flatMap (documentedImage opts.imap)

/-- Every descriptor that was read as control input is the control socket, and that is connected. -/
structure ReadsControl (ctl : SocketReplies) (run : EStateM.Result Stop Session LeReason) : Prop where
  left : ∀ {reason s fd buff}, run = .ok reason s → .ctl fd buff ∈ s.trace →
    ctl.Connects ∧ fd = ctl.socket
  stopped : ∀ {stop s fd buff}, run = .error stop s → .ctl fd buff ∈ s.trace →
    ctl.Connects ∧ fd = ctl.socket

/-- What the replies to `init` must not change: it succeeds only with two connections of its own, and in
the runs that follow the terminal shows what it shows without them, as long as no other program connects to
the servers, and nothing else is read as control input. -/
structure Undisturbed (f : Ffwd) (msg ctl : SocketReplies) : Prop where
  connected : (f.init msg ctl).1 = 0 →
    (msg.Connects ∧ (f.init msg ctl).2.msgfd = msg.socket) ∧
      ctl.Connects ∧ (f.init msg ctl).2.ctlfd = ctl.socket
  shown : ∀ (l : Launch) (made : List ProcessStep) (p : PpcomProcess),
    l.replies .msg = msg → l.replies .ctl = ctl → l.Fresh → ¬ Ignores l.opts.imap → ProcessRun l made p →
      (∀ st ∈ made, ¬ st.input.Guest) →
      ShownOnce l.opts (l.run p.passed) ∧ ∀ st ∈ made, st.output = []
  control : ∀ (l : Launch) (made : List ProcessStep) (p : PpcomProcess),
    l.replies .msg = msg → l.replies .ctl = ctl → ProcessRun l made p → ReadsControl ctl (l.run p.passed)

/-! ### Control input -/

/-- What was read as control input was read from `ctlfd`, and that is what `init` has left in it. -/
structure ControlFrom (socket : Int) (s : Session) : Prop where
  newCtlfd : s.env.ctlfd = socket
  ctlfd : s.ctlfd = -1 ∨ s.ctlfd = socket
  ttyFd : 0 ≤ s.ttyFd
  reads : ∀ fd buff, .ctl fd buff ∈ s.trace → fd = socket

section

variable {build : Build} {socket fd : Int} {s s' : Session} {stop : Stop} {buff : List UInt8}
  {puts : List Event}

theorem not_ctl_of_puts (are : Puts puts) : Event.ctl fd buff ∉ puts := by
  intro inside
  obtain ⟨_, _, is⟩ := are _ inside
  cases is

@[simp] theorem not_ctl_forwards (s : Session) (bytes sent : List UInt8) :
    Event.ctl fd buff ∉ s.forwards bytes sent :=
  not_ctl_of_puts (puts_forwards s bytes sent)

/-- A step reads as control input what `ctlfd` is, or nothing. -/
theorem Advance.ctl (step : Advance build s s') (read : .ctl fd buff ∈ s'.trace) :
    .ctl fd buff ∈ s.trace ∨ fd = s.ctlfd ∧ s.Watched fd := by
  cases step with
  | ctlRead ctl buff' watched =>
      rcases List.mem_append.mp read with early | here
      · exact .inl early
      · cases List.mem_singleton.mp here
        exact .inr ⟨rfl, watched⟩
  | wrote =>
      refine .inl ?_
      split at read <;> simpa using read
  | @pushed _ _ echo ok put mapped room echoed =>
      have silent : Event.ctl fd buff ∉ echo := not_ctl_of_puts fun e inside => ⟨sto, echoed e inside⟩
      exact .inl (by simpa [silent] using read)
  | called | observed | replied | skipped | unforked | forked | joined | lines | writeSz | settings | noreset
    | freed | machine | grew => exact .inl read
  | applied | lecho | closed | typed | acted | entered | shown | discarded | ctlByte =>
      exact .inl (by simpa using read)

/-- The last step reads no control input. -/
theorem Halt.ctl (last : Halt stop s s') (read : .ctl fd buff ∈ s'.trace) : .ctl fd buff ∈ s.trace := by
  cases last with
  | here | signal | stdin | idle | blocked => exact read
  | unmapped | unshown | unwritten => simpa using read
  | @unforwarded _ message first rest port puts put got forwarded =>
      obtain ⟨sent, part, -, rfl⟩ := forwarded
      simpa using read
  | @unechoed _ message taken puts write put lecho some start forwarded =>
      obtain ⟨sent, part, -, rfl⟩ := forwarded
      simpa using read

theorem ControlFrom.advance (step : Advance build s s') (held : ControlFrom socket s) :
    ControlFrom socket s' := by
  have same := step.constants
  have ctlfd : s'.ctlfd = s.ctlfd := congrArg Constants.ctlfd same
  have ttyFd : s'.ttyFd = s.ttyFd := congrArg Constants.ttyFd same
  refine ⟨(congrArg Constants.newCtlfd same).trans held.newCtlfd, ctlfd ▸ held.ctlfd, ttyFd ▸ held.ttyFd,
    fun fd buff read => ?_⟩
  rcases step.ctl read with early | ⟨rfl, watched⟩
  · exact held.reads fd buff early
  · rcases held.ctlfd with unset | set
    · have valid := held.ttyFd
      rcases watched with stdin | port | positive
      · rw [unset] at stdin
        cases stdin
      · rw [← port, unset] at valid
        exact absurd valid (by decide)
      · rw [unset] at positive
        exact absurd positive (by decide)
    · exact set

/-- In a run nothing is read as control input but the descriptor that `init` has left in `ctlfd`. -/
theorem control_run (build : Build) {opts : Opts} {world : World} {env : Env} {budget : Nat} :
    Triple (fun s => s = .start opts world env budget) (untilLeft build)
      (fun _ s => ∀ fd buff, .ctl fd buff ∈ s.trace → fd = env.ctlfd)
      (fun _ s => ∀ fd buff, .ctl fd buff ∈ s.trace → fd = env.ctlfd) := by
  have rules : RunRules build (ControlFrom env.ctlfd)
      fun _ s => ∀ fd buff, .ctl fd buff ∈ s.trace → fd = env.ctlfd := {
    step := ControlFrom.advance
    halt := fun last held fd buff read => held.reads fd buff (last.ctl read)
    empty := fun _ held => ⟨held.newCtlfd, held.ctlfd, held.ttyFd, held.reads⟩
    enter := fun held => ⟨held.newCtlfd, .inr held.newCtlfd, held.ttyFd, held.reads⟩ }
  exact rules.untilLeft rfl (fun sys term port log => ⟨rfl, .inl rfl, port, nofun⟩)
    fun _ _ _ _ _ => nofun

end

/-! ### Runs -/

/-- What is shown in a run whose descriptors are apart. -/
theorem shownOnce_of_apart (build : Build) {opts : Opts} {world : World} {env : Env} {budget : Nat}
    (apart : Apart opts env) (total : ¬ Ignores opts.imap) :
    ShownOnce opts ((untilLeft build).run (.start opts world env budget)) := by
  obtain ⟨left, stopped⟩ := @inbound_run build _ world _ budget apart
  exact {
    left := fun ran => ((left _ _ ran).2 nofun nofun).shown
    stopped := fun ran alive => ((stopped _ _ ran).2 alive fun _ => total).shown
    fatal := fun ran => (stopped _ _ ran).1.shown }

/-- What is read as control input in a run with a control connection. -/
theorem readsControl_of_connects (build : Build) {opts : Opts} {world : World} {env : Env} {budget : Nat}
    {ctl : SocketReplies} (connects : ctl.Connects) (ctlfd : env.ctlfd = ctl.socket) :
    ReadsControl ctl ((untilLeft build).run (.start opts world env budget)) := by
  have result := @control_run build opts world env budget _ rfl
  constructor
  · intro reason s fd buff ran read
    rw [ran] at result
    exact ⟨connects, (result fd buff read).trans ctlfd⟩
  · intro stop s fd buff ran read
    rw [ran] at result
    exact ⟨connects, (result fd buff read).trans ctlfd⟩

/-- The terminal is undisturbed exactly if both connections are made: `init` succeeds in any case, and
what `setup_socket` fails with is the descriptor of standard output. -/
theorem forwarding_undisturbed_iff (f : Ffwd) (msg ctl : SocketReplies) :
    Undisturbed f msg ctl ↔ msg.Connects ∧ ctl.Connects := by
  constructor
  · intro held
    obtain ⟨⟨msgConnects, -⟩, ctlConnects, -⟩ := held.connected (by rw [Ffwd.init_eq])
    exact ⟨msgConnects, ctlConnects⟩
  · rintro ⟨msgConnects, ctlConnects⟩
    have ctlfd : ∀ f : Ffwd, (f.init msg ctl).2.ctlfd = ctl.socket := by
      intro f
      rw [Ffwd.init_ctlfd, setupSocket_connects ctlConnects]
    constructor
    · intro _
      exact ⟨⟨msgConnects, by rw [Ffwd.init_msgfd, setupSocket_connects msgConnects]⟩, ctlConnects, ctlfd f⟩
    · rintro l made p rfl rfl fresh total run alone
      exact ⟨shownOnce_of_apart l.build (fresh.apart_settled msgConnects) total,
        run_unlogged run fresh.quietControl alone⟩
    · rintro l made p rfl rfl run
      exact readsControl_of_connects l.build ctlConnects (by rw [Launch.settled, Launch.ffwd, ctlfd])

/-- A process without connections: `a` comes from the port, and standard output can be read. -/
def disturbedLaunch : Launch :=
  { Launch.works receivingOpts
      (.works [] [.data 0x61 []] [.data 0x62 []] (fun fd => fd == 3 || fd == sto) fun _ => false) with
    replies := fun _ => ⟨-1, 1, 0⟩ }

/-- `a` is shown twice, and what standard output is read for is taken for control input. -/
theorem disturbedLaunch_runs : ∃ made p, ProcessRun disturbedLaunch made p ∧
    ¬ ShownOnce receivingOpts (disturbedLaunch.run p.passed) ∧
      ¬ ReadsControl ⟨-1, 1, 0⟩ (disturbedLaunch.run p.passed) := by
  have held : (Machine.trail (PpcomProcess.step disturbedLaunch) .start [.main, .main, .main, .main]).map
      (fun made =>
        let p := Machine.last .start made
        (thrown (disturbedLaunch.run p.passed)).map fun t =>
          (t.1, portBytes t.2.trace, written .port sto t.2.trace, decide (.ctl sto [0x62] ∈ t.2.trace))) =
      some (some (.observed, [0x61], [0x61, 0x61], true)) := by
    decide +kernel
  obtain ⟨made, ran, threw⟩ := Option.map_eq_some_iff.mp held
  obtain ⟨⟨stop, s⟩, threw, same⟩ := Option.map_eq_some_iff.mp threw
  obtain ⟨rfl, rest⟩ := Prod.mk.inj same
  obtain ⟨bytes, rest⟩ := Prod.mk.inj rest
  obtain ⟨twice, read⟩ := Prod.mk.inj rest
  refine ⟨made, _, Machine.Run.of_trail ran, fun once => ?_, fun control => ?_⟩
  · have shown := once.stopped (eq_error_of_thrown threw) nofun
    rw [bytes, twice] at shown
    exact absurd shown (by decide +kernel)
  · have connects := (control.stopped (eq_error_of_thrown threw) (of_decide_eq_true read)).1
    simp [SocketReplies.Connects] at connects

/-- Where no socket can be made, `init` succeeds all the same, what comes from the port is shown twice,
and standard output is read as control input. Where both are made and another program has connected to the
server of messages, what comes from the port is shown, and then logged on standard output. -/
theorem forwarding_disturbed :
    (¬ Undisturbed (.static (-1) (-1)) ⟨-1, 1, 0⟩ ⟨-1, 1, 0⟩ ∧
      ((Ffwd.static (-1) (-1)).init ⟨-1, 1, 0⟩ ⟨-1, 1, 0⟩).1 = 0 ∧
      ∃ made p, ProcessRun disturbedLaunch made p ∧
        ¬ ShownOnce receivingOpts (disturbedLaunch.run p.passed) ∧
        ¬ ReadsControl ⟨-1, 1, 0⟩ (disturbedLaunch.run p.passed)) ∧
    ∃ made p, ProcessRun (receivingLaunch ⟨6, 1, 0⟩) made p ∧
      written .port sto (p.reached (receivingLaunch ⟨6, 1, 0⟩)).trace = [0x61] ∧
      ∃ st ∈ made, st.before.own .msg = .accepted 8 ∧ .sent 8 9 [0x61] ∈ st.output := by
  refine ⟨⟨fun held => ?_, ?_, disturbedLaunch_runs⟩, ?_⟩
  · have connects := (held.connected (by rw [Ffwd.init_eq])).2.1
    simp [SocketReplies.Connects] at connects
  · rw [Ffwd.init_eq]
  · exact receivingLaunch_repeats

end Ppcom
