/-
Module: Ppcom.Proofs.RejectedSettings
Purpose: What a device that rejects some settings makes of the settings commands. What a command submits
  starts from what the framework has pending for the port, and a rejection leaves that as it was
  submitted: later commands and `cleanup` submit it again.
Trusted boundary: none
Main exports: SettingCmd, Session.submitted, SettingCmd.exec_world, CommandRun, rejected_settings_iff
-/
import Ppcom.Proofs.PortEntry

namespace Ppcom

open Program

/-! ### Settings commands -/

/-- The commands that change a setting of the port; the rate of the first is typed or a step from the
last one. -/
inductive SettingCmd where
  | baud (baud : Int)
  | flow
  | parity
  | databits
  | stopbits
deriving DecidableEq, Repr

namespace SettingCmd

/-- The command's function. -/
def exec (build : Build) : SettingCmd → SessionM Unit
  | .baud rate => cmdBaud build rate
  | .flow => cmdFlow
  | .parity => cmdParity
  | .databits => cmdBits
  | .stopbits => cmdStop

/-- The parameter it changes. -/
def setting : SettingCmd → Setting
  | .baud _ => .baud
  | .flow => .flow
  | .parity => .parity
  | .databits => .databits
  | .stopbits => .stopbits

/-- The setter it calls. -/
def setter (opts : Opts) : SettingCmd → Setter
  | .baud rate => .baudrate rate
  | .flow => .flowcntrl (flowNext opts.flow)
  | .parity => .parity (parityNext opts.parity)
  | .databits => .databits (bitsNext opts.databits)
  | .stopbits => .stopbits (stopbitsNext opts.stopbits)

end SettingCmd

/-- A device that takes the settings that `accepts` says, exactly, and rejects the others without a
change. -/
structure Device (accepts : Termios → Bool) (answers : Answers) : Prop where
  tcsetattr : ∀ t, answers.tcsetattr t = if accepts t then some t else none
  restore : ∀ t, answers.restore t = if accepts t then some t else none

namespace Session

variable (build : Build) (s : Session)

/-- The settings of the port's device. -/
def present : Termios := s.sys.world.settingsOf s.ttyFd

/-- The settings that the framework has pending for the port. -/
def pending : Termios := s.sys.term.nextOf s.ttyFd

/-- The settings that a command submits: the pending ones with its parameter changed, or as they are
where the setter refuses the value. -/
def submitted (cmd : SettingCmd) : Termios :=
  match (cmd.setter s.opts).change build.toPlatform s.pending with
  | .ok t => t
  | .error _ => s.pending

/-- The settings that a command is for: the device's with only its parameter changed. -/
def target (cmd : SettingCmd) : Except TermErrno Termios :=
  (cmd.setter s.opts).change build.toPlatform s.present

end Session

/-! ### What a command does -/

section Command

variable {build : Build} {E : Stop → Session → Prop}

/-- Where a run is between the calls of a function on the port: what they made of the framework, and the
answers that are left. -/
structure OnPort (s : Session) (used : Nat) (sys : Sys) (s' : Session) : Prop where
  ttyFd : s'.ttyFd = s.ttyFd
  answers : ∀ n, s'.env.term s.ttyFd n = s.env.term s.ttyFd (used + n)
  sys : s'.sys = sys

theorem onPort_triple {α : Type} {s : Session} {used : Nat} {sys : Sys} (f : Answers → TermM α) :
    Triple (OnPort s used sys) (onTerm s.ttyFd f)
      (fun _ => OnPort s (used + 1) ((f (s.env.term s.ttyFd used)).after sys)) E := by
  rintro s' ⟨ttyFd, answers, rfl⟩
  have first : (s'.env.term s.ttyFd).head = s.env.term s.ttyFd used := answers 0
  refine ⟨ttyFd, fun n => ?_, ?_⟩
  · change Function.update s'.env.term s.ttyFd (s'.env.term s.ttyFd).tail s.ttyFd n = _
    rw [Function.update_self]
    change s'.env.term s.ttyFd (n + 1) = _
    rw [answers, Nat.add_assoc, Nat.add_comm 1]
  · change (f (s'.env.term s.ttyFd).head).after s'.sys = _
    rw [first]

theorem discardPort_triple {α : Type} {s : Session} {used : Nat} {sys : Sys}
    (f : Answers → TermM α) :
    Triple (OnPort s used sys) (discard <| onTerm s.ttyFd f)
      (fun _ => OnPort s (used + 1) ((f (s.env.term s.ttyFd used)).after sys)) E :=
  (onPort_triple f).map fun _ _ => id

theorem applyPort_triple {s : Session} {used : Nat} {sys : Sys} (now : Bool) :
    Triple (OnPort s used sys) (applyTerm s.ttyFd now)
      (fun _ => OnPort s (used + 1)
        ((termApply (s.env.term s.ttyFd used).toReplies s.ttyFd now).after sys)) E := by
  unfold applyTerm
  refine .read fun s' _ => .bind (onPort_triple _) fun r => ?_
  split
  · refine .bind (.modify fun s' held => ?_) fun _ => .pure fun _ => id
    exact ⟨held.ttyFd, held.answers, held.sys⟩
  · exact .pure fun _ => id

/-- The calls of `changeSetting` in a row. -/
theorem changeSetting_triple {s : Session} {used : Nat} {sys : Sys} (setting : Setting)
    (set : Int → TermM Unit) :
    Triple (OnPort s used sys) (changeSetting setting set)
      (fun _ => OnPort s (used + 3)
        ((termApply (s.env.term s.ttyFd (used + 2)).toReplies s.ttyFd true).after
          ((termFlush (s.env.term s.ttyFd (used + 1)).toReplies s.ttyFd).after
            ((set s.ttyFd).after sys)))) E := by
  have drop : ∀ {used : Nat} {sys : Sys}, Maintains (OnPort s used sys) E (discardQueue setting) :=
    fun {used sys} => .read fun _ _ => .bind (Q := fun _ => OnPort s used sys)
      (.modify fun _ held => ⟨held.ttyFd, held.answers, held.sys⟩) fun _ =>
      .modify fun _ held => ⟨held.ttyFd, held.answers, held.sys⟩
  unfold changeSetting
  refine .read fun s' held => ?_
  rw [held.ttyFd]
  exact .bind (discardPort_triple fun _ => set s.ttyFd) fun _ => .bind drop fun _ =>
    .bind (discardPort_triple fun answers => termFlush answers.toReplies s.ttyFd) fun _ =>
    (applyPort_triple true).map fun _ _ => id

/-- A command calls its setter, flushes the port and applies what is pending. -/
theorem SettingCmd.exec_triple (s : Session) (cmd : SettingCmd) :
    Triple (fun s' => s' = s) (cmd.exec build) (fun _ s' => s'.ttyFd = s.ttyFd ∧
      s'.sys = (termApply (s.env.term s.ttyFd 2).toReplies s.ttyFd true).after
        (((cmd.setter s.opts).exec build.toPlatform s.ttyFd).after s.sys)) E := by
  let applied (setter : Setter) : Sys :=
    (termApply (s.env.term s.ttyFd 2).toReplies s.ttyFd true).after
      ((setter.exec build.toPlatform s.ttyFd).after s.sys)
  have option : ∀ f : Opts → Opts, Triple (fun s' => s' = s)
      (modify fun s => { s with opts := f s.opts } : SessionM PUnit)
      (fun _ => OnPort s 0 s.sys) E := fun f => .modify fun s' here => by
    rw [here]
    exact ⟨rfl, fun n => by rw [Nat.zero_add], rfl⟩
  have change : ∀ setting (setter : Setter), Triple (OnPort s 0 s.sys)
      (changeSetting setting fun fd => setter.exec build.toPlatform fd)
      (fun _ => OnPort s 3 (applied setter)) E := fun setting setter => by
    have calls := @changeSetting_triple E s 0 s.sys setting
      fun fd => setter.exec build.toPlatform fd
    have flush := after_query build.toPlatform (s.env.term s.ttyFd 1).toReplies s.ttyFd .flush
      ((setter.exec build.toPlatform s.ttyFd).after s.sys)
    rw [show termFlush (s.env.term s.ttyFd (0 + 1)).toReplies s.ttyFd =
      Query.flush.exec build.toPlatform (s.env.term s.ttyFd 1).toReplies s.ttyFd from rfl,
      flush] at calls
    exact calls
  have done : ∀ {used : Nat} setter s', OnPort s used (applied setter) s' →
      s'.ttyFd = s.ttyFd ∧ s'.sys = applied setter := fun _ _ held => ⟨held.ttyFd, held.sys⟩
  have command : ∀ setting setter (f : Opts → Opts), Triple (fun s' => s' = s) (do
      modify fun s => { s with opts := f s.opts }
      changeSetting setting fun fd => setter.exec build.toPlatform fd)
      (fun _ s' => s'.ttyFd = s.ttyFd ∧ s'.sys = applied setter) E := fun setting setter f =>
    .bind (option f) fun _ => (change setting setter).weaken (fun _ => id)
      (fun _ => done setter) fun _ _ => id
  cases cmd with
  | baud rate =>
      refine .bind (option fun opts => { opts with baud := rate }) fun _ =>
        .bind (change .baud (.baudrate rate)) fun _ => .read fun s' held => ?_
      rw [held.ttyFd]
      refine .bind (onPort_triple fun _ => termGetBaudrate build.toPlatform s.ttyFd) fun _ =>
        .modify fun s' held => ?_
      have same := after_query build.toPlatform (s.env.term s.ttyFd 3).toReplies s.ttyFd
        .getBaudrate (applied (.baudrate rate))
      refine ⟨held.ttyFd, held.sys.trans ?_⟩
      rw [← TermM.after_discard]
      exact same
  | flow =>
      refine .read fun s' here => ?_
      rw [here]
      exact command .flow (.flowcntrl (flowNext s.opts.flow)) fun opts =>
        { opts with flow := flowNext s.opts.flow }
  | parity =>
      refine .read fun s' here => ?_
      rw [here]
      exact command .parity (.parity (parityNext s.opts.parity)) fun opts =>
        { opts with parity := parityNext s.opts.parity }
  | databits =>
      refine .read fun s' here => ?_
      rw [here]
      exact command .databits (.databits (bitsNext s.opts.databits)) fun opts =>
        { opts with databits := bitsNext s.opts.databits }
  | stopbits =>
      refine .read fun s' here => ?_
      rw [here]
      exact command .stopbits (.stopbits (stopbitsNext s.opts.stopbits)) fun opts =>
        { opts with stopbits := stopbitsNext s.opts.stopbits }

end Command

/-! ### What becomes of the device -/

section Effect

variable {build : Build} {orig : Termios} {accepts : Termios → Bool} {s : Session}

/-- A setter leaves what is submitted pending. -/
theorem after_setter (held : s.Managed orig) (cmd : SettingCmd) :
    let sys := ((cmd.setter s.opts).exec build.toPlatform s.ttyFd).after s.sys
    sys.world = s.sys.world ∧ sys.term.find s.ttyFd = .ok 0 ∧
      sys.term.nexttermios 0 = s.submitted build cmd := by
  have found := Manages.found held
  have pending : s.pending = s.sys.term.nexttermios 0 := by
    rw [Session.pending, Term.nextOf, found]
  dsimp only
  rw [Setter.exec_eq, Session.submitted, pending, TermM.after]
  cases change : (cmd.setter s.opts).change build.toPlatform (s.sys.term.nexttermios 0) with
  | ok t =>
      rw [run_setParameter_accepts found change]
      exact ⟨rfl, found, by simp⟩
  | error e =>
      rw [run_setParameter_refuses found change]
      exact ⟨rfl, found, rfl⟩

/-- `term_apply` gives the device what is pending, or leaves it alone. -/
theorem after_apply {sys : Sys} {fd : Int} {answers : Answers} {now : Bool} (real : 0 ≤ fd)
    (found : sys.term.find fd = .ok 0) (device : Device accepts answers) :
    ((termApply answers.toReplies fd now).after sys).world =
      if accepts (sys.term.nexttermios 0) then
        sys.world.store fd (applyWhen now) (sys.term.nexttermios 0) (sys.term.nexttermios 0)
      else sys.world := by
  have set := device.tcsetattr (sys.term.nexttermios 0)
  rw [TermM.after]
  cases takes : accepts (sys.term.nexttermios 0) with
  | false =>
      rw [takes, if_neg Bool.false_ne_true] at set
      rw [run_termApply_fails found set]
      rfl
  | true =>
      rw [takes, if_pos rfl] at set
      cases read : answers.tcgetattr with
      | false =>
          rw [run_termApply_unread found real set read]
          rfl
      | true =>
          rw [run_termApply_reads found now real set read]
          rfl

/-- A command gives the device what it submits, or leaves it alone. -/
theorem SettingCmd.exec_world (held : Attached orig (Device accepts) s) (cmd : SettingCmd) :
    ∃ s', (cmd.exec build).run s = .ok ⟨⟩ s' ∧ s'.ttyFd = s.ttyFd ∧
      s'.sys.world = if accepts (s.submitted build cmd) then
          s.sys.world.store s.ttyFd .tcsanow (s.submitted build cmd) (s.submitted build cmd)
        else s.sys.world := by
  have ran := @SettingCmd.exec_triple build (fun _ _ => False) s cmd s rfl
  cases exec : (cmd.exec build).run s with
  | error stop s' =>
      rw [exec] at ran
      exact ran.elim
  | ok _ s' =>
      rw [exec] at ran
      obtain ⟨ttyFd, sys⟩ := ran
      obtain ⟨world, found, next⟩ := after_setter held.managed cmd
      refine ⟨s', rfl, ttyFd, ?_⟩
      rw [sys, after_apply held.managed.real found (held.answering 2), next, world]
      rfl

end Effect

/-! ### Runs with settings commands -/

/-- A settings command that was executed. -/
structure Deed where
  before : Session
  cmd : SettingCmd
  after : Session

namespace Deed

variable (build : Build) (accepts : Termios → Bool) (deed : Deed)

/-- Its `term_apply` was rejected: no settings were written. -/
def Rejected : Prop := deed.after.sys.world.written = deed.before.sys.world.written

instance : Decidable deed.Rejected := inferInstanceAs (Decidable (_ = _))

/-- Where the device accepts its present settings with only the parameter of the command changed, it has
them afterwards. -/
def TakesEffect : Prop :=
  ∀ t, deed.before.target build deed.cmd = .ok t → accepts t = true → deed.after.present = t

/-- Where it accepts them, they are what the command submits, or what it has already while it rejects
what the command submits. -/
def Unspoilt : Prop :=
  ∀ t, deed.before.target build deed.cmd = .ok t → accepts t = true →
    deed.before.submitted build deed.cmd = t ∨
      accepts (deed.before.submitted build deed.cmd) = false ∧ deed.before.present = t

/-- A statement about the target of a command can be checked at the target. -/
theorem forall_target_iff {P : Termios → Prop} {target : Except TermErrno Termios} :
    (∀ t, target = .ok t → accepts t = true → P t) ↔
      ∀ t ∈ target.toOption, accepts t = true → P t := by
  cases target <;> simp [Except.toOption]

instance : Decidable (deed.TakesEffect build accepts) :=
  decidable_of_iff' _ (forall_target_iff accepts)

instance : Decidable (deed.Unspoilt build accepts) :=
  decidable_of_iff' _ (forall_target_iff accepts)

end Deed

/-- The runs from `start`, with the settings commands executed so far. -/
inductive CommandRun (build : Build) (start : Session) : List Deed → Session → Prop where
  | start : CommandRun build start [] start
  | step {deeds : List Deed} {s s' : Session} :
      CommandRun build start deeds s → Advance build s s' → CommandRun build start deeds s'
  | command {deeds : List Deed} {s s' : Session} {cmd : SettingCmd} :
      CommandRun build start deeds s → (cmd.exec build).run s = .ok ⟨⟩ s' →
      CommandRun build start (deeds ++ [⟨s, cmd, s'⟩]) s'

section Runs

variable {build : Build} {orig : Termios} {accepts : Termios → Bool} {s s' : Session}

theorem leads_settingCmd {s₀ : Session} (ok : s₀.ttyQ.Ok) (cmd : SettingCmd) :
    Leads build s₀ (cmd.exec build) := by
  cases cmd with
  | baud rate => exact leads_cmdBaud ok rate
  | flow => exact leads_cmdFlow ok
  | parity => exact leads_cmdParity ok
  | databits => exact leads_cmdBits ok
  | stopbits => exact leads_cmdStop ok

/-- What a run keeps: the port stays attached, before each command too. -/
theorem CommandRun.attached {start : Session} {deeds : List Deed}
    (run : CommandRun build start deeds s) (ok : start.ttyQ.Ok)
    (first : Attached orig (Device accepts) start) :
    (s.ttyQ.Ok ∧ Attached orig (Device accepts) s) ∧
      ∀ deed ∈ deeds, Attached orig (Device accepts) deed.before ∧
        (deed.cmd.exec build).run deed.before = .ok ⟨⟩ deed.after := by
  induction run with
  | start => exact ⟨⟨ok, first⟩, fun _ none => absurd none List.not_mem_nil⟩
  | step _ step ih => exact ⟨⟨step.ok ih.1.1, step.attached ih.1.2⟩, ih.2⟩
  | @command deeds s s' cmd _ ran ih =>
      have led := @leads_settingCmd build _ ih.1.1 cmd s .refl
      rw [ran] at led
      refine ⟨⟨led.ok ih.1.1, led.keeps Advance.attached ih.1.2⟩, fun deed inside => ?_⟩
      rcases List.mem_append.mp inside with early | late
      · exact ih.2 deed early
      · cases List.mem_singleton.mp late
        exact ⟨ih.1.2, ran⟩

/-- The settings commands that take effect are those that nothing spoils. -/
theorem takesEffect_iff {deed : Deed} (held : Attached orig (Device accepts) deed.before)
    (ran : (deed.cmd.exec build).run deed.before = .ok ⟨⟩ deed.after) :
    deed.TakesEffect build accepts ↔ deed.Unspoilt build accepts := by
  obtain ⟨s', ran', ttyFd, world⟩ := deed.cmd.exec_world held
  rw [ran] at ran'
  injection ran' with _ same
  subst same
  apply forall_congr'
  intro t
  apply imp_congr_right
  intro _
  apply imp_congr_right
  intro takes
  have present : deed.after.present =
      if accepts (deed.before.submitted build deed.cmd) then
        deed.before.submitted build deed.cmd
      else deed.before.present := by
    rw [Session.present, ttyFd, world]
    split
    · simp [World.store, World.settingsOf]
    · rfl
  rw [present]
  cases submits : accepts (deed.before.submitted build deed.cmd) with
  | true => simp
  | false =>
      have other : deed.before.submitted build deed.cmd ≠ t := by
        rintro rfl
        rw [submits] at takes
        cases takes
      simp [other]

end Runs

/-! ### The cleanup -/

/-- The settings with `HUPCL` set or not. -/
def Termios.withHup (on : Bool) (tio : Termios) : Termios :=
  if on then { tio with cCflag := tio.cCflag ||| hupcl }
  else { tio with cCflag := tio.cCflag &&& ~~~hupcl }

/-- Whether a device with these settings hangs up when it is closed. -/
def Termios.hangsUp (tio : Termios) : Bool := decide (tio.cCflag &&& hupcl ≠ 0)

@[simp] theorem hangsUp_withHup (on : Bool) (tio : Termios) : (tio.withHup on).hangsUp = on := by
  have cover : hupcl &&& ~~~hupcl = 0 := by decide
  cases on with
  | true =>
      have raised := BitMask.read_raise cover tio.cCflag
      simp only [Termios.withHup, Termios.hangsUp, if_true, raised]
      decide
  | false =>
      have lowered := BitMask.read_clear cover tio.cCflag
      simp [Termios.withHup, Termios.hangsUp, lowered]

section Cleanup

variable {build : Build} {orig : Termios} {accepts : Termios → Bool} {s : Session}

theorem leads_emptyPort {s₀ : Session} (drain : Bool) (fd : Int) :
    Leads build s₀ (emptyPort drain fd) := by
  have flush : Leads build s₀ (do
      discard <| onTerm fd fun answers => termFlush answers.toReplies fd
      if (← get).opts.flow ≠ .none then
        discard <| onTerm fd fun answers => termFakeFlush answers.toReplies fd) := by
    refine .bind (leads_query .flush).discard fun _ => .read fun s _ => ?_
    split
    · exact (leads_onTerm (.fakeFlush _) rfl fun _ _ => rfl).discard
    · exact leads_pure _
  unfold emptyPort
  dsimp only
  split
  · exact .bind (leads_query .drain).discard fun _ => flush
  · exact flush

/-- The state in which `cleanup` applies settings: no data is left for the port. -/
def Session.emptied (s : Session) (drain : Bool) : Session :=
  final ((emptyPort drain s.ttyFd).run s)

theorem run_emptied (drain : Bool) (s : Session) :
    (emptyPort drain s.ttyFd).run s = .ok ⟨⟩ (s.emptied drain) := by
  have total := emptyPort_keeps (I := fun _ => True) (E := fun _ _ => False) drain s.ttyFd
    (fun _ _ _ => trivial) s trivial
  unfold Session.emptied
  cases ran : (emptyPort drain s.ttyFd).run s with
  | error stop s' =>
      rw [ran] at total
      exact total.elim
  | ok _ s' => rfl

/-- What steps keep holds in that state too. -/
theorem emptied_keeps {I : Session → Prop} (drain : Bool)
    (step : ∀ {s s'}, Advance .cmake s s' → I s → I s') (held : I s) : I (s.emptied drain) := by
  have led := @leads_emptyPort .cmake _ drain s.ttyFd s .refl
  rw [run_emptied] at led
  exact led.keeps step held

theorem emptied_ttyFd (drain : Bool) (s : Session) : (s.emptied drain).ttyFd = s.ttyFd := by
  have fixed := emptied_keeps (I := fun s' => s'.constants = s.constants) drain
    (fun step same => step.constants.trans same) rfl
  exact congrArg Constants.ttyFd fixed

theorem after_erase_world (fd : Int) (sys : Sys) : ((termErase fd).after sys).world = sys.world := by
  unfold TermM.after
  cases found : sys.term.find fd with
  | error e => rw [run_termErase_lost found, final_error]
  | ok i => rw [run_termErase_found found, final_ok]

/-- `cleanup` gives the device what is pending, with the `HUPCL` bit that the options ask for, or leaves
it alone. -/
theorem cleanup_present (drain noreset hup : Bool) (held : Attached orig (Device accepts) s) :
    ∃ s', (cleanup drain noreset hup).run s = .ok ⟨⟩ s' ∧
      s'.sys.world.settingsOf s.ttyFd =
        if accepts ((s.emptied drain).pending.withHup (!noreset || hup)) then
          (s.emptied drain).pending.withHup (!noreset || hup)
        else (s.emptied drain).present := by
  have ran := run_emptied drain s
  have port := emptied_ttyFd drain s
  have attached := emptied_keeps drain Advance.attached held
  let s₁ := s.emptied drain
  let wanted := !noreset || hup
  let set := (termSetHupcl s₁.ttyFd wanted).after s₁.sys
  let applied := (termApply (s₁.env.term s₁.ttyFd 1).toReplies s₁.ttyFd true).after set
  have found : s₁.sys.term.find s₁.ttyFd = .ok 0 := Manages.found attached.managed
  have pending : s₁.pending = s₁.sys.term.nexttermios 0 := by
    rw [Session.pending, Term.nextOf, found]
  have hupclSet : set = { s₁.sys with term := { s₁.sys.term with
      nexttermios := Function.update s₁.sys.term.nexttermios 0 (s₁.pending.withHup wanted) } } := by
    have accepted : withBit hupcl wanted (s₁.sys.term.nexttermios 0) =
        .ok (s₁.pending.withHup wanted) := by
      rw [pending]
      rfl
    simp only [set, TermM.after, termSetHupcl, run_setParameter_accepts found accepted, final_ok]
  have world : applied.world = if accepts (s₁.pending.withHup wanted) then
      s₁.sys.world.store s₁.ttyFd .tcsanow (s₁.pending.withHup wanted) (s₁.pending.withHup wanted)
      else s₁.sys.world := by
    have found' : set.term.find s₁.ttyFd = .ok 0 := by
      rw [hupclSet]
      exact found
    have after := @after_apply _ _ _ _ true attached.managed.real found' (attached.answering 1)
    rw [show set.term.nexttermios 0 = s₁.pending.withHup wanted by rw [hupclSet]; simp,
      show set.world = s₁.sys.world by rw [hupclSet]] at after
    exact after
  have close : ∀ fd, Maintains (fun s' => s'.sys.world = applied.world) (fun _ _ => False)
      (closePort fd) := by
    intro fd
    unfold closePort
    refine .bind (Q := fun _ s' => s'.sys.world = applied.world) ?_ fun _ => .modify fun _ => id
    exact fun s' same => (after_erase_world fd s'.sys).trans same
  have release : Triple (fun s' => s' = s) (releasePort drain noreset hup s.ttyFd)
      (fun _ s' => s'.sys.world = applied.world) fun _ _ => False := by
    unfold releasePort
    refine .bind (Q := fun _ => OnPort s₁ 0 s₁.sys) ?_ fun _ => ?_
    · rintro _ rfl
      rw [ran]
      exact ⟨rfl, fun n => by rw [Nat.zero_add], rfl⟩
    rw [← port]
    refine .bind (discardPort_triple fun _ => termSetHupcl s₁.ttyFd wanted) fun _ =>
      .bind (Q := fun _ => OnPort s₁ 2 applied) ((applyPort_triple true).map fun _ _ => id)
        fun _ => ?_
    split
    · exact (close _).pre fun s' held => congrArg Sys.world held.sys
    · exact .pure fun s' held => congrArg Sys.world held.sys
  have whole : Triple (fun s' => s' = s) (cleanup drain noreset hup)
      (fun _ s' => s'.sys.world = applied.world) fun _ _ => False := by
    unfold cleanup
    refine .read fun s' here => ?_
    rw [here]
    dsimp only
    rw [if_pos held.managed.real]
    exact .bind release fun _ => .modify fun _ => id
  have result := whole s rfl
  cases exec : (cleanup drain noreset hup).run s with
  | error stop s' =>
      rw [exec] at result
      exact result.elim
  | ok _ s' =>
      rw [exec] at result
      refine ⟨s', rfl, ?_⟩
      rw [result, world, ← port]
      split
      · exact Function.update_self ..
      · rfl

end Cleanup

/-! ### The claim, and when it holds -/

/-- What comes after a rejected settings command: the commands for other parameters, and the `HUPCL` bit
that `cleanup` leaves where the device accepts its present settings with the bit asked for. -/
structure Unpoisoned (build : Build) (accepts : Termios → Bool) (deeds : List Deed) (s : Session) :
    Prop where
  later : deeds.Pairwise fun first later =>
    first.Rejected → first.cmd.setting ≠ later.cmd.setting → later.TakesEffect build accepts
  cleanup : (∃ first ∈ deeds, first.Rejected) → ∀ drain noreset hup,
    accepts ((s.emptied drain).present.withHup (!noreset || hup)) = true →
    ∀ s', (cleanup drain noreset hup).run s = .ok ⟨⟩ s' →
      (s'.sys.world.settingsOf s.ttyFd).hangsUp = (!noreset || hup)

/-- The same of what is pending: the later commands are not spoilt by it, and where `cleanup` applies it
with the bit asked for the device accepts that, or has the bit already. -/
structure UnspoiltRun (build : Build) (accepts : Termios → Bool) (deeds : List Deed) (s : Session) :
    Prop where
  later : deeds.Pairwise fun first later =>
    first.Rejected → first.cmd.setting ≠ later.cmd.setting → later.Unspoilt build accepts
  cleanup : (∃ first ∈ deeds, first.Rejected) → ∀ drain noreset hup,
    accepts ((s.emptied drain).present.withHup (!noreset || hup)) = true →
      accepts ((s.emptied drain).pending.withHup (!noreset || hup)) = true ∨
        (s.emptied drain).present.hangsUp = (!noreset || hup)

/-- In a run on a device that accepts some settings and rejects the others, a rejected settings command
does not poison what comes later exactly if nothing that it left pending spoils that. -/
theorem rejected_settings_iff {build : Build} {accepts : Termios → Bool} {start s₀ s : Session}
    {n : Nat} {deeds : List Deed} (fresh : start.sys.term = Term.static)
    (static : start.ttyQ = .static)
    (device : ∀ n, Device accepts (start.env.term start.env.openPort n))
    (reached : (upTo build n).run start = .ok ⟨⟩ s₀) (run : CommandRun build s₀ deeds s) :
    Unpoisoned build accepts deeds s ↔ UnspoiltRun build accepts deeds s := by
  obtain ⟨ok, first⟩ := upTo_attached fresh static device reached
  obtain ⟨⟨-, held⟩, commands⟩ := run.attached ok first
  have pairs : (deeds.Pairwise fun first later =>
        first.Rejected → first.cmd.setting ≠ later.cmd.setting →
          later.TakesEffect build accepts) ↔
      deeds.Pairwise fun first later =>
        first.Rejected → first.cmd.setting ≠ later.cmd.setting →
          later.Unspoilt build accepts := by
    apply List.Pairwise.iff_of_mem
    intro first later _ inside
    obtain ⟨before, ran⟩ := commands later inside
    rw [takesEffect_iff before ran]
  have released : ∀ drain noreset hup,
      (∀ s', (cleanup drain noreset hup).run s = .ok ⟨⟩ s' →
        (s'.sys.world.settingsOf s.ttyFd).hangsUp = (!noreset || hup)) ↔
      (accepts ((s.emptied drain).pending.withHup (!noreset || hup)) = true ∨
        (s.emptied drain).present.hangsUp = (!noreset || hup)) := by
    intro drain noreset hup
    obtain ⟨s', ran, settings⟩ := cleanup_present drain noreset hup held
    rw [ran]
    simp only [EStateM.Result.ok.injEq, true_and, forall_eq']
    rw [settings]
    cases accepts ((s.emptied drain).pending.withHup (!noreset || hup)) with
    | true => simp
    | false => simp
  constructor
  · rintro ⟨later, cleanup⟩
    exact ⟨pairs.mp later, fun poisoned drain noreset hup takes =>
      (released drain noreset hup).mp (cleanup poisoned drain noreset hup takes)⟩
  · rintro ⟨later, cleanup⟩
    exact ⟨pairs.mpr later, fun poisoned drain noreset hup takes =>
      (released drain noreset hup).mpr (cleanup poisoned drain noreset hup takes)⟩

/-! ### A device without parity -/

/-- It accepts the settings without a parity bit. -/
def noParityBit (tio : Termios) : Bool := decide (tio.cCflag &&& parenb = 0)

/-- The answers of such a device. -/
def Answers.withoutParity : Answers where
  toReplies := { allSucceed with
    tcsetattr := fun t => if noParityBit t then some t else none
    restore := fun t => if noParityBit t then some t else none }
  ofSlot := fun _ => allSucceed

/-- A system with such a port, in which nothing is ready. -/
def Env.withoutParity : Env :=
  { Env.works [] [] [] (fun _ => false) fun _ => false with
    term := fun _ => Stream'.const .withoutParity }

/-- Commands in a row, as they are executed. -/
def executed (build : Build) : List SettingCmd → SessionM (List Deed)
  | [] => return []
  | cmd :: rest => do
      let before ← get
      cmd.exec build
      let after ← get
      return ⟨before, cmd, after⟩ :: (← executed build rest)

theorem CommandRun.executed {build : Build} {start : Session} {cmds : List SettingCmd} :
    ∀ {past deeds : List Deed} {s s' : Session}, CommandRun build start past s →
      (executed build cmds).run s = .ok deeds s' → CommandRun build start (past ++ deeds) s' := by
  induction cmds with
  | nil =>
      intro past deeds s s' run ran
      injection ran with none same
      subst none same
      rwa [List.append_nil]
  | cons cmd rest ih =>
      intro past deeds s s' run ran
      unfold Ppcom.executed at ran
      simp only [EStateM.run_bind, EStateM.run_get] at ran
      cases exec : (cmd.exec build).run s with
      | error stop s₁ =>
          rw [exec] at ran
          cases ran
      | ok _ s₁ =>
          rw [exec] at ran
          simp only [] at ran
          cases later : (Ppcom.executed build rest).run s₁ with
          | error stop s₂ =>
              rw [later] at ran
              cases ran
          | ok more s₂ =>
              rw [later] at ran
              injection ran with all same
              subst all same
              have whole := ih (run.command exec) later
              rwa [List.append_assoc] at whole

/-- `main` up to `loop`, and then the commands. -/
def session (cmds : List SettingCmd) : SessionM (Session × List Deed) := do
  upTo .cmake 0
  let s₀ ← get
  return (s₀, ← executed .cmake cmds)

theorem session_parts {cmds : List SettingCmd} {start s₀ s : Session} {deeds : List Deed}
    (ran : (session cmds).run start = .ok (s₀, deeds) s) :
    (upTo .cmake 0).run start = .ok ⟨⟩ s₀ ∧ CommandRun .cmake s₀ deeds s := by
  unfold session at ran
  rw [EStateM.run_bind] at ran
  cases top : (upTo .cmake 0).run start with
  | error stop s =>
      rw [top] at ran
      cases ran
  | ok _ a =>
      rw [top] at ran
      simp only [EStateM.run_bind, EStateM.run_get] at ran
      cases rest : (executed .cmake cmds).run a with
      | error stop s =>
          rw [rest] at ran
          cases ran
      | ok more b =>
          rw [rest] at ran
          injection ran with pair same
          injection pair with first second
          subst first second same
          exact ⟨rfl, by simpa using CommandRun.executed .start rest⟩

theorem device_withoutParity (n : Nat) :
    Device noParityBit (Env.withoutParity.term Env.withoutParity.openPort n) :=
  ⟨fun _ => rfl, fun _ => rfl⟩

/-- On a device without parity the parity comes back to none, and then the flow control is changed. -/
theorem rejected_settings_settled :
    ∃ s₀ s deeds,
      (upTo .cmake 0).run (.start .default .fresh .withoutParity 9) = .ok ⟨⟩ s₀ ∧
      CommandRun .cmake s₀ deeds s ∧ deeds.length = 4 ∧
      Unpoisoned .cmake noParityBit deeds s := by
  have checked : (returned ((session [.parity, .parity, .parity, .flow]).run
      (.start .default .fresh .withoutParity 9))).map (fun t =>
        (t.1.2.length, decide (t.1.2.Pairwise fun first later => first.Rejected →
          first.cmd.setting ≠ later.cmd.setting → later.Unspoilt .cmake noParityBit),
          decide (∀ drain noreset hup : Bool,
            noParityBit ((t.2.emptied drain).pending.withHup (!noreset || hup)) = true))) =
      some (4, true, true) := by
    decide +kernel
  obtain ⟨⟨⟨s₀, deeds⟩, s⟩, ret, values⟩ := Option.map_eq_some_iff.mp checked
  obtain ⟨top, run⟩ := session_parts (eq_ok_of_returned ret)
  simp only [Prod.mk.injEq, decide_eq_true_eq] at values
  obtain ⟨four, later, pending⟩ := values
  refine ⟨s₀, s, deeds, top, run, four, ?_⟩
  exact (rejected_settings_iff rfl rfl device_withoutParity top run).mpr
    ⟨later, fun _ drain noreset hup _ => .inl (pending drain noreset hup)⟩

/-- On a device without parity the flow control cannot be changed any more once the parity was asked for,
though the device has flow control. -/
theorem rejected_settings_poison :
    ∃ s₀ s deeds,
      (∀ n, Device noParityBit (Env.withoutParity.term Env.withoutParity.openPort n)) ∧
      (upTo .cmake 0).run (.start .default .fresh .withoutParity 9) = .ok ⟨⟩ s₀ ∧
      CommandRun .cmake s₀ deeds s ∧ deeds.map Deed.cmd = [.parity, .flow] ∧
      ¬ Unpoisoned .cmake noParityBit deeds s := by
  have checked : (returned ((session [.parity, .flow]).run
      (.start .default .fresh .withoutParity 9))).map (fun t =>
        (t.1.2.map Deed.cmd, decide (t.1.2.Pairwise fun first later => first.Rejected →
          first.cmd.setting ≠ later.cmd.setting → later.TakesEffect .cmake noParityBit))) =
      some ([.parity, .flow], false) := by
    decide +kernel
  obtain ⟨⟨⟨s₀, deeds⟩, s⟩, ret, values⟩ := Option.map_eq_some_iff.mp checked
  obtain ⟨top, run⟩ := session_parts (eq_ok_of_returned ret)
  simp only [Prod.mk.injEq, decide_eq_false_iff_not] at values
  exact ⟨s₀, s, deeds, device_withoutParity, top, run, values.1,
    fun unpoisoned => values.2 unpoisoned.later⟩

end Ppcom
