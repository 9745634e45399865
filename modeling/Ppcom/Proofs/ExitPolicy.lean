/-
Module: Ppcom.Proofs.ExitPolicy
Purpose: The settings that the port has once the process has exited, by whatever way it came to that:
  `cleanup` applies what is pending with the `HUPCL` bit that the options ask for, which gives the
  original settings the same bit, and the exit function writes those back unless the port was erased.
Trusted boundary: none
Main exports: Exact, Termios.AgreeButHup, lastApplied, ExitPolicy, exit_policy
-/
import Ppcom.Proofs.Process
import Ppcom.Proofs.RejectedSettings

namespace Ppcom

open Program

/-! ### Devices behind descriptors -/

/-- The descriptors are open on the same devices. -/
def SameDevices (s s' : Sys) : Prop := s'.world.device = s.world.device

instance : Std.Refl SameDevices where
  refl _ := rfl

instance : IsTrans Sys SameDevices where
  trans _ _ _ first second := Eq.trans second first

theorem setFd_sameDevices (i : Slot) (fd : Int) : Keeps SameDevices (setFd i fd) :=
  .modify fun _ => rfl

theorem setOrig_sameDevices (i : Slot) (t : Termios) : Keeps SameDevices (setOrig i t) :=
  .modify fun _ => rfl

theorem sameDevices_rules : CopyRules SameDevices where
  store _ _ _ _ _ := rfl
  curr _ _ := .modify fun _ => rfl
  next _ _ := .modify fun _ => rfl

section Calls

variable (plat : Platform) (answers : Answers)

theorem termAdd_sameDevices (fd : Int) : Keeps SameDevices (termAdd answers.toReplies fd) := by
  unfold termAdd
  refine .bind .get fun s => .refuse <| .guard <| .bind ?_ fun i =>
    .bind (keeps_tcgetattr _ _) fun read => ?_
  · unfold termFindNextFree
    refine .bind .get fun s => ?_
    cases s.term.findNextFree with
    | ok i => exact .pure i
    | error e => exact .throw e
  · cases read with
    | none => exact .throw _
    | some t =>
        exact .bind (setOrig_sameDevices i t) fun _ => .bind (sameDevices_rules.curr i t) fun _ =>
          .bind (sameDevices_rules.next i t) fun _ => .bind (setFd_sameDevices i fd) fun _ => .pure _

theorem termApply_sameDevices (fd : Int) (now : Bool) :
    Keeps SameDevices (termApply answers.toReplies fd now) := by
  unfold termApply
  refine .bind (keeps_termFind fd) fun i => .bind .get fun s =>
    .bind (sameDevices_rules.tcsetattr _ _ _ _) fun set => .guard <|
      .bind (keeps_tcgetattr _ _) fun read => ?_
  cases read with
  | none => exact .throw _
  | some t =>
      exact .bind (sameDevices_rules.next i t) fun _ => .bind (sameDevices_rules.curr i t) fun _ =>
        .bind .get fun _ => setOrig_sameDevices i _

/-- No call on a descriptor gives it another device. -/
theorem call_sameDevices {fd : Int} {call : Call} (on : call.On fd) :
    Keeps SameDevices (call.exec plat answers) := by
  cases call with
  | refresh fd => exact sameDevices_rules.termRefresh answers.toReplies fd
  | apply fd now => exact termApply_sameDevices answers fd now
  | setOne setter fd => exact sameDevices_rules.setter plat fd setter
  | fakeFlush fd => exact sameDevices_rules.termFakeFlush answers.toReplies fd
  | query which fd =>
      intro s
      have same := after_query plat answers.toReplies fd which s
      exact congrArg (fun s : Sys => s.world.device) same
  | _ => cases on

theorem device_called {fd : Int} {call : Call} (on : call.On fd) (s : Sys) :
    ((call.exec plat answers).after s).world.device = s.world.device :=
  call_sameDevices plat answers on s

end Calls

theorem Advance.sameDevices {build : Build} {s s' : Session} (step : Advance build s s') :
    s'.sys.world.device = s.sys.world.device := by
  cases step with
  | called on => exact device_called build.toPlatform _ on s.sys
  | @applied fd now ok =>
      have on : (Call.apply fd now).On fd := rfl
      exact device_called build.toPlatform _ on s.sys
  | joined =>
      have same := (termAdd_sameDevices (s.env.term sti).head sti).discard
      exact same s.sys
  | _ => rfl

/-! ### Settings but for `HUPCL` -/

/-- The settings differ in `HUPCL` at most. -/
def Termios.AgreeButHup (t t' : Termios) : Prop := t.withHup false = t'.withHup false

theorem agreeButHup_withHupcl (orig : Termios) (h : Word) : (withHupcl orig h).AgreeButHup orig := by
  have cleared : (orig.cCflag &&& ~~~hupcl ||| h &&& hupcl) &&& ~~~hupcl =
      orig.cCflag &&& ~~~hupcl := by
    apply BitVec.eq_of_getLsbD_eq
    intro k inside
    simp only [BitVec.getLsbD_or, BitVec.getLsbD_and, BitVec.getLsbD_not, inside]
    cases orig.cCflag.getLsbD k <;> cases hupcl.getLsbD k <;> simp
  simp [Termios.AgreeButHup, Termios.withHup, withHupcl, cleared]

theorem hangsUp_withHupcl (orig applied : Termios) :
    (withHupcl orig applied.cCflag).hangsUp = applied.hangsUp := by
  have read : (orig.cCflag &&& ~~~hupcl ||| applied.cCflag &&& hupcl) &&& hupcl =
      applied.cCflag &&& hupcl := by
    apply BitVec.eq_of_getLsbD_eq
    intro k inside
    simp only [BitVec.getLsbD_or, BitVec.getLsbD_and, BitVec.getLsbD_not, inside]
    cases orig.cCflag.getLsbD k <;> cases hupcl.getLsbD k <;> simp
  simp only [Termios.hangsUp, withHupcl, read]

/-! ### The exit function -/

/-- A terminal that stores exactly what it is given, and is read. -/
structure Exact (answers : Answers) : Prop where
  tcsetattr : ∀ t, answers.tcsetattr t = some t
  tcgetattr : answers.tcgetattr = true

section Resets

variable {replies : Slot → Replies} {term : Term} {slots : List Slot} {w : World} {i : Slot}
  {dev : Nat}

theorem resetWorld_device : (resetWorld replies term w i).device = w.device := by
  unfold resetWorld
  split
  · rfl
  · cases (replies i).tcsetattr (term.origtermios i) <;> rfl

theorem resetWorlds_device : (slots.foldl (resetWorld replies term) w).device = w.device := by
  induction slots generalizing w with
  | nil => rfl
  | cons i rest ih => rw [List.foldl_cons, ih, resetWorld_device]

/-- The reset of a slot leaves the settings of another device alone. -/
theorem resetWorld_other (other : term.fd i < 0 ∨ w.device (term.fd i) ≠ dev) :
    (resetWorld replies term w i).settings dev = w.settings dev := by
  unfold resetWorld
  split
  · rfl
  · next real =>
      have differs := other.resolve_left real
      cases (replies i).tcsetattr (term.origtermios i) with
      | none => rfl
      | some t => exact Function.update_of_ne differs.symm ..

/-- So do the resets of several such slots. -/
theorem resetWorlds_other (others : ∀ i ∈ slots, term.fd i < 0 ∨ w.device (term.fd i) ≠ dev) :
    (slots.foldl (resetWorld replies term) w).settings dev = w.settings dev := by
  induction slots generalizing w with
  | nil => rfl
  | cons i rest ih =>
      rw [List.foldl_cons, ih, resetWorld_other (others i List.mem_cons_self)]
      intro j inside
      rw [resetWorld_device]
      exact others j (List.mem_cons_of_mem _ inside)

/-- The reset of a slot gives its device the original settings. -/
theorem resetWorld_self {t : Termios} (real : 0 ≤ term.fd i)
    (takes : (replies i).tcsetattr (term.origtermios i) = some t) :
    (resetWorld replies term w i).settings (w.device (term.fd i)) = t := by
  unfold resetWorld
  rw [if_neg (not_lt.mpr real), takes]
  exact Function.update_self ..

end Resets

/-! ### The cleanup -/

/-- The last `term_apply` that succeeded: its descriptor, and the settings it applied. -/
def lastApplied (trace : List Event) : Option (Int × Termios) :=
  (trace.filterMap fun
    | .applied fd tio => some (fd, tio)
    | _ => none).getLast?

theorem lastApplied_append (trace : List Event) (fd : Int) (tio : Termios) :
    lastApplied (trace ++ [.applied fd tio]) = some (fd, tio) := by
  simp [lastApplied]

/-- The framework manages the descriptor `port`, which is open on one device throughout. -/
structure Held (port : Int) (orig : Termios) (device : Int → Nat) (s : Session) : Prop where
  managed : Manages s.sys port orig
  answers : ∀ n, Exact (s.env.term port n)
  device : s.sys.world.device = device
  ttyFd : s.ttyFd = port

/-- Its next `term_apply` applies `tio`. -/
structure Ready (port : Int) (orig : Termios) (device : Int → Nat) (tio : Termios) (s : Session) :
    Prop extends Held port orig device s where
  next : s.sys.term.nexttermios 0 = tio

/-- Its last `term_apply` has applied `tio`. -/
structure Applied (port : Int) (orig : Termios) (device : Int → Nat) (tio : Termios)
    (s : Session) : Prop extends Held port orig device s where
  settings : s.sys.world.settingsOf port = tio
  original : s.sys.term.origtermios 0 = withHupcl orig tio.cCflag
  last : lastApplied s.trace = some (port, tio)

section Cleanup

variable {port : Int} {orig tio : Termios} {device : Int → Nat} {s : Session}
  {E : Stop → Session → Prop}

theorem Advance.held {build : Build} {s s' : Session} (step : Advance build s s')
    (held : Held port orig device s) : Held port orig device s' := by
  have same : s'.ttyFd = s.ttyFd := congrArg Constants.ttyFd step.constants
  have attached : Attached orig Exact s :=
    ⟨by rw [Session.Managed, held.ttyFd]; exact held.managed,
      by rw [Session.Answering, held.ttyFd]; exact held.answers⟩
  have next := step.attached attached
  rw [held.ttyFd] at same
  refine ⟨?_, ?_, step.sameDevices.trans held.device, same⟩
  · rw [← same]
    exact next.managed
  · rw [← same]
    exact next.answering

/-- `term_set_hupcl` changes what is applied next. -/
theorem ready_setHupcl (on : Bool) :
    Triple (Held port orig device) (discard <| onTerm port fun _ => termSetHupcl port on)
      (fun _ s => ∃ tio, tio.hangsUp = on ∧ Ready port orig device tio s) E := by
  intro s held
  have step : Advance .cmake s (s.called Build.cmake.toPlatform port (.setOne (.hupcl on) port)) :=
    .called s rfl
  have kept := step.held held
  have found := held.managed.found
  have accepted : withBit hupcl on (s.sys.term.nexttermios 0) =
      .ok ((s.sys.term.nexttermios 0).withHup on) := rfl
  refine ⟨(s.sys.term.nexttermios 0).withHup on, hangsUp_withHup on _, kept, ?_⟩
  change ((termSetHupcl port on).after s.sys).term.nexttermios 0 = _
  rw [TermM.after, termSetHupcl, run_setParameter_accepts found accepted, final_ok]
  simp

/-- `term_apply` as `ppcom.cpp` calls it, where it succeeds. -/
theorem run_applyTerm {fd : Int} {now : Bool} {sys : Sys}
    (ran : (termApply (s.env.term fd).head.toReplies fd now).run s.sys = .ok () sys) :
    (applyTerm fd now).run s = .ok (.ok ()) { s with
      sys := sys
      env := { s.env with term := Function.update s.env.term fd (s.env.term fd).tail }
      trace := s.trace ++ [.applied fd (s.sys.term.nextOf fd)] } := by
  have ok : (termApply (s.env.term fd).head.toReplies fd now).outcome s.sys = .ok () := by
    rw [TermM.outcome, ran]
  have after : (termApply (s.env.term fd).head.toReplies fd now).after s.sys = sys := by
    rw [TermM.after, ran, final_ok]
  simp only [applyTerm, onTerm, emit, EStateM.run_bind, EStateM.run_get, EStateM.run_set,
    EStateM.run_pure, ok, after]
  rfl

/-- On such a device `term_apply` succeeds. -/
theorem applied_applyTerm (now : Bool) :
    Triple (Ready port orig device tio) (applyTerm port now)
      (fun _ => Applied port orig device tio) E := by
  intro s ready
  have found := ready.managed.found
  have answers := ready.answers 0
  have ran := run_termApply_reads found now ready.managed.real (answers.tcsetattr _)
    answers.tcgetattr
  rw [ready.next] at ran
  have whole := run_applyTerm ran
  have next : s.sys.term.nextOf port = tio := by
    rw [Term.nextOf, found]
    exact ready.next
  rw [next] at whole
  obtain ⟨h, orig⟩ := ready.managed.orig
  rw [whole]
  refine ⟨⟨?_, fun n => answering_called ready.answers port n, ready.device, ready.ttyFd⟩, ?_, ?_,
    lastApplied_append _ _ _⟩
  · exact ⟨ready.managed.init, ready.managed.real, ready.managed.port, ready.managed.others,
      tio.cCflag, by simp [orig, copyHupcl_withHupcl]⟩
  · simp [World.settingsOf, World.store]
  · simp [orig, copyHupcl_withHupcl]

/-- What `cleanup` leaves. -/
structure Cleaned (port : Int) (orig : Termios) (device : Int → Nat) (noreset hup : Bool)
    (s : Session) : Prop where
  init : s.sys.term.init = true
  answers : ∀ n, Exact (s.env.term port n)
  device : s.sys.world.device = device
  others : ∀ i, i ≠ 0 → s.sys.term.fd i = -1 ∨ s.sys.term.fd i = sti
  applied : ∃ tio, lastApplied s.trace = some (port, tio) ∧ tio.hangsUp = (!noreset || hup) ∧
    s.sys.world.settingsOf port = tio ∧
    if noreset then s.sys.term.fd 0 = -1
    else s.sys.term.fd 0 = port ∧ s.sys.term.origtermios 0 = withHupcl orig tio.cCflag

theorem closed_closePort {hup : Bool} (hangs : tio.hangsUp = (!true || hup))
    (applied : Applied port orig device tio s) :
    ∃ s', (closePort port).run s = .ok ⟨⟩ s' ∧ Cleaned port orig device true hup s' := by
  have found := applied.managed.found
  let sys : Sys := { s.sys with term := { s.sys.term with
    fd := Function.update s.sys.term.fd 0 (-1) } }
  have erased : (termErase port).after s.sys = sys := by
    rw [TermM.after, run_termErase_found found, final_ok]
  refine ⟨{ s with
    sys := sys
    env := { s.env with term := Function.update s.env.term port (s.env.term port).tail }
    ttyFd := -1 }, ?_, ?_⟩
  · rw [← erased]
    rfl
  · refine ⟨applied.managed.init, fun n => answering_called applied.answers port n, applied.device,
      fun i other => ?_, tio, applied.last, hangs, applied.settings, ?_⟩
    · simpa [sys, other] using (applied.managed.others i other).imp_right And.left
    · simp [sys]

/-- Whatever the port is like before it, `cleanup` applies settings with the `HUPCL` bit that is asked
for, and takes the port out of the framework where it is not to be reset. -/
theorem cleaned_cleanup (drain noreset hup : Bool) (real : 0 ≤ port) :
    Triple (Held port orig device) (cleanup drain noreset hup)
      (fun _ => Cleaned port orig device noreset hup) E := by
  have empty : Maintains (Held port orig device) E (emptyPort drain port) := by
    intro s held
    have ran := run_emptied drain s
    rw [held.ttyFd] at ran
    rw [ran]
    exact emptied_keeps drain Advance.held held
  have apply : Triple (fun s => ∃ tio, tio.hangsUp = (!noreset || hup) ∧
        Ready port orig device tio s) (discard <| applyTerm port true)
      (fun _ s => ∃ tio, tio.hangsUp = (!noreset || hup) ∧ Applied port orig device tio s) E := by
    rintro s ⟨tio, hangs, ready⟩
    exact (applied_applyTerm true).map (fun _ s applied => ⟨tio, hangs, applied⟩) s ready
  have release : Triple (Held port orig device) (releasePort drain noreset hup port)
      (fun _ => Cleaned port orig device noreset hup) E := by
    refine .bind empty fun _ => .bind (ready_setHupcl _) fun _ => .bind apply fun _ => ?_
    split
    · next erased =>
        subst erased
        rintro s ⟨tio, hangs, applied⟩
        obtain ⟨s', ran, cleaned⟩ := closed_closePort hangs applied
        rw [ran]
        exact cleaned
    · next kept =>
        apply Triple.pure
        rintro s ⟨tio, hangs, applied⟩
        refine ⟨applied.managed.init, applied.answers, applied.device, fun i other =>
          (applied.managed.others i other).imp_right And.left, tio, applied.last, hangs,
          applied.settings, ?_⟩
        rw [if_neg kept]
        exact ⟨applied.managed.port, applied.original⟩
  unfold cleanup
  refine .read fun s held => ?_
  rw [held.ttyFd]
  dsimp only
  rw [if_pos real]
  exact .bind release fun _ => .modify fun s cleaned =>
    ⟨cleaned.init, cleaned.answers, cleaned.device, cleaned.others, cleaned.applied⟩

/-- What the exit function makes of the settings of the port. -/
theorem settings_exitProcess {noreset hup : Bool} (real : 0 ≤ port)
    (apart : device sti ≠ device port) (cleaned : Cleaned port orig device noreset hup s) :
    ∃ s' tio, exitProcess.run s = .ok ⟨⟩ s' ∧ s'.opts = s.opts ∧
      lastApplied s'.trace = some (port, tio) ∧ tio.hangsUp = (!noreset || hup) ∧
      s'.sys.world.settingsOf port = if noreset then tio else withHupcl orig tio.cCflag := by
  obtain ⟨tio, last, hangs, settings, first⟩ := cleaned.applied
  let replies := fun i => (s.env.term (s.sys.term.fd i)).head.toReplies
  let world := (List.finRange maxTerms).foldl (resetWorld replies s.sys.term) s.sys.world
  have exits : exitProcess.run s = .ok ⟨⟩ { s with
      sys := ⟨{ s.sys.term with fd := fun _ => -1 }, world⟩ } := by
    have after : (termExitfunc replies).after s.sys =
        ⟨{ s.sys.term with fd := fun _ => -1 }, world⟩ := by
      rw [TermM.after, run_termExitfunc cleaned.init, final_ok]
    rw [← after]
    rfl
  refine ⟨_, tio, exits, rfl, last, hangs, ?_⟩
  have parts : world = ((List.finRange 15).map Fin.succ).foldl (resetWorld replies s.sys.term)
      (resetWorld replies s.sys.term s.sys.world 0) := by
    simp only [world, maxTerms, List.finRange_succ, List.foldl_cons]
  have others : world.settings (device port) =
      (resetWorld replies s.sys.term s.sys.world 0).settings (device port) := by
    rw [parts]
    apply resetWorlds_other
    intro i inside
    obtain ⟨j, _, rfl⟩ := List.mem_map.mp inside
    rw [resetWorld_device, cleaned.device]
    rcases cleaned.others j.succ (Fin.succ_ne_zero j) with free | stdin
    · exact .inl (by omega)
    · rw [stdin]
      exact .inr apart
  have same : world.device = device := resetWorlds_device.trans cleaned.device
  change world.settings (world.device port) = _
  rw [same, others]
  split at first
  · next erased =>
      rw [if_pos erased, resetWorld_other (.inl (by omega)), ← cleaned.device]
      exact settings
  · next kept =>
      obtain ⟨is, original⟩ := first
      rw [if_neg kept, ← original, ← cleaned.device]
      have answers : (replies 0).tcsetattr (s.sys.term.origtermios 0) =
          some (s.sys.term.origtermios 0) := by
        simp only [replies, is]
        exact (cleaned.answers 0).tcsetattr _
      have own := resetWorld_self (w := s.sys.world) (i := 0) (by rw [is]; exact real) answers
      rwa [is] at own

end Cleanup

/-! ### Every way of ending -/

/-- `main` from where the port was added. -/
def afterAdded (build : Build) : SessionM Int := do
  startUp build
  let ler ← loop build
  terminate ler

theorem runMain_added (build : Build) :
    runMain build = (do
      untilAdded build
      afterAdded build) := by
  simp only [runMain, untilAdded, afterAdded, bind_assoc]

section Ends

variable {build : Build} {port : Int} {orig : Termios} {device : Int → Nat}
  {E : Stop → Session → Prop}

theorem held_rules (build : Build) (port : Int) (orig : Termios) (device : Int → Nat) :
    RunRules build (Held port orig device) fun _ => Held port orig device where
  step := Advance.held
  halt last held := by
    cases last <;> exact ⟨held.managed, held.answers, held.device, held.ttyFd⟩
  empty _ held := ⟨held.managed, held.answers, held.device, held.ttyFd⟩
  enter held := ⟨held.managed, held.answers, held.device, held.ttyFd⟩

/-- The options are those of the end. -/
def CleanedByOpts (port : Int) (orig : Termios) (device : Int → Nat) (s : Session) : Prop :=
  Cleaned port orig device s.opts.noreset s.opts.hangup s

theorem cleanedByOpts (drain : Bool) (real : 0 ≤ port) (opts : Opts) :
    Triple (fun s => s.opts = opts ∧ Held port orig device s)
      (cleanup drain opts.noreset opts.hangup) (fun _ => CleanedByOpts port orig device) E := by
  have cleaned : Triple (Held port orig device) (cleanup drain opts.noreset opts.hangup)
      (fun _ => Cleaned port orig device opts.noreset opts.hangup) E :=
    cleaned_cleanup drain _ _ real
  have keeps := cleanup_keeps (P := fun o => o.noreset = opts.noreset ∧ o.hangup = opts.hangup)
    (E := E) id drain opts.noreset opts.hangup
  refine ((cleaned.pre fun _ => And.right).and (keeps.pre fun s same => ?_)).weaken (fun _ => id)
    ?_ fun _ _ => And.left
  · rw [same.1]
    exact ⟨rfl, rfl⟩
  · rintro _ s ⟨cleaned, noreset, hangup⟩
    unfold CleanedByOpts
    rwa [noreset, hangup]

/-- Once the port was added `main` returns with everything cleaned up, or is left where that is still to
be done. -/
theorem afterAdded_triple (real : 0 ≤ port) :
    Triple (fun s => s.ttyQ = .static ∧ Held port orig device s) (afterAdded build)
      (fun _ => CleanedByOpts port orig device) fun _ => Held port orig device := by
  have rules := held_rules build port orig device
  refine .bind rules.startUp fun _ => .bind rules.loop fun ler => ?_
  unfold terminate
  refine .bind_get fun s held => .bind ?_ fun _ => .pure fun _ => id
  exact (cleanedByOpts _ real s.opts).pre fun s' here => ⟨by rw [here.1], here.2⟩

end Ends

/-- What is promised of the settings that the port has when the process has exited. -/
structure ExitPolicy (port : Int) (added s : Session) : Prop where
  hangup : (s.sys.world.settingsOf port).hangsUp = (!s.opts.noreset || s.opts.hangup)
  restored : s.opts.noreset = false →
    (s.sys.world.settingsOf port).AgreeButHup (added.sys.world.settingsOf port)
  kept : s.opts.noreset = true → ∃ tio, lastApplied s.trace = some (port, tio) ∧
    (s.sys.world.settingsOf port).AgreeButHup tio

/-- The exit function ends what was cleaned up as promised. -/
theorem exit_promised {port : Int} {device : Int → Nat} {added : Session} (real : 0 ≤ port)
    (apart : device sti ≠ device port) (xcode : Int) {E : Stop → Session → Prop} :
    Triple (CleanedByOpts port (added.sys.world.settingsOf port) device) (do
      exitProcess
      return xcode) (fun _ => ExitPolicy port added) E := by
  refine .bind (Q := fun _ => ExitPolicy port added) ?_ fun _ => .pure fun _ => id
  intro s cleaned
  obtain ⟨s', tio, exits, opts, last, hangs, settings⟩ := settings_exitProcess real apart cleaned
  rw [exits]
  change ExitPolicy port added s'
  rw [← opts] at hangs settings
  refine ⟨?_, fun reset => ?_, fun kept => ⟨tio, last, ?_⟩⟩
  · rw [settings]
    split
    · exact hangs
    · rw [hangsUp_withHupcl]
      exact hangs
  · rw [settings, reset, if_neg Bool.false_ne_true]
    exact agreeButHup_withHupcl _ _
  · rw [settings, if_pos kept]
    rfl

/-- `main` that has added the port and comes to the exit of the process leaves the port as promised. -/
theorem main_exits_promised {build : Build} {opts : Opts} {world : World} {env : Env} {budget : Nat}
    {added s : Session} {xcode : Int} (port : ∀ n, Exact (env.term env.openPort n))
    (apart : world.device sti ≠ world.device env.openPort)
    (adds : (untilAdded build).run (.start opts world env budget) = .ok ⟨⟩ added)
    (exits : (main build).run (.start opts world env budget) = .ok xcode s) :
    ExitPolicy env.openPort added s := by
  have entry := @untilAdded_triple build (.start opts world env budget) Exact rfl port _ rfl
  rw [adds] at entry
  obtain ⟨⟨sys, term, is⟩, -, attached, same⟩ := entry
  have ttyFd : added.ttyFd = env.openPort := congrArg Session.ttyFd is
  have held : Held env.openPort (added.sys.world.settingsOf env.openPort) world.device added := by
    have managed := attached.managed
    have answers := attached.answering
    unfold Session.Managed at managed
    unfold Session.Answering at answers
    rw [ttyFd] at managed answers
    rw [same]
    exact ⟨managed, answers, congrArg World.device same, ttyFd⟩
  have static : added.ttyQ = .static := congrArg Session.ttyQ is
  have real := held.managed.real
  have runs : Triple (fun s => s = .start opts world env budget) (runMain build)
      (fun _ => CleanedByOpts env.openPort (added.sys.world.settingsOf env.openPort) world.device)
      fun _ => Held env.openPort (added.sys.world.settingsOf env.openPort) world.device := by
    rw [runMain_added]
    refine .bind (Q := fun _ s => s = added) ?_ fun _ => (afterAdded_triple real).pre ?_
    · rintro _ rfl
      rw [adds]
    · rintro _ rfl
      exact ⟨static, held⟩
  have whole : Triple (fun s => s = .start opts world env budget) (main build)
      (fun _ => ExitPolicy env.openPort added) fun _ _ => True := by
    refine .bind (.tryCatch runs fun stop => ?_) fun xcode => exit_promised real apart xcode
    cases stop with
    | fatal message =>
        refine .bind_get fun s held => .bind ?_ fun _ => .pure fun _ => id
        exact (cleanedByOpts _ real s.opts).pre fun s' here => ⟨by rw [here.1], here.2⟩
    | left | abort | blocked | observed => exact .throw fun _ _ => trivial
  have result := whole _ rfl
  rwa [exits] at result

/-- A process that was not ended by an exception has done what `main` does. -/
theorem PpcomProcess.OnCourse.exits {l : Launch} {p : PpcomProcess} {ending : Ending} {s : Session}
    (course : p.OnCourse l) (gone : p.main = .gone ending s) (way : ending ≠ .asserted) :
    ∃ xcode, ending = .exited xcode ∧ (Ppcom.main l.build).run (l.start p.passed) = .ok xcode s := by
  unfold OnCourse at course
  simp only [gone] at course
  cases ending with
  | exited xcode => exact ⟨xcode, rfl, course⟩
  | asserted => exact absurd rfl way
  | terminated => exact course.elim

/-- A process in which the quit command `C-q x` is typed. -/
def quitLaunch : Launch :=
  .works { Opts.default with quiet := true } (.works [.data 0x11 [0x78]] [] [] (fun fd => fd == sti) fun _ => false)

/-- How the process has ended, and whether the port was to get back the settings it had when it was added and
has not. -/
def PpcomProcess.outcome (l : Launch) (p : PpcomProcess) : Option (Ending × Bool) :=
  match p.main, (untilAdded l.build).run (l.start p.passed) with
  | .gone ending s, .ok _ added =>
      some (ending, !s.opts.noreset &&
        (s.sys.world.settingsOf l.env.openPort).withHup false ≠
          (added.sys.world.settingsOf l.env.openPort).withHup false)
  | _, _ => none

/-- The runs that a list of inputs leads to. -/
theorem run_of_outcome {l : Launch} {inputs : List ProcessInput} {ending : Ending} {broken : Bool}
    (held : (Machine.trail (PpcomProcess.step l) .start inputs).bind
      (fun made => (Machine.last .start made).outcome l) = some (ending, broken)) :
    ∃ made p, ∃ added s : Session, Machine.trail (PpcomProcess.step l) .start inputs = some made ∧
      ProcessRun l made p ∧
      (untilAdded l.build).run (l.start p.passed) = .ok ⟨⟩ added ∧ p.main = .gone ending s ∧
      (broken = true → ¬ ExitPolicy l.env.openPort added s) := by
  obtain ⟨made, ran, outcome⟩ := Option.bind_eq_some_iff.mp held
  have run := Machine.Run.of_trail ran
  generalize Machine.last PpcomProcess.start made = p at outcome run
  unfold PpcomProcess.outcome at outcome
  split at outcome
  · next ending s _ added gone adds =>
    cases outcome
    refine ⟨made, p, added, s, ran, run, adds, gone, fun broken policy => ?_⟩
    simp only [Bool.and_eq_true, Bool.not_eq_true', decide_eq_true_eq] at broken
    exact broken.2 (policy.restored broken.1)
  · cases outcome

end Ppcom
