/-
Module: Ppcom.Proofs.Process
Purpose: What the process can do, said once: the steps of the two threads as cases. The pieces in which the
  main thread ends are what `main` does. As long as `epoll_wait` does not fail, the thread of the servers
  throws nothing, and the main thread comes to where `main` does.
Trusted boundary: none
Main exports: setupSocket_connects, Ffwd.init_eq, main_left, main_fatal, PpcomProcess.Goes,
  PpcomProcess.Makes, PpcomProcess.step_makes, PpcomProcess.OnCourse, run_onCourse, main_runs
-/
import Ppcom.Process
import Ppcom.Proofs.ServerThread
import Ppcom.Proofs.TermCalls

namespace Ppcom

open Program

/-! ### The connections of the program -/

theorem setupSocket_connects {replies : SocketReplies} (connects : replies.Connects) :
    setupSocket replies = replies.socket := by
  obtain ⟨socket, inetPton, connect⟩ := connects
  rw [setupSocket, if_neg (not_lt.mpr socket), if_neg (not_le.mpr inetPton),
    if_neg (not_lt.mpr connect)]

theorem setupSocket_fails {replies : SocketReplies} (fails : ¬ replies.Connects) :
    setupSocket replies = sto := by
  unfold setupSocket
  split
  · rfl
  split
  · rfl
  split
  · rfl
  · next socket inetPton connect =>
    exact absurd ⟨not_lt.mp socket, not_le.mp inetPton, not_lt.mp connect⟩ fails

/-- A failure is no negative value. -/
theorem setupSocket_nonneg (replies : SocketReplies) : 0 ≤ setupSocket replies := by
  by_cases connects : replies.Connects
  · rw [setupSocket_connects connects]
    exact connects.1
  · rw [setupSocket_fails connects]
    decide

/-- So `init` always succeeds. -/
theorem Ffwd.init_eq (f : Ffwd) (msg ctl : SocketReplies) :
    f.init msg ctl = (0, (f.withOwnfd .msg (setupSocket msg)).withOwnfd .ctl (setupSocket ctl)) := by
  have first : ¬ (f.withOwnfd .msg (setupSocket msg)).msgfd < 0 := not_lt.mpr (setupSocket_nonneg msg)
  have second : ¬ ((f.withOwnfd .msg (setupSocket msg)).withOwnfd .ctl (setupSocket ctl)).ctlfd < 0 :=
    not_lt.mpr (setupSocket_nonneg ctl)
  simp only [Ffwd.init, if_neg first, if_neg second]

theorem Ffwd.init_msgfd (f : Ffwd) (msg ctl : SocketReplies) :
    (f.init msg ctl).2.msgfd = setupSocket msg := by
  rw [Ffwd.init_eq]
  rfl

theorem Ffwd.init_ctlfd (f : Ffwd) (msg ctl : SocketReplies) :
    (f.init msg ctl).2.ctlfd = setupSocket ctl := by
  rw [Ffwd.init_eq]
  rfl

/-! ### The end of `main` -/

section Ends

variable {s : Session}

/-- The state after a call of the framework on `fd`, whatever it returns. -/
def Session.onTerm {α : Type} (s : Session) (fd : Int) (f : Answers → TermM α) : Session :=
  { s with
    sys := (f (s.env.term fd).head).after s.sys
    env := { s.env with term := Function.update s.env.term fd (s.env.term fd).tail } }

theorem run_discard_onTerm {α : Type} (fd : Int) (f : Answers → TermM α) (s : Session) :
    (discard <| Ppcom.onTerm fd f).run s = .ok ⟨⟩ (s.onTerm fd f) := rfl

theorem run_cleanup_steps (drain noreset hup : Bool) (s : Session) :
    (cleanup drain noreset hup).run s = (forM (s.cleanupSteps drain noreset hup) EndStep.exec).run s := by
  have flow : ∀ {α : Type} (s : Session) (fd : Int) (f : Answers → TermM α),
      (s.onTerm fd f).opts.flow = s.opts.flow := fun _ _ _ => rfl
  unfold cleanup Session.cleanupSteps
  by_cases real : 0 ≤ s.ttyFd
  · by_cases controlled : s.opts.flow = .none
    · cases drain <;> cases noreset <;>
        simp [real, controlled, flow, releasePort, emptyPort, run_discard_onTerm, EndStep.exec]
    · cases drain <;> cases noreset <;>
        simp [real, controlled, flow, releasePort, emptyPort, run_discard_onTerm, EndStep.exec]
  · simp [real, EndStep.exec]

/-- The resets of the slots, one after the other, are the loop over them. -/
theorem run_resets (init : s.sys.term.init = true) {replies : Slot → Replies}
    (same : ∀ i, s.sys.term.fd i = -1 ∨ replies i = (s.env.term (s.sys.term.fd i)).head.toReplies)
    (slots : List Slot) :
    (forM (slots.map EndStep.reset) EndStep.exec).run s =
      .ok ⟨⟩ { s with sys := ((forM slots (resetSlot replies)).after s.sys) } := by
  induction slots generalizing s with
  | nil => rfl
  | cons i rest ih =>
      let own := fun i => (s.env.term (s.sys.term.fd i)).head.toReplies
      -- a slot that is in use has the replies of its descriptor, and of one that is not nothing is asked
      have one : (resetSlot own i).run s.sys = (resetSlot replies i).run s.sys := by
        rw [run_resetSlot, run_resetSlot]
        rcases same i with free | known
        · simp only [resetWorld, free]
          rfl
        · simp only [resetWorld, known, own]
      have first : (EndStep.reset i).exec.run s =
          .ok ⟨⟩ { s with sys := (resetSlot replies i).after s.sys } := by
        have sys : (resetSlot own i).after s.sys = (resetSlot replies i).after s.sys := by
          rw [TermM.after, TermM.after, one]
        rw [← sys]
        change EStateM.Result.ok PUnit.unit (if s.sys.term.init then _ else s) = _
        rw [if_pos init]
      have ran := run_resetSlot replies i s.sys
      have next : (resetSlot replies i).after s.sys =
          ⟨{ s.sys.term with fd := Function.update s.sys.term.fd i (-1) },
            resetWorld replies s.sys.term s.sys.world i⟩ := by
        rw [TermM.after, ran, final_ok]
      rw [List.map_cons, List.forM_cons, EStateM.run_bind, first]
      dsimp only
      rw [ih (s := { s with sys := (resetSlot replies i).after s.sys }) (by rw [next]; exact init)]
      · have loop : (forM (i :: rest) (resetSlot replies)).after s.sys =
            (forM rest (resetSlot replies)).after ((resetSlot replies i).after s.sys) := by
          rw [List.forM_cons, next, TermM.after, TermM.after, EStateM.run_bind, ran]
        rw [loop]
      · intro j
        rw [next]
        dsimp only
        by_cases here : j = i
        · exact .inl (by rw [here, Function.update_self])
        · rw [Function.update_of_ne here]
          exact same j

/-- The exit function does nothing in a framework that is not initialised. -/
theorem run_resets_uninit (uninit : s.sys.term.init = false) (slots : List Slot) :
    (forM (slots.map EndStep.reset) EndStep.exec).run s = .ok ⟨⟩ s := by
  induction slots with
  | nil => rfl
  | cons i rest ih =>
      have first : (EndStep.reset i).exec.run s = .ok ⟨⟩ s := by
        change EStateM.Result.ok PUnit.unit (if s.sys.term.init then _ else s) = _
        rw [uninit]
        rfl
      rw [List.map_cons, List.forM_cons, EStateM.run_bind, first]
      exact ih

theorem run_exitProcess_steps (s : Session) :
    exitProcess.run s = (forM Session.resetSteps EndStep.exec).run s := by
  cases init : s.sys.term.init with
  | true =>
      have loop : ∀ replies, (termExitfunc replies).after s.sys =
          (forM (List.finRange maxTerms) (resetSlot replies)).after s.sys := by
        intro replies
        rw [TermM.after, TermM.after, run_termExitfunc init, run_resetAll]
      rw [Session.resetSteps, run_resets init fun i => .inr rfl, ← loop]
      rfl
  | false =>
      have idle : ∀ replies, (termExitfunc replies).after s.sys = s.sys := by
        intro replies
        simp [TermM.after, termExitfunc, init]
      rw [Session.resetSteps, run_resets_uninit init]
      change EStateM.Result.ok PUnit.unit { s with sys := _ } = _
      rw [idle]

/-- Every piece comes to its end, and so do they all. -/
theorem run_endStep (step : EndStep) (s : Session) : ∃ s', step.exec.run s = .ok ⟨⟩ s' := by
  cases step with
  | apply fd =>
      have total : Triple (fun _ => True) (EndStep.exec (.apply fd)) (fun _ _ => True) fun _ _ => False := by
        have apply : Triple (fun _ => True) (applyTerm fd true) (fun _ _ => True) fun _ _ => False := by
          unfold applyTerm
          refine .read fun s _ => .bind (Q := fun _ _ => True) (fun _ _ => trivial) fun r => ?_
          split
          · exact .bind (Q := fun _ _ => True) (.modify fun _ => id) fun _ => .pure fun _ => id
          · exact .pure fun _ => id
        exact apply.discard
      have ended := total s trivial
      cases ran : (EndStep.exec (.apply fd)).run s with
      | ok _ s' => exact ⟨s', rfl⟩
      | error stop s' =>
          rw [ran] at ended
          exact ended.elim
  | _ => exact ⟨_, rfl⟩

theorem run_endSteps (steps : List EndStep) (s : Session) :
    ∃ s', (forM steps EndStep.exec).run s = .ok ⟨⟩ s' := by
  induction steps generalizing s with
  | nil => exact ⟨s, rfl⟩
  | cons step rest ih =>
      obtain ⟨s₁, first⟩ := run_endStep step s
      obtain ⟨s₂, later⟩ := ih s₁
      exact ⟨s₂, by rw [List.forM_cons, EStateM.run_bind, first]; exact later⟩

theorem runMain_eq (build : Build) :
    runMain build = (do
      let ler ← untilLeft build
      terminate ler) := by
  simp only [runMain, untilLeft, bind_assoc]

/-- The end of `main` in pieces, where `loop` was left. -/
theorem main_left {build : Build} {start : Session} {ler : LeReason}
    (left : (untilLeft build).run start = .ok ler s) :
    (main build).run start = (do
      forM (s.leaveSteps ler) EndStep.exec
      return if ler = .signal then 1 else 0 : SessionM Int).run s := by
  obtain ⟨s₁, cleans⟩ := run_endSteps
    (s.cleanupSteps (ler = .idle ∨ ler = .stdin) s.opts.noreset s.opts.hangup) s
  have ends : (terminate ler).run s = .ok (if ler = .signal then 1 else 0) s₁ := by
    rw [← run_cleanup_steps] at cleans
    simp only [terminate, EStateM.run_bind, EStateM.run_get, cleans, EStateM.run_pure]
  have ffwd : (forM [.exitFfwd, .destroyFfwd] EndStep.exec).run s = .ok ⟨⟩ s := rfl
  simp only [main, runMain_eq, Session.leaveSteps, List.forM_append, EStateM.run_bind, run_tryCatch, left,
    ends, ffwd, cleans, run_exitProcess_steps]

/-- Likewise where it ended by `fatal`. -/
theorem main_fatal {build : Build} {start : Session} {message : String}
    (failed : (untilLeft build).run start = .error (.fatal message) s) :
    (main build).run start = (do
      forM s.fatalSteps EndStep.exec
      return 1 : SessionM Int).run s := by
  obtain ⟨s₁, cleans⟩ := run_endSteps (s.cleanupSteps false s.opts.noreset s.opts.hangup) s
  have cleanup := cleans
  rw [← run_cleanup_steps] at cleanup
  simp only [main, runMain_eq, Session.fatalSteps, List.forM_append, EStateM.run_bind, run_tryCatch, failed,
    EStateM.run_get, EStateM.run_pure, cleanup, cleans, run_exitProcess_steps]

end Ends

/-! ### Steps -/

/-- What is open is all that the kernel has registered. -/
def EpollKernel.Sane (k : EpollKernel) : Prop := ∀ fd, k.watched fd = true → k.opened fd = true

section

variable {k : EpollKernel} {w w' : ServerThread} {fd : Int}

theorem EpollKernel.Sane.opens (sane : k.Sane) (fd : Int) : (k.opens fd).Sane := by
  intro n watched
  simp only [EpollKernel.opens, Function.update_apply]
  split
  · rfl
  · exact sane n watched

theorem EpollKernel.Sane.closes (sane : k.Sane) (fd : Int) : (k.closes fd).Sane := by
  intro n watched
  simp only [EpollKernel.closes, Function.update_apply] at watched ⊢
  split at watched
  · cases watched
  · next other => rw [if_neg other]; exact sane n watched

theorem EpollKernel.Sane.closesAll (sane : k.Sane) (closing : List Int) :
    (closing.foldl EpollKernel.closes k).Sane := by
  induction closing generalizing k with
  | nil => exact sane
  | cons fd rest ih => exact ih (sane.closes fd)

theorem EpollKernel.Sane.del (sane : k.Sane) (fd : Int) : (k.del fd).Sane := by
  intro n watched
  simp only [EpollKernel.del, Function.update_apply] at watched
  split at watched
  · cases watched
  · exact sane n watched

theorem EpollKernel.Sane.add (sane : k.Sane) (opened : k.opened fd = true) : (k.add fd).Sane := by
  intro n watched
  simp only [EpollKernel.add, Function.update_apply] at watched ⊢
  split at watched
  · next same => rw [same]; exact opened
  · exact sane n watched

/-- The calls of a callback close and remove. -/
theorem EpollKernel.Sane.calls (sane : w.kernel.Sane) (calls : List SysCall) :
    (calls.foldl ServerThread.call w).kernel.Sane := by
  induction calls generalizing w with
  | nil => exact sane
  | cons call rest ih =>
      refine ih (w := w.call call) ?_
      cases call with
      | close fd => exact sane.closes fd
      | write client text => exact sane
      | epollRemove fd => exact sane.del fd

theorem EpollKernel.Sane.readClient (sane : w.kernel.Sane) {side : Side} {stack : List UInt8}
    {got : ReadResult} : (w.readClient side fd stack got).1.kernel.Sane :=
  EpollKernel.Sane.calls
    (w := { w with
      server := Function.update w.server side (relay (w.server side) (w.ownfd side) fd stack got).server })
    sane _

/-- A client that is accepted was not open before, and so `addSt` does not throw. -/
theorem EpollKernel.Sane.acceptClient (sane : w.kernel.Sane) {side : Side}
    (possible : fd = -1 ∨ 0 ≤ fd ∧ w.kernel.opened fd = false) :
    (w.acceptClient side fd).1.kernel.Sane ∧ (w.acceptClient side fd).2 = false := by
  rcases possible with rfl | ⟨valid, free⟩
  · rw [acceptClient_failed]
    exact ⟨sane, rfl⟩
  · have unwatched : w.kernel.watched fd = false := by
      cases watched : w.kernel.watched fd with
      | false => rfl
      | true =>
          rw [sane fd watched] at free
          cases free
    rw [acceptClient_new valid unwatched]
    exact ⟨(sane.opens fd).add (by simp [EpollKernel.opens]), rfl⟩

/-- What is handed to a callback is one that is registered. -/
theorem cbs_of_handed {e : Epoll Callback} {st : EpollSt} {callback : Callback}
    (handed : e.handed fd = some (st, callback)) : e.cbs fd = some callback := by
  unfold Epoll.handed at handed
  split at handed
  · cases handed
  · next found =>
    simp only at handed
    split at handed
    · cases handed
    · cases handed
      exact found

end

namespace PpcomProcess

variable (l : Launch)

/-- What a callback makes of the process: there is none any more, or it is that of a descriptor on which a
server listens, or of a client. -/
inductive Serves (p : PpcomProcess) (w : ServerThread) (fd : Int) (later : List Int) :
    Found → Peer → PpcomProcess → List LogLine → Prop where
  | nobody (found : Found) (peer : Peer) : Serves p w fd later found peer (p.served l w later false) []
  | accept {st : EpollSt} {side : Side} {client : Int} {peer : Peer}
      (handed : w.mepoll.handed fd = some (st, .accepts side))
      (possible : client = -1 ∨ 0 ≤ client ∧ w.kernel.opened client = false)
      (accepts : p.Accepts l w side fd client peer) :
      Serves p w fd later (.accepted client) peer
        ((p.served l (w.acceptClient side client).1 later (w.acceptClient side client).2).accepted side client
          peer) []
  | read {st : EpollSt} {side : Side} {stack : List UInt8} {got : ReadResult} (peer : Peer)
      (handed : w.mepoll.handed fd = some (st, .reads side)) (reads : p.Reads l side fd got) :
      Serves p w fd later (.read stack got) peer
        ((p.served l (w.readClient side fd stack got).1 later false).read side fd got
          (w.readClient side fd stack got).2)
        (logLines side fd stack got (w.readClient side fd stack got).2)

/-- What the main thread makes of it when it goes on. -/
inductive Goes (p : PpcomProcess) : PpcomProcess → Prop where
  | starts {ears : Ears} (place : p.main = .starting) (are : l.ears = some ears) :
      Goes p { p with
        main := .connecting .msg
        srvThrd := some (.begun ears (Ffwd.static (-1) l.stack).ownfd) }
  | unserved (s : Session) (place : p.main = .starting) (none : l.ears = none) :
      Goes p { p with main := .gone .terminated s }
  | connects {side : Side} {next : MainThread} (place : p.main = .connecting side)
      (on : next = .connecting .ctl ∨ next = .looping) : Goes p (p.connect l side next)
  | turns (place : p.main = .looping) : Goes p { p with passed := p.passed + 1 }
  | leaves {p' : PpcomProcess} (passed : Nat)
      (left : { p with passed := passed }.leave (l.run passed) = some p') : Goes p p'
  | piece {step : EndStep} {todo : List EndStep} {s s' : Session} {xcode : Int}
      (place : p.main = .leaving (step :: todo) s xcode) (ran : step.exec.run s = .ok ⟨⟩ s') :
      Goes p { p.atServers l step with main := .leaving todo s' xcode }
  | exits {s : Session} {xcode : Int} (place : p.main = .leaving [] s xcode) :
      Goes p { p with main := .gone (.exited xcode) s }

/-- What a step makes of it. -/
inductive Makes (p : PpcomProcess) : ProcessInput → PpcomProcess → List LogLine → Prop where
  | main {p' : PpcomProcess} (goes : Goes l p p') : Makes p .main p' []
  | poll (opened : p.epollOpen = true) : Makes p .poll { p with polling := true } []
  | report (fds : List Int) : Makes p (.report fds) { p with polling := false, waited := fds } []
  | attend {w : ServerThread} {fd : Int} {later : List Int} {found : Found} {peer : Peer} {p' : PpcomProcess}
      {lines : List LogLine} (thread : p.srvThrd = some w) (waited : p.waited = fd :: later)
      (serves : Serves l p w fd later found peer p' lines) : Makes p (.attend found peer) p' lines
  | aborts {input : ProcessInput} (fails : input = .poll ∧ p.epollOpen = false ∨ input = .interrupt) :
      Makes p input (p.abort l) []

variable {l} {p p' : PpcomProcess} {w : ServerThread} {fd : Int} {later : List Int} {found : Found} {peer : Peer}
  {lines : List LogLine}

theorem attend_serves (attended : p.attend l w fd later found peer = some (p', lines)) :
    Serves l p w fd later found peer p' lines := by
  obtain ⟨⟨w', done⟩, event, next⟩ := Option.bind_eq_some_iff.mp attended
  unfold ServerThread.event at event
  cases handed : w.mepoll.handed fd with
  | none =>
      simp only [handed] at event
      cases event
      cases next
      exact .nobody found peer
  | some entry =>
      obtain ⟨st, callback⟩ := entry
      cases callback with
      | accepts side =>
          cases found with
          | read stack got => simp only [handed, reduceCtorEq] at event
          | accepted client =>
              simp only [handed, Option.ite_none_right_eq_some] at event
              obtain ⟨possible, event⟩ := event
              cases event
              simp only [Option.ite_none_right_eq_some] at next
              obtain ⟨accepts, next⟩ := next
              cases next
              exact .accept handed possible accepts
      | reads side =>
          cases found with
          | accepted client => simp only [handed, reduceCtorEq] at event
          | read stack got =>
              simp only [handed] at event
              cases event
              simp only [Option.ite_none_right_eq_some] at next
              obtain ⟨reads, next⟩ := next
              cases next
              exact .read peer handed reads

theorem mainStep_goes (goes : p.mainStep l = some p') : Goes l p p' := by
  unfold mainStep at goes
  cases place : p.main with
  | starting =>
      simp only [place] at goes
      split at goes
      · split at goes
        · next ears are =>
          cases goes
          exact .starts place are
        · next none =>
          cases goes
          exact .unserved _ place none
      · exact .leaves p.passed goes
  | connecting side =>
      cases side with
      | msg =>
          simp only [place, Option.some.injEq] at goes
          rw [← goes]
          exact .connects place (.inl rfl)
      | ctl =>
          simp only [place, Option.some.injEq] at goes
          rw [← goes]
          exact .connects place (.inr rfl)
  | looping =>
      simp only [place, Option.ite_none_right_eq_some] at goes
      obtain ⟨-, goes⟩ := goes
      rw [← place] at goes
      split at goes
      · cases goes
        exact .turns place
      · exact .leaves (p.passed + 1) goes
  | leaving todo s xcode =>
      simp only [place] at goes
      cases todo with
      | nil =>
          cases goes
          exact .exits place
      | cons step todo =>
          obtain ⟨s', ran⟩ := run_endStep step s
          simp only [ran] at goes
          cases goes
          exact .piece place ran
  | gone ending s =>
      simp only [place] at goes
      cases goes

theorem step_makes {input : ProcessInput} (made : p.step l input = some (p', lines)) :
    Makes l p input p' lines := by
  cases input with
  | main =>
      obtain ⟨next, goes, is⟩ := Option.map_eq_some_iff.mp made
      cases is
      exact .main (mainStep_goes goes)
  | poll =>
      simp only [step] at made
      split at made
      · simp only [Option.ite_none_right_eq_some] at made
        obtain ⟨-, is⟩ := made
        split at is
        · next opened =>
          cases is
          exact .poll opened
        · next closed =>
          cases is
          exact .aborts (.inl ⟨rfl, Bool.eq_false_iff.mpr closed⟩)
      · cases made
  | report fds =>
      simp only [step] at made
      split at made
      · simp only [Option.ite_none_right_eq_some] at made
        obtain ⟨-, is⟩ := made
        cases is
        exact .report fds
      · cases made
  | attend found peer =>
      simp only [step] at made
      split at made
      · next w fd later thread waited =>
        simp only [Option.ite_none_right_eq_some] at made
        exact .attend thread waited (attend_serves made.2)
      · cases made
  | interrupt =>
      simp only [step, Option.ite_none_right_eq_some] at made
      obtain ⟨-, is⟩ := made
      cases is
      exact .aborts (.inr rfl)

/-! ### The course of the main thread -/

/-- The main thread ends as `main` does: where it has left `loop` it has the rest of `main` before it, and the
process has not ended by an exception. -/
def OnCourse (l : Launch) (p : PpcomProcess) : Prop :=
  match p.main with
  | .leaving todo s xcode =>
      (Ppcom.main l.build).run (l.start p.passed) = (do
        forM todo EndStep.exec
        return xcode : SessionM Int).run s
  | .gone (.exited xcode) s => (Ppcom.main l.build).run (l.start p.passed) = .ok xcode s
  | .gone .terminated _ => False
  | _ => True

@[simp] theorem atServers_passed (step : EndStep) : (p.atServers l step).passed = p.passed := by
  cases step <;> rfl

theorem leave_onCourse (left : p.leave (l.run p.passed) = some p') : p'.OnCourse l := by
  unfold leave at left
  split at left
  · next is =>
    cases left
    exact main_left is
  · next is =>
    cases left
    exact main_fatal is
  · cases left
    trivial
  · cases left

theorem Goes.onCourse (goes : Goes l p p') (servers : l.ears ≠ none) (course : p.OnCourse l) :
    p'.OnCourse l := by
  unfold OnCourse at course
  cases goes with
  | starts => trivial
  | unserved s place none => exact absurd none servers
  | connects place on => rcases on with rfl | rfl <;> trivial
  | turns place =>
      rw [OnCourse, place]
      trivial
  | leaves passed left => exact leave_onCourse left
  | piece place ran =>
      simp only [place] at course
      rw [List.forM_cons, bind_assoc, EStateM.run_bind, ran] at course
      simpa only [OnCourse, atServers_passed] using course
  | exits place =>
      simp only [place] at course
      exact course

/-- The descriptors of the thread of the servers are sane. -/
def Sane (p : PpcomProcess) : Prop := ∀ w, p.srvThrd = some w → w.kernel.Sane

theorem sane_begun (ears : Ears) (ownfd : Side → Int) : (ServerThread.begun ears ownfd).kernel.Sane := by
  intro fd watched
  exact ((Mirrored.begun ears ownfd).opened fd watched).2

theorem leave_srvThrd {result : EStateM.Result Stop Session LeReason} (left : p.leave result = some p') :
    p'.srvThrd = p.srvThrd := by
  unfold leave at left
  split at left <;> cases left <;> rfl

theorem Sane.connect (sane : p.Sane) (side : Side) (next : MainThread) : (p.connect l side next).Sane := by
  intro w is
  obtain ⟨w, thread, rfl⟩ := Option.map_eq_some_iff.mp is
  dsimp only
  split
  · exact (sane w thread).opens _
  · exact sane w thread

theorem Sane.atServers (sane : p.Sane) (step : EndStep) : (p.atServers l step).Sane := by
  intro w is
  cases step with
  | exitFfwd =>
      obtain ⟨w, thread, rfl⟩ := Option.map_eq_some_iff.mp is
      exact (sane w thread).closesAll _
  | _ => exact sane w is

theorem Goes.sane (goes : Goes l p p') (sane : p.Sane) : p'.Sane := by
  cases goes with
  | starts =>
      intro w is
      cases is
      exact sane_begun _ _
  | connects place on => exact sane.connect _ _
  | leaves passed left =>
      intro w is
      exact sane w (leave_srvThrd left ▸ is)
  | piece place ran => exact sane.atServers _
  | unserved | turns | exits => exact sane

/-- A callback throws nothing, and leaves the main thread where it is. -/
theorem Serves.quiet (serves : Serves l p w fd later found peer p' lines) (sane : w.kernel.Sane) :
    p'.main = p.main ∧ p'.passed = p.passed ∧ ∃ w', p'.srvThrd = some w' ∧ w'.kernel.Sane := by
  have joined : ∀ (q : PpcomProcess) side client peer, (q.accepted side client peer).main = q.main ∧
      (q.accepted side client peer).passed = q.passed ∧
      (q.accepted side client peer).srvThrd = q.srvThrd := by
    intro q side client peer
    unfold accepted
    split
    · exact ⟨rfl, rfl, rfl⟩
    · exact ⟨rfl, rfl, rfl⟩
  cases serves with
  | nobody => exact ⟨rfl, rfl, w, rfl, sane⟩
  | @accept st side client peer handed possible accepts =>
      obtain ⟨kernel, quiet⟩ := @EpollKernel.Sane.acceptClient w client sane side possible
      obtain ⟨main, passed, thread⟩ := joined _ _ _ _
      rw [main, passed, thread, quiet]
      exact ⟨rfl, rfl, _, rfl, kernel⟩
  | read peer handed reads => exact ⟨rfl, rfl, _, rfl, sane.readClient⟩

theorem Makes.onCourse {input : ProcessInput} (makes : Makes l p input p' lines) (servers : l.ears ≠ none)
    (alive : ¬ ProcessStep.WaitFails ⟨p, input, p', lines⟩) (held : p.OnCourse l ∧ p.Sane) :
    p'.OnCourse l ∧ p'.Sane := by
  obtain ⟨course, sane⟩ := held
  cases makes with
  | main goes => exact ⟨goes.onCourse servers course, goes.sane sane⟩
  | poll opened => exact ⟨course, sane⟩
  | report fds => exact ⟨course, sane⟩
  | attend thread waited serves =>
      obtain ⟨main, passed, w', thread', kernel⟩ := serves.quiet (sane _ thread)
      constructor
      · rw [OnCourse, main, passed]
        exact course
      · intro w is
        rw [thread'] at is
        cases is
        exact kernel
  | aborts fails => exact absurd fails alive

end PpcomProcess

/-- Where `startSrv` has registered both servers and `epoll_wait` does not fail, the process ends, if it does,
as `main` does or by an assertion. -/
theorem run_onCourse {l : Launch} {made : List ProcessStep} {p : PpcomProcess} (run : ProcessRun l made p)
    (servers : l.ears ≠ none) (alive : ∀ st ∈ made, ¬ ProcessStep.WaitFails st) : p.OnCourse l := by
  have start : PpcomProcess.OnCourse l .start ∧ PpcomProcess.start.Sane := ⟨trivial, nofun⟩
  exact (run.guarded (I := fun p => p.OnCourse l ∧ p.Sane) (G := fun st => ¬ ProcessStep.WaitFails st) start
    (fun st step guard held => (PpcomProcess.step_makes step).onCourse servers guard held) alive).1.1

/-! ### The main thread by itself -/

/-- The other thread need not do anything: as long as no end of `loop` and nothing on the control connection
is met, the main thread comes to any point. -/
theorem main_runs {l : Launch} {ears : Ears} (are : l.ears = some ears) (n : Nat)
    (goes : ∀ k ≤ n, ∃ s, l.run k = .error .observed s ∧ ctlChunks s.trace = []) :
    ∃ made p, ProcessRun l made p ∧ p.main = .looping ∧ p.passed = n ∧ ∀ st ∈ made, st.input = .main := by
  have step : ∀ {p q : PpcomProcess}, p.mainStep l = some q → p.step l .main = some (q, []) := by
    intro p q goes
    rw [PpcomProcess.step, goes]
    rfl
  induction n with
  | zero =>
      obtain ⟨s, observed, -⟩ := goes 0 le_rfl
      let begun : PpcomProcess := { PpcomProcess.start with
        main := .connecting .msg
        srvThrd := some (.begun ears (Ffwd.static (-1) l.stack).ownfd) }
      have first : PpcomProcess.start.mainStep l = some begun := by
        simp only [PpcomProcess.mainStep, PpcomProcess.start, observed, are, begun]
      have run : ProcessRun l _ _ := ((Machine.Run.start.step (step first)).step
        (step (q := begun.connect l .msg (.connecting .ctl)) rfl)).step
        (step (q := (begun.connect l .msg (.connecting .ctl)).connect l .ctl .looping) rfl)
      refine ⟨_, _, run, rfl, rfl, ?_⟩
      simp
  | succ n ih =>
      obtain ⟨made, p, run, looping, rfl, alone⟩ := ih fun k before => goes k (Nat.le_succ_of_le before)
      obtain ⟨s, observed, silent⟩ := goes (p.passed + 1) le_rfl
      have next : p.mainStep l = some { p with passed := p.passed + 1 } := by
        have hears : p.Hears l (final (l.run (p.passed + 1))) := by
          intro _
          rw [observed, final_error, silent]
          exact List.nil_prefix
        simp only [PpcomProcess.mainStep, looping]
        rw [if_pos hears]
        simp only [observed]
      refine ⟨_, _, run.step (step next), looping, rfl, ?_⟩
      intro st inside
      rcases List.mem_append.mp inside with early | late
      · exact alone st early
      · rw [List.mem_singleton.mp late]

end Ppcom
