/-
Module: Ppcom.Proofs.TermOriginal
Purpose: The settings a device had when its descriptor was added survive every run: when the entry
  leaves the framework they are written back, with the HUPCL bit of the last settings applied.
Trusted boundary: none
Main exports: CopyRules, SameSlots, Call.Fresh, call_keepsEntries, EntryRun, original_settings_written
-/
import Ppcom.Proofs.TermSet

namespace Ppcom

open Program

/-! ### Functions that leave descriptors and original settings alone -/

/-- What it takes to keep a relation that only the devices and the working copies of their settings may
change in: writes to a device, to the current and to the next settings are part of it. -/
structure CopyRules (R : Sys → Sys → Prop) : Prop where
  store (s : Sys) (fd : Int) (when : When) (t stored : Termios) :
    R s { s with world := s.world.store fd when t stored }
  curr (i : Slot) (t : Termios) : Keeps R (setCurr i t)
  next (i : Slot) (t : Termios) : Keeps R (setNext i t)

section Rules

variable {R : Sys → Sys → Prop} [Std.Refl R] [IsTrans Sys R]

theorem keeps_termFind (fd : Int) : Keeps R (termFind fd) := by
  unfold termFind
  refine .bind .get fun s => ?_
  cases s.term.find fd with
  | ok i => exact .pure i
  | error e => exact .throw e

theorem keeps_tcgetattr (succeeds : Bool) (fd : Int) : Keeps R (tcgetattr succeeds fd) := by
  unfold tcgetattr
  split
  · exact .pure _
  · exact .bind .get fun s => .pure _

namespace CopyRules

variable (rules : CopyRules R)

include rules

theorem tcsetattr (stores : Termios → Option Termios) (fd : Int) (when : When) (t : Termios) :
    Keeps R (tcsetattr stores fd when t) := by
  unfold Ppcom.tcsetattr
  split
  · exact .pure _
  · cases stores t with
    | none => exact .pure _
    | some stored => exact .bind (.modify fun s => rules.store s _ _ _ _) fun _ => .pure _

theorem setParameter (change : Termios → Except TermErrno Termios) (fd : Int) :
    Keeps R (setParameter change fd) := by
  unfold Ppcom.setParameter
  refine .bind (keeps_termFind fd) fun i => .bind .get fun s => ?_
  cases change (s.term.nexttermios i) with
  | ok t => exact rules.next i t
  | error e => exact .throw e

theorem setter (plat : Platform) (fd : Int) (setter : Setter) : Keeps R (setter.exec plat fd) := by
  rw [setter.exec_eq]
  exact rules.setParameter _ _

theorem termRefresh (replies : Replies) (fd : Int) : Keeps R (termRefresh replies fd) := by
  unfold Ppcom.termRefresh
  refine .bind (keeps_termFind fd) fun i => .bind (keeps_tcgetattr _ _) fun read => ?_
  cases read with
  | none => exact .throw _
  | some t => exact rules.curr i t

theorem termFakeFlush (replies : Replies) (fd : Int) : Keeps R (termFakeFlush replies fd) := by
  unfold Ppcom.termFakeFlush
  refine .bind (keeps_termFind fd) fun i => .bind (keeps_tcgetattr _ _) fun read => ?_
  cases read with
  | none => exact .throw _
  | some tio =>
      exact .bind (rules.curr i tio) fun _ => .bind (rules.tcsetattr _ _ _ _) fun set =>
        .guard <| .guard <| .bind .get fun s => .bind (rules.tcsetattr _ _ _ _) fun restored =>
          .guard (.pure _)

end CopyRules

end Rules

/-- The descriptors and the original settings are the same in both states. -/
structure SameSlots (s s' : Sys) : Prop where
  init : s'.term.init = s.term.init
  fd : s'.term.fd = s.term.fd
  orig : s'.term.origtermios = s.term.origtermios

instance : Std.Refl SameSlots where
  refl _ := ⟨rfl, rfl, rfl⟩

instance : IsTrans Sys SameSlots where
  trans _ _ _ first second :=
    ⟨second.init.trans first.init, second.fd.trans first.fd, second.orig.trans first.orig⟩

theorem sameSlots_rules : CopyRules SameSlots where
  store _ _ _ _ _ := ⟨rfl, rfl, rfl⟩
  curr _ _ := .modify fun _ => ⟨rfl, rfl, rfl⟩
  next _ _ := .modify fun _ => ⟨rfl, rfl, rfl⟩

section Calls

variable (plat : Platform) (replies : Replies) (fd : Int)

theorem termReset_sameSlots : Keeps SameSlots (termReset replies fd) := by
  unfold termReset
  refine .bind (keeps_termFind fd) fun i => .guard <| .bind .get fun s =>
    .bind (sameSlots_rules.tcsetattr _ _ _ _) fun set => .guard <|
      .bind (keeps_tcgetattr _ _) fun read => ?_
  cases read with
  | none => exact .throw _
  | some t => exact .bind (sameSlots_rules.curr i t) fun _ => sameSlots_rules.next i t

theorem termRevert_sameSlots : Keeps SameSlots (termRevert fd) := by
  unfold termRevert
  exact .bind (keeps_termFind fd) fun i => .bind .get fun s => sameSlots_rules.next i _

/-- A getter reads the current settings of a slot. -/
theorem getter_sameSlots {α : Type} (decode : Termios → TermM α)
    (reads : ∀ tio, Keeps SameSlots (decode tio)) :
    Keeps SameSlots (do
      let i ← termFind fd
      let s ← get
      decode (s.term.currtermios i)) :=
  .bind (keeps_termFind fd) fun _ => .bind .get fun _ => reads _

theorem lowerLine_sameSlots (e : TermErrno) : Keeps SameSlots (lowerLine replies e fd) := by
  unfold lowerLine
  exact .bind (.discard (keeps_termFind fd)) fun _ => .guard (.pure _)

theorem raiseLine_sameSlots (e : TermErrno) : Keeps SameSlots (raiseLine replies e fd) := by
  unfold raiseLine
  exact .bind (.discard (keeps_termFind fd)) fun _ => .guard (.pure _)

theorem termGetBaudrate_sameSlots : Keeps SameSlots (termGetBaudrate plat fd) := by
  unfold termGetBaudrate
  refine .bind (keeps_termFind fd) fun i => .bind .get fun s => ?_
  dsimp only
  split
  · exact .refuse (.refuse (.pure _))
  · exact .pure _

/-- The functions that find their descriptor and then only read or only work on lines and queues. -/
theorem query_sameSlots (which : Query) : Keeps SameSlots (which.exec plat replies fd) := by
  cases which with
  | getBaudrate => exact (termGetBaudrate_sameSlots plat fd).discard
  | getParity => exact (getter_sameSlots fd _ fun tio => .pure (parityOf tio.cCflag)).discard
  | getDatabits => exact (getter_sameSlots fd _ fun tio => .pure (databitsOf tio.cCflag)).discard
  | getStopbits => exact (getter_sameSlots fd _ fun tio => .pure (stopbitsOf tio.cCflag)).discard
  | getFlowcntrl => exact (getter_sameSlots fd _ fun tio => .pure (flowcntrlOf tio)).discard
  | getMctl =>
      refine .discard (.bind (.discard (keeps_termFind fd)) fun _ => ?_)
      split <;> exact .pure _
  | pulseDtr => exact .bind (lowerLine_sameSlots _ _ _) fun _ => raiseLine_sameSlots _ _ _
  | lowerDtr => exact lowerLine_sameSlots _ _ _
  | raiseDtr => exact raiseLine_sameSlots _ _ _
  | lowerRts => exact lowerLine_sameSlots _ _ _
  | raiseRts => exact raiseLine_sameSlots _ _ _
  | drain => exact .bind (.discard (keeps_termFind fd)) fun _ => .guard (.pure _)
  | flush => exact .bind (.discard (keeps_termFind fd)) fun _ => .guard (.pure _)
  | brk => exact .bind (.discard (keeps_termFind fd)) fun _ => .guard (.pure _)

end Calls

/-! ### Calls that change the list of descriptors -/

/-- What a call leaves of the entries in use: each is freed, or keeps its original settings. -/
structure KeepsEntries (s s' : Sys) : Prop where
  init : s'.term.init = s.term.init
  distinct : Slots.Distinct (-1) s.term.fd → Slots.Distinct (-1) s'.term.fd
  entry : ∀ i, 0 ≤ s.term.fd i →
    s'.term.fd i = -1 ∨ 0 ≤ s'.term.fd i ∧ s'.term.origtermios i = s.term.origtermios i

/-- The calls whose `term_replace`, if they are one, is to an unmanaged descriptor. -/
def Call.Fresh (term : Term) : Call → Prop
  | .replace _ newfd => ∀ i, term.fd i ≠ newfd
  | _ => True

section Entries

variable {plat : Platform} {answers : Answers} {s s' : Sys} {call : Call} {fd : Int} {i : Slot}
  {w : World}

theorem SameSlots.keepsEntries (same : SameSlots s s') : KeepsEntries s s' := by
  refine ⟨same.init, fun distinct => same.fd ▸ distinct, ?_⟩
  intro i used
  rw [same.fd, same.orig]
  exact .inr ⟨used, rfl⟩

theorem KeepsEntries.freed (s : Sys) (i : Slot) (w : World) :
    KeepsEntries s ⟨{ s.term with fd := Function.update s.term.fd i (-1) }, w⟩ := by
  refine ⟨rfl, fun distinct => distinct.clear i, ?_⟩
  intro j used
  by_cases here : j = i
  · subst here
    exact .inl (by simp)
  · exact .inr (by simp [here, used])

theorem KeepsEntries.cleared (s : Sys) (w : World) :
    KeepsEntries s ⟨{ s.term with fd := fun _ => -1 }, w⟩ := by
  refine ⟨rfl, fun _ i j used => absurd rfl used, ?_⟩
  intro i used
  exact .inl rfl

/-- A free slot was taken. -/
theorem KeepsEntries.taken {curr next : Slot → Termios} (unused : s.term.fd i = -1)
    (fresh : ∀ j, s.term.fd j ≠ fd) (t : Termios) :
    KeepsEntries s ⟨⟨s.term.init, Function.update s.term.fd i fd,
      Function.update s.term.origtermios i t, curr, next⟩, w⟩ := by
  refine ⟨rfl, fun distinct => distinct.update fresh i, ?_⟩
  intro j used
  have other : j ≠ i := by
    rintro rfl
    omega
  exact .inr (by simp [other, used])

/-- A free slot was taken, and slot 0 freed. -/
theorem KeepsEntries.takenFreed {curr next : Slot → Termios} (unused : s.term.fd i = -1)
    (fresh : ∀ j, s.term.fd j ≠ fd) (t : Termios) :
    KeepsEntries s ⟨⟨s.term.init, Function.update (Function.update s.term.fd i fd) 0 (-1),
      Function.update s.term.origtermios i t, curr, next⟩, w⟩ := by
  refine ⟨rfl, fun distinct => (distinct.update fresh i).clear 0, ?_⟩
  intro j used
  have other : j ≠ i := by
    rintro rfl
    omega
  by_cases first : j = 0
  · subst first
    exact .inl (by simp)
  · exact .inr (by simp [other, first, used])

/-- A slot got a fresh descriptor. -/
theorem KeepsEntries.moved {curr : Slot → Termios} (real : 0 ≤ fd)
    (fresh : ∀ j, s.term.fd j ≠ fd) :
    KeepsEntries s ⟨{ s.term with fd := Function.update s.term.fd i fd, currtermios := curr }, w⟩ := by
  refine ⟨rfl, fun distinct => distinct.update fresh i, ?_⟩
  intro j used
  by_cases here : j = i
  · subst here
    exact .inr (by simp [real])
  · exact .inr (by simp [here, used])

theorem keepsEntries_same (s : Sys) (w : World) : KeepsEntries s ⟨s.term, w⟩ :=
  SameSlots.keepsEntries ⟨rfl, rfl, rfl⟩

theorem Term.find_cases {term : Term} (init : term.init = true) (fd : Int) :
    (∃ i, term.find fd = .ok i ∧ term.fd i = fd) ∨
      (term.find fd = .error .enotfound ∧ ∀ i, term.fd i ≠ fd) := by
  cases found : Slots.find term.fd fd with
  | some i =>
      exact .inl ⟨i, (Term.find_eq_ok_iff init).mpr found, Slots.key_of_find found⟩
  | none =>
      rw [Slots.find_eq_none_iff] at found
      exact .inr ⟨(Term.find_eq_error_iff init).mpr found, found⟩

theorem add_keepsEntries (init : s.term.init = true) :
    KeepsEntries s ((Call.exec plat answers (.add fd)).after s) := by
  rcases Term.find_cases init fd with ⟨i, found, -⟩ | ⟨absent, lost⟩
  · simp only [TermM.after, Call.exec, run_discard_error (run_termAdd_managed found), final_error]
    exact keepsEntries_same s s.world
  · rcases termAdd_cases answers.toReplies init lost with
      ⟨e, ran, -⟩ | ⟨i, unused, -, -, -, ran⟩
    · simp only [TermM.after, Call.exec, run_discard_error ran, final_error]
      exact keepsEntries_same s s.world
    · simp only [TermM.after, Call.exec, run_discard_ok ran, final_ok]
      exact .taken unused lost _

theorem remove_keepsEntries (init : s.term.init = true) :
    KeepsEntries s ((Call.exec plat answers (.remove fd)).after s) := by
  rcases Term.find_cases init fd with ⟨i, found, -⟩ | ⟨absent, -⟩
  · simp only [TermM.after, Call.exec]
    cases flush : tcflush answers.toReplies fd with
    | false =>
        rw [run_termRemove_unflushed found flush]
        exact .freed s i _
    | true =>
        have real : 0 ≤ fd := by
          simp only [tcflush, Bool.and_eq_true, decide_eq_true_eq] at flush
          exact flush.1
        cases set : answers.tcsetattr (s.term.origtermios i) with
        | none =>
            rw [run_termRemove_fails found flush set]
            exact .freed s i _
        | some t =>
            rw [run_termRemove_stores found real flush set]
            exact .freed s i _
  · simp only [TermM.after, Call.exec, run_termRemove_lost absent, final_error]
    exact keepsEntries_same s s.world

theorem erase_keepsEntries (init : s.term.init = true) :
    KeepsEntries s ((Call.exec plat answers (.erase fd)).after s) := by
  rcases Term.find_cases init fd with ⟨i, found, -⟩ | ⟨absent, -⟩
  · simp only [TermM.after, Call.exec, run_termErase_found found, final_ok]
    exact .freed s i _
  · simp only [TermM.after, Call.exec, run_termErase_lost absent, final_error]
    exact keepsEntries_same s s.world

theorem replace_keepsEntries {newfd : Int} (init : s.term.init = true)
    (fresh : ∀ i, s.term.fd i ≠ newfd) :
    KeepsEntries s ((Call.exec plat answers (.replace fd newfd)).after s) := by
  simp only [TermM.after, Call.exec]
  rcases Term.find_cases init fd with ⟨i, found, -⟩ | ⟨absent, -⟩
  · by_cases negative : newfd < 0
    · rw [run_termReplace_negative found negative]
      exact keepsEntries_same s s.world
    have real : 0 ≤ newfd := not_lt.mp negative
    cases set : answers.tcsetattr (s.term.currtermios i) with
    | none =>
        rw [run_termReplace_fails found set]
        exact keepsEntries_same s s.world
    | some t =>
        cases read : answers.tcgetattr with
        | false =>
            rw [run_termReplace_unread found real set read]
            exact keepsEntries_same s _
        | true =>
            rw [run_termReplace_moves found real set read]
            exact .moved real fresh
  · rw [run_termReplace_lost absent]
    exact keepsEntries_same s s.world

theorem set_keepsEntries {p : Params} (init : s.term.init = true) :
    KeepsEntries s ((Call.exec plat answers (.set fd p)).after s) := by
  simp only [TermM.after, Call.exec]
  rcases Term.find_cases init fd with ⟨i, found, -⟩ | ⟨absent, lost⟩
  · rcases run_termSet_found plat answers.toReplies p found with
      ⟨-, t, ran⟩ | ⟨-, e, ran⟩
    · rw [ran]
      exact SameSlots.keepsEntries ⟨rfl, rfl, rfl⟩
    · rw [ran]
      exact keepsEntries_same s s.world
  · rcases termAdd_cases answers.toReplies init lost with
      ⟨e, unadded, -⟩ | ⟨i, unused, -, -, -, added⟩
    · rw [run_termSet_unadded absent unadded]
      exact keepsEntries_same s s.world
    · have found := find_of_added (s := s) init lost (i := i) (s.world.settingsOf fd)
      rcases run_termSet_added plat p absent added found with
        ⟨-, t, ran⟩ | ⟨-, e, t, ran⟩
      · rw [ran]
        exact .taken unused lost _
      · rw [ran]
        exact .takenFreed unused lost _

/-- What `term_apply` leaves: the entries in use, and, where it succeeds, the original settings of
its own entry with the `HUPCL` bit that was read back. -/
theorem apply_slots (answers : Answers) (fd : Int) (now : Bool) (init : s.term.init = true) :
    SameSlots s ((termApply answers.toReplies fd now).after s) ∧
        (termApply answers.toReplies fd now).outcome s ≠ .ok () ∨
      ∃ i, s.term.fd i = fd ∧ 0 ≤ fd ∧
        (termApply answers.toReplies fd now).outcome s = .ok () ∧
        ((termApply answers.toReplies fd now).after s).term.init = s.term.init ∧
        ((termApply answers.toReplies fd now).after s).term.fd = s.term.fd ∧
        ((termApply answers.toReplies fd now).after s).term.origtermios
          = Function.update s.term.origtermios i
            (copyHupcl (((termApply answers.toReplies fd now).after s).world.settingsOf fd)
              (s.term.origtermios i)) := by
  simp only [TermM.after, TermM.outcome]
  rcases Term.find_cases init fd with ⟨i, found, key⟩ | ⟨absent, -⟩
  · by_cases negative : fd < 0
    · rw [run_termApply_negative found negative]
      exact .inl ⟨⟨rfl, rfl, rfl⟩, by simp⟩
    have real : 0 ≤ fd := not_lt.mp negative
    cases set : answers.tcsetattr (s.term.nexttermios i) with
    | none =>
        rw [run_termApply_fails found set]
        exact .inl ⟨⟨rfl, rfl, rfl⟩, by simp⟩
    | some t =>
        cases read : answers.tcgetattr with
        | false =>
            rw [run_termApply_unread found real set read]
            exact .inl ⟨⟨rfl, rfl, rfl⟩, by simp⟩
        | true =>
            rw [run_termApply_reads found now real set read]
            refine .inr ⟨i, key, real, rfl, rfl, rfl, ?_⟩
            simp [World.settingsOf, World.store]
  · rw [run_termApply_lost absent]
    exact .inl ⟨⟨rfl, rfl, rfl⟩, by simp⟩

/-- The step lemma: a call frees an entry or keeps its original settings, a `term_apply` of the entry
that succeeds apart. -/
theorem call_keepsEntries (plat : Platform) (answers : Answers) (init : s.term.init = true)
    (fresh : call.Fresh s.term)
    (unapplied : ∀ fd now, call = .apply fd now →
      (call.exec plat answers).outcome s ≠ .ok ()) :
    KeepsEntries s ((call.exec plat answers).after s) := by
  cases call with
  | add fd => exact add_keepsEntries init
  | remove fd => exact remove_keepsEntries init
  | erase fd => exact erase_keepsEntries init
  | replace oldfd newfd => exact replace_keepsEntries init fresh
  | reset fd => exact (termReset_sameSlots answers.toReplies fd s).keepsEntries
  | revert fd => exact (termRevert_sameSlots fd s).keepsEntries
  | refresh fd => exact (sameSlots_rules.termRefresh answers.toReplies fd s).keepsEntries
  | apply fd now =>
      rcases apply_slots answers fd now init with
        ⟨same, -⟩ | ⟨i, -, -, ok, -⟩
      · exact same.keepsEntries
      · exact absurd ok (unapplied fd now rfl)
  | setOne setter fd => exact (sameSlots_rules.setter plat fd setter s).keepsEntries
  | set fd params => exact set_keepsEntries init
  | fakeFlush fd => exact (sameSlots_rules.termFakeFlush answers.toReplies fd s).keepsEntries
  | query which fd => exact (query_sameSlots plat answers.toReplies fd which s).keepsEntries
  | libInit =>
      simp only [TermM.after, Call.exec, run_termLibInit_again init, final_ok]
      exact .cleared s _
  | exitfunc =>
      simp only [TermM.after, Call.exec, run_termExitfunc init, final_ok]
      exact .cleared s _

end Entries

/-! ### Runs of one entry -/

/-- `orig` with the `HUPCL` bit of `h`. -/
def withHupcl (orig : Termios) (h : Word) : Termios :=
  { orig with cCflag := (orig.cCflag &&& ~~~hupcl) ||| (h &&& hupcl) }

/-- The states that calls lead to from a `term_lib_init`. -/
inductive Reached (plat : Platform) : Sys → Prop where
  | start {s₀ s : Sys} {atexitOk : Bool} {resets : Slot → Replies}
      (started : (termLibInit atexitOk resets).run s₀ = .ok () s) : Reached plat s
  | call {s} (reached : Reached plat s) (call : Call) (answers : Answers)
      (fresh : call.Fresh s.term) : Reached plat ((call.exec plat answers).after s)
  | outside {s} (reached : Reached plat s) (w : World) : Reached plat ⟨s.term, w⟩

/-- Runs in which the entry in slot `i` stays. The words are the `c_cflag`s whose `HUPCL` bit the
entry has: at first the one given, then the one read back by the last successful `term_apply` of the
entry. -/
inductive EntryRun (plat : Platform) (i : Slot) : Sys → Word → Sys → Word → Prop where
  | nil (s h) : EntryRun plat i s h s h
  | applied {s h s' h'} (ran : EntryRun plat i s h s' h') (now : Bool) (answers : Answers)
      (ok : (termApply answers.toReplies (s'.term.fd i) now).outcome s' = .ok ()) :
      EntryRun plat i s h ((termApply answers.toReplies (s'.term.fd i) now).after s')
        (((termApply answers.toReplies (s'.term.fd i) now).after s').world.settingsOf
          (s'.term.fd i)).cCflag
  | call {s h s' h'} (ran : EntryRun plat i s h s' h') (call : Call) (answers : Answers)
      (fresh : call.Fresh s'.term)
      (other : ∀ now, call = .apply (s'.term.fd i) now →
        (call.exec plat answers).outcome s' ≠ .ok ())
      (stays : ((call.exec plat answers).after s').term.fd i ≠ -1) :
      EntryRun plat i s h ((call.exec plat answers).after s') h'
  | outside {s h s' h'} (ran : EntryRun plat i s h s' h') (w : World) :
      EntryRun plat i s h ⟨s'.term, w⟩ h'

/-- The calls by which the entry in slot `i` leaves with its settings restored: `term_remove` of its
descriptor, a repeated `term_lib_init`, and `term_exitfunc`, the flush and the `tcsetattr` for the
entry succeeding. -/
inductive Leaves (s : Sys) (i : Slot) : Call → Answers → Prop where
  | remove {answers} (flush : answers.tcflush = true)
      (set : (answers.tcsetattr (s.term.origtermios i)).isSome) :
      Leaves s i (.remove (s.term.fd i)) answers
  | libInit {answers} (set : ((answers.ofSlot i).tcsetattr (s.term.origtermios i)).isSome) :
      Leaves s i .libInit answers
  | exitfunc {answers} (set : ((answers.ofSlot i).tcsetattr (s.term.origtermios i)).isSome) :
      Leaves s i .exitfunc answers

section Runs

variable {plat : Platform} {answers : Answers} {s s' : Sys} {i : Slot} {h h' : Word}

/-- What is true of every reached state, whatever was called. -/
theorem Reached.step {call : Call} (init : s.term.init = true)
    (distinct : Slots.Distinct (-1) s.term.fd) (fresh : call.Fresh s.term) :
    ((call.exec plat answers).after s).term.init = true ∧
      Slots.Distinct (-1) ((call.exec plat answers).after s).term.fd := by
  by_cases applied : ∃ fd now, call = .apply fd now ∧ (call.exec plat answers).outcome s = .ok ()
  · obtain ⟨fd, now, rfl, ok⟩ := applied
    rcases apply_slots answers fd now init with
      ⟨-, failed⟩ | ⟨-, -, -, -, same, keys, -⟩
    · exact absurd ok failed
    · exact ⟨same.trans init, keys ▸ distinct⟩
  · have kept := call_keepsEntries plat answers init fresh
      (fun fd now same ok => applied ⟨fd, now, same, ok⟩)
    exact ⟨kept.init.trans init, kept.distinct distinct⟩

theorem Reached.invariant (reached : Reached plat s) :
    s.term.init = true ∧ Slots.Distinct (-1) s.term.fd := by
  induction reached with
  | start started =>
      obtain ⟨init, unused⟩ := termLibInit_empty started
      exact ⟨init, fun i j used => absurd (unused i) used⟩
  | call _ call answers fresh ih => exact Reached.step ih.1 ih.2 fresh
  | outside _ w ih => exact ih

/-! ### The original settings along a run -/

theorem withHupcl_self (t : Termios) : withHupcl t t.cCflag = t := by
  have same : (t.cCflag &&& ~~~hupcl) ||| (t.cCflag &&& hupcl) = t.cCflag := by
    apply BitVec.eq_of_getLsbD_eq
    intro k inside
    simp only [BitVec.getLsbD_or, BitVec.getLsbD_and, BitVec.getLsbD_not, inside]
    cases t.cCflag.getLsbD k <;> cases hupcl.getLsbD k <;> rfl
  simp [withHupcl, same]

theorem copyHupcl_withHupcl (applied orig : Termios) (h : Word) :
    copyHupcl applied (withHupcl orig h) = withHupcl orig applied.cCflag := by
  unfold copyHupcl
  split
  · next raised =>
    have bit := hupcl_of_ne_zero raised
    have same : (orig.cCflag &&& ~~~hupcl ||| h &&& hupcl) ||| hupcl
        = orig.cCflag &&& ~~~hupcl ||| hupcl := by
      apply BitVec.eq_of_getLsbD_eq
      intro k inside
      simp only [BitVec.getLsbD_or, BitVec.getLsbD_and, BitVec.getLsbD_not, inside]
      cases orig.cCflag.getLsbD k <;> cases hupcl.getLsbD k <;> simp
    simp [withHupcl, bit, same]
  · next lowered =>
    have bit : applied.cCflag &&& hupcl = 0 := not_not.mp lowered
    have same : (orig.cCflag &&& ~~~hupcl ||| h &&& hupcl) &&& ~~~hupcl
        = orig.cCflag &&& ~~~hupcl ||| 0 := by
      apply BitVec.eq_of_getLsbD_eq
      intro k inside
      simp only [BitVec.getLsbD_or, BitVec.getLsbD_and, BitVec.getLsbD_not, inside]
      cases orig.cCflag.getLsbD k <;> cases hupcl.getLsbD k <;> simp
    simp [withHupcl, bit, same]

/-- What holds of the entry in slot `i`, added when its device had the settings `orig`. -/
structure Remembers (s : Sys) (i : Slot) (orig : Termios) (h : Word) : Prop where
  init : s.term.init = true
  distinct : Slots.Distinct (-1) s.term.fd
  real : 0 ≤ s.term.fd i
  orig : s.term.origtermios i = withHupcl orig h

/-- A descriptor that was just added has the settings of its device as original settings. -/
theorem added_remembers {fd : Int} {v : Slot} {replies : Replies} (init : s.term.init = true)
    (distinct : Slots.Distinct (-1) s.term.fd)
    (added : (termAdd replies fd).run s = .ok v s') (slot : s'.term.find fd = .ok i) :
    Remembers s' i (s.world.settingsOf fd) (s.world.settingsOf fd).cCflag := by
  rcases Term.find_cases init fd with ⟨j, found, -⟩ | ⟨-, lost⟩
  · rw [run_termAdd_managed found] at added
    cases added
  · rcases termAdd_cases replies init lost with
      ⟨e, ran, -⟩ | ⟨j, unused, -, terminal, -, ran⟩
    · rw [ran] at added
      cases added
    · rw [ran] at added
      cases added
      have here := find_of_added init lost (i := j) (s.world.settingsOf fd)
      have same : j = i := by
        rw [here] at slot
        exact Except.ok.inj slot
      subst same
      have real : 0 ≤ fd := by
        simp only [isatty, Bool.and_eq_true, decide_eq_true_eq] at terminal
        exact terminal.1
      exact ⟨init, distinct.update lost j, by simp [real], by simp [withHupcl_self]⟩

/-- The step for a successful `term_apply` of the entry. -/
theorem Remembers.applied {orig : Termios} {now : Bool} (rem : Remembers s i orig h)
    (ok : (termApply answers.toReplies (s.term.fd i) now).outcome s = .ok ()) :
    Remembers ((termApply answers.toReplies (s.term.fd i) now).after s) i orig
      (((termApply answers.toReplies (s.term.fd i) now).after s).world.settingsOf
        (s.term.fd i)).cCflag := by
  rcases apply_slots answers (s.term.fd i) now rem.init with
    ⟨-, failed⟩ | ⟨j, key, -, -, init, keys, origs⟩
  · exact absurd ok failed
  · have same : j = i := rem.distinct (key ▸ ne_free_of_nonneg rem.real) key
    subst same
    refine ⟨init.trans rem.init, ?_, ?_, ?_⟩
    · rw [keys]
      exact rem.distinct
    · rw [keys]
      exact rem.real
    · rw [origs, Function.update_self, rem.orig, copyHupcl_withHupcl]

/-- The step for every other call that leaves the entry in place. -/
theorem Remembers.call {orig : Termios} {call : Call} (rem : Remembers s i orig h)
    (fresh : call.Fresh s.term)
    (other : ∀ now, call = .apply (s.term.fd i) now →
      (call.exec plat answers).outcome s ≠ .ok ())
    (stays : ((call.exec plat answers).after s).term.fd i ≠ -1) :
    Remembers ((call.exec plat answers).after s) i orig h := by
  by_cases applied : ∃ fd now, call = .apply fd now ∧ (call.exec plat answers).outcome s = .ok ()
  · -- a successful `term_apply` of another entry
    obtain ⟨fd, now, rfl, ok⟩ := applied
    rcases apply_slots answers fd now rem.init with
      ⟨-, failed⟩ | ⟨j, key, -, -, init, keys, origs⟩
    · exact absurd ok failed
    · have apart : i ≠ j := by
        rintro rfl
        subst key
        exact other now rfl ok
      refine ⟨init.trans rem.init, ?_, ?_, ?_⟩
      · simpa only [Call.exec, keys] using rem.distinct
      · simpa only [Call.exec, keys] using rem.real
      · simpa only [Call.exec, origs, Function.update_of_ne apart] using rem.orig
  · have kept := call_keepsEntries plat answers rem.init fresh
      (fun fd now same ok => applied ⟨fd, now, same, ok⟩)
    rcases kept.entry i rem.real with gone | ⟨real, orig'⟩
    · exact absurd gone stays
    · exact ⟨kept.init.trans rem.init, kept.distinct rem.distinct, real, orig'.trans rem.orig⟩

/-- The run lemma. -/
theorem EntryRun.remembers {orig : Termios} (ran : EntryRun plat i s h s' h')
    (rem : Remembers s i orig h) : Remembers s' i orig h' := by
  induction ran with
  | nil => exact rem
  | applied _ now answers ok ih => exact ih.applied ok
  | call _ call answers fresh other stays ih => exact ih.call fresh other stays
  | outside _ w ih => exact ⟨ih.init, ih.distinct, ih.real, ih.orig⟩

/-! ### What is written when the entry leaves -/

/-- The settings that a turn of a reset loop writes. -/
def resetWrite (replies : Slot → Replies) (term : Term) (i : Slot) : List SetCall :=
  if term.fd i < 0 then []
  else
    match (replies i).tcsetattr (term.origtermios i) with
    | none => []
    | some _ => [⟨term.fd i, .tcsanow, term.origtermios i⟩]

theorem resetWorlds_written (replies : Slot → Replies) (term : Term) (slots : List Slot)
    (w : World) :
    (slots.foldl (resetWorld replies term) w).written
      = w.written ++ slots.flatMap (resetWrite replies term) := by
  induction slots generalizing w with
  | nil => simp
  | cons j rest ih =>
      have turn : (resetWorld replies term w j).written
          = w.written ++ resetWrite replies term j := by
        unfold resetWorld resetWrite
        split
        · simp
        · cases (replies j).tcsetattr (term.origtermios j) <;> simp [World.store]
      rw [List.foldl_cons, ih, turn, List.flatMap_cons, List.append_assoc]

theorem mem_resetWrites {replies : Slot → Replies} {term : Term} {c : SetCall} :
    c ∈ (List.finRange maxTerms).flatMap (resetWrite replies term) ↔
      ∃ j, 0 ≤ term.fd j ∧ ((replies j).tcsetattr (term.origtermios j)).isSome ∧
        c = ⟨term.fd j, .tcsanow, term.origtermios j⟩ := by
  rw [List.mem_flatMap]
  apply exists_congr
  intro j
  unfold resetWrite
  split
  · next negative => simp [not_le.mpr negative]
  · next real =>
    cases (replies j).tcsetattr (term.origtermios j) <;> simp [not_lt.mp real]

/-- The settings written for the entry in slot `i`, among those a call wrote. -/
structure Restores (s s' : Sys) (i : Slot) (t : Termios) : Prop where
  freed : s'.term.fd i = -1
  written : ∃ writes, s'.world.written = s.world.written ++ writes ∧
    ⟨s.term.fd i, .tcsanow, t⟩ ∈ writes ∧
    ∀ write ∈ writes, write.fd = s.term.fd i → write.termios = t

/-- A loop that resets every terminal restores every entry for which the reset succeeds. -/
theorem resetAll_restores {replies : Slot → Replies} {term' : Term}
    (distinct : Slots.Distinct (-1) s.term.fd) (real : 0 ≤ s.term.fd i)
    (set : ((replies i).tcsetattr (s.term.origtermios i)).isSome) (freed : term'.fd i = -1) :
    Restores s ⟨term', (List.finRange maxTerms).foldl (resetWorld replies s.term) s.world⟩ i
      (s.term.origtermios i) := by
  refine ⟨freed, _, resetWorlds_written replies s.term _ s.world, ?_, ?_⟩
  · exact mem_resetWrites.mpr ⟨i, real, set, rfl⟩
  · intro write inside same
    obtain ⟨j, -, -, rfl⟩ := mem_resetWrites.mp inside
    have here : i = j := distinct (ne_free_of_nonneg real) same.symm
    rw [here]

/-- A call by which the entry leaves writes its original settings to its descriptor. -/
theorem Leaves.restores {call : Call} (leaves : Leaves s i call answers) (init : s.term.init = true)
    (distinct : Slots.Distinct (-1) s.term.fd) (real : 0 ≤ s.term.fd i) :
    Restores s ((call.exec plat answers).after s) i (s.term.origtermios i) := by
  cases leaves with
  | remove flush set =>
      have found := (Term.find_eq_ok_iff init).mpr
        (Slots.find_of_distinct distinct (ne_free_of_nonneg real))
      have flushed : tcflush answers.toReplies (s.term.fd i) = true := by
        simp [tcflush, flush, real]
      obtain ⟨t, takes⟩ := Option.isSome_iff_exists.mp set
      simp only [TermM.after, Call.exec, run_termRemove_stores found real flushed takes, final_ok]
      refine ⟨by simp, _, rfl, by simp, ?_⟩
      simp
  | libInit set =>
      simp only [TermM.after, Call.exec, run_termLibInit_again init, final_ok]
      exact resetAll_restores distinct real set rfl
  | exitfunc set =>
      simp only [TermM.after, Call.exec, run_termExitfunc init, final_ok]
      exact resetAll_restores distinct real set rfl

end Runs

/-- Whatever is called between a successful `term_add` and the call by which the entry leaves, the
settings then written to its descriptor are those read at `term_add` with the `HUPCL` bit of the last
settings read back by a successful `term_apply` of the entry, or the bit they had if there was
none. -/
theorem original_settings_written (plat : Platform) {replies : Replies} {fd : Int} {i v : Slot}
    {s₀ s₁ s : Sys} {h : Word} (reached : Reached plat s₀)
    (added : (termAdd replies fd).run s₀ = .ok v s₁) (slot : s₁.term.find fd = .ok i)
    (ran : EntryRun plat i s₁ (s₀.world.settingsOf fd).cCflag s h)
    {call : Call} {answers : Answers} (leaves : Leaves s i call answers) :
    Restores s ((call.exec plat answers).after s) i (withHupcl (s₀.world.settingsOf fd) h) := by
  obtain ⟨init, distinct⟩ := reached.invariant
  have rem := ran.remembers (added_remembers init distinct added slot)
  rw [← rem.orig]
  exact leaves.restores rem.init rem.distinct rem.real

/-- A terminal is added, its next settings get `HUPCL` and are applied, and it is removed. -/
theorem original_settings_written_after_apply :
    let replies : Answers := ⟨allSucceed, fun _ => allSucceed⟩
    ∃ s₀ s : Sys, Restores s ((Call.exec ⟨false, true⟩ replies (.remove 3)).after s) 0
      (withHupcl (s₀.world.settingsOf 3) hupcl) := by
  intro replies
  let s₀ : Sys := ⟨{ Term.static with init := true, fd := fun _ => -1 }, startSys.world⟩
  have reached : Reached ⟨false, true⟩ s₀ :=
    .start (show (termLibInit true fun _ => allSucceed).run startSys = .ok () s₀ from
      run_termLibInit_first rfl true)
  let s₁ := (termAdd allSucceed 3).after s₀
  let s₂ := ((Call.setOne (.hupcl true) 3).exec ⟨false, true⟩ replies).after s₁
  let s₃ := (termApply allSucceed (s₂.term.fd 0) true).after s₂
  have set : EntryRun ⟨false, true⟩ 0 s₁ (s₀.world.settingsOf 3).cCflag s₂
      (s₀.world.settingsOf 3).cCflag :=
    .call (.nil s₁ _) (.setOne (.hupcl true) 3) replies trivial nofun (by decide +kernel)
  have ran := EntryRun.applied set true replies rfl
  have bit : (((termApply replies.toReplies (s₂.term.fd 0) true).after s₂).world.settingsOf
      (s₂.term.fd 0)).cCflag = hupcl := by decide +kernel
  rw [bit] at ran
  have leaves : Leaves s₃ 0 (.remove 3) replies := .remove rfl rfl
  have added : (termAdd allSucceed 3).run s₀ = .ok 0 s₁ := rfl
  exact ⟨s₀, s₃, original_settings_written ⟨false, true⟩ reached added rfl ran leaves⟩

end Ppcom
