/-
Module: Ppcom.Proofs.FakeFlush
Purpose: `term_fake_flush` takes the flow control of a port away, waits, and gives it back. Where the
  wait fails, it does not give it back.
Trusted boundary: none
Main exports: Temporary, StuckWithout, fakeFlush_temporary_iff, fakeFlush_not_temporary
-/
import Ppcom.Proofs.TermCalls

namespace Ppcom

section Runs

variable {s : Sys} {fd : Int} {i : Slot} {replies : Replies}

/-- The state in which the settings of the device are those noted as current. -/
def Sys.noted (s : Sys) (i : Slot) (tio : Termios) : Sys :=
  { s with term := { s.term with currtermios := Function.update s.term.currtermios i tio } }

/-- The state after a `tcsetattr` that stored `stored`. -/
def Sys.stored (s : Sys) (fd : Int) (t stored : Termios) : Sys :=
  { s with world := s.world.store fd .tcsanow t stored }

variable (found : s.term.find fd = .ok i)

include found

theorem run_termFakeFlush_unread (fails : fd < 0 ∨ replies.tcgetattr = false) :
    (termFakeFlush replies fd).run s = .error .egetattr s := by
  have unread : (tcgetattr replies.tcgetattr fd).run s = .ok none s := by
    rcases fails with negative | fails
    · simp [tcgetattr, negative]
    · rw [fails, run_tcgetattr_fails]
  simp [termFakeFlush, found, unread]

theorem run_termFakeFlush_unset (real : 0 ≤ fd) (reads : replies.tcgetattr = true)
    (fails : replies.tcsetattr (withoutFlow (s.world.settingsOf fd)) = none) :
    (termFakeFlush replies fd).run s =
      .error .esetattr (s.noted i (s.world.settingsOf fd)) := by
  simp [termFakeFlush, found, reads, run_tcgetattr_reads real, run_tcsetattr_fails fails, Sys.noted]

theorem run_termFakeFlush_undrained {stored : Termios} (real : 0 ≤ fd)
    (reads : replies.tcgetattr = true)
    (takes : replies.tcsetattr (withoutFlow (s.world.settingsOf fd)) = some stored)
    (stuck : replies.tcdrain = false) :
    (termFakeFlush replies fd).run s =
      .error .edrain ((s.noted i (s.world.settingsOf fd)).stored fd
        (withoutFlow (s.world.settingsOf fd)) stored) := by
  simp [termFakeFlush, found, reads, run_tcgetattr_reads real, run_tcsetattr_stores real takes,
    tcdrain, stuck, Sys.noted, Sys.stored]

theorem run_termFakeFlush_drained {stored : Termios} (real : 0 ≤ fd)
    (reads : replies.tcgetattr = true)
    (takes : replies.tcsetattr (withoutFlow (s.world.settingsOf fd)) = some stored)
    (drains : replies.tcdrain = true)
    (restores : replies.restore (s.world.settingsOf fd) = some (s.world.settingsOf fd)) :
    (termFakeFlush replies fd).run s =
      .ok () (((s.noted i (s.world.settingsOf fd)).stored fd
        (withoutFlow (s.world.settingsOf fd)) stored).stored fd
          (s.world.settingsOf fd) (s.world.settingsOf fd)) := by
  simp [termFakeFlush, found, reads, run_tcgetattr_reads real, run_tcsetattr_stores real takes,
    tcdrain, drains, real, run_tcsetattr_stores real restores, Sys.noted, Sys.stored]

end Runs

/-! ### Settings that come back -/

/-- The devices have the settings they had, and those that slot `i` notes as current are as they were
or those of the device. -/
structure Temporary (i : Slot) (fd : Int) (s s' : Sys) : Prop where
  settings : s'.world.settings = s.world.settings
  current : s'.term.currtermios i = s.term.currtermios i ∨
    s'.term.currtermios i = s.world.settingsOf fd

/-- The flow control is taken away, which changes the settings, and the wait fails. -/
def StuckWithout (replies : Replies) (fd : Int) (s : Sys) : Prop :=
  0 ≤ fd ∧ replies.tcgetattr = true ∧ replies.tcdrain = false ∧
    ∃ stored, replies.tcsetattr (withoutFlow (s.world.settingsOf fd)) = some stored ∧
      stored ≠ s.world.settingsOf fd

theorem update_settings_iff {w : World} {fd : Int} {stored : Termios} :
    Function.update w.settings (w.device fd) stored = w.settings ↔ stored = w.settingsOf fd :=
  Function.update_eq_self_iff

/-- `term_fake_flush` is temporary, where the device takes its settings back, exactly when it is not
left waiting without flow control. -/
theorem fakeFlush_temporary_iff {s : Sys} {fd : Int} {i : Slot} {replies : Replies}
    (found : s.term.find fd = .ok i)
    (restores : replies.restore (s.world.settingsOf fd) = some (s.world.settingsOf fd)) :
    Temporary i fd s ((termFakeFlush replies fd).after s) ↔ ¬ StuckWithout replies fd s := by
  unfold TermM.after
  by_cases unread : fd < 0 ∨ replies.tcgetattr = false
  · rw [run_termFakeFlush_unread found unread]
    refine iff_of_true ⟨rfl, .inl rfl⟩ ?_
    rintro ⟨real, reads, -⟩
    rcases unread with negative | fails
    · omega
    · exact Bool.false_ne_true (fails.symm.trans reads)
  obtain ⟨real, reads⟩ := not_or.mp unread
  rw [Bool.not_eq_false] at reads
  have real := Int.not_lt.mp real
  have noted : (s.noted i (s.world.settingsOf fd)).term.currtermios i = s.world.settingsOf fd :=
    Function.update_self ..
  cases set : replies.tcsetattr (withoutFlow (s.world.settingsOf fd)) with
  | none =>
      rw [run_termFakeFlush_unset found real reads set]
      refine iff_of_true ⟨rfl, .inr noted⟩ ?_
      rintro ⟨-, -, -, stored, takes, -⟩
      cases set.symm.trans takes
  | some stored =>
      cases waited : replies.tcdrain with
      | true =>
          rw [run_termFakeFlush_drained found real reads set waited restores]
          refine iff_of_true ⟨?_, .inr noted⟩ fun stuck =>
            Bool.false_ne_true (stuck.2.2.1.symm.trans waited)
          -- the second `tcsetattr` overwrites what the first stored
          change Function.update (Function.update s.world.settings (s.world.device fd) stored)
            (s.world.device fd) (s.world.settingsOf fd) = s.world.settings
          rw [Function.update_idem, update_settings_iff]
      | false =>
          rw [run_termFakeFlush_undrained found real reads set waited]
          constructor
          · rintro same ⟨-, -, -, stored', takes, changed⟩
            cases set.symm.trans takes
            exact changed (update_settings_iff.mp same.settings)
          · intro free
            refine ⟨update_settings_iff.mpr ?_, .inr noted⟩
            by_contra changed
            exact free ⟨real, reads, waited, stored, set, changed⟩

/-- A port, descriptor 3, in slot 0, whose device has `tio`. -/
def flowPort (tio : Termios) : Sys where
  term := { Term.static with init := true, fd := fun i => if i = 0 then 3 else -1 }
  world := ⟨Int.toNat, fun _ => tio, []⟩

/-- Settings with flow control by the hardware. -/
def rtsctsTermios : Termios := { Termios.zero with cCflag := crtscts }

theorem fakeFlush_temporary_drained :
    Temporary 0 3 (flowPort rtsctsTermios)
      ((termFakeFlush allSucceed 3).after (flowPort rtsctsTermios)) := by
  apply (fakeFlush_temporary_iff (i := 0) rfl rfl).mpr
  intro stuck
  exact Bool.false_ne_true (stuck.2.2.1.symm.trans rfl)

/-- Where a signal interrupts the wait, the device is left without flow control. -/
theorem fakeFlush_not_temporary :
    ¬ ∀ (s : Sys) (fd : Int) (i : Slot) (replies : Replies), s.term.find fd = .ok i →
      replies.restore (s.world.settingsOf fd) = some (s.world.settingsOf fd) →
      Temporary i fd s ((termFakeFlush replies fd).after s) := by
  intro claim
  have temporary := claim (flowPort rtsctsTermios) 3 0 { allSucceed with tcdrain := false } rfl rfl
  rw [TermM.after, run_termFakeFlush_undrained (i := 0) rfl (by decide) rfl rfl rfl]
    at temporary
  have settings := congrFun temporary.settings 3
  change Function.update (fun _ => rtsctsTermios) 3 (withoutFlow rtsctsTermios) 3 = rtsctsTermios
    at settings
  rw [Function.update_self] at settings
  have flags : (withoutFlow rtsctsTermios).cCflag = crtscts := congrArg Termios.cCflag settings
  exact absurd flags (by decide)

end Ppcom
