/-
Module: Ppcom.Proofs.TermDescriptors
Purpose: Which descriptors the terminal framework knows. One that it does not manage is rejected by
  every call, but for the marker of free slots; and none is in two slots, but for what `term_replace`
  installs without a search.
Trusted boundary: none
Main exports: Rejected, rejected_iff, FrameworkAct, Call.Duplicates, OnceEach,
  descriptors_distinct_iff
-/
import Ppcom.Lib.Machine
import Ppcom.Proofs.TermOriginal

namespace Ppcom

open Program

/-! ### Unmanaged descriptors -/

/-- The calls that look for `fd` in the framework and work on what they find. -/
def Call.LooksUp (fd : Int) : Call → Prop
  | .remove fd' | .erase fd' | .replace fd' _ | .reset fd' | .revert fd' | .refresh fd'
  | .apply fd' _ | .setOne _ fd' | .fakeFlush fd' | .query _ fd' => fd' = fd
  | .add _ | .set .. | .libInit | .exitfunc => False

/-- Every call on `fd` fails with `TERM_ENOTFOUND` and changes nothing, and `term_add` does not find
it. -/
structure Rejected (plat : Platform) (s : Sys) (fd : Int) : Prop where
  calls : ∀ (call : Call) (answers : Answers), call.LooksUp fd →
    (call.exec plat answers).run s = .error .enotfound s
  add : ∀ replies, (termAdd replies fd).outcome s ≠ .error .eexists

section Unmanaged

variable {plat : Platform} {answers : Answers} {s : Sys} {fd : Int} {e : TermErrno}

theorem run_query_lost (lost : s.term.find fd = .error e) (which : Query) :
    (which.exec plat answers.toReplies fd).run s = .error e s := by
  have found : (termFind fd).run s = .error e s := by simp [lost]
  have search := run_discard_error found
  cases which with
  | getBaudrate | getParity | getDatabits | getStopbits | getFlowcntrl =>
      apply run_discard_error
      simp [termGetBaudrate, termGetParity, termGetDatabits, termGetStopbits, termGetFlowcntrl, lost]
  | getMctl =>
      apply run_discard_error
      simp [termGetMctl, search]
  | pulseDtr => simp [Query.exec, termPulseDtr, termLowerDtr, lowerLine, search]
  | lowerDtr => simp [Query.exec, termLowerDtr, lowerLine, search]
  | raiseDtr => simp [Query.exec, termRaiseDtr, raiseLine, search]
  | lowerRts => simp [Query.exec, termLowerRts, lowerLine, search]
  | raiseRts => simp [Query.exec, termRaiseRts, raiseLine, search]
  | drain => simp [Query.exec, termDrain, search]
  | flush => simp [Query.exec, termFlush, search]
  | brk => simp [Query.exec, termBreak, search]

/-- A call on a descriptor that is not found ends with the error of the search. -/
theorem run_call_lost (lost : s.term.find fd = .error e) {call : Call}
    (looksUp : call.LooksUp fd) : (call.exec plat answers).run s = .error e s := by
  cases call with
  | add | set | libInit | exitfunc => exact looksUp.elim
  | remove => exact looksUp ▸ run_termRemove_lost lost _
  | erase => exact looksUp ▸ run_termErase_lost lost
  | replace _ newfd => exact looksUp ▸ run_termReplace_lost lost _ newfd
  | reset => exact looksUp ▸ run_termReset_lost lost _
  | revert => exact looksUp ▸ run_termRevert_lost lost
  | refresh => exact looksUp ▸ run_termRefresh_lost lost _
  | apply _ now => exact looksUp ▸ run_termApply_lost lost _ now
  | setOne setter =>
      rw [Call.exec, setter.exec_eq, looksUp]
      exact run_setParameter_lost lost _
  | fakeFlush => exact looksUp ▸ run_termFakeFlush_lost lost _
  | query which => exact looksUp ▸ run_query_lost lost which

/-- A descriptor that is in no slot is rejected. -/
theorem rejected_of_absent (init : s.term.init = true) (absent : ∀ i, s.term.fd i ≠ fd) :
    Rejected plat s fd := by
  have lost := (Term.find_eq_error_iff init).mpr absent
  constructor
  · intro call answers looksUp
    exact run_call_lost lost looksUp
  · intro replies
    unfold TermM.outcome
    cases terminal : isatty replies fd with
    | false => simp [run_termAdd_noTerminal lost terminal]
    | true =>
        rcases Term.findNextFree_cases init with ⟨i, room, -⟩ | ⟨full, -⟩
        · cases read : replies.tcgetattr with
          | false => simp [run_termAdd_unread lost terminal room read]
          | true => simp [run_termAdd_adds lost terminal room read]
        · simp [run_termAdd_full lost terminal full]

/-- Any number is rejected exactly if it is no managed descriptor, and it is not the marker of free
slots while there is a free slot. -/
theorem rejected_iff (plat : Platform) (s : Sys) (fd : Int) (init : s.term.init = true) :
    Rejected plat s fd ↔
      fd ∉ Slots.managed (-1) s.term.fd ∧ (fd = -1 → ∀ i, s.term.fd i ≠ -1) := by
  have absent : (∀ i, s.term.fd i ≠ fd) ↔
      fd ∉ Slots.managed (-1) s.term.fd ∧ (fd = -1 → ∀ i, s.term.fd i ≠ -1) := by
    by_cases marker : fd = -1
    · simp [Slots.managed, marker]
    · simp [Slots.managed, marker]
  rw [← absent]
  constructor
  · intro rejected
    rcases Term.find_cases init fd with ⟨i, found, -⟩ | ⟨-, lost⟩
    · have failed := rejected.calls (.erase fd) ⟨allSucceed, fun _ => allSucceed⟩ rfl
      rw [Call.exec, run_termErase_found found] at failed
      cases failed
    · exact lost
  · exact rejected_of_absent init

end Unmanaged

/-- An initialised framework without descriptors. -/
def emptySys : Sys := ⟨{ Term.static with init := true, fd := fun _ => -1 }, startSys.world⟩

theorem seven_rejected : Rejected ⟨false, true⟩ emptySys 7 :=
  (rejected_iff ⟨false, true⟩ emptySys 7 rfl).mpr (by simp [Slots.managed, emptySys])

/-- The marker of free slots was never added, and it is not rejected: the search finds a free slot, and
`term_erase` succeeds. -/
theorem marker_not_rejected : (-1) ∉ Slots.managed (-1) emptySys.term.fd ∧
    ¬ Rejected ⟨false, true⟩ emptySys (-1) := by
  constructor
  · exact fun managed => managed.1 rfl
  · intro rejected
    have failed := rejected.calls (.erase (-1)) ⟨allSucceed, fun _ => allSucceed⟩ rfl
    have found : emptySys.term.find (-1) = .ok 0 := by decide
    rw [Call.exec, run_termErase_found found] at failed
    cases failed

/-! ### Descriptors in one slot each -/

/-- What happens to the framework: a call on real descriptors with the replies it gets, or others change
the devices. -/
inductive FrameworkAct where
  | call (call : Call) (answers : Answers) (real : ∀ fd ∈ call.names, 0 ≤ fd)
  | outside (w : World)

/-- What it does, and the outcome of a call. -/
def frameworkStep (plat : Platform) (s : Sys) :
    FrameworkAct → Option (Sys × Except TermErrno Unit)
  | .call call answers _ => some ((call.exec plat answers).after s, (call.exec plat answers).outcome s)
  | .outside w => some (⟨s.term, w⟩, .ok ())

/-- The runs of the framework from the start of the program. -/
abbrev FrameworkRuns (plat : Platform) (w : World) :=
  Machine.Run (frameworkStep plat) ⟨Term.static, w⟩

/-- `term_replace` of a managed descriptor gives its slot a descriptor that another slot has. -/
def Call.Duplicates (s : Sys) (answers : Answers) : Call → Prop
  | .replace oldfd newfd => ∃ i, s.term.find oldfd = .ok i ∧
      (answers.tcsetattr (s.term.currtermios i)).isSome ∧ answers.tcgetattr = true ∧
      ∃ j ≠ i, s.term.fd j = newfd
  | _ => False

/-- The same for what happens. -/
def FrameworkAct.Duplicates (s : Sys) : FrameworkAct → Prop
  | .call c answers _ => c.Duplicates s answers
  | .outside _ => False

/-- What a step leaves where every descriptor is managed once: an initialised framework has none in two
slots, and after `term_remove` or `term_erase` has succeeded none has the descriptor. -/
structure OnceEach (st : Machine.Step Sys FrameworkAct (Except TermErrno Unit)) : Prop where
  distinct : st.after.term.init = true → Slots.Distinct (-1) st.after.term.fd
  removed : ∀ fd answers real, st.input = .call (.remove fd) answers real ∨
    st.input = .call (.erase fd) answers real → st.output = .ok () → ∀ i, st.after.term.fd i ≠ fd

section Distinct

variable {plat : Platform} {answers : Answers} {s : Sys} {call : Call} {fd newfd : Int}

/-- Before `term_lib_init` every search fails. -/
theorem find_uninit (uninit : s.term.init = false) (fd : Int) :
    s.term.find fd = .error .enoinit := by
  simp [Term.find, uninit]

theorem run_termAdd_uninit (uninit : s.term.init = false) (replies : Replies) :
    ∃ e, (termAdd replies fd).run s = .error e s := by
  have lost := find_uninit uninit fd
  cases terminal : isatty replies fd with
  | false => exact ⟨_, run_termAdd_noTerminal lost terminal⟩
  | true =>
      have full : s.term.findNextFree = .error .enoinit := by simp [Term.findNextFree, uninit]
      exact ⟨_, run_termAdd_full lost terminal full⟩

/-- Before `term_lib_init` no other call initialises the framework. -/
theorem uninit_kept (uninit : s.term.init = false) (other : call ≠ .libInit) :
    ((call.exec plat answers).after s).term.init = false := by
  have lost := find_uninit uninit
  have keeps {fd : Int} (looksUp : call.LooksUp fd) :
      ((call.exec plat answers).after s).term.init = false := by
    rw [TermM.after, run_call_lost (lost fd) looksUp]
    exact uninit
  cases call with
  | add fd =>
      obtain ⟨e, ran⟩ := run_termAdd_uninit uninit answers.toReplies
      rw [TermM.after, Call.exec, run_discard_error ran]
      exact uninit
  | set fd params =>
      obtain ⟨e, ran⟩ := run_termAdd_uninit uninit answers.toReplies
      rw [TermM.after, Call.exec, run_termSet_unadded (lost fd) ran]
      exact uninit
  | libInit => exact absurd rfl other
  | exitfunc => simp [Call.exec, termExitfunc, TermM.after, uninit]
  | _ => exact keeps rfl

/-- `term_lib_init` leaves no slot in use. -/
theorem libInit_distinct (atexitOk : Bool) (replies : Slot → Replies) :
    Slots.Distinct (-1) ((termLibInit atexitOk replies).after s).term.fd := by
  suffices unused : ∀ i, ((termLibInit atexitOk replies).after s).term.fd i = -1 from
    fun i j used => absurd (unused i) used
  intro i
  unfold TermM.after
  cases init : s.term.init with
  | true => rw [run_termLibInit_again init]; rfl
  | false =>
      rw [run_termLibInit_first init]
      cases atexitOk <;> rfl

/-- `term_replace` keeps the descriptors distinct exactly if it duplicates none. -/
theorem replace_distinct (init : s.term.init = true) (distinct : Slots.Distinct (-1) s.term.fd)
    (real : 0 ≤ newfd) :
    (((Call.replace fd newfd).exec plat answers).after s).term.init = true ∧
      (Slots.Distinct (-1) (((Call.replace fd newfd).exec plat answers).after s).term.fd ↔
        ¬ (Call.replace fd newfd).Duplicates s answers) := by
  unfold TermM.after Call.exec Call.Duplicates
  rcases Term.find_cases init fd with ⟨i, found, -⟩ | ⟨absent, -⟩
  · cases set : answers.tcsetattr (s.term.currtermios i) with
    | none =>
        rw [run_termReplace_fails found set]
        simp [found, set, distinct, init]
    | some t =>
        cases read : answers.tcgetattr with
        | false =>
            rw [run_termReplace_unread found real set read]
            simp [distinct, init]
        | true =>
            have marker : newfd ≠ -1 := by omega
            rw [run_termReplace_moves found real set read, final_ok, distinct.update_iff marker]
            simp [found, set, init]
  · rw [run_termReplace_lost absent]
    simp [absent, distinct, init]

/-- A call keeps the descriptors distinct exactly if it duplicates none. -/
theorem call_distinct (init : s.term.init = true) (distinct : Slots.Distinct (-1) s.term.fd)
    (real : ∀ fd ∈ call.names, 0 ≤ fd) :
    ((call.exec plat answers).after s).term.init = true ∧
      (Slots.Distinct (-1) ((call.exec plat answers).after s).term.fd ↔
        ¬ call.Duplicates s answers) := by
  by_cases replaces : ∃ fd newfd, call = .replace fd newfd
  · obtain ⟨fd, newfd, rfl⟩ := replaces
    exact replace_distinct init distinct (real newfd (by simp [Call.names]))
  · have other : call.Fresh s.term ∧ ¬ call.Duplicates s answers := by
      cases call with
      | replace fd newfd => exact absurd ⟨fd, newfd, rfl⟩ replaces
      | _ => exact ⟨trivial, id⟩
    obtain ⟨kept, same⟩ := Reached.step init distinct other.1
    exact ⟨kept, iff_of_true same other.2⟩

/-- What `term_remove` or `term_erase` has taken out is in no slot. -/
theorem removed_absent (init : s.term.init = true) (distinct : Slots.Distinct (-1) s.term.fd)
    (real : 0 ≤ fd) (removes : call = .remove fd ∨ call = .erase fd)
    (ok : (call.exec plat answers).outcome s = .ok ()) (i : Slot) :
    ((call.exec plat answers).after s).term.fd i ≠ fd := by
  have freed {j : Slot} (found : s.term.find fd = .ok j) :
      Function.update s.term.fd j (-1) i ≠ fd := by
    have key := Slots.key_of_find ((Term.find_eq_ok_iff init).mp found)
    by_cases here : i = j
    · rw [here, Function.update_self]
      omega
    · rw [Function.update_of_ne here]
      intro same
      have used : s.term.fd i ≠ -1 := by omega
      exact here (distinct used (same.trans key.symm))
  unfold TermM.outcome at ok
  unfold TermM.after
  rcases Term.find_cases init fd with ⟨j, found, -⟩ | ⟨absent, -⟩
  · rcases removes with rfl | rfl
    · rw [Call.exec] at ok ⊢
      cases flush : tcflush answers.toReplies fd with
      | false =>
          rw [run_termRemove_unflushed found flush] at ok
          cases ok
      | true =>
          cases set : answers.tcsetattr (s.term.origtermios j) with
          | none =>
              rw [run_termRemove_fails found flush set] at ok
              cases ok
          | some t =>
              rw [run_termRemove_stores found real flush set]
              exact freed found
    · rw [Call.exec, run_termErase_found found]
      exact freed found
  · rcases removes with rfl | rfl
    · rw [Call.exec, run_termRemove_lost absent] at ok
      cases ok
    · rw [Call.exec, run_termErase_lost absent] at ok
      cases ok

/-- Before `term_lib_init` nothing is removed. -/
theorem removed_init (removes : call = .remove fd ∨ call = .erase fd)
    (ok : (call.exec plat answers).outcome s = .ok ()) : s.term.init = true := by
  by_contra uninit
  have lost := find_uninit (Bool.eq_false_iff.mpr uninit) fd
  have looksUp : call.LooksUp fd := by rcases removes with rfl | rfl <;> rfl
  rw [TermM.outcome, run_call_lost lost looksUp] at ok
  cases ok

/-- Where a descriptor is duplicated the framework is initialised. -/
theorem Call.Duplicates.init (duplicates : call.Duplicates s answers) : s.term.init = true := by
  by_contra uninit
  cases call with
  | replace oldfd newfd =>
      obtain ⟨i, found, -⟩ := duplicates
      rw [find_uninit (Bool.eq_false_iff.mpr uninit)] at found
      cases found
  | _ => exact duplicates

end Distinct

/-- In an initialised framework no descriptor is in two slots. -/
def Sys.Distinct (s : Sys) : Prop := s.term.init = true → Slots.Distinct (-1) s.term.fd

section Steps

variable {plat : Platform} {s s' : Sys} {act : FrameworkAct} {outcome : Except TermErrno Unit}

/-- The step lemma: a step keeps the descriptors distinct exactly if it duplicates none. -/
theorem step_distinct (made : frameworkStep plat s act = some (s', outcome))
    (before : s.Distinct) : s'.Distinct ↔ ¬ act.Duplicates s := by
  cases act with
  | outside w =>
      cases made
      exact iff_of_true before id
  | call c answers real =>
      cases made
      cases init : s.term.init with
      | true =>
          obtain ⟨kept, same⟩ := call_distinct init (before init) real
          exact ⟨fun after => same.mp (after kept), fun single _ => same.mpr single⟩
      | false =>
          have single : ¬ c.Duplicates s answers := by
            intro duplicates
            rw [duplicates.init] at init
            cases init
          apply iff_of_true _ single
          by_cases inits : c = .libInit
          · subst inits
            exact fun _ => libInit_distinct answers.atexit answers.ofSlot
          · intro after
            rw [uninit_kept init inits] at after
            cases after

/-- A step that removes a descriptor leaves it in no slot. -/
theorem step_removed (made : frameworkStep plat s act = some (s', outcome)) (before : s.Distinct)
    {fd : Int} {answers : Answers} {c : Call} {real : ∀ fd ∈ c.names, 0 ≤ fd}
    (is : act = .call c answers real) (removes : c = .remove fd ∨ c = .erase fd)
    (ok : outcome = .ok ()) (i : Slot) : s'.term.fd i ≠ fd := by
  subst is
  cases made
  have init := removed_init removes ok
  have named : 0 ≤ fd := real fd (by rcases removes with rfl | rfl <;> simp [Call.names])
  exact removed_absent init (before init) named removes ok i

end Steps

/-- In a run from the start of the program every descriptor is managed once, at every time, and none
after it was removed, exactly if no `term_replace` gives a slot a descriptor that another slot has. -/
theorem descriptors_distinct_iff (plat : Platform) {w : World}
    {made : List (Machine.Step Sys FrameworkAct (Except TermErrno Unit))} {s : Sys}
    (run : FrameworkRuns plat w made s) :
    (∀ st ∈ made, OnceEach st) ↔ ∀ st ∈ made, ¬ st.input.Duplicates st.before := by
  have first : Sys.Distinct ⟨Term.static, w⟩ := fun init => nomatch init
  constructor
  · intro once st inside
    have all := run.guarded (G := fun st => st.after.Distinct) first (fun _ _ after _ => after)
      fun st inside => (once st inside).distinct
    obtain ⟨before, of⟩ := all.2 st inside
    exact (step_distinct of before).mp (once st inside).distinct
  · intro single st inside
    have all := run.guarded (G := fun st => ¬ st.input.Duplicates st.before) first
      (fun st of guard before => (step_distinct of before).mpr guard) single
    obtain ⟨before, of⟩ := all.2 st inside
    refine ⟨(step_distinct of before).mpr (single st inside), ?_⟩
    rintro fd answers real (is | is) ok
    · exact step_removed of before is (.inl rfl) ok
    · exact step_removed of before is (.inr rfl) ok

/-- A run goes on with a call on a system in which every call succeeds. -/
theorem framework_goes_on {plat : Platform} {w : World} {s : Sys}
    {made : List (Machine.Step Sys FrameworkAct (Except TermErrno Unit))}
    (run : FrameworkRuns plat w made s) (c : Call) (real : ∀ fd ∈ c.names, 0 ≤ fd) :
    FrameworkRuns plat w
      (made ++ [⟨s, .call c ⟨allSucceed, fun _ => allSucceed⟩ real,
        (c.exec plat ⟨allSucceed, fun _ => allSucceed⟩).after s,
        (c.exec plat ⟨allSucceed, fun _ => allSucceed⟩).outcome s⟩])
      ((c.exec plat ⟨allSucceed, fun _ => allSucceed⟩).after s) :=
  run.step rfl

/-- Two terminals are added. -/
def addedSys : Sys :=
  ((Call.add 4).exec ⟨false, true⟩ ⟨allSucceed, fun _ => allSucceed⟩).after
    (((Call.add 3).exec ⟨false, true⟩ ⟨allSucceed, fun _ => allSucceed⟩).after
      ((Call.libInit.exec ⟨false, true⟩ ⟨allSucceed, fun _ => allSucceed⟩).after startSys))

theorem addedSys_run : ∃ made, FrameworkRuns ⟨false, true⟩ startSys.world made addedSys ∧
    ∀ st ∈ made, ¬ st.input.Duplicates st.before := by
  have inits := @framework_goes_on ⟨false, true⟩ startSys.world _ _ .start .libInit nofun
  have first := framework_goes_on inits (.add 3) (by simp [Call.names])
  have second := framework_goes_on first (.add 4) (by simp [Call.names])
  refine ⟨_, second, ?_⟩
  simp [FrameworkAct.Duplicates, Call.Duplicates]

/-- Each of them is managed once. -/
theorem addedSys_once : ∃ made, FrameworkRuns ⟨false, true⟩ startSys.world made addedSys ∧
    ∀ st ∈ made, OnceEach st := by
  obtain ⟨made, run, single⟩ := addedSys_run
  exact ⟨made, run, (descriptors_distinct_iff ⟨false, true⟩ run).mpr single⟩

/-- When 3 is replaced by 4, which is managed, two slots have it, and one has it still when 4 was
removed. -/
theorem descriptor_twice : ∃ made s, FrameworkRuns ⟨false, true⟩ startSys.world made s ∧
    s.term.init = true ∧ s.term.fd 0 = 4 ∧ s.term.fd 1 = 4 ∧
    (termErase 4).outcome s = .ok () ∧ ((termErase 4).after s).term.fd 1 = 4 := by
  obtain ⟨made, run, -⟩ := addedSys_run
  refine ⟨_, _, framework_goes_on run (.replace 3 4) (by simp [Call.names]), ?_⟩
  exact ⟨rfl, by decide, by decide, by decide, by decide⟩

end Ppcom
