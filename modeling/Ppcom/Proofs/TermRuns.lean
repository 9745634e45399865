/-
Module: Ppcom.Proofs.TermRuns
Purpose: Runs of the terminal framework: any sequence of calls after `term_lib_init`, with any
  replies of the system and any changes made to the devices by others in between. Every run is one of
  the map of managed descriptors.
Trusted boundary: none
Main exports: TermEvent, FrameworkRun, MapRun, EntryFrame, framework_refines_map
-/
import Ppcom.Proofs.TermRefinement

namespace Ppcom

/-- A step of a run: a call with the replies it got and its outcome, or a change that others made to
the devices. -/
inductive TermEvent where
  | call (call : Call) (answers : Answers) (outcome : Except TermErrno Unit)
  | outside (w : World)

/-- The calls of the interface that work on one entry, on real descriptors, where a replacement is
not managed already. -/
def Call.Admissible (term : Term) : Call → Prop
  | .add fd | .remove fd | .erase fd | .reset fd | .revert fd | .refresh fd | .apply fd _
  | .setOne _ fd => 0 ≤ fd
  | .replace oldfd newfd => 0 ≤ oldfd ∧ 0 ≤ newfd ∧ ∀ i, term.fd i ≠ newfd
  | .set .. | .fakeFlush _ | .query .. | .libInit | .exitfunc => False

/-- The descriptors that a call names. -/
def Call.names : Call → List Int
  | .add fd | .remove fd | .erase fd | .reset fd | .revert fd | .refresh fd | .apply fd _
  | .setOne _ fd | .set fd _ | .fakeFlush fd | .query _ fd => [fd]
  | .replace oldfd newfd => [oldfd, newfd]
  | .libInit | .exitfunc => []

/-- The runs of the code. -/
inductive FrameworkRun (plat : Platform) : Sys → List TermEvent → Sys → Prop where
  | nil (s) : FrameworkRun plat s [] s
  | call {s events s'} (ran : FrameworkRun plat s events s') (call : Call) (answers : Answers)
      (admissible : call.Admissible s'.term) :
      FrameworkRun plat s
        (events ++ [.call call answers ((call.exec plat answers).outcome s')])
        ((call.exec plat answers).after s')
  | outside {s events s'} (ran : FrameworkRun plat s events s') (w : World) :
      FrameworkRun plat s (events ++ [.outside w]) ⟨s'.term, w⟩

/-- The runs of the map. -/
inductive MapRun (plat : Platform) : Framework → List TermEvent → Framework → Prop where
  | nil (a) : MapRun plat a [] a
  | call {a events a' a'' call answers outcome} (ran : MapRun plat a events a')
      (effect : Documented plat answers.toReplies call a' outcome a'') :
      MapRun plat a (events ++ [.call call answers outcome]) a''
  | outside {a events a'} (ran : MapRun plat a events a') (w : World) :
      MapRun plat a (events ++ [.outside w]) ⟨a'.terms, w⟩

variable {plat : Platform} {answers : Answers} {s : Sys} {a a' : Framework} {call : Call}

/-- The step lemma: an admissible call has its documented effect. -/
theorem call_simulates (rep : Represents s a) (admissible : call.Admissible s.term) :
    Simulates plat answers call s a := by
  cases call with
  | add fd => exact add_simulates rep admissible
  | remove fd => exact remove_simulates rep admissible
  | erase fd => exact erase_simulates rep admissible
  | replace oldfd newfd =>
      obtain ⟨real, real', fresh⟩ := admissible
      apply replace_simulates rep real real'
      rw [rep.entries]
      exact (Slots.lookup_eq_none_iff (ne_free_of_nonneg real')).mpr fresh
  | reset fd => exact reset_simulates rep admissible
  | revert fd => exact revert_simulates rep admissible
  | refresh fd => exact refresh_simulates rep admissible
  | apply fd now => exact apply_simulates rep admissible
  | setOne setter fd => exact setOne_simulates rep admissible
  | set fd params => exact admissible.elim
  | fakeFlush fd => exact admissible.elim
  | query which fd => exact admissible.elim
  | libInit => exact admissible.elim
  | exitfunc => exact admissible.elim

/-- The run lemma: every run of the code is a run of the map. -/
theorem run_simulates {s₁ : Sys} {events : List TermEvent} (rep : Represents s₁ a)
    (ran : FrameworkRun plat s₁ events s) :
    ∃ a', MapRun plat a events a' ∧ Represents s a' := by
  induction ran with
  | nil => exact ⟨a, .nil a, rep⟩
  | call ran call answers admissible ih =>
      obtain ⟨a', ran', rep'⟩ := ih
      obtain ⟨a'', rep'', effect⟩ := call_simulates rep' admissible
      exact ⟨a'', .call ran' effect, rep''⟩
  | outside ran w ih =>
      obtain ⟨a', ran', rep'⟩ := ih
      exact ⟨⟨a'.terms, w⟩, .outside ran' w, rep'.withWorld w⟩

/-! ### Frame conditions -/

/-- What a documented effect leaves alone: the entries of other descriptors, the devices of other
descriptors, and, where the call fails, every record (the entry that `term_remove` drops apart). -/
structure EntryFrame (call : Call) (outcome : Except TermErrno Unit) (a a' : Framework) : Prop where
  entries : ∀ fd ∉ call.names, a'.terms.entry fd = a.terms.entry fd
  device : a'.world.device = a.world.device
  devices : ∀ dev ∉ call.names.map a.world.device, a'.world.settings dev = a.world.settings dev
  failure : ∀ e, outcome = .error e → ∀ fd,
    a'.terms.entry fd = a.terms.entry fd ∨ call = .remove fd ∧ a'.terms.entry fd = none

section Frames

variable {fd newfd : Int} {outcome : Except TermErrno Unit}

theorem EntryFrame.unchanged (a : Framework) : EntryFrame call outcome a a :=
  ⟨fun _ _ => rfl, rfl, fun _ _ => rfl, fun _ _ _ => .inl rfl⟩

/-- The devices after `tcsetattr` on a descriptor that the call names. -/
theorem store_other {w : World} {when : When} {t stored : Termios} (named : fd ∈ call.names) :
    ∀ dev ∉ call.names.map w.device, (w.store fd when t stored).settings dev = w.settings dev := by
  intro dev outside
  have other : dev ≠ w.device fd := by
    rintro rfl
    exact outside (List.mem_map_of_mem named)
  simp [World.store, other]

theorem EntryFrame.of_puts {r : Option Record} (named : fd ∈ call.names) (puts : a.Puts a' fd r)
    (world : a'.world = a.world ∨ ∃ when t stored, a'.world = a.world.store fd when t stored)
    (failure : ∀ e, outcome = .error e → call = .remove fd ∧ r = none) :
    EntryFrame call outcome a a' := by
  constructor
  · intro other outside
    have apart : other ≠ fd := by
      rintro rfl
      exact outside named
    rw [puts, Function.update_of_ne apart]
  · rcases world with same | ⟨when, t, stored, same⟩ <;> rw [same]
    rfl
  · rcases world with same | ⟨when, t, stored, same⟩ <;> rw [same]
    · intro _ _
      rfl
    · exact store_other named
  · intro e failed other
    obtain ⟨rfl, rfl⟩ := failure e failed
    by_cases here : other = fd
    · subst here
      right
      exact ⟨rfl, by rw [puts]; simp⟩
    · left
      rw [puts, Function.update_of_ne here]

theorem EntryFrame.of_moves {r : Record} {when : When} {t stored : Termios}
    (moves : a.Moves a' fd newfd r) (stores : a.Stores a' newfd when t stored) :
    EntryFrame (.replace fd newfd) (.ok ()) a a' := by
  constructor
  · intro other outside
    simp only [Call.names, List.mem_cons, List.not_mem_nil, or_false, not_or] at outside
    rw [moves, Function.update_of_ne outside.2, Function.update_of_ne outside.1]
  · rw [stores]
    rfl
  · rw [stores]
    exact store_other (by simp [Call.names])
  · intro e failed
    cases failed

theorem EntryFrame.of_stores {when : When} {t stored : Termios} (named : fd ∈ call.names)
    (records : a'.terms = a.terms) (stores : a.Stores a' fd when t stored) :
    EntryFrame call outcome a a' := by
  constructor
  · intro other _
    rw [records]
  · rw [stores]
    rfl
  · rw [stores]
    exact store_other named
  · intro _ _ other
    rw [records]
    exact .inl rfl

end Frames

/-- Every documented effect keeps to the entry and the device of its descriptor. -/
theorem Documented.frame {replies : Replies} {outcome : Except TermErrno Unit}
    (effect : Documented plat replies call a outcome a') : EntryFrame call outcome a a' := by
  cases effect with
  | added _ _ _ _ puts rests => exact .of_puts (by simp [Call.names]) puts (.inl rests) nofun
  | removeUnflushed _ _ puts rests =>
      exact .of_puts (by simp [Call.names]) puts (.inl rests) fun _ _ => ⟨rfl, rfl⟩
  | removeUnset _ _ _ puts rests =>
      exact .of_puts (by simp [Call.names]) puts (.inl rests) fun _ _ => ⟨rfl, rfl⟩
  | removed _ _ _ puts stores =>
      exact .of_puts (by simp [Call.names]) puts (.inr ⟨_, _, _, stores⟩) nofun
  | erased _ puts rests => exact .of_puts (by simp [Call.names]) puts (.inl rests) nofun
  | replaceUnread _ _ _ records stores => exact .of_stores (by simp [Call.names]) records stores
  | replaced _ _ _ moves stores => exact .of_moves moves stores
  | resetUnread _ _ _ _ records stores => exact .of_stores (by simp [Call.names]) records stores
  | resetDone _ _ _ _ puts stores =>
      exact .of_puts (by simp [Call.names]) puts (.inr ⟨_, _, _, stores⟩) nofun
  | reverted _ puts rests => exact .of_puts (by simp [Call.names]) puts (.inl rests) nofun
  | refreshed _ _ puts rests => exact .of_puts (by simp [Call.names]) puts (.inl rests) nofun
  | applyUnread _ _ _ records stores => exact .of_stores (by simp [Call.names]) records stores
  | applied _ _ _ _ puts stores =>
      exact .of_puts (by simp [Call.names]) puts (.inr ⟨_, _, _, stores⟩) nofun
  | setDone _ _ _ puts rests => exact .of_puts (by simp [Call.names]) puts (.inl rests) nofun
  | _ => exact .unchanged _

/-- Adding an unmanaged terminal fails for want of room exactly where the map is full. -/
theorem Documented.full_iff {replies : Replies} {fd : Int} {outcome : Except TermErrno Unit}
    (effect : Documented plat replies (.add fd) a outcome a') (unmanaged : a.terms.entry fd = none)
    (terminal : replies.isatty = true) : outcome = .error .efull ↔ a.terms.size = maxTerms := by
  cases effect with
  | addManaged entry => simp [unmanaged] at entry
  | addNoTerminal _ other => simp [terminal] at other
  | addFull _ _ full => simp [full]
  | addUnread _ _ room _ => simp [Nat.ne_of_lt room]
  | added _ _ room _ _ _ => simp [Nat.ne_of_lt room]

/-! ### The framework refines the map -/

/-- An empty initialised framework is the empty map. -/
theorem represents_empty (init : s.term.init = true) (unused : ∀ i, s.term.fd i = -1) :
    Represents s ⟨TermMap.empty, s.world⟩ := by
  refine ⟨init, ?_, ?_, rfl⟩
  · intro i j used _
    exact absurd (unused i) used
  · funext fd
    change none = _
    by_cases free : fd = -1
    · rw [free, Slots.lookup_free]
    · symm
      rw [Slots.lookup_eq_none_iff free]
      intro i
      rw [unused i]
      exact Ne.symm free

/-- After a successful `term_lib_init` every run of the code is a run of the map from the empty map,
and in every state it reaches the arrays represent a map on which each further call has its documented
effect, keeps to its entry and its device, leaves every record as it was where it fails, and finds the
framework full exactly where the map has `MAX_TERMS` entries. -/
theorem framework_refines_map (plat : Platform) {atexitOk : Bool} {resets : Slot → Replies}
    {s₀ s₁ s : Sys} {events : List TermEvent}
    (started : (termLibInit atexitOk resets).run s₀ = .ok () s₁)
    (ran : FrameworkRun plat s₁ events s) :
    ∃ a, MapRun plat ⟨TermMap.empty, s₁.world⟩ events a ∧ Represents s a ∧
      ∀ (call : Call) (answers : Answers), call.Admissible s.term →
        let outcome := (call.exec plat answers).outcome s
        ∃ a', Represents ((call.exec plat answers).after s) a' ∧
          Documented plat answers.toReplies call a outcome a' ∧ EntryFrame call outcome a a' ∧
          ∀ fd, call = .add fd → a.terms.entry fd = none → answers.isatty = true →
            (outcome = .error .efull ↔ a.terms.size = maxTerms) := by
  obtain ⟨init, unused⟩ := termLibInit_empty started
  obtain ⟨a, ran', rep⟩ := run_simulates (represents_empty init unused) ran
  refine ⟨a, ran', rep, ?_⟩
  intro call answers admissible
  obtain ⟨a', rep', effect⟩ := call_simulates rep admissible
  refine ⟨a', rep', effect, effect.frame, ?_⟩
  rintro fd rfl unmanaged terminal
  exact effect.full_iff unmanaged terminal

theorem framework_refines_map_one_terminal :
    ∃ s₁ a, (termLibInit true fun _ => allSucceed).run startSys = .ok () s₁ ∧
      MapRun ⟨false, true⟩ ⟨TermMap.empty, s₁.world⟩
        [.call (.add 3) ⟨allSucceed, fun _ => allSucceed⟩ (.ok ())] a := by
  let s₁ : Sys := ⟨{ startSys.term with init := true, fd := fun _ => -1 }, startSys.world⟩
  have started : (termLibInit true fun _ => allSucceed).run startSys = .ok () s₁ :=
    run_termLibInit_first rfl true
  have ran : FrameworkRun ⟨false, true⟩ s₁
      [.call (.add 3) ⟨allSucceed, fun _ => allSucceed⟩ (.ok ())] _ :=
    .call (.nil s₁) (.add 3) ⟨allSucceed, fun _ => allSucceed⟩ (show (0 : Int) ≤ 3 by decide)
  obtain ⟨a, ran', -, -⟩ := framework_refines_map ⟨false, true⟩ started ran
  exact ⟨s₁, a, started, ran'⟩

end Ppcom
