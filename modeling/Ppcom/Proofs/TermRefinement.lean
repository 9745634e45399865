/-
Module: Ppcom.Proofs.TermRefinement
Purpose: The parallel arrays of `term.cpp` refine the map of managed descriptors: every call has, on
  the map that the arrays stand for, the effect that `term.h` documents.
Trusted boundary: none
Main exports: Represents, Simulates, Represents.puts, apply_simulates, setOne_simulates
-/
import Ppcom.Proofs.SetterEffects

namespace Ppcom

open BitMask Program

/-! ### What the arrays stand for -/

/-- The record kept in a slot. -/
def Term.record (term : Term) (i : Slot) : Record :=
  ⟨term.origtermios i, term.currtermios i, term.nexttermios i⟩

/-- The framework is initialised, no descriptor stands in two slots, and the slots in use are the
entries of the map. -/
structure Represents (s : Sys) (a : Framework) : Prop where
  init : s.term.init = true
  distinct : Slots.Distinct (-1) s.term.fd
  entries : a.terms.entry = Slots.lookup (-1) s.term.fd s.term.record
  world : a.world = s.world

/-- The map of an array of distinct descriptors. -/
def Term.toMap (term : Term) (distinct : Slots.Distinct (-1) term.fd) : TermMap where
  entry := Slots.lookup (-1) term.fd term.record
  finite := by
    simp only [Slots.lookup_isSome_iff]
    exact Slots.finite_managed (-1) term.fd
  bounded := by
    simp only [Slots.lookup_isSome_iff]
    exact Slots.ncard_managed_le distinct

/-- The abstract state of an initialised framework. -/
def Sys.toFramework (s : Sys) (distinct : Slots.Distinct (-1) s.term.fd) : Framework :=
  ⟨s.term.toMap distinct, s.world⟩

theorem Sys.represents (s : Sys) (init : s.term.init = true)
    (distinct : Slots.Distinct (-1) s.term.fd) : Represents s (s.toFramework distinct) :=
  ⟨init, distinct, rfl, rfl⟩

/-! ### The searches -/

theorem Term.find_eq_ok_iff {term : Term} (init : term.init = true) {fd : Int} {i : Slot} :
    term.find fd = .ok i ↔ Slots.find term.fd fd = some i := by
  unfold Term.find Slots.find
  simp only [init, not_true_eq_false, if_false]
  cases Fin.find? fun i => decide (term.fd i = fd) <;> simp

theorem Term.find_eq_error_iff {term : Term} (init : term.init = true) {fd : Int} :
    term.find fd = .error .enotfound ↔ ∀ i, term.fd i ≠ fd := by
  rw [← Slots.find_eq_none_iff]
  unfold Term.find Slots.find
  simp only [init, not_true_eq_false, if_false]
  cases Fin.find? fun i => decide (term.fd i = fd) <;> simp

theorem Term.findNextFree_cases {term : Term} (init : term.init = true) :
    (∃ i, term.findNextFree = .ok i ∧ term.fd i = -1) ∨
      (term.findNextFree = .error .efull ∧ ∀ i, term.fd i ≠ -1) := by
  unfold Term.findNextFree
  simp only [init, not_true_eq_false, if_false]
  cases found : Fin.find? fun i => decide (term.fd i = -1) with
  | some i =>
      left
      exact ⟨i, rfl, by simpa using Fin.eq_true_of_find?_eq_some found⟩
  | none =>
      right
      exact ⟨rfl, by simpa using found⟩

variable {plat : Platform} {answers : Answers} {s : Sys} {a : Framework} {fd : Int}

theorem ne_free_of_nonneg (real : 0 ≤ fd) : fd ≠ -1 := by
  omega

/-- A descriptor is managed, in one slot with its record, or it is in no slot. -/
theorem Represents.find_cases (rep : Represents s a) (real : 0 ≤ fd) :
    (∃ i, s.term.find fd = .ok i ∧ s.term.fd i = fd ∧
      a.terms.entry fd = some (s.term.record i)) ∨
    (s.term.find fd = .error .enotfound ∧ (∀ i, s.term.fd i ≠ fd) ∧ a.terms.entry fd = none) := by
  have used : fd ≠ -1 := ne_free_of_nonneg real
  rw [rep.entries]
  cases found : Slots.find s.term.fd fd with
  | some i =>
      left
      exact ⟨i, (Term.find_eq_ok_iff rep.init).mpr found, Slots.key_of_find found,
        Slots.lookup_of_find used found⟩
  | none =>
      right
      rw [Slots.find_eq_none_iff] at found
      exact ⟨(Term.find_eq_error_iff rep.init).mpr found, found,
        (Slots.lookup_eq_none_iff used).mpr found⟩

theorem Represents.size_eq (rep : Represents s a) :
    a.terms.size = (Slots.managed (-1) s.term.fd).ncard := by
  unfold TermMap.size
  simp only [rep.entries, Slots.lookup_isSome_iff]
  rfl

/-- No slot is free exactly when the map is full. -/
theorem Represents.full_iff (rep : Represents s a) :
    (∀ i, s.term.fd i ≠ -1) ↔ a.terms.size = maxTerms := by
  rw [rep.size_eq]
  exact Slots.full_iff rep.distinct

/-! ### Simulation of one call -/

/-- The call has its documented effect on the abstract state, and leaves the two states related. -/
def Simulates (plat : Platform) (answers : Answers) (call : Call) (s : Sys) (a : Framework) : Prop :=
  ∃ a', Represents ((call.exec plat answers).after s) a' ∧
    Documented plat answers.toReplies call a ((call.exec plat answers).outcome s) a'

theorem Simulates.of_ok {call : Call} {s' : Sys} {a' : Framework}
    (ran : (call.exec plat answers).run s = .ok () s') (rep : Represents s' a')
    (effect : Documented plat answers.toReplies call a (.ok ()) a') :
    Simulates plat answers call s a := by
  refine ⟨a', ?_, ?_⟩
  · simpa [TermM.after, ran] using rep
  · simpa [TermM.outcome, ran] using effect

theorem Simulates.of_error {call : Call} {s' : Sys} {a' : Framework} {e : TermErrno}
    (ran : (call.exec plat answers).run s = .error e s') (rep : Represents s' a')
    (effect : Documented plat answers.toReplies call a (.error e) a') :
    Simulates plat answers call s a := by
  refine ⟨a', ?_, ?_⟩
  · simpa [TermM.after, ran] using rep
  · simpa [TermM.outcome, ran] using effect

/-! ### Changes of the arrays -/

/-- Only the world has changed. -/
theorem Represents.withWorld (rep : Represents s a) (w : World) :
    Represents ⟨s.term, w⟩ ⟨a.terms, w⟩ :=
  ⟨rep.init, rep.distinct, rep.entries, rfl⟩

/-- Slot `i` of the three arrays of settings holds `r`, and the other slots are as they were. -/
structure Holds (term term' : Term) (i : Slot) (r : Record) : Prop where
  init : term'.init = term.init
  orig : term'.origtermios = Function.update term.origtermios i r.orig
  curr : term'.currtermios = Function.update term.currtermios i r.curr
  next : term'.nexttermios = Function.update term.nexttermios i r.next

theorem Holds.record_eq {term term' : Term} {i : Slot} {r : Record} (holds : Holds term term' i r) :
    term'.record = Function.update term.record i r := by
  funext j
  by_cases here : j = i
  · subst here
    simp [Term.record, holds.orig, holds.curr, holds.next]
  · simp [Term.record, holds.orig, holds.curr, holds.next, here]

section Changes

variable {i : Slot} {r : Record} {w : World}

/-- A used slot got a new record. -/
theorem Represents.puts (term' : Term) (rep : Represents s a) (key : s.term.fd i = fd) (real : 0 ≤ fd)
    (keys : term'.fd = s.term.fd) (holds : Holds s.term term' i r) :
    ∃ a', Represents ⟨term', w⟩ a' ∧ a.Puts a' fd (some r) ∧ a'.world = w := by
  have distinct : Slots.Distinct (-1) term'.fd := keys ▸ rep.distinct
  have used : s.term.fd i ≠ -1 := key ▸ ne_free_of_nonneg real
  refine ⟨Sys.toFramework ⟨term', w⟩ distinct,
    Sys.represents _ (holds.init.trans rep.init) distinct, ?_, rfl⟩
  change Slots.lookup (-1) term'.fd term'.record = Function.update a.terms.entry fd (some r)
  rw [keys, holds.record_eq, Slots.lookup_update rep.distinct used, key, rep.entries]

/-- A used slot was freed. -/
theorem Represents.drops (rep : Represents s a) (key : s.term.fd i = fd) (real : 0 ≤ fd) :
    ∃ a', Represents ⟨{ s.term with fd := Function.update s.term.fd i (-1) }, w⟩ a'
      ∧ a.Puts a' fd none ∧ a'.world = w := by
  have used : s.term.fd i ≠ -1 := key ▸ ne_free_of_nonneg real
  have distinct := rep.distinct.clear i
  refine ⟨Sys.toFramework ⟨{ s.term with fd := Function.update s.term.fd i (-1) }, w⟩ distinct,
    Sys.represents ⟨{ s.term with fd := Function.update s.term.fd i (-1) }, w⟩ rep.init distinct,
    ?_, rfl⟩
  change Slots.lookup (-1) (Function.update s.term.fd i (-1)) s.term.record
    = Function.update a.terms.entry fd none
  rw [Slots.lookup_clear rep.distinct used, key, rep.entries]

/-- A free slot was taken. -/
theorem Represents.fills (term' : Term) (rep : Represents s a) (unused : s.term.fd i = -1) (real : 0 ≤ fd)
    (fresh : ∀ j, s.term.fd j ≠ fd) (keys : term'.fd = Function.update s.term.fd i fd)
    (holds : Holds s.term term' i r) :
    ∃ a', Represents ⟨term', w⟩ a' ∧ a.Puts a' fd (some r) ∧ a'.world = w := by
  have distinct : Slots.Distinct (-1) term'.fd := keys ▸ rep.distinct.update fresh i
  refine ⟨Sys.toFramework ⟨term', w⟩ distinct,
    Sys.represents _ (holds.init.trans rep.init) distinct, ?_, rfl⟩
  change Slots.lookup (-1) term'.fd term'.record = Function.update a.terms.entry fd (some r)
  rw [keys, holds.record_eq,
    Slots.lookup_fill rep.distinct unused (ne_free_of_nonneg real) fresh, rep.entries]

/-- A used slot got a new descriptor and record. -/
theorem Represents.moves {newfd : Int} (term' : Term) (rep : Represents s a) (key : s.term.fd i = fd)
    (real : 0 ≤ fd) (real' : 0 ≤ newfd) (fresh : ∀ j, s.term.fd j ≠ newfd)
    (keys : term'.fd = Function.update s.term.fd i newfd) (holds : Holds s.term term' i r) :
    ∃ a', Represents ⟨term', w⟩ a' ∧ a.Moves a' fd newfd r ∧ a'.world = w := by
  have used : s.term.fd i ≠ -1 := key ▸ ne_free_of_nonneg real
  have distinct : Slots.Distinct (-1) term'.fd := keys ▸ rep.distinct.update fresh i
  refine ⟨Sys.toFramework ⟨term', w⟩ distinct,
    Sys.represents _ (holds.init.trans rep.init) distinct, ?_, rfl⟩
  change Slots.lookup (-1) term'.fd term'.record
    = Function.update (Function.update a.terms.entry fd none) newfd (some r)
  rw [keys, Slots.lookup_rekey rep.distinct used (ne_free_of_nonneg real') fresh,
    holds.record_eq, Slots.lookup_update rep.distinct used, key, rep.entries]
  simp

end Changes

/-- A successful call that stores a record in the slot of `fd`. -/
theorem Simulates.of_puts {call : Call} {i : Slot} {term' : Term} {w : World} (r : Record)
    (rep : Represents s a) (key : s.term.fd i = fd) (real : 0 ≤ fd)
    (ran : (call.exec plat answers).run s = .ok () ⟨term', w⟩) (keys : term'.fd = s.term.fd)
    (holds : Holds s.term term' i r)
    (effect : ∀ a', a.Puts a' fd (some r) → a'.world = w →
      Documented plat answers.toReplies call a (.ok ()) a') :
    Simulates plat answers call s a := by
  obtain ⟨a', rep', puts, world⟩ := rep.puts term' key real keys holds
  exact .of_ok ran rep' (effect a' puts world)

/-! ### The calls, one by one -/

theorem add_simulates (rep : Represents s a) (real : 0 ≤ fd) :
    Simulates plat answers (.add fd) s a := by
  rcases rep.find_cases real with ⟨i, found, key, entry⟩ | ⟨lost, fresh, unmanaged⟩
  · exact .of_error (run_discard_error (run_termAdd_managed found)) rep (.addManaged entry)
  cases terminal : answers.isatty with
  | false =>
      have other : isatty answers.toReplies fd = false := by simp [isatty, terminal]
      exact .of_error (run_discard_error (run_termAdd_noTerminal lost other)) rep
        (.addNoTerminal unmanaged terminal)
  | true =>
      have isTerminal : isatty answers.toReplies fd = true := by simp [isatty, terminal, real]
      rcases Term.findNextFree_cases rep.init with ⟨i, room, unused⟩ | ⟨full, used⟩
      · have space : a.terms.size < maxTerms := by
          apply lt_of_le_of_ne a.terms.bounded
          intro count
          exact rep.full_iff.mpr count i unused
        cases read : answers.tcgetattr with
        | false =>
            exact .of_error (run_discard_error (run_termAdd_unread lost isTerminal room read)) rep
              (.addUnread unmanaged terminal space read)
        | true =>
            have ran := run_termAdd_adds lost isTerminal room read
            obtain ⟨a', rep', puts, rests⟩ := rep.fills (w := s.world)
              (r := Record.fresh (s.world.settingsOf fd))
              { s.term with
                fd := Function.update s.term.fd i fd
                origtermios := Function.update s.term.origtermios i (s.world.settingsOf fd)
                currtermios := Function.update s.term.currtermios i (s.world.settingsOf fd)
                nexttermios := Function.update s.term.nexttermios i (s.world.settingsOf fd) }
              unused real fresh rfl ⟨rfl, rfl, rfl, rfl⟩
            rw [← rep.world] at puts rests
            exact .of_ok (run_discard_ok ran) rep'
              (.added unmanaged terminal space read puts rests)
      · exact .of_error (run_discard_error (run_termAdd_full lost isTerminal full)) rep
          (.addFull unmanaged terminal (rep.full_iff.mp used))

theorem remove_simulates (rep : Represents s a) (real : 0 ≤ fd) :
    Simulates plat answers (.remove fd) s a := by
  rcases rep.find_cases real with ⟨i, found, key, entry⟩ | ⟨lost, -, unmanaged⟩
  · cases flush : answers.tcflush with
    | false =>
        have flushed : tcflush answers.toReplies fd = false := by simp [tcflush, flush]
        obtain ⟨a', rep', puts, rests⟩ := rep.drops (w := s.world) key real
        exact .of_error (run_termRemove_unflushed found flushed) rep'
          (.removeUnflushed entry flush puts (rests.trans rep.world.symm))
    | true =>
        have flushed : tcflush answers.toReplies fd = true := by simp [tcflush, flush, real]
        cases set : answers.tcsetattr (s.term.origtermios i) with
        | none =>
            obtain ⟨a', rep', puts, rests⟩ := rep.drops (w := s.world) key real
            exact .of_error (run_termRemove_fails found flushed set) rep'
              (.removeUnset entry flush set puts (rests.trans rep.world.symm))
        | some t =>
            have ran := run_termRemove_stores found real flushed set
            obtain ⟨a', rep', puts, stores⟩ := rep.drops
              (w := s.world.store fd .tcsanow (s.term.origtermios i) t) key real
            rw [← rep.world] at stores
            exact .of_ok ran rep' (.removed entry flush set puts stores)
  · exact .of_error (run_termRemove_lost lost _) rep (.removeUnmanaged unmanaged)

theorem erase_simulates (rep : Represents s a) (real : 0 ≤ fd) :
    Simulates plat answers (.erase fd) s a := by
  rcases rep.find_cases real with ⟨i, found, key, entry⟩ | ⟨lost, -, unmanaged⟩
  · obtain ⟨a', rep', puts, rests⟩ := rep.drops (w := s.world) key real
    exact .of_ok (run_termErase_found found) rep'
      (.erased entry puts (rests.trans rep.world.symm))
  · exact .of_error (run_termErase_lost lost) rep (.eraseUnmanaged unmanaged)

theorem replace_simulates {newfd : Int} (rep : Represents s a) (real : 0 ≤ fd) (real' : 0 ≤ newfd)
    (unused : a.terms.entry newfd = none) : Simulates plat answers (.replace fd newfd) s a := by
  rcases rep.find_cases real with ⟨i, found, key, entry⟩ | ⟨lost, -, unmanaged⟩
  · have fresh : ∀ j, s.term.fd j ≠ newfd := by
      rcases rep.find_cases real' with ⟨j, -, -, other⟩ | ⟨-, fresh, -⟩
      · rw [unused] at other
        cases other
      · exact fresh
    cases set : answers.tcsetattr (s.term.currtermios i) with
    | none => exact .of_error (run_termReplace_fails found set) rep (.replaceUnset entry set)
    | some t =>
        cases read : answers.tcgetattr with
        | false =>
            have rep' := rep.withWorld (s.world.store newfd .tcsanow (s.term.currtermios i) t)
            refine .of_error (run_termReplace_unread found real' set read) rep' ?_
            rw [← rep.world]
            exact .replaceUnread entry set read rfl rfl
        | true =>
            have ran := run_termReplace_moves found real' set read
            obtain ⟨a', rep', moves, stores⟩ := rep.moves
              (w := s.world.store newfd .tcsanow (s.term.currtermios i) t)
              (r := { s.term.record i with curr := t })
              { s.term with
                fd := Function.update s.term.fd i newfd
                currtermios := Function.update s.term.currtermios i t }
              key real real' fresh rfl
              ⟨rfl, by simp [Term.record], rfl, by simp [Term.record]⟩
            rw [← rep.world] at stores
            exact .of_ok ran rep' (.replaced entry set read moves stores)
  · exact .of_error (run_termReplace_lost lost _ _) rep (.replaceUnmanaged unmanaged)

theorem reset_simulates (rep : Represents s a) (real : 0 ≤ fd) :
    Simulates plat answers (.reset fd) s a := by
  rcases rep.find_cases real with ⟨i, found, key, entry⟩ | ⟨lost, -, unmanaged⟩
  · cases flush : answers.tcflush with
    | false =>
        have flushed : tcflush answers.toReplies fd = false := by simp [tcflush, flush]
        exact .of_error (run_termReset_unflushed found flushed) rep (.resetUnflushed entry flush)
    | true =>
        have flushed : tcflush answers.toReplies fd = true := by simp [tcflush, flush, real]
        cases set : answers.tcsetattr (s.term.origtermios i) with
        | none =>
            exact .of_error (run_termReset_fails found flushed set) rep
              (.resetUnset entry flush set)
        | some t =>
            cases read : answers.tcgetattr with
            | false =>
                have rep' := rep.withWorld (s.world.store fd .tcsanow (s.term.origtermios i) t)
                refine .of_error (run_termReset_unread found real flushed set read) rep' ?_
                rw [← rep.world]
                exact .resetUnread entry flush set read rfl rfl
            | true =>
                have ran := run_termReset_reads found real flushed set read
                refine .of_puts { s.term.record i with curr := t, next := t } rep key real ran rfl
                  ⟨rfl, by simp [Term.record], rfl, rfl⟩ ?_
                intro a' puts stores
                rw [← rep.world] at stores
                exact .resetDone entry flush set read puts stores
  · exact .of_error (run_termReset_lost lost _) rep (.resetUnmanaged unmanaged)

theorem revert_simulates (rep : Represents s a) (real : 0 ≤ fd) :
    Simulates plat answers (.revert fd) s a := by
  rcases rep.find_cases real with ⟨i, found, key, entry⟩ | ⟨lost, -, unmanaged⟩
  · have ran := run_termRevert_found found
    refine .of_puts { s.term.record i with next := s.term.currtermios i } rep key real ran rfl
      ⟨rfl, by simp [Term.record], by simp [Term.record], rfl⟩ ?_
    intro a' puts rests
    exact .reverted entry puts (rests.trans rep.world.symm)
  · exact .of_error (run_termRevert_lost lost) rep (.revertUnmanaged unmanaged)

theorem refresh_simulates (rep : Represents s a) (real : 0 ≤ fd) :
    Simulates plat answers (.refresh fd) s a := by
  rcases rep.find_cases real with ⟨i, found, key, entry⟩ | ⟨lost, -, unmanaged⟩
  · cases read : answers.tcgetattr with
    | false => exact .of_error (run_termRefresh_unread found read) rep (.refreshUnread entry read)
    | true =>
        have ran := run_termRefresh_reads found real read
        refine .of_puts { s.term.record i with curr := s.world.settingsOf fd } rep key real ran rfl
          ⟨rfl, by simp [Term.record], rfl, by simp [Term.record]⟩ ?_
        intro a' puts rests
        rw [← rep.world] at puts rests
        exact .refreshed entry read puts rests
  · exact .of_error (run_termRefresh_lost lost _) rep (.refreshUnmanaged unmanaged)

/-- The `HUPCL` bit alone, where it is set. -/
theorem hupcl_of_ne_zero {flg : Word} (raised : flg &&& hupcl ≠ 0) : flg &&& hupcl = hupcl := by
  have single : hupcl = BitVec.twoPow 32 10 := by decide
  rw [single, BitVec.and_twoPow] at raised ⊢
  split at raised
  · next up => simp [up]
  · exact absurd rfl raised

theorem copyHupcl_takes (applied orig : Termios) :
    TakesHupcl applied orig (copyHupcl applied orig) := by
  unfold copyHupcl
  split
  · next raised =>
    refine ⟨?_, .of_cflags (agreeOff_raise (by decide) _)⟩
    change (orig.cCflag ||| hupcl) &&& hupcl = _
    rw [read_raise (by decide), hupcl_of_ne_zero raised]
  · next lowered =>
    refine ⟨?_, .of_cflags (agreeOff_clear (by decide) _)⟩
    change (orig.cCflag &&& ~~~hupcl) &&& hupcl = _
    rw [read_clear (by decide)]
    simpa using Eq.symm (not_not.mp lowered)

theorem apply_simulates {now : Bool} (rep : Represents s a) (real : 0 ≤ fd) :
    Simulates plat answers (.apply fd now) s a := by
  rcases rep.find_cases real with ⟨i, found, key, entry⟩ | ⟨lost, -, unmanaged⟩
  · cases set : answers.tcsetattr (s.term.nexttermios i) with
    | none => exact .of_error (run_termApply_fails found set) rep (.applyUnset entry set)
    | some t =>
        cases read : answers.tcgetattr with
        | false =>
            have rep' := rep.withWorld
              (s.world.store fd (applyWhen now) (s.term.nexttermios i) t)
            refine .of_error (run_termApply_unread found real set read) rep' ?_
            rw [← rep.world]
            exact .applyUnread entry set read rfl rfl
        | true =>
            have ran := run_termApply_reads found now real set read
            refine .of_puts ⟨copyHupcl t (s.term.origtermios i), t, t⟩ rep key real ran rfl
              ⟨rfl, rfl, rfl, rfl⟩ ?_
            intro a' puts stores
            rw [← rep.world] at stores
            exact .applied entry set read (copyHupcl_takes t _) puts stores
  · exact .of_error (run_termApply_lost lost _ _) rep (.applyUnmanaged unmanaged)

theorem setOne_simulates {setter : Setter} (rep : Represents s a) (real : 0 ≤ fd) :
    Simulates plat answers (.setOne setter fd) s a := by
  have exec : (Call.setOne setter fd).exec plat answers = setParameter (setter.change plat) fd :=
    setter.exec_eq plat fd
  rcases rep.find_cases real with ⟨i, found, key, entry⟩ | ⟨lost, -, unmanaged⟩
  · cases changed : setter.change plat (s.term.nexttermios i) with
    | error e =>
        have ran := run_setParameter_refuses found changed
        exact .of_error (exec ▸ ran) rep
          (.setRefused entry ((Setter.refuses_of_change plat).mp changed))
    | ok t =>
        have ran := run_setParameter_accepts found changed
        rw [← exec] at ran
        have accepts : ∀ e, ¬ setter.Refuses plat e := by
          intro e refuses
          have refused := (Setter.refuses_of_change (t := s.term.nexttermios i) plat).mpr refuses
          rw [changed] at refused
          cases refused
        refine .of_puts { s.term.record i with next := t } rep key real ran rfl
          ⟨rfl, by simp [Term.record], by simp [Term.record], rfl⟩ ?_
        intro a' puts rests
        exact .setDone entry accepts (Setter.sets_of_change plat changed) puts
          (rests.trans rep.world.symm)
  · exact .of_error (exec ▸ run_setParameter_lost lost _) rep (.setUnmanaged unmanaged)

end Ppcom
