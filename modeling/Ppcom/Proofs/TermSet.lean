/-
Module: Ppcom.Proofs.TermSet
Purpose: When `term_set` undoes everything it did before it reports a failure. It does so wherever the
  descriptor was managed already; after an addition of its own it frees slot 0, which is the slot of
  the addition only if that slot was the first free one.
Trusted boundary: none
Main exports: Params.Valid, run_setters, run_termSet_found, run_termSet_added, term_set_atomic_iff,
  term_set_frees_another_slot
-/
import Ppcom.Proofs.TermRuns

namespace Ppcom

/-- The parameters that every setter accepts. -/
structure Params.Valid (plat : Platform) (p : Params) : Prop where
  baud : p.baud ∈ (baudTable plat).map Prod.fst ∨ plat.useCustomBaud = true ∧ 0 ≤ p.baud
  parity : p.parity ≠ .error
  databits : 5 ≤ p.databits ∧ p.databits ≤ 8
  stopbits : 1 ≤ p.stopbits ∧ p.stopbits ≤ 2
  fc : p.fc ≠ .other ∧ p.fc ≠ .error

/-- The setters that `term_set` calls, in order. -/
def Params.setters (p : Params) : List Setter :=
  (if p.raw then [.raw] else []) ++
    [.baudrate p.baud, .parity p.parity, .databits p.databits, .stopbits p.stopbits,
      .flowcntrl p.fc, .loc p.loc, .hupcl p.hupClose]

/-- A sequence of setters, up to the first that fails. -/
def execAll (plat : Platform) (fd : Int) (setters : List Setter) : TermM Unit :=
  forM setters fun setter => setter.exec plat fd

theorem termSetAll_eq (plat : Platform) (fd : Int) (p : Params) :
    termSetAll plat fd p = execAll plat fd p.setters := by
  cases raw : p.raw <;>
    simp [termSetAll, execAll, Params.setters, raw, Setter.exec]

/-! ### Valid parameters -/

section Accepted

variable {plat : Platform}

theorem baudrate_accepted {baud : Int} :
    (∀ e, ¬ Setter.Refuses plat (.baudrate baud) e) ↔
      baud ∈ (baudTable plat).map Prod.fst ∨ plat.useCustomBaud = true ∧ 0 ≤ baud := by
  constructor
  · intro accepts
    by_contra invalid
    rw [not_or, not_and] at invalid
    obtain ⟨unlisted, limited⟩ := invalid
    cases custom : plat.useCustomBaud with
    | false => exact accepts _ (.baudrate unlisted custom)
    | true => exact accepts _ (.customBaudrate unlisted custom (not_le.mp (limited custom)))
  · rintro (listed | ⟨custom, positive⟩) e refuses
    · cases refuses with
      | baudrate unlisted => exact unlisted listed
      | customBaudrate unlisted => exact unlisted listed
    · cases refuses with
      | baudrate _ standard => simp [custom] at standard
      | customBaudrate _ _ negative => exact absurd positive (not_le.mpr negative)

theorem parity_accepted {mode : Parity} :
    (∀ e, ¬ Setter.Refuses plat (.parity mode) e) ↔ mode ≠ .error := by
  constructor
  · rintro accepts rfl
    exact accepts _ .parity
  · intro real e refuses
    cases refuses
    exact real rfl

theorem databits_accepted {n : Int} :
    (∀ e, ¬ Setter.Refuses plat (.databits n) e) ↔ 5 ≤ n ∧ n ≤ 8 := by
  constructor
  · intro accepts
    by_contra unsupported
    exact accepts _ (.databits unsupported)
  · intro supported e refuses
    cases refuses with
    | databits unsupported => exact unsupported supported

theorem stopbits_accepted {n : Int} :
    (∀ e, ¬ Setter.Refuses plat (.stopbits n) e) ↔ 1 ≤ n ∧ n ≤ 2 := by
  constructor
  · intro accepts
    by_contra unsupported
    exact accepts _ (.stopbits unsupported)
  · intro supported e refuses
    cases refuses with
    | stopbits unsupported => exact unsupported supported

theorem flowcntrl_accepted {flow : Flowcntrl} :
    (∀ e, ¬ Setter.Refuses plat (.flowcntrl flow) e) ↔ flow ≠ .other ∧ flow ≠ .error := by
  constructor
  · intro accepts
    exact ⟨fun same => accepts _ (.flowcntrl (.inl same)),
      fun same => accepts _ (.flowcntrl (.inr same))⟩
  · intro supported e refuses
    cases refuses with
    | flowcntrl unsupported => exact unsupported.elim supported.1 supported.2

/-- No setter refuses its parameter exactly where the parameters are valid. -/
theorem Params.valid_iff (p : Params) :
    p.Valid plat ↔ ∀ setter ∈ p.setters, ∀ e, ¬ setter.Refuses plat e := by
  have loc (e : TermErrno) : ¬ Setter.Refuses plat (.loc p.loc) e := nofun
  have hup (e : TermErrno) : ¬ Setter.Refuses plat (.hupcl p.hupClose) e := nofun
  have raw (e : TermErrno) : ¬ Setter.Refuses plat .raw e := nofun
  have optional : ∀ setter ∈ (if p.raw then [Setter.raw] else []), ∀ e,
      ¬ setter.Refuses plat e := by
    cases p.raw <;> simp [raw]
  simp only [Params.setters, List.forall_mem_append, List.forall_mem_cons, baudrate_accepted,
    parity_accepted, databits_accepted, stopbits_accepted, flowcntrl_accepted]
  constructor
  · intro valid
    exact ⟨optional, valid.baud, valid.parity, valid.databits, valid.stopbits, valid.fc, loc, hup,
      by simp⟩
  · rintro ⟨-, baud, parity, databits, stopbits, fc, -⟩
    exact ⟨baud, parity, databits, stopbits, fc⟩

end Accepted

/-! ### Runs of the setters -/

/-- The state with other next settings in slot `i`. -/
def Sys.withNext (s : Sys) (i : Slot) (t : Termios) : Sys :=
  { s with term := { s.term with nexttermios := Function.update s.term.nexttermios i t } }

@[simp] theorem Sys.withNext_withNext (s : Sys) (i : Slot) (t t' : Termios) :
    (s.withNext i t).withNext i t' = s.withNext i t' := by
  simp [Sys.withNext]

theorem run_execAll_cons {plat : Platform} {fd : Int} {setter : Setter} {rest : List Setter}
    {s s' : Sys} (ran : (setter.exec plat fd).run s = .ok () s') :
    (execAll plat fd (setter :: rest)).run s = (execAll plat fd rest).run s' := by
  simp only [execAll, List.forM_cons, EStateM.run_bind, ran]

section Setters

variable {plat : Platform} {fd : Int} {i : Slot}

/-- A sequence of setters works on the next settings of the slot of `fd`, and stops at the first
parameter that is refused. -/
theorem run_setters (plat : Platform) (setters : List Setter) {s : Sys} (found : s.term.find fd = .ok i) :
    ∃ t,
      ((execAll plat fd setters).run s = .ok () (s.withNext i t) ∧
        ∀ setter ∈ setters, ∀ e, ¬ setter.Refuses plat e) ∨
      (∃ e, (execAll plat fd setters).run s = .error e (s.withNext i t) ∧
        ∃ setter ∈ setters, setter.Refuses plat e) := by
  induction setters generalizing s with
  | nil =>
      refine ⟨s.term.nexttermios i, .inl ⟨?_, by simp⟩⟩
      simp [execAll, Sys.withNext]
  | cons setter rest ih =>
      cases changed : setter.change plat (s.term.nexttermios i) with
      | error e =>
          have ran := run_setParameter_refuses found changed
          rw [← setter.exec_eq plat fd] at ran
          have refuses := (Setter.refuses_of_change plat).mp changed
          refine ⟨s.term.nexttermios i, .inr ⟨e, ?_, setter, by simp, refuses⟩⟩
          simp [execAll, ran, Sys.withNext]
      | ok t =>
          have ran : (setter.exec plat fd).run s = .ok () (s.withNext i t) := by
            rw [setter.exec_eq plat fd]
            exact run_setParameter_accepts found changed
          have accepts : ∀ e, ¬ setter.Refuses plat e := by
            intro e refuses
            have refused :=
              (Setter.refuses_of_change (t := s.term.nexttermios i) plat).mpr refuses
            rw [changed] at refused
            cases refused
          obtain ⟨t', ⟨rest', ok⟩ | ⟨e, rest', refuser, inside, refuses⟩⟩ :=
            ih (s := s.withNext i t) found
          · refine ⟨t', .inl ⟨?_, ?_⟩⟩
            · rw [run_execAll_cons ran, rest', Sys.withNext_withNext]
            · intro other inside
              rcases List.mem_cons.mp inside with rfl | inside
              · exact accepts
              · exact ok other inside
          · refine ⟨t', .inr ⟨e, ?_, refuser, List.mem_cons_of_mem _ inside, refuses⟩⟩
            rw [run_execAll_cons ran, rest', Sys.withNext_withNext]

end Setters

/-! ### `term_set` -/

section Set

variable {plat : Platform} {replies : Replies} {s : Sys} {fd : Int} {p : Params} {i : Slot}

/-- On a managed descriptor `term_set` changes the next settings, or fails and changes nothing. -/
theorem run_termSet_found (plat : Platform) (replies : Replies) (p : Params)
    (found : s.term.find fd = .ok i) :
    (p.Valid plat ∧ ∃ t, (termSet plat replies fd p).run s = .ok () (s.withNext i t)) ∨
      (¬ p.Valid plat ∧ ∃ e, (termSet plat replies fd p).run s = .error e s) := by
  obtain ⟨t, ⟨ran, ok⟩ | ⟨e, ran, refuser, inside, refuses⟩⟩ :=
    run_setters plat p.setters found
  · rw [← termSetAll_eq] at ran
    left
    refine ⟨p.valid_iff.mpr ok, t, ?_⟩
    simp [termSet, found, ran]
  · rw [← termSetAll_eq] at ran
    right
    refine ⟨fun valid => p.valid_iff.mp valid refuser inside e refuses, e, ?_⟩
    simp only [termSet, pure_bind, EStateM.run_bind, EStateM.run_get, found, Program.run_tryCatch, ran,
      Sys.withNext, run_setNext, Function.update_idem, Function.update_eq_self,
      Program.run_throw_any]

/-- A failed addition ends `term_set` and changes nothing. -/
theorem run_termSet_unadded {e e' : TermErrno} (lost : s.term.find fd = .error e)
    (unadded : (termAdd replies fd).run s = .error e' s) :
    (termSet plat replies fd p).run s = .error e' s := by
  simp [termSet, lost, unadded]

/-- After an addition a failure of a setter frees slot 0. -/
theorem run_termSet_added (plat : Platform) (p : Params) {e : TermErrno} {s₁ : Sys}
    (lost : s.term.find fd = .error e)
    (added : (termAdd replies fd).run s = .ok 0 s₁) (found : s₁.term.find fd = .ok i) :
    (p.Valid plat ∧ ∃ t, (termSet plat replies fd p).run s = .ok () (s₁.withNext i t)) ∨
      (¬ p.Valid plat ∧ ∃ e t, (termSet plat replies fd p).run s
        = .error e ⟨{ s₁.term with
            fd := Function.update s₁.term.fd 0 (-1)
            nexttermios := Function.update s₁.term.nexttermios i t }, s₁.world⟩) := by
  obtain ⟨t, ⟨ran, ok⟩ | ⟨e, ran, refuser, inside, refuses⟩⟩ :=
    run_setters plat p.setters found
  · rw [← termSetAll_eq] at ran
    left
    refine ⟨p.valid_iff.mpr ok, t, ?_⟩
    simp [termSet, lost, added, ran]
  · rw [← termSetAll_eq] at ran
    right
    refine ⟨fun valid => p.valid_iff.mp valid refuser inside e refuses, e, t, ?_⟩
    simp only [termSet, pure_bind, EStateM.run_bind, EStateM.run_get, lost, added,
      Program.run_tryCatch, ran, Sys.withNext, run_setFd, Program.run_throw_any]

end Set

/-! ### Atomicity -/

/-- The managed descriptors with their records. -/
def Sys.entries (s : Sys) : Int → Option Record :=
  Slots.lookup (-1) s.term.fd s.term.record

/-- The calls of `term_set` that add their descriptor, then fail on a parameter, and find slot 0 in
use by another descriptor. -/
structure FreesAnother (plat : Platform) (replies : Replies) (s : Sys) (fd : Int) (p : Params) :
    Prop where
  unmanaged : ∀ i, s.term.fd i ≠ fd
  occupied : s.term.fd 0 ≠ -1
  room : ∃ i, s.term.fd i = -1
  terminal : isatty replies fd = true
  read : replies.tcgetattr = true
  invalid : ¬ p.Valid plat

section Atomic

variable {plat : Platform} {replies : Replies} {s s' : Sys} {fd : Int} {p : Params} {i : Slot}

/-- `term_find_next_free` finds the first free slot. -/
theorem Term.findNextFree_first {term : Term} (room : term.findNextFree = .ok i) {j : Slot}
    (earlier : j < i) : term.fd j ≠ -1 := by
  unfold Term.findNextFree at room
  split at room
  · cases room
  · split at room
    · next found =>
      cases room
      simpa using Fin.eq_false_of_find?_eq_some_of_lt found j earlier
    · cases room

/-- An addition either fails and changes nothing, or takes the first free slot. -/
theorem termAdd_cases (replies : Replies) (init : s.term.init = true)
    (lost : ∀ i, s.term.fd i ≠ fd) :
    (∃ e, (termAdd replies fd).run s = .error e s ∧
      ((∀ i, s.term.fd i ≠ -1) ∨ isatty replies fd = false ∨ replies.tcgetattr = false)) ∨
    (∃ i, s.term.fd i = -1 ∧ (∀ j < i, s.term.fd j ≠ -1) ∧ isatty replies fd = true ∧
      replies.tcgetattr = true ∧
      (termAdd replies fd).run s = .ok 0 { s with
        term := { s.term with
          fd := Function.update s.term.fd i fd
          origtermios := Function.update s.term.origtermios i (s.world.settingsOf fd)
          currtermios := Function.update s.term.currtermios i (s.world.settingsOf fd)
          nexttermios := Function.update s.term.nexttermios i (s.world.settingsOf fd) } }) := by
  have absent := (Term.find_eq_error_iff init).mpr lost
  cases terminal : isatty replies fd with
  | false => exact .inl ⟨_, run_termAdd_noTerminal absent terminal, .inr (.inl rfl)⟩
  | true =>
      rcases Term.findNextFree_cases init with ⟨i, room, unused⟩ | ⟨full, used⟩
      · cases read : replies.tcgetattr with
        | false =>
            exact .inl ⟨_, run_termAdd_unread absent terminal room read, .inr (.inr rfl)⟩
        | true =>
            exact .inr ⟨i, unused, fun j => Term.findNextFree_first room, rfl, rfl,
              run_termAdd_adds absent terminal room read⟩
      · exact .inl ⟨_, run_termAdd_full absent terminal full, .inl used⟩

/-- A descriptor that stands in a slot is found. -/
theorem Term.find_of_key {term : Term} (init : term.init = true) (key : term.fd i = fd) :
    ∃ j, term.find fd = .ok j := by
  obtain ⟨j, found⟩ := Slots.find_isSome_of_key key
  exact ⟨j, (Term.find_eq_ok_iff init).mpr found⟩

/-- A descriptor that stands in one slot only is found there. -/
theorem Term.find_of_only_key {term : Term} (init : term.init = true) (key : term.fd i = fd)
    (only : ∀ j, j ≠ i → term.fd j ≠ fd) : term.find fd = .ok i := by
  obtain ⟨j, found⟩ := Term.find_of_key init key
  have here : j = i := by
    by_contra other
    exact only j other (Slots.key_of_find ((Term.find_eq_ok_iff init).mp found))
  rw [found, here]

/-- A descriptor that was just added is found where it was added. -/
theorem find_of_added (init : s.term.init = true) (lost : ∀ j, s.term.fd j ≠ fd) (t : Termios) :
    Term.find { s.term with
      fd := Function.update s.term.fd i fd
      origtermios := Function.update s.term.origtermios i t
      currtermios := Function.update s.term.currtermios i t
      nexttermios := Function.update s.term.nexttermios i t } fd = .ok i :=
  Term.find_of_only_key init (by simp) fun j other => by simpa [other] using lost j

/-- `term_set` leaves the managed descriptors and their records as they were, wherever it fails,
exactly where it does not add its descriptor, fail on a parameter, and have slot 0 in use. -/
theorem term_set_atomic_iff (init : s.term.init = true) :
    (rval ((termSet plat replies fd p).run s) < 0 →
        ((termSet plat replies fd p).after s).entries = s.entries)
      ↔ ¬ FreesAnother plat replies s fd p := by
  by_cases managed : ∃ i, s.term.fd i = fd
  · obtain ⟨i, key⟩ := managed
    obtain ⟨j, found⟩ := Term.find_of_key init key
    have apart : ¬ FreesAnother plat replies s fd p := fun frees => frees.unmanaged i key
    simp only [apart, not_false_eq_true, iff_true]
    rcases run_termSet_found plat replies p found with
      ⟨-, t, ran⟩ | ⟨-, e, ran⟩
    · simp [rval, ran]
    · simp [TermM.after, ran]
  · have lost : ∀ i, s.term.fd i ≠ fd := not_exists.mp managed
    have absent := (Term.find_eq_error_iff init).mpr lost
    rcases termAdd_cases replies init lost with
      ⟨e, unadded, reason⟩ | ⟨i, unused, first, terminal, read, added⟩
    · have apart : ¬ FreesAnother plat replies s fd p := by
        intro frees
        obtain ⟨j, unused⟩ := frees.room
        rcases reason with used | other | unread
        · exact used j unused
        · simp [frees.terminal] at other
        · simp [frees.read] at unread
      simp only [apart, not_false_eq_true, iff_true]
      simp [TermM.after, run_termSet_unadded absent unadded]
    · have real : fd ≠ -1 := by
        rintro rfl
        exact lost i unused
      have found := find_of_added init lost (i := i) (s.world.settingsOf fd)
      rcases run_termSet_added plat p absent added found with
        ⟨valid, t, ran⟩ | ⟨invalid, e, t, ran⟩
      · have apart : ¬ FreesAnother plat replies s fd p := fun frees => frees.invalid valid
        simp [apart, rval, ran]
      · by_cases occupied : s.term.fd 0 = -1
        · have slot : i = 0 := by
            by_contra other
            exact first 0 (Fin.pos_iff_ne_zero.mpr other) occupied
          have apart : ¬ FreesAnother plat replies s fd p := fun frees => frees.occupied occupied
          simp only [apart, not_false_eq_true, iff_true]
          intro _
          subst slot
          simp only [TermM.after, ran, Sys.entries]
          have keys : Function.update (Function.update s.term.fd 0 fd) 0 (-1) = s.term.fd := by
            rw [Function.update_idem, ← occupied, Function.update_eq_self]
          rw [keys]
          apply Slots.lookup_congr
          intro k used
          have other : k ≠ 0 := by
            rintro rfl
            exact used occupied
          simp [Term.record, other]
        · have frees : FreesAnother plat replies s fd p :=
            ⟨lost, occupied, ⟨i, unused⟩, terminal, read, invalid⟩
          simp only [frees, not_true_eq_false, iff_false]
          intro same
          have restored := congrFun (same (by simp [rval, ran])) fd
          have before : s.entries fd = none := (Slots.lookup_eq_none_iff real).mpr lost
          have apart : i ≠ 0 := by
            rintro rfl
            exact occupied unused
          have after : (((termSet plat replies fd p).after s).entries fd).isSome := by
            simp only [TermM.after, ran, Sys.entries, Slots.lookup_isSome_iff]
            exact ⟨real, i, by simp [apart]⟩
          rw [restored, before] at after
          cases after

end Atomic

/-- A framework that manages descriptor 3, in slot 0. -/
def managesThree : Sys where
  term := { Term.static with init := true, fd := fun i => if i = 0 then 3 else -1 }
  world := ⟨fun fd => fd.toNat, fun _ => Termios.zero, []⟩

/-- Parameters with an invalid parity mode. -/
def noParity : Params := ⟨false, 9600, .error, 8, 1, .none, false, false⟩

/-- A failing `term_set` of the unmanaged descriptor 5 removes 3 and leaves 5 managed. -/
theorem term_set_frees_another_slot :
    let after := (termSet ⟨false, false⟩ allSucceed 5 noParity).after managesThree
    rval ((termSet ⟨false, false⟩ allSucceed 5 noParity).run managesThree) < 0 ∧
      managesThree.term.init = true ∧ (managesThree.entries 3).isSome ∧ after.entries 3 = none ∧
      managesThree.entries 5 = none ∧ (after.entries 5).isSome := by
  decide +kernel

/-- With slot 0 free the same call fails and is undone. -/
theorem term_set_atomic_first_slot :
    rval ((termSet ⟨false, false⟩ allSucceed 5 noParity).run
        { managesThree with term := { managesThree.term with fd := fun _ => -1 } }) < 0 ∧
      ((termSet ⟨false, false⟩ allSucceed 5 noParity).after
        { managesThree with term := { managesThree.term with fd := fun _ => -1 } }).entries
      = Sys.entries { managesThree with term := { managesThree.term with fd := fun _ => -1 } } := by
  have failed : rval ((termSet ⟨false, false⟩ allSucceed 5 noParity).run
      { managesThree with term := { managesThree.term with fd := fun _ => -1 } }) < 0 := by
    decide +kernel
  refine ⟨failed, (term_set_atomic_iff rfl).mpr (fun frees => ?_) failed⟩
  exact frees.occupied rfl

end Ppcom
