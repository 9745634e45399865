/-
Module: Ppcom.Proofs.TermCalls
Purpose: What a call of the terminal framework does, as an equation for each way it can go. Later
  proofs cite these and never unfold a function of the framework.
Trusted boundary: none
Main exports: run_setParameter_accepts, run_termAdd_adds, run_termRemove_stores, run_termReplace_moves,
  run_termReset_reads, run_termApply_reads, run_resetAll, run_termExitfunc
-/
import Ppcom.Lib.Program
import Ppcom.Lib.Slots
import Ppcom.TermCall

namespace Ppcom

open Program

/-! ### Runs of the building blocks -/

@[simp] theorem run_setFd (i : Slot) (fd : Int) (s : Sys) :
    (setFd i fd).run s
      = .ok () { s with term := { s.term with fd := Function.update s.term.fd i fd } } := rfl

@[simp] theorem run_setOrig (i : Slot) (t : Termios) (s : Sys) :
    (setOrig i t).run s
      = .ok () { s with
        term := { s.term with origtermios := Function.update s.term.origtermios i t } } := rfl

@[simp] theorem run_setCurr (i : Slot) (t : Termios) (s : Sys) :
    (setCurr i t).run s
      = .ok () { s with
        term := { s.term with currtermios := Function.update s.term.currtermios i t } } := rfl

@[simp] theorem run_setNext (i : Slot) (t : Termios) (s : Sys) :
    (setNext i t).run s
      = .ok () { s with
        term := { s.term with nexttermios := Function.update s.term.nexttermios i t } } := rfl

@[simp] theorem run_termFind (fd : Int) (s : Sys) :
    (termFind fd).run s =
      match s.term.find fd with
      | .ok i => .ok i s
      | .error e => .error e s := by
  simp only [termFind, EStateM.run_bind, EStateM.run_get]
  cases s.term.find fd <;> rfl

@[simp] theorem run_termFindNextFree (s : Sys) :
    termFindNextFree.run s =
      match s.term.findNextFree with
      | .ok i => .ok i s
      | .error e => .error e s := by
  simp only [termFindNextFree, EStateM.run_bind, EStateM.run_get]
  cases s.term.findNextFree <;> rfl

section Devices

variable {stores : Termios → Option Termios} {fd : Int} {when : When} {t stored : Termios} {s : Sys}

theorem run_tcsetattr_negative (negative : fd < 0) :
    (tcsetattr stores fd when t).run s = .ok false s := by
  simp [tcsetattr, negative]

theorem run_tcsetattr_fails (fails : stores t = none) :
    (tcsetattr stores fd when t).run s = .ok false s := by
  unfold tcsetattr
  split <;> simp [fails]

theorem run_tcsetattr_stores (real : 0 ≤ fd) (takes : stores t = some stored) :
    (tcsetattr stores fd when t).run s
      = .ok true { s with world := s.world.store fd when t stored } := by
  unfold tcsetattr
  rw [if_neg (Int.not_lt.mpr real), takes]
  rfl

theorem run_tcgetattr_fails : (tcgetattr false fd).run s = .ok none s := by
  simp [tcgetattr]

theorem run_tcgetattr_reads (real : 0 ≤ fd) :
    (tcgetattr true fd).run s = .ok (some (s.world.settingsOf fd)) s := by
  unfold tcgetattr
  rw [if_neg (by simpa using real)]
  rfl

end Devices

/-! ### Calls on a descriptor that is not managed -/

section NotFound

variable {s : Sys} {fd : Int} {e : TermErrno} (lost : s.term.find fd = .error e)
  (plat : Platform) (replies : Replies)

include lost

theorem run_termRemove_lost : (termRemove replies fd).run s = .error e s := by
  simp [termRemove, lost]

theorem run_termErase_lost : (termErase fd).run s = .error e s := by
  simp [termErase, lost]

theorem run_termReplace_lost (newfd : Int) : (termReplace replies fd newfd).run s = .error e s := by
  simp [termReplace, lost]

theorem run_termReset_lost : (termReset replies fd).run s = .error e s := by
  simp [termReset, lost]

theorem run_termRevert_lost : (termRevert fd).run s = .error e s := by
  simp [termRevert, lost]

theorem run_termRefresh_lost : (termRefresh replies fd).run s = .error e s := by
  simp [termRefresh, lost]

theorem run_termApply_lost (now : Bool) : (termApply replies fd now).run s = .error e s := by
  simp [termApply, lost]

theorem run_termFakeFlush_lost : (termFakeFlush replies fd).run s = .error e s := by
  simp [termFakeFlush, lost]

theorem run_setParameter_lost (change : Termios → Except TermErrno Termios) :
    (setParameter change fd).run s = .error e s := by
  simp [setParameter, lost]

end NotFound

/-! ### Calls on a managed descriptor -/

section Found

variable {s : Sys} {fd : Int} {i : Slot} (found : s.term.find fd = .ok i) {replies : Replies}
  {t : Termios}

include found

theorem run_setParameter_accepts {change : Termios → Except TermErrno Termios}
    (accepts : change (s.term.nexttermios i) = .ok t) :
    (setParameter change fd).run s = .ok () { s with
      term := { s.term with nexttermios := Function.update s.term.nexttermios i t } } := by
  simp [setParameter, found, accepts]

theorem run_setParameter_refuses {change : Termios → Except TermErrno Termios} {e : TermErrno}
    (refuses : change (s.term.nexttermios i) = .error e) :
    (setParameter change fd).run s = .error e s := by
  simp [setParameter, found, refuses]

theorem run_termErase_found :
    (termErase fd).run s
      = .ok () { s with term := { s.term with fd := Function.update s.term.fd i (-1) } } := by
  simp [termErase, found]

theorem run_termRevert_found :
    (termRevert fd).run s = .ok () { s with
      term := { s.term with
        nexttermios := Function.update s.term.nexttermios i (s.term.currtermios i) } } := by
  simp [termRevert, found]

theorem run_termRefresh_unread (unread : replies.tcgetattr = false) :
    (termRefresh replies fd).run s = .error .egetattr s := by
  simp [termRefresh, found, unread, run_tcgetattr_fails]

theorem run_termRefresh_reads (real : 0 ≤ fd) (read : replies.tcgetattr = true) :
    (termRefresh replies fd).run s = .ok () { s with
      term := { s.term with
        currtermios := Function.update s.term.currtermios i (s.world.settingsOf fd) } } := by
  simp [termRefresh, found, read, run_tcgetattr_reads real]

/-! `term_remove` -/

theorem run_termRemove_unflushed (flush : tcflush replies fd = false) :
    (termRemove replies fd).run s
      = .error .eflush
        { s with term := { s.term with fd := Function.update s.term.fd i (-1) } } := by
  simp [termRemove, found, flush]

theorem run_termRemove_fails (flush : tcflush replies fd = true)
    (fails : replies.tcsetattr (s.term.origtermios i) = none) :
    (termRemove replies fd).run s
      = .error .esetattr
        { s with term := { s.term with fd := Function.update s.term.fd i (-1) } } := by
  simp [termRemove, found, flush, run_tcsetattr_fails fails]

theorem run_termRemove_stores (real : 0 ≤ fd) (flush : tcflush replies fd = true)
    (takes : replies.tcsetattr (s.term.origtermios i) = some t) :
    (termRemove replies fd).run s
      = .ok ()
        { term := { s.term with fd := Function.update s.term.fd i (-1) }
          world := s.world.store fd .tcsanow (s.term.origtermios i) t } := by
  simp [termRemove, found, flush, run_tcsetattr_stores real takes]

/-! `term_replace` -/

theorem run_termReplace_fails {newfd : Int}
    (fails : replies.tcsetattr (s.term.currtermios i) = none) :
    (termReplace replies fd newfd).run s = .error .esetattr s := by
  simp [termReplace, found, run_tcsetattr_fails fails]

theorem run_termReplace_negative {newfd : Int} (negative : newfd < 0) :
    (termReplace replies fd newfd).run s = .error .esetattr s := by
  simp [termReplace, found, run_tcsetattr_negative negative]

theorem run_termReplace_unread {newfd : Int} (real : 0 ≤ newfd)
    (takes : replies.tcsetattr (s.term.currtermios i) = some t)
    (unread : replies.tcgetattr = false) :
    (termReplace replies fd newfd).run s
      = .error .egetattr
        { s with world := s.world.store newfd .tcsanow (s.term.currtermios i) t } := by
  simp [termReplace, found, run_tcsetattr_stores real takes, unread, run_tcgetattr_fails]

theorem run_termReplace_moves {newfd : Int} (real : 0 ≤ newfd)
    (takes : replies.tcsetattr (s.term.currtermios i) = some t) (read : replies.tcgetattr = true) :
    (termReplace replies fd newfd).run s
      = .ok ()
        { term := { s.term with
            fd := Function.update s.term.fd i newfd
            currtermios := Function.update s.term.currtermios i t }
          world := s.world.store newfd .tcsanow (s.term.currtermios i) t } := by
  simp [termReplace, found, run_tcsetattr_stores real takes, read, run_tcgetattr_reads real,
    World.settingsOf, World.store]

/-! `term_reset` -/

theorem run_termReset_unflushed (flush : tcflush replies fd = false) :
    (termReset replies fd).run s = .error .eflush s := by
  simp [termReset, found, flush]

theorem run_termReset_fails (flush : tcflush replies fd = true)
    (fails : replies.tcsetattr (s.term.origtermios i) = none) :
    (termReset replies fd).run s = .error .esetattr s := by
  simp [termReset, found, flush, run_tcsetattr_fails fails]

theorem run_termReset_unread (real : 0 ≤ fd) (flush : tcflush replies fd = true)
    (takes : replies.tcsetattr (s.term.origtermios i) = some t)
    (unread : replies.tcgetattr = false) :
    (termReset replies fd).run s
      = .error .egetattr
        { s with world := s.world.store fd .tcsanow (s.term.origtermios i) t } := by
  simp [termReset, found, flush, run_tcsetattr_stores real takes, unread, run_tcgetattr_fails]

theorem run_termReset_reads (real : 0 ≤ fd) (flush : tcflush replies fd = true)
    (takes : replies.tcsetattr (s.term.origtermios i) = some t) (read : replies.tcgetattr = true) :
    (termReset replies fd).run s
      = .ok ()
        { term := { s.term with
            currtermios := Function.update s.term.currtermios i t
            nexttermios := Function.update s.term.nexttermios i t }
          world := s.world.store fd .tcsanow (s.term.origtermios i) t } := by
  simp [termReset, found, flush, run_tcsetattr_stores real takes, read, run_tcgetattr_reads real,
    World.settingsOf, World.store]

/-! `term_apply` -/

theorem run_termApply_fails {now : Bool} (fails : replies.tcsetattr (s.term.nexttermios i) = none) :
    (termApply replies fd now).run s = .error .esetattr s := by
  simp [termApply, found, run_tcsetattr_fails fails]

theorem run_termApply_negative {now : Bool} (negative : fd < 0) :
    (termApply replies fd now).run s = .error .esetattr s := by
  simp [termApply, found, run_tcsetattr_negative negative]

theorem run_termApply_unread {now : Bool} (real : 0 ≤ fd)
    (takes : replies.tcsetattr (s.term.nexttermios i) = some t)
    (unread : replies.tcgetattr = false) :
    (termApply replies fd now).run s
      = .error .egetattr
        { s with world := s.world.store fd (applyWhen now) (s.term.nexttermios i) t } := by
  simp [termApply, found, run_tcsetattr_stores real takes, unread, run_tcgetattr_fails, applyWhen]

theorem run_termApply_reads (now : Bool) (real : 0 ≤ fd)
    (takes : replies.tcsetattr (s.term.nexttermios i) = some t) (read : replies.tcgetattr = true) :
    (termApply replies fd now).run s
      = .ok ()
        { term := { s.term with
            origtermios := Function.update s.term.origtermios i
              (copyHupcl t (s.term.origtermios i))
            currtermios := Function.update s.term.currtermios i t
            nexttermios := Function.update s.term.nexttermios i t }
          world := s.world.store fd (applyWhen now) (s.term.nexttermios i) t } := by
  simp [termApply, found, run_tcsetattr_stores real takes, read, run_tcgetattr_reads real,
    World.settingsOf, World.store, applyWhen]

end Found

/-! `term_add` -/

section Add

variable {s : Sys} {fd : Int} {replies : Replies}

theorem run_termAdd_managed {i : Slot} (found : s.term.find fd = .ok i) :
    (termAdd replies fd).run s = .error .eexists s := by
  simp [termAdd, found, Except.isOk, Except.toBool]

theorem run_termAdd_noTerminal {e : TermErrno} (lost : s.term.find fd = .error e)
    (other : isatty replies fd = false) :
    (termAdd replies fd).run s = .error .eisatty s := by
  simp [termAdd, lost, other, Except.isOk, Except.toBool]

theorem run_termAdd_full {e e' : TermErrno} (lost : s.term.find fd = .error e)
    (terminal : isatty replies fd = true) (full : s.term.findNextFree = .error e') :
    (termAdd replies fd).run s = .error e' s := by
  simp [termAdd, lost, terminal, full, Except.isOk, Except.toBool]

theorem run_termAdd_unread {e : TermErrno} {i : Slot} (lost : s.term.find fd = .error e)
    (terminal : isatty replies fd = true) (room : s.term.findNextFree = .ok i)
    (unread : replies.tcgetattr = false) :
    (termAdd replies fd).run s = .error .egetattr s := by
  simp [termAdd, lost, terminal, room, unread, run_tcgetattr_fails, Except.isOk, Except.toBool]

theorem run_termAdd_adds {e : TermErrno} {i : Slot} (lost : s.term.find fd = .error e)
    (terminal : isatty replies fd = true) (room : s.term.findNextFree = .ok i)
    (read : replies.tcgetattr = true) :
    (termAdd replies fd).run s = .ok 0 { s with
      term := { s.term with
        fd := Function.update s.term.fd i fd
        origtermios := Function.update s.term.origtermios i (s.world.settingsOf fd)
        currtermios := Function.update s.term.currtermios i (s.world.settingsOf fd)
        nexttermios := Function.update s.term.nexttermios i (s.world.settingsOf fd) } } := by
  have real : 0 ≤ fd := by
    simp only [isatty, Bool.and_eq_true, decide_eq_true_eq] at terminal
    exact terminal.1
  simp only [termAdd, EStateM.run_bind, EStateM.run_get, lost, Except.isOk, Except.toBool,
    Bool.false_eq_true, if_false, terminal, if_true, run_termFindNextFree, room, read,
    run_tcgetattr_reads real, run_setOrig, run_setCurr, run_setNext]
  rfl

end Add

/-! ### The loops over the slots -/

/-- The world after the turn for slot `i` of a loop that resets every terminal. -/
def resetWorld (replies : Slot → Replies) (term : Term) (w : World) (i : Slot) : World :=
  if term.fd i < 0 then w
  else
    match (replies i).tcsetattr (term.origtermios i) with
    | none => w
    | some t => w.store (term.fd i) .tcsanow (term.origtermios i) t

theorem run_resetSlot (replies : Slot → Replies) (i : Slot) (s : Sys) :
    (resetSlot replies i).run s
      = .ok ()
        ⟨{ s.term with fd := Function.update s.term.fd i (-1) },
          resetWorld replies s.term s.world i⟩ := by
  by_cases unused : s.term.fd i = -1
  · have same : Function.update s.term.fd i (-1) = s.term.fd := by
      rw [← unused, Function.update_eq_self]
    simp [resetSlot, resetWorld, unused, same]
  · unfold resetWorld
    split
    · next negative =>
      have set : (tcsetattr (replies i).tcsetattr (s.term.fd i) .tcsanow
          (s.term.origtermios i)).run s = .ok false s := run_tcsetattr_negative negative
      simp [resetSlot, unused, run_discard_ok set]
    · next real =>
      cases reply : (replies i).tcsetattr (s.term.origtermios i) with
      | none =>
          have set : (tcsetattr (replies i).tcsetattr (s.term.fd i) .tcsanow
              (s.term.origtermios i)).run s = .ok false s := run_tcsetattr_fails reply
          simp [resetSlot, unused, run_discard_ok set]
      | some t =>
          have set : (tcsetattr (replies i).tcsetattr (s.term.fd i) .tcsanow
              (s.term.origtermios i)).run s = .ok true _ :=
            run_tcsetattr_stores (not_lt.mp real) reply
          simp [resetSlot, unused, run_discard_ok set]

/-- A turn reads only its own slot. -/
theorem resetWorld_congr {replies : Slot → Replies} {term term' : Term} {w : World} {i : Slot}
    (fd : term'.fd i = term.fd i) (orig : term'.origtermios = term.origtermios) :
    resetWorld replies term' w i = resetWorld replies term w i := by
  simp only [resetWorld, fd, orig]

/-- The loop frees the slots it runs over, and leaves the world that its turns make. -/
theorem run_resetSlots (replies : Slot → Replies) (slots : List Slot) (nodup : slots.Nodup)
    (s : Sys) :
    (forM slots (resetSlot replies)).run s
      = .ok ()
        ⟨{ s.term with fd := fun i => if i ∈ slots then -1 else s.term.fd i },
          slots.foldl (resetWorld replies s.term) s.world⟩ := by
  induction slots generalizing s with
  | nil => simp
  | cons i rest ih =>
      obtain ⟨apart, nodup⟩ := List.nodup_cons.mp nodup
      simp only [List.forM_cons, EStateM.run_bind, run_resetSlot, ih nodup, List.foldl_cons]
      congr 2
      · congr 1
        funext j
        by_cases here : j = i
        · simp [here]
        · simp [here]
      · apply List.foldl_ext
        intro w j inside
        have other : j ≠ i := by
          rintro rfl
          exact apart inside
        exact resetWorld_congr (by simp [other]) rfl

/-- The loop over all slots leaves none in use. -/
theorem run_resetAll (replies : Slot → Replies) (s : Sys) :
    (forM (List.finRange maxTerms) (resetSlot replies)).run s
      = .ok ()
        ⟨{ s.term with fd := fun _ => -1 },
          (List.finRange maxTerms).foldl (resetWorld replies s.term) s.world⟩ := by
  rw [run_resetSlots replies _ (List.nodup_finRange _)]
  simp

theorem run_clearSlots (slots : List Slot) (s : Sys) :
    (forM slots fun i => setFd i (-1)).run s
      = .ok ()
        ⟨{ s.term with fd := fun i => if i ∈ slots then -1 else s.term.fd i }, s.world⟩ := by
  induction slots generalizing s with
  | nil => simp
  | cons i rest ih =>
      simp only [List.forM_cons, EStateM.run_bind, run_setFd, ih]
      congr 2
      congr 1
      funext j
      by_cases here : j = i
      · simp [here]
      · simp [here]

/-! `term_lib_init` and `term_exitfunc` -/

section Library

variable {s s' : Sys} {replies : Slot → Replies}

theorem run_termLibInit_again (init : s.term.init = true) (atexitOk : Bool) :
    (termLibInit atexitOk replies).run s
      = .ok ()
        ⟨{ s.term with fd := fun _ => -1 },
          (List.finRange maxTerms).foldl (resetWorld replies s.term) s.world⟩ := by
  simp [termLibInit, init, run_resetAll]

theorem run_termLibInit_first (uninit : s.term.init = false) (atexitOk : Bool) :
    (termLibInit atexitOk replies).run s
      = if atexitOk then .ok () ⟨{ s.term with init := true, fd := fun _ => -1 }, s.world⟩
        else .error .eatexit ⟨{ s.term with fd := fun _ => -1 }, s.world⟩ := by
  cases atexitOk <;> simp [termLibInit, uninit, run_clearSlots]

theorem run_termExitfunc (init : s.term.init = true) :
    (termExitfunc replies).run s
      = .ok ()
        ⟨{ s.term with fd := fun _ => -1 },
          (List.finRange maxTerms).foldl (resetWorld replies s.term) s.world⟩ := by
  simp [termExitfunc, init, run_resetAll]

/-- After a successful `term_lib_init` the framework is initialised and empty. -/
theorem termLibInit_empty {atexitOk : Bool}
    (started : (termLibInit atexitOk replies).run s = .ok () s') :
    s'.term.init = true ∧ ∀ i, s'.term.fd i = -1 := by
  cases init : s.term.init with
  | true =>
      rw [run_termLibInit_again init] at started
      cases started
      exact ⟨init, fun _ => rfl⟩
  | false =>
      rw [run_termLibInit_first init] at started
      cases atexitOk <;> cases started
      exact ⟨rfl, fun _ => rfl⟩

end Library

end Ppcom
