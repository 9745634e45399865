/-
Module: Ppcom.Proofs.DescriptorOwners
Purpose: Whether `FileDescriptor` and `FifoDes` account for what they open: what is stored is -1 or an
  open descriptor of the object, on its path, all reads and writes go there, and if the object were
  destroyed now it would have closed each descriptor once. The calls after which they do not are named.
Trusted boundary: none
Main exports: AccountsFor, FileDescriptor.accountsFor_iff, FifoDes.accountsFor_iff, descriptor_owners_iff,
  descriptor_owners_fail
-/
import Mathlib.Tactic.Tauto
import Ppcom.DescriptorOwners

namespace Ppcom

/-- After a call the object accounts for its descriptors; `stored` is the one that it has, and
`destroy` what its destructor does. -/
structure AccountsFor {ο ι : Type} (stored : ο → Int) (destroy : ο → Descriptors → Descriptors)
    (st : Machine.Step (Holder ο) ι Outcome) : Prop where
  own : stored st.after.object = -1 ∨ st.after.handles.Holds (stored st.after.object) st.after.path
  settled : (destroy st.after.object st.after.handles).Settled
  accesses : ∀ fd ∈ st.output.accesses,
    fd = stored st.before.object ∧ st.before.handles.Holds fd st.before.path

section Calls

variable {ο ι : Type} {stored : ο → Int} {destroy : ο → Descriptors → Descriptors}
  {st : Machine.Step (Holder ο) ι Outcome}

/-- A call that reads and writes nothing. -/
theorem accountsFor_quiet (quiet : st.output.accesses = []) :
    AccountsFor stored destroy st ↔
      (stored st.after.object = -1 ∨ st.after.handles.Holds (stored st.after.object) st.after.path) ∧
        (destroy st.after.object st.after.handles).Settled := by
  constructor
  · exact fun kept => ⟨kept.own, kept.settled⟩
  · rintro ⟨own, settled⟩
    refine ⟨own, settled, fun fd inside => ?_⟩
    rw [quiet] at inside
    cases inside

/-- A call that leaves the object as it is and reads from, or writes to, the stored descriptor. -/
theorem accountsFor_still (same : st.after = st.before)
    (own : stored st.before.object = -1 ∨
      st.before.handles.Holds (stored st.before.object) st.before.path)
    (settled : (destroy st.before.object st.before.handles).Settled)
    (accesses : ∀ fd ∈ st.output.accesses, fd = stored st.before.object ∧ fd ≠ -1) :
    AccountsFor stored destroy st where
  own := same ▸ own
  settled := same ▸ settled
  accesses fd inside := by
    obtain ⟨rfl, set⟩ := accesses fd inside
    exact ⟨rfl, own.resolve_left set⟩

end Calls

/-- The object has obtained the descriptor, and closed it since or not. -/
def Descriptors.Obtained (h : Descriptors) (fd : Int) : Prop := Handles.latest fd h.ledger ≠ none

section Descriptors

variable {h h' : Descriptors} {fd : Int} {path : String}

/-- What happens elsewhere does not concern the descriptors of the object. -/
theorem Descriptors.owned_elsewhere {happens : Elsewhere} (owned : h.Owned (-1) fd path)
    (step : h.elsewhere happens = some h') : h'.Owned (-1) fd path := by
  cases happens with
  | opened other =>
      cases (Option.ite_none_right_eq_some.mp step).2
      apply owned.of_opened
      intro holds
      by_cases same : fd = other
      · rw [same, Function.update_self]
      · rw [Function.update_of_ne same]
        exact holds.1
  | closed other =>
      obtain ⟨free, made⟩ := Option.ite_none_left_eq_some.mp step
      cases made
      apply owned.of_opened
      intro holds
      have differs : fd ≠ other := by
        rintro rfl
        exact free ⟨_, holds.2, rfl⟩
      rw [Function.update_of_ne differs]
      exact holds.1

end Descriptors

/-! ### `FileDescriptor` -/

namespace FileDescriptor

/-- A call of `FileDescriptor`. -/
abbrev Call := Machine.Step (Holder FileDescriptor) FileDescriptorInput Outcome

/-- A call that `FileDescriptor` does not account for: `open` while a descriptor is stored, which is
lost, and `close` of a descriptor that the object has obtained, which stays stored. -/
def Loses (st : Call) : Prop :=
  match st.input with
  | .openFd _ _ => st.before.object.fd ≠ -1
  | .closeFd fd _ => fd ≠ -1 ∧ st.before.handles.Obtained fd
  | _ => False

theorem openFd_eq (h : Descriptors) (path : String) (reply : Int) :
    ∃ result, openFd h path reply = (⟨reply⟩, h.opens path reply, ⟨[], result⟩) := by
  unfold openFd
  dsimp only
  split <;> exact ⟨_, rfl⟩

theorem closeFd_eq (f : FileDescriptor) (h : Descriptors) {fd : Int} (reply : Int) (set : fd ≠ -1) :
    ∃ result, f.closeFd h fd reply = (f, h.close fd, ⟨[], result⟩) := by
  unfold closeFd
  rw [if_pos set]
  split <;> exact ⟨_, rfl⟩

theorem owned_iff {f : FileDescriptor} {h : Descriptors} {path : String} :
    (f.fd = -1 ∨ h.Holds f.fd path) ∧ (f.destroy h).Settled ↔ h.Owned (-1) f.fd path := by
  unfold destroy Handles.Owned
  by_cases unset : f.fd = -1
  · simp [unset]
  · simp [unset]

theorem accountsFor_iff {st : Call} (made : st.Of step)
    (owned : st.before.handles.Owned (-1) st.before.object.fd st.before.path) :
    AccountsFor fd destroy st ↔ ¬ Loses st := by
  obtain ⟨⟨f, path, h⟩, input, s', output⟩ := st
  change step ⟨f, path, h⟩ input = some (s', output) at made
  change h.Owned (-1) f.fd path at owned
  have quiet : ∀ {input s' output}, output.accesses = [] →
      (AccountsFor fd destroy (⟨⟨f, path, h⟩, input, s', output⟩ : Call) ↔
        s'.handles.Owned (-1) s'.object.fd s'.path) :=
    fun none => (accountsFor_quiet none).trans owned_iff
  have still := owned_iff.mpr owned
  cases input with
  | openFd path' reply =>
      obtain ⟨result, is⟩ := openFd_eq h path' reply
      simp only [step, is, Option.ite_none_right_eq_some] at made
      cases made.2
      rw [quiet rfl]
      change (h.opens path' reply).Owned (-1) reply path' ↔ ¬ f.fd ≠ -1
      rw [not_not, Descriptors.opens]
      split
      · next failed =>
        rw [failed]
        exact Handles.owned_unset_iff owned
      · next some => rw [Handles.owned_obtain_iff owned some, and_iff_left rfl]
  | closeFd other reply =>
      by_cases unset : other = -1
      · simp only [step, closeFd, ne_eq, unset, not_true_eq_false, if_false] at made
        cases made
        exact iff_of_true ((quiet rfl).mpr owned) fun loses => loses.1 unset
      · obtain ⟨result, is⟩ := closeFd_eq f h reply unset
        simp only [step, is] at made
        cases made
        rw [quiet rfl]
        change (h.close other).Owned (-1) f.fd path ↔ ¬ (other ≠ -1 ∧ h.Obtained other)
        rw [Handles.owned_close_iff owned, and_iff_right unset, Descriptors.Obtained, not_not]
  | readFd reply =>
      cases made
      refine iff_of_true (accountsFor_still rfl still.1 still.2 fun d inside => ?_) id
      change d ∈ (f.readFd reply).accesses at inside
      unfold readFd at inside
      split at inside
      · cases inside
      · next set =>
        cases List.mem_singleton.mp inside
        exact ⟨rfl, set⟩
  | elsewhere happens =>
      obtain ⟨h', step, made⟩ := Option.map_eq_some_iff.mp made
      cases made
      refine iff_of_true ((quiet rfl).mpr ?_) id
      exact Descriptors.owned_elsewhere owned step

end FileDescriptor

/-! ### `FifoDes` -/

namespace FifoDes

/-- A call of `FifoDes`. -/
abbrev Call := Machine.Step (Holder FifoDes) FifoDesInput Outcome

/-- Nothing is stored, and the path given to the constructor is the one that is used. -/
def Ready (s : Holder FifoDes) : Prop := s.object.fifoFd = -1 ∧ s.path = "/tmp/ffwd_fifo"

/-- A call that `FifoDes` does not account for. `init` stores whether the descriptor could be opened,
which is the descriptor if that is 1; `open_fifo` loses what is stored, opens a path of its own, and may
get a 0, which the destructor does not close; `write_fifo` writes to what is on its stack. -/
def Loses (st : Call) : Prop :=
  match st.input with
  | .init mkfifo reply => mkfifo ≠ -1 ∧ ¬ (Ready st.before ∧ reply = 1)
  | .openFifo reply =>
      ¬ (st.before.object.fifoFd = -1 ∧ reply = -1 ∨ Ready st.before ∧ 0 < reply)
  | .writeFifo stack _ => 0 ≤ st.before.object.fifoFd ∧ stack ≠ st.before.object.fifoFd
  | _ => False

/-- What the calls of `FifoDes` rely on. -/
structure Good (s : Holder FifoDes) : Prop where
  owned : s.handles.Owned (-1) s.object.fifoFd s.path
  closable : s.object.fifoFd = -1 ∨ 0 < s.object.fifoFd
  fifoPath : s.object.fifoPath = "/tmp/ffwd_fifo"

theorem owned_iff {f : FifoDes} {h : Descriptors} {path : String} :
    (f.fifoFd = -1 ∨ h.Holds f.fifoFd path) ∧ (f.closeFifo h).Settled ↔
      h.Owned (-1) f.fifoFd path ∧ (f.fifoFd = -1 ∨ 0 < f.fifoFd) := by
  unfold closeFifo Handles.Owned
  by_cases unset : f.fifoFd = -1
  · simp [unset]
  · by_cases positive : 0 < f.fifoFd
    · simp [unset, positive]
    · simp only [unset, positive, false_or, if_false, or_self, and_false, iff_false]
      rintro ⟨holds, settled⟩
      exact holds.not_settled settled

theorem openFifo_eq (f : FifoDes) (h : Descriptors) {reply : Int} (grants : h.Grants reply) :
    f.openFifo h reply =
      (⟨f.fifoPath, reply⟩, h.opens f.fifoPath reply, if reply = -1 then 0 else 1) := by
  unfold openFifo
  rcases grants with rfl | ⟨valid, -⟩
  · rfl
  · rw [if_neg (by omega : ¬ reply = -1)]
    dsimp only
    rw [if_neg (by omega)]

theorem init_eq (f : FifoDes) (h : Descriptors) {mkfifo reply : Int} (made : mkfifo ≠ -1)
    (grants : h.Grants reply) : f.init h mkfifo reply =
      (⟨f.fifoPath, if reply = -1 then 0 else 1⟩, h.opens f.fifoPath reply, .ok 0) := by
  unfold init createFifo
  rw [if_neg made]
  dsimp only
  rw [openFifo_eq f h grants]
  by_cases failed : reply = -1 <;> simp [failed]

/-- What `open_fifo` obtains is owned where it is stored. -/
theorem owned_opens {f : FifoDes} {h : Descriptors} {path : String} {reply : Int}
    (owned : h.Owned (-1) f.fifoFd path) :
    (h.opens f.fifoPath reply).Owned (-1) reply path ↔
      f.fifoFd = -1 ∧ (reply = -1 ∨ f.fifoPath = path) := by
  unfold Descriptors.opens
  split
  · next failed =>
    subst failed
    rw [Handles.owned_unset_iff owned, and_iff_left (.inl rfl)]
  · next some => rw [Handles.owned_obtain_iff owned some, or_iff_right some]

/-- What `init` obtains is owned where it is the 1 that is stored. -/
theorem stored_iff {f : FifoDes} {h : Descriptors} {path : String} {mkfifo reply : Int}
    (owned : h.Owned (-1) f.fifoFd path) (fifoPath : f.fifoPath = "/tmp/ffwd_fifo")
    (made : mkfifo ≠ -1) :
    (h.opens f.fifoPath reply).Owned (-1) (if reply = -1 then 0 else 1) path ∧
      ((if reply = -1 then 0 else 1 : Int) = -1 ∨ 0 < (if reply = -1 then 0 else 1 : Int)) ↔
        ¬ (mkfifo ≠ -1 ∧ ¬ ((f.fifoFd = -1 ∧ path = "/tmp/ffwd_fifo") ∧ reply = 1)) := by
  rw [and_iff_right made, not_not]
  by_cases failed : reply = -1
  · rw [if_pos failed]
    exact iff_of_false (fun stored => by omega) fun ready => by omega
  · rw [if_neg failed, and_iff_left (.inr (by decide))]
    by_cases one : reply = 1
    · subst one
      rw [owned_opens owned, or_iff_right failed, fifoPath, and_iff_left rfl, @eq_comm String path]
    · rw [Descriptors.opens, if_neg failed]
      exact iff_of_false (Handles.not_owned_obtain (Ne.symm one)) fun ready => one ready.2

theorem accountsFor_iff {st : Call} (made : st.Of step) (good : Good st.before) :
    AccountsFor fifoFd closeFifo st ↔ ¬ Loses st := by
  obtain ⟨⟨f, path, h⟩, input, s', output⟩ := st
  change step ⟨f, path, h⟩ input = some (s', output) at made
  obtain ⟨owned, closable, fifoPath⟩ := good
  change h.Owned (-1) f.fifoFd path at owned
  change f.fifoFd = -1 ∨ 0 < f.fifoFd at closable
  change f.fifoPath = "/tmp/ffwd_fifo" at fifoPath
  have quiet : ∀ {input s' output}, output.accesses = [] →
      (AccountsFor fifoFd closeFifo (⟨⟨f, path, h⟩, input, s', output⟩ : Call) ↔
        s'.handles.Owned (-1) s'.object.fifoFd s'.path ∧
          (s'.object.fifoFd = -1 ∨ 0 < s'.object.fifoFd)) :=
    fun none => (accountsFor_quiet none).trans owned_iff
  have still := owned_iff.mpr ⟨owned, closable⟩
  cases input with
  | init mkfifo reply =>
      by_cases failed : mkfifo = -1
      · simp only [step, init, createFifo, failed, if_true, Option.ite_none_right_eq_some] at made
        cases made.2
        exact iff_of_true ((quiet rfl).mpr ⟨owned, closable⟩) fun loses => loses.1 failed
      · by_cases grants : h.Grants reply
        · simp only [step, init_eq f h failed grants, if_pos grants] at made
          cases made
          rw [quiet rfl]
          exact stored_iff owned fifoPath failed
        · simp only [step, if_neg grants] at made
          cases made
  | createFifo reply =>
      cases made
      exact iff_of_true ((quiet rfl).mpr ⟨owned, closable⟩) id
  | openFifo reply =>
      by_cases grants : h.Grants reply
      · simp only [step, openFifo_eq f h grants, if_pos grants] at made
        cases made
        rw [quiet rfl]
        change (h.opens f.fifoPath reply).Owned (-1) reply path ∧ (reply = -1 ∨ 0 < reply) ↔
          ¬ ¬ (f.fifoFd = -1 ∧ reply = -1 ∨ (f.fifoFd = -1 ∧ path = "/tmp/ffwd_fifo") ∧ 0 < reply)
        rw [owned_opens owned, not_not, fifoPath, @eq_comm String "/tmp/ffwd_fifo"]
        tauto
      · simp only [step, if_neg grants] at made
        cases made
  | readFifo reply =>
      cases made
      refine iff_of_true (accountsFor_still rfl still.1 still.2 fun d inside => ?_) id
      change d ∈ (f.readFifo reply).accesses at inside
      unfold readFifo at inside
      split at inside
      · cases inside
      · next set =>
        cases List.mem_singleton.mp inside
        exact ⟨rfl, by omega⟩
  | writeFifo stack reply =>
      cases made
      change AccountsFor fifoFd closeFifo (⟨_, _, _, f.writeFifo stack reply⟩ : Call) ↔
        ¬ (0 ≤ f.fifoFd ∧ stack ≠ f.fifoFd)
      by_cases unset : f.fifoFd < 0
      · have none : (f.writeFifo stack reply).accesses = [] := by
          unfold writeFifo
          rw [if_pos unset]
        exact iff_of_true ((quiet none).mpr ⟨owned, closable⟩) fun loses => by omega
      · have one : (f.writeFifo stack reply).accesses = [stack] := by
          unfold writeFifo
          rw [if_neg unset]
        rw [not_and, not_not]
        constructor
        · exact fun kept _ => (kept.accesses stack (one ▸ List.mem_singleton_self _)).1
        · intro same
          apply accountsFor_still rfl still.1 still.2
          intro d inside
          change d ∈ (f.writeFifo stack reply).accesses at inside
          rw [one] at inside
          cases List.mem_singleton.mp inside
          have stored := same (by omega)
          exact ⟨stored, by omega⟩
  | elsewhere happens =>
      obtain ⟨h', step, made⟩ := Option.map_eq_some_iff.mp made
      cases made
      exact iff_of_true ((quiet rfl).mpr ⟨Descriptors.owned_elsewhere owned step, closable⟩) id

/-- No call changes the path that is used. -/
theorem step_fifoPath {st : Call} (made : st.Of step) :
    st.after.object.fifoPath = st.before.object.fifoPath := by
  obtain ⟨⟨f, path, h⟩, input, s', output⟩ := st
  change step ⟨f, path, h⟩ input = some (s', output) at made
  cases input with
  | init mkfifo reply =>
      by_cases grants : h.Grants reply
      · by_cases failed : mkfifo = -1
        · simp only [step, init, createFifo, failed, if_true, if_pos grants] at made
          cases made
          rfl
        · simp only [step, init_eq f h failed grants, if_pos grants] at made
          cases made
          rfl
      · simp only [step, if_neg grants] at made
        cases made
  | createFifo reply =>
      cases made
      rfl
  | openFifo reply =>
      by_cases grants : h.Grants reply
      · simp only [step, openFifo_eq f h grants, if_pos grants] at made
        cases made
        rfl
      · simp only [step, if_neg grants] at made
        cases made
  | readFifo reply =>
      cases made
      rfl
  | writeFifo stack reply =>
      cases made
      rfl
  | elsewhere happens =>
      obtain ⟨h', -, made⟩ := Option.map_eq_some_iff.mp made
      cases made
      rfl

end FifoDes

/-! ### Runs -/

/-- A `FileDescriptor` when it is constructed. -/
def FileDescriptor.start (opened : Int → Bool) : Holder FileDescriptor := ⟨.new, "", ⟨opened, []⟩⟩

/-- A `FifoDes` when it is constructed. -/
def FifoDes.start (path : String) (opened : Int → Bool) : Holder FifoDes :=
  ⟨.new path, path, ⟨opened, []⟩⟩

theorem FileDescriptor.run_iff {opened : Int → Bool} {made : List FileDescriptor.Call}
    {s : Holder FileDescriptor}
    (run : Machine.Run FileDescriptor.step (FileDescriptor.start opened) made s) :
    (∀ st ∈ made, AccountsFor FileDescriptor.fd FileDescriptor.destroy st) ↔
      ∀ st ∈ made, ¬ FileDescriptor.Loses st := by
  refine run.each_iff (I := fun s => s.handles.Owned (-1) s.object.fd s.path) ?_ ?_ ?_
  · exact .inl ⟨rfl, Handles.settled_nil rfl⟩
  · exact fun st _ kept _ => FileDescriptor.owned_iff.mp ⟨kept.own, kept.settled⟩
  · exact fun st made owned => FileDescriptor.accountsFor_iff made owned

theorem FifoDes.run_iff {path : String} {opened : Int → Bool} {made : List FifoDes.Call}
    {s : Holder FifoDes}
    (run : Machine.Run FifoDes.step (FifoDes.start path opened) made s) :
    (∀ st ∈ made, AccountsFor FifoDes.fifoFd FifoDes.closeFifo st) ↔
      ∀ st ∈ made, ¬ FifoDes.Loses st := by
  apply run.each_iff (I := FifoDes.Good)
  · exact ⟨.inl ⟨rfl, Handles.settled_nil rfl⟩, .inl rfl, rfl⟩
  · intro st made kept good
    obtain ⟨owned, closable⟩ := FifoDes.owned_iff.mp ⟨kept.own, kept.settled⟩
    exact ⟨owned, closable, (FifoDes.step_fifoPath made).trans good.fifoPath⟩
  · exact fun st made good => FifoDes.accountsFor_iff made good

/-- Both classes account for their descriptors after every call of exactly those runs in which no
call loses one. -/
theorem descriptor_owners_iff (opened : Int → Bool) :
    (∀ (made : List FileDescriptor.Call) (s : Holder FileDescriptor),
      Machine.Run FileDescriptor.step (FileDescriptor.start opened) made s →
        ((∀ st ∈ made, AccountsFor FileDescriptor.fd FileDescriptor.destroy st) ↔
          ∀ st ∈ made, ¬ FileDescriptor.Loses st)) ∧
    ∀ (path : String) (made : List FifoDes.Call) (s : Holder FifoDes),
      Machine.Run FifoDes.step (FifoDes.start path opened) made s →
        ((∀ st ∈ made, AccountsFor FifoDes.fifoFd FifoDes.closeFifo st) ↔
          ∀ st ∈ made, ¬ FifoDes.Loses st) :=
  ⟨fun _ _ => FileDescriptor.run_iff, fun _ _ _ => FifoDes.run_iff⟩

/-- Each object opens once, and reads. -/
theorem descriptor_owners_opened :
    (∃ made s, Machine.Run FileDescriptor.step (FileDescriptor.start fun _ => false) made s ∧
      s.object.fd = 5 ∧
        ∀ st ∈ made, AccountsFor FileDescriptor.fd FileDescriptor.destroy st) ∧
    ∃ made s, Machine.Run FifoDes.step (FifoDes.start "/tmp/ffwd_fifo" fun _ => false) made s ∧
      s.object.fifoFd = 5 ∧ ∀ st ∈ made, AccountsFor FifoDes.fifoFd FifoDes.closeFifo st := by
  obtain ⟨fileDescriptor, fifoDes⟩ := descriptor_owners_iff fun _ => false
  constructor
  · have opens : FileDescriptor.step (FileDescriptor.start fun _ => false)
        (.openFd "/dev/null" 5) = some (_, _) := rfl
    have run := (Machine.Run.start.step opens).step
      (rfl : FileDescriptor.step _ (.readFd 1) = some (_, _))
    refine ⟨_, _, run, rfl, (fileDescriptor _ _ run).mpr fun st inside loses => ?_⟩
    rcases List.mem_append.mp inside with first | second
    · cases List.mem_singleton.mp first
      exact loses rfl
    · cases List.mem_singleton.mp second
      exact loses
  · have opens : FifoDes.step (FifoDes.start "/tmp/ffwd_fifo" fun _ => false)
        (.openFifo 5) = some (_, _) := rfl
    have run := (Machine.Run.start.step opens).step
      (rfl : FifoDes.step _ (.readFifo 1) = some (_, _))
    refine ⟨_, _, run, rfl, (fifoDes _ _ _ run).mpr fun st inside loses => ?_⟩
    rcases List.mem_append.mp inside with first | second
    · cases List.mem_singleton.mp first
      exact loses (.inr ⟨⟨rfl, rfl⟩, by decide⟩)
    · cases List.mem_singleton.mp second
      exact loses

/-- `close` leaves the descriptor stored that it has closed, and `init` stores 1 for descriptor 5. -/
theorem descriptor_owners_fail :
    (¬ ∀ (made : List FileDescriptor.Call) (s : Holder FileDescriptor),
      Machine.Run FileDescriptor.step (FileDescriptor.start fun _ => false) made s →
        ∀ st ∈ made, AccountsFor FileDescriptor.fd FileDescriptor.destroy st) ∧
    ¬ ∀ (made : List FifoDes.Call) (s : Holder FifoDes),
      Machine.Run FifoDes.step (FifoDes.start "/tmp/ffwd_fifo" fun _ => false) made s →
        ∀ st ∈ made, AccountsFor FifoDes.fifoFd FifoDes.closeFifo st := by
  constructor
  · intro claim
    have opens : FileDescriptor.step (FileDescriptor.start fun _ => false)
        (.openFd "/dev/null" 5) = some (_, _) := rfl
    have run := (Machine.Run.start.step opens).step
      (rfl : FileDescriptor.step _ (.closeFd 5 0) = some (_, _))
    rcases (claim _ _ run _ (List.mem_append_right _ (List.mem_singleton_self _))).own with
      unset | holds
    · exact absurd unset (by decide)
    · exact absurd holds.1 (by decide)
  · intro claim
    have inits : FifoDes.step (FifoDes.start "/tmp/ffwd_fifo" fun _ => false)
        (.init 0 5) = some (_, _) := rfl
    rcases (claim _ _ (Machine.Run.start.step inits) _
      (List.mem_append_right _ (List.mem_singleton_self _))).own with unset | holds
    · exact absurd unset (by decide)
    · exact absurd holds.1 (by decide)

end Ppcom
