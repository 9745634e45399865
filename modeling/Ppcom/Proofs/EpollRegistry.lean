/-
Module: Ppcom.Proofs.EpollRegistry
Purpose: The containers of `Epoll` against a registry that has, for each descriptor, the latest
  registration that was not removed. A removal leaves the record behind, which then stands for every
  later registration of that number.
Trusted boundary: none
Main exports: Registry, Consistent, Clashes, epoll_consistent_iff, epoll_inconsistent
-/
import Mathlib.Data.List.Count
import Ppcom.Epoll
import Ppcom.Lib.Machine

namespace Ppcom

/-! ### The registry -/

/-- The registration that each descriptor has. -/
abbrev Registry (κ : Type) := Int → Option (EpollSt × κ)

/-- After a call: an `addSt` that succeeds registers its descriptor, and `remove` ends that. -/
def Registry.after {κ : Type} (registry : Registry κ) (k : EpollKernel) : EpollInput κ → Registry κ
  | .addSt fd events callback granted =>
      if k.accepts fd granted then
        Function.update registry fd (some (Epoll.record fd events, callback))
      else registry
  | .remove fd => Function.update registry fd none
  | _ => registry

/-- `Epoll` and the kernel, with the registry that the calls so far amount to. -/
structure Enrolled (κ : Type) extends Watch κ where
  registry : Registry κ

/-- Both after a call. -/
def Enrolled.next {κ : Type} (s : Enrolled κ) (input : EpollInput κ) : Enrolled κ where
  toWatch := (epollStep s.toWatch input).1
  registry := s.registry.after s.kernel input

/-- A step of both, which every call makes. -/
def registryStep {κ : Type} (s : Enrolled κ) (input : EpollInput κ) :
    Option (Enrolled κ × Bool) :=
  some (s.next input, (epollStep s.toWatch input).2)

/-- There is a record for the descriptor. -/
def HasRecord (vec : List EpollSt) (fd : Int) : Prop := ∃ st ∈ vec, st.infd = fd

/-- The containers are those of the registry. -/
structure Consistent {κ : Type} (e : Epoll κ) (registry : Registry κ) : Prop where
  entry (fd : Int) : (e.cbs fd).isSome ↔ e.vecEpollSt.countP (·.infd = fd) = 1
  absent (fd : Int) : registry fd = none → (getEpollStByFd e.vecEpollSt fd).1 = -1
  present (fd : Int) {st : EpollSt} {callback : κ} : registry fd = some (st, callback) →
    0 ≤ (getEpollStByFd e.vecEpollSt fd).1 ∧ (getEpollStByFd e.vecEpollSt fd).2 = st
  handed (fd : Int) : e.handed fd = registry fd

section Lookup

variable {fd : Int} {i : Nat} {vec : List EpollSt} {st : EpollSt}

/-- Either the search ends at a record, whatever comes behind, or it goes on behind the last one. -/
theorem getEpollStFrom_cases (fd : Int) (i : Nat) (vec : List EpollSt) :
    (HasRecord vec fd ∧ ∃ (j : Nat) (st : EpollSt), ∀ later,
      getEpollStFrom fd i (vec ++ later) = ((j : Int), st)) ∨
    (¬ HasRecord vec fd ∧ ∀ later,
      getEpollStFrom fd i (vec ++ later) = getEpollStFrom fd (i + vec.length) later) := by
  induction vec generalizing i with
  | nil => exact .inr ⟨nofun, fun _ => rfl⟩
  | cons first rest ih =>
      by_cases same : first.infd = fd
      · refine .inl ⟨⟨first, List.mem_cons_self, same⟩, i, first, fun later => ?_⟩
        rw [List.cons_append, getEpollStFrom, if_pos same]
      · have next : ∀ later, getEpollStFrom fd i (first :: rest ++ later) =
            getEpollStFrom fd (i + 1) (rest ++ later) := by
          intro later
          rw [List.cons_append, getEpollStFrom, if_neg same]
        rcases ih (i + 1) with ⟨⟨st, inside, is⟩, j, found, ends⟩ | ⟨absent, goes⟩
        · refine .inl ⟨⟨st, List.mem_cons_of_mem _ inside, is⟩, j, found, fun later => ?_⟩
          rw [next, ends]
        · refine .inr ⟨?_, fun later => ?_⟩
          · rintro ⟨st, inside, is⟩
            rcases List.mem_cons.mp inside with rfl | later
            · exact same is
            · exact absent ⟨st, later, is⟩
          · rw [next, goes, List.length_cons, Nat.add_assoc, Nat.add_comm 1]

/-- A record is found, and hides those behind it. -/
theorem getEpollStFrom_present (present : HasRecord vec fd) (i : Nat) :
    0 ≤ (getEpollStFrom fd i vec).1 ∧
      ∀ later, getEpollStFrom fd i (vec ++ later) = getEpollStFrom fd i vec := by
  rcases getEpollStFrom_cases fd i vec with ⟨-, j, st, ends⟩ | ⟨absent, -⟩
  · have here := ends []
    rw [List.append_nil] at here
    rw [here]
    exact ⟨Int.natCast_nonneg j, ends⟩
  · exact absurd present absent

/-- A new record is found where there was none before. -/
theorem getEpollStFrom_append (absent : ¬ HasRecord vec fd) (later : List EpollSt) :
    getEpollStFrom fd i (vec ++ later) = getEpollStFrom fd (i + vec.length) later :=
  ((getEpollStFrom_cases fd i vec).resolve_left fun present => absent present.1).2 later

theorem getEpollStFrom_absent (absent : ¬ HasRecord vec fd) :
    getEpollStFrom fd i vec = (-1, ⟨-1, 0, -1, -1, 0⟩) := by
  have goes := getEpollStFrom_append (i := i) absent []
  rwa [List.append_nil] at goes

/-- A new record does not change what is found for another descriptor. -/
theorem getEpollStByFd_other (other : st.infd ≠ fd) :
    getEpollStByFd (vec ++ [st]) fd = getEpollStByFd vec fd := by
  unfold getEpollStByFd
  by_cases present : HasRecord vec fd
  · exact (getEpollStFrom_present present 0).2 _
  · rw [getEpollStFrom_append present, getEpollStFrom_absent present, getEpollStFrom, if_neg other]
    rfl

theorem getEpollStByFd_new (absent : ¬ HasRecord vec fd) (same : st.infd = fd) :
    getEpollStByFd (vec ++ [st]) fd = ((vec.length : Int), st) := by
  unfold getEpollStByFd
  rw [getEpollStFrom_append absent, getEpollStFrom, if_pos same, Nat.zero_add]

theorem hasRecord_iff : HasRecord vec fd ↔ 0 < vec.countP (·.infd = fd) := by
  simp [HasRecord, List.countP_pos_iff]

end Lookup

/-! ### Steps -/

/-- A step of both. -/
abbrev EpollCall (κ : Type) := Machine.Step (Enrolled κ) (EpollInput κ) Bool

/-- A call that the records do not survive: `remove` of a descriptor that has one, or `addSt` where it
succeeds. -/
def Clashes {κ : Type} (st : EpollCall κ) : Prop :=
  match st.input with
  | .remove fd => HasRecord st.before.epoll.vecEpollSt fd
  | .addSt fd _ _ granted =>
      st.before.kernel.accepts fd granted = true ∧ HasRecord st.before.epoll.vecEpollSt fd
  | _ => False

/-- After the call the containers are those of the registry; one that throws has not changed them. -/
structure KeepsRegistry {κ : Type} (st : EpollCall κ) : Prop where
  consistent : Consistent st.after.epoll st.after.registry
  threw : st.output = true → st.after.epoll = st.before.epoll

section Steps

variable {κ : Type} {e : Epoll κ} {registry : Registry κ} {fd : Int}

theorem Consistent.absent_iff (held : Consistent e registry) :
    registry fd = none ↔ ¬ HasRecord e.vecEpollSt fd := by
  constructor
  · intro absent present
    have found := (getEpollStFrom_present present 0).1
    have lost := held.absent fd absent
    unfold getEpollStByFd at lost
    omega
  · intro absent
    cases is : registry fd with
    | none => rfl
    | some both =>
        have found := (held.present fd is).1
        rw [getEpollStByFd, getEpollStFrom_absent absent] at found
        omega

theorem Consistent.no_callback (held : Consistent e registry) (absent : ¬ HasRecord e.vecEpollSt fd) :
    e.cbs fd = none := by
  rw [hasRecord_iff] at absent
  rw [← Option.not_isSome_iff_eq_none, held.entry]
  omega

/-- Only the two containers count. -/
theorem Consistent.of_eq {e' : Epoll κ} (held : Consistent e registry) (cbs : e'.cbs = e.cbs)
    (vec : e'.vecEpollSt = e.vecEpollSt) : Consistent e' registry where
  entry fd := by
    rw [cbs, vec]
    exact held.entry fd
  absent fd none := by
    rw [vec]
    exact held.absent fd none
  present fd st callback is := by
    rw [vec]
    exact held.present fd is
  handed fd := by
    rw [← held.handed fd, Epoll.handed, Epoll.handed, cbs, vec]

/-- `remove` of a descriptor without a record changes nothing. -/
theorem Consistent.remove_iff (held : Consistent e registry) (k : EpollKernel) (fd : Int) :
    Consistent (e.remove k fd).1 (Function.update registry fd none) ↔
      ¬ HasRecord e.vecEpollSt fd := by
  constructor
  · intro after present
    have lost := after.absent fd (Function.update_self ..)
    have found := (getEpollStFrom_present present 0).1
    change (getEpollStFrom fd 0 e.vecEpollSt).1 = -1 at lost
    omega
  · intro absent
    have registered : Function.update registry fd none = registry :=
      Function.update_eq_self_iff.mpr (held.absent_iff.mpr absent).symm
    rw [registered]
    exact held.of_eq (Function.update_eq_self_iff.mpr (held.no_callback absent).symm) rfl

/-- `addSt` that succeeds has to add the only record of its descriptor. -/
theorem Consistent.addSt_iff (held : Consistent e registry) (fd : Int) (events : UInt32)
    (callback : κ) :
    Consistent { e with
        vecEpollSt := e.vecEpollSt ++ [Epoll.record fd events]
        cbs := Function.update e.cbs fd (some callback) }
      (Function.update registry fd (some (Epoll.record fd events, callback))) ↔
      ¬ HasRecord e.vecEpollSt fd := by
  have count : ∀ fd', (e.vecEpollSt ++ [Epoll.record fd events]).countP (·.infd = fd') =
      e.vecEpollSt.countP (·.infd = fd') + if fd = fd' then 1 else 0 := by
    intro fd'
    rw [List.countP_append, List.countP_singleton]
    change _ + (if decide (fd = fd') = true then 1 else 0) = _
    by_cases same : fd = fd' <;> simp [same]
  constructor
  · intro after present
    have single := (after.entry fd).mp (by simp)
    rw [hasRecord_iff] at present
    rw [count, if_pos rfl] at single
    omega
  · intro absent
    have found : getEpollStByFd (e.vecEpollSt ++ [Epoll.record fd events]) fd =
        ((e.vecEpollSt.length : Int), Epoll.record fd events) := getEpollStByFd_new absent rfl
    have other : ∀ fd', fd' ≠ fd → getEpollStByFd (e.vecEpollSt ++ [Epoll.record fd events]) fd' =
        getEpollStByFd e.vecEpollSt fd' := fun fd' differs => getEpollStByFd_other differs.symm
    refine ⟨fun fd' => ?_, fun fd' none => ?_, fun fd' st callback' some => ?_, fun fd' => ?_⟩
    · rw [count]
      by_cases same : fd' = fd
      · subst same
        rw [hasRecord_iff] at absent
        simp only [Function.update_self, Option.isSome_some, if_true, true_iff]
        omega
      · rw [if_neg (Ne.symm same), Nat.add_zero]
        change (Function.update e.cbs fd (some callback) fd').isSome = true ↔ _
        rw [Function.update_of_ne same]
        exact held.entry fd'
    · by_cases same : fd' = fd
      · subst same
        rw [Function.update_self] at none
        cases none
      · rw [Function.update_of_ne same] at none
        rw [other fd' same]
        exact held.absent fd' none
    · by_cases same : fd' = fd
      · subst same
        rw [Function.update_self] at some
        cases some
        rw [found]
        exact ⟨Int.natCast_nonneg _, rfl⟩
      · rw [Function.update_of_ne same] at some
        rw [other fd' same]
        exact held.present fd' some
    · unfold Epoll.handed
      by_cases same : fd' = fd
      · subst same
        simp only [Function.update_self, found]
        rw [if_neg (Int.not_lt.mpr (Int.natCast_nonneg _))]
      · simp only [Function.update_of_ne same, other fd' same]
        exact held.handed fd'

/-- One call. -/
theorem keepsRegistry_iff {st : EpollCall κ} (made : st.Of registryStep)
    (held : Consistent st.before.epoll st.before.registry) : KeepsRegistry st ↔ ¬ Clashes st := by
  obtain ⟨⟨⟨e, k⟩, registry⟩, input, s', output⟩ := st
  change registryStep ⟨⟨e, k⟩, registry⟩ input = some (s', output) at made
  change Consistent e registry at held
  cases input with
  | add fd callback granted =>
      refine iff_of_true ?_ id
      by_cases accepted : k.accepts fd granted = true
      · simp only [registryStep, Enrolled.next, epollStep, Epoll.add, if_pos accepted] at made
        cases made
        exact ⟨held.of_eq rfl rfl, nofun⟩
      · simp only [registryStep, Enrolled.next, epollStep, Epoll.add, if_neg accepted] at made
        cases made
        exact ⟨held, fun _ => rfl⟩
  | addSt fd events callback granted =>
      by_cases accepted : k.accepts fd granted = true
      · simp only [registryStep, Enrolled.next, epollStep, Epoll.addSt, Registry.after,
          if_pos accepted] at made
        cases made
        have step := held.addSt_iff fd events callback
        constructor
        · rintro ⟨consistent, -⟩ ⟨-, present⟩
          exact step.mp consistent present
        · exact fun free => ⟨step.mpr fun present => free ⟨accepted, present⟩, nofun⟩
      · simp only [registryStep, Enrolled.next, epollStep, Epoll.addSt, Registry.after,
          if_neg accepted] at made
        cases made
        exact iff_of_true ⟨held, fun _ => rfl⟩ fun clash => accepted clash.1
  | remove fd =>
      cases made
      have step := held.remove_iff k fd
      exact ⟨fun keeps => step.mp keeps.consistent, fun free => ⟨step.mpr free, nofun⟩⟩
  | opened fd =>
      cases made
      exact iff_of_true ⟨held, nofun⟩ id
  | closed fd =>
      cases made
      exact iff_of_true ⟨held, nofun⟩ id

end Steps

/-! ### Runs -/

/-- The registry and the containers when the program starts. -/
def Enrolled.empty (κ : Type) (k : EpollKernel) : Enrolled κ := ⟨⟨.empty, k⟩, fun _ => none⟩

theorem Consistent.empty (κ : Type) : Consistent (.empty : Epoll κ) fun _ => none where
  entry fd := by simp [Epoll.empty]
  absent fd none := rfl
  present fd st callback is := by cases is
  handed fd := rfl

/-- The containers are those of the registry after every call of exactly those runs in which no call
clashes with a record that is there. -/
theorem epoll_consistent_iff {κ : Type} {k : EpollKernel} {made : List (EpollCall κ)}
    {s : Enrolled κ} (run : Machine.Run registryStep (.empty κ k) made s) :
    (∀ st ∈ made, KeepsRegistry st) ↔ ∀ st ∈ made, ¬ Clashes st :=
  run.each_iff (I := fun s => Consistent s.epoll s.registry) (Consistent.empty κ)
    (fun _ _ keeps _ => keeps.consistent) fun _ => keepsRegistry_iff

/-- No descriptor is open or registered. -/
def EpollKernel.none : EpollKernel := ⟨fun _ => false, fun _ => false⟩

/-- Descriptor 5 is opened and added. -/
def addedOnce : Enrolled Nat :=
  ((Enrolled.empty Nat .none).next (.opened 5)).next (.addSt 5 1 0 true)

theorem epoll_consistent_added : ∃ made, Machine.Run registryStep (.empty Nat .none) made addedOnce ∧
    (∀ st ∈ made, KeepsRegistry st) ∧ addedOnce.epoll.handed 5 = some (Epoll.record 5 1, 0) := by
  have run : Machine.Run registryStep (.empty Nat .none) _ addedOnce :=
    .step (.step .start rfl) rfl
  refine ⟨_, run, (epoll_consistent_iff run).mpr fun st inside clash => ?_, rfl⟩
  rcases List.mem_append.mp inside with first | second
  · cases List.mem_singleton.mp first
    exact clash
  · cases List.mem_singleton.mp second
    obtain ⟨st, inside, -⟩ := clash.2
    cases inside

/-- A descriptor that was added and removed still has its record. -/
theorem epoll_inconsistent :
    ¬ ∀ (made : List (EpollCall Nat)) (s : Enrolled Nat),
      Machine.Run registryStep (.empty Nat .none) made s → Consistent s.epoll s.registry := by
  intro claim
  have run : Machine.Run registryStep (.empty Nat .none) _ (addedOnce.next (.remove 5)) :=
    .step (.step (.step .start rfl) rfl) rfl
  have lost := (claim _ _ run).absent 5 rfl
  exact absurd lost (by decide)

end Ppcom
