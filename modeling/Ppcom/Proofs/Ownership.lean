/-
Module: Ppcom.Proofs.Ownership
Purpose: Who closes which descriptor. A disconnect closes the client's descriptor twice; between the
  two, the main thread can be given the same number, and then loses its descriptor. In the runs in
  which it is not, every client's descriptor is closed once and none of the main thread's by the other
  thread.
Trusted boundary: none
Main exports: Ledger, Owned, ThreadsStep.Undisturbed, descriptors_owned_iff
-/
import Ppcom.Proofs.Relay
import Ppcom.Threads

namespace Ppcom

open Machine

/-! ### The table -/

section Table

variable {t : Threads} {fd : Int}

theorem table_openFd (free : t.table fd = none) {owner owner' : Owner} {k : Int} :
    (t.openFd fd owner).table k = some owner' ↔ k = fd ∧ owner' = owner ∨ t.table k = some owner' := by
  change Function.update t.table fd (some owner) k = _ ↔ _
  by_cases same : k = fd
  · subst same
    simp [free, eq_comm]
  · simp [same]

theorem table_closeFd (thread : Thread) {owner : Owner} {k : Int} :
    (t.closeFd thread fd).table k = some owner ↔ k ≠ fd ∧ t.table k = some owner := by
  unfold Threads.closeFd
  split
  · next free =>
      constructor
      · intro held
        refine ⟨?_, held⟩
        rintro rfl
        rw [free] at held
        cases held
      · exact And.right
  · change Function.update t.table fd none k = _ ↔ _
    by_cases same : k = fd
    · subst same
      simp
    · simp [same]

end Table

/-- How often a descriptor of an owner was closed. -/
def closes (closed : List (Thread × Owner)) (owner : Owner) : Nat :=
  (closed.map Prod.snd).count owner

theorem closes_append (closed : List (Thread × Owner)) (thread : Thread) (owner other : Owner) :
    closes (closed ++ [(thread, owner)]) other =
      closes closed other + if owner = other then 1 else 0 := by
  simp only [closes, List.map_append, List.map_cons, List.map_nil, List.count_append,
    List.count_singleton, beq_iff_eq]

/-- An accepted client has a descriptor of its own, or its descriptor was closed once. -/
structure Ledger (t : Threads) : Prop where
  single : ∀ {n fd fd'}, t.table fd = some (.client n) → t.table fd' = some (.client n) → fd = fd'
  known : ∀ {n fd}, t.table fd = some (.client n) → n < t.accepted
  held : ∀ {n fd}, t.table fd = some (.client n) → closes t.closed (.client n) = 0
  once : ∀ {n}, n < t.accepted → (∀ fd, t.table fd ≠ some (.client n)) →
    closes t.closed (.client n) = 1
  fresh : ∀ {n}, t.accepted ≤ n → closes t.closed (.client n) = 0

namespace Ledger

variable {t : Threads} (ledger : Ledger t)

include ledger

theorem mainOpen {fd : Int} (free : t.table fd = none) : Ledger (t.mainOpen fd) := by
  have table : ∀ {n k}, (t.mainOpen fd).table k = some (.client n) ↔ t.table k = some (.client n) := by
    intro n k
    apply (table_openFd free).trans
    simp
  constructor
  · intro n k k' one two
    exact ledger.single (table.mp one) (table.mp two)
  · intro n k one
    exact ledger.known (table.mp one)
  · intro n k one
    exact ledger.held (table.mp one)
  · intro n below none
    exact ledger.once below fun k one => none k (table.mpr one)
  · exact ledger.fresh

theorem accept (side : Side) {fd : Int} (free : t.table fd = none) : Ledger (t.accept side fd) := by
  have table : ∀ {n k}, (t.accept side fd).table k = some (.client n) ↔
      k = fd ∧ Owner.client n = .client t.accepted ∨ t.table k = some (.client n) :=
    table_openFd free
  constructor
  · intro n k k' one two
    rcases table.mp one with ⟨rfl, new⟩ | old
    · rcases table.mp two with ⟨rfl, _⟩ | old'
      · rfl
      · cases new
        exact absurd (ledger.known old') (Nat.lt_irrefl _)
    · rcases table.mp two with ⟨rfl, new⟩ | old'
      · cases new
        exact absurd (ledger.known old) (Nat.lt_irrefl _)
      · exact ledger.single old old'
  · intro n k one
    rcases table.mp one with ⟨_, new⟩ | old
    · cases new
      exact Nat.lt_succ_self _
    · exact Nat.lt_succ_of_lt (ledger.known old)
  · intro n k one
    rcases table.mp one with ⟨_, new⟩ | old
    · cases new
      exact ledger.fresh le_rfl
    · exact ledger.held old
  · intro n below none
    rcases Nat.lt_succ_iff_lt_or_eq.mp below with before | rfl
    · exact ledger.once before fun k one => none k (table.mpr (.inr one))
    · exact absurd (table.mpr (.inl ⟨rfl, rfl⟩)) (none fd)
  · intro n above
    exact ledger.fresh (Nat.le_of_succ_le above)

/-- Whoever closes whatever, the ledger is kept. -/
theorem closeFd (thread : Thread) (fd : Int) : Ledger (t.closeFd thread fd) := by
  cases owned : t.table fd with
  | none =>
      have same : t.closeFd thread fd = t := by rw [Threads.closeFd, owned]
      rw [same]
      exact ledger
  | some owner =>
      have closed : (t.closeFd thread fd).closed = t.closed ++ [(thread, owner)] := by
        rw [Threads.closeFd, owned]
      have accepted : (t.closeFd thread fd).accepted = t.accepted := by
        rw [Threads.closeFd, owned]
      constructor
      · intro n k k' one two
        exact ledger.single ((table_closeFd thread).mp one).2 ((table_closeFd thread).mp two).2
      · intro n k one
        rw [accepted]
        exact ledger.known ((table_closeFd thread).mp one).2
      · intro n k one
        obtain ⟨other, held⟩ := (table_closeFd thread).mp one
        have different : owner ≠ .client n := by
          rintro rfl
          exact other (ledger.single held owned)
        rw [closed, closes_append, if_neg different, ledger.held held]
      · intro n below none
        rw [accepted] at below
        by_cases same : owner = .client n
        · subst same
          rw [closed, closes_append, if_pos rfl, ledger.held owned]
        · rw [closed, closes_append, if_neg same]
          apply ledger.once below
          intro k held
          refine none k ((table_closeFd thread).mpr ⟨?_, held⟩)
          rintro rfl
          rw [owned] at held
          exact same (Option.some.inj held)
      · intro n above
        rw [accepted] at above
        have different : owner ≠ .client n := by
          rintro rfl
          exact absurd (ledger.known owned) (Nat.not_lt.mpr above)
        rw [closed, closes_append, if_neg different, ledger.fresh above]

/-- The ledger is about no more than the table and what was closed. -/
theorem of_same {t' : Threads} (table : t'.table = t.table) (accepted : t'.accepted = t.accepted)
    (closed : t'.closed = t.closed) : Ledger t' := by
  constructor
  · rw [table]
    exact ledger.single
  · rw [table, accepted]
    exact ledger.known
  · rw [table, closed]
    exact ledger.held
  · rw [table, accepted, closed]
    exact ledger.once
  · rw [accepted, closed]
    exact ledger.fresh

end Ledger

/-- Every move keeps the ledger. -/
theorem Ledger.move {t t' : Threads} {move : Move} (moved : t.move move = some (t', ()))
    (ledger : Ledger t) : Ledger t' := by
  cases move with
  | mainOpen fd =>
      obtain ⟨lowest, is⟩ := Option.ite_none_right_eq_some.mp moved
      cases is
      exact ledger.mainOpen lowest.2.1
  | mainClose fd =>
      obtain ⟨_, is⟩ := Option.ite_none_right_eq_some.mp moved
      cases is
      exact (ledger.closeFd .main fd).of_same rfl rfl rfl
  | accept side fd =>
      obtain ⟨⟨_, lowest⟩, is⟩ := Option.ite_none_right_eq_some.mp moved
      cases is
      exact ledger.accept side lowest.2.1
  | read fd stack got =>
      obtain ⟨_, is⟩ := Option.ite_none_right_eq_some.mp moved
      obtain ⟨side, _, is⟩ := Option.map_eq_some_iff.mp is
      cases is
      exact ledger.of_same rfl rfl rfl
  | call =>
      simp only [Threads.move] at moved
      split at moved
      · cases moved
      · next c rest _ =>
          cases moved
          cases c with
          | close fd =>
              have kept : Ledger { t with ffwd := t.ffwd.call (.close fd), pending := rest } :=
                ledger.of_same rfl rfl rfl
              exact kept.closeFd .server fd
          | write | epollRemove => exact ledger.of_same rfl rfl rfl

/-! ### The thread of the servers -/

/-- What can be left of the calls of a callback. -/
inductive Remaining : List SysCall → Prop where
  | writes {ws : List SysCall} : Writes ws → Remaining ws
  | remove {fd : Int} {ws : List SysCall} : Writes ws → Remaining (.epollRemove fd :: ws)
  | second {fd : Int} {ws : List SysCall} :
      Writes ws → Remaining (.close fd :: .epollRemove fd :: ws)
  | first {fd : Int} {ws : List SysCall} :
      Writes ws → Remaining (.close fd :: .close fd :: .epollRemove fd :: ws)

/-- The client that is removed from its list and whose descriptor is not closed yet. -/
def closing : List SysCall → Option Int
  | .close fd :: .close _ :: _ => some fd
  | _ => none

theorem Writes.closing {ws : List SysCall} (writes : Writes ws) : closing ws = none := by
  cases ws with
  | nil => rfl
  | cons c rest =>
      obtain ⟨fd, text, rfl⟩ := writes c (by simp)
      rfl

@[simp] theorem Ffwd.server_call (f : Ffwd) (c : SysCall) (side : Side) :
    (f.call c).server side = f.server side := by
  cases c with
  | close | write => rfl
  | epollRemove fd => exact f.server_withCallback fd none side

@[simp] theorem Ffwd.server_foldl_call (f : Ffwd) (calls : List SysCall) (side : Side) :
    (calls.foldl Ffwd.call f).server side = f.server side := by
  induction calls generalizing f with
  | nil => rfl
  | cons c rest ih => rw [List.foldl_cons, ih, Ffwd.server_call]

/-- `fd` is a client of one of the servers. -/
def Ffwd.Client (f : Ffwd) (fd : Int) : Prop := ∃ side, fd ∈ (f.server side).clientFds

theorem Ffwd.client_congr {f f' : Ffwd} (same : ∀ side, f'.server side = f.server side) (fd : Int) :
    f'.Client fd ↔ f.Client fd := by
  unfold Ffwd.Client
  simp only [same]

/-- A client that is removed is a client of neither server. -/
theorem Registered.client_remove {f : Ffwd} {side : Side} {fd k : Int} (registered : Registered f)
    (client : fd ∈ (f.server side).clientFds) :
    (f.withServer side ⟨(f.server side).clientFds.erase fd⟩).Client k ↔ k ≠ fd ∧ f.Client k := by
  have removed := registered.remove client
  have callback := (registered.cbs side fd).mpr client
  constructor
  · rintro ⟨other, member⟩
    have of : ((f.withServer side ⟨(f.server side).clientFds.erase fd⟩).withCallback fd none).cbs k =
        some other := by
      rw [removed.cbs, Ffwd.server_withCallback]
      exact member
    rw [Ffwd.cbs_withCallback, Ffwd.cbs_withServer, Function.update_apply] at of
    split at of
    · cases of
    · next different => exact ⟨different, other, (registered.cbs other k).mp of⟩
  · rintro ⟨different, other, member⟩
    refine ⟨other, ?_⟩
    rw [← f.withServer side _ |>.server_withCallback fd none, ← removed.cbs, Ffwd.cbs_withCallback,
      Ffwd.cbs_withServer, Function.update_of_ne different, registered.cbs]
    exact member

/-- The thread of the servers has closed no descriptor that the main thread opened. -/
def Threads.Kept (t : Threads) : Prop := ∀ owner, (.server, owner) ∈ t.closed → owner ≠ .program

/-- What the process looks like as long as the thread of the servers closes no descriptor of the main
thread: the table says what either thread takes for its own. -/
structure Orderly (t : Threads) : Prop where
  mine : ∀ {fd}, t.table fd = some .program ↔ fd ∈ t.mine
  clients : ∀ {fd}, (∃ n, t.table fd = some (.client n)) ↔
    t.ffwd.Client fd ∨ closing t.pending = some fd
  settled : Registered (t.pending.foldl Ffwd.call t.ffwd)
  remaining : Remaining t.pending
  kept : t.Kept

theorem Orderly.start (mine : Finset Int) (msgfd ctlfd : Int) :
    Orderly (.start mine msgfd ctlfd) where
  mine {fd} := by simp [Threads.start]
  clients {fd} := by
    constructor
    · rintro ⟨n, held⟩
      simp only [Threads.start] at held
      split at held <;> cases held
    · rintro (⟨side, client⟩ | is)
      · cases side <;> cases client
      · cases is
  settled := Registered.static msgfd ctlfd
  remaining := .writes nofun
  kept := nofun

namespace Orderly

variable {t : Threads} (orderly : Orderly t)

include orderly

theorem free_client {fd : Int} (free : t.table fd = none) :
    ¬ (t.ffwd.Client fd ∨ closing t.pending = some fd) := by
  intro client
  obtain ⟨n, held⟩ := orderly.clients.mpr client
  rw [free] at held
  cases held

theorem mainOpen {fd : Int} (free : t.table fd = none) : Orderly (t.mainOpen fd) where
  mine {k} := by
    apply (table_openFd free).trans
    change _ ↔ k ∈ insert fd t.mine
    rw [Finset.mem_insert, orderly.mine]
    simp
  clients {k} := by
    change (∃ n, (t.openFd fd .program).table k = some (.client n)) ↔
      t.ffwd.Client k ∨ closing t.pending = some k
    rw [← orderly.clients]
    apply exists_congr
    intro n
    rw [table_openFd free]
    simp
  settled := orderly.settled
  remaining := orderly.remaining
  kept := orderly.kept

theorem mainClose {fd : Int} (own : fd ∈ t.mine) : Orderly (t.mainClose fd) := by
  have held := orderly.mine.mpr own
  have is : t.mainClose fd =
      { t with
        table := Function.update t.table fd none
        mine := t.mine.erase fd
        closed := t.closed ++ [(.main, .program)] } := by
    simp only [Threads.mainClose, Threads.closeFd, held]
  have table : ∀ {owner k}, (t.mainClose fd).table k = some owner ↔ k ≠ fd ∧ t.table k = some owner :=
    table_closeFd .main
  constructor
  · intro k
    rw [table, orderly.mine, is, Finset.mem_erase]
  · intro k
    simp only [table]
    rw [is]
    change _ ↔ t.ffwd.Client k ∨ closing t.pending = some k
    rw [← orderly.clients]
    constructor
    · rintro ⟨n, _, client⟩
      exact ⟨n, client⟩
    · rintro ⟨n, client⟩
      refine ⟨n, ?_, client⟩
      rintro rfl
      rw [held] at client
      cases client
  · rw [is]
    exact orderly.settled
  · rw [is]
    exact orderly.remaining
  · rw [is]
    intro owner inside
    rcases List.mem_append.mp inside with early | late
    · exact orderly.kept owner early
    · cases List.mem_singleton.mp late

theorem accept (side : Side) {fd : Int} (idle : t.pending = []) (lowest : Lowest t.table fd) :
    Orderly (t.accept side fd) := by
  obtain ⟨valid, free, _⟩ := lowest
  have stranger := (not_or.mp (orderly.free_client free)).1
  have settled := orderly.settled
  rw [idle] at settled
  constructor
  · intro k
    apply (table_openFd free).trans
    change _ ↔ k ∈ t.mine
    rw [← orderly.mine]
    simp
  · intro k
    change (∃ n, (t.openFd fd (.client t.accepted)).table k = some (.client n)) ↔
      (t.ffwd.accept side fd).Client k ∨ closing t.pending = some k
    have old := @orderly.clients k
    simp only [idle, closing, reduceCtorEq, or_false] at old ⊢
    simp only [table_openFd free, exists_or, old, Ffwd.Client, t.ffwd.mem_accept valid]
    simp [or_comm]
  · change Registered (t.pending.foldl Ffwd.call (t.ffwd.accept side fd))
    rw [idle]
    apply settled.accept
    intro other client
    exact stranger ⟨other, client⟩
  · exact orderly.remaining
  · exact orderly.kept

theorem read {side : Side} {fd : Int} (idle : t.pending = []) (callback : t.ffwd.cbs fd = some side)
    (stack : List UInt8) (got : ReadResult) : Orderly (t.read side fd stack got) := by
  have settled := orderly.settled
  have known := fun k => @orderly.clients k
  rw [idle, List.foldl_nil] at settled
  simp only [idle, closing, reduceCtorEq, or_false] at known
  have client := (settled.cbs side fd).mp callback
  have after : Registered (t.ffwd.handle side fd stack got).1 := by
    have step : t.ffwd.step (.read fd stack got) = some (t.ffwd.handle side fd stack got) := by
      rw [Ffwd.step, callback, Option.map_some]
    exact Registered.step step settled
  cases found : got.message with
  | some m =>
      cases got with
      | zero | failed => cases found
      | data m' =>
          have same : t.read side fd stack (.data m') =
              { t with
                pending := broadcast (t.ffwd.ownfd side) fd
                  (ReadResult.store stack (.data m')) (t.ffwd.server side).clientFds } := by
            simp only [Threads.read, Ffwd.callback_eq, relay_data_server, relay_data_calls,
              Ffwd.withServer_self]
          have writes := broadcast_writes (t.ffwd.ownfd side) fd
            (ReadResult.store stack (.data m')) (t.ffwd.server side).clientFds
          rw [same]
          constructor
          · exact orderly.mine
          · intro k
            rw [writes.closing]
            simpa using known k
          · rw [writes.foldl_call]
            exact settled
          · exact .writes writes
          · exact orderly.kept
  | none =>
      obtain ⟨server, calls⟩ := relay_drop (t.ffwd.server side) (t.ffwd.ownfd side) stack client found
      have is : t.read side fd stack got =
          { t with
            ffwd := t.ffwd.withServer side ⟨(t.ffwd.server side).clientFds.erase fd⟩
            pending := [.close fd, .close fd, .epollRemove fd] ++
              broadcast (t.ffwd.ownfd side) fd stack ((t.ffwd.server side).clientFds.erase fd) } := by
        simp only [Threads.read, Ffwd.callback_eq, server, calls]
      have done : (t.read side fd stack got).pending.foldl Ffwd.call (t.read side fd stack got).ffwd =
          (t.ffwd.handle side fd stack got).1 := rfl
      constructor
      · rw [is]
        exact orderly.mine
      · intro k
        rw [is]
        simp only [closing, List.cons_append, Option.some.injEq]
        have rest := settled.client_remove (k := k) client
        rw [known, rest]
        by_cases same : k = fd
        · subst same
          simp [show t.ffwd.Client k from ⟨side, client⟩]
        · simp [same, Ne.symm same]
      · rw [done]
        exact after
      · rw [is]
        exact .first (broadcast_writes _ _ _ _)
      · rw [is]
        exact orderly.kept

end Orderly

/-! ### Calls of a callback -/

/-- Once a callback is over, a client that it removes has no callback. -/
theorem foldl_call_remove {ws : List SysCall} (writes : Writes ws) (f : Ffwd) (fd : Int) :
    ((SysCall.epollRemove fd :: ws).foldl Ffwd.call f).cbs fd = none := by
  rw [List.foldl_cons, writes.foldl_call]
  change (f.withCallback fd none).cbs fd = none
  rw [Ffwd.cbs_withCallback, Function.update_self]

/-- A client without a callback is a client of neither server. -/
theorem Registered.no_client {f : Ffwd} {fd : Int} (registered : Registered f)
    (none : f.cbs fd = none) : ¬ f.Client fd := by
  rintro ⟨side, client⟩
  rw [(registered.cbs side fd).mpr client] at none
  cases none

theorem Ffwd.client_call (f : Ffwd) (c : SysCall) (fd : Int) : (f.call c).Client fd ↔ f.Client fd := by
  unfold Ffwd.Client
  simp only [Ffwd.server_call]

/-- The second `close` of a disconnect closes nothing of the main thread. -/
def ThreadsStep.Undisturbed (st : ThreadsStep) : Prop :=
  ∀ fd rest, st.input = .call → st.before.pending = .close fd :: .epollRemove fd :: rest →
    fd ∉ st.before.mine

namespace Orderly

variable {t : Threads} (orderly : Orderly t)

include orderly

/-- A call that closes nothing. -/
theorem passes {c : SysCall} {rest : List SysCall} (pending : t.pending = c :: rest)
    (remaining : Remaining rest) (same : closing rest = closing t.pending) :
    Orderly { t with ffwd := t.ffwd.call c, pending := rest } where
  mine := orderly.mine
  clients {k} := by
    change _ ↔ (t.ffwd.call c).Client k ∨ closing rest = some k
    rw [Ffwd.client_call, same]
    exact orderly.clients
  settled := by
    have settled := orderly.settled
    rw [pending] at settled
    exact settled
  remaining := remaining
  kept := orderly.kept

/-- The first `close` of a disconnect closes the descriptor of the client. -/
theorem closesClient {fd : Int} {ws : List SysCall} (writes : Writes ws)
    (pending : t.pending = .close fd :: .close fd :: .epollRemove fd :: ws) :
    Orderly (t.call (.close fd) (.close fd :: .epollRemove fd :: ws)) := by
  have settled := orderly.settled
  rw [pending] at settled
  have removed : ¬ t.ffwd.Client fd := by
    rw [← Ffwd.client_congr (t.ffwd.server_foldl_call _)]
    exact settled.no_client (foldl_call_remove writes t.ffwd fd)
  obtain ⟨n, held⟩ := orderly.clients.mpr (.inr (by rw [pending]; rfl : closing t.pending = some fd))
  have table : ∀ {owner k}, (t.call (.close fd) (.close fd :: .epollRemove fd :: ws)).table k =
      some owner ↔ k ≠ fd ∧ t.table k = some owner :=
    table_closeFd .server
  have is : t.call (.close fd) (.close fd :: .epollRemove fd :: ws) =
      { t with
        pending := .close fd :: .epollRemove fd :: ws
        table := Function.update t.table fd none
        closed := t.closed ++ [(.server, .client n)] } := by
    simp only [Threads.call, Threads.closeFd, held]
    rfl
  constructor
  · intro k
    rw [table, is]
    change _ ↔ k ∈ t.mine
    rw [← orderly.mine]
    constructor
    · exact And.right
    · intro own
      refine ⟨?_, own⟩
      rintro rfl
      rw [held] at own
      cases own
  · intro k
    simp only [table]
    rw [is]
    change _ ↔ t.ffwd.Client k ∨ none = some k
    constructor
    · rintro ⟨n', different, other⟩
      rcases orderly.clients.mp ⟨n', other⟩ with client | is
      · exact .inl client
      · rw [pending] at is
        exact absurd (Option.some.inj is).symm different
    · rintro (client | impossible)
      · obtain ⟨n', other⟩ := orderly.clients.mpr (.inl client)
        refine ⟨n', ?_, other⟩
        rintro rfl
        exact removed client
      · cases impossible
  · rw [is]
    exact settled
  · rw [is]
    exact .second writes
  · rw [is]
    intro owner inside
    rcases List.mem_append.mp inside with early | late
    · exact orderly.kept owner early
    · cases List.mem_singleton.mp late
      exact nofun

/-- What the second `close` of a disconnect finds is a descriptor of the main thread or none. -/
theorem second_close {fd : Int} {ws : List SysCall} (writes : Writes ws)
    (pending : t.pending = .close fd :: .epollRemove fd :: ws) :
    t.table fd = none ∨ t.table fd = some .program := by
  have settled := orderly.settled
  rw [pending] at settled
  have removed : ¬ t.ffwd.Client fd := by
    rw [← Ffwd.client_congr (t.ffwd.server_foldl_call _)]
    exact settled.no_client (foldl_call_remove writes t.ffwd fd)
  cases held : t.table fd with
  | none => exact .inl rfl
  | some owner =>
      cases owner with
      | program => exact .inr rfl
      | client n =>
          rcases orderly.clients.mp ⟨n, held⟩ with client | is
          · exact absurd client removed
          · rw [pending] at is
            cases is

theorem call {c : SysCall} {rest : List SysCall} (pending : t.pending = c :: rest)
    (undisturbed : ∀ fd ws, t.pending = .close fd :: .epollRemove fd :: ws → fd ∉ t.mine) :
    Orderly (t.call c rest) := by
  have remaining := orderly.remaining
  rw [pending] at remaining
  cases remaining with
  | writes writes =>
      obtain ⟨fd, text, rfl⟩ := writes c (by simp)
      have after : Writes rest := fun call inside => writes call (by simp [inside])
      exact orderly.passes pending (.writes after) (by rw [pending, writes.closing, after.closing])
  | remove writes =>
      exact orderly.passes pending (.writes writes) (by rw [pending, writes.closing]; rfl)
  | @first fd ws writes => exact orderly.closesClient writes pending
  | @second fd ws writes =>
      have free : t.table fd = none := by
        rcases orderly.second_close writes pending with none | program
        · exact none
        · exact absurd (orderly.mine.mp program) (undisturbed fd ws pending)
      have is : t.call (.close fd) (.epollRemove fd :: ws) =
          { t with ffwd := t.ffwd.call (.close fd), pending := .epollRemove fd :: ws } := by
        simp only [Threads.call, Threads.closeFd, free]
      rw [is]
      exact orderly.passes pending (.remove writes) (by rw [pending]; rfl)

/-- A move that is not disturbed keeps the order. -/
theorem move {t' : Threads} {move : Move} (moved : t.move move = some (t', ()))
    (undisturbed : ∀ fd ws, move = .call → t.pending = .close fd :: .epollRemove fd :: ws →
      fd ∉ t.mine) : Orderly t' := by
  cases move with
  | mainOpen fd =>
      obtain ⟨lowest, is⟩ := Option.ite_none_right_eq_some.mp moved
      cases is
      exact orderly.mainOpen lowest.2.1
  | mainClose fd =>
      obtain ⟨own, is⟩ := Option.ite_none_right_eq_some.mp moved
      cases is
      exact orderly.mainClose own
  | accept side fd =>
      obtain ⟨⟨idle, lowest⟩, is⟩ := Option.ite_none_right_eq_some.mp moved
      cases is
      exact orderly.accept side idle lowest
  | read fd stack got =>
      obtain ⟨idle, is⟩ := Option.ite_none_right_eq_some.mp moved
      obtain ⟨side, callback, is⟩ := Option.map_eq_some_iff.mp is
      cases is
      exact orderly.read idle callback stack got
  | call =>
      simp only [Threads.move] at moved
      split at moved
      · cases moved
      · next c rest pending =>
          cases moved
          exact orderly.call pending fun fd ws => undisturbed fd ws rfl

end Orderly

/-! ### Runs -/

/-- The thread of the servers has closed no descriptor that the main thread opened; the descriptor of
an accepted client is open and was not closed, or it was closed once; and when no callback is under
way, the open ones are those of the clients that have not left. -/
structure Owned (t : Threads) : Prop where
  kept : t.Kept
  once : ∀ n < t.accepted,
    (∃ fd, t.table fd = some (.client n)) ∧ closes t.closed (.client n) = 0 ∨
      (∀ fd, t.table fd ≠ some (.client n)) ∧ closes t.closed (.client n) = 1
  left : t.pending = [] → ∀ fd, (∃ n, t.table fd = some (.client n)) ↔ t.ffwd.Client fd

theorem Ledger.start (mine : Finset Int) (msgfd ctlfd : Int) :
    Ledger (.start mine msgfd ctlfd) := by
  have none : ∀ n k, (Threads.start mine msgfd ctlfd).table k ≠ some (.client n) := by
    intro n k held
    simp only [Threads.start] at held
    split at held <;> cases held
  constructor
  · exact fun held => absurd held (none _ _)
  · exact fun held => absurd held (none _ _)
  · exact fun held => absurd held (none _ _)
  · exact fun below => absurd below (Nat.not_lt_zero _)
  · exact fun _ => rfl

theorem Owned.of {t : Threads} (ledger : Ledger t) (orderly : Orderly t) : Owned t where
  kept := orderly.kept
  once n below := by
    by_cases held : ∃ fd, t.table fd = some (.client n)
    · obtain ⟨fd, client⟩ := held
      exact .inl ⟨⟨fd, client⟩, ledger.held client⟩
    · rw [not_exists] at held
      exact .inr ⟨held, ledger.once below held⟩
  left idle fd := by
    have known := @orderly.clients fd
    rw [idle] at known
    simpa [closing] using known

theorem closed_closeFd (t : Threads) (thread : Thread) (fd : Int) :
    t.closed <+: (t.closeFd thread fd).closed := by
  unfold Threads.closeFd
  split
  · exact List.prefix_rfl
  · exact List.prefix_append _ _

/-- What was closed stays closed. -/
theorem Threads.move_closed {t t' : Threads} {move : Move} (moved : t.move move = some (t', ())) :
    t.closed <+: t'.closed := by
  cases move with
  | mainOpen fd =>
      obtain ⟨_, is⟩ := Option.ite_none_right_eq_some.mp moved
      cases is
      exact List.prefix_rfl
  | mainClose fd =>
      obtain ⟨_, is⟩ := Option.ite_none_right_eq_some.mp moved
      cases is
      exact closed_closeFd t .main fd
  | accept side fd =>
      obtain ⟨_, is⟩ := Option.ite_none_right_eq_some.mp moved
      cases is
      exact List.prefix_rfl
  | read fd stack got =>
      obtain ⟨_, is⟩ := Option.ite_none_right_eq_some.mp moved
      obtain ⟨side, _, is⟩ := Option.map_eq_some_iff.mp is
      cases is
      exact List.prefix_rfl
  | call =>
      simp only [Threads.move] at moved
      split at moved
      · cases moved
      · next c rest _ =>
          cases moved
          cases c with
          | close fd =>
              exact closed_closeFd { t with ffwd := t.ffwd.call (.close fd), pending := rest } .server fd
          | write | epollRemove => exact List.prefix_rfl

/-- A second `close` that finds a descriptor of the main thread closes it. -/
theorem Orderly.disturbed {t : Threads} (orderly : Orderly t) {fd : Int} (own : fd ∈ t.mine)
    (rest : List SysCall) : (.server, .program) ∈ (t.call (.close fd) rest).closed := by
  have held := orderly.mine.mpr own
  simp [Threads.call, Threads.closeFd, held]

/-- What every move keeps that is not disturbed. -/
structure Threads.Sound (t : Threads) : Prop where
  ledger : Ledger t
  orderly : Orderly t

theorem Threads.Sound.start (mine : Finset Int) (msgfd ctlfd : Int) :
    Sound (.start mine msgfd ctlfd) :=
  ⟨Ledger.start mine msgfd ctlfd, Orderly.start mine msgfd ctlfd⟩

theorem Threads.Sound.step (st : ThreadsStep) (moved : st.Of Threads.move)
    (undisturbed : st.Undisturbed) (sound : st.before.Sound) : st.after.Sound :=
  ⟨Ledger.move moved sound.ledger,
    sound.orderly.move moved fun fd ws is pending => undisturbed fd ws is pending⟩

/-- In a run of the two threads, every accepted client's descriptor is closed exactly once and none that
the main thread has opened by the thread of the servers, exactly if at every second `close` of a
disconnect the main thread holds no descriptor with the number of the client. -/
theorem descriptors_owned_iff {mine : Finset Int} {msgfd ctlfd : Int} {steps : List ThreadsStep}
    {t : Threads} (run : ThreadsRun (.start mine msgfd ctlfd) steps t) :
    Owned t ↔ ∀ st ∈ steps, st.Undisturbed := by
  constructor
  · intro owned
    apply run.guards (P := Threads.Kept) (Threads.Sound.start mine msgfd ctlfd) Threads.Sound.step
    · intro st moved kept owner inside
      exact kept owner ((Threads.move_closed moved).subset inside)
    · intro st moved sound kept fd rest is pending own
      rw [Step.Of, is, Threads.move, pending] at moved
      have after := (Prod.mk.inj (Option.some.inj moved)).1
      apply kept .program _ rfl
      rw [← after]
      exact sound.orderly.disturbed own _
    · exact owned.kept
  · intro undisturbed
    have sound := (run.guarded (Threads.Sound.start mine msgfd ctlfd) Threads.Sound.step undisturbed).1
    exact .of sound.ledger sound.orderly

/-- A client is accepted and leaves, and the main thread opens a file after that. -/
theorem descriptors_owned_after :
    ∃ steps t, ThreadsRun (.start {0, 1, 2} 6 7) steps t ∧ 3 ∈ t.mine ∧ Owned t := by
  have one : ThreadsRun (.start {0, 1, 2} 6 7) _ _ :=
    Run.step .start (rfl : Threads.move _ (.accept .msg 3) = some (_, ()))
  have two := one.step (rfl : Threads.move _ (.read 3 [] .zero) = some (_, ()))
  have three := two.step (rfl : Threads.move _ .call = some (_, ()))
  have four := three.step (rfl : Threads.move _ .call = some (_, ()))
  have five := four.step (rfl : Threads.move _ (.mainOpen 3) = some (_, ()))
  refine ⟨_, _, five, by decide, (descriptors_owned_iff five).mpr ?_⟩
  intro st inside fd rest is pending own
  simp only [List.nil_append, List.cons_append, List.mem_cons, List.not_mem_nil, or_false] at inside
  rcases inside with rfl | rfl | rfl | rfl | rfl
  · cases is
  · cases is
  · cases pending
  · cases pending
    exact absurd own (by decide)
  · cases is

/-- A client is accepted and leaves, and the main thread opens a file while it is removed. -/
theorem descriptors_lost_between :
    ∃ steps t, ThreadsRun (.start {0, 1, 2} 6 7) steps t ∧ (.server, .program) ∈ t.closed ∧
      ¬ Owned t := by
  have one : ThreadsRun (.start {0, 1, 2} 6 7) _ _ :=
    Run.step .start (rfl : Threads.move _ (.accept .msg 3) = some (_, ()))
  have two := one.step (rfl : Threads.move _ (.read 3 [] .zero) = some (_, ()))
  have three := two.step (rfl : Threads.move _ .call = some (_, ()))
  have four := three.step (rfl : Threads.move _ (.mainOpen 3) = some (_, ()))
  have five := four.step (rfl : Threads.move _ .call = some (_, ()))
  exact ⟨_, _, five, by decide, fun owned => owned.kept .program (by decide) rfl⟩

end Ppcom
