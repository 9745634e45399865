/-
Module: Ppcom.Proofs.ServerThread
Purpose: The thread of the servers, which works with the containers of `Epoll`, refines the machine of
  `Ppcom.Ffwd`, whose callbacks are a map: each event that is reported is one step of it, in the order of
  the events, and goes to the callback that its descriptor had when it was reported.
Trusted boundary: none
Main exports: Mirrored, Mirrored.event, Mirrored.wait, WaitStep.Performs, wait_refines
-/
import Ppcom.Proofs.EpollRegistry
import Ppcom.Proofs.Relay
import Ppcom.ServerThread

namespace Ppcom

/-- The activity of the servers that an event is. -/
def PollEvent.Activates (e : PollEvent) : Activity → Prop
  | .accept _ fd => e.found = .accepted fd
  | .read fd stack got => e.fd = fd ∧ e.found = .read stack got
  | .connect _ _ => False

/-- `ffwd` has the clients, the connections and the callbacks of the clients that the thread has, and
`Epoll` and the kernel agree on what is registered. -/
structure Mirrored (w : ServerThread) (f : Ffwd) : Prop where
  server (side : Side) : f.server side = w.server side
  ownfd (side : Side) : f.ownfd side = w.ownfd side
  cbs (fd : Int) (side : Side) : f.cbs fd = some side ↔ w.mepoll.cbs fd = some (.reads side)
  registered : Registered f
  records (fd : Int) : w.mepoll.cbs fd ≠ none → HasRecord w.mepoll.vecEpollSt fd
  watched (fd : Int) : w.mepoll.cbs fd ≠ none ↔ w.kernel.watched fd = true
  opened (fd : Int) : w.kernel.watched fd = true → 0 ≤ fd ∧ w.kernel.opened fd = true

/-- What another descriptor is registered with has not changed. -/
def ServerThread.Keeps (w w' : ServerThread) (fd : Int) : Prop :=
  w'.mepoll.handed fd = w.mepoll.handed fd ∧ w'.kernel.watched fd = w.kernel.watched fd

section

variable {w : ServerThread} {f : Ffwd} {fd : Int} {side : Side} {callback : Callback}

/-! ### Callbacks -/

/-- What is registered has a callback, with a record. -/
theorem handed_eq {e : Epoll Callback} (registered : e.cbs fd = some callback)
    (record : HasRecord e.vecEpollSt fd) :
    e.handed fd = some ((getEpollStByFd e.vecEpollSt fd).2, callback) := by
  have found : 0 ≤ (getEpollStByFd e.vecEpollSt fd).1 := (getEpollStFrom_present record 0).1
  unfold Epoll.handed
  rw [registered]
  simp only [if_neg (not_lt.mpr found)]

/-- The clients of a server are registered. -/
theorem Mirrored.client (mirrored : Mirrored w f) (client : fd ∈ (w.server side).clientFds) :
    w.mepoll.cbs fd = some (.reads side) := by
  rw [← mirrored.server side, ← mirrored.registered.cbs] at client
  exact (mirrored.cbs fd side).mp client

/-- A descriptor that is not open is no client. -/
theorem Mirrored.no_client (mirrored : Mirrored w f) (closed : ¬ (0 ≤ fd ∧ w.kernel.opened fd = true))
    (side : Side) : fd ∉ (f.server side).clientFds := by
  intro client
  rw [mirrored.server side] at client
  have registered : w.mepoll.cbs fd ≠ none := by
    rw [mirrored.client client]
    exact Option.some_ne_none _
  exact closed (mirrored.opened fd ((mirrored.watched fd).mp registered))

theorem Ffwd.server_withServer_eq (f : Ffwd) (side other : Side) (server : SocketServer) :
    (f.withServer side server).server other = Function.update f.server side server other := by
  cases side <;> cases other <;> rfl

@[simp] theorem Ffwd.ownfd_withServer (f : Ffwd) (side other : Side) (server : SocketServer) :
    (f.withServer side server).ownfd other = f.ownfd other := by
  cases side <;> cases other <;> rfl

@[simp] theorem Ffwd.ownfd_withCallback (f : Ffwd) (fd : Int) (cb : Option Side) (side : Side) :
    (f.withCallback fd cb).ownfd side = f.ownfd side := by
  cases side <;> rfl

/-! ### Clients that come -/

/-- `accept` fails. -/
theorem acceptClient_failed (w : ServerThread) (side : Side) : w.acceptClient side (-1) = (w, false) := by
  simp [ServerThread.acceptClient, SocketServer.acceptClient]

/-- `accept` returns a new number: it becomes a client, and `addSt` does not throw. -/
theorem acceptClient_new (valid : 0 ≤ fd) (free : w.kernel.watched fd = false) :
    w.acceptClient side fd =
      ({ w with
          server := Function.update w.server side ⟨(w.server side).clientFds ++ [fd]⟩
          mepoll := { w.mepoll with
            vecEpollSt := w.mepoll.vecEpollSt ++ [Epoll.record fd 1]
            cbs := Function.update w.mepoll.cbs fd (some (.reads side)) }
          kernel := (w.kernel.opens fd).add fd }, false) := by
  have real : fd ≠ -1 := by
    rintro rfl
    exact absurd valid (by decide)
  have granted : (w.kernel.opens fd).accepts fd true = true := by
    simp [EpollKernel.accepts, EpollKernel.opens, free]
  simp only [ServerThread.acceptClient, SocketServer.acceptClient, if_neg (not_lt.mpr valid), ne_eq, real,
    not_false_eq_true, if_true, Epoll.addSt, granted]

theorem Mirrored.unwatched (mirrored : Mirrored w f) (free : w.kernel.opened fd = false) :
    w.kernel.watched fd = false := by
  cases watched : w.kernel.watched fd with
  | false => rfl
  | true =>
      rw [(mirrored.opened fd watched).2] at free
      cases free

theorem Mirrored.accept (mirrored : Mirrored w f) (valid : 0 ≤ fd) (free : w.kernel.opened fd = false) :
    Mirrored (w.acceptClient side fd).1 (f.accept side fd) := by
  have same : f.server = w.server := funext mirrored.server
  have closed : ¬ (0 ≤ fd ∧ w.kernel.opened fd = true) := by
    rw [free]
    exact fun both => Bool.false_ne_true both.2
  rw [acceptClient_new valid (mirrored.unwatched free)]
  constructor
  · intro other
    rw [f.accept_eq side valid, Ffwd.server_withCallback, Ffwd.server_withServer_eq, same]
  · intro other
    rw [f.accept_eq side valid, Ffwd.ownfd_withCallback, Ffwd.ownfd_withServer, mirrored.ownfd]
  · intro k other
    rw [f.accept_eq side valid, Ffwd.cbs_withCallback, Ffwd.cbs_withServer]
    change Function.update f.cbs fd (some side) k = some other ↔
      Function.update w.mepoll.cbs fd (some (.reads side)) k = some (.reads other)
    rw [Function.update_apply, Function.update_apply]
    split
    · simp
    · exact mirrored.cbs k other
  · exact mirrored.registered.accept side (mirrored.no_client closed)
  · intro k registered
    by_cases new : k = fd
    · exact ⟨Epoll.record fd 1, by simp, new.symm⟩
    · change Function.update w.mepoll.cbs fd (some (.reads side)) k ≠ none at registered
      rw [Function.update_of_ne new] at registered
      obtain ⟨st, inside, is⟩ := mirrored.records k registered
      exact ⟨st, List.mem_append_left _ inside, is⟩
  · intro k
    by_cases new : k = fd
    · subst new
      simp [EpollKernel.add]
    · simp only [EpollKernel.add, EpollKernel.opens, Function.update_of_ne new]
      exact mirrored.watched k
  · intro k watched
    by_cases new : k = fd
    · subst new
      exact ⟨valid, Function.update_self ..⟩
    · simp only [EpollKernel.add, EpollKernel.opens, Function.update_of_ne new] at watched ⊢
      exact mirrored.opened k watched

/-! ### Clients that send, and clients that go -/

/-- Writes leave the thread alone. -/
theorem Writes.foldl_thread {calls : List SysCall} (writes : Writes calls) (w : ServerThread) :
    calls.foldl ServerThread.call w = w := by
  induction calls with
  | nil => rfl
  | cons call rest ih =>
      obtain ⟨c, text, rfl⟩ := writes call (by simp)
      exact ih fun call inside => writes call (by simp [inside])

theorem readClient_data (w : ServerThread) (side : Side) (fd : Int) (stack : List UInt8) (m : Message) :
    w.readClient side fd stack (.data m) =
      (w, broadcast (w.ownfd side) fd (ReadResult.store stack (.data m)) (w.server side).clientFds) := by
  simp only [ServerThread.readClient, relay_data_calls, relay_data_server, Function.update_eq_self,
    (broadcast_writes _ _ _ _).foldl_thread]

/-- A client whose `read` finds nothing is closed, which ends its registration, and then removed. -/
theorem readClient_drop {stack : List UInt8} {got : ReadResult}
    (client : fd ∈ (w.server side).clientFds) (nothing : got.message = none) :
    w.readClient side fd stack got =
      ({ w with
          server := Function.update w.server side ⟨(w.server side).clientFds.erase fd⟩
          mepoll := { w.mepoll with
            callbacks := Function.update w.mepoll.callbacks fd none
            cbs := Function.update w.mepoll.cbs fd none }
          kernel := w.kernel.closes fd },
        [.close fd, .close fd, .epollRemove fd] ++
          broadcast (w.ownfd side) fd stack ((w.server side).clientFds.erase fd)) := by
  obtain ⟨server, calls⟩ := relay_drop (w.server side) (w.ownfd side) stack client nothing
  simp only [ServerThread.readClient, server, calls, List.foldl_append,
    (broadcast_writes _ _ _ _).foldl_thread, List.foldl_cons, List.foldl_nil, ServerThread.call,
    Epoll.remove, EpollKernel.del, EpollKernel.closes, Function.update_idem]

theorem Mirrored.drop (mirrored : Mirrored w f) {stack : List UInt8} {got : ReadResult}
    (client : w.mepoll.cbs fd = some (.reads side)) (nothing : got.message = none) :
    Mirrored (w.readClient side fd stack got).1 (f.handle side fd stack got).1 ∧
      (w.readClient side fd stack got).2 = (f.handle side fd stack got).2 := by
  have same : f.server = w.server := funext mirrored.server
  have inside : fd ∈ (f.server side).clientFds :=
    (mirrored.registered.cbs side fd).mp ((mirrored.cbs fd side).mpr client)
  have inside' : fd ∈ (w.server side).clientFds := same ▸ inside
  rw [readClient_drop inside' nothing, f.handle_drop stack inside nothing, same, mirrored.ownfd]
  refine ⟨?_, rfl⟩
  constructor
  · intro other
    rw [Ffwd.server_withCallback, Ffwd.server_withServer_eq, same]
  · intro other
    rw [Ffwd.ownfd_withCallback, Ffwd.ownfd_withServer, mirrored.ownfd]
  · intro k other
    rw [Ffwd.cbs_withCallback, Ffwd.cbs_withServer]
    change Function.update f.cbs fd none k = some other ↔
      Function.update w.mepoll.cbs fd none k = some (.reads other)
    rw [Function.update_apply, Function.update_apply]
    split
    · simp
    · exact mirrored.cbs k other
  · rw [← same]
    exact mirrored.registered.remove inside
  · intro k registered
    change Function.update w.mepoll.cbs fd none k ≠ none at registered
    by_cases gone : k = fd
    · rw [gone, Function.update_self] at registered
      exact absurd rfl registered
    · rw [Function.update_of_ne gone] at registered
      exact mirrored.records k registered
  · intro k
    by_cases gone : k = fd
    · subst gone
      simp [EpollKernel.closes]
    · simp only [EpollKernel.closes, Function.update_of_ne gone]
      exact mirrored.watched k
  · intro k watched
    by_cases gone : k = fd
    · subst gone
      simp [EpollKernel.closes] at watched
    · simp only [EpollKernel.closes, Function.update_of_ne gone] at watched ⊢
      exact mirrored.opened k watched

/-! ### Events -/

/-- What is done about an event is a step of `ffwd`. -/
structure Performed (w : ServerThread) (f : Ffwd) (e : PollEvent) (w' : ServerThread) (attended : Attended)
    (activity : Activity) (f' : Ffwd) : Prop where
  step : f.step activity = some (f', attended.calls)
  activates : e.Activates activity
  mirrored : Mirrored w' f'
  handed : attended.handed = w.mepoll.handed e.fd
  present : attended.handed ≠ none
  quiet : attended.threw = false
  keeps : ∀ k ≠ e.fd, w.kernel.watched k = true → w.Keeps w' k

theorem Ffwd.step_accept (f : Ffwd) (side : Side) (new : ∀ side, fd ∉ (f.server side).clientFds) :
    f.step (.accept side fd) = some (f.accept side fd, []) := by
  rw [Ffwd.step, if_neg]
  rintro (client | client)
  · exact new .msg client
  · exact new .ctl client

/-- A new client does not change what another descriptor is registered with. -/
theorem acceptClient_keeps (valid : 0 ≤ fd) (free : w.kernel.watched fd = false) {k : Int}
    (watched : w.kernel.watched k = true) : w.Keeps (w.acceptClient side fd).1 k := by
  have other : k ≠ fd := by
    rintro rfl
    rw [free] at watched
    cases watched
  rw [acceptClient_new valid free]
  constructor
  · have record : (Epoll.record fd 1).infd ≠ k := other.symm
    simp only [Epoll.handed, Function.update_of_ne other, getEpollStByFd_other record]
  · simp only [EpollKernel.add, EpollKernel.opens, Function.update_of_ne other]

/-- Neither does a client that goes. -/
theorem readClient_keeps {stack : List UInt8} {got : ReadResult}
    (client : fd ∈ (w.server side).clientFds) {k : Int} (other : k ≠ fd) :
    w.Keeps (w.readClient side fd stack got).1 k := by
  cases found : got.message with
  | some m =>
      cases got with
      | data m =>
          rw [readClient_data]
          exact ⟨rfl, rfl⟩
      | zero | failed => cases found
  | none =>
      rw [readClient_drop client found]
      constructor
      · simp only [Epoll.handed, Function.update_of_ne other]
      · simp only [EpollKernel.closes, Function.update_of_ne other]

theorem Mirrored.read (mirrored : Mirrored w f) {stack : List UInt8} {got : ReadResult}
    (client : w.mepoll.cbs fd = some (.reads side)) :
    Mirrored (w.readClient side fd stack got).1 (f.handle side fd stack got).1 ∧
      (w.readClient side fd stack got).2 = (f.handle side fd stack got).2 := by
  cases found : got.message with
  | some m =>
      cases got with
      | data m =>
          rw [readClient_data, f.handle_data, mirrored.ownfd, mirrored.server]
          exact ⟨mirrored, rfl⟩
      | zero | failed => cases found
  | none => exact mirrored.drop client found

theorem Mirrored.event (mirrored : Mirrored w f) {e : PollEvent} {w' : ServerThread} {attended : Attended}
    (watched : w.kernel.watched e.fd = true) (made : w.event e = some (w', attended)) :
    ∃ activity f', Performed w f e w' attended activity f' := by
  have registered := (mirrored.watched e.fd).mpr watched
  obtain ⟨callback, is⟩ := Option.ne_none_iff_exists'.mp registered
  have handed := handed_eq is (mirrored.records e.fd registered)
  unfold ServerThread.event at made
  cases callback with
  | accepts side =>
      cases found : e.found with
      | accepted fd =>
          simp only [handed, found, Option.ite_none_right_eq_some] at made
          obtain ⟨possible, made⟩ := made
          cases made
          rcases possible with rfl | ⟨valid, free⟩
          · have new : ∀ side, (-1 : Int) ∉ (f.server side).clientFds :=
              mirrored.no_client fun both => absurd both.1 (by decide)
            refine ⟨.accept side (-1), f.accept side (-1), f.step_accept side new, found, ?_, handed.symm,
              Option.some_ne_none _, ?_, fun k _ _ => ?_⟩
            · rw [acceptClient_failed, f.accept_failed side (by decide)]
              exact mirrored
            · rw [acceptClient_failed]
            · rw [acceptClient_failed]
              exact ⟨rfl, rfl⟩
          · have closed : ¬ (0 ≤ fd ∧ w.kernel.opened fd = true) := by
              rw [free]
              exact fun both => Bool.false_ne_true both.2
            have unwatched := mirrored.unwatched free
            refine ⟨.accept side fd, f.accept side fd, f.step_accept side (mirrored.no_client closed), found,
              mirrored.accept valid free, handed.symm, Option.some_ne_none _, ?_, fun k _ watched => ?_⟩
            · rw [acceptClient_new valid unwatched]
            · exact acceptClient_keeps valid unwatched watched
      | read stack got => simp only [handed, found, reduceCtorEq] at made
  | reads side =>
      cases found : e.found with
      | accepted fd => simp only [handed, found, reduceCtorEq] at made
      | read stack got =>
          simp only [handed, found, Option.some.injEq, Prod.mk.injEq] at made
          obtain ⟨rfl, rfl⟩ := made
          have client := (mirrored.cbs e.fd side).mpr is
          have inside := (mirrored.registered.cbs side e.fd).mp client
          rw [mirrored.server] at inside
          obtain ⟨after, calls⟩ : Mirrored (w.readClient side e.fd stack got).1 (f.handle side e.fd stack got).1 ∧
              (w.readClient side e.fd stack got).2 = (f.handle side e.fd stack got).2 := mirrored.read is
          refine ⟨.read e.fd stack got, (f.handle side e.fd stack got).1, ?_, ⟨rfl, found⟩, after,
            handed.symm, Option.some_ne_none _, rfl, fun k other _ => readClient_keeps inside other⟩
          rw [Ffwd.step, client, Option.map_some, calls]

/-! ### Batches of events -/

/-- All that is done about the events of a batch. -/
structure PerformedAll (w : ServerThread) (events : List PollEvent) (attended : List Attended)
    (steps : List ServerStep) : Prop where
  activates : List.Forall₂ PollEvent.Activates events (steps.map (·.input))
  calls : steps.map (·.output) = attended.map (·.calls)
  handed : attended.map (·.handed) = events.map fun e => w.mepoll.handed e.fd
  present : ∀ a ∈ attended, a.handed ≠ none ∧ a.threw = false

theorem Mirrored.wait (mirrored : Mirrored w f) {events : List PollEvent} {w' : ServerThread}
    {attended : List Attended} (reported : Reported w.kernel events)
    (made : w.wait events = some (w', attended)) :
    ∃ steps f', ServerRun f steps f' ∧ Mirrored w' f' ∧ PerformedAll w events attended steps := by
  induction events generalizing w f attended with
  | nil =>
      cases made
      exact ⟨[], f, .start, mirrored, .nil, rfl, rfl, nofun⟩
  | cons e later ih =>
      obtain ⟨distinct, watched⟩ := reported
      obtain ⟨new, distinct⟩ := List.nodup_cons.mp distinct
      obtain ⟨⟨w₁, first⟩, event, rest⟩ := Option.bind_eq_some_iff.mp made
      obtain ⟨activity, f₁, performed⟩ := mirrored.event (watched e List.mem_cons_self) event
      simp only [performed.quiet, Bool.false_eq_true, if_false] at rest
      obtain ⟨⟨w₂, more⟩, waited, made⟩ := Option.map_eq_some_iff.mp rest
      cases made
      -- the events behind it are still those of registered descriptors, whatever the callback did
      have keeps : ∀ e' ∈ later, w.Keeps w₁ e'.fd := by
        intro e' inside
        apply performed.keeps e'.fd _ (watched e' (List.mem_cons_of_mem _ inside))
        intro same
        exact new (same ▸ List.mem_map_of_mem inside)
      have reported : Reported w₁.kernel later :=
        ⟨distinct, fun e' inside => (keeps e' inside).2.trans (watched e' (List.mem_cons_of_mem _ inside))⟩
      obtain ⟨steps, f', run, mirrored', all⟩ := ih performed.mirrored reported waited
      have one : ServerRun f [⟨f, activity, f₁, first.calls⟩] f₁ := Machine.Run.start.step performed.step
      refine ⟨_, f', one.trans run, mirrored', ?_⟩
      constructor
      · exact .cons performed.activates all.activates
      · rw [List.cons_append, List.nil_append, List.map_cons, List.map_cons, all.calls]
      · rw [List.map_cons, List.map_cons, all.handed, performed.handed]
        congr 1
        exact List.map_congr_left fun e' inside => (keeps e' inside).1
      · intro a inside
        rcases List.mem_cons.mp inside with rfl | behind
        · exact ⟨performed.present, performed.quiet⟩
        · exact all.present a behind

end

/-! ### Runs -/

/-- A step of the thread. -/
abbrev WaitStep := Machine.Step ServerThread WaitInput (List Attended)

/-- A step of the thread is those steps of the servers: one for each event, none of which throws, in which
the callback has the calls that it makes in the thread, and is the one that its descriptor had when the
events were reported. -/
def WaitStep.Performs (st : WaitStep) (steps : List ServerStep) : Prop :=
  match st.input with
  | .wait events => PerformedAll st.before events st.output steps
  | .connect side fd => steps.map (·.input) = [.connect side fd] ∧ st.output = []

theorem begun_eq (ears : Ears) (ownfd : Side → Int) :
    ServerThread.begun ears ownfd =
      { server := fun _ => ⟨[]⟩
        ownfd := ownfd
        mepoll :=
          { callbacks := fun _ => none
            cbs := Function.update (Function.update (fun _ => none) (ears.fd .msg) (some (.accepts .msg)))
              (ears.fd .ctl) (some (.accepts .ctl))
            vecEpollSt := [Epoll.record (ears.fd .msg) 1, Epoll.record (ears.fd .ctl) 1] }
        kernel := (ears.kernel.add (ears.fd .msg)).add (ears.fd .ctl) } := by
  have first : ears.kernel.accepts (ears.fd .msg) true = true := by
    simp [EpollKernel.accepts, ears.opened, ears.fresh]
  have second : (ears.kernel.add (ears.fd .msg)).accepts (ears.fd .ctl) true = true := by
    simp [EpollKernel.accepts, EpollKernel.add, ears.opened, ears.fresh, Function.update_of_ne ears.apart.symm]
  simp only [ServerThread.begun, Epoll.addSt, first, second, if_true]
  rfl

theorem Mirrored.begun (ears : Ears) (ownfd : Side → Int) :
    Mirrored (.begun ears ownfd) (.static (ownfd .msg) (ownfd .ctl)) := by
  have records : ∀ k, (k = ears.fd .ctl ∨ k = ears.fd .msg) ↔
      ((ears.kernel.add (ears.fd .msg)).add (ears.fd .ctl)).watched k = true := by
    intro k
    simp only [EpollKernel.add, Function.update_apply, ears.fresh]
    split
    · simp [*]
    · split <;> simp [*]
  rw [begun_eq]
  constructor
  · intro side
    cases side <;> rfl
  · intro side
    cases side <;> rfl
  · intro k side
    simp only [Ffwd.static, Function.update_apply, reduceCtorEq, false_iff]
    split
    · simp
    · split <;> simp
  · exact .static _ _
  · intro k registered
    simp only [Function.update_apply] at registered
    split at registered
    · next is => exact ⟨_, List.mem_cons_of_mem _ List.mem_cons_self, is.symm⟩
    · split at registered
      · next is => exact ⟨_, List.mem_cons_self, is.symm⟩
      · exact absurd rfl registered
  · intro k
    rw [← records k]
    simp only [Function.update_apply]
    split
    · simp [*]
    · split <;> simp [*]
  · intro k watched
    rcases (records k).mpr watched with rfl | rfl
    · exact ⟨ears.valid _, ears.opened _⟩
    · exact ⟨ears.valid _, ears.opened _⟩

theorem Mirrored.connect {w : ServerThread} {f : Ffwd} (mirrored : Mirrored w f) (side : Side) (fd : Int) :
    Mirrored { w with ownfd := Function.update w.ownfd side fd } (f.withOwnfd side fd) where
  server other := by rw [Ffwd.server_withOwnfd, mirrored.server]
  ownfd other := by
    have same : f.ownfd = w.ownfd := funext mirrored.ownfd
    rw [← same]
    cases side <;> cases other <;> rfl
  cbs k other := by rw [Ffwd.cbs_withOwnfd, mirrored.cbs]
  registered := mirrored.registered.connect side fd
  records := mirrored.records
  watched := mirrored.watched
  opened := mirrored.opened

/-- The thread of the servers refines the machine of the servers: in every run of it, from the moment that
both servers have started, whatever batches of events are reported and whatever the callbacks find, each
event is one step of that machine with the same calls, no event is passed over, no callback throws, and
each event goes to the callback and the record that its descriptor had when the batch was reported. -/
theorem wait_refines (ears : Ears) (ownfd : Side → Int) (made : List WaitStep) (w : ServerThread)
    (run : Machine.Run waitStep (.begun ears ownfd) made w) :
    ∃ parts f, ServerRun (.static (ownfd .msg) (ownfd .ctl)) parts.flatten f ∧ Mirrored w f ∧
      List.Forall₂ WaitStep.Performs made parts := by
  induction run with
  | start => exact ⟨[], _, .start, .begun ears ownfd, .nil⟩
  | @step past w w' input attended _ stepped ih =>
      obtain ⟨parts, f, run, mirrored, performs⟩ := ih
      have one : ∃ steps f', ServerRun f steps f' ∧ Mirrored w' f' ∧
          WaitStep.Performs ⟨w, input, w', attended⟩ steps := by
        cases input with
        | wait events =>
            obtain ⟨reported, made⟩ := Option.ite_none_right_eq_some.mp stepped
            exact mirrored.wait reported made
        | connect side fd =>
            cases stepped
            exact ⟨[⟨f, .connect side fd, _, []⟩], _, Machine.Run.start.step rfl, mirrored.connect side fd,
              rfl, rfl⟩
      obtain ⟨steps, f', later, mirrored', performed⟩ := one
      refine ⟨parts ++ [steps], f', ?_, mirrored', List.rel_append performs (.cons performed .nil)⟩
      rw [List.flatten_append, List.flatten_singleton]
      exact run.trans later

/-- Descriptors 3 and 4, on which the servers listen. -/
def someEars : Ears where
  kernel := ⟨fun n => n = 3 ∨ n = 4, fun _ => false⟩
  fd
    | .msg => 3
    | .ctl => 4
  valid side := by cases side <;> decide
  opened side := by cases side <;> decide
  apart := by decide
  fresh _ := rfl

/-- A client of each server comes, and in the next batch the first one goes while another comes. -/
theorem wait_refines_batches : ∃ made w, made.length = 2 ∧ ∃ parts f,
    ServerRun (.static (-1) (-1)) parts.flatten f ∧ Mirrored w f ∧
      List.Forall₂ WaitStep.Performs made parts := by
  have come : waitStep (.begun someEars fun _ => -1)
      (.wait [⟨3, .accepted 5⟩, ⟨4, .accepted 6⟩]) = some (_, _) := rfl
  have run := (Machine.Run.start.step come).step
    (rfl : waitStep _ (.wait [⟨5, .read [0] .zero⟩, ⟨3, .accepted 5⟩]) = some (_, _))
  exact ⟨_, _, rfl, wait_refines someEars (fun _ => -1) _ _ run⟩

end Ppcom
