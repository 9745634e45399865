/-
Module: Ppcom.Proofs.OwnConnection
Purpose: What the relay writes to the program's own connection. The test of the loop over the clients
  compares the descriptors of the server with that of the program, and these never agree: a message from
  outside is held back from the own connection only before it is accepted and after it is dropped.
Trusted boundary: a `write` takes all it is given
Main exports: Relaying.Sound, Relaying.Sound.step, own_connection_spared_iff
-/
import Ppcom.Proofs.Relay
import Ppcom.Relaying

namespace Ppcom

namespace Relaying

variable {r : Relaying}

@[simp] theorem mem_closing {fd k : Int} : k ∈ r.closing fd ↔ k ∈ r.taken ∧ k ≠ fd := by
  simp [closing]

theorem client_iff {fd : Int} : r.Client fd ↔ ∃ side, fd ∈ (r.ffwd.server side).clientFds := by
  constructor
  · rintro (inside | inside)
    · exact ⟨.msg, inside⟩
    · exact ⟨.ctl, inside⟩
  · rintro ⟨side, inside⟩
    cases side with
    | msg => exact .inl inside
    | ctl => exact .inr inside

/-- What holds between all happenings: the client end of the own connection is in use and no client, its
server end is one, and `msgfd` is not known yet or is the client end. -/
structure Sound (r : Relaying) : Prop where
  registered : Registered r.ffwd
  inUse : ∀ fd, r.Client fd → fd ∈ r.taken
  clientEnd : ∀ c, r.own.clientEnd = some c → c ∈ r.taken ∧ ¬ r.Client c
  serverEnd : ∀ s, r.own.serverEnd = some s → s ∈ r.ffwd.sockServMsg.clientFds ∧ 0 ≤ s
  knows : ∀ c, r.own.clientEnd = some c → r.ffwd.msgfd = -1 ∨ r.ffwd.msgfd = c

theorem sound_begun (ctlfd : Int) (taken : List Int) : Sound (.begun ctlfd taken) where
  registered := .static _ _
  inUse fd client := by
    rcases client with inside | inside <;> cases inside
  clientEnd := nofun
  serverEnd := nofun
  knows := nofun

end Relaying

/-! ### Ends of the connection -/

namespace OwnConnection

variable {own : OwnConnection} {fd s : Int}

@[simp] theorem clientEnd_drop : (own.drop fd).clientEnd = own.clientEnd := by
  cases own with
  | unmade | waiting | dropped | closed => rfl
  | accepted c s =>
      simp only [drop]
      split <;> rfl

theorem serverEnd_drop (is : (own.drop fd).serverEnd = some s) :
    own.serverEnd = some s ∧ s ≠ fd := by
  cases own with
  | unmade | waiting | dropped | closed => cases is
  | accepted c s' =>
      simp only [drop] at is
      split at is
      · cases is
      · next other =>
          cases is
          exact ⟨rfl, other⟩

/-- A connection with a server end has a client end. -/
theorem clientEnd_of_serverEnd (is : own.serverEnd = some s) : ∃ c, own.clientEnd = some c := by
  cases own with
  | unmade | waiting | dropped | closed => cases is
  | accepted c s' => exact ⟨c, rfl⟩

end OwnConnection

/-! ### Clients that come and go -/

@[simp] theorem Ffwd.msgfd_accept (f : Ffwd) (side : Side) (fd : Int) :
    (f.accept side fd).msgfd = f.msgfd := by
  by_cases failed : fd < 0
  · rw [f.accept_failed side failed]
  · rw [f.accept_eq side (not_lt.mp failed)]
    cases side <;> rfl

/-- Of the clients `removeClient` and `Epoll::remove` leave those that are not `fd`. -/
theorem Registered.mem_removed {f : Ffwd} (registered : Registered f) {side : Side} {fd : Int}
    (client : fd ∈ (f.server side).clientFds) (other : Side) (k : Int) :
    k ∈ (((f.withServer side ⟨(f.server side).clientFds.erase fd⟩).withCallback fd none).server
        other).clientFds ↔ k ∈ (f.server other).clientFds ∧ k ≠ fd := by
  rw [Ffwd.server_withCallback]
  by_cases same : other = side
  · subst same
    rw [Ffwd.server_withServer, (registered.nodup other).mem_erase_iff, and_comm]
  · rw [f.server_withServer_of_ne same, iff_self_and]
    intro inside is
    subst is
    rw [← registered.cbs] at client inside
    rw [client] at inside
    exact same (Option.some.inj inside).symm

theorem Ffwd.accept_of_step {f f' : Ffwd} {side : Side} {fd : Int} {calls : List SysCall}
    (stepped : f.step (.accept side fd) = some (f', calls)) : f' = f.accept side fd := by
  simp only [Ffwd.step] at stepped
  split at stepped
  · cases stepped
  · cases stepped
    rfl

namespace Relaying.Sound

variable {r : Relaying} (sound : Sound r)

include sound

/-- A number that is free is no client. -/
theorem free_new {fd : Int} (free : r.Free fd) : ¬ r.Client fd :=
  fun client => free.2 (sound.inUse fd client)

theorem opens {fd : Int} : Sound ⟨r.ffwd, fd :: r.taken, r.own⟩ where
  registered := sound.registered
  inUse k client := List.mem_cons_of_mem _ (sound.inUse k client)
  clientEnd c is := by
    obtain ⟨inUse, apart⟩ := sound.clientEnd c is
    exact ⟨List.mem_cons_of_mem _ inUse, apart⟩
  serverEnd := sound.serverEnd
  knows := sound.knows

theorem closes {fd : Int} (other : ¬ (r.Client fd ∨ r.own.clientEnd = some fd)) :
    Sound ⟨r.ffwd, r.closing fd, r.own⟩ where
  registered := sound.registered
  inUse k client := by
    refine mem_closing.mpr ⟨sound.inUse k client, ?_⟩
    rintro rfl
    exact other (.inl client)
  clientEnd c is := by
    obtain ⟨inUse, apart⟩ := sound.clientEnd c is
    refine ⟨mem_closing.mpr ⟨inUse, ?_⟩, apart⟩
    rintro rfl
    exact other (.inr is)
  serverEnd := sound.serverEnd
  knows := sound.knows

theorem dial {fd : Int} (free : r.Free fd) (unknown : r.ffwd.msgfd = -1) :
    Sound ⟨r.ffwd, fd :: r.taken, .waiting fd⟩ where
  registered := sound.registered
  inUse k client := List.mem_cons_of_mem _ (sound.inUse k client)
  clientEnd c is := by
    cases is
    exact ⟨List.mem_cons_self, sound.free_new free⟩
  serverEnd := nofun
  knows _ _ := .inl unknown

/-- `init` stores the client end where there is one. -/
theorem connected_msg {fd : Int} (stored : fd = r.own.clientEnd.getD 1) :
    Sound ⟨r.ffwd.withOwnfd .msg fd, r.taken, r.own⟩ where
  registered := sound.registered.connect .msg fd
  inUse := sound.inUse
  clientEnd := sound.clientEnd
  serverEnd := sound.serverEnd
  knows c is := by
    rw [is] at stored
    exact .inr stored

theorem connected_ctl (fd : Int) : Sound ⟨r.ffwd.withOwnfd .ctl fd, r.taken, r.own⟩ where
  registered := sound.registered.connect .ctl fd
  inUse := sound.inUse
  clientEnd := sound.clientEnd
  serverEnd := sound.serverEnd
  knows := sound.knows

/-- A client is accepted under a number that is free, and it may be the own connection. -/
theorem accept (side : Side) {fd : Int} (free : r.Free fd) {own : OwnConnection}
    (client : own.clientEnd = r.own.clientEnd)
    (server : ∀ s, own.serverEnd = some s →
      r.own.serverEnd = some s ∨ Side.msg = side ∧ s = fd) :
    Sound ⟨r.ffwd.accept side fd, fd :: r.taken, own⟩ where
  registered := by
    apply sound.registered.accept side
    intro other inside
    exact sound.free_new free (client_iff.mpr ⟨other, inside⟩)
  inUse k client := by
    obtain ⟨other, inside⟩ := client_iff.mp client
    rcases (r.ffwd.mem_accept free.1).mp inside with earlier | ⟨_, rfl⟩
    · exact List.mem_cons_of_mem _ (sound.inUse k (client_iff.mpr ⟨other, earlier⟩))
    · exact List.mem_cons_self
  clientEnd c is := by
    obtain ⟨inUse, apart⟩ := sound.clientEnd c (client ▸ is)
    refine ⟨List.mem_cons_of_mem _ inUse, fun accepted => ?_⟩
    obtain ⟨other, inside⟩ := client_iff.mp accepted
    rcases (r.ffwd.mem_accept free.1).mp inside with earlier | ⟨_, rfl⟩
    · exact apart (client_iff.mpr ⟨other, earlier⟩)
    · exact free.2 inUse
  serverEnd s is := by
    have joined : s ∈ ((r.ffwd.accept side fd).server .msg).clientFds ↔ _ :=
      r.ffwd.mem_accept free.1
    rcases server s is with earlier | new
    · obtain ⟨inside, valid⟩ := sound.serverEnd s earlier
      exact ⟨joined.mpr (.inl inside), valid⟩
    · refine ⟨joined.mpr (.inr new), ?_⟩
      rw [new.2]
      exact free.1
  knows c is := by
    rw [Ffwd.msgfd_accept]
    exact sound.knows c (client ▸ is)

/-- What the `read` of a client leaves. -/
theorem read {f : Ffwd} {fd : Int} {stack : List UInt8} {got : ReadResult}
    {calls : List SysCall} (stepped : r.ffwd.step (.read fd stack got) = some (f, calls)) :
    Sound (r.afterRead f fd got) := by
  have registered := Registered.step stepped sound.registered
  obtain ⟨side, callback, handled⟩ := Option.map_eq_some_iff.mp stepped
  have client := (sound.registered.cbs side fd).mp callback
  cases found : got.message with
  | some m =>
      cases got with
      | zero | failed => cases found
      | data m' =>
          rw [Ffwd.handle_data] at handled
          cases handled
          exact sound
  | none =>
      rw [r.ffwd.handle_drop stack client found] at handled
      obtain ⟨is, _⟩ := Prod.mk.inj handled
      have left := sound.registered.mem_removed client
      have msgfd : f.msgfd = r.ffwd.msgfd := by
        rw [← is]
        cases side <;> rfl
      rw [is] at left
      have after : r.afterRead f fd got = ⟨f, r.closing fd, r.own.drop fd⟩ := by
        simp only [afterRead, found]
      rw [after]
      refine ⟨registered, fun k client' => ?_, fun c own => ?_, fun s own => ?_, fun c own => ?_⟩
      · obtain ⟨other, inside⟩ := client_iff.mp client'
        obtain ⟨before, differs⟩ := (left other k).mp inside
        exact mem_closing.mpr ⟨sound.inUse k (client_iff.mpr ⟨other, before⟩), differs⟩
      · rw [OwnConnection.clientEnd_drop] at own
        obtain ⟨inUse, apart⟩ := sound.clientEnd c own
        constructor
        · refine mem_closing.mpr ⟨inUse, ?_⟩
          rintro rfl
          exact apart (client_iff.mpr ⟨side, client⟩)
        · intro client'
          obtain ⟨other, inside⟩ := client_iff.mp client'
          exact apart (client_iff.mpr ⟨other, ((left other c).mp inside).1⟩)
      · obtain ⟨before, differs⟩ := OwnConnection.serverEnd_drop own
        obtain ⟨inside, valid⟩ := sound.serverEnd s before
        exact ⟨(left .msg s).mpr ⟨inside, differs⟩, valid⟩
      · rw [OwnConnection.clientEnd_drop] at own
        rw [msgfd]
        exact sound.knows c own

theorem exit {c : Int} (own : r.own.clientEnd = some c) :
    Sound ⟨r.ffwd, r.closing c, .closed⟩ where
  registered := sound.registered
  inUse k client := by
    refine mem_closing.mpr ⟨sound.inUse k client, ?_⟩
    rintro rfl
    exact (sound.clientEnd k own).2 client
  clientEnd := nofun
  serverEnd := nofun
  knows := nofun

/-- What a happening does keeps the servers and the descriptors sound. -/
theorem step {r' : Relaying} {h : Happening} {calls : List SysCall}
    (stepped : r.step h = some (r', calls)) : Sound r' := by
  cases h with
  | opens fd =>
      simp only [Relaying.step] at stepped
      split at stepped
      · cases stepped
        exact sound.opens
      · cases stepped
  | closes fd =>
      simp only [Relaying.step] at stepped
      split at stepped
      · cases stepped
      · next other =>
          cases stepped
          exact sound.closes other
  | dial fd =>
      simp only [Relaying.step] at stepped
      split at stepped
      · next may =>
          cases stepped
          exact sound.dial may.2.2 may.2.1
      · cases stepped
  | connected side replies =>
      cases side with
      | msg =>
          simp only [Relaying.step] at stepped
          split at stepped
          · next may =>
              cases stepped
              exact sound.connected_msg may.2
          · cases stepped
      | ctl =>
          cases stepped
          exact sound.connected_ctl _
  | acceptOwn fd =>
      simp only [Relaying.step] at stepped
      split at stepped
      · next c own =>
          split at stepped
          · next free =>
              obtain ⟨⟨f, calls'⟩, accepts, is⟩ := Option.map_eq_some_iff.mp stepped
              obtain rfl := Ffwd.accept_of_step accepts
              cases is
              apply sound.accept .msg free
              · rw [own]
                rfl
              · intro s is
                cases is
                exact .inr ⟨rfl, rfl⟩
          · cases stepped
      · cases stepped
  | accept side fd =>
      simp only [Relaying.step] at stepped
      split at stepped
      · next failed =>
          cases stepped
          rw [r.ffwd.accept_failed side failed]
          exact sound
      · split at stepped
        · next free =>
            obtain ⟨⟨f, calls'⟩, accepts, is⟩ := Option.map_eq_some_iff.mp stepped
            obtain rfl := Ffwd.accept_of_step accepts
            cases is
            exact sound.accept side free rfl fun _ is => .inl is
        · cases stepped
  | read fd stack got =>
      obtain ⟨⟨f, calls'⟩, reads, is⟩ := Option.map_eq_some_iff.mp stepped
      cases is
      exact sound.read reads
  | exit =>
      simp only [Relaying.step] at stepped
      split at stepped
      · next c own =>
          cases stepped
          exact sound.exit own
      · cases stepped

end Relaying.Sound

/-! ### What the own connection is sent -/

namespace RelayingStep

/-- The callback of a client from outside reads a message on the message port. -/
def Relays (st : RelayingStep) (m : Message) : Prop :=
  ∃ fd stack, st.input = .read fd stack (.data m) ∧ st.before.ffwd.cbs fd = some .msg ∧
    st.before.own.serverEnd ≠ some fd

/-- No byte of a message from outside is written to the server end of the own connection. -/
def Spares (st : RelayingStep) : Prop :=
  ∀ m s, st.Relays m → st.before.own.serverEnd = some s → received s st.output = []

/-- While the server has its end of the own connection, a message from outside begins with a zero byte,
or that end is descriptor 0. -/
def Unheard (st : RelayingStep) : Prop :=
  ∀ m s, st.Relays m → st.before.own.serverEnd = some s → s = 0 ∨ m.bytes.head? = some 0

end RelayingStep

theorem cString_eq_nil_iff (m : Message) : cString m.bytes = [] ↔ m.bytes.head? = some 0 := by
  have nonempty := m.nonempty
  cases is : m.bytes with
  | nil =>
      rw [is] at nonempty
      exact absurd nonempty (Nat.lt_irrefl 0)
  | cons b rest =>
      unfold cString
      rw [List.takeWhile_eq_nil_iff]
      simp

namespace Relaying.Sound

variable {st : RelayingStep} (sound : Sound st.before) (stepped : st.Of Relaying.step)

include sound

/-- `msgfd` is never the server end. -/
theorem serverEnd_ne_msgfd {s : Int} (own : st.before.own.serverEnd = some s) :
    s ≠ st.before.ffwd.msgfd := by
  obtain ⟨inside, valid⟩ := sound.serverEnd s own
  obtain ⟨c, client⟩ := OwnConnection.clientEnd_of_serverEnd own
  rintro rfl
  rcases sound.knows c client with unknown | known
  · rw [unknown] at valid
    exact absurd valid (by decide)
  · rw [known] at inside
    exact (sound.clientEnd c client).2 (.inl inside)

include stepped

/-- The own connection is sent what all clients are sent, unless its server end is descriptor 0. -/
theorem received_own {m : Message} {s : Int} (relays : st.Relays m)
    (own : st.before.own.serverEnd = some s) :
    received s st.output = if s = 0 then [] else cString m.bytes := by
  obtain ⟨inside, valid⟩ := sound.serverEnd s own
  obtain ⟨fd, stack, is, callback, outside⟩ := relays
  rw [Machine.Step.Of, is] at stepped
  obtain ⟨⟨f, calls⟩, reads, after⟩ := Option.map_eq_some_iff.mp stepped
  rw [Ffwd.step, callback, Option.map_some, Ffwd.handle_data] at reads
  obtain ⟨_, rfl⟩ := Prod.mk.inj (Option.some.inj reads)
  rw [← (Prod.mk.inj after).2]
  split
  · next zero =>
      apply received_nil
      intro text written
      obtain ⟨c, _, served, same⟩ := mem_broadcast.mp written
      cases same
      rw [zero] at served
      exact absurd served.2.2 (lt_irrefl 0)
  · next positive =>
      have served : Served st.before.ffwd.msgfd fd s := by
        refine ⟨sound.serverEnd_ne_msgfd own, ?_, lt_of_le_of_ne valid (Ne.symm positive)⟩
        rintro rfl
        exact outside own
      have sent := received_broadcast served (ReadResult.store stack (.data m))
        (sound.registered.nodup .msg) inside
      exact sent.trans (cString_stored m.bytes _)

theorem spares_iff : st.Spares ↔ st.Unheard := by
  constructor
  · intro spares m s relays own
    have nothing := spares m s relays own
    rw [sound.received_own stepped relays own] at nothing
    split at nothing
    · next zero => exact .inl zero
    · exact .inr ((cString_eq_nil_iff m).mp nothing)
  · intro unheard m s relays own
    rw [sound.received_own stepped relays own]
    rcases unheard m s relays own with zero | first
    · exact if_pos zero
    · rw [(cString_eq_nil_iff m).mpr first, ite_self]

end Relaying.Sound

/-- In a run of the servers the own connection is spared the messages from outside exactly if none of
them comes while the server has its end of that connection, except where the end is descriptor 0 or the
message begins with a zero byte. -/
theorem own_connection_spared_iff {ctlfd : Int} {taken : List Int} {made : List RelayingStep}
    {r : Relaying} (run : RelayingRun ctlfd taken made r) :
    (∀ st ∈ made, st.Spares) ↔ ∀ st ∈ made, st.Unheard := by
  obtain ⟨_, each⟩ := run.steps (Relaying.sound_begun ctlfd taken) fun _ made sound =>
    sound.step made
  apply forall₂_congr
  intro st inside
  obtain ⟨sound, stepped⟩ := each st inside
  exact sound.spares_iff stepped

/-- A client sends its message before the server accepts the own connection. -/
theorem own_connection_spared_early :
    ∃ made r, RelayingRun 0 [0, 1, 2, 3, 4, 5] made r ∧ ∀ st ∈ made, st.Spares := by
  have begun : RelayingRun 0 [0, 1, 2, 3, 4, 5] [] _ := .start
  have trail : Machine.trail Relaying.step (.begun 0 [0, 1, 2, 3, 4, 5])
      [.dial 6, .connected .msg ⟨6, 1, 0⟩, .accept .msg 7, .read 7 [] (.data .hello),
        .acceptOwn 8] = some _ := rfl
  obtain ⟨r, run⟩ := begun.append trail
  refine ⟨_, r, run, (own_connection_spared_iff run).mpr ?_⟩
  intro st inside m s _ own
  simp only [List.nil_append, List.mem_cons, List.not_mem_nil, or_false] at inside
  rcases inside with rfl | rfl | rfl | rfl | rfl <;> cases own

/-- The own connection has the ends 6 and 7, and the message of another client is written to 7. -/
theorem own_connection_sent :
    ∃ made r, RelayingRun 0 [0, 1, 2, 3, 4, 5] made r ∧ ¬ ∀ st ∈ made, st.Spares := by
  have begun : RelayingRun 0 [0, 1, 2, 3, 4, 5] [] _ := .start
  have trail : Machine.trail Relaying.step (.begun 0 [0, 1, 2, 3, 4, 5])
      [.dial 6, .connected .msg ⟨6, 1, 0⟩, .acceptOwn 7, .accept .msg 8,
        .read 8 [] (.data .hello)] = some _ := rfl
  obtain ⟨r, run⟩ := begun.append trail
  refine ⟨_, r, run, fun spared => ?_⟩
  have last := spared _ (List.mem_of_getElem? (rfl : _[4]? = _))
  have nothing := last .hello 7 ⟨8, [], rfl, rfl, by decide⟩ rfl
  revert nothing
  decide

end Ppcom
