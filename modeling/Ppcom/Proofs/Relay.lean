/-
Module: Ppcom.Proofs.Relay
Purpose: What the clients of the servers receive. A message is relayed as it was read exactly if it is
  shorter than the buffer and, where there is another client, has no zero byte; a disconnect is silent
  exactly if it leaves no client behind that the loop over the clients would write to.
Trusted boundary: a `write` takes all it is given
Main exports: mem_broadcast, relay_verbatim_iff, Registered, ServerStep.Silent, disconnects_silent_iff
-/
import Mathlib.Data.List.TakeWhile
import Ppcom.Ffwd
import Ppcom.Proofs.ControlSocket

namespace Ppcom

open Program

/-! ### The loop over the clients -/

/-- The clients that the loop over them writes to. -/
def Served (ownfd fd clientFd : Int) : Prop := clientFd ≠ ownfd ∧ clientFd ≠ fd ∧ 0 < clientFd

theorem mem_broadcast {ownfd fd : Int} {buffer : List UInt8} {clientFds : List Int}
    {call : SysCall} :
    call ∈ broadcast ownfd fd buffer clientFds ↔
      ∃ c ∈ clientFds, Served ownfd fd c ∧ call = .write c (cString buffer) := by
  simp only [broadcast, List.mem_filterMap]
  apply exists_congr
  intro c
  apply and_congr_right
  intro _
  unfold Served
  split
  · next skipped =>
      constructor
      · intro none
        cases none
      · rintro ⟨⟨notOwn, notSelf, _⟩, _⟩
        exact absurd skipped (not_or.mpr ⟨notOwn, notSelf⟩)
  · next other =>
      obtain ⟨notOwn, notSelf⟩ := not_or.mp other
      split
      · next positive =>
          constructor
          · intro written
            exact ⟨⟨notOwn, notSelf, positive⟩, (Option.some.inj written).symm⟩
          · rintro ⟨_, rfl⟩
            rfl
      · next negative =>
          constructor
          · intro none
            cases none
          · rintro ⟨⟨_, _, positive⟩, _⟩
            exact absurd positive negative

/-- What a call sends to a descriptor. -/
def SysCall.textTo (fd : Int) : SysCall → List UInt8
  | .write c text => if c = fd then text else []
  | _ => []

/-- What calls send to a descriptor. -/
def received (fd : Int) (calls : List SysCall) : List UInt8 := calls.flatMap (SysCall.textTo fd)

theorem received_nil {fd : Int} {calls : List SysCall}
    (none : ∀ text, .write fd text ∉ calls) : received fd calls = [] := by
  apply List.flatMap_eq_nil_iff.mpr
  intro call inside
  cases call with
  | close | epollRemove => rfl
  | write c text =>
      apply if_neg
      rintro rfl
      exact none text inside

/-- A client receives the string in the buffer once. -/
theorem received_broadcast {ownfd fd c : Int} (served : Served ownfd fd c) (buffer : List UInt8)
    {clientFds : List Int} (nodup : clientFds.Nodup) (inside : c ∈ clientFds) :
    received c (broadcast ownfd fd buffer clientFds) = cString buffer := by
  obtain ⟨early, late, rfl⟩ := List.append_of_mem inside
  have parts : broadcast ownfd fd buffer (early ++ c :: late) =
      broadcast ownfd fd buffer early ++ .write c (cString buffer) ::
        broadcast ownfd fd buffer late := by
    have first : broadcast ownfd fd buffer (c :: late) =
        .write c (cString buffer) :: broadcast ownfd fd buffer late := by
      apply List.filterMap_cons_some
      rw [if_neg (not_or.mpr ⟨served.1, served.2.1⟩), if_pos served.2.2]
    rw [← first]
    exact List.filterMap_append
  have others : ∀ cs : List Int, c ∉ cs → received c (broadcast ownfd fd buffer cs) = [] := by
    intro cs outside
    apply received_nil
    intro text written
    obtain ⟨c', inside', _, same⟩ := mem_broadcast.mp written
    cases same
    exact outside inside'
  have apart := List.nodup_middle.mp nodup
  rw [List.nodup_cons, List.mem_append, not_or] at apart
  obtain ⟨⟨notEarly, notLate⟩, _⟩ := apart
  have one := others early notEarly
  have two := others late notLate
  unfold received at one two ⊢
  rw [parts, List.flatMap_append, List.flatMap_cons, one, two]
  simp [SysCall.textTo]

/-! ### A message -/

theorem Ffwd.callback_eq (f : Ffwd) (side : Side) :
    f.callback side = relay (f.server side) (f.ownfd side) := by
  cases side <;> rfl

/-- A zero byte behind a message ends its string. -/
theorem cString_stored (bytes rest : List UInt8) :
    cString (bytes ++ 0 :: rest) = cString bytes := by
  induction bytes with
  | nil => rfl
  | cons b bytes ih =>
      simp only [cString, List.cons_append, List.takeWhile_cons] at ih ⊢
      rw [ih]

theorem cString_starts (bytes : List UInt8) : cString bytes <+: bytes :=
  List.takeWhile_prefix _

theorem cString_eq_iff (bytes : List UInt8) : cString bytes = bytes ↔ 0 ∉ bytes := by
  unfold cString
  constructor
  · intro whole zero
    rw [← whole] at zero
    have nonzero := List.mem_takeWhile_imp zero
    simp at nonzero
  · intro nonzero
    apply List.takeWhile_eq_self_iff.mpr
    intro b inside
    simp only [bne_iff_ne, ne_eq]
    rintro rfl
    exact nonzero inside

@[simp] theorem relay_data_server (server : SocketServer) (ownfd fd : Int) (stack : List UInt8)
    (m : Message) : (relay server ownfd fd stack (.data m)).server = server := rfl

@[simp] theorem relay_data_calls (server : SocketServer) (ownfd fd : Int) (stack : List UInt8)
    (m : Message) :
    (relay server ownfd fd stack (.data m)).calls =
      broadcast ownfd fd (ReadResult.store stack (.data m)) server.clientFds := rfl

/-- The callback reaches no further than the zero byte behind the message. -/
theorem relay_data_reach (server : SocketServer) (ownfd fd : Int) (stack : List UInt8)
    (m : Message) :
    (relay server ownfd fd stack (.data m)).reach = m.bytes.length + 1 := by
  have short : strlen (ReadResult.store stack (.data m)) ≤ m.bytes.length := by
    unfold strlen ReadResult.store
    rw [cString_stored]
    exact (cString_starts m.bytes).length_le
  apply max_eq_left
  change (if _ then 0 else strlen (ReadResult.store stack (.data m)) + 1) ≤ m.bytes.length + 1
  split
  · exact Nat.zero_le _
  · exact Nat.succ_le_succ short

/-- The callback stays in its buffer, the other clients receive the message and `fd` nothing. -/
structure Verbatim (server : SocketServer) (fd : Int) (m : Message) (done : Relayed) : Prop where
  inside : done.reach ≤ relayBufSz
  others : ∀ c ∈ server.clientFds, c ≠ fd → received c done.calls = m.bytes
  itself : received fd done.calls = []

/-- A message is relayed verbatim exactly if it is shorter than the buffer and each other client has a
positive number, is not the program's own connection, and is sent a message without zero bytes. -/
theorem relay_verbatim_iff (f : Ffwd) (side : Side) (fd : Int) (stack : List UInt8) (m : Message)
    (clients : (f.server side).clientFds.Nodup) :
    Verbatim (f.server side) fd m (f.callback side fd stack (.data m)) ↔
      m.bytes.length < relayBufSz ∧
        ∀ c ∈ (f.server side).clientFds, c ≠ fd → 0 < c ∧ c ≠ f.ownfd side ∧ 0 ∉ m.bytes := by
  rw [f.callback_eq side]
  have string : cString (ReadResult.store stack (.data m)) = cString m.bytes := cString_stored _ _
  constructor
  · rintro ⟨inside, others, _⟩
    rw [relay_data_reach] at inside
    refine ⟨inside, fun c member other => ?_⟩
    have got := others c member other
    by_cases served : Served (f.ownfd side) fd c
    · rw [relay_data_calls, received_broadcast served _ clients member, string,
        cString_eq_iff] at got
      exact ⟨served.2.2, served.1, got⟩
    · rw [received_nil] at got
      · have nonempty := m.nonempty
        rw [← got] at nonempty
        exact absurd nonempty (Nat.lt_irrefl 0)
      · intro text written
        obtain ⟨c', _, served', same⟩ := mem_broadcast.mp written
        cases same
        exact served served'
  · rintro ⟨short, others⟩
    refine ⟨?_, fun c member other => ?_, ?_⟩
    · rw [relay_data_reach]
      exact short
    · obtain ⟨positive, notOwn, nonzero⟩ := others c member other
      rw [relay_data_calls, received_broadcast ⟨notOwn, other, positive⟩ _ clients member, string]
      exact (cString_eq_iff m.bytes).mpr nonzero
    · apply received_nil
      intro text written
      obtain ⟨c, _, served, same⟩ := mem_broadcast.mp written
      cases same
      exact served.2.1 rfl

/-- Two clients of the server of messages; the connections of the program are 6 and 7. -/
def Ffwd.twoClients : Ffwd where
  sockServMsg := ⟨[8, 9]⟩
  sockServCtl := ⟨[]⟩
  cbs fd := if fd = 8 ∨ fd = 9 then some .msg else none
  msgfd := 6
  ctlfd := 7

def Message.hello : Message := ⟨ascii "hello", by decide, by decide⟩

theorem relay_verbatim_hello :
    Verbatim ⟨[8, 9]⟩ 8 .hello (Ffwd.twoClients.callback .msg 8 [] (.data .hello)) :=
  (relay_verbatim_iff .twoClients .msg 8 [] .hello (by decide)).mpr ⟨by decide, by decide⟩

/-- A message with a zero byte in it. -/
def Message.binary : Message := ⟨[0x61, 0, 0x62], by decide, by decide⟩

/-- A message that fills the buffer. -/
def Message.full : Message where
  bytes := List.replicate relayBufSz 0x61
  nonempty := List.length_replicate.symm ▸ Nat.zero_lt_succ _
  fits := List.length_replicate.le

/-- Of a message with a zero byte the other client receives a part; the zero byte behind a message that
fills the buffer is stored outside of it. -/
theorem relay_not_verbatim :
    ¬ Verbatim ⟨[8, 9]⟩ 8 .binary (Ffwd.twoClients.callback .msg 8 [] (.data .binary)) ∧
      ¬ Verbatim ⟨[8, 9]⟩ 8 .full (Ffwd.twoClients.callback .msg 8 [] (.data .full)) := by
  constructor
  · intro verbatim
    have got := verbatim.others 9 (by decide) (by decide)
    revert got
    decide
  · intro verbatim
    have inside := verbatim.inside
    rw [Ffwd.callback_eq, relay_data_reach] at inside
    have length : Message.full.bytes.length = relayBufSz := List.length_replicate
    rw [length] at inside
    exact Nat.not_succ_le_self _ inside

/-! ### Clients and callbacks -/

@[simp] theorem Ffwd.server_withServer (f : Ffwd) (side : Side) (server : SocketServer) :
    (f.withServer side server).server side = server := by
  cases side <;> rfl

theorem Ffwd.server_withServer_of_ne (f : Ffwd) {side other : Side} (ne : other ≠ side)
    (server : SocketServer) : (f.withServer side server).server other = f.server other := by
  cases side <;> cases other <;> first | rfl | exact absurd rfl ne

@[simp] theorem Ffwd.withServer_self (f : Ffwd) (side : Side) :
    f.withServer side (f.server side) = f := by
  cases side <;> rfl

@[simp] theorem Ffwd.cbs_withServer (f : Ffwd) (side : Side) (server : SocketServer) :
    (f.withServer side server).cbs = f.cbs := by
  cases side <;> rfl

@[simp] theorem Ffwd.cbs_withOwnfd (f : Ffwd) (side : Side) (fd : Int) :
    (f.withOwnfd side fd).cbs = f.cbs := by
  cases side <;> rfl

@[simp] theorem Ffwd.server_withOwnfd (f : Ffwd) (side other : Side) (fd : Int) :
    (f.withOwnfd side fd).server other = f.server other := by
  cases side <;> cases other <;> rfl

@[simp] theorem Ffwd.server_withCallback (f : Ffwd) (fd : Int) (cb : Option Side) (side : Side) :
    (f.withCallback fd cb).server side = f.server side := by
  cases side <;> rfl

theorem Ffwd.accept_failed (f : Ffwd) (side : Side) {fd : Int} (failed : fd < 0) :
    f.accept side fd = f := by
  simp [Ffwd.accept, SocketServer.acceptClient, failed]

theorem Ffwd.accept_eq (f : Ffwd) (side : Side) {fd : Int} (valid : 0 ≤ fd) :
    f.accept side fd =
      (f.withServer side ⟨(f.server side).clientFds ++ [fd]⟩).withCallback fd (some side) := by
  have real : fd ≠ -1 := by
    rintro rfl
    exact absurd valid (by decide)
  simp [Ffwd.accept, SocketServer.acceptClient, not_lt.mpr valid, real]

theorem Ffwd.mem_accept (f : Ffwd) {side other : Side} {fd k : Int} (valid : 0 ≤ fd) :
    k ∈ ((f.accept side fd).server other).clientFds ↔
      k ∈ (f.server other).clientFds ∨ other = side ∧ k = fd := by
  rw [f.accept_eq side valid, Ffwd.server_withCallback]
  by_cases same : other = side
  · subst same
    simp
  · simp [f.server_withServer_of_ne same, same]

theorem Ffwd.cbs_withCallback (f : Ffwd) (fd : Int) (cb : Option Side) :
    (f.withCallback fd cb).cbs = Function.update f.cbs fd cb := rfl

/-- The descriptors with a callback are the clients, and no client is in a list twice. -/
structure Registered (f : Ffwd) : Prop where
  cbs : ∀ side fd, f.cbs fd = some side ↔ fd ∈ (f.server side).clientFds
  nodup : ∀ side, (f.server side).clientFds.Nodup

theorem Registered.static (msgfd ctlfd : Int) : Registered (.static msgfd ctlfd) where
  cbs side fd := by cases side <;> simp [Ffwd.static, Ffwd.server]
  nodup side := by cases side <;> simp [Ffwd.static, Ffwd.server]

namespace Registered

variable {f : Ffwd} (registered : Registered f)

include registered

theorem connect (side : Side) (fd : Int) : Registered (f.withOwnfd side fd) where
  cbs other fd' := by simpa using registered.cbs other fd'
  nodup other := by simpa using registered.nodup other

/-- A client that is new to both servers is added to one of them. -/
theorem accept (side : Side) {fd : Int} (new : ∀ side, fd ∉ (f.server side).clientFds) :
    Registered (f.accept side fd) := by
  by_cases failed : fd < 0
  · rw [f.accept_failed side failed]
    exact registered
  have valid := not_lt.mp failed
  constructor
  · intro other k
    rw [f.mem_accept valid, ← registered.cbs, f.accept_eq side valid, Ffwd.cbs_withCallback,
      Ffwd.cbs_withServer, Function.update_apply]
    split
    · next same =>
        subst same
        have none := mt (registered.cbs other k).mp (new other)
        simp [none, eq_comm]
    · next different => simp [different]
  · intro other
    rw [f.accept_eq side valid, Ffwd.server_withCallback]
    by_cases same : other = side
    · subst same
      rw [Ffwd.server_withServer]
      exact List.nodup_append_comm.mp (List.nodup_cons.mpr ⟨new other, registered.nodup other⟩)
    · rw [f.server_withServer_of_ne same]
      exact registered.nodup other

/-- A client is removed, and its callback with it. -/
theorem remove {side : Side} {fd : Int} (client : fd ∈ (f.server side).clientFds) :
    Registered ((f.withServer side ⟨(f.server side).clientFds.erase fd⟩).withCallback fd none) where
  cbs other fd' := by
    rw [Ffwd.cbs_withCallback, Ffwd.cbs_withServer, Function.update_apply,
      Ffwd.server_withCallback]
    have of := (registered.cbs side fd).mpr client
    by_cases same : other = side
    · subst same
      rw [Ffwd.server_withServer, (registered.nodup other).mem_erase_iff, ← registered.cbs]
      split <;> simp_all
    · rw [f.server_withServer_of_ne same, ← registered.cbs]
      split
      · next is =>
          subst is
          simp [of, Ne.symm same]
      · rfl
  nodup other := by
    rw [Ffwd.server_withCallback]
    by_cases same : other = side
    · subst same
      rw [Ffwd.server_withServer]
      exact (registered.nodup other).erase fd
    · rw [f.server_withServer_of_ne same]
      exact registered.nodup other

end Registered

/-! ### Callbacks from beginning to end -/

/-- The calls are all writes. -/
def Writes (calls : List SysCall) : Prop := ∀ call ∈ calls, ∃ c text, call = .write c text

theorem broadcast_writes (ownfd fd : Int) (buffer : List UInt8) (clientFds : List Int) :
    Writes (broadcast ownfd fd buffer clientFds) := by
  intro call inside
  obtain ⟨c, _, _, is⟩ := mem_broadcast.mp inside
  exact ⟨c, _, is⟩

/-- Writes leave `ffwd` alone. -/
theorem Writes.foldl_call {calls : List SysCall} (writes : Writes calls) (f : Ffwd) :
    calls.foldl Ffwd.call f = f := by
  induction calls with
  | nil => rfl
  | cons call rest ih =>
      obtain ⟨c, text, rfl⟩ := writes call (by simp)
      exact ih fun call inside => writes call (by simp [inside])

theorem Ffwd.handle_data (f : Ffwd) (side : Side) (fd : Int) (stack : List UInt8) (m : Message) :
    f.handle side fd stack (.data m) =
      (f, broadcast (f.ownfd side) fd (ReadResult.store stack (.data m))
        (f.server side).clientFds) := by
  simp only [Ffwd.handle, Ffwd.callback_eq, relay_data_calls, relay_data_server,
    Ffwd.withServer_self, (broadcast_writes _ _ _ _).foldl_call]

/-- What a callback does whose `read` finds nothing. -/
theorem relay_drop (server : SocketServer) (ownfd : Int) {fd : Int} (stack : List UInt8)
    {got : ReadResult} (client : fd ∈ server.clientFds) (nothing : got.message = none) :
    (relay server ownfd fd stack got).server = ⟨server.clientFds.erase fd⟩ ∧
      (relay server ownfd fd stack got).calls =
        [.close fd, .close fd, .epollRemove fd] ++
          broadcast ownfd fd stack (server.clientFds.erase fd) := by
  cases got with
  | data m => cases nothing
  | zero | failed =>
      simp [relay, dropFailed, SocketServer.removeClient, client, ReadResult.store]

theorem Ffwd.handle_drop (f : Ffwd) {side : Side} {fd : Int} (stack : List UInt8)
    {got : ReadResult} (client : fd ∈ (f.server side).clientFds) (nothing : got.message = none) :
    f.handle side fd stack got =
      ((f.withServer side ⟨(f.server side).clientFds.erase fd⟩).withCallback fd none,
        [.close fd, .close fd, .epollRemove fd] ++
          broadcast (f.ownfd side) fd stack ((f.server side).clientFds.erase fd)) := by
  obtain ⟨server, calls⟩ := relay_drop (f.server side) (f.ownfd side) stack client nothing
  simp only [Ffwd.handle, Ffwd.callback_eq, server, calls, List.foldl_append,
    (broadcast_writes _ _ _ _).foldl_call]
  rfl

/-! ### Runs -/

/-- The step begins with a `read` of a client of a side that finds nothing. -/
def ServerStep.Drops (st : ServerStep) (side : Side) (fd : Int) : Prop :=
  st.before.cbs fd = some side ∧
    ∃ stack got, st.input = .read fd stack got ∧ got.message = none

/-- A client whose `read` finds nothing is removed, and nothing is written. -/
def ServerStep.Silent (st : ServerStep) : Prop :=
  ∀ side fd, st.Drops side fd →
    fd ∉ (st.after.server side).clientFds ∧ ∀ c text, .write c text ∉ st.output

/-- The step reads a message from a client. -/
def ServerStep.Reads (st : ServerStep) (m : Message) : Prop :=
  ∃ fd stack, st.input = .read fd stack (.data m)

/-- What is written is the message that the step reads, or the front of it. -/
def ServerStep.Sourced (st : ServerStep) : Prop :=
  ∀ c text, .write c text ∈ st.output → ∃ m, st.Reads m ∧ text <+: m.bytes

/-- A client whose `read` finds nothing leaves no client of its server behind that the loop over the
clients would write to. -/
def ServerStep.Lone (st : ServerStep) : Prop :=
  ∀ side fd, st.Drops side fd →
    ∀ c ∈ (st.before.server side).clientFds, ¬ Served (st.before.ownfd side) fd c

/-- What the steps of a run send to a descriptor. -/
def receivedIn (fd : Int) (steps : List ServerStep) : List UInt8 :=
  steps.flatMap fun st => received fd st.output

/-- Wherever the control connection of the program has its other end, all that a run of `loop` reads
from it and offers to the queue was read from a client. -/
def QueueSourced (steps : List ServerStep) : Prop :=
  ∀ (build : Build) (opts : Opts) (world : World) (env : Env) (budget n : Nat) (s : Session)
    (peer : Int), (upTo build n).run (.start opts world env budget) = .ok ⟨⟩ s →
    (ctlChunks s.trace).flatten <+: receivedIn peer steps →
    ∀ b ∈ ctlBytes s.trace, ∃ st ∈ steps, ∃ m, st.Reads m ∧ b ∈ m.bytes

/-- What an activity does keeps the clients registered. -/
theorem Registered.step {f f' : Ffwd} {activity : Activity} {calls : List SysCall}
    (stepped : f.step activity = some (f', calls)) (registered : Registered f) : Registered f' := by
  cases activity with
  | connect side fd =>
      cases stepped
      exact registered.connect side fd
  | accept side fd =>
      simp only [Ffwd.step] at stepped
      split at stepped
      · cases stepped
      · next new =>
          cases stepped
          apply registered.accept
          intro other
          cases other with
          | msg => exact (not_or.mp new).1
          | ctl => exact (not_or.mp new).2
  | read fd stack got =>
      obtain ⟨side, callback, handled⟩ := Option.map_eq_some_iff.mp stepped
      have client := (registered.cbs side fd).mp callback
      cases found : got.message with
      | some m =>
          cases got with
          | data m' =>
              rw [Ffwd.handle_data] at handled
              cases handled
              exact registered
          | zero | failed => cases found
      | none =>
          rw [f.handle_drop stack client found] at handled
          cases handled
          exact registered.remove client

/-- What a step is that drops a client. -/
theorem Registered.drops {st : ServerStep} {side : Side} {fd : Int} (registered : Registered st.before)
    (stepped : st.Of Ffwd.step) (drops : st.Drops side fd) :
    fd ∈ (st.before.server side).clientFds ∧ fd ∉ (st.after.server side).clientFds ∧
      ∃ stack, st.output = [.close fd, .close fd, .epollRemove fd] ++
        broadcast (st.before.ownfd side) fd stack ((st.before.server side).clientFds.erase fd) := by
  obtain ⟨callback, stack, got, is, nothing⟩ := drops
  have client := (registered.cbs side fd).mp callback
  rw [Machine.Step.Of, is, Ffwd.step, callback, Option.map_some,
    st.before.handle_drop stack client nothing] at stepped
  obtain ⟨after, calls⟩ := Prod.mk.inj (Option.some.inj stepped)
  refine ⟨client, ?_, stack, calls.symm⟩
  rw [← after, Ffwd.server_withCallback, Ffwd.server_withServer]
  exact (registered.nodup side).not_mem_erase

/-- A disconnect is silent exactly if the client is the last that is served. -/
theorem Registered.silent_iff {st : ServerStep} (registered : Registered st.before)
    (stepped : st.Of Ffwd.step) : st.Silent ↔ st.Lone := by
  constructor
  · intro silent side fd drops c member served
    obtain ⟨_, _, stack, calls⟩ := registered.drops stepped drops
    apply (silent side fd drops).2 c (cString stack)
    rw [calls]
    apply List.mem_append_right
    exact mem_broadcast.mpr ⟨c, (List.mem_erase_of_ne served.2.1).mpr member, served, rfl⟩
  · intro lone side fd drops
    obtain ⟨_, removed, stack, calls⟩ := registered.drops stepped drops
    refine ⟨removed, fun c text written => ?_⟩
    rw [calls, List.mem_append] at written
    rcases written with closing | sending
    · simp at closing
    · obtain ⟨c', member, served, _⟩ := mem_broadcast.mp sending
      exact lone side fd drops c' (List.mem_of_mem_erase member) served

/-- A step that is silent writes what it reads. -/
theorem ServerStep.Silent.sourced {st : ServerStep} (silent : st.Silent)
    (stepped : st.Of Ffwd.step) : st.Sourced := by
  intro c text written
  cases is : st.input with
  | connect side fd =>
      rw [Machine.Step.Of, is] at stepped
      rw [← (Prod.mk.inj (Option.some.inj stepped)).2] at written
      cases written
  | accept side fd =>
      rw [Machine.Step.Of, is, Ffwd.step] at stepped
      split at stepped
      · cases stepped
      · rw [← (Prod.mk.inj (Option.some.inj stepped)).2] at written
        cases written
  | read fd stack got =>
      rw [Machine.Step.Of, is] at stepped
      obtain ⟨side, callback, handled⟩ := Option.map_eq_some_iff.mp stepped
      cases found : got.message with
      | none =>
          exact absurd written ((silent side fd ⟨callback, stack, got, is, found⟩).2 c text)
      | some m' =>
          cases got with
          | zero | failed => cases found
          | data m =>
              rw [Ffwd.handle_data] at handled
              rw [← (Prod.mk.inj handled).2] at written
              obtain ⟨_, _, _, same⟩ := mem_broadcast.mp written
              cases same
              refine ⟨m, ⟨fd, stack, is⟩, ?_⟩
              unfold ReadResult.store
              rw [cString_stored]
              exact cString_starts m.bytes

theorem mem_received {fd : Int} {calls : List SysCall} {b : UInt8} (inside : b ∈ received fd calls) :
    ∃ text, .write fd text ∈ calls ∧ b ∈ text := by
  obtain ⟨call, made, of⟩ := List.mem_flatMap.mp inside
  cases call with
  | close | epollRemove => cases of
  | write c text =>
      simp only [SysCall.textTo] at of
      split at of
      · next same =>
          subst same
          exact ⟨text, made, of⟩
      · cases of

theorem queueSourced {steps : List ServerStep} (sourced : ∀ st ∈ steps, st.Sourced) :
    QueueSourced steps := by
  intro build opts world env budget n s peer top relayed b offeredByte
  rw [ctl_settled build top] at offeredByte
  obtain ⟨chunk, read, ofChunk⟩ := List.mem_flatMap.mp offeredByte
  have inChunks := List.mem_flatten.mpr ⟨chunk, read, (offered_starts chunk).subset ofChunk⟩
  obtain ⟨st, inside, ofStep⟩ := List.mem_flatMap.mp (relayed.subset inChunks)
  obtain ⟨text, written, ofText⟩ := mem_received ofStep
  obtain ⟨m, reads, front⟩ := sourced st inside peer text written
  exact ⟨st, inside, m, reads, front.subset ofText⟩

/-- In a run of the servers every disconnect is silent, and nothing but what was read from a client is
relayed or comes into the queue over the control connection, exactly if every disconnect leaves no
client of its server behind that the loop over the clients would write to. -/
theorem disconnects_silent_iff {msgfd ctlfd : Int} {steps : List ServerStep} {f : Ffwd}
    (run : ServerRun (.static msgfd ctlfd) steps f) :
    (∀ st ∈ steps, st.Silent ∧ st.Sourced) ∧ QueueSourced steps ↔ ∀ st ∈ steps, st.Lone := by
  obtain ⟨_, each⟩ := run.steps (Registered.static msgfd ctlfd) fun _ => Registered.step
  constructor
  · rintro ⟨silent, _⟩ st inside
    obtain ⟨registered, stepped⟩ := each st inside
    exact (registered.silent_iff stepped).mp (silent st inside).1
  · intro lone
    have both : ∀ st ∈ steps, st.Silent ∧ st.Sourced := by
      intro st inside
      obtain ⟨registered, stepped⟩ := each st inside
      have silent := (registered.silent_iff stepped).mpr (lone st inside)
      exact ⟨silent, silent.sourced stepped⟩
    exact ⟨both, queueSourced fun st inside => (both st inside).2⟩

/-- A client comes, sends a message, and leaves again. -/
theorem disconnects_silent_one :
    ∃ steps f, ServerRun (.static 6 7) steps f ∧ ∀ st ∈ steps, st.Silent ∧ st.Sourced := by
  have begun : ServerRun (.static 6 7) [] (.static 6 7) := .start
  have trail : Machine.trail Ffwd.step (.static 6 7)
      [.accept .msg 8, .read 8 [] (.data .hello), .read 8 [] .zero] = some _ := rfl
  obtain ⟨f, run⟩ := begun.append trail
  refine ⟨_, f, run, ((disconnects_silent_iff run).mpr ?_).1⟩
  rintro st inside side fd ⟨callback, stack, got, is, nothing⟩ c member ⟨_, other, _⟩
  simp only [List.nil_append, List.mem_cons, List.not_mem_nil, or_false] at inside
  rcases inside with rfl | rfl | rfl
  · cases is
  · cases is
    cases nothing
  · cases is
    cases side with
    | ctl => cases member
    | msg => exact other (List.mem_singleton.mp member)

/-- Of two clients the first leaves, with something else than zero bytes on the stack. -/
theorem disconnect_relays_stack :
    ∃ steps f, ServerRun (.static 6 7) steps f ∧ receivedIn 9 steps = [0x41] ∧
      ¬ ((∀ st ∈ steps, st.Silent ∧ st.Sourced) ∧ QueueSourced steps) := by
  have begun : ServerRun (.static 6 7) [] (.static 6 7) := .start
  have trail : Machine.trail Ffwd.step (.static 6 7)
      [.accept .msg 8, .accept .msg 9, .read 8 [0x41, 0] .zero] = some _ := rfl
  obtain ⟨f, run⟩ := begun.append trail
  refine ⟨_, f, run, rfl, ?_⟩
  rintro ⟨silent, _⟩
  have dropped := (silent _ (List.mem_of_getElem? (rfl : _[2]? = _))).1
  apply (dropped .msg 8 ⟨rfl, _, _, rfl, rfl⟩).2 9 [0x41]
  change SysCall.write 9 [0x41] ∈ [.close 8, .close 8, .epollRemove 8, .write 9 [0x41]]
  simp

end Ppcom
