/-
Module: Ppcom.Proofs.ServerDescriptors
Purpose: The descriptor of a server: -1, or a socket that listens on its port. A `start` that fails
  after `socket` closes the descriptor and keeps its number, for which `startSrv` then throws.
Trusted boundary: none
Main exports: Listener.Serves, Listener.start_serves_iff, Servers.startSrv_none_iff,
  server_descriptors_iff, server_descriptor_lost
-/
import Mathlib.Tactic.Tauto
import Ppcom.Lib.Machine
import Ppcom.Listening

namespace Ppcom

/-- The descriptor of the server is -1, or open and listening on `server_port`. -/
def Listener.Serves (server : Listener) (k : SocketKernel) : Prop :=
  server.serverFd = -1 ∨
    k.opened server.serverFd = true ∧
      ∃ port, k.listening server.serverFd = some port ∧ (port.toNat : Int) = server.serverPort

/-- A `start` that leaves a descriptor which does not serve: `socket` succeeds, and `bind` or `listen`
fails or `server_port` is the number of no port. -/
def Misses (serverPort : Int) (replies : StartReplies) : Prop :=
  0 ≤ replies.socket ∧
    (replies.bind < 0 ∨ replies.listen < 0 ∨ ¬ (1 ≤ serverPort ∧ serverPort ≤ 65535))

/-! ### One server -/

section Server

variable {server other : Listener} {k k' : SocketKernel} {replies : StartReplies} {fd : Int}

theorem boundPort_eq_iff (serverPort : Int) {assigned : UInt16} (some : assigned ≠ 0) :
    ((boundPort serverPort assigned).toNat : Int) = serverPort ↔
      1 ≤ serverPort ∧ serverPort ≤ 65535 := by
  have value : ((sinPort serverPort).toNat : Int) = serverPort % 65536 := by
    unfold sinPort UInt16.ofInt
    rw [UInt16.toNat_ofNat']
    omega
  unfold boundPort
  by_cases zero : sinPort serverPort = 0
  · rw [if_pos zero]
    rw [zero] at value
    have positive : assigned.toNat ≠ 0 := fun none => some (UInt16.toNat_inj.mp none)
    have below := assigned.toNat_lt
    change (0 : Int) = _ at value
    omega
  · rw [if_neg zero]
    have positive : (sinPort serverPort).toNat ≠ 0 := fun none => zero (UInt16.toNat_inj.mp none)
    have below := (sinPort serverPort).toNat_lt
    omega

/-- Only what the kernel knows of the descriptor counts. -/
theorem Listener.Serves.of_eq (serves : server.Serves k)
    (same : server.serverFd ≠ -1 → k'.opened server.serverFd = k.opened server.serverFd ∧
      k'.listening server.serverFd = k.listening server.serverFd) : server.Serves k' := by
  by_cases none : server.serverFd = -1
  · exact .inl none
  · rcases serves with unset | ⟨isOpen, port, listens, eq⟩
    · exact absurd unset none
    · obtain ⟨opened, listening⟩ := same none
      exact .inr ⟨opened.trans isOpen, port, listening.trans listens, eq⟩

/-- A number that is not open is not the descriptor of a server. -/
theorem Listener.Serves.ne_of_closed (serves : server.Serves k) (closed : k.opened fd = false)
    (set : server.serverFd ≠ -1) : server.serverFd ≠ fd := by
  rintro rfl
  rcases serves with unset | ⟨isOpen, -⟩
  · exact set unset
  · rw [closed] at isOpen
    cases isOpen

theorem Listener.Serves.ne_of_silent (serves : server.Serves k) (silent : k.listening fd = none)
    (set : server.serverFd ≠ -1) : server.serverFd ≠ fd := by
  rintro rfl
  rcases serves with unset | ⟨-, port, listens, -⟩
  · exact set unset
  · rw [silent] at listens
    cases listens

/-- Servers of different ports have different descriptors. -/
theorem Listener.Serves.ne_of_port (serves : server.Serves k) (too : other.Serves k)
    (ports : server.serverPort ≠ other.serverPort) (set : server.serverFd ≠ -1) :
    server.serverFd ≠ other.serverFd := by
  intro same
  rcases serves with unset | ⟨-, port, listens, eq⟩
  · exact set unset
  · rcases too with unset | ⟨-, port', listens', eq'⟩
    · exact set (same.trans unset)
    · rw [← same, listens] at listens'
      cases listens'
      exact ports (eq.symm.trans eq')

/-- The ways through `start`. -/
theorem Listener.start_eq : server.start k replies =
    if replies.socket < 0 then ({ server with serverFd := replies.socket }, k, false)
    else if replies.bind < 0 ∨ replies.listen < 0 then
      ({ server with serverFd := replies.socket },
        (k.opens replies.socket).closes replies.socket, false)
    else
      ({ server with serverFd := replies.socket },
        (k.opens replies.socket).listens replies.socket
          (boundPort server.serverPort replies.assigned), true) := by
  unfold Listener.start
  by_cases unbound : replies.bind < 0 <;> simp [unbound]

@[simp] theorem Listener.start_serverPort :
    (server.start k replies).1.serverPort = server.serverPort := by
  rw [start_eq]
  split
  · rfl
  · split <;> rfl

@[simp] theorem Listener.start_serverFd : (server.start k replies).1.serverFd = replies.socket := by
  rw [start_eq]
  split
  · rfl
  · split <;> rfl

/-- `start` is about the descriptor that `socket` returns and no other. -/
theorem Listener.start_frame (server : Listener) (k : SocketKernel) (other : fd ≠ replies.socket) :
    (server.start k replies).2.1.opened fd = k.opened fd ∧
      (server.start k replies).2.1.listening fd = k.listening fd := by
  rw [start_eq]
  split
  · exact ⟨rfl, rfl⟩
  · split <;> simp [SocketKernel.opens, SocketKernel.closes, SocketKernel.listens,
      EpollKernel.opens, EpollKernel.closes, other]

theorem Listener.start_serves_iff (possible : replies.Possible k) :
    (server.start k replies).1.Serves (server.start k replies).2.1 ↔
      ¬ Misses server.serverPort replies := by
  obtain ⟨grants, some⟩ := possible
  unfold Listener.Serves
  rw [start_serverFd, start_serverPort]
  rcases grants with failed | ⟨valid, -⟩
  · apply iff_of_true (.inl failed)
    intro misses
    have := misses.1
    omega
  · have real : replies.socket ≠ -1 := by omega
    have port := boundPort_eq_iff server.serverPort some
    rw [start_eq, if_neg (Int.not_lt.mpr valid)]
    by_cases failed : replies.bind < 0 ∨ replies.listen < 0
    · rw [if_pos failed]
      refine iff_of_false ?_ fun serves => serves ⟨valid, failed.imp_right .inl⟩
      simp [real, SocketKernel.closes, EpollKernel.closes]
    · rw [if_neg failed]
      have misses : Misses server.serverPort replies ↔
          ¬ (1 ≤ server.serverPort ∧ server.serverPort ≤ 65535) := by
        unfold Misses
        tauto
      simp [real, SocketKernel.listens, SocketKernel.opens, EpollKernel.opens, port, misses]

/-- A server that serves goes on with it when another is started. -/
theorem Listener.Serves.start (serves : other.Serves k) (possible : replies.Possible k) :
    other.Serves (server.start k replies).2.1 := by
  refine serves.of_eq fun set => Listener.start_frame _ _ ?_
  rcases possible.1 with failed | ⟨-, closed⟩
  · exact fun same => set (same.trans failed)
  · exact serves.ne_of_closed closed set

end Server

/-! ### Two servers -/

/-- What all steps of the two servers rely on. -/
structure Servers.Good (srvPort : Int) (s : Servers) : Prop where
  serves (side : Side) : (s.sockServ side).Serves s.kernel
  msgPort : (s.sockServ .msg).serverPort = srvPort
  ctlPort : (s.sockServ .ctl).serverPort = srvPort + 1

section TwoServers

variable {srvPort : Int} {s : Servers} {side side' : Side} {replies msg ctl : StartReplies} {fd : Int}
  {granted : Bool}

theorem Servers.Good.ports (good : s.Good srvPort) (other : side' ≠ side) :
    (s.sockServ side').serverPort ≠ (s.sockServ side).serverPort := by
  have msgPort := good.msgPort
  have ctlPort := good.ctlPort
  cases side' <;> cases side
  · exact absurd rfl other
  · omega
  · omega
  · exact absurd rfl other

@[simp] theorem Servers.start_serverPort :
    ((s.start side replies).1.sockServ side').serverPort = (s.sockServ side').serverPort := by
  unfold Servers.start
  by_cases same : side' = side
  · subst same
    simp
  · simp [same]

theorem Servers.start_other (other : side' ≠ side) :
    (s.start side replies).1.sockServ side' = s.sockServ side' := by
  simp [Servers.start, other]

theorem Servers.start_serves_iff (possible : replies.Possible s.kernel) :
    ((s.start side replies).1.sockServ side).Serves (s.start side replies).1.kernel ↔
      ¬ Misses (s.sockServ side).serverPort replies := by
  rw [← Listener.start_serves_iff possible]
  simp [Servers.start]

/-- A `start` that leaves a descriptor which serves keeps everything good. -/
theorem Servers.Good.start (good : s.Good srvPort) (possible : replies.Possible s.kernel)
    (hits : ¬ Misses (s.sockServ side).serverPort replies) :
    (s.start side replies).1.Good srvPort where
  serves side' := by
    by_cases same : side' = side
    · subst same
      exact (Servers.start_serves_iff possible).mpr hits
    · rw [Servers.start_other same]
      exact (good.serves side').start possible
  msgPort := by
    rw [Servers.start_serverPort]
    exact good.msgPort
  ctlPort := by
    rw [Servers.start_serverPort]
    exact good.ctlPort

/-- `stop` closes a socket that listens, or nothing. -/
theorem Servers.Good.stop (good : s.Good srvPort) : (s.stop side).1.Good srvPort ∧
    ∀ fd ∈ (s.stop side).2, s.kernel.opened fd = true ∧ s.kernel.listening fd ≠ none := by
  unfold Servers.stop Listener.stop
  by_cases set : 0 ≤ (s.sockServ side).serverFd
  · have real : (s.sockServ side).serverFd ≠ -1 := by omega
    rw [if_pos set]
    refine ⟨⟨fun side' => ?_, ?_, ?_⟩, fun fd inside => ?_⟩
    · by_cases same : side' = side
      · subst same
        exact .inl (by simp)
      · simp only [Function.update_of_ne same]
        apply (good.serves side').of_eq
        intro set'
        have differs := (good.serves side').ne_of_port (good.serves side) (good.ports same) set'
        simp [SocketKernel.closes, EpollKernel.closes, differs]
    · rw [← good.msgPort]
      cases side <;> simp
    · rw [← good.ctlPort]
      cases side <;> simp
    · rw [List.mem_singleton.mp inside]
      rcases good.serves side with unset | ⟨isOpen, port, listens, -⟩
      · exact absurd unset real
      · exact ⟨isOpen, by simp [listens]⟩
  · rw [if_neg set]
    refine ⟨?_, nofun⟩
    simp only [Function.update_eq_self]
    exact good

theorem Servers.acceptClient_server :
    ((s.acceptClient side fd).1.sockServ side').serverPort = (s.sockServ side').serverPort ∧
      ((s.acceptClient side fd).1.sockServ side').serverFd = (s.sockServ side').serverFd := by
  unfold Servers.acceptClient Listener.acceptClient
  by_cases same : side' = side
  · subst same
    simp
  · simp [same]

theorem Servers.Good.acceptClient_serves (good : s.Good srvPort) (grants : s.kernel.Grants fd) :
    ((s.acceptClient side fd).1.sockServ side').Serves (s.acceptClient side fd).1.kernel := by
  unfold Listener.Serves
  rw [acceptClient_server.1, acceptClient_server.2]
  apply (good.serves side').of_eq
  intro set
  unfold Servers.acceptClient Listener.acceptClient
  by_cases failed : fd < 0
  · simp [failed]
  · rcases grants with none | ⟨-, closed⟩
    · omega
    · have differs := (good.serves side').ne_of_closed closed set
      simp [failed, SocketKernel.opens, EpollKernel.opens, differs]

@[simp] theorem Servers.watch_sockServ : (s.watch side granted).1.sockServ = s.sockServ := rfl

/-- Registering a descriptor does not open or close any. -/
theorem Servers.watch_kernel : (s.watch side granted).1.kernel.opened = s.kernel.opened ∧
    (s.watch side granted).1.kernel.listening = s.kernel.listening := by
  unfold Servers.watch Epoll.addSt
  by_cases accepted : s.kernel.accepts (s.sockServ side).serverFd granted = true
  · simp [accepted, EpollKernel.add]
  · simp [accepted]

theorem Servers.watch_threw_iff : (s.watch side granted).2 = some fd ↔
    fd = (s.sockServ side).serverFd ∧ s.kernel.accepts fd granted = false := by
  unfold Servers.watch Epoll.addSt
  by_cases accepted : s.kernel.accepts (s.sockServ side).serverFd granted = true
  · simp only [accepted, if_true]
    apply iff_of_false nofun
    rintro ⟨rfl, refused⟩
    rw [accepted] at refused
    cases refused
  · simp only [accepted, if_false, Bool.false_eq_true, if_true, Option.some.injEq]
    constructor
    · rintro rfl
      exact ⟨rfl, Bool.not_eq_true _ ▸ accepted⟩
    · rintro ⟨rfl, -⟩
      rfl

theorem Servers.watch_serves_iff {server : Listener} :
    server.Serves (s.watch side granted).1.kernel ↔ server.Serves s.kernel := by
  unfold Listener.Serves
  rw [Servers.watch_kernel.1, Servers.watch_kernel.2]

/-- Both servers after `startSrv` has started them. -/
def Servers.started (s : Servers) (msg ctl : StartReplies) : Servers :=
  ((s.start .msg msg).1.start .ctl ctl).1

theorem Servers.Good.started_iff (good : s.Good srvPort) (first : msg.Possible s.kernel)
    (second : ctl.Possible (s.start .msg msg).1.kernel) :
    (s.started msg ctl).Good srvPort ↔ ¬ (Misses srvPort msg ∨ Misses (srvPort + 1) ctl) := by
  have ctlPort : ((s.start .msg msg).1.sockServ .ctl).serverPort = srvPort + 1 := by
    rw [Servers.start_serverPort]
    exact good.ctlPort
  constructor
  · intro after
    have msgServes := after.serves .msg
    have ctlServes := after.serves .ctl
    have kept : (s.started msg ctl).sockServ .msg = (s.start .msg msg).1.sockServ .msg :=
      Servers.start_other (by decide)
    -- what `socket` gives to the second server is not the descriptor of the first
    have msgFirst : ((s.start .msg msg).1.sockServ .msg).Serves (s.start .msg msg).1.kernel := by
      rw [← kept]
      apply msgServes.of_eq
      intro set
      have differs := msgServes.ne_of_port ctlServes (after.ports (by decide)) set
      have ctlFd : ((s.started msg ctl).sockServ .ctl).serverFd = ctl.socket := by
        simp [Servers.started, Servers.start]
      rw [ctlFd] at differs
      have frame := Listener.start_frame ((s.start .msg msg).1.sockServ .ctl)
        (s.start .msg msg).1.kernel differs
      exact ⟨frame.1.symm, frame.2.symm⟩
    have msgHits := (Servers.start_serves_iff first).mp msgFirst
    have ctlHits := (Servers.start_serves_iff second).mp ctlServes
    rw [good.msgPort] at msgHits
    rw [ctlPort] at ctlHits
    exact fun misses => misses.elim msgHits ctlHits
  · intro hits
    have msgHits : ¬ Misses (s.sockServ .msg).serverPort msg := by
      rw [good.msgPort]
      exact fun misses => hits (.inl misses)
    have ctlHits : ¬ Misses ((s.start .msg msg).1.sockServ .ctl).serverPort ctl := by
      rw [ctlPort]
      exact fun misses => hits (.inr misses)
    exact (good.start first msgHits).start second ctlHits

@[simp] theorem Servers.startSrv_sockServ {granted : Side → Bool} :
    (s.startSrv msg ctl granted).1.sockServ = (s.started msg ctl).sockServ := by
  unfold Servers.startSrv
  dsimp only
  split <;> rfl

theorem Servers.startSrv_serves_iff {granted : Side → Bool} {server : Listener} :
    server.Serves (s.startSrv msg ctl granted).1.kernel ↔
      server.Serves (s.started msg ctl).kernel := by
  unfold Servers.startSrv
  dsimp only
  split
  · exact watch_serves_iff
  · exact watch_serves_iff.trans watch_serves_iff

/-- `startSrv` throws for the descriptor of one of the servers. -/
theorem Servers.startSrv_threw {granted : Side → Bool}
    (threw : (s.startSrv msg ctl granted).2 = some fd) :
    ∃ side, fd = ((s.startSrv msg ctl granted).1.sockServ side).serverFd := by
  rw [startSrv_sockServ]
  unfold Servers.startSrv at threw
  dsimp only at threw
  split at threw
  · next first =>
    cases threw
    exact ⟨.msg, (watch_threw_iff.mp first).1⟩
  · exact ⟨.ctl, (watch_threw_iff.mp threw).1⟩

theorem Servers.Good.startSrv_iff (good : s.Good srvPort) (granted : Side → Bool)
    (first : msg.Possible s.kernel) (second : ctl.Possible (s.start .msg msg).1.kernel) :
    (s.startSrv msg ctl granted).1.Good srvPort ↔
      ¬ (Misses srvPort msg ∨ Misses (srvPort + 1) ctl) := by
  rw [← good.started_iff first second]
  constructor
  · rintro ⟨serves, msgPort, ctlPort⟩
    rw [startSrv_sockServ] at serves msgPort ctlPort
    exact ⟨fun side => startSrv_serves_iff.mp (serves side), msgPort, ctlPort⟩
  · rintro ⟨serves, msgPort, ctlPort⟩
    rw [← startSrv_sockServ] at serves msgPort ctlPort
    exact ⟨fun side => startSrv_serves_iff.mpr (serves side), msgPort, ctlPort⟩

/-- `start` registers nothing. -/
theorem Servers.start_watched (watched : (s.start side replies).1.kernel.watched fd = true) :
    s.kernel.watched fd = true := by
  unfold Servers.start at watched
  dsimp only at watched
  rw [Listener.start_eq] at watched
  split at watched
  · exact watched
  · split at watched
    · by_cases same : fd = replies.socket
      · subst same
        simp [SocketKernel.closes, EpollKernel.closes] at watched
      · simpa [SocketKernel.closes, SocketKernel.opens, EpollKernel.closes, EpollKernel.opens, same]
          using watched
    · exact watched

/-- -1 stays closed. -/
theorem Servers.start_unset (grants : s.kernel.Grants replies.socket)
    (unset : s.kernel.opened (-1) = false) :
    (s.start side replies).1.kernel.opened (-1) = false := by
  rcases grants with none | ⟨valid, -⟩
  · unfold Servers.start
    dsimp only
    rw [Listener.start_eq, if_pos (by omega)]
    exact unset
  · exact (Listener.start_frame _ _ (by omega)).1.trans unset

/-- `start` returns whether the descriptor that `socket` gave is open when it returns. -/
theorem Servers.start_ret (grants : s.kernel.Grants replies.socket)
    (unset : s.kernel.opened (-1) = false) :
    (s.start side replies).2 = (s.start side replies).1.kernel.opened replies.socket := by
  unfold Servers.start
  dsimp only
  rw [Listener.start_eq]
  split
  · next failed =>
    rcases grants with none | ⟨valid, -⟩
    · rw [none]
      exact unset.symm
    · omega
  · split <;> simp [SocketKernel.closes, SocketKernel.listens, SocketKernel.opens,
      EpollKernel.closes, EpollKernel.opens]

theorem Servers.watch_none_iff : (s.watch side granted).2 = none ↔
    s.kernel.accepts (s.sockServ side).serverFd granted = true := by
  unfold Servers.watch Epoll.addSt
  by_cases accepted : s.kernel.accepts (s.sockServ side).serverFd granted = true <;> simp [accepted]

theorem Servers.watch_watched (accepted : (s.watch side granted).2 = none) :
    (s.watch side granted).1.kernel.watched =
      Function.update s.kernel.watched (s.sockServ side).serverFd true := by
  rw [watch_none_iff] at accepted
  unfold Servers.watch Epoll.addSt
  simp [accepted, EpollKernel.add]

theorem Servers.startSrv_ret_iff {granted : Side → Bool} :
    (s.startSrv msg ctl granted).2 = none ↔
      ((s.started msg ctl).watch .msg (granted .msg)).2 = none ∧
        (((s.started msg ctl).watch .msg (granted .msg)).1.watch .ctl (granted .ctl)).2 = none := by
  unfold Servers.startSrv
  dsimp only
  split
  · next threw =>
    apply iff_of_false nofun
    intro both
    cases threw.symm.trans both.1
  · next fine => exact (and_iff_right fine).symm

/-- Where the kernel refuses nothing, `startSrv` throws exactly when a `start` has failed. -/
theorem Servers.startSrv_none_iff (first : msg.Possible s.kernel)
    (second : ctl.Possible (s.start .msg msg).1.kernel) (unset : s.kernel.opened (-1) = false)
    (ready : ∀ fd, s.kernel.watched fd = true → s.kernel.opened fd = true) :
    (s.startSrv msg ctl fun _ => true).2 = none ↔
      (s.start .msg msg).2 = true ∧ ((s.start .msg msg).1.start .ctl ctl).2 = true := by
  have msgFd : ((s.started msg ctl).sockServ .msg).serverFd = msg.socket := by
    simp [started, start]
  have ctlFd : ((s.started msg ctl).sockServ .ctl).serverFd = ctl.socket := by
    simp [started, start]
  have unset' : (s.start .msg msg).1.kernel.opened (-1) = false := start_unset first.1 unset
  rw [start_ret first.1 unset, start_ret second.1 unset']
  -- neither descriptor was open before, so that neither is registered
  have free : ∀ {fd}, s.kernel.Grants fd → s.kernel.watched fd = true → False := by
    intro fd grants watched
    have isOpen := ready fd watched
    rcases grants with rfl | ⟨-, closed⟩
    · rw [unset] at isOpen
      cases isOpen
    · rw [closed] at isOpen
      cases isOpen
  have msgNew : (s.started msg ctl).kernel.watched msg.socket = false :=
    Bool.eq_false_iff.mpr fun watched => free first.1 (start_watched (start_watched watched))
  have ctlNew : (s.started msg ctl).kernel.watched ctl.socket = false := by
    apply Bool.eq_false_iff.mpr
    intro watched
    have before := start_watched (start_watched watched)
    by_cases same : ctl.socket = msg.socket
    · rw [same] at before
      exact free first.1 before
    · refine free ?_ before
      rw [SocketKernel.Grants, ← (Listener.start_frame _ _ same).1]
      exact second.1
  have twice : (s.startSrv msg ctl fun _ => true).2 = none ↔
      (s.started msg ctl).kernel.opened msg.socket = true ∧
        (s.started msg ctl).kernel.opened ctl.socket = true ∧ ctl.socket ≠ msg.socket := by
    rw [startSrv_ret_iff, watch_none_iff, msgFd]
    constructor
    · rintro ⟨msgAccepted, ctlAccepted⟩
      have kernel := watch_watched (watch_none_iff.mpr (msgFd.symm ▸ msgAccepted))
      rw [watch_none_iff, watch_sockServ, ctlFd, EpollKernel.accepts, kernel, watch_kernel.1,
        msgFd] at ctlAccepted
      have differs : ctl.socket ≠ msg.socket := by
        intro same
        simp [same] at ctlAccepted
      simp only [EpollKernel.accepts, msgNew, Bool.not_false, Bool.and_true] at msgAccepted
      simp only [Function.update_of_ne differs, ctlNew, Bool.not_false, Bool.and_true] at ctlAccepted
      exact ⟨msgAccepted, ctlAccepted, differs⟩
    · rintro ⟨msgOpen, ctlOpen, differs⟩
      have msgAccepted : (s.started msg ctl).kernel.accepts msg.socket true = true := by
        simp [EpollKernel.accepts, msgOpen, msgNew]
      have kernel := watch_watched (watch_none_iff.mpr (msgFd.symm ▸ msgAccepted))
      refine ⟨msgAccepted, ?_⟩
      rw [watch_none_iff, watch_sockServ, ctlFd, EpollKernel.accepts, kernel, watch_kernel.1, msgFd]
      simp [ctlOpen, differs, ctlNew]
  rw [twice]
  change _ ↔ _ ∧ (s.started msg ctl).kernel.opened ctl.socket = true
  constructor
  · rintro ⟨msgOpen, ctlOpen, differs⟩
    rw [← (Listener.start_frame _ _ differs.symm).1]
    exact ⟨msgOpen, ctlOpen⟩
  · rintro ⟨msgOpen, ctlOpen⟩
    have differs : ctl.socket ≠ msg.socket := by
      intro same
      rcases second.1 with none | ⟨-, closed⟩
      · rw [← same, none, unset'] at msgOpen
        cases msgOpen
      · rw [same, msgOpen] at closed
        cases closed
    refine ⟨?_, ctlOpen, differs⟩
    exact (Listener.start_frame _ _ differs.symm).1.trans msgOpen

end TwoServers

/-! ### Steps -/

/-- A step of the two servers. -/
abbrev ServersStep := Machine.Step Servers ServersInput ServersOutput

/-- What a step must not spoil: the descriptor of each server is -1 or listens on its port, what `stop`
closes is still open and listens, and `startSrv` throws for no descriptor that is closed. -/
structure KeepsDescriptors (st : ServersStep) : Prop where
  serves (side : Side) : (st.after.sockServ side).Serves st.after.kernel
  stopped : ∀ fd ∈ st.output.closed,
    st.before.kernel.opened fd = true ∧ st.before.kernel.listening fd ≠ none
  registered : ∀ fd, st.output.threw = some fd → fd = -1 ∨ st.after.kernel.opened fd = true

/-- A `start` of the step leaves a descriptor that does not serve. -/
def LosesDescriptor (srvPort : Int) (st : ServersStep) : Prop :=
  match st.input with
  | .start .msg replies => Misses srvPort replies
  | .start .ctl replies => Misses (srvPort + 1) replies
  | .startSrv msg ctl _ => Misses srvPort msg ∨ Misses (srvPort + 1) ctl
  | _ => False

section Steps

variable {srvPort : Int} {st : ServersStep}

/-- No call changes a port. -/
theorem serversStep_serverPort (made : st.Of serversStep) (side : Side) :
    (st.after.sockServ side).serverPort = (st.before.sockServ side).serverPort := by
  obtain ⟨s, input, s', output⟩ := st
  change serversStep s input = some (s', output) at made
  cases input with
  | start side' replies =>
      cases (Option.ite_none_right_eq_some.mp made).2
      exact Servers.start_serverPort
  | stop side' =>
      cases made
      change ((s.stop side').1.sockServ side).serverPort = _
      unfold Servers.stop Listener.stop
      by_cases same : side = side'
      · subst same
        by_cases set : 0 ≤ (s.sockServ side).serverFd <;> simp [set]
      · simp [same]
  | acceptClient side' fd =>
      cases (Option.ite_none_right_eq_some.mp made).2
      exact Servers.acceptClient_server.1
  | startSrv msg ctl granted =>
      cases (Option.ite_none_right_eq_some.mp made).2
      change ((s.startSrv msg ctl granted).1.sockServ side).serverPort = _
      rw [Servers.startSrv_sockServ]
      unfold Servers.started
      rw [Servers.start_serverPort, Servers.start_serverPort]
  | opened fd =>
      cases (Option.ite_none_right_eq_some.mp made).2
      rfl
  | closed fd =>
      cases (Option.ite_none_right_eq_some.mp made).2
      rfl

theorem KeepsDescriptors.good (keeps : KeepsDescriptors st) (made : st.Of serversStep)
    (good : st.before.Good srvPort) : st.after.Good srvPort where
  serves := keeps.serves
  msgPort := (serversStep_serverPort made .msg).trans good.msgPort
  ctlPort := (serversStep_serverPort made .ctl).trans good.ctlPort

theorem keepsDescriptors_iff (made : st.Of serversStep) (good : st.before.Good srvPort) :
    KeepsDescriptors st ↔ ¬ LosesDescriptor srvPort st := by
  have ofStep := made
  obtain ⟨s, input, s', output⟩ := st
  change serversStep s input = some (s', output) at made
  change s.Good srvPort at good
  cases input with
  | start side replies =>
      obtain ⟨possible, made⟩ := Option.ite_none_right_eq_some.mp made
      cases made
      have loses : LosesDescriptor srvPort
          ⟨s, .start side replies, (s.start side replies).1, ⟨[], none⟩⟩ ↔
          Misses (s.sockServ side).serverPort replies := by
        cases side
        · rw [good.msgPort]
          rfl
        · rw [good.ctlPort]
          rfl
      rw [loses]
      constructor
      · exact fun keeps => (Servers.start_serves_iff possible).mp (keeps.serves side)
      · exact fun hits => ⟨(good.start possible hits).serves, nofun, nofun⟩
  | stop side =>
      cases made
      exact iff_of_true ⟨good.stop.1.serves, good.stop.2, nofun⟩ id
  | acceptClient side fd =>
      obtain ⟨grants, made⟩ := Option.ite_none_right_eq_some.mp made
      cases made
      exact iff_of_true ⟨fun _ => good.acceptClient_serves grants, nofun, nofun⟩ id
  | startSrv msg ctl granted =>
      obtain ⟨⟨first, second⟩, made⟩ := Option.ite_none_right_eq_some.mp made
      cases made
      have startSrv_iff := good.startSrv_iff granted first second
      constructor
      · exact fun keeps => startSrv_iff.mp (keeps.good ofStep good)
      · intro hits
        have after := startSrv_iff.mpr hits
        refine ⟨after.serves, nofun, fun fd threw => ?_⟩
        obtain ⟨side, rfl⟩ := Servers.startSrv_threw threw
        exact (after.serves side).imp_right And.left
  | opened fd =>
      obtain ⟨⟨-, closed⟩, made⟩ := Option.ite_none_right_eq_some.mp made
      cases made
      refine iff_of_true ⟨fun side => (good.serves side).of_eq fun set => ?_, nofun, nofun⟩ id
      have differs := (good.serves side).ne_of_closed closed set
      exact ⟨Function.update_of_ne differs .., rfl⟩
  | closed fd =>
      obtain ⟨silent, made⟩ := Option.ite_none_right_eq_some.mp made
      cases made
      refine iff_of_true ⟨fun side => (good.serves side).of_eq fun set => ?_, nofun, nofun⟩ id
      have differs := (good.serves side).ne_of_silent silent set
      exact ⟨Function.update_of_ne differs .., Function.update_of_ne differs ..⟩

end Steps

/-! ### Runs -/

theorem Servers.Good.new (srvPort : Int) (kernel : SocketKernel) :
    (Servers.new srvPort kernel).Good srvPort where
  serves
    | .msg => .inl rfl
    | .ctl => .inl rfl
  msgPort := rfl
  ctlPort := rfl

/-- The descriptors of the servers serve, in every state of exactly those runs in which no `start`
leaves one that does not. -/
theorem server_descriptors_iff {srvPort : Int} {kernel : SocketKernel} {made : List ServersStep}
    {s : Servers} (run : Machine.Run serversStep (.new srvPort kernel) made s) :
    (∀ st ∈ made, KeepsDescriptors st) ↔ ∀ st ∈ made, ¬ LosesDescriptor srvPort st :=
  run.each_iff (Servers.Good.new srvPort kernel) (fun _ made keeps good => keeps.good made good)
    fun _ => keepsDescriptors_iff

/-- No descriptor is open. -/
def SocketKernel.none : SocketKernel := ⟨⟨fun _ => false, fun _ => false⟩, fun _ => .none⟩

/-- Both servers start. -/
def startsBoth : ServersInput :=
  .startSrv ⟨5, 40000, 0, 0⟩ ⟨6, 40000, 0, 0⟩ fun _ => true

/-- The port of the first server is in use. -/
def startsSecond : ServersInput :=
  .startSrv ⟨5, 40000, -1, 0⟩ ⟨6, 40000, 0, 0⟩ fun _ => true

theorem server_descriptors_started : ∃ made s,
    Machine.Run serversStep (.new 9800 .none) made s ∧ (∀ st ∈ made, KeepsDescriptors st) ∧
      (s.sockServ .msg).serverFd = 5 ∧ (s.sockServ .ctl).serverFd = -1 := by
  have starts : serversStep (.new 9800 .none) startsBoth = some (_, ⟨[], none⟩) := rfl
  have run := (Machine.Run.start.step starts).step (rfl : serversStep _ (.stop .ctl) = some _)
  refine ⟨_, _, run, (server_descriptors_iff run).mpr fun st inside loses => ?_, rfl, rfl⟩
  rcases List.mem_append.mp inside with first | second
  · cases List.mem_singleton.mp first
    change Misses 9800 ⟨5, 40000, 0, 0⟩ ∨ Misses 9801 ⟨6, 40000, 0, 0⟩ at loses
    simp [Misses] at loses
  · cases List.mem_singleton.mp second
    exact loses

/-- The first `addSt` of `startSrv` throws for the descriptor that `start` has closed. -/
theorem server_descriptor_lost : ¬ ∀ (made : List ServersStep) (s : Servers),
    Machine.Run serversStep (.new 9800 .none) made s → ∀ st ∈ made, KeepsDescriptors st := by
  intro claim
  have starts : serversStep (.new 9800 .none) startsSecond = some (_, ⟨[], some 5⟩) := rfl
  have keeps := claim _ _ (Machine.Run.start.step starts) _
    (List.mem_append_right _ (List.mem_singleton_self _))
  exact absurd (keeps.registered 5 rfl) (by decide)

end Ppcom
