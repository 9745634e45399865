/-
Module: Ppcom.Proofs.SoleClient
Purpose: What the thread of the servers logs of the data that passes through it. The program connects to its
  own servers. As long as no other program does, a server has no other client, there is nobody to relay
  anything to, and no line with data is logged: `loop` writes to the message connection only.
Trusted boundary: none
Main exports: PpcomProcess.Alone, PpcomProcess.SoleClients, run_unlogged
-/
import Ppcom.Proofs.Process

namespace Ppcom

/-! ### The callback of the only client -/

section

variable {w : ServerThread} {side : Side} {fd : Int} {stack : List UInt8}

/-- The only client is itself left out. -/
theorem readClient_data_alone (alone : (w.server side).clientFds = [fd]) (m : Message) :
    w.readClient side fd stack (.data m) = (w, []) := by
  rw [readClient_data, alone]
  simp [broadcast]

/-- When it goes there is nobody left. -/
theorem readClient_drop_alone {got : ReadResult} (alone : (w.server side).clientFds = [fd])
    (nothing : got.message = none) :
    w.readClient side fd stack got =
      ({ w with
          server := Function.update w.server side ⟨[]⟩
          mepoll := { w.mepoll with
            callbacks := Function.update w.mepoll.callbacks fd none
            cbs := Function.update w.mepoll.cbs fd none }
          kernel := w.kernel.closes fd },
        [.close fd, .close fd, .epollRemove fd]) := by
  rw [readClient_drop (by simp [alone]) nothing, alone]
  simp [broadcast]

theorem logLines_drop {got : ReadResult} (nothing : got.message = none) :
    logLines side fd stack got [.close fd, .close fd, .epollRemove fd] = [] := by
  cases got with
  | data m => cases nothing
  | zero | failed => cases side <;> rfl

end

/-! ### The only clients -/

/-- The clients that the program is for a server. -/
def OwnEnd.clients : OwnEnd → List Int
  | .accepted fd => [fd]
  | _ => []

namespace PpcomProcess

/-- The program is the only client of each server. The servers listen on the descriptors they were given;
those are open until `mffwd.exit()`, and the ends of the program's connections are until then, too. -/
structure Alone (l : Launch) (p : PpcomProcess) (w : ServerThread) : Prop where
  clients (side : Side) : (w.server side).clientFds = (p.own side).clients
  reads (fd : Int) (side : Side) : w.mepoll.cbs fd = some (.reads side) ↔ p.own side = .accepted fd
  listens {fd : Int} {side : Side} : w.mepoll.cbs fd = some (.accepts side) →
    ∃ ears, l.ears = some ears ∧ fd = ears.fd side
  deaf : p.ffwdExited = true → ∀ ears, l.ears = some ears → ∀ side, w.kernel.opened (ears.fd side) = false
  opened : p.ffwdExited = false → ∀ side fd, p.own side = .accepted fd → w.kernel.opened fd = true

/-- The main thread has left `loop`. -/
def HasLeft (p : PpcomProcess) : Prop :=
  match p.main with
  | .leaving _ _ _ | .gone _ _ => True
  | _ => False

/-- This is so once there is the thread, and the program has a client only where it has connected. -/
structure SoleClients (l : Launch) (p : PpcomProcess) : Prop where
  sane : p.Sane
  begun : ∀ {w}, p.srvThrd = some w → p.Alone l w
  awaited : p.srvThrd = none → p.own = fun _ => .awaited
  connects : ∀ side, p.own side ≠ .awaited → (l.replies side).Connects
  starting : p.main = .starting → p.srvThrd = none
  exited : p.ffwdExited = true → p.HasLeft

variable {l : Launch} {p p' : PpcomProcess} {w w' : ServerThread} {fd client : Int} {later : List Int}
  {found : Found} {peer : Peer} {lines : List LogLine}

/-- Only what the program has for its own ends, and whether it has closed what it has, matters. -/
theorem Alone.congr (held : p.Alone l w) (own : p'.own = p.own) (exited : p'.ffwdExited = p.ffwdExited) :
    p'.Alone l w where
  clients side := own ▸ held.clients side
  reads fd side := own ▸ held.reads fd side
  listens := held.listens
  deaf is := held.deaf (exited ▸ is)
  opened is side fd accepted := held.opened (exited ▸ is) side fd (own ▸ accepted)

/-! ### The thread of the servers -/

/-- The program itself comes as a client. -/
theorem Alone.accept {side : Side} (held : p.Alone l w) (sane : w.kernel.Sane)
    (listens : w.mepoll.cbs fd = some (.accepts side)) (valid : 0 ≤ client)
    (free : w.kernel.opened client = false) (opened : w.kernel.opened fd = true)
    (awaited : p.own side = .awaited) (own : p'.own = Function.update p.own side (.accepted client))
    (exited : p'.ffwdExited = p.ffwdExited) : p'.Alone l (w.acceptClient side client).1 := by
  have unwatched : w.kernel.watched client = false := by
    cases watched : w.kernel.watched client with
    | false => rfl
    | true =>
        rw [sane client watched] at free
        cases free
  have hears : p.ffwdExited = false := by
    by_contra closed
    obtain ⟨ears, are, rfl⟩ := held.listens listens
    rw [held.deaf (Bool.eq_true_of_not_eq_false closed) ears are side] at opened
    cases opened
  -- no end of a connection has the number of the new client
  have new : ∀ other, p.own other ≠ .accepted client := by
    intro other accepted
    rw [held.opened hears other client accepted] at free
    cases free
  rw [acceptClient_new valid unwatched]
  refine ⟨fun other => ?_, fun n other => ?_, fun is => ?_, fun closed => ?_, fun _ other n accepted => ?_⟩
  · simp only [Function.update_apply, own]
    split
    · simp [held.clients, awaited, OwnEnd.clients]
    · exact held.clients other
  · simp only [Function.update_apply, own]
    by_cases here : n = client
    · subst here
      by_cases same : other = side
      · simp [same]
      · simp [same, Ne.symm same, new other]
    · by_cases same : other = side
      · subst same
        simp [here, Ne.symm here, held.reads, awaited]
      · simp [here, same, held.reads]
  · simp only [Function.update_apply] at is
    split at is
    · cases is
    · exact held.listens is
  · rw [exited, hears] at closed
    cases closed
  · simp only [EpollKernel.add, EpollKernel.opens, Function.update_apply]
    simp only [own, Function.update_apply] at accepted
    split at accepted
    · cases accepted
      rw [if_pos rfl]
    · rw [held.opened hears other n accepted, ite_self]

/-- The end of a connection of the program was dropped. -/
theorem Alone.drop {side : Side} {stack : List UInt8} {got : ReadResult} (held : p.Alone l w)
    (reads : w.mepoll.cbs fd = some (.reads side)) (nothing : got.message = none)
    (own : p'.own = Function.update p.own side .dropped) (exited : p'.ffwdExited = p.ffwdExited) :
    p'.Alone l (w.readClient side fd stack got).1 := by
  have accepted := (held.reads fd side).mp reads
  have alone : (w.server side).clientFds = [fd] := by rw [held.clients, accepted]; rfl
  -- it is the end of no other connection
  have one : ∀ other, other ≠ side → p.own other ≠ .accepted fd := by
    intro other differs again
    have same := reads.symm.trans ((held.reads fd other).mpr again)
    cases same
    exact differs rfl
  rw [readClient_drop_alone alone nothing]
  refine ⟨fun other => ?_, fun n other => ?_, fun is => ?_, fun closed ears are other => ?_,
    fun still other n accepted => ?_⟩
  · simp only [Function.update_apply, own]
    split
    · rfl
    · exact held.clients other
  · simp only [Function.update_apply, own]
    by_cases here : n = fd
    · subst here
      by_cases same : other = side
      · simp [same]
      · simp [same, one other same]
    · by_cases same : other = side
      · subst same
        simp [here, held.reads, accepted, Ne.symm here]
      · simp [here, same, held.reads]
  · simp only [Function.update_apply] at is
    split at is
    · cases is
    · exact held.listens is
  · simp only [EpollKernel.closes, Function.update_apply]
    rw [held.deaf (exited ▸ closed) ears are other, ite_self]
  · simp only [own, Function.update_apply] at accepted
    split at accepted
    · cases accepted
    · next differs =>
      have elsewhere : n ≠ fd := fun same => one other differs (same ▸ accepted)
      simp only [EpollKernel.closes, Function.update_of_ne elsewhere]
      exact held.opened (exited ▸ still) other n accepted

/-- `loop` writes nothing to the control connection. -/
def QuietControl (l : Launch) : Prop :=
  (l.replies .ctl).Connects → ∀ n, putTo l.ffwd.ctlfd (Program.final (l.run n)).trace = []

@[simp] theorem ffwdExited_accepted (p : PpcomProcess) (side : Side) (client : Int) (peer : Peer) :
    (p.accepted side client peer).ffwdExited = p.ffwdExited := by
  unfold accepted
  split <;> rfl

@[simp] theorem srvThrd_accepted (p : PpcomProcess) (side : Side) (client : Int) (peer : Peer) :
    (p.accepted side client peer).srvThrd = p.srvThrd := by
  unfold accepted
  split <;> rfl

/-- Where the end of a connection of the program finds something, it is not on the side of control. -/
theorem SoleClients.msg_of_data (sole : p.SoleClients l) (quiet : QuietControl l) {side : Side} {m : Message}
    (own : p.own side = .accepted fd) (reads : p.Reads l side fd (.data m)) : side = .msg := by
  cases side with
  | msg => rfl
  | ctl =>
      have connects := sole.connects .ctl (by rw [own]; exact nofun)
      have start : p.heard .ctl ++ m.bytes <+: putTo l.ffwd.ctlfd (p.reached l).trace := reads own
      rw [reached, quiet connects p.passed, List.prefix_nil, List.append_eq_nil_iff] at start
      exact absurd m.nonempty (by rw [start.2]; exact Nat.lt_irrefl 0)

theorem SoleClients.serves (serves : Serves l p w fd later found peer p' lines) (sole : p.SoleClients l)
    (quiet : QuietControl l) (thread : p.srvThrd = some w)
    (noGuest : ¬ (ProcessInput.attend found peer).Guest) : p'.SoleClients l ∧ lines = [] := by
  have held := sole.begun thread
  have sane := sole.sane w thread
  obtain ⟨main, -, w', thread', kernel⟩ := serves.quiet sane
  have known : p'.ffwdExited = p.ffwdExited → (∀ {w}, p'.srvThrd = some w → p'.Alone l w) →
      (∀ side, p'.own side ≠ .awaited → (l.replies side).Connects) → p'.SoleClients l := by
    intro same alone connects
    refine ⟨fun w is => ?_, alone, fun none => ?_, connects, fun starting => ?_, fun exited => ?_⟩
    · rw [thread'] at is
      cases is
      exact kernel
    · rw [thread'] at none
      cases none
    · rw [sole.starting (main ▸ starting)] at thread
      cases thread
    · have left := sole.exited (same ▸ exited)
      rwa [HasLeft, ← main] at left
  cases serves with
  | nobody =>
      refine ⟨known rfl (fun is => ?_) sole.connects, rfl⟩
      cases is
      exact held.congr rfl rfl
  | @accept entry side client peer handed possible accepts =>
      rcases possible with rfl | ⟨valid, free⟩
      · have same : (p.served l (w.acceptClient side (-1)).1 later (w.acceptClient side (-1)).2).accepted side (-1)
            peer = p.served l w later false := by simp [accepted, acceptClient_failed]
        rw [same] at known ⊢
        refine ⟨known rfl (fun is => ?_) sole.connects, rfl⟩
        cases is
        exact held.congr rfl rfl
      · have real : client ≠ -1 := by omega
        cases peer with
        | guest => exact absurd real noGuest
        | program =>
            obtain ⟨opened, own⟩ := accepts.resolve_left real
            obtain ⟨connects, -, awaited⟩ := own rfl
            have ends : ((p.served l (w.acceptClient side client).1 later (w.acceptClient side client).2).accepted
                side client .program).own = Function.update p.own side (.accepted client) := by
              simp [accepted, served, real]
            refine ⟨known (by simp [served]) (fun is => ?_) fun other connected => ?_, rfl⟩
            · rw [srvThrd_accepted] at is
              cases is
              exact held.accept sane (cbs_of_handed handed) valid free opened awaited ends (by simp [served])
            · rw [ends, Function.update_apply] at connected
              split at connected
              · next same => rw [same]; exact connects
              · exact sole.connects other connected
  | @read entry side stack got peer handed reads =>
      have registered := cbs_of_handed handed
      have own := (held.reads fd side).mp registered
      have alone : (w.server side).clientFds = [fd] := by rw [held.clients, own]; rfl
      cases found : got.message with
      | some m =>
          cases got with
          | data m =>
              cases sole.msg_of_data quiet own reads
              rw [readClient_data_alone alone] at known ⊢
              have ends : ((p.served l w later false).read .msg fd (.data m) []).own = p.own := by
                simp [PpcomProcess.read, served, ReadResult.message]
              refine ⟨known rfl (fun is => ?_) fun side connected => sole.connects side (ends ▸ connected), rfl⟩
              cases is
              exact held.congr ends rfl
          | zero | failed => cases found
      | none =>
          have ends : ((p.served l (w.readClient side fd stack got).1 later false).read side fd got
              (w.readClient side fd stack got).2).own = Function.update p.own side .dropped := by
            simp [PpcomProcess.read, served, own, found]
          refine ⟨known rfl (fun is => ?_) fun other connected => ?_, ?_⟩
          · cases is
            exact held.drop registered found ends rfl
          · apply sole.connects other
            rw [ends, Function.update_apply] at connected
            split at connected
            · next same => rw [same, own]; exact nofun
            · exact connected
          · rw [readClient_drop_alone alone found]
            exact logLines_drop found

/-! ### The main thread -/

theorem Alone.begun {ears : Ears} (are : l.ears = some ears) (ownfd : Side → Int)
    (awaited : p.own = fun _ => .awaited) (hears : p.ffwdExited = false) :
    p.Alone l (.begun ears ownfd) := by
  have none : ∀ side fd, p.own side ≠ .accepted fd := by
    intro side fd
    rw [awaited]
    exact nofun
  rw [begun_eq]
  refine ⟨fun side => ?_, fun fd side => ?_, fun {fd side} is => ?_, fun closed => ?_, fun _ side fd accepted => ?_⟩
  · rw [awaited]
    rfl
  · refine iff_of_false (fun is => ?_) (none side fd)
    simp only [Function.update_apply] at is
    split at is
    · cases is
    · split at is <;> cases is
  · simp only [Function.update_apply] at is
    split at is
    · next here =>
      cases is
      exact ⟨ears, are, here⟩
    · split at is
      · next here =>
        cases is
        exact ⟨ears, are, here⟩
      · cases is
  · rw [hears] at closed
    cases closed
  · exact absurd accepted (none side fd)

/-- `setup_socket` opens a descriptor. -/
theorem Alone.connect {side : Side} {next : MainThread} (held : p.Alone l w) (hears : p.ffwdExited = false)
    (is : (p.connect l side next).srvThrd = some w') (thread : p.srvThrd = some w) :
    (p.connect l side next).Alone l w' := by
  rw [PpcomProcess.connect, thread] at is
  cases is
  refine ⟨held.clients, held.reads, held.listens, fun closed => ?_, fun _ other fd accepted => ?_⟩
  · rw [show (p.connect l side next).ffwdExited = p.ffwdExited from rfl, hears] at closed
    cases closed
  · have opened := held.opened hears other fd accepted
    dsimp only
    split
    · simp only [EpollKernel.opens, Function.update_apply, opened, ite_self]
    · exact opened

theorem opened_closes (k : EpollKernel) (closing : List Int) (fd : Int) :
    (closing.foldl EpollKernel.closes k).opened fd = (k.opened fd && fd ∉ closing) := by
  induction closing generalizing k with
  | nil => simp
  | cons n rest ih =>
      rw [List.foldl_cons, ih]
      by_cases same : fd = n
      · simp [EpollKernel.closes, same]
      · simp [EpollKernel.closes, same]

theorem srvThrd_atServers (p : PpcomProcess) (step : EndStep) :
    (p.atServers l step).srvThrd = none ↔ p.srvThrd = none := by
  cases step with
  | exitFfwd => exact Option.map_eq_none_iff
  | _ => exact Iff.rfl

theorem own_atServers (p : PpcomProcess) (step : EndStep) : (p.atServers l step).own = p.own := by
  cases step <;> rfl

theorem Alone.atServers (held : p.Alone l w) {step : EndStep}
    (is : (p.atServers l step).srvThrd = some w') (thread : p.srvThrd = some w) :
    (p.atServers l step).Alone l w' := by
  cases step with
  | exitFfwd =>
      rw [PpcomProcess.atServers, thread] at is
      cases is
      refine ⟨held.clients, held.reads, held.listens, fun _ ears are side => ?_, nofun⟩
      rw [opened_closes]
      cases side <;> simp [are]
  | _ =>
      simp only [PpcomProcess.atServers] at is
      rw [thread] at is
      cases is
      exact held.congr rfl rfl

/-- The process goes on, and its connections stay as they are. -/
theorem SoleClients.goes (sole : p.SoleClients l) (thread : p'.srvThrd = p.srvThrd) (own : p'.own = p.own)
    (exited : p'.ffwdExited = p.ffwdExited) (starts : p'.main = .starting → p.main = .starting)
    (left : p.HasLeft → p'.HasLeft) : p'.SoleClients l where
  sane w is := sole.sane w (thread ▸ is)
  begun is := (sole.begun (thread ▸ is)).congr own exited
  awaited none := own.trans (sole.awaited (thread ▸ none))
  connects side := own ▸ sole.connects side
  starting is := thread.trans (sole.starting (starts is))
  exited is := left (sole.exited (exited ▸ is))

theorem SoleClients.leave (sole : p.SoleClients l) {result : EStateM.Result Stop Session LeReason}
    (left : p.leave result = some p') : p'.SoleClients l := by
  unfold PpcomProcess.leave at left
  split at left <;> cases left <;> exact sole.goes rfl rfl rfl nofun fun _ => trivial

/-- Before `loop` is left `mffwd.exit()` was not called. -/
theorem SoleClients.hears (sole : p.SoleClients l) (inside : ¬ p.HasLeft) : p.ffwdExited = false := by
  rw [Bool.eq_false_iff]
  exact fun exited => inside (sole.exited exited)

theorem Goes.soleClients (goes : Goes l p p') (sole : p.SoleClients l) : p'.SoleClients l := by
  have sane := goes.sane sole.sane
  cases goes with
  | starts place are =>
      have hears := sole.hears (by simp [HasLeft, place])
      refine ⟨sane, fun is => ?_, nofun, sole.connects, nofun, fun exited => ?_⟩
      · cases is
        exact (Alone.begun are _ (sole.awaited (sole.starting place)) hears).congr rfl rfl
      · rw [hears] at exited
        cases exited
  | @connects side next place on =>
      have hears := sole.hears (by simp [HasLeft, place])
      refine ⟨sane, fun is => ?_, fun is => ?_, sole.connects, fun is => ?_, fun exited => ?_⟩
      · obtain ⟨w, thread, -⟩ := Option.map_eq_some_iff.mp is
        exact (sole.begun thread).connect hears is thread
      · exact sole.awaited (Option.map_eq_none_iff.mp is)
      · change next = .starting at is
        rcases on with rfl | rfl <;> cases is
      · rw [show (p.connect l side next).ffwdExited = p.ffwdExited from rfl, hears] at exited
        cases exited
  | leaves passed left =>
      have next : PpcomProcess.SoleClients l { p with passed := passed } := sole.goes rfl rfl rfl id id
      exact next.leave left
  | @piece step todo s s' xcode place ran =>
      have own : (p.atServers l step).own = p.own := own_atServers p step
      refine ⟨sane, fun is => ?_, fun is => ?_, fun side connected => ?_, nofun, fun _ => trivial⟩
      · cases thread : p.srvThrd with
        | some w => exact ((sole.begun thread).atServers is thread).congr rfl rfl
        | none => cases ((srvThrd_atServers p step).mpr thread).symm.trans is
      · exact own.trans (sole.awaited ((srvThrd_atServers p step).mp is))
      · exact sole.connects side (own ▸ connected)
  | turns => exact sole.goes rfl rfl rfl id id
  | unserved | exits => exact sole.goes rfl rfl rfl nofun fun _ => trivial

theorem Makes.soleClients {input : ProcessInput} (makes : Makes l p input p' lines) (sole : p.SoleClients l)
    (quiet : QuietControl l) (noGuest : ¬ input.Guest) : p'.SoleClients l ∧ lines = [] := by
  cases makes with
  | main goes => exact ⟨goes.soleClients sole, rfl⟩
  | poll opened => exact ⟨sole.goes rfl rfl rfl id id, rfl⟩
  | report fds => exact ⟨sole.goes rfl rfl rfl id id, rfl⟩
  | attend thread waited serves => exact sole.serves serves quiet thread noGuest
  | aborts fails => exact ⟨sole.goes rfl rfl rfl nofun fun _ => trivial, rfl⟩

theorem soleClients_start (l : Launch) : PpcomProcess.SoleClients l .start :=
  ⟨nofun, nofun, fun _ => rfl, fun _ connected => absurd rfl connected, fun _ => rfl, nofun⟩

end PpcomProcess

/-- As long as no other program connects to the servers, their thread logs nothing that has data in it. -/
theorem run_unlogged {l : Launch} {made : List ProcessStep} {p : PpcomProcess} (run : ProcessRun l made p)
    (quiet : PpcomProcess.QuietControl l) (alone : ∀ st ∈ made, ¬ st.input.Guest) :
    ∀ st ∈ made, st.output = [] := by
  have steps := (run.guarded (I := PpcomProcess.SoleClients l) (G := fun st => ¬ st.input.Guest)
    (PpcomProcess.soleClients_start l)
    (fun st step guard held => ((PpcomProcess.step_makes step).soleClients held quiet guard).1) alone).2
  intro st inside
  obtain ⟨held, step⟩ := steps st inside
  exact ((PpcomProcess.step_makes step).soleClients held quiet (alone st inside)).2

end Ppcom
