/-
Module: Ppcom.Proofs.MapAssertions
Purpose: The assertion of `do_map` holds in every run exactly if none of the three maps ignores a
  character.
Trusted boundary: none
Main exports: mapInput_eq_none_iff, main_of_turn, asserts_iff, igncr_aborts
-/
import Mathlib
import Ppcom.Proofs.StartUp
import Ppcom.Spec.MapTable

namespace Ppcom

open Program

/-! ### Runs that keep the assertion -/

theorem mapInput_eq_none_iff (imap : Word) (bytes : List UInt8) :
    mapInput imap bytes = none ↔ ∃ b ∈ bytes, doMap imap b = none := by
  induction bytes with
  | nil => simp [mapInput]
  | cons b rest ih =>
      cases image : doMap imap b with
      | none => simp [mapInput, image]
      | some bytes =>
          cases images : mapInput imap rest with
          | none => simpa [mapInput, image, images] using ih
          | some later => simpa [mapInput, image, images] using ih

/-- The three maps of a run. -/
def Session.maps (s : Session) : Word × Word × Word := (s.opts.imap, s.opts.omap, s.opts.emap)

theorem Frame.maps {events : Event → Prop} {s s' : Session} (frame : Frame events s s') :
    s'.maps = s.maps :=
  congrArg (fun fixed : FixedOpts => (fixed.imap, fixed.omap, fixed.emap)) frame.fixed

/-- No assertion failed. -/
def Asserted (maps : Word × Word × Word) (stop : Stop) (s : Session) : Prop :=
  stop ≠ .abort ∧ s.maps = maps

section Sound

variable {imap omap emap : Word} (keepI : ¬ Ignores imap) (keepO : ¬ Ignores omap)
  (keepE : ¬ Ignores emap)

include keepO keepE

theorem blind_maps : BlindRules (fun s => s.maps = (imap, omap, emap)) (Asserted (imap, omap, emap)) where
  quiet step held := step.toFrame.maps.trans held
  stop {e _} plain held := ⟨by
    rintro rfl
    exact plain, held⟩
  fails held := ⟨nofun, held⟩
  inner step held := step.toFrame.maps.trans held
  omap {s _ b} held fails _ := by
    obtain ⟨-, is, -⟩ := Prod.mk.inj held |>.imp id Prod.mk.inj
    exact absurd ((ignores_iff _).mpr ⟨b, fails⟩) (is ▸ keepO)
  emap {s _ b} held fails _ := by
    obtain ⟨-, -, is⟩ := Prod.mk.inj held |>.imp id Prod.mk.inj
    exact absurd ((ignores_iff _).mpr ⟨b, fails⟩) (is ▸ keepE)

include keepI

theorem queue_maps (build : Build) :
    QueueRules build (fun s => s.maps = (imap, omap, emap)) (Asserted (imap, omap, emap)) where
  outer step held := step.toFrame.maps.trans held
  stop other held := ⟨other, held⟩
  discard := (blind_maps keepO keepE).discardQueue
  push := (blind_maps keepO keepE).ttyQPush build
  write := (blind_maps keepO keepE).writePort
  imap {s _ bytes} held fails _ := by
    obtain ⟨is, -, -⟩ := Prod.mk.inj held |>.imp id Prod.mk.inj
    obtain ⟨b, -, fails⟩ := (mapInput_eq_none_iff _ _).mp fails
    exact absurd ((ignores_iff _).mpr ⟨b, fails⟩) (is ▸ keepI)

theorem main_maps (build : Build) :
    MainRules build (fun s => s.maps = (imap, omap, emap)) (fun s => s.maps = (imap, omap, emap))
      (Asserted (imap, omap, emap)) where
  before := (blind_maps keepO keepE).toCallRules
  files _ _ _ held := held
  empty held := held
  push := (blind_maps keepO keepE).ttyQPush build
  turn := (queue_maps keepI keepO keepE build).toTurnRules
  enter := .modify fun _ => id
  left held := held.2

end Sound

/-! ### Runs that do not -/

theorem run_checkpoint {s : Session} {n : Nat} (budget : s.budget = n + 1) :
    checkpoint.run s = .ok ⟨⟩ { s with budget := n } := by
  simp [checkpoint, budget]

theorem run_readFd (sz : Nat) (source : Env → Source) (rest : Env → Source → Env) (s : Session) :
    (readFd sz source rest).run s =
      .ok (Source.read sz (source s.env)).1
        { s with env := rest s.env (Source.read sz (source s.env)).2 } :=
  rfl

theorem run_nextReply {α : Type} (stream : Env → Stream' α) (advance : Env → Stream' α → Env)
    (s : Session) :
    (nextReply stream advance).run s =
      .ok (stream s.env).head { s with env := advance s.env (stream s.env).tail } :=
  rfl

section Aborts

variable {build : Build} {s : Session} {b : UInt8} {n : Nat}

/-- A byte that `omap` ignores, or with local echo `emap`, cannot be pushed. -/
theorem pushByte_aborts (room : s.ttyQ.len + mMaxmap ≤ s.ttyQ.sz)
    (fails : doMap s.opts.omap b = none ∨ s.opts.lecho = true ∧ doMap s.opts.emap b = none) :
    Throws (pushByte build b) s .abort := by
  have grown : s.ttyQ.len + mMaxmap - s.ttyQ.sz = 0 := Nat.sub_eq_zero_of_le room
  unfold pushByte
  refine .get ?_
  rw [grown]
  refine .after (rfl : (growQueue build 0).run s = .ok true s) ?_
  cases image : doMap s.opts.omap b with
  | none => exact ⟨s, rfl⟩
  | some bytes =>
      obtain ⟨lecho, echo⟩ := fails.resolve_left (by simp [image])
      refine .after (a := ⟨⟩) rfl (.after (a := ⟨⟩) rfl ?_)
      rw [if_pos lecho]
      refine .bind ?_
      unfold mapAndWrite
      rw [echo]
      exact ⟨_, rfl⟩

theorem ttyQPush_aborts (budget : s.budget = n + 1) (room : s.ttyQ.len + mMaxmap ≤ s.ttyQ.sz)
    (fails : doMap s.opts.omap b = none ∨ s.opts.lecho = true ∧ doMap s.opts.emap b = none) :
    Throws (ttyQPush build [b]) s .abort :=
  .after (run_checkpoint budget) (.bind (pushByte_aborts room fails))

theorem readStdin_aborts (budget : s.budget = n + 2) (room : s.ttyQ.len + mMaxmap ≤ s.ttyQ.sz)
    (stdin : s.env.stdin = [.data b []]) (state : s.state = .transparent)
    (data : b ≠ s.opts.escape)
    (fails : doMap s.opts.omap b = none ∨ s.opts.lecho = true ∧ doMap s.opts.emap b = none) :
    Throws (readStdin build) s .abort := by
  unfold readStdin
  refine .after (run_readFd ..) ?_
  rw [stdin]
  refine .after (a := ⟨⟩) rfl (.bind ?_)
  unfold processByte
  refine .after (run_checkpoint budget) (.after rfl ?_)
  dsimp only
  rw [state]
  dsimp only
  rw [if_neg (by simp [data])]
  refine .after (a := ⟨⟩) rfl ?_
  exact .bind (ttyQPush_aborts (n := n) rfl room fails)

/-- Without a log nothing can go wrong with the copies. -/
theorem run_forward (log : s.opts.logFilename = none) (buff : List UInt8) :
    ∃ s', (forward buff).run s = .ok ⟨⟩ s' ∧ s'.opts = s.opts := by
  by_cases connected : 0 < s.msgfd
  · refine ⟨{ s with
      env := { s.env with put := s.env.put.tail }
      trace := s.trace ++ [.put s.msgfd (buff.take s.env.put.head)] }, ?_, rfl⟩
    simp [forward, connected, log]
    rfl
  · exact ⟨s, by simp [forward, connected, log], rfl⟩

theorem readPort_aborts (port : s.env.port = [.data b []]) (log : s.opts.logFilename = none)
    (fails : doMap s.opts.imap b = none) : Throws readPort s .abort := by
  unfold readPort
  refine .after (run_readFd ..) ?_
  rw [port]
  have nothing : mapInput s.opts.imap [b] = none :=
    (mapInput_eq_none_iff _ _).mpr ⟨b, by simp, fails⟩
  let read : Session :=
    { s with env := { s.env with port := [] }, trace := s.trace ++ [.port [b]] }
  have noLog : read.opts.logFilename = none := log
  obtain ⟨s', forwarded, opts⟩ := run_forward noLog [b]
  have opts : s'.opts = s.opts := opts
  refine .after (a := ⟨⟩) rfl (.after forwarded (.after rfl ?_))
  rw [opts, List.take_nil, nothing]
  exact ⟨_, rfl⟩

/-- A turn that does not leave `loop` does what `handleSelect` does, in the state in which the system
has replied. -/
theorem run_loopTurn (budget : s.budget = n + 1) (signal : s.env.sigExit.head = false)
    (stays : ¬ (s.ttyQ.len = 0 ∧ s.opts.exitAfter < 0 ∧ s.stdinClosed = true)) :
    (loopTurn build).run s =
      (handleSelect build
        { s with budget := n, env := { s.env with sigExit := s.env.sigExit.tail } }
        s.env.select.head).run
      { s with
        budget := n
        env := { s.env with sigExit := s.env.sigExit.tail, select := s.env.select.tail } } := by
  have leaves : leaveLoop.run { s with budget := n } =
      .ok ⟨⟩ { s with budget := n, env := { s.env with sigExit := s.env.sigExit.tail } } := by
    unfold leaveLoop
    rw [EStateM.run_bind, run_nextReply]
    simp [signal, stays]
  unfold loopTurn
  rw [EStateM.run_bind, run_checkpoint budget]
  simp only
  rw [EStateM.run_bind, leaves]
  rfl

theorem run_loopTurn_throws {e : Stop} (budget : s.budget = n + 1)
    (signal : s.env.sigExit.head = false)
    (stays : ¬ (s.ttyQ.len = 0 ∧ s.opts.exitAfter < 0 ∧ s.stdinClosed = true))
    (throws : Throws (handleSelect build
        { s with budget := n, env := { s.env with sigExit := s.env.sigExit.tail } }
        s.env.select.head)
      { s with
        budget := n
        env := { s.env with sigExit := s.env.sigExit.tail, select := s.env.select.tail } } e) :
    Throws (loopTurn build) s e := by
  obtain ⟨s', threw⟩ := throws
  exact ⟨s', (run_loopTurn budget signal stays).trans threw⟩

/-- A `main` that comes to `loop` aborts where its first turn does. -/
theorem main_of_turn {start : Session} (top : (upTo build 0).run start = .ok ⟨⟩ s)
    (aborts : Throws (loopTurn build) s .abort) : Throws (main build) start .abort := by
  obtain ⟨s', aborts⟩ := aborts
  refine ⟨s', ?_⟩
  have ran : (runMain build).run start = .error .abort s' := by
    unfold upTo at top
    unfold runMain loop
    simp only [EStateM.run_bind] at top ⊢
    cases files : openFiles.run start with
    | error => simp [files] at top
    | ok _ s₁ =>
        cases added : (addPort build).run s₁ with
        | error => simp [files, added] at top
        | ok _ s₂ =>
            cases started : (startUp build).run s₂ with
            | error => simp [files, added, started] at top
            | ok _ s₃ =>
                have entered : (enterLoop.run s₃ : EStateM.Result Stop Session Unit) = .ok ⟨⟩ s := by
                  simp only [files, added, started] at top
                  exact top
                have turns : (loopTurns build (s.budget + 1)).run s = .error .abort s' := by
                  unfold loopTurns
                  rw [EStateM.run_bind, aborts]
                simp only [added, started, entered, EStateM.run_get, run_tryCatch,
                  EStateM.run_bind, turns]
                rfl
  unfold main
  rw [EStateM.run_bind, run_tryCatch, ran]
  rfl

end Aborts

/-! ### The maps that are safe -/

/-- The options of a run with local echo and the three maps. -/
def Opts.mapping (imap omap emap : Word) : Opts :=
  { Opts.default with
    imap := imap, omap := omap, emap := emap, lecho := true, noinit := true, quiet := true }

/-- A system with one byte to read from standard input and from the port. -/
def Env.oneByte (b : UInt8) (rd : Int → Bool) : Env :=
  .works [.data b []] [.data b []] [] rd fun _ => false

/-- Such a run comes to `loop`. -/
theorem mapping_top (imap omap emap : Word) (b : UInt8) (rd : Int → Bool) :
    ∃ s, (upTo .cmake 0).run (.start (.mapping imap omap emap) .fresh (.oneByte b rd) 3) =
        .ok ⟨⟩ s ∧
      s.opts = .mapping imap omap emap ∧ s.budget = 3 ∧ s.state = .transparent ∧
      s.stdinClosed = false ∧ s.ttyFd = 3 ∧ s.ttyQ.len = 0 ∧ s.ttyQ.sz = 256 ∧
      s.env.sigExit = (Env.oneByte b rd).sigExit ∧ s.env.select = (Env.oneByte b rd).select ∧
      s.env.stdin = [.data b []] ∧ s.env.port = [.data b []] := by
  have held : (returned ((upTo .cmake 0).run
      (.start (.mapping imap omap emap) .fresh (.oneByte b rd) 3))).map (fun t =>
        (t.2.opts, t.2.budget, t.2.state, t.2.stdinClosed, t.2.ttyFd, t.2.ttyQ.len, t.2.ttyQ.sz,
          t.2.env.sigExit, t.2.env.select, t.2.env.stdin, t.2.env.port)) =
      some (.mapping imap omap emap, 3, .transparent, false, 3, 0, 256,
        (Env.oneByte b rd).sigExit, (Env.oneByte b rd).select, [.data b []], [.data b []]) := by
    cbv
  obtain ⟨⟨⟨⟩, s⟩, ret, same⟩ := Option.map_eq_some_iff.mp held
  simp only [Prod.mk.injEq] at same
  exact ⟨s, eq_ok_of_returned ret, same⟩

/-- Only a carriage return and a newline can be ignored. -/
theorem newline_of_ignored {map : Word} {b : UInt8} (fails : doMap map b = none) :
    b = 0x0d ∨ b = 0x0a := by
  rw [doMap_eq_none_iff, doMapBytes_eq_nil_iff] at fails
  exact fails.imp And.left And.left

section Fails

variable {imap omap emap : Word} {b : UInt8}

/-- The byte is typed. -/
theorem typed_aborts (fails : doMap omap b = none ∨ doMap emap b = none) :
    Throws (main .cmake) (.start (.mapping imap omap emap) .fresh
      (.oneByte b fun fd => fd == sti) 3) .abort := by
  obtain ⟨s, top, opts, budget, state, opened, fd, len, sz, signal, select, stdin, port⟩ :=
    mapping_top imap omap emap b fun fd => fd == sti
  apply main_of_turn top
  have data : b ≠ s.opts.escape := by
    rw [opts]
    change b ≠ Opts.default.escape
    rcases fails.elim newline_of_ignored newline_of_ignored with rfl | rfl <;> decide
  have read : Throws (readStdin .cmake) { s with
      budget := 2
      env := { s.env with sigExit := s.env.sigExit.tail, select := s.env.select.tail } } .abort :=
    readStdin_aborts (n := 0) rfl (by simp [len, sz, mMaxmap]) stdin state data
      (by simpa [opts, Opts.mapping] using fails)
  apply run_loopTurn_throws budget (by rw [signal]; rfl) (by simp [opened])
  have reply : s.env.select.head = .ready (fun fd => fd == sti) fun _ => false := by
    rw [select]
    rfl
  rw [reply]
  refine .after rfl ?_
  rw [if_pos (by simp [fdIsset, Session.rdSet, opened])]
  exact read.bind

/-- The byte comes from the port. -/
theorem received_aborts (fails : doMap imap b = none) :
    Throws (main .cmake) (.start (.mapping imap omap emap) .fresh
      (.oneByte b fun fd => fd == 3) 3) .abort := by
  obtain ⟨s, top, opts, budget, state, opened, fd, len, sz, signal, select, stdin, port⟩ :=
    mapping_top imap omap emap b fun fd => fd == 3
  apply main_of_turn top
  have read : Throws readPort { s with
      budget := 2
      env := { s.env with sigExit := s.env.sigExit.tail, select := s.env.select.tail } } .abort :=
    readPort_aborts port (by rw [opts]; rfl) (by rw [opts]; exact fails)
  apply run_loopTurn_throws budget (by rw [signal]; rfl) (by simp [opened])
  have reply : s.env.select.head = .ready (fun fd => fd == 3) fun _ => false := by
    rw [select]
    rfl
  rw [reply]
  refine .after rfl ?_
  rw [if_neg (by simp [fdIsset, sti]), if_pos (by
    simp [fdIsset, Session.rdSet, opts, fd, Opts.mapping, Opts.default])]
  exact read.bind

end Fails

/-- No run with the three maps, whatever it reads, fails an assertion exactly if none of the maps
ignores a character. -/
theorem asserts_iff (imap omap emap : Word) :
    (∀ (build : Build) (opts : Opts) (world : World) (env : Env) (budget : Nat) (s : Session),
      opts.imap = imap → opts.omap = omap → opts.emap = emap →
      (main build).run (.start opts world env budget) ≠ .error .abort s) ↔
    ¬ Ignores imap ∧ ¬ Ignores omap ∧ ¬ Ignores emap := by
  constructor
  · intro asserts
    have safe : ∀ env budget, ¬ Throws (main .cmake)
        (.start (.mapping imap omap emap) .fresh env budget) .abort :=
      fun env budget ⟨s, threw⟩ => asserts _ _ _ _ _ s rfl rfl rfl threw
    simp only [ignores_iff]
    refine ⟨?_, ?_, ?_⟩
    · rintro ⟨b, fails⟩
      exact safe _ _ (received_aborts fails)
    · rintro ⟨b, fails⟩
      exact safe _ _ (typed_aborts (.inl fails))
    · rintro ⟨b, fails⟩
      exact safe _ _ (typed_aborts (.inr fails))
  · rintro ⟨keepI, keepO, keepE⟩ build opts world env budget s rfl rfl rfl ran
    have result := main_triple (main_maps keepI keepO keepE build).runMain
      (.start opts world env budget) rfl
    rw [ran] at result
    exact result.2.1 rfl

/-- `--omap igncr` is accepted, and a carriage return typed ends the program. -/
theorem igncr_aborts :
    ∃ omap, parseMap (ascii "igncr") = some omap ∧
      ∃ s, (main .cmake).run (.start (.mapping mIDfl omap mEDfl) .fresh
        (.oneByte 0x0d fun fd => fd == sti) 3) = .error .abort s := by
  refine ⟨mIgncr, by decide, typed_aborts (.inl ?_)⟩
  decide

end Ppcom
