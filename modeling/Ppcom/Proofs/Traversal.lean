/-
Module: Ppcom.Proofs.Traversal
Purpose: Each function of `ppcom.cpp` leads from a state to another by steps of `Advance`, and where it
  is stopped by one last step of `Halt`. From it, a rule for the runs of `main` up to the end of `loop`.
Trusted boundary: none
Main exports: leads_loopTurn, leads_configurePort, RunRules, RunRules.startUp, RunRules.loop,
  RunRules.untilLeft
-/
import Ppcom.Proofs.Advances

namespace Ppcom

open Program

section Functions

variable {build : Build} {s₀ : Session}

/-- Where the queue is sound, all that a run leads to has it sound. -/
theorem Advances.ok {s s' : Session} (run : Advances build s s') (ok : s.ttyQ.Ok) : s'.ttyQ.Ok :=
  run.keeps Advance.ok ok

theorem Advances.constants {s s' : Session} (run : Advances build s s') : s'.constants = s.constants :=
  run.keeps (I := fun s' => s'.constants = s.constants) (fun step same => step.constants.trans same) rfl

theorem Advances.ctlfd {s s' : Session} (run : Advances build s s') : s'.ctlfd = s.ctlfd :=
  congrArg Constants.ctlfd run.constants

theorem Advances.watched {s s' : Session} (run : Advances build s s') (watched : s.Watched s.ctlfd) :
    s'.Watched s'.ctlfd := by
  have ttyFd : s'.ttyFd = s.ttyFd := congrArg Constants.ttyFd run.constants
  rwa [Session.Watched, run.ctlfd, ttyFd]

theorem Advances.watched_rdSet {s s' : Session} (run : Advances build s s') {fd : Int}
    (inside : fd ∈ s'.rdSet) : s.Watched fd := by
  have ttyFd : s'.ttyFd = s.ttyFd := congrArg Constants.ttyFd run.constants
  unfold Session.rdSet at inside
  rcases List.mem_append.mp inside with first | ctl
  · rcases List.mem_append.mp first with stdin | port
    · split at stdin
      · cases stdin
      · exact .inl (List.mem_singleton.mp stdin)
    · split at port
      · cases port
      · exact .inr (.inl ((List.mem_singleton.mp port).trans ttyFd))
  · split at ctl
    · next some => exact .inr (.inr (List.mem_singleton.mp ctl ▸ some))
    · cases ctl

theorem leads_step {f : Session → Session} (step : ∀ s, Advance build s (f s)) :
    Leads build s₀ (modify f : SessionM PUnit) :=
  .modify fun s run => run.tail (step s)

theorem leads_throw {α : Type} {stop : Stop} (inner : stop.Inner) :
    Leads build s₀ (throw stop : SessionM α) :=
  .throw fun s run => ⟨s, run, .here s inner⟩

theorem leads_pure {α : Type} (a : α) : Leads build s₀ (pure a) := .pure fun _ => id

theorem leads_fatal {α : Type} (message : String) : Leads build s₀ (fatal message : SessionM α) :=
  leads_throw trivial

/-- `if ( c ) fatal(..)`, with nothing after it. -/
theorem leads_fatalWhen {c : Prop} [Decidable c] {message : String} :
    Leads build s₀ (do if c then fatal message) := by
  split
  · exact leads_fatal _
  · exact leads_pure _

/-- `if ( c ) fatal(..)`, and what follows. -/
theorem leads_fatalIf {α : Type} {c : Prop} [Decidable c] {message : String} {f : PUnit → SessionM α}
    (rest : Leads build s₀ (f ⟨⟩)) :
    Leads build s₀ (if c then fatal message >>= f else f ⟨⟩) := by
  split
  · exact leads_throw trivial
  · exact rest

theorem leads_checkpoint : Leads build s₀ checkpoint := by
  unfold checkpoint
  refine .read fun s _ => ?_
  cases s.budget with
  | zero => exact leads_throw trivial
  | succ n => exact leads_step fun s => .observed s n

/-! ### Calls of the framework -/

@[simp] theorem TermM.after_discard {α : Type} (x : TermM α) (s : Sys) :
    TermM.after (discard x) s = x.after s := by
  unfold TermM.after
  cases ran : x.run s with
  | ok a s' => rw [run_discard_ok ran, final_ok, final_ok]
  | error e s' => rw [run_discard_error ran, final_error, final_error]

/-- A call that leaves the entry of its descriptor in the framework. -/
theorem leads_onTerm {α : Type} {fd : Int} {f : Answers → TermM α} (call : Call) (on : call.On fd)
    (same : ∀ answers sys, (f answers).after sys = (call.exec build.toPlatform answers).after sys) :
    Leads build s₀ (onTerm fd f) := by
  intro s run
  have next := run.tail (.called s on)
  rw [Session.called, ← same] at next
  exact next

theorem leads_setter {fd : Int} (setter : Setter) :
    Leads build s₀ (onTerm fd fun _ => setter.exec build.toPlatform fd) :=
  leads_onTerm (.setOne setter fd) rfl fun _ _ => rfl

theorem leads_query {fd : Int} (which : Query) :
    Leads build s₀ (onTerm fd fun answers => which.exec build.toPlatform answers.toReplies fd) :=
  leads_onTerm (.query which fd) rfl fun _ _ => rfl

/-- A getter. -/
theorem leads_getter {α : Type} {fd : Int} {f : Answers → TermM α} (which : Query)
    (same : ∀ answers, discard (f answers) = which.exec build.toPlatform answers.toReplies fd) :
    Leads build s₀ (onTerm fd f) :=
  leads_onTerm (.query which fd) rfl fun answers sys => by
    rw [Call.exec, ← same, TermM.after_discard]

theorem leads_applyTerm (fd : Int) (now : Bool) : Leads build s₀ (applyTerm fd now) := by
  unfold applyTerm
  refine .bind_get fun s run => .bind (Q := fun r s' =>
    r = (termApply (s.env.term fd).head.toReplies fd now).outcome s.sys ∧
      s' = s.called build.toPlatform fd (.apply fd now)) ?_ fun r => .assume fun is => ?_
  · rintro s' ⟨rfl, -⟩
    exact ⟨rfl, rfl⟩
  cases r with
  | ok _ =>
      refine .bind (.modify fun s' here => ?_) fun _ => leads_pure _
      subst here
      exact run.tail (.applied s is.symm)
  | error e =>
      refine .pure fun s' here => ?_
      subst here
      exact run.tail (.called s rfl)

/-! ### Commands -/

theorem leads_setTtyWriteSz (baud : Int) : Leads build s₀ (setTtyWriteSz baud) :=
  leads_step fun s => .writeSz s (le_max_right _ _)

theorem leads_showStatus : Leads build s₀ (showStatus build) := by
  unfold showStatus
  refine .read fun s _ => .bind (leads_onTerm (.refresh _) rfl fun _ _ => rfl).discard fun _ =>
    .bind (leads_getter .getBaudrate fun _ => rfl) fun _ =>
    .bind (leads_getter .getFlowcntrl fun _ => rfl) fun _ =>
    .bind (leads_getter .getParity fun _ => rfl) fun _ =>
    .bind (leads_getter .getDatabits fun _ => rfl) fun _ =>
    .bind (leads_getter .getStopbits fun _ => rfl) fun _ =>
    .bind (leads_getter .getMctl fun _ => rfl) fun r => ?_
  split
  · split <;> exact leads_pure _
  · exact leads_pure _

/-- A call on a modem line, and what it records where it succeeds. -/
theorem leads_line {α : Type} {fd : Int} {f : Answers → TermM α} {record : Session → Session}
    (call : Leads build s₀ (onTerm fd f)) (step : ∀ s, Advance build s (record s)) :
    Leads build s₀ (do
      let r ← onTerm fd f
      if succeeded r then MonadState.modifyGet fun s => (⟨⟩, record s)) := by
  refine .bind call fun r => ?_
  split
  · exact leads_step step
  · exact leads_pure _

theorem leads_cmdPulse : Leads build s₀ cmdPulse :=
  .read fun _ _ => leads_line (leads_query .pulseDtr) fun s => .lines s s.rtsUp true

theorem leads_cmdTogDtr : Leads build s₀ cmdTogDtr := by
  refine .read fun s _ => leads_line ?_ fun s => .lines s s.rtsUp !s.dtrUp
  cases s.dtrUp with
  | true => exact leads_query .lowerDtr
  | false => exact leads_query .raiseDtr

theorem leads_cmdTogRts : Leads build s₀ cmdTogRts := by
  refine .read fun s _ => leads_line ?_ fun s => .lines s (!s.rtsUp) s.dtrUp
  cases s.rtsUp with
  | true => exact leads_query .lowerRts
  | false => exact leads_query .raiseRts

theorem leads_runCmd : Leads build s₀ runCmd := by
  unfold runCmd
  refine .bind (Q := fun child s' => ∃ s, Advances build s₀ s ∧ s.env.child.head = child ∧
    s' = { s with env := { s.env with child := s.env.child.tail } })
    (fun s run => ⟨s, run, rfl, rfl⟩) fun child => ?_
  cases child with
  | none =>
      rintro s' ⟨s, run, -, rfl⟩
      exact run.tail (.unforked s)
  | some work =>
      refine .bind (Q := fun _ => Advances build s₀) (.modify ?_) fun _ =>
        (leads_applyTerm _ _).discard
      rintro s' ⟨s, run, is, rfl⟩
      exact run.tail (.forked s is)

theorem leads_discardQueue (ok : s₀.ttyQ.Ok) (setting : Setting) :
    Leads build s₀ (discardQueue setting) :=
  fun s run => run.tail (.discarded s (run.ok ok) setting)

theorem leads_changeSetting (ok : s₀.ttyQ.Ok) (setting : Setting) (setter : Setter) :
    Leads build s₀ (changeSetting setting fun fd => setter.exec build.toPlatform fd) :=
  .read fun _ _ => .bind (leads_setter setter).discard fun _ =>
    .bind (leads_discardQueue ok setting) fun _ => .bind (leads_query .flush).discard fun _ =>
    (leads_applyTerm _ _).discard

theorem leads_cmdBaud (ok : s₀.ttyQ.Ok) (baud : Int) : Leads build s₀ (cmdBaud build baud) :=
  .bind (leads_step fun s => .settings s baud s.opts.flow s.opts.parity s.opts.databits
    s.opts.stopbits) fun _ => .bind (leads_changeSetting ok .baud (.baudrate baud)) fun _ =>
    .read fun _ _ => .bind (leads_getter .getBaudrate fun _ => rfl) fun _ => leads_setTtyWriteSz _

theorem leads_cmdFlow (ok : s₀.ttyQ.Ok) : Leads build s₀ cmdFlow :=
  .read fun _ _ => .bind (leads_step fun s => .settings s s.opts.baud _ s.opts.parity
    s.opts.databits s.opts.stopbits) fun _ => leads_changeSetting ok .flow (.flowcntrl _)

theorem leads_cmdParity (ok : s₀.ttyQ.Ok) : Leads build s₀ cmdParity :=
  .read fun _ _ => .bind (leads_step fun s => .settings s s.opts.baud s.opts.flow _
    s.opts.databits s.opts.stopbits) fun _ => leads_changeSetting ok .parity (.parity _)

theorem leads_cmdBits (ok : s₀.ttyQ.Ok) : Leads build s₀ cmdBits :=
  .read fun _ _ => .bind (leads_step fun s => .settings s s.opts.baud s.opts.flow s.opts.parity
    _ s.opts.stopbits) fun _ => leads_changeSetting ok .databits (.databits _)

theorem leads_cmdStop (ok : s₀.ttyQ.Ok) : Leads build s₀ cmdStop :=
  .read fun _ _ => .bind (leads_step fun s => .settings s s.opts.baud s.opts.flow s.opts.parity
    s.opts.databits _) fun _ => leads_changeSetting ok .stopbits (.stopbits _)

theorem leads_prompt {α : Type} (read : Source → α × Source) (entry : α → Entry) :
    Leads build s₀ (prompt read entry) :=
  fun s run => run.tail (.entered s (read s.env.stdin).2 (entry (read s.env.stdin).1))

theorem leads_cmdTransfer (xfrCmd : List UInt8) : Leads build s₀ (cmdTransfer xfrCmd) := by
  unfold cmdTransfer
  split
  · exact leads_pure _
  · refine .bind (leads_prompt _ _) fun fname => ?_
    cases fname with
    | none => exact leads_pure _
    | some name => exact leads_runCmd

/-! ### Copies of the data -/

/-- What `writen_ni` writes. -/
theorem writenNi_triple (s : Session) (fd : Int) (buff : List UInt8) {E : Stop → Session → Prop} :
    Triple (fun s' => s' = s) (writenNi fd buff) (fun n s' => ∃ part put, part <+: buff ∧
      n = part.length ∧ s' = { s with
        env := { s.env with put := put }
        trace := s.trace ++ [.put fd part] }) E := by
  rintro s' rfl
  exact ⟨buff.take s'.env.put.head, s'.env.put.tail, List.take_prefix _ _, rfl, rfl⟩

/-- All the bytes are written, or the program ends. -/
theorem writeAll_triple (s : Session) (fd : Int) (buff : List UInt8) (message : String) :
    Triple (fun s' => s' = s) (writeAll fd buff message)
      (fun _ s' => ∃ put, s' = { s with
        env := { s.env with put := put }
        trace := s.trace ++ [.put fd buff] })
      (fun stop s' => stop = .fatal message ∧ ∃ part put, part <+: buff ∧ s' = { s with
        env := { s.env with put := put }
        trace := s.trace ++ [.put fd part] }) := by
  unfold writeAll
  refine .bind (writenNi_triple s fd buff) fun n => ?_
  rintro s' ⟨part, put, start, rfl, rfl⟩
  by_cases short : part.length < buff.length
  · rw [if_pos short]
    exact ⟨rfl, part, put, start, rfl⟩
  · rw [if_neg short]
    obtain rfl := start.eq_of_length (le_antisymm start.length_le (not_lt.mp short))
    exact ⟨put, rfl⟩

/-- The bytes are written to the message connection and to the log, or the program ends. -/
theorem forward_triple (s : Session) (buff : List UInt8) :
    Triple (fun s' => s' = s) (forward buff)
      (fun _ s' => ∃ sent put, s' = { s with
        env := { s.env with put := put }
        trace := s.trace ++ s.forwards buff sent })
      (fun stop s' => (∃ message, stop = .fatal message) ∧ ∃ put puts, s.ForwardsPart buff puts ∧
        s' = { s with
          env := { s.env with put := put }
          trace := s.trace ++ puts }) := by
  unfold forward
  refine .read fun s' here => ?_
  subst here
  let toMsg : PUnit → Session → Prop := fun _ s => ∃ sent put, s = { s' with
    env := { s'.env with put := put }
    trace := s'.trace ++ if 0 < s'.msgfd then [.put s'.msgfd sent] else [] }
  have log : Triple (toMsg ⟨⟩) (do
      if s'.opts.logFilename.isSome then writeAll s'.logFd buff "write to logfile failed: %s")
      (fun _ s => ∃ sent put, s = { s' with
        env := { s'.env with put := put }
        trace := s'.trace ++ s'.forwards buff sent })
      (fun stop s => (∃ message, stop = .fatal message) ∧ ∃ put puts, s'.ForwardsPart buff puts ∧
        s = { s' with
          env := { s'.env with put := put }
          trace := s'.trace ++ puts }) := by
    split
    · next named =>
      rintro s ⟨sent, put, rfl⟩
      refine (writeAll_triple _ s'.logFd buff _).weaken (fun _ => id) ?_ ?_ _ rfl
      · rintro _ _ ⟨put, rfl⟩
        exact ⟨sent, put, by simp [Session.forwards, named]⟩
      · rintro _ _ ⟨rfl, part, put, start, rfl⟩
        exact ⟨⟨_, rfl⟩, put, _, ⟨sent, part, start, rfl⟩, by simp [Session.forwards, named]⟩
    · next unnamed =>
      refine .pure ?_
      rintro s ⟨sent, put, rfl⟩
      exact ⟨sent, put, by simp [Session.forwards, unnamed]⟩
  dsimp only
  split
  · next connected =>
    refine .bind (Q := toMsg) ?_ fun _ => log
    refine .map (writenNi_triple s' s'.msgfd buff) ?_
    rintro _ _ ⟨part, put, -, -, rfl⟩
    exact ⟨part, put, by simp [connected]⟩
  · next unconnected =>
    refine log.pre ?_
    rintro s rfl
    exact ⟨[], s.env.put, by simp [unconnected]⟩

/-! ### The port -/

theorem leads_readPort : Leads build s₀ readPort := by
  refine .bind (Q := fun reply s' => ∃ s port, Advances build s₀ s ∧
    Source.read ttyRdSz s.env.port = (reply, port) ∧
    s' = { s with env := { s.env with port := port } })
    (fun s run => ⟨s, _, run, rfl, rfl⟩) fun reply => ?_
  have skip : ∀ s', (∃ s port, Advances build s₀ s ∧
      Source.read ttyRdSz s.env.port = (reply, port) ∧
      s' = { s with env := { s.env with port := port } }) → Advances build s₀ s' := by
    rintro s' ⟨s, port, run, -, rfl⟩
    exact run.tail (.skipped s s.env.stdin port s.env.ctl)
  cases reply with
  | zero | failed => exact (leads_fatal _).pre skip
  | again => exact (leads_pure _).pre skip
  | data first rest =>
      rintro _ ⟨s, port, run, read, rfl⟩
      -- what is shown is one step, from the read on
      let onPort : Session := { s with
        env := { s.env with port := port }
        trace := s.trace ++ [.port (first :: rest)] }
      have shown : Triple (fun s' => s' = onPort) (showInput (first :: rest))
          (fun _ => Advances build s₀) (Halted build s₀) := by
        unfold showInput
        refine .bind ((forward_triple onPort (first :: rest)).weaken (fun _ => id)
          (fun _ _ => id) ?_) fun _ => .read ?_
        · rintro _ _ ⟨⟨message, rfl⟩, put, puts, part, rfl⟩
          refine ⟨s, run, ?_⟩
          have last := @Halt.unforwarded s message _ _ _ _ put read part
          simpa [onPort] using last
        rintro _ ⟨sent, put, rfl⟩
        cases mapped : mapInput s.opts.imap (first :: rest) with
        | none =>
            refine .throw ?_
            rintro _ ⟨sent, put, rfl⟩
            have last := Halt.unmapped s sent put read mapped
            exact ⟨s, run, by simpa [onPort, Session.forwards] using last⟩
        | some image =>
            rintro _ ⟨sent, put, rfl⟩
            refine (writeAll_triple _ sto image _).weaken (fun _ => id) ?_ ?_ _ rfl
            · rintro _ _ ⟨put, rfl⟩
              have next := run.tail (.shown s sent put read mapped)
              simpa [onPort, Session.forwards] using next
            · rintro _ _ ⟨rfl, part, put, start, rfl⟩
              have last := @Halt.unshown s "write to stdout failed: %s" _ _ _ _ _ sent put read
                mapped start
              exact ⟨s, run, by simpa [onPort, Session.forwards] using last⟩
      exact shown _ rfl

/-! ### The queue -/

theorem leads_growQueue (ok : s₀.ttyQ.Ok) (n : Nat) : Leads build s₀ (growQueue build n) := by
  induction n with
  | zero => exact leads_pure _
  | succ n ih =>
      unfold growQueue
      refine .bind_get fun s run => ?_
      have valid := run.ok ok
      dsimp only
      split
      · exact (leads_pure _).pre fun _ => And.right
      split
      · exact (leads_pure _).pre fun _ => And.right
      refine .bind ((realloc_triple (P := fun s' => Advances build s₀ s' ∧ s'.ttyQ = s.ttyQ)
        (fun {s'} rest held => ⟨held.1.tail (.replied s' s'.env.sigExit s'.env.select s'.env.write
          s'.env.put rest), held.2⟩) _).pre fun s' here => ⟨here.2, by rw [here.1]⟩) fun fill => ?_
      cases fill with
      | none => exact .pure fun s' here => here.1.1
      | some fill =>
          refine .bind (.modify fun s' here => ?_) fun _ => ih
          obtain ⟨⟨run', same⟩, pos⟩ := here
          obtain ⟨double, atMost⟩ := toInt_double valid.atMost (pos rfl)
          have valid' : s'.ttyQ.Ok := same ▸ valid
          have larger : s'.ttyQ.sz ≤ (toInt (s.ttyQ.sz * 2)).toNat := by
            rw [same]
            omega
          exact run'.tail (.grew s' valid' (valid'.grow larger (by omega) fill)
            (TtyQ.contents_grow valid' _ fill))

theorem leads_pushByte (ok : s₀.ttyQ.Ok) (b : UInt8) : Leads build s₀ (pushByte build b) := by
  unfold pushByte
  refine .bind_get fun s run => ?_
  have grows := @growQueue_triple build (E := Halted build s₀)
    (P := fun s' => s'.ttyQ.Ok ∧ s'.opts.omap = s.opts.omap)
    (fun step held => ⟨step.ok held.1, (congrArg FixedOpts.omap step.fixed).trans held.2⟩)
    (fun held => held.1) (s.ttyQ.len + mMaxmap - s.ttyQ.sz)
  refine .bind (((leads_growQueue ok _).pre fun _ => And.right).and
    (grows.pre ?_) |>.weaken (fun _ => id) (fun _ _ => id) fun _ _ => And.left) fun room => ?_
  · rintro s' ⟨rfl, -⟩
    exact ⟨⟨run.ok ok, rfl⟩, le_rfl⟩
  cases room with
  | false => exact .pure fun s' => And.left
  | true =>
      dsimp only [if_true]
      rintro s₁ ⟨run₁, ⟨-, same⟩, enough⟩
      cases image : doMap s.opts.omap b with
      | none => exact ⟨s₁, run₁, .here s₁ trivial⟩
      | some bytes =>
          -- the byte and its echo are one step
          have pushed : ∀ echo put, (∀ e ∈ echo, ∃ buff, e = .put sto buff) →
              Advances build s₀ { s₁ with
                ttyQ := s₁.ttyQ.store bytes
                env := { s₁.env with put := put }
                trace := s₁.trace ++ .accept b :: echo } :=
            fun echo put echoed =>
              run₁.tail (.pushed s₁ (run₁.ok ok) put (same.symm ▸ image) (enough.mp rfl) echoed)
          have alone := pushed [] s₁.env.put (by simp)
          have echo : Triple (fun s' => s' = { s₁ with
                ttyQ := s₁.ttyQ.store bytes
                trace := s₁.trace ++ [.accept b] }) (do
              if s.opts.lecho then mapAndWrite sto s.opts.emap b
              return true) (fun _ => Advances build s₀) (Halted build s₀) := by
            split
            · refine .bind (Q := fun _ => Advances build s₀) ?_ fun _ => leads_pure _
              unfold mapAndWrite
              cases doMap s.opts.emap b with
              | none =>
                  rintro _ rfl
                  exact ⟨_, alone, .here _ trivial⟩
              | some buff =>
                  dsimp only
                  split
                  · refine (writeAll_triple _ sto buff _).weaken (fun _ => id) ?_ ?_
                    · rintro _ _ ⟨put, rfl⟩
                      simpa using pushed [.put sto buff] put (by simp)
                    · rintro _ _ ⟨rfl, part, put, -, rfl⟩
                      exact ⟨_, by simpa using pushed [.put sto part] put (by simp),
                        .here _ trivial⟩
                  · rintro _ rfl
                    exact alone
            · rintro _ rfl
              exact alone
          exact echo _ rfl

theorem leads_ttyQPush (ok : s₀.ttyQ.Ok) (bytes : List UInt8) :
    Leads build s₀ (ttyQPush build bytes) := by
  induction bytes with
  | nil => exact leads_pure _
  | cons b rest ih =>
      refine .bind leads_checkpoint fun _ => .bind (leads_pushByte ok b) fun stored => ?_
      cases stored with
      | false => exact leads_pure _
      | true => exact .bind ih fun _ => leads_pure _

theorem leads_writePort (ok : s₀.ttyQ.Ok) : Leads build s₀ writePort := by
  unfold writePort
  refine .bind leads_checkpoint fun _ => .bind_get fun s run => ?_
  refine .bind (Q := fun _ s' => ∃ rest, s' = { s with env := { s.env with write := rest } })
    (fun s' here => ⟨_, by rw [← here.1]⟩) fun reply => ?_
  dsimp only
  have start := s.ttyQ.taken_prefix s.ttyWriteSz reply
  generalize s.ttyQ.taken (s.ttyQ.request s.ttyWriteSz) reply = taken at start ⊢
  refine .bind (Q := fun _ s' => ∃ rest, s' = { s with
    env := { s.env with write := rest }
    trace := s.trace ++ [.write s.ttyQ.len (s.ttyQ.request s.ttyWriteSz) taken] })
    (.modify fun s' here => ?_) fun _ => ?_
  · obtain ⟨rest, rfl⟩ := here
    exact ⟨rest, rfl⟩
  split
  · next none =>
    refine .throw fun s' here => ?_
    obtain ⟨rest, rfl⟩ := here
    rw [List.eq_nil_of_length_eq_zero none]
    exact ⟨s, run, .unwritten s rest⟩
  next nonempty =>
  have some : taken ≠ [] := List.ne_nil_of_length_pos (Nat.pos_of_ne_zero nonempty)
  rintro _ ⟨rest, rfl⟩
  have written : ∀ sent put, Advances build s₀ { s with
      ttyQ := s.ttyQ.drop taken.length
      env := { s.env with write := rest, put := put }
      trace := s.trace ++ .write s.ttyQ.len (s.ttyQ.request s.ttyWriteSz) taken ::
        if s.opts.lecho then s.forwards taken sent else [] } :=
    fun sent put => run.tail (.wrote s (run.ok ok) sent rest put some start)
  have copies : Triple (fun s' => s' = { s with
        env := { s.env with write := rest }
        trace := s.trace ++ [.write s.ttyQ.len (s.ttyQ.request s.ttyWriteSz) taken] }) (do
      if s.opts.lecho then forward taken
      modify fun s => { s with ttyQ := s.ttyQ.drop taken.length })
      (fun _ => Advances build s₀) (Halted build s₀) := by
    split
    · next lecho =>
      refine .bind ((forward_triple _ taken).weaken (fun _ => id) (fun _ _ => id) ?_) fun _ =>
        .modify ?_
      · rintro _ _ ⟨⟨message, rfl⟩, put, puts, part, rfl⟩
        have last := @Halt.unechoed s message _ _ rest put lecho some start part
        exact ⟨s, run, by simpa using last⟩
      · rintro _ ⟨sent, put, rfl⟩
        simpa [Session.forwards, lecho] using written sent put
    · next silent =>
      refine .modify ?_
      rintro _ rfl
      simpa [silent] using written [] s.env.put
  exact copies _ rfl

/-! ### Standard input -/

theorem leads_exec (ok : s₀.ttyQ.Ok) (key : Key) : Leads build s₀ (key.exec build) := by
  cases key with
  | exit | help | keys => exact leads_pure _
  | quit => exact .bind (leads_step fun s => .noreset s) fun _ => leads_pure _
  | status => exact .bind leads_showStatus.discard fun _ => leads_pure _
  | pulse => exact .bind leads_cmdPulse fun _ => leads_pure _
  | togDtr => exact .bind leads_cmdTogDtr fun _ => leads_pure _
  | togRts => exact .bind leads_cmdTogRts fun _ => leads_pure _
  | baud =>
      refine .bind (leads_prompt _ _) fun newbaud => ?_
      split
      · exact leads_pure _
      · exact .bind (leads_cmdBaud ok _) fun _ => leads_pure _
  | baudUp | baudDn => exact .read fun _ _ => .bind (leads_cmdBaud ok _) fun _ => leads_pure _
  | flow => exact .bind (leads_cmdFlow ok) fun _ => leads_pure _
  | parity => exact .bind (leads_cmdParity ok) fun _ => leads_pure _
  | bits => exact .bind (leads_cmdBits ok) fun _ => leads_pure _
  | stop => exact .bind (leads_cmdStop ok) fun _ => leads_pure _
  | lecho => exact fun s run => run.tail (.lecho s)
  | send | receive =>
      exact .read fun _ _ => .bind (leads_cmdTransfer _) fun _ => leads_pure _
  | hex =>
      refine .bind (.bind (leads_prompt _ _) fun _ => (leads_ttyQPush ok _).discard) fun _ => ?_
      exact leads_pure _
  | brk => exact .read fun _ _ => .bind (leads_query .brk).discard fun _ => leads_pure _

theorem leads_doCommand (ok : s₀.ttyQ.Ok) (c : UInt8) : Leads build s₀ (doCommand build c) := by
  unfold doCommand
  cases Key.ofByte c with
  | none => exact leads_pure _
  | some key => exact leads_exec ok key

theorem leads_offerData (ok : s₀.ttyQ.Ok) (b : UInt8) : Leads build s₀ (offerData build b) :=
  .bind (leads_step fun s => .acted s _) fun _ => (leads_ttyQPush ok _).discard

theorem leads_processByte (ok : s₀.ttyQ.Ok) (b : UInt8) : Leads build s₀ (processByte build b) := by
  unfold processByte
  refine .bind leads_checkpoint fun _ => .read fun s _ => ?_
  cases s.state with
  | transparent =>
      dsimp only
      split
      · exact leads_step fun s => .machine s _
      · exact leads_offerData ok b
  | command =>
      dsimp only
      split
      · exact .bind (leads_offerData ok b) fun _ => leads_step fun s => .machine s _
      · refine .bind (leads_step fun s => .acted s _) fun _ =>
          .bind (leads_doCommand ok b) fun ends => ?_
        cases ends with
        | true => exact leads_throw trivial
        | false => exact leads_step fun s => .machine s _

theorem leads_readStdin (ok : s₀.ttyQ.Ok) : Leads build s₀ (readStdin build) := by
  refine .bind (Q := fun _ s' => ∃ s stdin, Advances build s₀ s ∧
    s' = { s with env := { s.env with stdin := stdin } }) (fun s run => ⟨s, _, run, rfl⟩)
    fun reply => ?_
  have skip : ∀ s', (∃ s stdin, Advances build s₀ s ∧
      s' = { s with env := { s.env with stdin := stdin } }) → Advances build s₀ s' := by
    rintro s' ⟨s, stdin, run, rfl⟩
    exact run.tail (.skipped s stdin s.env.port s.env.ctl)
  cases reply with
  | zero =>
      have close : Triple (fun s' => ∃ s stdin, Advances build s₀ s ∧
          s' = { s with env := { s.env with stdin := stdin } }) (do
            emit .eof
            modify fun s => { s with stdinClosed := true })
          (fun _ => Advances build s₀) (Halted build s₀) := by
        rintro _ ⟨s, stdin, run, rfl⟩
        exact run.tail (.closed s stdin)
      exact close
  | again => exact (leads_pure _).pre skip
  | failed => exact (leads_fatal _).pre skip
  | data first rest =>
      refine .bind (Q := fun _ => Advances build s₀) (.modify ?_) fun _ =>
        .forM _ fun b _ => leads_processByte ok b
      rintro _ ⟨s, stdin, run, rfl⟩
      exact run.tail (.typed s stdin (first :: rest))

/-! ### The control socket -/

theorem leads_ctlLoop (ok : s₀.ttyQ.Ok) (n : Nat) (bufStr : List UInt8) (i : Nat) :
    Leads build s₀ (ctlLoop build n bufStr i) := by
  induction n generalizing bufStr i with
  | zero => exact leads_pure _
  | succ n ih =>
      unfold ctlLoop
      split
      · exact .bind leads_checkpoint fun _ => .bind (leads_step fun s => .ctlByte s _) fun _ =>
          .bind (leads_ttyQPush ok _).discard fun _ => ih _ _
      · exact leads_pure _

theorem leads_readCtl (ok : s₀.ttyQ.Ok) (watched : s₀.Watched s₀.ctlfd) :
    Leads build s₀ (readCtl build) := by
  unfold readCtl
  refine .read fun s₁ run₁ => .bind (Q := fun _ s' => ∃ s ctl, Advances build s₀ s ∧
    s' = { s with env := { s.env with ctl := ctl } }) (fun s run => ⟨s, _, run, rfl⟩)
    fun reply => ?_
  cases reply with
  | zero | again | failed =>
      refine .pure ?_
      rintro _ ⟨s, ctl, run, rfl⟩
      exact run.tail (.skipped s s.env.stdin s.env.port ctl)
  | data first rest =>
      refine .bind (Q := fun _ => Advances build s₀) (.modify ?_) fun _ => leads_ctlLoop ok _ _ _
      rintro _ ⟨s, ctl, run, rfl⟩
      have fd : s₁.ctlfd = s.ctlfd := run₁.ctlfd.trans run.ctlfd.symm
      rw [fd]
      exact run.tail (.ctlRead s ctl (first :: rest) (run.watched watched))

/-! ### Turns -/

/-- `if ( FD_ISSET(..) )`, and what follows. -/
theorem leads_whenReady {c : Prop} [Decidable c] {part : SessionM Unit} {rest : SessionM Unit}
    (leads : Leads build s₀ part) (after : Leads build s₀ rest) :
    Leads build s₀ (if c then part >>= fun _ => rest else rest) := by
  split
  · exact .bind leads fun _ => after
  · exact after

theorem leads_serveReady (ok : s₀.ttyQ.Ok) {rdSet : List Int} (watched : ∀ fd ∈ rdSet, s₀.Watched fd)
    (wrSet : List Int) (rd wr : Int → Bool) : Leads build s₀ (serveReady build rdSet wrSet rd wr) := by
  unfold serveReady
  refine .read fun s run => leads_whenReady (leads_readStdin ok) <| leads_whenReady leads_readPort <|
    leads_whenReady (leads_writePort ok) ?_
  split
  · next isset =>
    have inside : s.ctlfd ∈ rdSet := List.contains_iff_mem.mp (Bool.and_eq_true_iff.mp isset).1
    exact leads_readCtl ok (run.ctlfd ▸ watched _ inside)
  · exact leads_pure _

theorem leads_leaveLoop : Leads build s₀ leaveLoop := by
  unfold leaveLoop
  refine .bind (Q := fun _ => Advances build s₀) (fun s run => run.tail (.replied s s.env.sigExit.tail
    s.env.select s.env.write s.env.put s.env.realloc)) fun sigExit => ?_
  refine .refuse (fun s run => ⟨s, run, .signal s⟩) <| .bind_get fun s run => ?_
  split
  · next leaves =>
    refine .throw ?_
    rintro s' ⟨rfl, -⟩
    exact ⟨s', run, .stdin s' leaves.1 leaves.2.1 leaves.2.2⟩
  · exact (leads_pure _).pre fun _ => And.right

theorem leads_loopTurn (ok : s₀.ttyQ.Ok) : Leads build s₀ (loopTurn build) := by
  refine .bind leads_checkpoint fun _ => .bind leads_leaveLoop fun _ => .bind_get fun s run => ?_
  refine .bind (Q := fun _ s' => s'.timed = s.timed ∧ Advances build s₀ s') ?_ fun reply => ?_
  · rintro s' ⟨rfl, -⟩
    exact ⟨rfl, run.tail (.replied s' s'.env.sigExit s'.env.select.tail s'.env.write s'.env.put
      s'.env.realloc)⟩
  cases reply with
  | eintr => exact (leads_pure _).pre fun _ => And.right
  | failed => exact (leads_fatal _).pre fun _ => And.right
  | timeout =>
      simp only [handleSelect]
      split
      · next timed => exact .throw fun s' here => ⟨s', here.2, .idle s' (here.1.trans timed)⟩
      · exact .throw fun s' here => ⟨s', here.2, .blocked s'⟩
  | ready rd wr =>
      have watched : ∀ fd ∈ s.rdSet, s₀.Watched fd := fun fd inside => run.watched_rdSet inside
      exact (leads_serveReady ok watched _ _ _).pre fun _ => And.right

theorem leads_loopTurns (ok : s₀.ttyQ.Ok) (n : Nat) : Leads build s₀ (loopTurns build n) := by
  induction n with
  | zero => exact leads_throw trivial
  | succ n ih => exact .bind (leads_loopTurn ok) fun _ => ih

/-! ### The start -/

theorem leads_setLine {lower raise : Bool} {name : String}
    {lowerLine raiseLine : Replies → Int → TermM Unit} {record : Bool → Session → Session}
    (lowers raises : Query)
    (isLower : ∀ fd replies, lowerLine replies fd = lowers.exec build.toPlatform replies fd)
    (isRaise : ∀ fd replies, raiseLine replies fd = raises.exec build.toPlatform replies fd)
    (step : ∀ up s, Advance build s (record up s)) :
    Leads build s₀ (setLine lower raise name lowerLine raiseLine record) := by
  unfold setLine
  refine .read fun s _ => ?_
  simp only [isLower, isRaise]
  split
  · exact .bind (leads_query lowers) fun _ => leads_fatalIf (leads_step (step false))
  split
  · exact .bind (leads_query raises) fun _ => leads_fatalIf (leads_step (step true))
  · exact leads_pure _

theorem leads_setDtrRts : Leads build s₀ setDtrRts := by
  unfold setDtrRts
  refine .read fun _ _ =>
    .bind (leads_setLine .lowerRts .raiseRts (fun _ _ => rfl) (fun _ _ => rfl)
      fun up s => .lines s up s.dtrUp) fun _ =>
    .bind (leads_setLine .lowerDtr .raiseDtr (fun _ _ => rfl) (fun _ _ => rfl)
      fun up s => .lines s s.rtsUp up) fun _ =>
    .read fun _ _ => .bind (leads_getter .getMctl fun _ => rfl) fun r => ?_
  split
  · split
    · exact leads_step fun s => .lines s _ _
    · exact leads_pure _
  · exact leads_pure _

theorem leads_configurePort : Leads build s₀ (configurePort build) := by
  unfold configurePort
  refine .bind leads_setDtrRts fun _ => .read fun _ _ => .bind (leads_applyTerm _ _) fun _ =>
    leads_fatalIf <| .bind leads_setDtrRts fun _ =>
    .bind (leads_getter .getBaudrate fun _ => rfl) fun _ =>
    .bind (leads_setTtyWriteSz _) fun _ => .read fun _ _ => ?_
  dsimp only
  split
  · exact leads_showStatus.discard
  · exact leads_pure _

theorem leads_addStdin : Leads build s₀ addStdin := by
  unfold addStdin
  refine .read fun s run => ?_
  have join : Leads build s₀ (onTerm sti fun answers => termAdd answers.toReplies sti) := by
    intro s run
    have next := run.tail (.joined s)
    simp only [Session.called, Call.exec, TermM.after_discard] at next
    exact next
  split
  · exact .bind join fun _ => leads_fatalIf <| .bind (leads_setter .raw).discard fun _ =>
      .bind (leads_applyTerm _ _) fun _ => leads_fatalWhen
  · exact leads_pure _

theorem leads_pushInitstring (ok : s₀.ttyQ.Ok) : Leads build s₀ (pushInitstring build) := by
  unfold pushInitstring
  refine .read fun s _ => ?_
  dsimp only
  cases s.opts.initstring with
  | none => exact leads_pure _
  | some initstring =>
      have freed : Leads build s₀ (modify fun s => { s with
          opts := { s.opts with initstring := none } } : SessionM PUnit) :=
        .modify fun s run => run.tail (.freed s (run.ok ok))
      dsimp only
      split
      · exact .bind (leads_ttyQPush ok _) fun _ => leads_fatalIf freed
      · exact freed

end Functions

/-! ### Runs -/

/-- The session once the files are open. -/
def Session.opened (s : Session) (sys : Sys) : Session :=
  { s with
    sys := sys
    logFd := if s.opts.logFilename.isSome then s.env.openLog else s.logFd
    ttyFd := s.env.openPort }

theorem openFiles_triple (s : Session) :
    Triple (fun s' => s' = s) openFiles
      (fun _ s' => 0 ≤ s.env.openPort ∧ (s.opts.logFilename.isSome → 0 ≤ s.env.openLog) ∧
        ∃ sys, s' = s.opened sys)
      (fun stop s' => ∃ message sys logFd ttyFd, stop = .fatal message ∧
        s' = { s with sys := sys, logFd := logFd, ttyFd := ttyFd }) := by
  let fails : Stop → Session → Prop := fun stop s' => ∃ message sys logFd ttyFd,
    stop = .fatal message ∧ s' = { s with sys := sys, logFd := logFd, ttyFd := ttyFd }
  let logged : Sys → Session := fun sys => { s with
    sys := sys
    logFd := if s.opts.logFilename.isSome then s.env.openLog else s.logFd }
  let named : Prop := s.opts.logFilename.isSome → 0 ≤ s.env.openLog
  have init : Triple (fun s' => s' = s) initFramework
      (fun _ s' => ∃ sys, s' = { s with sys := sys }) fails := by
    refine .getSet (R := fun s' => ∃ sys, s' = { s with sys := sys })
      (fun s' here => by
        subst here
        exact ⟨_, rfl⟩) fun s' => ?_
    split
    · exact .throw fun _ ⟨sys, is⟩ => ⟨_, sys, s.logFd, s.ttyFd, rfl, is⟩
    · exact .pure fun _ => id
  have log : Triple (fun s' => ∃ sys, s' = { s with sys := sys }) openLog
      (fun _ s' => named ∧ ∃ sys, s' = logged sys) fails := by
    unfold openLog
    refine .bind_get ?_
    rintro _ ⟨sys, rfl⟩
    split
    · next some =>
      refine .bind (Q := fun _ s' => s' = logged sys) ?_ fun _ => ?_
      · rintro _ ⟨rfl, -⟩
        simp only [logged, if_pos some]
        rfl
      dsimp only
      split
      · refine .throw ?_
        rintro _ rfl
        exact ⟨_, sys, _, _, rfl, rfl⟩
      · next valid => exact .pure fun _ is => ⟨fun _ => not_lt.mp valid, sys, is⟩
    · next none =>
      refine .pure ?_
      rintro _ ⟨rfl, -⟩
      exact ⟨fun some => absurd some none, sys, by simp only [logged, if_neg none]⟩
  have port : Triple (fun s' => named ∧ ∃ sys, s' = logged sys) openPort
      (fun _ s' => 0 ≤ s.env.openPort ∧ named ∧ ∃ sys, s' = s.opened sys) fails := by
    unfold openPort
    refine .bind_get ?_
    rintro _ ⟨valid, sys, rfl⟩
    refine .bind (Q := fun _ s' => s' = s.opened sys) ?_ fun _ => ?_
    · rintro _ ⟨rfl, -⟩
      rfl
    split
    · refine .throw ?_
      rintro _ rfl
      exact ⟨_, sys, _, _, rfl, rfl⟩
    · next open' => exact .pure fun _ is => ⟨not_lt.mp open', valid, sys, is⟩
  exact .bind init fun _ => .bind log fun _ => port

theorem addPort_triple (build : Build) (s : Session) :
    Triple (fun s' => s' = s) (addPort build)
      (fun _ s' => ∃ sys term, s' = { s with sys := sys, env := { s.env with term := term } })
      (fun stop s' => ∃ message sys term, stop = .fatal message ∧
        s' = { s with sys := sys, env := { s.env with term := term } }) := by
  unfold addPort
  refine .read ?_
  rintro s' rfl
  refine .bind (Q := fun _ s => ∃ sys term, s = { s' with
    sys := sys, env := { s'.env with term := term } }) ?_ fun r => ?_
  · rintro s rfl
    exact ⟨_, _, rfl⟩
  split
  · refine .throw ?_
    rintro s ⟨sys, term, is⟩
    exact ⟨_, sys, term, rfl, is⟩
  · exact .pure fun _ => id

/-- What it takes to keep an invariant from where the port is added to where `loop` is left, with `E`
for the runs that are stopped. -/
structure RunRules (build : Build) (I : Session → Prop) (E : Stop → Session → Prop) : Prop where
  step : ∀ {s s'}, Advance build s s' → I s → I s'
  halt : ∀ {stop s s'}, Halt stop s s' → I s → E stop s'
  empty : ∀ {s}, s.ttyQ = .static → I s →
    I { s with ttyQ := { sz := ttyQSzMin, len := 0, buff := List.replicate ttyQSzMin 0 } }
  enter : ∀ {s}, I s → I { s with
    state := .transparent
    stdinClosed := s.opts.exit
    msgfd := s.env.msgfd
    ctlfd := s.env.ctlfd }

namespace RunRules

variable {build : Build} {I : Session → Prop} {E : Stop → Session → Prop}
  (rules : RunRules build I E)

include rules

/-- The invariant until the queue is allocated. -/
theorem early : AdvanceRules build (fun s => s.ttyQ = .static ∧ I s) E where
  step next held := ⟨(next.static held.1).1, rules.step next held.2⟩
  halt last held := rules.halt last held.2

/-- The invariant from then on. -/
theorem late : AdvanceRules build (fun s => s.ttyQ.Ok ∧ I s) E where
  step next held := ⟨next.ok held.1, rules.step next held.2⟩
  halt last held := rules.halt last held.2

theorem startUp : Triple (fun s => s.ttyQ = .static ∧ I s) (startUp build)
    (fun _ s => s.ttyQ.Ok ∧ I s) E := by
  have alloc : Triple (fun s => s.ttyQ = .static ∧ I s) allocQueue
      (fun _ s => s.ttyQ.Ok ∧ I s) E := by
    unfold allocQueue
    refine .read fun s _ => ?_
    split
    · exact .throw fun s held => rules.early.halt (.here s trivial) held
    · exact .modify fun s held =>
        ⟨⟨by simp, by simp, le_rfl, by simp [ttyQSzMin]⟩, rules.empty held.1 held.2⟩
  exact .bind (rules.early.maintains fun _ _ => leads_configurePort) fun _ =>
    .bind (rules.early.maintains fun _ _ => leads_addStdin) fun _ => .bind alloc fun _ =>
    rules.late.maintains fun _ held => leads_pushInitstring held.1

/-- `loop` returns with what holds of the turn that has left it. -/
theorem loop : Triple (fun s => s.ttyQ.Ok ∧ I s) (loop build) (fun reason => E (.left reason)) E := by
  unfold Ppcom.loop
  have turns : ∀ n, Triple (fun s => s.ttyQ.Ok ∧ I s) (do
      loopTurns build n
      throw .observed) (fun reason => E (.left reason)) E := fun n =>
    .bind (rules.late.maintains fun _ held => leads_loopTurns held.1 n) fun _ =>
      .throw fun s held => rules.late.halt (.here s trivial) held
  refine .bind (.modify fun s held => ⟨held.1, rules.enter held.2⟩) fun _ => .read fun s _ =>
    .tryCatch (turns _) fun stop => ?_
  cases stop with
  | left reason => exact .pure fun _ => id
  | fatal | abort | blocked | observed => exact .throw fun _ => id

/-- The run of `main` until `loop` has returned. -/
theorem untilLeft {s : Session} (static : s.ttyQ = .static)
    (added : ∀ sys term, 0 ≤ s.env.openPort → (s.opts.logFilename.isSome → 0 ≤ s.env.openLog) →
      I { s.opened sys with env := { s.env with term := term } })
    (fails : ∀ message sys logFd ttyFd term,
      E (.fatal message) { s with
        sys := sys, logFd := logFd, ttyFd := ttyFd, env := { s.env with term := term } }) :
    Triple (fun s' => s' = s) (untilLeft build) (fun reason => E (.left reason)) E := by
  unfold Ppcom.untilLeft
  refine .bind ((openFiles_triple s).weaken (fun _ => id) (fun _ _ => id) ?_) fun _ => ?_
  · rintro _ _ ⟨message, sys, logFd, ttyFd, rfl, rfl⟩
    exact fails message sys logFd ttyFd s.env.term
  rintro _ ⟨port, log, sys, rfl⟩
  refine Triple.bind (Q := fun _ s => s.ttyQ = .static ∧ I s)
    ((addPort_triple build (s.opened sys)).weaken (fun _ => id) ?_ ?_) (fun _ => ?_) _ rfl
  · rintro _ _ ⟨sys, term, rfl⟩
    exact ⟨static, added sys term port log⟩
  · rintro _ _ ⟨message, sys, term, rfl, rfl⟩
    exact fails message sys _ _ term
  · exact .bind rules.startUp fun _ => rules.loop

end RunRules

end Ppcom
