/-
Module: Ppcom.Proofs.PortWrite
Purpose: When the write to the port is given an empty request: where the commands that were typed in
  the same turn leave the queue empty.
Trusted boundary: none
Main exports: drains, Session.drains, Filled, WritesSound, port_write_sound, port_write_of_nothing
-/
import Ppcom.Proofs.StartUp

namespace Ppcom

open Program

/-! ### Typing that empties the queue -/

/-- What the prompts of a command read, and whether the command leaves an `empty` queue, where the
queue may be empty before it. -/
def Key.drain (plat : Platform) (opts : FixedOpts) (src : Source) (empty : Bool) :
    Key → Source × Bool
  | .baud => ((readBaud plat src).2, if (readBaud plat src).1 < 0 then empty else true)
  | .baudUp | .baudDn | .flow | .parity | .bits | .stop => (src, true)
  | .hex => ((readHex hexbufSz src).2, (readHex hexbufSz src).1.isEmpty && empty)
  | .send => (if opts.sendCmd = [] then src else (readFilename src).2, empty)
  | .receive => (if opts.receiveCmd = [] then src else (readFilename src).2, empty)
  | _ => (src, empty)

/-- Whether the bytes of a read leave an empty queue. Only a byte that is sent fills it again, and the
commands that end the program leave the loop before the port is written to. -/
def drains (plat : Platform) (opts : FixedOpts) :
    LoopState → Source → Bool → List UInt8 → Bool
  | _, _, empty, [] => empty
  | .transparent, src, empty, b :: rest =>
      if !opts.noescape && b == opts.escape then drains plat opts .command src empty rest
      else drains plat opts .transparent src false rest
  | .command, src, empty, b :: rest =>
      if b = opts.escape then drains plat opts .transparent src false rest
      else
        match Key.ofByte b with
        | none => drains plat opts .transparent src empty rest
        | some .exit | some .quit => false
        | some key =>
            let left := key.drain plat opts src empty
            drains plat opts .transparent left.1 left.2 rest

/-- Whether in the next turn the port is written to, after standard input is read and what is read
leaves an empty queue. -/
def Session.drains (plat : Platform) (s : Session) : Bool :=
  match s.env.select.head with
  | .ready rd wr =>
      fdIsset s.wrSet wr s.ttyFd && fdIsset s.rdSet rd sti &&
        match Source.read stiRdSz s.env.stdin with
        | (.data first rest, src) => Ppcom.drains plat s.opts.fixed s.state src false (first :: rest)
        | _ => false
  | _ => false

/-! ### The writes of a run -/

/-- Every write to the port asked for a byte at least, and for no more than there were. -/
def WritesSound (trace : List Event) : Prop :=
  ∀ len sz taken, Event.write len sz taken ∈ trace → 1 ≤ sz ∧ sz ≤ len

/-- A run that ends because a write to the port failed has asked for a byte at least. -/
def WriteStop (stop : Stop) (s : Session) : Prop :=
  WritesSound s.trace ∧ (stop = .fatal portWriteFailed →
    ∃ len sz, s.trace.getLast? = some (.write len sz []) ∧ 1 ≤ sz)

theorem Frame.writesSound {events : Event → Prop} {s s' : Session} (frame : Frame events s s')
    (other : ∀ len sz taken, ¬ events (.write len sz taken)) (sound : WritesSound s.trace) :
    WritesSound s'.trace := by
  obtain ⟨new, trace, are⟩ := frame.trace
  intro len sz taken inside
  rw [trace, List.mem_append] at inside
  rcases inside with early | late
  · exact sound len sz taken early
  · exact absurd (are _ late) (other len sz taken)

theorem WritesSound.emit {s : Session} {e : Event} (sound : WritesSound s.trace)
    (other : ∀ len sz taken, e ≠ .write len sz taken) : WritesSound (s.trace ++ [e]) := by
  intro len sz taken inside
  rcases List.mem_append.mp inside with early | late
  · exact sound len sz taken early
  · exact absurd (List.mem_singleton.mp late).symm (other len sz taken)

/-- Whatever the queue holds, it is sound, and so were the writes. -/
structure Sound (s : Session) : Prop where
  ok : s.ttyQ.Ok
  writeSz : 8 ≤ s.ttyWriteSz
  writes : WritesSound s.trace

theorem Sound.quiet {s s' : Session} (sound : Sound s) (step : Quiet s s') : Sound s' where
  ok := step.ttyQ ▸ sound.ok
  writeSz := step.writeSz sound.writeSz
  writes := step.toFrame.writesSound (fun _ _ _ => id) sound.writes

theorem Sound.stop {s : Session} {stop : Stop} (sound : Sound s)
    (other : stop ≠ .fatal portWriteFailed) : WriteStop stop s :=
  ⟨sound.writes, fun is => absurd is other⟩

/-- The queue may be empty only if `empty` says so; `src` is what is left to read. -/
structure Filled (opts : FixedOpts) (state : LoopState) (src : Source) (empty : Bool) (s : Session) :
    Prop extends Sound s where
  fixed : s.opts.fixed = opts
  state : s.state = state
  stdin : s.env.stdin = src
  filled : empty = false → s.ttyQ.len ≠ 0

section Typing

variable {build : Build} {opts : FixedOpts} {state : LoopState} {src : Source} {empty : Bool}

theorem Filled.weaken {s : Session} (held : Filled opts state src false s) :
    Filled opts state src empty s :=
  { held with filled := fun _ => held.filled rfl }

theorem filled_rules : Rules (Filled opts state src empty) WriteStop where
  quiet step held := {
    toSound := held.toSound.quiet step
    fixed := step.fixed.trans held.fixed
    state := step.state.trans held.state
    stdin := step.stdin.trans held.stdin
    filled := fun not => step.ttyQ ▸ held.filled not }
  stop {e _} plain held := held.toSound.stop (by
    rintro rfl
    exact plain rfl)

theorem discard_triple (setting : Setting) :
    Triple (Filled opts state src empty) (discardQueue setting)
      (fun _ => Filled opts state src true) WriteStop := by
  refine .read fun _ _ => .bind (Q := fun _ => Filled opts state src empty)
    (.modify fun s held => { held with writes := held.writes.emit nofun }) fun _ =>
    .modify fun s held => { held with ok := held.ok.reset, filled := nofun }

theorem grown_filled {s s' : Session} (step : Grown s s') (held : Filled opts state src empty s) :
    Filled opts state src empty s' where
  ok := step.ok held.ok
  writeSz := step.writeSz held.writeSz
  writes := step.toFrame.writesSound (fun _ _ _ => id) held.writes
  fixed := step.fixed.trans held.fixed
  state := step.state.trans held.state
  stdin := step.stdin.trans held.stdin
  filled not := step.len ▸ held.filled not

/-- Once a byte was pushed the queue is not empty, even where there was no room for it. -/
theorem push_rules : PushRules (Filled opts state src empty) (Filled opts state src false) WriteStop where
  storing _ := {
    ok := fun held => held.ok
    grown := grown_filled
    store := by
      intro s image held mapped room
      have small := (doMap_image mapped).2
      exact { held with
        ok := held.ok.store (by omega)
        writes := held.writes.emit nofun
        filled := fun _ none => absurd none (by simp only [TtyQ.store]; omega) }
    rules := filled_rules
    omap := fun _ _ held => held.toSound.stop nofun
    emap := fun _ _ held => held.toSound.stop nofun }
  refused {s} held full := by
    refine { held with filled := fun _ none => ?_ }
    have least := held.ok.atLeast
    simp only [none, ttyQSzMin, mMaxmap] at full least
    omega

theorem push_triple (build : Build) (bytes : List UInt8) :
    Triple (Filled opts state src empty) (ttyQPush build bytes)
      (fun _ => Filled opts state src (bytes.isEmpty && empty)) WriteStop := by
  cases bytes with
  | nil => exact .pure fun s held => by simpa using held
  | cons b rest =>
      refine .bind filled_rules.checkpoint fun _ => .bind (push_rules.pushByte b) fun stored => ?_
      cases stored with
      | false => exact .pure fun _ => id
      | true => exact .bind (push_rules.ttyQPush rest) fun _ => .pure fun _ => id

theorem prompt_triple {α : Type} (read : Source → α × Source) (entry : α → Entry) :
    Triple (Filled opts state src empty) (prompt read entry)
      (fun answer s => answer = (read src).1 ∧ Filled opts state (read src).2 empty s) WriteStop := by
  intro s held
  obtain rfl := held.stdin
  exact ⟨rfl, { held with stdin := rfl, writes := held.writes.emit nofun }⟩

theorem settings_filled :
    SettingRules (Filled opts state src empty) (Filled opts state src true) WriteStop where
  before := filled_rules.toSteady
  after := filled_rules.toSteady
  discard := discard_triple

theorem transfer_triple (xfrCmd : List UInt8) :
    Triple (Filled opts state src empty) (cmdTransfer xfrCmd)
      (fun _ => Filled opts state (if xfrCmd = [] then src else (readFilename src).2) empty)
      WriteStop := by
  unfold cmdTransfer
  split
  · exact .pure fun _ => id
  · refine .bind (prompt_triple readFilename _) fun fname => ?_
    cases fname with
    | none => exact .pure fun _ => And.right
    | some name => exact filled_rules.runCmd.pre fun _ => And.right

/-- What a command makes of the queue and of what there is to read. -/
theorem exec_triple (key : Key) :
    Triple (Filled opts state src empty) (key.exec build)
      (fun _ => Filled opts state (key.drain build.toPlatform opts src empty).1
        (key.drain build.toPlatform opts src empty).2) WriteStop := by
  cases key with
  | baud =>
      refine .bind (prompt_triple _ _) fun newbaud => .assume ?_
      rintro rfl
      simp only [Key.drain]
      split
      · next failed => exact .pure fun _ => id
      · next value => exact .bind (settings_filled.cmdBaud build _) fun _ => .pure fun _ => id
  | send =>
      refine .read fun s held => ?_
      rw [show s.opts.sendCmd = opts.sendCmd from congrArg FixedOpts.sendCmd held.fixed]
      exact .bind (transfer_triple opts.sendCmd) fun _ => .pure fun _ => id
  | receive =>
      refine .read fun s held => ?_
      rw [show s.opts.receiveCmd = opts.receiveCmd from congrArg FixedOpts.receiveCmd held.fixed]
      exact .bind (transfer_triple opts.receiveCmd) fun _ => .pure fun _ => id
  | hex =>
      refine .bind (.bind (prompt_triple _ _) fun hexbuf => .assume ?_) fun _ => .pure fun _ => id
      rintro rfl
      exact (push_triple build _).map fun _ _ => id
  | baudUp | baudDn | flow | parity | bits | stop => exact settings_filled.exec trivial
  | _ => exact filled_rules.exec id id

theorem drains_key {plat : Platform} {b : UInt8} {key : Key} (data : b ≠ opts.escape)
    (is : Key.ofByte b = some key) (stays : ¬ (key = .exit ∨ key = .quit)) (rest : List UInt8) :
    drains plat opts .command src empty (b :: rest) =
      drains plat opts .transparent (key.drain plat opts src empty).1
        (key.drain plat opts src empty).2 rest := by
  rw [drains, if_neg data, is]
  cases key with
  | exit | quit => simp at stays
  | _ => rfl

/-- What is left to find out after a byte. -/
def Onward (plat : Platform) (opts : FixedOpts) (answer : List UInt8 → Bool) (s : Session) : Prop :=
  ∃ state src empty, Filled opts state src empty s ∧
    ∀ rest, answer rest = drains plat opts state src empty rest

theorem machine_triple {plat : Platform} {answer : List UInt8 → Bool} (next : LoopState)
    (same : ∀ rest, answer rest = drains plat opts next src empty rest) :
    Triple (Filled opts state src empty) (modify fun s => { s with state := next } : SessionM PUnit)
      (fun _ => Onward plat opts answer) WriteStop :=
  .modify fun _ held => ⟨next, src, empty, { held with state := rfl }, same⟩

theorem offerData_filled (build : Build) (b : UInt8) :
    Triple (Filled opts state src empty) (offerData build b)
      (fun _ => Filled opts state src false) WriteStop :=
  .bind (.modify fun _ held => { held with writes := held.writes.emit nofun }) fun _ =>
    (push_triple build [b]).map fun _ _ => id

theorem processByte_filled (b : UInt8) :
    Triple (Filled opts state src empty) (processByte build b)
      (fun _ => Onward build.toPlatform opts fun rest =>
        drains build.toPlatform opts state src empty (b :: rest)) WriteStop := by
  unfold processByte
  refine .bind filled_rules.checkpoint fun _ => .read fun s held => ?_
  rw [held.state, show s.opts.escape = opts.escape from congrArg FixedOpts.escape held.fixed,
    show s.opts.noescape = opts.noescape from congrArg FixedOpts.noescape held.fixed]
  cases state with
  | transparent =>
      dsimp only
      split
      · next escape => exact machine_triple .command fun rest => by rw [drains, if_pos escape]
      · next data =>
        refine (offerData_filled build b).weaken (fun _ => id) (fun _ s held => ?_) fun _ _ => id
        refine ⟨.transparent, src, false, held, fun rest => ?_⟩
        dsimp only
        rw [drains, if_neg data]
  | command =>
      dsimp only
      split
      · next escape =>
        exact .bind (offerData_filled build b) fun _ =>
          machine_triple .transparent fun rest => by rw [drains, if_pos escape]
      · next data =>
        refine .bind (Q := fun _ => Filled opts .command src empty)
          (.modify fun s held => { held with writes := held.writes.emit nofun }) fun _ => ?_
        unfold doCommand
        cases is : Key.ofByte b with
        | none =>
            refine .bind (Q := fun ends s => ends = false ∧ Filled opts .command src empty s)
              (.pure fun s held => ⟨rfl, held⟩) fun ends => .assume ?_
            rintro rfl
            exact machine_triple .transparent fun rest => by rw [drains, if_neg data, is]
        | some key =>
            refine .bind (((exec_ends build key).pre fun _ _ => trivial).and (exec_triple key)
              |>.weaken (fun _ => id) (fun _ _ => id) fun _ _ => And.right) fun ends => .assume ?_
            rintro rfl
            split
            · exact .throw fun s held => held.toSound.stop nofun
            · next stays =>
              exact machine_triple .transparent (drains_key data is (by simpa using stays))

theorem processBytes_filled (bytes : List UInt8) :
    Triple (Filled opts state src empty) (bytes.forM (processByte build))
      (fun _ s => Sound s ∧
        (drains build.toPlatform opts state src empty bytes = false → s.ttyQ.len ≠ 0)) WriteStop := by
  induction bytes generalizing state src empty with
  | nil => exact .pure fun s held => ⟨held.toSound, held.filled⟩
  | cons b rest ih =>
      refine .bind (processByte_filled b) fun _ s onward => ?_
      obtain ⟨state', src', empty', held, same⟩ := onward
      have onward := same rest
      dsimp only at onward
      rw [onward]
      exact ih s held

/-- What is read leaves bytes in the queue if there were some and it does not drain them. -/
theorem readStdin_filled :
    Triple (Filled opts state src empty) (readStdin build)
      (fun _ s => Sound s ∧ (empty = false →
        (∀ first rest src', Source.read stiRdSz src = (.data first rest, src') →
          drains build.toPlatform opts state src' false (first :: rest) = false) →
        s.ttyQ.len ≠ 0)) WriteStop := by
  refine .bind (Q := fun reply s => reply = (Source.read stiRdSz src).1 ∧
    Filled opts state (Source.read stiRdSz src).2 empty s) ?_ fun reply => .assume fun is => ?_
  · intro s held
    obtain rfl := held.stdin
    exact ⟨rfl, { held with stdin := rfl }⟩
  have kept : ∀ {s : Session}, Filled opts state (Source.read stiRdSz src).2 empty s →
      Sound s ∧ (empty = false → (∀ first rest src', Source.read stiRdSz src =
        (.data first rest, src') → drains build.toPlatform opts state src' false (first :: rest) =
          false) → s.ttyQ.len ≠ 0) :=
    fun held => ⟨held.toSound, fun some _ => held.filled some⟩
  cases reply with
  | zero =>
      exact .bind (filled_rules.emit trivial) fun _ => .modify fun s held => kept { held with }
  | again => exact .pure fun s held => kept held
  | failed => exact filled_rules.throwFatal _
  | data first rest =>
      refine .bind (Q := fun _ => Filled opts state (Source.read stiRdSz src).2 empty)
        (.modify fun s held => { held with writes := held.writes.emit nofun }) fun _ =>
        (processBytes_filled _).weaken (fun _ => id) (fun _ s held => ⟨held.1, ?_⟩) fun _ _ => id
      rintro rfl stays
      exact held.2 (stays first rest _ (Prod.ext is.symm rfl))

end Typing

/-! ### Turns -/

theorem Sound.toFilled {s : Session} (sound : Sound s) :
    Filled s.opts.fixed s.state s.env.stdin true s where
  toSound := sound
  fixed := rfl
  state := rfl
  stdin := rfl
  filled := nofun

theorem sound_rules : Rules Sound WriteStop where
  quiet step held := held.quiet step
  stop {e _} plain held := held.stop (by
    rintro rfl
    exact plain rfl)

/-- With bytes in the queue the request is neither empty nor too large. -/
theorem request_sound {q : TtyQ} {ttyWriteSz : Int} (some : q.len ≠ 0) (least : 8 ≤ ttyWriteSz) :
    1 ≤ q.request ttyWriteSz ∧ q.request ttyWriteSz ≤ q.len := by
  unfold TtyQ.request
  split <;> omega

theorem Sound.wrote {s : Session} (sound : Sound s) (some : s.ttyQ.len ≠ 0) (taken : List UInt8) :
    Sound (s.wrote taken) where
  ok := sound.ok
  writeSz := sound.writeSz
  writes := by
    intro len sz taken' inside
    rcases List.mem_append.mp inside with early | late
    · exact sound.writes len sz taken' early
    · obtain ⟨rfl, rfl, -⟩ := Event.write.inj (List.mem_singleton.mp late)
      exact request_sound some sound.writeSz

theorem writePort_sound :
    Triple (fun s => Sound s ∧ s.ttyQ.len ≠ 0) writePort (fun _ => Sound) WriteStop := by
  refine writePort_triple ?_ ?_ ?_ ?_
  · exact {
      quiet := fun step held => ⟨held.1.quiet step, step.ttyQ ▸ held.2⟩
      stop := fun plain held => sound_rules.stop plain held.1 }
  · intro s rest held
    refine ⟨(held.1.wrote held.2 []).writes, fun _ => ⟨_, _, List.getLast?_concat, ?_⟩⟩
    exact (request_sound held.2 held.1.writeSz).1
  · intro s s' taken message held other step
    exact ((held.1.wrote held.2 taken).quiet step).stop fun is => other (Stop.fatal.inj is)
  · intro s s' taken held _ start step
    have sound := (held.1.wrote held.2 taken).quiet step
    have queue : s'.ttyQ = s.ttyQ := step.ttyQ
    exact { sound with
      ok := sound.ok.drop (queue ▸ TtyQ.length_contents held.1.ok ▸ start.length_le) }

theorem readCtl_sound (build : Build) : Maintains Sound WriteStop (readCtl build) := by
  refine sound_rules.readCtl (fun _ _ => ?_) (fun _ => ?_) fun bytes s held => ?_
  · exact .modify fun _ held => { held with writes := held.writes.emit nofun }
  · exact .modify fun _ held => { held with writes := held.writes.emit nofun }
  · exact (push_triple build bytes).weaken (fun _ => id) (fun _ _ => Filled.toSound) (fun _ _ => id) s
      held.toFilled

/-- The part of a turn behind `select`, where the port is written to only with bytes in the queue. -/
theorem serveReady_sound (build : Build) {t : Session} {rd wr : Int → Bool}
    (safe : fdIsset t.wrSet wr t.ttyFd = true → fdIsset t.rdSet rd sti = true →
      ∀ first rest src, Source.read stiRdSz t.env.stdin = (.data first rest, src) →
        drains build.toPlatform t.opts.fixed t.state src false (first :: rest) = false) :
    Triple (fun s => Filled t.opts.fixed t.state t.env.stdin (t.ttyQ.len == 0) s ∧ s.ttyFd = t.ttyFd)
      (serveReady build t.rdSet t.wrSet rd wr) (fun _ => Sound) WriteStop := by
  unfold serveReady
  refine .read fun s₁ start => ?_
  rw [start.2]
  let some : Session → Prop := fun s =>
    Sound s ∧ (fdIsset t.wrSet wr t.ttyFd = true → s.ttyQ.len ≠ 0)
  have before : fdIsset t.wrSet wr t.ttyFd = true → (t.ttyQ.len == 0) = false := by
    unfold fdIsset Session.wrSet
    split
    · next none => exact fun _ => beq_eq_false_iff_ne.mpr none
    · simp
  have rules : Rules some WriteStop := {
    quiet := fun step held => ⟨held.1.quiet step, fun set => step.ttyQ ▸ held.2 set⟩
    stop := fun plain held => sound_rules.stop plain held.1 }
  have write : Triple some (do
      if fdIsset t.wrSet wr t.ttyFd then writePort
      if fdIsset t.rdSet rd s₁.ctlfd then readCtl build) (fun _ => Sound) WriteStop := by
    have ctl : Maintains Sound WriteStop (do if fdIsset t.rdSet rd s₁.ctlfd then readCtl build) := by
      split
      · exact readCtl_sound build
      · exact .pure fun _ => id
    dsimp only
    split
    · next set =>
      exact .bind (writePort_sound.pre fun s held => ⟨held.1, held.2 set⟩) fun _ => ctl
    · exact ctl.pre fun _ => And.left
  have port : Triple some (do
      if fdIsset t.rdSet rd t.ttyFd then readPort
      if fdIsset t.wrSet wr t.ttyFd then writePort
      if fdIsset t.rdSet rd s₁.ctlfd then readCtl build) (fun _ => Sound) WriteStop := by
    dsimp only
    split
    · exact .bind (rules.readPort fun _ _ held => held.1.stop nofun) fun _ => write
    · exact write
  dsimp only
  split
  · next ready =>
    refine .bind (readStdin_filled.weaken (fun s held => held.1) (fun _ s held => ?_)
      fun _ _ => id) fun _ => port
    exact ⟨held.1, fun set => held.2 (before set) (safe set ready)⟩
  · exact port.pre fun s held => ⟨held.1.toSound, fun set => held.1.filled (before set)⟩

/-- The state of a turn before `select`, where `t` is the one at its top. -/
def Session.beforeSelect (t s : Session) : Prop :=
  ∃ budget sigExit, s = { t with budget := budget, env := { t.env with sigExit := sigExit } }

theorem Sound.beforeSelect {t s : Session} (sound : Sound t) (same : t.beforeSelect s) : Sound s := by
  obtain ⟨budget, sigExit, rfl⟩ := same
  exact ⟨sound.ok, sound.writeSz, sound.writes⟩

theorem checkpoint_same {t : Session} (sound : Sound t) :
    Triple (fun s => s = t) checkpoint (fun _ => t.beforeSelect) WriteStop := by
  refine .bind_get fun s here => ?_
  cases s.budget with
  | zero =>
      refine .throw fun s' same => ?_
      rw [same.1, here]
      exact sound_rules.stop trivial sound
  | succ n =>
      refine .modify fun s' same => ?_
      rw [same.1, here]
      exact ⟨n, t.env.sigExit, rfl⟩

theorem leaveLoop_same {t : Session} (sound : Sound t) :
    Maintains t.beforeSelect WriteStop leaveLoop := by
  have next : Maintains t.beforeSelect WriteStop
      (nextReply Env.sigExit fun env rest => { env with sigExit := rest }) := by
    rintro s ⟨budget, sigExit, rfl⟩
    exact ⟨budget, sigExit.tail, rfl⟩
  have stop : ∀ {reason s}, t.beforeSelect s → WriteStop (.left reason) s :=
    fun same => (sound.beforeSelect same).stop nofun
  unfold leaveLoop
  refine .bind next fun sigExit => .refuse (fun _ => stop) <| .read fun s _ => ?_
  split
  · exact .throw fun _ => stop
  · exact .pure fun _ => id

/-- A turn whose typing does not drain the queue. -/
theorem loopTurn_sound (build : Build) {t : Session} (sound : Sound t)
    (safe : t.drains build.toPlatform = false) :
    Triple (fun s => s = t) (loopTurn build) (fun _ => Sound) WriteStop := by
  refine .bind (checkpoint_same sound) fun _ => .bind (leaveLoop_same sound) fun _ =>
    .bind_get fun s same => ?_
  obtain ⟨budget, sigExit, rfl⟩ := same
  let after : Session → Prop := fun s =>
    Filled t.opts.fixed t.state t.env.stdin (t.ttyQ.len == 0) s ∧ s.ttyFd = t.ttyFd
  refine .bind (Q := fun reply s => reply = t.env.select.head ∧ after s) ?_ fun reply =>
    .assume fun is => ?_
  · rintro s' ⟨rfl, -⟩
    exact ⟨rfl, ⟨⟨sound.ok, sound.writeSz, sound.writes⟩, rfl, rfl, rfl, beq_eq_false_iff_ne.mp⟩, rfl⟩
  unfold Session.drains at safe
  rw [← is] at safe
  cases reply with
  | eintr => exact .pure fun s held => held.1.toSound
  | failed => exact .throw fun s held => held.1.toSound.stop (by decide)
  | timeout =>
      simp only [handleSelect]
      split <;> exact .throw fun s held => held.1.toSound.stop (by decide)
  | ready rd wr =>
      apply serveReady_sound build
      intro set ready first rest src read
      dsimp only at safe
      rw [read] at safe
      simpa [set, ready] using safe

/-! ### Runs -/

/-- Before `loop` nothing is written to the port. -/
def Unwritten (s : Session) : Prop := WritesSound s.trace

theorem unwritten_rules : CallRules Unwritten fun _ _ => True where
  quiet step held := step.toFrame.writesSound (fun _ _ _ => id) held
  fatal _ _ := trivial

/-- The size of the requests is set when the port is configured. -/
theorem configurePort_sized (build : Build) :
    Triple Unwritten (configurePort build) (fun _ s => Unwritten s ∧ 8 ≤ s.ttyWriteSz)
      fun _ _ => True := by
  have rules := unwritten_rules
  have sized : Steady fun s => Unwritten s ∧ 8 ≤ s.ttyWriteSz :=
    ⟨fun step held => ⟨rules.quiet step held.1, step.writeSz held.2⟩⟩
  have size : ∀ baud, Triple Unwritten (setTtyWriteSz baud)
      (fun _ s => Unwritten s ∧ 8 ≤ s.ttyWriteSz) fun _ _ => True :=
    fun baud => .modify fun s held => ⟨held, le_max_right _ _⟩
  unfold configurePort
  refine .bind rules.setDtrRts fun _ => .read fun _ _ => .bind (rules.applyTerm _ _) fun _ =>
    rules.fatalIf fun _ => .bind rules.setDtrRts fun _ => .bind (rules.onTerm _ _) fun _ =>
    .bind (size _) fun _ => .read fun _ _ => ?_
  dsimp only
  split
  · exact (sized.showStatus build).discard
  · exact .pure fun _ => id

theorem upTo_zero_sound (build : Build) :
    Triple Unwritten (upTo build 0) (fun _ => Sound) fun _ _ => True := by
  have rules := unwritten_rules
  have sized : CallRules (fun s => Unwritten s ∧ 8 ≤ s.ttyWriteSz) fun _ _ => True :=
    ⟨⟨fun step held => ⟨rules.quiet step held.1, step.writeSz held.2⟩⟩, fun _ _ => trivial⟩
  have push : ∀ bytes, Maintains Sound (fun _ _ => True) (ttyQPush build bytes) := fun bytes s held =>
    (push_triple build bytes).weaken (fun _ => id) (fun _ _ => Filled.toSound) (fun _ _ _ => trivial) s
      held.toFilled
  have after : CallRules Sound fun _ _ => True := ⟨sound_rules.toSteady, fun _ _ => trivial⟩
  have alloc : Triple (fun s => Unwritten s ∧ 8 ≤ s.ttyWriteSz) allocQueue (fun _ => Sound)
      fun _ _ => True :=
    allocQueue_triple sized fun held =>
      ⟨⟨by simp, by simp, le_rfl, by simp [ttyQSzMin]⟩, held.2, held.1⟩
  have enter : Maintains Sound (fun _ _ => True) enterLoop := .modify fun s held => { held with }
  have start : Triple Unwritten (startUp build) (fun _ => Sound) fun _ _ => True :=
    .bind (configurePort_sized build) fun _ => .bind sized.addStdin fun _ => .bind alloc fun _ =>
      pushInitstring_triple after push
  exact .bind (rules.openFiles fun _ _ _ held => held) fun _ => .bind (rules.addPort build) fun _ =>
    .bind start fun _ => .bind enter fun _ => .pure fun _ => id

theorem upTo_succ (build : Build) (n : Nat) :
    upTo build (n + 1) = (do
      upTo build n
      loopTurn build) := by
  simp only [upTo, times, bind_assoc]

/-- The tops of turns of a run none of which has typing that drains the queue before a write. -/
theorem top_sound (build : Build) {start : Session} (unwritten : Unwritten start) {n : Nat}
    (safe : ∀ m < n, ∀ t, (upTo build m).run start = .ok ⟨⟩ t →
      t.drains build.toPlatform = false)
    {s : Session} (top : (upTo build n).run start = .ok ⟨⟩ s) : Sound s := by
  induction n generalizing s with
  | zero =>
      have reached := upTo_zero_sound build start unwritten
      rw [top] at reached
      exact reached
  | succ n ih =>
      rw [upTo_succ, EStateM.run_bind] at top
      cases before : (upTo build n).run start with
      | error e t => simp [before] at top
      | ok _ t =>
          rw [before] at top
          have sound := ih (fun m small => safe m (Nat.lt_succ_of_lt small)) before
          have turn := loopTurn_sound build sound (safe n (Nat.lt_succ_self n) t before) t rfl
          rw [show (loopTurn build).run t = .ok ⟨⟩ s from top] at turn
          exact turn

/-- In a run in which no turn has typing that leaves the queue empty before the port is written to,
every write to the port asks for a byte at least and for no more than there are; and where the run ends
because a write failed, that write asked for a byte at least. -/
theorem port_write_sound (build : Build) {opts : Opts} {world : World} {env : Env} {budget n : Nat}
    {s : Session} (top : (upTo build n).run (.start opts world env budget) = .ok ⟨⟩ s)
    (safe : ∀ m ≤ n, ∀ t, (upTo build m).run (.start opts world env budget) = .ok ⟨⟩ t →
      t.drains build.toPlatform = false) :
    WritesSound (final ((loopTurn build).run s)).trace ∧
    ∀ stop s', (loopTurn build).run s = .error stop s' → stop = .fatal portWriteFailed →
      ∃ len sz, s'.trace.getLast? = some (.write len sz []) ∧ 1 ≤ sz := by
  have unwritten : Unwritten (.start opts world env budget) := by
    intro len sz taken inside
    cases inside
  have sound := top_sound build unwritten (fun m small => safe m small.le) top
  have turn := loopTurn_sound build sound (safe n le_rfl s top) s rfl
  refine ⟨?_, fun stop s' ran => ?_⟩
  · cases ran : (loopTurn build).run s with
    | ok _ s' =>
        rw [ran] at turn
        exact turn.writes
    | error stop s' =>
        rw [ran] at turn
        exact turn.1
  · rw [ran] at turn
    exact turn.2

/-- A run in which `stdin` is to be read and the port can always be written to. -/
def typingRun (stdin : Source) (n : Nat) : EStateM.Result Stop Session PUnit :=
  (upTo .cmake n).run (.start { Opts.default with noinit := true, quiet := true } .fresh
    (.works stdin [] [] (fun fd => fd == sti) fun fd => fd == 3) 99)

/-- Two letters are typed, and nothing else. -/
theorem port_write_sound_typing :
    ∃ s, typingRun [.data 0x61 [0x62]] 1 = .ok ⟨⟩ s ∧
      WritesSound (final ((loopTurn .cmake).run s)).trace := by
  have held : (returned (typingRun [.data 0x61 [0x62]] 1)).isSome = true := by decide +kernel
  have quiet : ∀ m ≤ 1, (returned (typingRun [.data 0x61 [0x62]] m)).map
      (fun t => t.2.drains Build.cmake.toPlatform) = some false := by decide +kernel
  obtain ⟨⟨⟨⟩, s⟩, ret⟩ := Option.isSome_iff_exists.mp held
  refine ⟨s, eq_ok_of_returned ret, (port_write_sound .cmake (n := 1) (eq_ok_of_returned ret)
    fun m small t top => ?_).1⟩
  have one := quiet m small
  rw [typingRun, top] at one
  exact Option.some.inj one

/-- Two letters are typed, and the command that changes the flow control while they are in the queue:
the write of nothing ends the program. -/
theorem port_write_of_nothing :
    ∃ s, typingRun [.data 0x61 [0x62], .data 0x11 [0x66]] 2 = .error (.fatal portWriteFailed) s ∧
      .write 0 0 [] ∈ s.trace := by
  have held : (thrown (typingRun [.data 0x61 [0x62], .data 0x11 [0x66]] 2)).map
      (fun t => (t.1, decide (.write 0 0 [] ∈ t.2.trace))) =
      some (.fatal portWriteFailed, true) := by decide +kernel
  obtain ⟨⟨stop, s⟩, threw, same⟩ := Option.map_eq_some_iff.mp held
  obtain ⟨rfl, wrote⟩ := Prod.mk.inj same
  exact ⟨s, eq_error_of_thrown threw, of_decide_eq_true wrote⟩

end Ppcom
