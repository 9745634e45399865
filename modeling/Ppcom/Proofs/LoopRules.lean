/-
Module: Ppcom.Proofs.LoopRules
Purpose: From what the operations on the queue keep, what a command, a turn of `loop` and `loop`
  itself keep.
Trusted boundary: none
Main exports: SettingRules, CommandRules, KeyRules, KeyRules.doCommand, StdinRules,
  StdinRules.readStdin, TurnRules, TurnRules.loopTurn, QueueRules
-/
import Ppcom.Proofs.SessionFrames

namespace Ppcom

open Program

/-! ### Keys -/

/-- The keys whose commands ask for something. -/
def Key.Asks : Key → Prop
  | .baud | .send | .receive | .hex => True
  | _ => False

/-- The keys whose commands change a setting and ask for nothing. -/
def Key.Changes : Key → Prop
  | .baudUp | .baudDn | .flow | .parity | .bits | .stop => True
  | _ => False

/-! ### Settings -/

/-- What it takes that a command that changes a setting leads from `I` to `J`: that the reset of the
queue does. -/
structure SettingRules (I J : Session → Prop) (E : Stop → Session → Prop) : Prop where
  before : Steady I
  after : Steady J
  discard : ∀ setting, Triple I (discardQueue setting) (fun _ => J) E

namespace SettingRules

variable {I J : Session → Prop} {E : Stop → Session → Prop} (rules : SettingRules I J E)

include rules

theorem changeSetting (setting : Setting) (set : Int → TermM Unit) :
    Triple I (changeSetting setting set) (fun _ => J) E :=
  .read fun _ _ => .bind (rules.before.onTerm _ _).discard fun _ =>
    .bind (rules.discard setting) fun _ => .bind (rules.after.onTerm _ _).discard fun _ =>
    (rules.after.applyTerm _ _).discard

theorem cmdBaud (build : Build) (baud : Int) : Triple I (cmdBaud build baud) (fun _ => J) E :=
  .bind (rules.before.modify fun _ => .of rfl rfl rfl id rfl rfl rfl) fun _ =>
    .bind (rules.changeSetting _ _) fun _ => .read fun _ _ =>
    .bind (rules.after.onTerm _ _) fun _ => rules.after.setTtyWriteSz _

theorem cmdFlow : Triple I cmdFlow (fun _ => J) E :=
  .read fun _ _ => .bind (rules.before.modify fun _ => .of rfl rfl rfl id rfl rfl rfl) fun _ =>
    rules.changeSetting _ _

theorem cmdParity : Triple I cmdParity (fun _ => J) E :=
  .read fun _ _ => .bind (rules.before.modify fun _ => .of rfl rfl rfl id rfl rfl rfl) fun _ =>
    rules.changeSetting _ _

theorem cmdBits : Triple I cmdBits (fun _ => J) E :=
  .read fun _ _ => .bind (rules.before.modify fun _ => .of rfl rfl rfl id rfl rfl rfl) fun _ =>
    rules.changeSetting _ _

theorem cmdStop : Triple I cmdStop (fun _ => J) E :=
  .read fun _ _ => .bind (rules.before.modify fun _ => .of rfl rfl rfl id rfl rfl rfl) fun _ =>
    rules.changeSetting _ _

theorem exec {build : Build} {key : Key} (changes : key.Changes) :
    Triple I (key.exec build) (fun _ => J) E := by
  cases key with
  | baudUp | baudDn => exact .read fun _ _ => .bind (rules.cmdBaud build _) fun _ => .pure fun _ => id
  | flow => exact .bind rules.cmdFlow fun _ => .pure fun _ => id
  | parity => exact .bind rules.cmdParity fun _ => .pure fun _ => id
  | bits => exact .bind rules.cmdBits fun _ => .pure fun _ => id
  | stop => exact .bind rules.cmdStop fun _ => .pure fun _ => id
  | _ => exact changes.elim

end SettingRules

/-! ### Commands -/

/-- A command that neither asks for something nor changes a setting keeps an invariant. -/
theorem Rules.exec {build : Build} {I : Session → Prop} {E : Stop → Session → Prop}
    (rules : Rules I E) {key : Key} (silent : ¬ key.Asks) (keeps : ¬ key.Changes) :
    Maintains I E (key.exec build) := by
  cases key with
  | exit | help | keys => exact .pure fun _ => id
  | quit =>
      exact .bind (rules.modify fun _ => .of rfl rfl rfl id rfl rfl rfl) fun _ => .pure fun _ => id
  | status => exact .bind (rules.showStatus build).discard fun _ => .pure fun _ => id
  | pulse => exact .bind rules.cmdPulse fun _ => .pure fun _ => id
  | togDtr => exact .bind rules.cmdTogDtr fun _ => .pure fun _ => id
  | togRts => exact .bind rules.cmdTogRts fun _ => .pure fun _ => id
  | lecho =>
      exact .bind (rules.modify fun _ => .of rfl rfl rfl id rfl rfl rfl) fun _ => .read fun _ _ =>
        .bind (rules.emit trivial) fun _ => .pure fun _ => id
  | brk => exact .read fun _ _ => .bind (rules.onTerm _ _).discard fun _ => .pure fun _ => id
  | baud | send | receive | hex => exact absurd trivial silent
  | baudUp | baudDn | flow | parity | bits | stop => exact absurd trivial keeps

/-- What it takes that a command that asks for nothing keeps an invariant. -/
structure CommandRules (build : Build) (I : Session → Prop) (E : Stop → Session → Prop) : Prop
    extends Rules I E where
  discard : ∀ setting, Maintains I E (discardQueue setting)
  push : ∀ bytes, Maintains I E (ttyQPush build bytes)

namespace CommandRules

variable {build : Build} {I : Session → Prop} {E : Stop → Session → Prop}
  (rules : CommandRules build I E)

include rules

theorem settings : SettingRules I I E :=
  ⟨rules.toSteady, rules.toSteady, rules.discard⟩

theorem exec {key : Key} (silent : ¬ key.Asks) : Maintains I E (key.exec build) := by
  by_cases changes : key.Changes
  · exact rules.settings.exec changes
  · exact rules.toRules.exec silent changes

end CommandRules

/-- What it takes that a command keeps an invariant. -/
structure KeyRules (build : Build) (I : Session → Prop) (E : Stop → Session → Prop) : Prop
    extends CommandRules build I E where
  prompt : ∀ {α : Type} (read : Source → α × Source) (entry : α → Entry),
    Maintains I E (prompt read entry)

namespace KeyRules

variable {build : Build} {I : Session → Prop} {E : Stop → Session → Prop}
  (rules : KeyRules build I E)

include rules

theorem cmdTransfer (xfrCmd : List UInt8) : Maintains I E (cmdTransfer xfrCmd) := by
  unfold Ppcom.cmdTransfer
  split
  · exact .pure fun _ => id
  · refine .bind (rules.prompt _ _) fun fname => ?_
    cases fname with
    | none => exact .pure fun _ => id
    | some name => exact rules.runCmd

theorem cmdHex : Maintains I E (cmdHex build) :=
  .bind (rules.prompt _ _) fun _ => (rules.push _).discard

theorem exec (key : Key) : Maintains I E (key.exec build) := by
  cases key with
  | baud =>
      refine .bind (rules.prompt _ _) fun newbaud => ?_
      split
      · exact .pure fun _ => id
      · exact .bind (rules.settings.cmdBaud build _) fun _ => .pure fun _ => id
  | send | receive =>
      exact .read fun _ _ => .bind (rules.cmdTransfer _) fun _ => .pure fun _ => id
  | hex => exact .bind rules.cmdHex fun _ => .pure fun _ => id
  | _ => exact rules.toCommandRules.exec id

theorem doCommand (c : UInt8) : Maintains I E (doCommand build c) := by
  unfold Ppcom.doCommand
  cases Key.ofByte c with
  | none => exact .pure fun _ => id
  | some key => exact rules.exec key

end KeyRules

/-- Two commands end the program. -/
theorem exec_ends (build : Build) (key : Key) :
    Triple (fun _ => True) (key.exec build)
      (fun ends _ => ends = decide (key = .exit ∨ key = .quit)) fun _ _ => True := by
  cases key with
  | exit | help | keys => exact .pure fun _ _ => rfl
  | baud =>
      refine .bind (.any _) fun newbaud => ?_
      split
      · exact .pure fun _ _ => rfl
      · exact .bind (.any _) fun _ => .pure fun _ _ => rfl
  | baudUp | baudDn | send | receive | brk =>
      exact .read fun _ _ => .bind (.any _) fun _ => .pure fun _ _ => rfl
  | lecho =>
      exact .bind (.any _) fun _ => .read fun _ _ => .bind (.any _) fun _ => .pure fun _ _ => rfl
  | _ => exact .bind (.any _) fun _ => .pure fun _ _ => rfl

/-! ### Standard input -/

/-- What it takes moreover to keep an invariant that is not about standard input. -/
structure StdinRules (build : Build) (I : Session → Prop) (E : Stop → Session → Prop) : Prop
    extends KeyRules build I E where
  chunk : ∀ buff, Maintains I E (emit (.stdin buff))
  act : ∀ action, Maintains I E (emit (.act action))
  machine : ∀ state : LoopState, Maintains I E (modify fun s => { s with state := state })
  read : Maintains I E (readFd stiRdSz Env.stdin fun env src => { env with stdin := src })
  leave : ∀ {s}, I s → E (.left .cmd) s

namespace StdinRules

variable {build : Build} {I : Session → Prop} {E : Stop → Session → Prop}
  (rules : StdinRules build I E)

include rules

theorem offerData (b : UInt8) : Maintains I E (offerData build b) :=
  .bind (rules.act _) fun _ => (rules.push _).discard

theorem processByte (b : UInt8) : Maintains I E (processByte build b) := by
  unfold Ppcom.processByte
  refine .bind rules.checkpoint fun _ => .read fun s _ => ?_
  cases s.state with
  | transparent =>
      dsimp only
      split
      · exact rules.machine .command
      · exact rules.offerData b
  | command =>
      dsimp only
      split
      · exact .bind (rules.offerData b) fun _ => rules.machine .transparent
      · refine .bind (rules.act _) fun _ => .bind (rules.doCommand b) fun ends => ?_
        cases ends with
        | true => exact .throw fun _ => rules.leave
        | false => exact rules.machine .transparent

theorem readStdin : Maintains I E (readStdin build) := by
  refine .bind rules.read fun reply => ?_
  cases reply with
  | zero =>
      exact .bind (rules.emit trivial) fun _ =>
        rules.modify fun _ => .of rfl rfl rfl id rfl rfl rfl
  | again => exact .pure fun _ => id
  | failed => exact rules.throwFatal _
  | data first rest =>
      exact .bind (rules.chunk _) fun _ => .forM _ fun b _ => rules.processByte b

end StdinRules

/-! ### The port -/

section Port

variable {I : Session → Prop} {E : Stop → Session → Prop} (rules : CallRules I E)

include rules

theorem CallRules.showInput {buffRd : List UInt8}
    (imap : ∀ {s s'}, I s → mapInput s.opts.imap buffRd = none → I s' → E .abort s') :
    Maintains I E (showInput buffRd) := by
  refine .bind (rules.forward buffRd) fun _ => .read fun s start => ?_
  cases mapped : mapInput s.opts.imap buffRd with
  | none => exact .throw fun s' => imap start mapped
  | some buffMap => exact rules.writeAll _ _ _

theorem CallRules.readPort
    (imap : ∀ {s s' bytes}, I s → mapInput s.opts.imap bytes = none → I s' → E .abort s') :
    Maintains I E readPort := by
  have read : Maintains I E (readFd ttyRdSz Env.port fun env src => { env with port := src }) :=
    fun s start => rules.quiet (s := s) (.of rfl rfl rfl id rfl rfl rfl) start
  refine .bind read fun reply => ?_
  cases reply with
  | zero | failed => exact rules.throwFatal _
  | again => exact .pure fun _ => id
  | data first rest => exact .bind (rules.emit trivial) fun _ => rules.showInput imap

end Port

/-! ### The control socket -/

section Control

variable {build : Build} {I : Session → Prop} {E : Stop → Session → Prop} (rules : Rules I E)

include rules

theorem Rules.ctlLoop (byte : ∀ b, Maintains I E (emit (.ctlByte b)))
    (push : ∀ bytes, Maintains I E (ttyQPush build bytes)) (n : Nat) (bufStr : List UInt8) (i : Nat) :
    Maintains I E (ctlLoop build n bufStr i) := by
  induction n generalizing bufStr i with
  | zero => exact .pure fun _ => id
  | succ n ih =>
      unfold Ppcom.ctlLoop
      split
      · exact .bind rules.checkpoint fun _ => .bind (byte _) fun _ =>
          .bind (push _).discard fun _ => ih _ _
      · exact .pure fun _ => id

theorem Rules.readCtl (chunk : ∀ fd buff, Maintains I E (emit (.ctl fd buff)))
    (byte : ∀ b, Maintains I E (emit (.ctlByte b)))
    (push : ∀ bytes, Maintains I E (ttyQPush build bytes)) : Maintains I E (readCtl build) := by
  have read : Maintains I E
      (readFd (ctlBufSz - 1) Env.ctl fun env src => { env with ctl := src }) :=
    fun s start => rules.quiet (s := s) (.of rfl rfl rfl id rfl rfl rfl) start
  refine .read fun s _ => .bind read fun reply => ?_
  cases reply with
  | zero | again | failed => exact .pure fun _ => id
  | data first rest => exact .bind (chunk _ _) fun _ => rules.ctlLoop byte push _ _ _

end Control

/-! ### Turns -/

namespace Rules

variable {build : Build} {I : Session → Prop} {E : Stop → Session → Prop} (rules : Rules I E)

include rules

theorem leaveLoop : Maintains I E leaveLoop := by
  unfold Ppcom.leaveLoop
  refine .bind (rules.nextReply fun _ _ => rfl) fun sigExit =>
    .refuse (fun _ => rules.stop trivial) <| .read fun s _ => ?_
  split
  · exact .throw fun _ => rules.stop trivial
  · exact .pure fun _ => id

theorem handleSelect {s : Session} (reply : SelectReply)
    (serve : ∀ rd wr, Maintains I E (serveReady build s.rdSet s.wrSet rd wr)) :
    Maintains I E (handleSelect build s reply) := by
  cases reply with
  | eintr => exact .pure fun _ => id
  | failed => exact rules.throwFatal _
  | timeout =>
      simp only [Ppcom.handleSelect]
      split <;> exact .throw fun _ => rules.stop trivial
  | ready rd wr => exact serve rd wr

end Rules

/-- What it takes that `loop` keeps an invariant: each of its parts does. -/
structure TurnRules (build : Build) (I : Session → Prop) (E : Stop → Session → Prop) : Prop
    extends Rules I E where
  readStdin : Maintains I E (readStdin build)
  readPort : Maintains I E readPort
  writePort : Maintains I E writePort
  readCtl : Maintains I E (readCtl build)

namespace TurnRules

variable {build : Build} {I : Session → Prop} {E : Stop → Session → Prop}

/-- `if ( FD_ISSET(..) )`, and what follows. -/
theorem whenReady {c : Prop} [Decidable c] {part : SessionM Unit} {rest : SessionM Unit}
    (keeps : Maintains I E part) (after : Maintains I E rest) :
    Maintains I E (if c then part >>= fun _ => rest else rest) := by
  split
  · exact .bind keeps fun _ => after
  · exact after

variable (rules : TurnRules build I E)

include rules

theorem serveReady (rdSet wrSet : List Int) (rd wr : Int → Bool) :
    Maintains I E (serveReady build rdSet wrSet rd wr) := by
  unfold Ppcom.serveReady
  refine .read fun s _ => whenReady rules.readStdin <| whenReady rules.readPort <|
    whenReady rules.writePort ?_
  split
  · exact rules.readCtl
  · exact .pure fun _ => id

theorem loopTurn : Maintains I E (loopTurn build) :=
  .bind rules.checkpoint fun _ => .bind rules.leaveLoop fun _ => .read fun _ _ =>
    .bind (rules.nextReply fun _ _ => rfl) fun reply =>
    rules.handleSelect reply fun _ _ => rules.serveReady _ _ _ _

theorem loopTurns (n : Nat) : Maintains I E (loopTurns build n) := by
  induction n with
  | zero => exact .throw fun _ => rules.stop trivial
  | succ n ih => exact .bind rules.loopTurn fun _ => ih

end TurnRules

/-- A turn keeps an invariant that is about neither the queue nor the control socket, if the part that
reads standard input does. -/
theorem BlindRules.turn {build : Build} {I : Session → Prop} {E : Stop → Session → Prop}
    (blind : BlindRules I E) (abort : ∀ {s}, I s → E .abort s)
    (chunk : ∀ fd buff, Maintains I E (Ppcom.emit (.ctl fd buff)))
    (byte : ∀ b, Maintains I E (Ppcom.emit (.ctlByte b)))
    (readStdin : Maintains I E (readStdin build)) : TurnRules build I E where
  toRules := blind.toRules
  readStdin := readStdin
  readPort := blind.toRules.readPort fun _ _ => abort
  writePort := blind.writePort
  readCtl := blind.toRules.readCtl chunk byte (blind.ttyQPush build)

/-! ### Invariants of the queue -/

/-- What it takes to keep an invariant that is about the queue and its history alone. -/
structure QueueRules (build : Build) (I : Session → Prop) (E : Stop → Session → Prop) : Prop where
  outer : ∀ {s s'}, Outer s s' → I s → I s'
  stop : ∀ {e s}, e ≠ .abort → I s → E e s
  discard : ∀ setting, Maintains I E (discardQueue setting)
  push : ∀ bytes, Maintains I E (ttyQPush build bytes)
  write : Maintains I E writePort
  imap : ∀ {s s' bytes}, I s → mapInput s.opts.imap bytes = none → I s' → E .abort s'

namespace QueueRules

variable {build : Build} {I : Session → Prop} {E : Stop → Session → Prop}
  (rules : QueueRules build I E)

include rules

theorem toRules : Rules I E where
  quiet step := rules.outer step.outer
  stop {e _} plain := rules.stop (by
    rintro rfl
    exact plain)

theorem emit {e : Event} (other : ¬ e.Queue) : Maintains I E (emit e) :=
  .modify fun _ => rules.outer ⟨.one other rfl rfl id rfl, rfl⟩

theorem toStdinRules : StdinRules build I E where
  toRules := rules.toRules
  prompt _ _ := fun s start => rules.outer (s := s) ⟨.one id rfl rfl id rfl, rfl⟩ start
  discard := rules.discard
  push := rules.push
  chunk _ := rules.emit id
  act _ := rules.emit id
  machine _ := .modify fun s => rules.outer (s := s) ⟨.of rfl rfl id rfl, rfl⟩
  read := fun s start => rules.outer (s := s) ⟨.of rfl rfl id rfl, rfl⟩ start
  leave := rules.stop nofun

theorem toTurnRules : TurnRules build I E where
  toRules := rules.toRules
  readStdin := rules.toStdinRules.readStdin
  readPort := rules.toRules.readPort rules.imap
  writePort := rules.write
  readCtl := rules.toRules.readCtl (fun _ _ => rules.emit id) (fun _ => rules.emit id) rules.push

end QueueRules

end Ppcom
