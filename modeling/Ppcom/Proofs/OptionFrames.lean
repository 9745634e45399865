/-
Module: Ppcom.Proofs.OptionFrames
Purpose: Which parts of the commands leave the requested settings alone.
Trusted boundary: none
Main exports: SameRequest, SameRequest.changeSetting, SameRequest.ttyQPush, SameRequest.showStatus
-/
import Ppcom.Lib.Program
import Ppcom.Spec.Requested

namespace Ppcom

open Program

/-- The requested settings are the same. -/
def SameRequest (s s' : Session) : Prop := s'.opts.requested = s.opts.requested

instance : Std.Refl SameRequest where
  refl _ := rfl

instance : IsTrans Session SameRequest where
  trans _ _ _ first second := second.trans first

namespace SameRequest

variable {α : Type}

/-! ### Calls -/

theorem emit (e : Event) : Keeps SameRequest (emit e) := fun _ => rfl

theorem nextReply (stream : Env → Stream' α) (advance : Env → Stream' α → Env) :
    Keeps SameRequest (nextReply stream advance) := fun _ => rfl

theorem onTerm (fd : Int) (f : Answers → TermM α) : Keeps SameRequest (onTerm fd f) := fun _ => rfl

theorem prompt (read : Source → α × Source) (entry : α → Entry) :
    Keeps SameRequest (prompt read entry) := fun _ => rfl

theorem setTtyWriteSz (baud : Int) : Keeps SameRequest (setTtyWriteSz baud) := fun _ => rfl

theorem discardQueue (setting : Setting) : Keeps SameRequest (discardQueue setting) := fun _ => rfl

theorem applyTerm (fd : Int) (now : Bool) : Keeps SameRequest (applyTerm fd now) := by
  unfold Ppcom.applyTerm
  refine .bind .get fun s => .bind (onTerm _ _) fun r => ?_
  split
  · exact .bind (emit _) fun _ => .pure _
  · exact .pure _

theorem changeSetting (setting : Setting) (set : Int → TermM Unit) :
    Keeps SameRequest (changeSetting setting set) :=
  .bind .get fun _ => .bind (onTerm _ _).discard fun _ => .bind (discardQueue setting) fun _ =>
    .bind (onTerm _ _).discard fun _ => (applyTerm _ _).discard

theorem showStatus (build : Build) : Keeps SameRequest (showStatus build) := by
  unfold Ppcom.showStatus
  refine .bind .get fun s => .bind (onTerm _ _).discard fun _ => .bind (onTerm _ _) fun _ =>
    .bind (onTerm _ _) fun _ => .bind (onTerm _ _) fun _ => .bind (onTerm _ _) fun _ =>
    .bind (onTerm _ _) fun _ => .bind (onTerm _ _) fun r => ?_
  split
  · split <;> exact .pure _
  · exact .pure _

/-- A call on a modem line, and what it records where it succeeds. -/
theorem lineCall {fd : Int} {f : Answers → TermM α} {record : Session → Session}
    (keeps : ∀ s, SameRequest s (record s)) :
    Keeps SameRequest (do
      let r ← Ppcom.onTerm fd f
      if succeeded r then MonadState.modifyGet fun s => (⟨⟩, record s)) := by
  refine .bind (onTerm _ _) fun r => ?_
  split
  · exact .modify keeps
  · exact .pure _

theorem runCmd : Keeps SameRequest runCmd := by
  unfold Ppcom.runCmd
  refine .bind (nextReply _ _) fun child => ?_
  cases child with
  | none => exact .pure _
  | some work => exact .bind (.modify fun _ => rfl) fun _ => (applyTerm _ _).discard

/-! ### The queue -/

theorem writeAll (fd : Int) (buff : List UInt8) (message : String) :
    Keeps SameRequest (writeAll fd buff message) := by
  unfold Ppcom.writeAll Ppcom.writenNi
  refine .bind (.bind (nextReply _ _) fun _ => .bind (emit _) fun _ => .pure _) fun k => ?_
  split
  · exact .throw _
  · exact .pure _

theorem mapAndWrite (fd : Int) (map : Word) (b : UInt8) : Keeps SameRequest (mapAndWrite fd map b) := by
  unfold Ppcom.mapAndWrite
  cases doMap map b with
  | none => exact .throw _
  | some bytes =>
      dsimp only
      split
      · exact writeAll fd bytes _
      · exact .pure _

theorem checkpoint : Keeps SameRequest checkpoint := by
  unfold Ppcom.checkpoint
  refine .bind .get fun s => ?_
  cases s.budget with
  | zero => exact .throw _
  | succ n => exact .modify fun _ => rfl

theorem growQueue (build : Build) (n : Nat) : Keeps SameRequest (growQueue build n) := by
  induction n with
  | zero => exact .pure _
  | succ n ih =>
      unfold Ppcom.growQueue
      refine .bind .get fun s => ?_
      dsimp only
      split
      · exact .pure _
      split
      · exact .pure _
      refine .bind (.bind (nextReply _ _) fun _ => .pure _) fun reply => ?_
      cases reply with
      | none => exact .pure _
      | some fill => exact .bind (.modify fun _ => rfl) fun _ => ih

theorem pushByte (build : Build) (b : UInt8) : Keeps SameRequest (pushByte build b) := by
  unfold Ppcom.pushByte
  refine .bind .get fun s => .bind (growQueue _ _) fun room => ?_
  cases room with
  | false => exact .pure _
  | true =>
      dsimp only [if_true]
      cases doMap s.opts.omap b with
      | none => exact .throw _
      | some bytes =>
          refine .bind (.modify fun _ => rfl) fun _ => .bind (emit _) fun _ => ?_
          split
          · exact .bind (mapAndWrite _ _ _) fun _ => .pure _
          · exact .pure _

theorem ttyQPush (build : Build) (bytes : List UInt8) : Keeps SameRequest (ttyQPush build bytes) := by
  induction bytes with
  | nil => exact .pure _
  | cons b rest ih =>
      refine .bind checkpoint fun _ => .bind (pushByte build b) fun stored => ?_
      cases stored with
      | false => exact .pure _
      | true => exact .bind ih fun _ => .pure _

/-! ### Commands -/

theorem cmdTransfer (xfrCmd : List UInt8) : Keeps SameRequest (cmdTransfer xfrCmd) := by
  unfold Ppcom.cmdTransfer
  split
  · exact .pure _
  · refine .bind (prompt _ _) fun fname => ?_
    cases fname with
    | none => exact .pure _
    | some name => exact runCmd

end SameRequest

/-- The keys whose commands change a setting. -/
def Key.Sets : Key → Prop
  | .baud | .baudUp | .baudDn | .flow | .parity | .bits | .stop => True
  | _ => False

namespace SameRequest

theorem exec (build : Build) {key : Key} (other : ¬ key.Sets) :
    Keeps SameRequest (key.exec build) := by
  cases key with
  | exit | help | keys => exact .pure _
  | quit => exact .bind (.modify fun _ => rfl) fun _ => .pure _
  | status => exact .bind (showStatus build).discard fun _ => .pure _
  | pulse => exact .bind (.bind .get fun _ => lineCall fun _ => rfl) fun _ => .pure _
  | togDtr => exact .bind (.bind .get fun _ => lineCall fun _ => rfl) fun _ => .pure _
  | togRts => exact .bind (.bind .get fun _ => lineCall fun _ => rfl) fun _ => .pure _
  | lecho =>
      exact .bind (.modify fun _ => rfl) fun _ => .bind .get fun _ => .bind (emit _) fun _ => .pure _
  | send | receive => exact .bind .get fun _ => .bind (cmdTransfer _) fun _ => .pure _
  | hex => exact .bind (.bind (prompt _ _) fun _ => (ttyQPush build _).discard) fun _ => .pure _
  | brk => exact .bind .get fun _ => .bind (onTerm _ _).discard fun _ => .pure _
  | baud | baudUp | baudDn | flow | parity | bits | stop => exact absurd trivial other

/-- What a command does from the call of its setter on. -/
theorem command (build : Build) (setter : Setter) : Keeps SameRequest (setter.command build) := by
  unfold Setter.command
  cases setter with
  | baudrate baud =>
      exact .bind (changeSetting _ _) fun _ => .bind .get fun _ => .bind (onTerm _ _) fun _ =>
        .bind (setTtyWriteSz _) fun _ => .pure _
  | flowcntrl | parity | databits | stopbits => exact .bind (changeSetting _ _) fun _ => .pure _
  | raw | loc | hupcl => exact .pure _

end SameRequest

end Ppcom
