/-
Module: Ppcom.Spec.Streams
Purpose: The streams that a run handles, read from its history: what the queue took in and gave out,
  what `loop` read and what it made of it; and what the manual says it should make of it.
Trusted boundary: none
Main exports: outbound, stdinBytes, actions, ctlChunks, ctlBytes, tokenise, throughExit
-/
import Ppcom.Lib.Channel
import Ppcom.Session

namespace Ppcom

/-! ### The queue as a channel -/

/-- What an event is for the channel from `tty_q_push` to the port: an accepted byte puts in its image
under `omap`. -/
def Event.onChannel (omap : Word) : Event → Option (Channel.Event UInt8)
  | .accept b => some (.put (doMapBytes omap b))
  | .discard _ held => some (.reset held)
  | .write _ _ taken => some (.take taken)
  | _ => none

/-- The history of the channel. -/
def outbound (omap : Word) (trace : List Event) : List (Channel.Event UInt8) :=
  trace.filterMap (Event.onChannel omap)

@[simp] theorem outbound_append (omap : Word) (before after : List Event) :
    outbound omap (before ++ after) = outbound omap before ++ outbound omap after :=
  List.filterMap_append

/-! ### Standard input -/

/-- The bytes that `loop` has read from standard input. -/
def stdinBytes (trace : List Event) : List UInt8 :=
  trace.flatMap fun
    | .stdin buff => buff
    | _ => []

/-- What `loop` has done for them. -/
def actions (trace : List Event) : List Action :=
  trace.filterMap fun
    | .act action => some action
    | _ => none

/-- The actions for a stream of bytes, and whether a command key is still to come. Without an escape
byte every byte is data. With one, a byte that is not it is data; it and a second one are the byte
itself as data; it and another byte are a command. -/
def tokenise (escape : Option UInt8) : Bool → List UInt8 → List Action × Bool
  | pending, [] => ([], pending)
  | false, b :: rest =>
      if some b = escape then tokenise escape true rest
      else
        let (later, pending) := tokenise escape false rest
        (.data b :: later, pending)
  | true, b :: rest =>
      let (later, pending) := tokenise escape false rest
      (if some b = escape then .data b :: later else .command b :: later, pending)

/-- The state of the machine with or without a command key to come. -/
def LoopState.of : Bool → LoopState
  | true => .command
  | false => .transparent

/-- The escape byte, unless there is none. -/
def Opts.escapeByte (opts : Opts) : Option UInt8 :=
  if opts.noescape then none else some opts.escape

/-- The commands that end the program: `x` and `q`. -/
def Action.ends : Action → Bool
  | .data _ => false
  | .command key => key == 0x78 || key == 0x71

/-- The actions up to the first that ends the program. -/
def throughExit : List Action → List Action
  | [] => []
  | action :: rest => if action.ends then [action] else action :: throughExit rest

@[simp] theorem stdinBytes_append (before after : List Event) :
    stdinBytes (before ++ after) = stdinBytes before ++ stdinBytes after :=
  List.flatMap_append

@[simp] theorem actions_append (before after : List Event) :
    actions (before ++ after) = actions before ++ actions after :=
  List.filterMap_append

/-- A stream can be cut anywhere. -/
theorem tokenise_append (escape : Option UInt8) (pending : Bool) (seen rest : List UInt8) :
    tokenise escape pending (seen ++ rest) =
      ((tokenise escape pending seen).1 ++ (tokenise escape (tokenise escape pending seen).2 rest).1,
        (tokenise escape (tokenise escape pending seen).2 rest).2) := by
  induction seen generalizing pending with
  | nil => cases pending <;> simp [tokenise]
  | cons b seen ih =>
      cases pending with
      | false =>
          simp only [List.cons_append, tokenise]
          split
          · exact ih true
          · simp [ih false]
      | true =>
          simp only [List.cons_append, tokenise, ih false]
          split <;> simp

/-- Without an escape byte every byte is data. -/
theorem tokenise_none (bytes : List UInt8) :
    tokenise none false bytes = (bytes.map Action.data, false) := by
  induction bytes with
  | nil => rfl
  | cons b bytes ih => simp [tokenise, ih]

theorem throughExit_of_ends {before : List Action} {action : Action} {after : List Action}
    (stays : ∀ a ∈ before, a.ends = false) (ends : action.ends = true) :
    throughExit (before ++ action :: after) = before ++ [action] := by
  induction before with
  | nil => simp [throughExit, ends]
  | cons a before ih =>
      have later := ih fun a' inside => stays a' (by simp [inside])
      simp [throughExit, stays a (by simp), later]

/-! ### The control socket -/

/-- What the reads of the control socket have returned. -/
def ctlChunks (trace : List Event) : List (List UInt8) :=
  trace.filterMap fun
    | .ctl _ buff => some buff
    | _ => none

/-- The bytes from the control socket that were offered to `tty_q_push`. -/
def ctlBytes (trace : List Event) : List UInt8 :=
  trace.filterMap fun
    | .ctlByte b => some b
    | _ => none

end Ppcom
