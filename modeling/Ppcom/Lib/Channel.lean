/-
Module: Ppcom.Lib.Channel
Purpose: A channel that may throw away the whole of what it holds. `Kept` reads from its history what
  came in and was not thrown away; a channel conserves its input when that is what went out followed
  by what it holds.
Trusted boundary: none
Main exports: Channel.Event, Channel.Kept, Channel.input, Channel.output, Channel.Conserves,
  Channel.sinceReset, Channel.Balances, Channel.Step
-/
import Mathlib.Data.List.Basic

namespace Channel

variable {α : Type}

/-- What can happen to a channel. -/
inductive Event (α : Type) where
  | put (xs : List α)
  | take (xs : List α)
  | reset (held : List α)

/-- `Kept history xs`: what came in, in order, from which each reset removed what was held. A reset
can only remove the end of what is there. -/
inductive Kept : List (Event α) → List α → Prop where
  | nil : Kept [] []
  | put {history kept} (before : Kept history kept) (xs : List α) :
      Kept (history ++ [.put xs]) (kept ++ xs)
  | take {history kept} (before : Kept history kept) (xs : List α) :
      Kept (history ++ [.take xs]) kept
  | reset {history kept held} (before : Kept history (kept ++ held)) :
      Kept (history ++ [.reset held]) kept

/-- What came in. -/
def input (history : List (Event α)) : List α :=
  history.flatMap fun
    | .put xs => xs
    | _ => []

/-- What went out. -/
def output (history : List (Event α)) : List α :=
  history.flatMap fun
    | .take xs => xs
    | _ => []

@[simp] theorem input_nil : input ([] : List (Event α)) = [] := rfl

@[simp] theorem input_append (before after : List (Event α)) :
    input (before ++ after) = input before ++ input after :=
  List.flatMap_append

@[simp] theorem input_put (xs : List α) : input [.put xs] = xs := by
  simp [input]

@[simp] theorem input_take (xs : List α) : input [.take xs] = [] := rfl

@[simp] theorem output_nil : output ([] : List (Event α)) = [] := rfl

@[simp] theorem output_append (before after : List (Event α)) :
    output (before ++ after) = output before ++ output after :=
  List.flatMap_append

@[simp] theorem output_put (xs : List α) : output [.put xs] = [] := rfl

@[simp] theorem output_take (xs : List α) : output [.take xs] = xs := by
  simp [output]

@[simp] theorem output_reset (held : List α) : output [.reset held] = [] := rfl

/-- With this history the channel, which now holds `held`, has lost, doubled and reordered nothing
but what it threw away. -/
def Conserves (history : List (Event α)) (held : List α) : Prop :=
  Kept history (output history ++ held)

namespace Conserves

variable {history : List (Event α)} {held : List α}

theorem empty : Conserves ([] : List (Event α)) [] := .nil

theorem put (before : Conserves history held) (xs : List α) :
    Conserves (history ++ [.put xs]) (held ++ xs) := by
  have after := Kept.put before xs
  simpa only [Conserves, output_append, output_put, List.append_nil, List.append_assoc] using after

theorem take {xs rest : List α} (before : Conserves history (xs ++ rest)) :
    Conserves (history ++ [.take xs]) rest := by
  have after := Kept.take before xs
  simpa only [Conserves, output_append, output_take, List.append_assoc] using after

theorem reset (before : Conserves history held) : Conserves (history ++ [.reset held]) [] := by
  have after := Kept.reset before
  simpa only [Conserves, output_append, output_reset, List.append_nil] using after

end Conserves

/-! ### Behind the last reset -/

/-- The history from behind the last reset on. -/
def sinceReset (history : List (Event α)) : List (Event α) :=
  history.foldl (fun since e =>
    match e with
    | .reset _ => []
    | e => since ++ [e]) []

@[simp] theorem sinceReset_nil : sinceReset ([] : List (Event α)) = [] := rfl

@[simp] theorem sinceReset_put (history : List (Event α)) (xs : List α) :
    sinceReset (history ++ [.put xs]) = sinceReset history ++ [.put xs] := by
  simp [sinceReset]

@[simp] theorem sinceReset_take (history : List (Event α)) (xs : List α) :
    sinceReset (history ++ [.take xs]) = sinceReset history ++ [.take xs] := by
  simp [sinceReset]

@[simp] theorem sinceReset_reset (history : List (Event α)) (held : List α) :
    sinceReset (history ++ [.reset held]) = [] := by
  simp [sinceReset]

/-- What came in since the last reset is what went out since then and what is held. -/
def Balances (history : List (Event α)) (held : List α) : Prop :=
  input (sinceReset history) = output (sinceReset history) ++ held

namespace Balances

variable {history : List (Event α)} {held : List α}

theorem empty : Balances ([] : List (Event α)) [] := rfl

theorem put (before : Balances history held) (xs : List α) :
    Balances (history ++ [.put xs]) (held ++ xs) := by
  unfold Balances at before ⊢
  simp [before]

theorem take {xs rest : List α} (before : Balances history (xs ++ rest)) :
    Balances (history ++ [.take xs]) rest := by
  unfold Balances at before ⊢
  simp [before]

theorem reset (thrown : List α) : Balances (history ++ [.reset thrown]) [] := by
  unfold Balances
  simp

end Balances

/-! ### Steps -/

/-- What one event does to a channel with a history and what it holds. -/
inductive Step : List (Event α) → List α → List (Event α) → List α → Prop where
  | put (history : List (Event α)) (held xs : List α) :
      Step history held (history ++ [.put xs]) (held ++ xs)
  | take (history : List (Event α)) (xs rest : List α) :
      Step history (xs ++ rest) (history ++ [.take xs]) rest
  | reset (history : List (Event α)) (held : List α) :
      Step history held (history ++ [.reset held]) []

theorem Step.balances {history history' : List (Event α)} {held held' : List α}
    (step : Step history held history' held') (before : Balances history held) :
    Balances history' held' := by
  cases step with
  | put => exact before.put _
  | take => exact before.take
  | reset => exact .reset held

end Channel
