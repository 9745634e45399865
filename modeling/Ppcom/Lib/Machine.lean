/-
Module: Ppcom.Lib.Machine
Purpose: Runs of a machine that takes one input after the other, with every step it makes. An invariant
  that each step keeps holds along the whole run; where a step keeps it only under a guard, it does so
  in the runs whose steps meet the guard.
Trusted boundary: none
Main exports: Machine.Step, Machine.Run, Machine.Run.steps, Machine.Run.guards, Machine.Run.each_iff,
  Machine.Run.append, Machine.Run.of_trail
-/
import Mathlib.Logic.Basic

namespace Machine

variable {σ α β : Type}

/-- A step: the input it takes, and what it puts out. -/
structure Step (σ α β : Type) where
  before : σ
  input : α
  after : σ
  output : β

/-- The step is one that the machine makes. -/
def Step.Of (step : σ → α → Option (σ × β)) (st : Step σ α β) : Prop :=
  step st.before st.input = some (st.after, st.output)

/-- The runs from `start`: their steps, and where they lead. -/
inductive Run (step : σ → α → Option (σ × β)) (start : σ) : List (Step σ α β) → σ → Prop where
  | start : Run step start [] start
  | step {past : List (Step σ α β)} {s s' : σ} {input : α} {output : β} :
      Run step start past s → step s input = some (s', output) →
      Run step start (past ++ [⟨s, input, s', output⟩]) s'

/-- The steps that the machine makes for a list of inputs. -/
def trail (step : σ → α → Option (σ × β)) : σ → List α → Option (List (Step σ α β))
  | _, [] => some []
  | s, input :: rest =>
      (step s input).bind fun (s', output) =>
        (trail step s' rest).map (⟨s, input, s', output⟩ :: ·)

/-- Where steps from `start` lead. -/
def last (start : σ) (made : List (Step σ α β)) : σ := (made.getLast?.map Step.after).getD start

theorem inputs_of_trail {step : σ → α → Option (σ × β)} {s : σ} {inputs : List α}
    {made : List (Step σ α β)} (ran : trail step s inputs = some made) : made.map Step.input = inputs := by
  induction inputs generalizing s made with
  | nil =>
      cases ran
      rfl
  | cons input rest ih =>
      obtain ⟨⟨s', output⟩, -, after⟩ := Option.bind_eq_some_iff.mp ran
      obtain ⟨more, later, rfl⟩ := Option.map_eq_some_iff.mp after
      rw [List.map_cons, ih later]

namespace Run

variable {step : σ → α → Option (σ × β)} {start s : σ} {made : List (Step σ α β)}

/-- A run goes on with further inputs. -/
theorem append {inputs : List α} {later : List (Step σ α β)} (run : Run step start made s)
    (further : trail step s inputs = some later) : ∃ s', Run step start (made ++ later) s' := by
  induction inputs generalizing made s later with
  | nil =>
      cases further
      exact ⟨s, by rwa [List.append_nil]⟩
  | cons input rest ih =>
      obtain ⟨⟨s', output⟩, stepped, after⟩ := Option.bind_eq_some_iff.mp further
      obtain ⟨more, rest, rfl⟩ := Option.map_eq_some_iff.mp after
      obtain ⟨last, whole⟩ := ih (run.step stepped) rest
      exact ⟨last, by rwa [List.append_assoc] at whole⟩

/-- The machine makes the run that a list of inputs leads to. -/
theorem of_trail {inputs : List α} (ran : trail step start inputs = some made) :
    Run step start made (last start made) := by
  obtain ⟨s, run⟩ := append .start ran
  rw [List.nil_append] at run
  cases run with
  | start => exact .start
  | step earlier stepped =>
      rw [last, List.getLast?_concat]
      exact earlier.step stepped

/-- A run goes on with one from where it leads. -/
theorem trans {later : List (Step σ α β)} {s' : σ} (run : Run step start made s)
    (further : Run step s later s') : Run step start (made ++ later) s' := by
  induction further with
  | start => rwa [List.append_nil]
  | step _ stepped ih =>
      rw [← List.append_assoc]
      exact ih.step stepped

/-- In a run whose steps meet a guard, an invariant that those steps keep holds before each step and at
the end. -/
theorem guarded {I : σ → Prop} {G : Step σ α β → Prop} (first : I start)
    (keeps : ∀ st : Step σ α β, st.Of step → G st → I st.before → I st.after)
    (run : Run step start made s) (meet : ∀ st ∈ made, G st) :
    I s ∧ ∀ st ∈ made, I st.before ∧ st.Of step := by
  induction run with
  | start => exact ⟨first, nofun⟩
  | @step past s s' input output _ stepped ih =>
      obtain ⟨before, earlier⟩ := ih fun st inside => meet st (List.mem_append_left _ inside)
      have last := meet ⟨s, input, s', output⟩ (by simp)
      refine ⟨keeps ⟨s, input, s', output⟩ stepped last before, fun st inside => ?_⟩
      rcases List.mem_append.mp inside with early | late
      · exact earlier st early
      · cases List.mem_singleton.mp late
        exact ⟨before, stepped⟩

/-- An invariant that every step keeps holds before each step and at the end. -/
theorem steps {I : σ → Prop} (first : I start)
    (keeps : ∀ st : Step σ α β, st.Of step → I st.before → I st.after)
    (run : Run step start made s) : I s ∧ ∀ st ∈ made, I st.before ∧ st.Of step :=
  guarded first (fun st made (_ : True) => keeps st made) run fun _ _ => trivial

/-- A run at whose end `P` holds met the guard at every step, where a step that does not meet it leads
out of `P`, and no step leads back. -/
theorem guards {I P : σ → Prop} {G : Step σ α β → Prop} (first : I start)
    (keeps : ∀ st : Step σ α β, st.Of step → G st → I st.before → I st.after)
    (back : ∀ st : Step σ α β, st.Of step → P st.after → P st.before)
    (needs : ∀ st : Step σ α β, st.Of step → I st.before → P st.after → G st)
    (run : Run step start made s) (holds : P s) : ∀ st ∈ made, G st := by
  induction run with
  | start => exact nofun
  | @step past s s' input output earlier stepped ih =>
      have met := ih (back ⟨s, input, s', output⟩ stepped holds)
      intro st inside
      rcases List.mem_append.mp inside with early | late
      · exact met st early
      · cases List.mem_singleton.mp late
        exact needs ⟨s, input, s', output⟩ stepped (guarded first keeps earlier met).1 holds

/-- Where, after an invariant, a property of a step amounts to a guard of it and gives the invariant
again, it holds of every step of exactly those runs whose steps meet the guard. -/
theorem each_iff {I : σ → Prop} {P G : Step σ α β → Prop} (first : I start)
    (keeps : ∀ st : Step σ α β, st.Of step → P st → I st.before → I st.after)
    (exact : ∀ st : Step σ α β, st.Of step → I st.before → (P st ↔ G st))
    (run : Run step start made s) : (∀ st ∈ made, P st) ↔ ∀ st ∈ made, G st := by
  constructor
  · intro holds st inside
    obtain ⟨before, ofStep⟩ := (guarded first keeps run holds).2 st inside
    exact (exact st ofStep before).mp (holds st inside)
  · intro met st inside
    have kept : ∀ st : Step σ α β, st.Of step → G st → I st.before → I st.after :=
      fun st ofStep guard before => keeps st ofStep ((exact st ofStep before).mpr guard) before
    obtain ⟨before, ofStep⟩ := (guarded first kept run met).2 st inside
    exact (exact st ofStep before).mpr (met st inside)

end Run

end Machine
