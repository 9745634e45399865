/-
Module: Ppcom.Lib.Parallel
Purpose: Two runs of one program from states that a relation takes for the same. `Respects R x` says that
  they end alike: both return the same value or both throw the same error, in states that are the same
  again. It is proved piece by piece along the structure of the program, as long as what the program reads
  of its state is the same in both.
Trusted boundary: none
Main exports: Program.Matched, Program.Respects, Program.Respects.bind, Program.Respects.read,
  Program.Respects.tryCatch, Program.Respects.forM, Program.Respects.final
-/
import Ppcom.Lib.Program

namespace Program

variable {ε σ α β : Type}

/-- Two runs that end alike. -/
def Matched (R : σ → σ → Prop) : EStateM.Result ε σ α → EStateM.Result ε σ α → Prop
  | .ok a s, .ok b t => a = b ∧ R s t
  | .error e s, .error d t => e = d ∧ R s t
  | .ok _ _, .error _ _ | .error _ _, .ok _ _ => False

/-- From states that are the same for `R`, runs of the program end alike. -/
def Respects (R : σ → σ → Prop) (x : EStateM ε σ α) : Prop :=
  ∀ s t, R s t → Matched R (x.run s) (x.run t)

variable {R : σ → σ → Prop}

/-- Results that match are two values or two errors. -/
theorem Matched.cases {r q : EStateM.Result ε σ α} (matched : Matched R r q) :
    (∃ a s t, r = .ok a s ∧ q = .ok a t ∧ R s t) ∨ (∃ e s t, r = .error e s ∧ q = .error e t ∧ R s t) := by
  cases r with
  | ok a s =>
      cases q with
      | ok b t =>
          obtain ⟨rfl, same⟩ := matched
          exact .inl ⟨a, s, t, rfl, rfl, same⟩
      | error d t => exact matched.elim
  | error e s =>
      cases q with
      | ok b t => exact matched.elim
      | error d t =>
          obtain ⟨rfl, same⟩ := matched
          exact .inr ⟨e, s, t, rfl, rfl, same⟩

namespace Respects

theorem pure (a : α) : Respects R (pure a : EStateM ε σ α) := fun _ _ same => ⟨rfl, same⟩

theorem throw (e : ε) : Respects R (throw e : EStateM ε σ α) := fun _ _ same => ⟨rfl, same⟩

theorem modify {f : σ → σ} (step : ∀ s t, R s t → R (f s) (f t)) :
    Respects R (modify f : EStateM ε σ PUnit) :=
  fun s t same => ⟨rfl, step s t same⟩

/-- What each part of a sequence respects, the sequence respects. -/
theorem bind {x : EStateM ε σ α} {f : α → EStateM ε σ β} (first : Respects R x)
    (rest : ∀ a, Respects R (f a)) : Respects R (x >>= f) := by
  intro s t same
  rw [EStateM.run_bind, EStateM.run_bind]
  rcases (first s t same).cases with ⟨a, s', t', ran, ran', same'⟩ | ⟨e, s', t', ran, ran', same'⟩
  · rw [ran, ran']
    exact rest a s' t' same'
  · rw [ran, ran']
    exact ⟨rfl, same'⟩

/-- The state is read, and the program goes on in the same way in both runs. -/
theorem read {f : σ → EStateM ε σ β} (agree : ∀ s t, R s t → f s = f t) (rest : ∀ s, Respects R (f s)) :
    Respects R (MonadState.get >>= f) := by
  intro s t same
  change Matched R ((f s).run s) ((f t).run t)
  rw [← agree s t same]
  exact rest s s t same

/-- A value computed from the result changes nothing. -/
theorem map {x : EStateM ε σ α} (first : Respects R x) (f : α → β) : Respects R (f <$> x) := by
  rw [map_eq_pure_bind]
  exact first.bind fun a => pure (f a)

theorem discard {x : EStateM ε σ α} (first : Respects R x) : Respects R (discard x) := first.map _

theorem tryCatch {x : EStateM ε σ α} {handle : ε → EStateM ε σ α} (first : Respects R x)
    (rest : ∀ e, Respects R (handle e)) : Respects R (tryCatch x handle) := by
  intro s t same
  rw [run_tryCatch, run_tryCatch]
  rcases (first s t same).cases with ⟨a, s', t', ran, ran', same'⟩ | ⟨e, s', t', ran, ran', same'⟩
  · rw [ran, ran']
    exact ⟨rfl, same'⟩
  · rw [ran, ran']
    exact rest e s' t' same'

/-- `unless c do throw e`, followed by `x`. -/
theorem guard {c : Prop} [Decidable c] {e : ε} {f : PUnit → EStateM ε σ α} (rest : Respects R (f ⟨⟩)) :
    Respects R (if c then f ⟨⟩ else (MonadExcept.throw e : EStateM ε σ PUnit) >>= f) := by
  split
  · exact rest
  · exact bind (throw e) fun _ => rest

/-- `if c then throw e`, followed by `x`. -/
theorem refuse {c : Prop} [Decidable c] {e : ε} {f : PUnit → EStateM ε σ α} (rest : Respects R (f ⟨⟩)) :
    Respects R (if c then (MonadExcept.throw e : EStateM ε σ PUnit) >>= f else f ⟨⟩) := by
  split
  · exact bind (throw e) fun _ => rest
  · exact rest

/-- A loop over a list respects what its body respects. -/
theorem forM {f : α → EStateM ε σ PUnit} (body : ∀ a, Respects R (f a)) (xs : List α) :
    Respects R (forM xs f) := by
  induction xs with
  | nil => exact pure _
  | cons x rest ih =>
      rw [List.forM_cons]
      exact bind (body x) fun _ => ih

/-- The states left are the same. -/
theorem final {x : EStateM ε σ α} (main : Respects R x) {s t : σ} (same : R s t) :
    R (Program.final (x.run s)) (Program.final (x.run t)) := by
  rcases (main s t same).cases with ⟨a, s', t', ran, ran', same'⟩ | ⟨e, s', t', ran, ran', same'⟩
  · rw [ran, ran']
    exact same'
  · rw [ran, ran']
    exact same'

end Respects

end Program
