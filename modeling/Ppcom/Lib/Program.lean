/-
Module: Ppcom.Lib.Program
Purpose: Frame conditions and pre- and postconditions of programs with a state and exceptions.
  `Keeps R x` says that `x`, whether it returns or throws, leaves a state that `R` relates to the one
  it started in; `Triple P x Q E` says that from a state with `P` it returns as `Q` says or throws as
  `E` says. Both are proved piece by piece along the structure of the program.
Trusted boundary: none
Main exports: Program.final, Program.times, Program.Keeps, Program.Keeps.bind,
  Program.Keeps.tryCatch, Program.Keeps.forM, Program.Triple, Program.Triple.bind,
  Program.Triple.forM, Program.Triple.times
-/
import Mathlib.Order.Defs.Unbundled

namespace Program

variable {ε σ α β : Type}

/-! ### Runs -/

@[simp] theorem run_throw_any (e : ε) (s : σ) :
    (throw e : EStateM ε σ α).run s = .error e s := rfl

theorem run_discard_ok {x : EStateM ε σ α} {a : α} {s s' : σ}
    (ran : x.run s = .ok a s') : (discard x).run s = .ok ⟨⟩ s' := by
  change (match x.run s with
    | .ok _ s' => EStateM.Result.ok PUnit.unit s'
    | .error e s' => .error e s') = _
  rw [ran]

theorem run_discard_error {x : EStateM ε σ α} {e : ε} {s s' : σ}
    (ran : x.run s = .error e s') : (discard x).run s = .error e s' := by
  change (match x.run s with
    | .ok _ s' => EStateM.Result.ok PUnit.unit s'
    | .error e s' => .error e s') = _
  rw [ran]

@[simp] theorem run_tryCatch (x : EStateM ε σ α) (handle : ε → EStateM ε σ α)
    (s : σ) :
    (tryCatch x handle).run s =
      match x.run s with
      | .ok a s' => .ok a s'
      | .error e s' => (handle e).run s' := by
  delta tryCatch tryCatchThe instMonadExceptOfMonadExceptOf EStateM.run
  delta MonadExceptOf.tryCatch EStateM.instMonadExceptOfOfBacktrackable EStateM.tryCatch
  dsimp only
  cases x s <;> rfl

/-! ### Frame conditions -/

/-- The state that a run leaves. -/
def final : EStateM.Result ε σ α → σ
  | .ok _ s => s
  | .error _ s => s

@[simp] theorem final_ok (a : α) (s : σ) : final (.ok a s : EStateM.Result ε σ α) = s := rfl

@[simp] theorem final_error (e : ε) (s : σ) :
    final (.error e s : EStateM.Result ε σ α) = s := rfl

/-- What a run throws, and the state it throws it in. -/
def thrown : EStateM.Result ε σ α → Option (ε × σ)
  | .ok _ _ => none
  | .error e s => some (e, s)

theorem eq_error_of_thrown {r : EStateM.Result ε σ α} {e : ε} {s : σ}
    (threw : thrown r = some (e, s)) : r = .error e s := by
  cases r with
  | ok a s' => cases threw
  | error e' s' =>
      cases threw
      rfl

/-- What a run returns, and the state it returns in. -/
def returned : EStateM.Result ε σ α → Option (α × σ)
  | .ok a s => some (a, s)
  | .error _ _ => none

theorem eq_ok_of_returned {r : EStateM.Result ε σ α} {a : α} {s : σ}
    (ret : returned r = some (a, s)) : r = .ok a s := by
  cases r with
  | ok a' s' =>
      cases ret
      rfl
  | error e' s' => cases ret

/-- The run throws `e`. -/
def Throws (x : EStateM ε σ α) (s : σ) (e : ε) : Prop := ∃ s', x.run s = .error e s'

theorem Throws.bind {x : EStateM ε σ α} {f : α → EStateM ε σ β} {s : σ} {e : ε}
    (first : Throws x s e) : Throws (x >>= f) s e := by
  obtain ⟨s', threw⟩ := first
  exact ⟨s', by rw [EStateM.run_bind, threw]⟩

theorem Throws.after {x : EStateM ε σ α} {f : α → EStateM ε σ β} {s s' : σ} {a : α} {e : ε}
    (first : x.run s = .ok a s') (rest : Throws (f a) s' e) : Throws (x >>= f) s e := by
  obtain ⟨s'', threw⟩ := rest
  exact ⟨s'', by rw [EStateM.run_bind, first]; exact threw⟩

theorem Throws.get {f : σ → EStateM ε σ β} {s : σ} {e : ε} (rest : Throws (f s) s e) :
    Throws (MonadState.get >>= f) s e :=
  rest

/-- The program is run `n` times. -/
def times (x : EStateM ε σ PUnit) : Nat → EStateM ε σ PUnit
  | 0 => pure ⟨⟩
  | n + 1 => do
      times x n
      x

/-- Every run of the program leaves a state related to the one it started in. -/
def Keeps (R : σ → σ → Prop) (x : EStateM ε σ α) : Prop :=
  ∀ s, R s (final (x.run s))

namespace Keeps

variable {R : σ → σ → Prop}

theorem modify {f : σ → σ} (step : ∀ s, R s (f s)) :
    Keeps R (modify f : EStateM ε σ PUnit) :=
  step

theorem pure [Std.Refl R] (a : α) : Keeps R (pure a : EStateM ε σ α) :=
  fun s => refl_of R s

theorem throw [Std.Refl R] (e : ε) : Keeps R (throw e : EStateM ε σ α) :=
  fun s => refl_of R s

theorem get [Std.Refl R] : Keeps R (get : EStateM ε σ σ) :=
  fun s => refl_of R s

/-- What each part of a sequence keeps, the sequence keeps. -/
theorem bind [IsTrans σ R] {x : EStateM ε σ α} {f : α → EStateM ε σ β} (first : Keeps R x)
    (rest : ∀ a, Keeps R (f a)) : Keeps R (x >>= f) := by
  intro s
  have step := first s
  rw [EStateM.run_bind]
  cases ran : x.run s with
  | ok a s' =>
      rw [ran] at step
      exact trans_of R step (rest a s')
  | error e s' =>
      rw [ran] at step
      exact step

/-- A value computed from the result changes nothing. -/
theorem map {x : EStateM ε σ α} (first : Keeps R x) (f : α → β) : Keeps R (f <$> x) := by
  intro s
  have step := first s
  change R s (final (match x.run s with
    | .ok a s' => EStateM.Result.ok (f a) s'
    | .error e s' => .error e s'))
  cases ran : x.run s with
  | ok a s' =>
      rw [ran] at step
      exact step
  | error e s' =>
      rw [ran] at step
      exact step

theorem discard {x : EStateM ε σ α} (first : Keeps R x) : Keeps R (discard x) :=
  first.map _

/-- A handler that keeps `R` keeps it after the part of the program that threw. -/
theorem tryCatch [IsTrans σ R] {x : EStateM ε σ α} {handle : ε → EStateM ε σ α}
    (first : Keeps R x) (rest : ∀ e, Keeps R (handle e)) : Keeps R (tryCatch x handle) := by
  intro s
  have step := first s
  rw [run_tryCatch]
  cases ran : x.run s with
  | ok a s' =>
      rw [ran] at step
      exact step
  | error e s' =>
      rw [ran] at step
      exact trans_of R step (rest e s')

/-- `unless c do throw e`, followed by `x`. -/
theorem guard [Std.Refl R] {c : Prop} [Decidable c] {e : ε} {f : PUnit → EStateM ε σ α}
    (rest : Keeps R (f ⟨⟩)) :
    Keeps R (if c then f ⟨⟩ else (MonadExcept.throw e : EStateM ε σ PUnit) >>= f) := by
  split
  · exact rest
  · exact throw e

/-- `if c then throw e`, followed by `x`. -/
theorem refuse [Std.Refl R] {c : Prop} [Decidable c] {e : ε} {f : PUnit → EStateM ε σ α}
    (rest : Keeps R (f ⟨⟩)) :
    Keeps R (if c then (MonadExcept.throw e : EStateM ε σ PUnit) >>= f else f ⟨⟩) := by
  split
  · exact throw e
  · exact rest

/-- A loop over a list keeps what its body keeps. -/
theorem forM [Std.Refl R] [IsTrans σ R] {f : α → EStateM ε σ PUnit} (body : ∀ a, Keeps R (f a))
    (xs : List α) : Keeps R (forM xs f) := by
  induction xs with
  | nil => exact pure _
  | cons x rest ih =>
      rw [List.forM_cons]
      exact bind (body x) fun _ => ih

end Keeps

/-! ### Pre- and postconditions -/

/-- From every state with `P` the program returns with `Q` or throws with `E`. -/
def Triple (P : σ → Prop) (x : EStateM ε σ α) (Q : α → σ → Prop) (E : ε → σ → Prop) : Prop :=
  ∀ s, P s →
    match x.run s with
    | .ok a s' => Q a s'
    | .error e s' => E e s'

/-- The program keeps the invariant `I`, and throws only as `E` says. -/
abbrev Maintains (I : σ → Prop) (E : ε → σ → Prop) (x : EStateM ε σ α) : Prop :=
  Triple I x (fun _ => I) E

namespace Triple

variable {P P' I : σ → Prop} {Q Q' : α → σ → Prop} {E E' : ε → σ → Prop}

theorem pure {a : α} (post : ∀ s, P s → Q a s) : Triple P (pure a) Q E := post

theorem throw {e : ε} (post : ∀ s, P s → E e s) :
    Triple P (throw e : EStateM ε σ α) Q E := post

theorem get : Triple P (get : EStateM ε σ σ) (fun a s => a = s ∧ P s) E :=
  fun _ pre => ⟨rfl, pre⟩

theorem modify {f : σ → σ} {Q : PUnit → σ → Prop} (post : ∀ s, P s → Q ⟨⟩ (f s)) :
    Triple P (modify f) Q E := post

theorem bind {x : EStateM ε σ α} {f : α → EStateM ε σ β} {Q' : β → σ → Prop}
    (first : Triple P x Q E) (rest : ∀ a, Triple (Q a) (f a) Q' E) :
    Triple P (x >>= f) Q' E := by
  intro s pre
  have step := first s pre
  rw [EStateM.run_bind]
  cases ran : x.run s with
  | ok a s' =>
      rw [ran] at step
      exact rest a s' step
  | error e s' =>
      rw [ran] at step
      exact step

/-- The state that `get` returns is the one that the rest starts in. -/
theorem bind_get {f : σ → EStateM ε σ β} {Q' : β → σ → Prop}
    (rest : ∀ s, P s → Triple (fun s' => s' = s ∧ P s') (f s) Q' E) :
    Triple P (MonadState.get >>= f) Q' E :=
  fun s pre => rest s pre s ⟨rfl, pre⟩

/-- The state is read, changed and written back. -/
theorem getSet {R : σ → Prop} {f : σ → σ} {x : σ → EStateM ε σ β} {Q' : β → σ → Prop}
    (step : ∀ s, P s → R (f s)) (rest : ∀ s, Triple R (x s) Q' E) :
    Triple P (MonadState.get >>= fun s => MonadStateOf.set (f s) >>= fun _ => x s) Q' E :=
  fun s pre => rest s (f s) (step s pre)

/-- A program that reads the state first keeps what the rest keeps. -/
theorem read {f : σ → EStateM ε σ β} {Q' : β → σ → Prop}
    (rest : ∀ s, P s → Triple P (f s) Q' E) : Triple P (MonadState.get >>= f) Q' E :=
  fun s pre => rest s pre s pre

theorem weaken {x : EStateM ε σ α} (main : Triple P x Q E) (pre : ∀ s, P' s → P s)
    (post : ∀ a s, Q a s → Q' a s) (thrown : ∀ e s, E e s → E' e s) : Triple P' x Q' E' := by
  intro s start
  have step := main s (pre s start)
  cases ran : x.run s with
  | ok a s' =>
      rw [ran] at step
      exact post a s' step
  | error e s' =>
      rw [ran] at step
      exact thrown e s' step

/-- A precondition may be weakened. -/
theorem pre {x : EStateM ε σ α} (main : Triple P x Q E) (weaker : ∀ s, P' s → P s) :
    Triple P' x Q E :=
  main.weaken weaker (fun _ _ => id) fun _ _ => id

/-- A fact about no state in the precondition can be assumed. -/
theorem assume {φ : Prop} {x : EStateM ε σ α} (main : φ → Triple P x Q E) :
    Triple (fun s => φ ∧ P s) x Q E :=
  fun s pre => main pre.1 s pre.2

/-- What every state with the precondition shows can be assumed. -/
theorem given {φ : Prop} {x : EStateM ε σ α} (known : ∀ s, P s → φ) (main : φ → Triple P x Q E) :
    Triple P x Q E :=
  fun s pre => main (known s pre) s pre

/-- Of every program something can be said. -/
theorem any (x : EStateM ε σ α) : Triple P x (fun _ _ => True) fun _ _ => True := by
  intro s _
  cases x.run s <;> trivial

/-- What two triples say of a program holds together. -/
theorem and {x : EStateM ε σ α} (one : Triple P x Q E) (two : Triple P x Q' E') :
    Triple P x (fun a s => Q a s ∧ Q' a s) fun e s => E e s ∧ E' e s := by
  intro s start
  have first := one s start
  have second := two s start
  cases ran : x.run s with
  | ok a s' =>
      rw [ran] at first second
      exact ⟨first, second⟩
  | error e s' =>
      rw [ran] at first second
      exact ⟨first, second⟩

theorem map {x : EStateM ε σ α} {f : α → β} {Q' : β → σ → Prop} (main : Triple P x Q E)
    (post : ∀ a s, Q a s → Q' (f a) s) : Triple P (f <$> x) Q' E := by
  intro s start
  have step := main s start
  change match (match x.run s with
    | .ok a s' => EStateM.Result.ok (f a) s'
    | .error e s' => .error e s') with
    | .ok b s' => Q' b s'
    | .error e s' => E e s'
  cases ran : x.run s with
  | ok a s' =>
      rw [ran] at step
      exact post a s' step
  | error e s' =>
      rw [ran] at step
      exact step

theorem discard {x : EStateM ε σ α} (main : Maintains I E x) : Maintains I E (discard x) :=
  main.map fun _ _ => id

/-- An invariant that a program keeps whether it returns or throws holds of the state it leaves. -/
theorem final {x : EStateM ε σ α} (main : Maintains I (fun _ => I) x) {s : σ} (start : I s) :
    I (final (x.run s)) := by
  have step := main s start
  cases ran : x.run s with
  | ok a s' =>
      rw [ran] at step
      exact step
  | error e s' =>
      rw [ran] at step
      exact step

/-- `if c then throw e`, followed by the rest. -/
theorem refuse {c : Prop} [Decidable c] {e : ε} {f : PUnit → EStateM ε σ α}
    (thrown : ∀ s, P s → E e s) (rest : Triple P (f ⟨⟩) Q E) :
    Triple P (if c then (MonadExcept.throw e : EStateM ε σ PUnit) >>= f else f ⟨⟩) Q E := by
  split
  · exact throw thrown
  · exact rest

/-- A handler takes over where the program threw. -/
theorem tryCatch {x : EStateM ε σ α} {handle : ε → EStateM ε σ α}
    (first : Triple P x Q E) (rest : ∀ e, Triple (E e) (handle e) Q E') :
    Triple P (tryCatch x handle) Q E' := by
  intro s start
  have step := first s start
  rw [run_tryCatch]
  cases ran : x.run s with
  | ok a s' =>
      rw [ran] at step
      exact step
  | error e s' =>
      rw [ran] at step
      exact rest e s' step

/-- A loop over a list keeps the invariant of its body. -/
theorem forM {f : α → EStateM ε σ PUnit} (xs : List α)
    (body : ∀ a ∈ xs, Maintains I E (f a)) : Maintains I E (forM xs f) := by
  induction xs with
  | nil => exact pure fun _ => id
  | cons x rest ih =>
      rw [List.forM_cons]
      exact bind (body x (by simp)) fun _ => ih fun a inside => body a (by simp [inside])

/-- A program that is run several times keeps what it keeps when it is run once. -/
theorem times {x : EStateM ε σ PUnit} (once : Maintains I E x) (n : Nat) :
    Maintains I E (times x n) := by
  induction n with
  | zero => exact pure fun _ => id
  | succ n ih => exact bind ih fun _ => once

end Triple

end Program
