/-
Module: Ppcom.Lib.Slots
Purpose: A table of `n` slots as an implementation of a finite map. Slot `i` is free where its key is
  the marker `free`, and is otherwise the entry `keys i ↦ vals i`; an entry is found by a search for
  the first slot with its key.
Trusted boundary: none
Main exports: Slots.find, Slots.Distinct, Slots.lookup, Slots.lookup_update, Slots.lookup_fill,
  Slots.lookup_clear, Slots.lookup_rekey, Slots.ncard_managed_le, Slots.full_iff
-/
import Mathlib.Data.Fin.Tuple.Basic
import Mathlib.Data.Set.Card
import Mathlib.Data.Fintype.Card

namespace Slots

variable {κ ν : Type*} [DecidableEq κ] {n : ℕ}

/-- The first slot with key `k`. -/
def find (keys : Fin n → κ) (k : κ) : Option (Fin n) :=
  Fin.find? fun i => decide (keys i = k)

/-- No key other than the marker stands in two slots. -/
def Distinct (free : κ) (keys : Fin n → κ) : Prop :=
  ∀ ⦃i j⦄, keys i ≠ free → keys i = keys j → i = j

/-- The finite map that the table stands for. -/
def lookup (free : κ) (keys : Fin n → κ) (vals : Fin n → ν) (k : κ) : Option ν :=
  if k = free then none else (find keys k).map vals

/-- The keys that have an entry. -/
def managed (free : κ) (keys : Fin n → κ) : Set κ :=
  {k | k ≠ free ∧ ∃ i, keys i = k}

/-! ### The search -/

theorem find_eq_none_iff {keys : Fin n → κ} {k : κ} : find keys k = none ↔ ∀ i, keys i ≠ k := by
  simp [find]

theorem key_of_find {keys : Fin n → κ} {k : κ} {i : Fin n} (found : find keys k = some i) :
    keys i = k := by
  simpa using Fin.eq_true_of_find?_eq_some found

theorem find_isSome_of_key {keys : Fin n → κ} {k : κ} {i : Fin n} (key : keys i = k) :
    ∃ j, find keys k = some j := by
  cases found : find keys k with
  | some j => exact ⟨j, rfl⟩
  | none => exact absurd key (find_eq_none_iff.mp found i)

theorem find_of_distinct {free : κ} {keys : Fin n → κ} (distinct : Distinct free keys) {i : Fin n}
    (used : keys i ≠ free) : find keys (keys i) = some i := by
  obtain ⟨j, found⟩ : ∃ j, find keys (keys i) = some j := find_isSome_of_key rfl
  have same : i = j := distinct used (key_of_find found).symm
  rw [found, same]

/-! ### The map of a table -/

section Lookup

variable {free : κ} {keys : Fin n → κ} {vals : Fin n → ν}

@[simp] theorem lookup_free : lookup free keys vals free = none := by
  simp [lookup]

theorem lookup_eq_map {k : κ} (real : k ≠ free) :
    lookup free keys vals k = (find keys k).map vals := by
  simp [lookup, real]

theorem lookup_of_find {k : κ} {i : Fin n} (real : k ≠ free) (found : find keys k = some i) :
    lookup free keys vals k = some (vals i) := by
  simp [lookup, real, found]

theorem lookup_key (distinct : Distinct free keys) {i : Fin n} (used : keys i ≠ free) :
    lookup free keys vals (keys i) = some (vals i) :=
  lookup_of_find used (find_of_distinct distinct used)

theorem lookup_eq_none_iff {k : κ} (real : k ≠ free) :
    lookup free keys vals k = none ↔ ∀ i, keys i ≠ k := by
  rw [lookup_eq_map real, Option.map_eq_none_iff, find_eq_none_iff]

theorem lookup_isSome_iff {k : κ} :
    (lookup free keys vals k).isSome ↔ k ∈ managed free keys := by
  by_cases real : k = free
  · simp [real, managed]
  · rw [← not_iff_not, Option.not_isSome_iff_eq_none, lookup_eq_none_iff real]
    simp [managed, real]

/-- A table of distinct keys is determined, as a map, by its used slots. -/
theorem lookup_eq_some_iff (distinct : Distinct free keys) {k : κ} {v : ν} :
    lookup free keys vals k = some v ↔ k ≠ free ∧ ∃ i, keys i = k ∧ vals i = v := by
  constructor
  · intro entry
    have real : k ≠ free := by
      rintro rfl
      simp at entry
    rw [lookup_eq_map real, Option.map_eq_some_iff] at entry
    obtain ⟨i, found, value⟩ := entry
    exact ⟨real, i, key_of_find found, value⟩
  · rintro ⟨real, i, rfl, rfl⟩
    exact lookup_key distinct real

end Lookup

/-! ### What the updates of a table do to its map -/

section Updates

variable {free : κ} {keys : Fin n → κ} {vals : Fin n → ν}

/-- Storing a value in a used slot changes the entry of the slot's key. -/
theorem lookup_update (distinct : Distinct free keys) {i : Fin n} (used : keys i ≠ free) (v : ν) :
    lookup free keys (Function.update vals i v)
      = Function.update (lookup free keys vals) (keys i) (some v) := by
  funext k
  by_cases here : k = keys i
  · subst here
    rw [lookup_key distinct used]
    simp
  · rw [Function.update_of_ne here]
    unfold lookup
    split
    · rfl
    · cases found : find keys k with
      | none => rfl
      | some j =>
          have other : j ≠ i := by
            rintro rfl
            exact here (key_of_find found).symm
          simp [Function.update_of_ne other]

/-- Only the values in used slots matter. -/
theorem lookup_congr {vals' : Fin n → ν} (same : ∀ i, keys i ≠ free → vals i = vals' i) :
    lookup free keys vals = lookup free keys vals' := by
  funext k
  unfold lookup
  split
  · rfl
  · next real =>
    cases found : find keys k with
    | none => rfl
    | some i =>
        have key := key_of_find found
        simp [same i (key ▸ real)]

omit [DecidableEq κ] in
/-- Freeing a slot keeps the keys distinct. -/
theorem Distinct.clear (distinct : Distinct free keys) (i : Fin n) :
    Distinct free (Function.update keys i free) := by
  intro a b used same
  have atA : a ≠ i := by
    rintro rfl
    simp at used
  rw [Function.update_of_ne atA] at used same
  by_cases atB : b = i
  · subst atB
    rw [Function.update_self] at same
    exact absurd same used
  · rw [Function.update_of_ne atB] at same
    exact distinct used same

omit [DecidableEq κ] in
/-- Giving a key to a slot keeps the keys distinct exactly if no other slot has it. -/
theorem Distinct.update_iff (distinct : Distinct free keys) {k : κ} (real : k ≠ free) (i : Fin n) :
    Distinct free (Function.update keys i k) ↔ ∀ j ≠ i, keys j ≠ k := by
  constructor
  · intro after j other same
    apply other
    apply after
    · rwa [Function.update_of_ne other, same]
    · rw [Function.update_of_ne other, Function.update_self, same]
  · intro fresh a b used same
    by_cases atA : a = i <;> by_cases atB : b = i
    · rw [atA, atB]
    · subst atA
      rw [Function.update_self, Function.update_of_ne atB] at same
      exact absurd same.symm (fresh b atB)
    · subst atB
      rw [Function.update_self, Function.update_of_ne atA] at same
      exact absurd same (fresh a atA)
    · rw [Function.update_of_ne atA] at used same
      rw [Function.update_of_ne atB] at same
      exact distinct used same

omit [DecidableEq κ] in
/-- Giving a key that no slot has to any slot keeps the keys distinct. -/
theorem Distinct.update (distinct : Distinct free keys) {k : κ} (fresh : ∀ i, keys i ≠ k)
    (i : Fin n) : Distinct free (Function.update keys i k) := by
  by_cases marker : k = free
  · subst marker
    exact distinct.clear i
  · exact (distinct.update_iff marker i).mpr fun j _ => fresh j

/-- Taking a free slot for a new key adds an entry. -/
theorem lookup_fill (distinct : Distinct free keys) {i : Fin n} (unused : keys i = free) {k : κ}
    (real : k ≠ free) (fresh : ∀ j, keys j ≠ k) (v : ν) :
    lookup free (Function.update keys i k) (Function.update vals i v)
      = Function.update (lookup free keys vals) k (some v) := by
  have distinct' := distinct.update fresh i
  funext x
  apply Option.ext
  intro w
  rw [lookup_eq_some_iff distinct']
  by_cases here : x = k
  · subst here
    rw [Function.update_self, Option.some_inj]
    constructor
    · rintro ⟨-, j, key, value⟩
      have at_i : j = i := by
        by_contra other
        rw [Function.update_of_ne other] at key
        exact fresh j key
      subst at_i
      simpa using value
    · rintro rfl
      exact ⟨real, i, by simp, by simp⟩
  · rw [Function.update_of_ne here, lookup_eq_some_iff distinct]
    apply and_congr_right
    intro used
    apply exists_congr
    intro j
    by_cases other : j = i
    · subst other
      simp [Ne.symm here, unused, Ne.symm used]
    · simp [Function.update_of_ne other]

/-- Freeing a used slot removes its entry. -/
theorem lookup_clear (distinct : Distinct free keys) {i : Fin n} (used : keys i ≠ free) :
    lookup free (Function.update keys i free) vals
      = Function.update (lookup free keys vals) (keys i) none := by
  have distinct' := distinct.clear i
  funext x
  apply Option.ext
  intro w
  rw [lookup_eq_some_iff distinct']
  by_cases here : x = keys i
  · subst here
    simp only [Function.update_self, reduceCtorEq, iff_false, not_and, not_exists]
    intro _ j key
    have other : j ≠ i := by
      rintro rfl
      rw [Function.update_self] at key
      exact used key.symm
    rw [Function.update_of_ne other] at key
    exact absurd (distinct used key.symm) (Ne.symm other)
  · rw [Function.update_of_ne here, lookup_eq_some_iff distinct]
    apply and_congr_right
    intro real
    apply exists_congr
    intro j
    by_cases other : j = i
    · subst other
      simp [Ne.symm real, Ne.symm here]
    · simp [Function.update_of_ne other]

/-- Giving a used slot a new key moves its entry there. -/
theorem lookup_rekey (distinct : Distinct free keys) {i : Fin n} (used : keys i ≠ free) {k : κ}
    (real : k ≠ free) (fresh : ∀ j, keys j ≠ k) :
    lookup free (Function.update keys i k) vals
      = Function.update (Function.update (lookup free keys vals) (keys i) none) k
          (some (vals i)) := by
  have cleared : Function.update (Function.update keys i free) i k = Function.update keys i k := by
    simp
  have fresh' : ∀ j, Function.update keys i free j ≠ k := by
    intro j
    by_cases other : j = i
    · subst other
      simpa using Ne.symm real
    · rw [Function.update_of_ne other]
      exact fresh j
  have filled : lookup free (Function.update (Function.update keys i free) i k)
      (Function.update vals i (vals i)) = _ :=
    lookup_fill (distinct.clear i) (by simp) real fresh' (vals i)
  rw [cleared, Function.update_eq_self] at filled
  rw [filled, lookup_clear distinct used]

end Updates

/-! ### How many entries there are -/

section Size

omit [DecidableEq κ]

variable {free : κ} {keys : Fin n → κ}

theorem managed_eq_image :
    managed free keys = keys '' {i | keys i ≠ free} := by
  ext k
  constructor
  · rintro ⟨real, i, rfl⟩
    exact ⟨i, real, rfl⟩
  · rintro ⟨i, used, rfl⟩
    exact ⟨used, i, rfl⟩

theorem finite_managed (free : κ) (keys : Fin n → κ) : (managed free keys).Finite := by
  rw [managed_eq_image]
  exact (Set.toFinite _).image keys

theorem ncard_managed (distinct : Distinct free keys) :
    (managed free keys).ncard = {i | keys i ≠ free}.ncard := by
  rw [managed_eq_image]
  apply Set.InjOn.ncard_image
  intro i used j _ same
  exact distinct used same

theorem ncard_managed_le (distinct : Distinct free keys) : (managed free keys).ncard ≤ n := by
  rw [ncard_managed distinct]
  simpa using Set.ncard_le_card {i | keys i ≠ free}

/-- All slots are used exactly when the map has as many entries as there are slots. -/
theorem full_iff (distinct : Distinct free keys) :
    (∀ i, keys i ≠ free) ↔ (managed free keys).ncard = n := by
  rw [ncard_managed distinct]
  constructor
  · intro used
    have everything : {i | keys i ≠ free} = Set.univ := Set.eq_univ_of_forall used
    simp [everything, Set.ncard_univ]
  · intro count i
    by_contra unused
    have proper : {i | keys i ≠ free} ≠ Set.univ := by
      intro everything
      exact (Set.eq_univ_iff_forall.mp everything i) unused
    have fewer := Set.ncard_lt_card proper
    simp [count] at fewer

end Size

end Slots
