/-
Module: Ppcom.Lib.Handles
Purpose: Handles that a system gives out under numbers which it uses again: which numbers are open, and a
  ledger of the handles that one owner obtained and how often it closed each. An owner that stores one
  number owns what it obtained if that is a handle which it has not closed and all others it has closed
  once.
Trusted boundary: none
Main exports: Handle, Handles, Handles.Holds, Handles.Settled, Handles.Owned, Handles.owned_obtain_iff,
  Handles.owned_close_iff
-/
import Mathlib.Data.List.Basic
import Mathlib.Logic.Function.Basic

/-- A handle that was obtained: its number, what it is open on, and how often it was closed. -/
structure Handle (ν φ : Type) where
  number : ν
  file : φ
  closes : Nat
deriving DecidableEq, Repr

/-- The numbers that are open, and the handles that the owner obtained, from the last one on. -/
structure Handles (ν φ : Type) where
  opened : ν → Bool
  ledger : List (Handle ν φ)

namespace Handles

variable {ν φ : Type} [DecidableEq ν] {h : Handles ν φ} {unset d e : ν} {f g : φ}

/-- The last handle with a number. -/
def latest (d : ν) (ledger : List (Handle ν φ)) : Option (Handle ν φ) :=
  ledger.find? (·.number = d)

/-- That handle is closed. -/
def mark (d : ν) : List (Handle ν φ) → List (Handle ν φ)
  | [] => []
  | handle :: rest =>
      if handle.number = d then { handle with closes := handle.closes + 1 } :: rest
      else handle :: mark d rest

/-- The owner obtains a handle. -/
def obtain (h : Handles ν φ) (d : ν) (f : φ) : Handles ν φ where
  opened := Function.update h.opened d true
  ledger := ⟨d, f, 0⟩ :: h.ledger

/-- The owner closes a number, which it may never have obtained. -/
def close (h : Handles ν φ) (d : ν) : Handles ν φ where
  opened := Function.update h.opened d false
  ledger := mark d h.ledger

/-- The number is open, for a handle on `f` that the owner has not closed. -/
def Holds (h : Handles ν φ) (d : ν) (f : φ) : Prop :=
  h.opened d = true ∧ latest d h.ledger = some ⟨d, f, 0⟩

/-- Each handle was closed once. -/
def Settled (h : Handles ν φ) : Prop := ∀ handle ∈ h.ledger, handle.closes = 1

/-- The owner that stores `d` owns what it obtained: `unset` stands for nothing, and another number for
the only handle that it has not closed. -/
def Owned (unset : ν) (h : Handles ν φ) (d : ν) (f : φ) : Prop :=
  d = unset ∧ h.Settled ∨ d ≠ unset ∧ h.Holds d f ∧ (h.close d).Settled

/-! ### The ledger -/

theorem mem_mark {ledger : List (Handle ν φ)} (handle : Handle ν φ) (other : handle.number ≠ d) :
    handle ∈ mark d ledger ↔ handle ∈ ledger := by
  induction ledger with
  | nil => rfl
  | cons first rest ih =>
      rw [mark]
      split
      · next same =>
        have differs : handle ≠ first := fun is => other (is ▸ same)
        have differs' : handle ≠ { first with closes := first.closes + 1 } :=
          fun is => other (is ▸ same)
        rw [List.mem_cons, List.mem_cons, or_iff_right differs, or_iff_right differs']
      · rw [List.mem_cons, List.mem_cons, ih]

theorem mark_absent {ledger : List (Handle ν φ)} (absent : latest d ledger = none) :
    mark d ledger = ledger := by
  induction ledger with
  | nil => rfl
  | cons first rest ih =>
      unfold latest at absent ih
      rw [List.find?_cons] at absent
      split at absent
      · cases absent
      · next other =>
        rw [mark, if_neg (of_decide_eq_false other), ih absent]

theorem latest_mark {ledger : List (Handle ν φ)} {handle : Handle ν φ}
    (found : latest d ledger = some handle) :
    { handle with closes := handle.closes + 1 } ∈ mark d ledger := by
  induction ledger with
  | nil => cases found
  | cons first rest ih =>
      unfold latest at found ih
      rw [List.find?_cons] at found
      split at found
      · next same =>
        cases found
        rw [mark, if_pos (of_decide_eq_true same)]
        exact List.mem_cons_self
      · next other =>
        rw [mark, if_neg (of_decide_eq_false other)]
        exact List.mem_cons_of_mem _ (ih found)

theorem mem_of_latest {ledger : List (Handle ν φ)} {handle : Handle ν φ}
    (found : latest d ledger = some handle) : handle ∈ ledger ∧ handle.number = d :=
  ⟨List.mem_of_find?_eq_some found, by simpa using List.find?_some found⟩

/-! ### What is owned -/

omit [DecidableEq ν] in
theorem settled_nil (nothing : h.ledger = []) : h.Settled := by
  intro handle inside
  rw [nothing] at inside
  cases inside

/-- A handle that is held is not closed. -/
theorem Holds.not_settled (holds : h.Holds d f) : ¬ h.Settled := fun settled => by
  have once := settled _ (mem_of_latest holds.2).1
  cases once

/-- The owner stores nothing. -/
theorem owned_unset_iff (owned : Owned unset h d g) : Owned unset h unset f ↔ d = unset := by
  unfold Owned
  simp only [true_and, ne_eq, not_true_eq_false, false_and, or_false]
  rcases owned with ⟨idle, settled⟩ | ⟨busy, holds, -⟩
  · exact iff_of_true settled idle
  · exact iff_of_false holds.not_settled busy

/-- The owner obtains a handle and stores it. -/
theorem owned_obtain_iff (owned : Owned unset h d g) (busy : e ≠ unset) {f' : φ} :
    Owned unset (h.obtain e f') e f ↔ d = unset ∧ f' = f := by
  have settled : ((h.obtain e f').close e).Settled ↔ h.Settled := by
    simp [Settled, close, obtain, mark]
  have holds : (h.obtain e f').Holds e f ↔ f' = f := by
    simp [Holds, obtain, latest]
  rw [Owned, settled, holds, or_iff_right fun idle => busy idle.1, and_iff_right busy, and_comm]
  apply and_congr_left
  intro _
  rcases owned with ⟨idle, settled⟩ | ⟨set, holds, -⟩
  · exact iff_of_true settled idle
  · exact iff_of_false holds.not_settled set

/-- It obtains one and stores another number. -/
theorem not_owned_obtain {f' : φ} (other : d ≠ e) : ¬ Owned unset (h.obtain e f') d f := by
  rintro (⟨-, settled⟩ | ⟨-, -, settled⟩)
  · have once := settled ⟨e, f', 0⟩ List.mem_cons_self
    cases once
  · have once := settled ⟨e, f', 0⟩ ((mem_mark _ other.symm).mpr List.mem_cons_self)
    cases once

/-- It closes a number and goes on to store what it did. -/
theorem owned_close_iff (owned : Owned unset h d f) :
    Owned unset (h.close e) d f ↔ latest e h.ledger = none := by
  constructor
  · intro after
    cases found : latest e h.ledger with
    | none => rfl
    | some handle =>
        -- a handle that was closed once before is closed twice now
        obtain ⟨inside, number⟩ := mem_of_latest found
        have twice := latest_mark found
        rcases owned with ⟨idle, settled⟩ | ⟨busy, -, settled⟩
        · rcases after with ⟨-, settled'⟩ | ⟨busy, -⟩
          · have once := settled _ inside
            have again : handle.closes + 1 = 1 := settled' _ twice
            omega
          · exact absurd idle busy
        · rcases after with ⟨idle, -⟩ | ⟨-, holds, settled'⟩
          · exact absurd idle busy
          · by_cases same : d = e
            · subst same
              have isOpen := holds.1
              have shut : (h.close d).opened d = false := Function.update_self ..
              rw [shut] at isOpen
              cases isOpen
            · have differs : handle.number ≠ d := fun is => same (is ▸ number)
              have once := settled _ ((mem_mark handle differs).mpr inside)
              have again : handle.closes + 1 = 1 := settled' _
                ((mem_mark { handle with closes := handle.closes + 1 } differs).mpr twice)
              omega
  · intro absent
    have same : mark e h.ledger = h.ledger := mark_absent absent
    rcases owned with ⟨idle, settled⟩ | ⟨busy, holds, settled⟩
    · refine .inl ⟨idle, ?_⟩
      rw [Settled, close, same]
      exact settled
    · have other : d ≠ e := by
        rintro rfl
        rw [holds.2] at absent
        cases absent
      refine .inr ⟨busy, ⟨?_, ?_⟩, ?_⟩
      · exact (Function.update_of_ne other ..).trans holds.1
      · rw [close, same]
        exact holds.2
      · change ∀ handle ∈ mark d (mark e h.ledger), _
        rw [same]
        exact settled

/-- Only the number that is stored has to stay open. -/
theorem Owned.of_opened {opened : ν → Bool} (owned : Owned unset h d f)
    (same : h.Holds d f → opened d = true) :
    Owned unset { h with opened := opened } d f := by
  rcases owned with idle | ⟨busy, holds, settled⟩
  · exact .inl idle
  · exact .inr ⟨busy, ⟨same holds, holds.2⟩, settled⟩

end Handles
