/-
Module: Ppcom.Lib.Stores
Purpose: The stores a function makes into a block of memory, as a log of offsets and values in the order
  in which they are made, and what the memory holds afterwards.
Trusted boundary: none
Main exports: Stores.apply, Stores.block, Stores.apply_block, Stores.apply_of_notMem
-/
import Mathlib.Data.List.Basic
import Mathlib.Logic.Function.Basic

namespace Stores

variable {α : Type}

/-- What the memory holds after the stores of `log`. -/
def apply (mem : Nat → α) (log : List (Nat × α)) : Nat → α :=
  log.foldl (fun mem store => Function.update mem store.1 store.2) mem

/-- The stores that put `xs` at the offsets from `n` on, in order. -/
def block : Nat → List α → List (Nat × α)
  | _, [] => []
  | n, x :: xs => (n, x) :: block (n + 1) xs

@[simp] theorem apply_nil (mem : Nat → α) : apply mem [] = mem := rfl

@[simp] theorem apply_cons (mem : Nat → α) (store : Nat × α) (log : List (Nat × α)) :
    apply mem (store :: log) = apply (Function.update mem store.1 store.2) log := rfl

theorem apply_append (mem : Nat → α) (log more : List (Nat × α)) :
    apply mem (log ++ more) = apply (apply mem log) more := by
  simp [apply]

/-- A place that no store is made to keeps what it holds. -/
theorem apply_of_notMem (mem : Nat → α) (log : List (Nat × α)) {i : Nat}
    (untouched : ∀ store ∈ log, store.1 ≠ i) : apply mem log i = mem i := by
  induction log generalizing mem with
  | nil => rfl
  | cons store log ih =>
      rw [apply_cons, ih _ fun later member => untouched later (List.mem_cons_of_mem store member)]
      exact Function.update_of_ne (untouched store (by simp)).symm _ _

theorem block_mem {n : Nat} {xs : List α} {store : Nat × α} (member : store ∈ block n xs) :
    n ≤ store.1 ∧ store.1 < n + xs.length := by
  induction xs generalizing n with
  | nil => cases member
  | cons x xs ih =>
      rw [List.length_cons]
      rcases List.mem_cons.mp member with rfl | later
      · exact ⟨Nat.le_refl n, by simp⟩
      · have bounds := ih later
        omega

/-- A block of stores tells what was stored. -/
theorem block_injective (n : Nat) : Function.Injective (block (α := α) n) := by
  intro xs ys same
  induction xs generalizing n ys with
  | nil =>
      cases ys with
      | nil => rfl
      | cons y ys => cases same
  | cons x xs ih =>
      cases ys with
      | nil => cases same
      | cons y ys =>
          injection same with head rest
          injection head with _ value
          rw [value, ih (n + 1) rest]

/-- The memory after a block of stores: the block, and around it what was there. -/
theorem apply_block (mem : Nat → α) (n : Nat) (xs : List α) (i : Nat) :
    apply mem (block n xs) (n + i) = (xs[i]?).getD (mem (n + i)) := by
  induction xs generalizing mem n i with
  | nil => rfl
  | cons x xs ih =>
      rw [block, apply_cons]
      cases i with
      | zero =>
          have untouched : ∀ store ∈ block (n + 1) xs, store.1 ≠ n + 0 := by
            intro store member
            have bounds := block_mem member
            omega
          rw [apply_of_notMem _ _ untouched]
          simp
      | succ i =>
          have place : n + (i + 1) = n + 1 + i := by omega
          have other : n + 1 + i ≠ n := by omega
          rw [place, ih, List.getElem?_cons_succ]
          simp only [Function.update_of_ne other]

end Stores
