/-
Module: Ppcom.Lib.Neighbours
Purpose: Steps along a strictly increasing list, over any linear order: to the first element above a value,
  and to the last one below it. The two scans are each other's inverse between neighbours, and the steps
  in one direction come to an end.
Trusted boundary: none
Main exports: Neighbours.above, Neighbours.below, Neighbours.above_cases, Neighbours.below_cases,
  Neighbours.Adjacent, Neighbours.exists_iterate_above, Neighbours.exists_iterate_below
-/
import Mathlib.Order.Bounds.Basic
import Mathlib.Order.Iterate

namespace Neighbours

variable {α : Type} [LinearOrder α]

/-- The first element of the list above `b`; `b` itself where there is none. -/
def above (xs : List α) (b : α) : α := (xs.find? fun x => decide (b < x)).getD b

/-- The last element of the list below `b`; `b` itself where there is none. -/
def below (xs : List α) (b : α) : α := (xs.reverse.find? fun x => decide (x < b)).getD b

variable {xs : List α} {b c : α}

omit [LinearOrder α] in
/-- What is found in a list in which `R` relates every element to the later ones. -/
theorem rel_of_find {R : α → α → Prop} {p : α → Bool} (ordered : xs.Pairwise R)
    (found : xs.find? p = some c) : c ∈ xs ∧ p c ∧ ∀ x ∈ xs, p x → x = c ∨ R c x := by
  induction ordered with
  | nil => cases found
  | @cons a rest before ordered ih =>
      rw [List.find?_cons] at found
      cases holds : p a with
      | true =>
          rw [holds] at found
          cases found
          refine ⟨List.mem_cons_self, holds, fun x inside _ => ?_⟩
          rcases List.mem_cons.mp inside with rfl | later
          · exact .inl rfl
          · exact .inr (before x later)
      | false =>
          rw [holds] at found
          obtain ⟨inside, is, first⟩ := ih found
          refine ⟨List.mem_cons_of_mem _ inside, is, fun x inside' is' => ?_⟩
          rcases List.mem_cons.mp inside' with rfl | later
          · rw [holds] at is'
            cases is'
          · exact first x later is'

/-- A step up leads to the least element above, where there is one. -/
theorem above_cases (sorted : xs.Pairwise (· < ·)) (b : α) :
    IsLeast {x | x ∈ xs ∧ b < x} (above xs b) ∨ (∀ x ∈ xs, x ≤ b) ∧ above xs b = b := by
  unfold above
  cases found : xs.find? fun x => decide (b < x) with
  | none =>
      rw [List.find?_eq_none] at found
      exact .inr ⟨fun x inside => not_lt.mp (by simpa using found x inside), rfl⟩
  | some c =>
      obtain ⟨inside, higher, first⟩ := rel_of_find sorted found
      refine .inl ⟨⟨inside, of_decide_eq_true higher⟩, fun x both => ?_⟩
      rcases first x both.1 (decide_eq_true both.2) with rfl | later
      · exact le_rfl
      · exact le_of_lt later

theorem le_above (sorted : xs.Pairwise (· < ·)) (b : α) : b ≤ above xs b := by
  rcases above_cases sorted b with least | ⟨-, same⟩
  · exact le_of_lt least.1.2
  · rw [same]

theorem above_mem_or (sorted : xs.Pairwise (· < ·)) (b : α) : above xs b = b ∨ above xs b ∈ xs := by
  rcases above_cases sorted b with least | ⟨-, same⟩
  · exact .inr least.1.1
  · exact .inl same

/-- A step up leads nowhere exactly if nothing is above. -/
theorem above_eq_iff (sorted : xs.Pairwise (· < ·)) : above xs b = b ↔ ∀ x ∈ xs, x ≤ b := by
  rcases above_cases sorted b with least | ⟨none, same⟩
  · constructor
    · exact fun same => absurd same (ne_of_gt least.1.2)
    · exact fun none => absurd least.1.2 (not_lt.mpr (none _ least.1.1))
  · exact iff_of_true same none

/-! ### Neighbours -/

/-- Two elements of the list with none between them. -/
structure Adjacent (xs : List α) (b c : α) : Prop where
  left : b ∈ xs
  right : c ∈ xs
  lt : b < c
  between : ∀ x ∈ xs, ¬ (b < x ∧ x < c)

theorem Adjacent.above_eq (adjacent : Adjacent xs b c) (sorted : xs.Pairwise (· < ·)) :
    above xs b = c := by
  rcases above_cases sorted b with least | ⟨none, -⟩
  · have upper := least.2 ⟨adjacent.right, adjacent.lt⟩
    rcases upper.lt_or_eq with less | same
    · exact absurd ⟨least.1.2, less⟩ (adjacent.between _ least.1.1)
    · exact same
  · exact absurd adjacent.lt (not_lt.mpr (none c adjacent.right))

/-! ### Repeated steps -/

/-- Steps that decrease a number as long as they lead anywhere come to an end. -/
theorem exists_iterate_stays {β : Type} {f : β → β} {left : β → Nat}
    (decreases : ∀ b, f b = b ∨ left (f b) < left b) (b : β) : ∃ n, f (f^[n] b) = f^[n] b := by
  induction count : left b using Nat.strong_induction_on generalizing b with
  | _ k ih =>
      rcases decreases b with same | less
      · exact ⟨0, same⟩
      · obtain ⟨n, stays⟩ := ih _ (count ▸ less) (f b) rfl
        exact ⟨n + 1, by simpa using stays⟩

/-- From then on they stay. -/
theorem iterate_stays {β : Type} {f : β → β} {b : β} {n : Nat} (stays : f (f^[n] b) = f^[n] b) :
    ∀ m ≥ n, f^[m] b = f^[n] b := by
  intro m later
  obtain ⟨k, rfl⟩ := Nat.exists_eq_add_of_le later
  rw [Nat.add_comm, Function.iterate_add_apply]
  exact Function.iterate_fixed stays k

/-- Fewer elements have the stronger of two properties, where one has the weaker only. -/
theorem countP_lt {β : Type} {ys : List β} {p q : β → Bool} (weaker : ∀ y, p y → q y) {y : β}
    (inside : y ∈ ys) (has : q y) (hasNot : ¬ p y) : ys.countP p < ys.countP q := by
  have again : ys.filter p = (ys.filter q).filter p := by
    rw [List.filter_filter]
    apply List.filter_congr
    intro z _
    have implies := weaker z
    cases holds : p z
    · rfl
    · rw [implies holds]
      rfl
  rw [List.countP_eq_length_filter, List.countP_eq_length_filter, again,
    List.length_filter_lt_length_iff_exists]
  exact ⟨y, List.mem_filter.mpr ⟨inside, has⟩, hasNot⟩

/-- A step up leaves fewer elements above. -/
theorem above_decreases (sorted : xs.Pairwise (· < ·)) (b : α) :
    above xs b = b ∨ xs.countP (fun x => decide (above xs b < x)) <
      xs.countP fun x => decide (b < x) := by
  rcases above_cases sorted b with least | ⟨-, same⟩
  · right
    refine countP_lt (fun x higher => ?_) least.1.1 (decide_eq_true least.1.2) (by simp)
    exact decide_eq_true (least.1.2.trans (of_decide_eq_true higher))
  · exact .inl same

/-- Steps up stay at or above the start, and lead to elements. -/
theorem iterate_above (sorted : xs.Pairwise (· < ·)) (b : α) (n : Nat) :
    b ≤ (above xs)^[n] b ∧ ((above xs)^[n] b = b ∨ (above xs)^[n] b ∈ xs) := by
  induction n with
  | zero => exact ⟨le_rfl, .inl rfl⟩
  | succ n ih =>
      rw [Function.iterate_succ_apply']
      refine ⟨ih.1.trans (le_above sorted _), ?_⟩
      rcases above_mem_or sorted ((above xs)^[n] b) with same | inside
      · rw [same]
        exact ih.2
      · exact .inr inside

/-- Repeated steps up reach the greatest element, unless they start above it, and stay there. -/
theorem exists_iterate_above (sorted : xs.Pairwise (· < ·)) {top : α}
    (greatest : IsGreatest {x | x ∈ xs} top) (b : α) :
    ∃ n, ∀ m ≥ n, (above xs)^[m] b = max b top := by
  obtain ⟨n, stays⟩ := @exists_iterate_stays α (above xs)
    (fun b => xs.countP fun x => decide (b < x)) (above_decreases sorted) b
  obtain ⟨higher, inside⟩ := iterate_above sorted b n
  have highest := (above_eq_iff sorted).mp stays top greatest.1
  refine ⟨n, fun m later => (iterate_stays stays m later).trans ?_⟩
  rcases inside with same | inside
  · rw [same] at highest ⊢
    exact (max_eq_left highest).symm
  · have same := le_antisymm (greatest.2 inside) highest
    rw [same] at higher ⊢
    exact (max_eq_right higher).symm

/-! ### Steps down -/

theorem sorted_dual (sorted : xs.Pairwise (· < ·)) :
    @List.Pairwise αᵒᵈ (· < ·) xs.reverse :=
  List.pairwise_reverse.mpr sorted

/-- A step down leads to the greatest element below, where there is one. -/
theorem below_cases (sorted : xs.Pairwise (· < ·)) (b : α) :
    IsGreatest {x | x ∈ xs ∧ x < b} (below xs b) ∨ (∀ x ∈ xs, b ≤ x) ∧ below xs b = b := by
  rcases @above_cases αᵒᵈ _ xs.reverse (sorted_dual sorted) b with greatest | ⟨none, same⟩
  · refine .inl ⟨⟨List.mem_reverse.mp greatest.1.1, greatest.1.2⟩, fun x both => ?_⟩
    exact greatest.2 ⟨List.mem_reverse.mpr both.1, both.2⟩
  · exact .inr ⟨fun x inside => none x (List.mem_reverse.mpr inside), same⟩

theorem below_le (sorted : xs.Pairwise (· < ·)) (b : α) : below xs b ≤ b :=
  @le_above αᵒᵈ _ xs.reverse (sorted_dual sorted) b

theorem Adjacent.below_eq (adjacent : Adjacent xs b c) (sorted : xs.Pairwise (· < ·)) :
    below xs c = b := by
  have dual : @Adjacent αᵒᵈ _ xs.reverse c b :=
    ⟨List.mem_reverse.mpr adjacent.right, List.mem_reverse.mpr adjacent.left, adjacent.lt,
      fun x inside both => adjacent.between x (List.mem_reverse.mp inside) both.symm⟩
  exact @Adjacent.above_eq αᵒᵈ _ xs.reverse c b dual (sorted_dual sorted)

/-- Repeated steps down reach the least element, unless they start below it, and stay there. -/
theorem exists_iterate_below (sorted : xs.Pairwise (· < ·)) {low : α}
    (least : IsLeast {x | x ∈ xs} low) (b : α) :
    ∃ n, ∀ m ≥ n, (below xs)^[m] b = min b low := by
  have greatest : @IsGreatest αᵒᵈ _ {x | x ∈ xs.reverse} low :=
    ⟨List.mem_reverse.mpr least.1, fun x inside => least.2 (List.mem_reverse.mp inside)⟩
  exact @exists_iterate_above αᵒᵈ _ xs.reverse (sorted_dual sorted) low greatest b

end Neighbours
