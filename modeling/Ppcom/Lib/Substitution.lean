/-
Module: Ppcom.Lib.Substitution
Purpose: The replacement of a pattern in a text. A text is split where the pattern occurs, and joined
  with what replaces it. Where the replacement can be no part of an occurrence, the text with its
  first occurrence replaced is split at the others, so that a loop which replaces the first one, as
  long as there is one, replaces them all.
Trusted boundary: none
Main exports: Substitution.find, Substitution.split, Substitution.replaceAll,
  Substitution.occurrences, Substitution.Inert, Substitution.split_found, Substitution.split_replaced
-/
import Mathlib.Data.List.Basic

namespace Substitution

variable {α : Type} [DecidableEq α] (p : List α)

/-- Where the pattern occurs first. -/
def find : List α → Option Nat
  | [] => if p = [] then some 0 else none
  | c :: rest => if p <+: c :: rest then some 0 else (find rest).map (· + 1)

/-- The pieces of a text between the occurrences of the pattern; `skip` elements are part of an
occurrence. -/
def splitFrom : Nat → List α → List (List α)
  | _, [] => [[]]
  | skip + 1, _ :: rest => splitFrom skip rest
  | 0, c :: rest =>
      if p <+: c :: rest then [] :: splitFrom (p.length - 1) rest
      else (splitFrom 0 rest).modifyHead (c :: ·)

/-- The pieces of a text between the occurrences of the pattern. -/
def split (text : List α) : List (List α) := splitFrom p 0 text

/-- How often the pattern occurs. -/
def occurrences (text : List α) : Nat := (split p text).length - 1

/-- The text with every occurrence of the pattern replaced. -/
def replaceAll (r text : List α) : List α := r.intercalate (split p text)

/-- No occurrence of the pattern starts in `w` where `v` follows. -/
def Clear (w v : List α) : Prop := ∀ j < w.length, ¬ p <+: (w ++ v).drop j

/-- What can be no part of an occurrence: none starts in it, and none that starts before it reaches
it. -/
structure Inert (r : List α) : Prop where
  head : ∃ a rest, r = a :: rest ∧ a ∉ p.tail
  clear : ∀ v, Clear p r v

variable {p} {r text u v w : List α}

/-! ### Where no occurrence starts -/

omit [DecidableEq α] in
theorem Clear.append {later : List α} (first : Clear p w (later ++ v)) (second : Clear p later v) :
    Clear p (w ++ later) v := by
  intro j small
  rw [List.append_assoc]
  by_cases early : j < w.length
  · exact first j early
  · rw [List.length_append] at small
    rw [List.drop_append, List.drop_of_length_le (Nat.le_of_not_lt early), List.nil_append]
    exact second _ (by omega)

omit [DecidableEq α] in
/-- No occurrence starts where its first element is not. -/
theorem clear_of_not_mem {a : α} {q : List α} (foreign : a ∉ w) : Clear (a :: q) w v := by
  intro j small starts
  obtain ⟨more, is⟩ := starts
  have here : (w ++ v)[j]? = some a := by
    rw [← List.head?_drop, ← is]
    rfl
  rw [List.getElem?_append_left small] at here
  exact foreign (List.mem_of_getElem? here)

/-! ### Pieces -/

theorem splitFrom_eq (p : List α) (skip : Nat) (text : List α) :
    splitFrom p skip text = split p (text.drop skip) := by
  induction skip generalizing text with
  | zero => rfl
  | succ skip ih =>
      cases text with
      | nil => rfl
      | cons c rest =>
          rw [splitFrom, List.drop_succ_cons]
          exact ih rest

theorem split_nonempty (p text : List α) : split p text ≠ [] := by
  suffices all : ∀ skip, splitFrom p skip text ≠ [] from all 0
  induction text with
  | nil => exact fun _ => nofun
  | cons c rest ih =>
      intro skip
      cases skip with
      | zero =>
          rw [splitFrom]
          split
          · exact nofun
          · exact fun empty => ih 0 (List.modifyHead_eq_nil_iff.mp empty)
      | succ skip => exact ih skip

theorem split_prefix (some : p ≠ []) (v : List α) : split p (p ++ v) = [] :: split p v := by
  obtain ⟨a, q, rfl⟩ := List.exists_cons_of_ne_nil some
  have here : a :: q <+: a :: (q ++ v) := List.prefix_append (a :: q) v
  rw [split, List.cons_append, splitFrom, if_pos here, splitFrom_eq]
  simp

/-- Where no occurrence starts the text is part of the first piece. -/
theorem split_clear (clear : Clear p w v) :
    split p (w ++ v) = (split p v).modifyHead (w ++ ·) := by
  induction w with
  | nil =>
      obtain ⟨first, rest, is⟩ := List.exists_cons_of_ne_nil (split_nonempty p v)
      simp [is]
  | cons c w ih =>
      have later : Clear p w v := fun j small => clear (j + 1) (Nat.succ_lt_succ small)
      have here : ¬ p <+: c :: (w ++ v) := clear 0 (Nat.zero_lt_succ _)
      rw [split, List.cons_append, splitFrom, if_neg here]
      change (split p (w ++ v)).modifyHead _ = _
      rw [ih later, List.modifyHead_modifyHead]
      rfl

/-! ### The first occurrence -/

/-- Where the pattern is found, and that it does not occur before. -/
theorem find_some {i : Nat} (found : find p text = some i) :
    ∃ u v, text = u ++ (p ++ v) ∧ u.length = i ∧ Clear p u (p ++ v) := by
  induction text generalizing i with
  | nil =>
      rw [find] at found
      split at found
      · next empty =>
        cases found
        exact ⟨[], [], by simp [empty], rfl, nofun⟩
      · cases found
  | cons c rest ih =>
      rw [find] at found
      split at found
      · next here =>
        cases found
        obtain ⟨v, is⟩ := here
        exact ⟨[], v, is.symm, rfl, nofun⟩
      · next absent =>
        obtain ⟨j, later, rfl⟩ := Option.map_eq_some_iff.mp found
        obtain ⟨u, v, rfl, length, clear⟩ := ih later
        refine ⟨c :: u, v, rfl, by rw [List.length_cons, length], fun k small => ?_⟩
        cases k with
        | zero => exact absent
        | succ k => exact clear k (Nat.lt_of_succ_lt_succ small)

/-- A text in which the pattern is not found is one piece. -/
theorem split_of_find_none (none : find p text = none) : split p text = [text] := by
  induction text with
  | nil => rfl
  | cons c rest ih =>
      rw [find] at none
      split at none
      · cases none
      · next absent =>
        rw [split, splitFrom, if_neg absent]
        change (split p rest).modifyHead _ = _
        rw [ih (Option.map_eq_none_iff.mp none)]
        rfl

/-- A text is split at the first occurrence. -/
theorem split_found (some : p ≠ []) (clear : Clear p u (p ++ v)) :
    split p (u ++ (p ++ v)) = u :: split p v := by
  rw [split_clear clear, split_prefix some]
  simp

omit [DecidableEq α] in
/-- What replaces an occurrence makes no new one with what stands before it. -/
theorem Inert.clear_before (inert : Inert p r) (clear : Clear p u (p ++ v)) :
    Clear p u (r ++ v) := by
  obtain ⟨a, rest, rfl, foreign⟩ := inert.head
  intro j small starts
  rw [List.drop_append_of_le_length (Nat.le_of_lt small)] at starts
  by_cases reaches : p.length ≤ (u.drop j).length
  · apply clear j small
    rw [List.drop_append_of_le_length (Nat.le_of_lt small)]
    exact (List.prefix_of_prefix_length_le starts (List.prefix_append _ _) reaches).trans
      (List.prefix_append _ _)
  · apply foreign
    obtain ⟨more, is⟩ := starts
    have position : 0 < (u.drop j).length := by
      rw [List.length_drop]
      omega
    have here : p[(u.drop j).length]? = some a := by
      have same : (p ++ more)[(u.drop j).length]? = p[(u.drop j).length]? :=
        List.getElem?_append_left (Nat.lt_of_not_le reaches)
      rw [← same, is, List.getElem?_append_right (Nat.le_refl _)]
      simp
    cases p with
    | nil => cases here
    | cons b q =>
        obtain ⟨k, is⟩ := Nat.exists_eq_add_of_lt position
        rw [is, Nat.zero_add, List.getElem?_cons_succ] at here
        exact List.mem_of_getElem? here

/-- With the first occurrence replaced, what stands before the second is one piece. -/
theorem split_replaced (inert : Inert p r) (clear : Clear p u (p ++ v)) :
    split p (u ++ (r ++ v)) = (split p v).modifyHead (u ++ r ++ ·) := by
  rw [split_clear (inert.clear_before clear), split_clear (inert.clear v),
    List.modifyHead_modifyHead]
  congr 1
  funext piece
  simp

/-- An occurrence takes an element of the text. -/
theorem length_splitFrom (p : List α) (skip : Nat) (text : List α) :
    (splitFrom p skip text).length ≤ text.length + 1 := by
  induction text generalizing skip with
  | nil =>
      cases skip with
      | zero => exact Nat.le_refl _
      | succ skip => exact Nat.le_refl _
  | cons c rest ih =>
      cases skip with
      | succ skip => exact Nat.le_succ_of_le (ih skip)
      | zero =>
          rw [splitFrom]
          split
          · exact Nat.succ_le_succ (ih _)
          · rw [List.length_modifyHead]
            exact Nat.le_succ_of_le (ih 0)

theorem occurrences_le_length (p text : List α) : occurrences p text ≤ text.length :=
  Nat.sub_le_of_le_add (length_splitFrom p 0 text)

/-! ### Replacement -/

theorem replaceAll_replaced (some : p ≠ []) (inert : Inert p r) (clear : Clear p u (p ++ v)) :
    replaceAll p r (u ++ (r ++ v)) = replaceAll p r (u ++ (p ++ v)) := by
  obtain ⟨first, rest, is⟩ := List.exists_cons_of_ne_nil (split_nonempty p v)
  rw [replaceAll, replaceAll, split_replaced inert clear, split_found some clear, is]
  cases rest <;> simp [List.intercalate, List.intersperse]

theorem occurrences_replaced (some : p ≠ []) (inert : Inert p r) (clear : Clear p u (p ++ v)) :
    occurrences p (u ++ (p ++ v)) = occurrences p (u ++ (r ++ v)) + 1 := by
  obtain ⟨first, rest, is⟩ := List.exists_cons_of_ne_nil (split_nonempty p v)
  rw [occurrences, occurrences, split_replaced inert clear, split_found some clear, is]
  simp

theorem replaceAll_of_find_none (r : List α) (none : find p text = none) :
    replaceAll p r text = text := by
  rw [replaceAll, split_of_find_none none]
  simp [List.intercalate]

theorem occurrences_eq_zero_iff (some : p ≠ []) :
    occurrences p text = 0 ↔ find p text = none := by
  constructor
  · intro zero
    cases found : find p text with
    | none => rfl
    | some i =>
        obtain ⟨u, v, rfl, -, clear⟩ := find_some found
        obtain ⟨first, rest, is⟩ := List.exists_cons_of_ne_nil (split_nonempty p v)
        rw [occurrences, split_found some clear, is] at zero
        cases zero
  · intro none
    rw [occurrences, split_of_find_none none]
    rfl

end Substitution
