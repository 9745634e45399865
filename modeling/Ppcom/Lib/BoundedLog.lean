/-
Module: Ppcom.Lib.BoundedLog
Purpose: A log that keeps the latest entries, up to a bound, and no entry that repeats the one before it.
  What it holds after any entries is the end of all that were given, with the repetitions taken out.
Trusted boundary: none
Main exports: BoundedLog.add, BoundedLog.destutter_concat, BoundedLog.foldl_add, BoundedLog.Retains
-/
import Mathlib.Data.List.Destutter
import Mathlib.Data.List.DropRight

namespace BoundedLog

variable {α : Type} [DecidableEq α]

/-- The entry is added unless the last one is the same; the first one goes where the log is full. -/
def add (bound : Nat) (log : List α) (x : α) : List α :=
  if log.getLast? = some x then log
  else (if log.length = bound then log.drop 1 else log) ++ [x]

variable {log entries : List α} {bound : Nat}

/-! ### Repetitions -/

theorem destutter'_concat (a x : α) (xs : List α) :
    (xs ++ [x]).destutter' (· ≠ ·) a =
      if (xs.destutter' (· ≠ ·) a).getLast? = some x then xs.destutter' (· ≠ ·) a
      else xs.destutter' (· ≠ ·) a ++ [x] := by
  induction xs generalizing a with
  | nil =>
      rw [List.nil_append, List.destutter'_singleton, List.destutter'_nil]
      by_cases same : a = x
      · simp [same]
      · simp [same]
  | cons b xs ih =>
      rw [List.cons_append]
      by_cases differs : a ≠ b
      · obtain ⟨last, is⟩ : ∃ last, (xs.destutter' (· ≠ ·) b).getLast? = some last :=
          ⟨_, List.getLast?_eq_some_getLast (List.destutter'_ne_nil xs (R := (· ≠ ·)))⟩
        rw [List.destutter'_cons_pos _ differs, List.destutter'_cons_pos _ differs, ih,
          List.getLast?_cons, is, Option.getD_some]
        split
        · rfl
        · rw [List.cons_append]
      · rw [List.destutter'_cons_neg _ differs, List.destutter'_cons_neg _ differs, ih]

/-- An entry behind others is taken out if the last one kept is the same. -/
theorem destutter_concat (xs : List α) (x : α) :
    (xs ++ [x]).destutter (· ≠ ·) =
      if (xs.destutter (· ≠ ·)).getLast? = some x then xs.destutter (· ≠ ·)
      else xs.destutter (· ≠ ·) ++ [x] := by
  cases xs with
  | nil => rfl
  | cons a xs => exact destutter'_concat a x xs

/-! ### The end of a list -/

omit [DecidableEq α] in
theorem getLast?_rtake (positive : 0 < bound) (xs : List α) :
    (xs.rtake bound).getLast? = xs.getLast? := by
  cases xs using List.reverseRecOn with
  | nil => simp
  | append_singleton xs x =>
      obtain ⟨k, rfl⟩ := Nat.exists_eq_succ_of_ne_zero positive.ne'
      rw [List.rtake_concat_succ, List.getLast?_concat, List.getLast?_concat]

omit [DecidableEq α] in
/-- The end of a list of one more entry, by the end of the list. -/
theorem rtake_concat (positive : 0 < bound) (xs : List α) (x : α) :
    (xs ++ [x]).rtake bound =
      (if (xs.rtake bound).length = bound then (xs.rtake bound).drop 1 else xs.rtake bound) ++ [x] := by
  obtain ⟨k, rfl⟩ := Nat.exists_eq_succ_of_ne_zero positive.ne'
  rw [List.rtake_concat_succ]
  congr 1
  unfold List.rtake
  rw [List.length_drop]
  split
  · next full =>
    rw [List.drop_drop]
    congr 1
    omega
  · next short =>
    have whole : xs.length ≤ k := by omega
    rw [Nat.sub_eq_zero_of_le whole, Nat.sub_eq_zero_of_le (Nat.le_succ_of_le whole)]

/-! ### The log -/

theorem add_rtake (positive : 0 < bound) (xs : List α) (x : α) :
    add bound ((xs.destutter (· ≠ ·)).rtake bound) x =
      ((xs ++ [x]).destutter (· ≠ ·)).rtake bound := by
  rw [add, getLast?_rtake positive, destutter_concat]
  split
  · rfl
  · rw [rtake_concat positive]

omit [DecidableEq α] in
theorem rtake_of_length_le (short : log.length ≤ bound) : log.rtake bound = log := by
  rw [List.rtake, Nat.sub_eq_zero_of_le short, List.drop_zero]

/-- After any entries the log holds the latest of all, without the repetitions. -/
theorem foldl_add (positive : 0 < bound) (short : log.length ≤ bound)
    (distinct : log.IsChain (· ≠ ·)) :
    entries.foldl (add bound) log = ((log ++ entries).destutter (· ≠ ·)).rtake bound := by
  induction entries using List.reverseRecOn with
  | nil =>
      rw [List.append_nil, List.destutter_of_isChain _ _ distinct, rtake_of_length_le short]
      rfl
  | append_singleton entries x ih =>
      rw [List.foldl_append, ih, ← List.append_assoc, ← add_rtake positive]
      rfl

/-- The log holds the end of what was given, without the repetitions, and at least the latest `least`
entries of it. -/
structure Retains (least : Nat) (given log : List α) : Prop where
  suffix : log <:+ given.destutter (· ≠ ·)
  latest : (given.destutter (· ≠ ·)).rtake least <:+ log

namespace Retains

variable {given : List α} {least least' : Nat}

omit [DecidableEq α] in
theorem rtake_suffix (n : Nat) (xs : List α) : xs.rtake n <:+ xs := List.drop_suffix _ xs

omit [DecidableEq α] in
theorem length_rtake (n : Nat) (xs : List α) : (xs.rtake n).length = min n xs.length := by
  rw [List.rtake, List.length_drop]
  omega

/-- A log without repetitions holds all of what was given. -/
theorem whole (distinct : log.IsChain (· ≠ ·)) : Retains least log log := by
  constructor
  · simp [List.destutter_of_isChain _ _ distinct]
  · rw [List.destutter_of_isChain _ _ distinct]
    exact rtake_suffix _ log

theorem getLast? (retains : Retains least given log) (positive : 0 < least) :
    log.getLast? = (given.destutter (· ≠ ·)).getLast? := by
  obtain ⟨before, is⟩ := retains.suffix
  have count := retains.latest.length_le
  rw [length_rtake] at count
  by_cases none : log = []
  · subst none
    have nothing : given.destutter (· ≠ ·) = [] := by
      apply List.eq_nil_of_length_eq_zero
      rw [List.length_nil] at count
      omega
    rw [nothing]
  · rw [← is, List.getLast?_append_of_ne_nil _ none]

theorem isChain (retains : Retains least given log) : log.IsChain (· ≠ ·) :=
  (List.isChain_destutter (R := (· ≠ ·)) given).suffix retains.suffix

theorem mono (retains : Retains least given log) (le : least' ≤ least) : Retains least' given log := by
  constructor
  · exact retains.suffix
  · apply List.suffix_of_suffix_length_le (rtake_suffix _ _) retains.suffix
    have count := retains.latest.length_le
    rw [length_rtake] at count ⊢
    omega

theorem add (retains : Retains least given log) (positive : 0 < least) (le : least ≤ bound) (x : α) :
    Retains least (given ++ [x]) (BoundedLog.add bound log x) := by
  unfold BoundedLog.add
  rw [retains.getLast? positive]
  by_cases repeated : (given.destutter (· ≠ ·)).getLast? = some x
  · rw [if_pos repeated]
    constructor
    · rw [destutter_concat, if_pos repeated]
      exact retains.suffix
    · rw [destutter_concat, if_pos repeated]
      exact retains.latest
  · have count := retains.latest.length_le
    rw [length_rtake] at count
    rw [if_neg repeated]
    -- what is left of the log where the new entry needs room
    generalize rest : (if log.length = bound then log.drop 1 else log) = left
    have within : left <:+ given.destutter (· ≠ ·) := by
      rw [← rest]
      split
      · exact (List.drop_suffix 1 log).trans retains.suffix
      · exact retains.suffix
    constructor
    · rw [destutter_concat, if_neg repeated]
      obtain ⟨before, is⟩ := within
      exact ⟨before, by rw [← List.append_assoc, is]⟩
    · obtain ⟨k, rfl⟩ := Nat.exists_eq_succ_of_ne_zero positive.ne'
      rw [destutter_concat, if_neg repeated, List.rtake_concat_succ]
      have enough : (given.destutter (· ≠ ·)).rtake k <:+ left := by
        apply List.suffix_of_suffix_length_le (rtake_suffix _ _) within
        rw [length_rtake, ← rest]
        split
        · rw [List.length_drop]
          omega
        · omega
      obtain ⟨before, is⟩ := enough
      exact ⟨before, by rw [← List.append_assoc, is]⟩

/-- A log that is cut to its latest entries retains them. -/
theorem rtake (retains : Retains least given log) (le : least ≤ bound) :
    Retains least given (log.rtake bound) := by
  have within : log.rtake bound <:+ given.destutter (· ≠ ·) :=
    (rtake_suffix _ log).trans retains.suffix
  constructor
  · exact within
  · apply List.suffix_of_suffix_length_le (rtake_suffix _ _) within
    have count := retains.latest.length_le
    rw [length_rtake] at count ⊢
    rw [length_rtake]
    omega

end Retains

theorem length_add (positive : 0 < bound) (short : log.length ≤ bound) (x : α) :
    (add bound log x).length ≤ bound := by
  unfold add
  split
  · exact short
  · rw [List.length_append, List.length_singleton]
    split
    · rw [List.length_drop]
      omega
    · omega

end BoundedLog
