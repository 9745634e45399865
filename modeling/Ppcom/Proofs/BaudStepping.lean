/-
Module: Ppcom.Proofs.BaudStepping
Purpose: The steps from one baud rate to the next, over any table: where they lead, that they undo each
  other between neighbours, and where repeated steps end.
Trusted boundary: none
Main exports: SpeedTable.termBaudUp_above, SpeedTable.termBaudDown_below, SpeedTable.baudDown_below,
  SpeedTable.baud_stepping
-/
import Ppcom.Lib.Neighbours
import Ppcom.Main
import Ppcom.SpeedTable

namespace Ppcom.SpeedTable

open Neighbours

variable (table : SpeedTable) {b c : Int}

/-! ### The scans -/

theorem termBaudUp_above : table.termBaudUp = above table.speeds := by
  funext b
  rw [above, speeds, List.find?_map, termBaudUp]
  change _ = ((table.entries.find? fun entry => decide (b < entry.1)).map Prod.fst).getD b
  cases table.entries.find? fun entry => decide (b < entry.1) with
  | none => rfl
  | some entry => rfl

theorem termBaudDown_below : table.termBaudDown = below table.speeds := by
  funext b
  rw [below, speeds, ← List.map_reverse, List.find?_map, termBaudDown]
  change _ = ((table.entries.reverse.find? fun entry => decide (entry.1 < b)).map Prod.fst).getD b
  cases table.entries.reverse.find? fun entry => decide (entry.1 < b) with
  | none => rfl
  | some entry => rfl

theorem speeds_increasing : table.speeds.Pairwise (· < ·) := table.increasing

/-! ### The rate zero -/

theorem zero_mem : 0 ∈ table.speeds := by
  obtain ⟨entry, first, is⟩ := Option.map_eq_some_iff.mp table.zero
  exact List.mem_map.mpr ⟨entry, List.mem_of_head? first, is⟩

/-- The rate zero is the least. -/
theorem natural : ∀ x ∈ table.speeds, 0 ≤ x := by
  intro x inside
  obtain ⟨entry, first, is⟩ := Option.map_eq_some_iff.mp table.zero
  obtain ⟨rest, entries⟩ := List.head?_eq_some_iff.mp first
  have increasing := table.increasing
  rw [entries, List.map_cons, List.pairwise_cons, is] at increasing
  rw [speeds, entries, List.map_cons, is] at inside
  rcases List.mem_cons.mp inside with rfl | later
  · exact le_rfl
  · exact le_of_lt (increasing.1 x later)

/-- The rates that `baud_down` steps to. -/
def positive : List Int := table.speeds.filter fun x => decide (0 < x)

theorem mem_positive {x : Int} : x ∈ table.positive ↔ x ∈ table.speeds ∧ 0 < x := by
  rw [positive, List.mem_filter, decide_eq_true_eq]

theorem positive_increasing : table.positive.Pairwise (· < ·) :=
  table.speeds_increasing.filter _

/-- What is masked by `baud_down` is the step to zero, so that it steps along the positive rates. -/
theorem baudDown_below (custom : 0 < b) : table.baudDown b = below table.positive b := by
  rw [baudDown, termBaudDown_below]
  rcases below_cases table.speeds_increasing b with all | ⟨none, -⟩
  · rcases below_cases table.positive_increasing b with some | ⟨none, same⟩
    · have inside := table.mem_positive.mp some.1.1
      have next : below table.speeds b = below table.positive b := by
        apply le_antisymm
        · have above : below table.positive b ≤ below table.speeds b := all.2 ⟨inside.1, some.1.2⟩
          exact some.2 ⟨table.mem_positive.mpr ⟨all.1.1, inside.2.trans_le above⟩, all.1.2⟩
        · exact all.2 ⟨inside.1, some.1.2⟩
      rw [next]
      exact if_neg (ne_of_gt inside.2)
    · have zero : below table.speeds b = 0 := by
        by_contra nonzero
        have lowest : 0 < below table.speeds b :=
          lt_of_le_of_ne (table.natural _ all.1.1) (Ne.symm nonzero)
        exact absurd all.1.2 (not_lt.mpr (none _ (table.mem_positive.mpr ⟨all.1.1, lowest⟩)))
      rw [same]
      exact if_pos zero
  · exact absurd custom (not_lt.mpr (none 0 table.zero_mem))

theorem baudDown_positive (custom : 0 < b) : 0 < table.baudDown b := by
  rw [table.baudDown_below custom]
  rcases below_cases table.positive_increasing b with greatest | ⟨-, same⟩
  · exact (table.mem_positive.mp greatest.1.1).2
  · rwa [same]

theorem iterate_baudDown (custom : 0 < b) (m : Nat) :
    table.baudDown^[m] b = (below table.positive)^[m] b := by
  induction m generalizing b with
  | zero => rfl
  | succ m ih =>
      rw [Function.iterate_succ_apply, Function.iterate_succ_apply,
        ih (table.baudDown_positive custom), table.baudDown_below custom]

/-! ### Steps -/

/-- A step up leads to the least rate above, and one down to the greatest rate below, where there is
one. The commands do not step down to zero. From a positive rate their steps stay positive; between
neighbours they undo each other; repeated, they reach the greatest rate and the least positive one, or
stay where they are if they start beyond it. The scans of a platform are those over its table. -/
theorem baud_stepping (b : Int) :
    (IsLeast {x | x ∈ table.speeds ∧ b < x} (table.termBaudUp b) ∨
      (∀ x ∈ table.speeds, x ≤ b) ∧ table.termBaudUp b = b) ∧
    (IsGreatest {x | x ∈ table.speeds ∧ x < b} (table.termBaudDown b) ∨
      (∀ x ∈ table.speeds, b ≤ x) ∧ table.termBaudDown b = b) ∧
    (0 < b → 0 < table.baudDown b ∧ table.baudDown b ≤ b ∧ b ≤ table.baudUp b) ∧
    (∀ c, 0 < b → Adjacent table.speeds b c →
      table.baudUp b = c ∧ table.baudDown c = b ∧ table.baudDown (table.baudUp b) = b ∧
        table.baudUp (table.baudDown c) = c) ∧
    (0 < b → ∀ top, IsGreatest {x | x ∈ table.speeds} top →
      ∃ n, ∀ m ≥ n, table.baudUp^[m] b = max b top) ∧
    (0 < b → ∀ low, IsLeast {x | x ∈ table.speeds ∧ 0 < x} low →
      ∃ n, ∀ m ≥ n, table.baudDown^[m] b = min b low) ∧
    ∀ plat : Platform, table = plat.speedTable →
      Ppcom.termBaudUp plat b = table.termBaudUp b ∧
        Ppcom.termBaudDown plat b = table.termBaudDown b ∧
        Ppcom.baudUp plat b = table.baudUp b ∧ Ppcom.baudDown plat b = table.baudDown b := by
  have up : table.baudUp = above table.speeds := table.termBaudUp_above
  refine ⟨?_, ?_, fun custom => ⟨?_, ?_, ?_⟩, fun c custom adjacent => ?_, fun _ top greatest => ?_,
    fun custom low least => ?_, ?_⟩
  · rw [termBaudUp_above]
    exact above_cases table.speeds_increasing b
  · rw [termBaudDown_below]
    exact below_cases table.speeds_increasing b
  · exact table.baudDown_positive custom
  · rw [table.baudDown_below custom]
    exact below_le table.positive_increasing b
  · rw [up]
    exact le_above table.speeds_increasing b
  · have higher := custom.trans adjacent.lt
    have neighbours : Adjacent table.positive b c :=
      ⟨table.mem_positive.mpr ⟨adjacent.left, custom⟩,
        table.mem_positive.mpr ⟨adjacent.right, higher⟩, adjacent.lt,
        fun x inside => adjacent.between x (table.mem_positive.mp inside).1⟩
    have next : table.baudUp b = c := by
      rw [up]
      exact adjacent.above_eq table.speeds_increasing
    have previous : table.baudDown c = b := by
      rw [table.baudDown_below higher]
      exact neighbours.below_eq table.positive_increasing
    exact ⟨next, previous, by rw [next, previous], by rw [previous, next]⟩
  · rw [up]
    exact exists_iterate_above table.speeds_increasing greatest b
  · have lowest : IsLeast {x | x ∈ table.positive} low :=
      ⟨table.mem_positive.mpr least.1, fun x inside => least.2 (table.mem_positive.mp inside)⟩
    obtain ⟨n, reaches⟩ := exists_iterate_below table.positive_increasing lowest b
    exact ⟨n, fun m later => (table.iterate_baudDown custom m).trans (reaches m later)⟩
  · rintro plat rfl
    exact ⟨rfl, rfl, rfl, rfl⟩

/-- The custom rates 250000 and 25 are beyond the table of the build: steps up from the one do not reach
the greatest rate, and steps down from the other do not reach the least positive one. -/
theorem baud_stepping_beyond :
    let table := Build.cmake.toPlatform.speedTable
    IsGreatest {x | x ∈ table.speeds} 115200 ∧ IsLeast {x | x ∈ table.speeds ∧ 0 < x} 50 ∧
      (¬ ∃ n, ∀ m ≥ n, table.baudUp^[m] 250000 = 115200) ∧
      ¬ ∃ n, ∀ m ≥ n, table.baudDown^[m] 25 = 50 := by
  intro table
  have top : table.baudUp 250000 = 250000 := by decide
  have bottom : table.baudDown 25 = 25 := by decide
  refine ⟨⟨by decide, ?_⟩, ⟨by decide, ?_⟩, ?_, ?_⟩
  · have all : ∀ x ∈ table.speeds, x ≤ 115200 := by decide
    exact all
  · have all : ∀ x ∈ table.speeds, 0 < x → 50 ≤ x := by decide
    exact fun x both => all x both.1 both.2
  · rintro ⟨n, reaches⟩
    have here := reaches n le_rfl
    rw [Function.iterate_fixed top n] at here
    cases here
  · rintro ⟨n, reaches⟩
    have here := reaches n le_rfl
    rw [Function.iterate_fixed bottom n] at here
    cases here

end Ppcom.SpeedTable
