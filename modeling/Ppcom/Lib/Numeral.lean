/-
Module: Ppcom.Lib.Numeral
Purpose: Numbers in a positional notation, over any characters and any values of them: the number that
  a list of digits denotes, and the longest part at the start of a text that has a property.
Trusted boundary: none
Main exports: Numeral.Digits, Numeral.Digits.unique, Numeral.Longest, Numeral.Longest.unique,
  Numeral.Signed
-/
import Mathlib.Algebra.Group.Nat.Defs
import Mathlib.Data.List.Infix

namespace Numeral

variable {α : Type} {digit : Nat → α → Prop} {base n m : Nat} {ds : List α}

/-! ### Digits -/

/-- The digits denote a number: `digit d c` says that the value of `c` is `d`. -/
inductive Digits (digit : Nat → α → Prop) (base : Nat) : Nat → List α → Prop where
  | nil : Digits digit base 0 []
  | snoc {n d : Nat} {ds : List α} {c : α} (before : Digits digit base n ds) (value : digit d c)
      (small : d < base) : Digits digit base (n * base + d) (ds ++ [c])

/-- Every digit has a value below the base. -/
theorem Digits.forall (denotes : Digits digit base n ds) :
    ∀ c ∈ ds, ∃ d < base, digit d c := by
  induction denotes with
  | nil => exact fun c inside => absurd inside List.not_mem_nil
  | @snoc n d ds c before value small ih =>
      intro c' inside
      rcases List.mem_append.mp inside with early | last
      · exact ih c' early
      · rw [List.mem_singleton.mp last]
        exact ⟨d, small, value⟩

theorem Digits.lt (denotes : Digits digit base n ds) :
    n < base ^ ds.length := by
  induction denotes with
  | nil => exact Nat.one_pos
  | @snoc n d ds c before value small ih =>
      calc n * base + d
        _ < n * base + base := Nat.add_lt_add_left small _
        _ = (n + 1) * base := (Nat.succ_mul n base).symm
        _ ≤ base ^ ds.length * base := Nat.mul_le_mul_right base ih
        _ = base ^ (ds ++ [c]).length := by rw [List.length_append, ← Nat.pow_succ]; rfl

/-- Where a digit has one value, the digits denote one number. -/
theorem Digits.unique (functional : ∀ d e c, digit d c → digit e c → d = e)
    (denotes : Digits digit base n ds) (again : Digits digit base m ds) : n = m := by
  induction denotes generalizing m with
  | nil =>
      generalize is : ([] : List α) = text at again
      cases again with
      | nil => rfl
      | snoc => exact absurd is.symm (List.append_ne_nil_of_right_ne_nil _ (List.cons_ne_nil _ _))
  | @snoc n d ds c before value small ih =>
      generalize is : ds ++ [c] = text at again
      cases again with
      | nil => exact absurd is (List.append_ne_nil_of_right_ne_nil _ (List.cons_ne_nil _ _))
      | @snoc m e es c' before' value' small' =>
          obtain ⟨rfl, last⟩ := List.append_inj' is rfl
          cases last
          rw [ih before', functional d e c value value']

/-! ### The longest part -/

/-- `lit` is the longest of the texts with a property that `lit ++ rest` starts with. -/
structure Longest (P : List α → Prop) (lit rest : List α) : Prop where
  holds : P lit
  longest : ∀ more, more ≠ [] → more <+: rest → ¬ P (lit ++ more)

variable {P : List α → Prop} {lit rest lit' rest' : List α}

theorem Longest.length_le (first : Longest P lit rest) (second : Longest P lit' rest')
    (same : lit ++ rest = lit' ++ rest') : lit'.length ≤ lit.length := by
  by_contra longer
  obtain ⟨more, rfl, rfl⟩ := (List.append_eq_append_iff.mp same).resolve_right
    fun ⟨more, is, _⟩ => longer (by simp [is])
  refine first.longest more ?_ (List.prefix_append _ _) second.holds
  rintro rfl
  simp at longer

/-- A text has one longest part. -/
theorem Longest.unique (first : Longest P lit rest) (second : Longest P lit' rest')
    (same : lit ++ rest = lit' ++ rest') : lit = lit' ∧ rest = rest' :=
  List.append_inj same
    (le_antisymm (second.length_le first same.symm) (first.length_le second same))

/-- Nothing follows a whole text. -/
theorem longest_nil (holds : P lit) : Longest P lit [] where
  holds := holds
  longest _ some starts := absurd (List.prefix_nil.mp starts) some

/-! ### Signs -/

/-- A number with a sign, `plus` or `minus`, or without one: `form n s` says that `s` is the number
`n`. -/
inductive Signed (plus minus : α) (form : Nat → List α → Prop) : Int → List α → Prop where
  | plain {n : Nat} {s : List α} (is : form n s) : Signed plus minus form n s
  | plus {n : Nat} {s : List α} (is : form n s) : Signed plus minus form n (plus :: s)
  | minus {n : Nat} {s : List α} (is : form n s) : Signed plus minus form (-n) (minus :: s)

end Numeral
