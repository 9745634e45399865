/-
Module: Ppcom.Lib.Code
Purpose: Codes that replace each letter by a word. Where no two letters have one word, a text can be
  read back from its code even if one word starts another, as long as no word starts with what the
  longer one goes on with.
Trusted boundary: none
Main exports: Code.encode, Code.Separated, Code.Separated.injective
-/
import Mathlib.Data.List.Basic

namespace Code

variable {α β : Type}

/-- The code of a text. -/
def encode (word : α → List β) (text : List α) : List β := text.flatMap word

/-- No letter is lost, no two have one word, and after a word that starts a longer one no other word
continues as that does. -/
structure Separated (word : α → List β) : Prop where
  written (a : α) : word a ≠ []
  apart {a b : α} : word a = word b → a = b
  resumes {a b c : α} {x : β} {rest : List β} :
    word b = word a ++ x :: rest → (word c).head? ≠ some x

namespace Separated

variable {word : α → List β} (code : Separated word)

include code

/-- A text is empty if its code is. -/
theorem eq_nil {text : List α} (empty : encode word text = []) : text = [] := by
  cases text with
  | nil => rfl
  | cons a rest => exact absurd (List.append_eq_nil_iff.mp empty).1 (code.written a)

/-- What a code starts with, a word starts with. -/
theorem head_encode {text : List α} {x : β} {rest : List β} (starts : encode word text = x :: rest) :
    ∃ a, (word a).head? = some x := by
  cases text with
  | nil => cases starts
  | cons a later =>
      change word a ++ encode word later = x :: rest at starts
      cases split : word a with
      | nil => exact absurd split (code.written a)
      | cons y more =>
          rw [split] at starts
          exact ⟨a, by rw [split, ← (List.cons.inj starts).1]; rfl⟩

/-- A word that another follows is not the start of a longer one. -/
theorem first {a b : α} {text text' : List α} {rest : List β}
    (same : encode word text = rest ++ encode word text') (longer : word b = word a ++ rest) :
    rest = [] := by
  cases rest with
  | nil => rfl
  | cons x more =>
      obtain ⟨c, starts⟩ := code.head_encode same
      exact absurd starts (code.resumes longer)

/-- Two texts of one code are one text. -/
theorem injective : Function.Injective (encode word) := by
  intro text text' same
  induction text generalizing text' with
  | nil => exact (code.eq_nil same.symm).symm
  | cons a rest ih =>
      cases text' with
      | nil => exact code.eq_nil same
      | cons b rest' =>
          change word a ++ encode word rest = word b ++ encode word rest' at same
          have words : word a = word b := by
            rcases List.append_eq_append_iff.mp same with ⟨more, longer, later⟩ | ⟨more, longer, later⟩
            · rw [longer, code.first later longer, List.append_nil]
            · rw [longer, code.first later longer, List.append_nil]
          rw [words] at same
          rw [code.apart words, ih (List.append_cancel_left same)]

end Separated

end Code
