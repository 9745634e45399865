/-
Module: Ppcom.Spec.Quoting
Purpose: How a user writes arguments that may hold anything: each in single or in double quotes, as
  `split.h` explains them, with blank space between and around them.
Trusted boundary: human-reviewed spec
Main exports: Style, Style.quote, Blank, Line
-/
import Ppcom.Spec.SplitGrammar

namespace Ppcom.Split

/-- The two kinds of quotes. -/
inductive Style where
  | single
  | double
deriving DecidableEq, Repr

/-- A byte of an argument in single quotes. A single quote is written as the end of the quotes, an
escaped quote, and new quotes. -/
def singleByte (c : UInt8) : List UInt8 := if c = sq then [sq, bs, sq, sq] else [c]

/-- A byte of an argument in double quotes. -/
def doubleByte (c : UInt8) : List UInt8 := if c = bs ∨ c = dq then [bs, c] else [c]

/-- An argument in quotes. -/
def Style.quote : Style → List UInt8 → List UInt8
  | .single, w => sq :: (w.flatMap singleByte ++ [sq])
  | .double, w => dq :: (w.flatMap doubleByte ++ [dq])

/-- Nothing but spaces, tabs and newlines. -/
def Blank (gap : List UInt8) : Prop := ∀ c ∈ gap, Delimiter c

/-- `Quoted args s`: the string `s` begins with the first argument and quotes all of them in order,
with blanks between them and perhaps after them. -/
inductive Quoted : List (List UInt8) → List UInt8 → Prop where
  | nil : Quoted [] []
  | last {w after : List UInt8} (style : Style) (blank : Blank after) :
      Quoted [w] (style.quote w ++ after)
  | cons {w w' gap s : List UInt8} {args : List (List UInt8)} (style : Style) (blank : Blank gap)
      (apart : gap ≠ []) (rest : Quoted (w' :: args) s) :
      Quoted (w :: w' :: args) (style.quote w ++ (gap ++ s))

/-- `Line args s`: blanks, perhaps, and then the quoted arguments. -/
inductive Line : List (List UInt8) → List UInt8 → Prop where
  | mk {before s : List UInt8} {args : List (List UInt8)} (blank : Blank before)
      (quoted : Quoted args s) : Line args (before ++ s)

instance (gap : List UInt8) : Decidable (Blank gap) := List.decidableBAll Delimiter gap

end Ppcom.Split
