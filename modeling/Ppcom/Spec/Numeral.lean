/-
Module: Ppcom.Spec.Numeral
Purpose: What an integer literal is, in decimal and in the forms that `strtol` knows for base 0, and
  that a number is taken as it is written.
Trusted boundary: human-reviewed spec
Main exports: Decimal, Constant, Literal, StartsWith, Written, Fits, narrowed,
  OnlyLiteral
-/
import Ppcom.Lib.Numeral
import Ppcom.Spec.HexText

namespace Ppcom

open Numeral

/-- A number in decimal. -/
def Decimal (n : Nat) (s : List UInt8) : Prop := s ≠ [] ∧ Digits HexDigit 10 n s

/-- A number as base 0 has it: in hexadecimal behind `0x`, in octal behind `0`, and else in decimal. -/
inductive Constant : Nat → List UInt8 → Prop where
  | decimal {n : Nat} {c : UInt8} {s : List UInt8} (nonzero : c ≠ 0x30)
      (digits : Digits HexDigit 10 n (c :: s)) : Constant n (c :: s)
  | octal {n : Nat} {s : List UInt8} (digits : Digits HexDigit 8 n s) : Constant n (0x30 :: s)
  | hex {n : Nat} {x : UInt8} {s : List UInt8} (mark : x = 0x78 ∨ x = 0x58) (some : s ≠ [])
      (digits : Digits HexDigit 16 n s) : Constant n (0x30 :: x :: s)

/-- An integer literal: a number of the form, and a sign before it or none. -/
abbrev Literal (form : Nat → List UInt8 → Prop) : Int → List UInt8 → Prop := Signed 0x2b 0x2d form

/-- The string `s` starts with white space, which may be empty, and a literal of value `x`; `lit` is the
longest one. -/
structure StartsWith (form : Nat → List UInt8 → Prop) (s blanks : List UInt8) (x : Int)
    (lit rest : List UInt8) : Prop where
  text : s = blanks ++ (lit ++ rest)
  blank : ∀ c ∈ blanks, isspace c
  value : Literal form x lit
  longest : Longest (fun text => ∃ y, Literal form y text) lit rest

/-- The whole string is a literal of value `v`. White space before it is part of the literal, or is
not, as `spaced` says. -/
def Written (form : Nat → List UInt8 → Prop) (spaced : Bool) (s : List UInt8) (v : Int) : Prop :=
  ∃ blanks lit, s = blanks ++ lit ∧ (∀ c ∈ blanks, isspace c) ∧ (spaced = false → blanks = []) ∧
    Literal form v lit

/-- The number is in the range of an `int`. -/
def Fits (x : Int) : Prop := -2 ^ 31 ≤ x ∧ x < 2 ^ 31

/-- The `long` nearest to a number. -/
def clipped (x : Int) : Int := max (-2 ^ 63) (min (2 ^ 63 - 1) x)

/-- The `int` that is congruent to it modulo `2 ^ 32`. -/
def narrowed (x : Int) : Int := (clipped x).bmod (2 ^ 32)

/-- Of a string that starts with a literal of value `x`: it is nothing but this literal, and its value
is an `int`. -/
structure OnlyLiteral (spaced : Bool) (blanks : List UInt8) (x : Int) (rest : List UInt8) :
    Prop where
  whole : rest = []
  fits : Fits x
  blank : spaced = false → blanks = []

end Ppcom
