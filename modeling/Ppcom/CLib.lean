/-
Module: Ppcom.CLib
Purpose: The functions of the C library on strings that `ppcom.cpp` uses. A string is the list of its
  bytes; where a program may hold bytes after a terminator, `cString` is what the library sees.
Trusted boundary: `strtol` does not read the binary forms of newer C libraries
Main exports: ascii, cString, strlen, strncmp, strtok, strtol, strtolDecimal, toInt, atoi
-/
import Mathlib.Algebra.Group.Nat.Defs
import Mathlib.Algebra.Ring.Int.Defs
import Mathlib.Data.List.Basic

namespace Ppcom

/-- A property of all bytes can be checked byte by byte. -/
theorem forall_byte {P : UInt8 → Prop} (bytes : ∀ n : Fin 256, P (UInt8.ofFin n)) (c : UInt8) :
    P c := by
  have byte := bytes c.toFin
  rwa [UInt8.ofFin_toFin] at byte

/-- The bytes of a string literal. -/
def ascii (s : String) : List UInt8 :=
  s.toList.map fun c => c.toNat.toUInt8

/-- The string that starts a block of bytes. -/
def cString (block : List UInt8) : List UInt8 :=
  block.takeWhile (· != 0)

/-- `strlen`. -/
def strlen (block : List UInt8) : Nat := (cString block).length

/-- `strncmp`. -/
def strncmp (s t : List UInt8) : Nat → Int
  | 0 => 0
  | n + 1 =>
      let c := s.headD 0
      let d := t.headD 0
      if c ≠ d then (c.toNat : Int) - d.toNat
      else if c = 0 then 0
      else strncmp s.tail t.tail n

/-- The tokens that repeated calls of `strtok` return; `token` is the one being read. -/
def strtokFrom (delim : UInt8 → Bool) : List UInt8 → List UInt8 → List (List UInt8)
  | token, [] => if token = [] then [] else [token]
  | token, c :: rest =>
      if delim c then
        if token = [] then strtokFrom delim [] rest else token :: strtokFrom delim [] rest
      else strtokFrom delim (token ++ [c]) rest

/-- The tokens of a string that `strtok` returns, one after the other. -/
def strtok (delim : UInt8 → Bool) (s : List UInt8) : List (List UInt8) :=
  strtokFrom delim [] s

/-! ### Numbers -/

/-- The value of a digit or letter in a number. -/
def digitValue (c : UInt8) : Option Nat :=
  if 0x30 ≤ c ∧ c ≤ 0x39 then some (c.toNat - 0x30)
  else if 0x41 ≤ c ∧ c ≤ 0x5a then some (c.toNat - 0x41 + 10)
  else if 0x61 ≤ c ∧ c ≤ 0x7a then some (c.toNat - 0x61 + 10)
  else none

/-- A digit of a number to a base. -/
def digit (base : Nat) (c : UInt8) : Option Nat :=
  (digitValue c).filter (· < base)

/-- The number that the digits at the start of a string denote, and what follows them. -/
def readDigits (base : Nat) : Nat → List UInt8 → Nat × List UInt8
  | value, [] => (value, [])
  | value, c :: rest =>
      match digit base c with
      | some d => readDigits base (value * base + d) rest
      | none => (value, c :: rest)

/-- `isspace`. -/
def isspace (c : UInt8) : Bool := c == 0x20 || (0x09 ≤ c && c ≤ 0x0d)

/-- `isprint` in the locale that the programs run in, which is that of C. -/
def isprint (c : UInt8) : Bool := 0x20 ≤ c && c ≤ 0x7e

/-- The base that `strtol` takes for base 0, and where the digits start. -/
def detectBase (s : List UInt8) : Nat × List UInt8 :=
  match s with
  | 0x30 :: x :: c :: rest =>
      if (x = 0x78 ∨ x = 0x58) ∧ (digit 16 c).isSome then (16, c :: rest) else (8, s)
  | 0x30 :: _ => (8, s)
  | _ => (10, s)

/-- The sign at the start of a number. -/
def readSign (s : List UInt8) : Bool × List UInt8 :=
  match s with
  | 0x2d :: rest => (true, rest)
  | 0x2b :: rest => (false, rest)
  | _ => (false, s)

/-- `strtol` with base 0: the value, and the string that `endptr` is left at. -/
def strtol (s : List UInt8) : Int × List UInt8 :=
  let (negative, unsigned) := readSign (s.dropWhile isspace)
  let (base, digits) := detectBase unsigned
  match digits with
  | [] => (0, s)
  | c :: _ =>
      if (digit base c).isNone then (0, s)
      else
        let (value, rest) := readDigits base 0 digits
        (if negative then max (-2 ^ 63) (-(value : Int)) else min (2 ^ 63 - 1) value, rest)

/-- The value of `strtol` with base 10. -/
def strtolDecimal (s : List UInt8) : Int :=
  let (negative, unsigned) := readSign (s.dropWhile isspace)
  let (value, _) := readDigits 10 0 unsigned
  if negative then max (-2 ^ 63) (-(value : Int)) else min (2 ^ 63 - 1) value

/-- The string that `strtol` with base 10 leaves `endptr` at, which is `s` where it finds no digit. -/
def strtolDecimalEnd (s : List UInt8) : List UInt8 :=
  let (_, unsigned) := readSign (s.dropWhile isspace)
  let (_, rest) := readDigits 10 0 unsigned
  if rest = unsigned then s else rest

/-- The value that an `int` has after a larger one was assigned to it. -/
def toInt (x : Int) : Int := (BitVec.ofInt 32 x).toInt

theorem toInt_of_fits {k : Nat} (fits : k < 2 ^ 31) : toInt k = k := by
  unfold toInt
  rw [BitVec.toInt_ofInt]
  apply Int.bmod_eq_of_le <;> omega

/-- `atoi`, which is `strtol` with base 10. -/
def atoi (s : List UInt8) : Int := toInt (strtolDecimal s)

end Ppcom
