/-
Module: Ppcom.Spec.Packed
Purpose: The text of a packed message: a number, a delimiter, a number, a delimiter, and the message.
Trusted boundary: human-reviewed spec
Main exports: IntForm, Packed, Parts
-/
import Ppcom.MsgPak
import Ppcom.Spec.Numeral

namespace Ppcom

/-- A string that starts with a decimal number, white space before it or not, which is an `int`. -/
def IntForm (s : List UInt8) (x : Int) : Prop :=
  ∃ blanks lit rest, StartsWith Decimal (cString s) blanks x lit rest ∧ Fits x

/-- The string `data` packs the message `m`. -/
def Packed (data : List UInt8) (m : MsgPak) : Prop :=
  ∃ first second, data = first ++ MsgPak.delim :: (second ++ MsgPak.delim :: m.message.bytes) ∧
    MsgPak.delim ∉ first ∧ MsgPak.delim ∉ second ∧
    IntForm first m.index.toInt ∧ IntForm second m.id.toInt

/-- The parts of a string between its delimiters, as `deserialize` takes them. Behind a delimiter that
is not there it takes the string from its start again. -/
inductive Parts : List UInt8 → List UInt8 → List UInt8 → List UInt8 → Prop where
  | two {first second rest : List UInt8} (one : MsgPak.delim ∉ first) (other : MsgPak.delim ∉ second) :
      Parts (first ++ MsgPak.delim :: (second ++ MsgPak.delim :: rest)) first second rest
  | one {first second : List UInt8} (one : MsgPak.delim ∉ first) (other : MsgPak.delim ∉ second) :
      Parts (first ++ MsgPak.delim :: second) first second (first ++ MsgPak.delim :: second)
  | none {data : List UInt8} (none : MsgPak.delim ∉ data) : Parts data data data data

end Ppcom
