/-
Module: Ppcom.MsgPak
Purpose: `MsgPak` of `libffwd`: a message with two numbers, as one string and back, with the functions of
  `std::string` that it is made of. Positions are of 64 bits, and `npos` is the last of them.
Trusted boundary: a string has fewer bytes than `npos`; memory does not run out
Main exports: StdString, StdString.find, StdString.substr, stoi, MsgPak, MsgPak.serialize,
  MsgPak.deserialize
-/
import Ppcom.LogName

namespace Ppcom

/-! ### Strings -/

/-- `std::string::npos`. -/
def npos : UInt64 := -1

/-- `std::string`. -/
@[ext] structure StdString where
  bytes : List UInt8
  short : bytes.length < npos.toNat
deriving DecidableEq

/-- What the functions below throw. -/
inductive StdException where
  | invalidArgument
  | outOfRange
  | lengthError
deriving DecidableEq, Repr

namespace StdString

/-- `find(c, pos)`. -/
def find (s : StdString) (c : UInt8) (pos : UInt64) : UInt64 :=
  match (s.bytes.drop pos.toNat).findIdx? (· == c) with
  | some i => pos + .ofNat i
  | none => npos

/-- `substr(pos, n)`. -/
def substr (s : StdString) (pos n : UInt64) : Except StdException StdString :=
  if s.bytes.length < pos.toNat then .error .outOfRange
  else .ok
    { bytes := (s.bytes.drop pos.toNat).take n.toNat
      short := by
        have short := s.short
        rw [List.length_take, List.length_drop]
        omega }

end StdString

/-- `std::to_string` of an `int`. -/
def intToString (value : Int32) : List UInt8 :=
  if value < 0 then 0x2d :: decimal 0 value.toInt.natAbs else decimal 0 value.toInt.natAbs

/-- `std::stoi`, which is `strtol` with base 10, of `c_str()`. -/
def stoi (s : StdString) : Except StdException Int32 :=
  let text := cString s.bytes
  if strtolDecimalEnd text = text then .error .invalidArgument
  else
    let value := strtolDecimal text
    if value < -2 ^ 31 ∨ 2 ^ 31 - 1 < value then .error .outOfRange
    else .ok (.ofInt value)

/-! ### Messages -/

/-- `MsgPak`. -/
structure MsgPak where
  index : Int32
  id : Int32
  message : StdString
deriving DecidableEq

namespace MsgPak

/-- `'|'`. -/
def delim : UInt8 := 0x7c

/-- `MsgPak::serialize`. The sum is too long for a string where `message` is as long as they get. -/
def serialize (m : MsgPak) : Except StdException StdString :=
  let text := intToString m.index ++ [delim] ++ intToString m.id ++ [delim] ++ m.message.bytes
  if short : text.length < npos.toNat then .ok ⟨text, short⟩ else .error .lengthError

/-- `MsgPak::deserialize`: the object that it leaves, and what it throws. -/
def deserialize (m : MsgPak) (data : StdString) : MsgPak × Option StdException :=
  let firstDelim := data.find delim 0
  let secondDelim := data.find delim (firstDelim + 1)
  match data.substr 0 firstDelim >>= stoi with
  | .error e => (m, some e)
  | .ok index =>
      let m := { m with index := index }
      match data.substr (firstDelim + 1) (secondDelim - firstDelim - 1) >>= stoi with
      | .error e => (m, some e)
      | .ok id =>
          let m := { m with id := id }
          match data.substr (secondDelim + 1) npos with
          | .error e => (m, some e)
          | .ok message => ({ m with message := message }, none)

end MsgPak

end Ppcom
