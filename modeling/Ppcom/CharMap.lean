/-
Module: Ppcom.CharMap
Purpose: The character mappings of `ppcom.cpp`: the flags and their names, `parse_map`, and `do_map`
  with its assertion.
Trusted boundary: none
Main exports: mapNames, parseMap, printMap, map2hex, doMapBytes, doMap
-/
import Ppcom.CLib
import Ppcom.Termios

namespace Ppcom

/-! ### Flags -/

def mCrlf : Word := 1 <<< 0
def mCrcrlf : Word := 1 <<< 1
def mIgncr : Word := 1 <<< 2
def mLfcr : Word := 1 <<< 3
def mLfcrlf : Word := 1 <<< 4
def mIgnlf : Word := 1 <<< 5
def mDelbs : Word := 1 <<< 6
def mBsdel : Word := 1 <<< 7
def mSpchex : Word := 1 <<< 8
def mTabhex : Word := 1 <<< 9
def mCrhex : Word := 1 <<< 10
def mLfhex : Word := 1 <<< 11
def m8bithex : Word := 1 <<< 12
def mNrmhex : Word := 1 <<< 13

/-- The default of `--imap`. -/
def mIDfl : Word := 0

/-- The default of `--omap`. -/
def mODfl : Word := 0

/-- The default of `--emap`. -/
def mEDfl : Word := mDelbs ||| mCrcrlf

/-- `map_names`. -/
def mapNames : List (List UInt8 × Word) :=
  [(ascii "crlf", mCrlf), (ascii "crcrlf", mCrcrlf), (ascii "igncr", mIgncr),
    (ascii "lfcr", mLfcr), (ascii "lfcrlf", mLfcrlf), (ascii "ignlf", mIgnlf),
    (ascii "delbs", mDelbs), (ascii "bsdel", mBsdel), (ascii "spchex", mSpchex),
    (ascii "tabhex", mTabhex), (ascii "crhex", mCrhex), (ascii "lfhex", mLfhex),
    (ascii "8bithex", m8bithex), (ascii "nrmhex", mNrmhex)]

/-- Comma, space and tab separate the names of a map. -/
def isMapDelim (c : UInt8) : Bool := c == 0x2c || c == 0x20 || c == 0x09

/-- `parse_map`; `none` is the value -1. -/
def parseMap (s : List UInt8) : Option Word :=
  (strtok isMapDelim s).foldlM (fun flags t => (mapNames.lookup t).map (flags ||| ·)) 0

/-- `M_NFLAGS`. -/
def mNflags : Nat := 14

/-- The line that `print_map` prints, without the newline at its end. -/
def printMapLine (flags : Word) : List UInt8 :=
  (List.range mNflags).flatMap fun i =>
    if flags &&& ((1 : Word) <<< i) ≠ 0 then ((mapNames[i]?.map Prod.fst).getD []) ++ ascii "," else []

/-- `print_map`. -/
def printMap (flags : Word) : List UInt8 := printMapLine flags ++ ascii "\n"

/-! ### Mapping a character -/

/-- Maximum number of characters that can replace a single character. -/
def mMaxmap : Nat := 4

/-- `hexd`. -/
def hexd (n : UInt8) : UInt8 :=
  if n < 10 then 0x30 + n else 0x61 + (n - 10)

/-- `map2hex`. -/
def map2hex (c : UInt8) : List UInt8 := [0x5b, hexd (c >>> 4), hexd (c &&& 0x0f), 0x5d]

/-- A flag of a map. -/
abbrev hasFlag (map flag : Word) : Prop := map &&& flag ≠ 0

/-- The `switch` of `do_map`; `none` is `n = -1`. -/
def mapSwitch (map : Word) (valChr : UInt8) : Option (List UInt8) :=
  if valChr = 0x7f then
    if hasFlag map mDelbs then some [0x08] else none
  else if valChr = 0x08 then
    if hasFlag map mBsdel then some [0x7f] else none
  else if valChr = 0x0d then
    if hasFlag map mCrlf then some [0x0a]
    else if hasFlag map mCrcrlf then some [0x0d, 0x0a]
    else if hasFlag map mIgncr then some []
    else if hasFlag map mCrhex then some (map2hex valChr)
    else none
  else if valChr = 0x0a then
    if hasFlag map mLfcr then some [0x0d]
    else if hasFlag map mLfcrlf then some [0x0d, 0x0a]
    else if hasFlag map mIgnlf then some []
    else if hasFlag map mLfhex then some (map2hex valChr)
    else none
  else if valChr = 0x09 then
    if hasFlag map mTabhex then some (map2hex valChr) else none
  else none

/-- The characters that `spchex` maps. -/
def isSpecial (c : UInt8) : Prop :=
  c = 0x7f ∨ (c < 0x20 ∧ c ≠ 0x09 ∧ c ≠ 0x0a ∧ c ≠ 0x0d)

/-- The characters that `nrmhex` maps. -/
def isNormal (c : UInt8) : Prop := 0x20 ≤ c ∧ c < 0x7f

instance (c : UInt8) : Decidable (isSpecial c) := inferInstanceAs (Decidable (_ ∨ _))

instance (c : UInt8) : Decidable (isNormal c) := inferInstanceAs (Decidable (_ ∧ _))

/-- What `do_map` has stored in its buffer when it comes to its assertion. -/
def doMapBytes (map : Word) (valChr : UInt8) : List UInt8 :=
  match mapSwitch map valChr with
  | some image => image
  | none =>
      if hasFlag map mSpchex ∧ isSpecial valChr then map2hex valChr
      else if hasFlag map m8bithex ∧ valChr &&& 0x80 ≠ 0 then map2hex valChr
      else if hasFlag map mNrmhex ∧ isNormal valChr then map2hex valChr
      else [valChr]

/-- `do_map`; `none` is a failed assertion. -/
def doMap (map : Word) (valChr : UInt8) : Option (List UInt8) :=
  let image := doMapBytes map valChr
  if 0 < image.length ∧ image.length ≤ mMaxmap then some image else none

end Ppcom
