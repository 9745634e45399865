/-
Module: Ppcom.Spec.HexText
Purpose: What a string of hexadecimal values is: groups of two digits, either case, with delimiters
  before, between and after them, and the bytes that such a string denotes.
Trusted boundary: human-reviewed spec
Main exports: HexDigit, HexDelim, HexText, HexExact
-/
import Ppcom.Input
import Ppcom.Lib.Stores

namespace Ppcom

/-- The digit `c`, in lower or in upper case, has the value `n`. -/
def HexDigit (n : Nat) (c : UInt8) : Prop :=
  (ascii "0123456789abcdef")[n]? = some c ∨ (ascii "0123456789ABCDEF")[n]? = some c

/-- The delimiters of `HEXDELIM`. -/
def HexDelim (c : UInt8) : Prop := c ∈ ascii " \r;:-_.,/"

/-- `HexText str bs`: the string `str` denotes the bytes `bs`. -/
inductive HexText : List UInt8 → List UInt8 → Prop where
  | nil : HexText [] []
  | delim {c : UInt8} {str bs : List UInt8} (delimiter : HexDelim c) (rest : HexText str bs) :
      HexText (c :: str) bs
  | group {c d b : UInt8} {high low : Nat} {str bs : List UInt8} (first : HexDigit high c)
      (second : HexDigit low d) (value : b.toNat = 16 * high + low) (rest : HexText str bs) :
      HexText (c :: d :: str) (b :: bs)

/-- What is asked of `hex2bin` on a string: bytes that it returns are what the whole string denotes,
and a string that denotes nothing, or more than there is room for, is reported. -/
structure HexExact (sz : Int) (str : List UInt8) : Prop where
  accepted : ∀ n stores, hex2binStores sz str = (n, stores) → 0 ≤ n →
    ∃ bs, HexText str bs ∧ n = bs.length ∧ stores = Stores.block 0 bs
  malformed : (¬ ∃ bs, HexText str bs) → (hex2binStores sz str).1 = -1
  tooLong : ∀ bs, HexText str bs → sz < bs.length → (hex2binStores sz str).1 = -1

instance (n : Nat) (c : UInt8) : Decidable (HexDigit n c) := by
  unfold HexDigit; infer_instance

instance (c : UInt8) : Decidable (HexDelim c) := by
  unfold HexDelim; infer_instance

end Ppcom
