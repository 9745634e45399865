/-
Module: Ppcom.Spec.MapTable
Purpose: The mappings of characters as the manual lists them: of those that are given and apply to a
  character the first one is applied.
Trusted boundary: none
Main exports: Mapping, mapTable, documentedImage, doMapBytes_documented, Ignores
-/
import Ppcom.CharMap

namespace Ppcom

/-- An entry of the list: which characters it replaces, and by what. -/
structure Mapping where
  flag : Word
  applies : UInt8 → Bool
  image : UInt8 → List UInt8

/-- The hexadecimal representation of a character, in square brackets. -/
def hexadecimal (c : UInt8) : List UInt8 :=
  let digits := ascii "0123456789abcdef"
  ascii "[" ++ [digits.getD (c.toNat / 16) 0, digits.getD (c.toNat % 16) 0] ++ ascii "]"

/-- The list of the manual, in its order. -/
def mapTable : List Mapping :=
  [⟨mCrlf, (· == 0x0d), fun _ => [0x0a]⟩,
    ⟨mCrcrlf, (· == 0x0d), fun _ => [0x0d, 0x0a]⟩,
    ⟨mIgncr, (· == 0x0d), fun _ => []⟩,
    ⟨mLfcr, (· == 0x0a), fun _ => [0x0d]⟩,
    ⟨mLfcrlf, (· == 0x0a), fun _ => [0x0d, 0x0a]⟩,
    ⟨mIgnlf, (· == 0x0a), fun _ => []⟩,
    ⟨mBsdel, (· == 0x08), fun _ => [0x7f]⟩,
    ⟨mDelbs, (· == 0x7f), fun _ => [0x08]⟩,
    ⟨mSpchex, fun c => (decide (c < 0x20) || c == 0x7f) && c != 0x0d && c != 0x0a && c != 0x09,
      hexadecimal⟩,
    ⟨mTabhex, (· == 0x09), hexadecimal⟩,
    ⟨mCrhex, (· == 0x0d), hexadecimal⟩,
    ⟨mLfhex, (· == 0x0a), hexadecimal⟩,
    ⟨m8bithex, fun c => decide (0x80 ≤ c), hexadecimal⟩,
    ⟨mNrmhex, fun c => decide (0x20 ≤ c) && decide (c < 0x7f), hexadecimal⟩]

/-- What a character is replaced by: the first mapping that is given and applies to it does so; a
character to which none applies stays as it is. -/
def firstImage (map : Word) (c : UInt8) : List Mapping → List UInt8
  | [] => [c]
  | mapping :: later =>
      if hasFlag map mapping.flag ∧ mapping.applies c = true then mapping.image c
      else firstImage map c later

/-- What the manual says that a character is replaced by. -/
def documentedImage (map : Word) (c : UInt8) : List UInt8 := firstImage map c mapTable

/-! ### The code -/

theorem map2hex_hexadecimal : ∀ c : UInt8, map2hex c = hexadecimal c :=
  forall_byte (by decide +kernel)

theorem eighthBit_iff : ∀ c : UInt8, c &&& 0x80 ≠ 0 ↔ 0x80 ≤ c :=
  forall_byte (by decide +kernel)

/-- The code prefers the first mapping of the list, though it asks in another order. -/
theorem doMapBytes_documented (map : Word) (c : UInt8) :
    doMapBytes map c = documentedImage map c := by
  simp only [doMapBytes, mapSwitch, documentedImage, mapTable, firstImage, map2hex_hexadecimal,
    eighthBit_iff]
  -- five characters have mappings of their own
  by_cases del : c = 0x7f
  · subst del
    simp [isSpecial, isNormal]
    grind
  by_cases bs : c = 0x08
  · subst bs
    simp [isSpecial, isNormal]
    grind
  by_cases cr : c = 0x0d
  · subst cr
    simp [isSpecial, isNormal]
    grind
  by_cases lf : c = 0x0a
  · subst lf
    simp [isSpecial, isNormal]
    grind
  by_cases tab : c = 0x09
  · subst tab
    simp [isSpecial, isNormal]
    grind
  · simp [del, bs, cr, lf, tab, isSpecial, isNormal]
    grind

/-! ### What can come out -/

/-- A map that replaces a character by nothing: `igncr` or `ignlf` without a mapping that comes before
it. -/
def Ignores (map : Word) : Prop :=
  (hasFlag map mIgncr ∧ ¬ hasFlag map mCrlf ∧ ¬ hasFlag map mCrcrlf) ∨
    (hasFlag map mIgnlf ∧ ¬ hasFlag map mLfcr ∧ ¬ hasFlag map mLfcrlf)

/-- A replacement is never longer than there is room for. -/
theorem length_firstImage {table : List Mapping} (map : Word) (c : UInt8)
    (short : ∀ mapping ∈ table, (mapping.image c).length ≤ mMaxmap) :
    (firstImage map c table).length ≤ mMaxmap := by
  induction table with
  | nil => simp [firstImage, mMaxmap]
  | cons mapping later ih =>
      rw [firstImage]
      split
      · exact short mapping (by simp)
      · exact ih fun m inside => short m (by simp [inside])

theorem length_doMapBytes (map : Word) (c : UInt8) : (doMapBytes map c).length ≤ mMaxmap := by
  rw [doMapBytes_documented]
  apply length_firstImage map c
  simp [mapTable, mMaxmap, hexadecimal, ascii]

/-- A character is replaced by nothing where one of the two ignoring mappings is the first. -/
theorem doMapBytes_eq_nil_iff (map : Word) (c : UInt8) :
    doMapBytes map c = [] ↔
      (c = 0x0d ∧ hasFlag map mIgncr ∧ ¬ hasFlag map mCrlf ∧ ¬ hasFlag map mCrcrlf) ∨
        (c = 0x0a ∧ hasFlag map mIgnlf ∧ ¬ hasFlag map mLfcr ∧ ¬ hasFlag map mLfcrlf) := by
  rw [doMapBytes_documented]
  simp only [documentedImage, mapTable, firstImage]
  have hex : hexadecimal c ≠ [] := by simp [hexadecimal, ascii]
  by_cases cr : c = 0x0d
  · subst cr
    simp
    grind
  by_cases lf : c = 0x0a
  · subst lf
    simp
    grind
  · simp [cr, lf]
    grind

theorem doMap_eq (map : Word) (c : UInt8) :
    doMap map c = if doMapBytes map c = [] then none else some (doMapBytes map c) := by
  simp only [doMap, List.length_pos_iff, length_doMapBytes, and_true, ite_not]

theorem doMap_eq_none_iff (map : Word) (c : UInt8) : doMap map c = none ↔ doMapBytes map c = [] := by
  rw [doMap_eq]
  split
  · next nothing => simp [nothing]
  · next some => simp [some]

/-- The assertion can fail exactly if the map ignores a character. -/
theorem ignores_iff (map : Word) : Ignores map ↔ ∃ c, doMap map c = none := by
  simp only [doMap_eq_none_iff, doMapBytes_eq_nil_iff]
  constructor
  · rintro (cr | lf)
    · exact ⟨0x0d, .inl ⟨rfl, cr⟩⟩
    · exact ⟨0x0a, .inr ⟨rfl, lf⟩⟩
  · rintro ⟨c, ⟨-, cr⟩ | ⟨-, lf⟩⟩
    · exact .inl cr
    · exact .inr lf

end Ppcom
