/-
Module: Ppcom.Proofs.Lossless
Purpose: A map with all the mappings to hexadecimal loses nothing, unless it makes one text of CR and
  LF. The image of LF may start that of CR; what follows tells them apart.
Trusted boundary: none
Main exports: ShowsHex, CrToCrlf, LfToCrlf, HexImage, hex_lossless
-/
import Ppcom.Lib.Code
import Ppcom.Proofs.Inbound

namespace Ppcom

/-- The map has the six mappings to hexadecimal, and ignores nothing. -/
structure ShowsHex (map : Word) : Prop where
  spchex : hasFlag map mSpchex
  tabhex : hasFlag map mTabhex
  crhex : hasFlag map mCrhex
  lfhex : hasFlag map mLfhex
  eighthBit : hasFlag map m8bithex
  nrmhex : hasFlag map mNrmhex
  keepsCr : ¬ hasFlag map mIgncr
  keepsLf : ¬ hasFlag map mIgnlf

/-- `crcrlf` is the mapping that is applied to CR. -/
def CrToCrlf (map : Word) : Prop := hasFlag map mCrcrlf ∧ ¬ hasFlag map mCrlf

/-- `lfcrlf` is the mapping that is applied to LF. -/
def LfToCrlf (map : Word) : Prop := hasFlag map mLfcrlf ∧ ¬ hasFlag map mLfcr

instance (map : Word) : Decidable (CrToCrlf map) := inferInstanceAs (Decidable (_ ∧ _))

/-- The images under such a map. -/
inductive HexImage (map : Word) : UInt8 → List UInt8 → Prop where
  | hex (c : UInt8) : HexImage map c (map2hex c)
  | delbs : HexImage map 0x7f [0x08]
  | bsdel : HexImage map 0x08 [0x7f]
  | crlf (given : hasFlag map mCrlf) : HexImage map 0x0d [0x0a]
  | crcrlf (given : CrToCrlf map) : HexImage map 0x0d [0x0d, 0x0a]
  | lfcr (given : hasFlag map mLfcr) : HexImage map 0x0a [0x0d]
  | lfcrlf (given : LfToCrlf map) : HexImage map 0x0a [0x0d, 0x0a]

/-- A byte that has no mapping of its own is special, has the eighth bit set or is normal. -/
theorem byte_kinds : ∀ c : UInt8, c ≠ 0x0d → c ≠ 0x0a → c ≠ 0x09 →
    isSpecial c ∨ c &&& 0x80 ≠ 0 ∨ isNormal c :=
  forall_byte (by decide +kernel)

section Images

variable {map : Word} {c : UInt8} {w : List UInt8}

/-- The `switch` decides where it has an image. -/
theorem doMapBytes_of_switch (switched : mapSwitch map c = some w) : doMapBytes map c = w := by
  rw [doMapBytes, switched]

/-- Where it has none, one of the mappings to hexadecimal is applied. -/
theorem ShowsHex.doMapBytes_of_none (shows : ShowsHex map) (cr : c ≠ 0x0d) (lf : c ≠ 0x0a)
    (tab : c ≠ 0x09) (switched : mapSwitch map c = none) : doMapBytes map c = map2hex c := by
  rw [doMapBytes, switched]
  dsimp only
  rcases byte_kinds c cr lf tab with special | eighth | normal
  · rw [if_pos ⟨shows.spchex, special⟩]
  · have applies : hasFlag map m8bithex ∧ c &&& 0x80 ≠ 0 := ⟨shows.eighthBit, eighth⟩
    rw [if_pos applies, ite_self]
  · have applies : hasFlag map mNrmhex ∧ isNormal c := ⟨shows.nrmhex, normal⟩
    rw [if_pos applies, ite_self, ite_self]

theorem mapSwitch_del : mapSwitch map 0x7f = if hasFlag map mDelbs then some [0x08] else none := rfl

theorem mapSwitch_bs : mapSwitch map 0x08 = if hasFlag map mBsdel then some [0x7f] else none := rfl

theorem ShowsHex.mapSwitch_cr (shows : ShowsHex map) : mapSwitch map 0x0d =
    some (if hasFlag map mCrlf then [0x0a]
      else if hasFlag map mCrcrlf then [0x0d, 0x0a] else map2hex 0x0d) := by
  change (if hasFlag map mCrlf then some [0x0a]
    else if hasFlag map mCrcrlf then some [0x0d, 0x0a]
    else if hasFlag map mIgncr then some []
    else if hasFlag map mCrhex then some (map2hex 0x0d)
    else none) = _
  rw [if_neg shows.keepsCr, if_pos shows.crhex]
  split
  · rfl
  · split <;> rfl

theorem ShowsHex.mapSwitch_lf (shows : ShowsHex map) : mapSwitch map 0x0a =
    some (if hasFlag map mLfcr then [0x0d]
      else if hasFlag map mLfcrlf then [0x0d, 0x0a] else map2hex 0x0a) := by
  change (if hasFlag map mLfcr then some [0x0d]
    else if hasFlag map mLfcrlf then some [0x0d, 0x0a]
    else if hasFlag map mIgnlf then some []
    else if hasFlag map mLfhex then some (map2hex 0x0a)
    else none) = _
  rw [if_neg shows.keepsLf, if_pos shows.lfhex]
  split
  · rfl
  · split <;> rfl

theorem ShowsHex.image (shows : ShowsHex map) (c : UInt8) : HexImage map c (doMapBytes map c) := by
  by_cases del : c = 0x7f
  · subst del
    by_cases given : hasFlag map mDelbs
    · rw [doMapBytes_of_switch (mapSwitch_del.trans (if_pos given))]
      exact .delbs
    · rw [shows.doMapBytes_of_none (by decide) (by decide) (by decide)
        (mapSwitch_del.trans (if_neg given))]
      exact .hex _
  by_cases bs : c = 0x08
  · subst bs
    by_cases given : hasFlag map mBsdel
    · rw [doMapBytes_of_switch (mapSwitch_bs.trans (if_pos given))]
      exact .bsdel
    · rw [shows.doMapBytes_of_none (by decide) (by decide) (by decide)
        (mapSwitch_bs.trans (if_neg given))]
      exact .hex _
  by_cases cr : c = 0x0d
  · subst cr
    rw [doMapBytes_of_switch shows.mapSwitch_cr]
    split
    · next lf => exact .crlf lf
    · next lf =>
      split
      · next both => exact .crcrlf ⟨both, lf⟩
      · exact .hex _
  by_cases lf : c = 0x0a
  · subst lf
    rw [doMapBytes_of_switch shows.mapSwitch_lf]
    split
    · next cr => exact .lfcr cr
    · next cr =>
      split
      · next both => exact .lfcrlf ⟨both, cr⟩
      · exact .hex _
  by_cases tab : c = 0x09
  · subst tab
    have switched : mapSwitch map 0x09 = some (map2hex 0x09) := if_pos shows.tabhex
    rw [doMapBytes_of_switch switched]
    exact .hex _
  · rw [shows.doMapBytes_of_none cr lf tab (by simp [mapSwitch, del, bs, cr, lf, tab])]
    exact .hex _

/-- The byte that an image stands for. -/
def source (crToCrlf : Bool) : List UInt8 → UInt8
  | [0x08] => 0x7f
  | [0x7f] => 0x08
  | [0x0a] => 0x0d
  | [0x0d] => 0x0a
  | [0x0d, 0x0a] => if crToCrlf then 0x0d else 0x0a
  | [_, hi, lo, _] => (hexValue hi <<< 4) ||| hexValue lo
  | _ => 0
where
  hexValue (d : UInt8) : UInt8 := if d < 0x61 then d - 0x30 else d - 0x61 + 10

theorem source_map2hex (crToCrlf : Bool) : ∀ c : UInt8, source crToCrlf (map2hex c) = c := by
  cases crToCrlf with
  | true => exact forall_byte (by decide +kernel)
  | false => exact forall_byte (by decide +kernel)

/-- Each image stands for one byte. -/
theorem HexImage.source_eq (image : HexImage map c w)
    (oneCrlf : ¬ (CrToCrlf map ∧ LfToCrlf map)) : source (decide (CrToCrlf map)) w = c := by
  cases image with
  | hex => exact source_map2hex _ c
  | delbs => rfl
  | bsdel => rfl
  | crlf given => rfl
  | crcrlf given => exact if_pos (decide_eq_true given)
  | lfcr given => rfl
  | lfcrlf given => exact if_neg fun cr => oneCrlf ⟨of_decide_eq_true cr, given⟩

theorem HexImage.ne_nil (image : HexImage map c w) : w ≠ [] := by
  cases image <;> exact List.cons_ne_nil _ _

/-- An image that starts with a bracket has four characters. -/
theorem HexImage.length_of_bracket (image : HexImage map c w) (starts : w.head? = some 0x5b) :
    w.length = 4 := by
  cases image with
  | hex => rfl
  | _ => cases starts

/-- Only the image of LF can be the start of a longer one, which is then that of CR. -/
theorem HexImage.longer {b x : UInt8} {rest : List UInt8} (image : HexImage map c w)
    (image' : HexImage map b (w ++ x :: rest)) : w = [0x0d] ∧ x = 0x0a := by
  obtain ⟨y, more, rfl⟩ := List.exists_cons_of_ne_nil image.ne_nil
  -- a longer image has two characters at least
  have short : ∀ z, ¬ (y :: more) ++ x :: rest = [z] := by simp
  have both : (y :: more) ++ x :: rest = [0x0d, 0x0a] → y :: more = [0x0d] ∧ x = 0x0a := by
    intro same
    obtain ⟨first, second⟩ := List.cons.inj same
    cases more with
    | nil => exact ⟨by rw [first], (List.cons.inj second).1⟩
    | cons z later => exact absurd (congrArg List.length second) (by simp)
  generalize same : (y :: more) ++ x :: rest = longer at image' short both
  cases image' with
  | hex b =>
      have bracket : (y :: more).head? = some 0x5b := congrArg List.head? same
      have four := image.length_of_bracket bracket
      have fits := congrArg List.length same
      simp only [List.length_append, List.length_cons, map2hex, List.length_nil] at four fits
      omega
  | delbs => exact absurd rfl (short _)
  | bsdel => exact absurd rfl (short _)
  | crlf => exact absurd rfl (short _)
  | lfcr => exact absurd rfl (short _)
  | crcrlf => exact both rfl
  | lfcrlf => exact both rfl

theorem HexImage.starts_newline (image : HexImage map c w) (starts : w.head? = some 0x0a) :
    hasFlag map mCrlf := by
  cases image with
  | crlf given => exact given
  | _ => cases starts

theorem HexImage.lfcr_of_cr (image : HexImage map c w) (cr : w = [0x0d]) : hasFlag map mLfcr := by
  cases image with
  | lfcr given => exact given
  | _ => cases cr

theorem HexImage.crlf_of_both {rest : List UInt8} (image : HexImage map c w)
    (both : w = 0x0d :: 0x0a :: rest) : CrToCrlf map ∨ LfToCrlf map := by
  cases image with
  | crcrlf given => exact .inl given
  | lfcrlf given => exact .inr given
  | _ => cases both

end Images

/-- The images under a map that shows what it replaces form a code that can be read back. -/
theorem ShowsHex.separated {map : Word} (shows : ShowsHex map)
    (oneCrlf : ¬ (CrToCrlf map ∧ LfToCrlf map)) : Code.Separated (doMapBytes map) where
  written a := by
    intro none
    cases none ▸ shows.image a
  apart {a b} same := by
    rw [← (shows.image a).source_eq oneCrlf, same, (shows.image b).source_eq oneCrlf]
  resumes {a b c x rest} longer starts := by
    obtain ⟨single, newline⟩ := (shows.image a).longer (longer ▸ shows.image b)
    have crlf := (shows.image c).starts_newline (newline ▸ starts)
    have lfcr := (shows.image a).lfcr_of_cr single
    rw [single, newline] at longer
    rcases (shows.image b).crlf_of_both longer with cr | lf
    · exact cr.2 crlf
    · exact lf.2 lfcr

/-- A map that shows what it replaces is lossless: no two streams have one image, and every stream
has one. -/
theorem hex_lossless {map : Word} (shows : ShowsHex map)
    (oneCrlf : ¬ (CrToCrlf map ∧ LfToCrlf map)) :
    Function.Injective (mapInput map) ∧ ∀ stream, (mapInput map stream).isSome := by
  have code := shows.separated oneCrlf
  have mapped : ∀ stream, mapInput map stream = some (Code.encode (doMapBytes map) stream) := by
    intro stream
    cases images : mapInput map stream with
    | none =>
        obtain ⟨b, -, fails⟩ := (mapInput_eq_none_iff map stream).mp images
        exact absurd ((doMap_eq_none_iff map b).mp fails) (code.written b)
    | some image =>
        have images := mapInput_image images
        rw [images, Code.encode, funext (doMapBytes_documented map)]
  constructor
  · intro stream stream' same
    rw [mapped, mapped] at same
    exact code.injective (Option.some.inj same)
  · intro stream
    rw [mapped]
    rfl

/-- Everything to hexadecimal, but CR becomes CR and LF, and LF becomes CR. -/
def allHexCr : Word :=
  mSpchex ||| mTabhex ||| mCrhex ||| mLfhex ||| m8bithex ||| mNrmhex ||| mCrcrlf ||| mLfcr

theorem hex_lossless_crcrlf_lfcr :
    Function.Injective (mapInput allHexCr) ∧ ∀ stream, (mapInput allHexCr stream).isSome :=
  hex_lossless ⟨by decide, by decide, by decide, by decide, by decide, by decide,
    by decide, by decide⟩ fun both => absurd both.2.1 (by decide)

end Ppcom
