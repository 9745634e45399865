/-
Module: Ppcom.Proofs.NumericArgs
Purpose: Which strings the options `-b` and `-x` of `parse_args` and the prompt for a baud rate take as
  they are written.
Trusted boundary: none
Main exports: baudArg_eq, exitAfterArg_eq, baudOfLine_eq, numbers_as_written_iff
-/
import Ppcom.Args
import Ppcom.Main
import Ppcom.Proofs.Numeral
import Ppcom.Proofs.SetterEffects

namespace Ppcom

open Numeral

variable {plat : Platform} {strdup : List UInt8 → Option (List UInt8)} {opts : Opts}
  {s : List UInt8} {x : Int} {rest : List UInt8}

/-! ### What is stored -/

theorem accept_ok_iff {α : Type} {value : Option α} {store : α → Opts} {opts' : Opts} :
    accept value store = .ok opts' ↔ ∃ v, value = some v ∧ store v = opts' := by
  cases value with
  | none => simp [accept]
  | some v => simp [accept]

theorem forall_accept_iff {α : Type} {value : Option α} {store : α → Opts} {P : Opts → Prop} :
    (∀ opts', accept value store = .ok opts' → P opts') ↔ ∀ v, value = some v → P (store v) := by
  constructor
  · intro each v taken
    exact each _ (accept_ok_iff.mpr ⟨v, taken, rfl⟩)
  · intro each opts' ran
    obtain ⟨v, taken, rfl⟩ := accept_ok_iff.mp ran
    exact each v taken

/-- `-b` of a string that `strtol` has read. -/
theorem baudArg_eq (read : decimalReader.strtol s = (clipped x, rest)) :
    baudArg plat s =
      if narrowed x = 0 ∨ ¬ termBaudOk plat (narrowed x) then none else some (narrowed x) := by
  rw [← strtolDecimal_eq, Prod.mk.injEq] at read
  rw [baudArg, atoi, read.1, toInt_clipped]

/-- `-x` of a string that `strtol` has read. -/
theorem exitAfterArg_eq (read : decimalReader.strtol s = (clipped x, rest)) :
    exitAfterArg s = if rest ≠ [] ∨ narrowed x < 0 then none else some (narrowed x) := by
  rw [← strtolDecimal_eq, Prod.mk.injEq] at read
  rw [exitAfterArg, read.1, read.2, toInt_clipped]

/-- The prompt of a string that `strtol` has read. -/
theorem baudOfLine_eq (read : constantReader.strtol (cString s) = (clipped x, rest)) :
    baudOfLine plat s =
      if rest ≠ [] ∨ ¬ termBaudOk plat (narrowed x) ∨ narrowed x = 0 then -1 else narrowed x := by
  rw [← strtol_eq] at read
  rw [baudOfLine, read]
  simp only [toInt_clipped]

/-- Where no number is read, it is zero. -/
theorem zero_clipped : (0 : Int) = clipped 0 := by decide

theorem narrowed_zero : narrowed 0 = 0 := by decide

/-! ### The prompt -/

/-- A line has no more bytes than its buffer has room for before the terminator. -/
theorem length_readlineLoop {bsz n : Nat} {held line : List UInt8} {src : Source}
    (room : held.length ≤ bsz - 1) (read : (readlineLoop bsz n held src).1 = some line) :
    line.length ≤ bsz - 1 := by
  induction n generalizing held src with
  | zero => cases read
  | succ n ih =>
      unfold readlineLoop at read
      split at read
      · next c _ src' _ =>
        split at read
        · exact ih (by rw [List.length_dropLast]; omega) read
        · split at read
          · cases read
          · split at read
            · cases read
              exact room
            · split at read
              · next less => exact ih (by rw [List.length_append]; exact less) read
              · exact ih room read
      · cases read

/-- What `read_baud` returns is negative, or what it makes of a line of at most eight bytes. -/
theorem readBaud_cases (plat : Platform) (src : Source) :
    (readBaud plat src).1 < 0 ∨
      ∃ line, line.length ≤ 8 ∧ (readBaud plat src).1 = baudOfLine plat line := by
  suffices loop : ∀ n baud src, baud < 0 → (readBaudLoop plat n baud src).1 < 0 ∨
      ∃ line, line.length ≤ 8 ∧ (readBaudLoop plat n baud src).1 = baudOfLine plat line from
    loop _ (-1) src (by decide)
  intro n
  induction n with
  | zero => exact fun baud src negative => .inl negative
  | succ n ih =>
      intro baud src negative
      rw [readBaudLoop]
      cases read : fdReadline 9 src with
      | mk answer src' =>
          cases answer with
          | none => exact .inl negative
          | some line =>
              by_cases again : baudOfLine plat line < 0
              · simp only [if_pos again]
                exact ih _ _ again
              · simp only [if_neg again]
                have short : line.length ≤ 9 - 1 :=
                  length_readlineLoop (Nat.zero_le _) (congrArg Prod.fst read)
                exact .inr ⟨line, short, rfl⟩

/-! ### The three places -/

theorem baudArg_written_iff (spaced : Bool) :
    (∀ v, baudArg plat s = some v → Written Decimal spaced s v) ↔
      ∀ blanks x lit rest, StartsWith Decimal s blanks x lit rest → narrowed x ≠ 0 →
        termBaudOk plat (narrowed x) = true → OnlyLiteral spaced blanks x rest := by
  rcases decimalReader.strtol_cases s with ⟨read, none⟩ | ⟨blanks, x, lit, rest, starts, read⟩
  · rw [zero_clipped] at read
    rw [baudArg_eq read, narrowed_zero, if_pos (.inl rfl)]
    exact iff_of_true nofun fun blanks x lit rest starts => absurd starts (none _ _ _ _)
  · have accepted := decimalReader.accepted_iff starts spaced fun _ w =>
      w ≠ 0 ∧ termBaudOk plat w = true
    simp only [and_imp] at accepted
    rw [baudArg_eq read, ← accepted]
    constructor
    · intro written nonzero ok
      exact written _ (if_neg (not_or.mpr ⟨nonzero, not_not.mpr ok⟩))
    · intro written v taken
      obtain ⟨valid, same⟩ := Option.ite_none_left_eq_some.mp taken
      cases same
      obtain ⟨nonzero, ok⟩ := not_or.mp valid
      exact written nonzero (not_not.mp ok)

theorem exitAfterArg_written_iff (spaced : Bool) :
    (∀ v, exitAfterArg s = some v → Written Decimal spaced s v) ↔
      s ≠ [] ∧ ∀ blanks x lit rest, StartsWith Decimal s blanks x lit rest → rest = [] →
        0 ≤ narrowed x → OnlyLiteral spaced blanks x rest := by
  rcases decimalReader.strtol_cases s with ⟨read, none⟩ | ⟨blanks, x, lit, rest, starts, read⟩
  · rw [zero_clipped] at read
    rw [exitAfterArg_eq read, narrowed_zero]
    by_cases empty : s = []
    · refine iff_of_false (fun written => ?_) (fun both => both.1 empty)
      subst empty
      exact decimalReader.not_written_nil (written 0 (by simp))
    · rw [if_pos (.inl empty)]
      exact iff_of_true nofun ⟨empty, fun blanks x lit rest starts => absurd starts (none _ _ _ _)⟩
  · have some : s ≠ [] := by
      obtain ⟨c, t, rfl, -⟩ := decimalReader.literal_visible starts.value
      simp [starts.text]
    have accepted := decimalReader.accepted_iff starts spaced fun rest w => rest = [] ∧ 0 ≤ w
    simp only [and_imp] at accepted
    rw [exitAfterArg_eq read, and_iff_right some, ← accepted]
    constructor
    · intro written whole natural
      exact written _ (if_neg (not_or.mpr ⟨not_not.mpr whole, not_lt.mpr natural⟩))
    · intro written v taken
      obtain ⟨valid, same⟩ := Option.ite_none_left_eq_some.mp taken
      cases same
      obtain ⟨whole, natural⟩ := not_or.mp valid
      exact written (not_not.mp whole) (not_lt.mp natural)

theorem baudOfLine_written_iff (spaced : Bool) :
    (0 ≤ baudOfLine plat s → Written Constant spaced (cString s) (baudOfLine plat s)) ↔
      ∀ blanks x lit rest, StartsWith Constant (cString s) blanks x lit rest → rest = [] →
        narrowed x ≠ 0 → termBaudOk plat (narrowed x) = true → OnlyLiteral spaced blanks x rest := by
  rcases constantReader.strtol_cases (cString s) with
    ⟨read, none⟩ | ⟨blanks, x, lit, rest, starts, read⟩
  · rw [zero_clipped] at read
    rw [baudOfLine_eq read, narrowed_zero, if_pos (.inr (.inr rfl))]
    exact iff_of_true (fun natural => absurd natural (by decide))
      fun blanks x lit rest starts => absurd starts (none _ _ _ _)
  · have accepted := constantReader.accepted_iff starts spaced fun rest w =>
      rest = [] ∧ w ≠ 0 ∧ termBaudOk plat w = true
    simp only [and_imp] at accepted
    rw [baudOfLine_eq read, ← accepted]
    constructor
    · intro written whole nonzero ok
      rw [if_neg (not_or.mpr ⟨not_not.mpr whole, not_or.mpr ⟨not_not.mpr ok, nonzero⟩⟩)] at written
      exact written (termBaudOk_natural ok)
    · intro written natural
      by_cases refused : rest ≠ [] ∨ ¬ termBaudOk plat (narrowed x) ∨ narrowed x = 0
      · rw [if_pos refused] at natural
        exact absurd natural (by decide)
      · rw [if_neg refused]
        obtain ⟨whole, valid⟩ := not_or.mp refused
        obtain ⟨ok, nonzero⟩ := not_or.mp valid
        exact written (not_not.mp whole) nonzero (not_not.mp ok)

/-- A number of at most eight bytes is an `int`. -/
theorem Constant.lt {n : Nat} (is : Constant n s) (short : s.length ≤ 8) : n < 2 ^ 31 := by
  cases is with
  | decimal nonzero digits =>
      exact lt_of_lt_of_le digits.lt
        ((Nat.pow_le_pow_right (by decide) short).trans (by decide))
  | octal digits =>
      have less := Nat.le_of_succ_le_succ short
      exact lt_of_lt_of_le digits.lt
        ((Nat.pow_le_pow_right (by decide) less).trans (by decide))
  | hex mark some digits =>
      have less := Nat.le_of_succ_le_succ (Nat.le_of_succ_le_succ short)
      exact lt_of_lt_of_le digits.lt
        ((Nat.pow_le_pow_right (by decide) less).trans (by decide))

theorem fits_literal {lit : List UInt8} (literal : Literal Constant x lit)
    (short : lit.length ≤ 8) : Fits x := by
  cases literal with
  | plain is =>
      have small := is.lt short
      constructor <;> omega
  | plus is =>
      have small := is.lt (Nat.le_of_succ_le short)
      constructor <;> omega
  | minus is =>
      have small := is.lt (Nat.le_of_succ_le short)
      constructor <;> omega

/-- The lines of the prompt are too short for a literal that does not fit. -/
theorem baudOfLine_short (short : s.length ≤ 8) (natural : 0 ≤ baudOfLine plat s) :
    Written Constant true (cString s) (baudOfLine plat s) := by
  refine (baudOfLine_written_iff true).mpr (fun blanks x lit rest starts whole _ _ => ?_) natural
  refine ⟨whole, fits_literal starts.value ?_, nofun⟩
  have part : (cString s).length ≤ s.length := (List.takeWhile_prefix _).length_le
  rw [starts.text, List.length_append, List.length_append] at part
  omega

/-- What `read_baud` returns is as it is written. -/
theorem readBaud_written {src : Source} (natural : 0 ≤ (readBaud plat src).1) :
    ∃ line, Written Constant true (cString line) (readBaud plat src).1 := by
  rcases readBaud_cases plat src with negative | ⟨line, short, is⟩
  · exact absurd negative (not_lt.mpr natural)
  · rw [is] at natural ⊢
    exact ⟨line, baudOfLine_short short natural⟩

/-- Of the strings given to `-b`, `-x` and the prompt for a baud rate, those that are accepted are literals
whose value is the one stored, exactly if they meet these conditions. Let `x` be the value of the
literal that the string starts with, and look at the `int` that it becomes. For `-b`, if this is a
rate that is accepted the literal is all of the string and `x` is an `int`. The others look at what
follows the literal: where nothing does and the `int` is accepted, `x` is an `int`. For `-x` the string
is not empty. -/
theorem numbers_as_written_iff (plat : Platform) (strdup : List UInt8 → Option (List UInt8))
    (opts : Opts) (spaced : Bool) (s : List UInt8) :
    ((∀ opts', parseOption plat strdup opts (.baud s) = .ok opts' →
        Written Decimal spaced s opts'.baud) ↔
      ∀ blanks x lit rest, StartsWith Decimal s blanks x lit rest → narrowed x ≠ 0 →
        termBaudOk plat (narrowed x) = true → OnlyLiteral spaced blanks x rest) ∧
    ((∀ opts', parseOption plat strdup opts (.exitAfter s) = .ok opts' →
        Written Decimal spaced s opts'.exitAfter) ↔
      s ≠ [] ∧ ∀ blanks x lit rest, StartsWith Decimal s blanks x lit rest → rest = [] →
        0 ≤ narrowed x → OnlyLiteral spaced blanks x rest) ∧
    ((0 ≤ baudOfLine plat s → Written Constant spaced (cString s) (baudOfLine plat s)) ↔
      ∀ blanks x lit rest, StartsWith Constant (cString s) blanks x lit rest → rest = [] →
        narrowed x ≠ 0 → termBaudOk plat (narrowed x) = true →
        OnlyLiteral spaced blanks x rest) := by
  refine ⟨?_, ?_, baudOfLine_written_iff spaced⟩
  · rw [← baudArg_written_iff spaced]
    exact forall_accept_iff
  · rw [← exitAfterArg_written_iff spaced]
    exact forall_accept_iff

/-- `-b 9600x` and `-b 4294976896` are accepted as 9600, `-x ""` as 0 and `-x 4294967297` as 1; the prompt
accepts 4294976896 as well. -/
theorem numbers_not_as_written :
    (∃ opts', parseOption Build.cmake.toPlatform some .default (.baud (ascii "9600x")) = .ok opts' ∧
      opts'.baud = 9600 ∧ ¬ Written Decimal true (ascii "9600x") opts'.baud) ∧
    (∃ opts', parseOption Build.cmake.toPlatform some .default (.baud (ascii "4294976896")) =
        .ok opts' ∧
      opts'.baud = 9600 ∧ ¬ Written Decimal true (ascii "4294976896") opts'.baud) ∧
    (∃ opts', parseOption Build.cmake.toPlatform some .default (.exitAfter []) = .ok opts' ∧
      opts'.exitAfter = 0 ∧ ¬ Written Decimal true [] opts'.exitAfter) ∧
    (∃ opts', parseOption Build.cmake.toPlatform some .default (.exitAfter (ascii "4294967297")) =
        .ok opts' ∧
      opts'.exitAfter = 1 ∧ ¬ Written Decimal true (ascii "4294967297") opts'.exitAfter) ∧
    (baudOfLine Build.cmake.toPlatform (ascii "4294976896") = 9600 ∧
      ¬ Written Constant true (cString (ascii "4294976896")) 9600) := by
  refine ⟨⟨_, rfl, by decide +kernel, fun written => ?_⟩, ⟨_, rfl, by decide +kernel, fun written => ?_⟩,
    ⟨_, rfl, by decide +kernel, fun written => ?_⟩, ⟨_, rfl, by decide +kernel, fun written => ?_⟩,
    by decide +kernel, fun written => ?_⟩
  · exact absurd (decimalReader.strtol_written written) (by decide +kernel)
  · exact absurd (decimalReader.strtol_written written) (by decide +kernel)
  · exact decimalReader.not_written_nil written
  · exact absurd (decimalReader.strtol_written written) (by decide +kernel)
  · exact absurd (constantReader.strtol_written written) (by decide +kernel)

end Ppcom
