/-
Module: Ppcom.Proofs.Numeral
Purpose: `strtol` against the literals of `Ppcom.Spec.Numeral`: it reads the longest literal that a string
  starts with, and what is stored in an `int` is its value exactly if the literal fits.
Trusted boundary: none
Main exports: Reader, decimalReader, constantReader, Reader.strtol_cases, Reader.written_narrowed_iff,
  strtol_eq, strtolDecimal_eq
-/
import Ppcom.Proofs.HexText
import Ppcom.Spec.Numeral

namespace Ppcom

open Numeral

/-! ### Digits -/

theorem digitValue_iff {c : UInt8} {d : Nat} (small : d < 16) :
    digitValue c = some d ↔ HexDigit d c := by
  constructor
  · intro value
    have all : ∀ c : UInt8,
        (digitValue c).all (fun n => decide (n < 16 → HexDigit n c)) = true :=
      forall_byte (by decide +kernel)
    have here := all c
    rw [value, Option.all_some] at here
    exact of_decide_eq_true here small
  · have all : ∀ n : Fin 16,
        ((ascii "0123456789abcdef")[n.val]?).all (fun c => digitValue c = some n.val) = true ∧
        ((ascii "0123456789ABCDEF")[n.val]?).all (fun c => digitValue c = some n.val) = true := by
      decide +kernel
    obtain ⟨lower, upper⟩ := all ⟨d, small⟩
    rintro (is | is)
    · rw [is, Option.all_some] at lower
      exact of_decide_eq_true lower
    · rw [is, Option.all_some] at upper
      exact of_decide_eq_true upper

theorem digit_iff {base d : Nat} {c : UInt8} (small : base ≤ 16) :
    digit base c = some d ↔ d < base ∧ HexDigit d c := by
  rw [digit, Option.filter_eq_some_iff, decide_eq_true_eq, and_comm]
  constructor
  · rintro ⟨below, value⟩
    exact ⟨below, (digitValue_iff (by omega)).mp value⟩
  · rintro ⟨below, is⟩
    exact ⟨below, (digitValue_iff (by omega)).mpr is⟩

theorem HexDigit.unique (d e : Nat) (c : UInt8) (first : HexDigit d c) (second : HexDigit e c) :
    d = e := by
  have value := (digitValue_iff first.lt).mpr first
  rw [(digitValue_iff second.lt).mpr second] at value
  exact (Option.some.inj value).symm

/-- No digit of the base follows. -/
def Stops (base : Nat) (rest : List UInt8) : Prop :=
  ∀ c more, rest = c :: more → digit base c = none

/-- What `readDigits` has read after digits that it was given the value of. -/
theorem readDigits_reads {base : Nat} (small : base ≤ 16) {value : Nat} {before s : List UInt8}
    (denotes : Digits HexDigit base value before) :
    ∃ ds n rest, readDigits base value s = (n, rest) ∧ s = ds ++ rest ∧
      Digits HexDigit base n (before ++ ds) ∧ Stops base rest := by
  induction s generalizing value before with
  | nil => exact ⟨[], value, [], rfl, rfl, by simpa using denotes, fun _ _ is => by cases is⟩
  | cons c s ih =>
      cases known : digit base c with
      | none =>
          refine ⟨[], value, c :: s, by simp [readDigits, known], rfl, by simpa using denotes, ?_⟩
          rintro c' more is
          cases is
          exact known
      | some d =>
          obtain ⟨below, is⟩ := (digit_iff small).mp known
          obtain ⟨ds, n, rest, reads, rfl, all, stops⟩ := ih (denotes.snoc is below)
          refine ⟨c :: ds, n, rest, by simpa [readDigits, known] using reads, rfl, ?_, stops⟩
          simpa using all

/-- Digits of the base do not go on where it stops. -/
theorem Stops.not_digits {base : Nat} (small : base ≤ 16) {ds more rest : List UInt8}
    (stops : Stops base rest) (some : more ≠ []) (starts : more <+: rest) (n : Nat) :
    ¬ Digits HexDigit base n (ds ++ more) := by
  intro digits
  obtain ⟨c, more, rfl⟩ := List.exists_cons_of_ne_nil some
  obtain ⟨later, rfl⟩ := starts
  obtain ⟨d, below, is⟩ := digits.forall c (by simp)
  have none := stops c (more ++ later) rfl
  rw [(digit_iff small).mpr ⟨below, is⟩] at none
  cases none

/-! ### Readers -/

/-- The first digit of a number is a decimal digit. -/
theorem Decimal.head {n : Nat} {s : List UInt8} (is : Decimal n s) :
    ∃ c t, s = c :: t ∧ (digit 10 c).isSome := by
  obtain ⟨c, t, rfl⟩ := List.exists_cons_of_ne_nil is.1
  obtain ⟨d, below, value⟩ := is.2.forall c List.mem_cons_self
  exact ⟨c, t, rfl, by simp [(digit_iff (by decide)).mpr ⟨below, value⟩]⟩

theorem Constant.head {n : Nat} {s : List UInt8} (is : Constant n s) :
    ∃ c t, s = c :: t ∧ (digit 10 c).isSome := by
  cases is with
  | decimal nonzero digits => exact Decimal.head ⟨List.cons_ne_nil _ _, digits⟩
  | octal digits => exact ⟨0x30, _, rfl, by decide⟩
  | hex mark some digits => exact ⟨0x30, _, rfl, by decide⟩

theorem Decimal.unique {n m : Nat} {s : List UInt8} (is : Decimal n s) (also : Decimal m s) :
    n = m :=
  is.2.unique HexDigit.unique also.2

/-- What marks a number in hexadecimal is no digit of the other forms. -/
theorem mark_not_digit {x : UInt8} (mark : x = 0x78 ∨ x = 0x58) {base n : Nat} {ds : List UInt8}
    (small : base ≤ 16) : ¬ Digits HexDigit base n (x :: ds) := by
  intro digits
  obtain ⟨d, below, value⟩ := digits.forall x List.mem_cons_self
  have known := (digit_iff small).mpr ⟨below, value⟩
  have none : digit 16 x = none := by
    rcases mark with rfl | rfl <;> decide
  rw [(digit_iff le_rfl).mpr ⟨value.lt, value⟩] at none
  cases none

theorem Constant.unique {n m : Nat} {s : List UInt8} (is : Constant n s) (also : Constant m s) :
    n = m := by
  cases is with
  | decimal nonzero digits =>
      cases also with
      | decimal _ digits' => exact digits.unique HexDigit.unique digits'
      | octal => exact absurd rfl nonzero
      | hex => exact absurd rfl nonzero
  | octal digits =>
      cases also with
      | decimal nonzero => exact absurd rfl nonzero
      | octal digits' => exact digits.unique HexDigit.unique digits'
      | hex mark => exact absurd digits (mark_not_digit mark (by decide))
  | hex mark some digits =>
      cases also with
      | decimal nonzero => exact absurd rfl nonzero
      | octal digits' => exact absurd digits' (mark_not_digit mark (by decide))
      | hex _ _ digits' => exact digits.unique HexDigit.unique digits'

/-- What reads a number of a form from the start of a text: the longest one, where there is one. -/
structure Reader (form : Nat → List UInt8 → Prop) where
  read : List UInt8 → Option (Nat × List UInt8)
  found : ∀ u n rest, read u = some (n, rest) → ∃ lit, u = lit ++ rest ∧ form n lit ∧
    ∀ more m, more ≠ [] → more <+: rest → ¬ form m (lit ++ more)
  absent : ∀ u, read u = none → ∀ lit rest n, u = lit ++ rest → ¬ form n lit
  head : ∀ n s, form n s → ∃ c t, s = c :: t ∧ (digit 10 c).isSome
  unique : ∀ n m s, form n s → form m s → n = m

/-- The digits that `readDigits` finds at the start of a text. -/
theorem readDigits_zero (base : Nat) (s : List UInt8) (small : base ≤ 16 := by decide) :
    ∃ ds n rest, readDigits base 0 s = (n, rest) ∧ s = ds ++ rest ∧ Digits HexDigit base n ds ∧
      Stops base rest :=
  readDigits_reads small Digits.nil

/-- Base 10. -/
def decimalReader : Reader Decimal where
  read u :=
    let (n, rest) := readDigits 10 0 u
    if rest = u then none else some (n, rest)
  found u n rest reads := by
    obtain ⟨ds, m, rest', run, rfl, digits, stops⟩ := readDigits_zero 10 u
    simp only [run] at reads
    split at reads
    · cases reads
    · next moved =>
      cases reads
      refine ⟨ds, rfl, ⟨?_, digits⟩, fun more m some starts is => ?_⟩
      · rintro rfl
        exact moved rfl
      · exact stops.not_digits (by decide) some starts m is.2
  absent u reads lit rest n is denotes := by
    obtain ⟨ds, m, rest', run, same, digits, stops⟩ := readDigits_zero 10 u
    simp only [run] at reads
    split at reads
    · next stays =>
      subst stays
      exact @Stops.not_digits 10 (by decide) [] lit _ stops denotes.1 ⟨rest, is.symm⟩ n denotes.2
    · cases reads
  head _ _ := Decimal.head
  unique _ _ _ := Decimal.unique

/-- What marks a number in hexadecimal is there, with a digit behind it. -/
def HexMarked (rest : List UInt8) : Prop :=
  ∃ x c t, rest = x :: c :: t ∧ (x = 0x78 ∨ x = 0x58) ∧ (digit 16 c).isSome

theorem detectBase_cases (u : List UInt8) :
    (∃ x c t, u = 0x30 :: x :: c :: t ∧ (x = 0x78 ∨ x = 0x58) ∧ (digit 16 c).isSome ∧
      detectBase u = (16, c :: t)) ∨
    (∃ rest, u = 0x30 :: rest ∧ ¬ HexMarked rest ∧ detectBase u = (8, u)) ∨
    (∀ rest, u ≠ 0x30 :: rest) ∧ detectBase u = (10, u) := by
  unfold detectBase
  split
  · next x c rest =>
      split
      · next marked => exact .inl ⟨x, c, rest, rfl, marked.1, marked.2, rfl⟩
      · next plain =>
        refine .inr (.inl ⟨_, rfl, ?_, rfl⟩)
        rintro ⟨x', c', t, is, marked⟩
        cases is
        exact plain marked
  · next rest short =>
      refine .inr (.inl ⟨_, rfl, ?_, rfl⟩)
      rintro ⟨x, c, t, rfl, -⟩
      exact short x c t rfl
  · next other => exact .inr (.inr ⟨fun rest is => other rest is, rfl⟩)

/-- The longest number in hexadecimal. -/
theorem constant_hex {x : UInt8} (mark : x = 0x78 ∨ x = 0x58) {ds rest : List UInt8} {n : Nat}
    (some : ds ≠ []) (digits : Digits HexDigit 16 n ds) (stops : Stops 16 rest) :
    Constant n (0x30 :: x :: ds) ∧
      ∀ more m, more ≠ [] → more <+: rest → ¬ Constant m (0x30 :: x :: ds ++ more) := by
  refine ⟨.hex mark some digits, fun more m later starts longer => ?_⟩
  cases longer with
  | decimal nonzero => exact absurd rfl nonzero
  | octal digits' => exact mark_not_digit mark (by decide) digits'
  | hex _ _ digits' => exact stops.not_digits le_rfl later starts m digits'

/-- The longest number in octal. -/
theorem constant_octal {ds rest : List UInt8} {n : Nat} (plain : ¬ HexMarked (ds ++ rest))
    (digits : Digits HexDigit 8 n ds) (stops : Stops 8 rest) :
    Constant n (0x30 :: ds) ∧
      ∀ more m, more ≠ [] → more <+: rest → ¬ Constant m (0x30 :: ds ++ more) := by
  refine ⟨.octal digits, fun more m later starts longer => ?_⟩
  rw [List.cons_append] at longer
  generalize is : ds ++ more = text at longer
  cases longer with
  | decimal nonzero => exact absurd rfl nonzero
  | octal digits' =>
      rw [← is] at digits'
      exact stops.not_digits (by decide) later starts m digits'
  | @hex x s mark some digits' =>
      cases ds with
      | nil =>
          -- the mark and a digit behind it have not been read as octal digits
          obtain ⟨c, t, rfl⟩ := List.exists_cons_of_ne_nil some
          obtain ⟨d, below, value⟩ := digits'.forall c List.mem_cons_self
          obtain ⟨last, rfl⟩ := starts
          rw [List.nil_append] at is plain
          refine plain ⟨x, c, t ++ last, by simp [is], mark, ?_⟩
          simp [(digit_iff le_rfl).mpr ⟨below, value⟩]
      | cons d ds =>
          cases is
          exact mark_not_digit mark (by decide) digits

/-- The longest number in decimal that does not start with zero. -/
theorem constant_decimal {c : UInt8} (nonzero : c ≠ 0x30) {ds rest : List UInt8} {n : Nat}
    (digits : Digits HexDigit 10 n (c :: ds)) (stops : Stops 10 rest) :
    Constant n (c :: ds) ∧
      ∀ more m, more ≠ [] → more <+: rest → ¬ Constant m (c :: ds ++ more) := by
  refine ⟨.decimal nonzero digits, fun more m later starts longer => ?_⟩
  generalize is : c :: ds ++ more = text at longer
  cases longer with
  | decimal _ digits' =>
      rw [← is] at digits'
      exact stops.not_digits (by decide) later starts m digits'
  | octal => exact nonzero (List.cons.inj is).1
  | hex => exact nonzero (List.cons.inj is).1

/-- `strtol` behind the white space and the sign. -/
def readConstant (u : List UInt8) : Option (Nat × List UInt8) :=
  match (detectBase u).2 with
  | [] => none
  | c :: rest =>
      if (digit (detectBase u).1 c).isSome then some (readDigits (detectBase u).1 0 (c :: rest))
      else none

/-- A digit that is there is read. -/
theorem read_nonempty {base : Nat} {c : UInt8} {t ds rest : List UInt8} (is : c :: t = ds ++ rest)
    (known : (digit base c).isSome) (stops : Stops base rest) : ∃ ds', ds = c :: ds' := by
  cases ds with
  | nil =>
      rw [stops c t is.symm] at known
      cases known
  | cons d ds' =>
      cases is
      exact ⟨ds', rfl⟩

/-- Base 0. -/
def constantReader : Reader Constant where
  read := readConstant
  found u n rest reads := by
    unfold readConstant at reads
    rcases detectBase_cases u with
      ⟨x, c, t, rfl, mark, known, base⟩ | ⟨t, rfl, plain, base⟩ | ⟨nonzero, base⟩
    · obtain ⟨ds, m, rest', run, is, digits, stops⟩ := readDigits_zero 16 (c :: t)
      simp only [base, run] at reads
      rw [if_pos known] at reads
      cases reads
      obtain ⟨ds', rfl⟩ := read_nonempty is known stops
      refine ⟨0x30 :: x :: c :: ds', by simp [is], ?_⟩
      exact constant_hex mark (List.cons_ne_nil _ _) digits stops
    · obtain ⟨ds, m, rest', run, rfl, digits, stops⟩ := readDigits_zero 8 t
      have zero : readDigits 8 0 (0x30 :: (ds ++ rest')) = readDigits 8 0 (ds ++ rest') := by
        conv_lhs => rw [readDigits]
        rfl
      simp only [base, zero, run] at reads
      rw [if_pos (by decide)] at reads
      cases reads
      exact ⟨0x30 :: ds, rfl, constant_octal plain digits stops⟩
    · obtain ⟨ds, m, rest', run, rfl, digits, stops⟩ := readDigits_zero 10 u
      simp only [base] at reads
      split at reads
      · cases reads
      · next c t is =>
        split at reads
        · next known =>
          rw [← is, run] at reads
          cases reads
          obtain ⟨ds', rfl⟩ := read_nonempty is.symm known stops
          refine ⟨c :: ds', rfl, constant_decimal ?_ digits stops⟩
          rintro rfl
          exact nonzero _ rfl
        · cases reads
  absent u reads lit rest n is denotes := by
    unfold readConstant at reads
    rcases detectBase_cases u with
      ⟨x, c, t, rfl, mark, known, base⟩ | ⟨t, rfl, plain, base⟩ | ⟨nonzero, base⟩
    · simp only [base] at reads
      rw [if_pos known] at reads
      cases reads
    · simp only [base] at reads
      rw [if_pos (by decide)] at reads
      cases reads
    · obtain ⟨c, t, rfl, first⟩ := denotes.head
      subst is
      rw [base] at reads
      simp only [List.cons_append] at reads
      rw [if_pos first] at reads
      cases reads
  head _ _ := Constant.head
  unique _ _ _ := Constant.unique

/-! ### Literals -/

/-- A decimal digit is neither white space nor a sign. -/
theorem digit_visible {c : UInt8} (known : (digit 10 c).isSome) :
    isspace c = false ∧ c ≠ 0x2b ∧ c ≠ 0x2d := by
  have all : ∀ k : Fin 256, (digit 10 (UInt8.ofFin k)).isSome →
      isspace (UInt8.ofFin k) = false ∧ UInt8.ofFin k ≠ 0x2b ∧ UInt8.ofFin k ≠ 0x2d := by
    decide +kernel
  exact all c.toFin known

theorem readSign_cases (t : List UInt8) :
    (∃ u, t = 0x2d :: u ∧ readSign t = (true, u)) ∨
    (∃ u, t = 0x2b :: u ∧ readSign t = (false, u)) ∨
    (∀ u, t ≠ 0x2d :: u) ∧ (∀ u, t ≠ 0x2b :: u) ∧ readSign t = (false, t) := by
  unfold readSign
  split
  · exact .inl ⟨_, rfl, rfl⟩
  · exact .inr (.inl ⟨_, rfl, rfl⟩)
  · next minus plus => exact .inr (.inr ⟨fun u is => minus u is, fun u is => plus u is, rfl⟩)

/-- `strtol` with the numbers that a reader reads. -/
def Reader.strtol {form : Nat → List UInt8 → Prop} (reader : Reader form) (s : List UInt8) :
    Int × List UInt8 :=
  match reader.read (readSign (s.dropWhile isspace)).2 with
  | none => (0, s)
  | some (n, rest) =>
      (clipped (if (readSign (s.dropWhile isspace)).1 then -(n : Int) else n), rest)

section Literals

variable {form : Nat → List UInt8 → Prop} (reader : Reader form)
  {s blanks blanks' lit lit' rest rest' : List UInt8} {x y : Int} {n : Nat}

include reader

theorem Reader.not_plus : ¬ form n (0x2b :: s) := by
  intro is
  obtain ⟨c, t, same, known⟩ := reader.head _ _ is
  cases same
  exact (digit_visible known).2.1 rfl

theorem Reader.not_minus : ¬ form n (0x2d :: s) := by
  intro is
  obtain ⟨c, t, same, known⟩ := reader.head _ _ is
  cases same
  exact (digit_visible known).2.2 rfl

/-- A literal does not start with white space. -/
theorem Reader.literal_visible (literal : Literal form x lit) :
    ∃ c t, lit = c :: t ∧ isspace c = false := by
  cases literal with
  | plain is =>
      obtain ⟨c, t, same, known⟩ := reader.head _ _ is
      exact ⟨c, t, same, (digit_visible known).1⟩
  | plus => exact ⟨_, _, rfl, rfl⟩
  | minus => exact ⟨_, _, rfl, rfl⟩

/-- A literal has one value. -/
theorem Reader.literal_unique (first : Literal form x lit) (second : Literal form y lit) :
    x = y := by
  cases first with
  | plain is =>
      cases second with
      | plain also => rw [reader.unique _ _ _ is also]
      | plus => exact absurd is reader.not_plus
      | minus => exact absurd is reader.not_minus
  | plus is =>
      cases second with
      | plain also => exact absurd also reader.not_plus
      | plus also => rw [reader.unique _ _ _ is also]
  | minus is =>
      cases second with
      | plain also => exact absurd also reader.not_minus
      | minus also => rw [reader.unique _ _ _ is also]

/-- The white space before a literal is all that there is. -/
theorem Reader.split_blanks (starts : StartsWith form s blanks x lit rest) :
    blanks = s.takeWhile isspace ∧ lit ++ rest = s.dropWhile isspace := by
  obtain ⟨c, t, rfl, visible⟩ := reader.literal_visible starts.value
  rw [starts.text, List.takeWhile_append_of_pos starts.blank,
    List.dropWhile_append_of_pos starts.blank, List.cons_append]
  simp [visible]

/-- A string starts with one literal at most. -/
theorem Reader.startsWith_unique (first : StartsWith form s blanks x lit rest)
    (second : StartsWith form s blanks' y lit' rest') :
    blanks = blanks' ∧ x = y ∧ lit = lit' ∧ rest = rest' := by
  have one := reader.split_blanks first
  have two := reader.split_blanks second
  obtain ⟨rfl, rfl⟩ := first.longest.unique second.longest (one.2.trans two.2.symm)
  exact ⟨one.1.trans two.1.symm, reader.literal_unique first.value second.value, rfl, rfl⟩

/-- The literal that is read behind the white space. -/
theorem Reader.found_literal {t u : List UInt8} {negative : Bool}
    (sign : readSign t = (negative, u)) (reads : reader.read u = some (n, rest)) :
    ∃ lit, t = lit ++ rest ∧ Literal form (if negative then -(n : Int) else n) lit ∧
      Longest (fun text => ∃ y, Literal form y text) lit rest := by
  obtain ⟨lit, rfl, is, longest⟩ := reader.found u n rest reads
  rcases readSign_cases t with ⟨u, rfl, signed⟩ | ⟨u, rfl, signed⟩ | ⟨minus, plus, signed⟩
  · rw [signed] at sign
    cases sign
    refine ⟨0x2d :: lit, rfl, .minus is, ⟨_, .minus is⟩, fun more some starts longer => ?_⟩
    obtain ⟨y, literal⟩ := longer
    cases literal with
    | plain also => exact reader.not_minus also
    | minus also => exact longest more _ some starts also
  · rw [signed] at sign
    cases sign
    refine ⟨0x2b :: lit, rfl, .plus is, ⟨_, .plus is⟩, fun more some starts longer => ?_⟩
    obtain ⟨y, literal⟩ := longer
    cases literal with
    | plain also => exact reader.not_plus also
    | plus also => exact longest more _ some starts also
  · rw [signed] at sign
    cases sign
    refine ⟨lit, rfl, .plain is, ⟨_, .plain is⟩, fun more some starts longer => ?_⟩
    obtain ⟨y, literal⟩ := longer
    generalize whole : lit ++ more = text at literal
    obtain ⟨c, lit, rfl, known⟩ := reader.head _ _ is
    cases literal with
    | plain also =>
        rw [← whole] at also
        exact longest more _ some starts also
    | plus => exact (digit_visible known).2.1 (List.cons.inj whole).1
    | minus => exact (digit_visible known).2.2 (List.cons.inj whole).1

/-- Where nothing is read there is no literal. -/
theorem Reader.absent_literal {t u : List UInt8} {negative : Bool}
    (sign : readSign t = (negative, u)) (reads : reader.read u = none) (is : t = lit ++ rest) :
    ¬ Literal form x lit := by
  intro literal
  subst is
  rcases readSign_cases (lit ++ rest) with
    ⟨v, same, signed⟩ | ⟨v, same, signed⟩ | ⟨minus, plus, signed⟩
  all_goals rw [signed] at sign; cases sign
  · cases literal with
    | plain is =>
        obtain ⟨c, t, rfl, known⟩ := reader.head _ _ is
        exact (digit_visible known).2.2 (List.cons.inj same).1
    | plus is => cases same
    | minus is => exact reader.absent _ reads _ _ _ (List.cons.inj same).2.symm is
  · cases literal with
    | plain is =>
        obtain ⟨c, t, rfl, known⟩ := reader.head _ _ is
        exact (digit_visible known).2.1 (List.cons.inj same).1
    | plus is => exact reader.absent _ reads _ _ _ (List.cons.inj same).2.symm is
    | minus is => cases same
  · cases literal with
    | plain is => exact reader.absent _ reads _ _ _ rfl is
    | plus is => exact plus _ rfl
    | minus is => exact minus _ rfl

omit reader in
theorem Written.startsWith {spaced : Bool} {v : Int} (written : Written form spaced s v) :
    ∃ blanks lit, StartsWith form s blanks v lit [] ∧ (spaced = false → blanks = []) := by
  obtain ⟨blanks, lit, rfl, blank, spaces, literal⟩ := written
  exact ⟨blanks, lit, ⟨by simp, blank, literal, longest_nil ⟨v, literal⟩⟩, spaces⟩

/-- The empty string is no literal. -/
theorem Reader.not_written_nil {spaced : Bool} {v : Int} : ¬ Written form spaced [] v := by
  rintro ⟨blanks, lit, is, -, -, literal⟩
  obtain ⟨c, t, rfl, -⟩ := reader.literal_visible literal
  exact List.append_ne_nil_of_right_ne_nil _ (List.cons_ne_nil _ _) is.symm

omit reader in
theorem narrowed_eq_iff : narrowed x = x ↔ Fits x := by
  have low := Int.le_bmod (x := clipped x) (m := 2 ^ 32) (by decide)
  have high := Int.bmod_lt (x := clipped x) (m := 2 ^ 32) (by decide)
  constructor
  · intro same
    rw [narrowed] at same
    constructor <;> omega
  · rintro ⟨above, below⟩
    have same : clipped x = x := by
      unfold clipped
      omega
    rw [narrowed, same]
    apply Int.bmod_eq_of_le <;> omega

/-- The value that is stored is the one written exactly if the string is nothing but a literal that an
`int` has room for. -/
theorem Reader.written_narrowed_iff {spaced : Bool}
    (starts : StartsWith form s blanks x lit rest) :
    Written form spaced s (narrowed x) ↔ OnlyLiteral spaced blanks x rest := by
  constructor
  · intro written
    obtain ⟨blanks', lit', starts', spaces⟩ := written.startsWith
    obtain ⟨rfl, same, rfl, rfl⟩ := reader.startsWith_unique starts' starts
    exact ⟨rfl, narrowed_eq_iff.mp same, spaces⟩
  · rintro ⟨rfl, fits, spaces⟩
    rw [narrowed_eq_iff.mpr fits]
    exact ⟨blanks, lit, by simpa using starts.text, starts.blank, spaces, starts.value⟩

/-- The same of a value that is stored where `accepts` holds of it and of what follows the literal. -/
theorem Reader.accepted_iff (starts : StartsWith form s blanks x lit rest) (spaced : Bool)
    (accepts : List UInt8 → Int → Prop) :
    (accepts rest (narrowed x) → Written form spaced s (narrowed x)) ↔
      ∀ blanks x lit rest, StartsWith form s blanks x lit rest → accepts rest (narrowed x) →
        OnlyLiteral spaced blanks x rest := by
  rw [reader.written_narrowed_iff starts]
  constructor
  · intro only blanks' x' lit' rest' starts' accepted
    obtain ⟨rfl, rfl, rfl, rfl⟩ := reader.startsWith_unique starts starts'
    exact only accepted
  · intro only
    exact only _ _ _ _ starts

/-! ### `strtol` -/

/-- Either the string starts with no literal, or the value is that of its literal. -/
theorem Reader.strtol_cases (s : List UInt8) :
    (reader.strtol s = (0, s) ∧ ∀ blanks x lit rest, ¬ StartsWith form s blanks x lit rest) ∨
    ∃ blanks x lit rest, StartsWith form s blanks x lit rest ∧
      reader.strtol s = (clipped x, rest) := by
  cases sign : readSign (s.dropWhile isspace) with
  | mk negative u =>
      cases reads : reader.read u with
      | none =>
          left
          refine ⟨by simp [Reader.strtol, sign, reads], fun blanks x lit rest starts => ?_⟩
          have is := (reader.split_blanks starts).2.symm
          exact reader.absent_literal sign reads is starts.value
      | some result =>
          obtain ⟨n, rest⟩ := result
          obtain ⟨lit, is, literal, longest⟩ := reader.found_literal sign reads
          refine .inr ⟨s.takeWhile isspace, _, lit, rest, ⟨?_, ?_, literal, longest⟩, ?_⟩
          · rw [← is, List.takeWhile_append_dropWhile]
          · exact List.all_eq_true.mp List.all_takeWhile
          · simp [Reader.strtol, sign, reads]

/-- The value of a literal. -/
theorem Reader.strtol_written {spaced : Bool} {v : Int} (written : Written form spaced s v) :
    reader.strtol s = (clipped v, []) := by
  obtain ⟨blanks, lit, starts, -⟩ := written.startsWith
  rcases reader.strtol_cases s with ⟨-, none⟩ | ⟨blanks', x, lit', rest, starts', run⟩
  · exact absurd starts (none _ _ _ _)
  · obtain ⟨-, rfl, -, rfl⟩ := reader.startsWith_unique starts starts'
    exact run

end Literals

theorem clipped_signed (negative : Bool) (n : Nat) :
    (if negative then max (-2 ^ 63) (-(n : Int)) else min (2 ^ 63 - 1) n) =
      clipped (if negative then -(n : Int) else n) := by
  unfold clipped
  cases negative <;> simp

theorem strtol_eq (s : List UInt8) : strtol s = constantReader.strtol s := by
  cases found : detectBase (readSign (s.dropWhile isspace)).2 with
  | mk base digits =>
      simp only [strtol, Reader.strtol, constantReader, readConstant, found]
      cases digits with
      | nil => rfl
      | cons c rest =>
          by_cases known : (digit base c).isSome
          · have some : ¬ (digit base c).isNone := by simpa [Option.isSome_iff_ne_none] using known
            simp only [known, some, if_true, Bool.false_eq_true, if_false, clipped_signed]
          · have none : (digit base c).isNone := by simpa using known
            simp only [known, none, if_true, Bool.false_eq_true, if_false]

theorem strtolDecimal_eq (s : List UInt8) :
    (strtolDecimal s, strtolDecimalEnd s) = decimalReader.strtol s := by
  unfold strtolDecimal strtolDecimalEnd Reader.strtol decimalReader
  obtain ⟨ds, n, rest, run, is, digits, -⟩ :=
    readDigits_zero 10 (readSign (s.dropWhile isspace)).2
  simp only [run, clipped_signed]
  by_cases stays : rest = (readSign (s.dropWhile isspace)).2
  · rw [stays] at is
    obtain rfl : ds = [] := by simpa using is
    obtain rfl := digits.unique HexDigit.unique .nil
    simp only [stays, if_true]
    simp [clipped]
  · simp only [stays, if_false]

theorem toInt_clipped (x : Int) : toInt (clipped x) = narrowed x := by
  rw [toInt, BitVec.toInt_ofInt]
  rfl

end Ppcom
