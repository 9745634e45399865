/-
Module: Ppcom.Proofs.LinenoiseColumns
Purpose: Where the system does not know the size of the terminal, `getColumns` measures it: it gets the
  width from the answers of the terminal, takes no more of the input than these, and leaves the screen and
  the cursor as they were.
Trusted boundary: none
Main exports: scanInt_printed, getCursorPosition_report, getColumns_measures
-/
import Ppcom.Lib.Screen
import Ppcom.LinenoiseColumns
import Ppcom.Proofs.LinenoiseScreen
import Ppcom.Proofs.Numeral

namespace Ppcom

open TextRow (blank)

/-! ### Numbers -/

theorem decimal_digits_eq (n : Nat) : decimal 1 n = Screen.digits n := by
  have one := List.length_pos_iff.mpr (Nat.toDigits_ne_nil (b := 10) (n := n))
  rw [decimal_eq, Nat.sub_eq_zero_of_le one, List.replicate_zero, List.nil_append]
  rfl

theorem readDigits_ending {cs : List Char} (digits : ∀ c ∈ cs, c.isDigit) {rest : List UInt8}
    (stops : Stops 10 rest) (value : Nat) :
    readDigits 10 value (cs.map (fun c => c.toNat.toUInt8) ++ rest) =
      (Nat.ofDigitChars 10 cs value, rest) := by
  cases rest with
  | nil =>
      induction cs generalizing value with
      | nil => rfl
      | cons c cs ih =>
          have first := digit_digitChar (digits c List.mem_cons_self)
          rw [List.map_cons, List.cons_append, readDigits, first, Nat.ofDigitChars_cons, Nat.mul_comm]
          exact ih (fun d member => digits d (List.mem_cons_of_mem _ member)) _
  | cons c rest => exact readDigits_digits digits value (stops c rest rfl) rest

/-- What is printed of a number is digits, of which there is one at least. -/
theorem digits_cons (n : Nat) :
    ∃ c more, Screen.digits n = c :: more ∧ ∀ d ∈ c :: more, 0x30 ≤ d ∧ d ≤ 0x39 := by
  obtain ⟨c, more, printed⟩ := decimal_cons n
  refine ⟨c, more, by rw [← printed, decimal_digits_eq], fun d inside => ?_⟩
  rw [← printed] at inside
  exact decimal_digits inside

/-- A number is scanned as it was printed. -/
theorem scanInt_printed {n : Nat} (small : n < 2 ^ 31) {rest : List UInt8} (stops : Stops 10 rest) :
    scanInt (Screen.digits n ++ rest) = some ((n : Int), rest) := by
  obtain ⟨c, more, printed, all⟩ := digits_cons n
  obtain ⟨low, high⟩ := all c List.mem_cons_self
  have isDigits : ∀ d ∈ Nat.toDigits 10 n, d.isDigit := fun d inside =>
    Nat.isDigit_of_mem_toDigits (by decide) (by decide) inside
  have read := readDigits_ending isDigits stops 0
  rw [Nat.ofDigitChars_ten_toDigits] at read
  change readDigits 10 0 (Screen.digits n ++ rest) = (n, rest) at read
  have first : (digit 10 c).isNone = false := by
    have head := List.mem_map.mp (printed ▸ List.mem_cons_self : c ∈ Screen.digits n)
    obtain ⟨d, inside, rfl⟩ := head
    rw [digit_digitChar (isDigits d inside)]
    rfl
  rw [printed, List.cons_append] at read ⊢
  have visible : (c :: (more ++ rest)).dropWhile isspace = c :: (more ++ rest) :=
    List.dropWhile_cons_of_neg (by simp [isspace_digit low high])
  have value : toInt (min (2 ^ 63 - 1) (n : Int)) = n := by
    rw [min_eq_right (by omega)]
    exact toInt_of_fits small
  unfold scanInt
  rw [visible, readSign_digit low]
  simp only [first, read, value, Bool.false_eq_true, if_false]

/-- The position in a report is scanned. -/
theorem scanPosition_report {rows cols : Nat} (few : rows < 2 ^ 31) (small : cols < 2 ^ 31) :
    scanPosition (Screen.digits rows ++ 0x3b :: Screen.digits cols) = some ((rows : Int), (cols : Int)) := by
  have semicolon : Stops 10 (0x3b :: Screen.digits cols) := by
    intro c more is
    cases is
    decide
  have last : scanInt (Screen.digits cols) = some ((cols : Int), []) := by
    rw [← List.append_nil (Screen.digits cols)]
    exact scanInt_printed small nofun
  rw [scanPosition, scanInt_printed few semicolon]
  simp only [Option.bind_some, if_true, last, Option.map_some]

/-! ### Reports -/

section

variable {cols : Nat} {s : Screen} {src : Source} {rest : List UInt8}

/-- What is read of the input ends with the R. -/
theorem readResponse_typed {n : Nat} {bytes : List UInt8} (noR : 0x52 ∉ bytes) (short : bytes.length < n)
    (typed : src.typed = bytes ++ 0x52 :: rest) :
    ∃ src', readResponse n src = (bytes, src') ∧ src'.typed = rest := by
  induction bytes generalizing n src with
  | nil =>
      obtain ⟨n, rfl⟩ := Nat.exists_eq_succ_of_ne_zero (Nat.ne_of_gt short)
      rcases src.read_one with ⟨c, later, read, types, -⟩ | ⟨nothing, -⟩
      · rw [types, List.nil_append] at typed
        cases typed
        exact ⟨later, by rw [readResponse, read]; rfl, rfl⟩
      · rw [nothing] at typed
        cases typed
  | cons c bytes ih =>
      rw [List.length_cons] at short
      obtain ⟨n, rfl⟩ := Nat.exists_eq_succ_of_ne_zero (Nat.ne_of_gt (Nat.zero_lt_of_lt short))
      rcases src.read_one with ⟨d, later, read, types, -⟩ | ⟨nothing, -⟩
      · rw [types, List.cons_append] at typed
        obtain ⟨rfl, behind⟩ := List.cons.inj typed
        have other : d ≠ 0x52 := fun is => noR (is ▸ List.mem_cons_self)
        obtain ⟨src', more, left⟩ := ih (fun inside => noR (List.mem_cons_of_mem _ inside))
          (Nat.lt_of_succ_lt_succ short) behind
        exact ⟨src', by rw [readResponse, read]; simp only [if_neg other, more], left⟩
      · rw [nothing] at typed
        cases typed

theorem length_digits {n : Nat} (small : n < 2 ^ 31) : (Screen.digits n).length ≤ 10 := by
  rw [Screen.digits, List.length_map]
  exact (Nat.length_toDigits_le_iff (by decide) (by decide)).mpr (by omega)

/-- `getCursorPosition` returns the column that the terminal reports. -/
theorem getCursorPosition_report (few : s.row + 1 < 2 ^ 31) (wide : 0 < cols) (small : cols < 2 ^ 31)
    (typed : src.typed = s.report cols ++ rest) :
    ∃ src', getCursorPosition src = (((min s.col (cols - 1) + 1 : Nat) : Int), src') ∧
      src'.typed = rest := by
  have inside : min s.col (cols - 1) + 1 < 2 ^ 31 := by omega
  unfold Screen.report at typed
  generalize min s.col (cols - 1) + 1 = k at inside typed
  generalize s.row + 1 = n at few typed
  have digit : ∀ m, ∀ c ∈ Screen.digits m, c ≠ 0 ∧ c ≠ 0x52 := by
    intro m c member
    rw [← decimal_digits_eq] at member
    obtain ⟨low, high⟩ := decimal_digits member
    constructor
    · rintro rfl
      exact absurd low (by decide)
    · rintro rfl
      exact absurd high (by decide)
  have plain : ∀ c ∈ 0x1b :: 0x5b :: (Screen.digits n ++ 0x3b :: Screen.digits k), c ≠ 0 ∧ c ≠ 0x52 := by
    intro c member
    simp only [List.mem_cons, List.mem_append] at member
    rcases member with rfl | rfl | row | rfl | column
    · decide
    · decide
    · exact digit n c row
    · decide
    · exact digit k c column
  have short : (0x1b :: 0x5b :: (Screen.digits n ++ 0x3b :: Screen.digits k)).length < 31 := by
    have rows := length_digits few
    have columns := length_digits inside
    simp only [List.length_cons, List.length_append]
    omega
  have reply : src.typed = (0x1b :: 0x5b :: (Screen.digits n ++ 0x3b :: Screen.digits k)) ++ 0x52 :: rest :=
    typed.trans (by simp)
  obtain ⟨src', read, left⟩ := readResponse_typed (fun member => (plain _ member).2 rfl) short reply
  have string := (cString_eq_iff _).mpr fun member => (plain _ member).1 rfl
  refine ⟨src', ?_, left⟩
  rw [getCursorPosition, read]
  simp only [string, scanPosition_report few inside, Option.map_some, Option.getD_some]

/-- What is written to go back is a control sequence. -/
theorem goBack_eq (n : Nat) : goBack n = 0x1b :: 0x5b :: (Screen.digits n ++ 0x44 :: []) := by
  have number : printInt n = Screen.digits n := by
    rw [printInt, if_neg (by omega), Int.toNat_natCast, decimal_digits_eq]
  have bracket : ascii "[" = [0x5b] := rfl
  have back : ascii "D" = [0x44] := rfl
  rw [goBack, number, bracket, back]
  rfl

theorem goBack_silent (n : Nat) : 0x6e ∉ goBack n := by
  intro inside
  rw [goBack_eq] at inside
  simp only [List.mem_cons, List.mem_append, List.not_mem_nil, or_false] at inside
  rcases inside with is | is | digit | is
  · exact absurd is (by decide)
  · exact absurd is (by decide)
  · rw [← decimal_digits_eq] at digit
    exact absurd (decimal_digits digit).2 (by decide)
  · exact absurd is (by decide)

theorem number_printed (n : Nat) : Screen.number 0 (Screen.digits n) = n := by
  rw [← decimal_digits_eq, number_decimal]

/-- The cursor goes to the right margin, or 999 columns where that is further. -/
theorem write_goRight (ground : s.mode = .ground) :
    s.write cols goRight = s.control cols (some 999) 0x43 := by
  have digits : ∀ d ∈ [(0x39 : UInt8), 0x39, 0x39], 0x30 ≤ d ∧ d ≤ 0x39 := by
    intro d member
    simp only [List.mem_cons, List.not_mem_nil, or_false, or_self] at member
    rw [member]
    decide
  have reads : ({ s with mode := .control none } : Screen).write cols [0x39, 0x39, 0x39] =
      { s with mode := .control (some (Screen.number 0 [0x39, 0x39, 0x39])) } := Screen.write_number digits
  have written := Screen.write_control ground reads
    (show ¬ (0x30 ≤ 0x43 ∧ (0x43 : UInt8) ≤ 0x39) by decide) []
  exact written

/-- The cursor goes back. -/
theorem write_goBack (ground : s.mode = .ground) (n : Nat) :
    s.write cols (goBack n) = s.control cols (some n) 0x44 := by
  obtain ⟨c, more, printed, all⟩ := digits_cons n
  have reads : ({ s with mode := .control none } : Screen).write cols (c :: more) =
      { s with mode := .control (some (Screen.number 0 (c :: more))) } := Screen.write_number all
  have written := Screen.write_control ground reads
    (show ¬ (0x30 ≤ 0x44 ∧ (0x44 : UInt8) ≤ 0x39) by decide) []
  rw [← printed, number_printed] at written
  rw [goBack_eq]
  exact written

/-- Back from the margin the cursor is where it was. -/
theorem right_back (inside : s.col < cols) (before : s.col + 1 < min cols (s.col + 1000)) :
    (s.control cols (some 999) 0x43).control cols (some (min cols (s.col + 1000) - (s.col + 1))) 0x44 =
      s := by
  have back : min (min (s.col + 999) (cols - 1)) (cols - 1) -
      max 1 (min cols (s.col + 1000) - (s.col + 1)) = s.col := by omega
  obtain ⟨cells, row, col, mode⟩ := s
  exact congrArg (Screen.mk cells row · mode) back

/-- At the margin the cursor stays. -/
theorem right_stays (inside : s.col < cols) (margin : ¬ s.col + 1 < min cols (s.col + 1000)) :
    s.control cols (some 999) 0x43 = s := by
  have stays : min (s.col + 999) (cols - 1) = s.col := by omega
  obtain ⟨cells, row, col, mode⟩ := s
  exact congrArg (Screen.mk cells row · mode) stays

/-- Asked for its width, a terminal is measured up to 1000 columns from the cursor on: what is read of the
input is what the terminal sends in answer to what is written, and the screen and the cursor are then as
they were. -/
theorem getColumns_measures (cols : Nat) (s : Screen) (src : Source) (rest : List UInt8)
    (winsize : Option UInt16) (unknown : winsize.getD 0 = 0) (ground : s.mode = .ground)
    (inside : s.col < cols) (small : cols < 2 ^ 31) (few : s.row + 1 < 2 ^ 31)
    (typed : src.typed = s.report cols ++ ((s.control cols (some 999) 0x43).report cols ++ rest)) :
    ∃ out src', getColumns winsize src = (((min cols (s.col + 1000) : Nat) : Int), out, src') ∧
      src'.typed = rest ∧ s.write cols out = s ∧
      s.answers cols out = s.report cols ++ (s.control cols (some 999) 0x43).report cols := by
  generalize there : s.control cols (some 999) 0x43 = margin at typed ⊢
  have ground' : margin.mode = .ground := by
    rw [← there]
    exact ground
  have few' : margin.row + 1 < 2 ^ 31 := by
    rw [← there]
    exact few
  have col : margin.col = min (s.col + 999) (cols - 1) := by
    rw [← there]
    rfl
  obtain ⟨src₁, first, typed₁⟩ := getCursorPosition_report few (by omega) small typed
  obtain ⟨src₂, second, typed₂⟩ := getCursorPosition_report few' (by omega) small typed₁
  have start : min s.col (cols - 1) + 1 = s.col + 1 := by omega
  have width : min margin.col (cols - 1) + 1 = min cols (s.col + 1000) := by omega
  rw [start] at first
  rw [width] at second
  have query : ∀ t : Screen, t.mode = .ground → t.answers cols [0x1b, 0x5b, 0x36, 0x6e] = t.report cols ∧
      t.write cols [0x1b, 0x5b, 0x36, 0x6e] = t := fun _ => Screen.answers_query
  obtain ⟨asked, same⟩ := query s ground
  obtain ⟨asked', same'⟩ := query margin ground'
  have right : s.write cols goRight = margin := (write_goRight ground).trans there
  have silent : s.answers cols goRight = [] := Screen.answers_silent (by decide)
  have ask : askPosition = [0x1b, 0x5b, 0x36, 0x6e] := rfl
  have written : s.write cols (askPosition ++ goRight ++ askPosition) = margin := by
    rw [Screen.write_append, Screen.write_append, ask, same, right, same']
  have answered : s.answers cols (askPosition ++ goRight ++ askPosition) =
      s.report cols ++ margin.report cols := by
    rw [Screen.answers_append, Screen.answers_append, Screen.write_append, ask, same, right, asked, silent,
      asked', List.append_nil]
  unfold getColumns
  rw [if_pos unknown, first]
  simp only
  rw [if_neg (by omega), second]
  simp only
  rw [if_neg (by omega)]
  by_cases before : s.col + 1 < min cols (s.col + 1000)
  · have columns : toInt (((min cols (s.col + 1000) : Nat) : Int) - ((s.col + 1 : Nat) : Int)) =
        ((min cols (s.col + 1000) - (s.col + 1) : Nat) : Int) := by
      rw [← Nat.cast_sub before.le]
      exact toInt_of_fits (by omega)
    rw [if_pos (by exact_mod_cast before), columns]
    refine ⟨_, src₂, rfl, typed₂, ?_, ?_⟩
    · rw [Screen.write_append, written, write_goBack ground', ← there]
      exact right_back inside before
    · rw [Screen.answers_append, answered, Screen.answers_silent (goBack_silent _), List.append_nil]
  · rw [if_neg (by exact_mod_cast before), List.append_nil]
    refine ⟨_, src₂, rfl, typed₂, ?_, answered⟩
    rw [written, ← there]
    exact right_stays inside before

/-- A terminal of 80 columns answers in the fifth row, and a letter was typed behind that. -/
theorem getColumns_measures_80 :
    let s : Screen := ⟨fun _ _ => blank, 4, 0, .ground⟩
    ∃ out src', getColumns none [.data 0x1b (ascii "[5;1R\x1b[5;80Rq")] = (80, out, src') ∧
      src'.typed = ascii "q" ∧ s.write 80 out = s ∧
      s.answers 80 out = s.report 80 ++ (s.control 80 (some 999) 0x43).report 80 :=
  getColumns_measures 80 ⟨fun _ _ => blank, 4, 0, .ground⟩ [.data 0x1b (ascii "[5;1R\x1b[5;80Rq")]
    (ascii "q") none rfl rfl (by decide) (by decide) (by decide) (by decide)

end

end Ppcom
