/-
Module: Ppcom.Proofs.LinenoiseAgreement
Purpose: The two ways in which `ppcom.cpp` is built have the same prompts: with `fd_readline` and with the
  line editor of `linenoise.cpp` they get the same answers and leave the same to be read, where lines are
  typed and corrected with backspaces only and there is room for them in the buffers of both.
Trusted boundary: none
Main exports: Common, LinesFit, line_agrees, prompts_agree
-/
import Ppcom.Proofs.LinenoisePrompts

namespace Ppcom

/-- A byte that both take the same way: it ends the line, gives it up, removes the last byte of it or is
added to it. -/
def Common (c : UInt8) : Prop :=
  c ≠ 0x09 ∧ (keyAction c = .insert c ∨ c = 0x08 ∨ c = 0x7f ∨ c = 0x03 ∨ c = 0x0d)

instance (c : UInt8) : Decidable (Common c) := by
  unfold Common; infer_instance

/-- There is always room for the next byte in lines of at most `limit` bytes, of which there are `k`. -/
def LinesFit (limit : Nat) : Nat → List UInt8 → Prop
  | _, [] => True
  | k, c :: rest =>
      if c = 0x08 ∨ c = 0x7f then LinesFit limit (k - 1) rest
      else if c = 0x03 ∨ c = 0x0d then LinesFit limit 0 rest
      else k < limit ∧ LinesFit limit (k + 1) rest

section

variable {limit bsz : Nat} {d : LineEditor} {held : List UInt8} {src src' : Source}

/-- The cases of a byte in the loop of `linenoiseEdit` and in that of `fd_readline`. -/
theorem Common.cases {c : UInt8} (common : Common c) :
    (keyAction c = .backspace ∧ (c = 0x08 ∨ c = 0x7f)) ∨ (keyAction c = .ctrlC ∧ c = 0x03) ∨
      (keyAction c = .enter ∧ c = 0x0d) ∨
      (keyAction c = .insert c ∧ ¬ (c = 0x08 ∨ c = 0x7f) ∧ c ≠ 0x03 ∧ c ≠ 0x0d) := by
  obtain ⟨-, inserted | rfl | rfl | rfl | rfl⟩ := common
  · refine .inr (.inr (.inr ⟨inserted, ?_, ?_, ?_⟩))
    · rintro (rfl | rfl)
      · exact absurd inserted (by decide)
      · exact absurd inserted (by decide)
    · rintro rfl
      exact absurd inserted (by decide)
    · rintro rfl
      exact absurd inserted (by decide)
  · exact .inl ⟨by decide, .inl rfl⟩
  · exact .inl ⟨by decide, .inr rfl⟩
  · exact .inr (.inl ⟨by decide, rfl⟩)
  · exact .inr (.inr (.inl ⟨by decide, rfl⟩))

theorem Common.noEsc {c : UInt8} (common : Common c) : keyAction c ≠ .esc := by
  rcases common.cases with ⟨key, -⟩ | ⟨key, -⟩ | ⟨key, -⟩ | ⟨key, -⟩
  all_goals
    rw [key]
    nofun

/-- What a byte does to the reference editor of `linenoise`. -/
theorem turn_common {c : UInt8} {later : Source} {seq : Nat → UInt8}
    (read : Source.read 1 src = (.data c [], later)) (noEsc : keyAction c ≠ .esc) :
    d.turn none limit seq src = some (d.press limit (keyAction c), later) := by
  have key : LineEditor.readKey seq c later = (keyAction c, later) := if_neg noEsc
  unfold LineEditor.turn
  rw [read]
  simp only [LineEditor.byte, key]

/-- Both give up where there is nothing more to read. -/
theorem turn_nothing (nothing : ∀ c rest, (Source.read 1 src).1 ≠ .data c rest) {seq : Nat → UInt8} :
    d.turn none limit seq src = some (.givenUp d, (Source.read 1 src).2) := by
  unfold LineEditor.turn
  generalize Source.read 1 src = first at nothing
  obtain ⟨reply, later⟩ := first
  cases reply with
  | data c rest => exact absurd rfl (nothing c rest)
  | zero | again | failed => rfl

theorem readlineLoop_nothing (nothing : ∀ c rest, (Source.read 1 src).1 ≠ .data c rest) {n : Nat}
    (enough : src.size ≤ n) : readlineLoop bsz n held src = (none, (Source.read 1 src).2) := by
  cases n with
  | zero =>
      cases src with
      | nil => rfl
      | cons reply later =>
          cases reply with
          | data c rest => exact absurd rfl (nothing c _)
          | zero | again | failed =>
              simp only [Source.size] at enough
              omega
  | succ n =>
      rw [readlineLoop]
      generalize Source.read 1 src = first at nothing
      obtain ⟨reply, later⟩ := first
      cases reply with
      | data c rest => exact absurd rfl (nothing c rest)
      | zero | again | failed => rfl

/-- Both readers get the same line, and leave the same. -/
theorem line_agrees (le : bsz - 1 ≤ limit) (line : d.line = .ending held) (typed : AllTyped Common src)
    (fits : LinesFit (bsz - 1) held.length src.typed) (stack : Nat → Nat → UInt8) {n m : Nat}
    (enough : src.size ≤ n) (enough' : src.size < m) :
    ∃ step src', d.run none limit stack m src = some (step, src') ∧
      (readlineLoop bsz n held src).2 = src' ∧
      (readlineLoop bsz n held src).1.map cString = step.line ∧ AllTyped Common src' ∧
      ((readlineLoop bsz n held src).1 ≠ none → LinesFit (bsz - 1) 0 src'.typed) := by
  induction n generalizing d held src m with
  | zero =>
      obtain ⟨m, rfl⟩ := Nat.exists_eq_succ_of_ne_zero (Nat.ne_of_gt (Nat.zero_lt_of_lt enough'))
      rcases src.read_one with ⟨_, _, _, _, shorter⟩ | ⟨_, nothing⟩
      · omega
      · rw [LineEditor.run, turn_nothing nothing, Option.bind_some, readlineLoop_nothing nothing enough]
        exact ⟨_, _, rfl, rfl, rfl, typed.read.1, fun some => absurd rfl some⟩
  | succ n ih =>
      obtain ⟨m, rfl⟩ := Nat.exists_eq_succ_of_ne_zero (Nat.ne_of_gt (Nat.zero_lt_of_lt enough'))
      rcases src.read_one with ⟨c, rest, read, types, shorter⟩ | ⟨_, nothing⟩
      · obtain ⟨later, known⟩ := typed.read
        rw [read] at later known
        change AllTyped Common rest at later
        have common := known c [] rfl
        have text : d.line.text = held := by
          rw [line]
          exact List.append_nil held
        rw [types, LinesFit] at fits
        rw [LineEditor.run, turn_common read common.noEsc, Option.bind_some, readlineLoop, read]
        rcases common.cases with ⟨key, is⟩ | ⟨key, rfl⟩ | ⟨key, rfl⟩ | ⟨key, noBack, noStop, noReturn⟩
        · have shortened : (d.withLine d.line.backspace).line = .ending held.dropLast := by
            rw [line]
            rfl
          rw [if_pos is] at fits
          simp only [key, if_pos is, LineEditor.press]
          exact ih shortened later (by rw [List.length_dropLast]; exact fits) (by omega) (by omega)
        · rw [key]
          exact ⟨_, _, rfl, rfl, rfl, later, fun some => absurd rfl some⟩
        · rw [key]
          refine ⟨_, _, rfl, rfl, ?_, later, fun _ => fits⟩
          show some (cString held) = some (cString d.line.text)
          rw [text]
        · rw [if_neg noBack, if_neg (by simp [noStop, noReturn])] at fits
          have added : d.insert limit c = d.withLine (.ending (held ++ [c])) := by
            rw [LineEditor.insert, text, if_pos (by omega), line]
            rfl
          simp only [key, if_neg noBack, if_neg noStop, if_neg noReturn, if_pos fits.1, LineEditor.press,
            added]
          exact ih rfl later (by rw [List.length_append]; exact fits.2) (by omega) (by omega)
      · rw [LineEditor.run, turn_nothing nothing, Option.bind_some, readlineLoop_nothing nothing enough]
        exact ⟨_, _, rfl, rfl, rfl, typed.read.1, fun some => absurd rfl some⟩

end

/-! ### Prompts -/

section

variable {s : LinePrompts} {src : Source} {bsz : Nat}

/-- A call of `linenoise` gets what `fd_readline` gets in its place. -/
theorem ask_agrees (editable : Editable s src) (call : LineCall)
    (complete : Option (List UInt8 → List (List UInt8))) {prompt : List UInt8}
    (wide : prompt.length < call.cols) (short : prompt.length ≤ 10) (size : bsz ≤ linenoiseMaxLine)
    (typed : AllTyped Common src) (fits : LinesFit (bsz - 1) 0 src.typed) :
    ∃ s', s.ask call complete prompt src =
        some (.returned ((fdReadline bsz src).1.map cString), s', (fdReadline bsz src).2) ∧
      Editable s' (fdReadline bsz src).2 ∧ AllTyped Common (fdReadline bsz src).2 ∧
      ((fdReadline bsz src).1 ≠ none → LinesFit (bsz - 1) 0 (fdReadline bsz src).2.typed ∧
        (fdReadline bsz src).2.size < src.size) := by
  have length := call.size
  have noTab : AllTyped (· ≠ 9) src := fun first rest inside c member =>
    (typed first rest inside c member).1
  obtain ⟨step, src', l, spec, returns, reflects, -, -, less⟩ :=
    linenoise_run call.room wide (call.small short) editable.1 (strings_true editable.2)
      (show CompletionsFit (fun _ => True) _ none from nofun) (allTyped_true _ src) call.stack
  obtain ⟨step', src'', run, left, line, typed', fits'⟩ :=
    line_agrees (d := s.history.editor) (show bsz - 1 ≤ call.buf.length - 1 by omega) rfl typed fits
      call.stack (Nat.le_refl src.size) (Nat.lt_succ_self src.size)
  rw [spec] at run
  cases run
  rw [← fdReadline] at left line fits'
  subst left
  refine ⟨{ s with history := l.history }, ?_, ?_, typed', fun some => ⟨fits' some, less ?_⟩⟩
  · rw [LinePrompts.ask, linenoise_without_tab complete s.history call prompt noTab, returns, line]
    rfl
  · exact reflects.editable editable.1
  · rintro d rfl
    exact some (Option.map_eq_none_iff.mp line)

/-- So does the loop of `read_baud`, which has a rate or none. -/
theorem readBaudLineLoop_agrees (plat : Platform) {calls : Nat → LineCall}
    (wide : ∀ n, 10 < (calls n).cols) (editable : Editable s src) (typed : AllTyped Common src)
    (fits : LinesFit 8 0 src.typed) {n : Nat} (enough : src.size < n) (baud : Int) :
    ∃ baudstr s', readBaudLineLoop plat calls n baud s src =
      some ((readBaudLoop plat n baud src).1, baudstr, s', (readBaudLoop plat n baud src).2) := by
  induction n generalizing s src baud with
  | zero => exact absurd enough (Nat.not_lt_zero _)
  | succ n ih =>
      obtain ⟨s', asked, editable', typed', fits'⟩ := ask_agrees editable (calls n) none
        (show (ascii "*** baud: ").length < (calls n).cols from wide n)
        (show (ascii "*** baud: ").length ≤ 10 by decide) (show 9 ≤ linenoiseMaxLine by decide) typed fits
      rw [readBaudLineLoop, readBaudLoop, asked, Option.bind_some]
      generalize fdReadline 9 src = answer at typed' fits' editable'
      obtain ⟨line, later⟩ := answer
      cases line with
      | none => exact ⟨_, _, rfl⟩
      | some line =>
          obtain ⟨fit, less⟩ := fits' (Option.some_ne_none line)
          have shorter : later.size < src.size := less
          have again : baudOfLine plat (cString line) = baudOfLine plat line := by
            have same := (cString_eq_iff _).mpr (zero_notMem_cString line)
            rw [baudOfLine, baudOfLine, same]
          simp only [Option.map_some, HeapString.returned, HeapString.read, again]
          split
          · exact ih editable' typed' fit (by omega) _
          · exact ⟨_, _, rfl⟩

/-- So does the loop of `read_hex`. -/
theorem readHexLineLoop_agrees (sz : Nat) {calls : Nat → LineCall} (wide : ∀ n, 10 < (calls n).cols)
    (editable : Editable s src) (typed : AllTyped Common src) (fits : LinesFit 255 0 src.typed) {n : Nat}
    (enough : src.size < n) :
    ∃ s', readHexLineLoop sz calls n s src =
      some ((readHexLoop sz n src).1, s', (readHexLoop sz n src).2) := by
  induction n generalizing s src with
  | zero => exact absurd enough (Nat.not_lt_zero _)
  | succ n ih =>
      obtain ⟨s', asked, editable', typed', fits'⟩ := ask_agrees editable (calls n) none
        (show (ascii "*** hex: ").length < (calls n).cols from Nat.lt_of_succ_lt (wide n))
        (show (ascii "*** hex: ").length ≤ 10 by decide) (show 256 ≤ linenoiseMaxLine by decide)
        typed fits
      rw [readHexLineLoop, readHexLoop, asked, Option.bind_some]
      generalize fdReadline 256 src = answer at typed' fits' editable'
      obtain ⟨line, later⟩ := answer
      cases line with
      | none => exact ⟨_, rfl⟩
      | some line =>
          obtain ⟨fit, less⟩ := fits' (Option.some_ne_none line)
          have shorter : later.size < src.size := less
          simp only [Option.map_some, HeapString.returned, HeapString.read]
          cases hex2bin sz (cString line) with
          | none => exact ih editable' typed' fit (by omega)
          | some buff => exact ⟨_, rfl⟩

end

end Ppcom
