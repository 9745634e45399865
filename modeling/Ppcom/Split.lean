/-
Module: Ppcom.Split
Purpose: The lexer of `split.cpp`: `split_quoted`, its `push` and `save` short-hands and the state
  machine they serve. A pointer `c` into the input string is the list of the bytes from `c` up to the
  terminator, so `*c` is the head of that list and `EOS` once the list is empty.
Trusted boundary: none
Main exports: Lexer, Lexer.save, Lexer.push, splitStep, splitLoop, SplitResult.returns, splitQuoted
-/
import Mathlib.Data.List.Basic

namespace Ppcom.Split

/-- Maximum single-argument length, terminator included. -/
def maxArgLen : Nat := 512

/-- Warning flag: an argument had to be dropped. -/
def splitDrop : Nat := 1

/-- Warning flag: an argument had to be truncated. -/
def splitTrunc : Nat := 2

/-- Lexer error end-codes. -/
inductive ErrCodes where
  | ok
  | bsAtEos
  | sqOpenAtEos
  | dqOpenAtEos
deriving DecidableEq, Repr

/-- Lexer states. -/
inductive States where
  | delim
  | quote
  | arg
  | fin
deriving DecidableEq, Repr

/-- Backslash. -/
def bs : UInt8 := 0x5c

/-- Single quote. -/
def sq : UInt8 := 0x27

/-- Double quote. -/
def dq : UInt8 := 0x22

/-- Newline. -/
def nl : UInt8 := 0x0a

/-- The terminating byte of a C string. -/
def eos : UInt8 := 0x00

/-- Space, tab and newline separate arguments. -/
def isDelim (c : UInt8) : Bool :=
  c == 0x20 || c == 0x09 || c == nl

/-- Backslash, double quote, backquote and dollar, the bytes a backslash escapes inside double
quotes. -/
def isDqEscapable (c : UInt8) : Bool :=
  c == bs || c == dq || c == 0x60 || c == 0x24

/-- The local variables of `split_quoted` together with the caller's vector. `argBuff` is
`arg_buff[0 .. ap)`; `argv` is the whole allocated vector, of which `argc` slots are in use. -/
structure Lexer where
  c : List UInt8
  argBuff : List UInt8
  state : States
  qc : UInt8
  err : ErrCodes
  flags : Nat
  argv : List (List UInt8)
  argc : Nat
deriving DecidableEq, Repr

namespace Lexer

/-- `*c`. -/
def cur (l : Lexer) : UInt8 := l.c.headD eos

/-- `c++`. -/
def advance (l : Lexer) : Lexer := { l with c := l.c.tail }

/-- `save()` of the byte `b`: the buffer takes `MAX_ARG_LEN - 1` bytes, one slot being kept for the
terminator. -/
def saveByte (b : UInt8) (l : Lexer) : Lexer :=
  if l.argBuff.length ≠ maxArgLen - 1 then
    { l with argBuff := l.argBuff ++ [b] }
  else
    { l with flags := l.flags ||| splitTrunc }

/-- `save()`. -/
def save (l : Lexer) : Lexer := l.saveByte l.cur

/-- `push()`. `none` is the early `return -1` after a failed `strdup`; `strdupOk k` tells whether the
copy for slot `k` can be allocated. -/
def push (strdupOk : Nat → Bool) (argvSz : Nat) (l : Lexer) : Option Lexer :=
  if l.argc < argvSz then
    if strdupOk l.argc then
      some { l with
        argv := l.argv.set l.argc l.argBuff
        argc := l.argc + 1
        argBuff := [] }
    else none
  else
    some { l with flags := l.flags ||| splitDrop, argBuff := [] }

/-- `while ( p(*c) ) { save(); c++; }`, where `p` is false at the terminator. -/
def saveWhile (p : UInt8 → Bool) : List UInt8 → Lexer → Lexer
  | [], l => { l with c := [] }
  | b :: rest, l =>
      if p b then saveWhile p rest (l.saveByte b) else { l with c := b :: rest }

end Lexer

/-- What one turn of the `while` loop of `split_quoted` leads to. -/
inductive Turn where
  | next (l : Lexer)
  | outOfMem
  | assertFailed
deriving DecidableEq, Repr

/-- The `case ST_DELIM` branch once `c` is past the delimiters. -/
def afterDelims (l : Lexer) : Turn :=
  if l.cur = sq ∨ l.cur = dq then
    .next { l.advance with qc := l.cur, state := .quote }
  else if l.cur = eos then
    .next { l with state := .fin }
  else if l.cur = bs then
    let l := l.advance
    if l.cur = nl then .next l.advance
    else if l.cur = eos then .next { l with state := .fin, err := .bsAtEos }
    else .next { l.save.advance with state := .arg }
  else .next { l.save.advance with state := .arg }

/-- The `case ST_DELIM` branch. -/
def delimStep (l : Lexer) : Turn :=
  afterDelims { l with c := l.c.dropWhile isDelim }

/-- The bytes that the inner loop of `case ST_QUOTE` saves. -/
def quotePlain (qc b : UInt8) : Bool :=
  b != qc && (b != bs || qc == sq) && b != eos

/-- The `case ST_QUOTE` branch once `c` is at a byte that its inner loop does not save. -/
def afterQuoted (l : Lexer) : Turn :=
  if l.cur = l.qc then .next { l.advance with state := .arg }
  else if l.cur = bs then
    if l.qc = dq then
      let kept := l
      let l := l.advance
      if l.cur = nl then .next l.advance
      else if l.cur = eos then .next { l with state := .fin, err := .bsAtEos }
      else if ¬ isDqEscapable l.cur then
        -- `c--; save(); c++;` keeps the backslash that was just skipped
        .next (kept.save.advance.save.advance)
      else .next l.save.advance
    else .assertFailed
  else if l.cur = eos then .next { l with state := .fin, err := .sqOpenAtEos }
  else .assertFailed

/-- The `case ST_QUOTE` branch. -/
def quoteStep (l : Lexer) : Turn :=
  afterQuoted (l.saveWhile (quotePlain l.qc) l.c)

/-- The `case ST_ARG` branch. -/
def argStep (strdupOk : Nat → Bool) (argvSz : Nat) (l : Lexer) : Turn :=
  if l.cur = sq ∨ l.cur = dq then
    .next { l.advance with qc := l.cur, state := .quote }
  else if isDelim l.cur ∨ l.cur = eos then
    match l.push strdupOk argvSz with
    | none => .outOfMem
    | some l' =>
        .next { l'.advance with state := if l.cur = eos then .fin else .delim }
  else if l.cur = bs then
    let l := l.advance
    if l.cur = nl then .next l.advance
    else if l.cur = eos then .next { l with state := .fin, err := .bsAtEos }
    else .next l.save.advance
  else .next l.save.advance

/-- One turn of the loop; the `default` branch is its `assert(0)`. -/
def splitStep (strdupOk : Nat → Bool) (argvSz : Nat) (l : Lexer) : Turn :=
  match l.state with
  | .delim => delimStep l
  | .quote => quoteStep l
  | .arg => argStep strdupOk argvSz l
  | .fin => .assertFailed

/-- How a call of `split_quoted` ends: the value returned by its last line, or the early `return -1`
after a failed `strdup`, each with `*argc` and the vector as the call leaves them. -/
inductive SplitResult where
  | returned (r : Int) (argc : Nat) (argv : List (List UInt8))
  | outOfMem (argc : Nat) (argv : List (List UInt8))
  | assertFailed
deriving DecidableEq, Repr

/-- What the caller gets: the value returned, `*argc` and the vector. -/
def SplitResult.returns : SplitResult → Option (Int × Nat × List (List UInt8))
  | .returned r argc argv => some (r, argc, argv)
  | .outOfMem argc argv => some (-1, argc, argv)
  | .assertFailed => none

/-! ### Termination

Every turn either reaches `ST_END` or leaves fewer bytes to read. -/

@[simp] theorem saveByte_c (b : UInt8) (l : Lexer) : (l.saveByte b).c = l.c := by
  unfold Lexer.saveByte
  split <;> rfl

@[simp] theorem saveByte_state (b : UInt8) (l : Lexer) : (l.saveByte b).state = l.state := by
  unfold Lexer.saveByte
  split <;> rfl

@[simp] theorem save_c (l : Lexer) : l.save.c = l.c := saveByte_c _ l

@[simp] theorem save_state (l : Lexer) : l.save.state = l.state := saveByte_state _ l

@[simp] theorem advance_c (l : Lexer) : l.advance.c = l.c.tail := rfl

@[simp] theorem advance_state (l : Lexer) : l.advance.state = l.state := rfl

theorem push_c {strdupOk : Nat → Bool} {argvSz : Nat} {l l' : Lexer}
    (pushed : l.push strdupOk argvSz = some l') : l'.c = l.c := by
  unfold Lexer.push at pushed
  split at pushed
  · split at pushed
    · cases pushed
      rfl
    · cases pushed
  · cases pushed
    rfl

theorem saveWhile_c_length_le (p : UInt8 → Bool) (bytes : List UInt8) (l : Lexer) :
    (l.saveWhile p bytes).c.length ≤ bytes.length := by
  induction bytes generalizing l with
  | nil => simp [Lexer.saveWhile]
  | cons b rest ih =>
      unfold Lexer.saveWhile
      split
      · exact Nat.le_trans (ih _) (Nat.le_succ _)
      · simp

@[simp] theorem saveWhile_state (p : UInt8 → Bool) (bytes : List UInt8) (l : Lexer) :
    (l.saveWhile p bytes).state = l.state := by
  induction bytes generalizing l with
  | nil => rfl
  | cons b rest ih =>
      unfold Lexer.saveWhile
      split
      · rw [ih, saveByte_state]
      · rfl

/-- The variant of the loop: two for each byte left, and the states ordered so that leaving a quote
counts as progress even where no byte is skipped. -/
def measure (l : Lexer) : Nat :=
  match l.state with
  | .fin => 0
  | .delim | .arg => 2 * l.c.length + 1
  | .quote => 2 * l.c.length + 2

/-- A byte that is not the terminator is really there to be skipped. -/
theorem advance_length {l : Lexer} (h : l.cur ≠ eos) :
    l.advance.c.length + 1 = l.c.length := by
  cases bytes : l.c with
  | nil => simp [Lexer.cur, bytes] at h
  | cons b rest => simp [bytes]

theorem advance_length_le (l : Lexer) : l.advance.c.length ≤ l.c.length := by
  simp

theorem quotes_ne_eos {b : UInt8} (h : b = sq ∨ b = dq) : b ≠ eos := by
  rcases h with rfl | rfl <;> decide

theorem delimStep_measure {l l' : Lexer} (state : l.state = .delim)
    (step : delimStep l = .next l') : measure l' < measure l := by
  have start : measure l = 2 * l.c.length + 1 := by simp [measure, state]
  have dropped : (l.c.dropWhile isDelim).length ≤ l.c.length :=
    (List.dropWhile_sublist _).length_le
  unfold delimStep afterDelims at step
  generalize skipEq : ({ l with c := l.c.dropWhile isDelim } : Lexer) = skip at step
  have skipLength : skip.c.length ≤ l.c.length := by
    rw [← skipEq]
    exact dropped
  have skipState : skip.state = .delim := by
    rw [← skipEq]
    exact state
  dsimp only at step
  split at step
  · next quoted =>
      cases step
      have shorter := advance_length (quotes_ne_eos quoted)
      simp only [measure, advance_c] at shorter ⊢
      simp only [state]
      omega
  · split at step
    · cases step
      simp [measure, state]
    · next notEos =>
        have shorter := advance_length notEos
        split at step
        · split at step
          · cases step
            have again := advance_length_le skip.advance
            simp only [measure, advance_state, skipState, state]
            omega
          · split at step
            · cases step
              simp [measure, state]
            · cases step
              have again := advance_length_le skip.advance
              simp only [advance_c] at again shorter
              simp only [measure, advance_c, save_c, state]
              omega
        · cases step
          simp only [advance_c] at shorter
          simp only [measure, advance_c, save_c, state]
          omega

theorem quoteStep_measure {l l' : Lexer} (state : l.state = .quote)
    (step : quoteStep l = .next l') : measure l' < measure l := by
  have start : measure l = 2 * l.c.length + 2 := by simp [measure, state]
  unfold quoteStep afterQuoted at step
  generalize skipEq : l.saveWhile (quotePlain l.qc) l.c = skip at step
  have skipLength : skip.c.length ≤ l.c.length := by
    rw [← skipEq]
    exact saveWhile_c_length_le _ _ _
  have skipState : skip.state = .quote := by
    rw [← skipEq, saveWhile_state, state]
  dsimp only at step
  split at step
  · -- the closing quote
    cases step
    have shorter := advance_length_le skip
    simp only [advance_c] at shorter
    simp only [measure, advance_c, state]
    omega
  · split at step
    · next backslash =>
        have shorter := advance_length (l := skip) (by rw [backslash]; decide)
        have again := advance_length_le skip.advance
        simp only [advance_c] at shorter again
        split at step
        · split at step
          · cases step
            simp only [measure, advance_c, advance_state, skipState, state]
            omega
          · split at step
            · cases step
              simp [measure, state]
            · split at step
              · cases step
                simp only [measure, advance_c, advance_state, save_c, save_state, skipState, state]
                omega
              · cases step
                simp only [measure, advance_c, advance_state, save_c, save_state, skipState, state]
                omega
        · cases step
    · split at step
      · cases step
        simp [measure, state]
      · cases step

theorem argStep_measure {strdupOk : Nat → Bool} {argvSz : Nat} {l l' : Lexer}
    (state : l.state = .arg) (step : argStep strdupOk argvSz l = .next l') :
    measure l' < measure l := by
  have start : measure l = 2 * l.c.length + 1 := by simp [measure, state]
  have again := advance_length_le l.advance
  unfold argStep at step
  dsimp only at step
  split at step
  · next quoted =>
      cases step
      have shorter := advance_length (quotes_ne_eos quoted)
      simp only [advance_c] at shorter
      simp only [measure, advance_c, state]
      omega
  · split at step
    · next ended =>
        split at step
        · cases step
        · next pushed =>
            cases step
            have same := push_c pushed
            by_cases atEos : l.cur = eos
            · simp [measure, atEos, state]
            · have shorter := advance_length atEos
              simp only [advance_c] at shorter
              simp only [measure, advance_c, same, atEos, if_false, state]
              omega
    · next notEnded =>
        have shorter := advance_length (l := l) (fun h => notEnded (Or.inr h))
        simp only [advance_c] at shorter again
        split at step
        · split at step
          · cases step
            simp only [measure, advance_c, advance_state, state]
            omega
          · split at step
            · cases step
              simp [measure, state]
            · cases step
              simp only [measure, advance_c, advance_state, save_c, save_state, state]
              omega
        · cases step
          simp only [measure, advance_c, advance_state, save_c, save_state, state]
          omega

theorem splitStep_measure {strdupOk : Nat → Bool} {argvSz : Nat} {l l' : Lexer}
    (step : splitStep strdupOk argvSz l = .next l') : measure l' < measure l := by
  unfold splitStep at step
  split at step
  · next state => exact delimStep_measure state step
  · next state => exact quoteStep_measure state step
  · next state => exact argStep_measure state step
  · cases step

/-- The loop of `split_quoted` up to its `return`. -/
def splitLoop (strdupOk : Nat → Bool) (argvSz : Nat) (l : Lexer) : SplitResult :=
  if l.state = .fin then
    .returned (if l.err ≠ .ok then -1 else l.flags) l.argc l.argv
  else
    match _step : splitStep strdupOk argvSz l with
    | .next l' => splitLoop strdupOk argvSz l'
    | .outOfMem => .outOfMem l.argc l.argv
    | .assertFailed => .assertFailed
termination_by measure l
decreasing_by exact splitStep_measure _step

/-- The variables of `split_quoted` before its loop. -/
def Lexer.start (s : List UInt8) (argc : Nat) (argv : List (List UInt8)) : Lexer where
  c := s
  argBuff := []
  state := .delim
  qc := sq
  err := .ok
  flags := 0
  argv := argv
  argc := argc

/-- `split_quoted` on the string whose bytes before the terminator are `s`. -/
def splitQuoted (strdupOk : Nat → Bool) (s : List UInt8) (argc : Nat) (argv : List (List UInt8))
    (argvSz : Nat) : SplitResult :=
  splitLoop strdupOk argvSz (Lexer.start s argc argv)

end Ppcom.Split
