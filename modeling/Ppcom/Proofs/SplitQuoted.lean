/-
Module: Ppcom.Proofs.SplitQuoted
Purpose: `split_quoted` computes the grammar of `Ppcom.Spec.SplitGrammar`. The lexer is followed along
  a derivation of the grammar: a state of it is described by the word read so far, of which the buffer
  holds the part that fits, and every rule of the grammar moves it to the next such state.
Trusted boundary: none
Main exports: holding, Slots.storeAll, Slots.tryStoreAll, arguments_run, arguments_run_before,
  malformed_run, split_quoted_meets_grammar
-/
import Ppcom.Spec.SplitGrammar

namespace Ppcom.Split

/-- The part of a word that the argument buffer has room for. -/
def cut (w : List UInt8) : List UInt8 := w.take (maxArgLen - 1)

/-- `SPLIT_TRUNC` for a word that the argument buffer has no room for. -/
def truncFlag (w : List UInt8) : Nat := if maxArgLen - 1 < w.length then splitTrunc else 0

/-- What the lexer carries from one word to the next. -/
structure Slots where
  flags : Nat
  argv : List (List UInt8)
  argc : Nat

/-- One word more: it takes the next slot, cut to the buffer, or is dropped. -/
def Slots.store (argvSz : Nat) (slots : Slots) (w : List UInt8) : Slots :=
  if slots.argc < argvSz then
    { flags := slots.flags ||| truncFlag w
      argv := slots.argv.set slots.argc (cut w)
      argc := slots.argc + 1 }
  else
    { slots with flags := slots.flags ||| truncFlag w ||| splitDrop }

/-- A list of words, in order. -/
def Slots.storeAll (argvSz : Nat) (slots : Slots) (args : List (List UInt8)) : Slots :=
  args.foldl (Slots.store argvSz) slots

/-- The lexer with `w` read of the current word, `c` still to read and `slots` left by the earlier
words. -/
def holding (c w : List UInt8) (state : States) (qc : UInt8) (slots : Slots) : Lexer where
  c := c
  argBuff := cut w
  state := state
  qc := qc
  err := .ok
  flags := slots.flags ||| truncFlag w
  argv := slots.argv
  argc := slots.argc

@[simp] theorem cut_nil : cut [] = [] := rfl

@[simp] theorem truncFlag_nil : truncFlag [] = 0 := rfl

theorem start_eq_holding (s : List UInt8) (argc : Nat) (argv : List (List UInt8)) :
    Lexer.start s argc argv = holding s [] .delim sq ⟨0, argv, argc⟩ := by
  simp [Lexer.start, holding]

section Holding

variable {c w : List UInt8} {state : States} {qc : UInt8} {slots : Slots}

@[simp] theorem holding_cur : (holding c w state qc slots).cur = c.headD eos := rfl

@[simp] theorem holding_c : (holding c w state qc slots).c = c := rfl

@[simp] theorem holding_state : (holding c w state qc slots).state = state := rfl

@[simp] theorem holding_qc : (holding c w state qc slots).qc = qc := rfl

theorem holding_advance :
    (holding c w state qc slots).advance = holding c.tail w state qc slots := rfl

/-- Saving a byte reads one byte more of the word, whether or not the buffer has room for it. -/
theorem saveByte_holding (b : UInt8) :
    (holding c w state qc slots).saveByte b =
      holding c (w ++ [b]) state qc slots := by
  unfold Lexer.saveByte holding cut truncFlag
  by_cases short : w.length < maxArgLen - 1
  · have fits : ¬ maxArgLen - 1 < w.length := by omega
    have fitsMore : ¬ maxArgLen - 1 < (w ++ [b]).length := by simp; omega
    rw [List.take_of_length_le (l := w) (by omega),
      List.take_of_length_le (l := w ++ [b]) (by omega),
      if_pos (show w.length ≠ maxArgLen - 1 by omega), if_neg fits, if_neg fitsMore]
  · have full : (w.take (maxArgLen - 1)).length = maxArgLen - 1 := by
      rw [List.length_take]
      omega
    have exceeds : maxArgLen - 1 < (w ++ [b]).length := by rw [List.length_append]; simp; omega
    rw [if_neg (by simpa using full), if_pos exceeds,
      List.take_append_of_le_length (by omega)]
    split
    · simp only [Nat.or_assoc, Nat.or_self]
    · simp

theorem save_holding {b : UInt8} {rest : List UInt8} :
    (holding (b :: rest) w state qc slots).save =
      holding (b :: rest) (w ++ [b]) state qc slots := saveByte_holding b

end Holding

theorem saveWhile_set_c (p : UInt8 → Bool) (bytes x : List UInt8) (l : Lexer) :
    Lexer.saveWhile p bytes { l with c := x } = Lexer.saveWhile p bytes l := by
  induction bytes generalizing l x with
  | nil => rfl
  | cons b rest ih =>
      unfold Lexer.saveWhile
      split
      · have same : ({ l with c := x } : Lexer).saveByte b = { l.saveByte b with c := x } := by
          unfold Lexer.saveByte
          split <;> rfl
        rw [same, ih]
      · rfl

theorem isDelim_iff {c : UInt8} : isDelim c = true ↔ Delimiter c := by
  simp [isDelim, Delimiter, or_assoc]

theorem isDqEscapable_iff {c : UInt8} : isDqEscapable c = true ↔ DqEscaped c := by
  simp only [isDqEscapable, DqEscaped, Bool.or_eq_true, beq_iff_eq]
  tauto

theorem Piece.ne_nil {raw v : List UInt8} (head : Piece raw v) : raw ≠ [] := by
  cases head <;> simp

/-- The empty string denotes no argument. -/
theorem Arguments.nil_inv {args : List (List UInt8)} (wellFormed : Arguments [] args) :
    args = [] := by
  generalize empty : ([] : List UInt8) = s at wellFormed
  cases wellFormed with
  | none only => rfl
  | word before head ends after =>
      obtain ⟨piece, rest⟩ := head
      have nothing := List.append_eq_nil_iff.mp empty.symm
      have noPiece := (List.append_eq_nil_iff.mp (List.append_eq_nil_iff.mp nothing.2).1).1
      exact absurd noPiece piece.ne_nil

/-! ### The loop along the rules of the grammar -/

section Run

variable (strdupOk : Nat → Bool) (argvSz : Nat)

theorem splitLoop_running {l : Lexer} (running : l.state ≠ .fin) :
    splitLoop strdupOk argvSz l =
      match splitStep strdupOk argvSz l with
      | .next l' => splitLoop strdupOk argvSz l'
      | .outOfMem => .outOfMem l.argc l.argv
      | .assertFailed => .assertFailed := by
  rw [splitLoop, if_neg running]
  split <;> simp_all

theorem splitLoop_next {l l' : Lexer} (running : l.state ≠ .fin)
    (step : splitStep strdupOk argvSz l = .next l') :
    splitLoop strdupOk argvSz l = splitLoop strdupOk argvSz l' := by
  rw [splitLoop_running strdupOk argvSz running, step]

theorem splitLoop_congr {l₁ l₂ : Lexer} (running₁ : l₁.state ≠ .fin) (running₂ : l₂.state ≠ .fin)
    (sameArgc : l₁.argc = l₂.argc) (sameArgv : l₁.argv = l₂.argv)
    (same : splitStep strdupOk argvSz l₁ = splitStep strdupOk argvSz l₂) :
    splitLoop strdupOk argvSz l₁ = splitLoop strdupOk argvSz l₂ := by
  rw [splitLoop_running strdupOk argvSz running₁, splitLoop_running strdupOk argvSz running₂, same,
    sameArgc, sameArgv]

theorem splitLoop_fin {l : Lexer} (ended : l.state = .fin) :
    splitLoop strdupOk argvSz l =
      .returned (if l.err ≠ .ok then -1 else l.flags) l.argc l.argv := by
  rw [splitLoop, if_pos ended]

variable {w : List UInt8} {qc : UInt8} {slots : Slots}

/-- A delimiter between words is skipped. -/
theorem run_delim {c : UInt8} (rest : List UInt8) (delimiter : Delimiter c) :
    splitLoop strdupOk argvSz (holding (c :: rest) [] .delim qc slots) =
      splitLoop strdupOk argvSz (holding rest [] .delim qc slots) := by
  apply splitLoop_congr strdupOk argvSz (by simp) (by simp) (by rfl) (by rfl)
  have skip : (c :: rest).dropWhile isDelim = rest.dropWhile isDelim := by
    rw [List.dropWhile_cons, if_pos (isDelim_iff.mpr delimiter)]
  show delimStep _ = delimStep _
  unfold delimStep
  rw [holding_c, holding_c, skip]
  rfl

/-- So is a backslash-newline. -/
theorem run_delim_join (rest : List UInt8) :
    splitLoop strdupOk argvSz (holding (bs :: nl :: rest) [] .delim qc slots) =
      splitLoop strdupOk argvSz (holding rest [] .delim qc slots) := by
  apply splitLoop_next strdupOk argvSz (by simp)
  rfl

theorem run_gap {gap : List UInt8} (before : Gap gap) (rest : List UInt8) :
    splitLoop strdupOk argvSz (holding (gap ++ rest) [] .delim qc slots) =
      splitLoop strdupOk argvSz (holding rest [] .delim qc slots) := by
  induction before with
  | nil => rfl
  | delim delimiter _ ih =>
      rw [List.cons_append, run_delim strdupOk argvSz _ delimiter, ih]
  | joined _ ih =>
      rw [List.cons_append, List.cons_append, run_delim_join, ih]

/-- One byte inside quotes that stands for itself. -/
theorem run_quote_plain {b : UInt8} (rest : List UInt8) (plain : quotePlain qc b = true) :
    splitLoop strdupOk argvSz (holding (b :: rest) w .quote qc slots) =
      splitLoop strdupOk argvSz (holding rest (w ++ [b]) .quote qc slots) := by
  apply splitLoop_congr strdupOk argvSz (by simp) (by simp) (by rfl) (by rfl)
  show quoteStep _ = quoteStep _
  unfold quoteStep
  rw [holding_c, holding_c, holding_qc, holding_qc, Lexer.saveWhile, if_pos plain,
    saveByte_holding]
  congr 1
  exact saveWhile_set_c _ rest (b :: rest) (holding rest (w ++ [b]) .quote qc slots)

/-- The closing quote. -/
theorem run_quote_close (rest : List UInt8) :
    splitLoop strdupOk argvSz (holding (qc :: rest) w .quote qc slots) =
      splitLoop strdupOk argvSz (holding rest w .arg qc slots) := by
  apply splitLoop_next strdupOk argvSz (by simp)
  have stop : quotePlain qc qc = false := by simp [quotePlain]
  show quoteStep _ = _
  unfold quoteStep
  rw [holding_c, holding_qc, Lexer.saveWhile, if_neg (by simp [stop])]
  show afterQuoted (holding (qc :: rest) w .quote qc slots) = _
  unfold afterQuoted
  rw [if_pos (by simp)]
  rfl

variable (w slots) in
/-- A backslash inside double quotes, by the byte after it. -/
theorem splitStep_quote_bs (c : UInt8) (rest : List UInt8) :
    splitStep strdupOk argvSz (holding (bs :: c :: rest) w .quote dq slots) =
      if c = nl then .next (holding rest w .quote dq slots)
      else if c = eos then
        .next { holding (c :: rest) w .fin dq slots with err := .bsAtEos }
      else if ¬ isDqEscapable c then
        .next (holding rest (w ++ [bs] ++ [c]) .quote dq slots)
      else .next (holding rest (w ++ [c]) .quote dq slots) := by
  have stop : quotePlain dq bs = false := by decide
  show quoteStep _ = _
  unfold quoteStep
  rw [holding_c, holding_qc, Lexer.saveWhile, if_neg (by simp [stop])]
  show afterQuoted (holding (bs :: c :: rest) w .quote dq slots) = _
  unfold afterQuoted
  simp only [holding_cur, holding_qc, List.headD_cons, holding_advance, List.tail_cons,
    save_holding]
  rw [if_neg (by decide), if_pos trivial, if_pos trivial]
  rfl

theorem run_dqBody {raw v : List UInt8} (body : DqBody raw v) (noNul : eos ∉ raw)
    (rest : List UInt8) :
    splitLoop strdupOk argvSz (holding (raw ++ rest) w .quote dq slots) =
      splitLoop strdupOk argvSz (holding rest (w ++ v) .quote dq slots) := by
  induction body generalizing w with
  | nil => simp
  | @plain c raw v notQuote notBs _ ih =>
      have notEos : c ≠ eos := fun h => noNul (by simp [h])
      have plain : quotePlain dq c = true := by simp [quotePlain, notQuote, notBs, notEos]
      rw [List.cons_append, run_quote_plain strdupOk argvSz _ plain,
        ih (fun h => noNul (List.mem_cons_of_mem _ h)), List.append_assoc]
      rfl
  | @escaped c raw v special _ ih =>
      have notNl : c ≠ nl := by rcases special with rfl | rfl | rfl | rfl <;> decide
      have notEos : c ≠ eos := fun h => noNul (by simp [h])
      have step := splitStep_quote_bs strdupOk argvSz w slots c (raw ++ rest)
      rw [if_neg notNl, if_neg notEos,
        if_neg (by simpa using isDqEscapable_iff.mpr special)] at step
      rw [List.cons_append, List.cons_append, splitLoop_next strdupOk argvSz (by simp) step,
        ih (fun h => noNul (by simp [h])), List.append_assoc]
      rfl
  | @joined raw v _ ih =>
      have step := splitStep_quote_bs strdupOk argvSz w slots nl (raw ++ rest)
      rw [if_pos rfl] at step
      rw [List.cons_append, List.cons_append, splitLoop_next strdupOk argvSz (by simp) step,
        ih (fun h => noNul (by simp [h]))]
  | @kept c raw v ordinary notNl _ ih =>
      have notEos : c ≠ eos := fun h => noNul (by simp [h])
      have step := splitStep_quote_bs strdupOk argvSz w slots c (raw ++ rest)
      rw [if_neg notNl, if_neg notEos,
        if_pos (fun h => ordinary (isDqEscapable_iff.mp h))] at step
      rw [List.cons_append, List.cons_append, splitLoop_next strdupOk argvSz (by simp) step,
        ih (fun h => noNul (by simp [h])), List.append_assoc, List.append_assoc]
      rfl

theorem run_single {body : List UInt8} (closed : sq ∉ body) (noNul : eos ∉ body)
    (rest : List UInt8) :
    splitLoop strdupOk argvSz (holding (body ++ rest) w .quote sq slots) =
      splitLoop strdupOk argvSz (holding rest (w ++ body) .quote sq slots) := by
  induction body generalizing w with
  | nil => simp
  | cons c body ih =>
      have notQuote : c ≠ sq := fun h => closed (by simp [h])
      have notEos : c ≠ eos := fun h => noNul (by simp [h])
      have plain : quotePlain sq c = true := by simp [quotePlain, notQuote, notEos]
      rw [List.cons_append, run_quote_plain strdupOk argvSz _ plain,
        ih (fun h => closed (List.mem_cons_of_mem _ h))
          (fun h => noNul (List.mem_cons_of_mem _ h)), List.append_assoc]
      rfl

/-- An opening quote, inside a word or before it. -/
theorem run_open {q : UInt8} (quote : q = sq ∨ q = dq) {state : States}
    (outside : state = .delim ∨ state = .arg) (rest : List UInt8) :
    splitLoop strdupOk argvSz (holding (q :: rest) w state qc slots) =
      splitLoop strdupOk argvSz (holding rest w .quote q slots) := by
  apply splitLoop_next strdupOk argvSz (by rcases outside with rfl | rfl <;> simp)
  rcases quote with rfl | rfl <;> rcases outside with rfl | rfl <;> rfl

/-- An ordinary byte, inside a word or before it. -/
theorem run_plain {c : UInt8} (ordinary : ¬ Special c) (notEos : c ≠ eos) {state : States}
    (outside : state = .delim ∨ state = .arg) (rest : List UInt8) :
    splitLoop strdupOk argvSz (holding (c :: rest) w state qc slots) =
      splitLoop strdupOk argvSz (holding rest (w ++ [c]) .arg qc slots) := by
  have notDelim : isDelim c = false := by
    rw [Bool.eq_false_iff]
    exact fun h => ordinary (Or.inl (isDelim_iff.mp h))
  have notBs : c ≠ bs := fun h => ordinary (Or.inr (Or.inl h))
  have notQuote : ¬ (c = sq ∨ c = dq) := fun h => ordinary (Or.inr (Or.inr h))
  apply splitLoop_next strdupOk argvSz (by rcases outside with rfl | rfl <;> simp)
  rcases outside with rfl | rfl
  · show delimStep _ = _
    unfold delimStep
    rw [holding_c, List.dropWhile_cons, if_neg (by simp [notDelim])]
    show afterDelims (holding (c :: rest) w .delim qc slots) = _
    unfold afterDelims
    rw [holding_cur, List.headD_cons, if_neg notQuote, if_neg notEos, if_neg notBs, save_holding]
    rfl
  · show argStep strdupOk argvSz _ = _
    unfold argStep
    rw [holding_cur, List.headD_cons, if_neg notQuote, if_neg (by simp [notDelim, notEos]),
      if_neg notBs, save_holding]
    rfl

/-- A backslash that takes the special meaning from the byte after it, outside quotes. -/
theorem run_escaped {c : UInt8} (notNl : c ≠ nl) (notEos : c ≠ eos) {state : States}
    (outside : state = .delim ∨ state = .arg) (rest : List UInt8) :
    splitLoop strdupOk argvSz (holding (bs :: c :: rest) w state qc slots) =
      splitLoop strdupOk argvSz (holding rest (w ++ [c]) .arg qc slots) := by
  have notQuote : ¬ (bs = sq ∨ bs = dq) := by decide
  apply splitLoop_next strdupOk argvSz (by rcases outside with rfl | rfl <;> simp)
  rcases outside with rfl | rfl
  · show delimStep _ = _
    unfold delimStep
    rw [holding_c, List.dropWhile_cons, if_neg (by decide)]
    show afterDelims (holding (bs :: c :: rest) w .delim qc slots) = _
    unfold afterDelims
    simp only [holding_cur, List.headD_cons, holding_advance, List.tail_cons, save_holding]
    rw [if_neg notQuote, if_neg (by decide), if_pos trivial, if_neg notNl, if_neg notEos]
    rfl
  · show argStep strdupOk argvSz _ = _
    unfold argStep
    simp only [holding_cur, List.headD_cons, holding_advance, List.tail_cons, save_holding]
    rw [if_neg notQuote, if_neg (by decide), if_pos trivial, if_neg notNl, if_neg notEos]

variable (w qc slots) in
/-- One piece of a word. A quoted one leaves its quote character behind in `qc`. -/
theorem run_piece {raw v : List UInt8} (head : Piece raw v) (noNul : eos ∉ raw) {state : States}
    (outside : state = .delim ∨ state = .arg) (rest : List UInt8) :
    ∃ qc', splitLoop strdupOk argvSz (holding (raw ++ rest) w state qc slots) =
      splitLoop strdupOk argvSz (holding rest (w ++ v) .arg qc' slots) := by
  cases head with
  | @plain c ordinary =>
      have notEos : c ≠ eos := fun h => noNul (by simp [h])
      exact ⟨qc, run_plain strdupOk argvSz ordinary notEos outside rest⟩
  | @escaped c notNl =>
      have notEos : c ≠ eos := fun h => noNul (by simp [h])
      exact ⟨qc, run_escaped strdupOk argvSz notNl notEos outside rest⟩
  | single closed =>
      refine ⟨sq, ?_⟩
      rw [List.cons_append, List.append_assoc, run_open strdupOk argvSz (Or.inl rfl) outside,
        run_single strdupOk argvSz closed (fun h => noNul (by simp [h]))]
      exact run_quote_close strdupOk argvSz rest
  | double body =>
      refine ⟨dq, ?_⟩
      rw [List.cons_append, List.append_assoc, run_open strdupOk argvSz (Or.inr rfl) outside,
        run_dqBody strdupOk argvSz body (fun h => noNul (by simp [h]))]
      exact run_quote_close strdupOk argvSz rest

/-- A backslash-newline inside a word. -/
theorem run_arg_join (rest : List UInt8) :
    splitLoop strdupOk argvSz (holding (bs :: nl :: rest) w .arg qc slots) =
      splitLoop strdupOk argvSz (holding rest w .arg qc slots) := by
  apply splitLoop_next strdupOk argvSz (by simp)
  rfl

variable (qc slots) in
theorem run_wordTail {raw v : List UInt8} (tail : WordTail raw v) (noNul : eos ∉ raw)
    (rest : List UInt8) :
    ∃ qc', splitLoop strdupOk argvSz (holding (raw ++ rest) w .arg qc slots) =
      splitLoop strdupOk argvSz (holding rest (w ++ v) .arg qc' slots) := by
  induction tail generalizing w qc with
  | nil => exact ⟨qc, by simp⟩
  | @piece raw v raws vs head _ ih =>
      obtain ⟨qc₁, first⟩ := run_piece strdupOk argvSz w qc slots head
        (fun h => noNul (by simp [h])) (Or.inr rfl) (raws ++ rest)
      obtain ⟨qc₂, second⟩ := ih (w := w ++ v) qc₁ (fun h => noNul (by simp [h]))
      exact ⟨qc₂, by rw [List.append_assoc, first, second, List.append_assoc]⟩
  | joined _ ih =>
      obtain ⟨qc₁, after⟩ := ih (w := w) qc (fun h => noNul (by simp [h]))
      exact ⟨qc₁, by rw [List.cons_append, List.cons_append, run_arg_join, after]⟩

variable (qc slots) in
/-- A whole word, from the state between words. -/
theorem run_word {raw v : List UInt8} (word : Word raw v) (noNul : eos ∉ raw)
    (rest : List UInt8) :
    ∃ qc', splitLoop strdupOk argvSz (holding (raw ++ rest) [] .delim qc slots) =
      splitLoop strdupOk argvSz (holding rest v .arg qc' slots) := by
  obtain ⟨head, tail⟩ := word
  next raw v raws vs =>
    obtain ⟨qc₁, first⟩ := run_piece strdupOk argvSz [] qc slots head
      (fun h => noNul (by simp [h])) (Or.inl rfl) (raws ++ rest)
    obtain ⟨qc₂, second⟩ := run_wordTail strdupOk argvSz (w := v) qc₁ slots tail
      (fun h => noNul (by simp [h])) rest
    exact ⟨qc₂, by rw [List.append_assoc, first]; exact second⟩

/-- Whatever is left open makes the call return `-1`. -/
theorem run_unclosed {tail : List UInt8} (opened : Unclosed tail) (noNul : eos ∉ tail)
    {state : States} (outside : state = .delim ∨ state = .arg) :
    splitLoop strdupOk argvSz (holding tail w state qc slots) =
      .returned (-1) slots.argc slots.argv := by
  -- a byte that is neither quoted nor there to be escaped ends the loop with an error code
  have ended : ∀ {l : Lexer} (l' : Lexer), l.state ≠ .fin →
      splitStep strdupOk argvSz l = .next l' →
      l'.state = .fin → l'.err ≠ .ok → l'.argc = slots.argc → l'.argv = slots.argv →
      splitLoop strdupOk argvSz l = .returned (-1) slots.argc slots.argv := by
    intro l l' running step fin err sameArgc sameArgv
    rw [splitLoop_next strdupOk argvSz running step, splitLoop_fin strdupOk argvSz fin,
      if_pos err, sameArgc, sameArgv]
  cases opened with
  | backslash =>
      rcases outside with rfl | rfl
      · exact ended { holding [] w .fin qc slots with err := .bsAtEos }
          (by simp) rfl rfl (by simp) rfl rfl
      · exact ended { holding [] w .fin qc slots with err := .bsAtEos }
          (by simp) rfl rfl (by simp) rfl rfl
  | @single body noClose =>
      have inside : splitLoop strdupOk argvSz (holding (body ++ []) w .quote sq slots) = _ :=
        run_single strdupOk argvSz noClose (fun h => noNul (List.mem_cons_of_mem _ h)) []
      rw [List.append_nil] at inside
      rw [run_open strdupOk argvSz (Or.inl rfl) outside, inside]
      exact ended { holding [] (w ++ body) .fin sq slots with err := .sqOpenAtEos }
        (by simp) rfl rfl (by simp) rfl rfl
  | @double raw v body =>
      have inside : splitLoop strdupOk argvSz (holding (raw ++ []) w .quote dq slots) = _ :=
        run_dqBody strdupOk argvSz body (fun h => noNul (List.mem_cons_of_mem _ h)) []
      rw [List.append_nil] at inside
      rw [run_open strdupOk argvSz (Or.inr rfl) outside, inside]
      exact ended { holding [] (w ++ v) .fin dq slots with err := .sqOpenAtEos }
        (by simp) rfl rfl (by simp) rfl rfl
  | @doubleBackslash raw v body =>
      have inside : splitLoop strdupOk argvSz (holding (raw ++ [bs]) w .quote dq slots) = _ :=
        run_dqBody strdupOk argvSz body (fun h => noNul (by simp [h])) [bs]
      rw [run_open strdupOk argvSz (Or.inr rfl) outside, inside]
      exact ended { holding [] (w ++ v) .fin dq slots with err := .bsAtEos }
        (by simp) rfl rfl (by simp) rfl rfl

/-! ### Words into slots -/

/-- One word more, unless its copy cannot be allocated. -/
def Slots.tryStore (slots : Slots) (w : List UInt8) : Option Slots :=
  if slots.argc < argvSz ∧ strdupOk slots.argc = false then none else some (slots.store argvSz w)

/-- A list of words, in order, up to the first whose copy cannot be allocated. -/
def Slots.tryStoreAll : Slots → List (List UInt8) → Except Slots Slots
  | slots, [] => .ok slots
  | slots, w :: args =>
      (slots.tryStore strdupOk argvSz w).elim (.error slots) fun slots' => slots'.tryStoreAll args

/-- The call goes on with the slots stored, or returns early. -/
def Slots.andThen (next : Slots → SplitResult) : Except Slots Slots → SplitResult
  | .error slots => .outOfMem slots.argc slots.argv
  | .ok slots => next slots

/-- The call returns with `slots` stored. -/
def Slots.returned (failed : Bool) (slots : Slots) : SplitResult :=
  .returned (if failed then -1 else slots.flags) slots.argc slots.argv

theorem andThen_cons (next : Slots → SplitResult) (w : List UInt8) (args : List (List UInt8)) :
    Slots.andThen next (slots.tryStoreAll strdupOk argvSz (w :: args)) =
      (slots.tryStore strdupOk argvSz w).elim (.outOfMem slots.argc slots.argv) fun slots' =>
        Slots.andThen next (slots'.tryStoreAll strdupOk argvSz args) := by
  rw [Slots.tryStoreAll]
  cases slots.tryStore strdupOk argvSz w <;> rfl

theorem push_holding (c : List UInt8) :
    (holding c w .arg qc slots).push strdupOk argvSz =
      (slots.tryStore strdupOk argvSz w).map (holding c [] .arg qc) := by
  unfold Lexer.push Slots.tryStore Slots.store
  by_cases room : slots.argc < argvSz
  · rw [if_pos (show (holding c w .arg qc slots).argc < argvSz from room)]
    cases copied : strdupOk slots.argc with
    | false =>
        rw [if_neg (by simp [holding, copied]), if_pos ⟨room, rfl⟩]
        rfl
    | true =>
        rw [if_pos (show strdupOk (holding c w .arg qc slots).argc = true from copied),
          if_neg (by simp), if_pos room]
        simp [holding]
  · rw [if_neg (show ¬ (holding c w .arg qc slots).argc < argvSz from room),
      if_neg (fun h => room h.1), if_neg room]
    simp [holding]

/-- A delimiter ends the word. -/
theorem run_word_delim {c : UInt8} (delimiter : Delimiter c) (rest : List UInt8) :
    splitLoop strdupOk argvSz (holding (c :: rest) w .arg qc slots) =
      (slots.tryStore strdupOk argvSz w).elim (.outOfMem slots.argc slots.argv) fun slots' =>
        splitLoop strdupOk argvSz (holding rest [] .delim qc slots') := by
  have notQuote : ¬ (c = sq ∨ c = dq) := by
    rcases delimiter with rfl | rfl | rfl <;> decide
  have notEos : c ≠ eos := by rcases delimiter with rfl | rfl | rfl <;> decide
  have step : splitStep strdupOk argvSz (holding (c :: rest) w .arg qc slots) =
      argStep strdupOk argvSz (holding (c :: rest) w .arg qc slots) := rfl
  rw [splitLoop_running strdupOk argvSz (by simp), step]
  unfold argStep
  rw [push_holding, holding_cur, List.headD_cons, if_neg notQuote,
    if_pos (Or.inl (isDelim_iff.mpr delimiter))]
  cases slots.tryStore strdupOk argvSz w with
  | none => rfl
  | some slots' =>
      simp only [if_neg notEos]
      rfl

/-- So does the end of the string, and the call returns. -/
theorem run_word_eos :
    splitLoop strdupOk argvSz (holding [] w .arg qc slots) =
      (slots.tryStore strdupOk argvSz w).elim (.outOfMem slots.argc slots.argv)
        (Slots.returned false) := by
  have step : splitStep strdupOk argvSz (holding [] w .arg qc slots) =
      argStep strdupOk argvSz (holding [] w .arg qc slots) := rfl
  rw [splitLoop_running strdupOk argvSz (by simp), step]
  unfold argStep
  rw [push_holding]
  cases slots.tryStore strdupOk argvSz w with
  | none => rfl
  | some slots' =>
      show splitLoop strdupOk argvSz (holding [] [] .fin qc slots') = Slots.returned false slots'
      rw [splitLoop_fin strdupOk argvSz rfl]
      simp [holding, Slots.returned]

theorem run_eos :
    splitLoop strdupOk argvSz (holding [] [] .delim qc slots) = Slots.returned false slots := by
  rw [splitLoop_next strdupOk argvSz (by simp)
      (show _ = Turn.next (holding [] [] .fin qc slots) from rfl),
    splitLoop_fin strdupOk argvSz rfl]
  simp [holding, Slots.returned]

variable (qc slots) in
/-- A well-formed string leaves its arguments in the slots, and the call returns. -/
theorem arguments_run {s : List UInt8} {args : List (List UInt8)} (wellFormed : Arguments s args)
    (noNul : eos ∉ s) :
    splitLoop strdupOk argvSz (holding s [] .delim qc slots) =
      Slots.andThen (Slots.returned false) (slots.tryStoreAll strdupOk argvSz args) := by
  induction wellFormed generalizing qc slots with
  | @none gap only =>
      have skipped : splitLoop strdupOk argvSz (holding (gap ++ []) [] .delim qc slots) = _ :=
        run_gap strdupOk argvSz only []
      rw [List.append_nil] at skipped
      rw [skipped, run_eos]
      rfl
  | @word gap raw v rest args before head ends after ih =>
      obtain ⟨qc', word⟩ := run_word strdupOk argvSz qc slots head
        (fun h => noNul (by simp [h])) rest
      have noNulRest : eos ∉ rest := fun h => noNul (by simp [h])
      rw [run_gap strdupOk argvSz before, word, andThen_cons]
      rcases ends with rfl | ⟨c, more, rfl, delimiter⟩
      · rw [run_word_eos, after.nil_inv]
        rfl
      · rw [run_word_delim strdupOk argvSz delimiter]
        congr 1
        funext slots'
        rw [← run_delim strdupOk argvSz more delimiter, ih qc' slots' noNulRest]

variable (qc slots) in
/-- Where a delimiter follows, the call goes on after it as a new one would, with the arguments in
the slots. -/
theorem arguments_run_before {s : List UInt8} {args : List (List UInt8)}
    (wellFormed : Arguments s args) (noNul : eos ∉ s) {d : UInt8} (separator : Delimiter d)
    (after : List UInt8) :
    ∃ qc', splitLoop strdupOk argvSz (holding (s ++ d :: after) [] .delim qc slots) =
      Slots.andThen (fun slots' => splitLoop strdupOk argvSz (holding after [] .delim qc' slots'))
        (slots.tryStoreAll strdupOk argvSz args) := by
  induction wellFormed generalizing qc slots with
  | none only =>
      refine ⟨qc, ?_⟩
      rw [run_gap strdupOk argvSz only, run_delim strdupOk argvSz after separator]
      rfl
  | @word gap raw v rest args before head ends later ih =>
      obtain ⟨qc₁, word⟩ := run_word strdupOk argvSz qc slots head
        (fun h => noNul (by simp [h])) (rest ++ d :: after)
      have noNulRest : eos ∉ rest := fun h => noNul (by simp [h])
      rw [List.append_assoc, List.append_assoc, run_gap strdupOk argvSz before, word]
      simp only [andThen_cons]
      rcases ends with rfl | ⟨c, more, rfl, delimiter⟩
      · refine ⟨qc₁, ?_⟩
        rw [List.nil_append, run_word_delim strdupOk argvSz separator, later.nil_inv]
        rfl
      · cases stored : slots.tryStore strdupOk argvSz v with
        | none =>
            refine ⟨qc₁, ?_⟩
            rw [List.cons_append, run_word_delim strdupOk argvSz delimiter, stored]
            rfl
        | some slots' =>
            obtain ⟨qc₂, onward⟩ := ih qc₁ slots' noNulRest
            refine ⟨qc₂, ?_⟩
            rw [List.cons_append, run_word_delim strdupOk argvSz delimiter, stored]
            rw [List.cons_append, run_delim strdupOk argvSz _ delimiter] at onward
            exact onward

/-- A malformed string returns `-1`, with the words before the open end in the slots; the last of them
is not stored where the open end is a part of it. -/
theorem malformed_run {before tail : List UInt8} {args : List (List UInt8)}
    (wellFormed : Arguments before args) (opened : Unclosed tail) (noNul : eos ∉ before ++ tail) :
    ∃ stored, ∀ qc slots,
      splitLoop strdupOk argvSz (holding (before ++ tail) [] .delim qc slots) =
        Slots.andThen (Slots.returned true) (slots.tryStoreAll strdupOk argvSz stored) := by
  have noNulTail : eos ∉ tail := fun h => noNul (by simp [h])
  induction wellFormed with
  | none only =>
      refine ⟨[], fun qc slots => ?_⟩
      rw [run_gap strdupOk argvSz only, run_unclosed strdupOk argvSz opened noNulTail (Or.inl rfl)]
      rfl
  | @word gap raw v rest args before head ends after ih =>
      have noNulWord : eos ∉ raw := fun h => noNul (by simp [h])
      rcases ends with rfl | ⟨c, more, rfl, delimiter⟩
      · refine ⟨[], fun qc slots => ?_⟩
        obtain ⟨qc', word⟩ := run_word strdupOk argvSz qc slots head noNulWord ([] ++ tail)
        rw [List.append_assoc, List.append_assoc, run_gap strdupOk argvSz before, word,
          List.nil_append, run_unclosed strdupOk argvSz opened noNulTail (Or.inr rfl)]
        rfl
      · obtain ⟨stored, later⟩ := ih (fun h => noNul (by simp at h ⊢; tauto))
        refine ⟨v :: stored, fun qc slots => ?_⟩
        obtain ⟨qc', word⟩ := run_word strdupOk argvSz qc slots head noNulWord (c :: more ++ tail)
        rw [List.append_assoc, List.append_assoc, run_gap strdupOk argvSz before, word,
          andThen_cons, List.cons_append, run_word_delim strdupOk argvSz delimiter]
        congr 1
        funext slots'
        rw [← later qc' slots', List.cons_append, run_delim strdupOk argvSz _ delimiter]

/-- The slots, where no word was refused. -/
theorem tryStoreAll_ok {args : List (List UInt8)} {slots' : Slots}
    (stored : slots.tryStoreAll strdupOk argvSz args = .ok slots') :
    slots' = slots.storeAll argvSz args := by
  induction args generalizing slots with
  | nil =>
      cases stored
      rfl
  | cons w args ih =>
      rw [Slots.tryStoreAll] at stored
      unfold Slots.tryStore at stored
      split at stored
      · cases stored
      · exact ih stored

/-- Where every copy can be allocated, no word is refused. -/
theorem tryStoreAll_always (args : List (List UInt8))
    (copies : ∀ k, slots.argc ≤ k → k < argvSz → strdupOk k = true) :
    slots.tryStoreAll strdupOk argvSz args = .ok (slots.storeAll argvSz args) := by
  induction args generalizing slots with
  | nil => rfl
  | cons w args ih =>
      have accepted : slots.tryStore strdupOk argvSz w = some (slots.store argvSz w) := by
        apply if_neg
        rintro ⟨room, refused⟩
        rw [copies slots.argc (Nat.le_refl _) room] at refused
        cases refused
      have later : slots.argc ≤ (slots.store argvSz w).argc := by
        unfold Slots.store
        split
        · exact Nat.le_succ _
        · exact Nat.le_refl _
      unfold Slots.tryStoreAll
      rw [accepted]
      exact ih fun k above below => copies k (Nat.le_trans later above) below

end Run

/-! ### The slots after a list of words -/

section Stored

variable {argvSz : Nat}

theorem storeAll_cons (slots : Slots) (w : List UInt8) (args : List (List UInt8)) :
    slots.storeAll argvSz (w :: args) = (slots.store argvSz w).storeAll argvSz args := rfl

theorem storeAll_argc (slots : Slots) (args : List (List UInt8)) :
    (slots.storeAll argvSz args).argc = slots.argc + min args.length (argvSz - slots.argc) := by
  induction args generalizing slots with
  | nil => simp [Slots.storeAll]
  | cons w args ih =>
      rw [storeAll_cons, ih, List.length_cons]
      unfold Slots.store
      split <;> simp only <;> omega

/-- The slots in use hold the old arguments followed by the words that found a slot. -/
theorem storeAll_argv (slots : Slots) (args : List (List UInt8))
    (allocated : argvSz ≤ slots.argv.length) (room : slots.argc ≤ argvSz) :
    (slots.storeAll argvSz args).argv.take (slots.storeAll argvSz args).argc =
      slots.argv.take slots.argc ++ (args.take (argvSz - slots.argc)).map cut := by
  induction args generalizing slots with
  | nil => simp [Slots.storeAll]
  | cons w args ih =>
      rw [storeAll_cons]
      unfold Slots.store
      by_cases free : slots.argc < argvSz
      · rw [if_pos free, ih _ (by simpa using allocated) (Nat.succ_le_of_lt free)]
        have split : argvSz - slots.argc = argvSz - (slots.argc + 1) + 1 := by omega
        rw [split, List.take_succ_cons, List.map_cons]
        have stored : (slots.argv.set slots.argc (cut w)).take (slots.argc + 1) =
            slots.argv.take slots.argc ++ [cut w] := by
          rw [List.take_add_one, List.take_set_of_le (Nat.le_refl _),
            List.getElem?_set_self (by omega)]
          rfl
        rw [stored, List.append_assoc]
        rfl
      · rw [if_neg free, ih { slots with flags := slots.flags ||| truncFlag w ||| splitDrop }
          allocated room]
        have full : argvSz - slots.argc = 0 := by omega
        simp [full]

/-- `SPLIT_DROP` for a list of words of which `room` find a slot. -/
def dropFlag (room : Nat) (args : List (List UInt8)) : Nat :=
  if room < args.length then splitDrop else 0

/-- `SPLIT_TRUNC` for a list of words, kept or dropped. -/
def truncFlags (args : List (List UInt8)) : Nat :=
  if ∃ w ∈ args, maxArgLen - 1 < w.length then splitTrunc else 0

theorem truncFlags_cons (w : List UInt8) (args : List (List UInt8)) :
    truncFlags (w :: args) = truncFlag w ||| truncFlags args := by
  unfold truncFlags truncFlag
  by_cases long : maxArgLen - 1 < w.length
  · by_cases others : ∃ w ∈ args, maxArgLen - 1 < w.length
    · rw [if_pos ⟨w, by simp, long⟩, if_pos long, if_pos others]
      rfl
    · rw [if_pos ⟨w, by simp, long⟩, if_pos long, if_neg others]
      rfl
  · by_cases others : ∃ w ∈ args, maxArgLen - 1 < w.length
    · obtain ⟨u, member, longer⟩ := others
      rw [if_pos ⟨u, List.mem_cons_of_mem _ member, longer⟩, if_neg long,
        if_pos ⟨u, member, longer⟩]
      rfl
    · rw [if_neg, if_neg long, if_neg others]
      · rfl
      · rintro ⟨u, member, longer⟩
        rcases List.mem_cons.mp member with rfl | member
        · exact long longer
        · exact others ⟨u, member, longer⟩

theorem storeAll_flags (slots : Slots) (args : List (List UInt8)) :
    (slots.storeAll argvSz args).flags =
      slots.flags ||| truncFlags args ||| dropFlag (argvSz - slots.argc) args := by
  induction args generalizing slots with
  | nil => simp [Slots.storeAll, truncFlags, dropFlag]
  | cons w args ih =>
      rw [storeAll_cons, ih, truncFlags_cons]
      unfold Slots.store dropFlag
      by_cases free : slots.argc < argvSz
      · rw [if_pos free]
        have same : argvSz - (slots.argc + 1) < args.length ↔
            argvSz - slots.argc < (w :: args).length := by
          rw [List.length_cons]
          omega
        simp only [same, Nat.or_assoc]
      · rw [if_neg free]
        have full : argvSz - slots.argc < (w :: args).length := by
          rw [List.length_cons]
          omega
        rw [if_pos full]
        split
        · simp only [Nat.or_assoc, Nat.or_comm splitDrop, Nat.or_self]
        · simp only [Nat.or_assoc, Nat.or_comm splitDrop, Nat.or_zero]

end Stored

/-! ### Stored arguments stay as they are -/

/-- Two lexers agree on the vector and on how much of it is in use. -/
def SameSlots (l l' : Lexer) : Prop := l'.argc = l.argc ∧ l'.argv = l.argv

theorem saveByte_sameSlots (b : UInt8) (l : Lexer) : SameSlots l (l.saveByte b) := by
  unfold Lexer.saveByte
  split <;> exact ⟨rfl, rfl⟩

theorem saveWhile_sameSlots (p : UInt8 → Bool) (bytes : List UInt8) (l : Lexer) :
    SameSlots l (l.saveWhile p bytes) := by
  induction bytes generalizing l with
  | nil => exact ⟨rfl, rfl⟩
  | cons b rest ih =>
      unfold Lexer.saveWhile
      split
      · have first := saveByte_sameSlots b l
        have later := ih (l.saveByte b)
        exact ⟨later.1.trans first.1, later.2.trans first.2⟩
      · exact ⟨rfl, rfl⟩

theorem delimStep_sameSlots {l l' : Lexer} (step : delimStep l = .next l') : SameSlots l l' := by
  unfold delimStep afterDelims at step
  generalize skipEq : ({ l with c := l.c.dropWhile isDelim } : Lexer) = skip at step
  have start : SameSlots l skip := by
    rw [← skipEq]
    exact ⟨rfl, rfl⟩
  dsimp only at step
  split at step
  · cases step
    exact start
  split at step
  · cases step
    exact start
  split at step
  · split at step
    · cases step
      exact start
    split at step
    · cases step
      exact start
    · cases step
      have saved := saveByte_sameSlots skip.advance.cur skip.advance
      exact ⟨saved.1.trans start.1, saved.2.trans start.2⟩
  · cases step
    have saved := saveByte_sameSlots skip.cur skip
    exact ⟨saved.1.trans start.1, saved.2.trans start.2⟩

theorem quoteStep_sameSlots {l l' : Lexer} (step : quoteStep l = .next l') : SameSlots l l' := by
  unfold quoteStep afterQuoted at step
  generalize skipEq : l.saveWhile (quotePlain l.qc) l.c = skip at step
  have start : SameSlots l skip := by
    rw [← skipEq]
    exact saveWhile_sameSlots _ _ l
  dsimp only at step
  split at step
  · cases step
    exact start
  split at step
  · split at step
    · split at step
      · cases step
        exact start
      split at step
      · cases step
        exact start
      split at step
      · cases step
        have first := saveByte_sameSlots skip.cur skip
        have second := saveByte_sameSlots skip.save.advance.cur skip.save.advance
        exact ⟨second.1.trans (first.1.trans start.1), second.2.trans (first.2.trans start.2)⟩
      · cases step
        have saved := saveByte_sameSlots skip.advance.cur skip.advance
        exact ⟨saved.1.trans start.1, saved.2.trans start.2⟩
    · cases step
  · split at step
    · cases step
      exact start
    · cases step

/-- The arguments in the first `n` slots of `argv` are those of `argv'`. -/
def KeepsStored (n : Nat) (argv argv' : List (List UInt8)) : Prop :=
  argv'.length = argv.length ∧ ∀ k, k < n → argv'[k]? = argv[k]?

theorem push_keepsStored {strdupOk : Nat → Bool} {argvSz : Nat} {l l' : Lexer}
    (pushed : l.push strdupOk argvSz = some l') :
    l.argc ≤ l'.argc ∧ KeepsStored l.argc l.argv l'.argv := by
  unfold Lexer.push at pushed
  split at pushed
  · split at pushed
    · cases pushed
      refine ⟨Nat.le_succ _, by simp, ?_⟩
      intro k stored
      exact List.getElem?_set_ne (by omega)
    · cases pushed
  · cases pushed
    exact ⟨Nat.le_refl _, rfl, fun _ _ => rfl⟩

theorem argStep_keepsStored {strdupOk : Nat → Bool} {argvSz : Nat} {l l' : Lexer}
    (step : argStep strdupOk argvSz l = .next l') :
    l.argc ≤ l'.argc ∧ KeepsStored l.argc l.argv l'.argv := by
  have same : ∀ {m : Lexer}, SameSlots l m →
      l.argc ≤ m.argc ∧ KeepsStored l.argc l.argv m.argv := by
    intro m agree
    rw [agree.1, agree.2]
    exact ⟨Nat.le_refl _, rfl, fun _ _ => rfl⟩
  unfold argStep at step
  dsimp only at step
  split at step
  · cases step
    exact same ⟨rfl, rfl⟩
  split at step
  · split at step
    · cases step
    · next pushed =>
        cases step
        have kept := push_keepsStored pushed
        exact kept
  split at step
  · split at step
    · cases step
      exact same ⟨rfl, rfl⟩
    split at step
    · cases step
      exact same ⟨rfl, rfl⟩
    · cases step
      exact same (saveByte_sameSlots l.advance.cur l.advance)
  · cases step
    exact same (saveByte_sameSlots l.cur l)

theorem splitStep_keepsStored {strdupOk : Nat → Bool} {argvSz : Nat} {l l' : Lexer}
    (step : splitStep strdupOk argvSz l = .next l') :
    l.argc ≤ l'.argc ∧ KeepsStored l.argc l.argv l'.argv := by
  have same : SameSlots l l' → l.argc ≤ l'.argc ∧ KeepsStored l.argc l.argv l'.argv := by
    intro agree
    rw [agree.1, agree.2]
    exact ⟨Nat.le_refl _, rfl, fun _ _ => rfl⟩
  unfold splitStep at step
  split at step
  · exact same (delimStep_sameSlots step)
  · exact same (quoteStep_sameSlots step)
  · exact argStep_keepsStored step
  · cases step

/-- However a call ends, the arguments stored before it are still there. -/
theorem splitLoop_keepsStored {strdupOk : Nat → Bool} {argvSz : Nat} {l : Lexer} {r : Int}
    {argc : Nat} {argv : List (List UInt8)}
    (run : splitLoop strdupOk argvSz l = .returned r argc argv) :
    l.argc ≤ argc ∧ KeepsStored l.argc l.argv argv := by
  induction variant : measure l using Nat.strongRecOn generalizing l with
  | ind n ih =>
      by_cases ended : l.state = .fin
      · rw [splitLoop_fin strdupOk argvSz ended] at run
        cases run
        exact ⟨Nat.le_refl _, rfl, fun _ _ => rfl⟩
      · rw [splitLoop_running strdupOk argvSz ended] at run
        cases step : splitStep strdupOk argvSz l with
        | next l' =>
            rw [step] at run
            have smaller := splitStep_measure step
            obtain ⟨firstLe, firstLength, firstKeeps⟩ := splitStep_keepsStored step
            obtain ⟨laterLe, laterLength, laterKeeps⟩ := ih _ (variant ▸ smaller) run rfl
            refine ⟨Nat.le_trans firstLe laterLe, laterLength.trans firstLength, ?_⟩
            intro k stored
            exact (laterKeeps k (by omega)).trans (firstKeeps k stored)
        | outOfMem =>
            rw [step] at run
            cases run
        | assertFailed =>
            rw [step] at run
            cases run

/-! ### The grammar and the lexer -/

/-- What a call does with a string that denotes arguments. -/
theorem splitQuoted_run (strdupOk : Nat → Bool) (argvSz : Nat) {s : List UInt8}
    {args : List (List UInt8)} (noNul : eos ∉ s) (wellFormed : Arguments s args) (argc : Nat)
    (argv : List (List UInt8)) :
    splitQuoted strdupOk s argc argv argvSz =
      Slots.andThen (Slots.returned false)
        (Slots.tryStoreAll strdupOk argvSz ⟨0, argv, argc⟩ args) := by
  unfold splitQuoted
  rw [start_eq_holding]
  exact arguments_run strdupOk argvSz sq ⟨0, argv, argc⟩ wellFormed noNul

/-- The same where all copies can be allocated. -/
theorem splitQuoted_arguments {strdupOk : Nat → Bool} {argvSz : Nat} {s : List UInt8}
    {args : List (List UInt8)} (noNul : eos ∉ s) (wellFormed : Arguments s args) (argc : Nat)
    (argv : List (List UInt8))
    (copies : ∀ k, argc ≤ k → k < argvSz → strdupOk k = true) :
    splitQuoted strdupOk s argc argv argvSz =
      .returned (Slots.storeAll argvSz ⟨0, argv, argc⟩ args).flags
        (Slots.storeAll argvSz ⟨0, argv, argc⟩ args).argc
        (Slots.storeAll argvSz ⟨0, argv, argc⟩ args).argv := by
  rw [splitQuoted_run strdupOk argvSz noNul wellFormed,
    tryStoreAll_always strdupOk argvSz args copies]
  rfl

/-- A call on a malformed string stores some words, as far as they can be copied, and fails. -/
theorem splitQuoted_malformed (strdupOk : Nat → Bool) (argvSz : Nat) {s : List UInt8}
    (noNul : eos ∉ s) (malformed : Malformed s) :
    ∃ stored, ∀ argc argv, splitQuoted strdupOk s argc argv argvSz =
      Slots.andThen (Slots.returned true)
        (Slots.tryStoreAll strdupOk argvSz ⟨0, argv, argc⟩ stored) := by
  obtain ⟨before, args, tail, wellFormed, opened, rfl⟩ := malformed
  obtain ⟨stored, run⟩ := malformed_run strdupOk argvSz wellFormed opened noNul
  refine ⟨stored, fun argc argv => ?_⟩
  unfold splitQuoted
  rw [start_eq_holding]
  exact run sq ⟨0, argv, argc⟩

/-- A string for which a call does not fail denotes arguments. -/
theorem arguments_of_returned {strdupOk : Nat → Bool} {s : List UInt8} {argc argvSz : Nat}
    {argv : List (List UInt8)} {r : Int} {argc' : Nat} {argv' : List (List UInt8)}
    (noNul : eos ∉ s) (ran : splitQuoted strdupOk s argc argv argvSz = .returned r argc' argv')
    (fine : ¬ r < 0) : ∃ args, Arguments s args := by
  rcases arguments_or_malformed s with wellFormed | malformed
  · exact wellFormed
  · obtain ⟨stored, fails⟩ := splitQuoted_malformed strdupOk argvSz noNul malformed
    rw [fails] at ran
    cases outcome : Slots.tryStoreAll strdupOk argvSz ⟨0, argv, argc⟩ stored with
    | error slots =>
        rw [outcome] at ran
        cases ran
    | ok slots =>
        rw [outcome] at ran
        injection ran with negative
        rw [← negative, if_pos rfl] at fine
        exact absurd (by decide) fine

/-- A call that returns stored every word. -/
theorem stored_of_returned {strdupOk : Nat → Bool} {s : List UInt8} {argc argvSz : Nat}
    {argv : List (List UInt8)} {r : Int} {argc' : Nat} {argv' args : List (List UInt8)}
    (noNul : eos ∉ s) (wellFormed : Arguments s args)
    (ran : splitQuoted strdupOk s argc argv argvSz = .returned r argc' argv') :
    ∃ flags : Nat, r = flags ∧
      Slots.tryStoreAll strdupOk argvSz ⟨0, argv, argc⟩ args = .ok ⟨flags, argv', argc'⟩ := by
  rw [splitQuoted_run strdupOk argvSz noNul wellFormed] at ran
  cases outcome : Slots.tryStoreAll strdupOk argvSz ⟨0, argv, argc⟩ args with
  | error slots =>
      rw [outcome] at ran
      cases ran
  | ok slots =>
      rw [outcome] at ran
      injection ran with value sameArgc sameArgv
      exact ⟨slots.flags, value.symm, by rw [← sameArgc, ← sameArgv]⟩

/-- A string denotes at most one list of arguments, and none when it is malformed. This is read off
the lexer, which gives each string one result. -/
theorem Arguments.not_malformed {s : List UInt8} {args : List (List UInt8)} (noNul : eos ∉ s)
    (wellFormed : Arguments s args) : ¬ Malformed s := by
  intro malformed
  have copies : ∀ k, 0 ≤ k → k < 0 → (fun _ : Nat => true) k = true := fun _ _ _ => rfl
  have returns := splitQuoted_arguments noNul wellFormed 0 [] copies
  obtain ⟨stored, fails⟩ := splitQuoted_malformed (fun _ => true) 0 noNul malformed
  rw [fails, tryStoreAll_always _ _ _ copies] at returns
  injection returns with impossible
  exact absurd impossible (by simp)

/-- `split_quoted` against the grammar of `split.h`. It always returns. It returns `-1` exactly on
the strings that are left open, and otherwise hands over the arguments that the string denotes, each
cut to the buffer, as far as there are slots, with the two warning flags set exactly where an argument
was dropped or was too long. Slots in use before the call are not touched in either case. -/
theorem split_quoted_meets_grammar {strdupOk : Nat → Bool}
    (strdupNeverFails : ∀ k, strdupOk k = true) (s : List UInt8) (noNul : eos ∉ s)
    (argv : List (List UInt8)) (argc argvSz : Nat) (room : argc ≤ argvSz)
    (allocated : argvSz ≤ argv.length) :
    ∃ r argc' argv', splitQuoted strdupOk s argc argv argvSz = .returned r argc' argv' ∧
      (r = -1 ↔ Malformed s) ∧
      ((∃ args, Arguments s args) ∨ Malformed s) ∧
      KeepsStored argc argv argv' ∧
      ∀ args, Arguments s args →
        argc' = argc + min args.length (argvSz - argc) ∧
        argv'.take argc' =
          argv.take argc ++
            (args.take (argvSz - argc)).map (fun w => w.take (maxArgLen - 1)) ∧
        r = ((if ∃ w ∈ args, maxArgLen - 1 < w.length then splitTrunc else 0) |||
          (if argvSz - argc < args.length then splitDrop else 0) : Nat) := by
  have kept : ∀ {r : Int} {argc' : Nat} {argv' : List (List UInt8)},
      splitQuoted strdupOk s argc argv argvSz = .returned r argc' argv' →
        KeepsStored argc argv argv' := fun run => (splitLoop_keepsStored run).2
  rcases arguments_or_malformed s with ⟨args, wellFormed⟩ | malformed
  · -- the flags are a natural number, so a well-formed string does not return `-1`
    have run : ∀ args, Arguments s args → splitQuoted strdupOk s argc argv argvSz =
        .returned (Slots.storeAll argvSz ⟨0, argv, argc⟩ args).flags
          (Slots.storeAll argvSz ⟨0, argv, argc⟩ args).argc
          (Slots.storeAll argvSz ⟨0, argv, argc⟩ args).argv := by
      intro args wellFormed
      exact splitQuoted_arguments noNul wellFormed argc argv fun k _ _ => strdupNeverFails k
    refine ⟨_, _, _, run args wellFormed, ?_, Or.inl ⟨args, wellFormed⟩,
      kept (run args wellFormed), ?_⟩
    · constructor
      · intro negative
        have nonneg := Int.natCast_nonneg (Slots.storeAll argvSz ⟨0, argv, argc⟩ args).flags
        omega
      · intro malformed
        exact absurd malformed (wellFormed.not_malformed noNul)
    · intro others wellFormed'
      have same := (run args wellFormed).symm.trans (run others wellFormed')
      injection same with sameFlags sameArgc sameArgv
      rw [sameFlags, sameArgc, sameArgv]
      refine ⟨storeAll_argc _ _, storeAll_argv _ _ allocated room, ?_⟩
      rw [storeAll_flags]
      simp [truncFlags, dropFlag]
  · obtain ⟨stored, outcome⟩ := splitQuoted_malformed strdupOk argvSz noNul malformed
    have run := outcome argc argv
    rw [tryStoreAll_always _ _ _ fun k _ _ => strdupNeverFails k] at run
    refine ⟨-1, _, _, run, ?_, Or.inr malformed, kept run, ?_⟩
    · exact ⟨fun _ => malformed, fun _ => rfl⟩
    · intro others wellFormed'
      exact absurd malformed (wellFormed'.not_malformed noNul)

/-- The word `a"b c"` before a dropped `d`, into a vector with one free slot. -/
theorem split_quoted_meets_grammar_one_slot :
    ∃ r argc' argv', splitQuoted (fun _ => true) [0x61, dq, 0x62, 0x20, 0x63, dq, 0x20, 0x64] 0
        [[]] 1 = .returned r argc' argv' ∧
      (r = -1 ↔ Malformed [0x61, dq, 0x62, 0x20, 0x63, dq, 0x20, 0x64]) ∧
      KeepsStored 0 [[]] argv' := by
  obtain ⟨r, argc', argv', run, negative, _, kept, _⟩ :=
    split_quoted_meets_grammar (fun _ => rfl : ∀ k, (fun _ : Nat => true) k = true)
      [0x61, dq, 0x62, 0x20, 0x63, dq, 0x20, 0x64] (by decide) [[]] 0 1 (by decide) (by decide)
  exact ⟨r, argc', argv', run, negative, kept⟩

end Ppcom.Split
