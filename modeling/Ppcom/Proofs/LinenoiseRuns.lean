/-
Module: Ppcom.Proofs.LinenoiseRuns
Purpose: Whole runs of the line editor: whatever is typed, `linenoiseEdit` ends, stays within memory, and
  returns the line that the reference editor ends with, and leaves its entries in the history.
Trusted boundary: none
Main exports: AllTyped, Source.Behind, completeLoop_eq, Mirrors.turn, Mirrors.run, linenoise_refines
-/
import Ppcom.Proofs.LinenoiseKeys
import Ppcom.Proofs.Readline

namespace Ppcom

/-! ### Reading -/

/-- The bytes that there are to read have the property `q`. -/
def AllTyped (q : UInt8 → Prop) (src : Source) : Prop :=
  ∀ first rest, ReadReply.data first rest ∈ src → ∀ c ∈ first :: rest, q c

/-- What is left of a source after reads of one byte. -/
inductive Source.Behind (src : Source) : Source → Prop where
  | here : Behind src src
  | read {later : Source} (before : Behind src later) : Behind src (Source.read 1 later).2

section

variable {q : UInt8 → Prop} {src src' : Source}

theorem AllTyped.read (typed : AllTyped q src) :
    AllTyped q (Source.read 1 src).2 ∧ ∀ c rest, (Source.read 1 src).1 = .data c rest → q c := by
  cases src with
  | nil => exact ⟨typed, nofun⟩
  | cons reply later =>
      have behind : AllTyped q later := fun first rest inside =>
        typed first rest (List.mem_cons_of_mem _ inside)
      cases reply with
      | data first rest =>
          have here := typed first rest List.mem_cons_self
          constructor
          · cases rest with
            | nil => exact behind
            | cons next more =>
                intro first' rest' inside
                rcases List.mem_cons.mp inside with same | below
                · cases same
                  exact fun c member => here c (List.mem_cons_of_mem _ member)
                · exact behind first' rest' below
          · intro c rest' is
            cases is
            exact here _ List.mem_cons_self
      | zero | again | failed => exact ⟨behind, nofun⟩

theorem Source.size_read (src : Source) : (Source.read 1 src).2.size ≤ src.size := by
  rcases src.read_one with ⟨c, later, read, _, shorter⟩ | ⟨_, nothing⟩
  · rw [read]
    exact shorter.le
  · cases src with
    | nil => exact Nat.le_refl _
    | cons reply later =>
        cases reply with
        | data first rest => exact absurd rfl (nothing first _)
        | zero | again | failed => exact Nat.le_add_left _ _

namespace Source.Behind

theorem size_le (behind : Behind src src') : src'.size ≤ src.size := by
  induction behind with
  | here => exact Nat.le_refl _
  | read before ih => exact (Source.size_read _).trans ih

theorem typed (behind : Behind src src') (typed : AllTyped q src) : AllTyped q src' := by
  induction behind with
  | here => exact typed
  | read before ih => exact ih.read.1

theorem trans {src'' : Source} (first : Behind src src') (second : Behind src' src'') :
    Behind src src'' := by
  induction second with
  | here => exact first
  | read before ih => exact ih.read

end Source.Behind

theorem readSeq_snd (old : UInt8) (src : Source) : (readSeq old src).2 = (Source.read 1 src).2 := by
  unfold readSeq
  split
  · next read => rw [read]
  · next read => rw [read]
  · next read => rw [read]

theorem readEscape_behind (seq : Nat → UInt8) (src : Source) : src.Behind (readEscape seq src).2 := by
  have step : ∀ {later} (old : UInt8), src.Behind later → src.Behind (readSeq old later).2 := by
    intro later old before
    rw [readSeq_snd]
    exact before.read
  have one := step (seq 0) .here
  unfold readEscape
  generalize readSeq (seq 0) src = first at one ⊢
  obtain ⟨seq0, src1⟩ := first
  cases seq0 with
  | none => exact one
  | some seq0 =>
      have two := step (seq 1) one
      simp only
      generalize readSeq (seq 1) src1 = second at two ⊢
      obtain ⟨seq1, src2⟩ := second
      cases seq1 with
      | none => exact two
      | some seq1 =>
          have three := step (seq 2) two
          simp only
          split
          · split
            · generalize readSeq (seq 2) src2 = third at three ⊢
              obtain ⟨seq2, src3⟩ := third
              cases seq2 with
              | none => exact three
              | some seq2 => exact three
            · exact two
          · split
            · exact two
            · exact two

theorem readEscape_ne_insert (seq : Nat → UInt8) (src : Source) (c : UInt8) :
    (readEscape seq src).1 ≠ .insert c := by
  unfold readEscape bracketKey
  repeat' split
  all_goals exact nofun

theorem switchByte_eq (seq : Nat → UInt8) (l : Linenoise) (c : UInt8) (src : Source) :
    switchByte seq l c src =
      (l.press (LineEditor.readKey seq c src).1).map (Pressed.turn (LineEditor.readKey seq c src).2) := by
  unfold switchByte LineEditor.readKey
  by_cases escape : keyAction c = .esc
  · rw [if_pos escape, escape]
  · rw [if_neg escape]
    split
    · next is => exact absurd is escape
    · rfl

theorem readKey_behind (seq : Nat → UInt8) (c : UInt8) (src : Source) :
    src.Behind (LineEditor.readKey seq c src).2 := by
  unfold LineEditor.readKey
  split
  · exact readEscape_behind seq src
  · exact .here

theorem readKey_insert {seq : Nat → UInt8} {c d : UInt8} {src : Source}
    (is : (LineEditor.readKey seq c src).1 = .insert d) : keyAction c = .insert d := by
  unfold LineEditor.readKey at is
  split at is
  · exact absurd is (readEscape_ne_insert seq src d)
  · exact is

end

/-! ### Choosing a completion -/

section

variable {q : UInt8 → Prop} {src src' : Source} {n tabs : Nat} {key : Option UInt8}

theorem readChoice_spec (read : LineEditor.readChoice n src = some (tabs, key, src')) :
    src.Behind src' ∧ ∀ c, key = some c → c ≠ 9 ∧ (AllTyped q src → q c) ∧ src'.size < src.size := by
  induction n generalizing src tabs with
  | zero => cases read
  | succ n ih =>
      have behind : src.Behind (Source.read 1 src).2 := Source.Behind.here.read
      have known := fun typed : AllTyped q src => typed.read
      have shorter := src.read_one
      rw [LineEditor.readChoice] at read
      generalize Source.read 1 src = first at read behind known shorter
      obtain ⟨reply, later⟩ := first
      cases reply with
      | data c rest =>
          have less : later.size < src.size := by
            rcases shorter with ⟨c', later', same, _, less⟩ | ⟨_, nothing⟩
            · cases same
              exact less
            · exact absurd rfl (nothing c rest)
          simp only at read
          split at read
          · next tab =>
            obtain ⟨⟨tabs', key', src''⟩, deeper, is⟩ := Option.map_eq_some_iff.mp read
            cases is
            obtain ⟨rest', found⟩ := ih deeper
            constructor
            · exact behind.trans rest'
            · intro c is
              obtain ⟨noTab, typed, less'⟩ := found c is
              exact ⟨noTab, fun all => typed (known all).1, less'.trans less⟩
          · next noTab =>
            cases read
            constructor
            · exact behind
            · intro c' is
              cases is
              exact ⟨noTab, fun all => (known all).2 c rest rfl, less⟩
      | zero | again | failed =>
          cases read
          exact ⟨behind, nofun⟩

theorem readChoice_some {n : Nat} (src : Source) (enough : src.size < n) :
    ∃ choice, LineEditor.readChoice n src = some choice := by
  induction n generalizing src with
  | zero => exact absurd enough (Nat.not_lt_zero _)
  | succ n ih =>
      rw [LineEditor.readChoice]
      rcases src.read_one with ⟨c, later, read, _, shorter⟩ | ⟨_, nothing⟩
      · rw [read]
        simp only
        split
        · obtain ⟨choice, is⟩ := ih later (by omega)
          rw [is]
          exact ⟨_, rfl⟩
        · exact ⟨_, rfl⟩
      · generalize Source.read 1 src = first at nothing
        obtain ⟨reply, later⟩ := first
        cases reply with
        | data c rest => exact absurd rfl (nothing c rest)
        | zero | again | failed => exact ⟨_, rfl⟩

end

/-! ### Completions -/

/-- Completions that there is room for in the buffer, and whose bytes have the property `p`. -/
structure Fitting (p : UInt8 → Prop) (limit : Nat) (cvec : List (List UInt8)) : Prop where
  strings : Strings p cvec
  short : ∀ s ∈ cvec, s.length < limit

/-- What is shown for a completion, or else for the line. -/
def shownFor (z : CursorLine UInt8) (choice : Option (List UInt8)) : CursorLine UInt8 :=
  choice.elim z .ending

/-- The line after a choice that a byte ended. -/
def lineAfter (z : CursorLine UInt8) (key : Option UInt8) (choice : Option (List UInt8)) :
    CursorLine UInt8 :=
  if key = none ∨ key = some 27 then z else shownFor z choice

section

variable {p : UInt8 → Prop} {z : CursorLine UInt8} {l : Linenoise} {cvec : List (List UInt8)}
  {s : List UInt8} {src src' : Source} {n i tabs : Nat} {key : Option UInt8}

theorem plain_shownFor (plain : ∀ c ∈ z.text, p c) {choice : Option (List UInt8)}
    (strings : ∀ s, choice = some s → ∀ c ∈ s, p c) : ∀ c ∈ (shownFor z choice).text, p c := by
  cases choice with
  | none => exact plain
  | some s =>
      rw [shownFor, Option.elim_some, CursorLine.ending, CursorLine.text, List.append_nil]
      exact strings s rfl

theorem HoldsLine.written (holds : HoldsLine z l) (bytes : List UInt8) :
    HoldsLine z (l.write bytes) :=
  holds.elsewhere _ _ _ _

theorem showCompletion_eq (holds : HoldsLine z l) (short : s.length < l.buflen) :
    showCompletion l s = some (l.write (rowBytes l.prompt l.cols (.ending s))) := by
  have small := holds.small
  have shown := refreshSingleLine_held (z := .ending s)
    (l := { l with buf := s ++ [0], len := s.length, pos := s.length })
    (show s ++ [0] = s ++ [] ++ 0 :: [] by simp) rfl rfl holds.wide (by simp only; omega)
  rw [showCompletion, shown]
  rfl

theorem acceptCompletion_eq (holds : HoldsLine z l) (short : s.length < l.buflen) :
    ∃ l', acceptCompletion l s = some l' ∧ HoldsLine (.ending s) l' ∧ l'.frame = l.frame ∧
      l'.out = l.out := by
  have size := holds.size
  have bytes : snprintfBytes s l.buflen = s ++ [0] := by
    rw [snprintfBytes, if_neg (by omega), List.take_of_length_le (by omega)]
  have stored : Block.write l.buf 0 (s ++ [0]) = some (s ++ [0] ++ l.buf.drop (s.length + 1)) := by
    apply Block.write_between [] (l.buf.take (s.length + 1))
    · exact (List.take_append_drop _ _).symm
    · rfl
    · rw [List.length_append, List.length_singleton, List.length_take]
      omega
  rw [acceptCompletion, bytes, stored]
  refine ⟨_, rfl, ?_, rfl, rfl⟩
  constructor
  · exact ⟨l.buf.drop (s.length + 1), by simp [CursorLine.ending]⟩
  · rw [← size]
    simp only [List.length_append, List.length_singleton, List.length_drop]
    omega
  · rfl
  · rfl
  · exact holds.plen
  · exact holds.wide
  · exact holds.small

/-- The completion or the line that the loop has come to is shown. -/
theorem shown_eq (holds : HoldsLine z l) (fit : Fitting p l.buflen cvec) (i : Nat) :
    showChoice cvec i l = some (l.write (rowBytes l.prompt l.cols (shownFor z cvec[i]?))) := by
  unfold showChoice
  cases choice : cvec[i]? with
  | none => exact holds.refresh
  | some s => exact showCompletion_eq holds (fit.short s (List.mem_of_getElem? choice))

/-- The loop ends with the byte that ends the choice, and with the completion in the buffer that was shown
then, if any. -/
theorem completeLoop_eq (read : LineEditor.readChoice n src = some (tabs, key, src'))
    (holds : HoldsLine z l) (drawn : ∃ z', Drawn p l.prompt l.cols z' l.out) (plain : ∀ c ∈ z.text, p c)
    (fit : Fitting p l.buflen cvec) (inside : i ≤ cvec.length) :
    ∃ l', completeLoop cvec n i l src = some (key.elim (-1) charValue, l', src') ∧ l'.frame = l.frame ∧
      HoldsLine (lineAfter z key cvec[(i + tabs) % (cvec.length + 1)]?) l' ∧
      (key ≠ none →
        Drawn p l.prompt l.cols (lineAfter z key cvec[(i + tabs) % (cvec.length + 1)]?) l'.out) := by
  induction n generalizing i l src tabs with
  | zero => cases read
  | succ n ih =>
      obtain ⟨z', drawn⟩ := drawn
      have shownPlain : ∀ c ∈ (shownFor z cvec[i]?).text, p c :=
        plain_shownFor plain fun s is => (fit.strings s (List.mem_of_getElem? is)).2
      have shown := drawn.row shownPlain
      have holds' := holds.written (rowBytes l.prompt l.cols (shownFor z cvec[i]?))
      rw [completeLoop, shown_eq holds fit, Option.bind_some]
      rw [LineEditor.readChoice] at read
      generalize Source.read 1 src = first at read ⊢
      obtain ⟨reply, later⟩ := first
      cases reply with
      | data c rest =>
          simp only at read ⊢
          by_cases tab : c = 9
          · rw [if_pos tab] at read ⊢
            obtain ⟨⟨tabs', key', src''⟩, deeper, is⟩ := Option.map_eq_some_iff.mp read
            cases is
            have turned : (i + 1) % (cvec.length + 1) ≤ cvec.length :=
              Nat.le_of_lt_succ (Nat.mod_lt _ (Nat.succ_pos _))
            have index : ((i + 1) % (cvec.length + 1) + tabs') % (cvec.length + 1) =
                (i + (tabs' + 1)) % (cvec.length + 1) := by
              rw [Nat.mod_add_mod]
              congr 1
              omega
            rw [← index]
            split
            · exact ih deeper (l := (l.write _).beep) ⟨holds'.held, holds'.size, holds'.pos, holds'.len,
                holds'.plen, holds'.wide, holds'.small⟩ ⟨_, shown⟩ fit turned
            · exact ih deeper holds' ⟨_, shown⟩ fit turned
          · rw [if_neg tab] at read ⊢
            cases read
            have here : (i + 0) % (cvec.length + 1) = i := Nat.mod_eq_of_lt (by omega)
            rw [here]
            by_cases escape : c = 27
            · subst escape
              have stays : lineAfter z (some 27) cvec[i]? = z := if_pos (.inr rfl)
              rw [if_pos rfl, stays]
              split
              · rw [holds'.refresh]
                exact ⟨_, rfl, rfl, holds'.written _, fun _ => shown.row plain⟩
              · next atLine =>
                have behind : cvec[i]? = none := List.getElem?_eq_none (Nat.le_of_not_lt atLine)
                rw [behind] at shown ⊢
                exact ⟨_, rfl, rfl, holds.written _, fun _ => shown⟩
            · rw [if_neg escape, lineAfter, if_neg (by simp [escape]), acceptChoice]
              cases choice : cvec[i]? with
              | none =>
                  rw [choice] at shown
                  exact ⟨_, rfl, rfl, holds.written _, fun _ => shown⟩
              | some s =>
                  rw [choice] at shown holds'
                  obtain ⟨l', is, after, frame, out⟩ :=
                    acceptCompletion_eq holds' (fit.short s (List.mem_of_getElem? choice))
                  exact ⟨l', by simp only [is]; rfl, frame, after, fun _ => by rw [out]; exact shown⟩
      | zero | again | failed =>
          cases read
          exact ⟨_, rfl, rfl, holds', nofun⟩

end

/-! ### Turns -/

/-- A byte that is no tab for completions, or else one that is inserted only if it has the property `p`. -/
def Typable (p : UInt8 → Prop) (completions : Bool) (c : UInt8) : Prop :=
  (completions = true ∧ c = 9) ∨ ∀ d, keyAction c = .insert d → p d

/-- The completions of every text are such that there is room for them. -/
def CompletionsFit (p : UInt8 → Prop) (limit : Nat)
    (complete : Option (List UInt8 → List (List UInt8))) : Prop :=
  ∀ completions, complete = some completions → ∀ text, Fitting p limit (completions text)

theorem ofInt_charValue : ∀ c : UInt8, UInt8.ofInt (charValue c) = c :=
  forall_byte (by decide +kernel)

section

variable {p : UInt8 → Prop} {k : EditSetting} {d : LineEditor} {l : Linenoise} {src : Source}
  {complete : Option (List UInt8 → List (List UInt8))}

/-- A turn and the reference editor's one lead to the same, and less is left to read for the next. -/
structure TurnMeets (p : UInt8 → Prop) (k : EditSetting) (src : Source)
    (spec : Option (EditorStep × Source)) (turn : Option EditTurn) : Prop where
  meets : ∃ step src' t, spec = some (step, src') ∧ turn = some t ∧ Meets p k src' step t ∧
    src.Behind src' ∧ ((∀ d, step ≠ .givenUp d) → src'.size < src.size)

theorem Mirrors.byte (mirrors : Mirrors p k d l) (positive : 0 < k.limit) {c : UInt8}
    (typable : ∀ e, keyAction c = .insert e → p e) (seq : Nat → UInt8) (src : Source) :
    ∃ t, switchByte seq l c src = some t ∧
      Meets p k (d.byte k.limit seq c src).2 (d.byte k.limit seq c src).1 t := by
  obtain ⟨r, is, meets⟩ := mirrors.press positive (LineEditor.readKey seq c src).1
    (fun e is => typable e (readKey_insert is)) (LineEditor.readKey seq c src).2
  exact ⟨r.turn _, by rw [switchByte_eq, is]; rfl, meets⟩

/-- What a byte leads to, where it was read from `src`. -/
theorem Mirrors.byteTurn (mirrors : Mirrors p k d l) (positive : 0 < k.limit) {c : UInt8}
    (typable : ∀ e, keyAction c = .insert e → p e) (seq : Nat → UInt8) {later : Source}
    (behind : src.Behind later) (less : later.size < src.size) :
    TurnMeets p k src (some (d.byte k.limit seq c later)) (switchByte seq l c later) := by
  obtain ⟨t, is, meets⟩ := mirrors.byte positive typable seq later
  have further := readKey_behind seq c later
  exact ⟨_, _, t, rfl, is, meets, behind.trans further,
    fun _ => further.size_le.trans_lt less⟩

theorem Reflects.same {l' : Linenoise} (reflects : Reflects p k d l) (holds : HoldsLine d.line l')
    (frame : l'.frame = l.frame) : Reflects p k d l' := by
  have setting := (setting_of_frame frame).trans reflects.setting
  simp only [Linenoise.frame, Prod.mk.injEq] at frame
  obtain ⟨-, -, -, -, history⟩ := frame
  exact ⟨holds, reflects.plain, setting, by rw [history]; exact reflects.entries, reflects.strings⟩

/-- A tab, for which there are completions or not. -/
theorem Mirrors.tabTurn (mirrors : Mirrors p k d l) (positive : 0 < k.limit)
    {completions : List UInt8 → List (List UInt8)}
    (fit : Fitting p k.limit (completions (cString d.line.text))) (seq : Nat → UInt8) {later : Source}
    (behind : src.Behind later) (less : later.size < src.size)
    (typable : AllTyped (Typable p true) later) :
    TurnMeets p k src (d.tab k.limit seq (completions (cString d.line.text)) later)
      ((completeLine completions l later).bind fun (r, l, src) =>
        let c := UInt8.ofInt r
        if 0x80 ≤ c then some (.ret (toInt l.len) l src)
        else if c = 0 then some (.next l src)
        else switchByte seq l c src) := by
  obtain ⟨rest, held⟩ := mirrors.holds.held
  have text : strdup l.buf = some (cString d.line.text) := by
    rw [held]
    exact strdup_held
  unfold completeLine LineEditor.tab
  simp only [text, Option.bind_eq_bind, Option.bind_some]
  generalize completions (cString d.line.text) = cvec at fit
  cases cvec with
  | nil =>
      have rung : Mirrors p k d l.beep := {
        holds := mirrors.holds.elsewhere _ _ _ _
        plain := mirrors.plain
        setting := mirrors.setting
        entries := mirrors.entries
        strings := mirrors.strings
        drawn := mirrors.drawn
        index := mirrors.index
        inside := mirrors.inside }
      exact ⟨_, _, _, rfl, rfl, .next rung, behind, fun _ => less⟩
  | cons s others =>
      obtain ⟨⟨tabs, key, src'⟩, read⟩ := readChoice_some later (Nat.lt_succ_self _)
      obtain ⟨further, found⟩ := readChoice_spec (q := Typable p true) read
      obtain ⟨l', is, frame, holds, drawn⟩ := completeLoop_eq read mirrors.holds ⟨_, mirrors.drawn⟩
        mirrors.plain (mirrors.buflen ▸ fit) (Nat.zero_le _)
      rw [Nat.zero_add] at holds drawn
      have reaches := behind.trans further
      have less' := further.size_le.trans_lt less
      rw [if_neg (List.cons_ne_nil s others)]
      simp only [read, is, Option.map_some, Option.bind_some]
      cases key with
      | none =>
          rw [lineAfter, if_pos (.inl rfl)] at holds
          have reflects := mirrors.toReflects.same holds frame
          have failed : (0x80 : UInt8) ≤ UInt8.ofInt (Option.elim none (-1) charValue) := by decide
          rw [if_pos failed, holds.toInt_len]
          exact ⟨_, _, _, rfl, rfl, .entered reflects, reaches, fun _ => less'⟩
      | some c =>
          obtain ⟨noTab, typed, -⟩ := found c rfl
          have inserted : ∀ e, keyAction c = .insert e → p e := by
            rcases typed typable with ⟨_, tab⟩ | inserted
            · exact absurd tab noTab
            · exact inserted
          have plain : ∀ b ∈ (lineAfter d.line (some c) (LineEditor.offered (s :: others) tabs)).text,
              p b := by
            unfold lineAfter
            split
            · exact mirrors.plain
            · exact plain_shownFor mirrors.plain fun t is => (fit.strings t (List.mem_of_getElem? is)).2
          have frame' := frame
          simp only [Linenoise.frame, Prod.mk.injEq] at frame'
          obtain ⟨-, prompt, cols, -, -⟩ := frame'
          have drawn' := drawn (Option.some_ne_none c)
          rw [← prompt, ← cols] at drawn'
          have chosen : Gives p (lineAfter d.line (some c) (LineEditor.offered (s :: others) tabs)) l
              (some l') := ⟨l', rfl, ⟨holds, plain, drawn'⟩, frame⟩
          obtain ⟨_, same, after⟩ := mirrors.withLine chosen
          cases same
          rw [Option.elim_some, ofInt_charValue]
          by_cases escape : c = 27
          · subst escape
            rw [lineAfter, if_pos (.inr rfl)] at after
            have positive' : ¬ (0x80 : UInt8) ≤ 27 := by decide
            have other : ¬ (27 : UInt8) = 0 := by decide
            rw [if_neg positive', if_neg other]
            simp only [if_true]
            exact after.byteTurn positive inserted seq reaches less'
          · have taken : d.withLine (lineAfter d.line (some c) (LineEditor.offered (s :: others) tabs)) =
                d.complete (LineEditor.offered (s :: others) tabs) := by
              rw [lineAfter, if_neg (by simp [escape])]
              cases LineEditor.offered (s :: others) tabs with
              | none => rfl
              | some t => rfl
            rw [taken] at after
            simp only [if_neg escape]
            by_cases negative : 0x80 ≤ c
            · rw [if_pos negative, if_pos negative, after.holds.toInt_len]
              exact ⟨_, _, _, rfl, rfl, .entered after.toReflects, reaches, fun _ => less'⟩
            · rw [if_neg negative, if_neg negative]
              by_cases zero : c = 0
              · rw [if_pos zero, if_pos zero]
                exact ⟨_, _, _, rfl, rfl, .next after, reaches, fun _ => less'⟩
              · rw [if_neg zero, if_neg zero]
                exact after.byteTurn positive inserted seq reaches less'

/-- A turn does to the state what it does to the reference editor. -/
theorem Mirrors.turn (mirrors : Mirrors p k d l) (positive : 0 < k.limit)
    (fit : CompletionsFit p k.limit complete) (typable : AllTyped (Typable p complete.isSome) src)
    (seq : Nat → UInt8) :
    TurnMeets p k src (d.turn complete k.limit seq src) (editTurn complete seq l src) := by
  have behind : src.Behind (Source.read 1 src).2 := Source.Behind.here.read
  have shorter := src.read_one
  obtain ⟨later, typed⟩ := typable.read
  unfold LineEditor.turn editTurn
  generalize Source.read 1 src = first at behind shorter later typed
  obtain ⟨reply, rest⟩ := first
  cases reply with
  | data c more =>
      have less : rest.size < src.size := by
        rcases shorter with ⟨c', rest', same, _, less⟩ | ⟨_, nothing⟩
        · cases same
          exact less
        · exact absurd rfl (nothing c more)
      have byte := typed c more rfl
      cases complete with
      | none =>
          have inserted : ∀ e, keyAction c = .insert e → p e := byte.resolve_left (by simp)
          exact mirrors.byteTurn positive inserted seq behind less
      | some completions =>
          simp only
          by_cases tab : c = 9
          · rw [if_pos tab, if_pos tab]
            exact mirrors.tabTurn positive (fit completions rfl _) seq behind less later
          · have inserted : ∀ e, keyAction c = .insert e → p e :=
              byte.resolve_left fun is => tab is.2
            rw [if_neg tab, if_neg tab]
            exact mirrors.byteTurn positive inserted seq behind less
  | zero | again | failed =>
      exact ⟨_, _, _, rfl, rfl, .givenUp mirrors.toReflects, behind, fun goesOn => absurd rfl (goesOn d)⟩

/-! ### Runs -/

/-- The loop ends as the reference editor does. -/
theorem Mirrors.run (mirrors : Mirrors p k d l) (positive : 0 < k.limit)
    (fit : CompletionsFit p k.limit complete) (typable : AllTyped (Typable p complete.isSome) src)
    (stack : Nat → Nat → UInt8) {n : Nat} (enough : src.size < n) :
    ∃ step src' l', d.run complete k.limit stack n src = some (step, src') ∧
      editLoop complete stack n l src = some (step.value, l', src') ∧ Reflects p k step.editor l' ∧
      (∀ d', step ≠ .next d') ∧ src.Behind src' ∧
      ((∀ d', step ≠ .givenUp d') → src'.size < src.size) := by
  induction n generalizing d l src with
  | zero => exact absurd enough (Nat.not_lt_zero _)
  | succ n ih =>
      obtain ⟨step, src', t, spec, turn, meets, behind, less⟩ :=
        (mirrors.turn positive fit typable (stack n)).meets
      rw [LineEditor.run, editLoop, spec, turn]
      simp only [Option.bind_some]
      cases meets with
      | next after =>
          have shorter := less nofun
          obtain ⟨step, src'', l', spec, run, reflects, ended, further, less'⟩ :=
            ih after (behind.typed typable) (shorter.trans_le (Nat.le_of_lt_succ enough))
          exact ⟨step, src'', l', spec, run, reflects, ended, behind.trans further,
            fun goesOn => (less' goesOn).trans shorter⟩
      | entered reflects => exact ⟨_, _, _, rfl, rfl, reflects, nofun, behind, less⟩
      | givenUp reflects => exact ⟨_, _, _, rfl, rfl, reflects, nofun, behind, less⟩

end

/-! ### From the start -/

section

variable {p : UInt8 → Prop} {history : LineHistory} {block prompt : List UInt8} {cols : Nat}

theorem strings_historyAdd {line : List UInt8} (all : Strings p history.lines) (string : 0 ∉ line)
    (plain : ∀ c ∈ line, p c) : Strings p (linenoiseHistoryAdd history line).1.lines := by
  have old : ∀ other ∈ (if history.len = history.maxLen then history.lines.drop 1 else history.lines),
      other ∈ history.lines := by
    intro other inside
    split at inside
    · exact List.mem_of_mem_drop inside
    · exact inside
  unfold linenoiseHistoryAdd
  split
  · exact all
  · split
    · exact all
    · intro other inside
      rcases List.mem_append.mp inside with before | new
      · exact all other (old other before)
      · rw [List.mem_singleton.mp new]
        exact ⟨string, plain⟩

theorem historyAdd_ne_nil (kept : 0 < history.maxLen) (line : List UInt8) :
    (linenoiseHistoryAdd history line).1.lines ≠ [] := by
  unfold linenoiseHistoryAdd
  rw [if_neg (Nat.ne_of_gt kept)]
  split
  · next repeated =>
    intro empty
    rw [show history.lines = [] from empty] at repeated
    cases repeated
  · simp

theorem maxLen_historyAdd (history : LineHistory) (line : List UInt8) :
    (linenoiseHistoryAdd history line).1.maxLen = history.maxLen := by
  unfold linenoiseHistoryAdd
  split
  · rfl
  · split
    · rfl
    · rfl

/-- The reference editor with which an edit starts. -/
def LineHistory.editor (history : LineHistory) : LineEditor :=
  .start (linenoiseHistoryAdd history []).1.lines.reverse

/-- The state before the loop is that of the reference editor with nothing typed yet. -/
theorem start_mirrors (room : 2 ≤ block.length) (wide : prompt.length < cols)
    (small : prompt.length + block.length ≤ 2 ^ 31) (kept : 0 < history.maxLen)
    (strings : Strings p history.lines) :
    ∃ l, Linenoise.start history block prompt cols = some l ∧
      Mirrors p ⟨block.length - 1, history.maxLen, prompt, cols⟩ history.editor l := by
  obtain ⟨c, cells, cons⟩ := List.exists_cons_of_length_pos (l := block) (by omega)
  have cut : Block.write block 0 [0] = some ([] ++ [0] ++ cells) :=
    Block.write_between _ [c] _ (by rw [cons]; rfl) rfl rfl
  have size : block.length = cells.length + 1 := by
    rw [cons]
    rfl
  have one : sizeSub block.length 1 = block.length - 1 := sizeSub_of_le (by omega)
  have entries := historyAdd_ne_nil kept ([] : List UInt8)
  rw [Linenoise.start, cut, one]
  refine ⟨_, rfl, ?_⟩
  exact {
    holds := {
      held := ⟨cells, rfl⟩
      size := by simp only [List.nil_append, List.length_cons, List.cons_append]; omega
      pos := rfl
      len := rfl
      plen := rfl
      wide := wide
      small := by simp only; omega }
    plain := nofun
    setting := by
      rw [Linenoise.setting, maxLen_historyAdd]
    entries := (List.reverse_reverse _).symm
    strings := fun line inside =>
      strings_historyAdd strings List.not_mem_nil nofun line (List.mem_reverse.mp inside)
    drawn := .start
    index := rfl
    inside := by
      show 0 < List.length (List.reverse _)
      rw [List.length_reverse]
      exact List.length_pos_iff.mpr entries }

/-- Whatever is typed, `linenoise` ends, within memory, with what the reference editor ends with. -/
theorem linenoise_run {complete : Option (List UInt8 → List (List UInt8))} (room : 2 ≤ block.length)
    (wide : prompt.length < cols) (small : prompt.length + block.length ≤ 2 ^ 31)
    (kept : 0 < history.maxLen) (strings : Strings p history.lines)
    (fit : CompletionsFit p (block.length - 1) complete) {src : Source}
    (typable : AllTyped (Typable p complete.isSome) src) (stack : Nat → Nat → UInt8) :
    ∃ step src' l,
      history.editor.run complete (block.length - 1) stack (src.size + 1) src = some (step, src') ∧
      linenoise complete stack history block prompt cols src = some (step.line, l, src') ∧
      Reflects p ⟨block.length - 1, history.maxLen, prompt, cols⟩ step.editor l ∧
      (∀ d, step ≠ .next d) ∧ src.Behind src' ∧ ((∀ d, step ≠ .givenUp d) → src'.size < src.size) := by
  obtain ⟨l0, start, mirrors⟩ := start_mirrors room wide small kept strings
  obtain ⟨step, src', l, spec, run, reflects, ended, consumed⟩ :=
    mirrors.run (Nat.sub_pos_of_lt room) fit typable stack (Nat.lt_succ_self src.size)
  refine ⟨step, src', l, spec, ?_, reflects, ended, consumed⟩
  rw [linenoise, linenoiseEdit, start, Option.bind_some, run, Option.bind_some]
  cases step with
  | next d => exact absurd rfl (ended d)
  | entered d =>
      have line : EditorStep.value (.entered d) ≠ -1 := by
        show (d.line.text.length : Int) ≠ -1
        omega
      obtain ⟨rest, held⟩ := reflects.holds.held
      have text : strdup l.buf = some (cString d.line.text) := by
        rw [held]
        exact strdup_held
      simp only [if_neg line, text]
      rfl
  | givenUp d => rfl

end

/-! ### Any bytes -/

section

variable {complete : Option (List UInt8 → List (List UInt8))}

theorem strings_true {lines : List (List UInt8)} (strings : ∀ line ∈ lines, 0 ∉ line) :
    Strings (fun _ => True) lines :=
  fun line inside => ⟨strings line inside, fun _ _ => trivial⟩

theorem completionsFit_true {size : Nat} (fit : ∀ completions, complete = some completions →
      ∀ text, ∀ s ∈ completions text, s.length + 1 < size ∧ 0 ∉ s) :
    CompletionsFit (fun _ => True) (size - 1) complete := by
  intro completions is text
  constructor
  · exact strings_true fun s inside => (fit completions is text s inside).2
  · intro s inside
    have short := (fit completions is text s inside).1
    omega

theorem allTyped_true (completions : Bool) (src : Source) :
    AllTyped (Typable (fun _ => True) completions) src :=
  fun _ _ _ _ _ => .inr fun _ _ => trivial

end

/-- `linenoise` refines the reference editor: for all bytes that are typed, in whatever portions, and all
that the stack holds, it ends without an access outside the buffer or the history, and returns the line
that is entered in the reference editor, if one is; the history is left with the entries of it. -/
theorem linenoise_refines (complete : Option (List UInt8 → List (List UInt8)))
    (stack : Nat → Nat → UInt8) (history : LineHistory) (block prompt : List UInt8) (cols : Nat)
    (src : Source) (room : 2 ≤ block.length) (wide : prompt.length < cols)
    (small : prompt.length + block.length ≤ 2 ^ 31) (kept : 0 < history.maxLen)
    (strings : ∀ line ∈ history.lines, 0 ∉ line)
    (fit : ∀ completions, complete = some completions →
      ∀ text, ∀ s ∈ completions text, s.length + 1 < block.length ∧ 0 ∉ s) :
    ∃ step src' l,
      history.editor.run complete (block.length - 1) stack (src.size + 1) src = some (step, src') ∧
      linenoise complete stack history block prompt cols src = some (step.line, l, src') ∧
      l.history = ⟨step.editor.entries.reverse, history.maxLen⟩ := by
  obtain ⟨step, src', l, spec, returns, reflects, -⟩ := linenoise_run room wide small kept
    (strings_true strings) (completionsFit_true fit) (allTyped_true _ src) stack
  refine ⟨step, src', l, spec, returns, ?_⟩
  have maxLen : l.history.maxLen = history.maxLen := reflects.maxLen
  rw [← reflects.entries, ← maxLen]

/-- A line is typed with a history of one line, gone back to that line, added to it, and entered. -/
theorem linenoise_refines_recall :
    let history : LineHistory := ⟨[ascii "get"], 3⟩
    let typed : Source := [.data 0x61 [0x10, 0x21, 0x0d]]
    ∃ step src' l,
      history.editor.run none 7 (fun _ _ => 0) 5 typed = some (step, src') ∧
      linenoise none (fun _ _ => 0) history (List.replicate 8 0x55) (ascii ">") 20 typed =
        some (step.line, l, src') ∧
      l.history = ⟨step.editor.entries.reverse, 3⟩ :=
  linenoise_refines none (fun _ _ => 0) ⟨[ascii "get"], 3⟩ (List.replicate 8 0x55) (ascii ">") 20
    [.data 0x61 [0x10, 0x21, 0x0d]] (by decide) (by decide) (by decide) (by decide) (by decide) nofun

end Ppcom
