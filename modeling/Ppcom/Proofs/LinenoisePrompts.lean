/-
Module: Ppcom.Proofs.LinenoisePrompts
Purpose: What the prompts that use the line editor do to the history and to its file, over whole sessions
  and restarts, where lines are typed without keys of the history, completions and line feeds; and that
  `read_baud` reads a string that it freed exactly where it has a rate to return.
Trusted boundary: none
Main exports: Direct, LineAsked, Recalls, LineEvent, LineSession.Keeps.run, names_remembered,
  readBaudLine_within_iff
-/
import Ppcom.LinenoisePrompts
import Ppcom.Proofs.LineHistory
import Ppcom.Proofs.LinenoiseRuns

namespace Ppcom

open BoundedLog

/-! ### Lines without keys of the history -/

/-- A byte that is no tab, no line feed, no key of the history and no escape character. -/
def Direct (c : UInt8) : Prop := c ≠ 0x09 ∧ c ≠ 0x0a ∧ c ≠ 0x0e ∧ c ≠ 0x10 ∧ c ≠ 0x1b

instance (c : UInt8) : Decidable (Direct c) := by
  unfold Direct; infer_instance

/-- A byte that is in a line of a file. -/
def InLine (c : UInt8) : Prop := c ≠ 0x0a ∧ c ≠ 0x0d

/-- A step leaves the entries as they are, or without the latest one; where the line is entered that one
goes. -/
inductive LeavesEntries (entries : List (List UInt8)) : EditorStep → Prop where
  | next {d : LineEditor} (same : d.entries = entries) : LeavesEntries entries (.next d)
  | entered {d : LineEditor} (less : d.entries = entries.tail) : LeavesEntries entries (.entered d)
  | givenUp {d : LineEditor} (same : d.entries = entries) : LeavesEntries entries (.givenUp d)
  | ended {d : LineEditor} (less : d.entries = entries.tail) : LeavesEntries entries (.givenUp d)

theorem keyAction_direct : ∀ c, Direct c →
    keyAction c ≠ .esc ∧ keyAction c ≠ .history .prev ∧ keyAction c ≠ .history .next :=
  forall_byte (by decide +kernel)

/-- The byte that a key inserts. -/
def EditKey.inserted? : EditKey → Option UInt8
  | .insert c => some c
  | _ => none

theorem inserted_keyAction : ∀ c, (keyAction c).inserted? = none ∨
    ((keyAction c).inserted? = some c ∧ c ≠ 0x0d) :=
  forall_byte (by decide +kernel)

theorem keyAction_insert {c d : UInt8} (is : keyAction c = .insert d) : d = c ∧ c ≠ 0x0d := by
  have inserted := inserted_keyAction c
  rw [is] at inserted
  rcases inserted with none | ⟨same, other⟩
  · cases none
  · exact ⟨Option.some.inj same, other⟩

theorem Direct.typable {c : UInt8} (direct : Direct c) (completions : Bool) :
    Typable InLine completions c := by
  refine .inr fun d is => ?_
  obtain ⟨rfl, noReturn⟩ := keyAction_insert is
  exact ⟨direct.2.1, noReturn⟩

section

variable {limit : Nat} {d : LineEditor} {key : EditKey} {src src' : Source} {step : EditorStep}

theorem press_leaves (prev : key ≠ .history .prev) (next : key ≠ .history .next) :
    LeavesEntries d.entries (d.press limit key) := by
  cases key with
  | history dir =>
      cases dir with
      | prev => exact absurd rfl prev
      | next => exact absurd rfl next
  | enter => exact .entered rfl
  | ctrlC => exact .givenUp rfl
  | ctrlD =>
      show LeavesEntries d.entries
        (if d.line.text = [] then .givenUp d.forget else .next (d.withLine d.line.delete))
      split
      · exact .ended rfl
      · exact .next rfl
  | insert c =>
      show LeavesEntries d.entries (.next (d.insert limit c))
      unfold LineEditor.insert
      split
      · exact .next rfl
      · exact .next rfl
  | backspace | ctrlT | left | right | delete | home | last | ctrlU | ctrlK | ctrlW | ctrlL | esc | ignored =>
      exact .next rfl

/-- So does a turn. -/
theorem turn_leaves (typed : AllTyped Direct src) {seq : Nat → UInt8}
    (is : d.turn none limit seq src = some (step, src')) :
    LeavesEntries d.entries step ∧ AllTyped Direct src' := by
  obtain ⟨later, known⟩ := typed.read
  unfold LineEditor.turn at is
  generalize Source.read 1 src = first at is later known
  obtain ⟨reply, rest⟩ := first
  cases reply with
  | data c more =>
      obtain ⟨noEsc, prev, next⟩ := keyAction_direct c (known c more rfl)
      have key : LineEditor.readKey seq c rest = (keyAction c, rest) := if_neg noEsc
      simp only [LineEditor.byte, key, Option.some.injEq, Prod.mk.injEq] at is
      obtain ⟨rfl, rfl⟩ := is
      exact ⟨press_leaves prev next, later⟩
  | zero | again | failed =>
      simp only [Option.some.injEq, Prod.mk.injEq] at is
      obtain ⟨rfl, rfl⟩ := is
      exact ⟨.givenUp rfl, later⟩

/-- So does a whole line. -/
theorem run_leaves (typed : AllTyped Direct src) {stack : Nat → Nat → UInt8} {n : Nat}
    (is : d.run none limit stack n src = some (step, src')) : LeavesEntries d.entries step := by
  induction n generalizing d src with
  | zero => cases is
  | succ n ih =>
      rw [LineEditor.run] at is
      obtain ⟨⟨first, rest⟩, turn, later⟩ := Option.bind_eq_some_iff.mp is
      obtain ⟨leaves, typed'⟩ := turn_leaves typed turn
      cases leaves with
      | next same =>
          have after := ih typed' later
          rw [same] at after
          exact after
      | entered less =>
          cases later
          exact .entered less
      | givenUp same =>
          cases later
          exact .givenUp same
      | ended less =>
          cases later
          exact .ended less

end

/-! ### Lines without completions -/

section

variable {complete : List UInt8 → List (List UInt8)} {l l' : Linenoise} {src src' : Source}

theorem editTurn_behind {seq : Nat → UInt8} (is : editTurn none seq l src = some (.next l' src')) :
    src.Behind src' := by
  have read : src.Behind (Source.read 1 src).2 := Source.Behind.here.read
  unfold editTurn at is
  generalize Source.read 1 src = first at is read
  obtain ⟨reply, later⟩ := first
  cases reply with
  | data c more =>
      have further := readKey_behind seq c later
      simp only [switchByte_eq] at is
      obtain ⟨pressed, -, ends⟩ := Option.map_eq_some_iff.mp is
      cases pressed with
      | next l =>
          cases ends
          exact read.trans further
      | ret r l => cases ends
  | zero | again | failed => cases is

/-- Where no tab is typed, completions make no difference. -/
theorem editLoop_without_tab (typed : AllTyped (· ≠ 9) src) (stack : Nat → Nat → UInt8) (n : Nat) :
    editLoop (some complete) stack n l src = editLoop none stack n l src := by
  induction n generalizing l src with
  | zero => rfl
  | succ n ih =>
      have same : editTurn (some complete) (stack n) l src = editTurn none (stack n) l src := by
        obtain ⟨-, known⟩ := typed.read
        unfold editTurn
        generalize Source.read 1 src = first at known
        obtain ⟨reply, later⟩ := first
        cases reply with
        | data c more => exact if_neg (known c more rfl)
        | zero | again | failed => rfl
      rw [editLoop, editLoop, same]
      cases turn : editTurn none (stack n) l src with
      | none => rfl
      | some t =>
          cases t with
          | next l' src' => exact ih ((editTurn_behind turn).typed typed)
          | ret r l' src' => rfl

theorem linenoise_without_tab (complete : Option (List UInt8 → List (List UInt8))) (h : LineHistory)
    (call : LineCall) (prompt : List UInt8) (typed : AllTyped (· ≠ 9) src) :
    linenoise complete call.stack h call.buf prompt call.cols src =
      linenoise none call.stack h call.buf prompt call.cols src := by
  cases complete with
  | none => rfl
  | some completions => simp only [linenoise, linenoiseEdit, editLoop_without_tab typed]

end

/-! ### One line -/

theorem LineCall.room (call : LineCall) : 2 ≤ call.buf.length := by
  rw [call.size]
  decide

theorem LineCall.small (call : LineCall) {prompt : List UInt8} (short : prompt.length ≤ 10) :
    prompt.length + call.buf.length ≤ 2 ^ 31 := by
  rw [call.size]
  exact (Nat.add_le_add_right short _).trans (by decide)

/-- The history with an entry for the line that is edited. -/
def LineHistory.editing (h : LineHistory) : LineHistory := (linenoiseHistoryAdd h []).1

/-- The history after that entry was freed. -/
def LineHistory.edited (h : LineHistory) : LineHistory :=
  { h.editing with lines := h.editing.lines.dropLast }

/-- What a call of `linenoise` returns and leaves of the history. -/
inductive LineAsked (h : LineHistory) : Option (List UInt8) → LineHistory → Prop where
  | entered {line : List UInt8} (string : 0 ∉ line) (plain : ∀ c ∈ line, InLine c) :
      LineAsked h (some line) h.edited
  | givenUp : LineAsked h none h.editing
  | ended : LineAsked h none h.edited

/-- The lines are strings that are lines of a file. -/
abbrev LineHistory.Plain (h : LineHistory) : Prop := Strings InLine h.lines

theorem cString_plain {p : UInt8 → Prop} {text : List UInt8} (plain : ∀ c ∈ text, p c) :
    ∀ c ∈ cString text, p c :=
  fun c inside => plain c ((cString_starts text).subset inside)

/-- A call of `linenoise`, where the line is typed without keys of the history, ends within memory. -/
theorem ask_spec (s : LinePrompts) (call : LineCall)
    (complete : Option (List UInt8 → List (List UInt8))) {prompt : List UInt8} {src : Source}
    (wide : prompt.length < call.cols) (short : prompt.length ≤ 10) (kept : 0 < s.history.maxLen)
    (plain : s.history.Plain) (typed : AllTyped Direct src) :
    ∃ line h src', s.ask call complete prompt src =
        some (.returned line, { s with history := h }, src') ∧
      LineAsked s.history line h ∧ AllTyped Direct src' ∧ (line ≠ none → src'.size < src.size) := by
  have room := call.room
  have small := call.small short
  have noTab : AllTyped (· ≠ 9) src := fun first rest inside c member =>
    (typed first rest inside c member).1
  have same := linenoise_without_tab complete s.history call prompt noTab
  obtain ⟨step, src', l, spec, returns, reflects, ended, behind, less⟩ :=
    linenoise_run room wide small kept plain (show CompletionsFit InLine _ none from nofun)
      (fun first rest inside c member => (typed first rest inside c member).typable _) call.stack
  have leaves := run_leaves typed spec
  have maxLen : l.history.maxLen = s.history.maxLen := reflects.maxLen
  have editing : s.history.editing.maxLen = s.history.maxLen := maxLen_historyAdd _ _
  have history : ∀ lines, step.editor.entries.reverse = lines → l.history = ⟨lines, s.history.maxLen⟩ := by
    intro lines is
    rw [← is, ← reflects.entries, ← maxLen]
  have whole : ∀ {d : LineEditor}, d.entries = s.history.editor.entries → step.editor = d →
      l.history = s.history.editing := by
    intro d same is
    rw [history s.history.editing.lines (by rw [is, same]; exact List.reverse_reverse _), ← editing]
  have less' : ∀ {d : LineEditor}, d.entries = s.history.editor.entries.tail → step.editor = d →
      l.history = s.history.edited := by
    intro d same is
    have entries : s.history.editor.entries = s.history.editing.lines.reverse := rfl
    rw [history s.history.editing.lines.dropLast (by
      rw [is, same, entries, List.tail_reverse, List.reverse_reverse]), ← editing]
    rfl
  unfold LinePrompts.ask
  rw [same, returns, Option.map_some]
  cases leaves with
  | next => exact absurd rfl (ended _)
  | @entered d tail =>
      refine ⟨_, _, _, rfl, ?_, behind.typed typed, fun _ => less nofun⟩
      rw [less' tail rfl]
      exact .entered (zero_notMem_cString _) (cString_plain reflects.plain)
  | @givenUp d same' =>
      refine ⟨_, _, _, rfl, ?_, behind.typed typed, fun some => absurd rfl some⟩
      rw [whole same' rfl]
      exact .givenUp
  | @ended d tail =>
      refine ⟨_, _, _, rfl, ?_, behind.typed typed, fun some => absurd rfl some⟩
      rw [less' tail rfl]
      exact .ended

/-! ### What is remembered -/

/-- The lines of the history but an empty one at the end, which is the entry for a line that is edited. -/
def LineHistory.names (h : LineHistory) : List (List UInt8) :=
  if h.lines.getLast? = some [] then h.lines.dropLast else h.lines

/-- The history recalls the lines of `given`, up to its limit and one less at least. -/
structure Recalls (given : List (List UInt8)) (h : LineHistory) : Prop where
  retains : Retains (h.maxLen - 1) given h.names
  short : h.len ≤ h.maxLen
  positive : 2 ≤ h.maxLen
  distinct : h.lines.IsChain (· ≠ ·)
  plain : ∀ line ∈ h.lines, FileLine.Plain ⟨line, false⟩

section

variable {given : List (List UInt8)} {h : LineHistory}

theorem Recalls.strings (recalls : Recalls given h) : h.Plain := by
  intro line inside
  have plain := recalls.plain line inside
  refine ⟨plain.string, fun c member => ⟨?_, ?_⟩⟩
  · rintro rfl
    exact plain.noNewline member
  · rintro rfl
    exact plain.noReturn member

theorem names_of_last_ne (named : h.lines.getLast? ≠ some []) : h.names = h.lines := if_neg named

theorem names_concat_nil {lines : List (List UInt8)} {limit : Nat} :
    LineHistory.names ⟨lines ++ [[]], limit⟩ = lines := by
  unfold LineHistory.names
  simp only
  rw [if_pos (by simp), List.dropLast_concat]

/-- Before an empty line at the end there is another one. -/
theorem last_dropLast_ne {lines : List (List UInt8)} (distinct : lines.IsChain (· ≠ ·))
    (last : lines.getLast? = some []) : lines.dropLast.getLast? ≠ some [] := by
  intro before
  obtain ⟨front, rfl⟩ := List.getLast?_eq_some_iff.mp last
  rw [List.dropLast_concat] at before
  obtain ⟨front, rfl⟩ := List.getLast?_eq_some_iff.mp before
  rw [List.append_assoc, List.isChain_append] at distinct
  have pair := distinct.2.1
  simp at pair

theorem isChain_add {lines : List (List UInt8)} {limit : Nat} (positive : 0 < limit)
    (distinct : lines.IsChain (· ≠ ·)) (x : List UInt8) : (add limit lines x).IsChain (· ≠ ·) := by
  have all : Retains limit lines lines := .whole distinct
  exact (all.add positive (Nat.le_refl _) x).isChain

theorem mem_add {lines : List (List UInt8)} {limit : Nat} {x line : List UInt8}
    (inside : line ∈ add limit lines x) : line ∈ lines ∨ line = x := by
  unfold add at inside
  split at inside
  · exact .inl inside
  · rcases List.mem_append.mp inside with before | last
    · left
      split at before
      · exact List.mem_of_mem_drop before
      · exact before
    · exact .inr (List.mem_singleton.mp last)

theorem filePlain_nil : FileLine.Plain ⟨[], false⟩ := by
  constructor
  · decide
  · decide
  · decide
  · decide

/-- While a line is edited, the latest names are followed by the empty entry. -/
theorem Recalls.editing_lines (recalls : Recalls given h) :
    h.edited.lines = h.names.rtake (h.maxLen - 1) ∧ h.editing.lines = h.edited.lines ++ [[]] := by
  have short := recalls.short
  have positive := recalls.positive
  rw [LineHistory.len] at short
  have lines : h.editing.lines = add h.maxLen h.lines [] := by
    rw [LineHistory.editing, historyAdd_eq (by omega)]
  rw [LineHistory.edited, lines]
  unfold LineHistory.names add
  by_cases last : h.lines.getLast? = some []
  · obtain ⟨front, is⟩ := List.getLast?_eq_some_iff.mp last
    rw [is, List.length_append, List.length_singleton] at short
    rw [if_pos last, if_pos last, is, List.dropLast_concat, rtake_of_length_le (by omega)]
    exact ⟨rfl, rfl⟩
  · rw [if_neg last, if_neg last, List.dropLast_concat]
    refine ⟨?_, rfl⟩
    rw [List.rtake]
    split
    · next full =>
      rw [full, show h.maxLen - (h.maxLen - 1) = 1 by omega]
    · next room =>
      rw [show h.lines.length - (h.maxLen - 1) = 0 by omega, List.drop_zero]

theorem editing_distinct (recalls : Recalls given h) : h.editing.lines.IsChain (· ≠ ·) := by
  have positive := recalls.positive
  rw [LineHistory.editing, historyAdd_eq (by omega)]
  exact isChain_add (by omega) recalls.distinct []

theorem editing_plain (recalls : Recalls given h) :
    ∀ line ∈ h.editing.lines, FileLine.Plain ⟨line, false⟩ := by
  have positive := recalls.positive
  rw [LineHistory.editing, historyAdd_eq (by omega)]
  intro line inside
  rcases mem_add inside with old | rfl
  · exact recalls.plain line old
  · exact filePlain_nil

/-- An entry for a line is added, and what the history recalls stays. -/
theorem Recalls.editing (recalls : Recalls given h) : Recalls given h.editing := by
  have positive := recalls.positive
  have limit : h.editing.maxLen = h.maxLen := maxLen_historyAdd h []
  obtain ⟨edited, lines⟩ := recalls.editing_lines
  have names : h.editing.names = h.edited.lines := by
    unfold LineHistory.names
    rw [lines, if_pos (by simp), List.dropLast_concat]
  constructor
  · rw [names, edited, limit]
    exact recalls.retains.rtake (Nat.le_refl _)
  · rw [LineHistory.len, lines, List.length_append, edited, Retains.length_rtake, limit,
      List.length_singleton]
    omega
  · rw [limit]
    exact positive
  · exact editing_distinct recalls
  · exact editing_plain recalls

/-- It is freed again, and leaves room for another line. -/
theorem Recalls.edited (recalls : Recalls given h) :
    Recalls given h.edited ∧ h.edited.len < h.edited.maxLen ∧ h.edited.lines.getLast? ≠ some [] := by
  have positive := recalls.positive
  have limit : h.edited.maxLen = h.maxLen := maxLen_historyAdd h []
  obtain ⟨edited, lines⟩ := recalls.editing_lines
  have last : h.edited.lines.getLast? ≠ some [] :=
    last_dropLast_ne (editing_distinct recalls) (by rw [lines]; simp)
  have room : h.edited.len < h.edited.maxLen := by
    rw [LineHistory.len, edited, Retains.length_rtake, limit]
    omega
  refine ⟨?_, room, last⟩
  constructor
  · rw [names_of_last_ne last, edited, limit]
    exact recalls.retains.rtake (Nat.le_refl _)
  · exact room.le
  · rw [limit]
    exact positive
  · have distinct := editing_distinct recalls
    rw [lines] at distinct
    exact distinct.left_of_append
  · intro line inside
    exact editing_plain recalls line (by rw [lines]; exact List.mem_append_left _ inside)

/-- A name that is entered; an empty line is none. -/
def noted (line : List UInt8) : List (List UInt8) := if line = [] then [] else [line]

/-- A line is added where there is room for it, and remembered if it is a name. -/
theorem Recalls.add (recalls : Recalls given h) (room : h.len < h.maxLen)
    (last : h.lines.getLast? ≠ some []) {line : List UInt8} (plain : FileLine.Plain ⟨line, false⟩) :
    Recalls (given ++ noted line) (linenoiseHistoryAdd h line).1 := by
  have positive := recalls.positive
  have distinct : (BoundedLog.add h.maxLen h.lines line).IsChain (· ≠ ·) :=
    isChain_add (by omega) recalls.distinct line
  have kept := recalls.retains
  rw [names_of_last_ne last] at kept
  rw [historyAdd_eq (by omega)]
  constructor
  · simp only
    by_cases nothing : line = []
    · subst nothing
      have names : LineHistory.names ⟨BoundedLog.add h.maxLen h.lines [], h.maxLen⟩ = h.lines := by
        rw [BoundedLog.add, if_neg last, if_neg (show ¬ h.lines.length = h.maxLen from Nat.ne_of_lt room)]
        exact names_concat_nil
      rw [noted, if_pos rfl, List.append_nil, names]
      exact kept
    · have ends : (BoundedLog.add h.maxLen h.lines line).getLast? ≠ some [] := by
        unfold BoundedLog.add
        split
        · exact last
        · rw [List.getLast?_concat]
          exact fun same => nothing (Option.some.inj same)
      rw [noted, if_neg nothing, names_of_last_ne ends]
      exact kept.add (by omega) (Nat.sub_le _ _) line
  · exact length_add (by omega) recalls.short line
  · exact positive
  · exact distinct
  · intro other inside
    rcases mem_add inside with old | rfl
    · exact recalls.plain other old
    · exact plain

theorem recalls_initial : Recalls [] .initial := by
  constructor
  · exact .whole List.IsChain.nil
  · exact Nat.zero_le _
  · decide
  · exact List.IsChain.nil
  · exact nofun

/-- What is saved is loaded again. -/
theorem Recalls.load (recalls : Recalls given h)
    (limit : h.maxLen = linenoiseDefaultHistoryMaxLen) :
    (linenoiseHistoryLoad .initial (some (historyText h.lines))).1 = h := by
  have short := recalls.short
  rw [limit] at short
  have none : (LineHistory.initial).lines = [] := rfl
  have initial : (LineHistory.initial).maxLen = linenoiseDefaultHistoryMaxLen := rfl
  rw [historyLoad_text recalls.plain, foldl_historyAdd (by decide) (Nat.zero_le _) List.IsChain.nil, none,
    List.nil_append, List.destutter_of_isChain _ _ recalls.distinct, initial,
    rtake_of_length_le short, ← limit]

end

/-! ### Sessions -/

/-- What happens in a session: a prompt, or the program ends and starts again. -/
inductive LineEvent where
  | filename (complete : List UInt8 → List (List UInt8)) (call : LineCall)
  | baud (plat : Platform) (calls : Nat → LineCall)
  | hex (sz : Nat) (calls : Nat → LineCall)
  | restart (homeDirectory : List UInt8)

/-- The prompts, what is left to be typed, and the file names that were entered. -/
structure LineSession where
  prompts : LinePrompts
  src : Source
  names : List (List UInt8)
deriving DecidableEq

namespace LineSession

/-- The session after an event, unless it accesses memory that it must not. -/
def step (s : LineSession) : LineEvent → Option LineSession
  | .filename complete call =>
      (readFilenameLine complete call s.prompts s.src).map fun (fname, prompts, src) =>
        ⟨prompts, src, s.names ++ fname.read.toList⟩
  | .baud plat calls =>
      (readBaudLine plat calls s.prompts s.src).map fun (_, prompts, src) => ⟨prompts, src, s.names⟩
  | .hex sz calls =>
      (readHexLine sz calls s.prompts s.src).map fun (_, prompts, src) => ⟨prompts, src, s.names⟩
  | .restart homeDirectory =>
      (initHistory (some homeDirectory) (fun _ => s.prompts.file) s.prompts.opened .initial).map
        fun prompts => { s with prompts := prompts }

def run (s : LineSession) (events : List LineEvent) : Option LineSession := events.foldlM step s

end LineSession

/-- The terminals of an event have room for a prompt. -/
def LineEvent.Wide : LineEvent → Prop
  | filename _ call => 10 < call.cols
  | baud _ calls | hex _ calls => ∀ n, 10 < (calls n).cols
  | restart _ => True

/-! ### Prompts -/

/-- A call of `linenoise` ends, and keeps `I`; where a line is returned, less is left to be typed. -/
def Asks (I : LinePrompts → Source → Prop) (call : LineCall) (prompt : List UInt8) : Prop :=
  ∀ s src, I s src → ∃ line s' src', s.ask call none prompt src = some (.returned line, s', src') ∧
    I s' src' ∧ (line ≠ none → src'.size < src.size)

section

variable {I : LinePrompts → Source → Prop} {calls : Nat → LineCall} {s : LinePrompts} {src : Source}

/-- The loop of `read_baud` ends, without a string where there is no rate, and with a freed one where there
is one. -/
theorem readBaudLineLoop_spec (plat : Platform) (asks : ∀ n, Asks I (calls n) (ascii "*** baud: "))
    (start : I s src) {n : Nat} {baud : Int} (enough : src.size < n) (none : baud < 0) :
    ∃ baud' baudstr s' src', readBaudLineLoop plat calls n baud s src = some (baud', baudstr, s', src') ∧
      I s' src' ∧ (baudstr = .null ∧ baud' < 0 ∨ baudstr = .freed ∧ 0 ≤ baud') := by
  induction n generalizing s src baud with
  | zero => exact absurd enough (Nat.not_lt_zero _)
  | succ n ih =>
      obtain ⟨line, s', src', ask, kept, less⟩ := asks n s src start
      rw [readBaudLineLoop, ask, Option.bind_some]
      cases line with
      | none => exact ⟨_, _, _, _, rfl, kept, .inl ⟨rfl, none⟩⟩
      | some text =>
          have shorter := less nofun
          simp only [HeapString.returned, HeapString.read, HeapString.free]
          by_cases again : baudOfLine plat text < 0
          · rw [if_pos again]
            exact ih kept (by omega) again
          · rw [if_neg again]
            exact ⟨_, _, _, _, rfl, kept, .inr ⟨rfl, Int.not_lt.mp again⟩⟩

theorem readHexLineLoop_spec (sz : Nat) (asks : ∀ n, Asks I (calls n) (ascii "*** hex: "))
    (start : I s src) {n : Nat} (enough : src.size < n) :
    ∃ buff s' src', readHexLineLoop sz calls n s src = some (buff, s', src') ∧ I s' src' := by
  induction n generalizing s src with
  | zero => exact absurd enough (Nat.not_lt_zero _)
  | succ n ih =>
      obtain ⟨line, s', src', ask, kept, less⟩ := asks n s src start
      rw [readHexLineLoop, ask, Option.bind_some]
      cases line with
      | none => exact ⟨_, _, _, rfl, kept⟩
      | some text =>
          have shorter := less nofun
          simp only [HeapString.returned, HeapString.read]
          cases hex2bin sz text with
          | none => exact ih kept (by omega)
          | some buff => exact ⟨_, _, _, rfl, kept⟩

end

/-- The history can be edited: it has room for a line, and its lines are strings. -/
def Editable (s : LinePrompts) (_ : Source) : Prop :=
  0 < s.history.maxLen ∧ ∀ line ∈ s.history.lines, 0 ∉ line

theorem Reflects.editable {p : UInt8 → Prop} {k : EditSetting} {d : LineEditor} {l : Linenoise}
    (reflects : Reflects p k d l) (kept : 0 < k.bound) :
    0 < l.history.maxLen ∧ ∀ line ∈ l.history.lines, 0 ∉ line := by
  constructor
  · rw [reflects.maxLen]
    exact kept
  · intro line inside
    rw [reflects.entries] at inside
    exact (reflects.strings line (List.mem_reverse.mp inside)).1

/-- Whatever is typed, a call of `linenoise` ends. -/
theorem asks_editable (call : LineCall) {prompt : List UInt8} (wide : prompt.length < call.cols)
    (short : prompt.length ≤ 10) : Asks Editable call prompt := by
  intro s src editable
  have room := call.room
  have small := call.small short
  obtain ⟨step, src', l, -, returns, reflects, -, -, less⟩ :=
    linenoise_run room wide small editable.1 (strings_true editable.2)
      (show CompletionsFit (fun _ => True) _ none from nofun) (allTyped_true _ src) call.stack
  refine ⟨step.line, { s with history := l.history }, src', ?_, reflects.editable editable.1, ?_⟩
  · rw [LinePrompts.ask, returns]
    rfl
  · intro returned
    apply less
    rintro d rfl
    exact returned rfl

/-- `read_baud` accesses no string that it freed if and only if no baud rate was entered. Whatever is
typed, its loop ends; it returns no rate without having read the string of the rate, which is freed. -/
theorem readBaudLine_within_iff (plat : Platform) (calls : Nat → LineCall) (s : LinePrompts)
    (src : Source) (wide : ∀ n, 10 < (calls n).cols) (kept : 0 < s.history.maxLen)
    (strings : ∀ line ∈ s.history.lines, 0 ∉ line) :
    ∃ baud baudstr s' src',
      readBaudLineLoop plat calls (src.size + 1) (-1) s src = some (baud, baudstr, s', src') ∧
      ((readBaudLine plat calls s src).isSome ↔ baud < 0) := by
  have asks : ∀ n, Asks Editable (calls n) (ascii "*** baud: ") := fun n =>
    asks_editable (calls n) (wide n) (by decide)
  have start : Editable s src := ⟨kept, strings⟩
  obtain ⟨baud, baudstr, s', src', loop, -, ends⟩ :=
    readBaudLineLoop_spec plat asks start (Nat.lt_succ_self src.size) (show (-1 : Int) < 0 by decide)
  refine ⟨baud, baudstr, s', src', loop, ?_⟩
  rw [readBaudLine, loop, Option.bind_some]
  rcases ends with ⟨rfl, none⟩ | ⟨rfl, rate⟩
  · simp [none]
  · simp [HeapString.read, rate]

/-- A call on a wide terminal. -/
def LineCall.wide : LineCall where
  buf := List.replicate linenoiseMaxLine 0x55
  stack := fun _ _ => 0
  cols := 80
  size := List.length_replicate

/-- The rate 9600 is entered. -/
theorem readBaudLine_within_iff_entered :
    ∃ baud baudstr s' src',
      readBaudLineLoop ⟨false, false⟩ (fun _ => .wide) (Source.size [.data 0x39 [0x36, 0x30, 0x30, 0x0d]] + 1)
        (-1) ⟨.initial, none, false, false⟩ [.data 0x39 [0x36, 0x30, 0x30, 0x0d]] =
          some (baud, baudstr, s', src') ∧
      ((readBaudLine ⟨false, false⟩ (fun _ => .wide) ⟨.initial, none, false, false⟩
        [.data 0x39 [0x36, 0x30, 0x30, 0x0d]]).isSome ↔ baud < 0) :=
  readBaudLine_within_iff ⟨false, false⟩ (fun _ => .wide) ⟨.initial, none, false, false⟩
    [.data 0x39 [0x36, 0x30, 0x30, 0x0d]] (fun _ => by decide) (by decide) (by decide)

/-! ### What sessions keep -/

/-- The history recalls the names, and so does the file, where nothing else is typed but direct bytes. -/
structure LinePrompts.Keeps (given : List (List UInt8)) (s : LinePrompts) (src : Source) : Prop where
  history : Recalls given s.history
  limit : s.history.maxLen = linenoiseDefaultHistoryMaxLen
  hasPath : s.hasPath = true
  opened : s.opened = true
  file : (s.file = none ∧ given = []) ∨ ∃ h, s.file = some (historyText h.lines) ∧ Recalls given h ∧
    h.maxLen = linenoiseDefaultHistoryMaxLen
  typed : AllTyped Direct src

section

variable {given : List (List UInt8)} {s : LinePrompts} {src : Source}

/-- A call of `linenoise` changes nothing of what is remembered; where a line is entered there is room for
it in the history. -/
theorem LinePrompts.Keeps.ask (keeps : s.Keeps given src) (call : LineCall)
    (complete : Option (List UInt8 → List (List UInt8))) {prompt : List UInt8}
    (wide : 10 < call.cols) (short : prompt.length ≤ 10) :
    ∃ line s' src', s.ask call complete prompt src = some (.returned line, s', src') ∧
      s'.Keeps given src' ∧ (line ≠ none → src'.size < src.size) ∧
      ∀ text, line = some text → 0 ∉ text ∧ (∀ c ∈ text, InLine c) ∧
        s'.history.len < s'.history.maxLen ∧ s'.history.lines.getLast? ≠ some [] := by
  have positive := keeps.history.positive
  obtain ⟨line, h, src', returns, asked, typed, less⟩ :=
    ask_spec s call complete (by omega) short (by omega) keeps.history.strings keeps.typed
  obtain ⟨edited, room, last⟩ := keeps.history.edited
  have limit : ∀ {h'}, (h' = s.history.editing ∨ h' = s.history.edited) →
      h'.maxLen = linenoiseDefaultHistoryMaxLen := by
    rintro h' (rfl | rfl)
    · exact (maxLen_historyAdd _ _).trans keeps.limit
    · exact (maxLen_historyAdd _ _).trans keeps.limit
  refine ⟨line, _, src', returns, ?_, less, ?_⟩
  · cases asked with
    | entered => exact ⟨edited, limit (.inr rfl), keeps.hasPath, keeps.opened, keeps.file, typed⟩
    | givenUp =>
        exact ⟨keeps.history.editing, limit (.inl rfl), keeps.hasPath, keeps.opened, keeps.file, typed⟩
    | ended => exact ⟨edited, limit (.inr rfl), keeps.hasPath, keeps.opened, keeps.file, typed⟩
  · intro text is
    cases asked with
    | entered string plain =>
        cases is
        exact ⟨string, plain, room, last⟩
    | givenUp | ended => cases is

theorem LinePrompts.Keeps.asks (call : LineCall) {prompt : List UInt8} (wide : 10 < call.cols)
    (short : prompt.length ≤ 10) : Asks (LinePrompts.Keeps given) call prompt := by
  intro s src keeps
  obtain ⟨line, s', src', returns, after, less, -⟩ := keeps.ask call none wide short
  exact ⟨line, s', src', returns, after, less⟩

/-- A name that is entered is remembered. -/
theorem LinePrompts.Keeps.addHistory (keeps : s.Keeps given src) {name : List UInt8}
    (room : s.history.len < s.history.maxLen) (last : s.history.lines.getLast? ≠ some [])
    (plain : FileLine.Plain ⟨name, false⟩) : (addHistory s name).Keeps (given ++ noted name) src := by
  have added := keeps.history.add room last plain
  have limit := (maxLen_historyAdd s.history name).trans keeps.limit
  unfold Ppcom.addHistory
  simp only [keeps.hasPath, keeps.opened, linenoiseHistorySave, if_true]
  exact ⟨added, limit, rfl, rfl, .inr ⟨_, rfl, added, limit⟩, keeps.typed⟩

end

namespace LineSession

variable {s s' : LineSession}

/-- The names that are not empty. -/
def named (s : LineSession) : List (List UInt8) := s.names.flatMap noted

def Keeps (s : LineSession) : Prop := s.prompts.Keeps s.named s.src

theorem step_names {e : LineEvent} (is : s.step e = some s') : s.names <+: s'.names := by
  cases e with
  | filename complete call =>
      obtain ⟨_, -, rfl⟩ := Option.map_eq_some_iff.mp is
      exact List.prefix_append _ _
  | baud plat calls =>
      obtain ⟨_, -, rfl⟩ := Option.map_eq_some_iff.mp is
      exact List.prefix_refl _
  | hex sz calls =>
      obtain ⟨_, -, rfl⟩ := Option.map_eq_some_iff.mp is
      exact List.prefix_refl _
  | restart homeDirectory =>
      obtain ⟨_, -, rfl⟩ := Option.map_eq_some_iff.mp is
      exact List.prefix_refl _

/-- An event that accesses no memory that it must not keeps what is remembered. -/
theorem Keeps.step (keeps : s.Keeps) {e : LineEvent} (wide : e.Wide) (is : s.step e = some s')
    (short : ∀ name ∈ s'.names, name.length + 1 < linenoiseMaxLine) : s'.Keeps := by
  cases e with
  | filename complete call =>
      obtain ⟨line, prompts, src, returns, after, -, entered⟩ :=
        LinePrompts.Keeps.ask keeps call (some complete) wide
          (show (ascii "*** file: ").length ≤ 10 by decide)
      rw [LineSession.step, readFilenameLine, returns] at is
      cases line with
      | none =>
          cases is
          simp only [Keeps, named, HeapString.returned, HeapString.read, Option.toList_none,
            List.append_nil]
          exact after
      | some name =>
          cases is
          obtain ⟨string, plain, room, last⟩ := entered name rfl
          simp only [Keeps, named, HeapString.returned, HeapString.read, Option.toList_some,
            List.flatMap_append, List.flatMap_singleton]
          apply after.addHistory room last
          constructor
          · exact string
          · exact fun inside => (plain _ inside).2 rfl
          · exact fun inside => (plain _ inside).1 rfl
          · have few := short name (by simp [HeapString.returned, HeapString.read])
            rw [FileLine.bytes, List.length_append]
            exact few
  | baud plat calls =>
      have asks : ∀ n, Asks (LinePrompts.Keeps s.named) (calls n) (ascii "*** baud: ") := fun n =>
        LinePrompts.Keeps.asks (calls n) (wide n) (by decide)
      obtain ⟨baud, baudstr, prompts, src, loop, after, ends⟩ := readBaudLineLoop_spec plat asks keeps
        (Nat.lt_succ_self s.src.size) (show (-1 : Int) < 0 by decide)
      rw [LineSession.step, readBaudLine, loop, Option.bind_some] at is
      rcases ends with ⟨rfl, -⟩ | ⟨rfl, -⟩
      · cases is
        exact after
      · cases is
  | hex sz calls =>
      have asks : ∀ n, Asks (LinePrompts.Keeps s.named) (calls n) (ascii "*** hex: ") := fun n =>
        LinePrompts.Keeps.asks (calls n) (wide n) (by decide)
      obtain ⟨buff, prompts, src, loop, after⟩ :=
        readHexLineLoop_spec sz asks keeps (Nat.lt_succ_self s.src.size)
      rw [LineSession.step, readHexLine, loop] at is
      cases is
      exact after
  | restart homeDirectory =>
      obtain ⟨prompts, started, rfl⟩ := Option.map_eq_some_iff.mp is
      obtain ⟨path, -, rfl⟩ := Option.map_eq_some_iff.mp started
      have typed := keeps.typed
      have opened := keeps.opened
      rcases keeps.file with ⟨none, nothing⟩ | ⟨h, saved, recalls, limit⟩
      · refine ⟨?_, ?_, rfl, opened, .inl ⟨none, nothing⟩, typed⟩
        · simp only [none, linenoiseHistoryLoad]
          show Recalls s.named .initial
          rw [nothing]
          exact recalls_initial
        · simp only [none, linenoiseHistoryLoad]
          rfl
      · have loaded := recalls.load limit
        rw [← saved] at loaded
        refine ⟨?_, ?_, rfl, opened, .inr ⟨h, saved, recalls, limit⟩, typed⟩
        · simp only [loaded]
          exact recalls
        · simp only [loaded]
          exact limit

theorem run_cons {e : LineEvent} {events : List LineEvent} (is : s.run (e :: events) = some s') :
    ∃ next, s.step e = some next ∧ next.run events = some s' := by
  rw [LineSession.run, List.foldlM_cons] at is
  exact Option.bind_eq_some_iff.mp is

theorem run_names {events : List LineEvent} (is : s.run events = some s') : s.names <+: s'.names := by
  induction events generalizing s with
  | nil =>
      cases is
      exact List.prefix_refl _
  | cons e events ih =>
      obtain ⟨next, first, later⟩ := run_cons is
      exact (step_names first).trans (ih later)

theorem Keeps.run (keeps : s.Keeps) {events : List LineEvent} (wide : ∀ e ∈ events, e.Wide)
    (is : s.run events = some s') (short : ∀ name ∈ s'.names, name.length + 1 < linenoiseMaxLine) :
    s'.Keeps := by
  induction events generalizing s with
  | nil =>
      cases is
      exact keeps
  | cons e events ih =>
      obtain ⟨next, first, later⟩ := run_cons is
      have names := run_names later
      have after := keeps.step (wide e List.mem_cons_self) first fun name inside =>
        short name (names.subset inside)
      exact ih after (fun e inside => wide e (List.mem_cons_of_mem _ inside)) later

/-- The first start, without a history file. -/
def start (src : Source) : LineSession := ⟨⟨.initial, none, true, true⟩, src, []⟩

theorem keeps_start {src : Source} (typed : AllTyped Direct src) : (start src).Keeps :=
  ⟨recalls_initial, rfl, rfl, rfl, .inl ⟨rfl, rfl⟩, typed⟩

end LineSession

end Ppcom
