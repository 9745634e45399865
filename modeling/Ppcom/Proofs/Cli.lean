/-
Module: Ppcom.Proofs.Cli
Purpose: What `ppcom_cli` sends: the words of its input up to `exit`, and, where there is none, the last
  word over and over when the input has ended.
Trusted boundary: none
Main exports: words, Cin.left, predicted, sent_sendLoop, words_sent_once_iff
-/
import Mathlib.Data.List.TakeWhile
import Ppcom.Cli

namespace Ppcom

/-! ### Words -/

/-- The words of a text, between white space. -/
def words (text : List UInt8) : List (List UInt8) := (text.splitOnP isspace).filter (· ≠ [])

/-- The words that are left to be read. -/
def Cin.left (cin : Cin) : List (List UInt8) := if cin.good then words cin.text else []

/-- White space separates words. -/
theorem words_separated {before after : List UInt8} {c : UInt8} (space : isspace c = true) :
    words (before ++ c :: after) = words before ++ words after := by
  rw [words, List.splitOnP_append_cons before after space, List.filter_append]
  rfl

theorem words_space {c : UInt8} {rest : List UInt8} (space : isspace c = true) :
    words (c :: rest) = words rest := by
  have parts : words ([] ++ c :: rest) = words [] ++ words rest := words_separated space
  exact parts

theorem words_dropWhile (text : List UInt8) : words (text.dropWhile isspace) = words text := by
  induction text with
  | nil => rfl
  | cons c rest ih =>
      by_cases space : isspace c = true
      · rw [List.dropWhile_cons_of_pos space, ih]
        exact (words_space space).symm
      · rw [List.dropWhile_cons_of_neg space]

/-- What has no white space in it is a word. -/
theorem words_singleton {word : List UInt8} (some : word ≠ [])
    (none : ∀ c ∈ word, isspace c = false) : words word = [word] := by
  rw [words, List.splitOnP_eq_singleton none]
  simp [some]

/-- A text that starts with a word. -/
theorem words_cons {c : UInt8} {rest : List UInt8} (start : ¬ isspace c = true) :
    words (c :: rest) = (c :: rest).takeWhile (!isspace ·) ::
      words ((c :: rest).dropWhile (!isspace ·)) := by
  have none : ∀ x ∈ (c :: rest).takeWhile (!isspace ·), isspace x = false := by
    intro x inside
    simpa using List.mem_takeWhile_imp inside
  have word := words_singleton (by simp [start]) none
  have whole : (c :: rest).takeWhile (!isspace ·) ++ (c :: rest).dropWhile (!isspace ·) =
      c :: rest := List.takeWhile_append_dropWhile
  cases left : (c :: rest).dropWhile (!isspace ·) with
  | nil =>
      rw [left, List.append_nil] at whole
      rw [whole] at word ⊢
      exact word
  | cons d after =>
      have first := List.head?_dropWhile_not (!isspace ·) (c :: rest)
      rw [left] at first whole
      have space : isspace d = true := by simpa using first
      have parts : words ((c :: rest).takeWhile (!isspace ·) ++ d :: after) =
          words ((c :: rest).takeWhile (!isspace ·)) ++ words after := words_separated space
      rw [whole, word] at parts
      rw [parts, words_space space]
      rfl

theorem nonempty_of_mem_left {cin : Cin} {word : List UInt8} (inside : word ∈ cin.left) :
    word ≠ [] := by
  unfold Cin.left at inside
  split at inside
  · simpa using (List.mem_filter.mp inside).2
  · cases inside

/-- Where no word is left, the message is not touched. -/
theorem extract_nil {cin : Cin} (none : cin.left = []) (message : List UInt8) :
    (cin.extract message).2 = message ∧ (cin.extract message).1.left = [] := by
  unfold Cin.extract
  split
  · next good =>
    rw [Cin.left, if_pos good, ← words_dropWhile] at none
    split
    · exact ⟨rfl, rfl⟩
    · next c rest start =>
      have first := List.head?_dropWhile_not isspace cin.text
      rw [start] at first none
      rw [words_cons (by simpa using first)] at none
      cases none
  · exact ⟨rfl, none⟩

/-- A word that is left is extracted. -/
theorem extract_cons {cin : Cin} {word : List UInt8} {rest : List (List UInt8)}
    (some : cin.left = word :: rest) (message : List UInt8) :
    (cin.extract message).2 = word ∧ (cin.extract message).1.left = rest := by
  unfold Cin.extract
  split
  · next good =>
    rw [Cin.left, if_pos good, ← words_dropWhile] at some
    split
    · next ended =>
      rw [ended] at some
      cases some
    · next c after start =>
      have first := List.head?_dropWhile_not isspace cin.text
      rw [start] at first some
      rw [words_cons (by simpa using first)] at some
      obtain ⟨rfl, rfl⟩ := List.cons.inj some
      refine ⟨rfl, ?_⟩
      by_cases ended : (c :: after).dropWhile (!isspace ·) = []
      · simp [Cin.left, ended, words]
      · simp [Cin.left, ended]
  · next bad =>
    rw [Cin.left, if_neg bad] at some
    cases some

/-! ### What is sent -/

/-- What `turns` turns send where `rest` is left to be read and `message` was read last. -/
def predicted : List UInt8 → List (List UInt8) → Nat → List (List UInt8)
  | _, _, 0 => []
  | message, [], turns + 1 =>
      if message = exitWord ∨ message = [] then [] else message :: predicted message [] turns
  | _, word :: rest, turns + 1 =>
      if word = exitWord then [] else word :: predicted word rest turns

theorem predicted_nil_of_empty (turns : Nat) : predicted [] [] turns = [] := by
  cases turns with
  | zero => rfl
  | succ turns => simp [predicted]

/-- A turn that reads `exit` is the last one. -/
theorem turn_exit {cli : Cli} (exits : (cli.cin.extract cli.message).2 = exitWord) :
    ∃ last, cli.turn true = (last, false) ∧ last.sent = cli.sent := by
  refine ⟨{ cli with
    cin := (cli.cin.extract cli.message).1
    message := (cli.cin.extract cli.message).2 }, ?_, rfl⟩
  simp only [Cli.turn, Bool.not_true, Bool.false_eq_true, if_false]
  rw [if_pos exits]

/-- A turn that does not sends the message, if there is one. -/
theorem turn_message {cli : Cli} (goes : (cli.cin.extract cli.message).2 ≠ exitWord) :
    ∃ next, cli.turn true = (next, true) ∧
      next.message = (cli.cin.extract cli.message).2 ∧
      next.cin = (cli.cin.extract cli.message).1 ∧ next.ctlfd = cli.ctlfd ∧
      next.sent = cli.sent ++ if next.message = [] then [] else [(cli.ctlfd, next.message)] := by
  refine ⟨{ cli with
    cin := (cli.cin.extract cli.message).1
    message := (cli.cin.extract cli.message).2
    calls := cli.calls ++ .printf (cString (cli.cin.extract cli.message).2) ::
      sendMessage cli.ctlfd (cli.cin.extract cli.message).2 }, ?_, rfl, rfl, rfl, ?_⟩
  · simp only [Cli.turn, Bool.not_true, Bool.false_eq_true, if_false]
    rw [if_neg goes]
  · rw [Cli.sent, Cli.sent, List.filterMap_append]
    congr 1
    unfold sendMessage
    split <;> rfl

/-- Turn after turn the loop sends what is predicted. -/
theorem sent_sendLoop (cli : Cli) (turns : Nat) :
    (sendLoop (List.replicate turns true) cli).sent =
      cli.sent ++ (predicted cli.message cli.cin.left turns).map (cli.ctlfd, ·) := by
  induction turns generalizing cli with
  | zero => simp [sendLoop, predicted]
  | succ turns ih =>
      rw [List.replicate_succ, sendLoop]
      cases left : cli.cin.left with
      | nil =>
          obtain ⟨message, none⟩ := extract_nil left cli.message
          by_cases exits : cli.message = exitWord
          · obtain ⟨last, turned, sent⟩ := turn_exit (message.trans exits)
            simp [turned, sent, predicted, exits]
          · obtain ⟨next, turned, same, cin, ctlfd, sent⟩ := turn_message (message ▸ exits)
            rw [turned]
            simp only [ih, sent, ctlfd, cin, none, same, message]
            by_cases empty : cli.message = []
            · simp [predicted, empty, predicted_nil_of_empty]
            · simp [predicted, empty, exits]
      | cons word rest =>
          obtain ⟨message, later⟩ := extract_cons left cli.message
          have some : word ≠ [] := nonempty_of_mem_left (left ▸ List.mem_cons_self)
          by_cases exits : word = exitWord
          · obtain ⟨last, turned, sent⟩ := turn_exit (message.trans exits)
            simp [turned, sent, predicted, exits]
          · obtain ⟨next, turned, same, cin, ctlfd, sent⟩ := turn_message (message ▸ exits)
            rw [turned]
            simp only [ih, sent, ctlfd, cin, later, same, message]
            simp [predicted, exits, some]

/-! ### Each word once -/

/-- Where `exit` is a word, the words before it are sent. -/
theorem predicted_exit {rest : List (List UInt8)} {message : List UInt8} {turns : Nat}
    (exits : exitWord ∈ rest) (enough : rest.length ≤ turns) :
    predicted message rest turns = rest.takeWhile (· ≠ exitWord) := by
  induction rest generalizing message turns with
  | nil => cases exits
  | cons word rest ih =>
      cases turns with
      | zero => cases enough
      | succ turns =>
          by_cases here : word = exitWord
          · simp [predicted, here]
          · have later := (List.mem_cons.mp exits).resolve_left (Ne.symm here)
            rw [predicted, if_neg here, ih later (Nat.le_of_succ_le_succ enough)]
            simp [here]

/-- Where it is not, and there is a message to send, every turn sends something. -/
theorem length_predicted {rest : List (List UInt8)} {message : List UInt8} (turns : Nat)
    (goes : exitWord ∉ rest) (some : rest = [] → message ≠ exitWord ∧ message ≠ [])
    (words : [] ∉ rest) : (predicted message rest turns).length = turns := by
  induction turns generalizing rest message with
  | zero => rfl
  | succ turns ih =>
      cases rest with
      | nil =>
          obtain ⟨other, nonempty⟩ := some rfl
          simp [predicted, other, nonempty, ih goes some words]
      | cons word rest =>
          have other : word ≠ exitWord := fun is => goes (is ▸ List.mem_cons_self)
          have nonempty : word ≠ [] := fun is => words (is ▸ List.mem_cons_self)
          have later : (predicted word rest turns).length = turns :=
            ih (fun inside => goes (List.mem_cons_of_mem _ inside)) (fun _ => ⟨other, nonempty⟩)
              fun inside => words (List.mem_cons_of_mem _ inside)
          simp [predicted, other, later]

/-- However long the loop goes on while `running` holds, it sends the words of the text up to `exit`, each
once and in order, exactly if `exit` is one of them, or there are no words and no message to send
besides. Else the last one is sent again at every turn when the text has ended. -/
theorem words_sent_once_iff (text message : List UInt8) (ctlfd : Int) :
    (∃ enough, ∀ turns, enough ≤ turns →
      (sendLoop (List.replicate turns true) (.start text message ctlfd)).sent =
        ((words text).takeWhile (· ≠ exitWord)).map (ctlfd, ·)) ↔
      exitWord ∈ words text ∨ words text = [] ∧ (message = exitWord ∨ message = []) := by
  have sent (turns : Nat) : (sendLoop (List.replicate turns true) (.start text message ctlfd)).sent =
      (predicted message (words text) turns).map (ctlfd, ·) := sent_sendLoop _ turns
  simp only [sent]
  constructor
  · rintro ⟨enough, once⟩
    by_contra fails
    obtain ⟨goes, more⟩ := not_or.mp fails
    have always : (predicted message (words text) (enough + (words text).length + 1)).length =
        enough + (words text).length + 1 :=
      length_predicted _ goes (fun none => not_or.mp fun silent => more ⟨none, silent⟩)
        fun empty => by simpa using (List.mem_filter.mp empty).2
    have most := congrArg List.length (once (enough + (words text).length + 1) (by omega))
    rw [List.length_map, List.length_map, always] at most
    have few : ((words text).takeWhile (· ≠ exitWord)).length ≤ (words text).length :=
      (List.takeWhile_prefix _).length_le
    omega
  · rintro (exits | ⟨none, silent⟩)
    · exact ⟨(words text).length, fun turns enough => by rw [predicted_exit exits enough]⟩
    · refine ⟨0, fun turns _ => ?_⟩
      rw [none]
      cases turns with
      | zero => rfl
      | succ turns => simp [predicted, silent]

/-- The word `hi` is sent again when the input has ended. -/
theorem hi_sent_again : ¬ ∃ enough, ∀ turns, enough ≤ turns →
    (sendLoop (List.replicate turns true) (.start (ascii "hi\n") [] 4)).sent =
      ((words (ascii "hi\n")).takeWhile (· ≠ exitWord)).map ((4 : Int), ·) := by
  rintro ⟨enough, once⟩
  have again := congrArg List.length (once (enough + 2) (by omega))
  have goes : exitWord ∉ words (ascii "hi\n") := by decide
  have some : words (ascii "hi\n") = [] → ([] : List UInt8) ≠ exitWord ∧ ([] : List UInt8) ≠ [] :=
    fun none => absurd none (by decide)
  have always := length_predicted (enough + 2) goes some (by decide)
  rw [sent_sendLoop, List.length_append, List.length_map, List.length_map] at again
  change 0 + (predicted [] (words (ascii "hi\n")) (enough + 2)).length = 1 at again
  omega

end Ppcom
