/-
Module: Ppcom.Proofs.Prompts
Purpose: What a prompt reads depends on the bytes that there are to read and not on the portions they
  come in, and it leaves no more of them; so the script of a stream is what its first byte stands for
  followed by the script of what is left.
Trusted boundary: none
Main exports: ByBytes, fdReadline_byBytes, question_byBytes, script_transparent, script_command
-/
import Ppcom.Spec.Script

namespace Ppcom

open Source

/-! ### Prompts -/

/-- What is read depends on the bytes that there are to read only, and none are added to them. -/
structure ByBytes {α : Type} (read : Source → α × Source) : Prop where
  same : ∀ {src src'}, Alike src src' →
    (read src).1 = (read src').1 ∧ Alike (read src).2 (read src').2
  shrinks : ∀ {src}, src.Plain → (read src).2.bytes.length ≤ src.bytes.length

namespace Source.Alike

variable {src src' : Source}

theorem size (alike : Alike src src') : Source.size src = Source.size src' := by
  rw [alike.plain.size, alike.plain'.size, alike.bytes]

/-- The next byte of two sources is the same. -/
theorem readOne (alike : Alike src src') :
    (Source.read 1 src = (.zero, []) ∧ Source.read 1 src' = (.zero, [])) ∨
    ∃ b later later', Source.read 1 src = (.data b [], later) ∧
      Source.read 1 src' = (.data b [], later') ∧ Alike later later' ∧
      src.bytes = b :: later.bytes := by
  have one : ∀ {src : Source}, src.Plain → src = [] ∨ ∃ b later,
      Source.read 1 src = (.data b [], later) ∧ later.Plain ∧ src.bytes = b :: later.bytes := by
    intro src plain
    rcases plain.read 1 with none | ⟨b, rest, later, read, short, plain, bytes⟩
    · exact .inl none
    · obtain rfl := List.eq_nil_of_length_eq_zero (Nat.le_zero.mp short)
      exact .inr ⟨b, later, read, plain, bytes⟩
  rcases one alike.plain with rfl | ⟨b, later, read, plain, bytes⟩ <;>
    rcases one alike.plain' with rfl | ⟨b', later', read', plain', bytes'⟩
  · exact .inl ⟨rfl, rfl⟩
  · have none := alike.bytes
    rw [bytes'] at none
    cases none
  · have none := alike.bytes
    rw [bytes] at none
    cases none
  · have heads := alike.bytes
    rw [bytes, bytes'] at heads
    obtain ⟨rfl, tails⟩ := List.cons.inj heads
    exact .inr ⟨b, later, later', read, read', ⟨plain, plain', tails⟩, bytes⟩

end Source.Alike

theorem readlineLoop_same (bsz : Nat) {n : Nat} {held : List UInt8} {src src' : Source}
    (alike : Alike src src') :
    (readlineLoop bsz n held src).1 = (readlineLoop bsz n held src').1 ∧
    Alike (readlineLoop bsz n held src).2 (readlineLoop bsz n held src').2 := by
  induction n generalizing held src src' with
  | zero => exact ⟨rfl, alike⟩
  | succ n ih =>
      rcases alike.readOne with ⟨read, read'⟩ | ⟨b, later, later', read, read', alike, -⟩
      · simp only [readlineLoop, read, read', true_and]
        exact ⟨plain_nil, plain_nil, rfl⟩
      · simp only [readlineLoop, read, read']
        split
        · exact ih alike
        split
        · exact ⟨rfl, alike⟩
        split
        · exact ⟨rfl, alike⟩
        split
        · exact ih alike
        · exact ih alike

theorem readlineLoop_shrinks (bsz : Nat) {n : Nat} {held : List UInt8} {src : Source}
    (plain : src.Plain) : (readlineLoop bsz n held src).2.bytes.length ≤ src.bytes.length := by
  induction n generalizing held src with
  | zero => exact le_rfl
  | succ n ih =>
      rcases (Alike.mk plain plain rfl).readOne with
        ⟨read, -⟩ | ⟨b, later, later', read, -, alike, bytes⟩
      · simp [readlineLoop, read, Source.bytes]
      · have less : later.bytes.length ≤ src.bytes.length := by simp [bytes]
        simp only [readlineLoop, read]
        split
        · exact (ih alike.plain).trans less
        split
        · exact less
        split
        · exact less
        split
        · exact (ih alike.plain).trans less
        · exact (ih alike.plain).trans less

theorem fdReadline_byBytes (bsz : Nat) : ByBytes (fdReadline bsz) where
  same alike := by
    unfold fdReadline
    rw [alike.size]
    exact readlineLoop_same bsz alike
  shrinks plain := readlineLoop_shrinks bsz plain

/-- Nothing more is read. -/
theorem ByBytes.value {α : Type} (a : α) : ByBytes fun src => (a, src) where
  same alike := ⟨rfl, alike⟩
  shrinks _ := le_rfl

theorem ByBytes.map {α β : Type} {read : Source → α × Source} (reads : ByBytes read) (f : α → β) :
    ByBytes fun src => (read src).map f id where
  same alike := ⟨congrArg f (reads.same alike).1, (reads.same alike).2⟩
  shrinks plain := reads.shrinks plain

/-- A line is read, and then what is to be read after it; without a line nothing is. -/
theorem ByBytes.line {α : Type} (bsz : Nat) (a : α) {read : Source → α × Source}
    {after : List UInt8 → Source → α × Source} (reads : ∀ line, ByBytes (after line))
    (none : ∀ {src left}, fdReadline bsz src = (.none, left) → read src = (a, left))
    (some : ∀ {src line left}, fdReadline bsz src = (.some line, left) →
      read src = after line left) : ByBytes read where
  same {src src'} alike := by
    obtain ⟨value, left⟩ := (fdReadline_byBytes bsz).same alike
    rcases first : fdReadline bsz src with ⟨line, rest⟩
    rcases second : fdReadline bsz src' with ⟨line', rest'⟩
    rw [first, second] at value left
    obtain rfl : line = line' := value
    cases line with
    | none =>
        rw [none first, none second]
        exact ⟨rfl, left⟩
    | some line =>
        rw [some first, some second]
        exact (reads line).same left
  shrinks {src} plain := by
    have less := (fdReadline_byBytes bsz).shrinks plain
    have left := ((fdReadline_byBytes bsz).same ⟨plain, plain, rfl⟩).2.plain
    rcases first : fdReadline bsz src with ⟨line, rest⟩
    rw [first] at less left
    cases line with
    | none =>
        rw [none first]
        exact less
    | some line =>
        rw [some first]
        exact ((reads line).shrinks left).trans less

theorem readFilename_byBytes : ByBytes readFilename :=
  .line posixPathMax none (fun line => .value (some (cString line)))
    (fun first => by simp only [readFilename, first]) fun first => by simp only [readFilename, first]

theorem readBaudLoop_byBytes (plat : Platform) (n : Nat) (baud : Int) :
    ByBytes (readBaudLoop plat n baud) := by
  induction n generalizing baud with
  | zero => exact .value baud
  | succ n ih =>
      have after : ∀ line, ByBytes fun src =>
          if baudOfLine plat line < 0 then readBaudLoop plat n (baudOfLine plat line) src
          else (baudOfLine plat line, src) := by
        intro line
        split
        · exact ih _
        · exact .value _
      exact .line 9 baud after (fun first => by simp only [readBaudLoop, first]) fun first => by
        simp only [readBaudLoop, first]

theorem readHexLoop_byBytes (sz n : Nat) : ByBytes (readHexLoop sz n) := by
  induction n with
  | zero => exact .value []
  | succ n ih =>
      have after : ∀ line, ByBytes fun src =>
          (hex2bin sz (cString line)).elim (readHexLoop sz n src) fun buff => (buff, src) := by
        intro line
        cases hex2bin sz (cString line) with
        | none => exact ih
        | some buff => exact .value buff
      refine .line 256 [] after (fun first => by simp only [readHexLoop, first]) ?_
      intro src line left first
      simp only [readHexLoop, first]
      cases hex2bin sz (cString line) <;> rfl

/-- A loop that may take as many rounds as there are bytes. -/
theorem ByBytes.bounded {α : Type} {loop : Nat → Source → α × Source}
    (each : ∀ n, ByBytes (loop n)) : ByBytes fun src => loop (Source.size src + 1) src where
  same alike := by
    rw [alike.size]
    exact (each _).same alike
  shrinks plain := (each _).shrinks plain

theorem readBaud_byBytes (plat : Platform) : ByBytes (readBaud plat) :=
  .bounded fun n => readBaudLoop_byBytes plat n (-1)

theorem readHex_byBytes (sz : Nat) : ByBytes (readHex sz) :=
  .bounded fun n => readHexLoop_byBytes sz n

section Questions

variable {plat : Platform} {opts : Opts}

/-- So does every answer. -/
theorem question_byBytes {key : UInt8} {read : Source → Entry × Source}
    (asks : question plat opts key = some read) : ByBytes read := by
  obtain ⟨key, -, asks⟩ := Option.bind_eq_some_iff.mp asks
  cases key with
  | baud =>
      cases asks
      exact (readBaud_byBytes plat).map _
  | hex =>
      cases asks
      exact (readHex_byBytes _).map _
  | send | receive =>
      simp only [Key.question, fnameQuestion] at asks
      split at asks
      · cases asks
      · cases asks
        exact readFilename_byBytes.map _
  | _ => cases asks

/-- A command that ends the program asks for nothing. -/
theorem question_of_ends {key : UInt8} (ends : (Action.command key).ends = true) :
    question plat opts key = none := by
  simp only [Action.ends, Bool.or_eq_true, beq_iff_eq] at ends
  rcases ends with rfl | rfl <;> rfl

end Questions

/-! ### Scripts -/

section Script

variable {plat : Platform} {opts : Opts}

/-- The script does not depend on how many turns it may take, as long as they are enough. -/
theorem scriptFrom_eq {n m : Nat} {state : LoopState} {typed : List UInt8}
    (enough : typed.length ≤ n) (enough' : typed.length ≤ m) :
    scriptFrom plat opts n state typed = scriptFrom plat opts m state typed := by
  induction n generalizing m state typed with
  | zero =>
      obtain rfl := List.eq_nil_of_length_eq_zero (Nat.le_zero.mp enough)
      cases m <;> rfl
  | succ n ih =>
      cases typed with
      | nil => cases m <;> rfl
      | cons b rest =>
          obtain ⟨m, rfl⟩ : ∃ m', m = m' + 1 := Nat.exists_eq_add_one.mpr (by
            rw [List.length_cons] at enough'
            omega)
          rw [List.length_cons, Nat.add_le_add_iff_right] at enough enough'
          have next : ∀ state, scriptFrom plat opts n state rest = scriptFrom plat opts m state rest :=
            fun state => ih enough enough'
          cases state with
          | transparent => simp only [scriptFrom, next]
          | command =>
              simp only [scriptFrom, next]
              cases asks : question plat opts b with
              | none => rfl
              | some read =>
                  have less := (question_byBytes asks).shrinks (plain_whole rest)
                  rw [bytes_whole] at less
                  dsimp only
                  rw [ih (less.trans enough) (less.trans enough')]

theorem scriptFrom_length {n : Nat} {state : LoopState} {typed : List UInt8}
    (enough : typed.length ≤ n) : scriptFrom plat opts n state typed = script plat opts state typed :=
  scriptFrom_eq enough le_rfl

@[simp] theorem script_nil (state : LoopState) : script plat opts state [] = [] := rfl

theorem script_transparent (b : UInt8) (rest : List UInt8) :
    script plat opts .transparent (b :: rest) =
      if some b = opts.escapeByte then script plat opts .command rest
      else .act (.data b) :: script plat opts .transparent rest := rfl

theorem script_escaped {b : UInt8} (escape : some b = opts.escapeByte) (rest : List UInt8) :
    script plat opts .command (b :: rest) =
      .act (.data b) :: script plat opts .transparent rest := by
  simp only [script, List.length_cons, scriptFrom, if_pos escape]

section Command

variable {b : UInt8} (command : some b ≠ opts.escapeByte) (rest : List UInt8)

include command

theorem script_ends (ends : (Action.command b).ends = true) :
    script plat opts .command (b :: rest) = [.act (.command b)] := by
  simp only [script, List.length_cons, scriptFrom, if_neg command, if_pos ends]

theorem script_command (stays : (Action.command b).ends = false)
    (asks : question plat opts b = none) :
    script plat opts .command (b :: rest) =
      .act (.command b) :: script plat opts .transparent rest := by
  simp [script, scriptFrom, command, stays, asks]

theorem script_question {read : Source → Entry × Source} (stays : (Action.command b).ends = false)
    (asks : question plat opts b = some read) :
    script plat opts .command (b :: rest) =
      .act (.command b) :: .enter (read (.whole rest)).1 ::
        script plat opts .transparent (read (.whole rest)).2.bytes := by
  have less := (question_byBytes asks).shrinks (plain_whole rest)
  rw [bytes_whole] at less
  rw [← scriptFrom_length less]
  simp [script, scriptFrom, command, stays, asks]

end Command

end Script

end Ppcom
