/-
Module: Ppcom.Proofs.LinenoiseStdin
Purpose: Prompts without the line editor. They read the lines of standard input one after the other, in
  whatever portions it arrives; but what they read ahead is lost for `loop`, which shares the descriptor.
Trusted boundary: none
Main exports: Stdin.stream, Stdin.fgetsLoop_stream, prompts_read_lines, stdin_shared
-/
import Ppcom.LinenoiseStdin
import Ppcom.Proofs.LineHistory
import Ppcom.Spec.Script

namespace Ppcom

/-! ### Portions -/

namespace Stdin

/-- The bytes that are still to be read. -/
def stream (s : Stdin) : List UInt8 := s.buf ++ if s.ended then [] else s.src.bytes

variable {s : Stdin} {c : UInt8} {rest : List UInt8}

/-- A byte is taken from the stream. -/
theorem getc_cons (plain : s.src.Plain) (stream : s.stream = c :: rest) :
    ∃ s', s.getc = (.data c [], s') ∧ s'.stream = rest ∧ s'.src.Plain := by
  obtain ⟨buf, src, ended⟩ := s
  cases buf with
  | cons d buf =>
      obtain ⟨rfl, behind⟩ := List.cons.inj stream
      exact ⟨_, rfl, behind, plain⟩
  | nil =>
      cases ended with
      | true => cases stream
      | false =>
          rcases plain.read stdinBufSz with ends | ⟨first, more, later, read, -, plain', all⟩
          · have typed : src.bytes = c :: rest := stream
            have nothing : src = [] := ends
            rw [nothing] at typed
            cases typed
          · have typed : src.bytes = c :: rest := stream
            obtain ⟨rfl, behind⟩ := List.cons.inj (all.symm.trans typed)
            refine ⟨⟨more, later, false⟩, ?_, behind, plain'⟩
            simp only [getc, read, Bool.false_eq_true, if_false]

/-- At the end of the stream there is none. -/
theorem getc_nil (plain : s.src.Plain) (stream : s.stream = []) :
    ∃ s', s.getc = (.zero, s') ∧ s'.stream = [] ∧ s'.src.Plain := by
  obtain ⟨buf, src, ended⟩ := s
  cases buf with
  | cons d buf => cases stream
  | nil =>
      cases ended with
      | true => exact ⟨_, rfl, rfl, plain⟩
      | false =>
          rcases plain.read stdinBufSz with ends | ⟨first, more, later, read, -, plain', all⟩
          · cases show src = [] from ends
            exact ⟨_, rfl, rfl, plain⟩
          · cases all.symm.trans stream

/-- In whatever portions the stream arrives, `fgets` takes a line of it. -/
theorem fgetsLoop_stream (portions : s.src.Plain) (n : Nat) :
    ∃ reply s', fgetsLoop n s = ((fgetsLine n s.stream).1, reply, s') ∧ reply ≠ some .failed ∧
      s'.stream = (fgetsLine n s.stream).2 ∧ s'.src.Plain := by
  induction n generalizing s with
  | zero => exact ⟨none, s, rfl, nofun, rfl, portions⟩
  | succ n ih =>
      cases stream : s.stream with
      | nil =>
          obtain ⟨s', read, ends, portions'⟩ := getc_nil portions stream
          exact ⟨_, s', by rw [fgetsLoop, read]; rfl, by simp, ends, portions'⟩
      | cons c rest =>
          obtain ⟨s', read, behind, portions'⟩ := getc_cons portions stream
          rw [fgetsLoop, read, fgetsLine]
          by_cases newline : c = 0x0a
          · simp only [if_pos newline]
            exact ⟨none, s', rfl, nofun, behind, portions'⟩
          · obtain ⟨reply, s'', more, fine, left, portions''⟩ := ih portions'
            simp only [if_neg newline, more, behind] at more left ⊢
            exact ⟨reply, s'', rfl, fine, left, portions''⟩

theorem fgets_stream (portions : s.src.Plain) (size : Nat) :
    ∃ s', s.fgets size = (decide ((fgetsLine (size - 1) s.stream).1 ≠ []),
        (fgetsLine (size - 1) s.stream).1, s') ∧
      s'.stream = (fgetsLine (size - 1) s.stream).2 ∧ s'.src.Plain := by
  obtain ⟨reply, s', read, fine, left, portions'⟩ := fgetsLoop_stream portions (size - 1)
  refine ⟨s', ?_, left, portions'⟩
  unfold Stdin.fgets
  rw [read]
  simp only [fine, ne_eq, not_false_eq_true, and_true]

end Stdin

/-! ### Lines -/

/-- A string that `fgets` takes whole, when it ends or a line feed follows. -/
structure PlainLine (l : List UInt8) : Prop where
  string : 0 ∉ l
  noNewline : 0x0a ∉ l
  short : l.length + 1 < linenoiseMaxLine

/-- What is returned for a line. -/
def plainText (unsupported : Bool) (l : List UInt8) : List UInt8 := if unsupported then cutNewlines l else l

section

variable {s : Stdin} {l rest : List UInt8}

theorem fgetsLine_ending {n : Nat} (noNewline : 0x0a ∉ l) (short : l.length ≤ n) :
    fgetsLine n l = (l, []) := by
  induction l generalizing n with
  | nil =>
      cases n with
      | zero => rfl
      | succ n => rfl
  | cons c l ih =>
      obtain ⟨n, rfl⟩ := Nat.exists_eq_succ_of_ne_zero (Nat.ne_of_gt (Nat.zero_lt_of_lt short))
      have other : c ≠ 0x0a := fun is => noNewline (is ▸ List.mem_cons_self)
      rw [fgetsLine, if_neg other,
        ih (fun inside => noNewline (List.mem_cons_of_mem _ inside)) (Nat.le_of_succ_le_succ short)]

theorem PlainLine.cut_newline (unsupported : Bool) (plain : PlainLine l) :
    cutPlain unsupported (cString (l ++ [0x0a])) = plainText unsupported l := by
  have string : cString (l ++ [0x0a]) = l ++ [0x0a] := by
    rw [cString_eq_iff]
    intro zero
    rcases List.mem_append.mp zero with before | last
    · exact plain.string before
    · exact absurd (List.mem_singleton.mp last) (by decide)
  rw [string, cutPlain, plainText]
  split
  · rw [cutNewlines, List.rdropWhile_concat_pos _ _ _ (by decide)]
    rfl
  · rw [cutNewline, if_pos (by simp), List.dropLast_concat]

theorem PlainLine.cut_ending (unsupported : Bool) (plain : PlainLine l) :
    cutPlain unsupported (cString l) = plainText unsupported l := by
  have last : l.getLast? ≠ some 0x0a := fun is => plain.noNewline (List.mem_of_getLast? is)
  rw [(cString_eq_iff _).mpr plain.string, cutPlain, plainText, cutNewline, if_neg last]

/-- A prompt returns the next line. -/
theorem linenoisePlain_newline (unsupported : Bool) (portions : s.src.Plain) (plain : PlainLine l)
    (stream : s.stream = l ++ 0x0a :: rest) :
    ∃ s', linenoisePlain unsupported s = (some (plainText unsupported l), s') ∧ s'.stream = rest ∧
      s'.src.Plain := by
  have short := plain.short
  obtain ⟨s', read, left, portions'⟩ := s.fgets_stream portions linenoiseMaxLine
  rw [stream, fgetsLine_newline plain.noNewline (by omega)] at read left
  refine ⟨s', ?_, left, portions'⟩
  rw [linenoisePlain, read]
  simp only [ne_eq, List.append_eq_nil_iff, List.cons_ne_nil, and_false, not_false_eq_true, decide_true,
    if_true, plain.cut_newline]

/-- The last line need not end with a line feed. -/
theorem linenoisePlain_ending (unsupported : Bool) (portions : s.src.Plain) (plain : PlainLine l)
    (nonempty : l ≠ []) (stream : s.stream = l) :
    ∃ s', linenoisePlain unsupported s = (some (plainText unsupported l), s') ∧ s'.stream = [] ∧
      s'.src.Plain := by
  have short := plain.short
  obtain ⟨s', read, left, portions'⟩ := s.fgets_stream portions linenoiseMaxLine
  rw [stream, fgetsLine_ending plain.noNewline (by omega)] at read left
  refine ⟨s', ?_, left, portions'⟩
  rw [linenoisePlain, read]
  simp only [ne_eq, nonempty, not_false_eq_true, decide_true, if_true, plain.cut_ending]

/-- At the end it returns nothing. -/
theorem linenoisePlain_nothing (unsupported : Bool) (portions : s.src.Plain) (stream : s.stream = []) :
    ∃ s', linenoisePlain unsupported s = (none, s') ∧ s'.stream = [] ∧ s'.src.Plain := by
  obtain ⟨s', read, left, portions'⟩ := s.fgets_stream portions linenoiseMaxLine
  rw [stream, fgetsLine_ending List.not_mem_nil (Nat.zero_le _)] at read left
  exact ⟨s', by rw [linenoisePlain, read]; rfl, left, portions'⟩

/-- The lines of a text, the last of which need not end with a line feed. -/
def linesOf (lines : List (List UInt8)) (last : List UInt8) : List (List UInt8) :=
  lines ++ if last = [] then [] else [last]

/-- Prompts return the lines of the stream. -/
theorem linenoisePlains_stream (unsupported : Bool) (portions : s.src.Plain)
    {lines : List (List UInt8)} {last : List UInt8} (plain : ∀ l ∈ lines, PlainLine l)
    (plainLast : PlainLine last)
    (stream : s.stream = lines.flatMap (· ++ [0x0a]) ++ last) (n : Nat) :
    (linenoisePlains unsupported n s).1 =
      (List.range n).map fun i => ((linesOf lines last)[i]?).map (plainText unsupported) := by
  induction n generalizing s lines last with
  | zero => rfl
  | succ n ih =>
      have empty : PlainLine [] := ⟨List.not_mem_nil, List.not_mem_nil, by decide⟩
      rw [List.range_succ_eq_map, List.map_cons, List.map_map, linenoisePlains]
      cases lines with
      | nil =>
          by_cases nothing : last = []
          · subst nothing
            obtain ⟨s', first, left, portions'⟩ :=
              linenoisePlain_nothing unsupported portions stream
            have later := ih portions' (show ∀ l ∈ [], PlainLine l from nofun) empty left
            rw [first]
            simp only [later]
            rfl
          · obtain ⟨s', first, left, portions'⟩ :=
              linenoisePlain_ending unsupported portions plainLast nothing stream
            have later := ih portions' (show ∀ l ∈ [], PlainLine l from nofun) empty left
            rw [first]
            simp only [later, linesOf, if_neg nothing]
            rfl
      | cons l lines =>
          have here : s.stream = l ++ 0x0a :: (lines.flatMap (· ++ [0x0a]) ++ last) := by
            rw [stream, List.flatMap_cons]
            simp
          obtain ⟨s', first, left, portions'⟩ :=
            linenoisePlain_newline unsupported portions (plain l List.mem_cons_self) here
          have later := ih portions' (fun l inside => plain l (List.mem_cons_of_mem _ inside)) plainLast left
          rw [first]
          simp only [later]
          rfl

end

/-- However standard input arrives, prompts without the line editor return its lines one after the other, and
nothing from then on. -/
theorem prompts_read_lines (unsupported : Bool) (src : Source) (portions : src.Plain)
    (lines : List (List UInt8)) (last : List UInt8) (plain : ∀ l ∈ lines, PlainLine l)
    (plainLast : PlainLine last) (typed : src.bytes = lines.flatMap (· ++ [0x0a]) ++ last) (n : Nat) :
    (linenoisePlains unsupported n ⟨[], src, false⟩).1 =
      (List.range n).map fun i => ((linesOf lines last)[i]?).map (plainText unsupported) := by
  have stream : Stdin.stream ⟨[], src, false⟩ = lines.flatMap (· ++ [0x0a]) ++ last := typed
  exact linenoisePlains_stream unsupported portions plain plainLast stream n

/-- Two lines and a rest in two portions, on a terminal that is not supported. -/
theorem prompts_read_lines_dumb :
    (linenoisePlains (isUnsupportedTerm (some (ascii "Dumb"))) 3
      ⟨[], [.data 0x61 [0x0d], .data 0x0a [0x0a, 0x62]], false⟩).1 =
      (List.range 3).map fun i => ((linesOf [[0x61, 0x0d], []] [0x62])[i]?).map
        (plainText (isUnsupportedTerm (some (ascii "Dumb")))) := by
  have portions : Source.Plain [.data 0x61 [0x0d], .data 0x0a [0x0a, 0x62]] := by
    intro reply inside
    rcases List.mem_cons.mp inside with rfl | last
    · exact ⟨_, _, rfl⟩
    · exact ⟨_, _, List.mem_singleton.mp last⟩
  have plain : ∀ l ∈ [[0x61, 0x0d], []], PlainLine l := by
    intro l inside
    rcases List.mem_cons.mp inside with rfl | last
    · exact ⟨by decide, by decide, by decide⟩
    · rw [List.mem_singleton.mp last]
      exact ⟨by decide, by decide, by decide⟩
  exact prompts_read_lines _ [.data 0x61 [0x0d], .data 0x0a [0x0a, 0x62]] portions
    [[0x61, 0x0d], []] [0x62] plain ⟨by decide, by decide, by decide⟩ (by decide) 3

/-! ### Two readers -/

/-- The bytes that a `read` gives. -/
def ReadReply.bytes : ReadReply → List UInt8
  | .data c rest => c :: rest
  | .zero | .again | .failed => []

/-- What is read is no longer to be read. -/
theorem Source.bytes_read (sz : Nat) (src : Source) :
    src.bytes = (Source.read sz src).1.bytes ++ (Source.read sz src).2.bytes := by
  cases src with
  | nil => rfl
  | cons reply later =>
      cases reply with
      | data c rest =>
          have parts := List.take_append_drop (sz - 1) rest
          cases left : rest.drop (sz - 1) with
          | nil =>
              rw [left, List.append_nil] at parts
              simp only [Source.read, left, parts]
              rfl
          | cons next more =>
              rw [left] at parts
              simp only [Source.read, left]
              calc c :: (rest ++ Source.bytes later)
                _ = c :: (rest.take (sz - 1) ++ next :: more ++ Source.bytes later) := by rw [parts]
                _ = c :: rest.take (sz - 1) ++ (next :: more ++ Source.bytes later) := by simp
      | zero | again | failed => rfl

namespace Stdin

/-- Bytes are taken from the buffer and from what was read from the descriptor for it. -/
def Takes (s : Stdin) (taken : List UInt8) (s' : Stdin) : Prop :=
  ∃ more, s.src.bytes = more ++ s'.src.bytes ∧ taken ++ s'.buf = s.buf ++ more

variable {s s' s'' : Stdin} {taken later : List UInt8}

theorem Takes.nothing (s : Stdin) : s.Takes [] s := ⟨[], rfl, (List.append_nil _).symm⟩

theorem Takes.trans (first : s.Takes taken s') (second : s'.Takes later s'') :
    s.Takes (taken ++ later) s'' := by
  obtain ⟨more, src, buf⟩ := first
  obtain ⟨more', src', buf'⟩ := second
  refine ⟨more ++ more', ?_, ?_⟩
  · rw [src, src', List.append_assoc]
  · rw [List.append_assoc, buf', ← List.append_assoc, buf, List.append_assoc]

theorem getc_takes (s : Stdin) : s.Takes s.getc.1.bytes s.getc.2 := by
  obtain ⟨buf, src, ended⟩ := s
  cases buf with
  | cons c buf => exact ⟨[], rfl, (List.append_nil _).symm⟩
  | nil =>
      cases ended with
      | true => exact .nothing _
      | false =>
          have parts := Source.bytes_read stdinBufSz src
          unfold getc
          generalize Source.read stdinBufSz src = read at parts
          obtain ⟨reply, src'⟩ := read
          cases reply with
          | data c rest => exact ⟨c :: rest, parts, rfl⟩
          | zero | again | failed => exact ⟨[], parts, rfl⟩

theorem getc_one {c : UInt8} {rest : List UInt8} (got : s.getc.1 = .data c rest) : rest = [] := by
  obtain ⟨buf, src, ended⟩ := s
  cases buf with
  | cons d buf =>
      cases got
      rfl
  | nil =>
      cases ended with
      | true => cases got
      | false =>
          unfold getc at got
          generalize Source.read stdinBufSz src = read at got
          obtain ⟨reply, src'⟩ := read
          cases reply with
          | data d more =>
              cases got
              rfl
          | zero | again | failed => cases got

theorem fgetsLoop_takes (n : Nat) (s : Stdin) :
    s.Takes (fgetsLoop n s).1 (fgetsLoop n s).2.2 := by
  induction n generalizing s with
  | zero => exact .nothing s
  | succ n ih =>
      have first := s.getc_takes
      have one : ∀ c rest, s.getc.1 = .data c rest → rest = [] := fun _ _ => s.getc_one
      rw [fgetsLoop]
      generalize s.getc = next at first one
      obtain ⟨reply, s'⟩ := next
      cases reply with
      | data c rest =>
          cases one c rest rfl
          by_cases newline : c = 0x0a
          · simp only [if_pos newline]
            exact first
          · simp only [if_neg newline]
            exact first.trans (ih s')
      | zero | again | failed => exact first

end Stdin

/-- The reads of the descriptor in their order, with who made them. -/
structure StdinUsers.Shared (src : Source) (reads : List (StdinUse × List UInt8)) (s : StdinUsers) :
    Prop where
  all : src.bytes = reads.flatMap Prod.snd ++ s.stdin.src.bytes
  toLoop : s.toLoop = (reads.filter (·.1 = .loop)).flatMap Prod.snd
  toPrompts : s.toPrompts ++ s.stdin.buf = (reads.filter (·.1 = .prompt)).flatMap Prod.snd

namespace StdinUsers

variable {src : Source} {reads : List (StdinUse × List UInt8)} {s : StdinUsers}

theorem shared_start (src : Source) : (start src).Shared src [] := ⟨rfl, rfl, rfl⟩

/-- One read more. -/
theorem Shared.step (shared : s.Shared src reads) (use : StdinUse) :
    ∃ bytes, (s.step use).Shared src (reads ++ [(use, bytes)]) := by
  cases use with
  | loop =>
      have parts := Source.bytes_read stiRdSz s.stdin.src
      unfold StdinUsers.step
      generalize Source.read stiRdSz s.stdin.src = read at parts
      obtain ⟨reply, src'⟩ := read
      refine ⟨reply.bytes, ?_⟩
      have all : src.bytes = (reads ++ [(StdinUse.loop, reply.bytes)]).flatMap Prod.snd ++ src'.bytes := by
        rw [shared.all, parts]
        simp
      cases reply with
      | data c rest =>
          exact ⟨all, by simp [shared.toLoop, ReadReply.bytes], by simpa using shared.toPrompts⟩
      | zero | again | failed =>
          exact ⟨all, by simpa [ReadReply.bytes] using shared.toLoop, by simpa using shared.toPrompts⟩
  | prompt =>
      obtain ⟨more, parts, buf⟩ := Stdin.fgetsLoop_takes (linenoiseMaxLine - 1) s.stdin
      have same : (s.step .prompt).toLoop = s.toLoop := rfl
      refine ⟨more, ?_, by rw [same, shared.toLoop]; simp, ?_⟩
      · show src.bytes = _ ++ (Stdin.fgetsLoop (linenoiseMaxLine - 1) s.stdin).2.2.src.bytes
        rw [shared.all, parts]
        simp
      · show s.toPrompts ++ (Stdin.fgetsLoop (linenoiseMaxLine - 1) s.stdin).1 ++
          (Stdin.fgetsLoop (linenoiseMaxLine - 1) s.stdin).2.2.buf = _
        rw [List.append_assoc, buf, ← List.append_assoc, shared.toPrompts]
        simp

theorem Shared.run (shared : s.Shared src reads) (uses : List StdinUse) :
    ∃ more, (s.run uses).Shared src (reads ++ more) ∧ more.map Prod.fst = uses := by
  induction uses generalizing s reads with
  | nil => exact ⟨[], by rw [List.append_nil]; exact shared, rfl⟩
  | cons use uses ih =>
      obtain ⟨bytes, one⟩ := shared.step use
      obtain ⟨more, all, order⟩ := ih one
      refine ⟨(use, bytes) :: more, ?_, by rw [List.map_cons, order]⟩
      rw [List.append_assoc] at all
      exact all

/-- What was read is what the two were given and what was read ahead. -/
theorem Shared.length (shared : s.Shared src reads) :
    s.toLoop.length + s.toPrompts.length + s.stdin.buf.length = (reads.flatMap Prod.snd).length := by
  have split : ((reads.filter (·.1 = .loop)).flatMap Prod.snd).length +
      ((reads.filter (·.1 = .prompt)).flatMap Prod.snd).length = (reads.flatMap Prod.snd).length := by
    clear shared
    induction reads with
    | nil => rfl
    | cons read reads ih =>
        obtain ⟨use, bytes⟩ := read
        rw [List.flatMap_cons, List.length_append, ← ih]
        cases use with
        | loop => simp [Nat.add_assoc]
        | prompt => simp [Nat.add_left_comm]
  rw [Nat.add_assoc, ← List.length_append, shared.toPrompts, shared.toLoop, split]

end StdinUsers

/-- Where `loop` and prompts without the line editor share standard input, no byte is lost or given twice,
but what the prompts read ahead is for later prompts only: `loop` goes on behind it. Everything that was
read was given to one of them if and only if nothing is read ahead. -/
theorem stdin_shared (src : Source) (uses : List StdinUse) :
    ∃ reads, reads.map Prod.fst = uses ∧ ((StdinUsers.start src).run uses).Shared src reads ∧
      (((StdinUsers.start src).run uses).toLoop.length +
          ((StdinUsers.start src).run uses).toPrompts.length = (reads.flatMap Prod.snd).length ↔
        ((StdinUsers.start src).run uses).stdin.buf = []) := by
  obtain ⟨reads, shared, order⟩ := (StdinUsers.shared_start src).run uses
  rw [List.nil_append] at shared
  refine ⟨reads, order, shared, ?_⟩
  rw [← shared.length, ← List.length_eq_zero_iff]
  omega

end Ppcom
