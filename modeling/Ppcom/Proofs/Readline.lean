/-
Module: Ppcom.Proofs.Readline
Purpose: `fd_readline` is the editor of `Ppcom.Spec.Editor`, in the buffer and on the terminal: a step
  lemma for each kind of byte, and from them the run over any bytes.
Trusted boundary: none
Main exports: Holding.type, Holding.erase, readlineTurn_agrees, readlineBytes_agrees,
  fd_readline_is_editor
-/
import Mathlib.Data.Fintype.Basic
import Ppcom.Spec.Editor

namespace Ppcom

/-! ### How a byte is shown -/

theorem isprint_iff {c : UInt8} : isprint c = true ↔ 0x20 ≤ c ∧ c ≤ 0x7e := by
  simp [isprint]

theorem renderByte_printable (c : UInt8) : ∀ d ∈ renderByte c, TextRow.Printable d := by
  have all : ∀ c : UInt8, (renderByte c).all (fun d => decide (TextRow.Printable d)) = true :=
    forall_byte (by decide +kernel)
  intro d inside
  exact of_decide_eq_true (List.all_eq_true.mp (all c) d inside)

/-- `xput` writes what a byte that cannot be printed is shown as. -/
theorem xput_rendering (l : Readline) {c : UInt8} (control : isprint c = false) :
    l.xput c = l.write (renderByte c) := by
  have all : ∀ c : UInt8, isprint c = false →
      [0x5c, 0x78, (ascii "0123456789abcdef").getD (c >>> 4).toNat 0,
        (ascii "0123456789abcdef").getD (c &&& 0x0f).toNat 0] = renderByte c :=
    forall_byte (by decide +kernel)
  rw [← all c control]
  rfl

theorem cput_rendering (l : Readline) {c : UInt8} (printed : isprint c = true) :
    l.cput c = l.write (renderByte c) := by
  unfold Readline.cput renderByte
  rw [if_pos (isprint_iff.mp printed)]

/-- What wipes out the cells that a byte takes. -/
def wiping (c : UInt8) : List UInt8 :=
  List.replicate (renderByte c).length TextRow.backspace ++
    List.replicate (renderByte c).length TextRow.blank ++
    List.replicate (renderByte c).length TextRow.backspace

theorem cdel_wiping (l : Readline) {c : UInt8} (printed : isprint c = true) :
    l.cdel = l.write (wiping c) := by
  unfold Readline.cdel wiping renderByte
  rw [if_pos (isprint_iff.mp printed)]
  rfl

theorem xdel_wiping (l : Readline) {c : UInt8} (control : isprint c = false) :
    l.xdel = l.write (wiping c) := by
  have notPrinted : ¬ (0x20 ≤ c ∧ c ≤ 0x7e) := fun h => by
    rw [isprint_iff.mpr h] at control
    cases control
  unfold Readline.xdel wiping renderByte
  rw [if_neg notPrinted]
  rfl

theorem rendering_concat (held : List UInt8) (c : UInt8) :
    rendering (held ++ [c]) = rendering held ++ renderByte c := by
  simp [rendering]

/-! ### One byte -/

section Turn

variable {b : Nat → UInt8} {bsz : Nat} {row : TextRow} {prompt held : List UInt8} {l : Readline}

/-- The bell shows nothing. -/
theorem Holding.bell (holds : Holding b bsz row prompt held l) :
    Holding b bsz row prompt held (l.cput 0x07) where
  count := holds.count
  room := holds.room
  kept := holds.kept
  within := holds.within
  text := by
    have silent : ∀ row : TextRow, row.write [0x07] = row := fun row => by
      have control : ¬ TextRow.Printable 0x07 := by decide
      have other : ¬ (0x07 : UInt8) = TextRow.backspace := by decide
      show row.put 0x07 = row
      unfold TextRow.put
      rw [if_neg control, if_neg other]
    show (row.write (l.echo ++ [0x07])).Shows _
    rw [TextRow.write_append, silent]
    exact holds.text

/-- A byte for which there is room is stored behind the others and shown behind them. -/
theorem Holding.type (holds : Holding b bsz row prompt held l) {c : UInt8}
    (room : held.length < bsz - 1) :
    Holding b bsz row prompt (held ++ [c])
      (({ l.store c with bp := l.bp + 1 } : Readline).write (renderByte c)) where
  count := by
    show l.bp + 1 = _
    rw [holds.count, List.length_append, List.length_singleton]
  room := by
    rw [List.length_append, List.length_singleton]
    omega
  kept := by
    intro i d found
    show Stores.apply b (l.stores ++ [(l.bp, c)]) i = d
    rw [Stores.apply_append, holds.count, Stores.apply_cons, Stores.apply_nil]
    by_cases last : i = held.length
    · subst last
      simp only [List.getElem?_concat_length, Option.some.injEq] at found
      simp only [Function.update_self, found]
    · have inside : i < held.length := by
        have bound := (List.getElem?_eq_some_iff.mp found).1
        rw [List.length_append, List.length_singleton] at bound
        omega
      rw [List.getElem?_append_left inside] at found
      simp only [Function.update_of_ne last]
      exact holds.kept i d found
  within := by
    intro store member
    rcases List.mem_append.mp member with earlier | new
    · exact holds.within store earlier
    · cases List.mem_singleton.mp new
      show l.bp < bsz
      rw [holds.count]
      omega
  text := by
    show (row.write (l.echo ++ renderByte c)).Shows _
    rw [TextRow.write_append, rendering_concat, ← List.append_assoc]
    exact holds.text.append (renderByte_printable c)

/-- Erasing the last byte wipes out the cells that it was shown in. -/
theorem Holding.erase {c : UInt8} (holds : Holding b bsz row prompt (held ++ [c]) l) :
    Holding b bsz row prompt held (({ l with bp := l.bp - 1 } : Readline).write (wiping c)) where
  count := by
    show l.bp - 1 = _
    rw [holds.count, List.length_append, List.length_singleton, Nat.add_sub_cancel]
  room := by
    have room := holds.room
    rw [List.length_append] at room
    omega
  kept := by
    intro i d found
    have inside := (List.getElem?_eq_some_iff.mp found).1
    exact holds.kept i d (by rw [List.getElem?_append_left inside, found])
  within := holds.within
  text := by
    have shown := holds.text
    rw [rendering_concat, ← List.append_assoc] at shown
    show (row.write (l.echo ++ wiping c)).Shows _
    rw [TextRow.write_append]
    exact shown.wipe

/-- The NUL behind the finished line. -/
theorem Holding.finish (holds : Holding b bsz row prompt held l) (some : 1 ≤ bsz) :
    Holding b bsz row prompt held (l.store 0) ∧
      Stores.apply b (l.store 0).stores held.length = 0 := by
  have stores : ∀ i, Stores.apply b (l.store 0).stores i =
      Function.update (Stores.apply b l.stores) held.length 0 i := by
    intro i
    show Stores.apply b (l.stores ++ [(l.bp, 0)]) i = _
    rw [Stores.apply_append, holds.count]
    rfl
  refine ⟨⟨holds.count, holds.room, ?_, ?_, holds.text⟩, ?_⟩
  · intro i d found
    have inside := (List.getElem?_eq_some_iff.mp found).1
    rw [stores, Function.update_of_ne (Nat.ne_of_lt inside)]
    exact holds.kept i d found
  · intro store member
    rcases List.mem_append.mp member with earlier | new
    · exact holds.within store earlier
    · cases List.mem_singleton.mp new
      have room := holds.room
      show l.bp < bsz
      rw [holds.count]
      omega
  · rw [stores, Function.update_self]

/-- The byte that `*bp` is after `bp--`. -/
theorem Holding.deref_last {c : UInt8} (holds : Holding b bsz row prompt (held ++ [c]) l) :
    ({ l with bp := l.bp - 1 } : Readline).deref b = c := by
  have place : l.bp - 1 = held.length := by
    rw [holds.count, List.length_append, List.length_singleton, Nat.add_sub_cancel]
  show Stores.apply b l.stores (l.bp - 1) = c
  rw [place]
  exact holds.kept held.length c (by simp)

/-- One turn does what the editor does with the byte. -/
theorem readlineTurn_agrees (some : 1 ≤ bsz) (holds : Holding b bsz row prompt held l) (c : UInt8)
    (rest : List UInt8) :
    Agrees b bsz row prompt ((Editor.editing held).key (bsz - 1) c)
      (readlineTurn b bsz l (.data c rest)) := by
  simp only [Editor.key, readlineTurn]
  by_cases erases : c = 0x08 ∨ c = 0x7f
  · rw [if_pos erases, if_pos erases]
    rcases List.eq_nil_or_concat held with rfl | ⟨before, last, rfl⟩
    · rw [if_neg (by rw [holds.count]; simp)]
      exact .editing holds.bell
    · rw [List.concat_eq_append] at holds ⊢
      have positive : 0 < l.bp := by
        rw [holds.count]
        simp
      rw [if_pos positive, List.dropLast_concat]
      simp only [holds.deref_last]
      cases printed : isprint last with
      | true =>
          rw [if_pos rfl, cdel_wiping _ printed]
          exact .editing holds.erase
      | false =>
          rw [if_neg (by simp), xdel_wiping _ printed]
          exact .editing holds.erase
  rw [if_neg erases, if_neg erases]
  by_cases aborts : c = 0x03
  · rw [if_pos aborts, if_pos aborts]
    exact .aborted holds
  rw [if_neg aborts, if_neg aborts]
  by_cases finishes : c = 0x0d
  · rw [if_pos finishes, if_pos finishes, holds.count]
    exact .finished (holds.finish some).1 (holds.finish some).2
  rw [if_neg finishes, if_neg finishes]
  by_cases room : held.length < bsz - 1
  · rw [if_pos room, if_pos (by rwa [holds.count])]
    cases printed : isprint c with
    | true =>
        rw [if_pos rfl, cput_rendering _ printed]
        exact .editing (holds.type room)
    | false =>
        rw [if_neg (by simp), xput_rendering _ printed]
        exact .editing (holds.type room)
  · rw [if_neg room, if_neg (by rwa [holds.count])]
    exact .editing holds.bell

end Turn

/-! ### All bytes -/

theorem edited_concat (limit : Nat) (typed : List UInt8) (c : UInt8) :
    edited limit (typed ++ [c]) = (edited limit typed).key limit c := by
  simp [edited]

theorem readlineBytes_concat (b : Nat → UInt8) (bsz : Nat) (typed : List UInt8) (c : UInt8)
    (l : Readline) :
    (∀ l', readlineBytes b bsz typed l = .next l' →
      readlineBytes b bsz (typed ++ [c]) l = readlineTurn b bsz l' (.data c [])) ∧
    (∀ r l', readlineBytes b bsz typed l = .out r l' →
      readlineBytes b bsz (typed ++ [c]) l = .out r l') := by
  induction typed generalizing l with
  | nil =>
      constructor
      · rintro l' ⟨rfl⟩
        rw [List.nil_append, readlineBytes]
        cases readlineTurn b bsz l (.data c []) <;> rfl
      · intro r l' impossible
        cases impossible
  | cons d typed ih =>
      rw [List.cons_append, readlineBytes, readlineBytes]
      cases readlineTurn b bsz l (.data d []) with
      | next l₁ => exact ih l₁
      | out r l₁ =>
          constructor
          · intro l' impossible
            cases impossible
          · intro r' l' same
            exact same

section Run

variable {b : Nat → UInt8} {bsz : Nat} {row : TextRow} {prompt : List UInt8}

theorem Holding.start (shown : row.Shows prompt) : Holding b bsz row prompt [] .start where
  count := rfl
  room := Nat.zero_le _
  kept := by simp
  within := by simp [Readline.start]
  text := by simpa [Readline.start, rendering] using shown

/-- After any bytes the function is where the editor is. -/
theorem readlineBytes_agrees (some : 1 ≤ bsz) (shown : row.Shows prompt) (typed : List UInt8) :
    Agrees b bsz row prompt (edited (bsz - 1) typed) (readlineBytes b bsz typed .start) := by
  induction typed using List.reverseRecOn with
  | nil => exact .editing (.start shown)
  | append_singleton typed c ih =>
      rw [edited_concat]
      obtain ⟨goesOn, ended⟩ := readlineBytes_concat b bsz typed c .start
      generalize edited (bsz - 1) typed = e at ih ⊢
      generalize readlineBytes b bsz typed .start = turn at ih goesOn ended
      cases ih with
      | editing holds =>
          rw [goesOn _ rfl]
          exact readlineTurn_agrees some holds c []
      | finished holds terminated =>
          rw [ended _ _ rfl]
          exact .finished holds terminated
      | aborted holds =>
          rw [ended _ _ rfl]
          exact .aborted holds

end Run

/-! ### A descriptor -/

theorem readlineTurn_ends (b : Nat → UInt8) (bsz : Nat) (l : Readline) {reply : ReadReply}
    (nothing : ∀ c rest, reply ≠ .data c rest) : readlineTurn b bsz l reply = .out (-1) l := by
  cases reply with
  | data c rest => exact absurd rfl (nothing c rest)
  | zero | again | failed => rfl

/-- A read of one byte takes the first of the bytes typed, if there is one. -/
theorem Source.read_one (src : Source) :
    (∃ c later, Source.read 1 src = (.data c [], later) ∧ src.typed = c :: later.typed ∧
      later.size < src.size) ∨
    (src.typed = [] ∧ ∀ c rest, (Source.read 1 src).1 ≠ .data c rest) := by
  cases src with
  | nil => exact Or.inr ⟨rfl, by simp [Source.read]⟩
  | cons reply later =>
      cases reply with
      | data first rest =>
          cases rest with
          | nil => exact Or.inl ⟨first, later, rfl, rfl, by simp [Source.size]⟩
          | cons next more =>
              exact Or.inl ⟨first, .data next more :: later, rfl, rfl, by simp [Source.size]⟩
      | zero | again | failed => exact Or.inr ⟨rfl, by simp [Source.read]⟩

theorem readlineEchoLoop_bytes (b : Nat → UInt8) (bsz : Nat) {n : Nat} (l : Readline) (src : Source)
    (enough : src.size < n) :
    ∃ left, readlineEchoLoop b bsz n l src =
      ((readlineBytes b bsz src.typed l).value, (readlineBytes b bsz src.typed l).line, left) := by
  induction n generalizing l src with
  | zero => exact absurd enough (Nat.not_lt_zero _)
  | succ n ih =>
      rcases src.read_one with ⟨c, later, read, typed, shorter⟩ | ⟨typed, nothing⟩
      · unfold readlineEchoLoop
        simp only [read]
        rw [typed, readlineBytes]
        cases readlineTurn b bsz l (.data c []) with
        | next l' => exact ih l' later (by omega)
        | out r l' => exact ⟨later, rfl⟩
      · unfold readlineEchoLoop
        simp only [readlineTurn_ends b bsz l nothing, typed]
        exact ⟨_, rfl⟩

/-- The line that the prompts get is the one that is finished in the editor. -/
theorem fdReadline_edited (bsz : Nat) (src : Source) :
    (fdReadline bsz src).1 = (edited (bsz - 1) src.typed).line := by
  have ended : ∀ (limit : Nat) (e : Editor), (∀ c, e.key limit c = e) → ∀ typed : List UInt8,
      typed.foldl (Editor.key limit) e = e := by
    intro limit e stays typed
    induction typed with
    | nil => rfl
    | cons c typed ih => rw [List.foldl_cons, stays, ih]
  have loop : ∀ n held src, src.size ≤ n → (readlineLoop bsz n held src).1 =
      (src.typed.foldl (Editor.key (bsz - 1)) (.editing held)).line := by
    intro n
    induction n with
    | zero =>
        intro held src none
        rcases src.read_one with ⟨c, later, _, _, shorter⟩ | ⟨typed, _⟩
        · omega
        · rw [typed]
          rfl
    | succ n ih =>
        intro held src enough
        rcases src.read_one with ⟨c, later, read, typed, shorter⟩ | ⟨typed, nothing⟩
        · rw [typed, List.foldl_cons]
          simp only [readlineLoop, read, Editor.key]
          split
          · exact ih _ later (by omega)
          split
          · rw [ended _ _ (fun _ => rfl)]
            rfl
          split
          · rw [ended _ _ (fun _ => rfl)]
            rfl
          split
          · exact ih _ later (by omega)
          · exact ih _ later (by omega)
        · rw [typed]
          unfold readlineLoop
          rcases read : Source.read 1 src with ⟨reply, later⟩
          rw [read] at nothing
          cases reply with
          | data c rest => exact absurd rfl (nothing c rest)
          | zero | again | failed => rfl
  exact loop src.size [] src (Nat.le_refl _)

/-- For every size of the buffer and whatever is typed, `fd_readline` is the line editor. After any
bytes it is where the editor is, with the bytes held in the buffer, no store outside it, and the
terminal showing the prompt and the bytes held. A byte for which there is no room changes nothing and
rings the bell. On a descriptor it does this with the bytes that come before the end of the input, and
returns -1 at the end. -/
theorem fd_readline_is_editor {bsz : Nat} (some : 1 ≤ bsz) (b : Nat → UInt8) {row : TextRow}
    {prompt : List UInt8} (shown : row.Shows prompt) :
    (∀ typed, Agrees b bsz row prompt (edited (bsz - 1) typed)
      (readlineBytes b bsz typed .start)) ∧
    (∀ typed held c l, edited (bsz - 1) typed = .editing held → Ordinary c →
      held.length = bsz - 1 → readlineBytes b bsz typed .start = .next l →
        readlineBytes b bsz (typed ++ [c]) .start = .next (l.cput 0x07)) ∧
    ∀ src, ∃ left, fdReadlineEcho b bsz src =
      ((readlineBytes b bsz src.typed .start).value, (readlineBytes b bsz src.typed .start).line,
        left) := by
  refine ⟨readlineBytes_agrees some shown, ?_, ?_⟩
  · intro typed held c l editing ordinary full reading
    have holds := readlineBytes_agrees (b := b) some shown typed
    rw [editing, reading] at holds
    cases holds with
    | editing holds =>
        rw [(readlineBytes_concat b bsz typed c .start).1 l reading]
        simp only [readlineTurn]
        rw [if_neg ordinary.1, if_neg ordinary.2.1, if_neg ordinary.2.2,
          if_neg (by rw [holds.count]; omega)]
  · intro src
    exact readlineEchoLoop_bytes b bsz .start src (Nat.lt_succ_self _)

/-- A buffer of two bytes and the prompt `>`. -/
theorem fd_readline_is_editor_two :
    (∀ typed, Agrees (fun _ => 0xff) 2 ⟨fun i => if i = 0 then 0x3e else 0x20, 1⟩ [0x3e]
      (edited (2 - 1) typed) (readlineBytes (fun _ => 0xff) 2 typed .start)) ∧
    (∀ typed held c l, edited (2 - 1) typed = .editing held → Ordinary c →
      held.length = 2 - 1 → readlineBytes (fun _ => 0xff) 2 typed .start = .next l →
        readlineBytes (fun _ => 0xff) 2 (typed ++ [c]) .start = .next (l.cput 0x07)) ∧
    ∀ src, ∃ left, fdReadlineEcho (fun _ => 0xff) 2 src =
      ((readlineBytes (fun _ => 0xff) 2 src.typed .start).value,
        (readlineBytes (fun _ => 0xff) 2 src.typed .start).line, left) := by
  refine fd_readline_is_editor (by decide) (fun _ => 0xff) ⟨fun i => ?_, rfl⟩
  cases i with
  | zero => rfl
  | succ i => rfl

end Ppcom
