/-
Module: Ppcom.Proofs.LinenoiseOps
Purpose: What the functions of the line editor do to the line that the buffer holds: each stays within the
  buffer, edits the line as its command says, and leaves the row showing it.
Trusted boundary: none
Main exports: Drawn, Editing, Gives, Editing.insert, Editing.delete, Editing.backspace, Editing.dropWord,
  Editing.swap
-/
import Ppcom.Proofs.LineView

namespace Ppcom

/-- What `linenoiseClearScreen` writes. -/
def clearBytes : List UInt8 := (0x1b :: ascii "[H") ++ (0x1b :: ascii "[2J")

/-- The bytes written show the line: a row was written for it, or it was one byte shorter, the cursor at
its end, and there was room for that byte. The bytes of all lines that were shown have the property `p`. -/
inductive Drawn (p : UInt8 → Prop) (prompt : List UInt8) (cols : Nat) :
    CursorLine UInt8 → List UInt8 → Prop where
  | start : Drawn p prompt cols (.ending []) prompt
  | row {z z' : CursorLine UInt8} {out : List UInt8} (before : Drawn p prompt cols z out)
      (plain : ∀ c ∈ z'.text, p c) : Drawn p prompt cols z' (out ++ rowBytes prompt cols z')
  | clear {z z' : CursorLine UInt8} {out : List UInt8} (before : Drawn p prompt cols z out)
      (plain : ∀ c ∈ z'.text, p c) :
      Drawn p prompt cols z' (out ++ clearBytes ++ rowBytes prompt cols z')
  | char {z : CursorLine UInt8} {out : List UInt8} {c : UInt8} (before : Drawn p prompt cols z out)
      (atEnd : z.right = []) (room : prompt.length + (z.text.length + 1) < cols) (plain : p c) :
      Drawn p prompt cols (z.insert c) (out ++ [c])

/-- The buffer holds the line, and the row shows it. -/
structure Editing (p : UInt8 → Prop) (z : CursorLine UInt8) (l : Linenoise) : Prop where
  holds : HoldsLine z l
  plain : ∀ c ∈ z.text, p c
  drawn : Drawn p l.prompt l.cols z l.out

/-- What no command on the line changes. -/
def Linenoise.frame (l : Linenoise) : Nat × List UInt8 × Nat × Int × LineHistory :=
  (l.buflen, l.prompt, l.cols, l.historyIndex, l.history)

/-- A function on the state stays within memory and leaves the line `z`. -/
def Gives (p : UInt8 → Prop) (z : CursorLine UInt8) (l : Linenoise) (result : Option Linenoise) : Prop :=
  ∃ l', result = some l' ∧ Editing p z l' ∧ l'.frame = l.frame

section

variable {p : UInt8 → Prop} {z y : CursorLine UInt8} {l : Linenoise}

/-! ### Showing the line -/

theorem HoldsLine.redraw (holds : HoldsLine y l) (drawn : Drawn p l.prompt l.cols z l.out)
    (plain : ∀ c ∈ y.text, p c) : Gives p y l (refreshSingleLine l) :=
  ⟨_, holds.refresh, ⟨⟨holds.held, holds.size, holds.pos, holds.len, holds.plen, holds.wide,
    holds.small⟩, plain, drawn.row plain⟩, rfl⟩

/-- The line is changed in the buffer, and shown. -/
theorem Editing.redraw (editing : Editing p z l) {buf : List UInt8} {pos len : Nat}
    (held : ∃ rest, buf = y.left ++ y.right ++ 0 :: rest)
    (size : buf.length = l.buf.length) (atPos : pos = y.left.length)
    (ofLen : len = y.left.length + y.right.length) (plain : ∀ c ∈ y.text, p c) :
    Gives p y l (refreshSingleLine { l with buf := buf, pos := pos, len := len }) := by
  obtain ⟨holds, -, drawn⟩ := editing
  have after : HoldsLine y { l with buf := buf, pos := pos, len := len } :=
    ⟨held, size.trans holds.size, atPos, ofLen, holds.plen, holds.wide, holds.small⟩
  exact after.redraw drawn plain

theorem Editing.same (editing : Editing p z l) : Gives p z l (some l) := ⟨l, rfl, editing, rfl⟩

/-- The cursor goes to another place of the line. -/
theorem Editing.moveTo (editing : Editing p z l) {pos : Nat} (text : y.text = z.text)
    (atPos : pos = y.left.length) : Gives p y l (refreshSingleLine { l with pos := pos }) := by
  obtain ⟨rest, held⟩ := editing.holds.held
  show Gives p y l (refreshSingleLine { l with buf := l.buf, pos := pos, len := l.len })
  apply editing.redraw
  · exact ⟨rest, by rw [held, ← CursorLine.text, ← text]; rfl⟩
  · rfl
  · exact atPos
  · rw [← editing.holds.length_text, ← text, CursorLine.length_text]
  · rw [text]
    exact editing.plain

/-! ### Inserting -/

theorem Editing.insert (editing : Editing p z l) {c : UInt8} (ok : p c) :
    Gives p (if z.text.length < l.buflen then z.insert c else z) l (linenoiseEditInsert l c) := by
  rw [editing.holds.length_text, linenoiseEditInsert]
  by_cases room : l.len < l.buflen
  · rw [if_pos room, if_pos room]
    obtain ⟨⟨rest, held⟩, size, pos, len, plen, wide, small⟩ := editing.holds
    have total := congrArg List.length held
    rw [size, List.length_append, List.length_append, List.length_cons] at total
    -- the cell behind the terminator takes the new one
    obtain ⟨next, rest, rfl⟩ := List.exists_cons_of_length_pos (l := rest) (by omega)
    have plain : ∀ d ∈ (z.insert c).text, p d := by
      intro d inside
      rcases List.mem_append.mp inside with before | behind
      · rcases List.mem_append.mp before with left | new
        · exact editing.plain d (List.mem_append_left _ left)
        · rw [List.mem_singleton.mp new]
          exact ok
      · exact editing.plain d (List.mem_append_right _ behind)
    have lenAfter : l.len + 1 = (z.insert c).left.length + (z.insert c).right.length := by
      simp only [CursorLine.insert, List.length_append, List.length_singleton]
      omega
    have posAfter : l.pos + 1 = (z.insert c).left.length := by
      simp [CursorLine.insert, pos]
    by_cases atEnd : l.len = l.pos
    · have none : z.right = [] := List.eq_nil_of_length_eq_zero (by omega)
      rw [none] at held len
      have first : Block.write l.buf l.pos [c] = some (z.left ++ [c] ++ next :: rest) :=
        Block.write_between _ [0] _ (by rw [held]; simp) pos rfl
      have second : Block.write (z.left ++ [c] ++ next :: rest) (l.len + 1) [0] =
          some (z.left ++ [c] ++ [0] ++ rest) :=
        Block.write_between _ [next] _ (by simp) (by simp [len]) rfl
      rw [if_pos atEnd, first, Option.bind_eq_bind, Option.bind_some, second, Option.bind_some]
      have after : HoldsLine (z.insert c)
          { l with buf := z.left ++ [c] ++ [0] ++ rest, pos := l.pos + 1, len := l.len + 1 } := by
        constructor
        · exact ⟨rest, by simp [CursorLine.insert, none]⟩
        · rw [← size, held]
          simp
        · exact posAfter
        · exact lenAfter
        · exact plen
        · exact wide
        · exact small
      have fits : sizeAdd l.plen (l.len + 1) = l.prompt.length + (z.text.length + 1) := by
        rw [plen, editing.holds.length_text]
        exact sizeAdd_of_small (by omega)
      simp only [fits]
      split
      · next short =>
        exact ⟨_, rfl, ⟨⟨after.held, after.size, after.pos, after.len, after.plen, after.wide,
          after.small⟩, plain, editing.drawn.char none short ok⟩, rfl⟩
      · exact after.redraw editing.drawn plain
    · obtain ⟨b, right, cons⟩ := List.exists_cons_of_length_pos (l := z.right) (by omega)
      rw [cons] at held len
      have moved : Block.move l.buf (l.pos + 1) l.pos (sizeSub l.len l.pos) =
          some (z.left ++ [b] ++ (b :: right) ++ next :: rest) := by
        apply Block.move_between z.left (b :: right) (0 :: next :: rest) (z.left ++ [b]) (right ++ [0])
        · rw [held]
        · exact pos
        · rw [sizeSub_of_le (by omega)]
          omega
        · rw [held]
          simp
        · rw [pos]
          simp
        · simp
      have first : Block.write (z.left ++ [b] ++ (b :: right) ++ next :: rest) l.pos [c] =
          some (z.left ++ [c] ++ (b :: right ++ next :: rest)) :=
        Block.write_between _ [b] _ (by simp) pos rfl
      have second : Block.write (z.left ++ [c] ++ (b :: right ++ next :: rest)) (l.len + 1) [0] =
          some (z.left ++ [c] ++ (b :: right) ++ [0] ++ rest) :=
        Block.write_between _ [next] _ (by simp)
          (by rw [len]; simp only [List.length_append, List.length_singleton]; omega) rfl
      rw [if_neg atEnd, moved, Option.bind_eq_bind, Option.bind_some, first, Option.bind_some, second,
        Option.bind_some]
      apply editing.redraw
      · exact ⟨rest, by simp [CursorLine.insert, cons]⟩
      · rw [held]
        simp
        omega
      · exact posAfter
      · exact lenAfter
      · exact plain
  · rw [if_neg room, if_neg room]
    exact editing.same

/-! ### Moving -/

theorem Editing.moveLeft (editing : Editing p z l) : Gives p z.moveLeft l (linenoiseEditMoveLeft l) := by
  unfold linenoiseEditMoveLeft
  have pos := editing.holds.pos
  by_cases inside : 0 < l.pos
  · rw [if_pos inside]
    apply editing.moveTo z.text_moveLeft
    rw [CursorLine.moveLeft, List.length_dropLast, pos]
  · rw [if_neg inside, CursorLine.moveLeft_of_start (List.eq_nil_of_length_eq_zero (by omega))]
    exact editing.same

theorem Editing.moveRight (editing : Editing p z l) :
    Gives p z.moveRight l (linenoiseEditMoveRight l) := by
  unfold linenoiseEditMoveRight
  have pos := editing.holds.pos
  have len := editing.holds.len
  by_cases inside : l.pos ≠ l.len
  · rw [if_pos inside]
    apply editing.moveTo z.text_moveRight
    obtain ⟨c, right, cons⟩ := List.exists_cons_of_length_pos (l := z.right) (by omega)
    simp [CursorLine.moveRight, cons, pos]
  · rw [if_neg inside, CursorLine.moveRight_of_end (List.eq_nil_of_length_eq_zero (by omega))]
    exact editing.same

theorem Editing.home (editing : Editing p z l) : Gives p z.home l (linenoiseEditMoveHome l) := by
  unfold linenoiseEditMoveHome
  have pos := editing.holds.pos
  by_cases inside : l.pos ≠ 0
  · rw [if_pos inside]
    exact editing.moveTo rfl rfl
  · rw [if_neg inside, CursorLine.home_of_start (List.eq_nil_of_length_eq_zero (by omega))]
    exact editing.same

theorem Editing.last (editing : Editing p z l) : Gives p z.last l (linenoiseEditMoveEnd l) := by
  unfold linenoiseEditMoveEnd
  have pos := editing.holds.pos
  have len := editing.holds.len
  by_cases inside : l.pos ≠ l.len
  · rw [if_pos inside]
    exact editing.moveTo z.text_last editing.holds.length_text.symm
  · rw [if_neg inside, CursorLine.last_of_end (List.eq_nil_of_length_eq_zero (by omega))]
    exact editing.same

/-! ### Deleting -/

theorem Editing.delete (editing : Editing p z l) : Gives p z.delete l (linenoiseEditDelete l) := by
  obtain ⟨⟨rest, held⟩, size, pos, len, -, -, -⟩ := editing.holds
  unfold linenoiseEditDelete
  by_cases inside : 0 < l.len ∧ l.pos < l.len
  · rw [if_pos inside]
    obtain ⟨b, right, cons⟩ := List.exists_cons_of_length_pos (l := z.right) (by omega)
    rw [cons] at held len
    rw [List.length_cons] at len
    obtain ⟨junk, one, moved⟩ := Block.move_down z.left [b] right (0 :: rest)
      (held.trans (by simp)) pos (congrArg (· + 1) pos) (k := l.len - l.pos - 1) (by omega)
    obtain ⟨d, rfl⟩ := List.length_eq_one_iff.mp one
    have cut : Block.write (z.left ++ right ++ ([d] ++ 0 :: rest)) (l.len - 1) [0] =
        some (z.left ++ right ++ [0] ++ 0 :: rest) :=
      Block.write_between _ [d] _ (by simp) (by rw [List.length_append]; omega) rfl
    rw [moved, Option.bind_eq_bind, Option.bind_some, cut, Option.bind_some]
    apply editing.redraw
    · exact ⟨0 :: rest, by simp [CursorLine.delete, cons]⟩
    · rw [held]
      simp only [List.length_append, List.length_cons, List.length_nil]
      omega
    · exact pos
    · rw [CursorLine.delete, cons, List.tail_cons]
      simp only
      omega
    · intro c member
      apply editing.plain
      rw [CursorLine.text, cons]
      rw [CursorLine.text, CursorLine.delete, cons, List.tail_cons] at member
      rcases List.mem_append.mp member with before | behind
      · exact List.mem_append_left _ before
      · exact List.mem_append_right _ (List.mem_cons_of_mem _ behind)
  · rw [if_neg inside]
    have none : z.right = [] := List.eq_nil_of_length_eq_zero (by omega)
    have stays : z.delete = z := by
      cases z
      cases none
      rfl
    rw [stays]
    exact editing.same

theorem Editing.backspace (editing : Editing p z l) :
    Gives p z.backspace l (linenoiseEditBackspace l) := by
  obtain ⟨⟨rest, held⟩, size, pos, len, -, -, -⟩ := editing.holds
  unfold linenoiseEditBackspace
  by_cases inside : 0 < l.pos ∧ 0 < l.len
  · rw [if_pos inside]
    have some : z.left ≠ [] := List.ne_nil_of_length_pos (pos ▸ inside.1)
    have parts := List.dropLast_append_getLast some
    have shorter : z.left.dropLast.length = z.left.length - 1 := List.length_dropLast
    obtain ⟨junk, one, moved⟩ := Block.move_down z.left.dropLast [z.left.getLast some] z.right
      (0 :: rest) (held.trans (by rw [parts])) (show l.pos - 1 = z.left.dropLast.length by omega)
      (show l.pos = _ by rw [List.length_singleton]; omega)
      (show sizeSub l.len l.pos = _ by rw [sizeSub_of_le (by omega)]; omega)
    obtain ⟨d, rfl⟩ := List.length_eq_one_iff.mp one
    have cut : Block.write (z.left.dropLast ++ z.right ++ ([d] ++ 0 :: rest)) (l.len - 1) [0] =
        Option.some (z.left.dropLast ++ z.right ++ [0] ++ 0 :: rest) :=
      Block.write_between _ [d] _ (by simp) (by rw [List.length_append]; omega) rfl
    rw [moved, Option.bind_eq_bind, Option.bind_some, cut, Option.bind_some]
    apply editing.redraw
    · exact ⟨0 :: rest, by simp [CursorLine.backspace]⟩
    · rw [held]
      simp only [List.length_append, List.length_cons, List.length_nil]
      omega
    · rw [CursorLine.backspace]
      simp only
      omega
    · rw [CursorLine.backspace]
      simp only
      omega
    · intro c member
      apply editing.plain
      rcases List.mem_append.mp member with before | behind
      · exact List.mem_append_left _ (List.mem_of_mem_dropLast before)
      · exact List.mem_append_right _ behind
  · rw [if_neg inside]
    have none : z.left = [] := List.eq_nil_of_length_eq_zero (by omega)
    have stays : z.backspace = z := by
      cases z
      cases none
      rfl
    rw [stays]
    exact editing.same

/-- The loops over a word stop where what is before the cursor, without its end, stops. -/
theorem skipBack_eq (meets : UInt8 → Bool) (left behind : List UInt8) :
    skipBack meets (left ++ behind) left.length = some (left.rdropWhile meets).length := by
  induction left using List.reverseRecOn generalizing behind with
  | nil => rfl
  | append_singleton left c ih =>
      have here : (left ++ [c] ++ behind)[left.length]? = some c := by
        simp
      rw [List.length_append, List.length_singleton, skipBack, here]
      by_cases met : meets c
      · simp only [met, if_true]
        rw [List.append_assoc, ih, List.rdropWhile_concat_pos _ _ _ met]
      · simp only [met]
        rw [List.rdropWhile_concat_neg _ _ _ met]
        simp

theorem Editing.dropWord (editing : Editing p z l) :
    Gives p (z.dropWord (· == 0x20)) l (linenoiseEditDeletePrevWord l) := by
  obtain ⟨⟨rest, held⟩, size, pos, len, -, -, small⟩ := editing.holds
  have lenLe := editing.holds.len_le
  obtain ⟨blanks, isBlanks⟩ := List.rdropWhile_prefix (· == 0x20) (l := z.left)
  obtain ⟨word, isWord⟩ :=
    List.rdropWhile_prefix (fun c => !(c == 0x20)) (l := z.left.rdropWhile (· == 0x20))
  generalize kept : (z.left.rdropWhile (· == 0x20)).rdropWhile (fun c => !(c == 0x20)) = left at isWord
  have first : skipBack (· == 0x20) l.buf l.pos = some (z.left.rdropWhile (· == 0x20)).length := by
    rw [held, pos, List.append_assoc]
    exact skipBack_eq _ _ _
  have second : skipBack (· != 0x20) l.buf (z.left.rdropWhile (· == 0x20)).length = some left.length := by
    rw [held, ← kept]
    nth_rewrite 1 [← isBlanks]
    rw [List.append_assoc, List.append_assoc]
    exact skipBack_eq _ _ _
  have parts : z.left = left ++ (word ++ blanks) := by
    rw [← List.append_assoc, isWord, isBlanks]
  have lengths : z.left.length = left.length + (word ++ blanks).length := by
    rw [parts, List.length_append]
  obtain ⟨junk, gap, moved⟩ := Block.move_down left (word ++ blanks) (z.right ++ [0]) rest
    (held.trans (by rw [← parts]; simp)) rfl (show l.pos = _ by omega)
    (show sizeAdd (sizeSub l.len l.pos) 1 = _ by
      rw [sizeSub_of_le (by omega), sizeAdd_of_small (by omega), List.length_append, List.length_singleton]
      omega)
  unfold linenoiseEditDeletePrevWord
  simp only [first, second, moved, Option.bind_eq_bind, Option.bind_some]
  apply editing.redraw (y := z.dropWord (· == 0x20))
  · exact ⟨junk ++ rest, by simp [CursorLine.dropWord, kept]⟩
  · rw [held, parts]
    simp only [List.length_append, List.length_cons, List.length_nil, gap]
    omega
  · rw [CursorLine.dropWord, kept]
  · rw [CursorLine.dropWord, kept, sizeSub_of_le (by omega)]
    simp only
    omega
  · intro c member
    apply editing.plain
    rw [CursorLine.text, parts]
    rw [CursorLine.text, CursorLine.dropWord, kept] at member
    rcases List.mem_append.mp member with before | behind
    · exact List.mem_append_left _ (List.mem_append_left _ before)
    · exact List.mem_append_right _ behind

/-- The line is emptied. -/
theorem Editing.clear (editing : Editing p z l) : Gives p (.ending []) l (deleteLine l) := by
  obtain ⟨⟨rest, held⟩, size, -, -, -, -, -⟩ := editing.holds
  obtain ⟨c, cells, cons⟩ := List.exists_cons_of_length_pos (l := l.buf) (by omega)
  have cut : Block.write l.buf 0 [0] = some ([] ++ [0] ++ cells) :=
    Block.write_between _ [c] _ (by rw [cons]; rfl) rfl rfl
  unfold deleteLine
  rw [cut, Option.bind_eq_bind, Option.bind_some]
  apply editing.redraw
  · exact ⟨cells, rfl⟩
  · rw [cons]
    rfl
  · rfl
  · rfl
  · exact nofun

/-- The line is cut at the cursor. -/
theorem Editing.truncate (editing : Editing p z l) : Gives p z.truncate l (deleteTail l) := by
  obtain ⟨⟨rest, held⟩, size, pos, len, -, -, -⟩ := editing.holds
  obtain ⟨c, cells, cons⟩ := List.exists_cons_of_ne_nil (l := z.right ++ 0 :: rest) (by simp)
  have cut : Block.write l.buf l.pos [0] = some (z.left ++ [0] ++ cells) :=
    Block.write_between _ [c] _ (by rw [held, List.append_assoc, cons]; simp) pos rfl
  unfold deleteTail
  rw [cut, Option.bind_eq_bind, Option.bind_some]
  apply editing.redraw
  · exact ⟨cells, by simp [CursorLine.truncate, CursorLine.ending]⟩
  · rw [held, List.append_assoc z.left z.right, cons]
    simp
  · exact pos
  · exact pos
  · intro d member
    apply editing.plain
    rw [CursorLine.truncate, CursorLine.ending, CursorLine.text, List.append_nil] at member
    exact List.mem_append_left _ member

/-! ### Swapping -/

theorem Editing.swap (editing : Editing p z l) : Gives p z.swap l (swapChars l) := by
  obtain ⟨⟨rest, held⟩, size, pos, len, -, -, -⟩ := editing.holds
  unfold swapChars
  by_cases inside : 0 < l.pos ∧ l.pos < l.len
  · rw [if_pos inside]
    obtain ⟨b, right, cons⟩ := List.exists_cons_of_length_pos (l := z.right) (by omega)
    obtain ⟨left, a, snoc⟩ := List.eq_nil_or_concat' z.left |>.resolve_left
      (List.ne_nil_of_length_pos (pos ▸ inside.1))
    rw [snoc, List.length_append, List.length_singleton] at pos
    rw [snoc, cons, List.length_append, List.length_singleton, List.length_cons] at len
    rw [snoc, cons] at held
    have before : l.buf[l.pos - 1]? = some a := by
      rw [held, pos]
      simp
    have here : l.buf[l.pos]? = some b := by
      rw [held, pos]
      simp
    have first : Block.write l.buf (l.pos - 1) [b] = some (left ++ [b] ++ (b :: right ++ 0 :: rest)) :=
      Block.write_between _ [a] _ (by rw [held]; simp) (by rw [pos]; rfl) rfl
    have second : Block.write (left ++ [b] ++ (b :: right ++ 0 :: rest)) l.pos [a] =
        some (left ++ [b] ++ [a] ++ (right ++ 0 :: rest)) :=
      Block.write_between _ [b] _ (by simp) (by rw [pos]; simp) rfl
    simp only [before, here, first, second, Option.bind_eq_bind, Option.bind_some]
    have swapped : z.swap.text = left ++ [b, a] ++ right ∧
        z.swap.left.length = if l.pos ≠ l.len - 1 then l.pos + 1 else l.pos := by
      rw [CursorLine.swap, snoc, cons, List.getLast?_concat, List.dropLast_concat]
      cases right with
      | nil =>
          rw [if_neg (by simp at len; omega)]
          constructor
          · simp [CursorLine.text]
          · simp [pos]
      | cons d right =>
          rw [List.length_cons] at len
          rw [if_pos (by omega)]
          constructor
          · simp [CursorLine.text]
          · simp [pos]
    apply editing.redraw (y := z.swap)
    · exact ⟨rest, by rw [← CursorLine.text, swapped.1]; simp⟩
    · rw [held]
      simp
    · exact swapped.2.symm
    · rw [← CursorLine.length_text, swapped.1, len]
      simp only [List.length_append, List.length_cons, List.length_nil]
      omega
    · intro c member
      apply editing.plain
      rw [CursorLine.text, snoc, cons]
      rw [swapped.1] at member
      simp only [List.mem_append, List.mem_cons, List.not_mem_nil, or_false] at member ⊢
      rcases member with (before | here | there) | behind
      · exact .inl (.inl before)
      · exact .inr (.inl here)
      · exact .inl (.inr there)
      · exact .inr (.inr behind)
  · rw [if_neg inside]
    have stays : z.swap = z := by
      rcases Nat.eq_zero_or_pos l.pos with start | positive
      · exact CursorLine.swap_of_start (List.eq_nil_of_length_eq_zero (by omega))
      · exact CursorLine.swap_of_end (List.eq_nil_of_length_eq_zero (by omega))
    rw [stays]
    exact editing.same

end

end Ppcom
