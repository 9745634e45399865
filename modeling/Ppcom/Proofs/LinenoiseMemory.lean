/-
Module: Ppcom.Proofs.LinenoiseMemory
Purpose: When the line editor stays within memory. Where the prompt leaves room in the row it does, whatever
  is typed: the cursor stays in the line, the line in the buffer with a terminator behind it, and the history
  index in the history. Where it leaves none, one letter is enough for an access outside the buffer.
Trusted boundary: none
Main exports: Linenoise.Sound, linenoise_sound, linenoise_within_iff
-/
import Ppcom.Proofs.LinenoiseScreen

namespace Ppcom

/-- What `linenoiseEdit` relies on where it waits for a byte. -/
structure Linenoise.Sound (size : Nat) (l : Linenoise) : Prop where
  pos : l.pos ≤ l.len
  len : l.len ≤ l.buflen
  buflen : l.buflen + 1 = size
  buf : l.buf.length = size
  terminated : l.buf[l.len]? = some 0
  history : 0 ≤ l.historyIndex ∧ l.historyIndex < l.history.len
  strings : ∀ line ∈ l.history.lines, 0 ∉ line

section

variable {complete : Option (List UInt8 → List (List UInt8))} {history : LineHistory}
  {block prompt : List UInt8} {cols : Nat} {src later : Source} {l : Linenoise}

theorem Mirrors.sound {p : UInt8 → Prop} {k : EditSetting} {d : LineEditor} (mirrors : Mirrors p k d l) :
    l.Sound (k.limit + 1) := by
  obtain ⟨rest, held⟩ := mirrors.holds.held
  have pos := mirrors.holds.pos
  have len := mirrors.holds.len
  have inside := mirrors.inside
  constructor
  · omega
  · exact mirrors.holds.len_le
  · rw [mirrors.buflen]
  · rw [mirrors.holds.size, mirrors.buflen]
  · rw [held, len, ← List.length_append]
    simp
  · rw [mirrors.index, LineHistory.len, mirrors.entries, List.length_reverse]
    omega
  · intro line member
    rw [mirrors.entries] at member
    exact (mirrors.strings line (List.mem_reverse.mp member)).1

/-- A byte that is typed into an empty line is stored, and then shown outside the buffer where the prompt
leaves no room in the row. -/
theorem linenoiseEditInsert_narrow {d : UInt8} {cells : List UInt8} (buf : l.buf = 0 :: d :: cells)
    (pos : l.pos = 0) (len : l.len = 0) (buflen : 0 < l.buflen) (plen : l.plen = l.prompt.length)
    (positive : 0 < l.cols) (narrow : l.cols ≤ l.prompt.length) (small : l.prompt.length + 1 < 2 ^ 31)
    (c : UInt8) : linenoiseEditInsert l c = none := by
  have letter : Block.write l.buf 0 [c] = some ([] ++ [c] ++ d :: cells) :=
    Block.write_between [] [0] (d :: cells) buf rfl rfl
  have terminator : Block.write ([] ++ [c] ++ d :: cells) 1 [0] = some ([c] ++ [0] ++ cells) :=
    Block.write_between [c] [d] cells rfl rfl rfl
  have full : ¬ sizeAdd l.plen 1 < l.cols := by
    rw [plen, sizeAdd_of_small (by omega)]
    omega
  rw [linenoiseEditInsert, len, pos, if_pos buflen, if_pos rfl, letter, Option.bind_eq_bind,
    Option.bind_some, Nat.zero_add, terminator, Option.bind_some]
  simp only [if_neg full]
  have within := refreshSingleLine_within_iff
    (l := { l with buf := [c] ++ [0] ++ cells, pos := 1, len := 1 }) positive (Nat.le_refl 1) (by simp) small
  apply Option.not_isSome_iff_eq_none.mp
  rw [within]
  simp only
  omega

theorem editTurn_narrow (room : 2 ≤ block.length) (positive : 0 < cols) (narrow : cols ≤ prompt.length)
    (small : prompt.length + block.length ≤ 2 ^ 31)
    (start : Linenoise.start history block prompt cols = some l) (seq : Nat → UInt8) :
    editTurn complete seq l [.data 0x61 []] = none := by
  obtain ⟨c, block, rfl⟩ := List.exists_cons_of_length_pos (l := block) (by omega)
  obtain ⟨d, cells, rfl⟩ := List.exists_cons_of_length_pos (l := block)
    (by rw [List.length_cons] at room; omega)
  have cut : Block.write (c :: d :: cells) 0 [0] = some ([] ++ [0] ++ d :: cells) :=
    Block.write_between [] [c] (d :: cells) rfl rfl rfl
  rw [Linenoise.start, cut, Option.map_some, Option.some.injEq] at start
  have buflen : 0 < l.buflen := by
    rw [← start]
    simp only [List.length_cons]
    rw [sizeSub_of_le (by omega)]
    omega
  have outside : linenoiseEditInsert l 0x61 = none := by
    simp only [List.length_cons] at small
    subst start
    exact linenoiseEditInsert_narrow rfl rfl rfl buflen rfl positive narrow (by simp only; omega) 0x61
  have key : keyAction 0x61 = .insert 0x61 := by decide
  have byte : switchByte seq l 0x61 [] = none := by
    rw [switchByte, key]
    simp only [Linenoise.press, outside]
    rfl
  unfold editTurn
  cases complete with
  | none => exact byte
  | some completions => exact byte

end

/-- Whenever `linenoiseEdit` waits for a byte, whatever was typed before, the cursor is in the line, the
line in the buffer with a terminator behind it, the history index in the history, and the next turn accesses
no memory outside of the buffer and the history. -/
theorem linenoise_sound (complete : Option (List UInt8 → List (List UInt8))) (history : LineHistory)
    (block prompt : List UInt8) (cols : Nat) (src : Source) (room : 2 ≤ block.length)
    (wide : prompt.length < cols) (small : prompt.length + block.length ≤ 2 ^ 31)
    (kept : 0 < history.maxLen) (strings : ∀ line ∈ history.lines, 0 ∉ line)
    (fit : ∀ completions, complete = some completions →
      ∀ text, ∀ s ∈ completions text, s.length + 1 < block.length ∧ 0 ∉ s) {l : Linenoise} {later : Source}
    (waiting : Waiting complete history block prompt cols src l later) :
    l.Sound block.length ∧ ∀ seq, (editTurn complete seq l later).isSome := by
  have fitting := completionsFit_true fit
  obtain ⟨d, mirrors, typed⟩ := waiting.mirrors room wide small kept (strings_true strings) fitting
    (allTyped_true _ src)
  have sound := mirrors.sound
  rw [Nat.sub_add_cancel (by omega)] at sound
  constructor
  · exact sound
  · intro seq
    obtain ⟨step, src', t, -, turn, -⟩ :=
      (mirrors.turn (Nat.sub_pos_of_lt room) fitting typed seq).meets
    rw [turn]
    rfl

/-- Nothing is typed yet. -/
theorem linenoise_sound_start :
    Linenoise.Sound 3 ⟨[0, 0x55, 0x55], 2, ascii ">", 1, 0, 0, 20, 0, ⟨[ascii "a", []], 2⟩, ascii ">", 0⟩ ∧
      ∀ seq, (editTurn none seq
        ⟨[0, 0x55, 0x55], 2, ascii ">", 1, 0, 0, 20, 0, ⟨[ascii "a", []], 2⟩, ascii ">", 0⟩
        [.data 0x10 []]).isSome :=
  linenoise_sound none ⟨[ascii "a"], 2⟩ (List.replicate 3 0x55) (ascii ">") 20 [.data 0x10 []] (by decide)
    (by decide) (by decide) (by decide) (by decide) nofun (.start rfl)

/-- For all that can be typed, and all that the stack holds, `linenoise` accesses no memory outside of the
buffer and the history, if and only if the prompt is shorter than the row. -/
theorem linenoise_within_iff (complete : Option (List UInt8 → List (List UInt8))) (history : LineHistory)
    (block prompt : List UInt8) (cols : Nat) (room : 2 ≤ block.length) (positive : 0 < cols)
    (small : prompt.length + block.length ≤ 2 ^ 31) (kept : 0 < history.maxLen)
    (strings : ∀ line ∈ history.lines, 0 ∉ line)
    (fit : ∀ completions, complete = some completions →
      ∀ text, ∀ s ∈ completions text, s.length + 1 < block.length ∧ 0 ∉ s) :
    (∀ stack src, (linenoise complete stack history block prompt cols src).isSome) ↔
      prompt.length < cols := by
  constructor
  · intro within
    by_contra narrow
    have letter := within (fun _ _ => 0) [.data 0x61 []]
    rw [linenoise, linenoiseEdit] at letter
    cases start : Linenoise.start history block prompt cols with
    | none =>
        rw [start] at letter
        cases letter
    | some l =>
        have outside : editTurn complete (fun _ => 0) l [.data 0x61 []] = none :=
          editTurn_narrow room positive (Nat.le_of_not_lt narrow) small start _
        rw [start, Option.bind_some, editLoop, outside] at letter
        cases letter
  · intro wide stack src
    obtain ⟨step, src', l, -, returns, -⟩ := linenoise_run room wide small kept (strings_true strings)
      (completionsFit_true fit) (allTyped_true _ src) stack
    rw [returns]
    rfl

/-- The row has room for the prompt and one byte more. -/
theorem linenoise_within_iff_row :
    (∀ stack src, (linenoise none stack .initial (List.replicate 3 0x55) (ascii "*** file: ") 11
      src).isSome) ↔ (ascii "*** file: ").length < 11 :=
  linenoise_within_iff none .initial (List.replicate 3 0x55) (ascii "*** file: ") 11 (by decide) (by decide)
    (by decide) (by decide) (by decide) nofun

end Ppcom
