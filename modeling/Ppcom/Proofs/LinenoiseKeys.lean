/-
Module: Ppcom.Proofs.LinenoiseKeys
Purpose: What the keys of the line editor do: each stays within memory and does to the buffer and to the
  history what the reference editor does to its line and its entries.
Trusted boundary: none
Main exports: Reflects, Mirrors, Mirrors.recalled, Meets, Mirrors.press
-/
import Ppcom.Proofs.LinenoiseOps
import Ppcom.Proofs.Relay
import Ppcom.Spec.LineEditor

namespace Ppcom

/-- Strings without a NUL in them whose bytes have the property `p`. -/
def Strings (p : UInt8 → Prop) (lines : List (List UInt8)) : Prop :=
  ∀ line ∈ lines, 0 ∉ line ∧ ∀ c ∈ line, p c

/-- What stays the same while a line is edited: the greatest length of a line and of the history, and the
row that the line is shown in. -/
structure EditSetting where
  limit : Nat
  bound : Nat
  prompt : List UInt8
  cols : Nat
deriving DecidableEq, Repr

def Linenoise.setting (l : Linenoise) : EditSetting := ⟨l.buflen, l.history.maxLen, l.prompt, l.cols⟩

/-- The buffer holds the line of the reference editor, and the history its entries. -/
structure Reflects (p : UInt8 → Prop) (k : EditSetting) (d : LineEditor) (l : Linenoise) : Prop where
  holds : HoldsLine d.line l
  plain : ∀ c ∈ d.line.text, p c
  setting : l.setting = k
  entries : l.history.lines = d.entries.reverse
  strings : Strings p d.entries

/-- So it does while the line is edited: the row shows the line, and the entry is the same. -/
structure Mirrors (p : UInt8 → Prop) (k : EditSetting) (d : LineEditor) (l : Linenoise) : Prop
    extends Reflects p k d l where
  drawn : Drawn p l.prompt l.cols d.line l.out
  index : l.historyIndex = d.index
  inside : d.index < d.entries.length

section

variable {p : UInt8 → Prop} {k : EditSetting} {d : LineEditor} {l l' : Linenoise}

theorem setting_of_frame (frame : l'.frame = l.frame) : l'.setting = l.setting := by
  simp only [Linenoise.frame, Prod.mk.injEq] at frame
  obtain ⟨buflen, prompt, cols, -, history⟩ := frame
  rw [Linenoise.setting, Linenoise.setting, buflen, prompt, cols, history]

theorem Reflects.buflen (reflects : Reflects p k d l) : l.buflen = k.limit :=
  congrArg EditSetting.limit reflects.setting

theorem Reflects.maxLen (reflects : Reflects p k d l) : l.history.maxLen = k.bound :=
  congrArg EditSetting.bound reflects.setting

end

/-! ### The history -/

section

variable {p : UInt8 → Prop} {k : EditSetting} {d : LineEditor} {l : Linenoise} {z : CursorLine UInt8}

theorem Strings.set {lines : List (List UInt8)} {line : List UInt8} {i : Nat} (all : Strings p lines)
    (string : 0 ∉ line) (plain : ∀ c ∈ line, p c) : Strings p (lines.set i line) := by
  intro other inside
  rcases List.mem_or_eq_of_mem_set inside with old | rfl
  · exact all other old
  · exact ⟨string, plain⟩

theorem zero_notMem_cString (block : List UInt8) : 0 ∉ cString block := by
  intro zero
  have nonzero := List.mem_takeWhile_imp zero
  simp at nonzero

/-- The string in a block that holds a text and a terminator. -/
theorem strdup_held {text rest : List UInt8} : strdup (text ++ 0 :: rest) = some (cString text) := by
  rw [strdup, if_pos (by simp), cString_stored]

theorem historyAt_reverse {entries : List (List UInt8)} {i : Nat} (inside : i < entries.length) :
    historyAt entries.reverse ((entries.reverse.length : Int) - 1 - i) = some (entries.getD i []) := by
  have place : ((entries.reverse.length : Int) - 1 - i).toNat = entries.length - 1 - i := by
    rw [List.length_reverse]
    omega
  rw [historyAt, if_neg (by rw [List.length_reverse]; omega), place,
    List.getElem?_reverse' (j := i) (by omega), List.getD_eq_getElem?_getD,
    List.getElem?_eq_getElem inside]
  rfl

theorem reverse_set {entries : List (List UInt8)} {i : Nat} (inside : i < entries.length)
    (line : List UInt8) :
    entries.reverse.set ((entries.reverse.length : Int) - 1 - i).toNat line =
      (entries.set i line).reverse := by
  have place : ((entries.reverse.length : Int) - 1 - i).toNat = entries.length - 1 - i := by
    rw [List.length_reverse]
    omega
  rw [place]
  apply List.ext_getElem
  · simp
  · intro j _ _
    rw [List.getElem_reverse, List.getElem_set, List.getElem_set, List.getElem_reverse]
    simp only [List.length_set]
    by_cases here : entries.length - 1 - i = j
    · rw [if_pos here, if_pos (by omega)]
    · rw [if_neg here, if_neg (by simp at *; omega)]

/-- What `strncpy` stores is the start of the string, and zeros up to the last byte. -/
theorem strncpyBytes_eq (line : List UInt8) {n : Nat} (positive : 0 < n) :
    ∃ zeros last, strncpyBytes line n = line.take (n - 1) ++ List.replicate zeros 0 ++ [last] := by
  obtain ⟨n, rfl⟩ := Nat.exists_eq_succ_of_ne_zero positive.ne'
  have long : n < (line ++ List.replicate (n + 1) 0).length := by
    rw [List.length_append, List.length_replicate]
    omega
  exists min (n - line.length) (n + 1), (line ++ List.replicate (n + 1) 0)[n]
  rw [strncpyBytes, Nat.succ_eq_add_one, Nat.add_sub_cancel, ← List.take_concat_get' _ _ long,
    List.take_append, List.take_replicate]

/-- An entry is stored in the block, cut where there is no room for all of it. -/
theorem storeEntry_eq (line : List UInt8) {block : List UInt8} {n : Nat} (positive : 0 < n)
    (size : block.length = n + 1) :
    ∃ buf rest, Block.write block 0 (strncpyBytes line n) = some buf ∧
      Block.write buf (sizeSub n 1) [0] = some (line.take (n - 1) ++ 0 :: rest) ∧
      (line.take (n - 1) ++ 0 :: rest).length = n + 1 := by
  have full : (block.take n).length = n := List.length_take_of_le (by omega)
  obtain ⟨zeros, last, stored⟩ := strncpyBytes_eq line positive
  have length : (strncpyBytes line n).length = n := by
    rw [strncpyBytes, List.length_take, List.length_append, List.length_replicate]
    omega
  have first : Block.write block 0 (strncpyBytes line n) =
      some (strncpyBytes line n ++ block.drop n) :=
    Block.write_between [] (block.take n) _ (List.take_append_drop n block).symm rfl
      (length.trans full.symm)
  rw [stored, List.length_append, List.length_singleton] at length
  have second : Block.write (strncpyBytes line n ++ block.drop n) (sizeSub n 1) [0] =
      some (line.take (n - 1) ++ List.replicate zeros 0 ++ [0] ++ block.drop n) := by
    apply Block.write_between _ [last]
    · rw [stored]
    · rw [sizeSub_of_le positive]
      omega
    · rfl
  have terminated : line.take (n - 1) ++ List.replicate zeros 0 ++ [0] ++ block.drop n =
      line.take (n - 1) ++ 0 :: (List.replicate zeros 0 ++ block.drop n) := by
    rw [List.append_assoc (line.take _), ← List.replicate_succ', List.replicate_succ]
    simp
  refine ⟨_, _, first, second.trans (congrArg some terminated), ?_⟩
  have behind : (block.drop n).length = 1 := by
    rw [List.length_drop]
    omega
  rw [← terminated, List.length_append, List.length_append, List.length_singleton, length, behind]

namespace Mirrors

theorem editing (mirrors : Mirrors p k d l) : Editing p d.line l :=
  ⟨mirrors.holds, mirrors.plain, mirrors.drawn⟩

/-- A command on the line. -/
theorem withLine (mirrors : Mirrors p k d l) {result : Option Linenoise}
    (gives : Gives p z l result) : ∃ l', result = some l' ∧ Mirrors p k (d.withLine z) l' := by
  obtain ⟨l', is, editing, frame⟩ := gives
  have setting := setting_of_frame frame
  simp only [Linenoise.frame, Prod.mk.injEq] at frame
  obtain ⟨-, -, -, index, history⟩ := frame
  exact ⟨l', is, {
    holds := editing.holds
    plain := editing.plain
    setting := setting.trans mirrors.setting
    entries := by rw [history]; exact mirrors.entries
    strings := mirrors.strings
    drawn := editing.drawn
    index := index.trans mirrors.index
    inside := mirrors.inside }⟩

/-- The entry is stored as the line has it. -/
theorem store (mirrors : Mirrors p k d l) :
    Mirrors p k d.store { l with history := { l.history with
      lines := l.history.lines.set ((l.history.len : Int) - 1 - l.historyIndex).toNat
        (cString d.line.text) } } where
  holds := mirrors.holds.elsewhere _ _ _ _
  plain := mirrors.plain
  setting := mirrors.setting
  entries := by
    simp only [LineHistory.len, mirrors.entries, mirrors.index]
    exact reverse_set mirrors.inside _
  strings := mirrors.strings.set (zero_notMem_cString _) fun c inside =>
    mirrors.plain c ((cString_starts _).subset inside)
  drawn := mirrors.drawn
  index := mirrors.index
  inside := by
    rw [LineEditor.store, List.length_set]
    exact mirrors.inside

/-- Another entry is the one that is edited. -/
theorem turnTo (mirrors : Mirrors p k d l) {i : Nat} (inside : i < d.entries.length) :
    Mirrors p k { d with index := i } { l with historyIndex := i } where
  holds := mirrors.holds.elsewhere _ _ _ _
  plain := mirrors.plain
  setting := mirrors.setting
  entries := mirrors.entries
  strings := mirrors.strings
  drawn := mirrors.drawn
  index := rfl
  inside := inside

/-- The line is replaced by an entry, which is cut where there is no room for all of it. -/
theorem goTo (mirrors : Mirrors p k d l) (positive : 0 < k.limit) {i : Nat}
    (inside : i < d.entries.length) :
    ∃ l', showEntry l i = some l' ∧ Mirrors p k (d.goTo k.limit i) l' := by
  obtain ⟨string, plain⟩ := mirrors.strings (d.entries.getD i []) (by
    rw [List.getD_eq_getElem?_getD, List.getElem?_eq_getElem inside]
    exact List.getElem_mem inside)
  have entry := historyAt_reverse inside
  rw [← mirrors.entries] at entry
  have size := mirrors.holds.size
  rw [← mirrors.buflen] at positive
  unfold showEntry LineEditor.goTo
  rw [← mirrors.buflen]
  generalize d.entries.getD i [] = line at string plain entry ⊢
  obtain ⟨buf, rest, first, second, length⟩ := storeEntry_eq line positive size
  have text : cString (line.take (l.buflen - 1)) = line.take (l.buflen - 1) :=
    (cString_eq_iff _).mpr fun zero => string (List.mem_of_mem_take zero)
  simp only [LineHistory.len, entry, first, second, strdup_held, text, Option.bind_eq_bind,
    Option.bind_some]
  have there := mirrors.turnTo inside
  apply there.withLine
  apply there.editing.redraw
  · exact ⟨rest, by rw [CursorLine.ending, List.append_nil]⟩
  · exact length.trans size.symm
  · rfl
  · rfl
  · rw [CursorLine.ending, CursorLine.text, List.append_nil]
    exact fun c member => plain c (List.mem_of_mem_take member)

/-- The next entry of the history in a direction. -/
theorem recalled (mirrors : Mirrors p k d l) (positive : 0 < k.limit) (dir : HistoryDir) :
    ∃ l', linenoiseEditHistoryNext l dir = some l' ∧ Mirrors p k (d.recalled k.limit dir) l' := by
  have count : l.history.len = d.entries.length := by
    rw [LineHistory.len, mirrors.entries, List.length_reverse]
  have inside := mirrors.inside
  obtain ⟨rest, held⟩ := mirrors.holds.held
  have line : strdup l.buf = some (cString d.line.text) := by
    rw [held]
    exact strdup_held
  have entry : historyAt l.history.lines ((l.history.len : Int) - 1 - l.historyIndex) =
      some (d.entries.getD d.index []) := by
    simp only [LineHistory.len, mirrors.entries, mirrors.index]
    exact historyAt_reverse inside
  have stored := mirrors.store
  have storedInside := stored.inside
  have storedCount : d.store.entries.length = d.entries.length := List.length_set
  unfold linenoiseEditHistoryNext LineEditor.recalled
  rw [count]
  by_cases one : d.entries.length ≤ 1
  · rw [if_pos one, if_neg (Nat.not_lt.mpr one)]
    exact ⟨l, rfl, mirrors⟩
  · rw [if_neg one, if_pos (Nat.lt_of_not_le one)]
    rw [count] at stored entry
    simp only [entry, line, Option.bind_eq_bind, Option.bind_some, LineHistory.len, List.length_set]
    rw [← LineHistory.len, count, mirrors.index]
    rw [mirrors.index] at stored
    generalize l.history.lines.set ((d.entries.length : Int) - 1 - d.index).toNat (cString d.line.text) =
      lines at stored ⊢
    cases dir with
    | prev =>
        simp only [if_true]
        rw [if_neg (by omega)]
        by_cases more : d.index + 1 < d.entries.length
        · rw [if_pos more, if_neg (by omega)]
          exact stored.goTo positive (i := d.index + 1) (by omega)
        · rw [if_neg more, if_pos (by omega)]
          have last : (d.entries.length : Int) - 1 = d.index := by omega
          rw [last]
          exact ⟨_, rfl, stored.turnTo storedInside⟩
    | next =>
        simp only [reduceCtorEq, if_false]
        by_cases more : 0 < d.index
        · rw [if_pos more, if_neg (by omega), if_neg (by omega)]
          have before : (d.index : Int) + -1 = (d.index - 1 : Nat) := by omega
          rw [before]
          exact stored.goTo positive (by omega)
        · rw [if_neg more, if_pos (by omega)]
          have first : (0 : Int) = d.index := by omega
          rw [first]
          exact ⟨_, rfl, stored.turnTo storedInside⟩

/-- The screen is cleared, and the line is shown again. -/
theorem clearScreen (mirrors : Mirrors p k d l) :
    Gives p d.line l (refreshSingleLine (linenoiseClearScreen l)) := by
  obtain ⟨held, size, pos, len, plen, wide, small⟩ := mirrors.holds
  have cleared : HoldsLine d.line (linenoiseClearScreen l) := ⟨held, size, pos, len, plen, wide, small⟩
  exact ⟨_, cleared.refresh, ⟨⟨held, size, pos, len, plen, wide, small⟩, mirrors.plain,
    mirrors.drawn.clear mirrors.plain⟩, rfl⟩

/-- The latest entry is freed. -/
theorem dropEntry (mirrors : Mirrors p k d l) :
    ∃ l', Ppcom.dropEntry l = some l' ∧ Reflects p k d.forget l' ∧ l'.len = l.len := by
  have some : l.history.lines ≠ [] := by
    have inside := mirrors.inside
    apply List.ne_nil_of_length_pos
    rw [mirrors.entries, List.length_reverse]
    omega
  rw [Ppcom.dropEntry, if_neg some]
  exact ⟨_, rfl, {
    holds := mirrors.holds.elsewhere _ _ _ _
    plain := mirrors.plain
    setting := mirrors.setting
    entries := by
      simp only [mirrors.entries, List.dropLast_reverse]
      rfl
    strings := fun line inside => mirrors.strings line (List.mem_of_mem_tail inside) }, rfl⟩

end Mirrors

/-! ### Keys -/

/-- A step of the editor and one of the reference editor lead to the same: the next turn, or the end with
the value that stands for it. -/
inductive Meets (p : UInt8 → Prop) (k : EditSetting) (src : Source) : EditorStep → EditTurn → Prop where
  | next {d : LineEditor} {l : Linenoise} (mirrors : Mirrors p k d l) :
      Meets p k src (.next d) (.next l src)
  | entered {d : LineEditor} {l : Linenoise} (reflects : Reflects p k d l) :
      Meets p k src (.entered d) (.ret d.line.text.length l src)
  | givenUp {d : LineEditor} {l : Linenoise} (reflects : Reflects p k d l) :
      Meets p k src (.givenUp d) (.ret (-1) l src)

/-- A line that is held has a length that an `int` has room for. -/
theorem HoldsLine.toInt_len (holds : HoldsLine z l) : toInt l.len = z.text.length := by
  have le := holds.len_le
  have small := holds.small
  rw [holds.length_text]
  exact toInt_of_fits (by omega)

/-- A command on the line leads to the next turn. -/
theorem Mirrors.goesOn (mirrors : Mirrors p k d l) {result : Option Linenoise}
    (gives : Gives p z l result) (src : Source) :
    ∃ r, result.map Pressed.next = some r ∧ Meets p k src (.next (d.withLine z)) (r.turn src) := by
  obtain ⟨l', is, after⟩ := mirrors.withLine gives
  exact ⟨.next l', by rw [is]; rfl, .next after⟩

/-- A key does to the buffer and the history what it does to the line and the entries. -/
theorem Mirrors.press (mirrors : Mirrors p k d l) (positive : 0 < k.limit) (key : EditKey)
    (ok : ∀ c, key = .insert c → p c) (src : Source) :
    ∃ r, l.press key = some r ∧ Meets p k src (d.press k.limit key) (r.turn src) := by
  have editing := mirrors.editing
  cases key with
  | enter =>
      obtain ⟨l', is, after, len⟩ := mirrors.dropEntry
      exact ⟨.ret (toInt l'.len) l', by rw [Linenoise.press, is]; rfl, by
        rw [after.holds.toInt_len]; exact .entered after⟩
  | ctrlC => exact ⟨_, rfl, .givenUp mirrors.toReflects⟩
  | backspace => exact mirrors.goesOn editing.backspace src
  | ctrlD =>
      have length := mirrors.holds.length_text
      unfold Linenoise.press LineEditor.press
      by_cases empty : d.line.text = []
      · rw [empty, List.length_nil] at length
        rw [if_pos empty, if_neg (by omega)]
        obtain ⟨l', is, after, _⟩ := mirrors.dropEntry
        exact ⟨.ret (-1) l', by rw [is]; rfl, .givenUp after⟩
      · have some := List.length_pos_iff.mpr empty
        rw [if_neg empty, if_pos (by omega)]
        exact mirrors.goesOn editing.delete src
  | ctrlT => exact mirrors.goesOn editing.swap src
  | left => exact mirrors.goesOn editing.moveLeft src
  | right => exact mirrors.goesOn editing.moveRight src
  | history dir =>
      obtain ⟨l', is, after⟩ := mirrors.recalled positive dir
      exact ⟨.next l', by rw [Linenoise.press, is]; rfl, .next after⟩
  | esc => exact ⟨_, rfl, .next mirrors⟩
  | delete => exact mirrors.goesOn editing.delete src
  | home => exact mirrors.goesOn editing.home src
  | last => exact mirrors.goesOn editing.last src
  | insert c =>
      obtain ⟨r, is, after⟩ := mirrors.goesOn (editing.insert (ok c rfl)) src
      have same : d.insert k.limit c =
          d.withLine (if d.line.text.length < l.buflen then d.line.insert c else d.line) := by
        rw [LineEditor.insert, mirrors.buflen]
        split
        · rfl
        · rfl
      exact ⟨r, is, by rw [LineEditor.press, same]; exact after⟩
  | ctrlU => exact mirrors.goesOn editing.clear src
  | ctrlK => exact mirrors.goesOn editing.truncate src
  | ctrlL => exact mirrors.goesOn mirrors.clearScreen src
  | ctrlW => exact mirrors.goesOn editing.dropWord src
  | ignored => exact ⟨_, rfl, .next mirrors⟩

end

end Ppcom
