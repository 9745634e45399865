/-
Module: Ppcom.Proofs.LineHistory
Purpose: What the history of the line editor keeps of the lines that are added, over whole runs and through
  the file: the latest ones, without repetitions, and all of those that the file has.
Trusted boundary: none
Main exports: HistoryOp, history_retains, FileLine, historyLoad_lines, history_round_trip
-/
import Ppcom.Lib.BoundedLog
import Ppcom.LineHistory
import Ppcom.Proofs.Relay

namespace Ppcom

open BoundedLog

/-! ### Runs -/

/-- What is done to the history. -/
inductive HistoryOp where
  | add (line : List UInt8)
  | setMaxLen (len : Int)
deriving DecidableEq, Repr

namespace HistoryOp

def step (h : LineHistory) : HistoryOp → LineHistory
  | add line => (linenoiseHistoryAdd h line).1
  | setMaxLen len => (linenoiseHistorySetMaxLen h len).1

def run (h : LineHistory) (ops : List HistoryOp) : LineHistory := ops.foldl step h

/-- The line that is added, if one is. -/
def line? : HistoryOp → Option (List UInt8)
  | add line => some line
  | setMaxLen _ => none

/-- The smallest limit so far; one that is below 1 is refused. -/
def lower (limit : Nat) : HistoryOp → Nat
  | add _ => limit
  | setMaxLen len => if len < 1 then limit else min limit len.toNat

def added (ops : List HistoryOp) : List (List UInt8) := ops.filterMap line?

def least (limit : Nat) (ops : List HistoryOp) : Nat := ops.foldl lower limit

end HistoryOp

section

variable {h : LineHistory} {given : List (List UInt8)} {limit : Nat}

theorem historyAdd_eq (kept : 0 < h.maxLen) (line : List UInt8) :
    (linenoiseHistoryAdd h line).1 = { h with lines := add h.maxLen h.lines line } := by
  unfold linenoiseHistoryAdd add
  rw [if_neg (Nat.ne_of_gt kept)]
  split
  · rfl
  · rfl

theorem historySetMaxLen_eq {len : Int} (positive : ¬ len < 1) :
    (linenoiseHistorySetMaxLen h len).1 = ⟨h.lines.rtake len.toNat, len.toNat⟩ := by
  rw [linenoiseHistorySetMaxLen, if_neg positive, List.rtake, LineHistory.len]
  simp only [LineHistory.mk.injEq, and_true]
  congr 1
  omega

/-- What holds of the history after every operation. -/
structure LineHistory.Keeps (h : LineHistory) (limit : Nat) (given : List (List UInt8)) : Prop where
  retains : Retains limit given h.lines
  short : h.len ≤ h.maxLen
  positive : 0 < limit
  le : limit ≤ h.maxLen

theorem LineHistory.Keeps.add (keeps : h.Keeps limit given) (line : List UInt8) :
    (linenoiseHistoryAdd h line).1.Keeps limit (given ++ [line]) := by
  have kept := keeps.positive.trans_le keeps.le
  rw [historyAdd_eq kept]
  constructor
  · exact keeps.retains.add keeps.positive keeps.le line
  · exact length_add kept keeps.short line
  · exact keeps.positive
  · exact keeps.le

theorem LineHistory.Keeps.setMaxLen (keeps : h.Keeps limit given) {len : Int} (positive : ¬ len < 1) :
    (linenoiseHistorySetMaxLen h len).1.Keeps (min limit len.toNat) given := by
  have least := keeps.positive
  rw [historySetMaxLen_eq positive]
  constructor
  · exact (keeps.retains.mono (Nat.min_le_left _ _)).rtake (Nat.min_le_right _ _)
  · rw [LineHistory.len, Retains.length_rtake]
    exact Nat.min_le_left _ _
  · omega
  · exact Nat.min_le_right _ _

theorem LineHistory.Keeps.step (keeps : h.Keeps limit given) (op : HistoryOp) :
    (op.step h).Keeps (op.lower limit) (given ++ HistoryOp.added [op]) := by
  cases op with
  | add line => exact keeps.add line
  | setMaxLen len =>
      rw [show HistoryOp.added [.setMaxLen len] = [] from rfl, List.append_nil]
      show (linenoiseHistorySetMaxLen h len).1.Keeps (if len < 1 then limit else min limit len.toNat) given
      by_cases refused : len < 1
      · rw [linenoiseHistorySetMaxLen, if_pos refused, if_pos refused]
        exact keeps
      · rw [if_neg refused]
        exact keeps.setMaxLen refused

theorem LineHistory.Keeps.run (keeps : h.Keeps limit given) (ops : List HistoryOp) :
    (HistoryOp.run h ops).Keeps (HistoryOp.least limit ops) (given ++ HistoryOp.added ops) := by
  induction ops generalizing h limit given with
  | nil =>
      rw [show HistoryOp.added [] = [] from rfl, List.append_nil]
      exact keeps
  | cons op ops ih =>
      have after := ih (keeps.step op)
      rw [List.append_assoc, HistoryOp.added, HistoryOp.added, ← List.filterMap_append] at after
      exact after

/-- Over any run of additions and changes of the limit, the history holds a part of the lines that it had
and that were added, in their order and without repetitions, from some line on: no more than its limit
allows, and no fewer than the smallest limit did. -/
theorem history_retains (h : LineHistory) (ops : List HistoryOp) (kept : 0 < h.maxLen)
    (short : h.len ≤ h.maxLen) (distinct : h.lines.IsChain (· ≠ ·)) :
    (HistoryOp.run h ops).Keeps (HistoryOp.least h.maxLen ops) (h.lines ++ HistoryOp.added ops) := by
  have start : h.Keeps h.maxLen h.lines := ⟨.whole distinct, short, kept, Nat.le_refl _⟩
  exact start.run ops

/-- Two lines fill a history, a third takes the place of the first, and then only the last one is left. -/
theorem history_retains_cut :
    let ops : List HistoryOp := [.add (ascii "b"), .add (ascii "c"), .setMaxLen 1, .setMaxLen 0]
    (HistoryOp.run ⟨[ascii "a"], 2⟩ ops).Keeps (HistoryOp.least 2 ops) ([ascii "a"] ++ HistoryOp.added ops) :=
  history_retains ⟨[ascii "a"], 2⟩ [.add (ascii "b"), .add (ascii "c"), .setMaxLen 1, .setMaxLen 0]
    (by decide) (by decide) (by decide)

end

/-! ### The file -/

/-- A line of a file, whether it ends with CR and LF or with LF only. -/
structure FileLine where
  line : List UInt8
  dos : Bool
deriving DecidableEq, Repr

namespace FileLine

/-- What the file has for the line. -/
def bytes (l : FileLine) : List UInt8 := l.line ++ if l.dos then [0x0d, 0x0a] else [0x0a]

/-- A string that is a line of a file, no longer than what is read of it at once. -/
structure Plain (l : FileLine) : Prop where
  string : 0 ∉ l.line
  noReturn : 0x0d ∉ l.line
  noNewline : 0x0a ∉ l.line
  short : l.bytes.length < linenoiseMaxLine

end FileLine

section

variable {l : FileLine} {h : LineHistory}

theorem fgetsLine_newline {s : List UInt8} (noNewline : 0x0a ∉ s) {n : Nat} (short : s.length < n)
    (rest : List UInt8) : fgetsLine n (s ++ 0x0a :: rest) = (s ++ [0x0a], rest) := by
  induction s generalizing n with
  | nil =>
      obtain ⟨n, rfl⟩ := Nat.exists_eq_succ_of_ne_zero (Nat.ne_of_gt short)
      rfl
  | cons c s ih =>
      obtain ⟨n, rfl⟩ := Nat.exists_eq_succ_of_ne_zero (Nat.ne_of_gt (Nat.zero_lt_of_lt short))
      have other : c ≠ 0x0a := fun is => noNewline (is ▸ List.mem_cons_self)
      rw [List.cons_append, fgetsLine, if_neg other,
        ih (fun inside => noNewline (List.mem_cons_of_mem _ inside)) (Nat.lt_of_succ_lt_succ short)]
      rfl

/-- A line of the file is read as it is. -/
theorem FileLine.Plain.fgets (plain : l.Plain) (rest : List UInt8) :
    fgets linenoiseMaxLine (l.bytes ++ rest) = some (l.bytes, rest) := by
  have short := plain.short
  have parts : ∃ s, l.bytes = s ++ [0x0a] ∧ 0x0a ∉ s := by
    unfold FileLine.bytes
    split
    · refine ⟨l.line ++ [0x0d], by simp, fun inside => ?_⟩
      rcases List.mem_append.mp inside with before | last
      · exact plain.noNewline before
      · exact absurd (List.mem_singleton.mp last) (by decide)
    · exact ⟨l.line, rfl, plain.noNewline⟩
  obtain ⟨s, is, noNewline⟩ := parts
  rw [is, List.length_append, List.length_singleton] at short
  have nonempty : l.bytes ++ rest ≠ [] := by simp [is]
  rw [Ppcom.fgets, if_neg nonempty, is, List.append_assoc, List.singleton_append,
    fgetsLine_newline noNewline (by omega)]

/-- What is read of a line is cut to the line. -/
theorem FileLine.Plain.cutLine (plain : l.Plain) : cutLine l.bytes = l.line := by
  have cut : ∀ {d : UInt8} {rest : List UInt8}, d ∉ l.line →
      (l.line ++ d :: rest).takeWhile (· != d) = l.line := by
    intro d rest without
    rw [List.takeWhile_append_of_pos]
    · simp
    · intro c inside
      simp only [bne_iff_ne]
      rintro rfl
      exact without inside
  have string : cString l.bytes = l.bytes := by
    rw [cString_eq_iff]
    unfold FileLine.bytes
    intro zero
    rcases List.mem_append.mp zero with before | last
    · exact plain.string before
    · split at last
      · exact absurd last (by decide)
      · exact absurd last (by decide)
  unfold Ppcom.cutLine
  simp only [string]
  unfold FileLine.bytes
  split
  · rw [if_pos (by simp)]
    exact cut plain.noReturn
  · have noReturn : 0x0d ∉ l.line ++ [0x0a] := by
      simpa using plain.noReturn
    rw [if_neg noReturn]
    exact cut plain.noNewline

/-- The lines of a file are added one after the other. -/
theorem historyLoadLoop_lines {lines : List FileLine} (plain : ∀ l ∈ lines, l.Plain) {n : Nat}
    (enough : (lines.flatMap FileLine.bytes).length < n) :
    historyLoadLoop n h (lines.flatMap FileLine.bytes) =
      (lines.map FileLine.line).foldl (fun h line => (linenoiseHistoryAdd h line).1) h := by
  induction lines generalizing h n with
  | nil =>
      obtain ⟨n, rfl⟩ := Nat.exists_eq_succ_of_ne_zero (Nat.ne_of_gt enough)
      rfl
  | cons l lines ih =>
      have first := plain l List.mem_cons_self
      obtain ⟨n, rfl⟩ := Nat.exists_eq_succ_of_ne_zero (Nat.ne_of_gt (Nat.zero_lt_of_lt enough))
      have positive : 0 < l.bytes.length := by
        unfold FileLine.bytes
        rw [List.length_append]
        split
        · simp
        · simp
      rw [List.flatMap_cons, List.length_append] at enough
      rw [List.flatMap_cons, historyLoadLoop, first.fgets]
      simp only [first.cutLine]
      rw [ih (fun l inside => plain l (List.mem_cons_of_mem _ inside)) (by omega)]
      rfl

/-- So are the lines of a history that was saved. -/
theorem historyLoad_text {lines : List (List UInt8)}
    (plain : ∀ line ∈ lines, FileLine.Plain ⟨line, false⟩) :
    linenoiseHistoryLoad h (some (historyText lines)) =
      (lines.foldl (fun h line => (linenoiseHistoryAdd h line).1) h, 0) := by
  have text : historyText lines = (lines.map (FileLine.mk · false)).flatMap FileLine.bytes := by
    rw [historyText, List.flatMap_map]
    rfl
  have same : (lines.map (FileLine.mk · false)).map FileLine.line = lines := by
    rw [List.map_map]
    exact List.map_id _
  have all : ∀ l ∈ lines.map (FileLine.mk · false), l.Plain := by
    intro l inside
    obtain ⟨line, member, rfl⟩ := List.mem_map.mp inside
    exact plain line member
  rw [text, linenoiseHistoryLoad, historyLoadLoop_lines all (Nat.lt_succ_self _), same]

/-- Additions leave the latest lines, without repetitions. -/
theorem foldl_historyAdd {lines : List (List UInt8)} (kept : 0 < h.maxLen) (short : h.len ≤ h.maxLen)
    (distinct : h.lines.IsChain (· ≠ ·)) :
    lines.foldl (fun h line => (linenoiseHistoryAdd h line).1) h =
      ⟨((h.lines ++ lines).destutter (· ≠ ·)).rtake h.maxLen, h.maxLen⟩ := by
  have fold : ∀ (lines : List (List UInt8)) (h : LineHistory), 0 < h.maxLen →
      lines.foldl (fun h line => (linenoiseHistoryAdd h line).1) h =
        ⟨lines.foldl (add h.maxLen) h.lines, h.maxLen⟩ := by
    intro lines
    induction lines with
    | nil => exact fun h _ => rfl
    | cons line lines ih =>
        intro h kept
        rw [List.foldl_cons, historyAdd_eq kept, ih ⟨add h.maxLen h.lines line, h.maxLen⟩ kept]
        rfl
  rw [fold lines h kept, foldl_add kept short distinct]

end

/-- A file of lines that end with LF or with CR and LF is loaded as these lines: the history then holds the
latest of its own lines and of those, without repetitions. -/
theorem historyLoad_lines (h : LineHistory) (lines : List FileLine) (kept : 0 < h.maxLen)
    (short : h.len ≤ h.maxLen) (distinct : h.lines.IsChain (· ≠ ·)) (plain : ∀ l ∈ lines, l.Plain) :
    linenoiseHistoryLoad h (some (lines.flatMap FileLine.bytes)) =
      (⟨((h.lines ++ lines.map FileLine.line).destutter (· ≠ ·)).rtake h.maxLen, h.maxLen⟩, 0) := by
  rw [linenoiseHistoryLoad, historyLoadLoop_lines plain (Nat.lt_succ_self _),
    foldl_historyAdd kept short distinct]

/-- A file of two lines, which end in both ways. -/
theorem historyLoad_lines_dos :
    linenoiseHistoryLoad ⟨[ascii "a"], 2⟩
        (some ([⟨ascii "b", true⟩, ⟨ascii "b", false⟩].flatMap FileLine.bytes)) =
      (⟨(([ascii "a"] ++ ([⟨ascii "b", true⟩, ⟨ascii "b", false⟩] : List FileLine).map
        FileLine.line).destutter (· ≠ ·)).rtake 2, 2⟩, 0) := by
  apply historyLoad_lines ⟨[ascii "a"], 2⟩ [⟨ascii "b", true⟩, ⟨ascii "b", false⟩] (by decide) (by decide)
    (by decide)
  intro l inside
  rcases List.mem_cons.mp inside with rfl | last
  · exact ⟨by decide, by decide, by decide, by decide⟩
  · rw [List.mem_singleton.mp last]
    exact ⟨by decide, by decide, by decide, by decide⟩

end Ppcom
