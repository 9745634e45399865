/-
Module: Ppcom.Proofs.LogName
Purpose: What the loop of the option `-g` leaves: `optarg` with every mark replaced by the time stamp,
  and the same in `opts.log_filename` where there was a mark. Where there was none the name is empty;
  where there is one, what is copied back is too long for `optarg`.
Trusted boundary: none
Main exports: Tm.buf_stamp, Stamp.inert, Rewritten, rewriteDates_rewritten,
  logFilename_substituted_iff, logName_capacity_iff
-/
import Ppcom.LogName

namespace Ppcom

open Substitution

/-! ### The time stamp -/

theorem decimal_digits {width n : Nat} {c : UInt8} (inside : c ∈ decimal width n) :
    0x30 ≤ c ∧ c ≤ 0x39 := by
  rcases List.mem_append.mp inside with padding | printed
  · rw [(List.mem_replicate.mp padding).2]
    decide
  · obtain ⟨d, digit, rfl⟩ := List.mem_map.mp printed
    have is := Nat.isDigit_of_mem_toDigits (b := 10) (by decide) (by decide) digit
    rw [Char.isDigit_iff_toNat] at is
    change 48 ≤ d.toNat ∧ d.toNat ≤ 57 at is
    rw [UInt8.le_iff_toNat_le, UInt8.le_iff_toNat_le]
    simp only [Nat.toUInt8_eq, UInt8.toNat_ofNat']
    change 48 ≤ d.toNat % 256 ∧ d.toNat % 256 ≤ 57
    omega

theorem length_decimal {width n : Nat} (positive : 0 < width) (small : n < 10 ^ width) :
    (decimal width n).length = width := by
  have digits := (Nat.length_toDigits_le_iff (by decide) positive).mpr small
  simp only [decimal, List.length_append, List.length_replicate, List.length_map]
  omega

/-- A year has four digits. -/
theorem Tm.length_year (tm : Tm) : (decimal 1 (tm.tmYear + 1900)).length = 4 := by
  have year := tm.year
  have most := (Nat.length_toDigits_le_iff (b := 10) (n := tm.tmYear + 1900) (k := 4)
    (by decide) (by decide)).mpr (by omega)
  have least := mt (Nat.length_toDigits_le_iff (b := 10) (n := tm.tmYear + 1900) (k := 3)
    (by decide) (by decide)).mp (by omega)
  simp only [decimal, List.length_append, List.length_replicate, List.length_map]
  omega

/-- What `sprintf` leaves in `tm_buf` is a time stamp. -/
theorem Tm.buf_stamp (tm : Tm) : ∃ stamp : Stamp, stamp.text = tm.buf := by
  have two {n : Nat} (small : n < 10 ^ 2) := length_decimal (by decide : 0 < 2) small
  have month := two (n := tm.tmMon + 1) (by have := tm.month; omega)
  have day := two (n := tm.tmMday) (by have := tm.day; omega)
  have hour := two (n := tm.tmHour) (by have := tm.hour; omega)
  have minute := two (n := tm.tmMin) (by have := tm.minute; omega)
  have second := two (n := tm.tmSec) (by have := tm.second; omega)
  refine ⟨{
    date := decimal 1 (tm.tmYear + 1900) ++ decimal 2 (tm.tmMon + 1) ++ decimal 2 tm.tmMday
    time := decimal 2 tm.tmHour ++ decimal 2 tm.tmMin ++ decimal 2 tm.tmSec
    dateLength := by simp [tm.length_year, month, day]
    timeLength := by simp [hour, minute, second]
    digits := fun c inside => ?_ }, ?_⟩
  · simp only [List.mem_append] at inside
    rcases inside with ((year | month) | day) | (hour | minute) | second <;>
      exact decimal_digits ‹_›
  · simp [Stamp.text, Tm.buf]

theorem Stamp.length_text (stamp : Stamp) : stamp.text.length = 16 := by
  simp [Stamp.text, stamp.dateLength, stamp.timeLength, ascii]

/-- No mark starts in an underscore and digits. -/
theorem clear_digits {digits v : List UInt8} (some : digits ≠ [])
    (are : ∀ c ∈ digits, 0x30 ≤ c ∧ c ≤ 0x39) : Clear dateMark (ascii "_" ++ digits) v := by
  apply Clear.append
  · obtain ⟨d, rest, rfl⟩ := List.exists_cons_of_ne_nil some
    intro j small starts
    obtain rfl : j = 0 := Nat.lt_one_iff.mp small
    obtain ⟨more, is⟩ := starts
    obtain ⟨rfl, -⟩ := List.cons.inj (List.cons.inj is).2
    exact absurd (are _ List.mem_cons_self) (by decide)
  · apply clear_of_not_mem
    intro underscore
    exact absurd (are _ underscore) (by decide)

/-- A time stamp can be no part of a mark. -/
theorem Stamp.inert (stamp : Stamp) : Inert dateMark stamp.text where
  head := ⟨0x5f, stamp.date ++ ascii "_" ++ stamp.time, by simp [Stamp.text, ascii], by decide⟩
  clear v := by
    have date : Clear dateMark (ascii "_" ++ stamp.date) (ascii "_" ++ stamp.time ++ v) := by
      apply clear_digits
      · exact List.ne_nil_of_length_pos (by rw [stamp.dateLength]; decide)
      · exact fun c inside => stamp.digits c (List.mem_append_left _ inside)
    have time : Clear dateMark (ascii "_" ++ stamp.time) v := by
      apply clear_digits
      · exact List.ne_nil_of_length_pos (by rw [stamp.timeLength]; decide)
      · exact fun c inside => stamp.digits c (List.mem_append_right _ inside)
    rw [Stamp.text, List.append_assoc (ascii "_" ++ stamp.date)]
    exact date.append time

/-! ### The loop -/

theorem dateMark_nonempty : dateMark ≠ [] := by decide

/-- A turn replaces the first mark. -/
theorem rewriteDate_some {tmBuf : List UInt8} {name next : LogName}
    (turn : rewriteDate tmBuf name = some next) :
    ∃ u v, name.optarg = u ++ (dateMark ++ v) ∧ Clear dateMark u (dateMark ++ v) ∧
      next = { optarg := u ++ (tmBuf ++ v)
               logFilename := u ++ (tmBuf ++ v)
               built := name.built ++ [u, u ++ tmBuf, u ++ (tmBuf ++ v)]
               copied := name.copied ++ [u ++ (tmBuf ++ v)] } := by
  obtain ⟨i, found, rfl⟩ := Option.map_eq_some_iff.mp turn
  obtain ⟨u, v, is, rfl, clear⟩ := find_some found
  refine ⟨u, v, is, clear, ?_⟩
  have start : name.optarg.take u.length = u := by
    rw [is]
    exact List.take_left
  have rest : name.optarg.drop (u.length + dateMark.length) = v := by
    rw [is, ← List.append_assoc, ← List.length_append]
    exact List.drop_left
  rw [start, rest]
  simp only [List.append_assoc]

/-- What the loop leaves of `name`. -/
structure Rewritten (stamp : Stamp) (name last : LogName) : Prop where
  optarg : last.optarg = replaceAll dateMark stamp.text name.optarg
  length : last.optarg.length = name.optarg.length + 11 * occurrences dateMark name.optarg
  none : occurrences dateMark name.optarg = 0 → last = name
  some : occurrences dateMark name.optarg ≠ 0 →
    last.logFilename = last.optarg ∧ last.optarg ∈ last.built ∧ last.optarg ∈ last.copied
  kept : name.built ⊆ last.built
  built : ∀ t ∈ last.built, t ∈ name.built ∨ t.length ≤ last.optarg.length

/-- A loop that goes on after a turn. -/
theorem Rewritten.turn {stamp : Stamp} {name next last : LogName}
    (turn : rewriteDate stamp.text name = .some next) (rest : Rewritten stamp next last) :
    Rewritten stamp name last ∧
      occurrences dateMark name.optarg = occurrences dateMark next.optarg + 1 := by
  obtain ⟨u, v, is, clear, rfl⟩ := rewriteDate_some turn
  have fewer := occurrences_replaced dateMark_nonempty stamp.inert clear
  have same := replaceAll_replaced dateMark_nonempty stamp.inert clear
  have longer := rest.length
  have mark : dateMark.length = 5 := rfl
  rw [is, fewer]
  have final : last.logFilename = last.optarg ∧ last.optarg ∈ last.built ∧
      last.optarg ∈ last.copied := by
    by_cases more : occurrences dateMark (u ++ (stamp.text ++ v)) = 0
    · rw [rest.none more]
      exact ⟨rfl, by simp, by simp⟩
    · exact rest.some more
  refine ⟨⟨?_, ?_, ?_, fun _ => final, fun t inside => ?_, fun t inside => ?_⟩, rfl⟩
  · rw [rest.optarg, is]
    exact same
  · simp only [List.length_append, stamp.length_text, is] at longer ⊢
    omega
  · rw [is, fewer]
    exact nofun
  · exact rest.kept (List.mem_append_left _ inside)
  · rcases rest.built t inside with early | short
    · rcases List.mem_append.mp early with before | now
      · exact .inl before
      · right
        simp only [List.length_append] at longer
        simp only [List.mem_cons, List.not_mem_nil, or_false] at now
        rcases now with rfl | rfl | rfl
        · omega
        · rw [List.length_append]
          omega
        · rw [List.length_append, List.length_append]
          omega
    · exact .inr short

/-- The loop ends, and every mark is replaced. -/
theorem rewriteDates_rewritten (stamp : Stamp) (name : LogName) {turns : Nat}
    (enough : occurrences dateMark name.optarg < turns) :
    ∃ last, rewriteDates stamp.text turns name = some last ∧ Rewritten stamp name last := by
  induction turns generalizing name with
  | zero => exact absurd enough (Nat.not_lt_zero _)
  | succ turns ih =>
      rw [rewriteDates]
      cases turn : rewriteDate stamp.text name with
      | none =>
          have none := Option.map_eq_none_iff.mp turn
          have count := (occurrences_eq_zero_iff dateMark_nonempty).mpr none
          refine ⟨name, rfl, ?_, ?_, ?_, ?_, ?_, ?_⟩
          · rw [replaceAll_of_find_none _ none]
          · omega
          · exact fun _ => rfl
          · exact fun some => absurd count some
          · exact List.Subset.refl _
          · exact fun t inside => .inl inside
      | some next =>
          obtain ⟨u, v, is, clear, same⟩ := rewriteDate_some turn
          have fewer := occurrences_replaced dateMark_nonempty stamp.inert clear
          rw [← is] at fewer
          have left : occurrences dateMark next.optarg < turns := by
            rw [fewer] at enough
            rw [same]
            exact Nat.lt_of_succ_lt_succ enough
          obtain ⟨last, ran, rest⟩ := ih next left
          exact ⟨last, ran, (rest.turn turn).1⟩

/-- As many turns as `optarg` has bytes are enough. -/
theorem optionG_ends (tm : Tm) (opts : Opts) (optarg : List UInt8) :
    ∃ opts', optionG tm.buf (optarg.length + 1) opts optarg = some opts' := by
  obtain ⟨stamp, is⟩ := tm.buf_stamp
  obtain ⟨last, ran, -⟩ := rewriteDates_rewritten stamp (.start optarg)
    (Nat.lt_succ_of_le (occurrences_le_length dateMark optarg))
  rw [optionG, ← is, ran]
  exact ⟨_, rfl⟩

/-- The loop leaves one result, however many turns it is given. -/
theorem rewriteDates_unique {tmBuf : List UInt8} {turns more : Nat} {name last other : LogName}
    (ran : rewriteDates tmBuf turns name = some last)
    (again : rewriteDates tmBuf more name = some other) : last = other := by
  induction turns generalizing name more with
  | zero => cases ran
  | succ turns ih =>
      cases more with
      | zero => cases again
      | succ more =>
          rw [rewriteDates] at ran again
          cases turn : rewriteDate tmBuf name with
          | none =>
              rw [turn] at ran again
              exact (Option.some.inj ran).symm.trans (Option.some.inj again)
          | some next =>
              rw [turn] at ran again
              exact ih ran again

/-! ### The name -/

/-- The loop ends, and the name of the log is the argument with every mark replaced by the time stamp,
exactly if there is a mark or the argument is empty. Where there is no mark nothing is ever stored in
`opts.log_filename`. -/
theorem logFilename_substituted_iff (stamp : Stamp) (opts : Opts) (optarg : List UInt8) :
    (∃ turns opts', optionG stamp.text turns opts optarg = some opts' ∧
      opts'.logFilename = some (replaceAll dateMark stamp.text optarg)) ↔
      0 < occurrences dateMark optarg ∨ optarg = [] := by
  obtain ⟨last, ran, rewritten⟩ :=
    rewriteDates_rewritten stamp (.start optarg) (Nat.lt_succ_self _)
  have name : (∃ turns opts', optionG stamp.text turns opts optarg = some opts' ∧
      opts'.logFilename = some (replaceAll dateMark stamp.text optarg)) ↔
      last.logFilename = last.optarg := by
    rw [rewritten.optarg]
    constructor
    · rintro ⟨turns', opts', made, is⟩
      obtain ⟨other, ran', rfl⟩ := Option.map_eq_some_iff.mp made
      rw [rewriteDates_unique ran ran']
      exact Option.some.inj is
    · intro is
      exact ⟨_, _, by rw [optionG, ran]; rfl, congrArg some is⟩
  rw [name]
  by_cases none : occurrences dateMark optarg = 0
  · rw [rewritten.none none, none]
    simp [LogName.start, eq_comm]
  · exact iff_of_true (rewritten.some none).1 (.inl (Nat.pos_of_ne_zero none))

/-- The start of a year. -/
def Stamp.newYear : Stamp := ⟨ascii "20240101", ascii "000000", rfl, rfl, by decide +kernel⟩

/-- A log that the user has named `log` has the empty name. -/
theorem logFilename_not_substituted : ¬ ∃ turns opts',
    optionG Stamp.newYear.text turns .default (ascii "log") = some opts' ∧
      opts'.logFilename = some (replaceAll dateMark Stamp.newYear.text (ascii "log")) := by
  rintro ⟨turns, opts', made, is⟩
  obtain ⟨other, ran, rfl⟩ := Option.map_eq_some_iff.mp made
  have once : rewriteDates Stamp.newYear.text 1 (.start (ascii "log")) =
      some (.start (ascii "log")) := by decide
  rw [← rewriteDates_unique once ran] at is
  exact absurd is (by decide)

/-! ### The stores -/

/-- What was stored fits into the blocks, with the terminator. -/
structure Capacious (optarg : List UInt8) (name : LogName) : Prop where
  built : ∀ t ∈ name.built, t.length + 1 ≤ logFilenameSz optarg
  copied : ∀ t ∈ name.copied, t.length + 1 ≤ optargSz optarg

/-- What is made in `opts.log_filename` fits with up to five marks. -/
theorem Rewritten.built_iff {stamp : Stamp} {optarg : List UInt8} {last : LogName}
    (rewritten : Rewritten stamp (.start optarg) last) :
    (∀ t ∈ last.built, t.length + 1 ≤ logFilenameSz optarg) ↔
      occurrences dateMark optarg ≤ 5 := by
  have length : last.optarg.length = optarg.length + 11 * occurrences dateMark optarg :=
    rewritten.length
  constructor
  · intro fits
    by_contra many
    have longest := fits _ (rewritten.some (by change occurrences dateMark optarg ≠ 0; omega)).2.1
    rw [logFilenameSz] at longest
    omega
  · intro few t inside
    rw [logFilenameSz]
    rcases rewritten.built t inside with first | short
    · obtain rfl := List.mem_singleton.mp first
      simp
    · omega

/-- What is copied back fits where there is no mark. -/
theorem Rewritten.copied_iff {stamp : Stamp} {optarg : List UInt8} {last : LogName}
    (rewritten : Rewritten stamp (.start optarg) last) :
    (∀ t ∈ last.copied, t.length + 1 ≤ optargSz optarg) ↔ occurrences dateMark optarg = 0 := by
  have length : last.optarg.length = optarg.length + 11 * occurrences dateMark optarg :=
    rewritten.length
  constructor
  · intro fits
    by_contra some
    have longest := fits _ (rewritten.some some).2.2
    rw [optargSz] at longest
    omega
  · intro none
    rw [rewritten.none none]
    exact nofun

/-- All that the loop stores fits exactly if there is no mark. The block of `opts.log_filename` alone is
large enough for five. -/
theorem logName_capacity_iff (stamp : Stamp) (optarg : List UInt8) :
    ((∃ turns name, rewriteDates stamp.text turns (.start optarg) = some name ∧
      Capacious optarg name) ↔ occurrences dateMark optarg = 0) ∧
    ((∃ turns name, rewriteDates stamp.text turns (.start optarg) = some name ∧
      ∀ t ∈ name.built, t.length + 1 ≤ logFilenameSz optarg) ↔
      occurrences dateMark optarg ≤ 5) := by
  obtain ⟨last, ran, rewritten⟩ :=
    rewriteDates_rewritten stamp (.start optarg) (Nat.lt_succ_self _)
  constructor
  · constructor
    · rintro ⟨turns', name, ran', fits⟩
      rw [← rewriteDates_unique ran ran'] at fits
      exact rewritten.copied_iff.mp fits.copied
    · intro none
      have few : occurrences dateMark optarg ≤ 5 := by omega
      exact ⟨_, last, ran, rewritten.built_iff.mpr few, rewritten.copied_iff.mpr none⟩
  · constructor
    · rintro ⟨turns', name, ran', fits⟩
      rw [← rewriteDates_unique ran ran'] at fits
      exact rewritten.built_iff.mp fits
    · exact fun few => ⟨_, last, ran, rewritten.built_iff.mpr few⟩

/-- For the name `_date` 17 bytes are copied to the 6 bytes of the argument. -/
theorem logName_overflows : ¬ ∃ turns name,
    rewriteDates Stamp.newYear.text turns (.start (ascii "_date")) = some name ∧
      Capacious (ascii "_date") name := by
  rintro ⟨turns, name, ran, fits⟩
  have twice : rewriteDates Stamp.newYear.text 2 (.start (ascii "_date")) =
      some ⟨ascii "_20240101_000000", ascii "_20240101_000000",
        [[], [], ascii "_20240101_000000", ascii "_20240101_000000"],
        [ascii "_20240101_000000"]⟩ := by decide
  rw [← rewriteDates_unique twice ran] at fits
  exact absurd (fits.copied _ List.mem_cons_self) (by decide)

end Ppcom
