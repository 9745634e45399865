/-
Module: Ppcom.Proofs.UucpLock
Purpose: Who holds the lock of `uucp_lock`. In the runs in which no process removes a lock file that
  has taken the place of the one it read, or one in which no number was written yet, at most one live
  process holds the lock, and its file is removed by nobody else.
Trusted boundary: none
Main exports: lockPid_lockText, Locking.Sound, uucp_lock_exclusive
-/
import Ppcom.Proofs.LogName
import Ppcom.UucpLock

namespace Ppcom

/-! ### The number in a lock file -/

theorem digit_digitChar {c : Char} (is : c.isDigit) :
    digit 10 c.toNat.toUInt8 = some (c.toNat - '0'.toNat) := by
  rw [Char.isDigit_iff_toNat] at is
  change 48 ≤ c.toNat ∧ c.toNat ≤ 57 at is
  obtain ⟨low, high⟩ := is
  have small : c.toNat.toUInt8.toNat = c.toNat := by
    rw [Nat.toUInt8_eq, UInt8.toNat_ofNat']
    exact Nat.mod_eq_of_lt (by omega)
  have value : digitValue c.toNat.toUInt8 = some (c.toNat - 48) := by
    unfold digitValue
    rw [small, if_pos]
    rw [UInt8.le_iff_toNat_le, UInt8.le_iff_toNat_le, small]
    exact ⟨low, high⟩
  unfold digit
  rw [value, Option.filter_some, if_pos]
  · rfl
  · simp only [decide_eq_true_eq]
    omega

theorem readDigits_digits {cs : List Char} (digits : ∀ c ∈ cs, c.isDigit) (value : Nat)
    {c : UInt8} (ends : digit 10 c = none) (rest : List UInt8) :
    readDigits 10 value (cs.map (fun c => c.toNat.toUInt8) ++ c :: rest) =
      (Nat.ofDigitChars 10 cs value, c :: rest) := by
  induction cs generalizing value with
  | nil =>
      simp only [List.map_nil, List.nil_append, readDigits, ends]
      rfl
  | cons d cs ih =>
      have first := digit_digitChar (digits d (by simp))
      simp only [List.map_cons, List.cons_append, readDigits, first]
      rw [ih fun c inside => digits c (by simp [inside]), Nat.ofDigitChars_cons, Nat.mul_comm]

/-- The digits of a number with zeros before them. -/
theorem decimal_eq (width n : Nat) :
    decimal width n = (List.replicate (width - (Nat.toDigits 10 n).length) '0' ++
      Nat.toDigits 10 n).map fun c => c.toNat.toUInt8 := by
  simp [decimal]

theorem readDigits_decimal (width n : Nat) {c : UInt8} (ends : digit 10 c = none)
    (rest : List UInt8) : readDigits 10 0 (decimal width n ++ c :: rest) = (n, c :: rest) := by
  rw [decimal_eq, readDigits_digits _ 0 ends, Nat.ofDigitChars_append,
    Nat.ofDigitChars_replicate_zero, Nat.mul_zero, Nat.ofDigitChars_ten_toDigits]
  intro c inside
  rcases List.mem_append.mp inside with padding | printed
  · rw [(List.mem_replicate.mp padding).2]
    rfl
  · exact Nat.isDigit_of_mem_toDigits (by decide) (by decide) printed

theorem isspace_digit {d : UInt8} (low : 0x30 ≤ d) (high : d ≤ 0x39) : isspace d = false := by
  rw [UInt8.le_iff_toNat_le] at low high
  simp [isspace, UInt8.le_iff_toNat_le, ← UInt8.toNat_inj]
  simp at low high
  omega

theorem readSign_digit {d : UInt8} (low : 0x30 ≤ d) (rest : List UInt8) :
    readSign (d :: rest) = (false, d :: rest) := by
  unfold readSign
  split
  · next is =>
      cases is
      exact absurd low (by decide)
  · next is =>
      cases is
      exact absurd low (by decide)
  · rfl

/-- `strtol` reads a number back that `snprintf` has printed. -/
theorem strtolDecimal_decimal (width n : Nat) (fits : n < 2 ^ 63) (rest : List UInt8) :
    strtolDecimal (decimal width n ++ 0x0a :: rest) = n := by
  have read := readDigits_decimal width n (c := 0x0a) (by decide) rest
  have digits := @decimal_digits width n
  have nonempty : decimal width n ≠ [] := by
    rw [decimal_eq]
    simp [Nat.toDigits_ne_nil]
  obtain ⟨d, ds, is⟩ := List.exists_cons_of_ne_nil nonempty
  rw [is] at read digits ⊢
  obtain ⟨low, high⟩ := digits List.mem_cons_self
  rw [List.cons_append] at read ⊢
  have visible : (d :: (ds ++ 0x0a :: rest)).dropWhile isspace = d :: (ds ++ 0x0a :: rest) :=
    List.dropWhile_cons_of_neg (by simp [isspace_digit low high])
  unfold strtolDecimal
  rw [visible, readSign_digit low]
  simp only [read]
  change min (2 ^ 63 - 1) (n : Int) = n
  omega

/-- The length of a number that is printed. -/
theorem length_lockText (pid : Pid) :
    5 ≤ (lockText pid).length ∧ (lockText pid).length ≤ lockBufSz := by
  have digits := (Nat.length_toDigits_le_iff (b := 10) (n := pid.value) (k := 10)
    (by decide) (by decide)).mpr (lt_trans pid.fits (by decide))
  simp only [lockText, decimal, List.length_append, List.length_replicate, List.length_map,
    List.length_cons, List.length_nil]
  change 5 ≤ _ ∧ _ ≤ 16
  omega

/-- The number that is read from a lock file is the one that was printed. -/
theorem lockPid_lockText (pid : Pid) (stack : List UInt8) :
    lockPid (lockText pid) stack = pid.value := by
  have text : ∀ rest, lockText pid ++ rest = decimal 4 pid.value ++ 0x0a :: rest := by
    simp [lockText]
  obtain ⟨long, _⟩ := length_lockText pid
  unfold lockPid
  rw [if_neg (by omega), text, strtolDecimal_decimal _ _ (lt_trans pid.fits (by decide)),
    toInt_of_fits pid.fits]

/-! ### What holds between the calls -/

namespace Locking

variable {n : Nat} {pid : Fin n → Pid} {s s' : Locking n}

@[simp] theorem move_entry (p : Fin n) (stage : Stage n) : (s.move p stage).entry = s.entry := rfl

@[simp] theorem move_text (p : Fin n) (stage : Stage n) : (s.move p stage).text = s.text := rfl

@[simp] theorem move_self (p : Fin n) (stage : Stage n) : (s.move p stage).stage p = stage :=
  Function.update_self ..

theorem move_of_ne {p q : Fin n} (other : q ≠ p) (stage : Stage n) :
    (s.move p stage).stage q = s.stage q :=
  Function.update_of_ne other ..

/-- The process that made the file has been there. -/
def Born (s : Locking n) (file : LockFile n) : Prop := ∀ q, file = .made q → s.stage q ≠ .unborn

/-- What a process relies on before its next call. Of the file it has read, where a process made it and
had written to it, it knows the number of that process, and then that this process is dead; what it has
created is still there. -/
def Relies (pid : Fin n → Pid) (s : Locking n) (p : Fin n) : Stage n → Prop
  | .reading file => s.Born file
  | .asking file got k => s.Born file ∧ ∀ q, file = .made q → got ≠ [] → k = (pid q).value
  | .removing file got => ∀ q, file = .made q → got ≠ [] → s.stage q = .dead
  | .writing | .holding => s.entry = some (.made p)
  | .unborn | .opening | .creating | .refused | .released | .dead => True

/-- What holds between the calls. -/
structure Sound (pid : Fin n → Pid) (s : Locking n) : Prop where
  relies : ∀ p, s.Relies pid p (s.stage p)
  born : ∀ file, s.entry = some file → s.Born file
  text : ∀ p, s.text (.made p) = [] ∨ s.text (.made p) = lockText (pid p)

theorem sound_begun (former : Option (List UInt8)) : Sound pid (.begun n former) where
  relies _ := trivial
  born file is q := by
    rintro rfl
    obtain ⟨_, _, is⟩ := Option.map_eq_some_iff.mp is
    cases is
  text _ := .inl rfl

/-- From one state to the other processes are born and die, and are not brought back. -/
structure Ages (s s' : Locking n) : Prop where
  born : ∀ q, s.stage q ≠ .unborn → s'.stage q ≠ .unborn
  dead : ∀ q, s.stage q = .dead → s'.stage q = .dead

/-- What a process relies on stays where its file stays. -/
theorem Relies.keep {p : Fin n} {stage : Stage n} (relies : s.Relies pid p stage)
    (ages : s.Ages s')
    (entry : stage = .writing ∨ stage = .holding → s.entry = some (.made p) →
      s'.entry = some (.made p)) : s'.Relies pid p stage := by
  cases stage with
  | reading file => exact fun q is => ages.born q (relies q is)
  | asking file got k => exact ⟨fun q is => ages.born q (relies.1 q is), relies.2⟩
  | removing file got => exact fun q is written => ages.dead q (relies q is written)
  | writing => exact entry (.inl rfl) relies
  | holding => exact entry (.inr rfl) relies
  | unborn | opening | creating | refused | released | dead => trivial

/-- A process that is not dead goes on to another call. -/
theorem ages_move {p : Fin n} (alive : s.stage p ≠ .dead) {stage : Stage n}
    (begun : stage ≠ .unborn) : s.Ages (s.move p stage) where
  born q was := by
    by_cases same : q = p
    · subst same
      rwa [move_self]
    · rwa [move_of_ne same]
  dead q was := by
    by_cases same : q = p
    · subst same
      exact absurd was alive
    · rwa [move_of_ne same]

/-- A process goes on to another call, and the name and the files are as the call leaves them. -/
theorem Sound.move (sound : Sound pid s) {p : Fin n} (alive : s.stage p ≠ .dead)
    {stage : Stage n} (begun : stage ≠ .unborn) {entry : Option (LockFile n)}
    {text : LockFile n → List UInt8}
    (relies : (⟨s.stage, entry, text⟩ : Locking n).Relies pid p stage)
    (others : ∀ q, q ≠ p → s.stage q = .writing ∨ s.stage q = .holding →
      s.entry = some (.made q) → entry = some (.made q))
    (born : ∀ file, entry = some file → s.Born file ∨ file = .made p)
    (texts : ∀ q, text (.made q) = [] ∨ text (.made q) = lockText (pid q)) :
    Sound pid ((⟨s.stage, entry, text⟩ : Locking n).move p stage) := by
  have ages : s.Ages ((⟨s.stage, entry, text⟩ : Locking n).move p stage) :=
    ⟨(ages_move alive begun).born, (ages_move alive begun).dead⟩
  constructor
  · intro q
    by_cases same : q = p
    · subst same
      rw [move_self]
      exact relies.keep ⟨ages.born, ages.dead⟩ fun _ entry => entry
    · rw [move_of_ne same]
      exact (sound.relies q).keep ages (others q same)
  · intro file is q made
    rcases born file is with before | own
    · exact ages.born q (before q made)
    · rw [own] at made
      cases made
      rwa [move_self]
  · exact texts

/-- A process goes on to another call, and the name and the files stay. -/
theorem Sound.goesOn (sound : Sound pid s) {p : Fin n} (alive : s.stage p ≠ .dead)
    {stage : Stage n} (begun : stage ≠ .unborn)
    (relies : s.Relies pid p stage) : Sound pid (s.move p stage) :=
  sound.move alive begun relies (fun _ _ _ is => is) (fun file is => .inl (sound.born file is))
    sound.text

/-- What a process knows of a file that it has read. -/
theorem Sound.read (sound : Sound pid s) {file : LockFile n} (stack : List UInt8) {q : Fin n}
    (made : file = .made q) (written : (s.text file).take lockBufSz ≠ []) :
    lockPid ((s.text file).take lockBufSz) stack = (pid q).value := by
  subst made
  rcases sound.text q with empty | whole
  · rw [empty] at written
    exact absurd rfl written
  · rw [whole, List.take_of_length_le (length_lockText (pid q)).2]
    exact lockPid_lockText (pid q) stack

/-- A process is dead that was there and that `kill` does not find. -/
theorem dead_of_not_live {q : Fin n} (born : s.stage q ≠ .unborn) (gone : ¬ s.Live q) :
    s.stage q = .dead := by
  by_contra alive
  exact gone ⟨born, alive⟩

/-- A process that has created its file finds it there. -/
theorem Sound.holder (sound : Sound pid s) {p : Fin n} (has : s.stage p = .writing ∨ s.Holds p) :
    s.entry = some (.made p) := by
  have relies := sound.relies p
  rcases has with is | is
  · rwa [is] at relies
  · rwa [is] at relies

/-- A file that was read, and that is removed, was not made by a process that has it. -/
theorem Sound.stale (sound : Sound pid s) {p q : Fin n} {file : LockFile n} {got : List UInt8}
    (is : s.stage p = .removing file got)
    (guarded : ∀ now, s.entry = some now → now = file ∧ (got = [] → now = .former))
    (has : s.stage q = .writing ∨ s.Holds q) : False := by
  have entry := sound.holder has
  obtain ⟨same, written⟩ := guarded _ entry
  have relies := sound.relies p
  rw [is] at relies
  have dead := relies q same.symm fun empty => nomatch written empty
  rcases has with writing | holds
  · rw [writing] at dead
    cases dead
  · rw [holds] at dead
    cases dead

end Locking

/-- Where a process removes a stale lock, the file is the one that it has read, and if a process made
it, then there was something in it. -/
def LockingStep.Guarded {n : Nat} (st : LockingStep n) : Prop :=
  ∀ p file got, st.input = (p, .unlinks) → st.before.stage p = .removing file got →
    ∀ now, st.before.entry = some now → now = file ∧ (got = [] → now = .former)

/-- A call unlinks no file that a live holder made, unless the holder does so itself. -/
def LockingStep.Spares {n : Nat} (st : LockingStep n) : Prop :=
  ∀ q, st.output = some (.made q) → st.before.Holds q → st.input.1 = q

namespace Locking

variable {n : Nat} {pid : Fin n → Pid}

/-- A call keeps what holds between the calls. -/
theorem Sound.step {st : LockingStep n} (made : st.Of (Locking.step pid)) (guarded : st.Guarded)
    (sound : Sound pid st.before) : Sound pid st.after := by
  obtain ⟨s, ⟨p, call⟩, s', unlinked⟩ := st
  have relies := sound.relies p
  simp only [Machine.Step.Of] at made
  unfold Locking.step at made
  dsimp only at made sound relies ⊢
  split at made
  · next is =>
      cases made
      exact sound.goesOn (by simp [is]) nofun trivial
  · next is =>
      split at made
      · cases made
        exact sound.goesOn (by simp [is]) nofun trivial
      · next file entry =>
          cases made
          exact sound.goesOn (by simp [is]) nofun (sound.born file entry)
  · next stack file is =>
      cases made
      rw [is] at relies
      split
      · apply sound.goesOn (by simp [is]) (by nofun)
        exact ⟨relies, fun q same written => sound.read stack same written⟩
      · exact sound.goesOn (by simp [is]) nofun trivial
  · next esrch file got k is =>
      rw [is] at relies
      split at made
      · split at made
        · next nobody =>
            cases made
            apply sound.goesOn (by simp [is]) (by nofun)
            intro q same written
            apply dead_of_not_live (relies.1 q same)
            intro live
            exact nobody q live (relies.2 q same written).symm
        · cases made
      · cases made
        exact sound.goesOn (by simp [is]) nofun trivial
  · next file got is =>
      cases made
      refine sound.move (by simp [is]) (by nofun) trivial ?_ ?_ ?_
      · intro q other has _
        exact (sound.stale is (guarded p file got rfl is) has).elim
      · exact nofun
      · exact sound.text
  · next is =>
      split at made
      · next free =>
          cases made
          refine sound.move (by simp [is]) (by nofun) rfl ?_ ?_ ?_
          · intro q _ _ entry
            rw [free] at entry
            cases entry
          · intro file entry
            exact .inr (Option.some.inj entry).symm
          · exact sound.text
      · cases made
        exact sound.goesOn (by simp [is]) nofun trivial
  · next is =>
      cases made
      rw [is] at relies
      refine sound.move (by simp [is]) (by nofun) relies ?_ ?_ ?_
      · exact fun _ _ _ entry => entry
      · exact fun file entry => .inl (sound.born file entry)
      · intro q
        by_cases same : q = p
        · subst same
          exact .inr (Function.update_self ..)
        · rw [Function.update_of_ne (by simpa using same)]
          exact sound.text q
  · next is =>
      cases made
      rw [is] at relies
      refine sound.move (by simp [is]) (by nofun) trivial ?_ ?_ ?_
      · intro q other _ entry
        rw [relies] at entry
        cases entry
        exact absurd rfl other
      · exact nofun
      · exact sound.text
  · split at made
    · next live =>
        cases made
        exact sound.goesOn live.2 nofun trivial
    · cases made
  · cases made

/-- At most one live process holds the lock. -/
def Exclusive (s : Locking n) : Prop := ∀ p q, s.Holds p → s.Holds q → p = q

theorem Sound.exclusive {s : Locking n} (sound : Sound pid s) : s.Exclusive := by
  intro p q one two
  have entry := sound.holder (.inr one)
  rw [sound.holder (.inr two)] at entry
  cases entry
  rfl

/-- The calls that unlink a file. -/
theorem unlinks_cases {s s' : Locking n} {p : Fin n} {call : LockCall} {file : LockFile n}
    (made : Locking.step pid s (p, call) = some (s', some file)) :
    s.entry = some file ∧
      ((∃ read got, call = .unlinks ∧ s.stage p = .removing read got) ∨ s.Holds p) := by
  unfold Locking.step at made
  dsimp only at made
  split at made
  · cases made
  · split at made <;> cases made
  · cases made
  · split at made
    · split at made <;> cases made
    · cases made
  · next read got is =>
      obtain ⟨_, entry⟩ := Prod.mk.inj (Option.some.inj made)
      exact ⟨entry, .inl ⟨read, got, rfl, is⟩⟩
  · split at made <;> cases made
  · cases made
  · next is =>
      obtain ⟨_, entry⟩ := Prod.mk.inj (Option.some.inj made)
      exact ⟨entry, .inr is⟩
  · split at made <;> cases made
  · cases made

theorem Sound.spares {st : LockingStep n} (made : st.Of (Locking.step pid)) (guarded : st.Guarded)
    (sound : Sound pid st.before) : st.Spares := by
  intro q removed holds
  rw [Machine.Step.Of, removed] at made
  obtain ⟨entry, ⟨read, got, call, is⟩ | own⟩ := unlinks_cases made
  · exact (sound.stale is (guarded _ _ _ (Prod.ext rfl call) is) (.inr holds)).elim
  · rw [sound.holder (.inr own)] at entry
    cases entry
    rfl

end Locking

/-- In the runs in which no process removes a lock file that has taken the place of the one it read, or
that was read before its number was in it, at most one live process holds the lock in every state, and
no process unlinks a file that another, live holder made. -/
theorem uucp_lock_exclusive {n : Nat} {pid : Fin n → Pid} {former : Option (List UInt8)}
    {made : List (LockingStep n)} {s : Locking n} (run : LockingRun pid former made s)
    (guarded : ∀ st ∈ made, st.Guarded) :
    s.Exclusive ∧ ∀ st ∈ made, st.before.Exclusive ∧ st.Spares := by
  obtain ⟨sound, each⟩ := run.guarded (Locking.sound_begun former)
    (fun st made guarded sound => Locking.Sound.step made guarded sound) guarded
  refine ⟨sound.exclusive, fun st inside => ?_⟩
  obtain ⟨before, stepped⟩ := each st inside
  exact ⟨before.exclusive, before.spares stepped (guarded st inside)⟩

/-- The numbers 1 and 2. -/
def lockers (p : Fin 2) : Pid := ⟨p.val + 1, Nat.succ_pos _, by omega⟩

/-- A process that finds no lock dies with its own, which is stale to the next process. -/
theorem uucp_lock_exclusive_stale :
    ∃ made s, LockingRun lockers none made s ∧ s.Exclusive := by
  have begun : LockingRun lockers none [] _ := .start
  have trail : Machine.trail (Locking.step lockers) (.begun 2 none)
      [(0, .starts), (0, .opens), (0, .creates), (0, .writes), (0, .dies), (1, .starts),
        (1, .opens), (1, .reads []), (1, .asks true), (1, .unlinks)] = some _ := rfl
  obtain ⟨s, run⟩ := begun.append trail
  refine ⟨_, s, run, (uucp_lock_exclusive run ?_).1⟩
  intro st inside p file got unlinks is now entry
  simp only [List.nil_append, List.mem_cons, List.not_mem_nil, or_false] at inside
  rcases inside with rfl | rfl | rfl | rfl | rfl | rfl | rfl | rfl | rfl | rfl
  all_goals try cases unlinks
  cases entry
  cases is
  exact ⟨rfl, nofun⟩

/-- Two processes find the same stale lock, and each removes what is there after its `sleep`: the second
removes the lock of the first. -/
theorem uucp_lock_taken_twice :
    ∃ made s, LockingRun lockers (some (ascii "9999\n")) made s ∧
      ¬ (s.Exclusive ∧ ∀ st ∈ made, st.before.Exclusive ∧ st.Spares) := by
  have begun : LockingRun lockers (some (ascii "9999\n")) [] _ := .start
  have trail : Machine.trail (Locking.step lockers) (.begun 2 (some (ascii "9999\n")))
      [(0, .starts), (0, .opens), (0, .reads []), (0, .asks true), (1, .starts), (1, .opens),
        (1, .reads []), (1, .asks true), (0, .unlinks), (0, .creates), (0, .writes),
        (1, .unlinks), (1, .creates), (1, .writes), (0, .releases)] = some _ := rfl
  obtain ⟨s, run⟩ := begun.append trail
  refine ⟨_, s, run, fun exclusive => ?_⟩
  have both := (exclusive.2 _ (List.mem_of_getElem? (rfl : _[14]? = _))).1 0 1 rfl rfl
  exact absurd both (by decide)

end Ppcom
