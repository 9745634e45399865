/-
Module: Ppcom.Proofs.LineSettings
Purpose: The parameters of a line do not interfere: after any sequence of setters, once the settings are
  applied, each getter returns the value that was set last, or the one it returned before where none
  was set. After `term_set` in raw mode all of them return what was set.
Trusted boundary: none
Main exports: Line, Line.of, Line.after, Line.of_change, lastSet, ReadsBack, line_settings_read_back
-/
import Ppcom.Proofs.BaudSettings
import Ppcom.Proofs.TermOriginal

namespace Ppcom

open BitMask Program

/-! ### What the getters make of settings -/

/-- The value that `term_get_baudrate` returns for settings. -/
def baudrateOf (plat : Platform) (tio : Termios) : Except TermErrno Int :=
  if bspeed plat (cfgetospeed tio) < 0 then
    if ¬ plat.useCustomBaud then .error .egetspeed
    else if cfgetospeedCustom tio < 0 then .error .egetspeed
    else .ok (cfgetospeedCustom tio)
  else .ok (bspeed plat (cfgetospeed tio))

/-- The parameters of a line. -/
@[ext] structure Line where
  baud : Except TermErrno Int
  parity : Parity
  databits : Int
  stopbits : Int
  flow : Flowcntrl
  loc : Bool
  hup : Bool

/-- The parameters that settings stand for. -/
def Line.of (plat : Platform) (tio : Termios) : Line where
  baud := baudrateOf plat tio
  parity := parityOf tio.cCflag
  databits := databitsOf tio.cCflag
  stopbits := stopbitsOf tio.cCflag
  flow := flowcntrlOf tio
  loc := decide (tio.cCflag &&& clocal ≠ 0)
  hup := decide (tio.cCflag &&& hupcl ≠ 0)

/-- The parameters after a setter, `term_set_raw` apart. -/
def Line.after (line : Line) : Setter → Line
  | .raw => line
  | .baudrate baud => { line with baud := .ok baud }
  | .parity mode => { line with parity := mode }
  | .databits n => { line with databits := n }
  | .stopbits n => { line with stopbits := n }
  | .flowcntrl flow => { line with flow := flow }
  | .loc on => { line with loc := on }
  | .hupcl on => { line with hup := on }

section Kept

variable {mask c c' : Word} {t t' : Termios}

/-! A change inside a mask keeps a parameter whose bits are outside. -/

theorem parityOf_kept (agree : AgreeOff mask c c')
    (apart : (parenb ||| parodd ||| cmspar) &&& mask = 0) : parityOf c' = parityOf c := by
  rw [parityOf_mask, ← read_agreeOff apart agree, ← parityOf_mask]

theorem databitsOf_kept (agree : AgreeOff mask c c') (apart : csize &&& mask = 0) :
    databitsOf c' = databitsOf c := by
  rw [databitsOf_mask, ← read_agreeOff apart agree, ← databitsOf_mask]

theorem stopbitsOf_kept (agree : AgreeOff mask c c') (apart : cstopb &&& mask = 0) :
    stopbitsOf c' = stopbitsOf c := by
  rw [stopbitsOf_mask, ← read_agreeOff apart agree, ← stopbitsOf_mask]

theorem bit_kept {bit : Word} (agree : AgreeOff mask c c') (apart : bit &&& mask = 0) :
    decide (c' &&& bit ≠ 0) = decide (c &&& bit ≠ 0) := by
  rw [read_agreeOff apart agree]

theorem baudrateOf_kept {plat : Platform} (agree : AgreeOff mask t.cCflag t'.cCflag)
    (ospeed : t'.cOspeed = t.cOspeed) (apart : (cbaud ||| cbaudex) &&& mask = 0) :
    baudrateOf plat t' = baudrateOf plat t := by
  have code : cfgetospeed t' = cfgetospeed t := (read_agreeOff apart agree).symm
  have custom : cfgetospeedCustom t' = cfgetospeedCustom t := by
    rw [cfgetospeedCustom, cfgetospeedCustom, ospeed]
  simp only [baudrateOf, code, custom]

theorem flowcntrlOf_kept {iflags : Word} (agree : AgreeOff mask t.cCflag t'.cCflag)
    (inputs : AgreeOff iflags t.cIflag t'.cIflag) (apart : crtscts &&& mask = 0)
    (off : (ixon ||| ixoff ||| ixany) &&& iflags = 0) : flowcntrlOf t' = flowcntrlOf t := by
  have part {m : Word} (within : m &&& ~~~(ixon ||| ixoff ||| ixany) = 0) :
      t'.cIflag &&& m = t.cIflag &&& m := by
    have same := read_agreeOff off inputs
    rw [← read_within within, BitVec.and_comm m, ← BitVec.and_assoc, ← BitVec.and_assoc, same]
  apply flowcntrlOf_masks
  · exact (read_agreeOff apart agree).symm
  · exact part (by decide)
  · rw [part (by decide)]

end Kept

theorem ChangesFlags.cOspeed {iflags cflags : Word} {t t' : Termios}
    (rest : ChangesFlags iflags cflags t t') : t'.cOspeed = t.cOspeed := by
  rw [rest.rest]

/-- A rate that `term_set_baudrate` has set is the one that is read. -/
theorem baudrateOf_set {plat : Platform} {tio tio' : Termios} {baud : Int} (small : baud < 2 ^ 31)
    (changed : withBaudrate plat baud tio = .ok tio') : baudrateOf plat tio' = .ok baud := by
  have sets := sets_withBaudrate plat changed
  have accepted := baudrate_accepted.mp fun e refuses => by
    rw [(refuses_withBaudrate plat).mpr refuses] at changed
    cases changed
  cases sets with
  | baudrate rate =>
      unfold HasBaudrate at rate
      unfold baudrateOf
      split at rate
      · next listed =>
        have natural := baudTable_natural plat
        obtain ⟨entry, inside, rfl⟩ := List.mem_map.mp listed
        rw [rate, if_neg (not_lt.mpr (natural entry inside))]
      · next unlisted =>
        obtain ⟨custom, natural⟩ := accepted.resolve_left unlisted
        have value : cfgetospeedCustom tio' = baud := by
          rw [cfgetospeedCustom, rate.2, BitVec.toInt_ofInt]
          exact Int.bmod_eq_of_le (by omega) (by omega)
        rw [if_pos rate.1, if_neg (not_not.mpr custom), value, if_neg (not_lt.mpr natural)]

/-- A setter changes its own parameter, to the value given, and no other. -/
theorem Line.of_change {plat : Platform} {setter : Setter} {t t' : Termios}
    (changed : setter.change plat t = .ok t') (one : setter ≠ .raw)
    (small : ∀ baud, setter = .baudrate baud → baud < 2 ^ 31) :
    Line.of plat t' = (Line.of plat t).after setter := by
  cases Setter.sets_of_change plat changed with
  | raw => exact absurd rfl one
  | baudrate rate rest =>
      ext1
      · exact baudrateOf_set (small _ rfl) changed
      · exact parityOf_kept rest.cCflag (by decide)
      · exact databitsOf_kept rest.cCflag (by decide)
      · exact stopbitsOf_kept rest.cCflag (by decide)
      · exact flowcntrlOf_kept rest.cCflag rest.cIflag (by decide) (by decide)
      · exact bit_kept rest.cCflag (by decide)
      · exact bit_kept rest.cCflag (by decide)
  | parity mode rest =>
      ext1
      · exact baudrateOf_kept rest.cCflag rest.cOspeed (by decide)
      · exact mode
      · exact databitsOf_kept rest.cCflag (by decide)
      · exact stopbitsOf_kept rest.cCflag (by decide)
      · exact flowcntrlOf_kept rest.cCflag rest.cIflag (by decide) (by decide)
      · exact bit_kept rest.cCflag (by decide)
      · exact bit_kept rest.cCflag (by decide)
  | databits bits rest =>
      ext1
      · exact baudrateOf_kept rest.cCflag rest.cOspeed (by decide)
      · exact parityOf_kept rest.cCflag (by decide)
      · exact bits
      · exact stopbitsOf_kept rest.cCflag (by decide)
      · exact flowcntrlOf_kept rest.cCflag rest.cIflag (by decide) (by decide)
      · exact bit_kept rest.cCflag (by decide)
      · exact bit_kept rest.cCflag (by decide)
  | stopbits bits rest =>
      ext1
      · exact baudrateOf_kept rest.cCflag rest.cOspeed (by decide)
      · exact parityOf_kept rest.cCflag (by decide)
      · exact databitsOf_kept rest.cCflag (by decide)
      · exact bits
      · exact flowcntrlOf_kept rest.cCflag rest.cIflag (by decide) (by decide)
      · exact bit_kept rest.cCflag (by decide)
      · exact bit_kept rest.cCflag (by decide)
  | flowcntrl mode rest =>
      ext1
      · exact baudrateOf_kept rest.cCflag rest.cOspeed (by decide)
      · exact parityOf_kept rest.cCflag (by decide)
      · exact databitsOf_kept rest.cCflag (by decide)
      · exact stopbitsOf_kept rest.cCflag (by decide)
      · exact mode
      · exact bit_kept rest.cCflag (by decide)
      · exact bit_kept rest.cCflag (by decide)
  | loc bit rest =>
      ext1
      · exact baudrateOf_kept rest.cCflag rest.cOspeed (by decide)
      · exact parityOf_kept rest.cCflag (by decide)
      · exact databitsOf_kept rest.cCflag (by decide)
      · exact stopbitsOf_kept rest.cCflag (by decide)
      · exact flowcntrlOf_kept rest.cCflag rest.cIflag (by decide) (by decide)
      · exact bit
      · exact bit_kept rest.cCflag (by decide)
  | hupcl bit rest =>
      ext1
      · exact baudrateOf_kept rest.cCflag rest.cOspeed (by decide)
      · exact parityOf_kept rest.cCflag (by decide)
      · exact databitsOf_kept rest.cCflag (by decide)
      · exact stopbitsOf_kept rest.cCflag (by decide)
      · exact flowcntrlOf_kept rest.cCflag rest.cIflag (by decide) (by decide)
      · exact bit_kept rest.cCflag (by decide)
      · exact bit

/-! ### The last value set -/

/-- The value that the last of a list of setters to set a parameter gave it. -/
def lastSet {α : Type} (value : Setter → Option α) (setters : List Setter) : Option α :=
  (setters.filterMap value).getLast?

namespace Setter

/-! The value that a setter gives to each parameter. -/

def baud : Setter → Option Int
  | .baudrate baud => some baud
  | _ => none

def mode : Setter → Option Parity
  | .parity mode => some mode
  | _ => none

def bits : Setter → Option Int
  | .databits n => some n
  | _ => none

def stops : Setter → Option Int
  | .stopbits n => some n
  | _ => none

def flow : Setter → Option Flowcntrl
  | .flowcntrl flow => some flow
  | _ => none

def isLocal : Setter → Option Bool
  | .loc on => some on
  | _ => none

def hangs : Setter → Option Bool
  | .hupcl on => some on
  | _ => none

end Setter

/-- What is read of a parameter that every setter sets or keeps is, after all of them, the value set
last. -/
theorem foldl_lastSet {α β : Type} {get : Line → β} {value : Setter → Option α} {read : α → β}
    (one : ∀ line setter, get (line.after setter) = ((value setter).map read).getD (get line))
    (setters : List Setter) (line : Line) :
    get (setters.foldl Line.after line) = ((lastSet value setters).map read).getD (get line) := by
  induction setters using List.reverseRecOn with
  | nil => rfl
  | append_singleton setters last ih =>
      rw [List.foldl_append, lastSet, List.filterMap_append]
      change get (Line.after _ last) = _
      rw [one, ih]
      cases set : value last with
      | none => simp [lastSet, set]
      | some v => simp [set]

/-- What a sequence of setters makes of the next settings. -/
theorem execAll_line {plat : Platform} {fd : Int} {i : Slot} {setters : List Setter} {s s' : Sys}
    (found : s.term.find fd = .ok i) (lines : .raw ∉ setters)
    (small : ∀ baud, .baudrate baud ∈ setters → baud < 2 ^ 31)
    (ran : (execAll plat fd setters).run s = .ok () s') :
    ∃ t, s' = s.withNext i t ∧
      Line.of plat t = setters.foldl Line.after (Line.of plat (s.term.nexttermios i)) := by
  induction setters generalizing s with
  | nil =>
      cases ran
      exact ⟨s'.term.nexttermios i, by simp [Sys.withNext], rfl⟩
  | cons setter rest ih =>
      cases changed : setter.change plat (s.term.nexttermios i) with
      | error e =>
          have refused := run_setParameter_refuses found changed
          rw [← setter.exec_eq plat fd] at refused
          simp [execAll, refused] at ran
      | ok t =>
          have first : (setter.exec plat fd).run s = .ok () (s.withNext i t) := by
            rw [setter.exec_eq plat fd]
            exact run_setParameter_accepts found changed
          rw [run_execAll_cons first] at ran
          obtain ⟨t', rfl, line⟩ := ih (s := s.withNext i t) found
            (fun inside => lines (List.mem_cons_of_mem _ inside))
            (fun baud inside => small baud (List.mem_cons_of_mem _ inside)) ran
          have one : setter ≠ .raw := fun is => lines (is ▸ List.mem_cons_self)
          have here := Line.of_change changed one fun baud is => small baud (is ▸ List.mem_cons_self)
          refine ⟨t', Sys.withNext_withNext .., ?_⟩
          rw [line, List.foldl_cons, ← here]
          simp [Sys.withNext]

/-! ### The getters -/

section Getters

variable {plat : Platform} {fd : Int} {i : Slot} {s : Sys}

theorem outcome_getBaudrate (found : s.term.find fd = .ok i) :
    (termGetBaudrate plat fd).outcome s = baudrateOf plat (s.term.currtermios i) := by
  by_cases unlisted : bspeed plat (cfgetospeed (s.term.currtermios i)) < 0
  · by_cases custom : plat.useCustomBaud = true
    · by_cases negative : cfgetospeedCustom (s.term.currtermios i) < 0
      · simp only [TermM.outcome, termGetBaudrate, EStateM.run_bind, run_termFind, found, EStateM.run_get,
          unlisted, custom, negative, baudrateOf, not_true_eq_false, if_true, if_false]
        rfl
      · simp [TermM.outcome, termGetBaudrate, found, baudrateOf, unlisted, custom, negative]
    · simp [TermM.outcome, termGetBaudrate, found, baudrateOf, unlisted, custom]
  · simp [TermM.outcome, termGetBaudrate, found, baudrateOf, unlisted]

theorem outcome_getParity (found : s.term.find fd = .ok i) :
    (termGetParity fd).outcome s = .ok (parityOf (s.term.currtermios i).cCflag) := by
  simp only [TermM.outcome, termGetParity, EStateM.run_bind, run_termFind, found]
  rfl

theorem outcome_getDatabits (found : s.term.find fd = .ok i) :
    (termGetDatabits fd).outcome s = .ok (databitsOf (s.term.currtermios i).cCflag) := by
  simp only [TermM.outcome, termGetDatabits, EStateM.run_bind, run_termFind, found]
  rfl

theorem outcome_getStopbits (found : s.term.find fd = .ok i) :
    (termGetStopbits fd).outcome s = .ok (stopbitsOf (s.term.currtermios i).cCflag) := by
  simp only [TermM.outcome, termGetStopbits, EStateM.run_bind, run_termFind, found]
  rfl

theorem outcome_getFlowcntrl (found : s.term.find fd = .ok i) :
    (termGetFlowcntrl fd).outcome s = .ok (flowcntrlOf (s.term.currtermios i)) := by
  simp only [TermM.outcome, termGetFlowcntrl, EStateM.run_bind, run_termFind, found]
  rfl

/-- After a `term_apply` that succeeds on a device that stores what it is given, the current settings are
those that were next, and the device has them. -/
theorem applied_exactly {replies : Replies} {now : Bool} {s' : Sys} (found : s.term.find fd = .ok i)
    (stores : ∀ t u, replies.tcsetattr t = some u → u = t)
    (applied : (termApply replies fd now).run s = .ok () s') :
    s'.term.find fd = .ok i ∧ s'.term.currtermios i = s.term.nexttermios i ∧
      s'.world.settingsOf fd = s.term.nexttermios i := by
  by_cases negative : fd < 0
  · rw [run_termApply_negative found negative] at applied
    cases applied
  have real : 0 ≤ fd := not_lt.mp negative
  cases set : replies.tcsetattr (s.term.nexttermios i) with
  | none =>
      rw [run_termApply_fails found set] at applied
      cases applied
  | some t =>
      cases read : replies.tcgetattr with
      | false =>
          rw [run_termApply_unread found real set read] at applied
          cases applied
      | true =>
          rw [run_termApply_reads found now real set read] at applied
          cases applied
          obtain rfl := stores _ _ set
          refine ⟨found, by simp, by simp [World.settingsOf, World.store]⟩

end Getters

/-- What is read back in `s` after `setters` were called in `s₀`: of each parameter the value set last, and
where none was, what was read before. -/
structure ReadsBack (plat : Platform) (fd : Int) (i : Slot) (setters : List Setter)
    (s₀ s : Sys) : Prop where
  baud : (termGetBaudrate plat fd).outcome s =
    ((lastSet Setter.baud setters).map .ok).getD ((termGetBaudrate plat fd).outcome s₀)
  parity : (termGetParity fd).outcome s =
    ((lastSet Setter.mode setters).map .ok).getD ((termGetParity fd).outcome s₀)
  databits : (termGetDatabits fd).outcome s =
    ((lastSet Setter.bits setters).map .ok).getD ((termGetDatabits fd).outcome s₀)
  stopbits : (termGetStopbits fd).outcome s =
    ((lastSet Setter.stops setters).map .ok).getD ((termGetStopbits fd).outcome s₀)
  flow : (termGetFlowcntrl fd).outcome s =
    ((lastSet Setter.flow setters).map .ok).getD ((termGetFlowcntrl fd).outcome s₀)
  loc : decide ((s.world.settingsOf fd).cCflag &&& clocal ≠ 0) =
    (lastSet Setter.isLocal setters).getD (decide ((s₀.term.currtermios i).cCflag &&& clocal ≠ 0))
  hup : decide ((s.world.settingsOf fd).cCflag &&& hupcl ≠ 0) =
    (lastSet Setter.hangs setters).getD (decide ((s₀.term.currtermios i).cCflag &&& hupcl ≠ 0))

/-- What is read where all parameters were set at once. -/
structure ReadsAll (plat : Platform) (fd : Int) (p : Params) (s : Sys) : Prop where
  baud : (termGetBaudrate plat fd).outcome s = .ok p.baud
  parity : (termGetParity fd).outcome s = .ok p.parity
  databits : (termGetDatabits fd).outcome s = .ok p.databits
  stopbits : (termGetStopbits fd).outcome s = .ok p.stopbits
  flow : (termGetFlowcntrl fd).outcome s = .ok p.fc
  loc : decide ((s.world.settingsOf fd).cCflag &&& clocal ≠ 0) = p.loc
  hup : decide ((s.world.settingsOf fd).cCflag &&& hupcl ≠ 0) = p.hupClose

/-- The getters read the parameters that the applied settings stand for. -/
theorem ReadsBack.of_line {plat : Platform} {fd : Int} {i : Slot} {setters : List Setter}
    {s₀ s : Sys} (found₀ : s₀.term.find fd = .ok i) (found : s.term.find fd = .ok i)
    (device : s.world.settingsOf fd = s.term.currtermios i)
    (line : Line.of plat (s.term.currtermios i) =
      setters.foldl Line.after (Line.of plat (s₀.term.currtermios i))) :
    ReadsBack plat fd i setters s₀ s := by
  have same {α β : Type} (get : Line → β) (value : Setter → Option α) (read : α → β)
      (one : ∀ line setter, get (line.after setter) = ((value setter).map read).getD (get line)) :
      get (Line.of plat (s.term.currtermios i)) =
        ((lastSet value setters).map read).getD (get (Line.of plat (s₀.term.currtermios i))) := by
    rw [line]
    exact foldl_lastSet one setters _
  constructor
  · rw [outcome_getBaudrate found, outcome_getBaudrate found₀]
    exact same Line.baud Setter.baud .ok fun line setter => by cases setter <;> rfl
  · rw [outcome_getParity found, outcome_getParity found₀]
    exact same (fun line => Except.ok line.parity) Setter.mode Except.ok fun line setter => by
      cases setter <;> rfl
  · rw [outcome_getDatabits found, outcome_getDatabits found₀]
    exact same (fun line => Except.ok line.databits) Setter.bits Except.ok fun line setter => by
      cases setter <;> rfl
  · rw [outcome_getStopbits found, outcome_getStopbits found₀]
    exact same (fun line => Except.ok line.stopbits) Setter.stops Except.ok fun line setter => by
      cases setter <;> rfl
  · rw [outcome_getFlowcntrl found, outcome_getFlowcntrl found₀]
    exact same (fun line => Except.ok line.flow) Setter.flow Except.ok fun line setter => by
      cases setter <;> rfl
  · rw [device]
    have last := same Line.loc Setter.isLocal id fun line setter => by cases setter <;> rfl
    rw [Option.map_id] at last
    exact last
  · rw [device]
    have last := same Line.hup Setter.hangs id fun line setter => by cases setter <;> rfl
    rw [Option.map_id] at last
    exact last

/-- A `term_set` that succeeds has called its setters on a managed descriptor. -/
theorem termSet_execAll {plat : Platform} {replies : Replies} {fd : Int} {p : Params} {s s' : Sys}
    (init : s.term.init = true) (ran : (termSet plat replies fd p).run s = .ok () s') :
    ∃ s₁ i, s₁.term.find fd = .ok i ∧ (execAll plat fd p.setters).run s₁ = .ok () s' := by
  rcases Term.find_cases init fd with ⟨i, found, -⟩ | ⟨absent, lost⟩
  · obtain ⟨t, ⟨set, -⟩ | ⟨e, set, -⟩⟩ := run_setters plat p.setters found
    · refine ⟨s, i, found, ?_⟩
      rw [set]
      simpa [termSet, found, termSetAll_eq, set] using ran
    · simp [termSet, found, termSetAll_eq, set] at ran
  · rcases termAdd_cases replies init lost with ⟨e, unadded, -⟩ | ⟨i, -, -, -, -, added⟩
    · rw [run_termSet_unadded absent unadded] at ran
      cases ran
    · obtain ⟨s₁, added, found⟩ : ∃ s₁, (termAdd replies fd).run s = .ok 0 s₁ ∧
          s₁.term.find fd = .ok i := by
        rw [added]
        exact ⟨_, rfl, find_of_added init lost (s.world.settingsOf fd)⟩
      refine ⟨s₁, i, found, ?_⟩
      obtain ⟨t, ⟨set, -⟩ | ⟨e, set, -⟩⟩ := run_setters plat p.setters found
      · rw [set]
        simpa [termSet, absent, added, termSetAll_eq, set] using ran
      · simp [termSet, absent, added, termSetAll_eq, set] at ran

/-- A `term_set` that succeeds in raw mode leaves the parameters it was given. -/
theorem termSet_line {plat : Platform} {replies : Replies} {fd : Int} {p : Params} {s s' : Sys}
    (init : s.term.init = true) (raw : p.raw = true) (small : p.baud < 2 ^ 31)
    (ran : (termSet plat replies fd p).run s = .ok () s') :
    ∃ i, s'.term.find fd = .ok i ∧ Line.of plat (s'.term.nexttermios i) =
      ⟨.ok p.baud, p.parity, p.databits, p.stopbits, p.fc, p.loc, p.hupClose⟩ := by
  obtain ⟨s₁, i, found, set⟩ := termSet_execAll init ran
  obtain ⟨t, changed⟩ : ∃ t, withRaw (s₁.term.nexttermios i) = .ok t := ⟨_, rfl⟩
  have first : (Setter.raw.exec plat fd).run s₁ = .ok () (s₁.withNext i t) :=
    run_setParameter_accepts found changed
  rw [Params.setters, if_pos raw, List.singleton_append, run_execAll_cons first] at set
  obtain ⟨t', rfl, line⟩ := execAll_line (s := s₁.withNext i t) found (by simp) (by
    intro baud inside
    simp only [List.mem_cons, Setter.baudrate.injEq, reduceCtorEq, List.not_mem_nil, or_self,
      or_false] at inside
    exact inside ▸ small) set
  refine ⟨i, found, ?_⟩
  have next : ((s₁.withNext i t).withNext i t').term.nexttermios i = t' := by simp [Sys.withNext]
  rw [next, line]
  rfl

/-- On a device that stores what it is given, once the settings are applied: after any sequence of
setters, `term_set_raw` apart, on a descriptor whose current and next settings are the same, each
parameter is read back as it was set last, or as before where it was not set; and after `term_set` in raw
mode every parameter is read back as it was set. -/
theorem line_settings_read_back (plat : Platform) (replies : Replies) (fd : Int) (now : Bool)
    (stores : ∀ t u, replies.tcsetattr t = some u → u = t) :
    (∀ (s₀ s₁ s : Sys) (i : Slot) (setters : List Setter), s₀.term.find fd = .ok i →
      s₀.term.nexttermios i = s₀.term.currtermios i → .raw ∉ setters →
      (∀ baud, .baudrate baud ∈ setters → baud < 2 ^ 31) →
      (execAll plat fd setters).run s₀ = .ok () s₁ →
      (termApply replies fd now).run s₁ = .ok () s → ReadsBack plat fd i setters s₀ s) ∧
    ∀ (s₀ s₁ s : Sys) (adding : Replies) (p : Params), s₀.term.init = true → p.raw = true →
      p.baud < 2 ^ 31 → (termSet plat adding fd p).run s₀ = .ok () s₁ →
      (termApply replies fd now).run s₁ = .ok () s → ReadsAll plat fd p s := by
  constructor
  · intro s₀ s₁ s i setters found₀ same lines small set applied
    obtain ⟨t, rfl, line⟩ := execAll_line found₀ lines small set
    have next : (s₀.withNext i t).term.nexttermios i = t := by simp [Sys.withNext]
    have found₁ : (s₀.withNext i t).term.find fd = .ok i := found₀
    obtain ⟨found, current, device⟩ := applied_exactly found₁ stores applied
    rw [next] at current device
    apply ReadsBack.of_line found₀ found (device.trans current.symm)
    rw [current, line, same]
  · intro s₀ s₁ s adding p init raw small set applied
    obtain ⟨i, found₁, line⟩ := termSet_line init raw small set
    obtain ⟨found, current, device⟩ := applied_exactly found₁ stores applied
    rw [← current] at line
    have device := device.trans current.symm
    constructor
    · rw [outcome_getBaudrate found]
      exact congrArg Line.baud line
    · rw [outcome_getParity found]
      exact congrArg (fun line => Except.ok line.parity) line
    · rw [outcome_getDatabits found]
      exact congrArg (fun line => Except.ok line.databits) line
    · rw [outcome_getStopbits found]
      exact congrArg (fun line => Except.ok line.stopbits) line
    · rw [outcome_getFlowcntrl found]
      exact congrArg (fun line => Except.ok line.flow) line
    · rw [device]
      exact congrArg Line.loc line
    · rw [device]
      exact congrArg Line.hup line

/-- Seven data bits and even parity, set on descriptor 3. -/
def sevenEven : List Setter := [.databits 8, .parity .even, .databits 7]

/-- The parameters that picocom sets by default. -/
def defaultParams : Params := ⟨true, 9600, .none, 8, 1, .none, true, true⟩

theorem seven_even_read_back :
    (∃ s, ReadsBack ⟨false, false⟩ 3 0 sevenEven managesThree s ∧
      (termGetDatabits 3).outcome s = .ok 7) ∧
    ∃ s, ReadsAll ⟨false, false⟩ 3 defaultParams s := by
  have both := line_settings_read_back ⟨false, false⟩ allSucceed 3 true fun t u stored =>
    (Option.some.inj stored).symm
  constructor
  · have set : (execAll ⟨false, false⟩ 3 sevenEven).run managesThree =
        .ok () ((execAll ⟨false, false⟩ 3 sevenEven).after managesThree) := rfl
    have applied : (termApply allSucceed 3 true).run
        ((execAll ⟨false, false⟩ 3 sevenEven).after managesThree) =
        .ok () ((termApply allSucceed 3 true).after
          ((execAll ⟨false, false⟩ 3 sevenEven).after managesThree)) := rfl
    have read := both.1 _ _ _ 0 sevenEven (by decide) rfl (by simp [sevenEven]) (by simp [sevenEven])
      set applied
    exact ⟨_, read, read.databits⟩
  · have set : (termSet ⟨false, false⟩ allSucceed 3 defaultParams).run managesThree =
        .ok () ((termSet ⟨false, false⟩ allSucceed 3 defaultParams).after managesThree) := rfl
    have applied : (termApply allSucceed 3 true).run
        ((termSet ⟨false, false⟩ allSucceed 3 defaultParams).after managesThree) =
        .ok () ((termApply allSucceed 3 true).after
          ((termSet ⟨false, false⟩ allSucceed 3 defaultParams).after managesThree)) := rfl
    exact ⟨_, both.2 _ _ _ allSucceed defaultParams rfl rfl (by decide) set applied⟩

end Ppcom
