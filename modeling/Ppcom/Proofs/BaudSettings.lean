/-
Module: Ppcom.Proofs.BaudSettings
Purpose: A rate that `term_set_baudrate` accepts is the rate that the framework reports and that the
  kernel decodes once it is applied, for output and for input.
Trusted boundary: none
Main exports: Carries, withBaudrate_carries, baud_settings_agree
-/
import Ppcom.Proofs.SetterEffects
import Ppcom.Termios2

namespace Ppcom

open BitMask

/-! ### The two fields -/

/-- The mask of the output speed field and the input speed field of `c_cflag`. -/
def speedFields : Word := cbaud ||| cbaud <<< ibshift

/-- The settings have a rate in the output speed field, in numbers where it is no code of the table,
and an input speed field that follows it. -/
structure Carries (plat : Platform) (baud : Int) (t : Termios) : Prop where
  rate : HasBaudrate plat t baud
  field : baud ∉ (baudTable plat).map Prod.fst → cfgetospeed t = bother
  input : (t.cCflag >>> ibshift) &&& cbaud = b0

/-- What is below a field that is zero, is zero. -/
theorem input_field_eq {c : Word} (clear : c &&& cbaud <<< ibshift = 0) :
    (c >>> ibshift) &&& cbaud = b0 := by
  have shifted : (c &&& cbaud <<< ibshift) >>> ibshift = (0 : Word) >>> ibshift := by
    rw [clear]
  rw [BitVec.ushiftRight_and_distrib] at shifted
  exact shifted

/-- The input speed field after `cf2setispeed` of `B0`. -/
theorem input_cfsetispeedB0 {plat : Platform} (custom : plat.useCustomBaud = true) (t : Termios) :
    ((cfsetispeedB0 plat t).cCflag >>> ibshift) &&& cbaud = b0 := by
  apply input_field_eq
  rw [cfsetispeedB0, if_pos custom]
  exact read_write (by decide) t.cCflag

/-- With custom rates, `term_set_baudrate` accepts what `term_baud_ok` accepts. The settings it makes
carry the rate, and no flag outside the speed fields has changed. -/
theorem withBaudrate_carries {plat : Platform} (custom : plat.useCustomBaud = true) (baud : Int)
    (t : Termios) :
    (termBaudOk plat baud = true ∧ ∃ t', withBaudrate plat baud t = .ok t' ∧ Carries plat baud t' ∧
      AgreeOff speedFields t.cCflag t'.cCflag) ∨
    (termBaudOk plat baud = false ∧ ∃ e, withBaudrate plat baud t = .error e) := by
  rcases withBaudrate_cases plat baud t with
    ⟨listed, same⟩ | ⟨unlisted, -, positive, same⟩ | ⟨e, refuses, same⟩
  · left
    have sets := sets_withBaudrate plat same
    cases sets with
    | baudrate rate rest =>
        have natural := baudTable_natural plat
        obtain ⟨entry, inside, rfl, -⟩ := bcode_listed plat listed
        refine ⟨by simp [termBaudOk, custom, natural entry inside], _, same, ?_, rest.cCflag⟩
        exact ⟨rate, fun unlisted => absurd listed unlisted, input_cfsetispeedB0 custom _⟩
  · left
    have sets := sets_withBaudrate plat same
    cases sets with
    | baudrate rate rest =>
        refine ⟨by simp [termBaudOk, custom, positive], _, same, ?_, rest.cCflag⟩
        refine ⟨rate, fun _ => ?_, input_cfsetispeedB0 custom _⟩
        exact (speed_changes plat (show bother &&& ~~~cbaud = 0 by decide) _ t).1
  · right
    refine ⟨?_, e, same⟩
    cases refuses with
    | baudrate unlisted standard => simp [custom] at standard
    | customBaudrate unlisted custom negative => simp [termBaudOk, custom, negative]

/-! ### The readers -/

/-- `term_get_baudrate` reports the rate that the current settings carry. -/
theorem outcome_termGetBaudrate {plat : Platform} {baud : Int} {s : Sys} {fd : Int} {i : Slot}
    (custom : plat.useCustomBaud = true) (found : s.term.find fd = .ok i) (natural : 0 ≤ baud)
    (small : baud < 2 ^ 31) (rate : HasBaudrate plat (s.term.currtermios i) baud) :
    (termGetBaudrate plat fd).outcome s = .ok baud := by
  unfold HasBaudrate at rate
  split at rate
  · simp [TermM.outcome, termGetBaudrate, found, rate, Int.not_lt.mpr natural]
  · obtain ⟨none, ospeed⟩ := rate
    have value : cfgetospeedCustom (s.term.currtermios i) = baud := by
      rw [cfgetospeedCustom, ospeed, BitVec.toInt_ofInt]
      exact Int.bmod_eq_of_le (by omega) (by omega)
    simp [TermM.outcome, termGetBaudrate, found, none, custom, value, Int.not_lt.mpr natural]

/-- The kernel's table has the codes of `baud_table`, none of which is `BOTHER`. -/
theorem kernelRate_code (plat : Platform) :
    ∀ entry ∈ baudTable plat, entry.2 ≠ bother ∧ kernelRate entry.2 = some entry.1 := by
  rcases plat with ⟨_ | _, _ | _⟩ <;> decide

/-- A code that `Bspeed` knows belongs to an entry of the table. -/
theorem entry_of_bspeed {plat : Platform} {code : Word} {baud : Int} (natural : 0 ≤ baud)
    (speed : bspeed plat code = baud) : ∃ entry ∈ baudTable plat, entry = (baud, code) := by
  unfold bspeed at speed
  cases found : (baudTable plat).find? (fun entry => entry.2 == code) with
  | none =>
      rw [found] at speed
      simp only at speed
      omega
  | some entry =>
      rw [found] at speed
      have same := List.find?_some found
      exact ⟨entry, List.mem_of_find?_eq_some found, Prod.ext speed (by simpa using same)⟩

/-- The kernel decodes the rate that the settings carry, for output. -/
theorem Carries.output {plat : Platform} {baud : Int} {t : Termios} (carries : Carries plat baud t)
    (natural : 0 ≤ baud) (small : baud < 2 ^ 31) :
    ttyTermiosBaudRate t.toTermios2 = some baud := by
  have speed := carries.rate
  have wider : cbaud ||| cbaudex = cbaud := by decide
  unfold HasBaudrate at speed
  unfold ttyTermiosBaudRate
  rw [wider, t.cCflag_toTermios2, t.cOspeed_toTermios2]
  split at speed
  · obtain ⟨entry, inside, rfl⟩ := entry_of_bspeed natural speed
    obtain ⟨standard, known⟩ := kernelRate_code plat _ inside
    simp only [cfgetospeed, wider] at standard known
    rw [if_neg standard]
    exact known
  · next unlisted =>
    have other := carries.field unlisted
    rw [cfgetospeed, wider] at other
    rw [if_pos other, Option.some_inj, speed.2, BitVec.toNat_ofInt]
    omega

/-- And for input. -/
theorem Carries.inputRate {plat : Platform} {baud : Int} {t : Termios}
    (carries : Carries plat baud t) (natural : 0 ≤ baud) (small : baud < 2 ^ 31) :
    ttyTermiosInputBaudRate t.toTermios2 = some baud := by
  have follows : (t.toTermios2.cCflag >>> ibshift) &&& cbaud = b0 := carries.input
  rw [ttyTermiosInputBaudRate]
  simp only [follows, if_true]
  exact carries.output natural small

/-- What a device stores and returns carries the same rate. -/
theorem Carries.stored {plat : Platform} {baud : Int} {t : Termios} (carries : Carries plat baud t) :
    Carries plat baud t.toTermios2.toTermios :=
  ⟨carries.rate, carries.field, carries.input⟩

/-! ### The settings agree -/

/-- With custom rates, `term_set_baudrate` succeeds exactly for the rates that `term_baud_ok` accepts,
and leaves the next settings as they were where it fails. Where it succeeds and `term_apply` is called
for a device that stores what it is given, `term_get_baudrate` returns the rate, the kernel decodes it
for output and for input, and no flag outside the two speed fields has changed. -/
theorem baud_settings_agree (plat : Platform) (custom : plat.useCustomBaud = true) (s : Sys)
    {fd : Int} {i : Slot} (real : 0 ≤ fd) (managed : s.term.find fd = .ok i) {baud : Int}
    (isInt : baud < 2 ^ 31) {replies : Replies} (reads : replies.tcgetattr = true)
    (stores : ∀ t, replies.tcsetattr t = some t.toTermios2.toTermios) (now : Bool) :
    ((termSetBaudrate plat fd baud).outcome s).isOk = termBaudOk plat baud ∧
    (termBaudOk plat baud = false →
      ((termSetBaudrate plat fd baud).after s).term.nexttermios = s.term.nexttermios) ∧
    (termBaudOk plat baud = true →
      ∃ s', (termApply replies fd now).run ((termSetBaudrate plat fd baud).after s) = .ok () s' ∧
        (termGetBaudrate plat fd).outcome s' = .ok baud ∧
        ttyTermiosBaudRate (s'.world.settingsOf fd).toTermios2 = some baud ∧
        ttyTermiosInputBaudRate (s'.world.settingsOf fd).toTermios2 = some baud ∧
        AgreeOff speedFields (s.term.nexttermios i).cCflag (s'.world.settingsOf fd).cCflag) := by
  rcases withBaudrate_carries custom baud (s.term.nexttermios i) with
    ⟨ok, t, set, carries, frame⟩ | ⟨refused, e, set⟩
  · have ran := run_setParameter_accepts managed set
    have after : (termSetBaudrate plat fd baud).after s = { s with
        term := { s.term with nexttermios := Function.update s.term.nexttermios i t } } := by
      rw [TermM.after, termSetBaudrate, ran, Program.final_ok]
    refine ⟨?_, by simp [ok], fun _ => ?_⟩
    · rw [TermM.outcome, termSetBaudrate, ran, ok]
      rfl
    have natural : 0 ≤ baud := by simpa [termBaudOk, custom] using ok
    have found : ((termSetBaudrate plat fd baud).after s).term.find fd = .ok i := by
      rw [after]
      exact managed
    refine ⟨_, run_termApply_reads found now real (stores _) reads, ?_, ?_, ?_, ?_⟩
    · refine outcome_termGetBaudrate custom (i := i) found natural isInt ?_
      simpa [after] using carries.stored.rate
    · simpa [after, World.settingsOf, World.store] using carries.stored.output natural isInt
    · simpa [after, World.settingsOf, World.store] using carries.stored.inputRate natural isInt
    · simpa [after, World.settingsOf, World.store] using frame
  · have ran := run_setParameter_refuses managed set
    refine ⟨?_, fun _ => ?_, by simp [refused]⟩
    · rw [TermM.outcome, termSetBaudrate, ran, refused]
      rfl
    · rw [TermM.after, termSetBaudrate, ran, Program.final_error]

/-- A rate that is not in the table, on a port that is the only descriptor. -/
theorem baud_settings_agree_250000 :
    let term := { Term.static with init := true, fd := Function.update (fun _ => -1) 0 3 }
    let replies := { allSucceed with tcsetattr := fun t => some t.toTermios2.toTermios }
    ∃ s', (termApply replies 3 true).run
        ((termSetBaudrate ⟨false, true⟩ 3 250000).after { startSys with term := term }) = .ok () s' ∧
      (termGetBaudrate ⟨false, true⟩ 3).outcome s' = .ok 250000 ∧
      ttyTermiosInputBaudRate (s'.world.settingsOf 3).toTermios2 = some 250000 := by
  intro term replies
  have managed : term.find 3 = .ok 0 := by decide +kernel
  have isInt : (250000 : Int) < 2 ^ 31 := by decide
  have reads : replies.tcgetattr = true := rfl
  have agree := baud_settings_agree ⟨false, true⟩ rfl { startSys with term := term } (by decide)
    managed isInt reads (fun _ => rfl) true
  obtain ⟨s', applied, reported, -, input, -⟩ := agree.2.2 rfl
  exact ⟨s', applied, reported, input⟩

end Ppcom
