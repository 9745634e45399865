/-
Module: Ppcom.Proofs.SetterEffects
Purpose: The setters of one parameter change the next settings as documented, and refuse exactly the
  parameters documented as invalid.
Trusted boundary: none
Main exports: Setter.exec_eq, Setter.sets_of_change, Setter.refuses_of_change
-/
import Ppcom.Proofs.TermCalls
import Ppcom.Spec.TermMap

namespace Ppcom

open BitMask

theorem Setter.exec_eq (plat : Platform) (setter : Setter) (fd : Int) :
    setter.exec plat fd = setParameter (setter.change plat) fd := by
  cases setter <;> rfl

/-! ### Flag words -/

theorem ChangesFlags.of_cflags {mask c : Word} {t : Termios} (agree : AgreeOff mask t.cCflag c) :
    ChangesFlags 0 mask t { t with cCflag := c } :=
  ⟨AgreeOff.refl _ _, agree, rfl⟩

theorem parityOf_mask (flg : Word) :
    parityOf flg = parityOf (flg &&& (parenb ||| parodd ||| cmspar)) := by
  have sub (m : Word) (within : (parenb ||| parodd ||| cmspar) &&& m = m) :
      flg &&& (parenb ||| parodd ||| cmspar) &&& m = flg &&& m := by
    rw [BitVec.and_assoc, within]
  simp only [parityOf, sub parenb (by decide), sub cmspar (by decide), sub parodd (by decide)]

theorem databitsOf_mask (flg : Word) : databitsOf flg = databitsOf (flg &&& csize) := by
  simp only [databitsOf, BitVec.and_assoc, BitVec.and_self]

theorem stopbitsOf_mask (flg : Word) : stopbitsOf flg = stopbitsOf (flg &&& cstopb) := by
  simp only [stopbitsOf, BitVec.and_assoc, BitVec.and_self]

/-! ### Parity, data bits, stop bits -/

theorem sets_withParity (plat : Platform) {mode : Parity} {t t' : Termios}
    (changed : withParity mode t = .ok t') : Setter.Sets plat (.parity mode) t t' := by
  cases mode with
  | none =>
      cases changed
      refine .parity ?_ (.of_cflags (agreeOff_clear (by decide) _))
      rw [parityOf_mask, read_clear (by decide)]
      decide
  | even =>
      cases changed
      refine .parity ?_ (.of_cflags (agreeOff_write (by decide) (by decide) _))
      rw [parityOf_mask, read_write (by decide)]
      decide
  | odd =>
      cases changed
      refine .parity ?_ (.of_cflags (agreeOff_write (by decide) (by decide) _))
      rw [parityOf_mask, read_write (by decide)]
      decide
  | mark =>
      cases changed
      refine .parity ?_ (.of_cflags (agreeOff_raise (by decide) _))
      rw [parityOf_mask, read_raise (by decide)]
      decide
  | space =>
      cases changed
      refine .parity ?_ (.of_cflags (agreeOff_write (by decide) (by decide) _))
      rw [parityOf_mask, read_write (by decide)]
      decide
  | error => cases changed

theorem sets_withDatabits (plat : Platform) {n : Int} {t t' : Termios}
    (changed : withDatabits n t = .ok t') : Setter.Sets plat (.databits n) t t' := by
  unfold withDatabits at changed
  split at changed <;> cases changed
  all_goals
    refine .databits ?_ (.of_cflags (agreeOff_write (by decide) (by decide) _))
    rw [databitsOf_mask, read_write (by decide)]
    decide

theorem sets_withStopbits (plat : Platform) {n : Int} {t t' : Termios}
    (changed : withStopbits n t = .ok t') : Setter.Sets plat (.stopbits n) t t' := by
  unfold withStopbits at changed
  split at changed <;> cases changed
  · refine .stopbits ?_ (.of_cflags (agreeOff_clear (by decide) _))
    rw [stopbitsOf_mask, read_clear (by decide)]
    decide
  · refine .stopbits ?_ (.of_cflags (agreeOff_raise (by decide) _))
    rw [stopbitsOf_mask, read_raise (by decide)]
    decide

theorem refuses_withParity (plat : Platform) {mode : Parity} {t : Termios} {e : TermErrno} :
    withParity mode t = .error e ↔ Setter.Refuses plat (.parity mode) e := by
  constructor
  · intro refused
    cases mode <;> cases refused
    exact .parity
  · rintro ⟨⟩
    rfl

theorem refuses_withDatabits (plat : Platform) {n : Int} {t : Termios} {e : TermErrno} :
    withDatabits n t = .error e ↔ Setter.Refuses plat (.databits n) e := by
  unfold withDatabits
  constructor
  · intro refused
    split at refused <;> cases refused
    simp only [imp_false] at *
    exact .databits (by omega)
  · intro refuses
    cases refuses with
    | databits unsupported => split <;> first | rfl | omega

theorem refuses_withStopbits (plat : Platform) {n : Int} {t : Termios} {e : TermErrno} :
    withStopbits n t = .error e ↔ Setter.Refuses plat (.stopbits n) e := by
  unfold withStopbits
  constructor
  · intro refused
    split at refused <;> cases refused
    simp only [imp_false] at *
    exact .stopbits (by omega)
  · intro refuses
    cases refuses with
    | stopbits unsupported => split <;> first | rfl | omega

/-! ### Flow control and single bits -/

theorem flowcntrlOf_masks (t t' : Termios)
    (rtscts : t.cCflag &&& crtscts = t'.cCflag &&& crtscts)
    (xoff : t.cIflag &&& ixoff = t'.cIflag &&& ixoff)
    (xon : t.cIflag &&& (ixon ||| ixany) = 0 ↔ t'.cIflag &&& (ixon ||| ixany) = 0) :
    flowcntrlOf t = flowcntrlOf t' := by
  simp only [flowcntrlOf, rtscts, xoff, ne_eq, xon]

/-- Settings with given flow control bits, at which the decoder can be evaluated. -/
def flowSample (cflags iflags : Word) : Termios :=
  { Termios.zero with cCflag := cflags, cIflag := iflags }

theorem sets_withFlowcntrl (plat : Platform) {flow : Flowcntrl} {t t' : Termios}
    (changed : withFlowcntrl flow t = .ok t') : Setter.Sets plat (.flowcntrl flow) t t' := by
  have down (x : Word) : (x &&& ~~~(ixon ||| ixoff ||| ixany)) &&& (ixon ||| ixany) = 0 :=
    read_clear (by decide) x
  cases flow with
  | none =>
      cases changed
      refine .flowcntrl ?_ ⟨agreeOff_clear (by decide) _, agreeOff_clear (by decide) _, rfl⟩
      rw [flowcntrlOf_masks _ (flowSample 0 0) (read_clear (by decide) _)
        (read_clear (by decide) _) (by simp [down, flowSample])]
      decide
  | rtscts =>
      cases changed
      refine .flowcntrl ?_ ⟨agreeOff_clear (by decide) _, agreeOff_raise (by decide) _, rfl⟩
      rw [flowcntrlOf_masks _ (flowSample crtscts 0) (read_raise (by decide) _)
        (read_clear (by decide) _) (by simp [down, flowSample])]
      decide
  | xonxoff =>
      cases changed
      refine .flowcntrl ?_ ⟨agreeOff_raise (by decide) _, agreeOff_clear (by decide) _, rfl⟩
      have up : (t.cIflag ||| (ixon ||| ixoff)) &&& (ixon ||| ixany) ≠ 0 := by
        intro lowered
        have raised := read_raise (show ixon &&& ~~~(ixon ||| ixoff) = 0 by decide) t.cIflag
        have part : (ixon ||| ixany) &&& ixon = ixon := by decide
        have both := congrArg (fun v => v &&& ixon) lowered
        simp only [BitVec.and_assoc, part, raised] at both
        exact absurd both (by decide)
      rw [flowcntrlOf_masks _ (flowSample 0 (ixon ||| ixoff)) (read_clear (by decide) _)
        (read_raise (by decide) _) (by simp only [up, false_iff]; decide)]
      decide
  | other => cases changed
  | error => cases changed

theorem refuses_withFlowcntrl (plat : Platform) {flow : Flowcntrl} {t : Termios} {e : TermErrno} :
    withFlowcntrl flow t = .error e ↔ Setter.Refuses plat (.flowcntrl flow) e := by
  constructor
  · intro refused
    cases flow <;> cases refused
    · exact .flowcntrl (.inl rfl)
    · exact .flowcntrl (.inr rfl)
  · intro refuses
    cases refuses with
    | flowcntrl unsupported => rcases unsupported with rfl | rfl <;> rfl

theorem withBit_bit {bit : Word} (real : bit ≠ 0) {on : Bool} {t t' : Termios}
    (changed : withBit bit on t = .ok t') :
    decide (t'.cCflag &&& bit ≠ 0) = on ∧ ChangesFlags 0 bit t t' := by
  cases on with
  | true =>
      cases changed
      refine ⟨?_, .of_cflags (agreeOff_raise (by simp) _)⟩
      have raised := read_raise (show bit &&& ~~~bit = 0 by simp) t.cCflag
      simpa [raised] using real
  | false =>
      cases changed
      refine ⟨?_, .of_cflags (agreeOff_clear (by simp) _)⟩
      simp [read_clear (show bit &&& ~~~bit = 0 by simp)]

/-! ### Baud rates -/

/-- Every code of the table is a speed code that the library takes, and fits the speed field. -/
theorem baudTable_codes (plat : Platform) :
    ∀ entry ∈ baudTable plat, speedCodeOk entry.2 = true ∧ entry.2 &&& ~~~cbaud = 0
      ∧ entry.2 ≠ bnone := by
  rcases plat with ⟨_ | _, _ | _⟩ <;> decide

/-- No rate of the table is negative. -/
theorem baudTable_natural (plat : Platform) : ∀ entry ∈ baudTable plat, 0 ≤ entry.1 := by
  rcases plat with ⟨_ | _, _ | _⟩ <;> decide

/-- A rate of the table is the first one with its code. -/
theorem baudTable_bspeed (plat : Platform) :
    ∀ entry ∈ baudTable plat, bspeed plat (bcode plat entry.1) = entry.1 := by
  rcases plat with ⟨_ | _, _ | _⟩ <;> decide

theorem bother_unlisted (plat : Platform) : bspeed plat bother < 0 := by
  rcases plat with ⟨_ | _, _ | _⟩ <;> decide

theorem bcode_listed (plat : Platform) {baud : Int}
    (listed : baud ∈ (baudTable plat).map Prod.fst) :
    ∃ entry ∈ baudTable plat, entry.1 = baud ∧ bcode plat baud = entry.2 := by
  unfold bcode
  cases found : (baudTable plat).find? (fun entry => entry.1 == baud) with
  | some entry =>
      have this := List.find?_some found
      exact ⟨entry, List.mem_of_find?_eq_some found, by simpa using this, rfl⟩
  | none =>
      rw [List.find?_eq_none] at found
      rw [List.mem_map] at listed
      obtain ⟨entry, inside, rate⟩ := listed
      exact absurd (by simpa using rate) (found entry inside)

theorem bcode_eq_bnone_iff (plat : Platform) {baud : Int} :
    bcode plat baud = bnone ↔ baud ∉ (baudTable plat).map Prod.fst := by
  constructor
  · intro code listed
    obtain ⟨entry, inside, -, same⟩ := bcode_listed plat listed
    exact (baudTable_codes plat entry inside).2.2 (same ▸ code)
  · intro unlisted
    unfold bcode
    cases found : (baudTable plat).find? (fun entry => entry.1 == baud) with
    | none => rfl
    | some entry =>
        have rate := List.find?_some found
        refine absurd (List.mem_map.mpr ⟨entry, List.mem_of_find?_eq_some found, ?_⟩) unlisted
        simpa using rate

/-- A rate that `term_baud_ok` accepts is not negative. -/
theorem termBaudOk_natural {plat : Platform} {baud : Int} (ok : termBaudOk plat baud = true) :
    0 ≤ baud := by
  unfold termBaudOk at ok
  split at ok
  · exact of_decide_eq_true ok
  · have coded : ¬ bcode plat baud = bnone := by simpa using ok
    rw [bcode_eq_bnone_iff, not_not] at coded
    obtain ⟨entry, inside, rfl⟩ := List.mem_map.mp coded
    exact baudTable_natural plat entry inside

theorem zero_listed (plat : Platform) : (0 : Int) ∈ (baudTable plat).map Prod.fst := by
  rcases plat with ⟨_ | _, _ | _⟩ <;> decide

/-- The output speed field after the input speed was set to follow it. -/
theorem cfgetospeed_cfsetispeedB0 (plat : Platform) (t : Termios) :
    cfgetospeed (cfsetispeedB0 plat t) = cfgetospeed t := by
  unfold cfsetispeedB0
  split
  · exact (read_agreeOff (show (cbaud ||| cbaudex) &&& (cbaud <<< ibshift) = 0 by decide)
      (agreeOff_write (by decide) (by decide) t.cCflag)).symm
  · rfl

theorem cOspeed_cfsetispeedB0 (plat : Platform) (t : Termios) :
    (cfsetispeedB0 plat t).cOspeed = t.cOspeed := by
  unfold cfsetispeedB0
  split <;> rfl

/-- Setting an output speed code and then the input speed changes nothing but the speeds. -/
theorem speed_changes (plat : Platform) {code : Word} (fits : code &&& ~~~cbaud = 0)
    (ospeed : Word) (t : Termios) :
    let t' := cfsetispeedB0 plat
      { t with
        cCflag := (t.cCflag &&& ~~~(cbaud ||| cbaudex)) ||| code
        cOspeed := ospeed }
    cfgetospeed t' = code ∧ t'.cOspeed = ospeed ∧
      ChangesFlags ibaud0 (cbaud ||| cbaud <<< ibshift)
        { t with cIspeed := t'.cIspeed, cOspeed := t'.cOspeed } t' := by
  have fits' : AgreeOff cbaud t.cCflag ((t.cCflag &&& ~~~(cbaud ||| cbaudex)) ||| code) :=
    agreeOff_write (by decide) fits _
  refine ⟨?_, cOspeed_cfsetispeedB0 plat _, ?_⟩
  · rw [cfgetospeed_cfsetispeedB0]
    have wider : code &&& ~~~(cbaud ||| cbaudex) = 0 := fits
    exact read_field wider t.cCflag
  · unfold cfsetispeedB0
    split
    · refine ⟨AgreeOff.refl _ _, ?_, rfl⟩
      exact (fits'.mono (by decide)).trans (agreeOff_write (by decide) (by decide) _)
    · refine ⟨agreeOff_raise (by decide) _, ?_, rfl⟩
      exact fits'.mono (by decide)

/-- `term_set_baudrate` accepts the rates of the table and, where custom rates can be used, the
positive ones. -/
theorem withBaudrate_cases (plat : Platform) (baud : Int) (t : Termios) :
    (baud ∈ (baudTable plat).map Prod.fst ∧
      withBaudrate plat baud t = .ok (cfsetispeedB0 plat
        { t with
          cCflag := (t.cCflag &&& ~~~(cbaud ||| cbaudex)) ||| bcode plat baud
          cOspeed := bcode plat baud }))
    ∨ (baud ∉ (baudTable plat).map Prod.fst ∧ plat.useCustomBaud = true ∧ 0 ≤ baud ∧
      withBaudrate plat baud t = .ok (cfsetispeedB0 plat
        { t with
          cCflag := (t.cCflag &&& ~~~(cbaud ||| cbaudex)) ||| bother
          cOspeed := BitVec.ofInt 32 baud }))
    ∨ ∃ e, Setter.Refuses plat (.baudrate baud) e ∧ withBaudrate plat baud t = .error e := by
  by_cases listed : baud ∈ (baudTable plat).map Prod.fst
  · left
    obtain ⟨entry, inside, -, code⟩ := bcode_listed plat listed
    obtain ⟨ok, -, real⟩ := baudTable_codes plat entry inside
    refine ⟨listed, ?_⟩
    simp [withBaudrate, code, real, cfsetospeed, ok]
  · right
    have code : bcode plat baud = bnone := (bcode_eq_bnone_iff plat).mpr listed
    by_cases custom : plat.useCustomBaud = true
    · have nonzero : baud ≠ 0 := by
        rintro rfl
        exact listed (zero_listed plat)
      by_cases negative : baud < 0
      · right
        refine ⟨.esetospeed, .customBaudrate listed custom negative, ?_⟩
        have low : baud ≤ 0 := by omega
        simp [withBaudrate, code, custom, cfsetospeedCustom, low]
      · left
        have positive : ¬ baud ≤ 0 := by omega
        refine ⟨listed, custom, by omega, ?_⟩
        simp [withBaudrate, code, custom, cfsetospeedCustom, positive]
    · right
      refine ⟨.ebaud, .baudrate listed (by simpa using custom), ?_⟩
      simp [withBaudrate, code, custom]

theorem sets_withBaudrate (plat : Platform) {baud : Int} {t t' : Termios}
    (changed : withBaudrate plat baud t = .ok t') : Setter.Sets plat (.baudrate baud) t t' := by
  rcases withBaudrate_cases plat baud t with
    ⟨listed, same⟩ | ⟨unlisted, -, -, same⟩ | ⟨e, -, same⟩
  · rw [same] at changed
    cases changed
    obtain ⟨entry, inside, rate, code⟩ := bcode_listed plat listed
    obtain ⟨-, fits, -⟩ := baudTable_codes plat entry inside
    obtain ⟨speed, -, rest⟩ := speed_changes plat (code ▸ fits) (bcode plat baud) t
    refine .baudrate ?_ rest
    rw [HasBaudrate, if_pos listed, speed, ← rate]
    exact baudTable_bspeed plat entry inside
  · rw [same] at changed
    cases changed
    obtain ⟨speed, custom, rest⟩ := speed_changes plat (show bother &&& ~~~cbaud = 0 by decide)
      (BitVec.ofInt 32 baud) t
    refine .baudrate ?_ rest
    rw [HasBaudrate, if_neg unlisted, speed]
    exact ⟨bother_unlisted plat, custom⟩
  · rw [same] at changed
    cases changed

theorem refuses_withBaudrate (plat : Platform) {baud : Int} {t : Termios} {e : TermErrno} :
    withBaudrate plat baud t = .error e ↔ Setter.Refuses plat (.baudrate baud) e := by
  rcases withBaudrate_cases plat baud t with
    ⟨listed, same⟩ | ⟨unlisted, custom, positive, same⟩ | ⟨e', refuses, same⟩
  · rw [same]
    simp only [reduceCtorEq, false_iff]
    rintro (⟨unlisted, -⟩ | ⟨unlisted, -, -⟩) <;> exact unlisted listed
  · rw [same]
    simp only [reduceCtorEq, false_iff]
    intro refuses
    cases refuses with
    | baudrate _ standard => simp [custom] at standard
    | customBaudrate _ _ negative => omega
  · rw [same]
    simp only [Except.error.injEq]
    constructor
    · rintro rfl
      exact refuses
    · intro again
      cases refuses <;> cases again <;> simp_all

/-! ### Raw mode -/

theorem sets_withRaw (plat : Platform) {t t' : Termios} (changed : withRaw t = .ok t') :
    Setter.Sets plat .raw t t' := by
  cases changed
  refine .raw (agreeOff_clear (by decide) _) (read_clear (by decide) _)
    (agreeOff_clear (by decide) _) (read_clear (by decide) _)
    (agreeOff_clear (by decide) _) (read_clear (by decide) _)
    (agreeOff_write (by decide) (by decide) _) ?_ ?_ ?_ ?_ ?_ ⟨rfl, rfl, rfl⟩
  · have size : ((t.cCflag &&& ~~~(csize ||| parenb)) ||| cs8) &&& csize = cs8 &&& csize :=
      read_write (by decide) _
    change databitsOf ((t.cCflag &&& ~~~(csize ||| parenb)) ||| cs8) = 8
    rw [databitsOf_mask, size]
    decide
  · exact read_write (show parenb &&& ~~~(csize ||| parenb ||| cs8) = 0 by decide) _
  · simp [vmin, vtime]
  · simp [vmin, vtime]
  · intro i notMin notTime
    have apartMin : (6 : Nat) ≠ i := fun same => notMin (Fin.ext same.symm)
    have apartTime : (5 : Nat) ≠ i := fun same => notTime (Fin.ext same.symm)
    simp [cfmakeraw, vmin, vtime, apartMin, apartTime]


/-! ### All setters -/

/-- A setter that accepts its parameter has the documented effect. -/
theorem Setter.sets_of_change (plat : Platform) {setter : Setter} {t t' : Termios}
    (changed : setter.change plat t = .ok t') : setter.Sets plat t t' := by
  cases setter with
  | raw => exact sets_withRaw plat changed
  | baudrate baud => exact sets_withBaudrate plat changed
  | parity mode => exact sets_withParity plat changed
  | databits n => exact sets_withDatabits plat changed
  | stopbits n => exact sets_withStopbits plat changed
  | flowcntrl flow => exact sets_withFlowcntrl plat changed
  | loc on =>
      obtain ⟨bit, rest⟩ := withBit_bit (by decide) changed
      exact .loc bit rest
  | hupcl on =>
      obtain ⟨bit, rest⟩ := withBit_bit (by decide) changed
      exact .hupcl bit rest

/-- A setter refuses exactly the parameters documented as invalid. -/
theorem Setter.refuses_of_change (plat : Platform) {setter : Setter} {t : Termios}
    {e : TermErrno} : setter.change plat t = .error e ↔ setter.Refuses plat e := by
  cases setter with
  | raw => exact ⟨nofun, nofun⟩
  | baudrate baud => exact refuses_withBaudrate plat
  | parity mode => exact refuses_withParity plat
  | databits n => exact refuses_withDatabits plat
  | stopbits n => exact refuses_withStopbits plat
  | flowcntrl flow => exact refuses_withFlowcntrl plat
  | loc on => exact ⟨nofun, nofun⟩
  | hupcl on => exact ⟨nofun, nofun⟩

end Ppcom
