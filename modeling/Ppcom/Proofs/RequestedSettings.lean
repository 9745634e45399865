/-
Module: Ppcom.Proofs.RequestedSettings
Purpose: The settings that the options ask for are valid, from the command line on and whatever command
  keys follow, so that the framework accepts what the commands set.
Trusted boundary: none
Main exports: exec_calls, exec_silent, parseArgs_valid, Commanded.valid, requested_settings_valid
-/
import Ppcom.Main
import Ppcom.Proofs.BaudStepping
import Ppcom.Proofs.NumericArgs
import Ppcom.Proofs.OptionFrames
import Ppcom.Proofs.TermSet

namespace Ppcom

open Program

variable {plat : Platform} {build : Build} {strdup : List UInt8 → Option (List UInt8)}

/-! ### Commands -/

theorem run_get_bind {α : Type} (f : Session → SessionM α) (s : Session) :
    (MonadState.get >>= f).run s = (f s).run s := rfl

theorem run_modify_bind {α : Type} (g : Session → Session) (f : PUnit → SessionM α) (s : Session) :
    ((modify g : SessionM PUnit) >>= f).run s = (f ⟨⟩).run (g s) := rfl

/-- A prompt, and what follows it. -/
theorem run_prompt_bind {α : Type} (f : Int → SessionM α) (s : Session) :
    (prompt (readBaud plat) Entry.baud >>= f).run s =
      (f (readBaud plat s.env.stdin).1).run (s.askedBaud plat) := rfl

/-- The command of a key that calls a setter goes on from there. -/
theorem exec_calls {key : Key} {s u : Session} {setter : Setter}
    (called : key.calls build s = some (setter, u)) :
    (key.exec build).run s = (setter.command build).run u := by
  cases key with
  | baud =>
      unfold Key.calls at called
      dsimp only at called
      split at called
      · cases called
      · next entered =>
        cases called
        simp only [Key.exec, cmdBaud, bind_assoc]
        rw [run_prompt_bind, if_neg entered, run_modify_bind]
        rfl
  | baudUp | baudDn | flow | parity | bits | stop =>
      cases called
      simp only [Key.exec, cmdBaud, cmdFlow, cmdParity, cmdBits, cmdStop, bind_assoc]
      rw [run_get_bind, run_modify_bind]
      rfl
  | _ => cases called

/-- Where no setter is called the requested settings stay as they are. -/
theorem exec_silent {key : Key} {s : Session} (silent : key.calls build s = none) :
    SameRequest s (final ((key.exec build).run s)) := by
  cases key with
  | baud =>
      unfold Key.calls at silent
      dsimp only at silent
      split at silent
      · next aborted =>
        simp only [Key.exec]
        rw [run_prompt_bind, if_pos aborted]
        rfl
      · cases silent
  | baudUp | baudDn | flow | parity | bits | stop => cases silent
  | _ => exact SameRequest.exec build id s

/-! ### Valid requests -/

/-- The setter takes what `term_baud_ok` accepts. -/
theorem termBaudOk_accepted {baud : Int} (ok : termBaudOk plat baud = true) (e : TermErrno) :
    ¬ Setter.Refuses plat (.baudrate baud) e := by
  refine baudrate_accepted.mpr ?_ e
  by_cases custom : plat.useCustomBaud = true
  · exact .inr ⟨custom, termBaudOk_natural ok⟩
  · left
    rw [termBaudOk, if_neg custom] at ok
    by_contra unlisted
    rw [(bcode_eq_bnone_iff plat).mpr unlisted] at ok
    cases ok

theorem termBaudOk_listed {baud : Int} (listed : baud ∈ plat.speedTable.speeds) :
    termBaudOk plat baud = true := by
  unfold termBaudOk
  split
  · exact decide_eq_true (plat.speedTable.natural baud listed)
  · exact bne_iff_ne.mpr fun code => (bcode_eq_bnone_iff plat).mp code listed

theorem baudUp_ok {baud : Int} (positive : 0 < baud) (ok : termBaudOk plat baud = true) :
    0 < baudUp plat baud ∧ termBaudOk plat (baudUp plat baud) = true := by
  have next : baudUp plat baud = Neighbours.above plat.speedTable.speeds baud :=
    congrFun plat.speedTable.termBaudUp_above baud
  rw [next]
  refine ⟨positive.trans_le (Neighbours.le_above plat.speedTable.speeds_increasing baud), ?_⟩
  rcases Neighbours.above_mem_or plat.speedTable.speeds_increasing baud with same | inside
  · rwa [same]
  · exact termBaudOk_listed inside

theorem baudDown_ok {baud : Int} (positive : 0 < baud) (ok : termBaudOk plat baud = true) :
    0 < baudDown plat baud ∧ termBaudOk plat (baudDown plat baud) = true := by
  refine ⟨plat.speedTable.baudDown_positive positive, ?_⟩
  have next : baudDown plat baud = Neighbours.below plat.speedTable.positive baud :=
    plat.speedTable.baudDown_below positive
  rw [next]
  rcases Neighbours.below_cases plat.speedTable.positive_increasing baud with greatest | ⟨-, same⟩
  · exact termBaudOk_listed (plat.speedTable.mem_positive.mp greatest.1.1).1
  · rwa [same]

/-- What the prompt for a baud rate returns is accepted, if it is not negative. -/
theorem readBaud_ok {src : Source} (entered : ¬ (readBaud plat src).1 < 0) :
    0 < (readBaud plat src).1 ∧ termBaudOk plat (readBaud plat src).1 = true := by
  rcases readBaud_cases plat src with negative | ⟨line, -, is⟩
  · exact absurd negative entered
  · rw [is] at entered ⊢
    unfold baudOfLine at entered ⊢
    dsimp only at entered ⊢
    split at entered
    · exact absurd (by decide) entered
    · next valid =>
      rw [if_neg valid]
      obtain ⟨-, rest⟩ := not_or.mp valid
      obtain ⟨ok, nonzero⟩ := not_or.mp rest
      exact ⟨lt_of_le_of_ne (not_lt.mp entered) (Ne.symm nonzero), not_not.mp ok⟩

theorem flowNext_ok (flow : Flowcntrl) :
    flowNext flow = .none ∨ flowNext flow = .rtscts ∨ flowNext flow = .xonxoff := by
  cases flow <;> simp [flowNext]

theorem parityNext_ok (parity : Parity) :
    parityNext parity = .none ∨ parityNext parity = .even ∨ parityNext parity = .odd := by
  cases parity <;> simp [parityNext]

theorem bitsNext_ok {bits : Int} (ok : 5 ≤ bits ∧ bits ≤ 8) :
    5 ≤ bitsNext bits ∧ bitsNext bits ≤ 8 := by
  unfold bitsNext
  split <;> omega

theorem stopbitsNext_ok {bits : Int} (ok : 1 ≤ bits ∧ bits ≤ 2) :
    1 ≤ stopbitsNext bits ∧ stopbitsNext bits ≤ 2 := by
  unfold stopbitsNext
  split <;> omega

theorem flow_accepted {flow : Flowcntrl} (ok : flow = .none ∨ flow = .rtscts ∨ flow = .xonxoff)
    (e : TermErrno) : ¬ Setter.Refuses plat (.flowcntrl flow) e := by
  refine flowcntrl_accepted.mpr ?_ e
  rcases ok with rfl | rfl | rfl <;> decide

theorem mode_accepted {mode : Parity} (ok : mode = .none ∨ mode = .even ∨ mode = .odd)
    (e : TermErrno) : ¬ Setter.Refuses plat (.parity mode) e := by
  refine parity_accepted.mpr ?_ e
  rcases ok with rfl | rfl | rfl <;> decide

/-- What the command of a key requests is valid where the settings were, and its setter takes it. -/
theorem Key.calls_valid {key : Key} {s u : Session} {setter : Setter}
    (valid : s.opts.requested.Valid build.toPlatform)
    (called : key.calls build s = some (setter, u)) :
    u.opts.requested.Valid build.toPlatform ∧ ∀ e, ¬ setter.Refuses build.toPlatform e := by
  cases key with
  | baud =>
      unfold Key.calls at called
      dsimp only at called
      split at called
      · cases called
      · next entered =>
        cases called
        obtain ⟨positive, ok⟩ := readBaud_ok entered
        exact ⟨⟨positive, ok, valid.flow, valid.parity, valid.databits, valid.stopbits⟩,
          termBaudOk_accepted ok⟩
  | baudUp =>
      cases called
      obtain ⟨positive, ok⟩ := baudUp_ok valid.positive valid.baudOk
      exact ⟨⟨positive, ok, valid.flow, valid.parity, valid.databits, valid.stopbits⟩,
        termBaudOk_accepted ok⟩
  | baudDn =>
      cases called
      obtain ⟨positive, ok⟩ := baudDown_ok valid.positive valid.baudOk
      exact ⟨⟨positive, ok, valid.flow, valid.parity, valid.databits, valid.stopbits⟩,
        termBaudOk_accepted ok⟩
  | flow =>
      cases called
      have ok := flowNext_ok s.opts.flow
      exact ⟨⟨valid.positive, valid.baudOk, ok, valid.parity, valid.databits, valid.stopbits⟩,
        flow_accepted ok⟩
  | parity =>
      cases called
      have ok := parityNext_ok s.opts.parity
      exact ⟨⟨valid.positive, valid.baudOk, valid.flow, ok, valid.databits, valid.stopbits⟩,
        mode_accepted ok⟩
  | bits =>
      cases called
      have ok := bitsNext_ok valid.databits
      exact ⟨⟨valid.positive, valid.baudOk, valid.flow, valid.parity, ok, valid.stopbits⟩,
        databits_accepted.mpr ok⟩
  | stop =>
      cases called
      have ok := stopbitsNext_ok valid.stopbits
      exact ⟨⟨valid.positive, valid.baudOk, valid.flow, valid.parity, valid.databits, ok⟩,
        stopbits_accepted.mpr ok⟩
  | _ => cases called

/-- A setter that does not refuse its parameter succeeds for a descriptor that is managed. -/
theorem outcome_setter {setter : Setter} {t : Sys} {fd : Int} {i : Slot}
    (managed : t.term.find fd = .ok i) (accepted : ∀ e, ¬ setter.Refuses plat e) :
    (setter.exec plat fd).outcome t = .ok () := by
  rw [Setter.exec_eq]
  cases set : setter.change plat (t.term.nexttermios i) with
  | ok tio =>
      rw [TermM.outcome, run_setParameter_accepts managed set]
  | error e => exact absurd ((Setter.refuses_of_change plat).mp set) (accepted e)

/-! ### The command line -/

theorem default_valid (plat : Platform) : Opts.default.requested.Valid plat where
  positive := by decide
  baudOk := by rcases plat with ⟨_ | _, _ | _⟩ <;> decide
  flow := .inl rfl
  parity := .inl rfl
  databits := by decide
  stopbits := by decide

theorem baudArg_ok {optarg : List UInt8} {baud : Int} (taken : baudArg plat optarg = some baud) :
    0 < baud ∧ termBaudOk plat baud = true := by
  obtain ⟨valid, same⟩ := Option.ite_none_left_eq_some.mp taken
  cases same
  obtain ⟨nonzero, ok⟩ := not_or.mp valid
  exact ⟨lt_of_le_of_ne (termBaudOk_natural (not_not.mp ok)) (Ne.symm nonzero), not_not.mp ok⟩

theorem flowArg_ok {optarg : List UInt8} {flow : Flowcntrl} (taken : flowArg optarg = some flow) :
    flow = .none ∨ flow = .rtscts ∨ flow = .xonxoff := by
  unfold flowArg at taken
  split at taken <;> cases taken <;> simp

theorem parityArg_ok {optarg : List UInt8} {parity : Parity}
    (taken : parityArg optarg = some parity) : parity = .none ∨ parity = .even ∨ parity = .odd := by
  unfold parityArg at taken
  split at taken <;> cases taken <;> simp

theorem databitsArg_ok {optarg : List UInt8} {databits : Int}
    (taken : databitsArg optarg = some databits) : 5 ≤ databits ∧ databits ≤ 8 := by
  unfold databitsArg at taken
  split at taken <;> cases taken <;> decide

theorem stopbitsArg_ok {opts opts' : Opts} {optarg : List UInt8}
    (valid : opts.requested.Valid plat) (taken : stopbitsArg opts optarg = some opts') :
    opts'.requested.Valid plat := by
  obtain ⟨positive, ok, flow, parity, databits, -⟩ := valid
  have one : (1 : Int) ≤ 1 ∧ (1 : Int) ≤ 2 := by decide
  have two : (1 : Int) ≤ 2 ∧ (2 : Int) ≤ 2 := by decide
  unfold stopbitsArg at taken
  dsimp only at taken
  split at taken
  · cases taken
    exact ⟨positive, ok, flow, parity, databits, one⟩
  · cases taken
    exact ⟨positive, ok, flow, parity, databits, two⟩
  · cases taken
    exact ⟨positive, ok, flow, .inr (.inl rfl), databits, one⟩
  · cases taken
    exact ⟨positive, ok, flow, .inr (.inr rfl), databits, one⟩
  · cases taken
    exact ⟨positive, ok, flow, .inl rfl, databits, one⟩
  · cases taken

/-- An option that is accepted leaves valid settings. -/
theorem parseOption_valid {opts opts' : Opts} {given : Given} (valid : opts.requested.Valid plat)
    (parsed : parseOption plat strdup opts given = .ok opts') : opts'.requested.Valid plat := by
  cases given with
  | flow optarg =>
      obtain ⟨v, taken, rfl⟩ := accept_ok_iff.mp parsed
      exact ⟨valid.positive, valid.baudOk, flowArg_ok taken, valid.parity, valid.databits,
        valid.stopbits⟩
  | baud optarg =>
      obtain ⟨v, taken, rfl⟩ := accept_ok_iff.mp parsed
      obtain ⟨positive, ok⟩ := baudArg_ok taken
      exact ⟨positive, ok, valid.flow, valid.parity, valid.databits, valid.stopbits⟩
  | parity optarg =>
      obtain ⟨v, taken, rfl⟩ := accept_ok_iff.mp parsed
      exact ⟨valid.positive, valid.baudOk, valid.flow, parityArg_ok taken, valid.databits,
        valid.stopbits⟩
  | databits optarg =>
      obtain ⟨v, taken, rfl⟩ := accept_ok_iff.mp parsed
      exact ⟨valid.positive, valid.baudOk, valid.flow, valid.parity, databitsArg_ok taken,
        valid.stopbits⟩
  | stopbits optarg =>
      obtain ⟨v, taken, rfl⟩ := accept_ok_iff.mp parsed
      exact stopbitsArg_ok valid taken
  | logfile optarg logStTm =>
      obtain ⟨v, taken, rfl⟩ := accept_ok_iff.mp parsed
      obtain ⟨name, -, rfl⟩ := Option.map_eq_some_iff.mp taken
      exact valid
  | imap | omap | emap | exitAfter =>
      obtain ⟨v, taken, rfl⟩ := accept_ok_iff.mp parsed
      exact valid
  | help | unrecognized => cases parsed
  | _ =>
      cases parsed
      exact valid

theorem parseOptions_valid {options : List Given} {opts opts' : Opts}
    (valid : opts.requested.Valid plat)
    (parsed : parseOptions plat strdup opts options = .ok opts') : opts'.requested.Valid plat := by
  induction options generalizing opts with
  | nil =>
      cases parsed
      exact valid
  | cons given more ih =>
      rw [parseOptions] at parsed
      cases one : parseOption plat strdup opts given with
      | error status =>
          rw [one] at parsed
          cases parsed
      | ok next =>
          rw [one] at parsed
          exact ih (parseOption_valid valid one) parsed

/-- `parse_args` leaves valid settings where it returns. -/
theorem parseArgs_valid {options : List Given} {operands : List (List UInt8)} {opts opts' : Opts}
    (valid : opts.requested.Valid plat)
    (parsed : parseArgs plat strdup opts options operands = .ok opts') :
    opts'.requested.Valid plat := by
  unfold parseArgs at parsed
  cases all : parseOptions plat strdup opts options with
  | error status =>
      rw [all] at parsed
      cases parsed
  | ok next =>
      have kept := parseOptions_valid valid all
      rw [all] at parsed
      dsimp only at parsed
      split at parsed
      · cases parsed
      · split at parsed
        · cases parsed
        · split at parsed
          · cases parsed
          · cases parsed
            split <;> exact kept

/-! ### Runs -/

/-- A key leaves valid settings. -/
theorem doCommand_valid {s : Session} (c : UInt8)
    (valid : s.opts.requested.Valid build.toPlatform) :
    (final ((doCommand build c).run s)).opts.requested.Valid build.toPlatform := by
  unfold doCommand
  cases Key.ofByte c with
  | none => exact valid
  | some key =>
      cases called : key.calls build s with
      | none =>
          rw [exec_silent called]
          exact valid
      | some call =>
          obtain ⟨setter, u⟩ := call
          change (final ((key.exec build).run s)).opts.requested.Valid _
          rw [exec_calls called, SameRequest.command build setter u]
          exact (Key.calls_valid valid called).1

theorem Commanded.valid {start s : Session} (run : Commanded build start s)
    (valid : start.opts.requested.Valid build.toPlatform) :
    s.opts.requested.Valid build.toPlatform := by
  induction run with
  | start => exact valid
  | between _ same ih => rwa [same]
  | key c _ ih => exact doCommand_valid c ih

/-- Whatever the command line was, if it was accepted, and whatever keys follow, with whatever answers
at the prompts: the settings requested are valid. A command that calls a setter does nothing before
but ask and store the new value, and where the port is managed the setter succeeds. -/
theorem requested_settings_valid (build : Build) (strdup : List UInt8 → Option (List UInt8))
    (options : List Given) (operands : List (List UInt8)) {opts : Opts}
    (parsed : parseArgs build.toPlatform strdup .default options operands = .ok opts)
    {start s : Session} (begins : start.opts = opts) (run : Commanded build start s) :
    s.opts.requested.Valid build.toPlatform ∧
    ∀ (key : Key) (setter : Setter) (u : Session), key.calls build s = some (setter, u) →
      (key.exec build).run s = (setter.command build).run u ∧
      ∀ i, u.sys.term.find u.ttyFd = .ok i →
        (setter.exec build.toPlatform u.ttyFd).outcome u.sys = .ok () := by
  have first : start.opts.requested.Valid build.toPlatform := by
    rw [begins]
    exact parseArgs_valid (default_valid _) parsed
  have valid := run.valid first
  refine ⟨valid, fun key setter u called => ⟨exec_calls called, fun i managed => ?_⟩⟩
  exact outcome_setter managed (Key.calls_valid valid called).2

/-- With `-b 115200`, on a port that is managed: after the keys for flow control and for the next rate,
and at the first of them. -/
theorem requested_settings_valid_115200 :
    let opts := { Opts.default with baud := 115200 }
    let s : Session := { Session.start opts .fresh (.works [] [] [] (fun _ => true) fun _ => true) 9 with
      ttyFd := 3
      sys := ⟨{ Term.static with init := true, fd := Function.update (fun _ => -1) 0 3 }, .fresh⟩ }
    (final ((doCommand .cmake 0x75).run (final ((doCommand .cmake 0x66).run s)))).opts.requested.Valid
        Build.cmake.toPlatform ∧
      (Key.exec .cmake .flow).run s = (Setter.command .cmake (.flowcntrl .rtscts)).run
        (s.withOpts { opts with flow := .rtscts }) ∧
      (termSetFlowcntrl 3 .rtscts).outcome s.sys = .ok () := by
  intro opts s
  have parsed : parseArgs Build.cmake.toPlatform some .default [.baud (ascii "115200")]
      [ascii "/dev/ttyS0"] = .ok opts := rfl
  have valid := requested_settings_valid .cmake some _ _ parsed (rfl : s.opts = opts)
    (.key 0x75 (.key 0x66 .start))
  have first := requested_settings_valid .cmake some _ _ parsed (rfl : s.opts = opts) .start
  obtain ⟨goes, sets⟩ := first.2 .flow _ _ rfl
  exact ⟨valid.1, goes, sets 0 (by decide +kernel)⟩

end Ppcom
