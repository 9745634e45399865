/-
Module: Ppcom.Proofs.ModemLines
Purpose: What the program believes about the modem lines against the lines themselves. A toggle changes
  both or neither; a pulse that stops between its two ioctls changes the line alone.
Trusted boundary: none
Main exports: Port.Shown, Reverses, LeftDown, lines_shown_iff, lines_not_shown, session_lineStep
-/
import Ppcom.Lib.Machine
import Ppcom.Main
import Ppcom.Modem
import Ppcom.Proofs.TermCalls

namespace Ppcom

/-! ### The framework -/

namespace Wired

variable {replies : Replies} {w : Wired} {fd : Int} {up : Bool} {opins : ModemLine} {e : TermErrno}

/-- A function of the framework gets as far as its first ioctl on `fd`, which succeeds. -/
def takes (replies : Replies) (w : Wired) (fd : Int) (up : Bool) : Bool :=
  (w.sys.term.find fd).isOk && granted replies fd up

/-- The lines after an ioctl that succeeded. -/
def put (w : Wired) (opins : ModemLine) (up : Bool) : Wired :=
  { w with lines := Function.update w.lines opins up }

theorem put_put {up' : Bool} : (w.put opins up).put opins up' = w.put opins up' := by
  simp [put, Function.update_idem]

theorem run_ioctl :
    (ioctl replies fd up opins).run w =
      if granted replies fd up then .ok true (w.put opins up) else .ok false w := by
  unfold ioctl
  split <;> rfl

/-- An ioctl, and a throw where it fails. -/
theorem run_ioctl_throw :
    (do unless ← ioctl replies fd up opins do throw e : WiredM Unit).run w =
      if granted replies fd up then .ok ⟨⟩ (w.put opins up) else .error e w := by
  rw [EStateM.run_bind, run_ioctl]
  cases granted replies fd up <;> rfl

theorem run_find_ok {i : Slot} (found : w.sys.term.find fd = .ok i) :
    (discard (termFind fd)).run w = .ok ⟨⟩ w := by
  apply Program.run_discard_ok (a := i)
  unfold termFind
  rw [EStateM.run_bind, EStateM.run_get]
  simp only [found]
  rfl

theorem run_find_error (missing : w.sys.term.find fd = .error e) :
    (discard (termFind fd)).run w = .error e w := by
  apply Program.run_discard_error
  unfold termFind
  rw [EStateM.run_bind, EStateM.run_get]
  simp only [missing]
  rfl

/-- A function that sets one line sets it or changes nothing. -/
theorem setLine_spec :
    (setLine replies up opins e fd).returns w = takes replies w fd up ∧
      Program.final ((setLine replies up opins e fd).run w) =
        if takes replies w fd up then w.put opins up else w := by
  unfold setLine WiredM.returns takes
  rw [EStateM.run_bind]
  cases found : w.sys.term.find fd with
  | error e' =>
      rw [run_find_error found]
      exact ⟨rfl, rfl⟩
  | ok i =>
      rw [run_find_ok found]
      simp only
      rw [run_ioctl_throw]
      cases granted replies fd up <;> exact ⟨rfl, rfl⟩

/-- A pulse can also stop with the line down. -/
theorem termPulseDtr_spec :
    (termPulseDtr replies fd).returns w =
        (takes replies w fd false && takes replies w fd true) ∧
      Program.final ((termPulseDtr replies fd).run w) =
        if takes replies w fd false then w.put .dtr (takes replies w fd true) else w := by
  unfold termPulseDtr WiredM.returns takes
  rw [EStateM.run_bind]
  cases found : w.sys.term.find fd with
  | error e' =>
      rw [run_find_error found]
      exact ⟨rfl, rfl⟩
  | ok i =>
      rw [run_find_ok found]
      simp only
      rw [EStateM.run_bind, run_ioctl]
      cases granted replies fd false with
      | false => exact ⟨rfl, rfl⟩
      | true =>
          simp only [if_true]
          rw [run_ioctl_throw]
          cases granted replies fd true with
          | false => exact ⟨rfl, rfl⟩
          | true => exact ⟨rfl, put_put⟩

end Wired

/-! ### The commands -/

namespace Port

variable {p : Port}

/-- What the program believes about the lines: `dtr_up` and `rts_up`. -/
def shadow (p : Port) : Lines
  | .dtr => p.session.dtrUp
  | .rts => p.session.rtsUp

/-- The program believes what is the case. -/
def Shown (p : Port) : Prop := p.shadow = p.lines

/-- The ioctl that sets a line of the port takes place and succeeds. -/
def takes (p : Port) (up : Bool) : Bool :=
  Wired.takes p.answers.toReplies p.wired p.session.ttyFd up

/-- A command is a call of the framework and, where it succeeded, a change of a variable. -/
theorem run_command {f : Answers → WiredM Unit} {g : Port → Port} :
    (do
      let r ← onTerm f
      if r then modify g
      return r : PortM Bool).run p =
        .ok ((f p.answers).returns p.wired)
          (if (f p.answers).returns p.wired then
            g (p.called (Program.final ((f p.answers).run p.wired)))
          else p.called (Program.final ((f p.answers).run p.wired))) := by
  have called : (onTerm f).run p = .ok ((f p.answers).returns p.wired)
      (p.called (Program.final ((f p.answers).run p.wired))) := rfl
  rw [EStateM.run_bind, called]
  cases (f p.answers).returns p.wired <;> rfl

theorem shadow_called (w : Wired) : (p.called w).shadow = p.shadow := by
  funext line
  cases line <;> rfl

theorem shadow_setDtrUp (up : Bool) :
    Port.shadow { p with session := { p.session with dtrUp := up } } =
      Function.update p.shadow .dtr up := by
  funext line
  cases line <;> rfl

theorem shadow_setRtsUp (up : Bool) :
    Port.shadow { p with session := { p.session with rtsUp := up } } =
      Function.update p.shadow .rts up := by
  funext line
  cases line <;> rfl

end Port

namespace LineKey

/-- The line that a toggle names. -/
def line : LineKey → Option ModemLine
  | .pulse => none
  | .togDtr => some .dtr
  | .togRts => some .rts

end LineKey

/-- A command reports `r` and leaves these lines and this belief about them. -/
def Has (p : Port) (key : LineKey) (r : Bool) (lines shadow : Lines) : Prop :=
  ∃ q : Port, lineStep p key = some (q, r) ∧ q.lines = lines ∧ q.shadow = shadow

/-- What a command has done, from what its call of the framework does. -/
theorem has_of_command {p : Port} {key : LineKey} {f : Answers → WiredM Unit}
    {g : Port → Port} {r : Bool} {w : Wired} {line : ModemLine} {up : Bool}
    (same : key.exec.run p = (do
      let r ← Port.onTerm f
      if r then modify g
      return r : PortM Bool).run p)
    (changes : ∀ q : Port, (g q).lines = q.lines ∧
      (g q).shadow = Function.update q.shadow line up)
    (spec : (f p.answers).returns p.wired = r ∧
      Program.final ((f p.answers).run p.wired) = w) :
    Has p key r w.lines (if r then Function.update p.shadow line up else p.shadow) := by
  obtain ⟨returns, leaves⟩ := spec
  have ran := Port.run_command (p := p) (f := f) (g := g)
  rw [returns, leaves] at ran
  refine ⟨if r then g (p.called w) else p.called w, ?_, ?_, ?_⟩
  · rw [lineStep, same, ran]
    rfl
  · cases r with
    | false => rfl
    | true => exact (changes _).1
  · cases r with
    | false => exact Port.shadow_called w
    | true => exact (changes _).2.trans (by rw [Port.shadow_called, if_pos rfl])

theorem has_toggle {p : Port} {key : LineKey} {line : ModemLine} (names : key.line = some line) :
    Has p key (p.takes !p.shadow line)
      (if p.takes !p.shadow line then Function.update p.lines line !p.shadow line else p.lines)
      (if p.takes !p.shadow line then Function.update p.shadow line !p.shadow line
      else p.shadow) := by
  have lines : ∀ up : Bool, (if p.takes up then p.wired.put line up else p.wired).lines =
      if p.takes up then Function.update p.lines line up else p.lines := by
    intro up
    cases p.takes up <;> rfl
  rw [← lines]
  cases key with
  | pulse => cases names
  | togDtr =>
      cases names
      refine has_of_command (f := fun answers =>
        if p.session.dtrUp then Wired.termLowerDtr answers.toReplies p.session.ttyFd
        else Wired.termRaiseDtr answers.toReplies p.session.ttyFd) rfl
        (fun q => ⟨rfl, Port.shadow_setDtrUp _⟩) ?_
      change _ = p.takes !p.session.dtrUp ∧ _ =
        if p.takes !p.session.dtrUp then p.wired.put .dtr !p.session.dtrUp else p.wired
      cases p.session.dtrUp with
      | true => exact Wired.setLine_spec
      | false => exact Wired.setLine_spec
  | togRts =>
      cases names
      refine has_of_command (f := fun answers =>
        if p.session.rtsUp then Wired.termLowerRts answers.toReplies p.session.ttyFd
        else Wired.termRaiseRts answers.toReplies p.session.ttyFd) rfl
        (fun q => ⟨rfl, Port.shadow_setRtsUp _⟩) ?_
      change _ = p.takes !p.session.rtsUp ∧ _ =
        if p.takes !p.session.rtsUp then p.wired.put .rts !p.session.rtsUp else p.wired
      cases p.session.rtsUp with
      | true => exact Wired.setLine_spec
      | false => exact Wired.setLine_spec

theorem has_pulse {p : Port} :
    Has p .pulse (p.takes false && p.takes true)
      (if p.takes false then Function.update p.lines .dtr (p.takes true) else p.lines)
      (if p.takes false && p.takes true then Function.update p.shadow .dtr true else p.shadow) := by
  have lines : (if p.takes false then p.wired.put .dtr (p.takes true) else p.wired).lines =
      if p.takes false then Function.update p.lines .dtr (p.takes true) else p.lines := by
    cases p.takes false <;> rfl
  rw [← lines]
  exact has_of_command (f := fun answers =>
      Wired.termPulseDtr answers.toReplies p.session.ttyFd)
    (g := fun q => { q with session := { q.session with dtrUp := true } }) rfl
    (fun q => ⟨rfl, Port.shadow_setDtrUp true⟩) Wired.termPulseDtr_spec

/-! ### Runs -/

/-- A toggle that succeeds reverses the line it names, and no other. -/
def Reverses (st : Machine.Step Port LineKey Bool) : Prop :=
  ∀ line, st.input.line = some line → st.output = true →
    st.after.lines = Function.update st.before.lines line !st.before.lines line

/-- A pulse of a line that the program believes to be up lowers it and cannot raise it again. -/
def LeftDown (st : Machine.Step Port LineKey Bool) : Prop :=
  st.input = .pulse ∧ st.before.session.dtrUp = true ∧ st.before.takes false = true ∧
    st.before.takes true = false

/-- A step after which the program believes what is the case, and that reverses what it toggles. -/
def KeepsLines (st : Machine.Step Port LineKey Bool) : Prop := st.after.Shown ∧ Reverses st

theorem reverses_pulse {p q : Port} {r : Bool} : Reverses ⟨p, .pulse, q, r⟩ := by
  intro line named
  cases named

/-- After a pulse that stopped with DTR down, the program is right only if it believed the line down. -/
theorem shown_halfway {p q : Port} (lines : q.lines = Function.update p.shadow .dtr false)
    (shadow : q.shadow = p.shadow) (down : p.takes false = true) (up : p.takes true = false) :
    KeepsLines ⟨p, .pulse, q, false⟩ ↔ ¬ LeftDown ⟨p, .pulse, q, false⟩ := by
  constructor
  · intro keeps left
    have same : p.shadow .dtr = false := by
      rw [← shadow, keeps.1, lines]
      exact Function.update_self ..
    exact Bool.false_ne_true (same.symm.trans left.2.1)
  · intro not
    refine ⟨?_, reverses_pulse⟩
    have believed : p.shadow .dtr = false :=
      Bool.eq_false_iff.mpr fun isUp => not ⟨rfl, isUp, down, up⟩
    change q.shadow = q.lines
    rw [lines, shadow, ← believed]
    exact (Function.update_eq_self ..).symm

/-- One command: it keeps the program's belief true unless it leaves DTR down. -/
theorem keepsLines_iff {st : Machine.Step Port LineKey Bool} (made : st.Of lineStep)
    (shown : st.before.Shown) : KeepsLines st ↔ ¬ LeftDown st := by
  obtain ⟨p, key, q, r⟩ := st
  change lineStep p key = some (q, r) at made
  change p.shadow = p.lines at shown
  cases names : key.line with
  | some line =>
      obtain ⟨q', stepped, lines, shadow⟩ := has_toggle (p := p) names
      cases made.symm.trans stepped
      refine iff_of_true ⟨?_, ?_⟩ ?_
      · exact shadow.trans (by rw [lines, shown])
      · intro line' named succeeded
        cases names.symm.trans named
        rw [lines, ← shown]
        exact if_pos succeeded
      · rintro ⟨rfl, -⟩
        cases names
  | none =>
      cases key with
      | togDtr => cases names
      | togRts => cases names
      | pulse =>
          obtain ⟨q', stepped, lines, shadow⟩ := has_pulse (p := p)
          cases made.symm.trans stepped
          rw [← shown] at lines
          cases down : p.takes false with
          | false =>
              simp only [down, Bool.false_and, Bool.false_eq_true, if_false] at lines shadow
              exact iff_of_true ⟨shadow.trans lines.symm, reverses_pulse⟩ fun left =>
                Bool.false_ne_true (down.symm.trans left.2.2.1)
          | true =>
              cases up : p.takes true with
              | true =>
                  simp only [down, up, Bool.and_true, if_true] at lines shadow
                  exact iff_of_true ⟨shadow.trans lines.symm, reverses_pulse⟩ fun left =>
                    Bool.false_ne_true (left.2.2.2.symm.trans up)
              | false =>
                  simp only [down, up, Bool.and_false, Bool.false_eq_true, if_true, if_false]
                    at lines shadow
                  exact shown_halfway lines shadow down up

/-- `dtr_up` and `rts_up` are the lines in every state of exactly those runs in which no pulse leaves
DTR down, and there each toggle reverses its line. -/
theorem lines_shown_iff {start s : Port} {made : List (Machine.Step Port LineKey Bool)}
    (shown : start.Shown) (run : Machine.Run lineStep start made s) :
    (∀ st ∈ made, KeepsLines st) ↔ ∀ st ∈ made, ¬ LeftDown st :=
  Machine.Run.each_iff shown (fun _ _ keeps _ => keeps.1) (fun _ => keepsLines_iff) run

/-- A port that is descriptor 3, with both lines up, of a system in which a line can be lowered, and
raised where `bis` says so. -/
def portUp (bis : Bool) : Port where
  session := { Session.start Opts.default World.fresh
      { Env.works [] [] [] (fun _ => false) (fun _ => false) with
        term := fun _ => Stream'.const ⟨{ allSucceed with tiocmbis := bis }, fun _ => allSucceed⟩ } 0
    with
    ttyFd := 3
    sys := ⟨{ Term.static with init := true, fd := fun i => if i = 0 then 3 else -1 }, World.fresh⟩ }
  lines := fun _ => true

theorem portUp_shown (bis : Bool) : (portUp bis).Shown := by
  funext line
  cases line <;> rfl

theorem lines_shown_iff_pulse : ∃ q, Machine.Run lineStep (portUp true)
    [⟨portUp true, .pulse, q, true⟩] q ∧ KeepsLines ⟨portUp true, .pulse, q, true⟩ := by
  obtain ⟨q, stepped, -⟩ := has_pulse (p := portUp true)
  have run : Machine.Run lineStep (portUp true) [⟨portUp true, .pulse, q, true⟩] q :=
    Machine.Run.start.step stepped
  refine ⟨q, run, (lines_shown_iff (portUp_shown true) run).mpr ?_ _ (List.mem_singleton_self _)⟩
  intro st inside left
  cases List.mem_singleton.mp inside
  exact Bool.false_ne_true (left.2.2.2.symm.trans rfl)

/-- Where the second ioctl of a pulse fails, the line is down while `dtr_up` is set. -/
theorem lines_not_shown :
    ¬ ∀ (start s : Port) (made : List (Machine.Step Port LineKey Bool)), start.Shown →
      Machine.Run lineStep start made s → s.Shown := by
  intro claim
  obtain ⟨q, stepped, lines, shadow⟩ := has_pulse (p := portUp false)
  have shown := claim (portUp false) q _ (portUp_shown false) (Machine.Run.start.step stepped)
  have believed : q.shadow .dtr = true := by rw [shadow]; rfl
  have down : q.lines .dtr = false := by rw [lines]; rfl
  rw [shown, down] at believed
  exact Bool.false_ne_true believed

/-- Every command is a step. -/
theorem lineStep_total (p : Port) (key : LineKey) : ∃ q r, lineStep p key = some (q, r) := by
  cases names : key.line with
  | some line =>
      obtain ⟨q, stepped, -⟩ := has_toggle (p := p) names
      exact ⟨q, _, stepped⟩
  | none =>
      cases key with
      | pulse =>
          obtain ⟨q, stepped, -⟩ := has_pulse (p := p)
          exact ⟨q, _, stepped⟩
      | togDtr => cases names
      | togRts => cases names

/-! ### The commands of the program -/

/-- What is left of a run where the lines are forgotten. -/
def forget {α : Type} : EStateM.Result TermErrno Wired α → EStateM.Result TermErrno Sys α
  | .ok a w => .ok a w.sys
  | .error e w => .error e w.sys

/-- The four functions of one line, without the lines. -/
theorem run_line (replies : Replies) (up : Bool) (e : TermErrno) (fd : Int) (s : Sys) :
    (if up then raiseLine replies e fd else lowerLine replies e fd).run s =
      match s.term.find fd with
      | .ok _ => if Wired.granted replies fd up then .ok ⟨⟩ s else .error e s
      | .error e' => .error e' s := by
  have line : (if up then raiseLine replies e fd else lowerLine replies e fd) = (do
      discard <| termFind fd
      unless Wired.granted replies fd up do throw e : TermM Unit) := by
    cases up <;> rfl
  rw [line, EStateM.run_bind]
  cases found : s.term.find fd with
  | error e' => rw [Program.run_discard_error (by rw [run_termFind, found])]
  | ok i =>
      rw [Program.run_discard_ok (a := i) (by rw [run_termFind, found])]
      cases Wired.granted replies fd up <;> rfl

theorem forget_setLine {replies : Replies} {up : Bool} {opins : ModemLine} {e : TermErrno}
    {fd : Int} {w : Wired} :
    forget ((Wired.setLine replies up opins e fd).run w) =
      (if up then raiseLine replies e fd else lowerLine replies e fd).run w.sys := by
  rw [run_line, Wired.setLine, EStateM.run_bind]
  cases found : w.sys.term.find fd with
  | error e' =>
      rw [Wired.run_find_error found]
      rfl
  | ok i =>
      rw [Wired.run_find_ok found]
      simp only
      rw [Wired.run_ioctl_throw]
      cases Wired.granted replies fd up <;> rfl

theorem forget_termPulseDtr {replies : Replies} {fd : Int} {w : Wired} :
    forget ((Wired.termPulseDtr replies fd).run w) = (termPulseDtr replies fd).run w.sys := by
  have lower := run_line replies false .edtrdown fd w.sys
  have raise := run_line replies true .edtrup fd w.sys
  change (lowerLine replies .edtrdown fd).run w.sys = _ at lower
  change (raiseLine replies .edtrup fd).run w.sys = _ at raise
  unfold Wired.termPulseDtr termPulseDtr termLowerDtr termRaiseDtr
  rw [EStateM.run_bind, EStateM.run_bind, lower]
  cases found : w.sys.term.find fd with
  | error e' =>
      rw [Wired.run_find_error found]
      rfl
  | ok i =>
      rw [found] at raise
      rw [Wired.run_find_ok found]
      simp only
      rw [EStateM.run_bind, Wired.run_ioctl]
      cases Wired.granted replies fd false with
      | false => rfl
      | true =>
          simp only [if_true]
          rw [Wired.run_ioctl_throw, raise]
          cases Wired.granted replies fd true <;> rfl

/-- A command whose call of the framework is the framework's, but for the lines, does to the program what
the command of the program does. -/
theorem session_of_command {p : Port} {f : Answers → WiredM Unit} {h : Answers → TermM Unit}
    {g : Port → Port} {k : Session → Session}
    (same : ∀ w, (g (p.called w)).session = k (p.called w).session)
    (forgets : forget ((f p.answers).run p.wired) = (h p.answers).run p.session.sys) :
    (Program.final ((do
      let r ← Port.onTerm f
      if r then modify g
      return r : PortM Bool).run p)).session =
    Program.final ((do
      let r ← onTerm p.session.ttyFd h
      if succeeded r then modify k : SessionM Unit).run p.session) := by
  have calls : (onTerm p.session.ttyFd h).run p.session = .ok ((h p.answers).outcome p.session.sys)
      (p.called ⟨(h p.answers).after p.session.sys, p.lines⟩).session := rfl
  rw [Port.run_command, EStateM.run_bind, calls, WiredM.returns, TermM.outcome, TermM.after,
    ← forgets]
  cases (f p.answers).run p.wired with
  | ok u w => exact same _
  | error e w => rfl

theorem final_return {x : SessionM Unit} {s : Session} {b : Bool} :
    Program.final ((do
      x
      return b : SessionM Bool).run s) = Program.final (x.run s) := by
  rw [EStateM.run_bind]
  cases x.run s <;> rfl

/-- The keys do to the program what they do in a program whose lines nobody looks at. -/
theorem session_lineStep (build : Build) {p q : Port} {key : LineKey} {r : Bool}
    (stepped : lineStep p key = some (q, r)) :
    q.session = Program.final ((key.key.exec build).run p.session) := by
  obtain ⟨⟨r', q'⟩, ran, same⟩ := Option.map_eq_some_iff.mp stepped
  cases same
  have final : Program.final (key.exec.run p) = q := by
    rw [Program.eq_ok_of_returned ran]
    rfl
  rw [← final]
  cases key with
  | pulse =>
      refine (session_of_command (p := p) (f := fun answers =>
          Wired.termPulseDtr answers.toReplies p.session.ttyFd)
        (h := fun answers => termPulseDtr answers.toReplies p.session.ttyFd)
        (g := fun q => { q with session := { q.session with dtrUp := true } })
        (k := fun s => { s with dtrUp := true }) (fun q => rfl) forget_termPulseDtr).trans ?_
      exact (final_return (x := cmdPulse) (s := p.session)).symm
  | togDtr =>
      refine (session_of_command (p := p) (f := fun answers =>
          if p.session.dtrUp then Wired.termLowerDtr answers.toReplies p.session.ttyFd
          else Wired.termRaiseDtr answers.toReplies p.session.ttyFd)
        (h := fun answers =>
          if p.session.dtrUp then termLowerDtr answers.toReplies p.session.ttyFd
          else termRaiseDtr answers.toReplies p.session.ttyFd)
        (g := fun q => { q with session := { q.session with dtrUp := !p.session.dtrUp } })
        (k := fun s => { s with dtrUp := !s.dtrUp }) (fun w => rfl) ?_).trans ?_
      · cases p.session.dtrUp with
        | true => exact forget_setLine
        | false => exact forget_setLine
      · exact (final_return (x := cmdTogDtr) (s := p.session)).symm
  | togRts =>
      refine (session_of_command (p := p) (f := fun answers =>
          if p.session.rtsUp then Wired.termLowerRts answers.toReplies p.session.ttyFd
          else Wired.termRaiseRts answers.toReplies p.session.ttyFd)
        (h := fun answers =>
          if p.session.rtsUp then termLowerRts answers.toReplies p.session.ttyFd
          else termRaiseRts answers.toReplies p.session.ttyFd)
        (g := fun q => { q with session := { q.session with rtsUp := !p.session.rtsUp } })
        (k := fun s => { s with rtsUp := !s.rtsUp }) (fun w => rfl) ?_).trans ?_
      · cases p.session.rtsUp with
        | true => exact forget_setLine
        | false => exact forget_setLine
      · exact (final_return (x := cmdTogRts) (s := p.session)).symm

end Ppcom
