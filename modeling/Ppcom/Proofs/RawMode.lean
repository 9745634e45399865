/-
Module: Ppcom.Proofs.RawMode
Purpose: Prompts leave no trace on the terminal. Where the settings are restored after each line, the
  framework and the settings of all devices are, after any run and after `exit`, what they are in the run
  without the prompts.
Trusted boundary: none
Main exports: SameSettings, Blind.call, linenoiseRawMode_same, prompts_transparent
-/
import Ppcom.Lib.Parallel
import Ppcom.Proofs.TermOriginal
import Ppcom.RawMode

namespace Ppcom

open Program

/-! ### Calls of the framework -/

/-- The framework has the same records and the devices the same settings, however often they were
written. -/
structure SameSettings (s t : Sys) : Prop where
  term : s.term = t.term
  device : s.world.device = t.world.device
  settings : s.world.settings = t.world.settings

theorem SameSettings.refl (s : Sys) : SameSettings s s := ⟨rfl, rfl, rfl⟩

theorem SameSettings.trans {s t u : Sys} (first : SameSettings s t) (second : SameSettings t u) :
    SameSettings s u :=
  ⟨first.term.trans second.term, first.device.trans second.device, first.settings.trans second.settings⟩

/-- Two systems with the same settings differ in what was written. -/
theorem SameSettings.eq {s t : Sys} (same : SameSettings s t) :
    s = { t with world := { t.world with written := s.world.written } } := by
  obtain ⟨term, device, settings, written⟩ := s
  obtain ⟨term', device', settings', written'⟩ := t
  obtain ⟨rfl, rfl, rfl⟩ := same
  rfl

namespace Blind

variable {α β : Type}

/-- A program that reads the state but not what was written goes on in the same way. -/
theorem read {f : Sys → TermM β}
    (blind : ∀ (s : Sys) written, f { s with world := { s.world with written := written } } = f s)
    (rest : ∀ s, Respects SameSettings (f s)) : Respects SameSettings (MonadState.get >>= f) := by
  apply Respects.read
  · intro s t same
    rw [same.eq, blind]
  · exact rest

/-- Records change alike. -/
theorem setTerm (g : Term → Term) :
    Respects SameSettings (modify fun s => { s with term := g s.term } : TermM PUnit) :=
  .modify fun _ _ same => ⟨congrArg g same.term, same.device, same.settings⟩

theorem setFd (i : Slot) (fd : Int) : Respects SameSettings (setFd i fd) :=
  setTerm fun term => { term with fd := Function.update term.fd i fd }

theorem setOrig (i : Slot) (t : Termios) : Respects SameSettings (setOrig i t) :=
  setTerm fun term => { term with origtermios := Function.update term.origtermios i t }

theorem setCurr (i : Slot) (t : Termios) : Respects SameSettings (setCurr i t) :=
  setTerm fun term => { term with currtermios := Function.update term.currtermios i t }

theorem setNext (i : Slot) (t : Termios) : Respects SameSettings (setNext i t) :=
  setTerm fun term => { term with nexttermios := Function.update term.nexttermios i t }

theorem termFind (fd : Int) : Respects SameSettings (termFind fd) := by
  apply read
  · exact fun _ _ => rfl
  · intro s
    cases s.term.find fd with
    | ok i => exact .pure i
    | error e => exact .throw e

theorem termFindNextFree : Respects SameSettings termFindNextFree := by
  apply read
  · exact fun _ _ => rfl
  · intro s
    cases s.term.findNextFree with
    | ok i => exact .pure i
    | error e => exact .throw e

theorem tcsetattr (stores : Termios → Option Termios) (fd : Int) (when : When) (t : Termios) :
    Respects SameSettings (tcsetattr stores fd when t) := by
  unfold Ppcom.tcsetattr
  split
  · exact .pure _
  · cases stores t with
    | none => exact .pure _
    | some stored =>
        apply Respects.bind
        · apply Respects.modify
          intro s s' same
          rw [same.eq]
          exact ⟨rfl, rfl, rfl⟩
        · exact fun _ => .pure _

theorem tcgetattr (succeeds : Bool) (fd : Int) : Respects SameSettings (tcgetattr succeeds fd) := by
  unfold Ppcom.tcgetattr
  split
  · exact .pure _
  · exact read (fun _ _ => rfl) fun _ => .pure _

section Calls

variable (plat : Platform) (replies : Replies) (fd : Int)

theorem termAdd : Respects SameSettings (termAdd replies fd) := by
  unfold Ppcom.termAdd
  refine read (fun _ _ => rfl) fun s => .refuse <| .guard <| .bind termFindNextFree fun i =>
    .bind (tcgetattr _ _) fun read => ?_
  cases read with
  | none => exact .throw _
  | some t =>
      exact .bind (setOrig i t) fun _ => .bind (setCurr i t) fun _ => .bind (setNext i t) fun _ =>
        .bind (setFd i fd) fun _ => .pure _

theorem termRemove : Respects SameSettings (termRemove replies fd) := by
  unfold Ppcom.termRemove
  refine .bind (termFind fd) fun i => ?_
  split
  · refine read (fun _ _ => rfl) fun s => .bind (tcsetattr _ _ _ _) fun set => ?_
    cases set with
    | true => exact setFd i (-1)
    | false => exact .bind (setFd i (-1)) fun _ => .throw _
  · exact .bind (setFd i (-1)) fun _ => .throw _

theorem termErase : Respects SameSettings (termErase fd) := by
  unfold Ppcom.termErase
  exact .bind (termFind fd) fun i => setFd i (-1)

theorem termReplace (newfd : Int) : Respects SameSettings (termReplace replies fd newfd) := by
  unfold Ppcom.termReplace
  refine .bind (termFind fd) fun i => read (fun _ _ => rfl) fun s => .bind (tcsetattr _ _ _ _) fun set =>
    .guard <| .bind (tcgetattr _ _) fun read => ?_
  cases read with
  | none => exact .throw _
  | some t => exact .bind (setCurr i t) fun _ => setFd i newfd

theorem termReset : Respects SameSettings (termReset replies fd) := by
  unfold Ppcom.termReset
  refine .bind (termFind fd) fun i => .guard <| read (fun _ _ => rfl) fun s =>
    .bind (tcsetattr _ _ _ _) fun set => .guard <| .bind (tcgetattr _ _) fun read => ?_
  cases read with
  | none => exact .throw _
  | some t => exact .bind (setCurr i t) fun _ => setNext i t

theorem termRevert : Respects SameSettings (termRevert fd) := by
  unfold Ppcom.termRevert
  exact .bind (termFind fd) fun i => read (fun _ _ => rfl) fun s => setNext i _

theorem termRefresh : Respects SameSettings (termRefresh replies fd) := by
  unfold Ppcom.termRefresh
  refine .bind (termFind fd) fun i => .bind (tcgetattr _ _) fun read => ?_
  cases read with
  | none => exact .throw _
  | some t => exact setCurr i t

theorem termApply (now : Bool) : Respects SameSettings (termApply replies fd now) := by
  unfold Ppcom.termApply
  refine .bind (termFind fd) fun i => read (fun _ _ => rfl) fun s => .bind (tcsetattr _ _ _ _) fun set =>
    .guard <| .bind (tcgetattr _ _) fun found => ?_
  cases found with
  | none => exact .throw _
  | some t =>
      exact .bind (setNext i t) fun _ => .bind (setCurr i t) fun _ =>
        read (fun _ _ => rfl) fun s => setOrig i _

theorem setParameter (change : Termios → Except TermErrno Termios) :
    Respects SameSettings (setParameter change fd) := by
  unfold Ppcom.setParameter
  refine .bind (termFind fd) fun i => read (fun _ _ => rfl) fun s => ?_
  cases change (s.term.nexttermios i) with
  | ok t => exact setNext i t
  | error e => exact .throw e

theorem setter (setter : Setter) : Respects SameSettings (setter.exec plat fd) := by
  rw [setter.exec_eq]
  exact setParameter fd _

theorem termSetAll (p : Params) : Respects SameSettings (termSetAll plat fd p) := by
  have others : Respects SameSettings (do
      termSetBaudrate plat fd p.baud
      termSetParity fd p.parity
      termSetDatabits fd p.databits
      termSetStopbits fd p.stopbits
      termSetFlowcntrl fd p.fc
      termSetLocal fd p.loc
      termSetHupcl fd p.hupClose) :=
    .bind (setParameter fd _) fun _ => .bind (setParameter fd _) fun _ => .bind (setParameter fd _) fun _ =>
      .bind (setParameter fd _) fun _ => .bind (setParameter fd _) fun _ =>
        .bind (setParameter fd _) fun _ => setParameter fd _
  unfold Ppcom.termSetAll
  split
  · exact .bind (setParameter fd _) fun _ => others
  · exact others

theorem termSet (p : Params) : Respects SameSettings (termSet plat replies fd p) := by
  unfold Ppcom.termSet
  refine read (fun _ _ => rfl) fun s => ?_
  cases s.term.find fd with
  | ok i =>
      refine .bind (.pure i) fun ni => read (fun _ _ => rfl) fun s => .tryCatch (termSetAll plat fd p) fun e => ?_
      exact .bind (setNext ni _) fun _ => .throw e
  | error _ =>
      refine .bind (termAdd replies fd) fun ni => read (fun _ _ => rfl) fun s =>
        .tryCatch (termSetAll plat fd p) fun e => ?_
      exact .bind (setFd ni (-1)) fun _ => .throw e

theorem termFakeFlush : Respects SameSettings (termFakeFlush replies fd) := by
  unfold Ppcom.termFakeFlush
  refine .bind (termFind fd) fun i => .bind (tcgetattr _ _) fun found => ?_
  cases found with
  | none => exact .throw _
  | some tio =>
      exact .bind (setCurr i tio) fun _ => .bind (tcsetattr _ _ _ _) fun set => .guard <| .guard <|
        read (fun _ _ => rfl) fun s => .bind (tcsetattr _ _ _ _) fun restored => .guard (.pure _)

/-- A getter reads the current settings of a slot. -/
theorem getter (decode : Termios → TermM α) (reads : ∀ tio, Respects SameSettings (decode tio)) :
    Respects SameSettings (do
      let i ← Ppcom.termFind fd
      let s ← get
      decode (s.term.currtermios i)) :=
  .bind (termFind fd) fun _ => read (fun _ _ => rfl) fun _ => reads _

theorem termGetBaudrate : Respects SameSettings (termGetBaudrate plat fd) := by
  unfold Ppcom.termGetBaudrate
  refine .bind (termFind fd) fun i => read (fun _ _ => rfl) fun s => ?_
  dsimp only
  split
  · exact .refuse (.refuse (.pure _))
  · exact .pure _

theorem lowerLine (e : TermErrno) : Respects SameSettings (lowerLine replies e fd) := by
  unfold Ppcom.lowerLine
  exact .bind (termFind fd).discard fun _ => .guard (.pure _)

theorem raiseLine (e : TermErrno) : Respects SameSettings (raiseLine replies e fd) := by
  unfold Ppcom.raiseLine
  exact .bind (termFind fd).discard fun _ => .guard (.pure _)

theorem query (which : Query) : Respects SameSettings (which.exec plat replies fd) := by
  cases which with
  | getBaudrate => exact (termGetBaudrate plat fd).discard
  | getParity => exact (getter fd _ fun tio => .pure (parityOf tio.cCflag)).discard
  | getDatabits => exact (getter fd _ fun tio => .pure (databitsOf tio.cCflag)).discard
  | getStopbits => exact (getter fd _ fun tio => .pure (stopbitsOf tio.cCflag)).discard
  | getFlowcntrl => exact (getter fd _ fun tio => .pure (flowcntrlOf tio)).discard
  | getMctl =>
      refine .discard (.bind (termFind fd).discard fun _ => ?_)
      split
      · exact .pure _
      · exact .pure _
  | pulseDtr => exact .bind (lowerLine _ _ _) fun _ => raiseLine _ _ _
  | lowerDtr => exact lowerLine _ _ _
  | raiseDtr => exact raiseLine _ _ _
  | lowerRts => exact lowerLine _ _ _
  | raiseRts => exact raiseLine _ _ _
  | drain | flush | brk => exact .bind (termFind fd).discard fun _ => .guard (.pure _)

theorem resetSlot (replies : Slot → Replies) (i : Slot) : Respects SameSettings (resetSlot replies i) := by
  unfold Ppcom.resetSlot
  refine read (fun _ _ => rfl) fun s => ?_
  dsimp only
  split
  · exact .pure _
  · exact read (fun _ _ => rfl) fun s => .bind (tcsetattr _ _ _ _).discard fun _ => setFd i (-1)

theorem termLibInit (atexitOk : Bool) (replies : Slot → Replies) :
    Respects SameSettings (termLibInit atexitOk replies) := by
  unfold Ppcom.termLibInit
  refine read (fun _ _ => rfl) fun s => ?_
  split
  · exact .forM (resetSlot replies) _
  · exact .bind (.forM (fun i => setFd i (-1)) _) fun _ => .guard (setTerm fun term => { term with init := true })

theorem termExitfunc (replies : Slot → Replies) : Respects SameSettings (termExitfunc replies) := by
  unfold Ppcom.termExitfunc
  refine read (fun _ _ => rfl) fun s => ?_
  split
  · exact .forM (resetSlot replies) _
  · exact .pure _

end Calls

/-- No call of the framework depends on what was written before. -/
theorem call (plat : Platform) (answers : Answers) (call : Call) :
    Respects SameSettings (call.exec plat answers) := by
  cases call with
  | add fd => exact (termAdd answers.toReplies fd).discard
  | remove fd => exact termRemove answers.toReplies fd
  | erase fd => exact termErase fd
  | replace oldfd newfd => exact termReplace answers.toReplies oldfd newfd
  | reset fd => exact termReset answers.toReplies fd
  | revert fd => exact termRevert fd
  | refresh fd => exact termRefresh answers.toReplies fd
  | apply fd now => exact termApply answers.toReplies fd now
  | setOne setter fd => exact Blind.setter plat fd setter
  | set fd params => exact termSet plat answers.toReplies fd params
  | fakeFlush fd => exact termFakeFlush answers.toReplies fd
  | query which fd => exact query plat answers.toReplies fd which
  | libInit => exact termLibInit answers.atexit answers.ofSlot
  | exitfunc => exact termExitfunc answers.ofSlot

end Blind

/-! ### Prompts -/

/-- Settings that a device gave are stored by it as they are. -/
def RawReplies.Restores (replies : RawReplies) : Prop := ∀ tio, replies.restore tio = some tio

/-- Where the settings are restored, a prompt leaves them as they were. -/
theorem linenoiseRawMode_same {replies : RawReplies} (restores : replies.Restores) {s : Prompting}
    (plain : s.raw.rawmode = false) :
    SameSettings (linenoiseRawMode replies s).sys s.sys ∧ (linenoiseRawMode replies s).raw.rawmode = false := by
  unfold linenoiseRawMode enableRawMode
  by_cases terminal : replies.isatty
  · by_cases gets : replies.tcgetattr
    · rw [if_neg (not_not_intro terminal), if_neg (not_not_intro gets)]
      cases sets : replies.tcsetattr (rawSettings (s.sys.world.settingsOf sti)) with
      | none =>
          simp only [sets, Bool.false_eq_true, if_false]
          exact ⟨.refl _, plain⟩
      | some stored =>
          simp only [sets, if_true, disableRawMode, restores _]
          refine ⟨⟨rfl, rfl, ?_⟩, trivial⟩
          show Function.update (Function.update s.sys.world.settings (s.sys.world.device sti) stored)
            (s.sys.world.device sti) (s.sys.world.settings (s.sys.world.device sti)) = s.sys.world.settings
          rw [Function.update_idem, Function.update_eq_self]
    · rw [if_neg (not_not_intro terminal), if_pos gets]
      exact ⟨.refl _, plain⟩
  · rw [if_pos terminal]
    exact ⟨.refl _, plain⟩

/-- The run without the prompts. -/
def PromptEvent.callOnly (plat : Platform) (sys : Sys) : PromptEvent → Sys
  | .call answers c => (c.exec plat answers).after sys
  | .prompt _ => sys

/-- In runs with prompts, which restore the settings, and without them the settings are the same. -/
theorem Prompting.run_same (plat : Platform) {s : Prompting} {sys : Sys} (same : SameSettings s.sys sys)
    (plain : s.raw.rawmode = false) {events : List PromptEvent}
    (restores : ∀ replies, .prompt replies ∈ events → replies.Restores) :
    SameSettings (s.run plat events).sys (events.foldl (PromptEvent.callOnly plat) sys) ∧
      (s.run plat events).raw.rawmode = false := by
  induction events generalizing s sys with
  | nil => exact ⟨same, plain⟩
  | cons event events ih =>
      have later : ∀ replies, .prompt replies ∈ events → replies.Restores := fun replies inside =>
        restores replies (List.mem_cons_of_mem _ inside)
      cases event with
      | call answers c => exact ih ((Blind.call plat answers c).final same) plain later
      | prompt replies =>
          obtain ⟨kept, plain'⟩ := linenoiseRawMode_same (restores replies List.mem_cons_self) plain
          exact ih (kept.trans same) plain' later

/-- Where each prompt restores the settings when it ends, no prompt leaves a trace: after any run of calls
of the framework with prompts in between, whatever calls fail in them, the framework and the settings of all
devices are what they are in the run without the prompts, and so they are after `exit`. -/
theorem prompts_transparent (plat : Platform) (s : Prompting) (events : List PromptEvent)
    (plain : s.raw.rawmode = false) (restores : ∀ replies, .prompt replies ∈ events → replies.Restores)
    (restore : Termios → Option Termios) (replies : Slot → Replies) :
    SameSettings (s.run plat events).sys (events.foldl (PromptEvent.callOnly plat) s.sys) ∧
      SameSettings ((s.run plat events).exit restore replies)
        ((termExitfunc replies).after (events.foldl (PromptEvent.callOnly plat) s.sys)) := by
  obtain ⟨same, plain'⟩ := s.run_same plat (.refl s.sys) plain restores
  refine ⟨same, ?_⟩
  have nothing : disableRawMode restore (s.run plat events) = s.run plat events := by
    rw [disableRawMode, if_neg (by simp [plain'])]
  rw [Prompting.exit, nothing, ite_self]
  exact (Blind.termExitfunc replies).final same

/-- A prompt on a terminal that stores what it is asked for, between its addition and its removal. -/
theorem prompts_transparent_one :
    let answers : Answers := ⟨allSucceed, fun _ => allSucceed⟩
    let events : List PromptEvent :=
      [.call answers (.add sti), .prompt ⟨true, true, some, some⟩, .call answers (.remove sti)]
    SameSettings (Prompting.run ⟨true, true⟩ ⟨startSys, .static⟩ events).sys
        (events.foldl (PromptEvent.callOnly ⟨true, true⟩) startSys) ∧
      SameSettings ((Prompting.run ⟨true, true⟩ ⟨startSys, .static⟩ events).exit some fun _ => allSucceed)
        ((termExitfunc fun _ => allSucceed).after
          (events.foldl (PromptEvent.callOnly ⟨true, true⟩) startSys)) := by
  intro answers events
  apply prompts_transparent ⟨true, true⟩ ⟨startSys, .static⟩ events rfl
  intro replies inside
  simp only [events, List.mem_cons, List.not_mem_nil, or_false, reduceCtorEq, false_or] at inside
  cases inside
  exact fun _ => rfl

end Ppcom
