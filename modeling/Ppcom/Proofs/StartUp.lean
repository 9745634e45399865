/-
Module: Ppcom.Proofs.StartUp
Purpose: What `main` keeps before and around `loop`.
Trusted boundary: none
Main exports: TurnRules.loop, StartRules, StartRules.upTo, MainRules, main_triple
-/
import Ppcom.Main
import Ppcom.Proofs.QueueSteps

namespace Ppcom

open Program

namespace CallRules

variable {I : Session → Prop} {E : Stop → Session → Prop} (rules : CallRules I E)

include rules

/-- A call of the framework whose failure is fatal. -/
theorem setLine {lower raise : Bool} {name : String} {lowerLine raiseLine : Replies → Int → TermM Unit}
    {record : Bool → Session → Session} (quiet : ∀ up s, Quiet s (record up s))
    (notLower : "failed to lower " ++ name ++ " of port: %s" ≠ portWriteFailed := by decide)
    (notRaise : "failed to raise " ++ name ++ " of port: %s" ≠ portWriteFailed := by decide) :
    Maintains I E (setLine lower raise name lowerLine raiseLine record) := by
  unfold Ppcom.setLine
  refine .read fun s _ => ?_
  dsimp only
  split
  · exact .bind (rules.onTerm _ _) fun _ =>
      rules.fatalIf (fun _ => rules.modify (quiet false)) notLower
  split
  · exact .bind (rules.onTerm _ _) fun _ =>
      rules.fatalIf (fun _ => rules.modify (quiet true)) notRaise
  · exact .pure fun _ => id

theorem setDtrRts : Maintains I E setDtrRts := by
  unfold Ppcom.setDtrRts
  refine .read fun s _ => .bind (rules.setLine fun _ _ => .of rfl rfl rfl id rfl rfl rfl) fun _ =>
    .bind (rules.setLine fun _ _ => .of rfl rfl rfl id rfl rfl rfl) fun _ => .read fun _ _ =>
    .bind (rules.onTerm _ _) fun r => ?_
  split
  · split
    · exact rules.modify fun _ => .of rfl rfl rfl id rfl rfl rfl
    · exact .pure fun _ => id
  · exact .pure fun _ => id

theorem addPort (build : Build) : Maintains I E (addPort build) := by
  unfold Ppcom.addPort
  exact .read fun s _ => .bind (rules.onTerm _ _) fun _ => rules.fatalWhen

theorem configurePort (build : Build) : Maintains I E (configurePort build) := by
  unfold Ppcom.configurePort
  refine .bind rules.setDtrRts fun _ => .read fun _ _ => .bind (rules.applyTerm _ _) fun _ =>
    rules.fatalIf fun _ => .bind rules.setDtrRts fun _ => .bind (rules.onTerm _ _) fun _ =>
    .bind (rules.setTtyWriteSz _) fun _ => .read fun _ _ => ?_
  dsimp only
  split
  · exact (rules.showStatus build).discard
  · exact .pure fun _ => id

theorem addStdin : Maintains I E addStdin := by
  unfold Ppcom.addStdin
  refine .read fun _ _ => ?_
  split
  · exact .bind (rules.onTerm _ _) fun _ => rules.fatalIf fun _ =>
      .bind (rules.onTerm _ _).discard fun _ => .bind (rules.applyTerm _ _) fun _ => rules.fatalWhen
  · exact .pure fun _ => id

end CallRules

/-! ### Files -/

/-- What opens the files leaves what is about neither the descriptors nor the framework. -/
theorem CallRules.openFiles {I : Session → Prop} {E : Stop → Session → Prop}
    (rules : CallRules I E)
    (files : ∀ {s} sys logFd ttyFd, I s → I { s with sys := sys, logFd := logFd, ttyFd := ttyFd }) :
    Maintains I E openFiles := by
  have init : Maintains I E initFramework :=
    .getSet (fun s held => files (s := s) _ s.logFd s.ttyFd held) fun _ => rules.fatalWhen
  have log : Maintains I E openLog := by
    unfold openLog
    refine .bind_get fun s start => ?_
    split
    · exact .bind (Q := fun _ => I) (fun _ _ => files (s := s) s.sys _ s.ttyFd start)
        fun _ => rules.fatalWhen
    · exact .pure fun _ here => here.2
  have port : Maintains I E openPort :=
    .getSet (fun s held => files (s := s) s.sys s.logFd _ held) fun _ => rules.fatalWhen
  exact .bind init fun _ => .bind log fun _ => port

/-! ### The queue and `loop` -/

/-- The queue that was just allocated is empty. -/
theorem allocQueue_triple {P I : Session → Prop} {E : Stop → Session → Prop}
    (rules : CallRules P E)
    (empty : ∀ {s}, P s →
      I { s with ttyQ := { sz := ttyQSzMin, len := 0, buff := List.replicate ttyQSzMin 0 } }) :
    Triple P allocQueue (fun _ => I) E :=
  .read fun _ _ => rules.fatalIf fun _ => .modify fun _ => empty

theorem pushInitstring_triple {build : Build} {I : Session → Prop} {E : Stop → Session → Prop}
    (rules : CallRules I E) (push : ∀ bytes, Maintains I E (ttyQPush build bytes)) :
    Maintains I E (pushInitstring build) := by
  unfold pushInitstring
  refine .read fun s _ => ?_
  dsimp only
  cases s.opts.initstring with
  | none => exact .pure fun _ => id
  | some initstring =>
      have freed : Maintains I E (modify fun s => { s with
          opts := { s.opts with initstring := none } } : SessionM PUnit) :=
        rules.modify fun _ => .of rfl rfl rfl id rfl rfl rfl
      dsimp only
      split
      · exact .bind (push _) fun _ => rules.fatalIf fun _ => freed
      · exact freed

/-- `loop` keeps what its turns keep, and returns where a turn leaves it. -/
theorem TurnRules.loop {build : Build} {I : Session → Prop} {E : Stop → Session → Prop}
    (rules : TurnRules build I E) (enter : Maintains I E enterLoop)
    (left : ∀ {reason s}, E (.left reason) s → I s) : Maintains I E (loop build) := by
  unfold Ppcom.loop
  refine .bind enter fun _ => .read fun s _ =>
    .tryCatch (.bind (rules.loopTurns _) fun _ => .throw fun _ => rules.stop trivial) fun stop => ?_
  cases stop with
  | left reason => exact .pure fun _ => left
  | fatal | abort | blocked | observed => exact .throw fun _ => id

/-! ### The process -/

/-- What calls of the framework on the port keep holds of it when no data is left for it. -/
theorem emptyPort_keeps {I : Session → Prop} {E : Stop → Session → Prop} (drain : Bool) (fd : Int)
    (call : ∀ {α : Type} (f : Answers → TermM α), Maintains I E (onTerm fd f)) :
    Maintains I E (emptyPort drain fd) := by
  have flush : Maintains I E (do
      discard <| onTerm fd fun answers => termFlush answers.toReplies fd
      if (← get).opts.flow ≠ .none then
        discard <| onTerm fd fun answers => termFakeFlush answers.toReplies fd) := by
    refine .bind (call _).discard fun _ => .read fun s _ => ?_
    split
    · exact (call _).discard
    · exact .pure fun _ => id
  unfold emptyPort
  dsimp only
  split
  · exact .bind (call _).discard fun _ => flush
  · exact flush

/-- The end of a run throws nothing, and of the options it changes the init string only. -/
theorem cleanup_keeps {P : Opts → Prop} {E : Stop → Session → Prop}
    (freed : ∀ {opts}, P opts → P { opts with initstring := none }) (drain noreset hup : Bool) :
    Maintains (fun s => P s.opts) E (cleanup drain noreset hup) := by
  have call : ∀ {α : Type} {fd : Int} (f : Answers → TermM α),
      Maintains (fun s => P s.opts) E (onTerm fd f) := fun f _ held => held
  have apply : ∀ fd, Maintains (fun s => P s.opts) E (applyTerm fd true) := by
    intro fd
    unfold applyTerm
    refine .read fun s _ => .bind (call _) fun r => ?_
    split
    · exact .bind (.modify fun _ => id) fun _ => .pure fun _ => id
    · exact .pure fun _ => id
  have release : ∀ fd, Maintains (fun s => P s.opts) E (releasePort drain noreset hup fd) := by
    intro fd
    refine .bind (emptyPort_keeps drain fd call) fun _ => .bind (call _).discard fun _ =>
      .bind (apply fd).discard fun _ => ?_
    split
    · exact .bind (call _).discard fun _ => .modify fun _ => id
    · exact .pure fun _ => id
  have done : Maintains (fun s => P s.opts) E (modify fun s => { s with
      opts := { s.opts with initstring := none }
      ttyQ := { s.ttyQ with buff := [] } } : SessionM PUnit) := .modify fun _ => freed
  unfold cleanup
  refine .read fun s _ => ?_
  dsimp only
  split
  · exact .bind (release _) fun _ => done
  · exact done

theorem cleanup_triple {E : Stop → Session → Prop} (drain noreset hup : Bool) :
    Triple (fun _ => True) (cleanup drain noreset hup) (fun _ _ => True) E :=
  cleanup_keeps (P := fun _ => True) (fun _ => trivial) drain noreset hup

/-- What it takes that `P` holds of a run of `main` until the queue is allocated, and `I` from then
on up to `loop`. -/
structure StartRules (build : Build) (P I : Session → Prop) (E : Stop → Session → Prop) : Prop where
  before : CallRules P E
  files : ∀ {s} sys logFd ttyFd, P s → P { s with sys := sys, logFd := logFd, ttyFd := ttyFd }
  empty : ∀ {s}, P s →
    I { s with ttyQ := { sz := ttyQSzMin, len := 0, buff := List.replicate ttyQSzMin 0 } }
  after : CallRules I E
  push : ∀ bytes, Maintains I E (ttyQPush build bytes)

namespace StartRules

variable {build : Build} {P I J : Session → Prop} {E : Stop → Session → Prop}
  (rules : StartRules build P I E)

include rules

theorem startUp : Triple P (startUp build) (fun _ => I) E :=
  .bind (rules.before.configurePort build) fun _ => .bind rules.before.addStdin fun _ =>
    .bind (allocQueue_triple rules.before rules.empty) fun _ =>
    pushInitstring_triple rules.after rules.push

theorem upTo (enter : Triple I enterLoop (fun _ => J) E) (turn : Maintains J E (loopTurn build))
    (n : Nat) : Triple P (upTo build n) (fun _ => J) E :=
  .bind (rules.before.openFiles rules.files) fun _ => .bind (rules.before.addPort build) fun _ =>
    .bind rules.startUp fun _ => .bind enter fun _ => .times turn n

end StartRules

/-- What is about neither the queue nor the descriptors is kept by `main` up to `loop`. -/
theorem BlindRules.start {I : Session → Prop} {E : Stop → Session → Prop} (blind : BlindRules I E)
    (build : Build)
    (files : ∀ {s} sys logFd ttyFd, I s → I { s with sys := sys, logFd := logFd, ttyFd := ttyFd })
    (empty : ∀ {s} q, I s → I { s with ttyQ := q }) : StartRules build I I E where
  before := blind.toCallRules
  files := files
  empty := empty _
  after := blind.toCallRules
  push := blind.ttyQPush build

/-- The same of `I` through `loop`. -/
structure MainRules (build : Build) (P I : Session → Prop) (E : Stop → Session → Prop) : Prop
    extends StartRules build P I E where
  turn : TurnRules build I E
  enter : Maintains I E enterLoop
  left : ∀ {reason s}, E (.left reason) s → I s
  after := turn.toCallRules

theorem MainRules.runMain {build : Build} {P I : Session → Prop} {E : Stop → Session → Prop}
    (rules : MainRules build P I E) : Triple P (runMain build) (fun _ _ => True) E := by
  refine .bind (rules.before.openFiles rules.files) fun _ =>
    .bind (rules.before.addPort build) fun _ => .bind rules.startUp fun _ =>
    .bind (rules.turn.loop rules.enter rules.left) fun ler => ?_
  exact .read fun s _ => .bind ((cleanup_triple _ _ _).pre fun _ _ => trivial) fun _ => .pure fun _ => id

/-- The states in which a run of `main` is stopped before the process exits are those in which
`runMain` is, unless by `fatal`. -/
theorem main_triple {build : Build} {P : Session → Prop} {Q : Int → Session → Prop}
    {E : Stop → Session → Prop} (run : Triple P (runMain build) Q E) :
    Triple P (main build) (fun _ _ => True)
      fun stop s => (∀ message, stop ≠ .fatal message) ∧ E stop s := by
  have exit : ∀ code : Int, Triple (fun _ => True) (do
      exitProcess
      return code) (fun _ _ => True) fun stop s => (∀ message, stop ≠ .fatal message) ∧ E stop s :=
    fun code => .bind (Q := fun _ _ => True) (fun _ _ => trivial) fun _ => .pure fun _ => id
  refine .bind (Q := fun _ _ => True) (.tryCatch (run.weaken (fun _ => id) (fun _ _ _ => trivial)
    fun _ _ => id) fun stop => ?_) exit
  cases stop with
  | fatal message =>
      exact .read fun s _ => .bind ((cleanup_triple _ _ _).pre fun _ _ => trivial) fun _ =>
        .pure fun _ => id
  | left | abort | blocked | observed => exact .throw fun s held => ⟨nofun, held⟩

end Ppcom
