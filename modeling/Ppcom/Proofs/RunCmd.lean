/-
Module: Ppcom.Proofs.RunCmd
Purpose: What `run_cmd` leaves of the signals, the terminal and the status flags of the port. The child
  is followed step by step; the signals and the framework it changes are its own, but the flags of the
  open file are not.
Trusted boundary: none
Main exports: Stage, handOver_triple, child_triple, Restored, run_cmd_restores_iff
-/
import Ppcom.Fork
import Ppcom.Proofs.TermCalls

namespace Ppcom.Fork

open Program

/-! ### The child -/

/-- A child that started as `s₀` has made `k` steps, and the flags of the open files are `status`. -/
structure Stage (s₀ : Running) (k : Nat) (status : Nat → Word) (s : Running) : Prop where
  lives : s.lives + k = s₀.lives
  status : s.kernel.status = status
  argv : s.argv = s₀.argv

/-- Its descriptors are still those it started with. -/
structure Early (s₀ : Running) (k : Nat) (s : Running) : Prop
    extends Stage s₀ k s₀.kernel.status s where
  file : s.proc.file = s₀.proc.file

/-- The flags when the child has made the port blocking. -/
def Running.unblocked (s : Running) (fd : Int) : Nat → Word :=
  match s.proc.file fd with
  | none => s.kernel.status
  | some file => Function.update s.kernel.status file (s.kernel.status file &&& ~~~oNonblock)

/-- Where the child is killed no step is left. -/
theorem alive_triple {I J : Running → Prop} {E : WaitStatus → Running → Prop} {signal : Int}
    (dies : ∀ {s}, I s → s.lives = 0 → E (.signaled signal) s)
    (lives : ∀ {s n}, I s → s.lives = n + 1 → J { s with lives := n }) :
    Triple I (alive signal) (fun _ => J) E := by
  refine .bind_get fun s start => ?_
  cases left : s.lives with
  | zero => exact .throw fun s' here => here.1 ▸ dies start left
  | succ n => exact .modify fun s' here => here.1 ▸ lives start left

/-- How the part of the child before `execvp` may end early: what it was killed by does not matter, and
the flags of the port are changed after four steps. -/
def Dies (s₀ : Running) (fd : Int) (_ : WaitStatus) (s : Running) : Prop :=
  s.argv = s₀.argv ∧
    (s₀.lives < 4 ∧ s.kernel.status = s₀.kernel.status ∨
      4 ≤ s₀.lives ∧ s₀.lives < 6 ∧ s.kernel.status = s₀.unblocked fd)

section Steps

variable {s₀ : Running} {k : Nat} {fd : Int} {signal : Int}

theorem Early.alive (before : k < 4) :
    Triple (Early s₀ k) (alive signal) (fun _ => Early s₀ (k + 1)) (Dies s₀ fd) := by
  refine alive_triple (fun held none => ⟨held.argv, .inl ⟨?_, held.status⟩⟩) fun held some => ?_
  · have lives := held.lives
    omega
  · have lives := held.lives
    exact ⟨⟨by simp only; omega, held.status, held.argv⟩, held.file⟩

theorem Stage.alive (after : k = 4 ∨ k = 5) :
    Triple (Stage s₀ k (s₀.unblocked fd)) (alive signal)
      (fun _ => Stage s₀ (k + 1) (s₀.unblocked fd)) (Dies s₀ fd) := by
  refine alive_triple (fun held none => ⟨held.argv, .inr ⟨?_, ?_, held.status⟩⟩) fun held some => ?_
  · have lives := held.lives
    omega
  · have lives := held.lives
    omega
  · have lives := held.lives
    exact ⟨by simp only; omega, held.status, held.argv⟩

/-- A call of the framework changes the child's copy of it and the terminals. -/
theorem Early.callTerm {α : Type} (f : TermM α) :
    Maintains (Early s₀ k) (Dies s₀ fd) (callTerm f) :=
  fun _ held => ⟨⟨held.lives, held.status, held.argv⟩, held.file⟩

theorem Stage.setFile {status : Nat → Word} (fd' : Int) (file : Option Nat) :
    Maintains (Stage s₀ k status) (Dies s₀ fd) (setFile fd' file) :=
  fun _ held => ⟨held.lives, held.status, held.argv⟩

theorem Early.fcntlGetfl :
    Triple (Early s₀ k) (fcntlGetfl fd)
      (fun fl s => (∀ file, s₀.proc.file fd = some file → fl = s₀.kernel.status file) ∧ Early s₀ k s)
      (Dies s₀ fd) := by
  refine .bind_get fun s start => ?_
  have same := start.file
  cases opened : s.proc.file fd with
  | none =>
      refine .pure fun s' here => ⟨fun file other => ?_, here.2⟩
      rw [← same, opened] at other
      cases other
  | some file =>
      refine .pure fun s' here => ⟨fun file' other => ?_, here.2⟩
      rw [← same, opened] at other
      cases other
      rw [start.status]

/-- The port is made blocking. -/
theorem Early.fcntlSetfl {fl : Word}
    (flags : ∀ file, s₀.proc.file fd = some file → fl = s₀.kernel.status file) :
    Triple (Early s₀ k) (fcntlSetfl fd (fl &&& ~~~oNonblock))
      (fun _ => Stage s₀ k (s₀.unblocked fd)) (Dies s₀ fd) := by
  refine .bind_get fun s start => ?_
  have same := start.file
  cases opened : s.proc.file fd with
  | none =>
      refine .pure fun s' here => ?_
      obtain ⟨rfl, held⟩ := here
      refine ⟨held.lives, ?_, held.argv⟩
      rw [Running.unblocked, ← same, opened, held.status]
  | some file =>
      refine .modify (f := fun _ => _) fun s' here => ?_
      obtain ⟨rfl, held⟩ := here
      refine ⟨held.lives, ?_, held.argv⟩
      rw [same] at opened
      rw [Running.unblocked, opened, flags file opened, held.status]

/-- The child up to where the port is its standard input and output. -/
theorem handOver_triple (env : ChildEnv) :
    Triple (Early s₀ 0) (handOver env fd) (fun _ => Stage s₀ 5 (s₀.unblocked fd)) (Dies s₀ fd) := by
  unfold handOver
  refine .bind (Early.alive (by decide)) fun _ => .bind (Early.callTerm _).discard fun _ =>
    .bind (Early.alive (by decide)) fun _ => .bind (Early.callTerm _).discard fun _ =>
    .bind (Early.alive (by decide)) fun _ => .bind (Early.callTerm _).discard fun _ =>
    .bind (Early.alive (by decide)) fun _ => .bind Early.fcntlGetfl fun fl => .assume fun flags =>
    .bind (Early.fcntlSetfl flags) fun _ => .bind (Stage.alive (.inl rfl)) fun _ =>
    .bind (Stage.setFile _ _) fun _ => .bind (Stage.setFile _ _) fun _ => .read fun s _ =>
    .bind (Stage.setFile _ _) fun _ => Stage.setFile _ _

end Steps

/-- The program that the child runs, if it lives long enough, has arguments, and can execute it. -/
def ChildEnv.work (env : ChildEnv) (cmd argsExtra : List UInt8) : Option Work :=
  if env.lives < 6 then none else (commandArgv env.strdupOk cmd argsExtra).bind env.program

/-- `execvp` returns where the program cannot be executed. -/
theorem execvp_triple {env : ChildEnv} {s₀ : Running} {k : Nat} {status : Nat → Word}
    (argv : List (List UInt8)) :
    Triple (Stage s₀ k status) (execvp env argv)
      (fun _ s => env.program argv = none ∧ s.kernel.status = status ∧ s.argv = some argv)
      fun _ s => ∃ work, env.program argv = some work ∧ s.kernel.status = work.status status ∧
        s.argv = some argv := by
  unfold execvp
  cases found : env.program argv with
  | none => exact fun s held => ⟨rfl, held.status, rfl⟩
  | some work =>
      refine fun s held => ⟨work, rfl, ?_, rfl⟩
      rw [← held.status]

/-- `exit` of the child touches neither the flags nor the record of `execvp`. -/
theorem exitChild_triple {status : Nat → Word} {argv : Option (List (List UInt8))} (env : ChildEnv)
    (code : Int) :
    Triple (fun s => s.kernel.status = status ∧ s.argv = argv) (exitChild env code)
      (fun _ _ => False) fun _ s => s.kernel.status = status ∧ s.argv = argv :=
  fun _ held => held

/-- What the child leaves: the flags of the open files as they were, as it changed them, or as the
program left these; and what it called `execvp` with. -/
structure Left (env : ChildEnv) (s₀ : Running) (fd : Int) (cmd argsExtra : List UInt8)
    (s : Running) : Prop where
  early : env.lives < 4 → s.kernel.status = s₀.kernel.status
  blocking : 4 ≤ env.lives → env.work cmd argsExtra = none → s.kernel.status = s₀.unblocked fd
  worked : ∀ work, env.work cmd argsExtra = some work →
    s.kernel.status = work.status (s₀.unblocked fd)
  argv : s.argv = if env.lives < 6 then none else commandArgv env.strdupOk cmd argsExtra

theorem child_triple (env : ChildEnv) {s₀ : Running} (lives : s₀.lives = env.lives)
    (fresh : s₀.argv = none) (sigmOld : Signal → Bool) (fd : Int) (cmd argsExtra : List UInt8) :
    Triple (· = s₀) (child env sigmOld fd cmd argsExtra) (fun _ _ => False)
      fun _ => Left env s₀ fd cmd argsExtra := by
  have killed : ∀ e s, Dies s₀ fd e s → Left env s₀ fd cmd argsExtra s := by
    rintro e s ⟨argv, ⟨few, status⟩ | ⟨some, few, status⟩⟩
    · have dead : env.lives < 6 := by omega
      exact ⟨fun _ => status, fun more => by omega, by simp [ChildEnv.work, dead],
        by simp [argv, fresh, dead]⟩
    · have dead : env.lives < 6 := by omega
      exact ⟨fun less => by omega, fun _ _ => status, by simp [ChildEnv.work, dead],
        by simp [argv, fresh, dead]⟩
  unfold child
  refine .bind (Q := fun _ => Stage s₀ 5 (s₀.unblocked fd)) ?_ fun _ => ?_
  · refine (handOver_triple env).weaken ?_ (fun _ _ => id) killed
    rintro s rfl
    exact ⟨⟨rfl, rfl, rfl⟩, rfl⟩
  cases vector : commandArgv env.strdupOk cmd argsExtra with
  | none =>
      refine .given (φ := ¬ env.lives < 4) ?_ fun some => ?_
      · intro s held
        have left := held.lives
        omega
      refine (exitChild_triple env _).weaken (fun s held => ⟨held.status, held.argv⟩) (fun _ _ => id)
        fun e s held => ⟨fun less => absurd less some, fun _ _ => held.1, ?_, ?_⟩
      · simp [ChildEnv.work, vector]
      · simp [held.2, fresh, vector]
  | some argv =>
      refine .bind (Q := fun _ => Stage s₀ 5 (s₀.unblocked fd)) ?_ fun _ => ?_
      · exact fun s held => ⟨held.lives, held.status, held.argv⟩
      refine .bind (Q := fun _ => Stage s₀ 5 (s₀.unblocked fd)) ?_ fun _ => ?_
      · exact fun s held => ⟨held.lives, held.status, held.argv⟩
      refine .bind ((Stage.alive (.inr rfl)).weaken (fun _ => id) (fun _ _ => id) killed) fun _ => ?_
      refine .given (φ := ¬ env.lives < 6) ?_ fun some => ?_
      · intro s held
        have left := held.lives
        omega
      refine .bind ((execvp_triple argv).weaken (fun _ => id) (fun _ _ => id) ?_) fun _ => ?_
      · rintro e s ⟨work, found, status, called⟩
        refine ⟨fun less => by omega, ?_, ?_, by rw [called, if_neg some, vector]⟩
        · simp [ChildEnv.work, vector, found, some]
        · simp [ChildEnv.work, vector, found, some, status]
      · refine .assume fun unfound => (exitChild_triple env _).weaken (fun _ => id) (fun _ _ => id) ?_
        rintro e s ⟨status, called⟩
        refine ⟨fun less => by omega, fun _ _ => status, ?_, by rw [called, if_neg some, vector]⟩
        simp [ChildEnv.work, vector, unfound]

/-! ### The program -/

/-- The child as `fork` makes it. -/
def Running.forked (s : Running) (lives : Nat) : Running where
  proc := { s.proc with
    sigaction := Function.update s.proc.sigaction .sigint (.of .sigIgn)
    sigmask := fun _ => true }
  kernel := s.kernel
  lives := lives
  argv := none

@[simp] theorem run_sigaction (signal : Signal) (action : Sigaction) (s : Running) :
    (sigaction signal action).run s = .ok (s.proc.sigaction signal) { s with
      proc := { s.proc with
        sigaction := Function.update s.proc.sigaction signal action } } := rfl

@[simp] theorem run_setMask (mask : Signal → Bool) (s : Running) :
    (setMask mask).run s = .ok () { s with proc := { s.proc with sigmask := mask } } := rfl

@[simp] theorem run_blockSignals (s : Running) :
    blockSignals.run s =
      .ok s.proc.sigmask { s with proc := { s.proc with sigmask := fun _ => true } } := rfl

@[simp] theorem run_callTerm {α : Type} (f : TermM α) (s : Running) :
    (callTerm f).run s = .ok (f.outcome ⟨s.proc.term, s.kernel.world⟩) { s with
      proc := { s.proc with term := (f.after ⟨s.proc.term, s.kernel.world⟩).term }
      kernel := { s.kernel with world := (f.after ⟨s.proc.term, s.kernel.world⟩).world } } := rfl

theorem run_forkChild (env : ChildEnv) (sigmOld : Signal → Bool) (fd : Int)
    (cmd argsExtra : List UInt8) (s : Running) :
    (forkChild env sigmOld fd cmd argsExtra).run s =
      let ran := (child env sigmOld fd cmd argsExtra).run { s with lives := env.lives, argv := none }
      .ok (ending ran) { s with kernel := (final ran).kernel, argv := (final ran).argv } := rfl

@[simp] theorem run_waitChild (status : WaitStatus) (interrupted : Nat) (s : Running) :
    (waitChild status interrupted).run s = .ok status s := by
  induction interrupted with
  | zero => rfl
  | succ n ih => exact ih

/-- Where `fork` fails, `SIGINT` stays ignored. -/
theorem runCmd_unforked {env : RunEnv} (none : env.child = none) (fd : Int)
    (cmd argsExtra : List UInt8) (s : Running) :
    (runCmd env fd cmd argsExtra).run s = .ok (-1) { s with proc := { s.proc with
      sigaction := Function.update s.proc.sigaction .sigint (.of .sigIgn) } } := by
  unfold runCmd
  rw [none]
  rfl

/-- The program after a child: its signals are as they were, the terminal is as `term_apply` leaves it,
and the flags of the open files are as the child leaves them. -/
theorem runCmd_forked {env : RunEnv} {childEnv : ChildEnv} (forks : env.child = some childEnv)
    (fd : Int) (cmd argsExtra : List UInt8) (s : Running) :
    ∃ left value, Left childEnv s fd cmd argsExtra left ∧
      (runCmd env fd cmd argsExtra).run s =
        let sys := (termApply env.apply sti false).after ⟨s.proc.term, left.kernel.world⟩
        .ok value { s with
          proc := { s.proc with term := sys.term }
          kernel := ⟨sys.world, left.kernel.status⟩
          argv := left.argv } := by
  have lives : (s.forked childEnv.lives).lives = childEnv.lives := rfl
  have triple := child_triple childEnv lives rfl s.proc.sigmask fd cmd argsExtra _ rfl
  cases ran : (child childEnv s.proc.sigmask fd cmd argsExtra).run (s.forked childEnv.lives) with
  | ok a left =>
      rw [ran] at triple
      exact triple.elim
  | error status left =>
      rw [ran] at triple
      refine ⟨left, status.value, ⟨triple.early, triple.blocking, triple.worked, triple.argv⟩, ?_⟩
      unfold Running.forked at ran
      simp only [runCmd, EStateM.run_bind, run_sigaction, run_blockSignals, forks, run_forkChild, ran,
        run_setMask, run_waitChild, EStateM.run_pure, ending, final_error]
      rw [run_discard_ok (run_callTerm _ _)]
      simp only
      rw [run_discard_ok (run_sigaction _ _ _)]
      simp

/-! ### What is restored -/

/-- After `run_cmd` the action of `SIGINT`, the signal mask, the settings of standard input where the
framework manages it, and the status flags of the port are those before it. -/
structure Restored (fd : Int) (s s' : Running) : Prop where
  sigint : s'.proc.sigaction .sigint = s.proc.sigaction .sigint
  mask : s'.proc.sigmask = s.proc.sigmask
  terminal : ∀ i, s.proc.term.find sti = .ok i →
    s'.kernel.world.settingsOf sti = s.kernel.world.settingsOf sti
  flags : ∀ file, s.proc.file fd = some file → s'.kernel.status file = s.kernel.status file

/-- What it takes. Where `fork` fails, `SIGINT` was ignored before. Where it does not, a managed
terminal takes as the settings last asked for those that it had; and the child is killed before it
makes the port blocking, or the port was blocking before, or the program that the child runs leaves the
flags as they were before. -/
def Undoes (env : RunEnv) (fd : Int) (cmd argsExtra : List UInt8) (s : Running) : Prop :=
  match env.child with
  | none => s.proc.sigaction .sigint = .of .sigIgn
  | some childEnv =>
      (∀ i, s.proc.term.find sti = .ok i →
        env.apply.tcsetattr (s.proc.term.nexttermios i) = some (s.kernel.world.settingsOf sti)) ∧
      ∀ file, s.proc.file fd = some file →
        childEnv.lives < 4 ∨
          match childEnv.work cmd argsExtra with
          | none => s.kernel.status file &&& oNonblock = 0
          | some work => work.status (s.unblocked fd) file = s.kernel.status file

/-- A flag that is cleared stays as it was exactly if it was clear. -/
theorem clear_eq_self_iff (flags bit : Word) : flags &&& ~~~bit = flags ↔ flags &&& bit = 0 := by
  constructor
  · intro same
    rw [← same, BitVec.and_assoc, BitVec.and_comm (~~~bit), BitVec.and_not_self]
    simp
  · intro clear
    calc flags &&& ~~~bit = (flags &&& ~~~bit) ||| (flags &&& bit) := by simp [clear]
      _ = flags := by
        rw [← BitVec.and_or_distrib_left, BitVec.not_or_self, BitVec.and_allOnes]

/-- The settings of the terminal after `term_apply`. -/
theorem settings_after_apply {replies : Replies} {s : Sys} {i : Slot} {t : Termios}
    (found : s.term.find sti = .ok i) (takes : replies.tcsetattr (s.term.nexttermios i) = some t) :
    ((termApply replies sti false).after s).world.settingsOf sti = t := by
  have real : (0 : Int) ≤ sti := by decide
  unfold TermM.after
  cases read : replies.tcgetattr with
  | false =>
      rw [run_termApply_unread found real takes read]
      simp [World.settingsOf, World.store]
  | true =>
      rw [run_termApply_reads found false real takes read]
      simp [World.settingsOf, World.store]

/-- The flags of the port are left as they were. -/
theorem Left.flags_iff {env : ChildEnv} {s left : Running} {fd : Int} {cmd argsExtra : List UInt8}
    (leaves : Left env s fd cmd argsExtra left) {file : Nat} (opened : s.proc.file fd = some file) :
    left.kernel.status file = s.kernel.status file ↔
      env.lives < 4 ∨
        match env.work cmd argsExtra with
        | none => s.kernel.status file &&& oNonblock = 0
        | some work => work.status (s.unblocked fd) file = s.kernel.status file := by
  by_cases early : env.lives < 4
  · simp [leaves.early early, early]
  · cases runs : env.work cmd argsExtra with
    | none =>
        have cleared : s.unblocked fd file = s.kernel.status file &&& ~~~oNonblock := by
          simp [Running.unblocked, opened]
        rw [leaves.blocking (by omega) runs, cleared, clear_eq_self_iff]
        simp [early]
    | some work =>
        rw [leaves.worked work runs]
        simp [early]

/-- For every outcome of `fork` and of the child, `run_cmd` restores what it changed if and only if
`Undoes` holds; `takes` says that its `tcsetattr` on the terminal does not fail. -/
theorem run_cmd_restores_iff (env : RunEnv) (fd : Int) (cmd argsExtra : List UInt8) (s : Running)
    (takes : ∀ i, s.proc.term.find sti = .ok i →
      (env.apply.tcsetattr (s.proc.term.nexttermios i)).isSome) :
    Restored fd s (final ((runCmd env fd cmd argsExtra).run s)) ↔ Undoes env fd cmd argsExtra s := by
  unfold Undoes
  cases forks : env.child with
  | none =>
      rw [runCmd_unforked forks]
      constructor
      · intro restored
        have same := restored.sigint
        simp only [final_ok, Function.update_self] at same
        exact same.symm
      · intro ignored
        exact ⟨by simp [ignored], rfl, fun _ _ => rfl, fun _ _ => rfl⟩
  | some childEnv =>
      obtain ⟨left, value, leaves, ran⟩ := runCmd_forked forks fd cmd argsExtra s
      rw [ran]
      have settings : ∀ {i : Slot} {t : Termios}, s.proc.term.find sti = .ok i →
          env.apply.tcsetattr (s.proc.term.nexttermios i) = some t →
          ((termApply env.apply sti false).after
            ⟨s.proc.term, left.kernel.world⟩).world.settingsOf sti = t :=
        fun found stored => settings_after_apply (s := ⟨s.proc.term, left.kernel.world⟩) found stored
      constructor
      · intro restored
        refine ⟨fun i found => ?_, fun file opened => ?_⟩
        · obtain ⟨t, stored⟩ := Option.isSome_iff_exists.mp (takes i found)
          rw [stored, Option.some_inj, ← settings found stored]
          exact restored.terminal i found
        · exact (leaves.flags_iff opened).mp (restored.flags file opened)
      · rintro ⟨terminal, flags⟩
        refine ⟨rfl, rfl, fun i found => settings found (terminal i found), fun file opened => ?_⟩
        exact (leaves.flags_iff opened).mpr (flags file opened)

/-! ### A transfer -/

/-- The program with its terminal and a port that has the flags `flags`. -/
def Running.example (flags : Word) : Running where
  proc := {
    sigaction := fun _ => .of .deadly
    sigmask := fun _ => false
    file := fun fd => some fd.toNat
    term := { Term.static with
      init := true
      fd := fun i => if i = 0 then sti else if i = 1 then 3 else -1 } }
  kernel := { world := ⟨Int.toNat, fun _ => Termios.zero, []⟩, status := fun _ => flags }
  lives := 0
  argv := none

/-- Every call succeeds, and the program does nothing and exits. -/
def ChildEnv.works : ChildEnv where
  lives := 6
  signal := 9
  drain := allSucceed
  remove := allSucceed
  ofSlot := fun _ => allSucceed
  strdupOk := fun _ => true
  program := fun _ => some ⟨id, id, .exited 0⟩

/-- The same for both processes. -/
def RunEnv.works : RunEnv := ⟨some .works, 0, allSucceed⟩

/-- A transfer over a port that blocks restores everything. -/
theorem run_cmd_restores_blocking :
    let before := Running.example 0x2
    Restored 3 before (final ((runCmd .works 3 (ascii "sz -vv") (ascii "f")).run before)) := by
  intro before
  refine (run_cmd_restores_iff .works 3 _ _ before fun _ _ => rfl).mpr ⟨fun _ _ => rfl, ?_⟩
  rintro file ⟨⟩
  have vector : commandArgv (fun _ => true) (ascii "sz -vv") (ascii "f") =
      some [ascii "sz", ascii "-vv", ascii "f"] := by decide +kernel
  have runs : ChildEnv.works.work (ascii "sz -vv") (ascii "f") = some ⟨id, id, .exited 0⟩ := by
    unfold ChildEnv.work ChildEnv.works
    rw [vector]
    rfl
  right
  rw [runs]
  decide

/-- `main` opens the port with `O_NONBLOCK`; after a transfer the flag is gone. -/
theorem run_cmd_loses_nonblock :
    let before := Running.example (0x2 ||| oNonblock)
    ¬ Restored 3 before (final ((runCmd .works 3 (ascii "sz -vv") (ascii "f")).run before)) := by
  intro before restored
  have same := restored.flags 3 rfl
  have lost : (final ((runCmd .works 3 (ascii "sz -vv") (ascii "f")).run before)).kernel.status 3
      = 0x2 := by decide +kernel
  rw [lost] at same
  exact absurd same (by decide)

end Ppcom.Fork
