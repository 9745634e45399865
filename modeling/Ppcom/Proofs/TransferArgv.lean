/-
Module: Ppcom.Proofs.TransferArgv
Purpose: The arguments of a file transfer: those of the configured command, and after them those of
  the line at the prompt, as far as there are slots and room in the argument buffer. So the user cannot
  choose the program where the command names one.
Trusted boundary: none
Main exports: commandArgv_eq, Entered, Executes, transfer_program_fixed_iff
-/
import Mathlib.Data.List.TakeWhile
import Ppcom.Proofs.RunCmd
import Ppcom.Proofs.SplitQuoted

namespace Ppcom

/-! ### Two strings in one vector -/

namespace Split

/-- The slots in use after the arguments of two strings were stored one after the other. -/
theorem storeAll_twice {n : Nat} (args extras : List (List UInt8)) :
    let first := Slots.storeAll n ⟨0, List.replicate n [], 0⟩ args
    let second := Slots.storeAll n ⟨0, first.argv, first.argc⟩ extras
    second.argv.take second.argc = ((args ++ extras).take n).map cut ∧
      second.argc = min (args ++ extras).length n := by
  intro first second
  have used : first.argc = min args.length n := by
    rw [storeAll_argc]
    simp
  have held : first.argv.take first.argc = (args.take n).map cut := by
    rw [storeAll_argv _ _ (by simp) (by simp)]
    simp
  have long : n ≤ first.argv.length := by
    have same : ∀ (slots : Slots) (words : List (List UInt8)),
        (slots.storeAll n words).argv.length = slots.argv.length := by
      intro slots words
      induction words generalizing slots with
      | nil => rfl
      | cons w words ih =>
          rw [storeAll_cons, ih]
          unfold Slots.store
          split <;> simp
    rw [same]
    simp
  constructor
  · refine (storeAll_argv ⟨0, first.argv, first.argc⟩ extras long ?_).trans ?_
    · change first.argc ≤ n
      omega
    · have room : n - first.argc = n - args.length := by omega
      change first.argv.take first.argc ++ (extras.take (n - first.argc)).map cut = _
      rw [held, room, List.take_append, List.map_append]
  · refine (storeAll_argc ⟨0, first.argv, first.argc⟩ extras).trans ?_
    simp only [used, List.length_append]
    omega

end Split

namespace Fork

open Split Program

/-- The vector of a command with arguments `args`: they and those of the line, cut to the vector and
to the argument buffer. -/
theorem commandArgv_eq {strdupOk : Nat → Bool} {cmd argsExtra : List UInt8}
    {argv : List (List UInt8)} (noNul : eos ∉ cmd) (noNulExtra : eos ∉ argsExtra)
    (made : commandArgv strdupOk cmd argsExtra = some argv) :
    (∃ args, Arguments cmd args) ∧ ∀ args, Arguments cmd args → ∃ extras,
      Arguments argsExtra extras ∧ argv = ((args ++ extras).take runcmdArgsMax).map cut := by
  unfold commandArgv at made
  dsimp only at made
  split at made
  case h_2 => cases made
  next r₁ argc₁ argv₁ ran₁ =>
  split at made
  · cases made
  next fine₁ =>
  split at made
  case h_2 => cases made
  next r₂ argc₂ argv₂ ran₂ =>
  split at made
  · cases made
  next fine₂ =>
  cases made
  refine ⟨arguments_of_returned noNul ran₁ fine₁, fun args wellFormed => ?_⟩
  obtain ⟨extras, wellFormedExtra⟩ :=
    arguments_of_returned noNulExtra ran₂ fun negative => fine₂ (.inl negative)
  refine ⟨extras, wellFormedExtra, ?_⟩
  obtain ⟨_, _, stored₁⟩ := stored_of_returned noNul wellFormed ran₁
  obtain ⟨_, _, stored₂⟩ := stored_of_returned noNulExtra wellFormedExtra ran₂
  have first := tryStoreAll_ok _ _ stored₁
  have second := tryStoreAll_ok _ _ stored₂
  have twice := (storeAll_twice (n := runcmdArgsMax) args extras).1
  rw [← first, ← second] at twice
  exact twice

/-- Where all copies can be allocated, two strings that denote arguments have a vector, unless there
is no argument. -/
theorem commandArgv_made {cmd argsExtra : List UInt8} {args extras : List (List UInt8)}
    (noNul : eos ∉ cmd) (noNulExtra : eos ∉ argsExtra) (wellFormed : Arguments cmd args)
    (wellFormedExtra : Arguments argsExtra extras) (some : args ++ extras ≠ []) :
    commandArgv (fun _ => true) cmd argsExtra =
      .some (((args ++ extras).take runcmdArgsMax).map cut) := by
  have stored := storeAll_twice (n := runcmdArgsMax) args extras
  have positive : 0 < (args ++ extras).length := List.length_pos_iff.mpr some
  unfold commandArgv
  simp only [splitQuoted_arguments noNul wellFormed _ _ fun _ _ _ => rfl,
    splitQuoted_arguments noNulExtra wellFormedExtra _ _ fun _ _ _ => rfl]
  rw [if_neg (by omega), if_neg ?_, stored.1]
  rintro (negative | none)
  · omega
  · rw [stored.2] at none
    simp only [runcmdArgsMax] at none
    omega

/-- Arguments for which there is room stand at the start of the vector as they are. -/
theorem take_fitting {n : Nat} {args extras : List (List UInt8)} (few : args.length ≤ n)
    (short : ∀ w ∈ args, w.length < maxArgLen) :
    ((args ++ extras).take n).map cut = args ++ (extras.take (n - args.length)).map cut := by
  have whole : args.map cut = args.map id := List.map_congr_left fun w inside =>
    List.take_of_length_le (Nat.le_pred_of_lt (short w inside))
  rw [List.take_append, List.take_of_length_le few, List.map_append, whole, List.map_id]

/-! ### What a transfer executes -/

/-- A line that can be entered at the prompt for a file name. -/
def Entered (fname : List UInt8) : Prop := ∃ src, (readFilename src).1 = some fname

/-- A transfer with the command `cmd` and the line `fname` can reach `execvp` with `argv`. -/
def Executes (cmd fname : List UInt8) (argv : List (List UInt8)) : Prop :=
  ∃ env fd s, s.argv = none ∧ (final ((transfer env fd cmd (some fname)).run s)).argv = some argv

theorem Entered.noNul {fname : List UInt8} (entered : Entered fname) : eos ∉ fname := by
  obtain ⟨src, read⟩ := entered
  unfold readFilename at read
  split at read
  · cases read
  · cases read
    intro inside
    have nonzero := List.mem_takeWhile_imp inside
    simp [eos] at nonzero

/-- A command that is not empty is run. -/
theorem final_transfer {cmd : List UInt8} (enabled : cmd ≠ []) (env : RunEnv) (fd : Int)
    (fname : List UInt8) (s : Running) :
    final ((transfer env fd cmd (some fname)).run s) = final ((runCmd env fd cmd fname).run s) := by
  unfold transfer
  rw [if_neg enabled]
  simp only [EStateM.run_bind]
  cases (runCmd env fd cmd fname).run s with
  | ok value s' => rfl
  | error status s' => rfl

/-- Only the vector of the command is executed. -/
theorem Executes.made {cmd fname : List UInt8} {argv : List (List UInt8)} (enabled : cmd ≠ [])
    (executes : Executes cmd fname argv) :
    ∃ strdupOk, commandArgv strdupOk cmd fname = some argv := by
  obtain ⟨env, fd, s, fresh, called⟩ := executes
  rw [final_transfer enabled] at called
  cases forks : env.child with
  | none =>
      rw [runCmd_unforked forks] at called
      simp [fresh] at called
  | some childEnv =>
      obtain ⟨left, value, leaves, ran⟩ := runCmd_forked forks fd cmd fname s
      rw [ran] at called
      have kept := leaves.argv
      simp only [final_ok] at called
      rw [called] at kept
      split at kept
      · cases kept
      · exact ⟨childEnv.strdupOk, kept.symm⟩

theorem executes_of_made {cmd fname : List UInt8} {argv : List (List UInt8)} (enabled : cmd ≠ [])
    (made : commandArgv (fun _ => true) cmd fname = some argv) : Executes cmd fname argv := by
  refine ⟨.works, 3, .example 0x2, rfl, ?_⟩
  have forks : RunEnv.works.child = some _ := rfl
  obtain ⟨left, value, leaves, ran⟩ := runCmd_forked forks 3 cmd fname (.example 0x2)
  rw [final_transfer enabled, ran]
  apply leaves.argv.trans
  rw [if_neg (by decide)]
  exact made

/-- The user cannot choose the program: whatever two lines are entered, what is executed has the same
first argument, which is the first of the command, and starts with the arguments of the command. That
holds exactly if the command has an argument, and no more or longer ones than there is room for. -/
theorem transfer_program_fixed_iff {cmd : List UInt8} (enabled : cmd ≠ []) (noNul : eos ∉ cmd) :
    (∀ fname₁ fname₂ argv₁ argv₂, Entered fname₁ → Entered fname₂ → Executes cmd fname₁ argv₁ →
      Executes cmd fname₂ argv₂ → argv₁.head? = argv₂.head? ∧
        ∀ args, Arguments cmd args → argv₁.head? = args.head? ∧ args <+: argv₁) ↔
    ∀ args, Arguments cmd args →
      args ≠ [] ∧ args.length ≤ runcmdArgsMax ∧ ∀ w ∈ args, w.length < maxArgLen := by
  constructor
  · intro fixed args wellFormed
    -- the line `x` shows what the vector is for a command with these arguments
    have entered : Entered [0x78] := ⟨[.data 0x78 [0x0d]], by decide⟩
    have extra : Arguments [0x78] [[0x78]] := by
      have piece : Piece [0x78] [0x78] := .plain (by decide)
      exact .word .nil (.mk piece .nil) (.inl rfl) (.none .nil)
    have executes := executes_of_made enabled
      (commandArgv_made noNul entered.noNul wellFormed extra (by simp))
    obtain ⟨-, holds⟩ := fixed _ _ _ _ entered entered executes executes
    obtain ⟨first, start⟩ := holds args wellFormed
    refine ⟨?_, ?_, fun w inside => ?_⟩
    · rintro rfl
      simp [runcmdArgsMax] at first
    · have short := start.length_le
      simp only [List.length_map, List.length_take] at short
      omega
    · obtain ⟨v, -, rfl⟩ := List.mem_map.mp (start.subset inside)
      simp only [cut, List.length_take, maxArgLen]
      omega
  · intro fits fname₁ fname₂ argv₁ argv₂ entered₁ entered₂ executes₁ executes₂
    have vector : ∀ {fname argv}, Entered fname → Executes cmd fname argv →
        (∃ args, Arguments cmd args) ∧
          ∀ args, Arguments cmd args → argv.head? = args.head? ∧ args <+: argv := by
      intro fname argv entered executes
      obtain ⟨strdupOk, made⟩ := executes.made enabled
      obtain ⟨denotes, vector⟩ := commandArgv_eq noNul entered.noNul made
      refine ⟨denotes, fun args wellFormed => ?_⟩
      obtain ⟨extras, -, rfl⟩ := vector args wellFormed
      obtain ⟨some, few, short⟩ := fits args wellFormed
      rw [take_fitting few short]
      obtain ⟨first, later, rfl⟩ := List.exists_cons_of_ne_nil some
      exact ⟨rfl, List.prefix_append _ _⟩
    obtain ⟨⟨args, wellFormed⟩, first₁⟩ := vector entered₁ executes₁
    obtain ⟨-, first₂⟩ := vector entered₂ executes₂
    exact ⟨(first₁ args wellFormed).1.trans (first₂ args wellFormed).1.symm, first₁⟩

/-- A command with two arguments. -/
theorem transfer_program_fixed_iff_sz :
    (∀ fname₁ fname₂ argv₁ argv₂, Entered fname₁ → Entered fname₂ →
      Executes (ascii "s v") fname₁ argv₁ → Executes (ascii "s v") fname₂ argv₂ →
      argv₁.head? = argv₂.head? ∧ ∀ args, Arguments (ascii "s v") args →
        argv₁.head? = args.head? ∧ args <+: argv₁) ↔
    ∀ args, Arguments (ascii "s v") args →
      args ≠ [] ∧ args.length ≤ runcmdArgsMax ∧ ∀ w ∈ args, w.length < maxArgLen :=
  transfer_program_fixed_iff (by decide) (by decide)

/-- A blank command is not disabled, and the line at the prompt is what is executed. -/
theorem blank_command_runs_line :
    ∃ argv₁ argv₂, Entered (ascii "x") ∧ Entered (ascii "y") ∧
      Executes (ascii " ") (ascii "x") argv₁ ∧ Executes (ascii " ") (ascii "y") argv₂ ∧
      argv₁.head? = some (ascii "x") ∧ argv₂.head? = some (ascii "y") := by
  have runs : ∀ c : UInt8, commandArgv (fun _ => true) (ascii " ") [c] = some [[c]] →
      Executes (ascii " ") [c] [[c]] := fun c made => executes_of_made (by decide) made
  refine ⟨[ascii "x"], [ascii "y"], ⟨[.data 0x78 [0x0d]], by decide⟩, ⟨[.data 0x79 [0x0d]], by decide⟩,
    runs 0x78 (by decide +kernel), runs 0x79 (by decide +kernel), rfl, rfl⟩

end Fork

end Ppcom
