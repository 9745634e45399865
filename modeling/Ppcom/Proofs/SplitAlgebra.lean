/-
Module: Ppcom.Proofs.SplitAlgebra
Purpose: Two laws of `split_quoted` as a function of the string. It takes the quotes off every list of
  arguments that was quoted by the rules, and splitting two strings one after the other into one vector
  is splitting the two with a space between them.
Trusted boundary: none
Main exports: Line.arguments, quoting_round_trip, split_additive
-/
import Ppcom.Proofs.SplitQuoted
import Ppcom.Spec.Quoting

namespace Ppcom.Split

/-! ### Quoted arguments are words -/

theorem Word.tail {raw v : List UInt8} (word : Word raw v) : WordTail raw v := by
  cases word with
  | mk head rest => exact .piece head rest

/-- An argument in single quotes of which `p` has been read. A single quote in it ends one piece, is a
piece of its own, and begins another. -/
theorem single_word (w p : List UInt8) (plain : sq ∉ p) :
    Word (sq :: (p ++ (w.flatMap singleByte ++ [sq]))) (p ++ w) := by
  induction w generalizing p with
  | nil =>
      have whole := Word.mk (Piece.single plain) .nil
      simpa using whole
  | cons c w ih =>
      by_cases quote : c = sq
      · subst quote
        have later := ih [] (by simp)
        have escaped : WordTail ([bs, sq] ++ _) ([sq] ++ _) :=
          .piece (.escaped (by decide)) later.tail
        have whole := Word.mk (Piece.single plain) escaped
        simpa [singleByte] using whole
      · have longer : sq ∉ p ++ [c] := by
          intro inside
          rcases List.mem_append.mp inside with earlier | here
          · exact plain earlier
          · exact quote (List.mem_singleton.mp here).symm
        have whole := ih (p ++ [c]) longer
        simpa [singleByte, quote] using whole

theorem double_body (w : List UInt8) : DqBody (w.flatMap doubleByte) w := by
  induction w with
  | nil => exact .nil
  | cons c w ih =>
      rw [List.flatMap_cons]
      unfold doubleByte
      split
      · next special =>
          have escaped : DqEscaped c := by
            rcases special with backslash | quote
            · exact Or.inr (Or.inl backslash)
            · exact Or.inl quote
          exact .escaped escaped ih
      · next ordinary =>
          exact .plain (fun quote => ordinary (Or.inr quote))
            (fun backslash => ordinary (Or.inl backslash)) ih

theorem Style.quote_word (style : Style) (w : List UInt8) : Word (style.quote w) w := by
  cases style with
  | single => exact single_word w [] (by simp)
  | double =>
      have whole := Word.mk (Piece.double (double_body w)) .nil
      simpa [Style.quote] using whole

theorem Blank.gap {gap : List UInt8} (blank : Blank gap) : Gap gap := by
  induction gap with
  | nil => exact .nil
  | cons c gap ih =>
      exact .delim (blank c (by simp)) (ih fun d inside => blank d (List.mem_cons_of_mem c inside))

theorem Blank.wordEnds {gap s : List UInt8} (blank : Blank gap) (apart : gap ≠ []) :
    WordEnds (gap ++ s) := by
  cases gap with
  | nil => exact absurd rfl apart
  | cons c gap => exact Or.inr ⟨c, gap ++ s, rfl, blank c (by simp)⟩

theorem Quoted.arguments {args : List (List UInt8)} {s : List UInt8} (quoted : Quoted args s) :
    Arguments s args := by
  induction quoted with
  | nil => exact .none .nil
  | @last w after style blank =>
      have ends : WordEnds after := by
        cases after with
        | nil => exact Or.inl rfl
        | cons c gap => exact Or.inr ⟨c, gap, rfl, blank c (by simp)⟩
      have whole := Arguments.word .nil (style.quote_word w) ends (.none blank.gap)
      exact whole
  | @cons w w' gap s args style blank apart rest ih =>
      have whole := Arguments.word .nil (style.quote_word w) (blank.wordEnds apart)
        (blank.gap.append_arguments ih)
      exact whole

/-- A line denotes the arguments that were quoted. -/
theorem Line.arguments {args : List (List UInt8)} {s : List UInt8} (line : Line args s) :
    Arguments s args := by
  cases line with
  | mk blank quoted => exact blank.gap.append_arguments quoted.arguments

/-! ### Quoting brings no NUL -/

theorem Style.quote_noNul (style : Style) {w : List UInt8} (noNul : eos ∉ w) :
    eos ∉ style.quote w := by
  have single : eos ∉ w.flatMap singleByte := by
    intro inside
    obtain ⟨c, member, made⟩ := List.mem_flatMap.mp inside
    unfold singleByte at made
    split at made
    · revert made
      decide
    · exact noNul (List.mem_singleton.mp made ▸ member)
  have double : eos ∉ w.flatMap doubleByte := by
    intro inside
    obtain ⟨c, member, made⟩ := List.mem_flatMap.mp inside
    have same : eos = c := by
      unfold doubleByte at made
      split at made
      · rcases List.mem_cons.mp made with backslash | here
        · exact absurd backslash (by decide)
        · exact List.mem_singleton.mp here
      · exact List.mem_singleton.mp made
    exact noNul (same ▸ member)
  cases style with
  | single =>
      have ends : eos ≠ sq := by decide
      simp [Style.quote, ends, single]
  | double =>
      have ends : eos ≠ dq := by decide
      simp [Style.quote, ends, double]

theorem Blank.noNul {gap : List UInt8} (blank : Blank gap) : eos ∉ gap := by
  intro inside
  exact absurd (blank eos inside) (by decide)

theorem Quoted.noNul {args : List (List UInt8)} {s : List UInt8} (quoted : Quoted args s)
    (noNul : ∀ w ∈ args, eos ∉ w) : eos ∉ s := by
  induction quoted with
  | nil => simp
  | @last w after style blank =>
      have here := style.quote_noNul (noNul w (by simp))
      simp [here, blank.noNul]
  | @cons w w' gap s args style blank apart rest ih =>
      have here := style.quote_noNul (noNul w (by simp))
      have later := ih fun u member => noNul u (List.mem_cons_of_mem w member)
      simp [here, blank.noNul, later]

theorem Line.noNul {args : List (List UInt8)} {s : List UInt8} (line : Line args s)
    (noNul : ∀ w ∈ args, eos ∉ w) : eos ∉ s := by
  cases line with
  | mk blank quoted => simp [blank.noNul, quoted.noNul noNul]

/-! ### The vector after arguments that fit -/

/-- Arguments for which there are slots, and room in the buffer, follow the ones that are there. -/
theorem storeAll_fitting {argvSz : Nat} (slots : Slots) {args : List (List UInt8)}
    (short : ∀ w ∈ args, w.length ≤ maxArgLen - 1) (allocated : argvSz ≤ slots.argv.length)
    (fits : slots.argc + args.length ≤ argvSz) :
    slots.storeAll argvSz args =
      { slots with
        argc := slots.argc + args.length
        argv := slots.argv.take slots.argc ++ args ++ slots.argv.drop (slots.argc + args.length) } := by
  induction args generalizing slots with
  | nil => simp [Slots.storeAll]
  | cons w args ih =>
      have room : slots.argc < argvSz := by
        rw [List.length_cons] at fits
        omega
      have whole : cut w = w := List.take_of_length_le (short w (by simp))
      have flagless : truncFlag w = 0 := by
        have long := short w (by simp)
        unfold truncFlag
        exact if_neg (by omega)
      have stored : slots.store argvSz w =
          { slots with argv := slots.argv.set slots.argc w, argc := slots.argc + 1 } := by
        unfold Slots.store
        rw [if_pos room, whole, flagless, Nat.or_zero]
      have long : slots.argc < slots.argv.length := Nat.lt_of_lt_of_le room allocated
      rw [storeAll_cons, stored, ih _ (fun u member => short u (List.mem_cons_of_mem w member))
        (by simpa using allocated) (by rw [List.length_cons] at fits; simp only; omega)]
      have front : (slots.argv.set slots.argc w).take (slots.argc + 1) =
          slots.argv.take slots.argc ++ [w] := by
        rw [List.take_add_one, List.take_set_of_le (Nat.le_refl _), List.getElem?_set_self long]
        rfl
      have back : (slots.argv.set slots.argc w).drop (slots.argc + 1 + args.length) =
          slots.argv.drop (slots.argc + 1 + args.length) := List.drop_set_of_lt (by omega)
      have count : slots.argc + 1 + args.length = slots.argc + (w :: args).length := by
        rw [List.length_cons]
        omega
      simp only [front, back]
      simp only [count, List.append_assoc, List.cons_append, List.nil_append]

/-- Whatever list of arguments a line quotes, one by one in either kind of quotes and with any blanks
between and around them, `split_quoted` reports nothing and appends these arguments, as long as each
fits the argument buffer and all of them the free slots. -/
theorem quoting_round_trip {strdupOk : Nat → Bool} (strdupNeverFails : ∀ k, strdupOk k = true)
    {args : List (List UInt8)} {s : List UInt8} (line : Line args s)
    (noNul : ∀ w ∈ args, eos ∉ w) (short : ∀ w ∈ args, w.length ≤ maxArgLen - 1)
    {argc argvSz : Nat} {argv : List (List UInt8)} (allocated : argvSz ≤ argv.length)
    (fits : argc + args.length ≤ argvSz) :
    splitQuoted strdupOk s argc argv argvSz =
      .returned 0 (argc + args.length)
        (argv.take argc ++ args ++ argv.drop (argc + args.length)) := by
  rw [splitQuoted_arguments (line.noNul noNul) line.arguments argc argv
    fun k _ _ => strdupNeverFails k]
  rw [storeAll_fitting ⟨0, argv, argc⟩ short allocated fits]
  rfl

/-- The arguments `a'` and the empty one, between blanks, the first in single quotes. -/
theorem quoting_round_trip_two :
    splitQuoted (fun _ => true)
        ([0x20] ++ (Style.single.quote [0x61, sq] ++ ([0x09] ++ (Style.double.quote [] ++ [nl])))) 0
        [[], []] 2 =
      .returned 0 2 ([] ++ [[0x61, sq], []] ++ []) :=
  quoting_round_trip (fun _ => rfl : ∀ k, (fun _ : Nat => true) k = true)
    (.mk (by decide) (.cons .single (by decide) (by decide) (.last .double (by decide))))
    (by decide) (by decide) (by decide) (by decide)

/-! ### Two strings with a space between them -/

/-- The slots with `f` raised among the flags. -/
def Slots.raise (f : Nat) (slots : Slots) : Slots := { slots with flags := f ||| slots.flags }

theorem store_raise {argvSz : Nat} (f : Nat) (slots : Slots) (w : List UInt8) :
    (slots.raise f).store argvSz w = (slots.store argvSz w).raise f := by
  by_cases room : slots.argc < argvSz
  · simp only [Slots.store, Slots.raise, if_pos room, Nat.or_assoc]
  · simp only [Slots.store, Slots.raise, if_neg room, Nat.or_assoc]

theorem tryStore_raise {strdupOk : Nat → Bool} {argvSz : Nat} (f : Nat) (slots : Slots)
    (w : List UInt8) :
    (slots.raise f).tryStore strdupOk argvSz w =
      (slots.tryStore strdupOk argvSz w).map (Slots.raise f) := by
  unfold Slots.tryStore
  rw [store_raise]
  by_cases refused : slots.argc < argvSz ∧ strdupOk slots.argc = false
  · rw [if_pos refused]
    exact if_pos refused
  · rw [if_neg refused]
    exact if_neg refused

/-- Flags that are there before the call take no part in it. -/
theorem tryStoreAll_raise {strdupOk : Nat → Bool} {argvSz : Nat} (f : Nat)
    (next : Slots → SplitResult) (slots : Slots) (args : List (List UInt8)) :
    Slots.andThen next ((slots.raise f).tryStoreAll strdupOk argvSz args) =
      Slots.andThen (fun slots' => next (slots'.raise f))
        (slots.tryStoreAll strdupOk argvSz args) := by
  induction args generalizing slots with
  | nil => rfl
  | cons w args ih =>
      rw [andThen_cons, andThen_cons, tryStore_raise]
      cases slots.tryStore strdupOk argvSz w with
      | none => rfl
      | some slots' => exact ih slots'

/-- A call on any string stores some words, as far as they can be copied, and then fails or not; which
words, and whether it fails, depends on the string alone. -/
theorem splitLoop_stores (strdupOk : Nat → Bool) (argvSz : Nat) {s : List UInt8} (noNul : eos ∉ s) :
    ∃ failed stored, ∀ qc slots, splitLoop strdupOk argvSz (holding s [] .delim qc slots) =
      Slots.andThen (Slots.returned failed) (slots.tryStoreAll strdupOk argvSz stored) := by
  rcases arguments_or_malformed s with ⟨args, wellFormed⟩ | malformed
  · exact ⟨false, args, fun qc slots => arguments_run strdupOk argvSz qc slots wellFormed noNul⟩
  · obtain ⟨before, args, tail, wellFormed, opened, rfl⟩ := malformed
    obtain ⟨stored, run⟩ := malformed_run strdupOk argvSz wellFormed opened noNul
    exact ⟨true, stored, run⟩

/-- Where a first call did not fail, a second call on another string and the same vector leaves what
one call on both strings with a space between them leaves. The one call fails exactly when the second
of the two does, be it for the string or for want of memory, and otherwise it reports what either of
the two reports. -/
theorem split_additive (strdupOk : Nat → Bool) {s₁ s₂ : List UInt8} (noNul₁ : eos ∉ s₁)
    (noNul₂ : eos ∉ s₂) {argc argvSz : Nat} {argv : List (List UInt8)} {r₁ : Int} {argc₁ : Nat}
    {argv₁ : List (List UInt8)}
    (first : (splitQuoted strdupOk s₁ argc argv argvSz).returns = some (r₁, argc₁, argv₁))
    (fine : 0 ≤ r₁) :
    ∃ r₂ r argc₂ argv₂,
      (splitQuoted strdupOk s₂ argc₁ argv₁ argvSz).returns = some (r₂, argc₂, argv₂) ∧
      (splitQuoted strdupOk (s₁ ++ 0x20 :: s₂) argc argv argvSz).returns =
        some (r, argc₂, argv₂) ∧
      (r < 0 ↔ r₂ < 0) ∧
      (0 ≤ r₂ → r = ((r₁.toNat ||| r₂.toNat : Nat) : Int)) := by
  have ran : splitQuoted strdupOk s₁ argc argv argvSz = .returned r₁ argc₁ argv₁ := by
    cases outcome : splitQuoted strdupOk s₁ argc argv argvSz with
    | returned r argc' argv' =>
        rw [outcome] at first
        cases first
        rfl
    | outOfMem argc' argv' =>
        rw [outcome] at first
        cases first
        exact absurd fine (by decide)
    | assertFailed =>
        rw [outcome] at first
        cases first
  obtain ⟨args, wellFormed⟩ := arguments_of_returned noNul₁ ran (Int.not_lt.mpr fine)
  obtain ⟨flags, rfl, stored₁⟩ := stored_of_returned noNul₁ wellFormed ran
  obtain ⟨failed, words, calls⟩ := splitLoop_stores strdupOk argvSz noNul₂
  obtain ⟨qc, one⟩ := arguments_run_before strdupOk argvSz sq ⟨0, argv, argc⟩ wellFormed noNul₁
    (Or.inl rfl : Delimiter 0x20) s₂
  rw [stored₁, ← start_eq_holding] at one
  -- the one call goes on with the slots of the second call, the flags of the first raised
  have whole : splitQuoted strdupOk (s₁ ++ 0x20 :: s₂) argc argv argvSz =
      Slots.andThen (fun slots => Slots.returned failed (slots.raise flags))
        (Slots.tryStoreAll strdupOk argvSz ⟨0, argv₁, argc₁⟩ words) := by
    have entered : (⟨flags, argv₁, argc₁⟩ : Slots) = Slots.raise flags ⟨0, argv₁, argc₁⟩ := by
      simp [Slots.raise]
    rw [← tryStoreAll_raise, ← entered, ← calls qc]
    exact one
  have second : splitQuoted strdupOk s₂ argc₁ argv₁ argvSz =
      Slots.andThen (Slots.returned failed)
        (Slots.tryStoreAll strdupOk argvSz ⟨0, argv₁, argc₁⟩ words) := by
    unfold splitQuoted
    rw [start_eq_holding]
    exact calls sq ⟨0, argv₁, argc₁⟩
  rw [whole, second]
  cases Slots.tryStoreAll strdupOk argvSz ⟨0, argv₁, argc₁⟩ words with
  | error slots => exact ⟨-1, -1, slots.argc, slots.argv, rfl, rfl, Iff.rfl, fun h => absurd h (by decide)⟩
  | ok slots =>
      cases failed with
      | true => exact ⟨-1, -1, slots.argc, slots.argv, rfl, rfl, Iff.rfl, fun h => absurd h (by decide)⟩
      | false =>
          refine ⟨slots.flags, (flags ||| slots.flags : Nat), slots.argc, slots.argv, rfl, rfl, ?_,
            fun _ => rfl⟩
          constructor
          · intro negative
            exact absurd (Int.natCast_nonneg _) (Int.not_le.mpr negative)
          · intro negative
            exact absurd (Int.natCast_nonneg _) (Int.not_le.mpr negative)

/-- The word `a`, with a backslash-newline at its end, before the word `b`. -/
theorem split_additive_joined :
    ∃ r₂ r argc₂ argv₂,
      (splitQuoted (fun _ => true) [0x62] 1 [[0x61], []] 2).returns = some (r₂, argc₂, argv₂) ∧
      (splitQuoted (fun _ => true) ([0x61, bs, nl] ++ 0x20 :: [0x62]) 0 [[], []] 2).returns =
        some (r, argc₂, argv₂) ∧
      (r < 0 ↔ r₂ < 0) ∧
      (0 ≤ r₂ → r = (((0 : Int).toNat ||| r₂.toNat : Nat) : Int)) := by
  have word : Word ([0x61] ++ [bs, nl]) ([0x61] ++ []) :=
    .mk (.plain (by decide)) (.joined .nil)
  have wellFormed : Arguments [0x61, bs, nl] [[0x61]] :=
    .word .nil word (Or.inl rfl) (.none .nil)
  refine split_additive (fun _ => true) (by decide) (by decide) ?_ (by decide)
  rw [splitQuoted_arguments (by decide) wellFormed 0 [[], []] fun _ _ _ => rfl]
  rfl

end Ppcom.Split
