/-
Module: Ppcom.Proofs.MapLists
Purpose: What `parse_map` makes of a list of names: the flags of the names in it, whatever their order and
  however often they stand there, and -1 where something else stands there. So it turns a list that
  continues another into an `or`, and reads back what `print_map` prints.
Trusted boundary: none
Main exports: mapTokens, parseMap_tokens, parseMap_append, parseMap_printMapLine, parse_map_laws
-/
import Ppcom.CharMap

namespace Ppcom

/-! ### Tokens -/

/-- The tokens of a list: what stands between commas, spaces and tabs, as far as it is not empty. -/
def mapTokens (s : List UInt8) : List (List UInt8) := (s.splitOnP isMapDelim).filter (· ≠ [])

theorem strtokFrom_eq (delim : UInt8 → Bool) (token s : List UInt8) :
    strtokFrom delim token s =
      (List.splitOnPPrepend delim s token.reverse).filter (· ≠ []) := by
  induction s generalizing token with
  | nil =>
      rw [strtokFrom, List.splitOnPPrepend_nil, List.reverse_reverse]
      by_cases empty : token = []
      · simp [empty]
      · simp [empty]
  | cons c rest ih =>
      rw [strtokFrom]
      by_cases separates : delim c = true
      · have start := ih []
        rw [List.reverse_nil] at start
        rw [if_pos separates, List.splitOnPPrepend_cons_pos separates, List.reverse_reverse,
          ← List.splitOnPPrepend_nil_right, start]
        by_cases empty : token = []
        · simp [empty]
        · simp [empty]
      · rw [if_neg separates, List.splitOnPPrepend_cons_neg (by simpa using separates), ih,
          List.reverse_append]
        rfl

theorem strtok_tokens (s : List UInt8) : strtok isMapDelim s = mapTokens s := by
  unfold strtok mapTokens
  rw [strtokFrom_eq, List.reverse_nil, List.splitOnPPrepend_nil_right]

/-- A delimiter separates the tokens before it from those behind it. -/
theorem mapTokens_append {d : UInt8} (delimiter : isMapDelim d = true) (s t : List UInt8) :
    mapTokens (s ++ d :: t) = mapTokens s ++ mapTokens t := by
  unfold mapTokens
  rw [List.splitOnP_append_cons _ _ delimiter, List.filter_append]

/-! ### Flags -/

/-- The flags of a list of names. -/
def tokenFlags : List (List UInt8) → Option Word
  | [] => some 0
  | t :: ts => (mapNames.lookup t).bind fun flag => (tokenFlags ts).map (flag ||| ·)

theorem foldlM_tokenFlags (flags : Word) (ts : List (List UInt8)) :
    ts.foldlM (fun flags t => (mapNames.lookup t).map (flags ||| ·)) flags =
      (tokenFlags ts).map (flags ||| ·) := by
  induction ts generalizing flags with
  | nil => simp [tokenFlags]
  | cons t ts ih =>
      rw [List.foldlM_cons, tokenFlags]
      cases mapNames.lookup t with
      | none => rfl
      | some flag =>
          show ts.foldlM _ (flags ||| flag) = ((tokenFlags ts).map (flag ||| ·)).map (flags ||| ·)
          rw [ih, Option.map_map]
          congr 1
          funext later
          exact BitVec.or_assoc ..

theorem parseMap_tokens (s : List UInt8) : parseMap s = tokenFlags (mapTokens s) := by
  unfold parseMap
  rw [foldlM_tokenFlags, strtok_tokens]
  cases tokenFlags (mapTokens s) <;> simp

theorem tokenFlags_append (ts us : List (List UInt8)) :
    tokenFlags (ts ++ us) =
      (tokenFlags ts).bind fun first => (tokenFlags us).map (first ||| ·) := by
  induction ts with
  | nil =>
      rw [List.nil_append, tokenFlags, Option.bind_some]
      cases tokenFlags us <;> simp
  | cons t ts ih =>
      rw [List.cons_append, tokenFlags, tokenFlags, ih]
      cases mapNames.lookup t with
      | none => rfl
      | some flag =>
          cases tokenFlags ts with
          | none => rfl
          | some first =>
              cases tokenFlags us with
              | none => rfl
              | some second =>
                  show some (flag ||| (first ||| second)) = some ((flag ||| first) ||| second)
                  rw [BitVec.or_assoc]

/-- A list of names fails where one of them is none. -/
theorem tokenFlags_eq_none_iff (ts : List (List UInt8)) :
    tokenFlags ts = none ↔ ∃ t ∈ ts, mapNames.lookup t = none := by
  induction ts with
  | nil => simp [tokenFlags]
  | cons t ts ih =>
      rw [tokenFlags]
      cases known : mapNames.lookup t with
      | none => exact ⟨fun _ => ⟨t, by simp, known⟩, fun _ => rfl⟩
      | some flag =>
          rw [Option.bind_some, Option.map_eq_none_iff, ih]
          constructor
          · rintro ⟨u, member, unknown⟩
            exact ⟨u, List.mem_cons_of_mem t member, unknown⟩
          · rintro ⟨u, member, unknown⟩
            rcases List.mem_cons.mp member with rfl | later
            · rw [known] at unknown
              cases unknown
            · exact ⟨u, later, unknown⟩

/-- A flag is set where a name of it stands in the list. -/
theorem tokenFlags_getLsbD {ts : List (List UInt8)} {w : Word} (flags : tokenFlags ts = some w)
    (j : Nat) :
    w.getLsbD j = true ↔ ∃ t ∈ ts, ∃ flag, mapNames.lookup t = some flag ∧ flag.getLsbD j = true := by
  induction ts generalizing w with
  | nil =>
      cases flags
      simp
  | cons t ts ih =>
      rw [tokenFlags] at flags
      obtain ⟨flag, known, rest⟩ := Option.bind_eq_some_iff.mp flags
      obtain ⟨later, laterFlags, rfl⟩ := Option.map_eq_some_iff.mp rest
      rw [BitVec.getLsbD_or, Bool.or_eq_true, ih laterFlags]
      simp [known]

/-- Only what stands in a list counts, not where or how often. -/
theorem tokenFlags_congr {ts us : List (List UInt8)} (same : ∀ t, t ∈ ts ↔ t ∈ us) :
    tokenFlags ts = tokenFlags us := by
  cases first : tokenFlags ts with
  | none =>
      obtain ⟨t, member, unknown⟩ := (tokenFlags_eq_none_iff ts).mp first
      exact ((tokenFlags_eq_none_iff us).mpr ⟨t, (same t).mp member, unknown⟩).symm
  | some w =>
      cases second : tokenFlags us with
      | none =>
          obtain ⟨t, member, unknown⟩ := (tokenFlags_eq_none_iff us).mp second
          have fails := (tokenFlags_eq_none_iff ts).mpr ⟨t, (same t).mpr member, unknown⟩
          rw [first] at fails
          cases fails
      | some v =>
          congr 1
          apply BitVec.eq_of_getLsbD_eq
          intro j _
          rw [Bool.eq_iff_iff, tokenFlags_getLsbD first, tokenFlags_getLsbD second]
          simp only [same]

/-! ### Printed maps -/

theorem parseMap_append {d : UInt8} (delimiter : isMapDelim d = true) (s t : List UInt8) :
    parseMap (s ++ d :: t) = (parseMap s).bind fun first => (parseMap t).map (first ||| ·) := by
  rw [parseMap_tokens, parseMap_tokens, parseMap_tokens, mapTokens_append delimiter,
    tokenFlags_append]

/-- A name by itself is read as its flag. -/
theorem parseMap_name {i : Nat} (bound : i < mNflags) :
    parseMap ((mapNames[i]?.map Prod.fst).getD []) = some ((1 : Word) <<< i) := by
  have all : ∀ i : Fin 14, parseMap ((mapNames[i.val]?.map Prod.fst).getD []) =
      some ((1 : Word) <<< i.val) := by
    decide +kernel
  exact all ⟨i, bound⟩

theorem flag_eq_twoPow (i : Nat) : (1 : Word) <<< i = BitVec.twoPow 32 i :=
  (BitVec.twoPow_eq 32 i).symm

/-- A flag of a map is set where its bit is. -/
theorem hasFlag_iff (w : Word) {i : Nat} (bound : i < 32) :
    hasFlag w ((1 : Word) <<< i) ↔ w.getLsbD i = true := by
  unfold hasFlag
  rw [flag_eq_twoPow, BitVec.and_twoPow]
  cases w.getLsbD i with
  | false => simp
  | true =>
      have some : BitVec.twoPow 32 i ≠ 0 := by
        intro none
        have value := BitVec.toNat_twoPow_of_lt bound
        rw [none] at value
        exact absurd value.symm (Nat.two_pow_pos i).ne'
      exact ⟨fun _ => rfl, fun _ => some⟩

/-- The names of some flags, as they are printed, are read as these flags. -/
theorem parseMap_printed (w : Word) (is : List Nat) (bound : ∀ i ∈ is, i < mNflags) :
    ∃ flags, parseMap (is.flatMap fun i =>
        if w &&& ((1 : Word) <<< i) ≠ 0 then ((mapNames[i]?.map Prod.fst).getD []) ++ ascii "," else []) =
      some flags ∧ ∀ j, flags.getLsbD j = true ↔ j ∈ is ∧ w.getLsbD j = true := by
  induction is with
  | nil => exact ⟨0, rfl, by simp⟩
  | cons i is ih =>
      obtain ⟨later, read, bits⟩ := ih fun k member => bound k (List.mem_cons_of_mem i member)
      have small : i < mNflags := bound i (by simp)
      have narrow : i < 32 := Nat.lt_trans small (by decide)
      rw [List.flatMap_cons]
      by_cases set : hasFlag w ((1 : Word) <<< i)
      · have bit := (hasFlag_iff w narrow).mp set
        have comma : isMapDelim 0x2c = true := by decide
        refine ⟨(1 : Word) <<< i ||| later, ?_, ?_⟩
        · rw [if_pos set, List.append_assoc]
          have joined := parseMap_append comma ((mapNames[i]?.map Prod.fst).getD []) (is.flatMap fun i =>
            if w &&& ((1 : Word) <<< i) ≠ 0 then ((mapNames[i]?.map Prod.fst).getD []) ++ ascii "," else [])
          rw [parseMap_name small, read] at joined
          exact joined
        · intro j
          rw [BitVec.getLsbD_or, Bool.or_eq_true, bits, flag_eq_twoPow, BitVec.getLsbD_twoPow]
          constructor
          · rintro (here | ⟨member, set⟩)
            · have same : i = j := by simpa [narrow] using here
              subst same
              exact ⟨by simp, bit⟩
            · exact ⟨List.mem_cons_of_mem i member, set⟩
          · rintro ⟨member, set⟩
            rcases List.mem_cons.mp member with rfl | member
            · exact Or.inl (by simp [narrow])
            · exact Or.inr ⟨member, set⟩
      · refine ⟨later, ?_, ?_⟩
        · rw [if_neg set]
          exact read
        · intro j
          rw [bits j]
          constructor
          · rintro ⟨member, bit⟩
            exact ⟨List.mem_cons_of_mem i member, bit⟩
          · rintro ⟨member, bit⟩
            rcases List.mem_cons.mp member with rfl | member
            · exact absurd ((hasFlag_iff w narrow).mpr bit) set
            · exact ⟨member, bit⟩

/-- A word of the flags of `map_names` is read back from the line that it is printed as. -/
theorem parseMap_printMapLine {w : Word} (flags : w.toNat < 2 ^ mNflags) :
    parseMap (printMapLine w) = some w := by
  obtain ⟨v, read, bits⟩ := parseMap_printed w (List.range mNflags)
    fun i member => List.mem_range.mp member
  unfold printMapLine
  rw [read]
  congr 1
  apply BitVec.eq_of_getLsbD_eq
  intro j _
  rw [Bool.eq_iff_iff, bits, List.mem_range]
  refine ⟨fun both => both.2, fun set => ⟨?_, set⟩⟩
  by_contra high
  have below : w.toNat < 2 ^ j :=
    Nat.lt_of_lt_of_le flags (Nat.pow_le_pow_right (by decide) (Nat.not_lt.mp high))
  have clear : w.getLsbD j = false := Nat.testBit_lt_two_pow below
  rw [clear] at set
  cases set

/-! ### The laws -/

/-- `parse_map` takes a list that continues another to the `or` of the two, and to -1 where it takes one
of them there. It fails exactly on the lists in which something that is not a name stands. Lists with
the same tokens are the same to it, in whatever order, however often and with whatever delimiters they
stand there. What `print_map` prints it reads back. -/
theorem parse_map_laws :
    (∀ (s t : List UInt8) (d : UInt8), isMapDelim d = true →
      parseMap (s ++ d :: t) =
        (parseMap s).bind fun first => (parseMap t).map fun second => first ||| second) ∧
    (∀ s, parseMap s = none ↔ ∃ token ∈ mapTokens s, token ∉ mapNames.map Prod.fst) ∧
    (∀ s s', (∀ token, token ∈ mapTokens s ↔ token ∈ mapTokens s') → parseMap s = parseMap s') ∧
    (∀ w : Word, w.toNat < 2 ^ mNflags →
      ∃ line, printMap w = line ++ ascii "\n" ∧ parseMap line = some w) := by
  refine ⟨fun s t d delimiter => parseMap_append delimiter s t, fun s => ?_, fun s s' same => ?_,
    fun w flags => ⟨printMapLine w, rfl, parseMap_printMapLine flags⟩⟩
  · rw [parseMap_tokens, tokenFlags_eq_none_iff]
    simp only [List.lookup_eq_none_iff]
    constructor
    · rintro ⟨token, member, unknown⟩
      refine ⟨token, member, fun name => ?_⟩
      obtain ⟨entry, listed, rfl⟩ := List.mem_map.mp name
      simpa using unknown entry listed
    · rintro ⟨token, member, unknown⟩
      refine ⟨token, member, fun entry listed => ?_⟩
      have other : token ≠ entry.1 := fun same => unknown (same ▸ List.mem_map_of_mem listed)
      simpa using other
  · rw [parseMap_tokens, parseMap_tokens]
    exact tokenFlags_congr same

end Ppcom
