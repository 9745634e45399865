/-
Module: Ppcom.Proofs.HexText
Purpose: `hex2bin` against the strings of `Ppcom.Spec.HexText`. Every one of them is decoded where there
  is room for it. The converse holds up to the place where the buffer is full: what stands behind it is
  not looked at.
Trusted boundary: none
Main exports: hex2binLoop_text, hex2binLoop_accepts, hex2bin_decodes, hex2bin_exact_iff
-/
import Mathlib.Data.Fintype.Basic
import Ppcom.Spec.HexText

namespace Ppcom

/-! ### Digits and delimiters -/

theorem hexisdelim_iff {c : UInt8} : hexisdelim c = true ↔ HexDelim c := by
  simp [hexisdelim, HexDelim]

theorem HexDigit.lt {n : Nat} {c : UInt8} (digit : HexDigit n c) : n < 16 := by
  rcases digit with lower | upper
  · exact (List.getElem?_eq_some_iff.mp lower).1
  · exact (List.getElem?_eq_some_iff.mp upper).1

/-- `hex2byte` knows the digits of either case, and none of them is a delimiter. -/
theorem HexDigit.value {n : Nat} {c : UInt8} (digit : HexDigit n c) :
    hex2byte c = some (UInt8.ofNat n) ∧ hexisdelim c = false := by
  have all : ∀ n : Fin 16, ∀ digits ∈ [ascii "0123456789abcdef", ascii "0123456789ABCDEF"],
      digits[n.val]?.all (fun c =>
        decide (hex2byte c = some (UInt8.ofNat n) ∧ hexisdelim c = false)) = true := by
    decide +kernel
  have here := all ⟨n, digit.lt⟩
  rcases digit with lower | upper
  · have known := here (ascii "0123456789abcdef") (by simp)
    exact of_decide_eq_true ((Option.all_eq_true _ _).mp known c lower)
  · have known := here (ascii "0123456789ABCDEF") (by simp)
    exact of_decide_eq_true ((Option.all_eq_true _ _).mp known c upper)

/-- It knows no others. -/
theorem hexDigit_of_hex2byte {c b : UInt8} (value : hex2byte c = some b) :
    HexDigit b.toNat c := by
  have all : ∀ k : Fin 256, (hex2byte (UInt8.ofFin k)).all
      (fun b => decide (HexDigit b.toNat (UInt8.ofFin k))) = true := by
    decide +kernel
  have here := all c.toFin
  rw [show UInt8.ofFin c.toFin = c from rfl, value] at here
  exact of_decide_eq_true here

/-- Two digits packed into one byte. -/
theorem pack_toNat {high low : Nat} (highBound : high < 16) (lowBound : low < 16) :
    (UInt8.ofNat high <<< 4 ||| UInt8.ofNat low).toNat = 16 * high + low := by
  have all : ∀ high low : Fin 16,
      (UInt8.ofNat high <<< 4 ||| UInt8.ofNat low).toNat = 16 * high.val + low.val := by
    decide +kernel
  exact all ⟨high, highBound⟩ ⟨low, lowBound⟩

/-- What `hex2byte` makes of two digits is a group. -/
theorem group_of_hex2byte {c d b0 b1 : UInt8} (high : hex2byte c = some b0)
    (low : hex2byte d = some b1) :
    HexDigit b0.toNat c ∧ HexDigit b1.toNat d ∧
      (b0 <<< 4 ||| b1).toNat = 16 * b0.toNat + b1.toNat := by
  have first := hexDigit_of_hex2byte high
  have second := hexDigit_of_hex2byte low
  have packed := pack_toNat first.lt second.lt
  rw [UInt8.ofNat_toNat, UInt8.ofNat_toNat] at packed
  exact ⟨first, second, packed⟩

/-! ### The loop on one group, and on one delimiter -/

section Loop

variable {sz : Int} {i : Nat}

theorem hex2binLoop_full (full : ¬ (i : Int) < sz) (str : List UInt8) :
    hex2binLoop sz i str = ((i : Int), []) := by
  unfold hex2binLoop
  cases str with
  | nil => rfl
  | cons c rest => exact if_pos full

/-- Delimiters are skipped; where the buffer is full this is so because nothing is read. -/
theorem hex2binLoop_delim {c : UInt8} (delimiter : HexDelim c) (rest : List UInt8) :
    hex2binLoop sz i (c :: rest) = hex2binLoop sz i rest := by
  by_cases room : (i : Int) < sz
  · conv_lhs => unfold hex2binLoop
    rw [if_neg (not_not.mpr room), if_pos (hexisdelim_iff.mpr delimiter)]
  · rw [hex2binLoop_full room, hex2binLoop_full room]

theorem hex2binLoop_group {c d b : UInt8} {high low : Nat} (first : HexDigit high c)
    (second : HexDigit low d) (value : b.toNat = 16 * high + low) (room : (i : Int) < sz)
    (rest : List UInt8) :
    hex2binLoop sz i (c :: d :: rest) =
      ((hex2binLoop sz (i + 1) rest).1, (i, b) :: (hex2binLoop sz (i + 1) rest).2) := by
  have packed : UInt8.ofNat high <<< 4 ||| UInt8.ofNat low = b := by
    apply UInt8.toNat_inj.mp
    rw [pack_toNat first.lt second.lt, value]
  conv_lhs => unfold hex2binLoop
  rw [if_neg (not_not.mpr room), if_neg (by simp [first.value.2])]
  simp only [first.value.1, second.value.1, packed]

/-- A byte that is neither a delimiter nor the first of two digits makes the call fail. -/
theorem hex2binLoop_garbage {c : UInt8} {rest : List UInt8} (room : (i : Int) < sz)
    (notDelim : ¬ HexDelim c)
    (notGroup : ∀ b0 d b1 left, hex2byte c = some b0 → rest = d :: left → hex2byte d ≠ some b1) :
    hex2binLoop sz i (c :: rest) = (-1, []) := by
  unfold hex2binLoop
  rw [if_neg (not_not.mpr room), if_neg (fun h => notDelim (hexisdelim_iff.mp h))]
  cases high : hex2byte c with
  | none => rfl
  | some b0 =>
      cases rest with
      | nil => rfl
      | cons d left =>
          cases low : hex2byte d with
          | none => simp only [low]
          | some b1 => exact absurd low (notGroup b0 d b1 left high rfl)

/-- A string before others: its bytes are stored, if there is room for them, and the loop goes on. -/
theorem hex2binLoop_text {pre bs : List UInt8} (text : HexText pre bs)
    (fits : ((i + bs.length : Nat) : Int) ≤ sz) (rest : List UInt8) :
    hex2binLoop sz i (pre ++ rest) =
      ((hex2binLoop sz (i + bs.length) rest).1,
        Stores.block i bs ++ (hex2binLoop sz (i + bs.length) rest).2) := by
  induction text generalizing i with
  | nil => rfl
  | delim delimiter _ ih =>
      rw [List.cons_append, hex2binLoop_delim delimiter]
      exact ih fits
  | @group c d b high low str bs first second value _ ih =>
      rw [List.length_cons] at fits
      have place : i + 1 + bs.length = i + (b :: bs).length := by
        rw [List.length_cons]
        omega
      rw [List.cons_append, List.cons_append,
        hex2binLoop_group first second value (by omega) (str ++ rest), ih (by omega), place]
      rfl

/-- The loop fails, or what it stored is what the string denotes up to where it stopped: at its end, or
at a full buffer. -/
theorem hex2binLoop_accepts (within : (i : Int) ≤ sz) (str : List UInt8) :
    (hex2binLoop sz i str).1 = -1 ∨
      ∃ pre rest bs, str = pre ++ rest ∧ HexText pre bs ∧
        hex2binLoop sz i str = (((i + bs.length : Nat) : Int), Stores.block i bs) ∧
        ((i + bs.length : Nat) : Int) ≤ sz ∧ (rest = [] ∨ ((i + bs.length : Nat) : Int) = sz) := by
  induction length : str.length using Nat.strongRecOn generalizing str i with
  | ind n ih =>
      by_cases room : (i : Int) < sz
      case neg =>
        rw [hex2binLoop_full room]
        exact Or.inr ⟨[], str, [], rfl, .nil, rfl, within,
          Or.inr (Int.le_antisymm within (not_lt.mp room))⟩
      cases str with
      | nil => exact Or.inr ⟨[], [], [], rfl, .nil, rfl, within, Or.inl rfl⟩
      | cons c rest =>
          by_cases delimiter : HexDelim c
          · rw [hex2binLoop_delim delimiter]
            have shorter : rest.length < n := by rw [← length]; simp
            rcases ih rest.length shorter within rest rfl with
              failed | ⟨pre, left, bs, rfl, text, run⟩
            · exact Or.inl failed
            · exact Or.inr ⟨c :: pre, left, bs, rfl, .delim delimiter text, run⟩
          by_cases group : ∃ b0 d b1 left,
              hex2byte c = some b0 ∧ rest = d :: left ∧ hex2byte d = some b1
          · obtain ⟨b0, d, b1, left, high, rfl, low⟩ := group
            obtain ⟨first, second, value⟩ := group_of_hex2byte high low
            have step := hex2binLoop_group first second value room left
            have shorter : left.length < n := by
              rw [← length, List.length_cons, List.length_cons]
              omega
            rw [step]
            rcases ih left.length shorter (i := i + 1) (by omega) left rfl with
              failed | ⟨pre, behind, bs, rfl, text, run, fits, stopped⟩
            · exact Or.inl failed
            · have place : i + 1 + bs.length = i + ((b0 <<< 4 ||| b1) :: bs).length := by
                rw [List.length_cons]
                omega
              rw [place] at run fits stopped
              refine Or.inr ⟨c :: d :: pre, behind, _, rfl, .group first second value text, ?_, fits,
                stopped⟩
              rw [run]
              rfl
          · have failed : hex2binLoop sz i (c :: rest) = (-1, []) := by
              apply hex2binLoop_garbage room delimiter
              intro b0 d b1 left high eq low
              exact group ⟨b0, d, b1, left, high, eq, low⟩
            exact Or.inl (by rw [failed])

end Loop

/-- The loop that collects bytes and the one that stores them do the same. -/
theorem hex2binFrom_loop (sz : Nat) (buf str : List UInt8) :
    (∀ out, hex2binFrom sz buf str = some out → ∃ bs, out = buf ++ bs ∧
      hex2binLoop sz buf.length str = ((out.length : Int), Stores.block buf.length bs)) ∧
    (hex2binFrom sz buf str = none → (hex2binLoop sz buf.length str).1 = -1) := by
  have stops : ∀ buf rest, hex2binLoop sz buf.length rest = ((buf.length : Int), []) →
      (∀ out, some buf = some out → ∃ bs, out = buf ++ bs ∧
        hex2binLoop sz buf.length rest = ((out.length : Int), Stores.block buf.length bs)) ∧
      (some buf = none → (hex2binLoop sz buf.length rest).1 = -1) := by
    intro buf rest run
    refine ⟨?_, fun impossible => ?_⟩
    · rintro out ⟨rfl⟩
      exact ⟨[], by simp, run⟩
    · cases impossible
  have fails : ∀ buf rest, hex2binLoop sz buf.length rest = (-1, []) →
      (∀ out, (none : Option (List UInt8)) = some out → ∃ bs, out = buf ++ bs ∧
        hex2binLoop sz buf.length rest = ((out.length : Int), Stores.block buf.length bs)) ∧
      ((none : Option (List UInt8)) = none → (hex2binLoop sz buf.length rest).1 = -1) := by
    intro buf rest run
    refine ⟨fun _ impossible => ?_, fun _ => by rw [run]⟩
    cases impossible
  fun_induction hex2binFrom sz buf str with
  | case1 buf => exact stops buf [] rfl
  | case2 buf c rest full =>
      exact stops buf _ (hex2binLoop_full (by omega) _)
  | case3 buf c rest room delimiter ih =>
      rw [hex2binLoop_delim (hexisdelim_iff.mp delimiter)]
      exact ih
  | case4 buf c rest room notDelim high =>
      refine fails buf _ (hex2binLoop_garbage (by omega) (mt hexisdelim_iff.mpr notDelim) ?_)
      intro b0 d b1 left value
      rw [high] at value
      cases value
  | case5 buf c room notDelim b0 high =>
      refine fails buf _ (hex2binLoop_garbage (by omega) (mt hexisdelim_iff.mpr notDelim) ?_)
      intro b0 d b1 left _ shape
      cases shape
  | case6 buf c room notDelim b0 d rest high low =>
      refine fails buf _ (hex2binLoop_garbage (by omega) (mt hexisdelim_iff.mpr notDelim) ?_)
      intro b0 e b1 left _ shape value
      injection shape with same _
      rw [← same, low] at value
      cases value
  | case7 buf c room notDelim b0 d rest high b1 low ih =>
      obtain ⟨first, second, value⟩ := group_of_hex2byte high low
      rw [hex2binLoop_group first second value (by omega)]
      rw [List.length_append, List.length_singleton] at ih
      refine ⟨fun out stored => ?_, ih.2⟩
      obtain ⟨bs, eq, run⟩ := ih.1 out stored
      refine ⟨(b0 <<< 4 ||| b1) :: bs, by rw [eq, List.append_assoc]; rfl, ?_⟩
      rw [run]
      rfl

/-- `hex2bin` as the prompts use it, and the stores that it makes. -/
theorem hex2bin_stores (sz : Nat) (str : List UInt8) :
    (∀ bs, hex2bin sz str = some bs → hex2binStores sz str = ((bs.length : Int), Stores.block 0 bs)) ∧
    (hex2bin sz str = none → (hex2binStores sz str).1 = -1) := by
  obtain ⟨stored, failed⟩ := hex2binFrom_loop sz [] str
  refine ⟨fun bs run => ?_, failed⟩
  obtain ⟨out, eq, loop⟩ := stored bs run
  rw [List.nil_append] at eq
  rw [eq] at loop ⊢
  exact loop

/-- What `hex2bin` does with a string for whose bytes there is room. -/
theorem hex2binStores_text {str bs : List UInt8} (text : HexText str bs) {sz : Int}
    (fits : (bs.length : Int) ≤ sz) :
    hex2binStores sz str = ((bs.length : Int), Stores.block 0 bs) := by
  have loop := @hex2binLoop_text sz 0 _ _ text (by rwa [Nat.zero_add]) []
  rw [List.append_nil, Nat.zero_add] at loop
  unfold hex2binStores
  rw [loop]
  simp [hex2binLoop]

/-- `hex2bin` decodes whatever denotes bytes for which there is room: it returns their number, stores
them one after the other from the start of the buffer, and leaves all other memory as it was. -/
theorem hex2bin_decodes {str bs : List UInt8} (text : HexText str bs) {sz : Int}
    (fits : (bs.length : Int) ≤ sz) :
    hex2binStores sz str = ((bs.length : Int), Stores.block 0 bs) ∧
      ∀ (buf : Nat → UInt8) (i : Nat),
        Stores.apply buf (hex2binStores sz str).2 i = (bs[i]?).getD (buf i) := by
  have run := hex2binStores_text text fits
  refine ⟨run, fun buf i => ?_⟩
  have placed := Stores.apply_block buf 0 bs i
  rw [Nat.zero_add] at placed
  rw [run, placed]

/-- The bytes of the manual's example, with their delimiters, into a buffer that they fill. -/
theorem hex2bin_decodes_manual :
    hex2binStores 4 (ascii "41 4243:44") = (4, Stores.block 0 [0x41, 0x42, 0x43, 0x44]) ∧
      ∀ (buf : Nat → UInt8) (i : Nat),
        Stores.apply buf (hex2binStores 4 (ascii "41 4243:44")).2 i =
          (([0x41, 0x42, 0x43, 0x44] : List UInt8)[i]?).getD (buf i) := by
  have text : HexText (ascii "41 4243:44") [0x41, 0x42, 0x43, 0x44] :=
    .group (show HexDigit 4 0x34 by decide) (show HexDigit 1 0x31 by decide) (by decide) <|
    .delim (by decide) <|
    .group (show HexDigit 4 0x34 by decide) (show HexDigit 2 0x32 by decide) (by decide) <|
    .group (show HexDigit 4 0x34 by decide) (show HexDigit 3 0x33 by decide) (by decide) <|
    .delim (by decide) <|
    .group (show HexDigit 4 0x34 by decide) (show HexDigit 4 0x34 by decide) (by decide) .nil
  exact hex2bin_decodes text (by decide)

/-! ### What the whole string denotes -/

/-- A string denotes at most one list of bytes, as there is a buffer that is large enough for two. -/
theorem HexText.unique {str bs bs' : List UInt8} (text : HexText str bs) (text' : HexText str bs') :
    bs = bs' := by
  have room : (bs.length : Int) ≤ bs.length + bs'.length := by omega
  have room' : (bs'.length : Int) ≤ bs.length + bs'.length := by omega
  have same := (hex2binStores_text text room).symm.trans (hex2binStores_text text' room')
  exact Stores.block_injective 0 (Prod.mk.inj same).2

theorem HexText.append_delims {str bs rest : List UInt8} (text : HexText str bs)
    (delims : ∀ c ∈ rest, HexDelim c) : HexText (str ++ rest) bs := by
  induction text with
  | nil =>
      induction rest with
      | nil => exact .nil
      | cons c rest ih =>
          exact .delim (delims c (by simp)) (ih fun d inside => delims d (List.mem_cons_of_mem c inside))
  | delim delimiter _ ih => exact .delim delimiter ih
  | group first second value _ ih => exact .group first second value ih

/-- What denotes nothing consists of delimiters. -/
theorem HexText.delims {str : List UInt8} (text : HexText str []) : ∀ c ∈ str, HexDelim c := by
  generalize none : ([] : List UInt8) = bs at text
  induction text with
  | nil => simp
  | delim delimiter _ ih =>
      intro c inside
      rcases List.mem_cons.mp inside with rfl | later
      · exact delimiter
      · exact ih none c later
  | group => cases none

/-- Where a string and its beginning denote the same bytes, only delimiters follow. -/
theorem HexText.delims_after {pre rest bs : List UInt8} (text : HexText pre bs)
    (whole : HexText (pre ++ rest) bs) : ∀ c ∈ rest, HexDelim c := by
  induction text with
  | nil => exact whole.delims
  | @delim c pre bs delimiter _ ih =>
      rw [List.cons_append] at whole
      generalize shape : c :: (pre ++ rest) = str at whole
      cases whole with
      | nil => cases shape
      | delim _ later =>
          cases shape
          exact ih later
      | group first _ _ _ =>
          injection shape with head _
          subst head
          have clash := first.value.2
          rw [hexisdelim_iff.mpr delimiter] at clash
          cases clash
  | @group c d b high low pre bs first second value _ ih =>
      rw [List.cons_append, List.cons_append] at whole
      generalize shape : c :: d :: (pre ++ rest) = str at whole
      generalize bytes : b :: bs = out at whole
      cases whole with
      | nil => cases shape
      | delim delimiter _ =>
          injection shape with head _
          subst head
          have clash := first.value.2
          rw [hexisdelim_iff.mpr delimiter] at clash
          cases clash
      | group _ _ _ later =>
          injection shape with _ shape
          injection shape with _ shape
          injection bytes with _ bytes
          rw [← shape, ← bytes] at later
          exact ih later

/-- A byte takes two digits. -/
theorem HexText.length_le {str bs : List UInt8} (text : HexText str bs) :
    2 * bs.length ≤ str.length := by
  induction text with
  | nil => exact Nat.le_refl 0
  | delim _ _ ih =>
      rw [List.length_cons]
      omega
  | group _ _ _ _ ih =>
      rw [List.length_cons, List.length_cons, List.length_cons]
      omega

/-- A string with nothing but delimiters behind the place at which the buffer is full is taken whole or
not at all. -/
theorem HexExact.of_clean {sz : Int} {str : List UInt8} (positive : 0 ≤ sz)
    (clean : ∀ pre rest bs, str = pre ++ rest → HexText pre bs → (bs.length : Int) = sz →
      ∀ c ∈ rest, HexDelim c) : HexExact sz str := by
  have whole : (hex2binStores sz str).1 = -1 ∨ ∃ bs, HexText str bs ∧ (bs.length : Int) ≤ sz ∧
      hex2binStores sz str = ((bs.length : Int), Stores.block 0 bs) := by
    rcases hex2binLoop_accepts (i := 0) positive str with
      failed | ⟨pre, rest, bs, eq, text, run, fits, stopped⟩
    · exact Or.inl failed
    rw [Nat.zero_add] at run fits stopped
    refine Or.inr ⟨bs, ?_, fits, run⟩
    rcases stopped with rfl | full
    · rw [eq, List.append_nil]
      exact text
    · rw [eq]
      exact text.append_delims (clean pre rest bs eq text full)
  refine ⟨?_, ?_, ?_⟩
  · intro n stores run accepted
    rw [run] at whole
    rcases whole with failed | ⟨bs, text, _, same⟩
    · rw [show n = -1 from failed] at accepted
      exact absurd accepted (by decide)
    · cases same
      exact ⟨bs, text, rfl, rfl⟩
  · intro malformed
    apply whole.resolve_right
    rintro ⟨bs, text, _⟩
    exact malformed ⟨bs, text⟩
  · intro bs text long
    apply whole.resolve_right
    rintro ⟨bs', text', fits, _⟩
    rw [text.unique text'] at long
    omega

/-- `hex2bin` treats a string as it should exactly where nothing but delimiters follows the place at
which the buffer is full. (A size below zero makes it return zero for every string.) -/
theorem hex2bin_exact_iff (sz : Int) (str : List UInt8) :
    HexExact sz str ↔
      0 ≤ sz ∧ ∀ pre rest bs, str = pre ++ rest → HexText pre bs → (bs.length : Int) = sz →
        ∀ c ∈ rest, HexDelim c := by
  constructor
  · intro exact_
    have positive : 0 ≤ sz := by
      by_contra negative
      have run : hex2binStores sz str = (0, []) := hex2binLoop_full (by omega) str
      have text : ∃ bs, HexText str bs := by
        by_contra malformed
        have failed := exact_.malformed malformed
        rw [run] at failed
        cases failed
      obtain ⟨bs, text⟩ := text
      have failed := exact_.tooLong bs text (by omega)
      rw [run] at failed
      cases failed
    refine ⟨positive, ?_⟩
    intro pre rest bs eq text fills
    have run : hex2binStores sz str = ((bs.length : Int), Stores.block 0 bs) := by
      have loop := @hex2binLoop_text sz 0 _ _ text (by omega) rest
      rw [Nat.zero_add, hex2binLoop_full (by omega) rest, List.append_nil] at loop
      rw [eq]
      exact loop
    obtain ⟨bs', whole, _, stores⟩ := exact_.accepted _ _ run (by omega)
    rw [← Stores.block_injective 0 stores, eq] at whole
    exact text.delims_after whole
  · rintro ⟨positive, clean⟩
    exact .of_clean positive clean

/-- The line of `n` groups `41`. -/
theorem hexText_replicate (n : Nat) :
    HexText (List.replicate n (ascii "41")).flatten (List.replicate n 0x41) := by
  induction n with
  | zero => exact .nil
  | succ n ih =>
      exact .group (show HexDigit 4 0x34 by decide) (show HexDigit 1 0x31 by decide) (by decide) ih

/-- A line of 129 groups at the prompt: `hex2bin` hands over 128 bytes and reports nothing. -/
theorem hex2bin_ignores_rest :
    ¬ HexExact hexbufSz (List.replicate 129 (ascii "41")).flatten := by
  intro exact_
  have failed := exact_.tooLong _ (hexText_replicate 129) (by simp [hexbufSz])
  have line : (List.replicate 129 (ascii "41")).flatten =
      (List.replicate 128 (ascii "41")).flatten ++ ascii "41" := by
    rw [List.replicate_succ', List.flatten_append, List.flatten_singleton]
  have run := @hex2binLoop_text hexbufSz 0 _ _ (hexText_replicate 128)
    (by simp [hexbufSz]) (ascii "41")
  rw [← line, hex2binLoop_full (by simp [hexbufSz]) (ascii "41")] at run
  unfold hex2binStores at failed
  rw [run] at failed
  simp at failed

/-- The lines that the prompt without `linenoise` takes are too short for that: it gives exactly the
bytes that the line denotes, and asks again exactly where the line denotes none. -/
theorem hex2bin_line_iff {line : List UInt8} (short : line.length ≤ 255) (bs : List UInt8) :
    hex2bin hexbufSz line = some bs ↔ HexText line bs := by
  have few : ∀ {pre rest bs}, line = pre ++ rest → HexText pre bs → bs.length < 128 := by
    intro pre rest bs eq text
    have digits := text.length_le
    rw [eq, List.length_append] at short
    omega
  have whole : HexExact hexbufSz line := by
    refine .of_clean (by decide) fun pre rest bs eq text fills => ?_
    have less := few eq text
    have count : bs.length = 128 := by exact_mod_cast fills
    omega
  obtain ⟨stored, failed⟩ := hex2bin_stores hexbufSz line
  constructor
  · intro read
    obtain ⟨bs', text, _, same⟩ := whole.accepted _ _ (stored bs read) (by omega)
    rw [Stores.block_injective 0 same]
    exact text
  · intro text
    have less := few (List.append_nil line).symm text
    have run := @hex2binStores_text _ _ text hexbufSz (by simp only [hexbufSz]; omega)
    cases read : hex2bin hexbufSz line with
    | none =>
        have negative := failed read
        rw [run] at negative
        omega
    | some bs' =>
        rw [stored bs' read] at run
        rw [Stores.block_injective 0 (Prod.mk.inj run).2]

end Ppcom
