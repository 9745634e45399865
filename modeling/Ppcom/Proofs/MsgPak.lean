/-
Module: Ppcom.Proofs.MsgPak
Purpose: What `deserialize` reads of any string, from what `find`, `substr` and `stoi` do. It reads back
  what `serialize` has written; of other strings it may take one with too few delimiters, or keep a
  first number although the second could not be read.
Trusted boundary: none
Main exports: stoi_cases, Parts.deserialize, msgPak_roundTrip, deserialize_atomic_iff,
  deserialize_not_atomic
-/
import Mathlib.Data.List.TakeWhile
import Ppcom.Proofs.LogName
import Ppcom.Proofs.Numeral
import Ppcom.Spec.Packed

namespace Ppcom

open Numeral

/-! ### Numbers -/

/-- What `strtol` has read and where it has stopped, for a string that starts with a number. -/
theorem strtolDecimal_startsWith {s blanks lit rest : List UInt8} {x : Int}
    (starts : StartsWith Decimal s blanks x lit rest) :
    strtolDecimal s = clipped x ∧ strtolDecimalEnd s = rest ∧ strtolDecimalEnd s ≠ s := by
  have run := strtolDecimal_eq s
  rcases decimalReader.strtol_cases s with ⟨-, none⟩ | ⟨blanks', y, lit', rest', starts', read⟩
  · exact absurd starts (none _ _ _ _)
  · obtain ⟨-, rfl, -, rfl⟩ := decimalReader.startsWith_unique starts' starts
    rw [read] at run
    obtain ⟨value, stop⟩ := Prod.mk.inj run
    refine ⟨value, stop, fun same => ?_⟩
    obtain ⟨c, t, rfl, -⟩ := decimalReader.literal_visible starts.value
    have text := congrArg List.length starts.text
    rw [← stop, same] at text
    simp only [List.length_append, List.length_cons] at text
    omega

theorem clipped_fits {x : Int} : -2 ^ 31 ≤ clipped x ∧ clipped x ≤ 2 ^ 31 - 1 ↔ Fits x := by
  unfold clipped Fits
  omega

theorem clipped_of_fits {x : Int} (fits : Fits x) : clipped x = x := by
  unfold Fits at fits
  unfold clipped
  omega

/-- `stoi` reads the number that a string starts with, or throws. -/
theorem stoi_cases (s : StdString) :
    (∃ v, stoi s = .ok v ∧ ∀ x, IntForm s.bytes x ↔ x = v.toInt) ∨
    ∃ e, stoi s = .error e ∧ ∀ x, ¬ IntForm s.bytes x := by
  have run := strtolDecimal_eq (cString s.bytes)
  rcases decimalReader.strtol_cases (cString s.bytes) with
    ⟨read, none⟩ | ⟨blanks, x, lit, rest, starts, -⟩
  · right
    rw [read] at run
    refine ⟨.invalidArgument, ?_, fun x ⟨blanks, lit, rest, starts, _⟩ => none _ _ _ _ starts⟩
    unfold stoi
    rw [if_pos (Prod.ext_iff.mp run).2]
  · obtain ⟨value, -, moved⟩ := strtolDecimal_startsWith starts
    have only : ∀ y, IntForm s.bytes y ↔ y = x ∧ Fits x := by
      intro y
      constructor
      · rintro ⟨_, _, _, starts', fits⟩
        obtain ⟨-, rfl, -, -⟩ := decimalReader.startsWith_unique starts' starts
        exact ⟨rfl, fits⟩
      · rintro ⟨rfl, fits⟩
        exact ⟨_, _, _, starts, fits⟩
    unfold stoi
    simp only [if_neg moved, value]
    by_cases fits : Fits x
    · left
      have range := clipped_fits.mpr fits
      refine ⟨.ofInt x, ?_, fun y => ?_⟩
      · rw [if_neg (by omega), clipped_of_fits fits]
      · rw [only, Int32.toInt_ofInt_of_le fits.1 fits.2]
        exact and_iff_left fits
    · right
      refine ⟨.outOfRange, ?_, fun y form => fits ((only y).mp form).2⟩
      have range := mt clipped_fits.mp fits
      rw [if_pos (by omega)]

/-! ### Positions -/

theorem npos_toNat : npos.toNat = 2 ^ 64 - 1 := rfl

section Positions

variable {s : StdString} {pos : UInt64} {c : UInt8} {before after : List UInt8}

theorem StdString.substr_eq (s : StdString) (pos n : UInt64) {part after : List UInt8}
    (behind : s.bytes.drop pos.toNat = part ++ after) (inside : pos.toNat ≤ s.bytes.length)
    (long : n.toNat = part.length ∨ part.length ≤ n.toNat ∧ after = []) :
    ∃ t, s.substr pos n = .ok t ∧ t.bytes = part := by
  unfold StdString.substr
  rw [if_neg (by omega)]
  refine ⟨_, rfl, ?_⟩
  dsimp only
  rw [behind]
  rcases long with same | ⟨long, rfl⟩
  · rw [same, List.take_left]
  · rw [List.append_nil, List.take_of_length_le long]

/-- To the end of the string. -/
theorem StdString.substr_rest (s : StdString) {pos n : UInt64} (inside : pos.toNat ≤ s.bytes.length)
    (long : s.bytes.length - pos.toNat ≤ n.toNat) :
    ∃ t, s.substr pos n = .ok t ∧ t.bytes = s.bytes.drop pos.toNat :=
  s.substr_eq pos n (List.append_nil _).symm inside (.inr ⟨by rwa [List.length_drop], rfl⟩)

/-- What `find` returns, and what is before and behind that position. -/
theorem StdString.find_cut (rest : s.bytes.drop pos.toNat = before ++ c :: after)
    (absent : c ∉ before) : (∃ t, s.substr pos (s.find c pos - pos) = .ok t ∧ t.bytes = before) ∧
      s.bytes.drop (s.find c pos + 1).toNat = after ∧
      (s.find c pos + 1).toNat ≤ s.bytes.length := by
  have short := s.short
  rw [npos_toNat] at short
  have length := congrArg List.length rest
  simp only [List.length_drop, List.length_append, List.length_cons] at length
  have index : (before ++ c :: after).findIdx? (· == c) = some before.length := by
    rw [List.findIdx?_append, List.findIdx?_eq_none_iff.mpr]
    · simp [List.findIdx?_cons]
    · intro d inside
      simp only [beq_eq_false_iff_ne]
      rintro rfl
      exact absent inside
  have found : s.find c pos = pos + .ofNat before.length := by
    unfold StdString.find
    rw [rest, index]
  have size : (UInt64.ofNat before.length).toNat = before.length := by
    apply UInt64.toNat_ofNat_of_lt'
    change _ < 2 ^ 64
    omega
  have next : (s.find c pos + 1).toNat = pos.toNat + (before.length + 1) := by
    rw [found, UInt64.toNat_add, UInt64.toNat_add, size]
    change ((_ + _) % 2 ^ 64 + 1) % 2 ^ 64 = _
    omega
  refine ⟨s.substr_eq pos _ rest (by omega) (.inl ?_), ?_, by omega⟩
  · rw [found, UInt64.add_comm, UInt64.add_sub_cancel, size]
  · rw [next, ← List.drop_drop, rest, List.append_cons]
    exact List.drop_left' (by simp)

/-- What `find` returns where there is nothing to find. -/
theorem StdString.find_miss (rest : c ∉ s.bytes.drop pos.toNat)
    (inside : pos.toNat ≤ s.bytes.length) : s.find c pos = npos ∧
      ∃ t, s.substr pos (npos - pos) = .ok t ∧ t.bytes = s.bytes.drop pos.toNat := by
  have short := s.short
  constructor
  · unfold StdString.find
    rw [List.findIdx?_eq_none_iff.mpr]
    intro d there
    simp only [beq_eq_false_iff_ne]
    rintro rfl
    exact rest there
  · apply s.substr_rest inside
    rw [UInt64.toNat_sub_of_le _ _ (UInt64.le_iff_toNat_le.mpr (by omega))]
    omega

end Positions

/-! ### The parts of a string -/

theorem Parts.exists (data : List UInt8) : ∃ first second rest, Parts data first second rest := by
  by_cases one : MsgPak.delim ∈ data
  · obtain ⟨first, more, rfl, absent⟩ := List.eq_append_cons_of_mem one
    by_cases other : MsgPak.delim ∈ more
    · obtain ⟨second, rest, rfl, absent'⟩ := List.eq_append_cons_of_mem other
      exact ⟨first, second, rest, .two absent absent'⟩
    · exact ⟨first, more, _, .one absent other⟩
  · exact ⟨data, data, data, .none one⟩

/-- The three strings that `deserialize` cuts out. -/
theorem Parts.substr {data : StdString} {first second rest : List UInt8}
    (parts : Parts data.bytes first second rest) :
    let firstDelim := data.find MsgPak.delim 0
    let secondDelim := data.find MsgPak.delim (firstDelim + 1)
    (∃ s, data.substr 0 firstDelim = .ok s ∧ s.bytes = first) ∧
    (∃ s, data.substr (firstDelim + 1) (secondDelim - firstDelim - 1) = .ok s ∧ s.bytes = second) ∧
    ∃ s, data.substr (secondDelim + 1) npos = .ok s ∧ s.bytes = rest := by
  have short := data.short
  have minus : ∀ p q : UInt64, p - q - 1 = p - (q + 1) := by
    intro p q
    grind
  have all : ∃ s, data.substr 0 npos = .ok s ∧ s.bytes = data.bytes :=
    data.substr_rest (Nat.zero_le _) short.le
  intro firstDelim secondDelim
  rw [minus]
  generalize is : data.bytes = bytes at parts
  have start : data.bytes.drop (0 : UInt64).toNat = bytes := is
  cases parts with
  | two one other =>
      obtain ⟨cut, more, -⟩ := StdString.find_cut start one
      obtain ⟨cut', rest, inside⟩ := StdString.find_cut more other
      rw [UInt64.sub_zero] at cut
      have last := data.substr_rest (n := npos) inside (by omega)
      rw [rest] at last
      exact ⟨cut, cut', last⟩
  | one one other =>
      obtain ⟨cut, more, inside⟩ := StdString.find_cut start one
      rw [← more] at other
      obtain ⟨missing, cut'⟩ := StdString.find_miss other inside
      have missed : secondDelim = npos := missing
      rw [UInt64.sub_zero] at cut
      rw [more] at cut'
      rw [missed, ← is]
      exact ⟨cut, cut', all⟩
  | none none =>
      rw [← start] at none
      have missed : firstDelim = npos := (StdString.find_miss none (Nat.zero_le _)).1
      have again : secondDelim = npos := by
        change data.find MsgPak.delim (firstDelim + 1) = npos
        rw [missed]
        exact missed
      rw [again, missed, ← is]
      exact ⟨all, all, all⟩

/-! ### `deserialize` -/

/-- The ways through `deserialize`. -/
theorem Parts.deserialize {data : StdString} {first second rest : List UInt8}
    (parts : Parts data.bytes first second rest) (m : MsgPak) :
    (∃ e, m.deserialize data = (m, some e) ∧ ∀ x, ¬ IntForm first x) ∨
    (∃ v e, m.deserialize data = ({ m with index := v }, some e) ∧
      (∀ x, IntForm first x ↔ x = v.toInt) ∧ ∀ x, ¬ IntForm second x) ∨
    ∃ v w r, m.deserialize data = (⟨v, w, r⟩, .none) ∧ r.bytes = rest ∧
      (∀ x, IntForm first x ↔ x = v.toInt) ∧ ∀ x, IntForm second x ↔ x = w.toInt := by
  obtain ⟨⟨f, cutFirst, rfl⟩, ⟨g, cutSecond, rfl⟩, ⟨r, cutRest, rfl⟩⟩ := parts.substr
  have run : ∀ {s : StdString} {pos n : UInt64}, data.substr pos n = .ok s →
      data.substr pos n >>= stoi = stoi s := by
    intro s pos n cut
    rw [cut]
    rfl
  unfold MsgPak.deserialize
  simp only [run cutFirst, run cutSecond, cutRest]
  rcases stoi_cases f with ⟨v, read, value⟩ | ⟨e, threw, none⟩
  · rcases stoi_cases g with ⟨w, read', value'⟩ | ⟨e, threw, none⟩
    · right; right
      simp only [read, read']
      exact ⟨v, w, r, rfl, rfl, value, value'⟩
    · right; left
      simp only [read, threw]
      exact ⟨v, e, rfl, value, none⟩
  · left
    simp only [threw]
    exact ⟨e, rfl, none⟩

/-- `deserialize` is atomic for a string and an object: it sets the fields from a packed message, or
throws and leaves the object. -/
def Atomic (m : MsgPak) (data : StdString) : Prop :=
  ((m.deserialize data).2 = none ∧ Packed data.bytes (m.deserialize data).1) ∨
    ((m.deserialize data).2 ≠ none ∧ (m.deserialize data).1 = m)

/-- What the first number that is read needs: a second one behind it, with both delimiters, or none and
to be there already. -/
def Harmless (m : MsgPak) (data : List UInt8) : Prop :=
  ∀ first second rest, Parts data first second rest → ∀ x, IntForm first x →
    (2 ≤ data.count MsgPak.delim ∧ ∃ y, IntForm second y) ∨
      (m.index.toInt = x ∧ ¬ ∃ y, IntForm second y)

theorem Packed.delims {data : List UInt8} {m : MsgPak} (packed : Packed data m) :
    2 ≤ data.count MsgPak.delim := by
  obtain ⟨first, second, rfl, -⟩ := packed
  simp only [List.count_append, List.count_cons_self]
  omega

/-- With both delimiters the parts are those of a packed message. -/
theorem Parts.packed {data first second rest : List UInt8} {m : MsgPak}
    (parts : Parts data first second rest) (delims : 2 ≤ data.count MsgPak.delim)
    (index : IntForm first m.index.toInt) (id : IntForm second m.id.toInt)
    (message : m.message.bytes = rest) : Packed data m := by
  cases parts with
  | two one other => exact ⟨first, second, by rw [message], one, other, index, id⟩
  | one one other =>
      rw [List.count_append, List.count_cons_self, List.count_eq_zero_of_not_mem one,
        List.count_eq_zero_of_not_mem other] at delims
      omega
  | none none =>
      rw [List.count_eq_zero_of_not_mem none] at delims
      omega

/-- `deserialize` is atomic for exactly the strings and objects for which the number that is read
first does no harm. -/
theorem deserialize_atomic_iff (m : MsgPak) (data : StdString) :
    Atomic m data ↔ Harmless m data.bytes := by
  unfold Atomic
  constructor
  · intro atomic first second rest parts x form
    rcases parts.deserialize m with
      ⟨e, run, none⟩ | ⟨v, e, run, value, none⟩ | ⟨v, w, r, run, -, value, value'⟩
    · exact absurd form (none x)
    · rw [run] at atomic
      rcases atomic with ⟨quiet, -⟩ | ⟨-, same⟩
      · cases quiet
      · right
        refine ⟨?_, fun ⟨y, form'⟩ => none y form'⟩
        rw [(value x).mp form]
        exact congrArg (fun m => m.index.toInt) same.symm
    · rw [run] at atomic
      rcases atomic with ⟨-, packed⟩ | ⟨threw, -⟩
      · exact .inl ⟨packed.delims, w.toInt, (value' _).mpr rfl⟩
      · exact absurd rfl threw
  · intro harmless
    obtain ⟨first, second, rest, parts⟩ := Parts.exists data.bytes
    rcases parts.deserialize m with
      ⟨e, run, none⟩ | ⟨v, e, run, value, none⟩ | ⟨v, w, r, run, message, value, value'⟩
    · rw [run]
      exact .inr ⟨nofun, rfl⟩
    · have first := (value _).mpr rfl
      rcases harmless _ _ _ parts _ first with ⟨-, y, form⟩ | ⟨same, -⟩
      · exact absurd form (none y)
      · rw [run]
        refine .inr ⟨nofun, ?_⟩
        rw [← Int32.toInt_inj.mp same]
    · have first := (value _).mpr rfl
      have second := (value' _).mpr rfl
      rcases harmless _ _ _ parts _ first with ⟨delims, -⟩ | ⟨-, none⟩
      · rw [run]
        exact .inl ⟨rfl, parts.packed delims first second message⟩
      · exact absurd ⟨_, second⟩ none

/-- One delimiter is missing, and the string is accepted. -/
theorem deserialize_not_atomic : ¬ ∀ (m : MsgPak) (data : StdString), Atomic m data := by
  intro claim
  have accepted : (MsgPak.deserialize ⟨0, 0, ⟨[], by decide⟩⟩ ⟨ascii "5|7", by decide⟩).2 = none := by
    decide +kernel
  rcases claim ⟨0, 0, ⟨[], by decide⟩⟩ ⟨ascii "5|7", by decide⟩ with ⟨-, packed⟩ | ⟨threw, -⟩
  · exact absurd packed.delims (by decide)
  · exact threw accepted

/-! ### `serialize` -/

theorem digits_toDigits (n : Nat) :
    Digits HexDigit 10 n ((Nat.toDigits 10 n).map fun c => c.toNat.toUInt8) := by
  have last : ∀ d < 10, HexDigit d (Nat.digitChar d).toNat.toUInt8 := by decide
  induction n using Nat.strongRecOn with
  | ind n ih =>
      by_cases small : n < 10
      · rw [Nat.toDigits_of_lt_base small]
        simpa using Digits.snoc .nil (last n small) small
      · have before := ih (n / 10) (by omega)
        have digits := Digits.snoc before (last (n % 10) (by omega)) (by omega)
        rw [Nat.toDigits_of_base_le (by decide) (by omega), List.map_append]
        rwa [Nat.div_add_mod'] at digits

/-- `to_string` writes the number. -/
theorem intToString_literal (value : Int32) : Literal Decimal value.toInt (intToString value) := by
  have decimal_zero : ∀ n, Decimal n (decimal 0 n) := by
    intro n
    have digits : decimal 0 n = (Nat.toDigits 10 n).map fun c => c.toNat.toUInt8 := by
      simp [decimal]
    rw [digits]
    exact ⟨by simp [Nat.toDigits_ne_nil], digits_toDigits n⟩
  have sign : value < 0 ↔ value.toInt < 0 := Int32.lt_iff_toInt_lt
  unfold intToString
  split
  · next negative =>
    have below := sign.mp negative
    have is : Literal Decimal (-(value.toInt.natAbs : Int)) _ := .minus (decimal_zero _)
    rwa [Int.ofNat_natAbs_of_nonpos below.le, Int.neg_neg] at is
  · next positive =>
    have above := mt sign.mpr positive
    have is : Literal Decimal (value.toInt.natAbs : Int) _ := .plain (decimal_zero _)
    rwa [Int.natAbs_of_nonneg (not_lt.mp above)] at is

theorem intToString_bytes {value : Int32} {c : UInt8} (inside : c ∈ intToString value) :
    0x2d ≤ c ∧ c ≤ 0x39 := by
  have digits : c ∈ decimal 0 value.toInt.natAbs → 0x2d ≤ c ∧ c ≤ 0x39 := fun printed =>
    ⟨UInt8.le_trans (by decide : (0x2d : UInt8) ≤ 0x30) (decimal_digits printed).1,
      (decimal_digits printed).2⟩
  unfold intToString at inside
  split at inside
  · rcases List.mem_cons.mp inside with rfl | printed
    · decide
    · exact digits printed
  · exact digits inside

/-- `to_string` makes a number that `stoi` takes, in which there is no delimiter. -/
theorem intToString_form (value : Int32) :
    IntForm (intToString value) value.toInt ∧ MsgPak.delim ∉ intToString value := by
  have whole : cString (intToString value) = intToString value := by
    apply List.takeWhile_eq_self_iff.mpr
    intro c inside
    have low := (intToString_bytes inside).1
    simp only [bne_iff_ne]
    rintro rfl
    exact absurd low (by decide)
  have literal := intToString_literal value
  refine ⟨⟨[], intToString value, [], ⟨?_, nofun, literal, longest_nil ⟨_, literal⟩⟩, ?_⟩, ?_⟩
  · rw [whole]
    simp
  · exact ⟨value.le_toInt, value.toInt_lt⟩
  · intro inside
    exact absurd (intToString_bytes inside).2 (by decide)

/-- What `deserialize` makes of a packed message, whatever the object held. -/
theorem Packed.deserialize {data : StdString} {m : MsgPak} (packed : Packed data.bytes m)
    (old : MsgPak) : old.deserialize data = (m, none) := by
  obtain ⟨first, second, text, one, other, index, id⟩ := packed
  have parts : Parts data.bytes first second m.message.bytes := text ▸ .two one other
  rcases parts.deserialize old with
    ⟨e, run, none⟩ | ⟨v, e, run, value, none⟩ | ⟨v, w, r, run, message, value, value'⟩
  · exact absurd index (none _)
  · exact absurd id (none _)
  · have index := Int32.toInt_inj.mp ((value _).mp index)
    have id := Int32.toInt_inj.mp ((value' _).mp id)
    rw [run, ← index, ← id, StdString.ext message]

theorem MsgPak.packed {m : MsgPak} {data : StdString} (produced : m.serialize = .ok data) :
    Packed data.bytes m := by
  unfold serialize at produced
  dsimp only at produced
  split at produced
  · cases produced
    obtain ⟨index, absent⟩ := intToString_form m.index
    obtain ⟨id, absent'⟩ := intToString_form m.id
    exact ⟨_, _, by simp, absent, absent', index, id⟩
  · cases produced

/-- What `serialize` writes, `deserialize` reads back, and no other message is written so. -/
theorem msgPak_roundTrip {m : MsgPak} {data : StdString} (produced : m.serialize = .ok data) :
    (∀ old : MsgPak, old.deserialize data = (m, none)) ∧
      ∀ m' : MsgPak, m'.serialize = .ok data → m' = m := by
  have reads := (MsgPak.packed produced).deserialize
  refine ⟨reads, fun m' produced' => ?_⟩
  have same := ((MsgPak.packed produced').deserialize m).symm.trans (reads m)
  exact (Prod.mk.inj same).1

/-- Both numbers are the extremes, and the message has delimiters and digits. -/
def extremes : MsgPak := ⟨-2147483648, 2147483647, ⟨ascii "|5|", by decide⟩⟩

theorem msgPak_roundTrip_extremes : ∃ data, data.bytes = ascii "-2147483648|2147483647||5|" ∧
    ∀ old : MsgPak, old.deserialize data = (extremes, none) := by
  have produced : extremes.serialize =
      .ok ⟨ascii "-2147483648|2147483647||5|", by decide⟩ := by decide +kernel
  exact ⟨_, rfl, (msgPak_roundTrip produced).1⟩

end Ppcom
