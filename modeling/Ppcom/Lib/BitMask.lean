/-
Module: Ppcom.Lib.BitMask
Purpose: Fields of a machine word. A mask says which bits a field takes; writing a field changes no
  bit outside the mask, and what is read back through the mask is what was written.
Trusted boundary: none
Main exports: BitMask.AgreeOff, BitMask.agreeOff_clear, BitMask.agreeOff_raise,
  BitMask.agreeOff_write, BitMask.read_write, BitMask.read_field, BitMask.read_clear, BitMask.read_raise,
  BitMask.read_agreeOff
-/
import Mathlib.Data.BitVec

namespace BitMask

variable {w : ℕ}

/-- The two words have the same bits outside the mask. -/
def AgreeOff (mask x y : BitVec w) : Prop :=
  x &&& ~~~mask = y &&& ~~~mask

@[refl] theorem AgreeOff.refl (mask x : BitVec w) : AgreeOff mask x x := rfl

theorem AgreeOff.symm {mask x y : BitVec w} (agree : AgreeOff mask x y) : AgreeOff mask y x :=
  Eq.symm agree

theorem AgreeOff.trans {mask x y z : BitVec w} (left : AgreeOff mask x y)
    (right : AgreeOff mask y z) : AgreeOff mask x z :=
  Eq.trans left right

/-- Agreement is a matter of single bits. -/
theorem agreeOff_iff {mask x y : BitVec w} :
    AgreeOff mask x y ↔ ∀ i, i < w → mask.getLsbD i = false → x.getLsbD i = y.getLsbD i := by
  unfold AgreeOff
  rw [BitVec.eq_of_getLsbD_eq_iff]
  apply forall_congr'
  intro i
  apply imp_congr_right
  intro inside
  simp only [BitVec.getLsbD_and, BitVec.getLsbD_not, inside, decide_true, Bool.true_and]
  cases mask.getLsbD i <;> simp

/-- A wider mask allows more changes. -/
theorem AgreeOff.mono {mask wider x y : BitVec w} (within : mask &&& ~~~wider = 0)
    (agree : AgreeOff mask x y) : AgreeOff wider x y := by
  rw [agreeOff_iff] at agree ⊢
  intro i inside outside
  apply agree i inside
  have bit := congrArg (fun v => v.getLsbD i) within
  simp only [BitVec.getLsbD_and, BitVec.getLsbD_not, inside, outside, decide_true] at bit
  simpa using bit

/-- Lowering bits of the mask. -/
theorem agreeOff_clear {mask bits : BitVec w} (within : bits &&& ~~~mask = 0) (x : BitVec w) :
    AgreeOff mask x (x &&& ~~~bits) := by
  apply AgreeOff.mono within
  rw [agreeOff_iff]
  intro i inside outside
  simp only [BitVec.getLsbD_and, BitVec.getLsbD_not, inside, outside]
  simp

/-- Raising bits of the mask. -/
theorem agreeOff_raise {mask bits : BitVec w} (within : bits &&& ~~~mask = 0) (x : BitVec w) :
    AgreeOff mask x (x ||| bits) := by
  apply AgreeOff.mono within
  rw [agreeOff_iff]
  intro i inside outside
  simp only [BitVec.getLsbD_or, outside, Bool.or_false]

/-- Lowering and then raising bits of the mask. -/
theorem agreeOff_write {mask low high : BitVec w} (lows : low &&& ~~~mask = 0)
    (highs : high &&& ~~~mask = 0) (x : BitVec w) :
    AgreeOff mask x ((x &&& ~~~low) ||| high) :=
  (agreeOff_clear lows x).trans (agreeOff_raise highs _)

/-- The bits read through `mask` after `low` was lowered and `high` raised do not depend on the word
when the two together cover the mask. -/
theorem read_write {mask low high : BitVec w} (cover : mask &&& ~~~(low ||| high) = 0)
    (x : BitVec w) : ((x &&& ~~~low) ||| high) &&& mask = high &&& mask := by
  apply BitVec.eq_of_getLsbD_eq
  intro i inside
  have bit := congrArg (fun v => v.getLsbD i) cover
  simp only [BitVec.getLsbD_and, BitVec.getLsbD_or, BitVec.getLsbD_not, inside] at bit ⊢
  cases inLow : low.getLsbD i <;> cases inHigh : high.getLsbD i <;>
    simp [inLow, inHigh] at bit ⊢
  exact fun _ => bit

/-- Bits within a mask read as themselves. -/
theorem read_within {mask bits : BitVec w} (within : bits &&& ~~~mask = 0) :
    bits &&& mask = bits := by
  apply BitVec.eq_of_getLsbD_eq
  intro i inside
  have bit := congrArg (fun v => v.getLsbD i) within
  simp only [BitVec.getLsbD_and, BitVec.getLsbD_not, inside] at bit ⊢
  cases inBits : bits.getLsbD i with
  | false => simp
  | true => simpa [inBits] using bit

/-- A field that is cleared and then written holds what was written. -/
theorem read_field {mask bits : BitVec w} (within : bits &&& ~~~mask = 0) (x : BitVec w) :
    ((x &&& ~~~mask) ||| bits) &&& mask = bits := by
  have cover : mask &&& ~~~(mask ||| bits) = 0 := by
    apply BitVec.eq_of_getLsbD_eq
    intro i inside
    simp only [BitVec.getLsbD_and, BitVec.getLsbD_or, BitVec.getLsbD_not, inside]
    cases mask.getLsbD i <;> simp
  rw [read_write cover, read_within within]

/-- Lowered bits read as zero. -/
theorem read_clear {mask low : BitVec w} (cover : mask &&& ~~~low = 0) (x : BitVec w) :
    (x &&& ~~~low) &&& mask = 0 := by
  have written : ((x &&& ~~~low) ||| 0) &&& mask = 0 &&& mask :=
    read_write (by simpa using cover) x
  simpa using written

/-- Raised bits read as one. -/
theorem read_raise {mask high : BitVec w} (cover : mask &&& ~~~high = 0) (x : BitVec w) :
    (x ||| high) &&& mask = mask := by
  apply BitVec.eq_of_getLsbD_eq
  intro i inside
  have bit := congrArg (fun v => v.getLsbD i) cover
  simp only [BitVec.getLsbD_and, BitVec.getLsbD_or, BitVec.getLsbD_not, inside] at bit ⊢
  cases inMask : mask.getLsbD i with
  | false => simp
  | true =>
      have inHigh : high.getLsbD i = true := by simpa [inMask] using bit
      simp [inHigh]

/-- Reading through a mask that a change leaves alone. -/
theorem read_agreeOff {mask field x y : BitVec w} (apart : field &&& mask = 0)
    (agree : AgreeOff mask x y) : x &&& field = y &&& field := by
  rw [agreeOff_iff] at agree
  apply BitVec.eq_of_getLsbD_eq
  intro i inside
  have bit := congrArg (fun v => v.getLsbD i) apart
  simp only [BitVec.getLsbD_and] at bit ⊢
  cases inField : field.getLsbD i with
  | false => simp
  | true =>
      have outside : mask.getLsbD i = false := by
        simpa [inField] using bit
      rw [agree i inside outside]

end BitMask
