/-
Module: Ppcom.Proofs.Fdio
Purpose: What `fd_vprintf` writes. A text that fits its buffer is written as it is; of a longer one more
  bytes are passed on than belong to the text, and beyond 256 bytes more than the buffer has.
Trusted boundary: none
Main exports: writenNiLoop_complete, buffer_text, PrintsWithin, fd_vprintf_within_iff
-/
import Ppcom.Fdio

namespace Ppcom.Fdio

/-! ### `writen_ni` -/

/-- Where no `write` fails before everything is written, everything is written. -/
theorem writenNiLoop_complete (mem : Nat → UInt8) {results : List WriteResult} {p nl : Nat}
    (complete : (writenNiLoop mem results p nl).2 = 0) :
    (writenNiLoop mem results p nl).1 = (List.range nl).map fun i => mem (p + i) := by
  induction results generalizing p nl with
  | nil =>
      rw [show nl = 0 from complete]
      rfl
  | cons result results ih =>
      cases result with
      | interrupted =>
          rw [writenNiLoop] at complete ⊢
          by_cases done : nl = 0
          · rw [if_pos done, done]
            rfl
          · rw [if_neg done] at complete ⊢
            exact ih complete
      | failed =>
          rw [show nl = 0 from complete]
          rfl
      | wrote nw =>
          rw [writenNiLoop] at complete ⊢
          by_cases stops : nl = 0 ∨ min nw nl = 0
          · rw [if_pos stops] at complete ⊢
            rw [show nl = 0 from complete]
            rfl
          · rw [if_neg stops] at complete ⊢
            have split : nl = min nw nl + (nl - min nw nl) := by omega
            have rest := @ih (p + min nw nl) (nl - min nw nl) complete
            show (List.range (min nw nl)).map _ ++ _ = _
            rw [rest]
            conv_rhs => rw [split, List.range_add, List.map_append, List.map_map]
            congr 2
            funext i
            exact congrArg mem (Nat.add_assoc ..)

/-- A call that returns the number of bytes it was passed wrote them all. -/
theorem writenNi_complete (mem : Nat → UInt8) {n : Nat} {results : List WriteResult}
    (complete : (writenNi mem n results).2 = n) :
    (writenNi mem n results).1 = (List.range n).map mem := by
  have whole : (writenNiLoop mem results 0 n).2 = 0 := by
    have value : n - (writenNiLoop mem results 0 n).2 = n := complete
    by_cases none : n = 0
    · subst none
      cases results with
      | nil => rfl
      | cons result results => cases result <;> simp [writenNiLoop]
    · omega
  have bytes := writenNiLoop_complete mem whole
  simp only [Nat.zero_add] at bytes
  exact bytes

/-! ### `fd_vprintf` -/

theorem passed_int {t : List UInt8} (int : t.length < 2 ^ 31) : passed t = t.length := by
  unfold passed vsnprintf
  rw [if_pos int, BitVec.toNat_ofInt]
  omega

theorem passed_overflow {t : List UInt8} (overflow : ¬ t.length < 2 ^ 31) :
    passed t = 2 ^ 64 - 1 := by
  unfold passed vsnprintf
  rw [if_neg overflow, BitVec.toNat_ofInt]
  rfl

/-- The buffer holds a text that leaves room for the terminator. -/
theorem buffer_text (stack : Nat → UInt8) {t : List UInt8} (short : t.length ≤ 255) :
    (List.range t.length).map (buffer stack t) = t := by
  have whole : t.take (bufSize - 1) = t := List.take_of_length_le short
  have least : min t.length (bufSize - 1) = t.length := Nat.min_eq_left short
  apply List.ext_getElem (by simp)
  intro i _ inside
  rw [List.getElem_map, List.getElem_range]
  have stores : (vsnprintf bufSize t).2 = Stores.block 0 t ++ [(t.length, 0)] := by
    unfold vsnprintf
    rw [whole, least]
    rfl
  unfold buffer
  rw [stores, List.append_assoc, Stores.apply_append]
  have behind : ∀ store ∈ [(t.length, (0 : UInt8))] ++ [(bufSize - 1, 0)], store.1 ≠ i := by
    intro store member
    simp only [List.cons_append, List.nil_append, List.mem_cons, List.not_mem_nil, or_false] at member
    rcases member with rfl | rfl
    · exact (Nat.ne_of_lt inside).symm
    · exact (Nat.ne_of_lt (Nat.lt_of_lt_of_le inside short)).symm
  have placed := Stores.apply_block stack 0 t i
  rw [Nat.zero_add] at placed
  rw [Stores.apply_of_notMem _ _ behind, placed, List.getElem?_eq_getElem inside]
  rfl

/-- What is asked of `fd_vprintf` for the text `t`: `writen_ni` is passed bytes of the buffer only, and
if no `write` fails the bytes written are those of the text that fit. -/
structure PrintsWithin (stack : Nat → UInt8) (t : List UInt8) : Prop where
  inside : passed t ≤ bufSize
  text : ∀ results, (fdVprintf stack t results).2 = passed t →
    (fdVprintf stack t results).1 = t.take (min t.length 255)

/-- `fd_vprintf` prints as it should exactly the texts that fit its buffer with a terminator: what
`vsnprintf` returns is the length of the whole text, and it is passed on as it is. -/
theorem fd_vprintf_within_iff (stack : Nat → UInt8) (t : List UInt8) :
    PrintsWithin stack t ↔ t.length ≤ 255 := by
  constructor
  · intro within
    have inside := within.inside
    by_cases int : t.length < 2 ^ 31
    · by_contra long
      rw [passed_int int] at inside
      have exact_ : t.length = 256 := by
        have bound : t.length ≤ 256 := inside
        omega
      -- one `write` of all the bytes that are passed writes the terminator, too
      have once : (fdVprintf stack t [.wrote 256]).2 = passed t := by
        unfold fdVprintf
        rw [passed_int int, exact_]
        rfl
      have bytes := writenNi_complete (buffer stack t) once
      have text := within.text _ once
      have lengths := congrArg List.length (bytes.symm.trans text)
      rw [List.length_map, List.length_range, passed_int int, List.length_take] at lengths
      omega
    · rw [passed_overflow int] at inside
      exact absurd inside (by decide)
  · intro short
    have int : t.length < 2 ^ 31 := Nat.lt_of_le_of_lt short (by decide)
    refine ⟨?_, fun results complete => ?_⟩
    · rw [passed_int int]
      exact Nat.le_succ_of_le short
    · have bytes : (fdVprintf stack t results).1 = _ := writenNi_complete (buffer stack t) complete
      rw [bytes, passed_int int, buffer_text stack short, List.take_of_length_le (by omega)]

/-- The default command to send with a file name of 255 bytes, which is as long as the prompt takes:
265 bytes of a buffer of 256 are passed to `writen_ni`. -/
theorem fd_vprintf_leaves_buffer :
    ¬ PrintsWithin (fun _ => 0) (runCmdMessage (ascii "sz -vv") (List.replicate 255 0x61)) := by
  intro within
  have inside := within.inside
  have long : (runCmdMessage (ascii "sz -vv") (List.replicate 255 0x61)).length = 265 := by
    unfold runCmdMessage
    simp only [List.length_append, List.length_replicate]
    rfl
  rw [passed_int (by rw [long]; decide), long] at inside
  exact absurd inside (by decide)

end Ppcom.Fdio
