/-
Module: Ppcom.Proofs.Receiving
Purpose: Which streams `ppcom_cli` shows as they were sent, in whatever portions they arrive: those that
  are shorter than the buffer and have no zero in them.
Trusted boundary: none
Main exports: ShownAsSent, printReceived_eq, receiveMessages_shows, shown_as_sent_iff
-/
import Ppcom.Proofs.Relay
import Ppcom.Receiving
import Ppcom.Spec.Script

namespace Ppcom

/-- In whatever portions the bytes arrive, and however often `receive_messages` goes round, it prints
the first of them and leaves the others; and if it goes round often enough, it prints them all. -/
def ShownAsSent (sent : List UInt8) : Prop :=
  ∀ src : Source, src.Plain → src.bytes = sent → ∀ turns : List Bool,
    ∃ shown left, receiveMessages turns src = some (shown, left) ∧ shown ++ Source.bytes left = sent ∧
      (sent.length ≤ turns.length → (∀ running ∈ turns, running = true) → shown = sent)

section

variable {received sent : List UInt8} {src : Source}

/-- The zero that is stored is what `memset` has left there. -/
theorem printReceived_eq (short : received.length < receiveBufSz) :
    printReceived received = some (cString received) := by
  obtain ⟨n, room⟩ := Nat.exists_eq_add_of_lt short
  have zeros : receiveBufSz - received.length = n + 1 := by omega
  rw [printReceived, if_pos short, receiveBuffer, zeros, List.replicate_succ,
    List.set_append_right _ _ le_rfl, Nat.sub_self, List.set_cons_zero, cString_stored]

/-- A buffer that `recv` has filled has no room for the zero. -/
theorem printReceived_full (full : receiveBufSz ≤ received.length) : printReceived received = none := by
  rw [printReceived, if_neg (Nat.not_lt_of_le full)]

/-- A turn prints what it has received. -/
theorem receiveMessages_shows (plain : src.Plain) (string : 0 ∉ src.bytes)
    (short : src.bytes.length < receiveBufSz) (turns : List Bool) :
    ∃ shown left, receiveMessages turns src = some (shown, left) ∧
      shown ++ Source.bytes left = src.bytes ∧
        (src.bytes.length ≤ turns.length → (∀ running ∈ turns, running = true) → shown = src.bytes) := by
  induction turns generalizing src with
  | nil =>
      refine ⟨[], src, rfl, rfl, fun none _ => ?_⟩
      exact (List.eq_nil_of_length_eq_zero (Nat.le_zero.mp none)).symm
  | cons running later ih =>
      cases running with
      | false =>
          refine ⟨[], src, rfl, rfl, fun _ all => ?_⟩
          cases all false List.mem_cons_self
      | true =>
          rcases plain.read receiveBufSz with ends | ⟨c, rest, next, read, -, plain', parts⟩
          · cases show src = [] from ends
            exact ⟨[], [], rfl, rfl, fun _ _ => rfl⟩
          · -- the portion and what follows it are both strings that fit the buffer
            have split : src.bytes = (c :: rest) ++ Source.bytes next := parts
            rw [split] at string short
            rw [List.length_append] at short
            have print := printReceived_eq (Nat.lt_of_le_of_lt (Nat.le_add_right _ _) short)
            have whole : cString (c :: rest) = c :: rest :=
              (cString_eq_iff _).mpr fun inside => string (List.mem_append_left _ inside)
            obtain ⟨shown, left, more, kept, all⟩ :=
              ih plain' (fun inside => string (List.mem_append_right _ inside)) (by omega)
            refine ⟨(c :: rest) ++ shown, left, ?_, ?_, fun enough running => ?_⟩
            · rw [receiveMessages, read]
              simp only [Bool.not_true, Bool.false_eq_true, if_false, print, whole, more, Option.bind_some,
                Option.map_some]
            · rw [List.append_assoc, kept, split]
            · have fewer : (Source.bytes next).length ≤ later.length := by
                rw [split, List.length_append, List.length_cons, List.length_cons] at enough
                omega
              rw [split, all fewer fun r inside => running r (List.mem_cons_of_mem _ inside)]

/-- Of bytes that arrive at once, `recv` takes what fits the buffer. -/
theorem read_whole (sz : Nat) (c : UInt8) (rest : List UInt8) :
    Source.read sz (Source.whole (c :: rest)) =
      (.data c (rest.take (sz - 1)), Source.whole (rest.drop (sz - 1))) := by
  cases left : rest.drop (sz - 1) with
  | nil => simp only [Source.whole, Source.read, left]
  | cons next more => simp only [Source.whole, Source.read, left]

/-- A stream that arrives at once, in one turn. -/
theorem receiveMessages_whole (c : UInt8) (rest : List UInt8) :
    receiveMessages [true] (Source.whole (c :: rest)) =
      (printReceived (c :: rest.take (receiveBufSz - 1))).map fun text =>
        (text, Source.whole (rest.drop (receiveBufSz - 1))) := by
  rw [receiveMessages, read_whole]
  simp only [Bool.not_true, Bool.false_eq_true, if_false, receiveMessages, Option.map_some, List.append_nil]
  cases printReceived (c :: rest.take (receiveBufSz - 1)) with
  | none => rfl
  | some text => rfl

end

/-- `ppcom_cli` shows a stream as it was sent, whatever portions it arrives in, if and only if there is no
zero in it, at which `printf` stops, and it is shorter than the buffer: otherwise one `recv` may fill the
buffer, and the zero behind what it received is stored outside. -/
theorem shown_as_sent_iff (sent : List UInt8) :
    ShownAsSent sent ↔ 0 ∉ sent ∧ sent.length < receiveBufSz := by
  constructor
  · intro shows
    cases sent with
    | nil => exact ⟨List.not_mem_nil, by decide⟩
    | cons c rest =>
        obtain ⟨shown, left, run, kept, -⟩ :=
          shows (.whole (c :: rest)) (Source.plain_whole _) (Source.bytes_whole _) [true]
        rw [receiveMessages_whole] at run
        by_cases short : (c :: rest).length < receiveBufSz
        · have all : rest.take (receiveBufSz - 1) = rest := by
            apply List.take_of_length_le
            rw [List.length_cons] at short
            omega
          have nothing : rest.drop (receiveBufSz - 1) = [] := by
            apply List.drop_of_length_le
            rw [List.length_cons] at short
            omega
          rw [all, nothing, printReceived_eq short] at run
          cases run
          rw [Source.whole, Source.bytes, List.append_nil] at kept
          exact ⟨(cString_eq_iff _).mp kept, short⟩
        · have full : receiveBufSz ≤ (c :: rest.take (receiveBufSz - 1)).length := by
            rw [List.length_cons] at short
            rw [List.length_cons, List.length_take]
            omega
          rw [printReceived_full full] at run
          cases run
  · rintro ⟨string, short⟩ src plain rfl turns
    exact receiveMessages_shows plain string short turns

end Ppcom
