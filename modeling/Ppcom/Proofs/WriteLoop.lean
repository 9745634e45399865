/-
Module: Ppcom.Proofs.WriteLoop
Purpose: What `writen_ni` delivers, whatever its calls of `write` come to: the loops end, the value is the
  number of bytes delivered, these are the first of the buffer, and no call leaves the buffer.
Trusted boundary: none
Main exports: Progress, writeAgain_returns, writeLoop_returns, Delivers, writenNi_returns,
  session_writenNi, writenNi_delivers
-/
import Ppcom.Session
import Ppcom.WriteLoop

namespace Ppcom.WriteLoop

/-! ### What the loops test -/

/-- A count of the bytes of an object has no sign bit. -/
theorem toInt_count {k : Nat} (small : k < 2 ^ 63) : (BitVec.ofNat 64 k).toInt = k := by
  rw [BitVec.toInt_ofNat']
  apply Int.bmod_eq_of_le
  · omega
  · omega

namespace Outcome

variable {nl : Nat}

/-- The number of bytes taken is never a negative value. -/
theorem wrote_nonneg (small : nl < 2 ^ 63) {k : Nat} (within : k ≤ nl) :
    ¬ (wrote k within).nw.slt 0 = true := by
  have count := toInt_count (Nat.lt_of_le_of_lt within small)
  show ¬ (BitVec.ofNat 64 k).slt 0 = true
  rw [BitVec.slt_iff_toInt_lt, count]
  exact Int.not_lt.mpr (Int.natCast_nonneg k)

/-- The inner loop goes on after an interruption, and after nothing else. -/
theorem again_iff (small : nl < 2 ^ 63) (outcome : Outcome nl) :
    outcome.nw.slt 0 = true ∧ outcome.errno = EINTR ↔ outcome = interrupted := by
  cases outcome with
  | wrote k within =>
      constructor
      · rintro ⟨negative, _⟩
        exact absurd negative (wrote_nonneg small within)
      · exact nofun
  | interrupted => simp [nw, errno]
  | failed errno other => simp [nw, Outcome.errno, other]

/-- Behind the inner loop, the outer one stops where the `write` was refused. -/
theorem stops_iff (small : nl < 2 ^ 63) {outcome : Outcome nl} (live : outcome ≠ interrupted) :
    outcome.nw.sle 0 = true ↔ outcome.Refused := by
  cases outcome with
  | wrote k within =>
      have count := toInt_count (Nat.lt_of_le_of_lt within small)
      show (BitVec.ofNat 64 k).sle 0 = true ↔ k = 0
      rw [BitVec.sle_iff_toInt_le, count]
      show (k : Int) ≤ 0 ↔ k = 0
      omega
  | interrupted => exact absurd rfl live
  | failed errno other => simp [nw, Refused]

/-- A `write` that was not refused took what it returns. -/
theorem nw_accepted {outcome : Outcome nl} (live : outcome ≠ interrupted)
    (accepted : ¬ outcome.Refused) :
    outcome.nw = BitVec.ofNat 64 outcome.taken ∧ 0 < outcome.taken ∧ outcome.taken ≤ nl := by
  cases outcome with
  | wrote k within => exact ⟨rfl, Nat.pos_of_ne_zero accepted, within⟩
  | interrupted => exact absurd rfl live
  | failed errno other => exact absurd trivial accepted

theorem result_accepted {outcome : Outcome nl} (live : outcome ≠ interrupted)
    (accepted : ¬ outcome.Refused) : outcome.result = .wrote outcome.taken := by
  cases outcome with
  | wrote k within => rfl
  | interrupted => exact absurd rfl live
  | failed errno other => exact absurd trivial accepted

theorem taken_refused {outcome : Outcome nl} (refused : outcome.Refused) : outcome.taken = 0 := by
  cases outcome with
  | wrote k within => exact refused
  | interrupted => rfl
  | failed errno other => rfl

end Outcome

/-! ### Memory -/

@[simp] theorem length_load (mem : Word → UInt8) (p : Word) (k : Nat) : (load mem p k).length = k := by
  simp [load]

/-- Bytes are loaded one part after the other. -/
theorem load_add (mem : Word → UInt8) (p : Word) (a b : Nat) :
    load mem p (a + b) = load mem p a ++ load mem (p + BitVec.ofNat 64 a) b := by
  unfold load
  rw [List.range_add, List.map_append, List.map_map]
  congr 2
  funext i
  rw [Function.comp_apply, BitVec.ofNat_add, BitVec.add_assoc]

/-- The start of a buffer is loaded from where the buffer is. -/
theorem Buffer.take_bytes (buffer : Buffer) {k : Nat} (inside : k ≤ buffer.n.toNat) :
    buffer.bytes.take k = load buffer.mem buffer.buff k := by
  unfold Buffer.bytes
  obtain ⟨rest, whole⟩ := Nat.exists_eq_add_of_le inside
  rw [whole, load_add]
  exact List.take_left' (length_load ..)

/-- The start of a buffer goes on with the bytes behind it. -/
theorem Buffer.take_bytes_add (buffer : Buffer) {k more : Nat}
    (inside : k + more ≤ buffer.n.toNat) :
    buffer.bytes.take (k + more) =
      buffer.bytes.take k ++ (List.range more).map fun i => buffer.cells (k + i) := by
  rw [buffer.take_bytes inside, buffer.take_bytes (Nat.le_of_add_right_le inside), load_add]
  congr 1
  apply List.map_congr_left
  intro i _
  unfold Buffer.cells
  rw [BitVec.ofNat_add, BitVec.add_assoc]

/-! ### The invariant of the loops -/

/-- The loop on a list of results, started with what the calls of `kernel` came to and going on with
`more`: the bytes it writes, and the last value of `nl`. -/
def Buffer.replay (buffer : Buffer) (kernel : Kernel) (more : List Fdio.WriteResult) :
    List UInt8 × Nat :=
  Fdio.writenNiLoop buffer.cells (kernel.results ++ more) 0 buffer.n.toNat

/-- Of the buffer, the first `done` bytes were delivered, and no call left the buffer. -/
structure Sent (buffer : Buffer) (done : Nat) (kernel : Kernel) : Prop where
  within : ∀ call ∈ kernel.calls, buffer.Within call
  delivered : kernel.delivered = buffer.bytes.take done

/-- The loops go on with `p` and `nl`: they stand where the bytes that were delivered end, no call was
refused, and on what the calls came to the loop on a list has come as far. -/
structure Progress (buffer : Buffer) (done : Nat) (p nl : Word) (kernel : Kernel) : Prop
    extends Sent buffer done kernel where
  pointer : p.toNat = buffer.buff.toNat + done
  remaining : done + nl.toNat = buffer.n.toNat
  accepted : ∀ call ∈ kernel.calls, ¬ call.outcome.Refused
  replay : ∀ more, buffer.replay kernel more =
    Prod.map (buffer.bytes.take done ++ ·) id
      (Fdio.writenNiLoop buffer.cells more done nl.toNat)

variable {buffer : Buffer} {done : Nat} {p nl : Word} {kernel : Kernel}

namespace Progress

theorem small (progress : Progress buffer done p nl kernel) : nl.toNat < 2 ^ 63 := by
  have size := buffer.size
  have remaining := progress.remaining
  omega

theorem place (progress : Progress buffer done p nl kernel) :
    p = buffer.buff + BitVec.ofNat 64 done := by
  have addresses := buffer.addresses
  have pointer := progress.pointer
  have remaining := progress.remaining
  apply BitVec.eq_of_toNat_eq
  rw [pointer, BitVec.toNat_add, BitVec.toNat_ofNat]
  omega

/-- A `write` delivers what it takes, behind what was delivered before. -/
theorem write (progress : Progress buffer done p nl kernel) (left : 0 < nl)
    (schedule : Schedule) (inside : (schedule.next kernel nl).taken ≤ nl.toNat) :
    Sent buffer (done + (schedule.next kernel nl).taken)
      (WriteLoop.write schedule buffer.mem p nl kernel).2.2 := by
  have pointer := progress.pointer
  have remaining := progress.remaining
  constructor
  · intro call made
    rcases List.mem_append.mp made with earlier | this
    · exact progress.within call earlier
    · cases List.mem_singleton.mp this
      refine ⟨?_, left, ?_⟩
      · show buffer.buff.toNat ≤ p.toNat
        omega
      · show p.toNat + nl.toNat ≤ _
        omega
  · show kernel.delivered ++ load buffer.mem p _ = _
    rw [progress.delivered, buffer.take_bytes (by omega), buffer.take_bytes (by omega),
      progress.place, ← load_add]

/-- A `write` that is not refused leaves no refused call behind. -/
theorem write_accepted (progress : Progress buffer done p nl kernel) {schedule : Schedule}
    (accepted : ¬ (schedule.next kernel nl).Refused) :
    ∀ call ∈ (WriteLoop.write schedule buffer.mem p nl kernel).2.2.calls,
      ¬ call.outcome.Refused := by
  intro call made
  rcases List.mem_append.mp made with earlier | this
  · exact progress.accepted call earlier
  · cases List.mem_singleton.mp this
    exact accepted

/-- What the next `write` comes to is what the loop on a list goes on with. -/
theorem replay_write (progress : Progress buffer done p nl kernel) (schedule : Schedule)
    (more : List Fdio.WriteResult) :
    buffer.replay (WriteLoop.write schedule buffer.mem p nl kernel).2.2 more =
      Prod.map (buffer.bytes.take done ++ ·) id (Fdio.writenNiLoop buffer.cells
        ((schedule.next kernel nl).result :: more) done nl.toNat) := by
  rw [← progress.replay]
  unfold Buffer.replay Kernel.results WriteLoop.write
  rw [List.map_append, List.append_assoc]
  rfl

/-- An interruption leaves everything as it is. -/
theorem interrupted (progress : Progress buffer done p nl kernel) (left : 0 < nl)
    {schedule : Schedule} (interruption : schedule.next kernel nl = .interrupted) :
    Progress buffer done p nl (WriteLoop.write schedule buffer.mem p nl kernel).2.2 := by
  have nothing : (schedule.next kernel nl).taken = 0 := by
    rw [interruption]
    rfl
  have sent := progress.write left schedule (by omega)
  rw [nothing, Nat.add_zero] at sent
  have accepted : ¬ (schedule.next kernel nl).Refused := by
    rw [interruption]
    exact id
  have remains : nl.toNat ≠ 0 := Nat.ne_of_gt left
  apply Progress.mk sent progress.pointer progress.remaining (progress.write_accepted accepted)
  intro more
  rw [progress.replay_write, interruption]
  show Prod.map _ _ (Fdio.writenNiLoop _ (.interrupted :: more) _ _) = _
  rw [Fdio.writenNiLoop, if_neg remains]

/-- After bytes that were taken, the outer loop moves `p` and `nl` behind them. -/
theorem advance (progress : Progress buffer done p nl kernel) (left : 0 < nl)
    {schedule : Schedule} (live : schedule.next kernel nl ≠ .interrupted)
    (accepted : ¬ (schedule.next kernel nl).Refused) :
    Progress buffer (done + (schedule.next kernel nl).taken) (p + (schedule.next kernel nl).nw)
      (nl - (schedule.next kernel nl).nw)
      (WriteLoop.write schedule buffer.mem p nl kernel).2.2 := by
  obtain ⟨value, positive, inside⟩ := Outcome.nw_accepted live accepted
  have addresses := buffer.addresses
  have pointer := progress.pointer
  have remaining := progress.remaining
  have small := progress.small
  have count : (schedule.next kernel nl).nw.toNat = (schedule.next kernel nl).taken := by
    rw [value, BitVec.toNat_ofNat]
    exact Nat.mod_eq_of_lt (by omega)
  have fits : (schedule.next kernel nl).nw ≤ nl := by
    show (schedule.next kernel nl).nw.toNat ≤ nl.toNat
    rw [count]
    exact inside
  constructor
  · exact progress.write left schedule inside
  · rw [BitVec.toNat_add, count, pointer]
    omega
  · rw [BitVec.toNat_sub_of_le fits, count]
    omega
  · exact progress.write_accepted accepted
  · intro more
    have least : min (schedule.next kernel nl).taken nl.toNat = (schedule.next kernel nl).taken :=
      Nat.min_eq_left inside
    have goes : ¬ (nl.toNat = 0 ∨ (schedule.next kernel nl).taken = 0) := by omega
    rw [progress.replay_write, Outcome.result_accepted live accepted, Fdio.writenNiLoop]
    dsimp only
    rw [least, if_neg goes, BitVec.toNat_sub_of_le fits, count, Prod.map, Prod.map,
      buffer.take_bytes_add (by omega), List.append_assoc]

end Progress

/-! ### The inner loop -/

/-- A turn of the inner loop that is interrupted. -/
theorem writeAgain_again {schedule : Schedule} {mem : Word → UInt8} (small : nl.toNat < 2 ^ 63)
    (interruption : schedule.next kernel nl = .interrupted) (turns : Nat) :
    writeAgain schedule mem p nl (turns + 1) kernel =
      writeAgain schedule mem p nl turns (write schedule mem p nl kernel).2.2 :=
  if_pos ((Outcome.again_iff small _).mpr interruption)

/-- The last turn of the inner loop. -/
theorem writeAgain_last {schedule : Schedule} {mem : Word → UInt8} (small : nl.toNat < 2 ^ 63)
    (live : schedule.next kernel nl ≠ .interrupted) (turns : Nat) :
    writeAgain schedule mem p nl (turns + 1) kernel =
      some ((schedule.next kernel nl).nw, (write schedule mem p nl kernel).2.2) :=
  if_neg fun again => live ((Outcome.again_iff small _).mp again)

/-- The inner loop ends with a `write` that is not interrupted, before which nothing was delivered. -/
theorem writeAgain_returns (progress : Progress buffer done p nl kernel) (left : 0 < nl)
    (schedule : Schedule) :
    ∃ before turns, Progress buffer done p nl before ∧ schedule.next before nl ≠ .interrupted ∧
      ∀ enough, turns ≤ enough →
        writeAgain schedule buffer.mem p nl enough kernel =
          some ((schedule.next before nl).nw, (write schedule buffer.mem p nl before).2.2) := by
  obtain ⟨j, later, live⟩ := schedule.finite kernel.calls.length nl.toNat
  obtain ⟨distance, rfl⟩ := Nat.exists_eq_add_of_le later
  -- on the number of calls up to one that is not interrupted
  induction distance generalizing kernel with
  | zero =>
      refine ⟨kernel, 1, progress, live, fun enough most => ?_⟩
      obtain ⟨turns, rfl⟩ := Nat.exists_eq_add_of_le' most
      exact writeAgain_last progress.small live turns
  | succ distance ih =>
      by_cases interruption : schedule.next kernel nl = .interrupted
      · have after := progress.interrupted left interruption
        have made : (write schedule buffer.mem p nl kernel).2.2.calls.length + distance =
            kernel.calls.length + (distance + 1) := by
          show (kernel.calls ++ [_]).length + distance = _
          rw [List.length_append, List.length_singleton]
          omega
        obtain ⟨before, turns, still, ended, returns⟩ := ih after (Nat.le_add_right ..) (made ▸ live)
        refine ⟨before, turns + 1, still, ended, fun enough most => ?_⟩
        obtain ⟨more, rfl⟩ := Nat.exists_eq_add_of_le' (Nat.le_of_add_left_le most)
        rw [writeAgain_again progress.small interruption]
        exact returns more (by omega)
      · refine ⟨kernel, 1, progress, interruption, fun enough most => ?_⟩
        obtain ⟨turns, rfl⟩ := Nat.exists_eq_add_of_le' most
        exact writeAgain_last progress.small interruption turns

/-! ### The outer loop -/

/-- What `writen_ni` has done with a buffer when it returns `k`: it passed bytes of the buffer to every
`write`, the first `k` bytes were delivered, and these are all exactly if no `write` was refused. -/
structure Delivers (buffer : Buffer) (k : Nat) (kernel : Kernel) : Prop extends
    Sent buffer k kernel where
  count : k ≤ buffer.n.toNat
  whole : k = buffer.n.toNat ↔ ∀ call ∈ kernel.calls, ¬ call.outcome.Refused

theorem Delivers.length_delivered {k : Nat} (delivers : Delivers buffer k kernel) :
    kernel.delivered.length = k := by
  rw [delivers.delivered, buffer.take_bytes delivers.count, length_load]

/-- Nothing is left to write. -/
theorem Progress.ends (progress : Progress buffer done p nl kernel) (finished : ¬ 0 < nl) :
    Delivers buffer done kernel := by
  have remaining := progress.remaining
  have empty : nl.toNat = 0 := Nat.eq_zero_of_not_pos finished
  have all : done = buffer.n.toNat := by omega
  exact ⟨progress.toSent, Nat.le_of_eq all, iff_of_true all progress.accepted⟩

/-- A `write` is refused. -/
theorem Progress.stops (progress : Progress buffer done p nl kernel) (left : 0 < nl)
    {schedule : Schedule} (refused : (schedule.next kernel nl).Refused) :
    Delivers buffer done (WriteLoop.write schedule buffer.mem p nl kernel).2.2 := by
  have remaining := progress.remaining
  have positive : 0 < nl.toNat := left
  have nothing := Outcome.taken_refused refused
  have sent := progress.write left schedule (by omega)
  rw [nothing, Nat.add_zero] at sent
  apply Delivers.mk sent (by omega)
  apply iff_of_false (by omega)
  intro accepted
  have made : (⟨p, nl, schedule.next kernel nl⟩ : Call) ∈
      (WriteLoop.write schedule buffer.mem p nl kernel).2.2.calls :=
    List.mem_append_right _ (List.mem_singleton_self _)
  exact accepted _ made refused

/-- The loop on a list ends there, too. -/
theorem Progress.ends_replay (progress : Progress buffer done p nl kernel) :
    buffer.replay kernel [] = (buffer.bytes.take done, nl.toNat) := by
  rw [progress.replay]
  simp [Fdio.writenNiLoop]

/-- The loop on a list stops there, too. -/
theorem Progress.stops_replay (progress : Progress buffer done p nl kernel) {schedule : Schedule}
    (refused : (schedule.next kernel nl).Refused) :
    buffer.replay (WriteLoop.write schedule buffer.mem p nl kernel).2.2 [] =
      (buffer.bytes.take done, nl.toNat) := by
  rw [progress.replay_write]
  cases outcome : schedule.next kernel nl with
  | wrote k within =>
      rw [outcome] at refused
      cases refused
      simp [Outcome.result, Fdio.writenNiLoop]
  | interrupted =>
      rw [outcome] at refused
      cases refused
  | failed errno other => simp [Outcome.result, Fdio.writenNiLoop]

/-- The outer loop ends, and what is left of `nl` was not delivered. -/
theorem writeLoop_returns (progress : Progress buffer done p nl kernel) (schedule : Schedule) :
    ∃ last after turns, last.toNat ≤ buffer.n.toNat ∧
      Delivers buffer (buffer.n.toNat - last.toNat) after ∧
      buffer.replay after [] = (buffer.bytes.take (buffer.n.toNat - last.toNat), last.toNat) ∧
      ∀ enough, turns ≤ enough →
        writeLoop schedule buffer.mem enough p nl kernel = some (last, after) := by
  -- on what is left; every turn but the last one takes some of it
  induction remains : nl.toNat using Nat.strongRecOn generalizing done p nl kernel with
  | _ _ ih =>
      have remaining := progress.remaining
      have rest : buffer.n.toNat - nl.toNat = done := by omega
      by_cases left : 0 < nl
      · obtain ⟨before, turns, still, live, returns⟩ := writeAgain_returns progress left schedule
        by_cases refused : (schedule.next before nl).Refused
        · have stopped := still.stops left refused
          have replayed := still.stops_replay refused
          rw [← rest] at stopped replayed
          refine ⟨nl, _, turns + 1, by omega, stopped, replayed, fun enough most => ?_⟩
          obtain ⟨more, rfl⟩ := Nat.exists_eq_add_of_le' (Nat.le_of_add_left_le most)
          rw [writeLoop, if_pos left, returns more (by omega)]
          exact if_pos ((Outcome.stops_iff progress.small live).mpr refused)
        · obtain ⟨_, positive, _⟩ := Outcome.nw_accepted live refused
          have after := still.advance left live refused
          have less := after.remaining
          obtain ⟨last, final, later, most, delivers, replayed, loop⟩ := ih _ (by omega) after rfl
          refine ⟨last, final, max turns later + 1, most, delivers, replayed, fun enough most => ?_⟩
          obtain ⟨more, rfl⟩ := Nat.exists_eq_add_of_le' (Nat.le_of_add_left_le most)
          rw [writeLoop, if_pos left, returns more (by omega)]
          have goes := mt (Outcome.stops_iff progress.small live).mp refused
          exact (if_neg goes).trans (loop more (by omega))
      · have ended := progress.ends left
        have replayed := progress.ends_replay
        rw [← rest] at ended replayed
        refine ⟨nl, kernel, 1, by omega, ended, replayed, fun enough most => ?_⟩
        obtain ⟨more, rfl⟩ := Nat.exists_eq_add_of_le' most
        exact if_neg left

/-! ### `writen_ni` -/

theorem Progress.start (buffer : Buffer) : Progress buffer 0 buffer.buff buffer.n .fresh where
  within := nofun
  delivered := rfl
  pointer := rfl
  remaining := Nat.zero_add _
  accepted := nofun
  replay _ := rfl

/-- The value that is returned counts the bytes that are not left. -/
theorem toInt_returned (buffer : Buffer) {last : Word} (most : last.toNat ≤ buffer.n.toNat) :
    (buffer.n - last).toInt = (buffer.n.toNat - last.toNat : Nat) := by
  have size := buffer.size
  have value : buffer.n - last = BitVec.ofNat 64 (buffer.n.toNat - last.toNat) := by
    apply BitVec.eq_of_toNat_eq
    rw [BitVec.toNat_sub_of_le most, BitVec.toNat_ofNat]
    omega
  rw [value, toInt_count (by omega)]

/-- `writen_ni` returns, and the function on a list of results does the same with what the calls came
to. -/
theorem writenNi_returns (buffer : Buffer) (schedule : Schedule) :
    ∃ k after, Returns schedule buffer k after ∧ Delivers buffer k after ∧
      Fdio.writenNi buffer.cells buffer.n.toNat after.results = (after.delivered, k) := by
  obtain ⟨last, after, turns, most, delivers, replayed, returns⟩ :=
    writeLoop_returns (Progress.start buffer) schedule
  refine ⟨_, after, ⟨turns, fun enough many => ?_⟩, delivers, ?_⟩
  · unfold writenNi
    rw [returns enough many, Option.map_some]
    exact congrArg (fun value => some (value, after)) (toInt_returned buffer most)
  · unfold Buffer.replay at replayed
    rw [List.append_nil] at replayed
    unfold Fdio.writenNi
    rw [replayed, delivers.delivered]

/-- A call of `writen_ni` has one result. -/
theorem Returns.unique {schedule : Schedule} {k k' : Nat} {after after' : Kernel}
    (returns : Returns schedule buffer k after) (other : Returns schedule buffer k' after') :
    k = k' ∧ after = after' := by
  obtain ⟨turns, result⟩ := returns
  obtain ⟨turns', result'⟩ := other
  have same := (result (max turns turns') (Nat.le_max_left ..)).symm.trans
    (result' (max turns turns') (Nat.le_max_right ..))
  injection same with pair
  injection pair with value kernels
  exact ⟨Int.ofNat.inj value, kernels⟩

/-- In a session whose next reply to a `writen_ni` is what the loops return, the bytes of the buffer that
are written are those that the loops deliver. -/
theorem session_writenNi {schedule : Schedule} {k : Nat} {after : Kernel}
    (returns : Returns schedule buffer k after) (fd : Int) (s : Session) (reply : s.env.put.head = k) :
    (Ppcom.writenNi fd buffer.bytes).run s =
      .ok k { s with
        env := { s.env with put := s.env.put.tail }
        trace := s.trace ++ [.put fd after.delivered] } := by
  obtain ⟨k', after', returns', delivers, _⟩ := writenNi_returns buffer schedule
  obtain ⟨rfl, rfl⟩ := returns.unique returns'
  have written : (Ppcom.writenNi fd buffer.bytes).run s =
      .ok (buffer.bytes.take s.env.put.head).length { s with
        env := { s.env with put := s.env.put.tail }
        trace := s.trace ++ [.put fd (buffer.bytes.take s.env.put.head)] } := rfl
  rw [written, reply, ← delivers.delivered, delivers.length_delivered]

/-- `writen_ni` returns, whatever its calls of `write` come to, and the value is the number of bytes
delivered. They are the first of the buffer, in order; all calls are within the buffer; and everything is
delivered exactly if no `write` took nothing or failed other than by an interruption. -/
theorem writenNi_delivers (buffer : Buffer) (schedule : Schedule) :
    ∃ k after, Returns schedule buffer k after ∧ Delivers buffer k after := by
  obtain ⟨k, after, returns, delivers, _⟩ := writenNi_returns buffer schedule
  exact ⟨k, after, returns, delivers⟩

/-- `hello` is delivered in three parts, each after an interruption. -/
theorem writenNi_delivers_hello : ∃ after, Returns .stuttering .hello 5 after ∧ Delivers .hello 5 after := by
  obtain ⟨k, after, returns, delivers⟩ := writenNi_delivers .hello .stuttering
  have ran : ∀ more, (writenNi .stuttering Buffer.hello.mem Buffer.hello.buff Buffer.hello.n (more + 8) .fresh).map
      Prod.fst = some 5 := fun _ => rfl
  obtain ⟨turns, result⟩ := returns
  have value := ran turns
  rw [result (turns + 8) (Nat.le_add_right ..)] at value
  have five : (k : Int) = 5 := Option.some.inj value
  obtain rfl : k = 5 := by exact_mod_cast five
  exact ⟨after, ⟨turns, result⟩, delivers⟩

end Ppcom.WriteLoop
