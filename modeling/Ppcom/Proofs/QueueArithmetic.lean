/-
Module: Ppcom.Proofs.QueueArithmetic
Purpose: The arithmetic of a queue without a limit. Its size is doubled in an `int`, which goes well as
  long as the queue has less than 2^30 bytes before, and so as long as it never holds more than 2^30 - 4
  bytes when another is to be stored.
Trusted boundary: none
Main exports: SoundTurn, GrowsLarge, queueOp_turns, queue_arithmetic_iff, queue_overflows
-/
import Ppcom.Lib.Machine
import Ppcom.Proofs.QueueAcceptance
import Ppcom.QueueTurns

namespace Ppcom

open Program

/-! ### Turns -/

/-- A queue in a block of its size, which is the smallest size doubled a number of times. -/
structure TtyQ.Doubled (q : TtyQ) : Prop extends q.Ok where
  size : ∃ k, q.sz = ttyQSzMin * 2 ^ k

/-- A step of the queue. -/
abbrev Turn := Machine.Step Pushing QueueInput (Option Int)

/-- Nothing that is computed in the step overflows, and a block that is asked for is a larger one whose
size is the smallest doubled a number of times. -/
structure SoundTurn (st : Turn) : Prop where
  evaluated : ∀ v ∈ st.input.evaluates st.before, v < 2 ^ 31
  requested : ∀ sz ∈ st.output, 0 < sz ∧ (st.before.q.sz : Int) < sz ∧
    ∃ k, sz = ((ttyQSzMin * 2 ^ k : Nat) : Int)

/-- A byte is to be stored behind more than 2^30 - 4 bytes. -/
def GrowsLarge (st : Turn) : Prop :=
  (∃ reply, st.input = .turn reply) ∧ st.before.pending ≠ [] ∧ 2 ^ 30 - mMaxmap < st.before.q.len

/-- A size below 2^30 can be doubled once more. -/
theorem TtyQ.Doubled.twice {q : TtyQ} (held : q.Doubled) (below : q.sz < 2 ^ 30) : q.sz * 2 ≤ 2 ^ 30 := by
  obtain ⟨k, is⟩ := held.size
  have power : q.sz = 2 ^ (8 + k) := by rw [is, Nat.pow_add]; rfl
  rw [power] at below ⊢
  rw [← Nat.pow_succ]
  exact Nat.pow_le_pow_right (by decide) ((Nat.pow_lt_pow_iff_right (by decide)).mp below)

section Turns

variable {build : Build} {omap : Word} {q : TtyQ} {b : UInt8} {rest : List UInt8}
  {reply : Option (Nat → UInt8)} {s' : Pushing} {output : Option Int}

/-- What a turn for a byte does. -/
theorem pushTurn_cases (unlimited : build.ttyQSz = 0)
    (turned : pushTurn build omap q b rest reply = some (s', output)) :
    (q.len + mMaxmap ≤ q.sz ∧ output = none ∧
        ∃ image, doMap omap b = some image ∧ s' = ⟨q.store image, rest⟩) ∨
      (q.sz < q.len + mMaxmap ∧ output = some (toInt (q.sz * 2)) ∧
        (s' = ⟨q, []⟩ ∨ (0 < toInt (q.sz * 2) ∧
          ∃ fill, reply = some fill ∧ s' = ⟨q.grow (toInt (q.sz * 2)).toNat fill, b :: rest⟩))) := by
  unfold pushTurn at turned
  split at turned
  · next room =>
    obtain ⟨image, mapped, same⟩ := Option.map_eq_some_iff.mp turned
    cases same
    exact .inl ⟨room, rfl, image, mapped, rfl⟩
  · next full =>
    have full := Nat.lt_of_not_le full
    rw [if_neg (fun limited => limited.1 unlimited)] at turned
    right
    split at turned
    · cases turned
      exact ⟨full, rfl, .inl rfl⟩
    · next fill granted =>
      cases turned
      split at granted
      · cases granted
      · next positive => exact ⟨full, rfl, .inr ⟨by omega, fill, granted, rfl⟩⟩

/-- Every step keeps the queue in a block of such a size. -/
theorem Turn.doubled {st : Turn} (unlimited : build.ttyQSz = 0) (made : st.Of (queueTurn build omap))
    (held : st.before.q.Doubled) : st.after.q.Doubled := by
  obtain ⟨⟨q, pending⟩, input, s', output⟩ := st
  change queueTurn build omap ⟨q, pending⟩ input = some (s', output) at made
  change q.Doubled at held
  cases input with
  | push bytes =>
      obtain ⟨-, same⟩ := Option.ite_none_right_eq_some.mp made
      cases same
      exact held
  | reset =>
      obtain ⟨-, same⟩ := Option.ite_none_right_eq_some.mp made
      cases same
      exact ⟨held.toOk.reset, held.size⟩
  | write ttyWriteSz reply =>
      obtain ⟨-, same⟩ := Option.ite_none_right_eq_some.mp made
      cases same
      have inside : (q.taken (q.request ttyWriteSz) reply).length ≤ q.len :=
        TtyQ.length_contents held.toOk ▸ (TtyQ.taken_prefix q ttyWriteSz reply).length_le
      exact ⟨held.toOk.drop inside, held.size⟩
  | turn reply =>
      cases pending with
      | nil => cases made
      | cons b rest =>
          change pushTurn build omap q b rest reply = some (s', output) at made
          rcases pushTurn_cases unlimited made with
            ⟨room, -, image, mapped, rfl⟩ | ⟨-, -, rfl | ⟨positive, fill, -, rfl⟩⟩
          · have short := (doMap_image mapped).2.2
            exact ⟨held.toOk.store (by omega), held.size⟩
          · exact held
          · obtain ⟨double, int⟩ := toInt_double held.atMost positive
            have twice : (toInt (q.sz * 2)).toNat = q.sz * 2 := by omega
            obtain ⟨k, is⟩ := held.size
            change (q.grow (toInt (q.sz * 2)).toNat fill).Doubled
            rw [twice]
            exact ⟨held.toOk.grow (by omega) int fill,
              k + 1, by rw [Nat.pow_succ, ← Nat.mul_assoc, ← is]; rfl⟩

/-- A sound step makes no queue larger than 2^30 bytes. -/
theorem Turn.small {st : Turn} (unlimited : build.ttyQSz = 0) (made : st.Of (queueTurn build omap))
    (sound : SoundTurn st) (held : st.before.q.Doubled) (small : st.before.q.sz ≤ 2 ^ 30) :
    st.after.q.sz ≤ 2 ^ 30 := by
  obtain ⟨⟨q, pending⟩, input, s', output⟩ := st
  change queueTurn build omap ⟨q, pending⟩ input = some (s', output) at made
  change q.Doubled at held
  change q.sz ≤ 2 ^ 30 at small
  cases input with
  | push bytes =>
      obtain ⟨-, same⟩ := Option.ite_none_right_eq_some.mp made
      cases same
      exact small
  | reset =>
      obtain ⟨-, same⟩ := Option.ite_none_right_eq_some.mp made
      cases same
      exact small
  | write ttyWriteSz reply =>
      obtain ⟨-, same⟩ := Option.ite_none_right_eq_some.mp made
      cases same
      exact small
  | turn reply =>
      cases pending with
      | nil => cases made
      | cons b rest =>
          change pushTurn build omap q b rest reply = some (s', output) at made
          rcases pushTurn_cases unlimited made with
            ⟨-, -, image, -, rfl⟩ | ⟨full, -, rfl | ⟨positive, fill, -, rfl⟩⟩
          · exact small
          · exact small
          · have evaluates : (QueueInput.turn reply).evaluates ⟨q, b :: rest⟩ =
                [q.len + mMaxmap, q.sz * 2] := if_neg (Nat.not_le.mpr full)
            have below := sound.evaluated (q.sz * 2) (by rw [evaluates]; simp)
            obtain ⟨double, -⟩ := toInt_double held.atMost positive
            have twice : (toInt (q.sz * 2)).toNat = q.sz * 2 := by omega
            change (toInt (q.sz * 2)).toNat ≤ 2 ^ 30
            rw [twice]
            exact held.twice (by omega)

/-- A step on a queue that has grown to 2^30 bytes at most is sound exactly when it does not double this
size. -/
theorem soundTurn_iff {st : Turn} (unlimited : build.ttyQSz = 0)
    (made : st.Of (queueTurn build omap)) (held : st.before.q.Doubled) (small : st.before.q.sz ≤ 2 ^ 30) :
    SoundTurn st ↔ ¬ GrowsLarge st := by
  obtain ⟨⟨q, pending⟩, input, s', output⟩ := st
  change queueTurn build omap ⟨q, pending⟩ input = some (s', output) at made
  change q.Doubled at held
  change q.sz ≤ 2 ^ 30 at small
  cases input with
  | push bytes =>
      obtain ⟨-, same⟩ := Option.ite_none_right_eq_some.mp made
      cases same
      exact iff_of_true ⟨nofun, nofun⟩ (fun large => nomatch large.1)
  | reset =>
      obtain ⟨-, same⟩ := Option.ite_none_right_eq_some.mp made
      cases same
      exact iff_of_true ⟨nofun, nofun⟩ (fun large => nomatch large.1)
  | write ttyWriteSz reply =>
      obtain ⟨-, same⟩ := Option.ite_none_right_eq_some.mp made
      cases same
      exact iff_of_true ⟨nofun, nofun⟩ (fun large => nomatch large.1)
  | turn reply =>
      cases pending with
      | nil => cases made
      | cons b rest =>
          change pushTurn build omap q b rest reply = some (s', output) at made
          have atMost := held.atMost
          rcases pushTurn_cases unlimited made with ⟨room, rfl, -⟩ | ⟨full, rfl, -⟩
          · have notLarge : ¬ 2 ^ 30 - mMaxmap < q.len := by
              unfold mMaxmap at room ⊢
              omega
            refine iff_of_true ⟨?_, nofun⟩ fun large => notLarge large.2.2
            change ∀ v ∈ (if q.len + mMaxmap ≤ q.sz then _ else _ : List Nat), v < 2 ^ 31
            rw [if_pos room]
            simpa using room.trans_lt atMost
          · have evaluates : (QueueInput.turn reply).evaluates ⟨q, b :: rest⟩ =
                [q.len + mMaxmap, q.sz * 2] := if_neg (Nat.not_le.mpr full)
            constructor
            · intro sound large
              have below := sound.evaluated (q.sz * 2) (by rw [evaluates]; simp)
              have held' := held.twice (by omega)
              have many : 2 ^ 30 - mMaxmap < q.len := large.2.2
              have fits := held.fits
              unfold mMaxmap at many
              omega
            · intro notLarge
              have below : q.sz < 2 ^ 30 := by
                by_contra above
                refine notLarge ⟨⟨reply, rfl⟩, nofun, ?_⟩
                change 2 ^ 30 - mMaxmap < q.len
                unfold mMaxmap at full ⊢
                omega
              have twice : toInt (q.sz * 2) = q.sz * 2 := by
                exact_mod_cast toInt_of_fits (k := q.sz * 2) (by omega)
              have fits := held.fits
              have atLeast := held.atLeast
              obtain ⟨k, is⟩ := held.size
              refine ⟨?_, ?_⟩
              · change ∀ v ∈ (QueueInput.turn reply).evaluates ⟨q, b :: rest⟩, v < 2 ^ 31
                rw [evaluates]
                simp only [List.mem_cons, List.not_mem_nil, or_false, forall_eq_or_imp, forall_eq,
                  mMaxmap]
                omega
              · rintro sz ⟨⟩
                change 0 < toInt (q.sz * 2) ∧ (q.sz : Int) < toInt (q.sz * 2) ∧
                  ∃ k, toInt (q.sz * 2) = ((ttyQSzMin * 2 ^ k : Nat) : Int)
                unfold ttyQSzMin at atLeast
                rw [twice]
                refine ⟨by omega, by omega, k + 1, ?_⟩
                rw [Nat.pow_succ, ← Nat.mul_assoc, ← is]
                rfl

end Turns

/-! ### The calls of the program -/

/-- The queue has come from `start` turn by turn, and the call under way still has `pending` to store. -/
structure Turned (build : Build) (omap : Word) (start : Pushing) (pending : List UInt8)
    (s : Session) : Prop where
  map : s.opts.omap = omap
  ok : s.ttyQ.Ok
  run : ∃ made, Machine.Run (queueTurn build omap) start made ⟨s.ttyQ, pending⟩

/-- The same in the middle of a call, where the program may end. -/
def TurnedSome (build : Build) (omap : Word) (start : Pushing) (_ : Stop) (s : Session) : Prop :=
  ∃ pending, Turned build omap start pending s

section Calls

variable {build : Build} {omap : Word} {start : Pushing} {pending : List UInt8} {s s' : Session}

/-- A turn takes the queue further. -/
theorem Turned.turn {later : List UInt8} (held : Turned build omap start pending s)
    (input : QueueInput) (same : s'.opts.omap = s.opts.omap) (ok : s'.ttyQ.Ok)
    (stepped : (queueTurn build omap ⟨s.ttyQ, pending⟩ input).map Prod.fst =
      some ⟨s'.ttyQ, later⟩) :
    Turned build omap start later s' := by
  obtain ⟨made, run⟩ := held.run
  obtain ⟨⟨after, output⟩, step, rfl⟩ := Option.map_eq_some_iff.mp stepped
  exact ⟨same.trans held.map, ok, _, run.step step⟩

theorem Turned.rules (build : Build) (omap : Word) (start : Pushing) (pending : List UInt8) :
    Rules (Turned build omap start pending) (TurnedSome build omap start) where
  quiet step held := ⟨(congrArg FixedOpts.omap step.fixed).trans held.map, step.ttyQ ▸ held.ok,
    step.ttyQ ▸ held.run⟩
  stop _ held := ⟨pending, held⟩

/-- The loop that grows the queue, as turns. -/
theorem growQueue_turns {b : UInt8} {rest : List UInt8} (n : Nat) :
    Triple (fun s => Turned build omap start (b :: rest) s ∧ s.missing ≤ n) (growQueue build n)
      (fun room s => if room then Turned build omap start (b :: rest) s ∧
        s.ttyQ.len + mMaxmap ≤ s.ttyQ.sz else Turned build omap start [] s)
      (TurnedSome build omap start) := by
  induction n with
  | zero => exact fun s ⟨held, enough⟩ => ⟨held, Nat.le_of_sub_eq_zero (Nat.le_zero.mp enough)⟩
  | succ n ih =>
      rintro s ⟨held, enough⟩
      rw [run_growQueue_succ]
      by_cases room : s.ttyQ.len + mMaxmap ≤ s.ttyQ.sz
      · rw [if_pos room]
        exact ⟨held, room⟩
      rw [if_neg room]
      by_cases large : build.ttyQSz ≠ 0 ∧ (build.ttyQSz : Int) < toInt (s.ttyQ.sz * 2)
      · rw [if_pos large]
        apply held.turn (.turn none) rfl held.ok
        change (pushTurn _ _ _ _ _ _).map _ = _
        rw [pushTurn, if_neg room, if_pos large]
        rfl
      rw [if_neg large]
      cases granted : if toInt (s.ttyQ.sz * 2) ≤ 0 then none else s.env.realloc.head with
      | none =>
          change Turned build omap start [] s.asked
          refine held.turn (.turn s.env.realloc.head) rfl held.ok ?_
          change (pushTurn _ _ _ _ _ _).map _ = _
          rw [pushTurn, if_neg room, if_neg large, granted]
          rfl
      | some fill =>
          have positive : ¬ toInt (s.ttyQ.sz * 2) ≤ 0 := by
            intro negative
            simp [negative] at granted
          obtain ⟨double, int⟩ := toInt_double held.ok.atMost (Int.not_le.mp positive)
          have twice : (toInt (s.ttyQ.sz * 2)).toNat = s.ttyQ.sz * 2 := by omega
          have atLeast := held.ok.atLeast
          have ok : (s.given fill).ttyQ.Ok := by
            rw [Session.given, twice]
            exact held.ok.grow (by omega) int fill
          have more : (s.given fill).ttyQ.sz = s.ttyQ.sz * 2 := twice
          refine ih (s.given fill) ⟨?_, ?_⟩
          · refine held.turn (.turn s.env.realloc.head) rfl ok ?_
            change (pushTurn _ _ _ _ _ _).map _ = _
            rw [pushTurn, if_neg room, if_neg large, granted]
            rfl
          · unfold ttyQSzMin at atLeast
            simp only [Session.missing, more] at enough ⊢
            change s.ttyQ.len + mMaxmap - s.ttyQ.sz * 2 ≤ n
            omega

/-- A byte of a call of `tty_q_push`. -/
theorem pushByte_turns (b : UInt8) (rest : List UInt8) :
    Triple (Turned build omap start (b :: rest)) (pushByte build b)
      (fun stored => Turned build omap start (if stored then rest else []))
      (TurnedSome build omap start) := by
  unfold pushByte
  refine .bind_get fun s held => ?_
  refine .bind ((growQueue_turns s.missing).pre fun s' same =>
    ⟨same.2, by rw [same.1]⟩) fun room => ?_
  cases room with
  | false => exact .pure fun _ => id
  | true =>
      have abort : ∀ s', Turned build omap start rest s' → TurnedSome build omap start .abort s' :=
        fun s' held => ⟨rest, held⟩
      have echo : Triple (Turned build omap start rest) (do
          if s.opts.lecho then mapAndWrite sto s.opts.emap b
          return true) (fun stored => Turned build omap start (if stored then rest else []))
          (TurnedSome build omap start) := by
        split
        · exact .bind ((Turned.rules _ _ _ _).mapAndWrite fun _ => abort) fun _ => .pure fun _ => id
        · exact .pure fun _ => id
      dsimp only [if_true]
      cases mapped : doMap s.opts.omap b with
      | none => exact .throw fun s' here => ⟨_, here.1⟩
      | some image =>
          refine .bind (Q := fun _ => Turned build omap start rest)
            (.modify fun s' here => ?_) fun _ => .bind (.modify fun s' here => ?_) fun _ => echo
          · have short := (doMap_image mapped).2.2
            have room := here.2
            refine here.1.turn (.turn none) rfl (here.1.ok.store (by omega)) ?_
            change (pushTurn _ _ _ _ _ _).map _ = _
            rw [pushTurn, if_pos here.2, ← held.map, mapped]
            rfl
          · exact ⟨here.map, here.ok, here.run⟩

/-- A call of `tty_q_push`, once it has begun. -/
theorem ttyQPush_turns (bytes : List UInt8) :
    Triple (Turned build omap start bytes) (ttyQPush build bytes)
      (fun _ => Turned build omap start []) (TurnedSome build omap start) :=
  ttyQPush_triple (I := Turned build omap start) build
    (fun _ => (Turned.rules _ _ _ _).checkpoint) pushByte_turns bytes

/-- What the program does to its queue is a run of turns, to the point where it ends if it does. -/
theorem queueOp_turns (op : QueueOp) :
    Triple (Turned build omap start []) (op.exec build) (fun _ => Turned build omap start [])
      (TurnedSome build omap start) := by
  cases op with
  | push bytes =>
      refine .map ((ttyQPush_turns bytes).pre fun s held => ?_) fun _ _ => id
      exact held.turn (.push bytes) rfl held.ok rfl
  | reset setting =>
      refine .read fun s _ => .bind (Q := fun _ => Turned build omap start [])
        (.modify fun s held => ⟨held.map, held.ok, held.run⟩) fun _ => .modify fun s held => ?_
      exact held.turn .reset rfl held.ok.reset rfl
  | write =>
      refine writePort_triple (Turned.rules _ _ _ _) (fun held => ⟨[], held.map, held.ok, held.run⟩)
        (fun held _ quiet => ⟨[], ?_⟩) ?_
      · exact (Turned.rules _ _ _ _).quiet quiet ⟨held.map, held.ok, held.run⟩
      · intro s s' taken held nonempty inside quiet
        have same : s'.ttyQ = s.ttyQ := quiet.ttyQ
        have few : taken.length ≤ s.ttyQ.len := TtyQ.length_contents held.ok ▸ inside.length_le
        -- a port that takes as many bytes of a request for all of them takes these
        have takes : s.ttyQ.taken (s.ttyQ.request s.ttyQ.len) (some taken.length) = taken := by
          rw [TtyQ.request, if_neg (lt_irrefl _)]
          exact (List.prefix_iff_eq_take.mp inside).symm
        refine held.turn (.write s.ttyQ.len (some taken.length))
          (congrArg FixedOpts.omap quiet.fixed) (same ▸ held.ok.drop few) ?_
        change (if [] = [] ∧ _ then _ else _ : Option _).map _ = _
        rw [takes, if_pos ⟨rfl, (List.length_pos_of_ne_nil nonempty).ne'⟩, same]
        rfl

end Calls

/-! ### Runs -/

theorem TtyQ.Doubled.initial : TtyQ.initial.Doubled where
  block := List.length_replicate
  fits := Nat.zero_le _
  atLeast := le_rfl
  atMost := by decide
  size := ⟨0, rfl⟩

/-- Nothing overflows in exactly those runs of calls of `tty_q_push`, writes to the port and resets in which
no byte is to be stored behind more than 2^30 - 4 bytes. -/
theorem queue_arithmetic_iff {build : Build} {omap : Word} {made : List Turn} {s : Pushing}
    (unlimited : build.ttyQSz = 0)
    (run : Machine.Run (queueTurn build omap) ⟨.initial, []⟩ made s) :
    (∀ st ∈ made, SoundTurn st) ↔ ∀ st ∈ made, ¬ GrowsLarge st :=
  run.each_iff (I := fun s => s.q.Doubled ∧ s.q.sz ≤ 2 ^ 30) ⟨.initial, by decide⟩
    (fun _ made sound held => ⟨Turn.doubled unlimited made held.1, Turn.small unlimited made sound held.1 held.2⟩)
    fun _ made held => soundTurn_iff unlimited made held.1 held.2

/-- The build of the Makefile. -/
def Build.make : Build := ⟨⟨true, true⟩, 0⟩

theorem queue_arithmetic_iff_byte : ∃ made s,
    Machine.Run (queueTurn .make mODfl) ⟨.initial, []⟩ made s ∧ ∀ st ∈ made, SoundTurn st := by
  have called : queueTurn .make mODfl ⟨.initial, []⟩ (.push [0x61]) =
      some (⟨.initial, [0x61]⟩, none) := rfl
  have stored : queueTurn .make mODfl ⟨.initial, [0x61]⟩ (.turn none) =
      some (⟨TtyQ.initial.store [0x61], []⟩, none) := rfl
  have run := (Machine.Run.start.step called).step stored
  refine ⟨_, _, run, (queue_arithmetic_iff rfl run).mpr fun st inside large => ?_⟩
  rcases List.mem_append.mp inside with first | second
  · cases List.mem_singleton.mp first
    exact nomatch large.1
  · cases List.mem_singleton.mp second
    exact absurd large.2.2 (by decide)

section Overflow

variable (sound : ∀ made s, Machine.Run (queueTurn .make mODfl) ⟨.initial, []⟩ made s →
  ∀ st ∈ made, SoundTurn st)

include sound

/-- Were every run sound, there would be room for a byte after a doubling at most. -/
theorem reaches_room {made : List Turn} {q : TtyQ}
    (run : Machine.Run (queueTurn .make mODfl) ⟨.initial, []⟩ made ⟨q, [0x61]⟩) :
    ∃ made' q', Machine.Run (queueTurn .make mODfl) ⟨.initial, []⟩ made' ⟨q', [0x61]⟩ ∧
      q'.len = q.len ∧ q'.len + mMaxmap ≤ q'.sz := by
  by_cases room : q.len + mMaxmap ≤ q.sz
  · exact ⟨made, q, run, rfl, room⟩
  have held : q.Doubled :=
    (run.steps (I := fun s => s.q.Doubled) .initial fun _ made => Turn.doubled rfl made).1
  by_cases negative : toInt (q.sz * 2) ≤ 0
  · have turned : queueTurn .make mODfl ⟨q, [0x61]⟩ (.turn none) =
        some (⟨q, []⟩, some (toInt (q.sz * 2))) := by
      change pushTurn _ _ _ _ _ _ = _
      simp [pushTurn, room, negative, Build.make]
    have requested := (sound _ _ (run.step turned) _
      (List.mem_append_right _ (List.mem_singleton_self _))).requested _ rfl
    exact absurd requested.1 (Int.not_lt.mpr negative)
  · have turned : queueTurn .make mODfl ⟨q, [0x61]⟩ (.turn (some fun _ => 0)) =
        some (⟨q.grow (toInt (q.sz * 2)).toNat fun _ => 0, [0x61]⟩, some (toInt (q.sz * 2))) := by
      change pushTurn _ _ _ _ _ _ = _
      simp [pushTurn, room, negative, Build.make]
    obtain ⟨double, -⟩ := toInt_double held.atMost (Int.not_le.mp negative)
    have twice : (toInt (q.sz * 2)).toNat = q.sz * 2 := by omega
    rw [twice] at turned
    refine ⟨_, _, run.step turned, rfl, ?_⟩
    have fits := held.fits
    have atLeast := held.atLeast
    change q.len + mMaxmap ≤ q.sz * 2
    unfold ttyQSzMin at atLeast
    unfold mMaxmap
    omega

/-- And a queue of any length could be reached. -/
theorem reaches_length (n : Nat) :
    ∃ made q, Machine.Run (queueTurn .make mODfl) ⟨.initial, []⟩ made ⟨q, []⟩ ∧ q.len = n := by
  induction n with
  | zero => exact ⟨[], _, .start, rfl⟩
  | succ n ih =>
      obtain ⟨made, q, run, length⟩ := ih
      have called : queueTurn .make mODfl ⟨q, []⟩ (.push [0x61]) = some (⟨q, [0x61]⟩, none) := rfl
      obtain ⟨made', q', run', same, room⟩ := reaches_room sound (run.step called)
      have stored : queueTurn .make mODfl ⟨q', [0x61]⟩ (.turn none) =
          some (⟨q'.store [0x61], []⟩, none) := by
        change pushTurn _ _ _ _ _ _ = _
        rw [pushTurn, if_pos room]
        rfl
      exact ⟨_, _, run'.step stored, by rw [← length, ← same]; rfl⟩

end Overflow

/-- A queue whose length nothing limits overflows. -/
theorem queue_overflows :
    ¬ ∀ made s, Machine.Run (queueTurn .make mODfl) ⟨.initial, []⟩ made s →
      ∀ st ∈ made, SoundTurn st := by
  intro sound
  obtain ⟨made, q, run, length⟩ := reaches_length sound (2 ^ 31)
  have held := (run.steps (I := fun s => s.q.Doubled) .initial fun _ made => Turn.doubled rfl made).1
  exact absurd (length ▸ held.fits) (Nat.not_le.mpr held.atMost)

end Ppcom
