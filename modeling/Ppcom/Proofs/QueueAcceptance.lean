/-
Module: Ppcom.Proofs.QueueAcceptance
Purpose: The output queue over every sequence of calls of `tty_q_push`, writes to the port and resets:
  its size is the smallest size doubled a number of times and no more than `TTY_Q_SZ`, the loop that
  grows it ends, and a call stores the images of the bytes it accepts and refuses a byte where its
  image might not fit in the largest size, or memory runs out.
Trusted boundary: none
Main exports: queueSizes, TtyQ.Represented, capacity, QueueStep, Pushed, Accepts, queue_accepts
-/
import Mathlib.Data.Nat.Log
import Mathlib.Logic.Relation
import Mathlib.Order.Bounds.Basic
import Ppcom.Proofs.MapAssertions
import Ppcom.Proofs.QueueSteps

namespace Ppcom

open Program

/-! ### Sizes -/

/-- The sizes that the queue can have: `TTY_Q_SZ_MIN` doubled, and no more than `TTY_Q_SZ`. -/
def queueSizes (build : Build) : Set Nat :=
  {sz | (∃ k, sz = ttyQSzMin * 2 ^ k) ∧ sz ≤ build.ttyQSz}

/-- The largest of them. -/
def capacity (build : Build) : Nat := ttyQSzMin * 2 ^ Nat.log 2 (build.ttyQSz / ttyQSzMin)

section Sizes

variable {build : Build} {k : Nat}

theorem doubled_le_iff (least : ttyQSzMin ≤ build.ttyQSz) :
    ttyQSzMin * 2 ^ k ≤ build.ttyQSz ↔ k ≤ Nat.log 2 (build.ttyQSz / ttyQSzMin) := by
  have positive : 0 < ttyQSzMin := by decide
  have some : build.ttyQSz / ttyQSzMin ≠ 0 := (Nat.div_pos least positive).ne'
  rw [Nat.le_log_iff_pow_le Nat.one_lt_two some, Nat.le_div_iff_mul_le positive, Nat.mul_comm]

theorem isGreatest_capacity (least : ttyQSzMin ≤ build.ttyQSz) :
    IsGreatest (queueSizes build) (capacity build) := by
  constructor
  · exact ⟨⟨_, rfl⟩, (doubled_le_iff least).mpr le_rfl⟩
  · rintro sz ⟨⟨k, rfl⟩, atMost⟩
    apply Nat.mul_le_mul_left
    exact Nat.pow_le_pow_right (by decide) ((doubled_le_iff least).mp atMost)

/-- A size that cannot be doubled is the largest. -/
theorem eq_capacity {sz : Nat} (least : ttyQSzMin ≤ build.ttyQSz) (held : sz ∈ queueSizes build)
    (largest : build.ttyQSz < sz * 2) : sz = capacity build := by
  obtain ⟨⟨k, rfl⟩, atMost⟩ := held
  have below := (doubled_le_iff least).mp atMost
  have above : ¬ k + 1 ≤ Nat.log 2 (build.ttyQSz / ttyQSzMin) := by
    rw [← doubled_le_iff least, Nat.pow_succ, ← Nat.mul_assoc]
    exact Nat.not_le.mpr largest
  rw [capacity, show Nat.log 2 (build.ttyQSz / ttyQSzMin) = k by omega]

end Sizes

example : capacity { toPlatform := Build.cmake.toPlatform, ttyQSz := 32768 } = 32768 := by decide

/-! ### The representation -/

/-- A block of one of the sizes, with the contents at its start. -/
structure TtyQ.Represented (build : Build) (q : TtyQ) : Prop extends q.Ok where
  size : q.sz ∈ queueSizes build

namespace TtyQ

variable {build : Build} {q : TtyQ}

/-- The queue that `main` starts with. -/
def initial : TtyQ := { sz := ttyQSzMin, len := 0, buff := List.replicate ttyQSzMin 0 }

theorem Represented.initial (least : ttyQSzMin ≤ build.ttyQSz) : TtyQ.initial.Represented build where
  block := List.length_replicate
  fits := Nat.zero_le _
  atLeast := le_rfl
  atMost := by decide
  size := ⟨⟨0, rfl⟩, least⟩

theorem Represented.grow (held : q.Represented build) (int : q.sz * 2 < 2 ^ 31)
    (atMost : q.sz * 2 ≤ build.ttyQSz) (fill : Nat → UInt8) :
    (q.grow (q.sz * 2) fill).Represented build := by
  refine ⟨held.toOk.grow (by omega) int fill, ?_, atMost⟩
  obtain ⟨k, is⟩ := held.size.1
  exact ⟨k + 1, by rw [Nat.pow_succ, ← Nat.mul_assoc, ← is]; rfl⟩

theorem Represented.store (held : q.Represented build) {image : List UInt8}
    (room : q.len + image.length ≤ q.sz) : (q.store image).Represented build :=
  ⟨held.toOk.store room, held.size⟩

theorem Represented.drop (held : q.Represented build) {n : Nat} (inside : n ≤ q.len) :
    (q.drop n).Represented build :=
  ⟨held.toOk.drop inside, held.size⟩

theorem Represented.reset (held : q.Represented build) : { q with len := 0 }.Represented build :=
  ⟨held.toOk.reset, held.size⟩

end TtyQ

/-- `main` allocates the initial queue. -/
theorem allocQueue_initial :
    Triple (fun _ => True) allocQueue (fun _ s => s.ttyQ = .initial) fun _ _ => True := by
  unfold allocQueue
  refine .bind_get fun s _ => ?_
  dsimp only
  split
  · exact .throw fun _ _ => trivial
  · exact .modify fun _ _ => rfl

/-! ### Growth -/

/-- The bytes that a block lacks for the image of a byte. -/
def Session.missing (s : Session) : Nat := s.ttyQ.len + mMaxmap - s.ttyQ.sz

/-- `realloc` never fails, and no size that it is asked for overflows. -/
structure Unfailing (build : Build) (s : Session) : Prop where
  granted : ∀ n, (s.env.realloc n).isSome
  int : build.ttyQSz < 2 ^ 31

/-- What the loop that grows the queue leaves. -/
structure Grows (build : Build) (s s' : Session) : Prop where
  same : s' = { s with
    ttyQ := s'.ttyQ, env := { s.env with realloc := s'.env.realloc } }
  represented : s'.ttyQ.Represented build
  len : s'.ttyQ.len = s.ttyQ.len
  contents : s'.ttyQ.contents = s.ttyQ.contents
  unfailing : Unfailing build s → Unfailing build s'

/-- The turn of the loop in which a block of `sz` bytes is asked for. -/
def Session.asked (s : Session) : Session :=
  { s with env := { s.env with realloc := s.env.realloc.tail } }

/-- And given. -/
def Session.given (s : Session) (fill : Nat → UInt8) : Session :=
  { s.asked with ttyQ := s.ttyQ.grow (toInt (s.ttyQ.sz * 2)).toNat fill }

section Growth

variable {build : Build} {s s' s'' : Session} {n : Nat}

theorem Grows.refl (held : s.ttyQ.Represented build) : Grows build s s :=
  ⟨rfl, held, rfl, rfl, id⟩

theorem Grows.trans (first : Grows build s s') (second : Grows build s' s'') :
    Grows build s s'' := by
  refine ⟨?_, second.represented, second.len.trans first.len,
    second.contents.trans first.contents, second.unfailing ∘ first.unfailing⟩
  rw [second.same, first.same]

theorem Grows.asked (held : s.ttyQ.Represented build) : Grows build s s.asked where
  same := rfl
  represented := held
  len := rfl
  contents := rfl
  unfailing sure := ⟨fun n => sure.granted (n + 1), sure.int⟩

/-- The four ends of a turn. -/
theorem run_growQueue_succ :
    (growQueue build (n + 1)).run s =
      if s.ttyQ.len + mMaxmap ≤ s.ttyQ.sz then .ok true s
      else if build.ttyQSz ≠ 0 ∧ (build.ttyQSz : Int) < toInt (s.ttyQ.sz * 2) then .ok false s
      else
        match if toInt (s.ttyQ.sz * 2) ≤ 0 then none else s.env.realloc.head with
        | none => .ok false s.asked
        | some fill => (growQueue build n).run (s.given fill) := by
  rw [growQueue]
  simp only [EStateM.run_bind, EStateM.run_get]
  split
  · rfl
  split
  · rfl
  simp only [realloc, EStateM.run_bind, run_nextReply, EStateM.run_pure]
  cases (if toInt (s.ttyQ.sz * 2) ≤ 0 then none else s.env.realloc.head) with
  | none => rfl
  | some fill => rfl

/-- An `int` that is not positive when it is doubled overflows. -/
theorem overflow_of_nonpos {sz : Nat} (positive : 0 < sz) (negative : toInt (sz * 2) ≤ 0) :
    2 ^ 31 ≤ sz * 2 := by
  unfold toInt at negative
  rw [BitVec.toInt_ofInt, Int.bmod_def] at negative
  split at negative <;> omega

/-- A turn that gains room doubles the size. -/
theorem Grows.given (held : s.ttyQ.Represented build) (positive : ¬ toInt (s.ttyQ.sz * 2) ≤ 0)
    (small : ¬ (build.ttyQSz ≠ 0 ∧ (build.ttyQSz : Int) < toInt (s.ttyQ.sz * 2)))
    (fill : Nat → UInt8) :
    Grows build s (s.given fill) ∧ (s.given fill).ttyQ.sz = s.ttyQ.sz * 2 := by
  obtain ⟨double, int⟩ := toInt_double held.atMost (by omega)
  have twice : (toInt (s.ttyQ.sz * 2)).toNat = s.ttyQ.sz * 2 := by omega
  have atLeast := held.atLeast
  have atMost := held.size.2
  have within : s.ttyQ.sz * 2 ≤ build.ttyQSz := by
    unfold ttyQSzMin at atLeast
    omega
  have grown : (s.given fill).ttyQ = s.ttyQ.grow (s.ttyQ.sz * 2) fill := by
    rw [Session.given, twice]
  refine ⟨⟨rfl, ?_, rfl, ?_, ?_⟩, by rw [grown]; rfl⟩
  · rw [grown]
    exact held.grow int within fill
  · rw [grown]
    exact TtyQ.contents_grow held.toOk _ fill
  · exact fun sure => ⟨fun n => sure.granted (n + 1), sure.int⟩

/-- The loop says whether there is room for the image of a byte, where it has as many turns as there
are bytes missing; where nothing fails there is none only in a full queue of the largest size. -/
theorem growQueue_grows (least : ttyQSzMin ≤ build.ttyQSz) (held : s.ttyQ.Represented build)
    (n : Nat) :
    ∃ room s', (growQueue build n).run s = .ok room s' ∧ Grows build s s' ∧
      (s.missing ≤ n → (room = true ↔ s'.ttyQ.len + mMaxmap ≤ s'.ttyQ.sz)) ∧
      (Unfailing build s → room = false → capacity build < s'.ttyQ.len + mMaxmap) := by
  induction n generalizing s with
  | zero =>
      refine ⟨true, s, rfl, .refl held, fun none => ?_, nofun⟩
      simp only [Session.missing, true_iff] at none ⊢
      omega
  | succ n ih =>
      rw [run_growQueue_succ]
      split
      · next room => exact ⟨true, s, rfl, .refl held, fun _ => by simpa using room, nofun⟩
      next full =>
      split
      · next large =>
        refine ⟨false, s, rfl, .refl held, fun _ => by simpa using full, fun _ _ => ?_⟩
        have double := (toInt_double held.atMost (by omega)).1
        rw [← eq_capacity least held.size (by omega)]
        omega
      next small =>
      split
      · next failed =>
        refine ⟨false, s.asked, rfl, .asked held,
          fun _ => by simpa [Session.asked] using full, fun sure _ => ?_⟩
        have overflow : build.ttyQSz < s.ttyQ.sz * 2 := by
          apply sure.int.trans_le
          apply overflow_of_nonpos (held.atLeast.trans' (by decide))
          by_contra positive
          rw [if_neg positive] at failed
          exact absurd (sure.granted 0) (by simpa [Stream'.head, Stream'.get] using failed)
        rw [← eq_capacity least held.size overflow]
        change s.ttyQ.sz < s.ttyQ.len + mMaxmap
        omega
      · next fill granted =>
        have positive : ¬ toInt (s.ttyQ.sz * 2) ≤ 0 := by
          intro negative
          simp [negative] at granted
        obtain ⟨step, double⟩ := Grows.given held positive small fill
        obtain ⟨room, s', ran, rest, enough, refuses⟩ := ih step.represented
        refine ⟨room, s', ran, step.trans rest, fun short => enough ?_, fun sure =>
          refuses (step.unfailing sure)⟩
        have atLeast := held.atLeast
        simp only [Session.missing, double, step.len, ttyQSzMin] at short atLeast ⊢
        omega

/-- More turns than bytes that are missing change nothing: the loop has come to its end before. -/
theorem growQueue_ends {m : Nat} (held : s.ttyQ.Represented build) (enough : s.missing ≤ n)
    (enough' : s.missing ≤ m) : (growQueue build n).run s = (growQueue build m).run s := by
  have roomy : s.missing = 0 → s.ttyQ.len + mMaxmap ≤ s.ttyQ.sz := Nat.le_of_sub_eq_zero
  induction n generalizing s m with
  | zero =>
      cases m with
      | zero => rfl
      | succ m =>
          rw [run_growQueue_succ, if_pos (roomy (Nat.le_zero.mp enough))]
          rfl
  | succ n ih =>
      cases m with
      | zero =>
          rw [run_growQueue_succ, if_pos (roomy (Nat.le_zero.mp enough'))]
          rfl
      | succ m =>
          rw [run_growQueue_succ, run_growQueue_succ]
          split
          · rfl
          split
          · rfl
          next small =>
          split
          · rfl
          next fill granted =>
          have positive : ¬ toInt (s.ttyQ.sz * 2) ≤ 0 := by
            intro negative
            simp [negative] at granted
          obtain ⟨step, double⟩ := Grows.given held positive small fill
          have atLeast := held.atLeast
          have less : (s.given fill).missing ≤ s.missing - 1 := by
            simp only [Session.missing, double, step.len, ttyQSzMin] at atLeast ⊢
            omega
          exact ih step.represented (by omega) (by omega) Nat.le_of_sub_eq_zero

end Growth

/-! ### A byte -/

/-- The message of a local echo that was cut short. -/
def echoFailed : String := "write to stdout failed: %s"

/-- What a stored byte leaves in the history. -/
def Opts.recorded (opts : Opts) (b : UInt8) : List Event :=
  .accept b :: if opts.lecho then [.put sto (doMapBytes opts.emap b)] else []

/-- The state in which the image of `b` is stored. -/
def Session.stored (s : Session) (b : UInt8) : Session :=
  { s with
    ttyQ := s.ttyQ.store (doMapBytes s.opts.omap b)
    trace := s.trace ++ [.accept b] }

/-- The state after a write of `buff` to `fd`. -/
def Session.putTo (s : Session) (fd : Int) (buff : List UInt8) : Session :=
  { s with
    env := { s.env with put := s.env.put.tail }
    trace := s.trace ++ [.put fd (buff.take s.env.put.head)] }

/-- Standard output takes whole images. -/
def Session.EchoTaken (s : Session) : Prop := ∀ n, mMaxmap ≤ s.env.put n

theorem doMap_eq_some {map : Word} (keeps : ¬ Ignores map) (b : UInt8) :
    doMap map b = some (doMapBytes map b) := by
  rw [doMap_eq, if_neg]
  intro nothing
  exact keeps ((ignores_iff map).mpr ⟨b, (doMap_eq_none_iff map b).mpr nothing⟩)

theorem run_writeAll (fd : Int) (buff : List UInt8) (message : String) (s : Session) :
    (writeAll fd buff message).run s =
      if s.env.put.head < buff.length then .error (.fatal message) (s.putTo fd buff)
      else .ok ⟨⟩ (s.putTo fd buff) := by
  have wrote : (writenNi fd buff).run s =
      .ok (buff.take s.env.put.head).length (s.putTo fd buff) := rfl
  unfold writeAll
  rw [EStateM.run_bind, wrote]
  simp only [List.length_take, inf_lt_right, not_le]
  split <;> rfl

theorem run_mapAndWrite {fd : Int} {map : Word} (keeps : ¬ Ignores map) (b : UInt8)
    (s : Session) :
    (mapAndWrite fd map b).run s =
      if s.env.put.head < (doMapBytes map b).length then
        .error (.fatal echoFailed) (s.putTo fd (doMapBytes map b))
      else .ok ⟨⟩ (s.putTo fd (doMapBytes map b)) := by
  have mapped := doMap_eq_some keeps b
  have positive := (doMap_image mapped).2.1
  unfold mapAndWrite
  rw [mapped]
  dsimp only
  rw [if_pos positive.ne', run_writeAll]
  rfl

section Push

variable {build : Build} {s : Session} {b : UInt8}

/-- What is left where a byte is stored. -/
structure Stored (build : Build) (s : Session) (b : UInt8) (s' : Session) : Prop where
  represented : s'.ttyQ.Represented build
  len : s'.ttyQ.len = s.ttyQ.len + (doMapBytes s.opts.omap b).length
  contents : s'.ttyQ.contents = s.ttyQ.contents ++ doMapBytes s.opts.omap b
  trace : s'.trace = s.trace ++ s.opts.recorded b
  opts : s'.opts = s.opts
  budget : s'.budget = s.budget
  unfailing : Unfailing build s → Unfailing build s'
  echoTaken : s.EchoTaken → s'.EchoTaken

/-- What is left where its echo is cut short. -/
structure EchoCut (build : Build) (s : Session) (b : UInt8) (s' : Session) : Prop where
  represented : s'.ttyQ.Represented build
  opts : s'.opts = s.opts
  contents : s'.ttyQ.contents = s.ttyQ.contents ++ doMapBytes s.opts.omap b
  lecho : s.opts.lecho = true
  short : ¬ s.EchoTaken

/-- Where there is room the image of the byte is stored and, with local echo, its echo written. -/
theorem pushByte_stores {s₀ : Session} (omap : ¬ Ignores s.opts.omap) (emap : ¬ Ignores s.opts.emap)
    (grew : (growQueue build s.missing).run s = .ok true s₀) (step : Grows build s s₀)
    (room : s₀.ttyQ.len + mMaxmap ≤ s₀.ttyQ.sz) :
    (∃ s', (pushByte build b).run s = .ok true s' ∧ Stored build s b s') ∨
      ∃ s', (pushByte build b).run s = .error (.fatal echoFailed) s' ∧ EchoCut build s b s' := by
  have opts : s₀.opts = s.opts := by rw [step.same]
  have short : (doMapBytes s.opts.omap b).length ≤ mMaxmap := length_doMapBytes _ _
  have represented : (s₀.stored b).ttyQ.Represented build :=
    step.represented.store (by rw [opts]; omega)
  have contents : (s₀.stored b).ttyQ.contents = s.ttyQ.contents ++ doMapBytes s.opts.omap b := by
    rw [Session.stored, TtyQ.contents_store step.represented.toOk, step.contents, opts]
  have ran : (pushByte build b).run s =
      (do
        if s.opts.lecho then mapAndWrite sto s.opts.emap b
        return true : SessionM Bool).run (s₀.stored b) := by
    unfold pushByte
    rw [EStateM.run_bind, EStateM.run_get]
    simp only
    rw [EStateM.run_bind, show s.ttyQ.len + mMaxmap - s.ttyQ.sz = s.missing from rfl, grew]
    simp only [if_true]
    rw [doMap_eq_some omap, ← opts]
    rfl
  rw [ran]
  have len : (s₀.stored b).ttyQ.len = s.ttyQ.len + (doMapBytes s.opts.omap b).length := by
    rw [Session.stored, ← step.len, opts]
    rfl
  have budget : s₀.budget = s.budget := by rw [step.same]
  have trace : s₀.trace = s.trace := by rw [step.same]
  have put : s₀.env.put = s.env.put := by rw [step.same]
  have granted : Unfailing build s → ∀ n, (s₀.env.realloc n).isSome := fun sure =>
    (step.unfailing sure).granted
  by_cases lecho : s.opts.lecho = true
  · rw [if_pos lecho, EStateM.run_bind, run_mapAndWrite emap]
    have head : (s₀.stored b).env.put.head = s.env.put.head := congrArg Stream'.head put
    by_cases cut : s.env.put.head < (doMapBytes s.opts.emap b).length
    · rw [head, if_pos cut]
      refine .inr ⟨_, rfl, represented, opts, contents, lecho, fun taken => ?_⟩
      exact absurd ((taken 0).trans_lt cut) (length_doMapBytes s.opts.emap b).not_gt
    · rw [head, if_neg cut]
      refine .inl ⟨_, rfl, represented, len, contents, ?_, opts, budget,
        fun sure => ⟨granted sure, sure.int⟩, ?_⟩
      · have all : (doMapBytes s.opts.emap b).take s.env.put.head = doMapBytes s.opts.emap b :=
          List.take_of_length_le (Nat.not_lt.mp cut)
        rw [Session.putTo, head, all]
        simp [Session.stored, Opts.recorded, lecho, trace]
      · intro taken n
        change mMaxmap ≤ s₀.env.put (n + 1)
        exact put ▸ taken (n + 1)
  · rw [if_neg lecho]
    refine .inl ⟨_, rfl, represented, len, contents, ?_, opts, budget,
      fun sure => ⟨granted sure, sure.int⟩, ?_⟩
    · simp [Session.stored, Opts.recorded, lecho, trace]
    · intro taken n
      change mMaxmap ≤ s₀.env.put n
      exact put ▸ taken n

/-- A byte that is pushed is refused, stored, or stored with its echo cut short. It is refused where
there is no room for an image, and stored only where there is in the largest size. -/
theorem pushByte_outcome (least : ttyQSzMin ≤ build.ttyQSz) (held : s.ttyQ.Represented build)
    (omap : ¬ Ignores s.opts.omap) (emap : ¬ Ignores s.opts.emap) :
    (∃ s', (pushByte build b).run s = .ok false s' ∧ Grows build s s' ∧
        s'.ttyQ.sz < s'.ttyQ.len + mMaxmap ∧
        (Unfailing build s → capacity build < s.ttyQ.len + mMaxmap)) ∨
      (∃ s', (pushByte build b).run s = .ok true s' ∧ Stored build s b s' ∧
        s.ttyQ.len + mMaxmap ≤ capacity build) ∨
      ∃ s', (pushByte build b).run s = .error (.fatal echoFailed) s' ∧ EchoCut build s b s' := by
  obtain ⟨room, s₀, grew, step, tells, refuses⟩ := growQueue_grows least held s.missing
  cases room with
  | false =>
      left
      refine ⟨s₀, ?_, step, ?_, fun sure => step.len ▸ refuses sure rfl⟩
      · unfold pushByte
        rw [EStateM.run_bind, EStateM.run_get]
        simp only
        rw [EStateM.run_bind, show s.ttyQ.len + mMaxmap - s.ttyQ.sz = s.missing from rfl, grew]
        rfl
      · simpa using tells le_rfl
  | true =>
      have room := (tells le_rfl).mp rfl
      have below : s.ttyQ.len + mMaxmap ≤ capacity build :=
        step.len ▸ room.trans ((isGreatest_capacity least).2 step.represented.size)
      rcases pushByte_stores omap emap grew step room with ⟨s', ran, stored⟩ | cut
      · exact .inr (.inl ⟨s', ran, stored, below⟩)
      · exact .inr (.inr cut)

end Push

/-! ### A call -/

/-- What a call of `tty_q_push` leaves that accepts `i` of the bytes. -/
structure Pushed (build : Build) (s : Session) (bytes : List UInt8) (i : Nat) (s' : Session) :
    Prop where
  some : i ≤ bytes.length
  represented : s'.ttyQ.Represented build
  contents : s'.ttyQ.contents =
    s.ttyQ.contents ++ (bytes.take i).flatMap (doMapBytes s.opts.omap)
  trace : s'.trace = s.trace ++ (bytes.take i).flatMap s.opts.recorded
  opts : s'.opts = s.opts
  full : i < bytes.length → s'.ttyQ.sz < s'.ttyQ.len + mMaxmap
  refused : Unfailing build s → ∀ j ≤ i, j < bytes.length →
    (j = i ↔ capacity build <
      s.ttyQ.len + ((bytes.take j).flatMap (doMapBytes s.opts.omap)).length + mMaxmap)

/-- What is left where a call does not return. It is observed before it is done with the bytes, or an
echo is cut short. -/
structure Interrupted (build : Build) (s : Session) (bytes : List UInt8) (stop : Stop)
    (s' : Session) : Prop where
  represented : s'.ttyQ.Represented build
  opts : s'.opts = s.opts
  contents : ∃ i ≤ bytes.length, s'.ttyQ.contents =
    s.ttyQ.contents ++ (bytes.take i).flatMap (doMapBytes s.opts.omap)
  stopped : (stop = .observed ∧ s.budget < bytes.length) ∨
    (stop = .fatal echoFailed ∧ s.opts.lecho = true ∧ ¬ s.EchoTaken)

/-- A call of `tty_q_push` that returns is `Pushed`, and one that does not is `Interrupted`. -/
structure Accepts (build : Build) (s : Session) (bytes : List UInt8) : Prop where
  returns : ∀ i s', (ttyQPush build bytes).run s = .ok i s' → Pushed build s bytes i s'
  stops : ∀ stop s', (ttyQPush build bytes).run s = .error stop s' →
    Interrupted build s bytes stop s'

section Call

variable {build : Build} {s s' s'' : Session} {b : UInt8} {rest : List UInt8} {n i : Nat}

/-- A byte was stored, and then `i` of the rest. -/
theorem Pushed.after (pushed : Pushed build s' rest i s'')
    (stored : Stored build { s with budget := n } b s')
    (below : s.ttyQ.len + mMaxmap ≤ capacity build) : Pushed build s (b :: rest) (1 + i) s'' := by
  have opts : s'.opts = s.opts := stored.opts
  have first : ∀ {α : Type} (f : UInt8 → List α) (j : Nat),
      ((b :: rest).take (1 + j)).flatMap f = f b ++ (rest.take j).flatMap f := by
    intro α f j
    rw [Nat.add_comm, List.take_succ_cons, List.flatMap_cons]
  refine ⟨?_, pushed.represented, ?_, ?_, pushed.opts.trans opts, ?_, ?_⟩
  · have few := pushed.some
    simp only [List.length_cons]
    omega
  · rw [pushed.contents, stored.contents, first, List.append_assoc, opts]
  · rw [pushed.trace, stored.trace, first, List.append_assoc, opts]
  · intro more
    exact pushed.full (by simpa [Nat.add_comm] using more)
  · intro sure j upTo inside
    cases j with
    | zero =>
        simp only [List.take_zero, List.flatMap_nil, List.length_nil, Nat.add_zero]
        omega
    | succ j =>
        have later := pushed.refused (stored.unfailing ⟨sure.granted, sure.int⟩) j (by omega)
          (by simpa using inside)
        have len : s'.ttyQ.len = s.ttyQ.len + (doMapBytes s.opts.omap b).length := stored.len
        rw [Nat.add_comm j 1, first, List.length_append, Nat.add_right_inj, later, len, opts,
          Nat.add_assoc s.ttyQ.len]

theorem Interrupted.after {stop : Stop} (cut : Interrupted build s' rest stop s'')
    (budget : s.budget = n + 1) (stored : Stored build { s with budget := n } b s') :
    Interrupted build s (b :: rest) stop s'' := by
  have opts : s'.opts = s.opts := stored.opts
  have left : s'.budget = n := stored.budget
  refine ⟨cut.represented, cut.opts.trans opts, ?_, ?_⟩
  · obtain ⟨i, few, contents⟩ := cut.contents
    refine ⟨i + 1, by simpa using few, ?_⟩
    rw [contents, stored.contents, List.take_succ_cons, List.flatMap_cons, List.append_assoc, opts]
  · rcases cut.stopped with ⟨observed, budget'⟩ | ⟨failed, lecho, short⟩
    · exact .inl ⟨observed, by simp only [List.length_cons]; omega⟩
    · exact .inr ⟨failed, opts ▸ lecho, fun taken => short (stored.echoTaken taken)⟩

end Call

theorem ttyQPush_outcome {build : Build} (least : ttyQSzMin ≤ build.ttyQSz) (bytes : List UInt8)
    {s : Session} (held : s.ttyQ.Represented build) (omap : ¬ Ignores s.opts.omap)
    (emap : ¬ Ignores s.opts.emap) :
    (∃ i s', (ttyQPush build bytes).run s = .ok i s' ∧ Pushed build s bytes i s') ∨
      ∃ stop s', (ttyQPush build bytes).run s = .error stop s' ∧
        Interrupted build s bytes stop s' := by
  induction bytes generalizing s with
  | nil =>
      left
      exact ⟨0, s, rfl, le_rfl, held, by simp, by simp, rfl, nofun, nofun⟩
  | cons b rest ih =>
      unfold ttyQPush
      rw [EStateM.run_bind]
      cases budget : s.budget with
      | zero =>
          right
          refine ⟨.observed, s, by simp [checkpoint, budget], held, rfl, ⟨0, by simp, by simp⟩, ?_⟩
          exact .inl ⟨rfl, by simp [budget]⟩
      | succ n =>
      rw [run_checkpoint budget]
      simp only
      rw [EStateM.run_bind]
      rcases pushByte_outcome (s := { s with budget := n }) (b := b) least held omap emap with
        ⟨s', ran, step, full, refuses⟩ | ⟨s', ran, stored, below⟩ | ⟨s', ran, cut⟩
      · left
        rw [ran]
        refine ⟨0, s', rfl, Nat.zero_le _, step.represented, by simp [step.contents], ?_, ?_,
          fun _ => full, fun sure j first _ => ?_⟩
        · rw [step.same]
          simp
        · rw [step.same]
        · cases Nat.le_zero.mp first
          simpa using refuses ⟨sure.granted, sure.int⟩
      · rw [ran]
        simp only [if_true]
        rw [EStateM.run_bind]
        have opts : s'.opts = s.opts := stored.opts
        rcases ih stored.represented (opts ▸ omap) (opts ▸ emap) with
          ⟨i, s'', ran, pushed⟩ | ⟨stop, s'', ran, cut⟩
        · left
          rw [ran]
          exact ⟨1 + i, s'', rfl, pushed.after stored below⟩
        · right
          rw [ran]
          exact ⟨stop, s'', rfl, cut.after budget stored⟩
      · right
        rw [ran]
        refine ⟨_, s', rfl, cut.represented, cut.opts, ⟨1, by simp, by simp [cut.contents]⟩, ?_⟩
        exact .inr ⟨rfl, cut.lecho, cut.short⟩

/-! ### Sequences of calls -/

/-- What is done to the queue. -/
inductive QueueOp where
  | push (bytes : List UInt8)
  | write
  | reset (setting : Setting)

/-- The function that does it. -/
def QueueOp.exec (build : Build) : QueueOp → SessionM Unit
  | .push bytes => discard (ttyQPush build bytes)
  | .write => writePort
  | .reset setting => discardQueue setting

/-- Something is done to the queue, or anything but the queue and the maps changes. -/
inductive QueueStep (build : Build) : Session → Session → Prop where
  | call (s : Session) (op : QueueOp) : QueueStep build s (final ((op.exec build).run s))
  | other {s s' : Session} : s'.ttyQ = s.ttyQ → s'.maps = s.maps → QueueStep build s s'

/-- The queue is represented, and the maps are these. -/
def QueueInv (build : Build) (maps : Word × Word × Word) (s : Session) : Prop :=
  s.ttyQ.Represented build ∧ s.maps = maps

section Runs

variable {build : Build} {imap omap emap : Word} (least : ttyQSzMin ≤ build.ttyQSz)
  (keepO : ¬ Ignores omap) (keepE : ¬ Ignores emap)

theorem rules_queueInv (build : Build) (maps : Word × Word × Word) :
    Rules (QueueInv build maps) fun _ => QueueInv build maps where
  quiet step held := ⟨step.ttyQ ▸ held.1, step.toFrame.maps.trans held.2⟩
  stop _ held := held

include least keepO keepE in
theorem ttyQPush_keeps (bytes : List UInt8) :
    Maintains (QueueInv build (imap, omap, emap)) (fun _ => QueueInv build (imap, omap, emap))
      (ttyQPush build bytes) := by
  rintro s ⟨held, maps⟩
  obtain ⟨-, is⟩ := Prod.mk.inj maps
  obtain ⟨isO, isE⟩ := Prod.mk.inj is
  rcases ttyQPush_outcome least bytes held (isO ▸ keepO) (isE ▸ keepE) with
    ⟨i, s', ran, pushed⟩ | ⟨stop, s', ran, cut⟩
  · rw [ran]
    exact ⟨pushed.represented, (congrArg (fun o : Opts => (o.imap, o.omap, o.emap))
      pushed.opts).trans maps⟩
  · rw [ran]
    exact ⟨cut.represented, (congrArg (fun o : Opts => (o.imap, o.omap, o.emap))
      cut.opts).trans maps⟩

theorem writePort_keeps (maps : Word × Word × Word) :
    Maintains (QueueInv build maps) (fun _ => QueueInv build maps) writePort := by
  refine writePort_triple (rules_queueInv build maps) id ?_ ?_
  · exact fun held _ quiet => ⟨quiet.ttyQ ▸ held.1, quiet.toFrame.maps.trans held.2⟩
  · intro s s' taken held _ start quiet
    have inside := TtyQ.length_contents held.1.toOk ▸ start.length_le
    refine ⟨?_, quiet.toFrame.maps.trans held.2⟩
    change (s'.ttyQ.drop taken.length).Represented build
    have same : s'.ttyQ = s.ttyQ := quiet.ttyQ
    rw [same]
    exact held.1.drop inside

theorem discardQueue_keeps (maps : Word × Word × Word) (setting : Setting) :
    Maintains (QueueInv build maps) (fun _ => QueueInv build maps) (discardQueue setting) :=
  .read fun _ _ => .bind (Q := fun _ => QueueInv build maps) (.modify fun _ => id) fun _ =>
    .modify fun _ held => ⟨held.1.reset, held.2⟩

include least keepO keepE in
/-- Every step keeps the queue represented. -/
theorem QueueStep.keeps {s s' : Session} (step : QueueStep build s s')
    (held : QueueInv build (imap, omap, emap) s) : QueueInv build (imap, omap, emap) s' := by
  cases step with
  | other ttyQ maps => exact ⟨ttyQ ▸ held.1, maps.trans held.2⟩
  | call op =>
      cases op with
      | push bytes => exact (ttyQPush_keeps least keepO keepE bytes).discard.final held
      | write => exact (writePort_keeps _).final held
      | reset setting => exact (discardQueue_keeps _ setting).final held

end Runs

/-- The loop that grows the queue comes to its end, where it says whether there is room for an image;
`do_map` is called where it says so. -/
structure GrowthEnds (build : Build) (s : Session) : Prop where
  ends : ∀ n, s.missing ≤ n → (growQueue build n).run s = (growQueue build s.missing).run s
  grows : ∃ room s', (growQueue build s.missing).run s = .ok room s' ∧
    s'.ttyQ.Represented build ∧ s'.ttyQ.contents = s.ttyQ.contents ∧
    (room = true ↔ s'.ttyQ.len + mMaxmap ≤ s'.ttyQ.sz)

/-- In every sequence of calls of `tty_q_push`, writes to the port and resets, from the queue that
`main` allocates, with maps that pass the assertion, the queue is represented, its growth ends, and a
call accepts what it says. -/
theorem queue_accepts {build : Build} {before start s : Session}
    (least : ttyQSzMin ≤ build.ttyQSz) (allocated : allocQueue.run before = .ok ⟨⟩ start)
    (omap : ¬ Ignores start.opts.omap) (emap : ¬ Ignores start.opts.emap)
    (run : Relation.ReflTransGen (QueueStep build) start s) :
    s.ttyQ.Represented build ∧ GrowthEnds build s ∧ ∀ bytes, Accepts build s bytes := by
  have initial := allocQueue_initial before trivial
  rw [allocated] at initial
  have first : QueueInv build start.maps start :=
    ⟨initial ▸ TtyQ.Represented.initial least, rfl⟩
  have held : QueueInv build start.maps s := by
    induction run with
    | refl => exact first
    | tail _ step ih => exact step.keeps least omap emap ih
  obtain ⟨-, is⟩ := Prod.mk.inj held.2
  obtain ⟨isO, isE⟩ := Prod.mk.inj is
  refine ⟨held.1, ⟨fun n enough => growQueue_ends held.1 enough le_rfl, ?_⟩, fun bytes => ?_⟩
  · obtain ⟨room, s', ran, step, tells, -⟩ := growQueue_grows least held.1 s.missing
    exact ⟨room, s', ran, step.represented, step.contents, tells le_rfl⟩
  · have outcome := ttyQPush_outcome least bytes held.1 (isO ▸ omap) (isE ▸ emap)
    constructor
    · intro i s' ran
      rcases outcome with ⟨i', s'', ran', pushed⟩ | ⟨stop, s'', ran', -⟩
      · cases ran.symm.trans ran'
        exact pushed
      · cases ran.symm.trans ran'
    · intro stop s' ran
      rcases outcome with ⟨i', s'', ran', -⟩ | ⟨stop', s'', ran', cut⟩
      · cases ran.symm.trans ran'
      · cases ran.symm.trans ran'
        exact cut

/-- A byte is pushed, and the port takes it. -/
theorem queue_accepts_byte :
    ∃ start s, allocQueue.run (.start .default .fresh (.works [] [] [] (fun _ => false)
        fun _ => false) 9) = .ok ⟨⟩ start ∧ s.ttyQ.Represented .cmake ∧ GrowthEnds .cmake s ∧
      ∀ bytes, Accepts .cmake s bytes := by
  let before : Session :=
    .start .default .fresh (.works [] [] [] (fun _ => false) fun _ => false) 9
  let start : Session := { before with ttyQ := .initial }
  have allocated : allocQueue.run before = .ok ⟨⟩ start := rfl
  have omap : ¬ Ignores mODfl := by
    unfold Ignores
    decide
  have emap : ¬ Ignores mEDfl := by
    unfold Ignores
    decide
  have pushed : QueueStep .cmake start _ := .call start (.push [0x61])
  have written : QueueStep .cmake (final (discard (ttyQPush .cmake [0x61]) |>.run start)) _ :=
    .call _ .write
  exact ⟨start, _, allocated,
    queue_accepts (by decide) allocated omap emap (.tail (.single pushed) written)⟩

end Ppcom
