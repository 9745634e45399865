/-
Module: Ppcom.Proofs.QueueSteps
Purpose: The output queue is a block that holds its contents at the start. What growing, storing,
  writing and resetting do to the contents, and rules for `tty_q_push` and the write to the port that
  follow from it.
Trusted boundary: none
Main exports: TtyQ.Ok, Grown, growQueue_triple, StoreRules, PushRules, PushRules.ttyQPush, writePort_triple
-/
import Ppcom.Proofs.LoopRules

namespace Ppcom

open Program

/-! ### The block -/

/-- A block with room for the smallest queue, whose size is an `int`. -/
structure TtyQ.Ok (q : TtyQ) : Prop where
  block : q.buff.length = q.sz
  fits : q.len ≤ q.sz
  atLeast : ttyQSzMin ≤ q.sz
  atMost : q.sz < 2 ^ 31

namespace TtyQ

variable {q : TtyQ}

theorem Ok.len_le (ok : q.Ok) : q.len ≤ q.buff.length := ok.block ▸ ok.fits

theorem length_contents (ok : q.Ok) : q.contents.length = q.len := by
  simp [contents, ok.len_le]

theorem Ok.grow (ok : q.Ok) {sz : Nat} (larger : q.sz ≤ sz) (atMost : sz < 2 ^ 31)
    (fill : Nat → UInt8) : (q.grow sz fill).Ok := by
  refine ⟨?_, ok.fits.trans larger, ok.atLeast.trans larger, atMost⟩
  simp only [TtyQ.grow, List.length_append, List.length_map, List.length_range, ok.block]
  omega

theorem contents_grow (ok : q.Ok) (sz : Nat) (fill : Nat → UInt8) :
    (q.grow sz fill).contents = q.contents :=
  Buffer.take_grow ok.len_le

theorem Ok.store (ok : q.Ok) {image : List UInt8} (room : q.len + image.length ≤ q.sz) :
    (q.store image).Ok := by
  refine ⟨?_, room, ok.atLeast, ok.atMost⟩
  rw [TtyQ.store, Buffer.length_blit (ok.block ▸ room), ok.block]

theorem contents_store (ok : q.Ok) (image : List UInt8) :
    (q.store image).contents = q.contents ++ image :=
  Buffer.take_blit ok.len_le

theorem Ok.drop (ok : q.Ok) {n : Nat} (held : n ≤ q.len) : (q.drop n).Ok := by
  have fits := ok.len_le
  refine ⟨?_, (Nat.sub_le _ _).trans ok.fits, ok.atLeast, ok.atMost⟩
  rw [TtyQ.drop, Buffer.length_moveDown (by omega), ok.block]

theorem contents_drop (ok : q.Ok) {n : Nat} (held : n ≤ q.len) :
    (q.drop n).contents = q.contents.drop n := by
  have fits := ok.len_le
  have inside : n + (q.len - n) ≤ q.buff.length := by omega
  have moved := Buffer.take_moveDown inside
  rw [Nat.add_sub_cancel' held] at moved
  exact moved

theorem Ok.reset (ok : q.Ok) : { q with len := 0 }.Ok :=
  ⟨ok.block, Nat.zero_le _, ok.atLeast, ok.atMost⟩

@[simp] theorem contents_reset (q : TtyQ) : { q with len := 0 }.contents = [] := rfl

/-- What the port takes is the start of the contents. -/
theorem taken_prefix (q : TtyQ) (ttyWriteSz : Int) (reply : Option Nat) :
    q.taken (q.request ttyWriteSz) reply <+: q.contents := by
  cases reply with
  | none => exact List.nil_prefix
  | some k =>
      have small : (q.request ttyWriteSz).toNat ≤ q.len := by
        unfold request
        split <;> omega
      exact (List.take_prefix _ _).trans (List.take_prefix_take_left small)

end TtyQ

/-! ### Growth -/

/-- The queue has as much or more room and the same contents; what else happened is a reply. -/
structure Grown (s s' : Session) : Prop extends Frame (fun _ => False) s s' where
  ok : s.ttyQ.Ok → s'.ttyQ.Ok
  len : s'.ttyQ.len = s.ttyQ.len
  contents : s.ttyQ.Ok → s'.ttyQ.contents = s.ttyQ.contents
  state : s'.state = s.state
  stdin : s'.env.stdin = s.env.stdin

/-- Doubling an `int` gives the double or a negative value. -/
theorem toInt_double {sz : Nat} (small : sz < 2 ^ 31) (pos : 0 < toInt (sz * 2)) :
    toInt (sz * 2) = sz * 2 ∧ sz * 2 < 2 ^ 31 := by
  unfold toInt at pos ⊢
  rw [BitVec.toInt_ofInt, Int.bmod_def] at pos ⊢
  split at pos <;> split <;> omega

theorem realloc_triple {P : Session → Prop} {E : Stop → Session → Prop}
    (reply : ∀ {s} rest, P s → P { s with env := { s.env with realloc := rest } }) (sz : Int) :
    Triple P (realloc sz) (fun fill s => P s ∧ (fill.isSome → 0 < sz)) E := by
  have next : Maintains P E (nextReply Env.realloc fun env rest => { env with realloc := rest }) :=
    fun s start => reply (s := s) _ start
  refine .bind next fun fill => .pure fun s start => ⟨start, ?_⟩
  split
  · simp
  · intro _
    omega

/-- `growQueue` says whether there is room for the image of a byte. -/
theorem growQueue_triple {build : Build} {P : Session → Prop} {E : Stop → Session → Prop}
    (grown : ∀ {s s'}, Grown s s' → P s → P s') (ok : ∀ {s}, P s → s.ttyQ.Ok) (n : Nat) :
    Triple (fun s => P s ∧ s.ttyQ.len + mMaxmap - s.ttyQ.sz ≤ n) (growQueue build n)
      (fun room s => P s ∧ (room = true ↔ s.ttyQ.len + mMaxmap ≤ s.ttyQ.sz)) E := by
  induction n with
  | zero =>
      refine .pure fun s start => ⟨start.1, ?_⟩
      have room := start.2
      simp only [true_iff]
      omega
  | succ n ih =>
      unfold growQueue
      refine .bind_get fun s start => ?_
      have valid := ok start.1
      dsimp only
      split
      · next room => exact .pure fun s' here => ⟨here.2.1, by simpa [here.1] using room⟩
      next full =>
      have no : ∀ s', s' = s ∧ P s' ∧ s'.ttyQ.len + mMaxmap - s'.ttyQ.sz ≤ n + 1 →
          P s' ∧ (false = true ↔ s'.ttyQ.len + mMaxmap ≤ s'.ttyQ.sz) :=
        fun s' here => ⟨here.2.1, by simpa [here.1] using full⟩
      split
      · exact .pure no
      refine .bind ((realloc_triple (P := fun s' => P s' ∧ s'.ttyQ = s.ttyQ) ?_ _).pre
        fun s' here => ⟨here.2.1, congrArg Session.ttyQ here.1⟩) fun fill => ?_
      · intro s' rest here
        exact ⟨grown (s := s') ⟨.of rfl rfl id rfl, id, rfl, fun _ => rfl, rfl, rfl⟩ here.1, here.2⟩
      cases fill with
      | none => exact .pure fun s' here => ⟨here.1.1, by simpa [here.1.2] using full⟩
      | some fill =>
          refine .bind (.modify fun s' here => ?_) fun _ => ih
          obtain ⟨⟨held, same⟩, pos⟩ := here
          obtain ⟨double, atMost⟩ := toInt_double valid.atMost (pos rfl)
          have twice : (toInt (s.ttyQ.sz * 2)).toNat = s.ttyQ.sz * 2 := by omega
          have missing := start.2
          have least := valid.atLeast
          rw [twice]
          rw [← same] at atMost missing least ⊢
          refine ⟨grown (s := s') ?_ held, ?_⟩
          · exact ⟨.of rfl rfl id rfl, fun ok => ok.grow (by omega) (by omega) fill, rfl,
              fun ok => TtyQ.contents_grow ok _ fill, rfl, rfl⟩
          · simp only [TtyQ.grow, ttyQSzMin] at least ⊢
            omega

/-! ### `tty_q_push` -/

/-- An image that passes the assertion is as long as the queue has room for. -/
theorem doMap_image {map : Word} {b : UInt8} {image : List UInt8}
    (mapped : doMap map b = some image) :
    doMapBytes map b = image ∧ 0 < image.length ∧ image.length ≤ mMaxmap := by
  simp only [doMap, Option.ite_none_right_eq_some, Option.some.injEq] at mapped
  exact ⟨mapped.2, mapped.2 ▸ mapped.1⟩

/-- What it takes that `b`, stored in a state with `P`, leads to one with `Q`. -/
structure StoreRules (b : UInt8) (P Q : Session → Prop) (E : Stop → Session → Prop) : Prop where
  ok : ∀ {s}, P s → s.ttyQ.Ok
  grown : ∀ {s s'}, Grown s s' → P s → P s'
  store : ∀ {s image}, P s → doMap s.opts.omap b = some image →
    s.ttyQ.len + mMaxmap ≤ s.ttyQ.sz →
    Q { s with ttyQ := s.ttyQ.store image, trace := s.trace ++ [.accept b] }
  rules : Rules Q E
  omap : ∀ {s s'}, P s → doMap s.opts.omap b = none → P s' → E .abort s'
  emap : ∀ {s s'}, P s → doMap s.opts.emap b = none → Q s' → E .abort s'

/-- A byte that is not stored has found no room. -/
theorem StoreRules.pushByte {build : Build} {P Q : Session → Prop} {E : Stop → Session → Prop}
    {b : UInt8} (rules : StoreRules b P Q E) :
    Triple P (pushByte build b)
      (fun stored s => if stored then Q s else P s ∧ s.ttyQ.sz < s.ttyQ.len + mMaxmap) E := by
  unfold Ppcom.pushByte
  refine .bind_get fun s start => ?_
  let here : Session → Prop := fun s' => P s' ∧ s'.opts.omap = s.opts.omap
  have grown : ∀ {s₁ s₂}, Grown s₁ s₂ → here s₁ → here s₂ := fun step held =>
    ⟨rules.grown step held.1, (congrArg FixedOpts.omap step.fixed).trans held.2⟩
  refine .bind ((growQueue_triple grown (fun held => rules.ok held.1) _).pre fun s' same =>
    ⟨⟨same.2, by rw [same.1]⟩, by rw [same.1]⟩) fun room => ?_
  cases room with
  | false =>
      refine .pure fun s' held => ⟨held.1.1, ?_⟩
      simpa using held.2
  | true =>
      have echo : Triple Q (do
          if s.opts.lecho then mapAndWrite sto s.opts.emap b
          return true) (fun stored s =>
            if stored then Q s else P s ∧ s.ttyQ.sz < s.ttyQ.len + mMaxmap) E := by
        split
        · exact .bind (rules.rules.mapAndWrite fun fails _ => rules.emap start fails) fun _ =>
            .pure fun _ => id
        · exact .pure fun _ => id
      dsimp only [if_true]
      cases image : doMap s.opts.omap b with
      | none => exact .throw fun s' held => rules.omap start image held.1.1
      | some bytes =>
          refine .bind (Q := fun _ s' => ∃ s₀, here s₀ ∧ s₀.ttyQ.len + mMaxmap ≤ s₀.ttyQ.sz ∧
            s' = { s₀ with ttyQ := s₀.ttyQ.store bytes })
            (.modify fun s₀ held => ⟨s₀, held.1, held.2.mp rfl, rfl⟩) fun _ =>
            .bind (.modify fun s' stored => ?_) fun _ => echo
          obtain ⟨s₀, held, room, rfl⟩ := stored
          exact rules.store held.1 (held.2 ▸ image) room

/-- What it takes that a byte pushed in a state with `P` leads to one with `Q`: the byte may be refused
for want of room or stored, and in both cases what follows is quiet. -/
structure PushRules (P Q : Session → Prop) (E : Stop → Session → Prop) : Prop where
  storing : ∀ b, StoreRules b P Q E
  refused : ∀ {s}, P s → s.ttyQ.sz < s.ttyQ.len + mMaxmap → Q s

theorem PushRules.rules {P Q : Session → Prop} {E : Stop → Session → Prop}
    (rules : PushRules P Q E) : Rules Q E :=
  (rules.storing 0).rules

theorem PushRules.pushByte {build : Build} {P Q : Session → Prop} {E : Stop → Session → Prop}
    (rules : PushRules P Q E) (b : UInt8) : Triple P (pushByte build b) (fun _ => Q) E := by
  refine (rules.storing b).pushByte.weaken (fun _ => id) (fun stored s held => ?_) fun _ _ => id
  cases stored with
  | false => exact rules.refused held.1 held.2
  | true => exact held

/-- With the same invariant before and after. -/
theorem PushRules.ttyQPush {build : Build} {I : Session → Prop} {E : Stop → Session → Prop}
    (rules : PushRules I I E) (bytes : List UInt8) : Maintains I E (ttyQPush build bytes) :=
  ttyQPush_triple (I := fun _ => I) build (fun _ => rules.rules.checkpoint)
    (fun b _ => rules.pushByte b) bytes

/-! ### The write to the port -/

/-- The state after `taken` was written to the port. -/
def Session.wrote (s : Session) (taken : List UInt8) : Session :=
  { s with trace := s.trace ++ [.write s.ttyQ.len (s.ttyQ.request s.ttyWriteSz) taken] }

/-- The write to the port, from a state with `P` to one with `Q`. Where nothing is written the run
ends, and where the copies of what was written cannot be written it ends with the queue as it was. -/
theorem writePort_triple {P Q : Session → Prop} {E : Stop → Session → Prop} (rules : Rules P E)
    (nothing : ∀ {s rest}, P s →
      E (.fatal portWriteFailed) { s.wrote [] with env := { s.env with write := rest } })
    (fails : ∀ {s s' taken message}, P s → message ≠ portWriteFailed → Quiet (s.wrote taken) s' →
      E (.fatal message) s')
    (written : ∀ {s s' taken}, P s → taken ≠ [] → taken <+: s.ttyQ.contents →
      Quiet (s.wrote taken) s' → Q { s' with ttyQ := s'.ttyQ.drop taken.length }) :
    Triple P writePort (fun _ => Q) E := by
  unfold writePort
  refine .bind rules.checkpoint fun _ => .bind_get fun s start => ?_
  refine .bind (Q := fun _ s' => ∃ rest, s' = { s with env := { s.env with write := rest } })
    (fun s' here => ⟨_, by rw [← here.1]⟩) fun reply => ?_
  dsimp only
  have start' := s.ttyQ.taken_prefix s.ttyWriteSz reply
  generalize s.ttyQ.taken (s.ttyQ.request s.ttyWriteSz) reply = taken at start' ⊢
  refine .bind (Q := fun _ s' => ∃ rest, s' =
    { s.wrote taken with env := { s.env with write := rest } }) (.modify fun s' here => ?_) fun _ => ?_
  · obtain ⟨rest, rfl⟩ := here
    exact ⟨rest, rfl⟩
  have quiet : ∀ {s'}, (∃ rest, s' = { s.wrote taken with env := { s.env with write := rest } }) →
      Quiet (s.wrote taken) s' := by
    rintro s' ⟨rest, rfl⟩
    exact .of rfl rfl rfl id rfl rfl rfl
  have rules' : CallRules (Quiet (s.wrote taken)) E :=
    ⟨⟨fun step before => trans_of Quiet before step⟩, fails start⟩
  split
  · next none =>
    refine .throw fun s' here => ?_
    obtain ⟨rest, rfl⟩ := here
    rw [List.eq_nil_of_length_eq_zero none]
    exact nothing start
  next nonempty =>
  have done : ∀ s', Quiet (s.wrote taken) s' → Q { s' with ttyQ := s'.ttyQ.drop taken.length } :=
    fun s' => written start (List.ne_nil_of_length_pos (Nat.pos_of_ne_zero nonempty)) start'
  refine Triple.pre ?_ fun s' => quiet
  split
  · exact .bind (rules'.forward taken) fun _ => .modify done
  · exact .modify done

end Ppcom
