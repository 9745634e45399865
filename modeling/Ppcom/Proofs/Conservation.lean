/-
Module: Ppcom.Proofs.Conservation
Purpose: From `tty_q_push` to the port no byte is lost, doubled or reordered, but for whole contents of
  the queue that a settings command throws away.
Trusted boundary: none
Main exports: Conserving, outbound_conserved
-/
import Ppcom.Proofs.StartUp
import Ppcom.Spec.Streams

namespace Ppcom

open Program

/-- The queue is the channel from `tty_q_push` to the port, and has conserved what it took in. -/
structure Conserving (omap : Word) (s : Session) : Prop where
  maps : s.opts.omap = omap
  ok : s.ttyQ.Ok
  conserves : Channel.Conserves (outbound omap s.trace) s.ttyQ.contents

/-- What holds of a run that is stopped: only a call of `fatal` may leave the queue in between. -/
def ConservingStop (omap : Word) (stop : Stop) (s : Session) : Prop :=
  (∃ message, stop = .fatal message) ∨ Conserving omap s

section Steps

variable {omap : Word} {s s' : Session}

theorem outbound_of_notQueue {new : List Event} (other : ∀ e ∈ new, ¬ e.Queue) :
    outbound omap new = [] := by
  rw [outbound, List.filterMap_eq_nil_iff]
  intro e inside
  have free := other e inside
  cases e with
  | accept | discard | write => exact absurd trivial free
  | _ => rfl

theorem Frame.outbound {events : Event → Prop} (frame : Frame events s s')
    (other : ∀ e, events e → ¬ e.Queue) :
    Ppcom.outbound omap s'.trace = Ppcom.outbound omap s.trace := by
  obtain ⟨new, trace, are⟩ := frame.trace
  rw [trace, outbound_append, outbound_of_notQueue fun e inside => other e (are e inside),
    List.append_nil]

theorem Conserving.outer (held : Conserving omap s) (step : Outer s s') : Conserving omap s' := by
  refine ⟨(congrArg FixedOpts.omap step.fixed).trans held.maps, step.ttyQ ▸ held.ok, ?_⟩
  rw [step.ttyQ, step.toFrame.outbound fun _ => id]
  exact held.conserves

theorem Conserving.grown (held : Conserving omap s) (step : Grown s s') : Conserving omap s' := by
  refine ⟨(congrArg FixedOpts.omap step.fixed).trans held.maps, step.ok held.ok, ?_⟩
  rw [step.contents held.ok, step.toFrame.outbound fun _ => False.elim]
  exact held.conserves

theorem Conserving.stop {stop : Stop} (held : Conserving omap s) : ConservingStop omap stop s :=
  .inr held

/-- A stored byte puts its image into the channel. -/
theorem Conserving.store {b : UInt8} {image : List UInt8} (held : Conserving omap s)
    (mapped : doMap s.opts.omap b = some image) (room : s.ttyQ.len + mMaxmap ≤ s.ttyQ.sz) :
    Conserving omap { s with ttyQ := s.ttyQ.store image, trace := s.trace ++ [.accept b] } := by
  rw [held.maps] at mapped
  obtain ⟨rfl, -, small⟩ := doMap_image mapped
  refine ⟨held.maps, held.ok.store (by omega), ?_⟩
  rw [TtyQ.contents_store held.ok, outbound_append]
  exact held.conserves.put _

/-- What was written to the port leaves the channel. -/
theorem Conserving.written {taken : List UInt8} (held : Conserving omap s)
    (start : taken <+: s.ttyQ.contents) (step : Quiet (s.wrote taken) s') :
    Conserving omap { s' with ttyQ := s'.ttyQ.drop taken.length } := by
  have queue : s'.ttyQ = s.ttyQ := step.ttyQ
  have fits : taken.length ≤ s.ttyQ.len :=
    TtyQ.length_contents held.ok ▸ start.length_le
  refine ⟨(congrArg FixedOpts.omap step.fixed).trans held.maps, ?_, ?_⟩
  · rw [queue]
    exact held.ok.drop fits
  · rw [queue, TtyQ.contents_drop held.ok fits, step.outer.toFrame.outbound fun _ => id]
    have whole := List.prefix_iff_eq_append.mp start
    simp only [Session.wrote, outbound_append]
    exact .take (whole.symm ▸ held.conserves)

/-- A settings command throws the contents away. -/
theorem Conserving.discard {setting : Setting} {E : Stop → Session → Prop} :
    Maintains (Conserving omap) E (discardQueue setting) := by
  refine .bind_get fun s start => .bind (Q := fun _ s' => Conserving omap s ∧
    s' = { s with trace := s.trace ++ [.discard setting s.ttyQ.contents] })
    (.modify fun s' here => ⟨start, by rw [here.1]⟩) fun _ => .modify fun s' here => ?_
  obtain ⟨held, rfl⟩ := here
  refine ⟨held.maps, held.ok.reset, ?_⟩
  rw [TtyQ.contents_reset, outbound_append]
  exact held.conserves.reset

end Steps

/-! ### Runs -/

theorem conserving_push (omap : Word) :
    PushRules (Conserving omap) (Conserving omap) (ConservingStop omap) where
  storing _ := {
    ok := Conserving.ok
    grown := fun step held => held.grown step
    store := Conserving.store
    rules := { quiet := fun step held => held.outer step.outer, stop := fun _ held => held.stop }
    omap := fun _ _ held => held.stop
    emap := fun _ _ held => held.stop }
  refused held _ := held

theorem conserving_queue (build : Build) (omap : Word) :
    QueueRules build (Conserving omap) (ConservingStop omap) where
  outer step held := held.outer step
  stop _ held := held.stop
  discard _ := Conserving.discard
  push := (conserving_push omap).ttyQPush
  write := writePort_triple (conserving_push omap).rules (fun _ => .inl ⟨_, rfl⟩)
    (fun _ _ _ => .inl ⟨_, rfl⟩)
    fun held _ start step => held.written start step
  imap _ _ held := held.stop

/-- Until the queue is allocated, nothing happens to it. -/
def Untouched (omap : Word) (s : Session) : Prop :=
  s.opts.omap = omap ∧ outbound omap s.trace = []

theorem conserving_main (build : Build) (omap : Word) :
    MainRules build (Untouched omap) (Conserving omap) (ConservingStop omap) where
  before := {
    quiet := fun step held =>
      ⟨(congrArg FixedOpts.omap step.fixed).trans held.1,
        (step.outer.toFrame.outbound fun _ => id).trans held.2⟩
    fatal := fun _ _ => .inl ⟨_, rfl⟩ }
  files _ _ _ held := held
  empty {s} held := by
    refine ⟨held.1, ⟨by simp, by simp, le_rfl, by simp [ttyQSzMin]⟩, ?_⟩
    change Channel.Conserves (outbound omap s.trace) []
    rw [held.2]
    exact .empty
  push := (conserving_push omap).ttyQPush
  turn := (conserving_queue build omap).toTurnRules
  enter := .modify fun s held => held.outer (s := s) ⟨.of rfl rfl id rfl, rfl⟩
  left held := by
    rcases held with ⟨message, fatal⟩ | held
    · cases fatal
    · exact held

/-- In every state that a run of the program reaches before the process exits, what the port has
accepted followed by what the queue holds is what came into the queue: the images under `--omap` of
the bytes that `tty_q_push` accepted, in the order of their acceptance, without the whole contents
that the settings commands threw away. -/
theorem outbound_conserved (build : Build) {opts : Opts} {world : World} {env : Env} {budget : Nat}
    {stop : Stop} {s : Session}
    (ran : (main build).run (.start opts world env budget) = .error stop s) :
    Channel.Kept (outbound opts.omap s.trace)
      (Channel.output (outbound opts.omap s.trace) ++ s.ttyQ.contents) := by
  have result := main_triple (conserving_main build opts.omap).runMain
    (.start opts world env budget) ⟨rfl, rfl⟩
  rw [ran] at result
  obtain ⟨alive, ⟨message, fatal⟩ | held⟩ := result
  · exact absurd fatal (alive message)
  · exact held.conserves

/-- `ab` is typed, and the run observed when `a` is in the queue. -/
theorem outbound_conserved_typed :
    let env := Env.works [.data 0x61 [0x62]] [] [] (fun fd => fd == sti) fun _ => false
    let opts := { Opts.default with noinit := true, quiet := true }
    ∃ s, (main .cmake).run (.start opts .fresh env 4) = .error .observed s ∧
      s.ttyQ.contents = [0x61] ∧
      Channel.Kept (outbound opts.omap s.trace)
        (Channel.output (outbound opts.omap s.trace) ++ s.ttyQ.contents) := by
  intro env opts
  have held : (thrown ((main .cmake).run (.start opts .fresh env 4))).map
      (fun t => (t.1, t.2.ttyQ.contents)) = some (.observed, [0x61]) := by decide +kernel
  obtain ⟨⟨stop, s⟩, threw, same⟩ := Option.map_eq_some_iff.mp held
  obtain ⟨rfl, contents⟩ := Prod.mk.inj same
  have ran := eq_error_of_thrown threw
  exact ⟨s, ran, contents, outbound_conserved .cmake ran⟩

end Ppcom
