/-
Module: Ppcom.Proofs.ControlSocket
Purpose: Which of the bytes read from the control socket are offered to the queue. The loop over the
  buffer ends at a byte that the loop itself has cleared, and at a zero byte that was read.
Trusted boundary: none
Main exports: offered, Intact, ctlLoop_triple, ctl_offered_iff, ctl_loses_second_line
-/
import Ppcom.Proofs.StartUp
import Ppcom.Spec.Streams

namespace Ppcom

open Program

/-! ### One chunk -/

/-- The bytes of a chunk that are offered: up to the first newline or carriage return, or to a zero
byte. -/
def offered : List UInt8 → List UInt8
  | [] => []
  | b :: rest =>
      if b = 0 then []
      else if b = 0x0a ∨ b = 0x0d then [b]
      else b :: offered rest

/-- A chunk without a zero byte, and with no newline or carriage return but as its last byte. -/
def Intact (chunk : List UInt8) : Prop :=
  0 ∉ chunk ∧ ∀ b ∈ chunk.dropLast, b ≠ 0x0a ∧ b ≠ 0x0d

theorem offered_starts (chunk : List UInt8) : offered chunk <+: chunk := by
  induction chunk with
  | nil => exact List.prefix_refl _
  | cons b rest ih =>
      unfold offered
      split
      · exact List.nil_prefix
      split
      · exact ⟨rest, rfl⟩
      · exact List.cons_prefix_cons.mpr ⟨rfl, ih⟩

theorem offered_eq_iff (chunk : List UInt8) : offered chunk = chunk ↔ Intact chunk := by
  induction chunk with
  | nil => simp [offered, Intact]
  | cons b rest ih =>
      unfold offered
      split
      · next zero => simp [Intact, zero]
      · next nonzero =>
        cases rest with
        | nil => simp [offered, Intact, Ne.symm nonzero]
        | cons c later =>
            split
            · next newline =>
              apply iff_of_false (by simp)
              intro intact
              have other := intact.2 b (by simp)
              exact newline.elim other.1 other.2
            · next other =>
              rw [List.cons.injEq, ih]
              push Not at other
              simp [Intact, Ne.symm nonzero, other]

/-- The cleared end of the buffer offers nothing. -/
theorem offered_padded (chunk : List UInt8) (n : Nat) :
    offered (chunk ++ List.replicate n 0) = offered chunk := by
  induction chunk with
  | nil => cases n <;> simp [offered, List.replicate_succ]
  | cons b rest ih => simp [offered, ih]

theorem length_flatMap_offered (chunks : List (List UInt8)) :
    (chunks.flatMap offered).length ≤ chunks.flatten.length := by
  induction chunks with
  | nil => exact le_rfl
  | cons chunk chunks ih =>
      rw [List.flatMap_cons, List.flatten_cons, List.length_append, List.length_append]
      exact Nat.add_le_add (offered_starts chunk).length_le ih

/-- All chunks are offered whole only where each of them is. -/
theorem flatMap_offered_iff (chunks : List (List UInt8)) :
    chunks.flatMap offered = chunks.flatten ↔ ∀ chunk ∈ chunks, Intact chunk := by
  induction chunks with
  | nil => simp
  | cons chunk chunks ih =>
      rw [List.flatMap_cons, List.flatten_cons, List.forall_mem_cons, ← offered_eq_iff chunk, ← ih]
      refine ⟨fun same => List.append_inj same ?_, fun same => by rw [same.1, same.2]⟩
      -- what is missing of this chunk cannot be made up by the later ones
      have total := congrArg List.length same
      rw [List.length_append, List.length_append] at total
      have first := (offered_starts chunk).length_le
      have later := length_flatMap_offered chunks
      omega

/-! ### The loop over the buffer -/

/-- What a run has read from the control socket, and offered of it. -/
def Session.control (s : Session) : List (List UInt8) × List UInt8 :=
  (ctlChunks s.trace, ctlBytes s.trace)

/-- The events that are about the control socket. -/
def Event.OnCtl : Event → Prop
  | .ctl _ _ | .ctlByte _ => True
  | _ => False

section Control

variable {s s' : Session}

theorem Frame.control {events : Event → Prop} (frame : Frame events s s')
    (other : ∀ e, events e → ¬ e.OnCtl) : s'.control = s.control := by
  refine Prod.ext (frame.filterMap fun e is => ?_) (frame.filterMap fun e is => ?_)
  all_goals
    have free := other e is
    cases e with
    | ctl | ctlByte => exact absurd trivial free
    | _ => rfl

theorem Event.Minor.notCtl {e : Event} (minor : e.Minor) : ¬ e.OnCtl := by
  cases e with
  | put | applied | port | eof | lecho => exact id
  | _ => cases minor

theorem Event.Queue.notCtl {e : Event} (queue : e.Queue) : ¬ e.OnCtl := by
  cases e with
  | accept | discard | write => exact id
  | _ => cases queue

variable {J : List (List UInt8) × List UInt8 → Prop}

theorem blind_control : BlindRules (fun s => J s.control) fun _ _ => True where
  quiet step held := (step.toFrame.control fun _ => Event.Minor.notCtl).symm ▸ held
  stop _ _ := trivial
  fails _ := trivial
  inner step held := (step.toFrame.control fun _ => Event.Queue.notCtl).symm ▸ held
  omap _ _ _ := trivial
  emap _ _ _ := trivial

theorem stdin_control (build : Build) : StdinRules build (fun s => J s.control) fun _ _ => True := by
  have step : ∀ {s s' : Session}, Frame (fun e => ¬ e.OnCtl) s s' → J s.control → J s'.control :=
    fun frame held => (frame.control fun _ => id).symm ▸ held
  exact {
    toRules := blind_control.toRules
    prompt := fun _ _ s => step (s := s) (.one id rfl rfl id rfl)
    discard := blind_control.discardQueue
    push := blind_control.ttyQPush build
    chunk := fun _ => .modify fun s => step (s := s) (.one id rfl rfl id rfl)
    act := fun _ => .modify fun s => step (s := s) (.one id rfl rfl id rfl)
    machine := fun _ => .modify fun _ held => held
    read := fun _ held => held
    leave := fun _ => trivial }

end Control

theorem strlen_append {pre : List UInt8} (nonzero : 0 ∉ pre) (suf : List UInt8) :
    strlen (pre ++ suf) = pre.length + strlen suf := by
  have before : ∀ b ∈ pre, (b != 0) = true := by
    intro b inside
    rw [bne_iff_ne]
    rintro rfl
    exact nonzero inside
  rw [strlen, cString, List.takeWhile_append_of_pos before, List.length_append]
  rfl

@[simp] theorem strlen_zero (rest : List UInt8) : strlen (0 :: rest) = 0 := rfl

theorem strlen_pos {c : UInt8} (nonzero : c ≠ 0) (rest : List UInt8) : 0 < strlen (c :: rest) := by
  simp [strlen, cString, nonzero]

/-- Behind the end of the string the loop does nothing. -/
theorem ctlLoop_end (build : Build) (n : Nat) {bufStr : List UInt8} {i : Nat}
    (done : strlen bufStr ≤ i) : ctlLoop build n bufStr i = pure ⟨⟩ := by
  cases n with
  | zero => rfl
  | succ n =>
      unfold ctlLoop
      rw [if_neg (Nat.not_lt.mpr done)]

/-- From an index on, before which nothing is cleared, the loop offers what is `offered` of the bytes
from there. -/
theorem ctlLoop_triple (build : Build) {chunks : List (List UInt8)} {n : Nat}
    {bytes pre suf : List UInt8} (nonzero : 0 ∉ pre) (fits : suf.length ≤ n) :
    Triple (fun s => s.control = (chunks, bytes)) (ctlLoop build n (pre ++ suf) pre.length)
      (fun _ s => s.control = (chunks, bytes ++ offered suf)) fun _ _ => True := by
  have length := strlen_append nonzero suf
  induction n generalizing bytes pre suf with
  | zero =>
      obtain rfl := List.eq_nil_of_length_eq_zero (Nat.le_zero.mp fits)
      exact .pure fun s held => by simpa [offered] using held
  | succ n ih =>
      cases suf with
      | nil =>
          have done : strlen (pre ++ []) ≤ pre.length := length.le
          rw [ctlLoop_end build _ done]
          exact .pure fun s held => by simpa [offered] using held
      | cons c rest =>
          by_cases zero : c = 0
          · subst zero
            have done : strlen (pre ++ 0 :: rest) ≤ pre.length := length.le
            rw [ctlLoop_end build _ done]
            exact .pure fun s held => by simpa [offered] using held
          unfold ctlLoop
          rw [if_pos (length ▸ Nat.lt_add_of_pos_right (strlen_pos zero rest))]
          have read : (pre ++ c :: rest).getD pre.length 0 = c := by simp
          have cleared : (pre ++ c :: rest).set pre.length 0 = pre ++ 0 :: rest := by simp
          have push := (blind_control (J := (· = (chunks, bytes ++ [c])))).ttyQPush build [c]
          dsimp only
          rw [read, cleared]
          refine 
            .bind (blind_control (J := (· = (chunks, bytes)))).checkpoint fun _ =>
            .bind (Q := fun _ s => s.control = (chunks, bytes ++ [c])) (.modify fun s held => ?_)
            fun _ => .bind push.discard fun _ => ?_
          · simp only [Session.control, ctlChunks, ctlBytes, Prod.mk.injEq] at held ⊢
            simp [held]
          split
          · next newline =>
            rw [ctlLoop_end build _ (by rw [strlen_append nonzero]; simp)]
            exact .pure fun s held => by simpa [offered, zero, newline] using held
          · next other =>
            have nonzero' : 0 ∉ pre ++ [c] := by simpa [nonzero] using Ne.symm zero
            have next := @ih (bytes ++ [c]) (pre ++ [c]) rest nonzero' (Nat.le_of_succ_le_succ fits)
              (strlen_append nonzero' rest)
            rw [List.length_append, List.append_assoc] at next
            refine next.weaken (fun _ => id) (fun _ s held => ?_) fun _ _ => id
            simpa [offered, zero, other] using held

/-! ### Runs -/

/-- Between two turns what was offered is what is `offered` of each chunk that was read. -/
def CtlSettled (c : List (List UInt8) × List UInt8) : Prop := c.2 = c.1.flatMap offered

theorem readCtl_triple (build : Build) :
    Maintains (fun s => CtlSettled s.control) (fun _ _ => True) (readCtl build) := by
  unfold readCtl
  refine .read fun s₁ _ => .bind (Q := fun reply s => CtlSettled s.control ∧
    ∀ first rest, reply = .data first rest → rest.length ≤ ctlBufSz - 1 - 1)
    (fun s held => ⟨held, fun _ _ => length_of_read⟩) fun reply => ?_
  cases reply with
  | zero | again | failed => exact .pure fun _ => And.left
  | data first rest =>
      intro s held
      obtain ⟨settled, short⟩ := held
      have short : rest.length ≤ ctlBufSz - 1 - 1 := short first rest rfl
      let bufStr := first :: rest ++ List.replicate (ctlBufSz - (rest.length + 1)) 0
      have fits : bufStr.length ≤ ctlBufSz := by
        simp [bufStr, ctlBufSz] at short ⊢
        omega
      have loop := @ctlLoop_triple build (ctlChunks s.trace ++ [first :: rest]) ctlBufSz
        (ctlBytes s.trace) [] bufStr (by simp) fits
      have run : Triple (fun s' => s' = s) (do
          emit (.ctl s₁.ctlfd (first :: rest))
          ctlLoop build ctlBufSz (first :: rest ++ List.replicate (ctlBufSz - (rest.length + 1)) 0) 0)
          (fun _ s => CtlSettled s.control) (fun _ _ => True) := by
        refine .bind (.modify fun s' same => ?_) fun _ =>
          loop.weaken (fun _ => id) (fun _ s' held => ?_) fun _ _ => id
        · subst same
          simp [Session.control, ctlChunks, ctlBytes]
        · have settled : ctlBytes s.trace = (ctlChunks s.trace).flatMap offered := settled
          rw [CtlSettled, held, offered_padded, settled, List.flatMap_append, List.flatMap_singleton]
      exact run s rfl

theorem ctl_turn (build : Build) :
    TurnRules build (fun s => CtlSettled s.control) fun _ _ => True where
  toRules := blind_control.toRules
  readStdin := (stdin_control build).readStdin
  readPort := blind_control.toRules.readPort fun _ _ _ => trivial
  writePort := blind_control.writePort
  readCtl := readCtl_triple build

theorem ctl_start (build : Build) :
    StartRules build (fun s => CtlSettled s.control) (fun s => CtlSettled s.control)
      fun _ _ => True where
  before := blind_control.toCallRules
  files _ _ _ held := held
  empty held := held
  after := blind_control.toCallRules
  push := blind_control.ttyQPush build

/-- At the top of a turn of `loop`, of each chunk that was read the part before its first newline,
carriage return or zero byte was offered to the queue. -/
theorem ctl_settled (build : Build) {opts : Opts} {world : World} {env : Env} {budget n : Nat}
    {s : Session} (top : (upTo build n).run (.start opts world env budget) = .ok ⟨⟩ s) :
    ctlBytes s.trace = (ctlChunks s.trace).flatMap offered := by
  have reached := (ctl_start build).upTo (.modify fun _ => id) (ctl_turn build).loopTurn n
    (.start opts world env budget) rfl
  rw [top] at reached
  exact reached

/-- At the top of a turn of `loop`, all bytes read from the control socket were offered to the queue,
each once and in order, exactly if each chunk was without zero bytes and had no newline or carriage
return but at its end. -/
theorem ctl_offered_iff (build : Build) {opts : Opts} {world : World} {env : Env} {budget n : Nat}
    {s : Session} (top : (upTo build n).run (.start opts world env budget) = .ok ⟨⟩ s) :
    ctlBytes s.trace = (ctlChunks s.trace).flatten ↔ ∀ chunk ∈ ctlChunks s.trace, Intact chunk := by
  rw [ctl_settled build top]
  exact flatMap_offered_iff _

/-- A run in which the control socket has `chunks` to read. -/
def ctlRun (chunks : Source) (n : Nat) : EStateM.Result Stop Session PUnit :=
  (upTo .cmake n).run (.start { Opts.default with noinit := true, quiet := true } .fresh
    (.works [] [] chunks (fun fd => fd == 7) fun _ => false) 99)

theorem ctl_offered_one_line :
    ∃ s, ctlRun [.data 0x61 [0x0a]] 1 = .ok ⟨⟩ s ∧ ctlBytes s.trace = [0x61, 0x0a] := by
  have held : (returned (ctlRun [.data 0x61 [0x0a]] 1)).map (fun t => ctlChunks t.2.trace) =
      some [[0x61, 0x0a]] := by decide +kernel
  obtain ⟨⟨⟨⟩, s⟩, ret, chunks⟩ := Option.map_eq_some_iff.mp held
  have ran := eq_ok_of_returned ret
  have whole := (ctl_offered_iff .cmake ran).mpr (by simp [chunks, Intact])
  exact ⟨s, ran, by rw [whole, chunks]; rfl⟩

/-- Two lines in one read: the second is lost. -/
theorem ctl_loses_second_line :
    ¬ ∀ (build : Build) (opts : Opts) (world : World) (env : Env) (budget n : Nat) (s : Session),
      (upTo build n).run (.start opts world env budget) = .ok ⟨⟩ s →
      ctlBytes s.trace = (ctlChunks s.trace).flatten := by
  intro whole
  have held : (returned (ctlRun [.data 0x61 [0x0a, 0x62, 0x0a]] 1)).map
      (fun t => (ctlChunks t.2.trace, ctlBytes t.2.trace)) =
      some ([[0x61, 0x0a, 0x62, 0x0a]], [0x61, 0x0a]) := by decide +kernel
  obtain ⟨⟨⟨⟩, s⟩, ret, same⟩ := Option.map_eq_some_iff.mp held
  obtain ⟨chunks, bytes⟩ := Prod.mk.inj same
  have lost := whole _ _ _ _ _ _ s (eq_ok_of_returned ret)
  rw [chunks, bytes] at lost
  cases lost

end Ppcom
