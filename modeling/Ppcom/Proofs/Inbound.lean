/-
Module: Ppcom.Proofs.Inbound
Purpose: What comes from the port is shown on standard output as the manual documents, and written to
  the log as it is, in whatever portions it is read; with local echo the log has what was sent, too.
  This is so where the message connection is one, and not the descriptor of standard output, and the
  thread of the servers has nobody to relay the data to.
Trusted boundary: none
Main exports: Delivered, DeliveredPart, Placed, Copied, inbound_rules, DeliveredBy, inbound_delivered_iff
-/
import Ppcom.Proofs.SoleClient
import Ppcom.Proofs.MapAssertions
import Ppcom.Proofs.Traversal
import Ppcom.Spec.Copies

namespace Ppcom

open Program

/-! ### What is promised -/

/-- What is promised of the data from the port and of what local echo logs. `log` is the log, and
`same` says how what was written is related to what is to be written. -/
structure DeliveredAs (same : List UInt8 → List UInt8 → Prop) (opts : Opts) (log : Int)
    (trace : List Event) : Prop where
  shown : same (written .port sto trace) ((portBytes trace).flatMap (documentedImage opts.imap))
  fits : ∀ buff, .port buff ∈ trace →
    buff.length ≤ ttyRdSz ∧ (buff.flatMap (documentedImage opts.imap)).length ≤ ttyRdSz * mMaxmap
  logged : opts.logFilename.isSome → same (written .port log trace) (portBytes trace)
  echoed : opts.logFilename.isSome → same (written .sent log trace) (echoed opts.lecho trace).2

/-- All was written. -/
abbrev Delivered : Opts → Int → List Event → Prop := DeliveredAs Eq

/-- The start of it was written, and then a write has failed. -/
abbrev DeliveredPart : Opts → Int → List Event → Prop := DeliveredAs (· <+: ·)

theorem Delivered.part {opts : Opts} {log : Int} {trace : List Event}
    (held : Delivered opts log trace) : DeliveredPart opts log trace :=
  ⟨held.shown ▸ List.prefix_refl _, held.fits, fun named => held.logged named ▸ List.prefix_refl _,
    fun named => held.echoed named ▸ List.prefix_refl _⟩

/-- A relation that holds on where the same is written on both sides. -/
structure Follows (same : List UInt8 → List UInt8 → Prop) : Prop where
  refl : ∀ xs, same xs xs
  append : ∀ {before xs ys}, same xs ys → same (before ++ xs) (before ++ ys)

theorem follows_eq : Follows Eq := ⟨fun _ => rfl, fun is => is ▸ rfl⟩

theorem follows_prefix : Follows (· <+: ·) :=
  ⟨List.prefix_refl, fun start => (List.prefix_append_right_inj _).mpr start⟩

/-! ### Copies -/

section Copies

variable {s : Session} {buff sent image : List UInt8} {fd : Int}

theorem puts_forwards (s : Session) (buff sent : List UInt8) : Puts (s.forwards buff sent) := by
  intro e inside
  unfold Session.forwards at inside
  rcases List.mem_append.mp inside with msg | log
  · split at msg
    · exact ⟨_, _, List.mem_singleton.mp msg⟩
    · cases msg
  · split at log
    · exact ⟨_, _, List.mem_singleton.mp log⟩
    · cases log

/-- What the copies write to a descriptor that is not the message connection. -/
theorem putTo_forwards (apart : 0 < s.msgfd → s.msgfd ≠ fd) :
    putTo fd (s.forwards buff sent) =
      if s.opts.logFilename.isSome ∧ s.logFd = fd then buff else [] := by
  have msg : putTo fd (if 0 < s.msgfd then [.put s.msgfd sent] else []) = [] := by
    split
    · next connected => simp [putTo, apart connected]
    · rfl
  unfold Session.forwards
  rw [putTo_append, msg, List.nil_append]
  by_cases named : s.opts.logFilename.isSome
  · by_cases log : s.logFd = fd <;> simp [named, log, putTo]
  · simp [named, putTo]

/-- What is read of the port at a time. -/
theorem length_of_port {src rest : Source} {first : UInt8} {more : List UInt8}
    (read : Source.read ttyRdSz src = (.data first more, rest)) :
    (first :: more).length ≤ ttyRdSz :=
  Nat.succ_le_succ (length_of_read (congrArg Prod.fst read))

/-- What is shown are the images of the bytes. -/
theorem mapInput_image {imap : Word} {buff image : List UInt8}
    (mapped : mapInput imap buff = some image) : image = buff.flatMap (documentedImage imap) := by
  induction buff generalizing image with
  | nil =>
      cases mapped
      rfl
  | cons b rest ih =>
      simp only [mapInput, Option.bind_eq_bind, Option.bind_eq_some_iff, Option.pure_def,
        Option.some.injEq] at mapped
      obtain ⟨first, here, images, later, rfl⟩ := mapped
      rw [ih later, List.flatMap_cons, ← (doMap_image here).1, doMapBytes_documented]

/-- The images of a read fit into the buffer for them. -/
theorem length_images (imap : Word) (buff : List UInt8) :
    (buff.flatMap (documentedImage imap)).length ≤ buff.length * mMaxmap := by
  induction buff with
  | nil => exact Nat.zero_le _
  | cons b rest ih =>
      have small := length_doMapBytes imap b
      rw [doMapBytes_documented] at small
      rw [List.flatMap_cons, List.length_append, List.length_cons, Nat.add_mul]
      omega

end Copies

/-! ### Steps -/

/-- The descriptors that copies go to: the message connection is neither standard output nor the log,
and the log is not standard output. -/
structure Apart (opts : Opts) (env : Env) : Prop where
  msg : env.msgfd ≠ sto
  log : opts.logFilename.isSome → env.openLog ≠ sto ∧ env.openLog ≠ env.msgfd

/-- The options and descriptors of the run are those it has started with. -/
structure Placed (opts : Opts) (env : Env) (s : Session) : Prop where
  imap : s.opts.imap = opts.imap
  named : s.opts.logFilename = opts.logFilename
  log : opts.logFilename.isSome → s.logFd = env.openLog
  msg : 0 < s.msgfd → s.msgfd = env.msgfd
  newMsg : s.env.msgfd = env.msgfd

/-- What was promised is kept so far, and local echo is on or off. -/
structure Copied (opts : Opts) (env : Env) (lecho : Bool) (trace : List Event) : Prop
    extends Delivered opts env.openLog trace where
  lecho : (Ppcom.echoed opts.lecho trace).1 = lecho

theorem Placed.advance {build : Build} {opts : Opts} {env : Env} {s s' : Session}
    (step : Advance build s s') (held : Placed opts env s) : Placed opts env s' := by
  have same := step.constants
  have msgfd : s'.msgfd = s.msgfd := congrArg Constants.msgfd same
  exact {
    imap := (congrArg Opts.imap (congrArg Constants.opts same)).trans held.imap
    named := (congrArg Opts.logFilename (congrArg Constants.opts same)).trans held.named
    log := fun named => (congrArg Constants.logFd same).trans (held.log named)
    msg := fun connected => msgfd.trans (held.msg (msgfd ▸ connected))
    newMsg := (congrArg Constants.newMsgfd same).trans held.newMsg }

/-- The events that are about no data that is copied. -/
def Event.Neutral : Event → Prop
  | .port _ | .accept _ | .write _ _ _ | .put _ _ | .lecho _ => False
  | _ => True

section Steps

variable {opts : Opts} {env : Env} {lecho : Bool} {trace : List Event} {s : Session}

theorem Copied.other (held : Copied opts env lecho trace) {e : Event} (neutral : e.Neutral) :
    Copied opts env lecho (trace ++ [e]) := by
  have noPut : ∀ fd buff, e ≠ .put fd buff := by
    rintro fd buff rfl
    exact neutral
  have noPort : ∀ buff, .port buff ∉ [e] := by
    rintro buff inside
    obtain rfl := List.mem_singleton.mp inside
    exact neutral
  have bytes : portBytes (trace ++ [e]) = portBytes trace := by
    cases e with
    | port | accept | write | put | lecho => cases neutral
    | _ => simp [portBytes]
  have echo : echoed opts.lecho (trace ++ [e]) = echoed opts.lecho trace := by
    apply echoed_other trace
    intro e' inside
    obtain rfl := List.mem_singleton.mp inside
    exact ⟨fun on is => (is ▸ neutral : (Event.lecho on).Neutral),
      fun len sz taken is => (is ▸ neutral : (Event.write len sz taken).Neutral)⟩
  refine ⟨⟨?_, fun buff inside => ?_, fun named => ?_, fun named => ?_⟩, ?_⟩
  · rw [written_other _ noPut, bytes]
    exact held.shown
  · exact held.fits buff ((List.mem_append.mp inside).resolve_right (noPort buff))
  · rw [written_other _ noPut, bytes]
    exact held.logged named
  · rw [written_other _ noPut, echo]
    exact held.echoed named
  · rw [echo]
    exact held.lecho

/-- Copies are no data from the port. -/
theorem portBytes_puts {puts : List Event} (are : Puts puts) : portBytes puts = [] := by
  rw [portBytes, List.flatMap_eq_nil_iff]
  intro e inside
  obtain ⟨fd, buff, rfl⟩ := are e inside
  rfl

variable {same : List UInt8 → List UInt8 → Prop} {e : Event} {puts : List Event}

/-- An event and the copies of its data. -/
theorem Copied.episode (held : Copied opts env lecho trace) (follows : Follows same)
    {origin : Origin} (is : e.origin = some origin) (are : Puts puts)
    (short : ∀ buff, e = .port buff → buff.length ≤ ttyRdSz)
    (image : same (if origin = .port then putTo sto puts else [])
      ((portBytes [e]).flatMap (documentedImage opts.imap)))
    (log : opts.logFilename.isSome →
      same (if origin = .port then putTo env.openLog puts else []) (portBytes [e]))
    (echo : opts.logFilename.isSome →
      same (if origin = .sent then putTo env.openLog puts else []) (e.echoes lecho)) :
    DeliveredAs same opts env.openLog (trace ++ e :: puts) ∧
      (echoed opts.lecho (trace ++ e :: puts)).1 = lecho := by
  have bytes : portBytes (trace ++ e :: puts) = portBytes trace ++ portBytes [e] := by
    rw [List.append_cons, portBytes_append, portBytes_puts are, List.append_nil, portBytes_append]
  have stays : ∀ on, e ≠ .lecho on := by
    rintro on rfl
    cases is
  have state := @echoed_episode opts.lecho _ _ trace stays are
  rw [held.lecho] at state
  refine ⟨⟨?_, fun buff inside => ?_, fun named => ?_, fun named => ?_⟩, by rw [state]⟩
  · rw [written_episode trace is are, bytes, List.flatMap_append, held.shown]
    exact follows.append image
  · rcases List.mem_append.mp inside with early | late
    · exact held.fits buff early
    rcases List.mem_cons.mp late with this | copy
    · have small := short buff this.symm
      exact ⟨small, (length_images _ _).trans (Nat.mul_le_mul_right _ small)⟩
    · obtain ⟨fd, b, this⟩ := are _ copy
      cases this
  · rw [written_episode trace is are, bytes, held.logged named]
    exact follows.append (log named)
  · rw [written_episode trace is are, state, held.echoed named]
    exact follows.append (echo named)

/-- A command has switched local echo. -/
theorem Copied.switch (held : Copied opts env lecho trace) (on : Bool) :
    Copied opts env on (trace ++ [.lecho on]) := by
  have state : echoed opts.lecho (trace ++ [.lecho on]) = (on, (echoed opts.lecho trace).2) := by
    rw [echoed, List.foldl_append]
    rfl
  have bytes : portBytes (trace ++ [.lecho on]) = portBytes trace := by simp [portBytes]
  have noPut : ∀ fd buff, Event.lecho on ≠ .put fd buff := by
    intro fd buff same
    cases same
  refine ⟨⟨?_, fun buff inside => ?_, fun named => ?_, fun named => ?_⟩, by rw [state]⟩
  · rw [written_other trace noPut, bytes]
    exact held.shown
  · exact held.fits buff ((List.mem_append.mp inside).resolve_right (by simp))
  · rw [written_other trace noPut, bytes]
    exact held.logged named
  · rw [written_other trace noPut, state]
    exact held.echoed named

variable {buff sent : List UInt8}

theorem Apart.sto_forwards (apart : Apart opts env) (placed : Placed opts env s) :
    putTo sto (s.forwards buff sent) = [] := by
  rw [putTo_forwards fun connected => placed.msg connected ▸ apart.msg, if_neg]
  rintro ⟨named, log⟩
  rw [placed.named] at named
  exact (apart.log named).1 (placed.log named ▸ log)

theorem Apart.log_forwards (apart : Apart opts env) (placed : Placed opts env s)
    (named : opts.logFilename.isSome) : putTo env.openLog (s.forwards buff sent) = buff := by
  have msg : 0 < s.msgfd → s.msgfd ≠ env.openLog := fun connected =>
    placed.msg connected ▸ (apart.log named).2.symm
  rw [putTo_forwards msg, if_pos ⟨placed.named ▸ named, placed.log named⟩]

/-- What is shown is no copy to the log. -/
theorem Apart.log_shown (apart : Apart opts env) (placed : Placed opts env s)
    (named : opts.logFilename.isSome) (image : List UInt8) :
    putTo env.openLog (s.forwards buff sent ++ [.put sto image]) = buff := by
  have other : putTo env.openLog [.put sto image] = [] := by
    simp [putTo, Ne.symm (apart.log named).1]
  rw [putTo_append, apart.log_forwards placed named, other, List.append_nil]

theorem puts_shown (s : Session) (buff sent image : List UInt8) :
    Puts (s.forwards buff sent ++ [.put sto image]) := by
  intro e inside
  rcases List.mem_append.mp inside with copy | shown
  · exact puts_forwards s buff sent e copy
  · exact ⟨_, _, List.mem_singleton.mp shown⟩

end Steps

/-- What a step keeps of all that is promised. -/
theorem Copied.advance {build : Build} {opts : Opts} {env : Env} {s s' : Session}
    (apart : Apart opts env) (placed : Placed opts env s) (step : Advance build s s')
    (held : Copied opts env s.opts.lecho s.trace) : Copied opts env s'.opts.lecho s'.trace := by
  cases step with
  | @shown first rest image _ sent put read mapped =>
      have short := length_of_port read
      have is := mapInput_image mapped
      rw [placed.imap] at is
      subst is
      have next := held.episode follows_eq (e := .port (first :: rest)) rfl
        (puts_shown s (first :: rest) sent _)
        (fun buff is => Event.port.inj is ▸ short)
        (by rw [if_pos rfl, putTo_append, apart.sto_forwards placed, putTo_put, portBytes_port,
              List.nil_append])
        (fun named => by rw [if_pos rfl, apart.log_shown placed named, portBytes_port])
        fun _ => rfl
      exact ⟨next.1, next.2⟩
  | @pushed b image echo ok put mapped room echoed =>
      have next := held.episode follows_eq (e := .accept b) rfl
        (fun e inside => ⟨sto, echoed e inside⟩) (fun buff => nofun) rfl (fun _ => rfl) fun _ => rfl
      exact ⟨next.1, next.2⟩
  | @wrote taken ok sent write put some start =>
      have are : Puts (if s.opts.lecho then s.forwards taken sent else []) := by
        split
        · exact puts_forwards s taken sent
        · exact nofun
      have copy : opts.logFilename.isSome → putTo env.openLog
          (if s.opts.lecho then s.forwards taken sent else []) =
          if s.opts.lecho then taken else [] := by
        intro named
        split
        · exact apart.log_forwards placed named
        · rfl
      have next := held.episode follows_eq
        (e := .write s.ttyQ.len (s.ttyQ.request s.ttyWriteSz) taken) rfl are (fun buff => nofun) rfl
        (fun _ => rfl) copy
      exact ⟨next.1, next.2⟩
  | lecho => exact held.switch _
  | applied | closed | typed | acted | entered | discarded | ctlRead | ctlByte =>
      exact held.other trivial
  | _ => exact held

/-- A run is stopped with all that is promised, unless a write fails or the assertion of an ignoring
map. -/
def InboundStop (opts : Opts) (env : Env) (stop : Stop) (s : Session) : Prop :=
  DeliveredPart opts env.openLog s.trace ∧
    ((∀ message, stop ≠ .fatal message) → (stop = .abort → ¬ Ignores opts.imap) →
      Delivered opts env.openLog s.trace)

theorem Copied.halt {opts : Opts} {env : Env} {stop : Stop} {s s' : Session}
    (apart : Apart opts env) (placed : Placed opts env s) (last : Halt stop s s')
    (held : Copied opts env s.opts.lecho s.trace) : InboundStop opts env stop s' := by
  cases last with
  | here | signal | stdin | idle | blocked =>
      exact ⟨Delivered.part held.toDeliveredAs, fun _ _ => held.toDeliveredAs⟩
  | @unforwarded _ message first rest port puts put read forwarded =>
      have short := length_of_port read
      obtain ⟨sent, part, start, rfl⟩ := forwarded
      have next := held.episode follows_prefix (e := .port (first :: rest)) rfl
        (puts_forwards s part sent)
        (fun buff is => Event.port.inj is ▸ short)
        (by rw [if_pos rfl, apart.sto_forwards placed]; exact List.nil_prefix)
        (fun named => by rw [if_pos rfl, apart.log_forwards placed named, portBytes_port]; exact start)
        fun _ => List.prefix_refl _
      exact ⟨next.1, fun alive => absurd rfl (alive message)⟩
  | @unmapped _ first rest port sent put read fails =>
      have short := length_of_port read
      have next := held.episode follows_prefix (e := .port (first :: rest)) rfl
        (puts_forwards s (first :: rest) sent)
        (fun buff is => Event.port.inj is ▸ short)
        (by rw [if_pos rfl, apart.sto_forwards placed]; exact List.nil_prefix)
        (fun named => by rw [if_pos rfl, apart.log_forwards placed named, portBytes_port])
        fun _ => List.prefix_refl _
      obtain ⟨b, -, ignored⟩ := (mapInput_eq_none_iff _ _).mp fails
      rw [placed.imap] at ignored
      exact ⟨next.1, fun _ total => absurd ((ignores_iff _).mpr ⟨b, ignored⟩) (total rfl)⟩
  | @unshown _ message first rest image some port sent put read mapped start =>
      have short := length_of_port read
      have is := mapInput_image mapped
      rw [placed.imap] at is
      subst is
      have next := held.episode follows_prefix (e := .port (first :: rest)) rfl
        (puts_shown s (first :: rest) sent some)
        (fun buff is => Event.port.inj is ▸ short)
        (by
          rw [if_pos rfl, putTo_append, apart.sto_forwards placed, putTo_put, portBytes_port]
          exact start)
        (fun named => by rw [if_pos rfl, apart.log_shown placed named, portBytes_port])
        fun _ => List.prefix_refl _
      exact ⟨next.1, fun alive => absurd rfl (alive message)⟩
  | unwritten write =>
      have silent : Puts [] := nofun
      have next := held.episode follows_prefix (e := .write s.ttyQ.len (s.ttyQ.request s.ttyWriteSz) [])
        rfl silent (fun buff => nofun) (List.prefix_refl _)
        (fun _ => List.prefix_refl _) fun _ => List.nil_prefix
      exact ⟨next.1, fun alive => absurd rfl (alive _)⟩
  | @unechoed _ message taken puts write put lecho some start forwarded =>
      obtain ⟨sent, part, start, rfl⟩ := forwarded
      have next := held.episode follows_prefix
        (e := .write s.ttyQ.len (s.ttyQ.request s.ttyWriteSz) taken) rfl
        (puts_forwards s part sent) (fun buff => nofun)
        (List.prefix_refl _) (fun _ => List.prefix_refl _)
        (fun named => by rw [if_pos rfl, apart.log_forwards placed named, lecho]; exact start)
      exact ⟨next.1, fun alive => absurd rfl (alive message)⟩

/-! ### Runs -/

/-- Copies are made as promised from the start of a run to its end. -/
theorem inbound_rules (build : Build) {opts : Opts} {env : Env} (apart : Apart opts env) :
    RunRules build (fun s => Placed opts env s ∧ Copied opts env s.opts.lecho s.trace)
      (InboundStop opts env) where
  step step held := ⟨held.1.advance step, held.2.advance apart held.1 step⟩
  halt last held := held.2.halt apart held.1 last
  empty _ held := ⟨⟨held.1.imap, held.1.named, held.1.log, held.1.msg, held.1.newMsg⟩, held.2⟩
  enter held :=
    ⟨⟨held.1.imap, held.1.named, held.1.log, fun _ => held.1.newMsg, held.1.newMsg⟩, held.2⟩

theorem copied_nothing (opts : Opts) (env : Env) : Copied opts env opts.lecho [] where
  shown := rfl
  fits := nofun
  logged _ := rfl
  echoed _ := rfl
  lecho := rfl

/-- Where the port is open everything is where it was put. -/
theorem placed_opened {opts : Opts} {world : World} {env : Env} {budget : Nat} (sys : Sys)
    (term : Int → Stream' Answers) :
    Placed opts env { (Session.start opts world env budget).opened sys with
      env := { (Session.start opts world env budget).env with term := term } } where
  imap := rfl
  named := rfl
  log named := if_pos named
  msg connected := absurd connected (by decide : ¬ (0 : Int) < -1)
  newMsg := rfl

/-- A run whose descriptors are apart, whatever becomes of it. -/
theorem inbound_run (build : Build) {opts : Opts} {world : World} {env : Env} {budget : Nat}
    (apart : Apart opts env) :
    (∀ reason s, (untilLeft build).run (.start opts world env budget) = .ok reason s →
      InboundStop opts env (.left reason) s) ∧
    ∀ stop s, (untilLeft build).run (.start opts world env budget) = .error stop s →
      InboundStop opts env stop s := by
  have nothing := (copied_nothing opts env).toDeliveredAs
  have result := (inbound_rules build apart).untilLeft (s := .start opts world env budget) rfl
    (fun sys term port log => ⟨placed_opened sys term, copied_nothing opts env⟩)
    (fun message sys logFd ttyFd term => ⟨Delivered.part nothing, fun _ _ => nothing⟩) _ rfl
  constructor
  · intro reason s ran
    rw [ran] at result
    exact result
  · intro stop s ran
    rw [ran] at result
    exact result

/-! ### The control connection -/

/-- A descriptor that nothing is copied to. -/
structure Spared (opts : Opts) (env : Env) (fd : Int) : Prop where
  sto : fd ≠ sto
  msg : env.msgfd ≠ fd
  log : opts.logFilename.isSome → env.openLog ≠ fd

section Unwritten

variable {build : Build} {opts : Opts} {env : Env} {fd : Int} {s s' : Session} {stop : Stop}

theorem Spared.forwards (spared : Spared opts env fd) (placed : Placed opts env s) (buff sent : List UInt8) :
    putTo fd (s.forwards buff sent) = [] := by
  rw [putTo_forwards fun connected => placed.msg connected ▸ spared.msg, if_neg]
  rintro ⟨named, log⟩
  rw [placed.named] at named
  exact spared.log named (placed.log named ▸ log)

theorem Spared.shown (spared : Spared opts env fd) (buff : List UInt8) : putTo fd [.put Ppcom.sto buff] = [] := by
  simp [putTo, spared.sto.symm]

theorem Spared.advance (spared : Spared opts env fd) (placed : Placed opts env s) (step : Advance build s s')
    (held : putTo fd s.trace = []) : putTo fd s'.trace = [] := by
  cases step with
  | shown sent put read mapped =>
      rw [List.append_cons, putTo_append, putTo_append, putTo_append, held, spared.forwards placed,
        spared.shown]
      rfl
  | @pushed _ _ echo ok put mapped room echoed =>
      have silent : putTo fd echo = [] := by
        rw [putTo, List.flatMap_eq_nil_iff]
        intro e inside
        obtain ⟨buff, rfl⟩ := echoed e inside
        exact if_neg spared.sto.symm
      rw [List.append_cons, putTo_append, putTo_append, held, silent]
      rfl
  | wrote =>
      rw [List.append_cons, putTo_append, putTo_append, held]
      split
      · rw [spared.forwards placed]
        rfl
      · rfl
  | called | observed | replied | skipped | unforked | forked | joined | lines | writeSz | settings | noreset
    | freed | machine | grew => exact held
  | applied | lecho | closed | typed | acted | entered | discarded | ctlRead | ctlByte =>
      rw [putTo_append, held]
      rfl

theorem Spared.halt (spared : Spared opts env fd) (placed : Placed opts env s) (last : Halt stop s s')
    (held : putTo fd s.trace = []) : putTo fd s'.trace = [] := by
  cases last with
  | here | signal | stdin | idle | blocked => exact held
  | unmapped =>
      rw [List.append_cons, putTo_append, putTo_append, held, spared.forwards placed]
      rfl
  | unshown =>
      rw [List.append_cons, putTo_append, putTo_append, putTo_append, held, spared.forwards placed,
        spared.shown]
      rfl
  | unwritten =>
      rw [putTo_append, held]
      rfl
  | @unforwarded _ message first rest port puts put read forwarded =>
      obtain ⟨sent, part, -, rfl⟩ := forwarded
      rw [List.append_cons, putTo_append, putTo_append, held, spared.forwards placed]
      rfl
  | @unechoed _ message taken puts write put lecho some start forwarded =>
      obtain ⟨sent, part, -, rfl⟩ := forwarded
      rw [List.append_cons, putTo_append, putTo_append, held, spared.forwards placed]
      rfl

/-- Nothing is written to it in a run. -/
theorem spared_run (build : Build) {world : World} {budget : Nat} (spared : Spared opts env fd) :
    putTo fd (final ((untilLeft build).run (.start opts world env budget))).trace = [] := by
  have rules : RunRules build (fun s => Placed opts env s ∧ putTo fd s.trace = [])
      fun _ s => putTo fd s.trace = [] := {
    step := fun step held => ⟨held.1.advance step, spared.advance held.1 step held.2⟩
    halt := fun last held => spared.halt held.1 last held.2
    empty := fun _ held => ⟨⟨held.1.imap, held.1.named, held.1.log, held.1.msg, held.1.newMsg⟩, held.2⟩
    enter := fun held =>
      ⟨⟨held.1.imap, held.1.named, held.1.log, fun _ => held.1.newMsg, held.1.newMsg⟩, held.2⟩ }
  have result := rules.untilLeft (s := .start opts world env budget) rfl
    (fun sys term port log => ⟨placed_opened sys term, rfl⟩) (fun _ _ _ _ _ => rfl) _ rfl
  cases ran : (untilLeft build).run (.start opts world env budget) with
  | ok reason s =>
      rw [ran] at result
      exact result
  | error stop s =>
      rw [ran] at result
      exact result

end Unwritten

namespace Launch.Fresh

variable {l : Launch}

theorem apart_settled (fresh : l.Fresh) (connects : (l.replies .msg).Connects) : Apart l.opts l.settled where
  msg := by
    rw [settled, ffwd, Ffwd.init_msgfd, setupSocket_connects connects]
    exact fresh.socket .msg
  log named := by
    rw [settled, ffwd, Ffwd.init_msgfd]
    exact ⟨(fresh.log named).1, (fresh.log named).2 .msg⟩

/-- `loop` writes nothing to the control connection. -/
theorem quietControl (fresh : l.Fresh) : PpcomProcess.QuietControl l := by
  intro connects n
  apply spared_run
  have ctlfd : l.ffwd.ctlfd = (l.replies .ctl).socket := by
    rw [ffwd, Ffwd.init_ctlfd, setupSocket_connects connects]
  rw [ctlfd]
  refine ⟨fresh.socket .ctl, ?_, fun named => ?_⟩
  · rw [settled, ffwd, Ffwd.init_msgfd]
    by_cases made : (l.replies .msg).Connects
    · rw [setupSocket_connects made]
      exact (fresh.apart made).symm
    · rw [setupSocket_fails made]
      exact (fresh.socket .ctl).symm
  · have other := (fresh.log named).2 .ctl
    rwa [setupSocket_connects connects] at other

end Launch.Fresh

/-! ### The message connection -/

/-- A system in which `a` comes from the port. -/
def receivingEnv (msgfd : Int) : Env :=
  { Env.works [] [.data 0x61 []] [] (fun fd => fd == 3) fun _ => false with msgfd := msgfd }

def receivingOpts : Opts := { Opts.default with noinit := true, quiet := true }

/-- A run that receives it. -/
def receivingRun (msgfd : Int) : EStateM.Result Stop Session LeReason :=
  (untilLeft .cmake).run (.start receivingOpts .fresh (receivingEnv msgfd) 1)

/-- Where the message connection is standard output, `a` is shown twice. -/
theorem receivingRun_sto : ∃ s, receivingRun sto = .error .observed s ∧
    portBytes s.trace = [0x61] ∧ written .port sto s.trace = [0x61, 0x61] := by
  have held : (thrown (receivingRun sto)).map
      (fun t => (t.1, portBytes t.2.trace, written .port sto t.2.trace)) =
      some (.observed, [0x61], [0x61, 0x61]) := by decide +kernel
  obtain ⟨⟨stop, s⟩, threw, same⟩ := Option.map_eq_some_iff.mp held
  obtain ⟨rfl, rest⟩ := Prod.mk.inj same
  obtain ⟨bytes, twice⟩ := Prod.mk.inj rest
  exact ⟨s, eq_error_of_thrown threw, bytes, twice⟩

theorem not_delivered_sto {s : Session} (bytes : portBytes s.trace = [0x61])
    (twice : written .port sto s.trace = [0x61, 0x61]) (log : Int) :
    ¬ Delivered receivingOpts log s.trace := by
  intro held
  have shown := held.shown
  rw [bytes, twice] at shown
  exact absurd shown (by decide +kernel)

theorem receivingOpts_total : ¬ Ignores receivingOpts.imap := by
  unfold Ignores
  decide

/-- The process that receives it, with the given replies to `setup_socket` for the message connection. -/
def receivingLaunch (replies : SocketReplies) : Launch :=
  { Launch.works receivingOpts (receivingEnv 6) with
    replies := fun
      | .msg => replies
      | .ctl => ⟨7, 1, 0⟩ }

theorem receivingLaunch_settled (replies : SocketReplies) :
    (receivingLaunch replies).settled = receivingEnv (setupSocket replies) := by
  rw [Launch.settled, Launch.ffwd, Ffwd.init_msgfd, Ffwd.init_ctlfd]
  rfl

theorem receivingLaunch_run (replies : SocketReplies) :
    (receivingLaunch replies).run 1 = receivingRun (setupSocket replies) := by
  rw [Launch.run, Launch.start, receivingLaunch_settled]
  rfl

theorem receivingLaunch_fresh {replies : SocketReplies} (fresh : replies.socket ≠ sto)
    (apart : replies.Connects → 7 ≠ replies.socket) : (receivingLaunch replies).Fresh where
  socket side := by
    cases side with
    | msg => exact fresh
    | ctl => exact (by decide : (7 : Int) ≠ sto)
  apart := apart
  log := nofun

/-- It comes to where `a` was read. -/
theorem receivingLaunch_runs (replies : SocketReplies)
    (observed : ∀ k ≤ 1, (thrown ((untilLeft .cmake).run (.start receivingOpts .fresh
      (receivingEnv (setupSocket replies)) k))).map (fun t => (t.1, ctlChunks t.2.trace)) =
        some (.observed, [])) :
    ∃ made p, ProcessRun (receivingLaunch replies) made p ∧ p.passed = 1 ∧
      ∀ st ∈ made, st.input = .main := by
  obtain ⟨made, p, run, -, passed, alone⟩ := main_runs (l := receivingLaunch replies) rfl 1 fun k before => by
    obtain ⟨⟨stop, s⟩, threw, same⟩ := Option.map_eq_some_iff.mp (observed k before)
    obtain ⟨rfl, silent⟩ := Prod.mk.inj same
    refine ⟨s, ?_, silent⟩
    rw [Launch.run, Launch.start, receivingLaunch_settled]
    exact eq_error_of_thrown threw
  exact ⟨made, p, run, passed, alone⟩

/-- In a run of the main thread alone nobody connects. -/
theorem noGuests_of_main {made : List ProcessStep} (alone : ∀ st ∈ made, st.input = .main) :
    ∀ st ∈ made, ¬ st.input.Guest := by
  intro st inside
  rw [alone st inside]
  exact id

/-- What is promised of a run whose map ignores nothing. -/
structure DeliveredIn (opts : Opts) (env : Env) (run : EStateM.Result Stop Session LeReason) :
    Prop where
  left : ∀ {reason s}, run = .ok reason s → Delivered opts env.openLog s.trace
  stopped : ∀ {stop s}, run = .error stop s → (∀ message, stop ≠ .fatal message) →
    Delivered opts env.openLog s.trace
  fatal : ∀ {message s}, run = .error (.fatal message) s → DeliveredPart opts env.openLog s.trace

/-- What is promised of a run of the process: what `loop` has done, and that its other thread shows no data. -/
structure DeliveredBy (l : Launch) (made : List ProcessStep) (p : PpcomProcess) : Prop where
  loop : DeliveredIn l.opts l.settled (l.run p.passed)
  thread : ∀ st ∈ made, st.output = []

/-- For a map that ignores nothing, what comes from the port is shown on standard output as the manual
documents, in whatever portions it is read, and no portion is too large for the buffer; the log gets
the bytes themselves, and with local echo those that were sent. This is so in every run of the process in
which no other program connects to the servers, up to where a write fails, exactly if the message connection
is made. Where it is not, `setup_socket` returns the descriptor of standard output. A descriptor that the
system makes is none of those in use. -/
theorem inbound_delivered_iff (replies : SocketReplies) (fresh : replies.socket ≠ sto) :
    (∀ (l : Launch) (made : List ProcessStep) (p : PpcomProcess), l.replies .msg = replies → l.Fresh →
      ¬ Ignores l.opts.imap → ProcessRun l made p → (∀ st ∈ made, ¬ st.input.Guest) →
      DeliveredBy l made p) ↔ replies.Connects := by
  constructor
  · intro delivered
    by_contra fails
    have failed := setupSocket_fails fails
    obtain ⟨made, p, run, passed, alone⟩ := receivingLaunch_runs replies (by rw [failed]; decide +kernel)
    have result := (delivered (receivingLaunch replies) made p rfl (receivingLaunch_fresh fresh (absurd · fails))
      receivingOpts_total run (noGuests_of_main alone)).loop
    rw [passed, receivingLaunch_run, failed] at result
    obtain ⟨s, ran, bytes, twice⟩ := receivingRun_sto
    exact not_delivered_sto bytes twice _ (result.stopped ran nofun)
  · rintro connects l made p rfl fresh total run guests
    obtain ⟨left, stopped⟩ := @inbound_run l.build _ l.world _ p.passed (fresh.apart_settled connects)
    refine ⟨?_, run_unlogged run fresh.quietControl guests⟩
    exact {
      left := fun ran => (left _ _ ran).2 nofun nofun
      stopped := fun ran alive => (stopped _ _ ran).2 alive fun _ => total
      fatal := fun ran => (stopped _ _ ran).1 }

/-- `a` comes from the port, and the message connection is descriptor 6. -/
theorem inbound_delivered_connected : ∃ made p, ProcessRun (receivingLaunch ⟨6, 1, 0⟩) made p ∧
    p.passed = 1 ∧ DeliveredBy (receivingLaunch ⟨6, 1, 0⟩) made p := by
  obtain ⟨made, p, run, passed, alone⟩ := receivingLaunch_runs ⟨6, 1, 0⟩ (by decide +kernel)
  refine ⟨made, p, run, passed, ?_⟩
  exact (inbound_delivered_iff ⟨6, 1, 0⟩ (by decide)).mpr (by simp [SocketReplies.Connects])
    (receivingLaunch ⟨6, 1, 0⟩) made p rfl (receivingLaunch_fresh (by decide) fun _ => by decide)
    receivingOpts_total run (noGuests_of_main alone)

/-- Where the message connection is made and another program has connected to the server, `a` is shown by
`loop`, and then logged by the thread of the servers. -/
theorem receivingLaunch_repeats : ∃ made p, ProcessRun (receivingLaunch ⟨6, 1, 0⟩) made p ∧
    written .port sto (p.reached (receivingLaunch ⟨6, 1, 0⟩)).trace = [0x61] ∧
    ∃ st ∈ made, st.before.own .msg = .accepted 8 ∧ .sent 8 9 [0x61] ∈ st.output := by
  have held : (Machine.trail (PpcomProcess.step (receivingLaunch ⟨6, 1, 0⟩)) .start
      [.main, .main, .main, .poll, .report [4], .attend (.accepted 8) .program, .poll, .report [4],
        .attend (.accepted 9) .guest, .poll, .main, .report [8],
        .attend (.read [] (.data ⟨[0x61], by decide, by decide⟩)) .program]).map (fun made =>
      (written .port sto ((Machine.last .start made).reached (receivingLaunch ⟨6, 1, 0⟩)).trace,
        made.flatMap fun st => st.output.map fun line => (line, st.before.own .msg))) =
      some ([0x61], [(.sent 8 9 [0x61], .accepted 8)]) := by
    decide +kernel
  obtain ⟨made, ran, same⟩ := Option.map_eq_some_iff.mp held
  obtain ⟨shown, lines⟩ := Prod.mk.inj same
  have logged : (LogLine.sent 8 9 [0x61], OwnEnd.accepted 8) ∈
      made.flatMap fun st => st.output.map fun line => (line, st.before.own .msg) := by
    rw [lines]
    exact List.mem_singleton_self _
  obtain ⟨st, inside, logged⟩ := List.mem_flatMap.mp logged
  obtain ⟨line, output, is⟩ := List.mem_map.mp logged
  obtain ⟨rfl, own⟩ := Prod.mk.inj is
  exact ⟨made, _, Machine.Run.of_trail ran, shown, st, inside, own, output⟩

/-- Where the message connection cannot be made, `a` is shown twice, and so it is where another program has
connected. -/
theorem inbound_shown_twice :
    (∃ s, (receivingLaunch ⟨-1, 1, 0⟩).run 1 = .error .observed s ∧
      ¬ Delivered receivingOpts 5 s.trace) ∧
    ∃ made p, ProcessRun (receivingLaunch ⟨6, 1, 0⟩) made p ∧
      ¬ DeliveredBy (receivingLaunch ⟨6, 1, 0⟩) made p := by
  constructor
  · rw [receivingLaunch_run, setupSocket_fails (by simp [SocketReplies.Connects])]
    obtain ⟨s, ran, bytes, twice⟩ := receivingRun_sto
    exact ⟨s, ran, not_delivered_sto bytes twice _⟩
  · obtain ⟨made, p, run, -, st, inside, -, logged⟩ := receivingLaunch_repeats
    refine ⟨made, p, run, fun delivered => ?_⟩
    rw [delivered.thread st inside] at logged
    cases logged

end Ppcom
