/-
Module: Ppcom.Spec.Copies
Purpose: What a run writes to descriptors other than the port, read from its history: for the sake of
  which data, and to where.
Trusted boundary: none
Main exports: Origin, written, portBytes, echoed, written_episode
-/
import Ppcom.Session

namespace Ppcom

/-- Data that is written to other descriptors: what came from the port, the echo of what was accepted,
and what was sent to the port. -/
inductive Origin where
  | port
  | echo
  | sent
deriving DecidableEq, Repr

/-- The events behind which data of an origin is written. -/
def Event.origin : Event → Option Origin
  | .port _ => some .port
  | .accept _ => some .echo
  | .write _ _ _ => some .sent
  | _ => none

/-- One event more: which data is written from now on, and what was written to `fd` of one kind. -/
def account (kind : Origin) (fd : Int) (sofar : Option Origin × List UInt8) :
    Event → Option Origin × List UInt8
  | .put fd' buff =>
      (sofar.1, if sofar.1 = some kind ∧ fd' = fd then sofar.2 ++ buff else sofar.2)
  | e => (e.origin <|> sofar.1, sofar.2)

/-- What a run has written to `fd` for the sake of one kind of data. -/
def written (kind : Origin) (fd : Int) (trace : List Event) : List UInt8 :=
  (trace.foldl (account kind fd) (none, [])).2

/-- What a list of events writes to `fd`. -/
def putTo (fd : Int) (events : List Event) : List UInt8 :=
  events.flatMap fun
    | .put fd' buff => if fd' = fd then buff else []
    | _ => []

/-- The bytes that were read from the port. -/
def portBytes (trace : List Event) : List UInt8 :=
  trace.flatMap fun
    | .port buff => buff
    | _ => []

/-- One event more: whether local echo is on, and what was sent to the port while it was. -/
def echoAccount (sofar : Bool × List UInt8) : Event → Bool × List UInt8
  | .lecho on => (on, sofar.2)
  | .write _ _ taken => (sofar.1, if sofar.1 then sofar.2 ++ taken else sofar.2)
  | _ => sofar

/-- Whether local echo is on, which at first it is or is not, and the bytes that were sent to the port
while it was. -/
def echoed (lecho : Bool) (trace : List Event) : Bool × List UInt8 :=
  trace.foldl echoAccount (lecho, [])

/-! ### Episodes -/

@[simp] theorem portBytes_append (before after : List Event) :
    portBytes (before ++ after) = portBytes before ++ portBytes after :=
  List.flatMap_append

@[simp] theorem portBytes_port (buff : List UInt8) : portBytes [.port buff] = buff := by
  simp [portBytes]

@[simp] theorem putTo_put (fd : Int) (buff : List UInt8) : putTo fd [.put fd buff] = buff := by
  simp [putTo]

@[simp] theorem putTo_append (fd : Int) (before after : List Event) :
    putTo fd (before ++ after) = putTo fd before ++ putTo fd after :=
  List.flatMap_append

/-- Events that write to other descriptors and do nothing else. -/
def Puts (events : List Event) : Prop := ∀ e ∈ events, ∃ fd buff, e = .put fd buff

theorem Puts.tail {e : Event} {events : List Event} (puts : Puts (e :: events)) : Puts events :=
  fun e' inside => puts e' (List.mem_cons_of_mem _ inside)

theorem foldl_account_puts {kind : Origin} {fd : Int} {events : List Event} (puts : Puts events)
    (sofar : Option Origin × List UInt8) :
    events.foldl (account kind fd) sofar =
      (sofar.1, sofar.2 ++ if sofar.1 = some kind then putTo fd events else []) := by
  induction events generalizing sofar with
  | nil => simp [putTo]
  | cons e events ih =>
      obtain ⟨fd', buff, rfl⟩ := puts e (by simp)
      rw [List.foldl_cons, ih puts.tail]
      by_cases now : sofar.1 = some kind
      · by_cases same : fd' = fd <;> simp [account, now, same, putTo]
      · simp [account, now]

/-- An event that writes nothing at most changes the origin. -/
theorem account_other {kind : Origin} {fd : Int} {e : Event} (other : ∀ fd buff, e ≠ .put fd buff)
    (sofar : Option Origin × List UInt8) :
    account kind fd sofar e = (e.origin <|> sofar.1, sofar.2) := by
  cases e with
  | put fd buff => exact absurd rfl (other fd buff)
  | _ => rfl

/-- Behind an event of an origin the data of that origin is written. -/
theorem written_episode {kind origin : Origin} {fd : Int} {e : Event} {puts : List Event}
    (trace : List Event) (is : e.origin = some origin) (are : Puts puts) :
    written kind fd (trace ++ e :: puts) =
      written kind fd trace ++ if origin = kind then putTo fd puts else [] := by
  have other : ∀ fd buff, e ≠ .put fd buff := by
    rintro fd buff rfl
    cases is
  rw [written, List.foldl_append, List.foldl_cons, foldl_account_puts are, account_other other, is]
  by_cases same : origin = kind <;> simp [same, written]

/-- Other events write nothing. -/
theorem written_other {kind : Origin} {fd : Int} {e : Event} (trace : List Event)
    (other : ∀ fd buff, e ≠ .put fd buff) :
    written kind fd (trace ++ [e]) = written kind fd trace := by
  rw [written, List.foldl_append, List.foldl_cons, List.foldl_nil, account_other other]
  rfl

/-- Events that neither switch local echo nor send to the port leave it alone. -/
theorem echoed_other {lecho : Bool} {new : List Event} (trace : List Event)
    (other : ∀ e ∈ new, (∀ on, e ≠ .lecho on) ∧ ∀ len sz taken, e ≠ .write len sz taken) :
    echoed lecho (trace ++ new) = echoed lecho trace := by
  rw [echoed, List.foldl_append]
  change new.foldl echoAccount (echoed lecho trace) = echoed lecho trace
  generalize echoed lecho trace = sofar
  induction new with
  | nil => rfl
  | cons e new ih =>
      have same : echoAccount sofar e = sofar := by
        obtain ⟨switch, write⟩ := other e (by simp)
        cases e with
        | lecho on => exact absurd rfl (switch on)
        | write len sz taken => exact absurd rfl (write len sz taken)
        | _ => rfl
      rw [List.foldl_cons, same]
      exact ih fun e' inside => other e' (List.mem_cons_of_mem _ inside)

theorem Puts.notEcho {events : List Event} (puts : Puts events) :
    ∀ e ∈ events, (∀ on, e ≠ .lecho on) ∧ ∀ len sz taken, e ≠ .write len sz taken := by
  intro e inside
  obtain ⟨fd, buff, rfl⟩ := puts e inside
  exact ⟨nofun, nofun⟩

/-- What an event sends to the port while local echo is `on`. -/
def Event.echoes (on : Bool) : Event → List UInt8
  | .write _ _ taken => if on then taken else []
  | _ => []

/-- What is sent to the port counts while local echo is on. -/
theorem echoed_episode {lecho : Bool} {e : Event} {puts : List Event} (trace : List Event)
    (stays : ∀ on, e ≠ .lecho on) (are : Puts puts) :
    echoed lecho (trace ++ e :: puts) = ((echoed lecho trace).1,
      (echoed lecho trace).2 ++ e.echoes (echoed lecho trace).1) := by
  rw [List.append_cons, echoed_other _ are.notEcho, echoed, List.foldl_append]
  rw [List.foldl_cons, List.foldl_nil, echoed]
  generalize trace.foldl echoAccount (lecho, []) = sofar
  obtain ⟨on, bytes⟩ := sofar
  cases e with
  | lecho on' => exact absurd rfl (stays on')
  | write => cases on <;> simp [echoAccount, Event.echoes]
  | _ => simp [echoAccount, Event.echoes]

end Ppcom
