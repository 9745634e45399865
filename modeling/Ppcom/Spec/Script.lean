/-
Module: Ppcom.Spec.Script
Purpose: What a stream of typed bytes stands for when the answers to prompts are part of it: the
  prompts of the commands are asked of the bytes that follow the key, whatever reads they come in.
Trusted boundary: none
Main exports: Source.Plain, Source.bytes, Source.whole, Source.Alike, question, deeds, stdinReads,
  script, PromptsLast, PromptsEndReads
-/
import Ppcom.Command
import Ppcom.Spec.Streams

namespace Ppcom

/-! ### Bytes in portions -/

namespace Source

/-- Nothing but bytes is to be read, and then the end of the input. -/
def Plain (src : Source) : Prop := ∀ reply ∈ src, ∃ first rest, reply = .data first rest

/-- The bytes that are to be read. -/
def bytes : Source → List UInt8
  | [] => []
  | .data first rest :: later => first :: (rest ++ bytes later)
  | _ :: later => bytes later

/-- The bytes in one portion. -/
def whole : List UInt8 → Source
  | [] => []
  | first :: rest => [.data first rest]

/-- The same bytes are to be read, in portions that may differ. -/
structure Alike (src src' : Source) : Prop where
  plain : src.Plain
  plain' : src'.Plain
  bytes : src.bytes = src'.bytes

@[simp] theorem plain_nil : Plain [] := nofun

@[simp] theorem bytes_whole (typed : List UInt8) : (whole typed).bytes = typed := by
  cases typed <;> simp [whole, bytes]

theorem plain_whole (typed : List UInt8) : (whole typed).Plain := by
  cases typed <;> simp [whole, Plain]

theorem Plain.tail {reply : ReadReply} {later : Source} (plain : Plain (reply :: later)) :
    Plain later :=
  fun other inside => plain other (List.mem_cons_of_mem _ inside)

theorem Plain.cons {first : UInt8} {rest : List UInt8} {later : Source} (plain : Plain later) :
    Plain (.data first rest :: later) := by
  intro reply inside
  rcases List.mem_cons.mp inside with rfl | behind
  · exact ⟨first, rest, rfl⟩
  · exact plain reply behind

theorem Plain.alike_whole {src : Source} (plain : src.Plain) : Alike src (whole src.bytes) :=
  ⟨plain, plain_whole _, (bytes_whole _).symm⟩

theorem Plain.size {src : Source} (plain : src.Plain) : Source.size src = src.bytes.length := by
  induction src with
  | nil => rfl
  | cons reply later ih =>
      obtain ⟨first, rest, rfl⟩ := plain reply List.mem_cons_self
      simp only [Source.size, bytes, List.length_cons, List.length_append, ih plain.tail]
      omega

/-- A read takes the first of the bytes. -/
theorem Plain.read {src : Source} (plain : src.Plain) (sz : Nat) :
    src = [] ∨ ∃ first rest later, Source.read sz src = (.data first rest, later) ∧
      rest.length ≤ sz - 1 ∧ later.Plain ∧ src.bytes = first :: (rest ++ later.bytes) := by
  cases src with
  | nil => exact .inl rfl
  | cons reply later =>
      obtain ⟨first, rest, rfl⟩ := plain reply List.mem_cons_self
      refine .inr ⟨first, rest.take (sz - 1), _, rfl, List.length_take_le _ _, ?_, ?_⟩
      · split
        · exact plain.tail
        · exact .cons plain.tail
      · have parts := List.take_append_drop (sz - 1) rest
        split
        · next none =>
          rw [none, List.append_nil] at parts
          rw [bytes, parts]
        · next next more some =>
          rw [some] at parts
          have joined : rest ++ bytes later =
              rest.take (sz - 1) ++ next :: (more ++ bytes later) := by
            rw [← List.cons_append, ← List.append_assoc, parts]
          simp only [bytes, joined]

end Source

/-! ### Prompts -/

/-- What the command `xfrCmd` of a transfer asks for: the function that reads the answer. -/
def fnameQuestion (xfrCmd : List UInt8) : Option (Source → Entry × Source) :=
  if xfrCmd = [] then none else some fun src => (readFilename src).map .fname id

/-- What the command of a key asks for. -/
def Key.question (plat : Platform) (opts : Opts) : Key → Option (Source → Entry × Source)
  | .baud => some fun src => (readBaud plat src).map .baud id
  | .send => fnameQuestion opts.sendCmd
  | .receive => fnameQuestion opts.receiveCmd
  | .hex => some fun src => (readHex hexbufSz src).map .hex id
  | _ => none

/-- What a byte asks for where a command key is to come. -/
def question (plat : Platform) (opts : Opts) (key : UInt8) : Option (Source → Entry × Source) :=
  (Key.ofByte key).bind (Key.question plat opts)

/-- The events in which a run does something with what was typed: it offers a byte to the queue, starts
a command, or has the answer to a prompt. -/
def Event.isDeed : Event → Bool
  | .act _ | .enter _ => true
  | _ => false

/-- What a run has done with what was typed. -/
def deeds (trace : List Event) : List Event := trace.filter Event.isDeed

/-- What the reads of standard input in `loop` have returned. -/
def stdinReads (trace : List Event) : List (List UInt8) :=
  trace.filterMap fun
    | .stdin buff => some buff
    | _ => none

@[simp] theorem deeds_append (before after : List Event) :
    deeds (before ++ after) = deeds before ++ deeds after :=
  List.filter_append ..

@[simp] theorem stdinReads_append (before after : List Event) :
    stdinReads (before ++ after) = stdinReads before ++ stdinReads after :=
  List.filterMap_append

theorem flatten_stdinReads (trace : List Event) : (stdinReads trace).flatten = stdinBytes trace := by
  induction trace with
  | nil => rfl
  | cons e rest ih =>
      cases e with
      | stdin buff =>
          simp only [stdinReads, stdinBytes, List.filterMap_cons, List.flatMap_cons,
            List.flatten_cons] at ih ⊢
          rw [ih]
      | _ => simpa only [stdinReads, stdinBytes, List.filterMap_cons, List.flatMap_cons,
          List.nil_append] using ih

section Script

variable (plat : Platform) (opts : Opts)

/-- What is to be done for the bytes that are typed, from a state of the escape machine on. Every byte
takes one of the turns that the first argument bounds. -/
def scriptFrom : Nat → LoopState → List UInt8 → List Event
  | 0, _, _ => []
  | _ + 1, _, [] => []
  | n + 1, .transparent, b :: rest =>
      if some b = opts.escapeByte then scriptFrom n .command rest
      else .act (.data b) :: scriptFrom n .transparent rest
  | n + 1, .command, b :: rest =>
      if some b = opts.escapeByte then .act (.data b) :: scriptFrom n .transparent rest
      else if (Action.command b).ends then [.act (.command b)]
      else
        match question plat opts b with
        | none => .act (.command b) :: scriptFrom n .transparent rest
        | some read =>
            -- the answer is what is typed behind the key
            let (entry, left) := read (.whole rest)
            .act (.command b) :: .enter entry :: scriptFrom n .transparent left.bytes

/-- What is to be done for the bytes that are typed. -/
def script (state : LoopState) (typed : List UInt8) : List Event :=
  scriptFrom plat opts typed.length state typed

/-- The prompts that the bytes of a read lead to are asked after the last of them. -/
def PromptsLast : LoopState → List UInt8 → Prop
  | _, [] => True
  | .transparent, b :: rest =>
      if some b = opts.escapeByte then PromptsLast .command rest else PromptsLast .transparent rest
  | .command, b :: rest =>
      (some b ≠ opts.escapeByte → (question plat opts b).isSome → rest = []) ∧
        PromptsLast .transparent rest

/-- Every command key in the reads of `loop` that asks for something is the last byte of its read. A
command key is to come where the first argument says so. -/
def PromptsEndReads : Bool → List (List UInt8) → Prop
  | _, [] => True
  | pending, buff :: later =>
      PromptsLast plat opts (.of pending) buff ∧
        PromptsEndReads (tokenise opts.escapeByte pending buff).2 later

instance decidablePromptsLast :
    ∀ state buff, Decidable (PromptsLast plat opts state buff)
  | .transparent, [] | .command, [] => inferInstanceAs (Decidable True)
  | .transparent, b :: rest =>
      have := decidablePromptsLast .command rest
      have := decidablePromptsLast .transparent rest
      inferInstanceAs (Decidable (if some b = opts.escapeByte then PromptsLast plat opts .command rest
        else PromptsLast plat opts .transparent rest))
  | .command, b :: rest =>
      have := decidablePromptsLast .transparent rest
      inferInstanceAs (Decidable
        ((some b ≠ opts.escapeByte → (question plat opts b).isSome → rest = []) ∧
          PromptsLast plat opts .transparent rest))

instance decidablePromptsEndReads :
    ∀ pending reads, Decidable (PromptsEndReads plat opts pending reads)
  | _, [] => inferInstanceAs (Decidable True)
  | pending, buff :: later =>
      have := decidablePromptsEndReads (tokenise opts.escapeByte pending buff).2 later
      inferInstanceAs (Decidable (PromptsLast plat opts (.of pending) buff ∧
        PromptsEndReads plat opts (tokenise opts.escapeByte pending buff).2 later))

variable {plat opts} {pending : Bool} {reads : List (List UInt8)}

theorem promptsEndReads_append (later : List (List UInt8)) :
    PromptsEndReads plat opts pending (reads ++ later) ↔
      PromptsEndReads plat opts pending reads ∧
        PromptsEndReads plat opts (tokenise opts.escapeByte pending reads.flatten).2 later := by
  induction reads generalizing pending with
  | nil => cases pending <;> simp [PromptsEndReads, tokenise]
  | cons buff reads ih =>
      simp only [List.cons_append, PromptsEndReads, ih, List.flatten_cons, tokenise_append, and_assoc]

end Script

end Ppcom
