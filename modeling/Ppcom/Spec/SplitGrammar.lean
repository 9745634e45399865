/-
Module: Ppcom.Spec.SplitGrammar
Purpose: The quoting rules of `split.h` as a grammar that knows nothing of lexer states, buffers or
  slots: which byte strings are sequences of arguments, which arguments they denote, and which end
  where something is still open.
Trusted boundary: human-reviewed spec
Main exports: DqBody, Piece, WordTail, Word, Gap, Arguments, Unclosed, Malformed
-/
import Ppcom.Split

namespace Ppcom.Split

/-- The delimiters of `split.h`: space, tab, newline. -/
def Delimiter (c : UInt8) : Prop := c = 0x20 ∨ c = 0x09 ∨ c = nl

/-- Inside double quotes a backslash is special before these four. -/
def DqEscaped (c : UInt8) : Prop := c = dq ∨ c = bs ∨ c = 0x24 ∨ c = 0x60

/-- The bytes that do not simply stand for themselves outside quotes. -/
def Special (c : UInt8) : Prop := Delimiter c ∨ c = bs ∨ c = sq ∨ c = dq

/-- `DqBody raw v`: between double quotes the bytes `raw` denote `v`. -/
inductive DqBody : List UInt8 → List UInt8 → Prop where
  | nil : DqBody [] []
  | plain {c : UInt8} {raw v : List UInt8} (notQuote : c ≠ dq) (notBs : c ≠ bs)
      (rest : DqBody raw v) : DqBody (c :: raw) (c :: v)
  | escaped {c : UInt8} {raw v : List UInt8} (special : DqEscaped c)
      (rest : DqBody raw v) : DqBody (bs :: c :: raw) (c :: v)
  | joined {raw v : List UInt8} (rest : DqBody raw v) : DqBody (bs :: nl :: raw) v
  | kept {c : UInt8} {raw v : List UInt8} (ordinary : ¬ DqEscaped c) (notNl : c ≠ nl)
      (rest : DqBody raw v) : DqBody (bs :: c :: raw) (bs :: c :: v)

/-- `Piece raw v`: one visible part of a word, and what it denotes. -/
inductive Piece : List UInt8 → List UInt8 → Prop where
  | plain {c : UInt8} (ordinary : ¬ Special c) : Piece [c] [c]
  | escaped {c : UInt8} (notNl : c ≠ nl) : Piece [bs, c] [c]
  | single {body : List UInt8} (closed : sq ∉ body) : Piece (sq :: (body ++ [sq])) body
  | double {raw v : List UInt8} (body : DqBody raw v) : Piece (dq :: (raw ++ [dq])) v

/-- The part of a word after its first piece; a backslash-newline inside it is removed. -/
inductive WordTail : List UInt8 → List UInt8 → Prop where
  | nil : WordTail [] []
  | piece {raw v raws vs : List UInt8} (head : Piece raw v) (rest : WordTail raws vs) :
      WordTail (raw ++ raws) (v ++ vs)
  | joined {raws vs : List UInt8} (rest : WordTail raws vs) : WordTail (bs :: nl :: raws) vs

/-- `Word raw v`: the bytes `raw` are one argument, denoting `v`. -/
inductive Word : List UInt8 → List UInt8 → Prop where
  | mk {raw v raws vs : List UInt8} (head : Piece raw v) (rest : WordTail raws vs) :
      Word (raw ++ raws) (v ++ vs)

/-- What may stand between words. -/
inductive Gap : List UInt8 → Prop where
  | nil : Gap []
  | delim {c : UInt8} {raw : List UInt8} (delimiter : Delimiter c) (rest : Gap raw) :
      Gap (c :: raw)
  | joined {raw : List UInt8} (rest : Gap raw) : Gap (bs :: nl :: raw)

/-- A word ends at the end of the string or at a delimiter. -/
def WordEnds (rest : List UInt8) : Prop :=
  rest = [] ∨ ∃ c raw, rest = c :: raw ∧ Delimiter c

/-- `Arguments s args`: the string `s` is well formed and denotes the list `args`. -/
inductive Arguments : List UInt8 → List (List UInt8) → Prop where
  | none {gap : List UInt8} (only : Gap gap) : Arguments gap []
  | word {gap raw v rest : List UInt8} {args : List (List UInt8)} (before : Gap gap)
      (head : Word raw v) (ends : WordEnds rest) (after : Arguments rest args) :
      Arguments (gap ++ (raw ++ rest)) (v :: args)

/-- The ends a string must not have: a lone backslash outside single quotes, or a quote that is
still open. -/
inductive Unclosed : List UInt8 → Prop where
  | backslash : Unclosed [bs]
  | single {body : List UInt8} (noClose : sq ∉ body) : Unclosed (sq :: body)
  | double {raw v : List UInt8} (body : DqBody raw v) : Unclosed (dq :: raw)
  | doubleBackslash {raw v : List UInt8} (body : DqBody raw v) : Unclosed (dq :: (raw ++ [bs]))

/-- A string that is well formed up to a point and from there on is left open. -/
def Malformed (s : List UInt8) : Prop :=
  ∃ before args tail, Arguments before args ∧ Unclosed tail ∧ s = before ++ tail

instance (c : UInt8) : Decidable (Delimiter c) := by
  unfold Delimiter; infer_instance

instance (c : UInt8) : Decidable (DqEscaped c) := by
  unfold DqEscaped; infer_instance

instance (c : UInt8) : Decidable (Special c) := by
  unfold Special; infer_instance

/-! ### Every string is of one of the two kinds -/

/-- Reading on from inside double quotes. -/
theorem dqBody_or_unclosed (s : List UInt8) :
    (∃ raw v rest, DqBody raw v ∧ s = raw ++ dq :: rest) ∨
      ∃ raw v, DqBody raw v ∧ (s = raw ∨ s = raw ++ [bs]) := by
  induction length : s.length using Nat.strongRecOn generalizing s with
  | ind n ih =>
      match s with
      | [] => exact Or.inr ⟨[], [], .nil, Or.inl rfl⟩
      | c :: s =>
          by_cases quote : c = dq
          · exact Or.inl ⟨[], [], s, .nil, by simp [quote]⟩
          by_cases backslash : c = bs
          · subst backslash
            match s with
            | [] => exact Or.inr ⟨[], [], .nil, Or.inr rfl⟩
            | d :: s =>
                have step : ∀ add : List UInt8,
                    (∀ raw v, DqBody raw v → DqBody (bs :: d :: raw) (add ++ v)) →
                    (∃ raw v rest, DqBody raw v ∧ bs :: d :: s = raw ++ dq :: rest) ∨
                      ∃ raw v, DqBody raw v ∧
                        (bs :: d :: s = raw ∨ bs :: d :: s = raw ++ [bs]) := by
                  intro add extend
                  rcases ih s.length (by simp at length; omega) s rfl with
                    ⟨raw, v, rest, body, eq⟩ | ⟨raw, v, body, eq⟩
                  · exact Or.inl ⟨bs :: d :: raw, add ++ v, rest, extend raw v body, by simp [eq]⟩
                  · refine Or.inr ⟨bs :: d :: raw, add ++ v, extend raw v body, ?_⟩
                    rcases eq with eq | eq
                    · exact Or.inl (by rw [eq])
                    · exact Or.inr (by rw [eq]; rfl)
                by_cases newline : d = nl
                · subst newline
                  exact step [] fun _ _ body => .joined body
                by_cases special : DqEscaped d
                · exact step [d] fun _ _ body => .escaped special body
                · exact step [bs, d] fun _ _ body => .kept special newline body
          · rcases ih s.length (by simp at length; omega) s rfl with
              ⟨raw, v, rest, body, eq⟩ | ⟨raw, v, body, eq⟩
            · exact Or.inl ⟨c :: raw, c :: v, rest, .plain quote backslash body, by simp [eq]⟩
            · refine Or.inr ⟨c :: raw, c :: v, .plain quote backslash body, ?_⟩
              rcases eq with eq | eq
              · exact Or.inl (by rw [eq])
              · exact Or.inr (by rw [eq]; rfl)

/-- Reading on from inside single quotes. -/
theorem single_or_unclosed (s : List UInt8) :
    (∃ body rest, sq ∉ body ∧ s = body ++ sq :: rest) ∨ sq ∉ s := by
  by_cases present : sq ∈ s
  · obtain ⟨body, rest, eq, fresh⟩ := List.eq_append_cons_of_mem present
    exact Or.inl ⟨body, rest, fresh, eq⟩
  · exact Or.inr present

/-- A string that does not begin with a delimiter or a backslash-newline, and is not empty, begins
with a piece or is left open. -/
theorem piece_or_unclosed {s : List UInt8} (nonempty : s ≠ [])
    (notDelim : ∀ c rest, s = c :: rest → ¬ Delimiter c) (notJoin : ∀ rest, s ≠ bs :: nl :: rest) :
    (∃ raw v rest, Piece raw v ∧ raw ≠ [] ∧ s = raw ++ rest) ∨ Unclosed s := by
  match s with
  | [] => exact absurd rfl nonempty
  | c :: s =>
      by_cases backslash : c = bs
      · subst backslash
        match s with
        | [] => exact Or.inr .backslash
        | d :: s =>
            have notNl : d ≠ nl := fun newline => notJoin s (by rw [newline])
            exact Or.inl ⟨[bs, d], [d], s, .escaped notNl, by simp, rfl⟩
      by_cases single : c = sq
      · subst single
        rcases single_or_unclosed s with ⟨body, rest, closed, eq⟩ | opened
        · exact Or.inl ⟨sq :: (body ++ [sq]), body, rest, .single closed, by simp, by simp [eq]⟩
        · exact Or.inr (.single opened)
      by_cases double : c = dq
      · subst double
        rcases dqBody_or_unclosed s with ⟨raw, v, rest, body, eq⟩ | ⟨raw, v, body, eq⟩
        · exact Or.inl ⟨dq :: (raw ++ [dq]), v, rest, .double body, by simp, by simp [eq]⟩
        · rcases eq with eq | eq
          · exact Or.inr (eq ▸ .double body)
          · exact Or.inr (eq ▸ .doubleBackslash body)
      · have ordinary : ¬ Special c := by
          rintro (delimiter | other | other | other)
          · exact notDelim c s rfl delimiter
          · exact backslash other
          · exact single other
          · exact double other
        exact Or.inl ⟨[c], [c], s, .plain ordinary, by simp, rfl⟩

/-- The rest of a word runs up to the end of the string, a delimiter, or something left open. -/
theorem wordTail_or_unclosed (s : List UInt8) :
    ∃ raw v rest, WordTail raw v ∧ s = raw ++ rest ∧ (WordEnds rest ∨ Unclosed rest) := by
  induction length : s.length using Nat.strongRecOn generalizing s with
  | ind n ih =>
      by_cases empty : s = []
      · exact ⟨[], [], s, .nil, rfl, Or.inl (Or.inl empty)⟩
      by_cases delimited : ∃ c rest, s = c :: rest ∧ Delimiter c
      · exact ⟨[], [], s, .nil, rfl, Or.inl (Or.inr delimited)⟩
      by_cases join : ∃ rest, s = bs :: nl :: rest
      · obtain ⟨rest, rfl⟩ := join
        obtain ⟨raw, v, after, tail, eq, ends⟩ :=
          ih rest.length (by simp at length; omega) rest rfl
        exact ⟨bs :: nl :: raw, v, after, .joined tail, by simp [eq], ends⟩
      · have notDelim : ∀ c rest, s = c :: rest → ¬ Delimiter c :=
          fun c rest eq delimiter => delimited ⟨c, rest, eq, delimiter⟩
        rcases piece_or_unclosed empty notDelim (fun rest eq => join ⟨rest, eq⟩) with
          ⟨raw, v, rest, head, nonempty, eq⟩ | opened
        · have shorter : rest.length < n := by
            have positive := List.length_pos_iff.mpr nonempty
            rw [← length, eq, List.length_append]
            omega
          obtain ⟨raws, vs, after, tail, restEq, ends⟩ := ih rest.length shorter rest rfl
          exact ⟨raw ++ raws, v ++ vs, after, .piece head tail, by simp [eq, restEq], ends⟩
        · exact ⟨[], [], s, .nil, rfl, Or.inr opened⟩

theorem Arguments.cons_delim {c : UInt8} {s : List UInt8} {args : List (List UInt8)}
    (delimiter : Delimiter c) (rest : Arguments s args) : Arguments (c :: s) args := by
  cases rest with
  | none only => exact .none (.delim delimiter only)
  | word gap head ends after => exact Arguments.word (.delim delimiter gap) head ends after

theorem Arguments.cons_join {s : List UInt8} {args : List (List UInt8)}
    (rest : Arguments s args) : Arguments (bs :: nl :: s) args := by
  cases rest with
  | none only => exact .none (.joined only)
  | word gap head ends after => exact Arguments.word (.joined gap) head ends after

theorem Gap.append_arguments {gap s : List UInt8} {args : List (List UInt8)} (before : Gap gap)
    (rest : Arguments s args) : Arguments (gap ++ s) args := by
  induction before with
  | nil => exact rest
  | delim delimiter _ ih => exact ih.cons_delim delimiter
  | joined _ ih => exact ih.cons_join

theorem Gap.append_malformed {gap s : List UInt8} (before : Gap gap) (rest : Malformed s) :
    Malformed (gap ++ s) := by
  obtain ⟨start, args, tail, wellFormed, opened, eq⟩ := rest
  exact ⟨gap ++ start, args, tail, before.append_arguments wellFormed, opened, by simp [eq]⟩

/-- The grammar leaves no string out: it denotes a list of arguments, or something in it is left
open. -/
theorem arguments_or_malformed (s : List UInt8) : (∃ args, Arguments s args) ∨ Malformed s := by
  induction length : s.length using Nat.strongRecOn generalizing s with
  | ind n ih =>
      have skip : ∀ gap rest : List UInt8, Gap gap → gap ≠ [] → s = gap ++ rest →
          (∃ args, Arguments s args) ∨ Malformed s := by
        intro gap rest before nonempty eq
        have shorter : rest.length < n := by
          have positive := List.length_pos_iff.mpr nonempty
          rw [← length, eq, List.length_append]
          omega
        rcases ih rest.length shorter rest rfl with ⟨args, wellFormed⟩ | malformed
        · exact Or.inl ⟨args, eq ▸ before.append_arguments wellFormed⟩
        · exact Or.inr (eq ▸ before.append_malformed malformed)
      by_cases empty : s = []
      · exact Or.inl ⟨[], empty ▸ .none .nil⟩
      by_cases delimited : ∃ c rest, s = c :: rest ∧ Delimiter c
      · obtain ⟨c, rest, eq, delimiter⟩ := delimited
        exact skip [c] rest (.delim delimiter .nil) (by simp) eq
      by_cases join : ∃ rest, s = bs :: nl :: rest
      · obtain ⟨rest, eq⟩ := join
        exact skip [bs, nl] rest (.joined .nil) (by simp) eq
      · have notDelim : ∀ c rest, s = c :: rest → ¬ Delimiter c :=
          fun c rest eq delimiter => delimited ⟨c, rest, eq, delimiter⟩
        rcases piece_or_unclosed empty notDelim (fun rest eq => join ⟨rest, eq⟩) with
          ⟨raw, v, rest, head, nonempty, eq⟩ | opened
        · obtain ⟨raws, vs, after, tail, restEq, ends⟩ := wordTail_or_unclosed rest
          have word : Word (raw ++ raws) (v ++ vs) := .mk head tail
          have whole : s = (raw ++ raws) ++ after := by simp [eq, restEq]
          have shorter : after.length < n := by
            have positive := List.length_pos_iff.mpr nonempty
            rw [← length, whole, List.length_append, List.length_append]
            omega
          rcases ends with ends | opened
          · rcases ih after.length shorter after rfl with ⟨args, wellFormed⟩ | malformed
            · exact Or.inl ⟨(v ++ vs) :: args, whole ▸ .word .nil word ends wellFormed⟩
            · obtain ⟨start, args, tail, wellFormed, opened, afterEq⟩ := malformed
              refine Or.inr ⟨(raw ++ raws) ++ start, (v ++ vs) :: args, tail, ?_, opened, ?_⟩
              · refine Arguments.word .nil word ?_ wellFormed
                rcases ends with rfl | ⟨c, more, rfl, delimiter⟩
                · exact Or.inl (List.append_eq_nil_iff.mp afterEq.symm).1
                · cases start with
                  | nil => exact Or.inl rfl
                  | cons d start =>
                      have same : c = d := (List.cons.inj afterEq).1
                      exact Or.inr ⟨d, start, rfl, same ▸ delimiter⟩
              · simp [whole, afterEq]
          · exact Or.inr ⟨raw ++ raws, [v ++ vs], after,
              by simpa using Arguments.word .nil word (Or.inl rfl) (.none .nil), opened, whole⟩
        · exact Or.inr ⟨[], [], s, .none .nil, opened, rfl⟩

end Ppcom.Split
