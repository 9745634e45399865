/-
Module: Ppcom.Lib.Pathname
Purpose: Pathnames of POSIX: `dirname` and `basename`, and the files that pathnames lead to. For a text
  that is a directory and a name, the two functions give the name and another pathname of the directory.
Trusted boundary: human-reviewed spec; a pathname may be as long as it likes, and two slashes at its start
  lead where one does
Main exports: Pathname.dirname, Pathname.basename, Pathname.dirname_append, FileSystem,
  FileSystem.resolve, FileSystem.Denotes, FileSystem.resolve_directoryOf, FileSystem.resolve_entry
-/
import Mathlib.Data.List.DropRight

namespace Pathname

def slash : UInt8 := 0x2f

def dot : List UInt8 := [0x2e]

/-- What may be the name of an entry of a directory. -/
structure IsName (name : List UInt8) : Prop where
  nonempty : name ≠ []
  noSlash : slash ∉ name
  noNul : 0 ∉ name

instance (name : List UInt8) : Decidable (IsName name) :=
  decidable_of_iff (name ≠ [] ∧ slash ∉ name ∧ 0 ∉ name)
    ⟨fun ⟨nonempty, noSlash, noNul⟩ => ⟨nonempty, noSlash, noNul⟩,
      fun isName => ⟨isName.nonempty, isName.noSlash, isName.noNul⟩⟩

/-- The pathname with a slash at its end. -/
def closed (path : List UInt8) : List UInt8 :=
  if path.getLast? = some slash then path else path ++ [slash]

/-! ### `dirname` and `basename` -/

/-- The pathname without the slashes at its end. -/
def strip (path : List UInt8) : List UInt8 := path.rdropWhile (· == slash)

/-- What slashes stand for alone. An implementation may keep two of them. -/
def root (keepTwo : Bool) (path : List UInt8) : List UInt8 :=
  if keepTwo ∧ path = [slash, slash] then [slash, slash] else [slash]

/-- The directory that `front` stands for, which is empty or ends with a slash. -/
def directoryOf (keepTwo : Bool) (front : List UInt8) : List UInt8 :=
  if front = [] then dot
  else if strip front = [] then root keepTwo front
  else strip front

/-- `dirname`. -/
def dirname (keepTwo : Bool) (path : List UInt8) : List UInt8 :=
  if path = [] then dot
  else if strip path = [] then root keepTwo path
  else directoryOf keepTwo ((strip path).rdropWhile (· != slash))

/-- `basename`. -/
def basename (keepTwo : Bool) (path : List UInt8) : List UInt8 :=
  if path = [] then dot
  else if strip path = [] then root keepTwo path
  else (strip path).rtakeWhile (· != slash)

/-- A text is empty or ends with a slash. -/
def EndsDirectory (front : List UInt8) : Prop := front = [] ∨ ∃ before, front = before ++ [slash]

variable {keepTwo : Bool} {front name path : List UInt8}

theorem closed_ends (path : List UInt8) : ∃ before, closed path = before ++ [slash] := by
  unfold closed
  split
  · next ends => exact List.getLast?_eq_some_iff.mp ends
  · exact ⟨path, rfl⟩

theorem root_nonempty (keepTwo : Bool) (path : List UInt8) : root keepTwo path ≠ [] := by
  unfold root
  split <;> simp

/-- Slashes alone stand for slashes. -/
theorem root_slashes (keepTwo : Bool) (path : List UInt8) : ∀ c ∈ root keepTwo path, c = slash := by
  unfold root
  split <;> simp

theorem strip_eq_nil_iff : strip path = [] ↔ ∀ c ∈ path, c = slash := by
  simp [strip]

/-- Only slashes are stripped. -/
theorem strip_append (path : List UInt8) : ∃ slashes, path = strip path ++ slashes ∧
    ∀ c ∈ slashes, c = slash := by
  refine ⟨path.rtakeWhile (· == slash), ?_, fun c inside => ?_⟩
  · exact List.rdropWhile_append_rtakeWhile.symm
  · have taken := List.mem_rtakeWhile_imp (p := (· == slash)) inside
    exact beq_iff_eq.mp taken

/-- What is stripped does not end with a slash. -/
theorem strip_last (path : List UInt8) : (strip path).getLast? ≠ some slash := by
  intro last
  by_cases nonempty : strip path = []
  · rw [nonempty] at last
    cases last
  · rw [List.getLast?_eq_some_getLast nonempty] at last
    have live := List.rdropWhile_last_not (· == slash) path nonempty
    exact live (beq_iff_eq.mpr (Option.some.inj last))

theorem basename_nonempty (keepTwo : Bool) (path : List UInt8) : basename keepTwo path ≠ [] := by
  unfold basename
  by_cases empty : path = []
  · rw [if_pos empty]
    exact List.cons_ne_nil _ _
  by_cases slashes : strip path = []
  · rw [if_neg empty, if_pos slashes]
    exact root_nonempty keepTwo path
  · rw [if_neg empty, if_neg slashes]
    intro none
    have last := List.rtakeWhile_eq_nil_iff.mp none slashes
    have live := List.rdropWhile_last_not (· == slash) path slashes
    exact last (bne_iff_ne.mpr fun same => live (beq_iff_eq.mpr same))

/-- What `dirname` and `basename` give has bytes of the pathname, slashes and dots only. -/
theorem mem_root {c : UInt8} (inside : c ∈ root keepTwo path) : c = slash :=
  root_slashes keepTwo path c inside

theorem mem_strip {c : UInt8} (inside : c ∈ strip path) : c ∈ path :=
  (List.rdropWhile_prefix _ _).subset inside

theorem mem_dirname {c : UInt8} (inside : c ∈ dirname keepTwo path) :
    c ∈ path ∨ c = slash ∨ c ∈ dot := by
  unfold dirname directoryOf at inside
  split at inside
  · exact .inr (.inr inside)
  split at inside
  · exact .inr (.inl (mem_root inside))
  split at inside
  · exact .inr (.inr inside)
  split at inside
  · exact .inr (.inl (mem_root inside))
  · exact .inl (mem_strip ((List.rdropWhile_prefix _ _).subset (mem_strip inside)))

theorem mem_basename {c : UInt8} (inside : c ∈ basename keepTwo path) :
    c ∈ path ∨ c = slash ∨ c ∈ dot := by
  unfold basename at inside
  split at inside
  · exact .inr (.inr inside)
  split at inside
  · exact .inr (.inl (mem_root inside))
  · exact .inl (mem_strip ((List.rtakeWhile_suffix _ _).subset inside))

theorem dirname_nonempty (keepTwo : Bool) (path : List UInt8) : dirname keepTwo path ≠ [] := by
  unfold dirname directoryOf
  split
  · exact List.cons_ne_nil _ _
  split
  · exact root_nonempty keepTwo path
  split
  · exact List.cons_ne_nil _ _
  split
  · exact root_nonempty keepTwo _
  · assumption

/-! ### A directory and a name -/

/-- The name is what is behind the last slash. -/
theorem rtakeWhile_name (ends : EndsDirectory front) (noSlash : slash ∉ name) :
    (front ++ name).rtakeWhile (· != slash) = name := by
  have plain : ∀ c ∈ name.reverse, (c != slash) = true := by
    intro c inside
    rw [List.mem_reverse] at inside
    exact bne_iff_ne.mpr fun same => noSlash (same ▸ inside)
  have stops : front.reverse.takeWhile (· != slash) = [] := by
    rcases ends with rfl | ⟨before, rfl⟩
    · rfl
    · simp
  unfold List.rtakeWhile
  rw [List.reverse_append, List.takeWhile_append_of_pos plain, stops, List.append_nil,
    List.reverse_reverse]

theorem rdropWhile_name (ends : EndsDirectory front) (noSlash : slash ∉ name) :
    (front ++ name).rdropWhile (· != slash) = front := by
  have whole := List.rdropWhile_append_rtakeWhile (p := (· != slash)) (l := front ++ name)
  rw [rtakeWhile_name ends noSlash] at whole
  exact List.append_cancel_right whole

/-- Behind a name there is nothing to strip. -/
theorem strip_name (front : List UInt8) (nonempty : name ≠ []) (noSlash : slash ∉ name) :
    strip (front ++ name) = front ++ name := by
  unfold strip
  rw [List.rdropWhile_eq_self_iff]
  intro _ last
  rw [List.getLast_append_of_ne_nil _ nonempty] at last
  exact noSlash (beq_iff_eq.mp last ▸ List.getLast_mem nonempty)

theorem dirname_append (ends : EndsDirectory front) (nonempty : name ≠ []) (noSlash : slash ∉ name) :
    dirname keepTwo (front ++ name) = directoryOf keepTwo front := by
  have whole : front ++ name ≠ [] := List.append_ne_nil_of_right_ne_nil _ nonempty
  unfold dirname
  rw [strip_name front nonempty noSlash, if_neg whole, if_neg whole, rdropWhile_name ends noSlash]

theorem basename_append (ends : EndsDirectory front) (nonempty : name ≠ [])
    (noSlash : slash ∉ name) : basename keepTwo (front ++ name) = name := by
  have whole : front ++ name ≠ [] := List.append_ne_nil_of_right_ne_nil _ nonempty
  unfold basename
  rw [strip_name front nonempty noSlash, if_neg whole, if_neg whole, rtakeWhile_name ends noSlash]

/-! ### Components -/

/-- The names in a pathname. -/
def components (path : List UInt8) : List (List UInt8) := (path.splitOn slash).filter (· ≠ [])

theorem components_append_slash (path more : List UInt8) :
    components (path ++ slash :: more) = components path ++ components more := by
  unfold components
  rw [List.splitOn_append_cons_self, List.filter_append]

theorem components_name (nonempty : name ≠ []) (noSlash : slash ∉ name) :
    components name = [name] := by
  unfold components
  rw [List.splitOn_eq_singleton noSlash, List.filter_singleton]
  simp [nonempty]

theorem components_concat_slash (path : List UInt8) :
    components (path ++ [slash]) = components path := by
  rw [components_append_slash]
  exact List.append_nil _

/-- Slashes at the end make no names. -/
theorem components_append_slashes (path : List UInt8) {slashes : List UInt8}
    (alone : ∀ c ∈ slashes, c = slash) : components (path ++ slashes) = components path := by
  induction slashes generalizing path with
  | nil => rw [List.append_nil]
  | cons c rest ih =>
      obtain rfl := alone c (List.mem_cons_self ..)
      have behind := ih (path ++ [slash]) fun c inside => alone c (List.mem_cons_of_mem _ inside)
      rw [List.append_assoc, components_concat_slash] at behind
      exact behind

theorem components_strip (path : List UInt8) : components (strip path) = components path := by
  obtain ⟨slashes, whole, alone⟩ := strip_append path
  conv_rhs => rw [whole]
  exact (components_append_slashes _ alone).symm

end Pathname

open Pathname

/-! ### Files -/

/-- The files as a process finds them: for a directory and a name, the file that the entry leads to
behind all symbolic links, where there is one and the directory may be searched; and the names of the
entries, where the directory may be read. -/
structure FileSystem (Node : Type) where
  root : Node
  cwd : Node
  lookup : Node → List UInt8 → Option Node
  entries : Node → Option (List (List UInt8))
  isDir : Node → Bool
  lookup_dot : ∀ d, lookup d dot = some d ∨ ∀ name, lookup d name = none
  isDir_of_entries : ∀ d names, entries d = some names → isDir d
  isName : ∀ d names, entries d = some names → ∀ name ∈ names, IsName name
  nodup : ∀ d names, entries d = some names → names.Nodup

namespace FileSystem

variable {Node : Type} (fs : FileSystem Node)

/-- Where a pathname starts. -/
def start (path : List UInt8) : Node := if path.head? = some slash then fs.root else fs.cwd

/-- The file that a pathname leads to. With a slash at its end it leads to directories only. -/
def resolve (path : List UInt8) : Option Node :=
  if path = [] then none
  else ((components path).foldlM fs.lookup (fs.start path)).filter fun node =>
    path.getLast? ≠ some slash || fs.isDir node

/-- `opendir`, and the names that `readdir` gives. -/
def opendir (path : List UInt8) : Option (List (List UInt8)) := (fs.resolve path).bind fs.entries

/-- `stat`: whether the file is a directory. -/
def stat (path : List UInt8) : Option Bool := (fs.resolve path).map fs.isDir

/-- The pathname names an entry of the directory `d`, or of the current directory where it is a name
only. -/
def Denotes (path : List UInt8) (d : Node) (name : List UInt8) : Prop :=
  IsName name ∧
    (path = name ∧ d = fs.cwd ∨
      ∃ front, path = front ++ slash :: name ∧ fs.resolve (front ++ [slash]) = some d)

/-- The directory that a text stands for before the name in it: the current one if there is nothing. -/
def directory (front : List UInt8) : Option Node :=
  if front = [] then some fs.cwd else fs.resolve front

section Resolve

variable {fs} {path front name : List UInt8} {d : Node}

theorem start_append (nonempty : path ≠ []) (more : List UInt8) :
    fs.start (path ++ more) = fs.start path := by
  unfold start
  rw [List.head?_append_of_ne_nil path nonempty]

/-- A slash at the end asks for a directory. -/
theorem resolve_concat_slash (nonempty : path ≠ []) :
    fs.resolve (path ++ [slash]) = (fs.resolve path).filter fs.isDir := by
  have whole : path ++ [slash] ≠ [] := List.append_ne_nil_of_left_ne_nil nonempty _
  unfold resolve
  rw [if_neg whole, if_neg nonempty, components_concat_slash, start_append nonempty,
    Option.filter_filter]
  congr 1
  funext node
  cases fs.isDir node <;> simp

/-- So does one that is there. -/
theorem resolve_of_slash (ends : path.getLast? = some slash) :
    (fs.resolve path).filter fs.isDir = fs.resolve path := by
  unfold resolve
  split
  · rfl
  · rw [Option.filter_filter]
    congr 1
    funext node
    simp [ends]

/-- Slashes alone lead to the root. -/
theorem resolve_slashes (nonempty : path ≠ []) (alone : ∀ c ∈ path, c = slash) :
    fs.resolve path = (some fs.root).filter fs.isDir := by
  obtain ⟨c, rest, rfl⟩ := List.exists_cons_of_ne_nil nonempty
  obtain rfl := alone c (List.mem_cons_self ..)
  have last : (slash :: rest).getLast? = some slash := by
    rw [List.getLast?_eq_some_getLast nonempty]
    exact congrArg some (alone _ (List.getLast_mem nonempty))
  have names : components (slash :: rest) = [] := components_append_slashes [] alone
  unfold resolve
  rw [if_neg nonempty, names, last]
  rfl

theorem resolve_dot : fs.resolve dot = fs.lookup fs.cwd dot := by
  show ((fs.lookup fs.cwd dot).bind some).filter _ = _
  rw [Option.bind_fun_some]
  cases fs.lookup fs.cwd dot with
  | none => rfl
  | some node => exact Option.filter_some_pos rfl

/-- Without the slashes at its end a pathname leads to the same file, whether a directory or not. -/
theorem resolve_strip (ends : path.getLast? = some slash) (names : strip path ≠ []) :
    fs.resolve path = (fs.resolve (strip path)).filter fs.isDir := by
  obtain ⟨slashes, whole, alone⟩ := strip_append path
  have nonempty : path ≠ [] := by
    rintro rfl
    cases ends
  have began : fs.start path = fs.start (strip path) := by
    conv_lhs => rw [whole]
    exact start_append names slashes
  unfold resolve
  rw [if_neg nonempty, if_neg names, components_strip, began, Option.filter_filter]
  congr 1
  funext node
  simp [ends, strip_last path]

/-- The directory that `dirname` gives for a text before a name is the one that the text stands for. -/
theorem resolve_directoryOf (keepTwo : Bool) (ends : EndsDirectory front) (nonempty : front ≠ []) :
    fs.resolve front = (fs.resolve (directoryOf keepTwo front)).filter fs.isDir := by
  have last : front.getLast? = some slash := by
    rcases ends with rfl | ⟨before, rfl⟩
    · exact absurd rfl nonempty
    · exact List.getLast?_concat ..
  unfold directoryOf
  rw [if_neg nonempty]
  split
  · next slashes =>
      have alone := root_slashes keepTwo front
      rw [resolve_slashes (root_nonempty keepTwo front) alone,
        resolve_slashes nonempty (strip_eq_nil_iff.mp slashes), Option.filter_filter]
      simp
  · next names => exact resolve_strip last names

/-- An entry of a directory is found under the pathname of the directory and its name. -/
theorem resolve_entry (directory : fs.resolve (front ++ [slash]) = some d) (isName : IsName name) :
    fs.resolve (front ++ slash :: name) = fs.lookup d name := by
  have whole : front ++ [slash] ≠ [] := List.append_ne_nil_of_right_ne_nil _ (List.cons_ne_nil _ _)
  have entry : front ++ slash :: name ≠ [] :=
    List.append_ne_nil_of_right_ne_nil _ (List.cons_ne_nil _ _)
  have shape : front ++ slash :: name = front ++ [slash] ++ name := List.append_cons ..
  have began : fs.start (front ++ slash :: name) = fs.start (front ++ [slash]) := by
    rw [shape]
    exact start_append whole name
  have live : (front ++ slash :: name).getLast? ≠ some slash := by
    rw [shape, List.getLast?_append_of_ne_nil _ isName.nonempty]
    intro last
    exact isName.noSlash (List.mem_of_getLast? last)
  unfold resolve at directory ⊢
  rw [if_neg whole, components_concat_slash, Option.filter_eq_some_iff] at directory
  rw [if_neg entry, components_append_slash, components_name isName.nonempty isName.noSlash, began,
    List.foldlM_append, directory.1]
  show ((fs.lookup d name).bind some).filter _ = _
  rw [Option.bind_fun_some]
  cases fs.lookup d name with
  | none => rfl
  | some node => exact Option.filter_some_pos (by rw [decide_eq_true live, Bool.true_or])

/-- A pathname leads to the same directory with a slash at its end. -/
theorem resolve_closed (nonempty : path ≠ []) :
    fs.resolve (closed path) = (fs.resolve path).filter fs.isDir := by
  unfold closed
  split
  · next ends => exact (resolve_of_slash ends).symm
  · exact resolve_concat_slash nonempty

/-- An entry has a pathname that begins with any pathname of its directory. -/
theorem denotes_closed (directory : fs.resolve (closed front) = some d) (isName : IsName name) :
    fs.Denotes (closed front ++ name) d name := by
  obtain ⟨before, shape⟩ := closed_ends front
  rw [shape] at directory ⊢
  exact ⟨isName, .inr ⟨before, (List.append_cons ..).symm, directory⟩⟩

theorem resolve_closed_entry (directory : fs.resolve (closed front) = some d)
    (isName : IsName name) : fs.resolve (closed front ++ name) = fs.lookup d name := by
  obtain ⟨before, shape⟩ := closed_ends front
  rw [shape] at directory ⊢
  rw [← resolve_entry directory isName]
  exact congrArg fs.resolve (List.append_cons ..).symm

end Resolve

section Denotes

variable {fs} {path name name' : List UInt8} {d d' : Node}

/-- A pathname of an entry is the name of the entry behind a directory. -/
theorem Denotes.split (denotes : fs.Denotes path d name) :
    ∃ front, path = front ++ name ∧ EndsDirectory front := by
  obtain ⟨isName, ⟨rfl, _⟩ | ⟨front, rfl, _⟩⟩ := denotes
  · exact ⟨[], rfl, .inl rfl⟩
  · exact ⟨front ++ [slash], List.append_cons .., .inr ⟨front, rfl⟩⟩

/-- It does not end with a slash. -/
theorem Denotes.last (denotes : fs.Denotes path d name) : path.getLast? ≠ some slash := by
  obtain ⟨front, rfl, _⟩ := denotes.split
  rw [List.getLast?_append_of_ne_nil _ denotes.1.nonempty]
  exact fun last => denotes.1.noSlash (List.mem_of_getLast? last)

/-- It is the pathname of one entry. -/
theorem Denotes.unique (denotes : fs.Denotes path d name) (other : fs.Denotes path d' name') :
    d = d' ∧ name = name' := by
  have same : name = name' := by
    obtain ⟨front, rfl, ends⟩ := denotes.split
    obtain ⟨front', shape, ends'⟩ := other.split
    have mine := rtakeWhile_name ends denotes.1.noSlash
    rwa [shape, rtakeWhile_name ends' other.1.noSlash, eq_comm] at mine
  subst same
  refine ⟨?_, rfl⟩
  obtain ⟨isName, ⟨rfl, rfl⟩ | ⟨front, rfl, resolved⟩⟩ := denotes
  · obtain ⟨_, ⟨_, rfl⟩ | ⟨front, shape, _⟩⟩ := other
    · rfl
    · exact absurd (shape ▸ List.mem_append_right front (List.mem_cons_self ..)) isName.noSlash
  · obtain ⟨_, ⟨shape, _⟩ | ⟨front', shape, resolved'⟩⟩ := other
    · exact absurd (shape ▸ List.mem_append_right front (List.mem_cons_self ..)) isName.noSlash
    · rw [List.append_cancel_right shape, resolved'] at resolved
      exact (Option.some.inj resolved).symm

end Denotes

end FileSystem
