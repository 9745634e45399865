/-
Module: Ppcom.Spec.Completion
Purpose: What the completions of a file name should be: for a text that is a directory and the start of a
  name, the entries of the directory that begin so and can be looked at, each offered once under a path of
  its own, with a slash behind directories.
Trusted boundary: human-reviewed spec
Main exports: Typed, FileSystem.asked, Names, Completes
-/
import Mathlib.Data.List.Forall2
import Ppcom.Completion

namespace FileSystem

variable {Node : Type} (fs : FileSystem Node)

/-- Those of `names` that begin with `start` and lead to a file from `d`, as entries of `d`. -/
def askedOf (d : Node) (start : List UInt8) (names : List (List UInt8)) : List (Node × List UInt8) :=
  (names.filter fun name => start.isPrefixOf name && (fs.lookup d name).isSome).map fun name => (d, name)

/-- The entries of a directory that begin with `start` and lead to a file. -/
def asked (dir : Option Node) (start : List UInt8) : List (Node × List UInt8) :=
  match dir with
  | none => []
  | some d => fs.askedOf d start ((fs.entries d).getD [])

end FileSystem

namespace Ppcom

open Pathname

/-- A typed text: what stands before the name, and the start of the name. -/
structure Typed where
  dir : List UInt8
  start : List UInt8
  ends : EndsDirectory dir
  noSlash : slash ∉ start
  noNul : 0 ∉ dir ++ start

def Typed.text (typed : Typed) : List UInt8 := typed.dir ++ typed.start

variable {Node : Type}

/-- The completion is a path of the entry, with a slash behind it exactly if it is a directory. -/
def Names (fs : FileSystem Node) (completion : List UInt8) (entry : Node × List UInt8) : Prop :=
  ∃ path node, fs.Denotes path entry.1 entry.2 ∧ fs.lookup entry.1 entry.2 = some node ∧
    completion = if fs.isDir node then path ++ [slash] else path

/-- The completions of a typed text name the entries asked for, each once, and the paths fit their
blocks. -/
structure Completes (fs : FileSystem Node) (typed : Typed) (lc : Completions) : Prop where
  named : ∃ entries, entries.Perm (fs.asked (fs.directory typed.dir) typed.start) ∧
    List.Forall₂ (Names fs) lc.cvec entries
  fits : ∀ path ∈ lc.paths, path.Within

end Ppcom
