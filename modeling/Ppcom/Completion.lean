/-
Module: Ppcom.Completion
Purpose: `file_completion_cb` of `ppcom.cpp`, which offers the completions of a file name to the line
  editor: the directory it reads, the names it compares, and the paths it builds in memory.
Trusted boundary: the files do not change meanwhile, and memory is never short
Main exports: Libgen, Completions, buildPath, completeEntry, fileCompletionCb
-/
import Ppcom.CLib
import Ppcom.Lib.Pathname
import Ppcom.Lib.StringBlock

namespace Ppcom

open Pathname

/-- What `dirname` and `basename` do with two slashes alone, which is up to the library. -/
structure Libgen where
  dirnameKeeps : Bool
  basenameKeeps : Bool
deriving DecidableEq, Repr

/-- The completions that were offered, and the blocks in which paths were built. -/
structure Completions where
  cvec : List (List UInt8)
  paths : List StringBlock

/-- `linenoiseAddCompletion`. -/
def Completions.add (lc : Completions) (str : List UInt8) : Completions :=
  { lc with cvec := lc.cvec ++ [str] }

/-- `fullpath` for an entry, before it is looked at; `cells` is what memory holds. -/
def buildPath (cells : Nat → UInt8) (dirn name : List UInt8) : StringBlock :=
  let namelen := name.length
  let dirlen := dirn.length
  -- two extra bytes for slashes, and one for the terminator
  let fullpath := StringBlock.malloc (namelen + dirlen + 3) cells
  let fullpath := fullpath.store 0 (dirn ++ [0])
  let fullpath := if fullpath.cells (dirlen - 1) ≠ slash then fullpath.strcat [slash] else fullpath
  fullpath.strncat name namelen

variable {Node : Type}

/-- A turn of the loop in `file_completion_cb`, for the entry `name`. -/
def completeEntry (fs : FileSystem Node) (heap : Nat → Nat → UInt8) (dirn basen : List UInt8)
    (lc : Completions) (name : List UInt8) : Completions :=
  if strncmp basen name basen.length = 0 then
    let fullpath := buildPath (heap lc.paths.length) dirn name
    match fs.stat fullpath.text with
    | none => { lc with paths := lc.paths ++ [fullpath] }
    | some isDir =>
        let fullpath := if isDir then fullpath.strcat [slash] else fullpath
        { lc with paths := lc.paths ++ [fullpath] }.add fullpath.text
  else lc

/-- `file_completion_cb` for the text `buf`; `heap` is what memory holds where blocks are allocated. -/
def fileCompletionCb (libgen : Libgen) (fs : FileSystem Node) (heap : Nat → Nat → UInt8)
    (buf : List UInt8) : Completions :=
  let dirn := dirname libgen.dirnameKeeps buf
  let basen := basename libgen.basenameKeeps buf
  match fs.opendir dirn with
  | none => ⟨[], []⟩
  | some names => names.foldl (completeEntry fs heap dirn basen) ⟨[], []⟩

end Ppcom
