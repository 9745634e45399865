/-
Module: Ppcom.UucpLock
Purpose: The lock files of `uucp_lock` and `uucp_unlock` in `ppcom.cpp` (build with UUCP_LOCK_DIR), for
  processes that use the same `lockname`. A process makes one call after the other, and between two calls
  of one process the others may make theirs, and any process may die.
Trusted boundary: `read` and `write` of a lock file are each one step, and they do not fail; `kill` finds
  a process that lives. What is printed, `umask` and `sleep` are left out
Main exports: Pid, LockFile, Stage, lockText, lockPid, Locking, Locking.step, LockingRun
-/
import Ppcom.Lib.Machine
import Ppcom.LogName
import Mathlib.Data.Fintype.Basic

namespace Ppcom

/-- What `getpid` returns. -/
structure Pid where
  value : Nat
  positive : 0 < value
  fits : value < 2 ^ 31

/-- The size of `buf`. -/
def lockBufSz : Nat := 16

/-- What `snprintf` leaves in `buf`. -/
def lockText (pid : Pid) : List UInt8 := decimal 4 pid.value ++ [0x0a]

/-- The value of four bytes as an `int`. -/
def intOfBytes : List UInt8 → Int
  | [a, b, c, d] => toInt (a.toNat + 256 * (b.toNat + 256 * (c.toNat + 256 * d.toNat)))
  | _ => 0

/-- The number `pid` that `uucp_lock` takes from what it has read; `stack` was in `buf` before. -/
def lockPid (got stack : List UInt8) : Int :=
  if got.length = 4 then intOfBytes got
  else toInt (strtolDecimal (got ++ stack.drop got.length))

variable {n : Nat}

/-- The lock files that `lockname` can name: the one that is there at first, and those of the
processes. -/
inductive LockFile (n : Nat) where
  | former
  | made (p : Fin n)
deriving DecidableEq, Repr

/-- The next call of a process. -/
inductive Stage (n : Nat) where
  /-- There is no such process yet. -/
  | unborn
  | opening
  | reading (file : LockFile n)
  /-- `kill`: of the file it has read `got`, and in it `pid`. -/
  | asking (file : LockFile n) (got : List UInt8) (pid : Int)
  /-- `unlink`, after a second: the file is stale. -/
  | removing (file : LockFile n) (got : List UInt8)
  | creating
  | writing
  /-- `uucp_lock` has returned 0. -/
  | holding
  /-- `uucp_lock` has returned -1, and `lockname` is empty. -/
  | refused
  | released
  | dead
deriving DecidableEq, Repr

/-- The processes, the file that `lockname` names, and what is in the files. -/
structure Locking (n : Nat) where
  stage : Fin n → Stage n
  entry : Option (LockFile n)
  text : LockFile n → List UInt8

namespace Locking

variable (s : Locking n)

def Live (p : Fin n) : Prop := s.stage p ≠ .unborn ∧ s.stage p ≠ .dead

instance (p : Fin n) : Decidable (s.Live p) := inferInstanceAs (Decidable (_ ∧ _))

/-- The process is a live one to which `uucp_lock` has returned 0, and it has not released the lock. -/
def Holds (p : Fin n) : Prop := s.stage p = .holding

/-- The process goes on to another call. -/
def move (p : Fin n) (stage : Stage n) : Locking n :=
  { s with stage := Function.update s.stage p stage }

/-- Where `lockname` is created, removed, and written to. -/
def withEntry (entry : Option (LockFile n)) : Locking n := { s with entry := entry }

def withText (file : LockFile n) (text : List UInt8) : Locking n :=
  { s with text := Function.update s.text file text }

end Locking

/-- A call of a process. -/
inductive LockCall where
  | starts
  /-- `open` of the lock file. -/
  | opens
  /-- `read`, with what was in `buf` before. -/
  | reads (stack : List UInt8)
  /-- `kill` with signal 0, and whether it fails with ESRCH. -/
  | asks (esrch : Bool)
  /-- `unlink` of the stale lock. -/
  | unlinks
  /-- `open` with O_CREAT and O_EXCL. -/
  | creates
  | writes
  /-- `uucp_unlock`. -/
  | releases
  | dies
deriving DecidableEq, Repr

/-- What a call of a process does, and the file that it unlinks. -/
def Locking.step (pid : Fin n → Pid) (s : Locking n) :
    Fin n × LockCall → Option (Locking n × Option (LockFile n))
  | (p, call) =>
      match call, s.stage p with
      | .starts, .unborn => some (s.move p .opening, none)
      | .opens, .opening =>
          match s.entry with
          | none => some (s.move p .creating, none)
          | some file => some (s.move p (.reading file), none)
      | .reads stack, .reading file =>
          let got := (s.text file).take lockBufSz
          let k := lockPid got stack
          some (s.move p (if 0 < k then .asking file got k else .refused), none)
      | .asks esrch, .asking file got k =>
          if esrch then
            if ∀ q, s.Live q → ((pid q).value : Int) ≠ k then
              some (s.move p (.removing file got), none)
            else none
          else some (s.move p .refused, none)
      | .unlinks, .removing _ _ => some ((s.withEntry none).move p .creating, s.entry)
      | .creates, .creating =>
          match s.entry with
          | none => some ((s.withEntry (some (.made p))).move p .writing, none)
          | some _ => some (s.move p .refused, none)
      | .writes, .writing =>
          some ((s.withText (.made p) (lockText (pid p))).move p .holding, none)
      | .releases, .holding => some ((s.withEntry none).move p .released, s.entry)
      | .dies, _ => if s.Live p then some (s.move p .dead, none) else none
      | _, _ => none

/-- Before the processes: there is no lock file, or one with the text `former`. -/
def Locking.begun (n : Nat) (former : Option (List UInt8)) : Locking n where
  stage _ := .unborn
  entry := former.map fun _ => .former
  text file := if file = .former then former.getD [] else []

/-- A call of a process, with the file that it unlinks. -/
abbrev LockingStep (n : Nat) :=
  Machine.Step (Locking n) (Fin n × LockCall) (Option (LockFile n))

/-- The runs of the processes, in any order of their calls. -/
abbrev LockingRun (pid : Fin n → Pid) (former : Option (List UInt8)) :
    List (LockingStep n) → Locking n → Prop :=
  Machine.Run (Locking.step pid) (.begun n former)

end Ppcom
