/-
Module: Ppcom.LogName
Purpose: The option `-g` of `parse_args` in `ppcom.cpp`, which makes the name of the log: the time stamp,
  and the loop that searches `optarg` and rewrites it. With the name goes what was stored on the way, in
  `opts.log_filename` and back in `optarg`.
Trusted boundary: a store beyond the end of a block is recorded, and has no other effect
Main exports: Tm, Stamp, LogName, rewriteDate, rewriteDates, optionG
-/
import Ppcom.Lib.Substitution
import Ppcom.Session

namespace Ppcom

/-! ### The time stamp -/

/-- A number as `%0wd` prints it, for width `w`. -/
def decimal (width n : Nat) : List UInt8 :=
  let digits := (Nat.toDigits 10 n).map fun c => c.toNat.toUInt8
  List.replicate (width - digits.length) 0x30 ++ digits

/-- What is used of a `struct tm`, as `localtime` fills it for a year of four digits. -/
structure Tm where
  tmYear : Nat
  tmMon : Nat
  tmMday : Nat
  tmHour : Nat
  tmMin : Nat
  tmSec : Nat
  year : tmYear + 1900 ≤ 9999
  month : tmMon ≤ 11
  day : tmMday ≤ 31
  hour : tmHour ≤ 23
  minute : tmMin ≤ 59
  second : tmSec ≤ 60

/-- `tm_buf`. -/
def Tm.buf (tm : Tm) : List UInt8 :=
  ascii "_" ++ decimal 1 (tm.tmYear + 1900) ++ decimal 2 (tm.tmMon + 1) ++ decimal 2 tm.tmMday ++
    ascii "_" ++ decimal 2 tm.tmHour ++ decimal 2 tm.tmMin ++ decimal 2 tm.tmSec

/-- A time stamp: eight digits and six digits, with an underscore before each. -/
structure Stamp where
  date : List UInt8
  time : List UInt8
  dateLength : date.length = 8
  timeLength : time.length = 6
  digits : ∀ c ∈ date ++ time, 0x30 ≤ c ∧ c ≤ 0x39

def Stamp.text (stamp : Stamp) : List UInt8 :=
  ascii "_" ++ stamp.date ++ ascii "_" ++ stamp.time

/-! ### The name of the log -/

/-- What the names have in them where the time stamp is to be. -/
def dateMark : List UInt8 := ascii "_date"

/-- `strstr`: where `needle` starts in `haystack`. -/
def strstr (haystack needle : List UInt8) : Option Nat := Substitution.find needle haystack

/-- The strings in `optarg` and in `opts.log_filename`, those that were made in `opts.log_filename`, and
those that were copied to `optarg`. -/
structure LogName where
  optarg : List UInt8
  logFilename : List UInt8
  built : List (List UInt8)
  copied : List (List UInt8)
deriving DecidableEq, Repr

/-- The block of `opts.log_filename` is cleared. -/
def LogName.start (optarg : List UInt8) : LogName := ⟨optarg, [], [[]], []⟩

/-- A turn of the loop, or none where the condition of the loop fails. -/
def rewriteDate (tmBuf : List UInt8) (name : LogName) : Option LogName :=
  (strstr name.optarg dateMark).map fun logChStr =>
    let start := name.optarg.take logChStr
    let stamped := start ++ tmBuf
    let whole := stamped ++ name.optarg.drop (logChStr + dateMark.length)
    { optarg := whole
      logFilename := whole
      built := name.built ++ [start, stamped, whole]
      copied := name.copied ++ [whole] }

/-- The loop, unless it takes more than `turns` turns. -/
def rewriteDates (tmBuf : List UInt8) : Nat → LogName → Option LogName
  | 0, _ => none
  | turns + 1, name =>
      match rewriteDate tmBuf name with
      | none => some name
      | some next => rewriteDates tmBuf turns next

/-- The size of the block of `opts.log_filename`, and of the one that `optarg` has in `argv`. -/
def logFilenameSz (optarg : List UInt8) : Nat := optarg.length + 64

def optargSz (optarg : List UInt8) : Nat := optarg.length + 1

/-- The option `-g`, unless its loop takes more than `turns` turns. -/
def optionG (tmBuf : List UInt8) (turns : Nat) (opts : Opts) (optarg : List UInt8) : Option Opts :=
  (rewriteDates tmBuf turns (.start optarg)).map fun name =>
    { opts with logFilename := some name.logFilename }

end Ppcom
