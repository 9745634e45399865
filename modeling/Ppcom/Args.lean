/-
Module: Ppcom.Args
Purpose: `parse_args` of `ppcom.cpp`: the loop over the options that `getopt_long` returns, and the
  checks behind it.
Trusted boundary: `getopt_long` itself; the messages, the usage and the summary of the options are
  left out, and so is the lock that `-l` is about
Main exports: Given, baudArg, exitAfterArg, parseOption, parseOptions, parseArgs
-/
import Ppcom.LogName

namespace Ppcom

/-- What `getopt_long` returns: an option of `longOptions`, with `optarg` where it requires one, and
with the local time at which `-g` is found. `unrecognized` is `?`. -/
inductive Given where
  | receiveCmd (optarg : List UInt8)
  | sendCmd (optarg : List UInt8)
  | imap (optarg : List UInt8)
  | omap (optarg : List UInt8)
  | emap (optarg : List UInt8)
  | escape (optarg : List UInt8)
  | noEscape
  | echo
  | noinit
  | noreset
  | hangup
  | nolock
  | flow (optarg : List UInt8)
  | baud (optarg : List UInt8)
  | parity (optarg : List UInt8)
  | databits (optarg : List UInt8)
  | stopbits (optarg : List UInt8)
  | logfile (optarg : List UInt8) (logStTm : Tm)
  | initstring (optarg : List UInt8)
  | exitAfter (optarg : List UInt8)
  | exit
  | lowerRts
  | lowerDtr
  | raiseRts
  | raiseDtr
  | quiet
  | help
  | unrecognized

/-- The statuses of `exit`. -/
def exitSuccess : Int := 0

def exitFailure : Int := 1

/-- The size of `send_cmd` and of `receive_cmd`. -/
def cmdSz : Nat := 128

/-- `optarg[0]`. -/
def firstChar (optarg : List UInt8) : UInt8 := optarg.headD 0

/-! ### Arguments -/

/-- The argument of `-f`. -/
def flowArg (optarg : List UInt8) : Option Flowcntrl :=
  match firstChar optarg with
  | 0x58 | 0x78 | 0x53 | 0x73 => some .xonxoff
  | 0x48 | 0x68 => some .rtscts
  | 0x4e | 0x6e => some .none
  | _ => none

/-- The argument of `-y`. -/
def parityArg (optarg : List UInt8) : Option Parity :=
  match firstChar optarg with
  | 0x65 => some .even
  | 0x6f => some .odd
  | 0x6e => some .none
  | _ => none

/-- The argument of `-d`. -/
def databitsArg (optarg : List UInt8) : Option Int :=
  match firstChar optarg with
  | 0x35 => some 5
  | 0x36 => some 6
  | 0x37 => some 7
  | 0x38 => some 8
  | _ => none

/-- The argument of `-p`, which can set the parity as well. -/
def stopbitsArg (opts : Opts) (optarg : List UInt8) : Option Opts :=
  let opts := { opts with stopbits := 1 }
  match firstChar optarg with
  | 0x31 => some opts
  | 0x32 => some { opts with stopbits := 2 }
  | 0x65 => some { opts with parity := .even }
  | 0x6f => some { opts with parity := .odd }
  | 0x6e => some { opts with parity := .none }
  | _ => none

/-- The argument of `-b`. -/
def baudArg (plat : Platform) (optarg : List UInt8) : Option Int :=
  let baud := atoi optarg
  if baud = 0 ∨ ¬ termBaudOk plat baud then none else some baud

/-- The argument of `-x`. -/
def exitAfterArg (optarg : List UInt8) : Option Int :=
  let exitAfter := toInt (strtolDecimal optarg)
  if strtolDecimalEnd optarg ≠ [] ∨ exitAfter < 0 then none else some exitAfter

/-! ### The loop -/

/-- What is stored of an argument, unless it is refused: then the program exits. -/
def accept {α : Type} (value : Option α) (store : α → Opts) : Except Int Opts :=
  match value with
  | some v => .ok (store v)
  | none => .error exitFailure

section Parse

variable (plat : Platform) (strdup : List UInt8 → Option (List UInt8))

/-- A turn of the loop. The loop of `-g` has no more turns than `optarg` has bytes. -/
def parseOption (opts : Opts) : Given → Except Int Opts
  | .sendCmd optarg => .ok { opts with sendCmd := optarg.take (cmdSz - 1) }
  | .receiveCmd optarg => .ok { opts with receiveCmd := optarg.take (cmdSz - 1) }
  | .imap optarg => accept (parseMap optarg) fun map => { opts with imap := map }
  | .omap optarg => accept (parseMap optarg) fun map => { opts with omap := map }
  | .emap optarg => accept (parseMap optarg) fun map => { opts with emap := map }
  | .echo => .ok { opts with lecho := true }
  | .noinit => .ok { opts with noinit := true }
  | .noreset => .ok { opts with noreset := true }
  | .hangup => .ok { opts with hangup := true }
  | .nolock => .ok opts
  | .escape optarg => .ok { opts with escape := firstChar optarg &&& 0x1f }
  | .noEscape => .ok { opts with noescape := true }
  | .flow optarg => accept (flowArg optarg) fun flow => { opts with flow := flow }
  | .baud optarg => accept (baudArg plat optarg) fun baud => { opts with baud := baud }
  | .parity optarg => accept (parityArg optarg) fun parity => { opts with parity := parity }
  | .databits optarg => accept (databitsArg optarg) fun databits => { opts with databits := databits }
  | .stopbits optarg => accept (stopbitsArg opts optarg) id
  | .logfile optarg logStTm =>
      accept (optionG logStTm.buf (optarg.length + 1) opts optarg) id
  | .initstring optarg => .ok { opts with initstring := strdup optarg }
  | .lowerRts => .ok { opts with lowerRts := true }
  | .lowerDtr => .ok { opts with lowerDtr := true }
  | .raiseRts => .ok { opts with raiseRts := true }
  | .raiseDtr => .ok { opts with raiseDtr := true }
  | .exitAfter optarg =>
      accept (exitAfterArg optarg) fun exitAfter => { opts with exitAfter := exitAfter }
  | .exit => .ok { opts with exit := true }
  | .quiet => .ok { opts with quiet := true }
  | .help => .error exitSuccess
  | .unrecognized => .error exitFailure

/-- The loop. -/
def parseOptions (opts : Opts) : List Given → Except Int Opts
  | [] => .ok opts
  | given :: more =>
      match parseOption plat strdup opts given with
      | .ok opts => parseOptions opts more
      | .error status => .error status

/-- `parse_args` of the options and the other arguments, of which the last is the port: what is in
`opts` when it returns, or the status that the program exits with. -/
def parseArgs (opts : Opts) (options : List Given) (operands : List (List UInt8)) :
    Except Int Opts :=
  match parseOptions plat strdup opts options with
  | .error status => .error status
  | .ok opts =>
      if opts.raiseRts ∧ opts.lowerRts then .error exitFailure
      else if opts.raiseDtr ∧ opts.lowerDtr then .error exitFailure
      else
        let opts := if opts.exit then { opts with exitAfter := -1 } else opts
        match operands.getLast?.bind strdup with
        | none => .error exitFailure
        | some _ => .ok opts

end Parse

end Ppcom
