/-
Module: Ppcom.CustbaudBsd
Purpose: `tcsetattr_custom` of `custbaud_bsd.cpp`, which sets the rates that macOS does not take from
  `tcsetattr`: it asks for a rate that every system has and gives the wanted one to an ioctl.
Trusted boundary: a failing call changes nothing; `tcsetattr` stores what it is asked for, and the ioctl
  `IOSSIOSPEED` sets both speeds
Main exports: BsdTermios, BsdReplies, BsdM, tcsetattrCustom
-/
import Ppcom.Termios

namespace Ppcom

/-- What `struct termios` of macOS has beside the speeds. -/
structure BsdFlags where
  cIflag : UInt64
  cOflag : UInt64
  cCflag : UInt64
  cLflag : UInt64
  cCc : Vector UInt8 20
deriving DecidableEq, Repr

/-- `struct termios` of macOS, where a speed is its own code. The speeds are of the type that
`cfsetospeed_custom` takes and `cfgetospeed_custom` returns. -/
structure BsdTermios where
  flags : BsdFlags
  cIspeed : Int32
  cOspeed : Int32
deriving DecidableEq, Repr

namespace BsdTermios

/-- `cfsetspeed`, where it succeeds. -/
def withSpeed (tio : BsdTermios) (speed : Int32) : BsdTermios :=
  { tio with cIspeed := speed, cOspeed := speed }

end BsdTermios

/-- `B9600`. -/
def b9600 : Int32 := 9600

/-- Which calls succeed; those with a zero are the calls that restore the old settings. -/
structure BsdReplies where
  tcgetattr : Bool
  cfsetspeed : Bool
  tcsetattr : Bool
  iossiospeed : Bool
  cfsetspeed0 : Bool
  tcsetattr0 : Bool
  iossiospeed0 : Bool
deriving DecidableEq, Repr

/-- The settings of the device, and how the calls that restore them have gone so far. -/
structure BsdDevice where
  termios : BsdTermios
  recovery : List Bool
deriving DecidableEq, Repr

/-- A function that ends with `return -1` where it throws. -/
abbrev BsdM := EStateM Unit BsdDevice

/-- A call that replaces the settings of the device where it succeeds. -/
def setDevice (succeeds : Bool) (change : BsdTermios → BsdTermios) : BsdM Bool := do
  if succeeds then modify fun d => { d with termios := change d.termios }
  return succeeds

/-- The call was one that restores the old settings. -/
def recovering (succeeds : Bool) : BsdM Unit :=
  modify fun d => { d with recovery := d.recovery ++ [succeeds] }

section Custom

variable (plat : Platform) (replies : BsdReplies)

/-- Whether `tcsetattr_custom` goes round `tcsetattr` for a rate. -/
def needsWorkaround (fd : Int) (baudrate : Int32) : Bool :=
  decide (3 ≤ fd) && (decide (460800 < baudrate) || !termBaudStd plat baudrate.toInt)

/-- The settings to ask for, and with the workaround the old ones. -/
def prepareCustom (fd : Int) (tios : BsdTermios) : BsdM (BsdTermios × Option BsdTermios) := do
  if needsWorkaround plat fd tios.cOspeed then
    unless replies.tcgetattr do throw ()
    let tio0 := (← get).termios
    unless replies.cfsetspeed do throw ()
    return (tios.withSpeed b9600, some tio0)
  else return (tios, none)

/-- The calls after an ioctl that failed, which restore `tio0`. -/
def restoreOld (tio0 : BsdTermios) : BsdM Unit := do
  recovering replies.cfsetspeed0
  unless replies.cfsetspeed0 do throw ()
  recovering replies.tcsetattr0
  unless ← setDevice replies.tcsetattr0 fun _ => tio0.withSpeed b9600 do throw ()
  recovering replies.iossiospeed0
  discard <| setDevice replies.iossiospeed0 fun d => d.withSpeed tio0.cOspeed

/-- `tcsetattr_custom`. -/
def tcsetattrCustom (fd : Int) (tiop : BsdTermios) : BsdM Unit := do
  let (tios, workaround) ← prepareCustom plat replies fd tiop
  unless ← setDevice replies.tcsetattr fun _ => tios do throw ()
  match workaround with
  | none => return
  | some tio0 =>
      unless ← setDevice replies.iossiospeed fun d => d.withSpeed tiop.cOspeed do
        restoreOld replies tio0
        throw ()

end Custom

/-- The value that `tcsetattr_custom` returns. -/
def customRval : EStateM.Result Unit BsdDevice Unit → Int
  | .ok _ _ => 0
  | .error _ _ => -1

end Ppcom
