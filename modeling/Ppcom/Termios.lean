/-
Module: Ppcom.Termios
Purpose: `struct termios` with the constants and the C library calls on it that `term.cpp` and
  `termios2.cpp` use, as they are on Linux, and the baud rate table.
Trusted boundary: the numeric values are those of the Linux headers
Main exports: Termios, Platform, bcode, bspeed, termBaudOk, termBaudStd, cfsetospeed, cfsetispeedB0,
  cfsetospeedCustom, cfmakeraw
-/
import Mathlib.Data.BitVec

namespace Ppcom

/-- `tcflag_t` and `speed_t`. -/
abbrev Word := BitVec 32

/-- `struct termios`. -/
structure Termios where
  cIflag : Word
  cOflag : Word
  cCflag : Word
  cLflag : Word
  cLine : UInt8
  cCc : Vector UInt8 32
  cIspeed : Word
  cOspeed : Word
deriving DecidableEq, Repr

namespace Termios

/-- What a static `struct termios` holds before anything is stored in it. -/
def zero : Termios where
  cIflag := 0
  cOflag := 0
  cCflag := 0
  cLflag := 0
  cLine := 0
  cCc := Vector.replicate 32 0
  cIspeed := 0
  cOspeed := 0

end Termios

/-! ### Flag words -/

def ignbrk : Word := 0x1
def brkint : Word := 0x2
def parmrk : Word := 0x8
def istrip : Word := 0x20
def inlcr : Word := 0x40
def igncr : Word := 0x80
def icrnl : Word := 0x100
def ixon : Word := 0x400
def ixany : Word := 0x800
def ixoff : Word := 0x1000

/-- The bit of `c_iflag` in which the C library notes that the input speed was set to zero. -/
def ibaud0 : Word := 0x80000000

def opost : Word := 0x1

def cbaud : Word := 0x100f
def cbaudex : Word := 0x1000
def csize : Word := 0x30
def cs5 : Word := 0x00
def cs6 : Word := 0x10
def cs7 : Word := 0x20
def cs8 : Word := 0x30
def cstopb : Word := 0x40
def parenb : Word := 0x100
def parodd : Word := 0x200
def hupcl : Word := 0x400
def clocal : Word := 0x800
def cmspar : Word := 0x40000000
def crtscts : Word := 0x80000000

/-- The distance from the output speed field of `c_cflag` to its input speed field. -/
def ibshift : Nat := 16

def isig : Word := 0x1
def icanon : Word := 0x2
def echo : Word := 0x8
def echonl : Word := 0x40
def iexten : Word := 0x8000

def vtime : Fin 32 := 5
def vmin : Fin 32 := 6

theorem vtime_lt : vtime.val < 32 := vtime.isLt

theorem vmin_lt : vmin.val < 32 := vmin.isLt

/-! ### Baud rates -/

/-- What differs between builds and environments: whether the table has the `HIGH_BAUD` rates, and
whether `use_custom_baud` answers yes. -/
structure Platform where
  highBaud : Bool
  useCustomBaud : Bool
deriving DecidableEq, Repr

def b0 : Word := 0
def b57600 : Word := 0x1001
def bother : Word := 0x1000
def maxBaud : Word := 0x100f

/-- The value of `Bcode` for a rate that is not in the table. -/
def bnone : Word := 0xffffffff

/-- The rates every build has, with their codes. -/
def lowBauds : List (Int × Word) :=
  [(0, 0x0), (50, 0x1), (75, 0x2), (110, 0x3), (134, 0x4), (150, 0x5), (200, 0x6), (300, 0x7),
   (600, 0x8), (1200, 0x9), (1800, 0xa), (2400, 0xb), (4800, 0xc), (9600, 0xd), (19200, 0xe),
   (38400, 0xf), (57600, 0x1001), (115200, 0x1002)]

/-- The rates that `HIGH_BAUD` adds. -/
def highBauds : List (Int × Word) :=
  [(230400, 0x1003), (460800, 0x1004), (500000, 0x1005), (576000, 0x1006), (921600, 0x1007),
   (1000000, 0x1008), (1152000, 0x1009), (1500000, 0x100a), (2000000, 0x100b), (2500000, 0x100c),
   (3000000, 0x100d), (3500000, 0x100e), (4000000, 0x100f)]

/-- `baud_table`. -/
def baudTable (plat : Platform) : List (Int × Word) :=
  if plat.highBaud then lowBauds ++ highBauds else lowBauds

/-- `Bcode`. -/
def bcode (plat : Platform) (speed : Int) : Word :=
  match (baudTable plat).find? (fun entry => entry.1 == speed) with
  | some entry => entry.2
  | none => bnone

/-- `Bspeed`. -/
def bspeed (plat : Platform) (code : Word) : Int :=
  match (baudTable plat).find? (fun entry => entry.2 == code) with
  | some entry => entry.1
  | none => -1

/-- `term_baud_ok`. -/
def termBaudOk (plat : Platform) (baud : Int) : Bool :=
  if plat.useCustomBaud then decide (0 ≤ baud) else bcode plat baud != bnone

/-- `term_baud_std`. -/
def termBaudStd (plat : Platform) (baud : Int) : Bool := bcode plat baud != bnone

/-- `term_baud_up`: the first rate of the table above `baud`. -/
def termBaudUp (plat : Platform) (baud : Int) : Int :=
  match (baudTable plat).find? (fun entry => decide (baud < entry.1)) with
  | some entry => entry.1
  | none => baud

/-- `term_baud_down`: the last rate of the table below `baud`. -/
def termBaudDown (plat : Platform) (baud : Int) : Int :=
  match (baudTable plat).reverse.find? (fun entry => decide (entry.1 < baud)) with
  | some entry => entry.1
  | none => baud

/-! ### Library calls on `struct termios` -/

/-- Whether the library takes `speed` for a standard speed code. -/
def speedCodeOk (speed : Word) : Bool :=
  speed &&& ~~~cbaud == 0 || (b57600 ≤ speed && speed ≤ maxBaud)

/-- `cfsetospeed`. -/
def cfsetospeed (tio : Termios) (speed : Word) : Option Termios :=
  if speedCodeOk speed then
    some { tio with
      cCflag := (tio.cCflag &&& ~~~(cbaud ||| cbaudex)) ||| speed
      cOspeed := speed }
  else none

/-- `cfsetispeed` of the speed `B0`, the only one `term.cpp` sets: the input speed follows the output
speed. With custom rates it is `cf2setispeed`, which has an input speed field to clear; without, the
C library only notes the request. -/
def cfsetispeedB0 (plat : Platform) (tio : Termios) : Termios :=
  if plat.useCustomBaud then
    { tio with
      cIspeed := b0
      cCflag := (tio.cCflag &&& ~~~((cbaud ||| cbaudex) <<< ibshift)) ||| (b0 <<< ibshift) }
  else
    { tio with cIspeed := b0, cIflag := tio.cIflag ||| ibaud0 }

/-- `cfsetospeed_custom`. -/
def cfsetospeedCustom (plat : Platform) (tio : Termios) (speed : Int) : Option Termios :=
  if ¬ plat.useCustomBaud then none
  else if speed ≤ 0 then none
  else
    some { tio with
      cCflag := (tio.cCflag &&& ~~~(cbaud ||| cbaudex)) ||| bother
      cOspeed := BitVec.ofInt 32 speed }

/-- `cfgetospeed`. -/
def cfgetospeed (tio : Termios) : Word :=
  tio.cCflag &&& (cbaud ||| cbaudex)

/-- `cfgetospeed_custom`. -/
def cfgetospeedCustom (tio : Termios) : Int :=
  tio.cOspeed.toInt

/-- `cfmakeraw`. -/
def cfmakeraw (tio : Termios) : Termios :=
  { tio with
    cIflag := tio.cIflag &&&
      ~~~(ignbrk ||| brkint ||| parmrk ||| istrip ||| inlcr ||| igncr ||| icrnl ||| ixon)
    cOflag := tio.cOflag &&& ~~~opost
    cLflag := tio.cLflag &&& ~~~(echo ||| echonl ||| icanon ||| isig ||| iexten)
    cCflag := (tio.cCflag &&& ~~~(csize ||| parenb)) ||| cs8
    cCc := (tio.cCc.set vmin 1 vmin_lt).set vtime 0 vtime_lt }

end Ppcom
