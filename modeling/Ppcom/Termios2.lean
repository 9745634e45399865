/-
Module: Ppcom.Termios2
Purpose: The `termios2` interface of `termios2.cpp`: what `tc2setattr` hands to the kernel, what
  `tc2getattr` makes of what the kernel holds, and how the kernel decodes the two speeds, as
  `res/termios2.txt` describes it.
Trusted boundary: the numeric values are those of the Linux headers
Main exports: Termios2, Termios.toTermios2, Termios2.toTermios, ttyTermiosBaudRate,
  ttyTermiosInputBaudRate
-/
import Ppcom.Termios

namespace Ppcom

/-- `K_NCCS`. -/
abbrev kNccs : Nat := 19

/-- `_POSIX_VDISABLE`. -/
def posixVdisable : UInt8 := 0

/-- `struct termios2`. -/
structure Termios2 where
  cIflag : Word
  cOflag : Word
  cCflag : Word
  cLflag : Word
  cLine : UInt8
  cCc : Vector UInt8 kNccs
  cIspeed : Word
  cOspeed : Word
deriving DecidableEq, Repr

/-- What `tc2setattr` hands to the kernel. -/
def Termios.toTermios2 (tios : Termios) : Termios2 where
  cIflag := tios.cIflag &&& ~~~ibaud0
  cOflag := tios.cOflag
  cCflag := tios.cCflag
  cLflag := tios.cLflag
  cLine := tios.cLine
  cCc := Vector.ofFn fun i => tios.cCc[i.val]
  cIspeed := tios.cIspeed
  cOspeed := tios.cOspeed

/-- What `tc2getattr` makes of what it has from the kernel. -/
def Termios2.toTermios (t2 : Termios2) : Termios where
  cIflag := t2.cIflag
  cOflag := t2.cOflag
  cCflag := t2.cCflag
  cLflag := t2.cLflag
  cLine := t2.cLine
  cCc := Vector.ofFn fun i => if inside : i.val < kNccs then t2.cCc[i.val] else posixVdisable
  cIspeed := t2.cIspeed
  cOspeed := t2.cOspeed

@[simp] theorem Termios.cCflag_toTermios2 (t : Termios) : t.toTermios2.cCflag = t.cCflag := rfl

@[simp] theorem Termios.cOspeed_toTermios2 (t : Termios) : t.toTermios2.cOspeed = t.cOspeed := rfl

@[simp] theorem Termios2.cCflag_toTermios (t2 : Termios2) : t2.toTermios.cCflag = t2.cCflag := rfl

/-! ### The kernel -/

/-- The kernel's table of standard rates. -/
def kernelBauds : List (Int × Word) := lowBauds ++ highBauds

/-- The rate with a code, if the table has one. -/
def kernelRate (code : Word) : Option Int :=
  (kernelBauds.find? fun entry => entry.2 == code).map Prod.fst

/-- `tty_termios_baud_rate`: the output rate. -/
def ttyTermiosBaudRate (t2 : Termios2) : Option Int :=
  if t2.cCflag &&& cbaud = bother then some t2.cOspeed.toNat
  else kernelRate (t2.cCflag &&& (cbaud ||| cbaudex))

/-- `tty_termios_input_baud_rate`: the input rate. -/
def ttyTermiosInputBaudRate (t2 : Termios2) : Option Int :=
  let code := (t2.cCflag >>> ibshift) &&& cbaud
  if code = b0 then ttyTermiosBaudRate t2
  else if code = bother then some t2.cIspeed.toNat
  else kernelRate ((t2.cCflag >>> ibshift) &&& (cbaud ||| cbaudex))

end Ppcom
