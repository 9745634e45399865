/-
Module: Ppcom.Receiving
Purpose: `receive_messages` of `ppcom_cli.cpp`, which copies what the server sends to standard output
  through a buffer of its own.
Trusted boundary: `printf` and `fflush` write all they are given; what another thread does to `running`
  is the value that a turn finds in it; the line `Server closed the connection`, printed on the same
  standard output where the stream ends, is left out
Main exports: receiveBufSz, receiveBuffer, printReceived, receiveMessages
-/
import Ppcom.Input

namespace Ppcom

/-- The size of `buffer`. -/
def receiveBufSz : Nat := 1024

/-- `buffer`, set to zero and then filled by `recv`. -/
def receiveBuffer (received : List UInt8) : List UInt8 :=
  received ++ List.replicate (receiveBufSz - received.length) 0

/-- What is printed of the bytes received, behind which a zero is stored. There is nothing where the zero
is stored outside of `buffer`. -/
def printReceived (received : List UInt8) : Option (List UInt8) :=
  if received.length < receiveBufSz then
    some (cString ((receiveBuffer received).set received.length 0))
  else none

/-- `receive_messages`, for as many turns as `running` is given: what it prints, and what is left to be
received. -/
def receiveMessages : List Bool → Source → Option (List UInt8 × Source)
  | [], src => some ([], src)
  | running :: later, src =>
      if !running then some ([], src)
      else
        match Source.read receiveBufSz src with
        | (.data c rest, src) =>
            (printReceived (c :: rest)).bind fun text =>
              (receiveMessages later src).map fun (texts, src) => (text ++ texts, src)
        | (_, src) => some ([], src)

end Ppcom
