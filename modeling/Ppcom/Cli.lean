/-
Module: Ppcom.Cli
Purpose: The loop of `main` in `ppcom_cli.cpp` that reads words from standard input and sends them. A
  turn is given the value that it finds in `running`, which the receiving thread changes.
Trusted boundary: the end of `send_message`, which returns no value, and what `send` does
Main exports: Cin, Cin.extract, Cli, sendMessage, Cli.turn, sendLoop
-/
import Ppcom.CLib

namespace Ppcom

/-- `std::cin`: what it has not read of the text, and whether its state is good. -/
structure Cin where
  text : List UInt8
  good : Bool
deriving DecidableEq, Repr

/-- `std::cin >> message`: the new state, and the string that is in `message` then. Where there is no
word the string is not touched. -/
def Cin.extract (cin : Cin) (message : List UInt8) : Cin × List UInt8 :=
  if cin.good then
    match cin.text.dropWhile isspace with
    | [] => (⟨[], false⟩, message)
    | c :: rest =>
        let left := (c :: rest).dropWhile (!isspace ·)
        (⟨left, left ≠ []⟩, (c :: rest).takeWhile (!isspace ·))
  else (cin, message)

/-- A call of the loop with which it puts something out. -/
inductive CliCall where
  | printf (text : List UInt8)
  | send (fd : Int) (payload : List UInt8)
deriving DecidableEq, Repr

/-- The variables of the loop, and the calls that it has made. -/
structure Cli where
  cin : Cin
  message : List UInt8
  ctlfd : Int
  calls : List CliCall
deriving DecidableEq, Repr

/-- The loop starts, with the message that the option `-m` gives. -/
def Cli.start (text message : List UInt8) (ctlfd : Int) : Cli := ⟨⟨text, true⟩, message, ctlfd, []⟩

/-- `send_message`: the calls that it makes. -/
def sendMessage (sockfd : Int) (message : List UInt8) : List CliCall :=
  if message = [] then [] else [.send sockfd message]

/-- The word that ends the loop. -/
def exitWord : List UInt8 := ascii "exit"

/-- A turn of the loop, and whether there is another one. -/
def Cli.turn (running : Bool) (cli : Cli) : Cli × Bool :=
  if !running then (cli, false)
  else
    let (cin, message) := cli.cin.extract cli.message
    if message = exitWord then ({ cli with cin := cin, message := message }, false)
    else
      let calls := .printf (cString message) :: sendMessage cli.ctlfd message
      ({ cli with cin := cin, message := message, calls := cli.calls ++ calls }, true)

/-- The loop, for as many turns as `running` is given. -/
def sendLoop : List Bool → Cli → Cli
  | [], cli => cli
  | running :: later, cli =>
      match cli.turn running with
      | (next, true) => sendLoop later next
      | (last, false) => last

/-- What a call sends. -/
def CliCall.sent : CliCall → Option (Int × List UInt8)
  | .send fd payload => some (fd, payload)
  | .printf _ => none

/-- What was sent, and where. -/
def Cli.sent (cli : Cli) : List (Int × List UInt8) := cli.calls.filterMap CliCall.sent

end Ppcom
