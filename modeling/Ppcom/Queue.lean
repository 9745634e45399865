/-
Module: Ppcom.Queue
Purpose: The output queue `tty_q`: `tty_q_push` with the growth of the block and the local echo, the
  write to the port that takes from it, and the reset.
Trusted boundary: none
Main exports: growQueue, pushByte, ttyQPush, discardQueue, writePort
-/
import Ppcom.Session

namespace Ppcom

/-- `TTY_Q_SZ_MIN`. -/
def ttyQSzMin : Nat := 256

/-- `map_and_write`. -/
def mapAndWrite (fd : Int) (map : Word) (valChr : UInt8) : SessionM Unit := do
  match doMap map valChr with
  | none => abort
  | some b =>
      if b.length ≠ 0 then writeAll fd b "write to stdout failed: %s"

namespace TtyQ

/-- The queue in a block of `sz` bytes; `fill` are the contents of the cells it gains. -/
def grow (q : TtyQ) (sz : Nat) (fill : Nat → UInt8) : TtyQ :=
  { q with sz := sz, buff := q.buff ++ (List.range (sz - q.sz)).map fill }

/-- The queue with an image stored behind its contents. -/
def store (q : TtyQ) (image : List UInt8) : TtyQ :=
  { q with len := q.len + image.length, buff := Buffer.blit q.buff q.len image }

/-- The size of the request to the port. -/
def request (q : TtyQ) (ttyWriteSz : Int) : Int :=
  if (q.len : Int) < ttyWriteSz then q.len else ttyWriteSz

/-- What the port takes of a request for `sz` bytes. -/
def taken (q : TtyQ) (sz : Int) (reply : Option Nat) : List UInt8 :=
  match reply with
  | none => []
  | some k => (q.buff.take sz.toNat).take k

/-- The queue without its first `n` bytes: `memmove` and `tty_q.len -= n`. -/
def drop (q : TtyQ) (n : Nat) : TtyQ :=
  { q with len := q.len - n, buff := Buffer.moveDown q.buff n (q.len - n) }

end TtyQ

/-- The `while` loop of `tty_q_push`: whether there is room for the image of a byte. Each turn gains
at least one of the bytes that are missing, whose number is the first argument. -/
def growQueue (build : Build) : Nat → SessionM Bool
  | 0 => return true
  | n + 1 => do
      let q := (← get).ttyQ
      if q.len + mMaxmap ≤ q.sz then return true
      let sz := toInt (q.sz * 2)
      if build.ttyQSz ≠ 0 ∧ (build.ttyQSz : Int) < sz then return false
      match ← realloc sz with
      | none => return false
      | some fill =>
          modify fun s => { s with ttyQ := s.ttyQ.grow sz.toNat fill }
          growQueue build n

/-- A turn of the `for` loop of `tty_q_push`: whether the byte was stored. -/
def pushByte (build : Build) (b : UInt8) : SessionM Bool := do
  let s ← get
  unless ← growQueue build (s.ttyQ.len + mMaxmap - s.ttyQ.sz) do return false
  match doMap s.opts.omap b with
  | none => abort
  | some image =>
      modify fun s => { s with ttyQ := s.ttyQ.store image }
      emit (.accept b)
  if s.opts.lecho then mapAndWrite sto s.opts.emap b
  return true

/-- `tty_q_push`: the number of bytes stored. -/
def ttyQPush (build : Build) : List UInt8 → SessionM Nat
  | [] => return 0
  | b :: rest => do
      checkpoint
      if ← pushByte build b then return 1 + (← ttyQPush build rest)
      return 0

/-- `tty_q.len = 0`, as the commands that change a setting do it. -/
def discardQueue (setting : Setting) : SessionM Unit := do
  emit (.discard setting (← get).ttyQ.contents)
  modify fun s => { s with ttyQ := { s.ttyQ with len := 0 } }

/-- `set_tty_write_sz`. -/
def setTtyWriteSz (baud : Int) : SessionM Unit :=
  modify fun s => { s with ttyWriteSz := max (Int.tdiv baud 10) 8 }

/-- What `loop` does with bytes that came from the port, and with local echo with those that went to
it: they go to the message connection and to the log. -/
def forward (buff : List UInt8) : SessionM Unit := do
  let s ← get
  if 0 < s.msgfd then discard <| writenNi s.msgfd buff
  if s.opts.logFilename.isSome then writeAll s.logFd buff "write to logfile failed: %s"

/-- The part of `loop` that writes to the port. -/
def writePort : SessionM Unit := do
  checkpoint
  let s ← get
  let sz := s.ttyQ.request s.ttyWriteSz
  let reply ← nextReply Env.write fun env rest => { env with write := rest }
  let taken := s.ttyQ.taken sz reply
  emit (.write s.ttyQ.len sz taken)
  if taken.length = 0 then fatal "write to port failed: %s"
  if s.opts.lecho then forward taken
  modify fun s => { s with ttyQ := s.ttyQ.drop taken.length }

end Ppcom
