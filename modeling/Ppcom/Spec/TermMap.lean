/-
Module: Ppcom.Spec.TermMap
Purpose: What the terminal framework is for: a finite map from descriptors to the original, current
  and next settings of their devices, and the effect that `term.h` documents of each call on it.
Trusted boundary: none
Main exports: Record, TermMap, Framework, Setter.Refuses, Setter.Sets, Documented
-/
import Mathlib.Data.Set.Card
import Ppcom.Lib.BitMask
import Ppcom.TermCall

namespace Ppcom

open BitMask

/-- The three settings structures that are kept for a managed descriptor. -/
structure Record where
  orig : Termios
  curr : Termios
  next : Termios
deriving DecidableEq

/-- The record of a descriptor that is added while its device has the settings `t`. -/
def Record.fresh (t : Termios) : Record := ⟨t, t, t⟩

/-- A map from the managed descriptors to their records, of at most `MAX_TERMS` entries. -/
structure TermMap where
  entry : Int → Option Record
  finite : {fd | (entry fd).isSome}.Finite
  bounded : {fd | (entry fd).isSome}.ncard ≤ maxTerms

namespace TermMap

/-- No descriptor is managed. -/
def empty : TermMap where
  entry := fun _ => none
  finite := by simp
  bounded := by simp

/-- How many descriptors are managed. -/
noncomputable def size (m : TermMap) : Nat := {fd | (m.entry fd).isSome}.ncard

end TermMap

/-- The abstract state: the managed descriptors, and the devices. -/
structure Framework where
  terms : TermMap
  world : World

namespace Framework

/-- The map is the same up to the entry of `fd`, which becomes `r`. -/
def Puts (a a' : Framework) (fd : Int) (r : Option Record) : Prop :=
  a'.terms.entry = Function.update a.terms.entry fd r

/-- The entry of `oldfd` has moved to `newfd`, where it is `r`. -/
def Moves (a a' : Framework) (oldfd newfd : Int) (r : Record) : Prop :=
  a'.terms.entry = Function.update (Function.update a.terms.entry oldfd none) newfd (some r)

/-- No device has changed. -/
def Rests (a a' : Framework) : Prop := a'.world = a.world

/-- The device of `fd` was asked for `asked` and stored `t`; no other device has changed. -/
def Stores (a a' : Framework) (fd : Int) (when : When) (asked t : Termios) : Prop :=
  a'.world = a.world.store fd when asked t

end Framework

/-! ### The setters -/

/-- The speed that a device with settings `t` transmits at: one of the table, or the custom rate in
`c_ospeed`. -/
def HasBaudrate (plat : Platform) (t : Termios) (baud : Int) : Prop :=
  if baud ∈ (baudTable plat).map Prod.fst then bspeed plat (cfgetospeed t) = baud
  else bspeed plat (cfgetospeed t) < 0 ∧ t.cOspeed = BitVec.ofInt 32 baud

/-- The parameters that a setter refuses, with the error. -/
inductive Setter.Refuses (plat : Platform) : Setter → TermErrno → Prop where
  | baudrate {baud} (unlisted : baud ∉ (baudTable plat).map Prod.fst)
      (standard : plat.useCustomBaud = false) : Refuses plat (.baudrate baud) .ebaud
  | customBaudrate {baud} (unlisted : baud ∉ (baudTable plat).map Prod.fst)
      (custom : plat.useCustomBaud = true) (negative : baud < 0) :
      Refuses plat (.baudrate baud) .esetospeed
  | parity : Refuses plat (.parity .error) .eparity
  | databits {n} (unsupported : ¬ (5 ≤ n ∧ n ≤ 8)) : Refuses plat (.databits n) .edatabits
  | stopbits {n} (unsupported : ¬ (1 ≤ n ∧ n ≤ 2)) : Refuses plat (.stopbits n) .estopbits
  | flowcntrl {flow} (unsupported : flow = .other ∨ flow = .error) :
      Refuses plat (.flowcntrl flow) .eflow

/-- `t'` is `t` with the flag words changed at most inside the two masks. -/
structure ChangesFlags (iflags cflags : Word) (t t' : Termios) : Prop where
  cIflag : AgreeOff iflags t.cIflag t'.cIflag
  cCflag : AgreeOff cflags t.cCflag t'.cCflag
  rest : t' = { t with cIflag := t'.cIflag, cCflag := t'.cCflag }

/-- The documented effect of a setter on the next settings: the parameter has its new value, and
nothing else has changed. -/
inductive Setter.Sets (plat : Platform) : Setter → Termios → Termios → Prop where
  | raw {t t'}
      (iflags : AgreeOff (ignbrk ||| brkint ||| parmrk ||| istrip ||| inlcr ||| igncr ||| icrnl
          ||| ixon) t.cIflag t'.cIflag)
      (iflagsDown : t'.cIflag &&& (ignbrk ||| brkint ||| parmrk ||| istrip ||| inlcr ||| igncr
          ||| icrnl ||| ixon) = 0)
      (oflags : AgreeOff opost t.cOflag t'.cOflag) (oflagsDown : t'.cOflag &&& opost = 0)
      (lflags : AgreeOff (echo ||| echonl ||| icanon ||| isig ||| iexten) t.cLflag t'.cLflag)
      (lflagsDown : t'.cLflag &&& (echo ||| echonl ||| icanon ||| isig ||| iexten) = 0)
      (cflags : AgreeOff (csize ||| parenb) t.cCflag t'.cCflag)
      (size : databitsOf t'.cCflag = 8) (parityOff : t'.cCflag &&& parenb = 0)
      (min : t'.cCc[vmin] = 1) (time : t'.cCc[vtime] = 0)
      (chars : ∀ i : Fin 32, i ≠ vmin → i ≠ vtime → t'.cCc[i] = t.cCc[i])
      (speeds : t'.cIspeed = t.cIspeed ∧ t'.cOspeed = t.cOspeed ∧ t'.cLine = t.cLine) :
      Sets plat .raw t t'
  | baudrate {baud t t'} (rate : HasBaudrate plat t' baud)
      (rest : ChangesFlags ibaud0 (cbaud ||| cbaud <<< ibshift)
        { t with cIspeed := t'.cIspeed, cOspeed := t'.cOspeed } t') :
      Sets plat (.baudrate baud) t t'
  | parity {parity t t'} (mode : parityOf t'.cCflag = parity)
      (rest : ChangesFlags 0 (parenb ||| parodd ||| cmspar) t t') : Sets plat (.parity parity) t t'
  | databits {n t t'} (bits : databitsOf t'.cCflag = n) (rest : ChangesFlags 0 csize t t') :
      Sets plat (.databits n) t t'
  | stopbits {n t t'} (bits : stopbitsOf t'.cCflag = n) (rest : ChangesFlags 0 cstopb t t') :
      Sets plat (.stopbits n) t t'
  | flowcntrl {flow t t'} (mode : flowcntrlOf t' = flow)
      (rest : ChangesFlags (ixon ||| ixoff ||| ixany) crtscts t t') : Sets plat (.flowcntrl flow) t t'
  | loc {on t t'} (bit : decide (t'.cCflag &&& clocal ≠ 0) = on) (rest : ChangesFlags 0 clocal t t') :
      Sets plat (.loc on) t t'
  | hupcl {on t t'} (bit : decide (t'.cCflag &&& Ppcom.hupcl ≠ 0) = on)
      (rest : ChangesFlags 0 Ppcom.hupcl t t') : Sets plat (.hupcl on) t t'

/-- `orig` after settings were applied: its `HUPCL` bit is the one that took effect. -/
structure TakesHupcl (applied orig orig' : Termios) : Prop where
  bit : orig'.cCflag &&& hupcl = applied.cCflag &&& hupcl
  rest : ChangesFlags 0 hupcl orig orig'

/-! ### The calls -/

/-- The documented effects of the calls: `Documented plat replies call a outcome a'` says that the
call may end in `outcome` and take `a` to `a'`, when the system gives the replies `replies`. -/
inductive Documented (plat : Platform) (replies : Replies) :
    Call → Framework → Except TermErrno Unit → Framework → Prop where
  | addManaged {a fd r} (entry : a.terms.entry fd = some r) :
      Documented plat replies (.add fd) a (.error .eexists) a
  | addNoTerminal {a fd} (unmanaged : a.terms.entry fd = none) (other : replies.isatty = false) :
      Documented plat replies (.add fd) a (.error .eisatty) a
  | addFull {a fd} (unmanaged : a.terms.entry fd = none) (terminal : replies.isatty = true)
      (full : a.terms.size = maxTerms) :
      Documented plat replies (.add fd) a (.error .efull) a
  | addUnread {a fd} (unmanaged : a.terms.entry fd = none) (terminal : replies.isatty = true)
      (room : a.terms.size < maxTerms) (unread : replies.tcgetattr = false) :
      Documented plat replies (.add fd) a (.error .egetattr) a
  | added {a a' fd} (unmanaged : a.terms.entry fd = none) (terminal : replies.isatty = true)
      (room : a.terms.size < maxTerms) (read : replies.tcgetattr = true)
      (puts : a.Puts a' fd (some (Record.fresh (a.world.settingsOf fd))))
      (devices : a.Rests a') :
      Documented plat replies (.add fd) a (.ok ()) a'
  | removeUnmanaged {a fd} (unmanaged : a.terms.entry fd = none) :
      Documented plat replies (.remove fd) a (.error .enotfound) a
  | removeUnflushed {a a' fd r} (entry : a.terms.entry fd = some r) (flush : replies.tcflush = false)
      (puts : a.Puts a' fd none) (devices : a.Rests a') :
      Documented plat replies (.remove fd) a (.error .eflush) a'
  | removeUnset {a a' fd r} (entry : a.terms.entry fd = some r) (flush : replies.tcflush = true)
      (fails : replies.tcsetattr r.orig = none) (puts : a.Puts a' fd none)
      (devices : a.Rests a') :
      Documented plat replies (.remove fd) a (.error .esetattr) a'
  | removed {a a' fd r t} (entry : a.terms.entry fd = some r) (flush : replies.tcflush = true)
      (stored : replies.tcsetattr r.orig = some t) (puts : a.Puts a' fd none)
      (stores : a.Stores a' fd .tcsanow r.orig t) :
      Documented plat replies (.remove fd) a (.ok ()) a'
  | eraseUnmanaged {a fd} (unmanaged : a.terms.entry fd = none) :
      Documented plat replies (.erase fd) a (.error .enotfound) a
  | erased {a a' fd r} (entry : a.terms.entry fd = some r) (puts : a.Puts a' fd none)
      (devices : a.Rests a') :
      Documented plat replies (.erase fd) a (.ok ()) a'
  | replaceUnmanaged {a oldfd newfd} (unmanaged : a.terms.entry oldfd = none) :
      Documented plat replies (.replace oldfd newfd) a (.error .enotfound) a
  | replaceUnset {a oldfd newfd r} (entry : a.terms.entry oldfd = some r)
      (fails : replies.tcsetattr r.curr = none) :
      Documented plat replies (.replace oldfd newfd) a (.error .esetattr) a
  | replaceUnread {a a' oldfd newfd r t} (entry : a.terms.entry oldfd = some r)
      (stored : replies.tcsetattr r.curr = some t) (unread : replies.tcgetattr = false)
      (records : a'.terms = a.terms) (stores : a.Stores a' newfd .tcsanow r.curr t) :
      Documented plat replies (.replace oldfd newfd) a (.error .egetattr) a'
  | replaced {a a' oldfd newfd r t} (entry : a.terms.entry oldfd = some r)
      (stored : replies.tcsetattr r.curr = some t) (read : replies.tcgetattr = true)
      (moves : a.Moves a' oldfd newfd { r with curr := t })
      (stores : a.Stores a' newfd .tcsanow r.curr t) :
      Documented plat replies (.replace oldfd newfd) a (.ok ()) a'
  | resetUnmanaged {a fd} (unmanaged : a.terms.entry fd = none) :
      Documented plat replies (.reset fd) a (.error .enotfound) a
  | resetUnflushed {a fd r} (entry : a.terms.entry fd = some r) (flush : replies.tcflush = false) :
      Documented plat replies (.reset fd) a (.error .eflush) a
  | resetUnset {a fd r} (entry : a.terms.entry fd = some r) (flush : replies.tcflush = true)
      (fails : replies.tcsetattr r.orig = none) :
      Documented plat replies (.reset fd) a (.error .esetattr) a
  | resetUnread {a a' fd r t} (entry : a.terms.entry fd = some r) (flush : replies.tcflush = true)
      (stored : replies.tcsetattr r.orig = some t) (unread : replies.tcgetattr = false)
      (records : a'.terms = a.terms) (stores : a.Stores a' fd .tcsanow r.orig t) :
      Documented plat replies (.reset fd) a (.error .egetattr) a'
  | resetDone {a a' fd r t} (entry : a.terms.entry fd = some r) (flush : replies.tcflush = true)
      (stored : replies.tcsetattr r.orig = some t) (read : replies.tcgetattr = true)
      (puts : a.Puts a' fd (some { r with curr := t, next := t }))
      (stores : a.Stores a' fd .tcsanow r.orig t) :
      Documented plat replies (.reset fd) a (.ok ()) a'
  | revertUnmanaged {a fd} (unmanaged : a.terms.entry fd = none) :
      Documented plat replies (.revert fd) a (.error .enotfound) a
  | reverted {a a' fd r} (entry : a.terms.entry fd = some r)
      (puts : a.Puts a' fd (some { r with next := r.curr })) (devices : a.Rests a') :
      Documented plat replies (.revert fd) a (.ok ()) a'
  | refreshUnmanaged {a fd} (unmanaged : a.terms.entry fd = none) :
      Documented plat replies (.refresh fd) a (.error .enotfound) a
  | refreshUnread {a fd r} (entry : a.terms.entry fd = some r) (unread : replies.tcgetattr = false) :
      Documented plat replies (.refresh fd) a (.error .egetattr) a
  | refreshed {a a' fd r} (entry : a.terms.entry fd = some r) (read : replies.tcgetattr = true)
      (puts : a.Puts a' fd (some { r with curr := a.world.settingsOf fd }))
      (devices : a.Rests a') :
      Documented plat replies (.refresh fd) a (.ok ()) a'
  | applyUnmanaged {a fd now} (unmanaged : a.terms.entry fd = none) :
      Documented plat replies (.apply fd now) a (.error .enotfound) a
  | applyUnset {a fd now r} (entry : a.terms.entry fd = some r)
      (fails : replies.tcsetattr r.next = none) :
      Documented plat replies (.apply fd now) a (.error .esetattr) a
  | applyUnread {a a' fd now r t} (entry : a.terms.entry fd = some r)
      (stored : replies.tcsetattr r.next = some t) (unread : replies.tcgetattr = false)
      (records : a'.terms = a.terms) (stores : a.Stores a' fd (applyWhen now) r.next t) :
      Documented plat replies (.apply fd now) a (.error .egetattr) a'
  | applied {a a' fd now r t orig'} (entry : a.terms.entry fd = some r)
      (stored : replies.tcsetattr r.next = some t) (read : replies.tcgetattr = true)
      (hangup : TakesHupcl t r.orig orig')
      (puts : a.Puts a' fd (some ⟨orig', t, t⟩)) (stores : a.Stores a' fd (applyWhen now) r.next t) :
      Documented plat replies (.apply fd now) a (.ok ()) a'
  | setUnmanaged {a fd setter} (unmanaged : a.terms.entry fd = none) :
      Documented plat replies (.setOne setter fd) a (.error .enotfound) a
  | setRefused {a fd setter r e} (entry : a.terms.entry fd = some r)
      (refuses : setter.Refuses plat e) :
      Documented plat replies (.setOne setter fd) a (.error e) a
  | setDone {a a' fd setter r next'} (entry : a.terms.entry fd = some r)
      (accepts : ∀ e, ¬ setter.Refuses plat e) (sets : setter.Sets plat r.next next')
      (puts : a.Puts a' fd (some { r with next := next' })) (devices : a.Rests a') :
      Documented plat replies (.setOne setter fd) a (.ok ()) a'

end Ppcom
