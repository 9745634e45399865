/-
Module: Ppcom.Epoll
Purpose: `Epoll` of `libffwd`: the callbacks and the records of the descriptors that it watches, over
  the registrations that the kernel has, and what `wait` hands to a callback.
Trusted boundary: a descriptor is registered once at most, and closing it drops its registration; what
  a callback does with its copy of a record is its own
Main exports: EpollSt, Epoll, EpollKernel, getEpollStByFd, Epoll.handed, epollStep
-/
import Mathlib.Logic.Function.Basic

namespace Ppcom

/-- `epoll_st_t`; `data` is an address, and 0 the null pointer. -/
structure EpollSt where
  index : Int
  events : UInt32
  infd : Int
  outfd : Int
  data : Nat
deriving DecidableEq, Repr

/-- What the kernel knows: which descriptors are open, and which of them are registered. -/
structure EpollKernel where
  opened : Int → Bool
  watched : Int → Bool

namespace EpollKernel

/-- Whether `EPOLL_CTL_ADD` succeeds; `granted` says that nothing else is in its way. -/
def accepts (k : EpollKernel) (fd : Int) (granted : Bool) : Bool :=
  k.opened fd && !k.watched fd && granted

/-- After it succeeded. -/
def add (k : EpollKernel) (fd : Int) : EpollKernel :=
  { k with watched := Function.update k.watched fd true }

/-- `EPOLL_CTL_DEL`, which fails for a descriptor that is not registered and then changes nothing. -/
def del (k : EpollKernel) (fd : Int) : EpollKernel :=
  { k with watched := Function.update k.watched fd false }

/-- A descriptor is opened. -/
def opens (k : EpollKernel) (fd : Int) : EpollKernel :=
  { k with opened := Function.update k.opened fd true }

/-- And closed. -/
def closes (k : EpollKernel) (fd : Int) : EpollKernel where
  opened := Function.update k.opened fd false
  watched := Function.update k.watched fd false

end EpollKernel

/-- `Epoll`, with callbacks of type `κ`. -/
structure Epoll (κ : Type) where
  callbacks : Int → Option κ
  cbs : Int → Option κ
  vecEpollSt : List EpollSt

/-- The loop of `getEpollStByFd` from the `i`th record on. -/
def getEpollStFrom (fd : Int) : Nat → List EpollSt → Int × EpollSt
  | _, [] => (-1, ⟨-1, 0, -1, -1, 0⟩)
  | i, st :: rest => if st.infd = fd then (i, st) else getEpollStFrom fd (i + 1) rest

/-- `Epoll::getEpollStByFd`: what it returns, and what it stores in `epollSt`. -/
def getEpollStByFd (vecEpollSt : List EpollSt) (fd : Int) : Int × EpollSt :=
  getEpollStFrom fd 0 vecEpollSt

namespace Epoll

variable {κ : Type} (e : Epoll κ) (k : EpollKernel)

/-- `Epoll::Epoll`. -/
def empty : Epoll κ := ⟨fun _ => none, fun _ => none, []⟩

/-- `Epoll::add`; the last value is whether it throws. -/
def add (fd : Int) (callback : κ) (granted : Bool) : Epoll κ × EpollKernel × Bool :=
  if k.accepts fd granted then
    ({ e with callbacks := Function.update e.callbacks fd (some callback) }, k.add fd, false)
  else (e, k, true)

/-- The record that `addSt` makes. -/
def record (fd : Int) (events : UInt32) : EpollSt := ⟨fd, events, fd, -1, 0⟩

/-- `Epoll::addSt`, likewise. -/
def addSt (fd : Int) (events : UInt32) (callback : κ) (granted : Bool) :
    Epoll κ × EpollKernel × Bool :=
  if k.accepts fd granted then
    ({ e with
        vecEpollSt := e.vecEpollSt ++ [record fd events]
        cbs := Function.update e.cbs fd (some callback) }, k.add fd, false)
  else (e, k, true)

/-- `Epoll::remove`, which throws nothing: it catches the failure of `EPOLL_CTL_DEL`. -/
def remove (fd : Int) : Epoll κ × EpollKernel :=
  ({ e with
      callbacks := Function.update e.callbacks fd none
      cbs := Function.update e.cbs fd none }, k.del fd)

/-- What `wait` does for an event with `EPOLLIN` on `fd`: which of `cbs` it calls with which record. -/
def handed (fd : Int) : Option (EpollSt × κ) :=
  match e.cbs fd with
  | none => none
  | some callback =>
      let (ret, epollSt) := getEpollStByFd e.vecEpollSt fd
      if ret < 0 then none else some (epollSt, callback)

end Epoll

/-! ### Runs -/

/-- `Epoll` and the kernel. -/
structure Watch (κ : Type) where
  epoll : Epoll κ
  kernel : EpollKernel

/-- What happens next: a call, or a descriptor is opened or closed. -/
inductive EpollInput (κ : Type) where
  | add (fd : Int) (callback : κ) (granted : Bool)
  | addSt (fd : Int) (events : UInt32) (callback : κ) (granted : Bool)
  | remove (fd : Int)
  | opened (fd : Int)
  | closed (fd : Int)

/-- The step, and whether it throws. -/
def epollStep {κ : Type} (w : Watch κ) : EpollInput κ → Watch κ × Bool
  | .add fd callback granted =>
      let (epoll, kernel, threw) := w.epoll.add w.kernel fd callback granted
      (⟨epoll, kernel⟩, threw)
  | .addSt fd events callback granted =>
      let (epoll, kernel, threw) := w.epoll.addSt w.kernel fd events callback granted
      (⟨epoll, kernel⟩, threw)
  | .remove fd =>
      let (epoll, kernel) := w.epoll.remove w.kernel fd
      (⟨epoll, kernel⟩, false)
  | .opened fd => (⟨w.epoll, w.kernel.opens fd⟩, false)
  | .closed fd => (⟨w.epoll, w.kernel.closes fd⟩, false)

end Ppcom
