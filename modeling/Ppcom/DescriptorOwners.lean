/-
Module: Ppcom.DescriptorOwners
Purpose: `FileDescriptor` and `FifoDes` of `libffwd`, each over the descriptors that it obtained.
Trusted boundary: `open` returns -1 or a number that is not open; `close` closes a descriptor whatever
  it returns; the rest of the program closes no descriptor that the object has obtained and not closed;
  the bytes that are read and written are left out
Main exports: FileDescriptor, FifoDes, Holder, FileDescriptor.step, FifoDes.step
-/
import Ppcom.Lib.Handles
import Ppcom.Lib.Machine

namespace Ppcom

/-- The descriptors, by the paths that an object opened them with. -/
abbrev Descriptors := Handles Int String

namespace Descriptors

variable (h : Descriptors)

/-- `::open(path)`, where it returns `reply`. -/
def opens (path : String) (reply : Int) : Descriptors :=
  if reply = -1 then h else h.obtain reply path

/-- What `::open` can return. -/
def Grants (reply : Int) : Prop := reply = -1 ∨ 0 ≤ reply ∧ h.opened reply = false

instance (reply : Int) : Decidable (h.Grants reply) := inferInstanceAs (Decidable (_ ∨ _))

/-- The object has obtained the descriptor and not closed it. -/
def Pending (fd : Int) : Prop := ∃ handle, Handles.latest fd h.ledger = some handle ∧ handle.closes = 0

instance (fd : Int) : Decidable (h.Pending fd) :=
  match found : Handles.latest fd h.ledger with
  | some handle =>
      if fresh : handle.closes = 0 then .isTrue ⟨handle, found, fresh⟩
      else .isFalse fun ⟨handle', found', fresh'⟩ => by
        rw [found] at found'
        cases found'
        exact fresh fresh'
  | none => .isFalse fun ⟨handle, found', _⟩ => by
      rw [found] at found'
      cases found'

end Descriptors

/-- How a method ends: the descriptors that it read from or wrote to, and what it returned (0 where it
returns nothing) or the exception that it threw. -/
structure Outcome where
  accesses : List Int
  result : Except String Int

/-! ### `FileDescriptor` -/

/-- `FileDescriptor`. -/
structure FileDescriptor where
  fd : Int
deriving DecidableEq, Repr

namespace FileDescriptor

variable (f : FileDescriptor) (h : Descriptors)

/-- `FileDescriptor::FileDescriptor`. -/
def new : FileDescriptor := ⟨-1⟩

/-- `FileDescriptor::open`, which overwrites the only member. -/
def openFd (path : String) (reply : Int) : FileDescriptor × Descriptors × Outcome :=
  let f : FileDescriptor := ⟨reply⟩
  let h := h.opens path reply
  if f.fd = -1 then (f, h, ⟨[], .error "Failed to open file descriptor"⟩) else (f, h, ⟨[], .ok 0⟩)

/-- `FileDescriptor::close`. Its parameter has the name of the member, and is what it sets to -1. -/
def closeFd (fd reply : Int) : FileDescriptor × Descriptors × Outcome :=
  if fd ≠ -1 then
    if reply = -1 then (f, h.close fd, ⟨[], .error "Failed to close file descriptor"⟩)
    else (f, h.close fd, ⟨[], .ok 0⟩)
  else (f, h, ⟨[], .ok 0⟩)

/-- `FileDescriptor::read`. -/
def readFd (reply : Int) : Outcome :=
  if f.fd = -1 then ⟨[], .error "File descriptor is not open"⟩ else ⟨[f.fd], .ok reply⟩

/-- `FileDescriptor::~FileDescriptor`. -/
def destroy : Descriptors := if f.fd ≠ -1 then h.close f.fd else h

end FileDescriptor

/-! ### `FifoDes` -/

/-- `FifoDes`. -/
structure FifoDes where
  fifoPath : String
  fifoFd : Int
deriving DecidableEq, Repr

namespace FifoDes

variable (f : FifoDes) (h : Descriptors)

/-- `FifoDes::FifoDes`, which does not look at its parameter. -/
def new (_fifoPath : String) : FifoDes := ⟨"/tmp/ffwd_fifo", -1⟩

/-- `FifoDes::create_fifo`, where `mkfifo` returns `reply`. -/
def createFifo (reply : Int) : Except String Int :=
  if reply = -1 then .error "Failed to create FifoDes" else .ok 0

/-- `FifoDes::open_fifo`. -/
def openFifo (reply : Int) : FifoDes × Descriptors × Int :=
  let f := { f with fifoFd := reply }
  let h := h.opens f.fifoPath reply
  if f.fifoFd < 0 then (f, h, 0) else (f, h, 1)

/-- `FifoDes::init`. -/
def init (mkfifo reply : Int) : FifoDes × Descriptors × Except String Int :=
  match createFifo mkfifo with
  | .error text => (f, h, .error text)
  | .ok _ =>
      let (f, h, ret) := f.openFifo h reply
      let f := { f with fifoFd := ret }
      if f.fifoFd < 0 then (f, h, .error "Failed to open FifoDes") else (f, h, .ok 0)

/-- `FifoDes::write_fifo`, where `fd` is what its local variable of that name finds on the stack. -/
def writeFifo (fd reply : Int) : Outcome :=
  if f.fifoFd < 0 then ⟨[], .error "Failed to open FifoDes for writing"⟩ else ⟨[fd], .ok reply⟩

/-- `FifoDes::read_fifo`. -/
def readFifo (reply : Int) : Outcome :=
  if f.fifoFd < 0 then ⟨[], .ok (-1)⟩ else ⟨[f.fifoFd], .ok reply⟩

/-- `FifoDes::close_fifo`, which `FifoDes::~FifoDes` calls. -/
def closeFifo : Descriptors := if 0 < f.fifoFd then h.close f.fifoFd else h

end FifoDes

/-! ### Runs -/

/-- An object with the descriptors, and the path that it was constructed with, or opened with last. -/
structure Holder (ο : Type) where
  object : ο
  path : String
  handles : Descriptors

/-- What the rest of the program does to the descriptors. -/
inductive Elsewhere where
  | opened (fd : Int)
  | closed (fd : Int)

/-- A descriptor is opened or closed elsewhere. -/
def Descriptors.elsewhere (h : Descriptors) : Elsewhere → Option Descriptors
  | .opened fd =>
      if 0 ≤ fd ∧ h.opened fd = false then some { h with opened := Function.update h.opened fd true }
      else none
  | .closed fd =>
      if h.Pending fd then none else some { h with opened := Function.update h.opened fd false }

/-- A call of `FileDescriptor` with its replies. -/
inductive FileDescriptorInput where
  | openFd (path : String) (reply : Int)
  | closeFd (fd reply : Int)
  | readFd (reply : Int)
  | elsewhere (happens : Elsewhere)

/-- The step. -/
def FileDescriptor.step (s : Holder FileDescriptor) :
    FileDescriptorInput → Option (Holder FileDescriptor × Outcome)
  | .openFd path reply =>
      if s.handles.Grants reply then
        let (f, h, out) := openFd s.handles path reply
        some (⟨f, path, h⟩, out)
      else none
  | .closeFd fd reply =>
      let (f, h, out) := s.object.closeFd s.handles fd reply
      some (⟨f, s.path, h⟩, out)
  | .readFd reply => some (s, s.object.readFd reply)
  | .elsewhere happens =>
      (s.handles.elsewhere happens).map fun h => ({ s with handles := h }, ⟨[], .ok 0⟩)

/-- A call of `FifoDes` with its replies. -/
inductive FifoDesInput where
  | init (mkfifo reply : Int)
  | createFifo (reply : Int)
  | openFifo (reply : Int)
  | readFifo (reply : Int)
  | writeFifo (stack reply : Int)
  | elsewhere (happens : Elsewhere)

/-- The step. -/
def FifoDes.step (s : Holder FifoDes) : FifoDesInput → Option (Holder FifoDes × Outcome)
  | .init mkfifo reply =>
      if s.handles.Grants reply then
        let (f, h, result) := s.object.init s.handles mkfifo reply
        some (⟨f, s.path, h⟩, ⟨[], result⟩)
      else none
  | .createFifo reply => some (s, ⟨[], FifoDes.createFifo reply⟩)
  | .openFifo reply =>
      if s.handles.Grants reply then
        let (f, h, ret) := s.object.openFifo s.handles reply
        some (⟨f, s.path, h⟩, ⟨[], .ok ret⟩)
      else none
  | .readFifo reply => some (s, s.object.readFifo reply)
  | .writeFifo stack reply => some (s, s.object.writeFifo stack reply)
  | .elsewhere happens =>
      (s.handles.elsewhere happens).map fun h => ({ s with handles := h }, ⟨[], .ok 0⟩)

end Ppcom
