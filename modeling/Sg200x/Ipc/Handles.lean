import Sg200x.Ipc.Shm
import Sg200x.Library.Transition
import Mathlib.Data.PNat.Basic

/-!
# Opening and closing handles

`sg2002_rtos_open` and `sg2002_rtos_close` for any number of handles in any number of processes,
and the owner that the driver gives the shared memory to.  Every call of the library may fail, and
the driver may be removed and probed again.
-/

namespace Sg200x.Ipc.Handles

open Shm Library.Transition

/-- `errno` -/
abbrev Errno := ℕ+

def enomem : Errno := 12
def ebusy : Errno := 16
def enodev : Errno := 19
def enotty : Errno := 25
def eproto : Errno := 71
def ebadf : Errno := 9
def eopnotsupp : Errno := 95
def etimedout : Errno := 110
def ealready : Errno := 114

/-- `struct sg2002_rtos_shm_info` -/
structure Info where
  abiVersion : U32
  regionSize : U32
  controlSize : U32
  slotSize : U32
  slotCount : U32
  payloadSize : U32
  generation : U32
  features : U32

def fillInfo (generation : U32) : Info where
  abiVersion := Shm.abiVersion.setWidth 32
  regionSize := Shm.regionSize
  controlSize := Shm.controlSize.setWidth 32
  slotSize := Shm.slotSize.setWidth 32
  slotCount := BitVec.ofNat 32 Shm.slotCount
  payloadSize := BitVec.ofNat 32 Shm.payloadSize
  generation := generation
  features := Shm.features

def infoIsValid (info : Info) : Bool :=
  info.abiVersion = Shm.abiVersion.setWidth 32 ∧ info.regionSize = Shm.regionSize ∧
    info.controlSize = Shm.controlSize.setWidth 32 ∧ info.slotSize = Shm.slotSize.setWidth 32 ∧
    info.slotCount = BitVec.ofNat 32 Shm.slotCount ∧
    info.payloadSize = BitVec.ofNat 32 Shm.payloadSize ∧ info.generation ≠ 0#32 ∧
    info.features &&& Shm.features = Shm.features

/-! ## The resources -/

/-- An open file of the device, and the probe whose transport it is about. -/
structure File where
  transport : ℕ
  id : ℕ
  deriving DecidableEq

/-- What a descriptor refers to. -/
inductive Object
  | device (file : File)
  | eventfd
  /-- Another part of a process has opened it. -/
  | other
  deriving DecidableEq

/-- The two mutexes of a `struct sg2002_rtos_private`, and whether they are initialised. -/
structure Block where
  txLock : Bool
  rxLock : Bool
  deriving DecidableEq

/-- `struct sg2002_rtos_private` at its address. -/
structure Private where
  address : ℕ
  pendingFd : ℕ
  sharedMemoryEnabled : Bool
  generation : U32
  deriving DecidableEq

/-- `struct sg2002_rtos`; `fd` is `none` for -1. -/
structure Handle where
  fd : Option ℕ
  privateData : Option Private
  deriving DecidableEq

def Handle.closed : Handle := ⟨none, none⟩

inductive Pc
  | idle
  | acquire (fd : ℕ)
  /-- In the driver, which has made the file the owner. -/
  | waiting (fd : ℕ)
  | calloc (fd : ℕ) (info : Info)
  | initTx (fd : ℕ) (info : Info) (address : ℕ)
  | initRx (fd : ℕ) (info : Info) (address : ℕ)
  | eventfd (fd : ℕ) (info : Info) (address : ℕ)
  | undoRx (fd address : ℕ) (error : Errno)
  | undoTx (fd address : ℕ) (error : Errno)
  | undoFree (fd address : ℕ) (error : Errno)
  | undoFd (fd : ℕ) (error : Errno)
  | closeFd (fd : ℕ) (privateData : Option Private)
  | closePending (privateData : Private)
  | closeRx (address : ℕ)
  | closeTx (address : ℕ)
  | closeFree (address : ℕ)

/-- A handle and the call that is running on it. -/
structure Caller where
  handle : Handle
  pc : Pc
  /-- What the last `sg2002_rtos_open` has returned, up to the next close. -/
  ret : Option ℤ

/-- Descriptors are numbered over all processes. -/
structure State where
  callers : ℕ → Caller
  fds : ℕ → Option Object
  blocks : ℕ → Option Block
  nextFile : ℕ
  /-- The number of the last probe. -/
  probed : ℕ
  shuttingDown : Bool
  owner : Option File

/-- How an ACQUIRE ends that has made its file the owner. -/
inductive Acquired
  | ready (generation : U32)
  | shutDown
  | failed (error : Errno)

inductive Label
  | open (h : ℕ) (result : Except Errno ℕ)
  | acquire (h : ℕ) (refused : Option Errno)
  | acquired (h : ℕ) (result : Acquired)
  | calloc (h : ℕ) (address : Option ℕ)
  | mutexInit (h : ℕ) (error : Option Errno)
  | eventfd (h : ℕ) (result : Except Errno ℕ)
  /-- The next call on a way out of `sg2002_rtos_open`, or of `sg2002_rtos_close`. -/
  | cleanup (h : ℕ)
  | close (h : ℕ)
  /-- Another part of a process opens or closes a descriptor of its own. -/
  | other (fd : ℕ)
  | markShutdown
  | clearOwner
  | probe

/-! ## The steps -/

def State.setCaller (s : State) (h : ℕ) (caller : Caller) : State :=
  { s with callers := Function.update s.callers h caller }

def State.goto (s : State) (h : ℕ) (pc : Pc) : State :=
  s.setCaller h { s.callers h with pc }

/-- `sg2002_rtos_open` returns. -/
def State.opened (s : State) (h : ℕ) (handle : Handle) (ret : ℤ) : State :=
  s.setCaller h ⟨handle, .idle, some ret⟩

/-- The errors after which the handle uses the command queue. -/
def fallsBack (error : Errno) : Bool :=
  error = enotty ∨ error = enodev ∨ error = eopnotsupp ∨ error = etimedout

def State.acquireFailed (s : State) (h fd : ℕ) (error : Errno) : State :=
  if fallsBack error then s.opened h ⟨some fd, none⟩ 0 else s.goto h (.undoFd fd error)

/-- `sg2002_rtos_shm_linux_release` -/
def State.release (s : State) (fd : ℕ) : State :=
  match s.fds fd with
  | some (.device file) => if s.owner = some file then { s with owner := none } else s
  | _ => s

def State.closeFd (s : State) (fd : ℕ) : State :=
  { s.release fd with fds := Function.update s.fds fd none }

def State.setBlock (s : State) (address : ℕ) (block : Option Block) : State :=
  { s with blocks := Function.update s.blocks address block }

def acquireStep (s : State) (h fd : ℕ) (refused : Option Errno) : Option State :=
  match refused, s.fds fd with
  | some error, _ => some (s.acquireFailed h fd error)
  | none, some (.device file) =>
      if file.transport ≠ s.probed ∨ s.shuttingDown then some (s.acquireFailed h fd enodev)
      else if s.owner = none ∨ s.owner = some file then
        some ({ s with owner := some file }.goto h (.waiting fd))
      else some (s.acquireFailed h fd ebusy)
  | none, _ => none

def acquiredStep (s : State) (h fd : ℕ) : Acquired → Option State
  | .ready generation =>
      if infoIsValid (fillInfo generation) then some (s.goto h (.calloc fd (fillInfo generation)))
      else some (s.goto h (.undoFd fd eproto))
  -- The shutdown clears the owner itself.
  | .shutDown =>
      match s.fds fd with
      | some (.device file) =>
          if file.transport ≠ s.probed ∨ s.shuttingDown then some (s.acquireFailed h fd enodev)
          else none
      | _ => none
  | .failed error => some ((s.release fd).acquireFailed h fd error)

def cleanupStep (s : State) (h : ℕ) : Pc → Option State
  | .undoRx fd address error =>
      some ((s.setBlock address (some ⟨true, false⟩)).goto h (.undoTx fd address error))
  | .undoTx fd address error =>
      some ((s.setBlock address (some ⟨false, false⟩)).goto h (.undoFree fd address error))
  | .undoFree fd address error => some ((s.setBlock address none).goto h (.undoFd fd error))
  | .undoFd fd error => some ((s.closeFd fd).opened h (s.callers h).handle (-(error : ℕ)))
  | .closeFd fd none => some ((s.closeFd fd).setCaller h ⟨.closed, .idle, none⟩)
  | .closeFd fd (some privateData) => some ((s.closeFd fd).goto h (.closePending privateData))
  | .closePending privateData =>
      some ((s.closeFd privateData.pendingFd).goto h (.closeRx privateData.address))
  | .closeRx address => some ((s.setBlock address (some ⟨true, false⟩)).goto h (.closeTx address))
  | .closeTx address =>
      some ((s.setBlock address (some ⟨false, false⟩)).goto h (.closeFree address))
  | .closeFree address => some ((s.setBlock address none).setCaller h ⟨.closed, .idle, none⟩)
  | _ => none

def openStep (s : State) (h : ℕ) (result : Except Errno ℕ) : Option State :=
  match (s.callers h).pc with
  | .idle =>
      if (s.callers h).handle.fd.isSome then
        some (s.opened h (s.callers h).handle (-(ealready : ℕ)))
      else
        match result with
        | .error error => some (s.opened h (s.callers h).handle (-(error : ℕ)))
        | .ok fd =>
            if s.fds fd = none then
              some ({ s with
                fds := Function.update s.fds fd (some (.device ⟨s.probed, s.nextFile⟩))
                nextFile := s.nextFile + 1 }.goto h (.acquire fd))
            else none
  | _ => none

def step (l : Label) (s : State) : Option State :=
  match l with
  | .open h result => openStep s h result
  | .acquire h refused =>
      match (s.callers h).pc with
      | .acquire fd => acquireStep s h fd refused
      | _ => none
  | .acquired h result =>
      match (s.callers h).pc with
      | .waiting fd => acquiredStep s h fd result
      | _ => none
  | .calloc h address =>
      match (s.callers h).pc, address with
      | .calloc fd _, none => some (s.goto h (.undoFd fd enomem))
      | .calloc fd info, some address =>
          if s.blocks address = none then
            some ((s.setBlock address (some ⟨false, false⟩)).goto h (.initTx fd info address))
          else none
      | _, _ => none
  | .mutexInit h error =>
      match (s.callers h).pc, error with
      | .initTx fd _ address, some error => some (s.goto h (.undoFree fd address error))
      | .initTx fd info address, none =>
          some ((s.setBlock address (some ⟨true, false⟩)).goto h (.initRx fd info address))
      | .initRx fd _ address, some error => some (s.goto h (.undoTx fd address error))
      | .initRx fd info address, none =>
          some ((s.setBlock address (some ⟨true, true⟩)).goto h (.eventfd fd info address))
      | _, _ => none
  | .eventfd h result =>
      match (s.callers h).pc, result with
      | .eventfd fd _ address, .error error => some (s.goto h (.undoRx fd address error))
      | .eventfd fd info address, .ok pendingFd =>
          if s.fds pendingFd = none then
            some ({ s with fds := Function.update s.fds pendingFd (some .eventfd) }.opened h
              ⟨some fd, some ⟨address, pendingFd, true, info.generation⟩⟩ 0)
          else none
      | _, _ => none
  | .cleanup h => cleanupStep s h (s.callers h).pc
  | .close h =>
      match (s.callers h).pc, (s.callers h).handle with
      | .idle, ⟨none, _⟩ => some s
      | .idle, ⟨some fd, privateData⟩ =>
          some (s.setCaller h ⟨(s.callers h).handle, .closeFd fd privateData, none⟩)
      | _, _ => none
  | .other fd =>
      match s.fds fd with
      | none => some { s with fds := Function.update s.fds fd (some .other) }
      | some .other => some { s with fds := Function.update s.fds fd none }
      | _ => none
  | .markShutdown => some { s with shuttingDown := true }
  | .clearOwner => if s.shuttingDown then some { s with owner := none } else none
  | .probe =>
      if s.shuttingDown then
        some { s with probed := s.probed + 1, shuttingDown := false, owner := none }
      else none

def State.initial : State where
  callers := fun _ => ⟨.closed, .idle, none⟩
  fds := fun _ => none
  blocks := fun _ => none
  nextFile := 0
  probed := 0
  shuttingDown := false
  owner := none

def system : System State Label where
  start s := s = State.initial
  step := step

/-! ## The getters -/

def sharedMemoryAvailable (handle : Handle) : Bool :=
  handle.fd.isSome && handle.privateData.any Private.sharedMemoryEnabled

def pollFd (handle : Handle) : ℤ :=
  match handle.fd with
  | none => -(ebadf : ℕ)
  | some fd => if sharedMemoryAvailable handle then fd else -(eopnotsupp : ℕ)

end Sg200x.Ipc.Handles
