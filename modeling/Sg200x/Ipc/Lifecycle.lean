import Mathlib.Logic.Function.Basic
import Sg200x.Ipc.Shm
import Sg200x.Library.Progress

/-!
# The life of the device

`cvi_rtos_cmdqu_probe` and `cvi_rtos_cmdqu_remove` against any number of open files and calls on
them, the interrupt handler and the delayed work of the transport.  The driver counts its own
reference and one for each open file.  A step is one access, or one section that its lock makes
whole; what a step uses must be there, or the state is faulty.

The functions of the transport are steps that use it: `Ipc.Shutdown` has their accesses.  The kernel
serialises `open` with `misc_deregister`, runs `release` after the last call on a file, and undoes
the mappings of the device after `probe` has failed and after `remove`.
-/

namespace Sg200x.Ipc.Lifecycle

open Library Library.Transition

def enomem : ℤ := 12
def enodev : ℤ := 19
def einval : ℤ := 22

/-- What is allocated or mapped. -/
inductive Part
  | device
  | transport
  | txBatch
  | rxBatch
  | registers
  | region
  deriving DecidableEq

/-- The parts that `sg2002_rtos_shm_linux_create` allocates. -/
def shmParts : List Part := [.transport, .txBatch, .rxBatch]

inductive Memory
  | unused
  | live
  | gone
  deriving DecidableEq

/-! ## Where the threads are -/

/-- From `mark_shutdown` to `kref_put`, in `remove` and behind `err_misc`. -/
inductive TeardownPc
  | lockLifecycle
  | setFlag
  | unlockLifecycle
  | deregister
  | setShmFlag
  | cancelWork
  | abortWaiters
  | downWrite
  | rmCallback
  | freeIrq
  | clearDrvdata
  | deinit
  | upWrite
  | put
  deriving DecidableEq

/-- The place of a step in the order of the function. -/
def TeardownPc.rank : TeardownPc → ℕ
  | .lockLifecycle => 0
  | .setFlag => 1
  | .unlockLifecycle => 2
  | .deregister => 3
  | .setShmFlag => 4
  | .cancelWork => 5
  | .abortWaiters => 6
  | .downWrite => 7
  | .rmCallback => 8
  | .freeIrq => 9
  | .clearDrvdata => 10
  | .deinit => 11
  | .upWrite => 12
  | .put => 13

/-- The thread that probes and removes the device. -/
inductive MainPc
  | alloc
  | resource
  | mapRegisters
  | shared
  | getIrq
  | init
  | requestIrq
  | register
  | callback
  /-- `probe` has returned 0. -/
  | bound
  | errIrq (ret : ℤ)
  | errDeinit (ret : ℤ)
  | errPut (ret : ℤ)
  | teardown (removal : Bool) (pc : TeardownPc)
  /-- The driver core is about to undo the mappings. -/
  | devres (ret : ℤ)
  | unbound (ret : ℤ)

inductive OpenPc
  | lock
  | test
  | get
  | unlock (ret : ℤ)
  deriving DecidableEq

/-- An ioctl or a `poll`; `gone` when it finds the device shut down. -/
inductive CallPc
  | enter (poll : Bool)
  | test
  | body
  | retest
  | leave (gone : Bool)
  deriving DecidableEq

inductive ReleasePc
  | enter
  | test
  | shm
  | leave
  | put
  deriving DecidableEq

inductive FilePc
  | opened (calls : List CallPc)
  | releasing (pc : ReleasePc)

structure State where
  memory : Part → Memory
  refcount : ℕ
  /-- `ndev->shm` is not null. -/
  shm : Bool
  shuttingDown : Bool
  /-- `shutting_down` of the transport. -/
  shmShuttingDown : Bool
  /-- The shutdown of the transport has cancelled the work. -/
  shmComplete : Bool
  cmdqu : Bool
  drvdata : Bool
  irq : Bool
  misc : Bool
  callback : Bool
  main : MainPc
  /-- The `open` that the kernel lets in. -/
  opening : Option OpenPc
  files : List FilePc
  /-- `rtos_irq_handler` runs. -/
  handler : Bool
  workPending : Bool
  /-- `kick_work` runs. -/
  work : Bool
  /-- Something was used that was not there, or released twice. -/
  faulty : Bool

/-! ## Memory -/

namespace State

def use (s : State) (parts : List Part) : State :=
  { s with faulty := s.faulty || parts.any fun part => s.memory part ≠ .live }

def acquire (s : State) (part : Part) : State :=
  { s with memory := Function.update s.memory part .live }

/-- `kfree` and its kin. -/
def release (s : State) (part : Part) : State :=
  { s.use [part] with memory := Function.update s.memory part .gone }

/-- The transport must not be freed under its work. -/
def releaseShm (s : State) : State :=
  let t := ((s.release .rxBatch).release .txBatch).release .transport
  { t with faulty := t.faulty || s.work || s.workPending }

/-- `sg2002_rtos_shm_linux_destroy`. -/
def destroy (s : State) : State :=
  if s.shm then
    if s.shmComplete then (s.use [.transport]).releaseShm
    else
      { s.use [.transport, .region] with
        shmShuttingDown := true
        shmComplete := true
        workPending := false }.releaseShm
  else s

/-- `kref_put` with `cvi_rtos_cmdqu_device_release`. -/
def put (s : State) : State :=
  let t := { s.use [.device] with refcount := s.refcount - 1 }
  if t.refcount = 0 then t.destroy.release .device else t

end State

/-! ## `probe` and `remove` -/

/-- What the module parameters and the device tree say. -/
structure Config where
  hasRegisters : Bool
  shmStart : ℕ
  shmSize : ℕ
  /-- The start and the size of the resource `shared-memory`. -/
  sharedMemory : Option (ℕ × ℕ)

structure Allocations where
  transport : Bool
  region : Bool
  txBatch : Bool
  rxBatch : Bool

/-- What the kernel answers to a step of `probe` or `remove`. -/
structure Answer where
  ret : ℤ
  allocated : Bool
  shm : Allocations

/-- The region to use, if any. -/
def Config.shared (config : Config) : Except ℤ (Option (ℕ × ℕ)) :=
  if config.shmStart ≠ 0 ∨ config.shmSize ≠ 0 then
    if config.shmStart = 0 ∨ config.shmSize = 0 then .error (-einval)
    else .ok (some (config.shmStart, config.shmSize))
  else .ok config.sharedMemory

/-- `sg2002_rtos_shm_linux_create`. -/
def create (start size : ℕ) (allocations : Allocations) (s : State) : ℤ × State :=
  if start = 0 ∨ start % Shm.controlSize.toNat ≠ 0 ∨ size ≠ Shm.regionSize.toNat then (-einval, s)
  else if allocations.transport = false then (-enomem, s)
  else
    let s := s.acquire .transport
    if allocations.region = false then (-enomem, s.release .transport)
    else
      let s := s.acquire .region
      if allocations.txBatch = false then (-enomem, s.release .transport)
      else
        let s := s.acquire .txBatch
        if allocations.rxBatch = false then
          (-enomem, (s.release .txBatch).release .transport)
        else (0, { s.acquire .rxBatch with shm := true })

def sharedStep (config : Config) (answer : Answer) (s : State) : State :=
  match config.shared with
  | .error ret => { s with main := .errPut ret }
  | .ok none => { s with main := .getIrq }
  | .ok (some (start, size)) =>
      if size = 0 then { s with main := .getIrq }
      else
        let (ret, t) := create start size answer.shm s
        { t with main := if ret = 0 then .getIrq else .errPut ret }

def CallPc.reading : CallPc → Bool
  | .enter _ => false
  | _ => true

def ReleasePc.reading : ReleasePc → Bool
  | .enter | .put => false
  | _ => true

/-- The file has `file_ops_lock` for reading. -/
def FilePc.reading : FilePc → Bool
  | .opened calls => calls.any CallPc.reading
  | .releasing pc => pc.reading

def OpenPc.inLifecycle : OpenPc → Bool
  | .lock => false
  | _ => true

/-- `lifecycle_lock` is held by `mark_shutdown`. -/
def TeardownPc.inLifecycle : TeardownPc → Bool
  | .setFlag | .unlockLifecycle => true
  | _ => false

/-- `file_ops_lock` is held for writing. -/
def TeardownPc.writing (pc : TeardownPc) : Bool :=
  TeardownPc.downWrite.rank < pc.rank ∧ pc.rank ≤ TeardownPc.upWrite.rank

def MainPc.inLifecycle : MainPc → Bool
  | .teardown _ pc => pc.inLifecycle
  | _ => false

def MainPc.writing : MainPc → Bool
  | .teardown _ pc => pc.writing
  | _ => false

def teardownStep (removal : Bool) (answer : Answer) (s : State) : TeardownPc → Option State
  | .lockLifecycle =>
      if s.opening.any OpenPc.inLifecycle then none
      else some { s.use [.device] with main := .teardown removal .setFlag }
  | .setFlag =>
      some { s.use [.device] with
        shuttingDown := true
        main := .teardown removal .unlockLifecycle }
  | .unlockLifecycle => some { s.use [.device] with main := .teardown removal .deregister }
  | .deregister =>
      if s.opening.isSome then none
      else some { s.use [.device] with misc := false, main := .teardown removal .setShmFlag }
  | .setShmFlag =>
      if s.shm then
        some { s.use [.device, .transport] with
          shmShuttingDown := true
          main := .teardown removal .cancelWork }
      else some { s.use [.device] with main := .teardown removal .abortWaiters }
  -- The rest of the shutdown, which waits for the work that runs.
  | .cancelWork =>
      if s.work then none
      else some { s.use [.transport, .region] with
        workPending := false
        shmComplete := true
        main := .teardown removal .abortWaiters }
  | .abortWaiters => some { s with main := .teardown removal .downWrite }
  | .downWrite =>
      if s.files.any FilePc.reading then none
      else some { s.use [.device] with
        main := .teardown removal (if removal then .rmCallback else .freeIrq) }
  | .rmCallback =>
      some { s with
        callback := if answer.ret = 0 then false else s.callback
        main := .teardown removal .freeIrq }
  | .freeIrq =>
      if s.handler then none
      else some { s with irq := false, main := .teardown removal .clearDrvdata }
  | .clearDrvdata => some { s with drvdata := false, main := .teardown removal .deinit }
  | .deinit => some { s with cmdqu := false, main := .teardown removal .upWrite }
  | .upWrite => some { s.use [.device] with main := .teardown removal .put }
  | .put => some { s.put with main := .devres (if removal then 0 else -einval) }

def mainStep (config : Config) (answer : Answer) (s : State) : Option State :=
  match s.main with
  | .alloc =>
      if answer.allocated then
        some { s.acquire .device with refcount := 1, main := .resource }
      else some { s with main := .devres (-enomem) }
  | .resource =>
      some { s with main := if config.hasRegisters then .mapRegisters else .errPut (-enodev) }
  | .mapRegisters =>
      if answer.allocated then some { s.acquire .registers with main := .shared }
      else some { s with main := .errPut (-enomem) }
  | .shared => some (sharedStep config answer (s.use [.device]))
  | .getIrq => some { s with main := if answer.ret < 0 then .errPut answer.ret else .init }
  | .init => some { s with cmdqu := true, drvdata := true, main := .requestIrq }
  | .requestIrq =>
      if answer.ret ≠ 0 then some { s with main := .errDeinit answer.ret }
      else some { s with irq := true, main := .register }
  | .register =>
      if answer.ret < 0 then some { s.use [.device] with main := .errIrq answer.ret }
      else some { s.use [.device] with misc := true, main := .callback }
  | .callback =>
      if answer.ret ≠ 0 then some { s with main := .teardown false .lockLifecycle }
      else some { s with callback := true, main := .bound }
  | .bound => none
  | .errIrq ret =>
      if s.handler then none else some { s with irq := false, main := .errDeinit ret }
  | .errDeinit ret => some { s with drvdata := false, cmdqu := false, main := .errPut ret }
  | .errPut ret => some { s.put with main := .devres ret }
  | .teardown removal pc => teardownStep removal answer s pc
  | .devres ret =>
      some { s with
        memory := Function.update (Function.update s.memory .registers .gone) .region .gone
        main := .unbound ret }
  | .unbound _ => none

/-! ## The file operations -/

def openStep (s : State) : OpenPc → Option State
  | .lock =>
      if s.main.inLifecycle then none else some { s.use [.device] with opening := some .test }
  | .test =>
      some { s.use [.device] with
        opening := some (if s.shuttingDown then .unlock (-enodev) else .get) }
  | .get =>
      some { s.use [.device] with refcount := s.refcount + 1, opening := some (.unlock 0) }
  | .unlock ret =>
      some { s.use [.device] with
        opening := none
        files := if ret = 0 then s.files ++ [.opened []] else s.files }

/-- What the body of a call does next. -/
structure Access where
  registers : Bool
  shm : Bool
  /-- `request_kick` finds the mailbox busy. -/
  schedule : Bool

inductive Choice
  /-- A signal ends the wait for the lock. -/
  | kill
  | access (access : Access)
  | go

def bodyAccess (access : Access) (s : State) : State :=
  let s := s.use (.device :: if access.registers then [.registers] else [])
  if access.shm ∧ s.shm then
    { s.use (.region :: shmParts) with
      workPending := s.workPending || access.schedule && !s.shmComplete }
  else s

/-- Nothing is left of a call that has returned. -/
def callStep (choice : Choice) (s : State) : CallPc → Option (Option CallPc × State)
  | .enter poll =>
      match choice, poll with
      | .kill, false => some (none, s.use [.device])
      | _, _ => if s.main.writing then none else some (some .test, s.use [.device])
  | .test => some (some (if s.shuttingDown then .leave true else .body), s.use [.device])
  | .body =>
      match choice with
      | .access access => some (some .body, bodyAccess access s)
      | _ => some (some .retest, s)
  | .retest => some (some (.leave s.shuttingDown), s.use [.device])
  | .leave _ => some (none, s.use [.device])

/-- Nothing is left of a file that has been released. -/
def releaseStep (owner : Bool) (s : State) : ReleasePc → Option (Option ReleasePc × State)
  | .enter => if s.main.writing then none else some (some .test, s.use [.device])
  | .test => some (some (if s.shuttingDown then .leave else .shm), s.use [.device])
  | .shm =>
      some (some .leave,
        if s.shm then
          if owner ∧ s.shmShuttingDown = false then s.use [.device, .transport, .region]
          else s.use [.device, .transport]
        else s.use [.device])
  | .leave => some (some .put, s.use [.device])
  | .put => some (none, s.put)

/-! ## The system -/

inductive Label
  | main (answer : Answer)
  | remove
  | openCall
  | open
  | call (file : ℕ) (poll : Bool)
  | callStep (file call : ℕ) (choice : Choice)
  | close (file : ℕ)
  | release (file : ℕ) (owner : Bool)
  | interrupt
  /-- The handler uses the device, and the transport for a doorbell. -/
  | handler (doorbell : Bool)
  | handled
  | workRun
  /-- The work kicks; `again` when it schedules itself. -/
  | workKick (again : Bool)
  | workDone

def step (config : Config) : Label → State → Option State
  | .main answer, s => mainStep config answer s
  | .remove, s =>
      match s.main with
      | .bound => some { s with main := .teardown true .lockLifecycle }
      | _ => none
  | .openCall, s =>
      if s.misc ∧ s.opening = none then some { s with opening := some .lock } else none
  | .open, s => s.opening.bind (openStep s)
  | .call i poll, s =>
      match s.files[i]? with
      | some (.opened calls) =>
          some { s with files := s.files.set i (.opened (calls ++ [.enter poll])) }
      | _ => none
  | .callStep i j choice, s =>
      match s.files[i]? with
      | some (.opened calls) =>
          match calls[j]? with
          | none => none
          | some pc =>
              (callStep choice s pc).map fun (pc?, t) =>
              { t with files := s.files.set i (.opened (advance calls j pc?)) }
      | _ => none
  | .close i, s =>
      match s.files[i]? with
      | some (.opened []) => some { s with files := s.files.set i (.releasing .enter) }
      | _ => none
  | .release i owner, s =>
      match s.files[i]? with
      | some (.releasing pc) =>
          (releaseStep owner s pc).map fun (pc?, t) =>
            { t with files := advance s.files i (pc?.map .releasing) }
      | _ => none
  | .interrupt, s => if s.irq ∧ s.handler = false then some { s with handler := true } else none
  | .handler doorbell, s =>
      if s.handler then
        some (s.use ([.device, .registers] ++ if doorbell ∧ s.shm then [.transport] else []))
      else none
  | .handled, s => if s.handler then some { s with handler := false } else none
  | .workRun, s =>
      if s.workPending ∧ s.work = false then
        some { s with workPending := false, work := true }
      else none
  | .workKick again, s =>
      if s.work then
        some { s.use [.transport, .registers] with workPending := s.workPending || again }
      else none
  | .workDone, s => if s.work then some { s with work := false } else none

/-- The driver core calls `probe`. -/
def State.initial : State where
  memory _ := .unused
  refcount := 0
  shm := false
  shuttingDown := false
  shmShuttingDown := false
  shmComplete := false
  cmdqu := false
  drvdata := false
  irq := false
  misc := false
  callback := false
  main := .alloc
  opening := none
  files := []
  handler := false
  workPending := false
  work := false
  faulty := false

def system (config : Config) : System State Label := ⟨(· = State.initial), step config⟩

end Sg200x.Ipc.Lifecycle
