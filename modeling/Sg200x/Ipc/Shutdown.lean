import Sg200x.Ipc.Acquire
import Sg200x.Ipc.Poll
import Sg200x.Library.LockOrder
import Sg200x.Library.Transition

/-!
# Shutting the driver down

`sg2002_rtos_shm_linux_shutdown` against any number of threads in the other calls and
`kick_work`.  Each access is a step, and so is each time a lock is taken or given back; a
thread that waits for a lock is in the queue of the lock.  The accesses that a driver
that is shut down must not make any more are recorded.
-/

namespace Sg200x.Ipc.Shutdown

open Shm RingCore Driver Library Library.Transition

/-! ## The accesses that are recorded -/

inductive Effect
  | regionWrite
  /-- The kick callback. -/
  | kick
  | schedule
  | setOwner
  | setGeneration
  deriving DecidableEq

def kickEffects : KickPc → List Effect
  | .kickNow => [.kick]
  | .schedule => [.schedule]
  | _ => []

def txEffects : TxPc → List Effect
  | .copySlot _ _ _ | .publish _ _ => [.regionWrite]
  | .kick pc => kickEffects pc
  | _ => []

def rxEffects : RxPc → List Effect
  | .publish _ _ _ => [.regionWrite]
  | .kick _ pc => kickEffects pc
  | _ => []

def acquireEffects : AcquirePc → List Effect
  | .setOwner _ _ => [.setOwner]
  | .offline _ | .clearMagic _ | .clear _ _ (_ :: _) => [.regionWrite]
  | .clearGeneration _ | .init _ (.generation :: _) => [.setGeneration]
  | .init _ (.nextSequence :: _) => []
  | .init _ (_ :: _) => [.regionWrite]
  | .quiesceKick _ _ pc | .kick pc => kickEffects pc
  | _ => []

def releaseEffects : ReleasePc → List Effect
  | .offline => [.regionWrite]
  | .clearOwner => [.setOwner]
  | _ => []

/-! ## `kick_work` -/

inductive WorkPc
  | shuttingDown
  | owner
  | kickNow
  | resetAttempts
  | countAttempt
  | stillRunning
  | stillOwned
  | schedule
  deriving DecidableEq

def kickMaxAttempts : ℕ := 100

def workStep (answer : Answer) (transport : Transport) : WorkPc → Outcome WorkPc Unit × Transport
  | .shuttingDown =>
      (if transport.shuttingDown then .returned () else .running .owner, transport)
  | .owner => (if transport.owner.isSome then .running .kickNow else .returned (), transport)
  | .kickNow =>
      (.running (if answer = .busy then .countAttempt else .resetAttempts), transport)
  | .resetAttempts => (.returned (), { transport with kickAttempts := 0 })
  | .countAttempt =>
      (if transport.kickAttempts + 1 < kickMaxAttempts then .running .stillRunning
        else .returned (), { transport with kickAttempts := transport.kickAttempts + 1 })
  | .stillRunning =>
      (if transport.shuttingDown then .returned () else .running .stillOwned, transport)
  | .stillOwned => (if transport.owner.isSome then .running .schedule else .returned (), transport)
  | .schedule => (.returned (), { transport with kickScheduled := true })

def workEffects : WorkPc → List Effect
  | .kickNow => [.kick]
  | .schedule => [.schedule]
  | _ => []

/-! ## The state -/

inductive Request
  | acquire
  | tx (call : TxCall)
  | rx (call : RxCall)

/-- The tests of `shutting_down` by the ioctl and by `is_owner`, and the one of the owner. -/
inductive ArrivalPc
  | ioctl
  | shuttingDown
  | owner

/-- A call that goes on; `blocked` when the flag was set while it waited for an event or
for its lock. -/
structure Ongoing (κ : Type) where
  file : File
  blocked : Bool
  pc : κ

inductive HolderPc
  | acquire (pc : AcquirePc)
  | release (pc : ReleasePc)

/-- A shutdown before it has `shutdown_lock`. -/
inductive CloserPc
  | setFlag
  | wake
  | lock
  deriving DecidableEq

/-- The shutdown that holds `shutdown_lock`. -/
inductive ClosingPc
  | testComplete
  | lockOwner
  | lockRx
  | lockTx
  /-- `cancel_delayed_work_sync`. -/
  | cancelWork
  | offline
  | clearOwner
  | clearGeneration
  | wake
  | unlockTx
  | unlockRx
  | unlockOwner
  | setComplete
  | unlock
  deriving DecidableEq

/-- The place of a step in the order of the function. -/
def ClosingPc.rank : ClosingPc → ℕ
  | .testComplete => 0
  | .lockOwner => 1
  | .lockRx => 2
  | .lockTx => 3
  | .cancelWork => 4
  | .offline => 5
  | .clearOwner => 6
  | .clearGeneration => 7
  | .wake => 8
  | .unlockTx => 9
  | .unlockRx => 10
  | .unlockOwner => 11
  | .setComplete => 12
  | .unlock => 13

def ClosingPc.holdsOwner (pc : ClosingPc) : Bool := 2 ≤ pc.rank ∧ pc.rank ≤ 11
def ClosingPc.holdsRx (pc : ClosingPc) : Bool := 3 ≤ pc.rank ∧ pc.rank ≤ 10
def ClosingPc.holdsTx (pc : ClosingPc) : Bool := 4 ≤ pc.rank ∧ pc.rank ≤ 9

def closingEffects : ClosingPc → List Effect
  | .offline => [.regionWrite]
  | .clearOwner => [.setOwner]
  | .clearGeneration => [.setGeneration]
  | _ => []

structure State where
  transport : Transport
  region : Region
  /-- The calls that are being tested. -/
  arrivals : List (File × Request × ArrivalPc)
  /-- The ACQUIREs that wait for `owner_lock`. -/
  ownerQueue : List File
  holder : Option (Ongoing HolderPc)
  /-- The ACQUIREs after their unlock, and the releases that wait for `owner_lock`. -/
  outside : List (Ongoing OutsidePc)
  txQueue : List (File × TxCall)
  tx : Option (TxCall × Ongoing TxPc)
  rxQueue : List (File × RxCall)
  rx : Option (RxCall × Ongoing RxPc)
  polls : List (File × PollPc)
  work : Option WorkPc
  closers : List CloserPc
  closing : Option ClosingPc
  shutdownComplete : Bool
  /-- A shutdown has returned. -/
  returned : Bool
  effects : List Effect
  /-- What the calls have returned, and whether they were blocked. -/
  results : List (Bool × Errno)

inductive Label
  | call (file : File) (request : Request)
  | arrive (i : ℕ)
  /-- A signal ends the wait for a lock. -/
  | leaveOwner (i : ℕ)
  | lockOwner (i : ℕ)
  | holder (answer : Answer)
  | close (file : File)
  | outside (i : ℕ) (answer : Answer)
  | leaveTx (i : ℕ)
  | lockTx (i : ℕ)
  | tx (answer : Answer)
  | leaveRx (i : ℕ)
  | lockRx (i : ℕ)
  | rx (answer : Answer)
  | pollCall (file : File)
  | poll (i : ℕ)
  | runWork
  | work (answer : Answer)
  | shutdown
  | closer (i : ℕ)
  | closing
  | notify
  /-- The firmware writes to the region. -/
  | firmware (region : Region)

/-! ## The locks -/

def State.ownerFree (s : State) : Bool := s.holder.isNone && !s.closing.any ClosingPc.holdsOwner
def State.txFree (s : State) : Bool := s.tx.isNone && !s.closing.any ClosingPc.holdsTx
def State.rxFree (s : State) : Bool := s.rx.isNone && !s.closing.any ClosingPc.holdsRx

/-! ## The calls -/

def State.return (s : State) (blocked : Bool) (ret : Errno) : State :=
  { s with results := s.results ++ [(blocked, ret)] }

def arriveStep (s : State) (i : ℕ) : Option State :=
  match s.arrivals[i]? with
  | none => none
  | some (file, request, pc) =>
      let t := { s with arrivals := s.arrivals.eraseIdx i }
      match pc with
      | .ioctl =>
          if s.transport.shuttingDown then some (t.return false .enodev)
          else
            match request with
            | .acquire => some { t with ownerQueue := s.ownerQueue ++ [file] }
            | request => some { s with arrivals := s.arrivals.set i (file, request, .shuttingDown) }
      | .shuttingDown =>
          if s.transport.shuttingDown then some (t.return false .eperm)
          else some { s with arrivals := s.arrivals.set i (file, request, .owner) }
      | .owner =>
          if s.transport.owner = some file then
            match request with
            | .acquire => some { t with ownerQueue := s.ownerQueue ++ [file] }
            | .tx call => some { t with txQueue := s.txQueue ++ [(file, call)] }
            | .rx call => some { t with rxQueue := s.rxQueue ++ [(file, call)] }
          else some (t.return false .eperm)

def holderStep (s : State) (answer : Answer) : Option State :=
  match s.holder with
  | none => none
  | some ⟨file, blocked, .acquire pc⟩ =>
      let (out, transport, region) := acquireStep file answer s.transport s.region pc
      let t := { s with transport, region, effects := s.effects ++ acquireEffects pc }
      match out with
      | .running pc' => some { t with holder := some ⟨file, blocked, .acquire pc'⟩ }
      | .returned (.failed ret) => some (State.return { t with holder := none } blocked ret)
      | .returned (.release ret) =>
          some (State.return { t with
            holder := none
            outside := s.outside ++ [⟨file, false, .release⟩] } blocked ret)
      | .returned .ready =>
          some { t with
            holder := none
            outside := s.outside ++ [⟨file, blocked, .ready .done .start⟩] }
  | some ⟨file, blocked, .release pc⟩ =>
      let (out, transport, region) := releaseStep file s.transport s.region pc
      some { s with
        transport
        region
        effects := s.effects ++ releaseEffects pc
        holder := out.pc?.map fun pc' => ⟨file, blocked, .release pc'⟩ }

/-- What an ACQUIRE returns that goes on to release the channel. -/
def releaseErrno : OutsidePc → Errno
  | .ready .expired _ => .etimedout
  | .ready _ _ => .erestartsys
  | _ => .efault

def outsideStep (s : State) (i : ℕ) (answer : Answer) : Option State :=
  match s.outside[i]? with
  | none => none
  | some ⟨file, _, .release⟩ =>
      if s.ownerFree then
        some { s with
          holder := some ⟨file, false, .release .owner⟩
          outside := s.outside.eraseIdx i }
      else none
  | some ⟨file, blocked, pc⟩ =>
      match Driver.outsideStep answer s.transport s.region pc with
      | .running .release =>
          some (State.return { s with outside := s.outside.set i ⟨file, false, .release⟩ } blocked
            (releaseErrno pc))
      | .running pc' => some { s with outside := s.outside.set i ⟨file, blocked, pc'⟩ }
      | .returned ret => some (State.return { s with outside := s.outside.eraseIdx i } blocked ret)

def txStep (s : State) (answer : Answer) : Option State :=
  match s.tx with
  | none => none
  | some (call, ⟨file, blocked, pc⟩) =>
      let (out, transport, region) := Driver.txStep call answer s.transport s.region pc
      let t := { s with transport, region, effects := s.effects ++ txEffects pc }
      match out with
      | .running pc' => some { t with tx := some (call, ⟨file, blocked, pc'⟩) }
      | .returned ret => some (State.return { t with tx := none } blocked ret)

def rxStep (s : State) (answer : Answer) : Option State :=
  match s.rx with
  | none => none
  | some (call, ⟨file, blocked, pc⟩) =>
      let (out, transport, region) := Driver.rxStep call answer s.transport s.region pc
      let t := { s with transport, region, effects := s.effects ++ rxEffects pc }
      match out with
      | .running pc' => some { t with rx := some (call, ⟨file, blocked, pc'⟩) }
      | .returned ret => some (State.return { t with rx := none } blocked ret)

/-! ## `sg2002_rtos_shm_linux_shutdown` -/

def holderWaits : HolderPc → Bool
  | .acquire (.wait _ _) => true
  | _ => false

def outsideWaits : OutsidePc → Bool
  | .asleep => true
  | _ => false

def txWaits : TxPc → Bool
  | .wait => true
  | _ => false

def rxWaits : RxPc → Bool
  | .wait => true
  | _ => false

/-- The call is in a wait when the flag is set. -/
def Ongoing.mark {κ : Type} (waits : κ → Bool) (call : Ongoing κ) : Ongoing κ :=
  { call with blocked := call.blocked || waits call.pc }

def State.setFlag (s : State) : State :=
  { s with
    transport := { s.transport with shuttingDown := true }
    holder := s.holder.map (Ongoing.mark holderWaits)
    outside := s.outside.map (Ongoing.mark outsideWaits)
    tx := s.tx.map fun (call, ongoing) => (call, ongoing.mark txWaits)
    rx := s.rx.map fun (call, ongoing) => (call, ongoing.mark rxWaits) }

def closerStep (s : State) (i : ℕ) : Option State :=
  match s.closers[i]? with
  | none => none
  | some .setFlag => some { s.setFlag with closers := s.closers.set i .wake }
  | some .wake => some { s with closers := s.closers.set i .lock }
  | some .lock =>
      match s.closing with
      | none => some { s with closers := s.closers.eraseIdx i, closing := some .testComplete }
      | some _ => none

def closingStep (s : State) : Option State :=
  match s.closing with
  | none => none
  | some pc =>
      let t := { s with effects := s.effects ++ closingEffects pc }
      match pc with
      | .testComplete =>
          some { t with closing := some (if s.shutdownComplete then .unlock else .lockOwner) }
      | .lockOwner => if s.holder.isNone then some { t with closing := some .lockRx } else none
      | .lockRx => if s.rx.isNone then some { t with closing := some .lockTx } else none
      | .lockTx => if s.tx.isNone then some { t with closing := some .cancelWork } else none
      | .cancelWork =>
          if s.work.isNone then
            some { t with
              transport := { s.transport with kickScheduled := false }
              closing := some .offline }
          else none
      | .offline =>
          let linuxPeer := { s.region.linuxPeer with state := stateOffline }
          some { t with region := { s.region with linuxPeer }, closing := some .clearOwner }
      | .clearOwner =>
          some { t with
            transport := { s.transport with owner := none }
            closing := some .clearGeneration }
      | .clearGeneration =>
          some { t with
            transport := { s.transport with generation := 0#32 }
            closing := some .wake }
      | .wake => some { t with closing := some .unlockTx }
      | .unlockTx => some { t with closing := some .unlockRx }
      | .unlockRx => some { t with closing := some .unlockOwner }
      | .unlockOwner => some { t with closing := some .setComplete }
      | .setComplete => some { t with closing := some .unlock, shutdownComplete := true }
      | .unlock => some { t with closing := none, returned := true }

/-! ## The system -/

def step : Label → State → Option State
  | .call file request, s => some { s with arrivals := s.arrivals ++ [(file, request, .ioctl)] }
  | .arrive i, s => arriveStep s i
  | .leaveOwner i, s =>
      match s.ownerQueue[i]? with
      | none => none
      | some _ =>
          some (State.return { s with ownerQueue := s.ownerQueue.eraseIdx i }
            s.transport.shuttingDown .erestartsys)
  | .lockOwner i, s =>
      match s.ownerQueue[i]? with
      | none => none
      | some file =>
          if s.ownerFree then
            some { s with
              ownerQueue := s.ownerQueue.eraseIdx i
              holder := some ⟨file, s.transport.shuttingDown, .acquire .shuttingDown⟩ }
          else none
  | .holder answer, s => holderStep s answer
  | .close file, s => some { s with outside := s.outside ++ [⟨file, false, .release⟩] }
  | .outside i answer, s => outsideStep s i answer
  | .leaveTx i, s =>
      match s.txQueue[i]? with
      | none => none
      | some _ =>
          some (State.return { s with txQueue := s.txQueue.eraseIdx i }
            s.transport.shuttingDown .erestartsys)
  | .lockTx i, s =>
      match s.txQueue[i]? with
      | none => none
      | some (file, call) =>
          if s.txFree then
            match call.enter with
            | .running pc =>
                some { s with
                  txQueue := s.txQueue.eraseIdx i
                  tx := some (call, ⟨file, s.transport.shuttingDown, pc⟩) }
            | .returned ret =>
                some (State.return { s with txQueue := s.txQueue.eraseIdx i }
                  s.transport.shuttingDown ret)
          else none
  | .tx answer, s => txStep s answer
  | .leaveRx i, s =>
      match s.rxQueue[i]? with
      | none => none
      | some _ =>
          some (State.return { s with rxQueue := s.rxQueue.eraseIdx i }
            s.transport.shuttingDown .erestartsys)
  | .lockRx i, s =>
      match s.rxQueue[i]? with
      | none => none
      | some (file, call) =>
          if s.rxFree then
            match call.enter with
            | .running pc =>
                some { s with
                  rxQueue := s.rxQueue.eraseIdx i
                  rx := some (call, ⟨file, s.transport.shuttingDown, pc⟩) }
            | .returned ret =>
                some (State.return { s with rxQueue := s.rxQueue.eraseIdx i }
                  s.transport.shuttingDown ret)
          else none
  | .rx answer, s => rxStep s answer
  | .pollCall file, s => some { s with polls := s.polls ++ [(file, .shuttingDown)] }
  | .poll i, s =>
      match s.polls[i]? with
      | none => none
      | some (file, pc) =>
          match pollStep file s.transport s.region pc with
          | .running pc' => some { s with polls := s.polls.set i (file, pc') }
          | .returned _ => some { s with polls := s.polls.eraseIdx i }
  | .runWork, s =>
      if s.transport.kickScheduled ∧ s.work = none then
        some { s with
          transport := { s.transport with kickScheduled := false }
          work := some .shuttingDown }
      else none
  | .work answer, s =>
      match s.work with
      | none => none
      | some pc =>
          let (out, transport) := workStep answer s.transport pc
          some { s with transport, work := out.pc?, effects := s.effects ++ workEffects pc }
  | .shutdown, s => some { s with closers := s.closers ++ [.setFlag] }
  | .closer i, s => closerStep s i
  | .closing, s => closingStep s
  | .notify, s =>
      if s.transport.shuttingDown then some s
      else some { s with
        transport := { s.transport with notifications := s.transport.notifications + 1#32 } }
  | .firmware region, s => some { s with region := region }

/-- `sg2002_rtos_shm_linux_create` has returned; the region holds whatever was left in it. -/
def State.initial (region : Region) : State where
  transport := ⟨none, 0#32, 0#32, 0#32, 0, false, false⟩
  region := region
  arrivals := []
  ownerQueue := []
  holder := none
  outside := []
  txQueue := []
  tx := none
  rxQueue := []
  rx := none
  polls := []
  work := none
  closers := []
  closing := none
  shutdownComplete := false
  returned := false
  effects := []
  results := []

def system : System State Label := ⟨fun s => ∃ region, s = State.initial region, step⟩

/-! ## Who waits for whom -/

inductive Thread
  | closer (i : ℕ)
  | closing
  | ownerQueue (i : ℕ)
  | holder
  | outside (i : ℕ)
  | txQueue (i : ℕ)
  | tx
  | rxQueue (i : ℕ)
  | rx
  | work

/-- The locks, and the work that `cancel_delayed_work_sync` waits for. -/
inductive Lock
  | shutdown
  | owner
  | rx
  | tx
  | work
  deriving DecidableEq

/-- The order in which a shutdown takes them. -/
def Lock.rank : Lock → ℕ
  | .shutdown => 0
  | .owner => 1
  | .rx => 2
  | .tx => 3
  | .work => 4

instance : Preorder Lock := Preorder.lift Lock.rank

def ClosingPc.waits : ClosingPc → Option Lock
  | .lockOwner => some .owner
  | .lockRx => some .rx
  | .lockTx => some .tx
  | .cancelWork => some .work
  | _ => none

def ClosingPc.holds (pc : ClosingPc) : Lock → Bool
  | .shutdown => true
  | .owner => pc.holdsOwner
  | .rx => pc.holdsRx
  | .tx => pc.holdsTx
  | .work => false

def State.waits (s : State) : Thread → Lock → Prop
  | .closer i, lock => s.closers[i]? = some .lock ∧ lock = .shutdown
  | .closing, lock => ∃ pc, s.closing = some pc ∧ pc.waits = some lock
  | .ownerQueue i, lock => i < s.ownerQueue.length ∧ lock = .owner
  | .outside i, lock => s.outside[i]?.map Ongoing.pc = some .release ∧ lock = .owner
  | .txQueue i, lock => i < s.txQueue.length ∧ lock = .tx
  | .rxQueue i, lock => i < s.rxQueue.length ∧ lock = .rx
  | _, _ => False

def State.holds (s : State) : Thread → Lock → Prop
  | .closing, lock => ∃ pc, s.closing = some pc ∧ pc.holds lock
  | .holder, lock => s.holder.isSome ∧ lock = .owner
  | .tx, lock => s.tx.isSome ∧ lock = .tx
  | .rx, lock => s.rx.isSome ∧ lock = .rx
  | .work, lock => s.work.isSome ∧ lock = .work
  | _, _ => False

/-- Only a shutdown waits for a lock while it holds another one. -/
theorem ordered (s : State) : LockOrder.Ordered s.waits s.holds := by
  intro thread lock held hwaits hholds
  cases thread with
  | closing =>
      obtain ⟨pc, hpc, hwaits⟩ := hwaits
      obtain ⟨pc', hpc', hholds⟩ := hholds
      obtain rfl : pc = pc' := Option.some.inj (hpc.symm.trans hpc')
      change held.rank < lock.rank
      cases pc <;> cases hwaits <;> cases held <;> first | decide | cases hholds
  | closer | ownerQueue | outside | txQueue | rxQueue => exact hholds.elim
  | holder | tx | rx | work => exact hwaits.elim

end Sg200x.Ipc.Shutdown
