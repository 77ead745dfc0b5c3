import Sg200x.Ipc.RingCore

/-!
# The Linux side of the transport

`sg2002_rtos_shm_linux.c`: the tests and the calls that use an established channel.
A call is a program counter from the moment it holds its lock; a step makes the
call's next access to shared memory or to a variable that other threads write.  What
the call gets from its surroundings (the copies from and to the user, the end of a
wait, the kick) is the step's answer.
-/

namespace Sg200x.Ipc.Driver

open Shm RingCore

/-- A `struct file` pointer. -/
abbrev File := ℕ

inductive Errno
  | ok
  | eperm
  | efault
  | einval
  | emsgsize
  | erestartsys
  | enotconn
  | eproto
  | eagain
  | etimedout
  | estale
  | enodev
  | ebusy
  deriving DecidableEq

/-- `struct sg2002_rtos_shm_linux`, without what is set once.  The locks belong to
the systems built from the calls. -/
structure Transport where
  owner : Option File
  generation : U32
  nextSequence : U32
  notifications : U32
  kickAttempts : ℕ
  /-- `kick_work` is scheduled. -/
  kickScheduled : Bool
  shuttingDown : Bool
  deriving DecidableEq

/-- `is_owner`. -/
def isOwner (transport : Transport) (file : File) : Bool :=
  !transport.shuttingDown && transport.owner == some file

inductive Answer
  | done
  /-- A copy from or to the user failed. -/
  | fault
  /-- The time of a wait ran out. -/
  | expired
  /-- A signal ended a wait. -/
  | interrupted
  /-- The kick returned an error. -/
  | busy
  deriving DecidableEq

/-! ## `rtos_ready` -/

/-- The fields `layout_valid` reads. -/
def layoutValid : List LayoutRead :=
  [.magic, .abiVersion, .controlSize, .regionSize, .slotSize, .slotCount, .requestOffset,
    .responseOffset]

inductive ReadyRead
  | shuttingDown
  | layout (read : LayoutRead)
  | generation
  | layoutGeneration
  | linuxState
  | linuxGeneration
  | rtosState
  | rtosGeneration
  deriving DecidableEq

def rtosReady : List ReadyRead :=
  .shuttingDown :: layoutValid.map .layout ++
    [.generation, .layoutGeneration, .linuxState, .linuxGeneration, .rtosState, .rtosGeneration]

/-- The comparison of one read; `generation` is the local variable, which the read of
`transport->generation` sets. -/
def ReadyRead.passes (transport : Transport) (region : Region) (generation : U32) :
    ReadyRead → Bool
  | .shuttingDown => !transport.shuttingDown
  | .layout read => read.passes region.layout generation
  | .generation => transport.generation != 0#32
  | .layoutGeneration => region.layout.generation == generation
  | .linuxState => region.linuxPeer.state == stateReady
  | .linuxGeneration => region.linuxPeer.generation == generation
  | .rtosState => region.rtosPeer.state == stateReady
  | .rtosGeneration => region.rtosPeer.generation == generation

structure ReadyPc where
  reads : List ReadyRead
  generation : U32

def ReadyPc.start : ReadyPc := ⟨rtosReady, 0#32⟩

def readyStep (transport : Transport) (region : Region) (pc : ReadyPc) : Outcome ReadyPc Bool :=
  match pc.reads with
  | [] => .returned true
  | read :: reads =>
      if read.passes transport region pc.generation then
        .running ⟨reads, if read = .generation then transport.generation else pc.generation⟩
      else .returned false

/-! ## `request_kick` -/

inductive KickPc
  | shuttingDown
  | resetAttempts
  | kickNow
  | schedule
  deriving DecidableEq

def kickStep (answer : Answer) (transport : Transport) : KickPc → Outcome KickPc Unit × Transport
  | .shuttingDown =>
      (if transport.shuttingDown then .returned () else .running .resetAttempts, transport)
  | .resetAttempts => (.running .kickNow, { transport with kickAttempts := 0 })
  | .kickNow => (if answer = .busy then .running .schedule else .returned (), transport)
  | .schedule => (.returned (), { transport with kickScheduled := true })

/-! ## `send_message` and `submit_batch` -/

/-- The arguments of a call on the request ring.  Only a batch names a generation. -/
structure TxCall where
  batchGeneration : Option U32
  messages : List Slot
  /-- `timeout_ms == 0U`. -/
  noWait : Bool

def sendMessage (message : Slot) (noWait : Bool) : TxCall := ⟨none, [message], noWait⟩

def submitBatch (generation : U32) (slots : List Slot) (noWait : Bool) : TxCall :=
  ⟨some generation, slots, noWait⟩

/-- `expired` is `remaining == 0L`. -/
inductive TxPc
  | stale (expired : Bool)
  | ready (expired : Bool) (pc : ReadyPc)
  | readProducer (expired : Bool)
  | readConsumer (expired : Bool) (producer : U32)
  | wait
  | sequence (producer : U32) (completed : ℕ)
  | copyOut (producer : U32) (stamped : List Slot)
  | restale (producer : U32) (stamped : List Slot)
  | reready (producer : U32) (stamped : List Slot) (pc : ReadyPc)
  | copySlot (producer : U32) (stamped : List Slot) (index : ℕ)
  | publish (producer : U32) (stamped : List Slot)
  | kick (pc : KickPc)

/-- The head of the loop that waits for room. -/
def TxCall.loop (call : TxCall) (expired : Bool) : TxPc :=
  if call.batchGeneration.isSome then .stale expired else .ready expired .start

/-- The checks of the arguments. -/
def TxCall.enter (call : TxCall) : Outcome TxPc Errno :=
  if call.messages = [] ∨ slotCount < call.messages.length then .returned .einval
  else if ∀ message ∈ call.messages, message.Fits then .running (call.loop call.noWait)
  else .returned .emsgsize

/-- `do { sequence = next_sequence++; } while (sequence == 0U)`: the sequence and the
new `next_sequence`. -/
def takeSequence (next : U32) : U32 × U32 :=
  if next = 0#32 then (1#32, 2#32) else (next, next + 1#32)

/-- The sequences of a batch, taken in order. -/
def stamp (next : U32) : List Slot → List Slot × U32
  | [] => ([], next)
  | message :: messages =>
      let (sequence, next) := takeSequence next
      let (stamped, next) := stamp next messages
      ({ message with sequence := sequence } :: stamped, next)

/-- What a ring that is full answers once the time to wait is over. -/
def outOfTime (noWait : Bool) : Errno := if noWait then .eagain else .etimedout

/-- The answer of a wait; a wait that ends for its condition or for its time leads back
to the tests it waits for. -/
def waitEnd {κ : Type} (answer : Answer) (loop : Bool → κ) : Outcome κ Errno :=
  if answer = .interrupted then .returned .erestartsys else .running (loop (answer = .expired))

def txStep (call : TxCall) (answer : Answer) (transport : Transport) (region : Region) :
    TxPc → Outcome TxPc Errno × Transport × Region
  | .stale expired =>
      (if call.batchGeneration = some transport.generation then .running (.ready expired .start)
        else .returned .estale, transport, region)
  | .ready expired pc =>
      (match readyStep transport region pc with
        | .running pc' => .running (.ready expired pc')
        | .returned true => .running (.readProducer expired)
        | .returned false => .returned .enotconn, transport, region)
  | .readProducer expired =>
      (.running (.readConsumer expired region.request.producer), transport, region)
  | .readConsumer expired producer =>
      (match readOccupancy producer region.request.consumer with
        | none => .returned .eproto
        | some occupancy =>
            if occupancy.toNat < slotCount then
              .running (.sequence producer
                (min call.messages.length (slotCount - occupancy.toNat)))
            else if expired then .returned (outOfTime call.noWait)
            else .running .wait, transport, region)
  | .wait => (waitEnd answer call.loop, transport, region)
  | .sequence producer completed =>
      let (stamped, next) := stamp transport.nextSequence (call.messages.take completed)
      (.running (.copyOut producer stamped), { transport with nextSequence := next }, region)
  | .copyOut producer stamped =>
      (if answer = .fault then .returned .efault
        else if call.batchGeneration.isSome then .running (.restale producer stamped)
        else .running (.copySlot producer stamped 0), transport, region)
  | .restale producer stamped =>
      (if call.batchGeneration = some transport.generation then
          .running (.reready producer stamped .start)
        else .returned .estale, transport, region)
  | .reready producer stamped pc =>
      (match readyStep transport region pc with
        | .running pc' => .running (.reready producer stamped pc')
        | .returned true => .running (.copySlot producer stamped 0)
        | .returned false => .returned .estale, transport, region)
  | .copySlot producer stamped index =>
      (if index + 1 < stamped.length then .running (.copySlot producer stamped (index + 1))
        else .running (.publish producer stamped), transport,
        { region with
          request := region.request.writeSlot (slotIndex (producer + BitVec.ofNat 32 index))
            stamped[index]! })
  | .publish producer stamped =>
      (.running (.kick .shuttingDown), transport,
        { region with
          request :=
            { region.request with producer := producer + BitVec.ofNat 32 stamped.length } })
  | .kick pc =>
      match kickStep answer transport pc with
      | (.running pc', transport) => (.running (.kick pc'), transport, region)
      | (.returned _, transport) => (.returned .ok, transport, region)

/-- What the next step of the call publishes. -/
def TxPc.published : TxPc → List Slot
  | .publish _ stamped => stamped
  | _ => []

/-! ## `receive_message` and `reap_batch` -/

/-- The arguments of a call on the response ring. -/
structure RxCall where
  batchGeneration : Option U32
  count : ℕ
  noWait : Bool

def receiveMessage (noWait : Bool) : RxCall := ⟨none, 1, noWait⟩

def reapBatch (generation : U32) (count : ℕ) (noWait : Bool) : RxCall :=
  ⟨some generation, count, noWait⟩

/-- `batch` is what has been copied from slots that are not yet returned. -/
inductive RxPc
  | stale (expired : Bool)
  | ready (expired : Bool) (pc : ReadyPc)
  | readProducer (expired : Bool)
  | readConsumer (expired : Bool) (producer : U32)
  | wait
  | copySlot (consumer : U32) (completed : ℕ) (batch : List Slot)
  | copyOut (consumer : U32) (batch : List Slot)
  | restale (consumer : U32) (batch : List Slot)
  | reready (consumer : U32) (batch : List Slot) (pc : ReadyPc)
  | publish (consumer : U32) (batch : List Slot) (ret : Errno)
  /-- The request ring is read without its lock. -/
  | peekProducer (ret : Errno)
  | peekConsumer (ret : Errno) (producer : U32)
  | kick (ret : Errno) (pc : KickPc)

def RxCall.loop (call : RxCall) (expired : Bool) : RxPc :=
  if call.batchGeneration.isSome then .stale expired else .ready expired .start

def RxCall.enter (call : RxCall) : Outcome RxPc Errno :=
  if call.count = 0 ∨ slotCount < call.count then .returned .einval
  else .running (call.loop call.noWait)

/-- A message that is not delivered; a reap also rejects the sequence no request has. -/
def RxCall.rejects (call : RxCall) (message : Slot) : Prop :=
  ¬ message.Fits ∨ call.batchGeneration.isSome ∧ message.sequence = 0#32

instance (call : RxCall) (message : Slot) : Decidable (call.rejects message) :=
  inferInstanceAs (Decidable (_ ∨ _))

def rxStep (call : RxCall) (answer : Answer) (transport : Transport) (region : Region) :
    RxPc → Outcome RxPc Errno × Transport × Region
  | .stale expired =>
      (if call.batchGeneration = some transport.generation then .running (.ready expired .start)
        else .returned .estale, transport, region)
  | .ready expired pc =>
      (match readyStep transport region pc with
        | .running pc' => .running (.ready expired pc')
        | .returned true => .running (.readProducer expired)
        | .returned false => .returned .enotconn, transport, region)
  | .readProducer expired =>
      (.running (.readConsumer expired region.response.producer), transport, region)
  | .readConsumer expired producer =>
      (match readOccupancy producer region.response.consumer with
        | none => .returned .eproto
        | some occupancy =>
            if 0 < occupancy.toNat then
              .running (.copySlot region.response.consumer (min call.count occupancy.toNat) [])
            else if expired then .returned (outOfTime call.noWait)
            else .running .wait, transport, region)
  | .wait => (waitEnd answer call.loop, transport, region)
  | .copySlot consumer completed batch =>
      let message :=
        region.response.slots (slotIndex (consumer + BitVec.ofNat 32 batch.length))
      (if call.rejects message then
          if batch = [] then .running (.publish consumer [message] .eproto)
          else .running (.copyOut consumer batch)
        else if batch.length + 1 < completed then
          .running (.copySlot consumer completed (batch ++ [message]))
        else .running (.copyOut consumer (batch ++ [message])), transport, region)
  | .copyOut consumer batch =>
      (if answer = .fault then .returned .efault
        else if call.batchGeneration.isSome then .running (.restale consumer batch)
        else .running (.publish consumer batch .ok), transport, region)
  | .restale consumer batch =>
      (if call.batchGeneration = some transport.generation then
          .running (.reready consumer batch .start)
        else .returned .estale, transport, region)
  | .reready consumer batch pc =>
      (match readyStep transport region pc with
        | .running pc' => .running (.reready consumer batch pc')
        | .returned true => .running (.publish consumer batch .ok)
        | .returned false => .returned .estale, transport, region)
  | .publish consumer batch ret =>
      (.running (.peekProducer ret), transport,
        { region with
          response :=
            { region.response with consumer := consumer + BitVec.ofNat 32 batch.length } })
  | .peekProducer ret =>
      (.running (.peekConsumer ret region.request.producer), transport, region)
  | .peekConsumer ret producer =>
      (match readOccupancy producer region.request.consumer with
        | none => .returned ret
        | some occupancy =>
            if 0 < occupancy.toNat then .running (.kick ret .shuttingDown)
            else .returned ret, transport, region)
  | .kick ret pc =>
      match kickStep answer transport pc with
      | (.running pc', transport) => (.running (.kick ret pc'), transport, region)
      | (.returned _, transport) => (.returned ret, transport, region)

/-- What the next step of the call returns to the ring. -/
def RxPc.delivered : RxPc → List Slot
  | .publish _ batch _ => batch
  | _ => []

end Sg200x.Ipc.Driver
