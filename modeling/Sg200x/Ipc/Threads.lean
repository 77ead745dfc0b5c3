import Sg200x.Ipc.Channel
import Sg200x.Ipc.Client

/-!
# Threads on one handle

Any number of threads use a handle of the library while the firmware works.  What a
thread does between two ioctls it does in one step: only the holder of `rx_lock` touches
`pending`, and an ioctl takes its effect at one instant, when it moves the counter of a
ring.  A thread that holds a lock for one ioctl takes and leaves it in that step.  The
kernel is the in-order service that the channel of a generation refines.
-/

namespace Sg200x.Ipc.Threads

open Shm App Driver Library Library.Transition
open Client (Retained BatchSupport retainPending removePending takePending takePendingSequence
  carried)

/-! ## The kernel -/

abbrev Rings := Service Slot Mmio

/-- A ring holds at most 64 messages, and the firmware has one request in hand. -/
structure Within (rings : Rings) : Prop where
  requests : rings.requests.length ≤ rings.executed.length + slotCount + 1
  executed : rings.executed.length ≤ rings.delivered + slotCount + 1

instance (rings : Rings) : Decidable (Within rings) :=
  decidable_of_iff (_ ∧ _) ⟨fun h => ⟨h.1, h.2⟩, fun h => ⟨h.requests, h.executed⟩⟩

/-- A response, with its position in the order of the response ring. -/
structure Response where
  index : ℕ
  message : Slot
  deriving DecidableEq

/-- The responses of the firmware in their order. -/
def answers (rings : Rings) : List Response := (rings.responses respond).mapIdx Response.mk

/-- The responses that have been removed from the response ring. -/
def removed (rings : Rings) : List Response := (answers rings).take rings.delivered

structure Kernel where
  rings : Rings
  nextSequence : U32
  /-- The batch ioctls exist. -/
  hasBatch : Bool

/-- What an ioctl or a wait comes to.  An ioctl that returns 0 has moved `count` messages. -/
inductive Answer
  | done (count : ℕ)
  | failed (ret : {ret : Errno // ret ≠ .ok})

/-- An ioctl that publishes messages; it takes a sequence for each. -/
def publish (kernel : Kernel) (messages : List Slot) : Option (List Slot × Kernel) :=
  let (stamped, next) := stamp kernel.nextSequence messages
  let rings := { kernel.rings with requests := kernel.rings.requests ++ stamped }
  if Within rings then some (stamped, { kernel with rings := rings, nextSequence := next })
  else none

/-- An ioctl that takes responses out of the ring. -/
def take (rings : Rings) (count : ℕ) : Option (List Response × Rings) :=
  if rings.delivered + count ≤ rings.executed.length then
    some (((answers rings).drop rings.delivered).take count,
      { rings with delivered := rings.delivered + count })
  else none

/-! ## One message -/

/-- `message_send_locked`: with the sequence of the message. -/
def messageSendLocked (answer : Answer) (kernel : Kernel) (message : Slot) :
    Option (Except Errno U32 × Kernel) :=
  if payloadSize < message.length.toNat then some (.error .einval, kernel)
  else
    match answer with
    | .failed ret => some (.error ret, kernel)
    | .done _ =>
        (publish kernel [carried message]).map fun (stamped, kernel') =>
          let sequence := (stamped.headD (carried message)).sequence
          (if sequence = 0#32 then .error .eproto else .ok sequence, kernel')

/-- The kernel and `receive_from_kernel_locked` refuse a message with `-EPROTO` that the
ring has already lost. -/
def receiveFromKernelLocked (answer : Answer) (rings : Rings) :
    Option (Except Errno Response × Rings) :=
  match answer with
  | .failed ret => some (.error ret, rings)
  | .done _ =>
      match take rings 1 with
      | some ([message], rings') =>
          some (if message.message.sequence = 0#32 ∨ payloadSize < message.message.length.toNat
            then .error .eproto else .ok message, rings')
      | _ => none

/-- `copy_message`, to a buffer that is not null unless it is empty. -/
def copyMessage (message : Response) (responseCapacity : ℕ) : Errno :=
  if responseCapacity < message.message.length.toNat then .emsgsize else .ok

/-! ## The state -/

/-- A count that the batch calls accept. -/
abbrev BatchCount := {count : ℕ // count ≠ 0 ∧ count ≤ slotCount}

/-- Messages that `sg2002_rtos_message_submit_batch` accepts. -/
abbrev Batch :=
  {messages : List Slot // (messages.length ≠ 0 ∧ messages.length ≤ slotCount) ∧
    ∀ message ∈ messages, message.Fits}

/-- A call that has passed the checks of its arguments. -/
inductive Call
  | send (request : Slot)
  | receive (responseCapacity : ℕ)
  | submit (messages : Batch)
  | reap (count : BatchCount)
  | call (request : Slot) (responseCapacity : ℕ)
  deriving DecidableEq

/-- What a call returns. -/
inductive Code
  | errno (ret : Errno)
  | enobufs
  deriving DecidableEq

/-- The request of a synchronous call: where it stands in the request ring, and its sequence. -/
structure Sent where
  request : Slot
  index : ℕ
  sequence : U32
  deriving DecidableEq

/-- A thread that holds `rx_lock`. -/
inductive RxPc
  /-- In the second loop of `reap_batch_locked`. -/
  | reapEach (count : BatchCount) (messages : List Response)
  -- `sg2002_rtos_message_call`, the first loop
  | send (request : Slot) (responseCapacity : ℕ)
  | drain (request : Slot) (responseCapacity : ℕ)
  -- and the second
  | takePending (responseCapacity : ℕ) (sent : Sent)
  | receive (responseCapacity : ℕ) (sent : Sent)
  | deadline (responseCapacity : ℕ) (sent : Sent)
  | wait (responseCapacity : ℕ) (sent : Sent)

/-- A thread in the loop of `submit_batch_locked`, with `tx_lock` held. -/
structure SubmitEach where
  messages : Batch
  index : ℕ

/-- A thread without a lock. -/
inductive Outside
  | lock (call : Call)
  /-- In `wait_for_events` or `wait_for_kernel_events`. -/
  | events (call : Call)

/-- A call that has returned, with the responses that it has handed to its caller. -/
structure Report where
  call : Call
  ret : Code
  messages : List Response
  sent : Option Sent
  deriving DecidableEq

structure State where
  kernel : Kernel
  submitBatchSupported : BatchSupport
  reapBatchSupported : BatchSupport
  retained : Retained Response
  rx : Option RxPc
  tx : Option SubmitEach
  outside : List Outside
  reports : List Report

inductive Label
  | enter (call : Call)
  /-- The thread gets its lock. -/
  | lock (i : ℕ) (answer : Answer)
  /-- The thread's wait for events ends. -/
  | events (i : ℕ) (answer : Answer)
  | tx (answer : Answer)
  | rx (answer : Answer)
  /-- The firmware executes the next request. -/
  | execute (mmio : Mmio)

/-! ## Leaving a lock -/

/-- `ret` makes a call wait and try again. -/
def Code.again (ret : Code) : Bool := ret = .errno .eagain || ret = .errno .etimedout

def State.report (s : State) (report : Report) : State := { s with reports := s.reports ++ [report] }

/-- The end of the loop's body in the calls that try again. -/
def State.leave (s : State) (call : Call) (ret : Code) (messages : List Response) : State :=
  if ret.again then { s with outside := s.outside ++ [.events call] }
  else s.report ⟨call, ret, messages, none⟩

/-- `out_unlock` with an error after the send. -/
def State.fail (s : State) (responseCapacity : ℕ) (sent : Sent) (ret : Code) : State :=
  s.report ⟨.call sent.request responseCapacity, ret, [], some sent⟩

/-- `copy_message` and `out_unlock`. -/
def State.copyOut (s : State) (responseCapacity : ℕ) (sent : Sent) (message : Response) : State :=
  match copyMessage message responseCapacity with
  | .ok => s.report ⟨.call sent.request responseCapacity, .errno .ok, [message], some sent⟩
  | ret => s.fail responseCapacity sent (.errno ret)

/-! ## The calls -/

def codeOf {α : Type} : Except Errno α → Code
  | .ok _ => .errno .ok
  | .error ret => .errno ret

/-- `sg2002_rtos_message_send`, with `tx_lock`. -/
def messageSend (answer : Answer) (s : State) (request : Slot) : Option State :=
  (messageSendLocked answer s.kernel request).map fun (result, kernel) =>
    { s with kernel := kernel }.leave (.send request) (codeOf result) []

/-- `sg2002_rtos_message_receive`, with `rx_lock`. -/
def messageReceive (answer : Answer) (s : State) (responseCapacity : ℕ) : Option State :=
  match s.retained.pending with
  | message :: _ =>
      match copyMessage message responseCapacity with
      | .emsgsize => some (s.leave (.receive responseCapacity) (.errno .emsgsize) [])
      | _ =>
          match removePending s.retained 0 with
          | (.ok, retained) =>
              some ({ s with retained := retained }.leave (.receive responseCapacity) (.errno .ok)
                [message])
          | (ret, retained) =>
              some ({ s with retained := retained }.leave (.receive responseCapacity) (.errno ret)
                [])
  | [] =>
      match receiveFromKernelLocked answer s.kernel.rings with
      | none => none
      | some (.error ret, rings) =>
          some ({ s with kernel.rings := rings }.leave (.receive responseCapacity) (.errno ret) [])
      | some (.ok message, rings) =>
          match copyMessage message responseCapacity with
          | .ok =>
              some ({ s with kernel.rings := rings }.leave (.receive responseCapacity) (.errno .ok)
                [message])
          | ret =>
              match retainPending s.retained message with
              | some retained =>
                  some ({ s with kernel.rings := rings, retained := retained }.leave
                    (.receive responseCapacity) (.errno ret) [])
              | none =>
                  some ({ s with kernel.rings := rings }.leave (.receive responseCapacity) .enobufs
                    [])

/-- `submit_batch_locked` up to its loop. -/
def submitBatchLocked (answer : Answer) (s : State) (messages : Batch) : Option State :=
  if s.submitBatchSupported ≠ .unsupported ∧ s.kernel.hasBatch then
    match answer with
    | .failed ret =>
        some ({ s with submitBatchSupported := .supported }.leave (.submit messages) (.errno ret)
          [])
    | .done completed =>
        if completed = 0 ∨ messages.1.length < completed then none
        else
          (publish s.kernel (messages.1.take completed)).map fun (stamped, kernel) =>
            if ∃ message ∈ stamped, message.sequence = 0#32 then
              { s with kernel := kernel }.leave (.submit messages) (.errno .eproto) []
            else
              { s with kernel := kernel, submitBatchSupported := .supported }.leave
                (.submit messages) (.errno .ok) []
  else some { s with submitBatchSupported := .unsupported, tx := some ⟨messages, 0⟩ }

/-- The loop of `submit_batch_locked`. -/
def txStep (answer : Answer) (s : State) : Option State :=
  match s.tx with
  | none => none
  | some ⟨messages, index⟩ =>
      (messageSendLocked answer s.kernel messages.1[index]!).map fun (result, kernel) =>
        match result with
        | .ok _ =>
            if index + 1 < messages.1.length then
              { s with kernel := kernel, tx := some ⟨messages, index + 1⟩ }
            else { s with kernel := kernel, tx := none }.leave (.submit messages) (.errno .ok) []
        | .error ret =>
            { s with kernel := kernel, tx := none }.leave (.submit messages)
              (if 0 < index ∧ Code.again (.errno ret) then .errno .ok else .errno ret) []

/-- `reap_batch_locked` up to its loop over the kernel's messages. -/
def reapBatchLocked (answer : Answer) (s : State) (count : BatchCount) : Option State :=
  match takePending count.1 s.retained with
  | (.error ret, retained) =>
      some ({ s with retained := retained }.leave (.reap count) (.errno ret) [])
  | (.ok (message :: messages), retained) =>
      some ({ s with retained := retained }.leave (.reap count) (.errno .ok) (message :: messages))
  | (.ok [], retained) =>
      if s.reapBatchSupported ≠ .unsupported ∧ s.kernel.hasBatch then
        match answer with
        | .failed ret =>
            some ({ s with retained := retained, reapBatchSupported := .supported }.leave
              (.reap count) (.errno ret) [])
        | .done completed =>
            if completed = 0 ∨ count.1 < completed then none
            else
              (take s.kernel.rings completed).map fun (messages, rings) =>
                if ∃ message ∈ messages, message.message.sequence = 0#32 ∨
                    payloadSize < message.message.length.toNat then
                  { s with retained := retained, kernel.rings := rings }.leave (.reap count)
                    (.errno .eproto) []
                else
                  { s with
                    retained := retained
                    kernel.rings := rings
                    reapBatchSupported := .supported }.leave (.reap count) (.errno .ok) messages
      else
        some { s with
          retained := retained
          reapBatchSupported := .unsupported
          rx := some (.reapEach count []) }

/-- A step under `rx_lock`. -/
def rxStep (answer : Answer) (s : State) : Option State :=
  match s.rx with
  | none => none
  | some (.reapEach count messages) =>
      (receiveFromKernelLocked answer s.kernel.rings).map fun (result, rings) =>
        match result with
        | .ok message =>
            if messages.length + 1 < count.1 then
              { s with kernel.rings := rings, rx := some (.reapEach count (messages ++ [message])) }
            else
              { s with kernel.rings := rings, rx := none }.leave (.reap count) (.errno .ok)
                (messages ++ [message])
        | .error ret =>
            { s with kernel.rings := rings, rx := none }.leave (.reap count)
              (if 0 < messages.length ∧ Code.again (.errno ret) then .errno .ok else .errno ret)
              messages
  | some (.send request responseCapacity) =>
      if s.tx.isSome then none
      else
        (messageSendLocked answer s.kernel request).map fun (result, kernel) =>
          match result with
          | .ok sequence =>
              { s with
                kernel := kernel
                rx := some (.takePending responseCapacity
                  ⟨request, s.kernel.rings.requests.length, sequence⟩) }
          | .error ret =>
              if Code.again (.errno ret) then
                { s with kernel := kernel, rx := some (.drain request responseCapacity) }
              else
                { s with kernel := kernel, rx := none }.report
                  ⟨.call request responseCapacity, .errno ret, [], none⟩
  | some (.drain request responseCapacity) =>
      (receiveFromKernelLocked answer s.kernel.rings).map fun (result, rings) =>
        match result with
        | .ok message =>
            match retainPending s.retained message with
            | some retained =>
                { s with
                  kernel.rings := rings
                  retained := retained
                  rx := none
                  outside := s.outside ++ [.lock (.call request responseCapacity)] }
            | none =>
                { s with kernel.rings := rings, rx := none }.report
                  ⟨.call request responseCapacity, .enobufs, [], none⟩
        | .error ret =>
            { s with kernel.rings := rings, rx := none }.leave (.call request responseCapacity)
              (.errno ret) []
  | some (.takePending responseCapacity sent) =>
      match takePendingSequence (·.message.sequence) s.retained sent.sequence with
      | (.error ret, retained) =>
          some ({ s with retained := retained, rx := none }.fail responseCapacity sent (.errno ret))
      | (.ok (some message), retained) =>
          some ({ s with retained := retained, rx := none }.copyOut responseCapacity sent message)
      | (.ok none, retained) =>
          some { s with retained := retained, rx := some (.receive responseCapacity sent) }
  | some (.receive responseCapacity sent) =>
      (receiveFromKernelLocked answer s.kernel.rings).map fun (result, rings) =>
        match result with
        | .ok message =>
            if message.message.sequence = sent.sequence then
              { s with kernel.rings := rings, rx := none }.copyOut responseCapacity sent message
            else
              match retainPending s.retained message with
              | some retained =>
                  { s with
                    kernel.rings := rings
                    retained := retained
                    rx := some (.deadline responseCapacity sent) }
              | none =>
                  { s with kernel.rings := rings, rx := none }.fail responseCapacity sent .enobufs
        | .error ret =>
            if Code.again (.errno ret) then
              { s with kernel.rings := rings, rx := some (.wait responseCapacity sent) }
            else
              { s with kernel.rings := rings, rx := none }.fail responseCapacity sent (.errno ret)
  | some (.deadline responseCapacity sent) =>
      match answer with
      | .done _ => some { s with rx := some (.takePending responseCapacity sent) }
      | .failed _ => some ({ s with rx := none }.fail responseCapacity sent (.errno .etimedout))
  | some (.wait responseCapacity sent) =>
      match answer with
      | .done _ => some { s with rx := some (.takePending responseCapacity sent) }
      | .failed ret => some ({ s with rx := none }.fail responseCapacity sent (.errno ret))

/-! ## The threads -/

def State.locked (answer : Answer) (s : State) : Call → Option State
  | .send request => if s.tx.isSome then none else messageSend answer s request
  | .submit messages => if s.tx.isSome then none else submitBatchLocked answer s messages
  | .receive responseCapacity =>
      if s.rx.isSome then none else messageReceive answer s responseCapacity
  | .reap count => if s.rx.isSome then none else reapBatchLocked answer s count
  | .call request responseCapacity =>
      if s.rx.isSome then none else some { s with rx := some (.send request responseCapacity) }

def step : Label → State → Option State
  | .enter call, s => some { s with outside := s.outside ++ [.lock call] }
  | .lock i answer, s =>
      match s.outside[i]? with
      | some (.lock call) => { s with outside := s.outside.eraseIdx i }.locked answer call
      | _ => none
  | .events i answer, s =>
      match s.outside[i]? with
      | some (.events call) =>
          match answer with
          | .done _ => some { s with outside := s.outside.set i (.lock call) }
          | .failed ret =>
              some ({ s with outside := s.outside.eraseIdx i }.report ⟨call, .errno ret, [], none⟩)
      | _ => none
  | .tx answer, s => txStep answer s
  | .rx answer, s => rxStep answer s
  | .execute mmio, s =>
      match s.kernel.rings.requests[s.kernel.rings.executed.length]? with
      | none => none
      | some request =>
          let rings :=
            { s.kernel.rings with executed := s.kernel.rings.executed ++ [(mmio, request)] }
          if Within rings then some { s with kernel.rings := rings } else none

/-- The handle has acquired a generation. -/
structure Start (s : State) : Prop where
  rings : s.kernel.rings = ⟨[], [], 0⟩
  nextSequence : s.kernel.nextSequence = 1#32
  submitBatchSupported : s.submitBatchSupported = .unknown
  reapBatchSupported : s.reapBatchSupported = .unknown
  retained : s.retained = ⟨[], 0⟩
  rx : s.rx = none
  tx : s.tx = none
  outside : s.outside = []
  reports : s.reports = []

def threads : System State Label := ⟨Start, step⟩

/-- A handle that has just been opened. -/
def opened : State :=
  { kernel := ⟨⟨[], [], 0⟩, 1#32, true⟩
    submitBatchSupported := .unknown
    reapBatchSupported := .unknown
    retained := ⟨[], 0⟩
    rx := none
    tx := none
    outside := []
    reports := [] }

theorem start_opened : Start opened := ⟨rfl, rfl, rfl, rfl, rfl, rfl, rfl, rfl, rfl⟩

end Sg200x.Ipc.Threads
