import Sg200x.Ipc.Submission
import Sg200x.Ipc.Reaping

/-!
# The userspace library

`sg2002_rtos.c`: the responses that a handle retains, the ioctls that carry one message,
and the batch calls.  A call with a zero timeout is modelled on its own; the ioctls are the
driver's, with copies between library and kernel that succeed.
-/

namespace Sg200x.Ipc.Client

open Shm Driver Ioctl

/-! ## Retained responses -/

/-- `pending`, with the counter of the eventfd `pending_fd`. -/
structure Retained (α : Type) where
  pending : List α
  events : ℕ
  deriving DecidableEq

section Retained

variable {α : Type}

/-- `retain_pending`; `none` is `-ENOBUFS`. -/
def retainPending (retained : Retained α) (message : α) : Option (Retained α) :=
  if slotCount ≤ retained.pending.length then none
  else some ⟨retained.pending ++ [message], retained.events + 1⟩

/-- `remove_pending` of an index below the count.  A read of the eventfd takes one from its
counter and fails with `-EAGAIN` when that is zero. -/
def removePending (retained : Retained α) (index : ℕ) : Errno × Retained α :=
  if retained.events = 0 then (.eproto, { retained with pending := retained.pending.eraseIdx index })
  else (.ok, ⟨retained.pending.eraseIdx index, retained.events - 1⟩)

/-- `take_pending_oldest`: nothing, a message or an error. -/
def takePendingOldest (retained : Retained α) : Except Errno (Option α) × Retained α :=
  match retained.pending with
  | [] => (.ok none, retained)
  | message :: _ =>
      match removePending retained 0 with
      | (.ok, retained') => (.ok (some message), retained')
      | (ret, retained') => (.error ret, retained')

/-- `take_pending_sequence`. -/
def takePendingSequence (sequenceOf : α → U32) (retained : Retained α) (sequence : U32) :
    Except Errno (Option α) × Retained α :=
  match retained.pending.findIdx? fun message => sequenceOf message = sequence with
  | none => (.ok none, retained)
  | some index =>
      match removePending retained index with
      | (.ok, retained') => (.ok retained.pending[index]?, retained')
      | (_, retained') => (.error .eproto, retained')

/-- The first loop of `reap_batch_locked`: up to `count` retained messages. -/
def takePending : ℕ → Retained α → Except Errno (List α) × Retained α
  | 0, retained => (.ok [], retained)
  | count + 1, retained =>
      match takePendingOldest retained with
      | (.error ret, retained') => (.error ret, retained')
      | (.ok none, retained') => (.ok [], retained')
      | (.ok (some message), retained') =>
          match takePending count retained' with
          | (.ok messages, retained'') => (.ok (message :: messages), retained'')
          | (.error ret, retained'') => (.error ret, retained'')

end Retained

/-! ## The ioctls -/

structure Kernel where
  transport : Transport
  region : Region

/-- What the calls of the driver get from their surroundings. -/
structure Surroundings where
  tx : TxPc → Answer
  rx : RxPc → Answer
  tx_copies : TxCopiesSucceed tx
  rx_copies : CopiesSucceed rx

/-- A call that has passed the checks of its arguments, or failed them. -/
def ioctl {call pc : Type} (result : call → Memory → Errno × Memory) (kernel : Kernel)
    (entry : Except Errno (call × pc)) : Errno × List Slot × Kernel :=
  let (ret, memory) : Errno × Memory :=
    match entry with
    | .error ret => (ret, ⟨kernel.transport, kernel.region, []⟩)
    | .ok (call, _) => result call ⟨kernel.transport, kernel.region, []⟩
  (ret, memory.copied, ⟨memory.transport, memory.region⟩)

/-- A call on the request ring is what it comes to when no other party takes a step. -/
theorem ioctl_tx {around : Surroundings} {kernel : Kernel} {call : TxCall} {pc : TxPc}
    {r : Errno × Memory} (henter : call.enter = .running pc) (hwait : call.noWait = true)
    (hreturns : Returns (txAccess call around.tx) pc ⟨kernel.transport, kernel.region, []⟩ r) :
    ioctl (fun call => txResult call around.tx) kernel (entered call call.enter) =
      (r.1, r.2.copied, ⟨r.2.transport, r.2.region⟩) := by
  obtain ⟨haccepted, rfl⟩ := TxCall.accepted_of_enter henter
  rw [hwait, returns_txResult haccepted.nonempty around.tx_copies] at hreturns
  rw [henter, hreturns]
  rfl

theorem ioctl_rx {around : Surroundings} {kernel : Kernel} {call : RxCall} {pc : RxPc}
    {r : Errno × Memory} (henter : call.enter = .running pc) (hwait : call.noWait = true)
    (hreturns : Returns (rxAccess call around.rx) pc ⟨kernel.transport, kernel.region, []⟩ r) :
    ioctl (fun call => rxResult call around.rx) kernel (entered call call.enter) =
      (r.1, r.2.copied, ⟨r.2.transport, r.2.region⟩) := by
  obtain ⟨haccepted, rfl⟩ := RxCall.accepted_of_enter henter
  rw [hwait, returns_rxResult (Nat.ne_of_gt haccepted) around.rx_copies] at hreturns
  rw [henter, hreturns]
  rfl

variable (around : Surroundings) (file : File)

/-- `ioctl(fd, SG2002_RTOS_SHM_SEND, &transfer)`: with the messages copied back. -/
def ioctlSend (kernel : Kernel) (transfer : Transfer) : Errno × List Slot × Kernel :=
  ioctl (fun call => txResult call around.tx) kernel (send kernel.transport file (some transfer))

def ioctlReceive (kernel : Kernel) (transfer : Transfer) : Errno × List Slot × Kernel :=
  ioctl (fun call => rxResult call around.rx) kernel (receive kernel.transport file (some transfer))

def ioctlSubmitBatch (kernel : Kernel) (batch : Batch) (messages : List Slot) :
    Errno × List Slot × Kernel :=
  ioctl (fun call => txResult call around.tx) kernel
    (submit kernel.transport file (some batch) (some fun index => messages[index]!))

def ioctlReapBatch (kernel : Kernel) (batch : Batch) : Errno × List Slot × Kernel :=
  ioctl (fun call => rxResult call around.rx) kernel (reap kernel.transport file (some batch))

/-- `memcpy(transfer.message.payload, request, request_length)` to a zeroed transfer. -/
def carried (message : Slot) : Slot :=
  { sequence := 0#32
    length := message.length
    payload := Vector.ofFn fun i =>
      if i.val < message.length.toNat then message.payload.get i else 0#8 }

theorem carried_getElem (message : Slot) {i : ℕ} (hi : i < payloadSize) :
    (carried message).payload[i] = if i < message.length.toNat then message.payload[i] else 0#8 := by
  rw [carried, Vector.getElem_ofFn]
  rfl

/-- `message_send_locked`: with the sequence of the message. -/
def messageSendLocked (kernel : Kernel) (message : Slot) (timeoutMs : U32) :
    Errno × U32 × Kernel :=
  if payloadSize < message.length.toNat then (.einval, 0#32, kernel)
  else
    match ioctlSend around file kernel ⟨timeoutMs, carried message⟩ with
    | (.ok, copied, kernel') =>
        let sequence := (copied.headD (carried message)).sequence
        if sequence = 0#32 then (.eproto, 0#32, kernel') else (.ok, sequence, kernel')
    | (ret, _, kernel') => (ret, 0#32, kernel')

/-- `receive_from_kernel_locked`. -/
def receiveFromKernelLocked (kernel : Kernel) (timeoutMs : U32) : Errno × Slot × Kernel :=
  match ioctlReceive around file kernel ⟨timeoutMs, Slot.zero⟩ with
  | (.ok, copied, kernel') =>
      let message := copied.headD Slot.zero
      if message.sequence = 0#32 ∨ payloadSize < message.length.toNat then
        (.eproto, Slot.zero, kernel')
      else (.ok, message, kernel')
  | (ret, _, kernel') => (ret, Slot.zero, kernel')

/-! ## The batch calls -/

inductive BatchSupport
  | unknown
  | supported
  | unsupported
  deriving DecidableEq

/-- `struct sg2002_rtos_private`, with shared memory enabled. -/
structure Handle where
  submitBatchSupported : BatchSupport
  reapBatchSupported : BatchSupport
  generation : U32
  retained : Retained Slot

/-- What a batch call returns, reports in `*completed` and leaves in `messages`.  Of a reap
only the completed messages count. -/
structure Reply where
  ret : Errno
  completed : ℕ
  messages : List Slot
  deriving DecidableEq

def batchOf (slotsPtr : BitVec 64) (timeoutMs generation : U32) (count : ℕ) : Batch :=
  { slotsPtr, timeoutMs, generation, count := BitVec.ofNat 16 count, flags := 0#32
    reserved := (0#32, 0#32) }

/-- The loop of `submit_batch_locked` that sends one message after the other. -/
def submitEach (timeoutMs : U32) (index : ℕ) : Kernel → List Slot → Reply × Kernel
  | kernel, [] => (⟨if 0 < index then .ok else .eagain, index, []⟩, kernel)
  | kernel, message :: rest =>
      match messageSendLocked around file kernel message
          (if index = 0 then timeoutMs else 0#32) with
      | (.ok, sequence, kernel') =>
          let (reply, kernel'') := submitEach timeoutMs (index + 1) kernel' rest
          ({ reply with messages := { message with sequence := sequence } :: reply.messages },
            kernel'')
      | (ret, _, kernel') =>
          (⟨if 0 < index ∧ (ret = .eagain ∨ ret = .etimedout) then .ok else ret, index,
            message :: rest⟩, kernel')

/-- `submit_batch_locked`; a kernel without the batch ioctls answers `-ENOTTY` to them. -/
def submitBatchLocked (hasBatch : Bool) (handle : Handle) (kernel : Kernel)
    (slotsPtr : BitVec 64) (messages : List Slot) (timeoutMs : U32) : Reply × Handle × Kernel :=
  if handle.submitBatchSupported ≠ .unsupported ∧ hasBatch then
    match ioctlSubmitBatch around file kernel
        (batchOf slotsPtr timeoutMs handle.generation messages.length) messages with
    | (.ok, copied, kernel') =>
        let messages' := copied ++ messages.drop copied.length
        if copied.length = 0 ∨ messages.length < copied.length ∨
            ∃ message ∈ copied, message.sequence = 0#32 then
          (⟨.eproto, 0, messages'⟩, handle, kernel')
        else
          (⟨.ok, copied.length, messages'⟩, { handle with submitBatchSupported := .supported },
            kernel')
    | (ret, copied, kernel') =>
        (⟨ret, 0, copied ++ messages.drop copied.length⟩,
          { handle with submitBatchSupported := .supported }, kernel')
  else
    let (reply, kernel') := submitEach around file timeoutMs 0 kernel messages
    (reply, { handle with submitBatchSupported := .unsupported }, kernel')

/-- The loop of `reap_batch_locked` that receives one message after the other. -/
def reapEach (timeoutMs : U32) (index : ℕ) : ℕ → Kernel → Reply × Kernel
  | 0, kernel => (⟨if 0 < index then .ok else .eagain, index, []⟩, kernel)
  | count + 1, kernel =>
      match receiveFromKernelLocked around file kernel
          (if index = 0 then timeoutMs else 0#32) with
      | (.ok, message, kernel') =>
          let (reply, kernel'') := reapEach timeoutMs (index + 1) count kernel'
          ({ reply with messages := message :: reply.messages }, kernel'')
      | (ret, _, kernel') =>
          (⟨if 0 < index ∧ (ret = .eagain ∨ ret = .etimedout) then .ok else ret, index, []⟩,
            kernel')

/-- `reap_batch_locked`. -/
def reapBatchLocked (hasBatch : Bool) (handle : Handle) (kernel : Kernel) (slotsPtr : BitVec 64)
    (count : ℕ) (timeoutMs : U32) : Reply × Handle × Kernel :=
  match takePending count handle.retained with
  | (.error ret, retained) => (⟨ret, 0, []⟩, { handle with retained := retained }, kernel)
  | (.ok (message :: messages), retained) =>
      (⟨.ok, messages.length + 1, message :: messages⟩, { handle with retained := retained },
        kernel)
  | (.ok [], retained) =>
      if handle.reapBatchSupported ≠ .unsupported ∧ hasBatch then
        match ioctlReapBatch around file kernel
            (batchOf slotsPtr timeoutMs handle.generation count) with
        | (.ok, copied, kernel') =>
            if copied.length = 0 ∨ count < copied.length ∨
                ∃ message ∈ copied, message.sequence = 0#32 ∨
                  payloadSize < message.length.toNat then
              (⟨.eproto, 0, []⟩, { handle with retained := retained }, kernel')
            else
              (⟨.ok, copied.length, copied⟩,
                { handle with retained := retained, reapBatchSupported := .supported }, kernel')
        | (ret, _, kernel') =>
            (⟨ret, 0, []⟩, { handle with retained := retained, reapBatchSupported := .supported },
              kernel')
      else
        let (reply, kernel') := reapEach around file timeoutMs 0 count kernel
        (reply, { handle with retained := retained, reapBatchSupported := .unsupported }, kernel')

/-- `wait_for_events` with a zero timeout. -/
def withoutWait (reply : Reply) : Reply :=
  { reply with ret := if reply.ret = .etimedout then .eagain else reply.ret }

/-- `sg2002_rtos_message_submit_batch` with a zero timeout; `slotsPtr` is where `messages`
lie. -/
def messageSubmitBatch (hasBatch : Bool) (handle : Handle) (kernel : Kernel)
    (slotsPtr : BitVec 64) (messages : List Slot) : Reply × Handle × Kernel :=
  if slotsPtr = 0#64 ∨ messages.length = 0 ∨ slotCount < messages.length then
    (⟨.einval, 0, messages⟩, handle, kernel)
  else if ∃ message ∈ messages, payloadSize < message.length.toNat then
    (⟨.emsgsize, 0, messages⟩, handle, kernel)
  else
    let (reply, handle', kernel') :=
      submitBatchLocked around file hasBatch handle kernel slotsPtr messages 0#32
    (withoutWait reply, handle', kernel')

/-- `sg2002_rtos_message_reap_batch` with a zero timeout. -/
def messageReapBatch (hasBatch : Bool) (handle : Handle) (kernel : Kernel) (slotsPtr : BitVec 64)
    (count : ℕ) : Reply × Handle × Kernel :=
  if slotsPtr = 0#64 ∨ count = 0 ∨ slotCount < count then (⟨.einval, 0, []⟩, handle, kernel)
  else
    let (reply, handle', kernel') :=
      reapBatchLocked around file hasBatch handle kernel slotsPtr count 0#32
    (withoutWait reply, handle', kernel')

end Sg200x.Ipc.Client
