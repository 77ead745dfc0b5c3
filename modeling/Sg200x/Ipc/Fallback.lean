import Sg200x.Ipc.Client

/-!
# The fallback of the batch calls

With a kernel that has the batch ioctls and with one that answers `-ENOTTY` to them, the
library returns the same to its callers, and leaves the same in the rings up to payload
bytes beyond the length of a message.
-/

namespace Sg200x.Ipc

open Shm Driver Ioctl

/-- The same message, up to payload bytes beyond its length. -/
structure Slot.Agrees (slot slot' : Slot) : Prop where
  sequence : slot'.sequence = slot.sequence
  length : slot'.length = slot.length
  payload : ∀ i (hi : i < payloadSize), i < slot.length.toNat → slot'.payload[i] = slot.payload[i]

theorem Slot.Agrees.refl (slot : Slot) : slot.Agrees slot := ⟨rfl, rfl, fun _ _ _ => rfl⟩

theorem Slot.Agrees.symm {slot slot' : Slot} (h : slot.Agrees slot') : slot'.Agrees slot where
  sequence := h.sequence.symm
  length := h.length.symm
  payload := by
    intro i hi hlt
    rw [h.length] at hlt
    exact (h.payload i hi hlt).symm

theorem Slot.Agrees.trans {slot slot' slot'' : Slot} (h : slot.Agrees slot')
    (h' : slot'.Agrees slot'') : slot.Agrees slot'' where
  sequence := h'.sequence.trans h.sequence
  length := h'.length.trans h.length
  payload := by
    intro i hi hlt
    have hlt' := hlt
    rw [← h.length] at hlt'
    exact (h'.payload i hi hlt').trans (h.payload i hi hlt)

/-- The same counters, and messages that agree in every slot. -/
structure Ring.Agrees (ring ring' : Ring) : Prop where
  producer : ring'.producer = ring.producer
  consumer : ring'.consumer = ring.consumer
  slots : ∀ index, (ring.slots index).Agrees (ring'.slots index)

theorem Ring.Agrees.writeSlot {ring ring' : Ring} (h : ring.Agrees ring') (index : Fin slotCount)
    {message message' : Slot} (hmessage : message.Agrees message') :
    (ring.writeSlot index message).Agrees (ring'.writeSlot index message') where
  producer := h.producer
  consumer := h.consumer
  slots := by
    intro other
    by_cases hother : other = index
    · subst hother
      simp only [Ring.writeSlot_slots, Function.update_self]
      exact hmessage
    · simp only [Ring.writeSlot_slots, Function.update_of_ne hother]
      exact h.slots other

theorem Ring.Agrees.writeSlots {ring ring' : Ring} (h : ring.Agrees ring') (counter : U32)
    {messages messages' : List Slot} (hmessages : List.Forall₂ Slot.Agrees messages messages') :
    (ring.writeSlots counter messages).Agrees (ring'.writeSlots counter messages') := by
  induction hmessages generalizing ring ring' counter with
  | nil => exact h
  | cons hmessage _ ih => exact ih (h.writeSlot _ hmessage) _

theorem Ring.Agrees.publish {ring ring' : Ring} (h : ring.Agrees ring')
    {messages messages' : List Slot} (hmessages : List.Forall₂ Slot.Agrees messages messages') :
    (ring.publish ring.producer messages).Agrees (ring'.publish ring'.producer messages') where
  producer := by
    rw [Ring.publish_producer, Ring.publish_producer, h.producer, hmessages.length_eq]
  consumer := by
    rw [Ring.publish_consumer, Ring.publish_consumer]
    exact h.consumer
  slots := by
    rw [h.producer]
    exact (h.writeSlots ring.producer hmessages).slots

namespace Client

/-! ## Messages on their way to the ring -/

/-- The driver has the messages as the library carries them to it; it sets the sequence
itself. -/
def Carries (carry : Slot → Slot) : Prop :=
  ∀ message sequence,
    ({ message with sequence } : Slot).Agrees { carry message with sequence }

theorem carries_id : Carries id := fun _ _ => .refl _

theorem carries_carried : Carries carried := by
  intro message sequence
  refine ⟨rfl, rfl, ?_⟩
  intro i hi hlt
  exact (carried_getElem message hi).trans (if_pos hlt)

theorem stamp_carried {carry carry' : Slot → Slot} (h : Carries carry) (h' : Carries carry')
    (next : U32) (messages : List Slot) :
    List.Forall₂ Slot.Agrees (stamp next (messages.map carry)).1
        (stamp next (messages.map carry')).1 ∧
      (stamp next (messages.map carry)).2 = (stamp next (messages.map carry')).2 := by
  induction messages generalizing next with
  | nil => exact ⟨.nil, rfl⟩
  | cons message messages ih =>
      obtain ⟨hrest, hnext⟩ := ih (takeSequence next).2
      exact ⟨.cons ((h message _).symm.trans (h' message _)) hrest, hnext⟩

/-! ## The ioctls on a healthy channel -/

variable {around : Surroundings} {file : File}

/-- A channel on which calls succeed while there is room and while there are responses. -/
structure Healthy (file : File) (generation : U32) (kernel : Kernel) : Prop where
  owner : isOwner kernel.transport file = true
  ready : ready kernel.transport kernel.region = true
  generation : generation = kernel.transport.generation
  request : Sane kernel.region.request
  response : Sane kernel.region.response
  responses : ∀ message ∈ kernel.region.response.queued, Sound message

/-- The free slots of the request ring. -/
def room (kernel : Kernel) : ℕ :=
  slotCount - (kernel.region.request.producer - kernel.region.request.consumer).toNat

theorem txResult_room {call : TxCall} {answer : TxPc → Answer} {memory : Memory}
    (hbatch : call.batchGeneration.isSome = true →
      call.batchGeneration = some memory.transport.generation)
    (hready : Ioctl.ready memory.transport memory.region = true)
    (hroom : (memory.region.request.producer - memory.region.request.consumer).toNat < slotCount) :
    txResult call answer memory =
      (.ok, { memory.store memory.region.request.producer
            (stamp memory.transport.nextSequence (admitted call memory.region)).1 with
          transport := kick (answer (.kick .kickNow) = .busy) { memory.transport with
            nextSequence :=
              (stamp memory.transport.nextSequence (admitted call memory.region)).2 }
          copied := (stamp memory.transport.nextSequence (admitted call memory.region)).1 }) := by
  unfold txResult
  rw [tested_eq hbatch hready, readOccupancy_eq (Nat.le_of_lt hroom)]
  simp only [if_pos hroom]
  rw [take_admitted]

theorem txResult_full {call : TxCall} {answer : TxPc → Answer} {memory : Memory}
    (hbatch : call.batchGeneration.isSome = true →
      call.batchGeneration = some memory.transport.generation)
    (hready : Ioctl.ready memory.transport memory.region = true)
    (hfull : (memory.region.request.producer - memory.region.request.consumer).toNat = slotCount) :
    txResult call answer memory = (outOfTime call.noWait, memory) := by
  unfold txResult
  rw [tested_eq hbatch hready, readOccupancy_eq (Nat.le_of_eq hfull)]
  simp only [hfull, Nat.lt_irrefl, if_false]

/-- What the driver does when it takes `messages`. -/
structure Stored (carry : Slot → Slot) (messages : List Slot) (kernel kernel' : Kernel) : Prop where
  region : kernel'.region = { kernel.region with
    request := kernel.region.request.publish kernel.region.request.producer
      (stamp kernel.transport.nextSequence (messages.map carry)).1 }
  next : kernel'.transport.nextSequence = (stamp kernel.transport.nextSequence messages).2
  channel : SameChannel kernel.transport kernel'.transport

theorem Stored.nil (carry : Slot → Slot) (kernel : Kernel) : Stored carry [] kernel kernel where
  region := by
    rw [List.map_nil, stamp, Ring.publish_nil]
  next := rfl
  channel := .refl _

theorem Stored.cons {carry : Slot → Slot} {message : Slot} {messages : List Slot}
    {kernel kernel' kernel'' : Kernel} (h : Stored carry [message] kernel kernel')
    (hrest : Stored carry messages kernel' kernel'') :
    Stored carry (message :: messages) kernel kernel'' where
  region := by
    have hpublish := Ring.publish_cons kernel.region.request kernel.region.request.producer
      { carry message with sequence := (takeSequence kernel.transport.nextSequence).1 }
      (stamp (takeSequence kernel.transport.nextSequence).2 (messages.map carry)).1
    rw [hrest.region, h.next, h.region]
    exact congrArg (fun ring => { kernel.region with request := ring }) hpublish
  next := by
    rw [hrest.next, h.next]
    rfl
  channel := h.channel.trans hrest.channel

theorem fits_carried {message : Slot} : (carried message).Fits ↔ message.Fits := Iff.rfl

theorem messageSendLocked_room {kernel : Kernel} {message : Slot} {generation : U32}
    (h : Healthy file generation kernel) (hfits : message.Fits) (hroom : 0 < room kernel) :
    ∃ kernel', messageSendLocked around file kernel message 0#32 =
        (.ok, (takeSequence kernel.transport.nextSequence).1, kernel') ∧
      Stored carried [message] kernel kernel' := by
  have hlt : (kernel.region.request.producer - kernel.region.request.consumer).toNat <
      slotCount := by
    unfold room at hroom
    omega
  have hone : admitted (sendMessage (carried message) true) kernel.region = [carried message] := by
    apply List.take_of_length_le
    exact hroom
  have hresult := @txResult_room (sendMessage (carried message) true) around.tx
    ⟨kernel.transport, kernel.region, []⟩ (sendMessage_generation _) h.ready hlt
  rw [hone] at hresult
  generalize hmemory : txResult (sendMessage (carried message) true) around.tx
    ⟨kernel.transport, kernel.region, []⟩ = memory at hresult
  have hioctl : ioctlSend around file kernel ⟨0#32, carried message⟩ =
      (memory.1, memory.2.copied, ⟨memory.2.transport, memory.2.region⟩) := by
    unfold ioctlSend ioctl
    rw [send_entered h.owner (fits_carried.mpr hfits)]
    simp only [hmemory]
  refine ⟨⟨memory.2.transport, memory.2.region⟩, ?_, ?_⟩
  · unfold messageSendLocked
    rw [if_neg (Nat.not_lt.mpr hfits), hioctl, hresult]
    exact if_neg (takeSequence_ne kernel.transport.nextSequence)
  · rw [hresult]
    exact ⟨rfl, rfl, ⟨rfl, rfl, rfl, rfl⟩⟩

theorem messageSendLocked_full {kernel : Kernel} {message : Slot} {generation : U32}
    (h : Healthy file generation kernel) (hfits : message.Fits) (hroom : room kernel = 0) :
    messageSendLocked around file kernel message 0#32 = (.eagain, 0#32, kernel) := by
  have hfull : (kernel.region.request.producer - kernel.region.request.consumer).toNat =
      slotCount := by
    have hsane := h.request
    unfold room at hroom
    unfold Sane at hsane
    omega
  have hresult := @txResult_full (sendMessage (carried message) true) around.tx
    ⟨kernel.transport, kernel.region, []⟩ (sendMessage_generation _) h.ready hfull
  unfold messageSendLocked ioctlSend ioctl
  rw [if_neg (Nat.not_lt.mpr hfits), send_entered h.owner (fits_carried.mpr hfits)]
  simp only [hresult]
  rfl

theorem Stored.occupancy {carry : Slot → Slot} {messages : List Slot} {kernel kernel' : Kernel}
    (h : Stored carry messages kernel kernel') (hroom : messages.length ≤ room kernel) :
    (kernel'.region.request.producer - kernel'.region.request.consumer).toNat =
      (kernel.region.request.producer - kernel.region.request.consumer).toNat +
        messages.length := by
  have hlength : (stamp kernel.transport.nextSequence (messages.map carry)).1.length =
      messages.length := by
    rw [length_stamp, List.length_map]
  rw [h.region, Ring.publish_producer, Ring.publish_consumer, hlength]
  unfold room at hroom
  simp only [slotCount, BitVec.toNat_sub, BitVec.toNat_add, BitVec.toNat_ofNat] at hroom ⊢
  omega

/-- A channel stays healthy while messages are stored that there is room for. -/
theorem Healthy.stored {generation : U32} {carry : Slot → Slot} {messages : List Slot}
    {kernel kernel' : Kernel} (h : Healthy file generation kernel)
    (hstored : Stored carry messages kernel kernel') (hroom : messages.length ≤ room kernel) :
    Healthy file generation kernel' ∧ room kernel' = room kernel - messages.length := by
  have hoccupancy := hstored.occupancy hroom
  have hsane := h.request
  unfold Sane at hsane
  refine ⟨⟨?_, ?_, ?_, ?_, ?_, ?_⟩, ?_⟩
  · rw [← h.owner]
    unfold isOwner
    rw [hstored.channel.owner, hstored.channel.shuttingDown]
  · rw [← h.ready]
    apply ready_congr hstored.channel <;> rw [hstored.region]
  · exact h.generation.trans hstored.channel.generation.symm
  · unfold Sane
    unfold room at hroom
    omega
  · rw [hstored.region]
    exact h.response
  · rw [hstored.region]
    exact h.responses
  · unfold room at hroom ⊢
    omega

/-- A submission of messages that all fit: the driver takes those that there is room for. -/
def submission (index : ℕ) (kernel : Kernel) (messages : List Slot) : Reply where
  ret := if 0 < index + min messages.length (room kernel) then .ok else .eagain
  completed := index + min messages.length (room kernel)
  messages := (stamp kernel.transport.nextSequence (messages.take (room kernel))).1 ++
    messages.drop (room kernel)

theorem submitEach_spec {generation : U32} {kernel : Kernel} {messages : List Slot}
    (h : Healthy file generation kernel) (hfits : ∀ message ∈ messages, message.Fits) (index : ℕ) :
    ∃ kernel', submitEach around file 0#32 index kernel messages =
        (submission index kernel messages, kernel') ∧
      Stored carried (messages.take (room kernel)) kernel kernel' := by
  induction messages generalizing kernel index with
  | nil =>
      refine ⟨kernel, ?_, ?_⟩
      · simp [submitEach, submission, stamp]
      · rw [List.take_nil]
        exact .nil carried kernel
  | cons message messages ih =>
      have hmessage := hfits message List.mem_cons_self
      unfold submitEach
      rw [ite_self]
      rcases Nat.eq_zero_or_pos (room kernel) with hroom | hroom
      · refine ⟨kernel, ?_, ?_⟩
        · rw [messageSendLocked_full h hmessage hroom]
          simp only [submission, hroom, Nat.min_zero, Nat.add_zero, true_or, and_true,
            List.take_zero, stamp, List.nil_append, List.drop_zero]
        · rw [hroom, List.take_zero]
          exact .nil carried kernel
      · obtain ⟨kernel', hsend, hstored⟩ := @messageSendLocked_room around _ _ _ _ h hmessage hroom
        obtain ⟨hhealthy, hleft⟩ := h.stored hstored hroom
        have hroom' : room kernel = room kernel' + 1 := by
          rw [hleft, List.length_singleton]
          omega
        obtain ⟨kernel'', hrest, hstored'⟩ := ih hhealthy
          (fun message hmem => hfits message (List.mem_cons_of_mem _ hmem)) (index + 1)
        refine ⟨kernel'', ?_, ?_⟩
        · rw [hsend]
          simp only [hrest]
          rw [Prod.mk.injEq, Reply.mk.injEq]
          refine ⟨⟨?_, ?_, ?_⟩, rfl⟩
          · simp only [submission, hroom', List.length_cons, Nat.succ_min_succ]
            rw [if_pos (by omega), if_pos (by omega)]
          · simp only [submission, hroom', List.length_cons, Nat.succ_min_succ]
            omega
          · simp only [submission, hroom', List.take_succ_cons, List.drop_succ_cons, stamp,
              List.cons_append, hstored.next]
        · rw [hroom', List.take_succ_cons]
          exact hstored.cons hstored'

theorem copyBatchFromUser_batchOf {slotsPtr : BitVec 64} {generation : U32} {count : ℕ}
    (hptr : slotsPtr ≠ 0#64) (hcount : count ≠ 0) (hle : count ≤ slotCount) :
    copyBatchFromUser (some (batchOf slotsPtr 0#32 generation count)) =
        .ok (batchOf slotsPtr 0#32 generation count) ∧
      (batchOf slotsPtr 0#32 generation count).count.toNat = count := by
  have hcast : (BitVec.ofNat 16 count).toNat = count := by
    rw [BitVec.toNat_ofNat]
    exact Nat.mod_eq_of_lt (by simp only [slotCount] at hle; omega)
  have hne : BitVec.ofNat 16 count ≠ 0#16 := by
    intro hzero
    rw [hzero] at hcast
    exact hcount hcast.symm
  refine ⟨if_neg ?_, hcast⟩
  rintro (h | h | h | h | h | h)
  · exact hptr h
  · exact hne h
  · have hlarge : slotCount < (BitVec.ofNat 16 count).toNat := h
    omega
  · exact h rfl
  · exact h rfl
  · exact h rfl

theorem range_map_getElem! (messages : List Slot) :
    (List.range messages.length).map (fun index => messages[index]!) = messages := by
  apply List.ext_getElem
  · simp
  · intro i h h'
    rw [List.getElem_map, List.getElem_range]
    exact getElem!_pos messages i h'

theorem submit_batchOf {generation : U32} {kernel : Kernel} {slotsPtr : BitVec 64}
    {messages : List Slot} (howner : isOwner kernel.transport file = true)
    (hptr : slotsPtr ≠ 0#64) (hcount : messages.length ≠ 0) (hle : messages.length ≤ slotCount)
    (hfits : ∀ message ∈ messages, message.Fits) :
    submit kernel.transport file (some (batchOf slotsPtr 0#32 generation messages.length))
        (some fun index => messages[index]!) =
      .ok (submitBatch generation messages true, (submitBatch generation messages true).loop true) := by
  obtain ⟨hcopy, hlength⟩ := @copyBatchFromUser_batchOf slotsPtr generation _ hptr hcount hle
  unfold submit
  rw [if_pos howner, hcopy]
  simp only [hlength, range_map_getElem!]
  have henter : (submitBatch generation messages true).enter =
      .running ((submitBatch generation messages true).loop true) := by
    unfold TxCall.enter submitBatch
    rw [if_neg, if_pos hfits]
    rintro (hnil | hlarge)
    · exact hcount (congrArg List.length hnil)
    · exact absurd hlarge (by simpa using hle)
  change entered _ (submitBatch generation messages true).enter = _
  rw [henter]
  rfl

/-- A submission by a kernel that has the batch ioctls. -/
theorem ioctlSubmitBatch_spec {generation : U32} {kernel : Kernel} {slotsPtr : BitVec 64}
    {messages : List Slot} (h : Healthy file generation kernel) (hptr : slotsPtr ≠ 0#64)
    (hcount : messages.length ≠ 0) (hle : messages.length ≤ slotCount)
    (hfits : ∀ message ∈ messages, message.Fits) :
    ∃ kernel', ioctlSubmitBatch around file kernel
        (batchOf slotsPtr 0#32 generation messages.length) messages =
        (if 0 < room kernel then .ok else .eagain,
          (stamp kernel.transport.nextSequence (messages.take (room kernel))).1, kernel') ∧
      Stored id (messages.take (room kernel)) kernel kernel' := by
  have hbatch : (submitBatch generation messages true).batchGeneration =
      some kernel.transport.generation := congrArg some h.generation
  unfold ioctlSubmitBatch ioctl
  rw [submit_batchOf h.owner hptr hcount hle hfits]
  rcases Nat.eq_zero_or_pos (room kernel) with hroom | hroom
  · have hfull : (kernel.region.request.producer - kernel.region.request.consumer).toNat =
        slotCount := by
      have hsane := h.request
      unfold room at hroom
      unfold Sane at hsane
      omega
    have hresult := @txResult_full (submitBatch generation messages true) around.tx
      ⟨kernel.transport, kernel.region, []⟩ (fun _ => hbatch) h.ready hfull
    refine ⟨kernel, ?_, ?_⟩
    · simp only [hresult, hroom, Nat.lt_irrefl, if_false, List.take_zero, stamp]
      rfl
    · rw [hroom, List.take_zero]
      exact .nil id kernel
  · have hlt : (kernel.region.request.producer - kernel.region.request.consumer).toNat <
        slotCount := by
      unfold room at hroom
      omega
    have hresult := @txResult_room (submitBatch generation messages true) around.tx
      ⟨kernel.transport, kernel.region, []⟩ (fun _ => hbatch) h.ready hlt
    have hadmitted : admitted (submitBatch generation messages true) kernel.region =
        messages.take (room kernel) := rfl
    rw [hadmitted] at hresult
    generalize hmemory : txResult (submitBatch generation messages true) around.tx
      ⟨kernel.transport, kernel.region, []⟩ = memory at hresult
    refine ⟨⟨memory.2.transport, memory.2.region⟩, ?_, ?_⟩
    · simp only [hmemory, hresult, if_pos hroom]
    · rw [hresult]
      exact ⟨by rw [List.map_id]; rfl, rfl, ⟨rfl, rfl, rfl, rfl⟩⟩

/-- Two handles that differ in what they know about the kernel's batch ioctls. -/
structure Handle.Agrees (handle handle' : Handle) : Prop where
  generation : handle'.generation = handle.generation
  retained : handle'.retained = handle.retained

theorem submitBatchLocked_spec {hasBatch : Bool} {handle : Handle} {kernel : Kernel}
    {slotsPtr : BitVec 64} {messages : List Slot} (h : Healthy file handle.generation kernel)
    (hptr : slotsPtr ≠ 0#64) (hcount : messages.length ≠ 0) (hle : messages.length ≤ slotCount)
    (hfits : ∀ message ∈ messages, message.Fits) :
    ∃ carry handle' kernel',
      submitBatchLocked around file hasBatch handle kernel slotsPtr messages 0#32 =
        (submission 0 kernel messages, handle', kernel') ∧
      Carries carry ∧ handle.Agrees handle' ∧
      Stored carry (messages.take (room kernel)) kernel kernel' := by
  unfold submitBatchLocked
  by_cases hnative : handle.submitBatchSupported ≠ .unsupported ∧ hasBatch = true
  · rw [if_pos hnative]
    obtain ⟨kernel', hioctl, hstored⟩ :=
      @ioctlSubmitBatch_spec around file _ _ _ _ h hptr hcount hle hfits
    rw [hioctl]
    rcases Nat.eq_zero_or_pos (room kernel) with hroom | hroom
    · refine ⟨id, { handle with submitBatchSupported := .supported }, kernel', ?_, carries_id,
        ⟨rfl, rfl⟩, hstored⟩
      simp [submission, hroom, stamp]
    · refine ⟨id, { handle with submitBatchSupported := .supported }, kernel', ?_, carries_id,
        ⟨rfl, rfl⟩, hstored⟩
      have hlength : (stamp kernel.transport.nextSequence
          (messages.take (room kernel))).1.length = min messages.length (room kernel) := by
        rw [length_stamp, List.length_take, Nat.min_comm]
      have hdrop : messages.drop (min messages.length (room kernel)) =
          messages.drop (room kernel) := by
        rcases Nat.le_total messages.length (room kernel) with hlong | hshort
        · rw [Nat.min_eq_left hlong, List.drop_length, List.drop_of_length_le hlong]
        · rw [Nat.min_eq_right hshort]
      have hsound : ¬ ∃ message ∈ (stamp kernel.transport.nextSequence
          (messages.take (room kernel))).1, message.sequence = 0#32 := by
        rintro ⟨message, hmem, hzero⟩
        exact (sound_of_mem_stamp _ (fun message hmem => hfits message (List.mem_of_mem_take hmem))
          _ message hmem).2 hzero
      have hgood : ¬ ((stamp kernel.transport.nextSequence
            (messages.take (room kernel))).1.length = 0 ∨
          messages.length < (stamp kernel.transport.nextSequence
            (messages.take (room kernel))).1.length ∨
          ∃ message ∈ (stamp kernel.transport.nextSequence (messages.take (room kernel))).1,
            message.sequence = 0#32) := by
        rw [hlength]
        rintro (hzero | hlarge | hsequence)
        · omega
        · omega
        · exact hsound hsequence
      simp only [if_pos hroom, if_neg hgood]
      rw [Prod.mk.injEq, Reply.mk.injEq]
      refine ⟨⟨?_, ?_, ?_⟩, rfl⟩
      · exact (if_pos (by omega)).symm
      · rw [hlength]
        exact (Nat.zero_add _).symm
      · rw [hlength, hdrop]
        rfl
  · rw [if_neg hnative]
    obtain ⟨kernel', heach, hstored⟩ := @submitEach_spec around file _ _ _ h hfits 0
    rw [heach]
    exact ⟨carried, { handle with submitBatchSupported := .unsupported }, kernel', rfl,
      carries_carried, ⟨rfl, rfl⟩, hstored⟩

/-! ## Responses -/

/-- What the driver does when it delivers `n` responses. -/
structure Delivered (n : ℕ) (kernel kernel' : Kernel) : Prop where
  region : kernel'.region = kernel.region.consume n
  next : kernel'.transport.nextSequence = kernel.transport.nextSequence
  channel : SameChannel kernel.transport kernel'.transport

theorem Delivered.zero (kernel : Kernel) : Delivered 0 kernel kernel where
  region := by
    unfold Region.consume Ring.consume
    rw [BitVec.add_zero]
  next := rfl
  channel := .refl _

theorem Delivered.trans {m n : ℕ} {kernel kernel' kernel'' : Kernel}
    (h : Delivered m kernel kernel') (h' : Delivered n kernel' kernel'') :
    Delivered (m + n) kernel kernel'' where
  region := by
    rw [h'.region, h.region, Region.consume_consume]
  next := h'.next.trans h.next
  channel := h.channel.trans h'.channel

theorem Healthy.delivered {generation : U32} {n : ℕ} {kernel kernel' : Kernel}
    (h : Healthy file generation kernel) (hdelivered : Delivered n kernel kernel')
    (hn : n ≤ kernel.region.response.queued.length) :
    Healthy file generation kernel' ∧
      kernel'.region.response.queued = kernel.region.response.queued.drop n := by
  have hqueued : kernel'.region.response.queued = kernel.region.response.queued.drop n := by
    rw [hdelivered.region]
    exact Ring.queued_consume _ hn
  refine ⟨⟨?_, ?_, ?_, ?_, ?_, ?_⟩, hqueued⟩
  · rw [← h.owner]
    unfold isOwner
    rw [hdelivered.channel.owner, hdelivered.channel.shuttingDown]
  · rw [← h.ready]
    apply ready_congr hdelivered.channel <;> rw [hdelivered.region] <;> rfl
  · exact h.generation.trans hdelivered.channel.generation.symm
  · rw [hdelivered.region]
    exact h.request
  · have hlength := congrArg List.length hqueued
    have hsane := h.response
    rw [List.length_drop, Ring.length_queued, Ring.length_queued] at hlength
    unfold Sane at hsane ⊢
    omega
  · rw [hqueued]
    exact fun message hmem => h.responses message (List.mem_of_mem_drop hmem)

theorem rxResult_found {call : RxCall} {generation : U32} {kernel : Kernel} {answer : RxPc → Answer}
    (h : Healthy file generation kernel)
    (hbatch : call.batchGeneration.isSome = true →
      call.batchGeneration = some kernel.transport.generation)
    (hcount : call.count ≠ 0) (hqueued : kernel.region.response.queued ≠ []) :
    ∃ memory, rxResult call answer ⟨kernel.transport, kernel.region, []⟩ = (.ok, memory) ∧
      memory.copied = kernel.region.response.queued.take call.count ∧
      Delivered (min call.count kernel.region.response.queued.length) kernel
        ⟨memory.transport, memory.region⟩ := by
  have haccepted : accepted call kernel.region =
      kernel.region.response.queued.take call.count := by
    apply List.takeWhile_eq_self_iff.mpr
    intro message hmem
    have hsound := h.responses message (List.mem_of_mem_take hmem)
    exact decide_eq_true (RxCall.not_rejects hsound call)
  have hne : accepted call kernel.region ≠ [] := by
    rw [haccepted]
    exact fun hnil => (List.take_eq_nil_iff.mp hnil).elim hcount hqueued
  unfold rxResult
  rw [tested_eq hbatch h.ready]
  simp only [h.response, not_true, if_false, if_neg hqueued]
  unfold received
  rw [if_neg hne]
  refine ⟨_, rfl, ?_, ?_⟩
  · exact haccepted
  · have hlength : (accepted call kernel.region).length =
        min call.count kernel.region.response.queued.length := by
      rw [haccepted, List.length_take]
    refine ⟨?_, ?_, ?_⟩
    · rw [← hlength]
      rfl
    · simp only [Memory.consume]
      split_ifs <;> rfl
    · simp only [Memory.consume]
      split_ifs
      · exact (kicked_kick _ _).channel
      · exact .refl _

theorem rxResult_none {call : RxCall} {generation : U32} {kernel : Kernel} {answer : RxPc → Answer}
    (h : Healthy file generation kernel)
    (hbatch : call.batchGeneration.isSome = true →
      call.batchGeneration = some kernel.transport.generation)
    (hqueued : kernel.region.response.queued = []) :
    rxResult call answer ⟨kernel.transport, kernel.region, []⟩ =
      (outOfTime call.noWait, ⟨kernel.transport, kernel.region, []⟩) := by
  unfold rxResult
  rw [tested_eq hbatch h.ready]
  simp only [h.response, not_true, if_false, hqueued, if_true]

theorem receiveFromKernelLocked_none {generation : U32} {kernel : Kernel}
    (h : Healthy file generation kernel) (hqueued : kernel.region.response.queued = []) :
    receiveFromKernelLocked around file kernel 0#32 = (.eagain, Slot.zero, kernel) := by
  have hresult := @rxResult_none file (receiveMessage true) generation kernel around.rx h
    (receiveMessage_generation _) hqueued
  unfold receiveFromKernelLocked ioctlReceive ioctl
  rw [receive_entered h.owner]
  simp only [hresult]
  rfl

theorem receiveFromKernelLocked_found {generation : U32} {kernel : Kernel} {message : Slot}
    {rest : List Slot} (h : Healthy file generation kernel)
    (hqueued : kernel.region.response.queued = message :: rest) :
    ∃ kernel', receiveFromKernelLocked around file kernel 0#32 = (.ok, message, kernel') ∧
      Delivered 1 kernel kernel' := by
  obtain ⟨memory, hresult, hcopied, hdelivered⟩ :=
    @rxResult_found file (receiveMessage true) generation kernel around.rx h
      (receiveMessage_generation _) Nat.one_ne_zero (by rw [hqueued]; exact List.cons_ne_nil _ _)
  have hsound := h.responses message (by rw [hqueued]; exact List.mem_cons_self)
  have hgood : ¬ (message.sequence = 0#32 ∨ payloadSize < message.length.toNat) := by
    rintro (hzero | hlarge)
    · exact hsound.2 hzero
    · exact Nat.not_lt.mpr hsound.1 hlarge
  refine ⟨⟨memory.transport, memory.region⟩, ?_, ?_⟩
  · unfold receiveFromKernelLocked ioctlReceive ioctl
    rw [receive_entered h.owner]
    simp only [hresult, hcopied, hqueued]
    exact if_neg hgood
  · rw [hqueued] at hdelivered
    exact hdelivered

/-- The responses that a reap takes which finds nothing retained. -/
def reaping (index : ℕ) (kernel : Kernel) (count : ℕ) : Reply where
  ret := if 0 < index + min count kernel.region.response.queued.length then .ok else .eagain
  completed := index + min count kernel.region.response.queued.length
  messages := kernel.region.response.queued.take count

theorem reapEach_spec {generation : U32} {kernel : Kernel} {count : ℕ}
    (h : Healthy file generation kernel) (index : ℕ) :
    ∃ kernel', reapEach around file 0#32 index count kernel =
        (reaping index kernel count, kernel') ∧
      Delivered (min count kernel.region.response.queued.length) kernel kernel' := by
  induction count generalizing kernel index with
  | zero =>
      refine ⟨kernel, ?_, ?_⟩
      · simp [reapEach, reaping]
      · rw [Nat.zero_min]
        exact .zero kernel
  | succ count ih =>
      unfold reapEach
      rw [ite_self]
      rcases hqueued : kernel.region.response.queued with - | ⟨message, rest⟩
      · refine ⟨kernel, ?_, ?_⟩
        · rw [receiveFromKernelLocked_none h hqueued]
          simp [reaping, hqueued]
        · exact .zero kernel
      · obtain ⟨kernel', hreceive, hdelivered⟩ := @receiveFromKernelLocked_found around _ _ _ _ _ h
          hqueued
        obtain ⟨hhealthy, hrest⟩ := h.delivered hdelivered (by rw [hqueued]; simp)
        rw [hqueued, List.drop_succ_cons, List.drop_zero] at hrest
        obtain ⟨kernel'', heach, hdelivered'⟩ := ih hhealthy (index + 1)
        refine ⟨kernel'', ?_, ?_⟩
        · rw [hreceive]
          simp only [heach]
          rw [Prod.mk.injEq, Reply.mk.injEq]
          refine ⟨⟨?_, ?_, ?_⟩, rfl⟩
          · simp only [reaping, hqueued, hrest, List.length_cons, Nat.succ_min_succ]
            rw [if_pos (by omega), if_pos (by omega)]
          · simp only [reaping, hqueued, hrest, List.length_cons, Nat.succ_min_succ]
            omega
          · simp only [reaping, hqueued, hrest, List.take_succ_cons]
        · rw [List.length_cons, Nat.succ_min_succ, ← Nat.one_add, ← hrest]
          exact hdelivered.trans hdelivered'

theorem reap_batchOf {generation : U32} {kernel : Kernel} {slotsPtr : BitVec 64} {count : ℕ}
    (howner : isOwner kernel.transport file = true) (hptr : slotsPtr ≠ 0#64) (hcount : count ≠ 0)
    (hle : count ≤ slotCount) :
    reap kernel.transport file (some (batchOf slotsPtr 0#32 generation count)) =
      .ok (reapBatch generation count true, (reapBatch generation count true).loop true) := by
  obtain ⟨hcopy, hlength⟩ := @copyBatchFromUser_batchOf slotsPtr generation _ hptr hcount hle
  unfold reap
  rw [if_pos howner, hcopy]
  simp only [hlength]
  have henter : (reapBatch generation count true).enter =
      .running ((reapBatch generation count true).loop true) := by
    unfold RxCall.enter reapBatch
    rw [if_neg]
    rintro (hzero | hlarge)
    · exact hcount hzero
    · exact absurd hlarge (Nat.not_lt.mpr hle)
  change entered _ (reapBatch generation count true).enter = _
  rw [henter]
  rfl

/-- A reap by a kernel that has the batch ioctls. -/
theorem ioctlReapBatch_spec {generation : U32} {kernel : Kernel} {slotsPtr : BitVec 64} {count : ℕ}
    (h : Healthy file generation kernel) (hptr : slotsPtr ≠ 0#64) (hcount : count ≠ 0)
    (hle : count ≤ slotCount) :
    ∃ kernel', ioctlReapBatch around file kernel (batchOf slotsPtr 0#32 generation count) =
        (if kernel.region.response.queued = [] then .eagain else .ok,
          kernel.region.response.queued.take count, kernel') ∧
      Delivered (min count kernel.region.response.queued.length) kernel kernel' := by
  have hbatch : (reapBatch generation count true).batchGeneration =
      some kernel.transport.generation := congrArg some h.generation
  unfold ioctlReapBatch ioctl
  rw [reap_batchOf h.owner hptr hcount hle]
  by_cases hqueued : kernel.region.response.queued = []
  · have hresult := @rxResult_none file (reapBatch generation count true) generation kernel
      around.rx h (fun _ => hbatch) hqueued
    refine ⟨kernel, ?_, ?_⟩
    · simp only [hresult, hqueued, if_true, List.take_nil]
      rfl
    · rw [hqueued, List.length_nil, Nat.min_zero]
      exact .zero kernel
  · obtain ⟨memory, hresult, hcopied, hdelivered⟩ :=
      @rxResult_found file (reapBatch generation count true) generation kernel around.rx h
        (fun _ => hbatch) hcount hqueued
    refine ⟨⟨memory.transport, memory.region⟩, ?_, hdelivered⟩
    simp only [hresult, hcopied, if_neg hqueued]
    rfl

/-- What the library makes of the retained messages, if there are any. -/
theorem reapBatchLocked_none {hasBatch : Bool} {handle : Handle} {retained : Retained Slot}
    {kernel : Kernel} {slotsPtr : BitVec 64} {count : ℕ}
    (h : Healthy file handle.generation kernel) (hptr : slotsPtr ≠ 0#64) (hcount : count ≠ 0)
    (hle : count ≤ slotCount) (hnone : takePending count handle.retained = (.ok [], retained)) :
    ∃ handle' kernel',
      reapBatchLocked around file hasBatch handle kernel slotsPtr count 0#32 =
        (reaping 0 kernel count, handle', kernel') ∧
      handle'.generation = handle.generation ∧ handle'.retained = retained ∧
      Delivered (min count kernel.region.response.queued.length) kernel kernel' := by
  unfold reapBatchLocked
  rw [hnone]
  simp only []
  by_cases hnative : handle.reapBatchSupported ≠ .unsupported ∧ hasBatch = true
  · rw [if_pos hnative]
    obtain ⟨kernel', hioctl, hdelivered⟩ :=
      @ioctlReapBatch_spec around file _ _ _ _ h hptr hcount hle
    refine ⟨{ handle with retained := retained, reapBatchSupported := .supported }, kernel', ?_,
      rfl, rfl, hdelivered⟩
    rw [hioctl]
    by_cases hqueued : kernel.region.response.queued = []
    · simp [reaping, hqueued]
    · have hpos := List.length_pos_of_ne_nil hqueued
      have hgood : ¬ ((kernel.region.response.queued.take count).length = 0 ∨
          count < (kernel.region.response.queued.take count).length ∨
          ∃ message ∈ kernel.region.response.queued.take count,
            message.sequence = 0#32 ∨ payloadSize < message.length.toNat) := by
        rw [List.length_take]
        rintro (hzero | hlarge | ⟨message, hmem, hbad⟩)
        · omega
        · omega
        · have hsound := h.responses message (List.mem_of_mem_take hmem)
          exact hbad.elim hsound.2 (Nat.not_lt.mpr hsound.1)
      simp only [if_neg hqueued]
      rw [if_neg hgood, List.length_take, Prod.mk.injEq, Reply.mk.injEq]
      refine ⟨⟨?_, ?_, rfl⟩, rfl⟩
      · exact (if_pos (by omega)).symm
      · exact (Nat.zero_add _).symm
  · rw [if_neg hnative]
    obtain ⟨kernel', heach, hdelivered⟩ := @reapEach_spec around file _ _ count h 0
    rw [heach]
    exact ⟨_, kernel', rfl, rfl, rfl, hdelivered⟩

/-! ## Two kernels -/

/-- Two kernels that a caller cannot tell apart. -/
structure Kernel.Agrees (kernel kernel' : Kernel) : Prop where
  channel : SameChannel kernel.transport kernel'.transport
  next : kernel'.transport.nextSequence = kernel.transport.nextSequence
  layout : kernel'.region.layout = kernel.region.layout
  linuxPeer : kernel'.region.linuxPeer = kernel.region.linuxPeer
  rtosPeer : kernel'.region.rtosPeer = kernel.region.rtosPeer
  request : kernel.region.request.Agrees kernel'.region.request
  response : kernel'.region.response = kernel.region.response

theorem Kernel.Agrees.healthy {generation : U32} {kernel kernel' : Kernel}
    (h : kernel.Agrees kernel') (hhealthy : Healthy file generation kernel) :
    Healthy file generation kernel' where
  owner := by
    rw [← hhealthy.owner]
    unfold isOwner
    rw [h.channel.owner, h.channel.shuttingDown]
  ready := by
    rw [← hhealthy.ready]
    exact ready_congr h.channel h.layout h.linuxPeer h.rtosPeer
  generation := hhealthy.generation.trans h.channel.generation.symm
  request := by
    have hsane := hhealthy.request
    unfold Sane at hsane ⊢
    rw [h.request.producer, h.request.consumer]
    exact hsane
  response := by
    rw [h.response]
    exact hhealthy.response
  responses := by
    rw [h.response]
    exact hhealthy.responses

theorem Kernel.Agrees.room {kernel kernel' : Kernel} (h : kernel.Agrees kernel') :
    Client.room kernel' = Client.room kernel := by
  unfold Client.room
  rw [h.request.producer, h.request.consumer]

/-- Transports of one channel each have gone through calls. -/
theorem sameChannel_square {transport transport' next next' : Transport}
    (h : SameChannel transport transport') (hnext : SameChannel transport next)
    (hnext' : SameChannel transport' next') : SameChannel next next' where
  owner := (hnext'.owner.trans h.owner).trans hnext.owner.symm
  generation := (hnext'.generation.trans h.generation).trans hnext.generation.symm
  notifications := (hnext'.notifications.trans h.notifications).trans hnext.notifications.symm
  shuttingDown := (hnext'.shuttingDown.trans h.shuttingDown).trans hnext.shuttingDown.symm

theorem Kernel.Agrees.stored {carry carry' : Slot → Slot} {messages : List Slot}
    {kernel kernel' next next' : Kernel} (h : kernel.Agrees kernel') (hcarry : Carries carry)
    (hcarry' : Carries carry') (hstored : Stored carry messages kernel next)
    (hstored' : Stored carry' messages kernel' next') : next.Agrees next' where
  channel := sameChannel_square h.channel hstored.channel hstored'.channel
  next := by
    rw [hstored'.next, hstored.next, h.next]
  layout := by
    rw [hstored'.region, hstored.region]
    exact h.layout
  linuxPeer := by
    rw [hstored'.region, hstored.region]
    exact h.linuxPeer
  rtosPeer := by
    rw [hstored'.region, hstored.region]
    exact h.rtosPeer
  request := by
    rw [hstored'.region, hstored.region, h.next]
    exact h.request.publish (stamp_carried hcarry hcarry' _ _).1
  response := by
    rw [hstored'.region, hstored.region]
    exact h.response

theorem Kernel.Agrees.delivered {n : ℕ} {kernel kernel' next next' : Kernel}
    (h : kernel.Agrees kernel') (hdelivered : Delivered n kernel next)
    (hdelivered' : Delivered n kernel' next') : next.Agrees next' where
  channel := sameChannel_square h.channel hdelivered.channel hdelivered'.channel
  next := by
    rw [hdelivered'.next, hdelivered.next, h.next]
  layout := by
    rw [hdelivered'.region, hdelivered.region]
    exact h.layout
  linuxPeer := by
    rw [hdelivered'.region, hdelivered.region]
    exact h.linuxPeer
  rtosPeer := by
    rw [hdelivered'.region, hdelivered.region]
    exact h.rtosPeer
  request := by
    rw [hdelivered'.region, hdelivered.region]
    exact h.request
  response := by
    rw [hdelivered'.region, hdelivered.region]
    exact congrArg (fun ring => Ring.consume ring n) h.response

/-! ## Sequences of calls -/

/-- The batch calls of a program, with a zero timeout. -/
inductive Op
  | submit (slotsPtr : BitVec 64) (messages : List Slot)
  | reap (slotsPtr : BitVec 64) (count : ℕ)

/-- A handle and the kernel that it is open on. -/
structure System where
  handle : Handle
  kernel : Kernel

def step (file : File) (hasBatch : Bool) (around : Surroundings) (system : System) :
    Op → Reply × System
  | .submit slotsPtr messages =>
      let (reply, handle, kernel) :=
        messageSubmitBatch around file hasBatch system.handle system.kernel slotsPtr messages
      (reply, ⟨handle, kernel⟩)
  | .reap slotsPtr count =>
      let (reply, handle, kernel) :=
        messageReapBatch around file hasBatch system.handle system.kernel slotsPtr count
      (reply, ⟨handle, kernel⟩)

/-- The replies of the calls, with the system that each of them leaves. -/
def run (file : File) (hasBatch : Bool) :
    System → List (Surroundings × Op) → List (Reply × System)
  | _, [] => []
  | system, (around, op) :: ops =>
      let (reply, system') := step file hasBatch around system op
      (reply, system') :: run file hasBatch system' ops

structure System.Agrees (system system' : System) : Prop where
  handle : system.handle.Agrees system'.handle
  kernel : system.kernel.Agrees system'.kernel

theorem submission_congr {kernel kernel' : Kernel} (h : kernel.Agrees kernel') (index : ℕ)
    (messages : List Slot) : submission index kernel' messages = submission index kernel messages := by
  unfold submission
  rw [h.room, h.next]

theorem reaping_congr {kernel kernel' : Kernel} (h : kernel.Agrees kernel') (index count : ℕ) :
    reaping index kernel' count = reaping index kernel count := by
  unfold reaping
  rw [h.response]

section Steps

variable {system system' : System} {hasBatch hasBatch' : Bool} {around around' : Surroundings}

/-- What one call leaves to be compared: the replies are one, and the systems agree. -/
structure StepAgrees (file : File) (out out' : Reply × System) : Prop where
  reply : out'.1 = out.1
  system : out.2.Agrees out'.2
  healthy : Healthy file out.2.handle.generation out.2.kernel

theorem submit_agrees (h : system.Agrees system')
    (hhealthy : Healthy file system.handle.generation system.kernel) (slotsPtr : BitVec 64)
    (messages : List Slot) :
    StepAgrees file (step file hasBatch around system (.submit slotsPtr messages))
      (step file hasBatch' around' system' (.submit slotsPtr messages)) := by
  unfold step messageSubmitBatch
  by_cases hinvalid : slotsPtr = 0#64 ∨ messages.length = 0 ∨ slotCount < messages.length
  · simp only [if_pos hinvalid]
    exact ⟨rfl, h, hhealthy⟩
  · by_cases hlarge : ∃ message ∈ messages, payloadSize < message.length.toNat
    · simp only [if_neg hinvalid, if_pos hlarge]
      exact ⟨rfl, h, hhealthy⟩
    · simp only [if_neg hinvalid, if_neg hlarge]
      have hptr : slotsPtr ≠ 0#64 := fun hzero => hinvalid (.inl hzero)
      have hcount : messages.length ≠ 0 := fun hzero => hinvalid (.inr (.inl hzero))
      have hle : messages.length ≤ slotCount :=
        Nat.not_lt.mp fun hlt => hinvalid (.inr (.inr hlt))
      have hfits : ∀ message ∈ messages, message.Fits :=
        fun message hmem => Nat.not_lt.mp fun hlt => hlarge ⟨message, hmem, hlt⟩
      have hhealthy' : Healthy file system'.handle.generation system'.kernel := by
        rw [h.handle.generation]
        exact h.kernel.healthy hhealthy
      obtain ⟨carry, handle, kernel, hlocked, hcarry, hhandle, hstored⟩ :=
        @submitBatchLocked_spec around file hasBatch _ _ _ _ hhealthy hptr hcount hle hfits
      obtain ⟨carry', handle', kernel', hlocked', hcarry', hhandle', hstored'⟩ :=
        @submitBatchLocked_spec around' file hasBatch' _ _ _ _ hhealthy' hptr hcount hle hfits
      rw [hlocked, hlocked']
      rw [h.kernel.room] at hstored'
      refine ⟨?_, ⟨⟨?_, ?_⟩, h.kernel.stored hcarry hcarry' hstored hstored'⟩, ?_⟩
      · rw [submission_congr h.kernel]
      · rw [hhandle'.generation, hhandle.generation, h.handle.generation]
      · rw [hhandle'.retained, hhandle.retained, h.handle.retained]
      · rw [hhandle.generation]
        exact (hhealthy.stored hstored (List.length_take_le _ _)).1

theorem reap_agrees (h : system.Agrees system')
    (hhealthy : Healthy file system.handle.generation system.kernel) (slotsPtr : BitVec 64)
    (count : ℕ) :
    StepAgrees file (step file hasBatch around system (.reap slotsPtr count))
      (step file hasBatch' around' system' (.reap slotsPtr count)) := by
  unfold step messageReapBatch
  by_cases hinvalid : slotsPtr = 0#64 ∨ count = 0 ∨ slotCount < count
  · simp only [if_pos hinvalid]
    exact ⟨rfl, h, hhealthy⟩
  · simp only [if_neg hinvalid]
    have hptr : slotsPtr ≠ 0#64 := fun hzero => hinvalid (.inl hzero)
    have hcount : count ≠ 0 := fun hzero => hinvalid (.inr (.inl hzero))
    have hle : count ≤ slotCount := Nat.not_lt.mp fun hlt => hinvalid (.inr (.inr hlt))
    have htaken' : takePending count system'.handle.retained =
        takePending count system.handle.retained := by
      rw [h.handle.retained]
    rcases htaken : takePending count system.handle.retained with ⟨ret | messages, retained⟩
    · unfold reapBatchLocked
      rw [htaken', htaken]
      exact ⟨rfl, ⟨⟨h.handle.generation, rfl⟩, h.kernel⟩, hhealthy⟩
    · cases messages with
      | cons message messages =>
          unfold reapBatchLocked
          rw [htaken', htaken]
          exact ⟨rfl, ⟨⟨h.handle.generation, rfl⟩, h.kernel⟩, hhealthy⟩
      | nil =>
          have hhealthy' : Healthy file system'.handle.generation system'.kernel := by
            rw [h.handle.generation]
            exact h.kernel.healthy hhealthy
          obtain ⟨handle, kernel, hlocked, hgeneration, hretained, hdelivered⟩ :=
            @reapBatchLocked_none around file hasBatch _ _ _ _ _ hhealthy hptr hcount hle htaken
          obtain ⟨handle', kernel', hlocked', hgeneration', hretained', hdelivered'⟩ :=
            @reapBatchLocked_none around' file hasBatch' _ _ _ _ _ hhealthy' hptr hcount hle
              (htaken'.trans htaken)
          rw [hlocked, hlocked']
          rw [h.kernel.response] at hdelivered'
          refine ⟨?_, ⟨⟨?_, ?_⟩, h.kernel.delivered hdelivered hdelivered'⟩, ?_⟩
          · rw [reaping_congr h.kernel]
          · rw [hgeneration', hgeneration, h.handle.generation]
          · rw [hretained', hretained]
          · rw [hgeneration]
            exact (hhealthy.delivered hdelivered (Nat.min_le_right _ _)).1

/-- A kernel that has the batch ioctls and one that answers `-ENOTTY` to them: call by call,
the same replies, and systems that agree. -/
theorem fallback_transparent (h : system.Agrees system')
    (hhealthy : Healthy file system.handle.generation system.kernel)
    (ops : List (Surroundings × Surroundings × Op)) :
    List.Forall₂ (fun out out' => out'.1 = out.1 ∧ out.2.Agrees out'.2)
      (run file true system (ops.map fun op => (op.1, op.2.2)))
      (run file false system' (ops.map fun op => (op.2.1, op.2.2))) := by
  induction ops generalizing system system' with
  | nil => exact .nil
  | cons op ops ih =>
      obtain ⟨around, around', op⟩ := op
      have hstep : StepAgrees file (step file true around system op)
          (step file false around' system' op) := by
        cases op with
        | submit slotsPtr messages => exact submit_agrees h hhealthy slotsPtr messages
        | reap slotsPtr count => exact reap_agrees h hhealthy slotsPtr count
      exact .cons ⟨hstep.reply, hstep.system⟩ (ih hstep.system hstep.healthy)

end Steps

/-- A handle that has just been opened. -/
def opened (generation : U32) : Handle := ⟨.unknown, .unknown, generation, ⟨[], 0⟩⟩

theorem healthy_established {generation nextSequence : U32} (h : generation ≠ 0#32) :
    Healthy file generation
      ⟨acquired file generation nextSequence, established generation emptyRing emptyRing⟩ where
  owner := by
    simp [isOwner, acquired]
  ready := ready_established h
  generation := rfl
  request := show Sane emptyRing by decide
  response := show Sane emptyRing by decide
  responses := by
    intro message hmem
    have hnone : emptyRing.queued = [] := rfl
    change message ∈ emptyRing.queued at hmem
    rw [hnone] at hmem
    cases hmem

theorem Kernel.Agrees.refl (kernel : Kernel) : kernel.Agrees kernel where
  channel := .refl _
  next := rfl
  layout := rfl
  linuxPeer := rfl
  rtosPeer := rfl
  request := ⟨rfl, rfl, fun _ => .refl _⟩
  response := rfl

/-- A handle on a channel of generation 1 whose rings are empty. -/
def start : System := ⟨opened 1#32, ⟨acquired 0 1#32 1#32, established 1#32 emptyRing emptyRing⟩⟩

/-- Every copy and every kick succeeds. -/
def quiet : Surroundings := ⟨fun _ => .done, fun _ => .done, fun _ _ => nofun, fun _ _ => nofun⟩

theorem fallback_transparent_start :
    List.Forall₂ (fun out out' => out'.1 = out.1 ∧ out.2.Agrees out'.2)
      (run 0 true start [(quiet, .submit 1#64 [Slot.zero, Slot.zero]), (quiet, .reap 1#64 64)])
      (run 0 false start [(quiet, .submit 1#64 [Slot.zero, Slot.zero]), (quiet, .reap 1#64 64)]) :=
  @fallback_transparent 0 start start ⟨⟨rfl, rfl⟩, .refl _⟩ (healthy_established (by decide))
    [(quiet, quiet, .submit 1#64 [Slot.zero, Slot.zero]), (quiet, quiet, .reap 1#64 64)]

end Client

end Sg200x.Ipc
