import Sg200x.Ipc.Ioctl

/-!
# A batch is its messages, sent one by one

`submit_batch` publishes with one store what `send_message` publishes message by message,
and a call on the request ring that fails has stored nothing.
-/

namespace Sg200x.Ipc

open Shm RingCore Driver

/-- Copies messages to the slots from `counter` on. -/
def Ring.writeSlots (ring : Ring) (counter : U32) : List Slot → Ring
  | [] => ring
  | message :: messages =>
      (ring.writeSlot (slotIndex counter) message).writeSlots (counter + 1#32) messages

/-- The ring once messages have been stored from `producer` on. -/
def Ring.publish (ring : Ring) (producer : U32) (messages : List Slot) : Ring :=
  { ring.writeSlots producer messages with
    producer := producer + BitVec.ofNat 32 messages.length }

@[simp] theorem Ring.writeSlots_consumer (ring : Ring) (counter : U32) (messages : List Slot) :
    (ring.writeSlots counter messages).consumer = ring.consumer := by
  induction messages generalizing ring counter with
  | nil => rfl
  | cons message messages ih =>
      rw [Ring.writeSlots, ih]
      rfl

@[simp] theorem Ring.publish_producer (ring : Ring) (producer : U32) (messages : List Slot) :
    (ring.publish producer messages).producer = producer + BitVec.ofNat 32 messages.length := rfl

@[simp] theorem Ring.publish_consumer (ring : Ring) (producer : U32) (messages : List Slot) :
    (ring.publish producer messages).consumer = ring.consumer :=
  Ring.writeSlots_consumer ring producer messages

/-- Only the slots matter for what is written next. -/
theorem Ring.writeSlots_slots_congr {ring ring' : Ring} (h : ring.slots = ring'.slots)
    (counter : U32) (messages : List Slot) :
    (ring.writeSlots counter messages).slots = (ring'.writeSlots counter messages).slots := by
  induction messages generalizing ring ring' counter with
  | nil => exact h
  | cons message messages ih =>
      apply ih
      rw [Ring.writeSlot_slots, Ring.writeSlot_slots, h]

/-- Publishing a batch is publishing its first message and then the others. -/
theorem Ring.publish_cons (ring : Ring) (producer : U32) (message : Slot)
    (messages : List Slot) :
    (ring.publish producer [message]).publish (producer + 1#32) messages =
      ring.publish producer (message :: messages) := by
  have hslots : ((ring.publish producer [message]).writeSlots (producer + 1#32) messages).slots =
      (ring.writeSlots producer (message :: messages)).slots := by
    apply Ring.writeSlots_slots_congr
    rfl
  have hproducer : producer + 1#32 + BitVec.ofNat 32 messages.length =
      producer + BitVec.ofNat 32 (message :: messages).length := by
    rw [List.length_cons, Nat.add_comm, BitVec.ofNat_add, BitVec.add_assoc]
  have hconsumer : ((ring.publish producer [message]).publish (producer + 1#32) messages).consumer =
      (ring.publish producer (message :: messages)).consumer := by
    rw [Ring.publish_consumer, Ring.publish_consumer, Ring.publish_consumer]
  unfold Ring.publish at hslots hconsumer ⊢
  rw [Ring.mk.injEq]
  exact ⟨hproducer, hconsumer, hslots⟩

namespace Ioctl

/-! ## A call that fails -/

/-- The call stores to the ring from now on. -/
def Storing : TxPc → Prop
  | .copySlot _ _ _ | .publish _ _ | .kick _ => True
  | _ => False

theorem txStep_region {call : TxCall} {answer : Answer} {transport : Transport}
    {region : Region} {pc : TxPc} (hpc : ¬ Storing pc) :
    (Driver.txStep call answer transport region pc).2.2 = region := by
  cases pc with
  | copySlot | publish | kick => exact absurd trivial hpc
  | _ => rfl

abbrev txInterrupted (call : TxCall) : TxPc → List (Memory × Memory) → Errno → Prop :=
  Interrupted fun answer => txAccess call fun _ => answer

/-- A call that stores to the ring succeeds. -/
theorem ok_of_storing {call : TxCall} {pc : TxPc} {visits : List (Memory × Memory)} {ret : Errno}
    (h : txInterrupted call pc visits ret) (hpc : Storing pc) : ret = .ok := by
  induction h with
  | @returned answer pc s s' value hstep =>
      cases pc with
      | copySlot producer stamped index =>
          simp only [txAccess, Driver.txStep] at hstep
          split_ifs at hstep <;> cases hstep
      | publish => cases hstep
      | kick pc =>
          simp only [txAccess, Driver.txStep] at hstep
          rcases hkick : kickStep answer s.transport pc with ⟨pc' | value', transport⟩
          · rw [hkick] at hstep
            cases hstep
          · rw [hkick] at hstep
            cases hstep
            rfl
      | _ => exact hpc.elim
  | @running answer pc pc' s s' visits value hstep _ ih =>
      apply ih
      cases pc with
      | copySlot producer stamped index =>
          simp only [txAccess, Driver.txStep] at hstep
          split_ifs at hstep <;> cases hstep <;> trivial
      | publish => cases hstep; trivial
      | kick pc =>
          simp only [txAccess, Driver.txStep] at hstep
          rcases hkick : kickStep answer s.transport pc with ⟨pc' | value', transport⟩
          · rw [hkick] at hstep
            cases hstep
            trivial
          · rw [hkick] at hstep
            cases hstep
      | _ => exact hpc.elim

/-- Whatever other parties do meanwhile, a call that fails leaves the region alone. -/
theorem region_of_failed {call : TxCall} {pc : TxPc} {visits : List (Memory × Memory)} {ret : Errno}
    (h : txInterrupted call pc visits ret) (hret : ret ≠ .ok) :
    ∀ visit ∈ visits, visit.2.region = visit.1.region := by
  have hquiet : ∀ {answer pc s s'} {out : Outcome TxPc Errno}, ¬ Storing pc →
      txAccess call (fun _ => answer) pc s = (out, s') → s'.region = s.region := by
    intro answer pc s s' out hpc hstep
    have hregion := congrArg (fun result => result.2.region) hstep
    exact hregion.symm.trans (txStep_region hpc)
  induction h with
  | returned hstep =>
      intro visit hvisit
      rw [List.mem_singleton.mp hvisit]
      exact hquiet (fun hpc => hret (ok_of_storing (.returned hstep) hpc)) hstep
  | running hstep hrest ih =>
      intro visit hvisit
      rcases List.mem_cons.mp hvisit with rfl | hlater
      · exact hquiet (fun hpc => hret (ok_of_storing (.running hstep hrest) hpc)) hstep
      · exact ih hret visit hlater

/-! ## A call on its own -/

section Alone

variable {call : TxCall} {answer : TxPc → Answer} {memory : Memory} {r : Errno × Memory}

/-- The memory once a call has stored its messages. -/
def Memory.store (memory : Memory) (producer : U32) (messages : List Slot) : Memory :=
  { memory with
    region := { memory.region with request := memory.region.request.publish producer messages } }

theorem returns_publish {producer : U32} {stamped : List Slot}
    (hrunning : memory.transport.shuttingDown = false) :
    Returns (txAccess call answer) (.publish producer stamped) memory r ↔
      r = (.ok, { memory with
        transport := kick (answer (.kick .kickNow) = .busy) memory.transport
        region :=
          { memory.region with
            request :=
              { memory.region.request with
                producer := producer + BitVec.ofNat 32 stamped.length } } }) := by
  rw [returns_iff]
  simp only [txAccess, Driver.txStep, Continues]
  apply returns_kick
  · intro pc memory
    simp only [txAccess, Driver.txStep]
    rcases kickStep (answer (.kick pc)) memory.transport pc with ⟨out, transport⟩
    cases out <;> rfl
  · exact hrunning

theorem returns_copySlot {producer : U32} {stamped : List Slot} {index : ℕ}
    (hindex : index < stamped.length) :
    Returns (txAccess call answer) (.copySlot producer stamped index) memory r ↔
      Returns (txAccess call answer) (.publish producer stamped)
        { memory with
          region :=
            { memory.region with
              request := memory.region.request.writeSlots (producer + BitVec.ofNat 32 index)
                (stamped.drop index) } } r := by
  obtain ⟨left, hleft⟩ : ∃ left, stamped.length = index + left + 1 :=
    ⟨stamped.length - index - 1, by omega⟩
  induction left generalizing index memory with
  | zero =>
      rw [returns_iff]
      have hlast : ¬ index + 1 < stamped.length := by omega
      simp only [txAccess, Driver.txStep, if_neg hlast, Continues]
      rw [List.drop_eq_getElem_cons hindex, List.drop_eq_nil_of_le (by omega),
        getElem!_pos stamped index hindex]
      rfl
  | succ left ih =>
      have hnext : index + 1 < stamped.length := by omega
      rw [returns_iff]
      simp only [txAccess, Driver.txStep, if_pos hnext, Continues]
      rw [ih hnext (by omega), List.drop_eq_getElem_cons hindex,
        getElem!_pos stamped index hindex]
      have hcounter : producer + BitVec.ofNat 32 (index + 1) =
          producer + BitVec.ofNat 32 index + 1#32 := by
        rw [BitVec.ofNat_add, BitVec.add_assoc]
      rw [hcounter]
      rfl

/-- A call that has copied its messages to the user and stores them. -/
theorem returns_store {producer : U32} {stamped : List Slot} (hstamped : stamped ≠ [])
    (hrunning : memory.transport.shuttingDown = false) :
    Returns (txAccess call answer) (.copySlot producer stamped 0) memory r ↔
      r = (.ok, { memory.store producer stamped with
        transport := kick (answer (.kick .kickNow) = .busy) memory.transport }) := by
  rw [returns_copySlot (List.length_pos_of_ne_nil hstamped), returns_publish (by exact hrunning)]
  simp only [List.drop_zero, BitVec.add_zero, Memory.store, Ring.publish]

theorem stamp_ne_nil {next : U32} {messages : List Slot} (h : messages ≠ []) :
    (stamp next messages).1 ≠ [] := by
  apply List.ne_nil_of_length_pos
  rw [length_stamp]
  exact List.length_pos_of_ne_nil h

/-- Where a call goes on after it has copied its messages to the user. -/
def copiedOut (call : TxCall) (producer : U32) (stamped : List Slot) : TxPc :=
  if call.batchGeneration.isSome then .restale producer stamped else .copySlot producer stamped 0

theorem returns_copiedOut {producer : U32} {stamped : List Slot} (hstamped : stamped ≠ [])
    (hready : ready memory.transport memory.region = true)
    (hbatch : call.batchGeneration.isSome = true →
      call.batchGeneration = some memory.transport.generation) :
    Returns (txAccess call answer) (copiedOut call producer stamped) memory r ↔
      r = (.ok, { memory.store producer stamped with
        transport := kick (answer (.kick .kickNow) = .busy) memory.transport }) := by
  have hrunning := running_of_ready hready
  unfold copiedOut
  by_cases hisSome : call.batchGeneration.isSome = true
  · rw [if_pos hisSome, returns_iff]
    simp only [txAccess, Driver.txStep, if_pos (hbatch hisSome), Continues]
    rw [returns_ready (fun pc => TxPc.reready producer stamped pc)
      (fun value => cond value (.running (.copySlot producer stamped 0)) (.returned .estale))]
    · simp only [hready, cond_true, Continues]
      exact returns_store hstamped hrunning
    · intro pc
      simp only [txAccess, Driver.txStep]
      rcases readyStep memory.transport memory.region pc with pc' | value
      · rfl
      · cases value <;> rfl
  · rw [if_neg hisSome]
    exact returns_store hstamped hrunning

/-- A call that has found room. -/
theorem returns_sequence {producer : U32} {completed : ℕ} {stamped : List Slot} {next : U32}
    (hready : ready memory.transport memory.region = true)
    (hbatch : call.batchGeneration.isSome = true →
      call.batchGeneration = some memory.transport.generation)
    (hmessages : call.messages.take completed ≠ [])
    (hstamp : stamp memory.transport.nextSequence (call.messages.take completed) =
      (stamped, next)) :
    Returns (txAccess call answer) (.sequence producer completed) memory r ↔
      r = if answer (.copyOut producer stamped) = .fault then
          (.efault, { memory with transport := { memory.transport with nextSequence := next } })
        else (.ok, { memory.store producer stamped with
          transport := kick (answer (.kick .kickNow) = .busy)
            { memory.transport with nextSequence := next }
          copied := stamped }) := by
  have hstamped : stamped ≠ [] := by
    have hne := @stamp_ne_nil memory.transport.nextSequence _ hmessages
    rw [hstamp] at hne
    exact hne
  have hready' : ready { memory.transport with nextSequence := next } memory.region = true := by
    rw [← hready]
    exact ready_congr ⟨rfl, rfl, rfl, rfl⟩ rfl rfl rfl
  rw [returns_iff]
  simp only [txAccess, Driver.txStep, hstamp, Continues]
  rw [returns_iff]
  by_cases hfault : answer (.copyOut producer stamped) = .fault
  · simp only [txAccess, Driver.txStep, if_pos hfault, Continues]
  · have hnext : (txAccess call answer (.copyOut producer stamped)
        ⟨{ memory.transport with nextSequence := next }, memory.region, memory.copied⟩) =
        (.running (copiedOut call producer stamped),
          ⟨{ memory.transport with nextSequence := next }, memory.region, stamped⟩) := by
      unfold copiedOut
      simp only [txAccess, Driver.txStep, if_neg hfault]
      split_ifs <;> rfl
    rw [hnext, if_neg hfault]
    exact returns_copiedOut hstamped hready' hbatch

/-- What a call finds out about the room in the ring. -/
def admission (call : TxCall) (expired : Bool) (region : Region) : Outcome TxPc Errno :=
  match readOccupancy region.request.producer region.request.consumer with
  | none => .returned .eproto
  | some occupancy =>
      if occupancy.toNat < slotCount then
        .running (.sequence region.request.producer
          (min call.messages.length (slotCount - occupancy.toNat)))
      else if expired then .returned (outOfTime call.noWait)
      else .running .wait

theorem returns_readProducer {expired : Bool} :
    Returns (txAccess call answer) (.readProducer expired) memory r ↔
      Continues (txAccess call answer) (admission call expired memory.region, memory) r := by
  rw [returns_iff]
  simp only [txAccess, Driver.txStep, Continues]
  rw [returns_iff]
  rfl

theorem returns_loop {expired : Bool} :
    Returns (txAccess call answer) (call.loop expired) memory r ↔
      Continues (txAccess call answer) (tested call.batchGeneration memory.transport memory.region
        (.readProducer expired), memory) r := by
  refine @returns_tested _ (txAccess call answer) memory r call.batchGeneration (.stale expired)
    (.readProducer expired) (fun pc => .ready expired pc) rfl ?_
  intro pc
  cases h : readyStep memory.transport memory.region pc with
  | running pc' => simp only [txAccess, Driver.txStep, h]
  | returned value => cases value <;> simp only [txAccess, Driver.txStep, h]

theorem returns_admission {expired : Bool}
    (hbatch : call.batchGeneration.isSome = true →
      call.batchGeneration = some memory.transport.generation)
    (hready : ready memory.transport memory.region = true) :
    Returns (txAccess call answer) (call.loop expired) memory r ↔
      Continues (txAccess call answer) (admission call expired memory.region, memory) r := by
  rw [returns_loop, tested_eq hbatch hready]
  exact returns_readProducer

/-- No copy to the user fails. -/
def TxCopiesSucceed (answer : TxPc → Answer) : Prop :=
  ∀ producer stamped, answer (.copyOut producer stamped) ≠ .fault

/-- What a call comes to that does not wait. -/
def txResult (call : TxCall) (answer : TxPc → Answer) (memory : Memory) : Errno × Memory :=
  match tested call.batchGeneration memory.transport memory.region () with
  | .returned ret => (ret, memory)
  | .running () =>
      match readOccupancy memory.region.request.producer memory.region.request.consumer with
      | none => (.eproto, memory)
      | some occupancy =>
          if occupancy.toNat < slotCount then
            let (stamped, next) := stamp memory.transport.nextSequence
              (call.messages.take (min call.messages.length (slotCount - occupancy.toNat)))
            (.ok, { memory.store memory.region.request.producer stamped with
              transport := kick (answer (.kick .kickNow) = .busy)
                { memory.transport with nextSequence := next }
              copied := stamped })
          else (outOfTime call.noWait, memory)

theorem returns_txResult (hmessages : call.messages ≠ []) (hcopies : TxCopiesSucceed answer) :
    Returns (txAccess call answer) (call.loop true) memory r ↔
      r = txResult call answer memory := by
  rw [returns_loop]
  unfold txResult tested
  by_cases hstale : call.batchGeneration.isSome ∧
      call.batchGeneration ≠ some memory.transport.generation
  · rw [if_pos hstale, if_pos hstale]
    rfl
  · rw [if_neg hstale, if_neg hstale]
    have hbatch : call.batchGeneration.isSome = true →
        call.batchGeneration = some memory.transport.generation :=
      fun hisSome => not_not.mp fun hne => hstale ⟨hisSome, hne⟩
    by_cases hready : ready memory.transport memory.region = true
    · rw [if_pos hready, if_pos hready]
      change Returns _ _ _ _ ↔ _
      rw [returns_readProducer]
      unfold admission
      cases readOccupancy memory.region.request.producer memory.region.request.consumer with
      | none => rfl
      | some occupancy =>
          by_cases hroom : occupancy.toNat < slotCount
          · simp only [if_pos hroom]
            have hpos := List.length_pos_of_ne_nil hmessages
            have htake : call.messages.take
                (min call.messages.length (slotCount - occupancy.toNat)) ≠ [] := by
              apply List.ne_nil_of_length_pos
              rw [List.length_take]
              omega
            change Returns _ (TxPc.sequence _ _) _ _ ↔ _
            rw [returns_sequence hready hbatch htake rfl, if_neg (hcopies _ _)]
          · simp only [if_neg hroom, if_true]
            rfl
    · rw [if_neg hready, if_neg hready]
      rfl

/-- The call is at the tests that it makes again after each wait. -/
def Polling (memory : Memory) : TxPc → Prop
  | .stale _ | .ready _ _ | .readProducer _ | .wait => True
  | .readConsumer _ producer => producer = memory.region.request.producer
  | _ => False

/-- On a ring that stays full a call does not succeed. -/
theorem not_ok_of_full {pc : TxPc} {occupancy : U32}
    (h : Returns (txAccess call answer) pc memory r)
    (hoccupancy : readOccupancy memory.region.request.producer memory.region.request.consumer =
      some occupancy) (hfull : ¬ occupancy.toNat < slotCount) (hpc : Polling memory pc) :
    r.1 ≠ .ok := by
  have htime : outOfTime call.noWait ≠ .ok := by
    unfold outOfTime
    split_ifs <;> decide
  have herrors : Errno.estale ≠ .ok ∧ Errno.enotconn ≠ .ok ∧ Errno.erestartsys ≠ .ok := by decide
  induction h with
  | @returned pc s s' value hstep =>
      cases pc with
      | stale expired =>
          simp only [txAccess, Driver.txStep] at hstep
          split_ifs at hstep <;> cases hstep
          exact herrors.1
      | ready expired pc =>
          simp only [txAccess, Driver.txStep] at hstep
          split at hstep <;> cases hstep
          exact herrors.2.1
      | readConsumer expired producer =>
          simp only [txAccess, Driver.txStep, show producer = _ from hpc, hoccupancy,
            if_neg hfull] at hstep
          split_ifs at hstep <;> cases hstep
          exact htime
      | wait =>
          simp only [txAccess, Driver.txStep, waitEnd] at hstep
          split_ifs at hstep <;> cases hstep
          exact herrors.2.2
      | readProducer => cases hstep
      | _ => exact hpc.elim
  | @running pc pc' s s' r hstep hrest ih =>
      cases pc with
      | stale expired =>
          simp only [txAccess, Driver.txStep] at hstep
          split_ifs at hstep <;> cases hstep
          exact ih hoccupancy trivial
      | ready expired pc =>
          simp only [txAccess, Driver.txStep] at hstep
          split at hstep <;> cases hstep <;> exact ih hoccupancy trivial
      | readProducer =>
          cases hstep
          exact ih hoccupancy rfl
      | readConsumer expired producer =>
          simp only [txAccess, Driver.txStep, show producer = _ from hpc, hoccupancy,
            if_neg hfull] at hstep
          split_ifs at hstep <;> cases hstep
          exact ih hoccupancy trivial
      | wait =>
          simp only [txAccess, Driver.txStep, waitEnd] at hstep
          split_ifs at hstep <;> cases hstep
          apply ih hoccupancy
          unfold TxCall.loop
          split_ifs <;> trivial
      | _ => exact hpc.elim

end Alone

/-! ## One message at a time -/

/-- Nonblocking SENDs that succeed one after the other; `sent` is what they have copied to
the user. -/
inductive Sends (file : File) :
    List Slot → Transport → Region → List Slot → Transport → Region → Prop
  | nil {transport : Transport} {region : Region} : Sends file [] transport region [] transport region
  | cons {message : Slot} {messages sent later : List Slot} {call : TxCall} {pc : TxPc}
      {answer : TxPc → Answer} {transport transport' transport'' : Transport}
      {region region' region'' : Region} :
      send transport file (some ⟨0#32, message⟩) = .ok (call, pc) →
      Returns (txAccess call answer) pc ⟨transport, region, []⟩ (.ok, ⟨transport', region', sent⟩) →
      Sends file messages transport' region' later transport'' region'' →
      Sends file (message :: messages) transport region (sent ++ later) transport'' region''

/-- What a SEND finds. -/
structure Sendable (file : File) (transport : Transport) (region : Region) (occupancy : ℕ) :
    Prop where
  owner : isOwner transport file = true
  ready : ready transport region = true
  occupancy : (region.request.producer - region.request.consumer).toNat = occupancy

/-- A SEND names no generation. -/
theorem sendMessage_generation {message : Slot} {noWait : Bool} (generation : U32) :
    (sendMessage message noWait).batchGeneration.isSome = true →
      (sendMessage message noWait).batchGeneration = some generation := nofun

theorem send_entered {file : File} {transport : Transport} {message : Slot}
    (howner : isOwner transport file = true) (hfits : message.Fits) :
    send transport file (some ⟨0#32, message⟩) =
      .ok (sendMessage message true, (sendMessage message true).loop true) := by
  have henter : (sendMessage message true).enter =
      .running ((sendMessage message true).loop true) := by
    unfold TxCall.enter sendMessage
    simp [hfits]
  simp only [send, if_pos howner, decide_true]
  rw [henter]
  rfl

theorem returns_send {file : File} {transport : Transport} {region : Region} {message : Slot}
    {occupancy : ℕ} {answer : TxPc → Answer} {r : Errno × Memory}
    (h : Sendable file transport region occupancy) (hroom : occupancy < slotCount) :
    Returns (txAccess (sendMessage message true) answer) ((sendMessage message true).loop true)
        ⟨transport, region, []⟩ r ↔
      Returns (txAccess (sendMessage message true) answer) (.sequence region.request.producer 1)
        ⟨transport, region, []⟩ r := by
  have hcount := h.occupancy
  rw [returns_admission (sendMessage_generation _) h.ready]
  have hadmission : admission (sendMessage message true) true region =
      .running (.sequence region.request.producer 1) := by
    unfold admission
    rw [readOccupancy_eq (by omega)]
    simp only [hcount, if_pos hroom]
    congr 2
    simp only [sendMessage, List.length_singleton]
    omega
  rw [hadmission]
  rfl

/-- The state that a successful SEND leaves. -/
def sentState (busy : Bool) (transport : Transport) (region : Region) (message : Slot) : Memory :=
  let (sequence, next) := takeSequence transport.nextSequence
  let stamped := { message with sequence := sequence }
  { transport := kick busy { transport with nextSequence := next }
    region :=
      { region with request := region.request.publish region.request.producer [stamped] }
    copied := [stamped] }

theorem returns_send_ok {file : File} {transport : Transport} {region : Region} {message : Slot}
    {occupancy : ℕ} {answer : TxPc → Answer} {r : Errno × Memory}
    (h : Sendable file transport region occupancy) (hroom : occupancy < slotCount) :
    Returns (txAccess (sendMessage message true) answer) ((sendMessage message true).loop true)
        ⟨transport, region, []⟩ r ↔
      r = if answer (.copyOut region.request.producer
          (sentState false transport region message).copied) = .fault then
          (.efault, ⟨{ transport with
            nextSequence := (takeSequence transport.nextSequence).2 }, region, []⟩)
        else (.ok, sentState (answer (.kick .kickNow) = .busy) transport region message) := by
  rw [returns_send h hroom]
  have hstamp : stamp transport.nextSequence ((sendMessage message true).messages.take 1) =
      ((sentState false transport region message).copied,
        (takeSequence transport.nextSequence).2) := rfl
  exact returns_sequence h.ready (sendMessage_generation _) (List.cons_ne_nil _ _) hstamp

theorem Sendable.sentState {file : File} {transport : Transport} {region : Region}
    {occupancy : ℕ} (h : Sendable file transport region occupancy) (hroom : occupancy < slotCount)
    (busy : Bool) (message : Slot) :
    Sendable file (sentState busy transport region message).transport
      (sentState busy transport region message).region (occupancy + 1) where
  owner := h.owner
  ready := by
    rw [← h.ready]
    exact ready_congr ⟨rfl, rfl, rfl, rfl⟩ rfl rfl rfl
  occupancy := by
    have hcount := h.occupancy
    change (region.request.producer + 1#32 -
      (region.request.publish region.request.producer _).consumer).toNat = occupancy + 1
    rw [Ring.publish_consumer]
    have hsplit : region.request.producer + 1#32 - region.request.consumer =
        region.request.producer - region.request.consumer + 1#32 := by
      rw [BitVec.sub_eq_add_neg, BitVec.sub_eq_add_neg, BitVec.add_assoc, BitVec.add_assoc,
        BitVec.add_comm (1#32)]
    rw [hsplit, BitVec.toNat_add, hcount]
    simp only [slotCount] at hroom
    simp only [BitVec.toNat_ofNat]
    omega

/-- What a sequence of SENDs comes to. -/
structure SentAll (transport transport' : Transport) (region region' : Region)
    (messages sent : List Slot) : Prop where
  stamped : sent = (stamp transport.nextSequence messages).1
  published : region' =
    { region with request := region.request.publish region.request.producer sent }
  nextSequence : transport'.nextSequence = (stamp transport.nextSequence messages).2

theorem Ring.publish_nil (ring : Ring) : ring.publish ring.producer [] = ring := by
  unfold Ring.publish
  rw [List.length_nil, BitVec.add_zero]
  rfl

theorem Sends.sentAll {file : File} {messages sent : List Slot} {transport transport' : Transport}
    {region region' : Region} (h : Sends file messages transport region sent transport' region')
    {occupancy : ℕ} (hsendable : Sendable file transport region occupancy)
    (hfits : ∀ message ∈ messages, message.Fits)
    (hroom : occupancy + messages.length ≤ slotCount) :
    SentAll transport transport' region region' messages sent ∧
      Sendable file transport' region' (occupancy + messages.length) := by
  induction h generalizing occupancy with
  | @nil transport region =>
      refine ⟨⟨rfl, ?_, rfl⟩, hsendable⟩
      rw [Ring.publish_nil]
  | @cons message messages sent later call pc answer transport transport' transport'' region region'
      region'' hsend hreturns _ ih =>
      rw [List.length_cons] at hroom
      rw [send_entered hsendable.owner (hfits message List.mem_cons_self)] at hsend
      cases hsend
      rw [returns_send_ok hsendable (by omega)] at hreturns
      split_ifs at hreturns
      · cases hreturns
      · have hstate : (⟨transport', region', sent⟩ : Memory) =
            sentState (answer (.kick .kickNow) = .busy) transport region message :=
          congrArg Prod.snd hreturns
        obtain ⟨rfl, rfl, rfl⟩ := Memory.mk.inj hstate
        obtain ⟨hall, hlast⟩ := ih (hsendable.sentState (by omega) _ message)
          (fun message hmem => hfits message (List.mem_cons_of_mem _ hmem)) (by omega)
        refine ⟨⟨?_, ?_, hall.nextSequence⟩, ?_⟩
        · rw [hall.stamped]
          rfl
        · rw [hall.published]
          have hpublish := Ring.publish_cons region.request region.request.producer
            { message with sequence := (takeSequence transport.nextSequence).1 } later
          exact congrArg (fun ring => { region with request := ring }) hpublish
        · rw [List.length_cons, Nat.add_comm messages.length, ← Nat.add_assoc]
          exact hlast

/-- SENDs whose copies to the user succeed find room for as many messages as slots are
free. -/
theorem exists_sends {file : File} {messages : List Slot} {transport : Transport} {region : Region}
    {occupancy : ℕ} (hsendable : Sendable file transport region occupancy)
    (hfits : ∀ message ∈ messages, message.Fits)
    (hroom : occupancy + messages.length ≤ slotCount) :
    ∃ sent transport' region', Sends file messages transport region sent transport' region' := by
  induction messages generalizing transport region occupancy with
  | nil => exact ⟨[], transport, region, .nil⟩
  | cons message messages ih =>
      rw [List.length_cons] at hroom
      obtain ⟨later, transport'', region'', hlater⟩ := ih
        (hsendable.sentState (by omega) false message)
        (fun message hmem => hfits message (List.mem_cons_of_mem _ hmem)) (by omega)
      have hreturns : Returns (txAccess (sendMessage message true) fun _ => .done)
          ((sendMessage message true).loop true) ⟨transport, region, []⟩
          (.ok, sentState false transport region message) := by
        rw [returns_send_ok hsendable (by omega)]
        rfl
      have hsend := send_entered hsendable.owner (hfits message List.mem_cons_self)
      exact ⟨_, transport'', region'', Sends.cons hsend hreturns hlater⟩

/-- A SEND on a full ring. -/
theorem returns_send_full {file : File} {transport : Transport} {region : Region} {message : Slot}
    {answer : TxPc → Answer} {r : Errno × Memory}
    (h : Sendable file transport region slotCount) :
    Returns (txAccess (sendMessage message true) answer) ((sendMessage message true).loop true)
        ⟨transport, region, []⟩ r ↔ r = (.eagain, ⟨transport, region, []⟩) := by
  have hcount := h.occupancy
  rw [returns_admission (sendMessage_generation _) h.ready]
  have hadmission : admission (sendMessage message true) true region = .returned .eagain := by
    unfold admission
    rw [readOccupancy_eq (by omega)]
    simp [hcount, sendMessage, outOfTime]
  rw [hadmission]
  rfl

/-! ## The batch -/

/-- What the caller of a batch knows of it. -/
structure Entered (transport : Transport) (file : File) (call : TxCall) : Prop where
  owner : isOwner transport file = true
  batch : call.batchGeneration.isSome = true
  nonempty : call.messages ≠ []
  fits : ∀ message ∈ call.messages, message.Fits

theorem submit_entered {transport : Transport} {file : File} {argument : UserCopy Batch}
    {slots : UserCopy (ℕ → Slot)} {call : TxCall} {pc : TxPc}
    (h : submit transport file argument slots = .ok (call, pc)) :
    Entered transport file call ∧ pc = call.loop call.noWait := by
  unfold submit at h
  split_ifs at h with howner
  split at h
  · cases h
  · cases h
  · obtain ⟨rfl, henter⟩ := entered_ok h
    obtain ⟨haccepted, hpc⟩ := TxCall.accepted_of_enter henter
    exact ⟨⟨howner, rfl, haccepted.nonempty, haccepted.fits⟩, hpc⟩

/-- The messages that a batch has room for. -/
def admitted (call : TxCall) (region : Region) : List Slot :=
  call.messages.take
    (slotCount - (region.request.producer - region.request.consumer).toNat)

theorem take_admitted (call : TxCall) (region : Region) :
    call.messages.take (min call.messages.length
      (slotCount - (region.request.producer - region.request.consumer).toNat)) =
      admitted call region := by
  rw [← List.take_take]
  exact List.take_of_length_le (List.length_take_le' _ _)

/-- What a batch that succeeds has found and left. -/
structure Accepted (file : File) (call : TxCall) (memory result : Memory) : Prop where
  sendable : Sendable file memory.transport memory.region
    (memory.region.request.producer - memory.region.request.consumer).toNat
  room : (memory.region.request.producer - memory.region.request.consumer).toNat < slotCount
  sentAll : SentAll memory.transport result.transport memory.region result.region
    (admitted call memory.region) result.copied

theorem admission_running {call : TxCall} {expired : Bool} {region : Region} {occupancy : U32}
    (hread : readOccupancy region.request.producer region.request.consumer = some occupancy)
    (hroom : occupancy.toNat < slotCount) :
    admission call expired region = .running (.sequence region.request.producer
      (min call.messages.length (slotCount - occupancy.toNat))) := by
  unfold admission
  rw [hread]
  exact if_pos hroom

/-- A batch succeeds only where there is room for a message. -/
theorem admitted_of_returns {call : TxCall} {expired : Bool} {answer : TxPc → Answer}
    {memory result : Memory} (hbatch : call.batchGeneration.isSome = true)
    (h : Returns (txAccess call answer) (call.loop expired) memory (.ok, result)) :
    call.batchGeneration = some memory.transport.generation ∧
      ready memory.transport memory.region = true ∧
      ∃ occupancy, readOccupancy memory.region.request.producer memory.region.request.consumer =
        some occupancy ∧ occupancy.toNat < slotCount := by
  have hpolling : Polling memory (call.loop expired) := by
    unfold TxCall.loop
    rw [if_pos hbatch]
    trivial
  by_cases hstale : call.batchGeneration = some memory.transport.generation
  · by_cases hready : ready memory.transport memory.region = true
    · refine ⟨hstale, hready, ?_⟩
      rcases hread : readOccupancy memory.region.request.producer memory.region.request.consumer
        with - | occupancy
      · rw [returns_admission (fun _ => hstale) hready] at h
        unfold admission at h
        rw [hread] at h
        cases h
      · refine ⟨occupancy, rfl, ?_⟩
        by_contra hfull
        exact not_ok_of_full h hread hfull hpolling rfl
    · rw [returns_loop, tested, if_neg (fun h => h.2 hstale), if_neg hready] at h
      cases h
  · rw [returns_loop, tested, if_pos ⟨hbatch, hstale⟩] at h
    cases h

theorem accepted_of_returns {file : File} {call : TxCall} {expired : Bool} {answer : TxPc → Answer}
    {memory result : Memory} (hentered : Entered memory.transport file call)
    (h : Returns (txAccess call answer) (call.loop expired) memory (.ok, result)) :
    Accepted file call memory result := by
  obtain ⟨hbatch, hready, occupancy, hread, hroom⟩ := admitted_of_returns hentered.batch h
  have hoccupancy := occupancy_of_readOccupancy hread
  have hadmitted : admitted call memory.region ≠ [] := by
    apply List.ne_nil_of_length_pos
    have hlength := List.length_pos_of_ne_nil hentered.nonempty
    rw [admitted, List.length_take, ← hoccupancy]
    omega
  have htake := take_admitted call memory.region
  rw [returns_admission (fun _ => hbatch) hready, admission_running hread hroom, hoccupancy] at h
  change Returns _ (TxPc.sequence _ _) _ _ at h
  rw [returns_sequence hready (fun _ => hbatch) (htake.symm ▸ hadmitted)
    (congrArg (stamp memory.transport.nextSequence) htake)] at h
  split_ifs at h
  · cases h
  · have hresult : result = _ := congrArg Prod.snd h
    rw [hoccupancy] at hroom
    refine ⟨⟨hentered.owner, hready, rfl⟩, hroom, ?_⟩
    rw [hresult]
    exact ⟨rfl, rfl, rfl⟩

/-- A nonblocking SEND of `message` that finds the ring full. -/
def SendFindsFull (file : File) (transport : Transport) (region : Region) (message : Slot) : Prop :=
  ∃ call pc, send transport file (some ⟨0#32, message⟩) = .ok (call, pc) ∧
    ∀ answer, Returns (txAccess call answer) pc ⟨transport, region, []⟩
      (.eagain, ⟨transport, region, []⟩)

/-- A batch that has succeeded, and SENDs of its first messages from the same state. -/
structure AsSends (file : File) (call : TxCall) (transport : Transport) (region : Region)
    (result : Memory) : Prop where
  completed : result.copied.length = min call.messages.length
    (slotCount - (region.request.producer - region.request.consumer).toNat)
  progress : 1 ≤ result.copied.length
  sendable : ∃ sent transport' region',
    Sends file (call.messages.take result.copied.length) transport region sent transport' region'
  same : ∀ sent transport' region',
    Sends file (call.messages.take result.copied.length) transport region sent transport' region' →
      sent = result.copied ∧ region' = result.region ∧
        transport'.nextSequence = result.transport.nextSequence
  next : ∀ sent transport' region' message,
    Sends file (call.messages.take result.copied.length) transport region sent transport' region' →
      call.messages[result.copied.length]? = some message →
        SendFindsFull file transport' region' message

theorem Accepted.asSends {file : File} {call : TxCall} {memory result : Memory}
    (hentered : Entered memory.transport file call) (h : Accepted file call memory result) :
    AsSends file call memory.transport memory.region result := by
  have hroom := h.room
  have hlength : result.copied.length = min call.messages.length
      (slotCount - (memory.region.request.producer - memory.region.request.consumer).toNat) := by
    rw [h.sentAll.stamped, length_stamp, admitted, List.length_take, Nat.min_comm]
  have htake : call.messages.take result.copied.length = admitted call memory.region := by
    rw [hlength]
    exact take_admitted call memory.region
  have hfits : ∀ message ∈ call.messages.take result.copied.length, message.Fits :=
    fun message hmem => hentered.fits message (List.mem_of_mem_take hmem)
  have hfree : (memory.region.request.producer - memory.region.request.consumer).toNat +
      (call.messages.take result.copied.length).length ≤ slotCount := by
    rw [List.length_take, hlength]
    omega
  refine ⟨hlength, ?_, exists_sends h.sendable hfits hfree, ?_, ?_⟩
  · have hpos := List.length_pos_of_ne_nil hentered.nonempty
    omega
  · intro sent transport' region' hsends
    obtain ⟨hall, -⟩ := hsends.sentAll h.sendable hfits hfree
    rw [htake] at hall
    have hsent : sent = result.copied := hall.stamped.trans h.sentAll.stamped.symm
    refine ⟨hsent, ?_, hall.nextSequence.trans h.sentAll.nextSequence.symm⟩
    rw [hall.published, h.sentAll.published, hsent]
  · intro sent transport' region' message hsends hmessage
    obtain ⟨-, hlast⟩ := hsends.sentAll h.sendable hfits hfree
    obtain ⟨hindex, hget⟩ := List.getElem?_eq_some_iff.mp hmessage
    have hfull : (memory.region.request.producer - memory.region.request.consumer).toNat +
        (call.messages.take result.copied.length).length = slotCount := by
      rw [List.length_take, hlength]
      omega
    rw [hfull] at hlast
    have hmem : message ∈ call.messages := hget ▸ List.getElem_mem hindex
    refine ⟨_, _, send_entered hlast.owner (hentered.fits message hmem), ?_⟩
    intro answer
    rw [returns_send_full hlast]

/-- A call that does not wait returns. -/
theorem exists_returns (call : TxCall) (answer : TxPc → Answer) (memory : Memory)
    (hbatch : call.batchGeneration.isSome = true) (hne : call.messages ≠ []) :
    ∃ r, Returns (txAccess call answer) (call.loop true) memory r := by
  by_cases hok : call.batchGeneration = some memory.transport.generation ∧
      ready memory.transport memory.region = true ∧
      ∃ occupancy, readOccupancy memory.region.request.producer memory.region.request.consumer =
        some occupancy ∧ occupancy.toNat < slotCount
  · obtain ⟨hgeneration, hready, occupancy, hread, hroom⟩ := hok
    have hmessages : call.messages.take
        (min call.messages.length (slotCount - occupancy.toNat)) ≠ [] := by
      have hpos := List.length_pos_of_ne_nil hne
      apply List.ne_nil_of_length_pos
      rw [List.length_take]
      omega
    have hsequence : ∃ r, Returns (txAccess call answer) (.sequence memory.region.request.producer
        (min call.messages.length (slotCount - occupancy.toNat))) memory r :=
      ⟨_, (returns_sequence hready (fun _ => hgeneration) hmessages rfl).mpr rfl⟩
    obtain ⟨r, hr⟩ := hsequence
    refine ⟨r, ?_⟩
    rw [returns_admission (fun _ => hgeneration) hready, admission_running hread hroom]
    exact hr
  · have hreturned : ∃ ret, Returns (txAccess call answer) (call.loop true) memory (ret, memory) := by
      by_cases hstale : call.batchGeneration = some memory.transport.generation
      · by_cases hready : ready memory.transport memory.region = true
        · rcases hread : readOccupancy memory.region.request.producer
            memory.region.request.consumer with - | occupancy
          · refine ⟨.eproto, ?_⟩
            rw [returns_admission (fun _ => hstale) hready, admission, hread]
            rfl
          · have hroom : ¬ occupancy.toNat < slotCount :=
              fun hroom => hok ⟨hstale, hready, occupancy, hread, hroom⟩
            refine ⟨outOfTime call.noWait, ?_⟩
            rw [returns_admission (fun _ => hstale) hready, admission, hread]
            simp only [if_neg hroom, if_true]
            rfl
        · refine ⟨.enotconn, ?_⟩
          rw [returns_loop, tested, if_neg (fun h => h.2 hstale), if_neg hready]
          rfl
      · refine ⟨.estale, ?_⟩
        rw [returns_loop, tested, if_pos ⟨hbatch, hstale⟩]
        rfl
    obtain ⟨ret, hreturned⟩ := hreturned
    exact ⟨_, hreturned⟩

theorem submit_error {transport : Transport} {file : File} {argument : UserCopy Batch}
    {slots : UserCopy (ℕ → Slot)} {ret : Errno}
    (h : submit transport file argument slots = .error ret) : ret ≠ .ok := by
  unfold submit at h
  split_ifs at h
  · split at h
    · next hcopy =>
        cases h
        exact copyBatchFromUser_error hcopy
    · cases h
      decide
    · have henter := entered_error h
      unfold TxCall.enter at henter
      split_ifs at henter <;> cases henter <;> decide
  · cases h
    decide

/-- SUBMIT_BATCH.  A call that fails has stored nothing, whatever happens between its steps.
A call that succeeds has done, from the state in which it last looked for room, what SENDs
of the messages it completes do. -/
theorem submit_batch_spec (transport : Transport) (region : Region) (file : File)
    (argument : UserCopy Batch) (slots : UserCopy (ℕ → Slot)) :
    match submit transport file argument slots with
    | .error ret => ret ≠ .ok
    | .ok (call, pc) =>
        pc = call.loop call.noWait ∧
        (∀ visits ret, txInterrupted call pc visits ret → ret ≠ .ok →
          ∀ visit ∈ visits, visit.2.region = visit.1.region) ∧
        (∀ expired answer result,
          Returns (txAccess call answer) (call.loop expired) ⟨transport, region, []⟩ (.ok, result) →
            AsSends file call transport region result) ∧
        ∀ answer, ∃ r, Returns (txAccess call answer) (call.loop true) ⟨transport, region, []⟩ r := by
  rcases hsubmit : submit transport file argument slots with ret | ⟨call, pc⟩
  · exact submit_error hsubmit
  · obtain ⟨hentered, hpc⟩ := submit_entered hsubmit
    refine ⟨hpc, ?_, ?_, ?_⟩
    · intro visits ret h hret
      exact region_of_failed h hret
    · intro expired answer result h
      exact (accepted_of_returns hentered h).asSends hentered
    · intro answer
      exact exists_returns call answer _ hentered.batch hentered.nonempty

end Ioctl

end Sg200x.Ipc
