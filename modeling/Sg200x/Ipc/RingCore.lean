import Sg200x.Ipc.Shm

/-!
# The portable ring core

`sg2002_rtos_ring.c`, one access to shared memory at a time: a call is a program
counter with the counter values it has read, and a step performs its next read
or write.  The cache maintenance and the barriers around an access are what
makes these steps sequentially consistent; they have no step of their own.
-/

namespace Sg200x.Ipc.RingCore

open Shm Library.WrapRing

/-- `enum sg2002_rtos_ring_result`. -/
inductive RingResult
  | ok
  | empty
  | full
  | corrupt
  | invalid
  deriving DecidableEq, Repr

def RingResult.code : RingResult → ℤ
  | .ok => 0
  | .empty => 1
  | .full => 2
  | .corrupt => 3
  | .invalid => 4

/-- What a step leaves of a call: a later point of it, or its return value. -/
inductive Outcome (κ ρ : Type)
  | running (pc : κ)
  | returned (value : ρ)
  deriving DecidableEq

/-- Where the call stands, if it has not returned. -/
def Outcome.pc? {κ ρ : Type} : Outcome κ ρ → Option κ
  | .running pc => some pc
  | .returned _ => none

def Outcome.Meets {κ ρ : Type} (running : κ → Prop) (returned : ρ → Prop) :
    Outcome κ ρ → Prop
  | .running pc => running pc
  | .returned value => returned value

/-- The check of `read_occupancy` on the two values it has read; `none` is
`SG2002_RTOS_RING_CORRUPT`. -/
def readOccupancy (producer consumer : U32) : Option U32 :=
  if (producer - consumer).toNat ≤ slotCount then some (producer - consumer) else none

/-! ## `sg2002_rtos_ring_can_push` -/

inductive CanPushPc
  | readProducer
  | readConsumer (producer : U32)
  deriving DecidableEq

def canPushStep (ring : Ring) : CanPushPc → Outcome CanPushPc ℤ
  | .readProducer => .running (.readConsumer ring.producer)
  | .readConsumer producer =>
      match readOccupancy producer ring.consumer with
      | none => .returned (-RingResult.corrupt.code)
      | some occupancy => .returned (if occupancy.toNat < slotCount then 1 else 0)

/-! ## `sg2002_rtos_ring_try_push` -/

inductive PushPc
  | readProducer
  | readConsumer (producer : U32)
  | copySlot (producer : U32)
  | publish (producer : U32)
  deriving DecidableEq

/-- The entry of the call: an oversize message is rejected before any read. -/
def tryPush (message : Slot) : Outcome PushPc RingResult :=
  if message.Fits then .running .readProducer else .returned .invalid

def tryPushStep (message : Slot) (ring : Ring) :
    PushPc → Outcome PushPc RingResult × Ring
  | .readProducer => (.running (.readConsumer ring.producer), ring)
  | .readConsumer producer =>
      match readOccupancy producer ring.consumer with
      | none => (.returned .corrupt, ring)
      | some occupancy =>
          if occupancy.toNat = slotCount then (.returned .full, ring)
          else (.running (.copySlot producer), ring)
  | .copySlot producer =>
      (.running (.publish producer), ring.writeSlot (slotIndex producer) message)
  | .publish producer => (.returned .ok, { ring with producer := producer + 1#32 })

/-! ## `sg2002_rtos_ring_try_pop` -/

inductive PopPc
  | readProducer
  | readConsumer (producer : U32)
  | copySlot (consumer : U32)
  | publish (consumer : U32)
  deriving DecidableEq

/-- `message` is the caller's buffer.  The length is checked on the copy, after
the slot has been returned. -/
def tryPopStep (ring : Ring) (message : Slot) :
    PopPc → Outcome PopPc RingResult × Ring × Slot
  | .readProducer => (.running (.readConsumer ring.producer), ring, message)
  | .readConsumer producer =>
      match readOccupancy producer ring.consumer with
      | none => (.returned .corrupt, ring, message)
      | some occupancy =>
          if occupancy.toNat = 0 then (.returned .empty, ring, message)
          else (.running (.copySlot ring.consumer), ring, message)
  | .copySlot consumer =>
      (.running (.publish consumer), ring, ring.slots (slotIndex consumer))
  | .publish consumer =>
      (.returned (if message.Fits then .ok else .corrupt),
        { ring with consumer := consumer + 1#32 }, message)

/-- A push writes the producer counter and slots only. -/
theorem tryPushStep_consumer (message : Slot) (ring : Ring) (pc : PushPc) :
    (tryPushStep message ring pc).2.consumer = ring.consumer := by
  cases pc <;> simp only [tryPushStep, Ring.writeSlot_consumer]
  split
  · rfl
  · split_ifs <;> rfl

/-- A pop writes the consumer counter only. -/
theorem tryPopStep_frame (ring : Ring) (message : Slot) (pc : PopPc) :
    (tryPopStep ring message pc).2.1.producer = ring.producer ∧
      (tryPopStep ring message pc).2.1.slots = ring.slots := by
  cases pc <;> simp only [tryPopStep, and_self]
  split
  · exact ⟨rfl, rfl⟩
  · split_ifs <;> exact ⟨rfl, rfl⟩

/-! ## What a call in progress knows -/

section Facts

variable {base : U32} {log : List Slot} {taken : ℕ} {ring : Ring} {message : Slot}

theorem readOccupancy_of_le {producer consumer : U32}
    (h : (producer - consumer).toNat ≤ slotCount) :
    readOccupancy producer consumer = some (producer - consumer) := if_pos h

def CanPushFacts (ring : Ring) : CanPushPc → Prop
  | .readProducer => True
  | .readConsumer producer => producer = ring.producer

/-- The producer's copy of its own counter is current, and the room it has seen
is still there: only the consumer moves the other counter, and it only makes room. -/
def PushFacts (log : List Slot) (taken : ℕ) (message : Slot) (ring : Ring) : PushPc → Prop
  | .readProducer => True
  | .readConsumer producer => producer = ring.producer
  | .copySlot producer => producer = ring.producer ∧ log.length < taken + slotCount
  | .publish producer =>
      producer = ring.producer ∧ log.length < taken + slotCount ∧
        ring.slots (slotIndex producer) = message

/-- The consumer's copy of the producer counter may be stale, but it lies between
what has been taken and what has been published. -/
def PopFacts (base : U32) (log : List Slot) (taken : ℕ) (ring : Ring) (message : Slot) :
    PopPc → Prop
  | .readProducer => True
  | .readConsumer producer =>
      ∃ seen, producer = position base seen ∧ taken ≤ seen ∧ seen ≤ log.length
  | .copySlot consumer => consumer = ring.consumer ∧ taken < log.length
  | .publish consumer => consumer = ring.consumer ∧ log[taken]? = some message

theorem canPushStep_spec (hring : ring.Represents base log taken) {pc : CanPushPc}
    (hpc : CanPushFacts ring pc) :
    match canPushStep ring pc with
    | .running pc' => CanPushFacts ring pc'
    | .returned value =>
        value = 1 ∧ log.length < taken + slotCount ∨
          value = 0 ∧ log.length = taken + slotCount := by
  have hbound := hring.bounded
  have htaken := hring.taken_le
  cases pc with
  | readProducer => exact rfl
  | readConsumer producer =>
      obtain rfl : producer = ring.producer := hpc
      have hocc := hring.occupancy
      simp only [canPushStep]
      rw [readOccupancy_of_le (by omega)]
      dsimp only
      rw [hocc]
      split_ifs <;> omega

theorem tryPushStep_spec (hring : ring.Represents base log taken) {pc : PushPc}
    (hpc : PushFacts log taken message ring pc) :
    match tryPushStep message ring pc with
    | (.running pc', ring') =>
        ring'.Represents base log taken ∧ PushFacts log taken message ring' pc'
    | (.returned .ok, ring') => ring'.Represents base (log ++ [message]) taken
    | (.returned .full, ring') => ring' = ring ∧ log.length = taken + slotCount
    | (.returned _, _) => False := by
  have hbound := hring.bounded
  have htaken := hring.taken_le
  cases pc with
  | readProducer => exact ⟨hring, rfl⟩
  | readConsumer producer =>
      obtain rfl : producer = ring.producer := hpc
      have hocc := hring.occupancy
      simp only [tryPushStep]
      rw [readOccupancy_of_le (by omega)]
      dsimp only
      rw [hocc]
      split_ifs with hfull
      · exact ⟨rfl, by omega⟩
      · exact ⟨hring, rfl, by omega⟩
  | copySlot producer =>
      obtain ⟨rfl, hroom⟩ := hpc
      have hwrite := hring.writeSlot (k := 0) (by omega) message
      rw [BitVec.add_zero] at hwrite
      exact ⟨hwrite, rfl, hroom, Function.update_self ..⟩
  | publish producer =>
      obtain ⟨rfl, hroom, hslot⟩ := hpc
      have hstaged : Staged ring.slots base log.length [message] 1 := by
        intro i hi _
        obtain rfl : i = 0 := by simpa using hi
        rw [← slotIndex_eq_cell, Nat.add_zero, ← hring.producer_eq]
        exact hslot
      exact hring.publish hstaged (by rw [List.length_singleton]; omega)

theorem tryPopStep_spec (hring : ring.Represents base log taken)
    (hvalid : ∀ m ∈ log, m.Fits) {pc : PopPc} (hpc : PopFacts base log taken ring message pc) :
    match tryPopStep ring message pc with
    | (.running pc', ring', message') =>
        ring' = ring ∧ PopFacts base log taken ring message' pc'
    | (.returned .ok, ring', message') =>
        ring'.Represents base log (taken + 1) ∧ log[taken]? = some message'
    | (.returned .empty, ring', _) => ring' = ring
    | (.returned _, _, _) => False := by
  have hbound := hring.bounded
  cases pc with
  | readProducer =>
      exact ⟨rfl, log.length, hring.producer_eq, hring.taken_le, Nat.le_refl _⟩
  | readConsumer producer =>
      obtain ⟨seen, rfl, hlow, hhigh⟩ := hpc
      have hocc := hring.stale_occupancy hlow hhigh
      simp only [tryPopStep]
      rw [readOccupancy_of_le (by omega)]
      dsimp only
      rw [hocc]
      split_ifs with hempty
      · rfl
      · exact ⟨rfl, rfl, by omega⟩
  | copySlot consumer =>
      obtain ⟨rfl, hlt⟩ := hpc
      have hread := hring.readSlot (k := 0) (by simpa using hlt)
      simp only [Nat.add_zero, BitVec.add_zero] at hread
      exact ⟨rfl, rfl, by rw [List.getElem?_eq_getElem hlt, hread]⟩
  | publish consumer =>
      obtain ⟨rfl, hget⟩ := hpc
      obtain ⟨hlt, hmessage⟩ := List.getElem?_eq_some_iff.mp hget
      have hfits : message.Fits := hmessage ▸ hvalid _ (List.getElem_mem hlt)
      simp only [tryPopStep, if_pos hfits]
      exact ⟨hring.advance (k := 1) hlt, hget⟩

/-! ## Stability under the other side -/

theorem PushFacts.advance {pc : PushPc} (h : PushFacts log taken message ring pc)
    {ring' : Ring} {taken' : ℕ} (hle : taken ≤ taken') (hproducer : ring'.producer = ring.producer)
    (hslots : ring'.slots = ring.slots) : PushFacts log taken' message ring' pc := by
  cases pc with
  | readProducer => trivial
  | readConsumer producer => exact h.trans hproducer.symm
  | copySlot producer => exact ⟨h.1.trans hproducer.symm, by have := h.2; omega⟩
  | publish producer =>
      exact ⟨h.1.trans hproducer.symm, by have := h.2.1; omega, hslots ▸ h.2.2⟩

theorem PopFacts.extend {pc : PopPc} (h : PopFacts base log taken ring message pc)
    {ring' : Ring} (more : List Slot) (hconsumer : ring'.consumer = ring.consumer) :
    PopFacts base (log ++ more) taken ring' message pc := by
  have hlength : log.length ≤ (log ++ more).length := by simp
  cases pc with
  | readProducer => trivial
  | readConsumer producer =>
      obtain ⟨seen, heq, hlow, hhigh⟩ := h
      exact ⟨seen, heq, hlow, by omega⟩
  | copySlot consumer => exact ⟨h.1.trans hconsumer.symm, by have := h.2; omega⟩
  | publish consumer =>
      obtain ⟨hlt, -⟩ := List.getElem?_eq_some_iff.mp h.2
      exact ⟨h.1.trans hconsumer.symm, by rw [List.getElem?_append_left hlt]; exact h.2⟩

end Facts

end Sg200x.Ipc.RingCore
