import Sg200x.Library.WrapRing
import Mathlib.Data.Fintype.Basic

/-!
# The shared-memory region

The stable transport contract of `sg2002_rtos_shm.h`: the layout line, the two
peer lines, the four counter lines and the two tables of 64 slots.  Each counter
and peer line is written by one side only; the reserved bytes are left out.
-/

namespace Sg200x.Ipc

abbrev U8 := BitVec 8
abbrev U16 := BitVec 16
abbrev U32 := BitVec 32

namespace Shm

def magic : U32 := 0x53475251#32
def abiVersion : U16 := 2#16
def features : U32 := 1#32
def controlSize : U16 := 0x1000#16
def slotSize : U16 := 1024#16
abbrev slotCount : ℕ := 64
abbrev payloadSize : ℕ := 1018

scoped instance : NeZero slotCount := ⟨by decide⟩

theorem payloadSize_pos : 0 < payloadSize := by decide

def requestOffset : U32 := 0x1000#32
def responseOffset : U32 := 0x11000#32
def regionSize : U32 := 0x21000#32

def stateOffline : U32 := 0#32
def stateReady : U32 := 1#32
def stateError : U32 := 2#32

/-- The final 7-bit CMDQU value, reserved for transport notifications. -/
def doorbellCommand : BitVec 7 := 0x7f#7

end Shm

open Shm Library.WrapRing

structure Slot where
  sequence : U32
  length : U16
  payload : Vector U8 payloadSize
  deriving DecidableEq

def Slot.zero : Slot := ⟨0#32, 0#16, Vector.replicate payloadSize 0#8⟩

instance : Inhabited Slot := ⟨Slot.zero⟩

/-- `length > SG2002_RTOS_SHM_PAYLOAD_SIZE` is what every receiver rejects. -/
def Slot.Fits (slot : Slot) : Prop := slot.length.toNat ≤ payloadSize

instance (slot : Slot) : Decidable slot.Fits := inferInstanceAs (Decidable (_ ≤ _))

structure LayoutLine where
  magic : U32
  abiVersion : U16
  controlSize : U16
  regionSize : U32
  slotSize : U16
  slotCount : U16
  requestOffset : U32
  responseOffset : U32
  generation : U32
  features : U32
  deriving DecidableEq

/-- The layout line of a generation that has been published. -/
def initialized (generation : U32) : LayoutLine :=
  ⟨Shm.magic, Shm.abiVersion, Shm.controlSize, Shm.regionSize, Shm.slotSize,
    BitVec.ofNat 16 Shm.slotCount, Shm.requestOffset, Shm.responseOffset, generation, Shm.features⟩

structure PeerLine where
  state : U32
  generation : U32
  deriving DecidableEq

/-- One direction of the channel: its producer and consumer counter lines and
its slots. -/
structure Ring where
  producer : U32
  consumer : U32
  slots : Fin slotCount → Slot

/-- `memcpy` of a whole message to a slot. -/
def Ring.writeSlot (ring : Ring) (index : Fin slotCount) (message : Slot) : Ring :=
  { ring with slots := Function.update ring.slots index message }

@[simp] theorem Ring.writeSlot_producer (ring : Ring) (index : Fin slotCount) (message : Slot) :
    (ring.writeSlot index message).producer = ring.producer := rfl

@[simp] theorem Ring.writeSlot_consumer (ring : Ring) (index : Fin slotCount) (message : Slot) :
    (ring.writeSlot index message).consumer = ring.consumer := rfl

@[simp] theorem Ring.writeSlot_slots (ring : Ring) (index : Fin slotCount) (message : Slot) :
    (ring.writeSlot index message).slots = Function.update ring.slots index message := rfl

structure Region where
  layout : LayoutLine
  linuxPeer : PeerLine
  rtosPeer : PeerLine
  request : Ring
  response : Ring

/-! ## Reading the layout line

Both sides read the layout line one field at a time, in this order and up to the
first field that is wrong. -/

inductive LayoutRead
  | magic
  | abiVersion
  | controlSize
  | regionSize
  | slotSize
  | slotCount
  | requestOffset
  | responseOffset
  | generation
  | features
  deriving DecidableEq

/-- The comparison made with the field that is read. -/
def LayoutRead.passes (layout : LayoutLine) (generation : U32) : LayoutRead → Bool
  | .magic => layout.magic == Shm.magic
  | .abiVersion => layout.abiVersion == Shm.abiVersion
  | .controlSize => layout.controlSize == Shm.controlSize
  | .regionSize => layout.regionSize == Shm.regionSize
  | .slotSize => layout.slotSize == Shm.slotSize
  | .slotCount => layout.slotCount == BitVec.ofNat 16 Shm.slotCount
  | .requestOffset => layout.requestOffset == Shm.requestOffset
  | .responseOffset => layout.responseOffset == Shm.responseOffset
  | .generation => layout.generation == generation
  | .features => layout.features &&& Shm.features == Shm.features

/-! ## Counters and slots -/

/-- `counter & (SG2002_RTOS_SHM_SLOT_COUNT - 1U)`, as both sides compute it. -/
def slotIndex (counter : U32) : Fin slotCount :=
  ⟨(counter &&& 63#32).toNat, by
    rw [BitVec.toNat_and]
    exact Nat.lt_of_le_of_lt Nat.and_le_right (by decide)⟩

theorem slotIndex_eq_cell (counter : U32) : slotIndex counter = cell slotCount counter := by
  apply Fin.ext
  simp only [slotIndex, cell, Fin.ofNat, BitVec.toNat_and]
  exact Nat.and_two_pow_sub_one_eq_mod counter.toNat 6

theorem slotCount_dvd : slotCount ∣ 2 ^ 32 := by decide

theorem slotCount_fits : slotCount < 2 ^ 32 := by decide

/-- The slots from the consumer counter to the producer counter hold the entries
of `log` that have not been taken. -/
abbrev Ring.Represents (ring : Ring) (base : U32) (log : List Slot) (taken : ℕ) : Prop :=
  Library.WrapRing.Represents base ring.producer ring.consumer ring.slots log taken

namespace Ring.Represents

variable {ring : Ring} {base : U32} {log : List Slot} {taken : ℕ}

theorem occupancy (h : ring.Represents base log taken) :
    (ring.producer - ring.consumer).toNat = log.length - taken :=
  Library.WrapRing.Represents.occupancy h slotCount_fits

/-- A producer count read earlier stays within one lap of the consumer count. -/
theorem stale_occupancy (h : ring.Represents base log taken) {seen : ℕ}
    (hlow : taken ≤ seen) (hhigh : seen ≤ log.length) :
    (position base seen - ring.consumer).toNat = seen - taken := by
  have := h.bounded
  rw [h.consumer_eq]
  exact toNat_position_sub base hlow (by simp only [slotCount] at this; omega)

/-- Writing `k` slots past the producer counter leaves the log alone while there
is room for them. -/
theorem writeSlot (h : ring.Represents base log taken) {k : ℕ}
    (hroom : log.length + k < taken + slotCount) (message : Slot) :
    (ring.writeSlot (slotIndex (ring.producer + BitVec.ofNat 32 k)) message).Represents
      base log taken := by
  rw [slotIndex_eq_cell]
  exact Library.WrapRing.Represents.write h slotCount_dvd hroom message

theorem readSlot (h : ring.Represents base log taken) {k : ℕ} (hk : taken + k < log.length) :
    ring.slots (slotIndex (ring.consumer + BitVec.ofNat 32 k)) = log[taken + k] := by
  rw [slotIndex_eq_cell]
  exact Library.WrapRing.Represents.read h hk

/-- The slot at the producer counter is not one the consumer may still read. -/
theorem slotIndex_ne (h : ring.Represents base log taken) {k : ℕ}
    (hroom : log.length + k < taken + slotCount) (htaken : taken < log.length) :
    slotIndex (ring.producer + BitVec.ofNat 32 k) ≠ slotIndex ring.consumer := by
  rw [slotIndex_eq_cell, slotIndex_eq_cell, h.producer_eq, h.consumer_eq, position_add]
  exact (cell_position_ne slotCount_dvd base (by omega) (by omega)).symm

end Ring.Represents

end Sg200x.Ipc
