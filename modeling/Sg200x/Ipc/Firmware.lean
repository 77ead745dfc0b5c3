import Sg200x.Ipc.App
import Sg200x.Ipc.RingCore

/-!
# The firmware side of the transport

`sg2002_rtos_shm_transport.c`.  A call of `sg2002_rtos_shm_process` is a program
counter; a step makes its next access to shared memory.  The firmware runs the
function in one task only, so that its static variables have no other writer.
-/

namespace Sg200x.Ipc.Firmware

open Shm RingCore App

/-- The static variables.  The two rings hold constant pointers once attached. -/
structure Statics where
  activeGeneration : U32
  requestMessage : Slot
  responseMessage : Slot

inductive ProcessResult
  | ok
  | notReady
  | corrupt
  deriving DecidableEq

/-- The result and what is left in `*processed`. -/
abbrev ProcessReturn := ProcessResult × ℕ

inductive ProcessPc
  /-- `attach`. -/
  | readGeneration
  | layoutIsValid (generation : U32) (reads : List LayoutRead)
  | linuxState (generation : U32)
  | linuxGeneration (generation : U32)
  /-- `publish_rtos_state` of `attach`. -/
  | attachGeneration (generation : U32)
  | attachState (generation : U32)
  /-- The loop; `count` requests have been answered. -/
  | canPush (count : ℕ) (pc : CanPushPc)
  | tryPop (count : ℕ) (pc : PopPc)
  | handle (count : ℕ)
  | tryPush (count : ℕ) (pc : PushPc)
  /-- `publish_rtos_state` of `mark_corrupt`. -/
  | corruptGeneration
  | corruptState

/-- The fields `layout_is_valid` reads. -/
def layoutIsValid : List LayoutRead :=
  [.magic, .abiVersion, .controlSize, .regionSize, .slotSize, .slotCount, .requestOffset,
    .responseOffset, .generation, .features]

/-- The test at the head of the loop. -/
def loop (count : ℕ) : Outcome ProcessPc ProcessReturn :=
  if count < slotCount then .running (.canPush count .readProducer) else .returned (.ok, count)

/-- The last test of `attach`: a generation that is already active is not published
again. -/
def attach (statics : Statics) (generation : U32) :
    Outcome ProcessPc ProcessReturn × Statics :=
  if statics.activeGeneration = generation then (loop 0, statics)
  else (.running (.attachGeneration generation), { statics with activeGeneration := generation })

def processStep (mmio : Mmio) (region : Region) (statics : Statics) :
    ProcessPc → Outcome ProcessPc ProcessReturn × Region × Statics
  | .readGeneration =>
      if region.layout.generation = 0#32 then (.returned (.notReady, 0), region, statics)
      else (.running (.layoutIsValid region.layout.generation layoutIsValid), region, statics)
  | .layoutIsValid generation [] => (.running (.linuxState generation), region, statics)
  | .layoutIsValid generation (read :: reads) =>
      if read.passes region.layout generation then
        (.running (.layoutIsValid generation reads), region, statics)
      else (.returned (.notReady, 0), region, statics)
  | .linuxState generation =>
      if region.linuxPeer.state = stateReady then
        (.running (.linuxGeneration generation), region, statics)
      else (.returned (.notReady, 0), region, statics)
  | .linuxGeneration generation =>
      if region.linuxPeer.generation = generation then
        ((attach statics generation).1, region, (attach statics generation).2)
      else (.returned (.notReady, 0), region, statics)
  | .attachGeneration generation =>
      (.running (.attachState generation),
        { region with rtosPeer := { region.rtosPeer with generation := generation } }, statics)
  | .attachState _ =>
      (loop 0, { region with rtosPeer := { region.rtosPeer with state := stateReady } }, statics)
  | .canPush count pc =>
      match canPushStep region.response pc with
      | .running pc' => (.running (.canPush count pc'), region, statics)
      | .returned value =>
          if value < 0 then (.running .corruptGeneration, region, statics)
          else if value = 0 then (.returned (.ok, count), region, statics)
          else (.running (.tryPop count .readProducer), region, statics)
  | .tryPop count pc =>
      match tryPopStep region.request statics.requestMessage pc with
      | (.running pc', ring, message) =>
          (.running (.tryPop count pc'), { region with request := ring },
            { statics with requestMessage := message })
      | (.returned .ok, ring, message) =>
          (.running (.handle count), { region with request := ring },
            { statics with requestMessage := message })
      | (.returned .empty, ring, message) =>
          (.returned (.ok, count), { region with request := ring },
            { statics with requestMessage := message })
      | (.returned _, ring, message) =>
          (.running .corruptGeneration, { region with request := ring },
            { statics with requestMessage := message })
  | .handle count =>
      let response := respond mmio statics.requestMessage
      match tryPush response with
      | .running pc =>
          (.running (.tryPush count pc), region, { statics with responseMessage := response })
      | .returned _ =>
          (.running .corruptGeneration, region, { statics with responseMessage := response })
  | .tryPush count pc =>
      match tryPushStep statics.responseMessage region.response pc with
      | (.running pc', ring) =>
          (.running (.tryPush count pc'), { region with response := ring }, statics)
      | (.returned .ok, ring) => (loop (count + 1), { region with response := ring }, statics)
      | (.returned _, ring) =>
          (.running .corruptGeneration, { region with response := ring }, statics)
  | .corruptGeneration =>
      (.running .corruptState,
        { region with
          rtosPeer := { region.rtosPeer with generation := statics.activeGeneration } },
        statics)
  | .corruptState =>
      (.returned (.corrupt, 0),
        { region with rtosPeer := { region.rtosPeer with state := stateError } }, statics)

/-- The firmware writes its own peer line, the response ring's producer side and the
request ring's consumer counter. -/
theorem processStep_frame (mmio : Mmio) (region : Region) (statics : Statics) (pc : ProcessPc) :
    (processStep mmio region statics pc).2.1.layout = region.layout ∧
      (processStep mmio region statics pc).2.1.linuxPeer = region.linuxPeer ∧
      (processStep mmio region statics pc).2.1.request.producer = region.request.producer ∧
      (processStep mmio region statics pc).2.1.request.slots = region.request.slots ∧
      (processStep mmio region statics pc).2.1.response.consumer = region.response.consumer := by
  cases pc with
  | tryPop count pc =>
      have hframe := tryPopStep_frame region.request statics.requestMessage pc
      rcases hout : tryPopStep region.request statics.requestMessage pc with ⟨out, ring, message⟩
      rw [hout] at hframe
      simp only [processStep, hout]
      cases out with
      | running pc' => exact ⟨rfl, rfl, hframe.1, hframe.2, rfl⟩
      | returned result => cases result <;> exact ⟨rfl, rfl, hframe.1, hframe.2, rfl⟩
  | tryPush count pc =>
      have hframe := tryPushStep_consumer statics.responseMessage region.response pc
      rcases hout : tryPushStep statics.responseMessage region.response pc with ⟨out, ring⟩
      rw [hout] at hframe
      simp only [processStep, hout]
      cases out with
      | running pc' => exact ⟨rfl, rfl, rfl, rfl, hframe⟩
      | returned result => cases result <;> exact ⟨rfl, rfl, rfl, rfl, hframe⟩
  | canPush count pc =>
      simp only [processStep]
      split
      · exact ⟨rfl, rfl, rfl, rfl, rfl⟩
      · split_ifs <;> exact ⟨rfl, rfl, rfl, rfl, rfl⟩
  | layoutIsValid generation reads =>
      cases reads with
      | nil => exact ⟨rfl, rfl, rfl, rfl, rfl⟩
      | cons read reads =>
          simp only [processStep]
          split_ifs <;> exact ⟨rfl, rfl, rfl, rfl, rfl⟩
  | handle count =>
      simp only [processStep]
      split <;> exact ⟨rfl, rfl, rfl, rfl, rfl⟩
  | readGeneration | linuxState | linuxGeneration =>
      simp only [processStep]
      split_ifs <;> exact ⟨rfl, rfl, rfl, rfl, rfl⟩
  | attachGeneration | attachState | corruptGeneration | corruptState =>
      exact ⟨rfl, rfl, rfl, rfl, rfl⟩

end Sg200x.Ipc.Firmware
