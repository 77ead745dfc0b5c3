import Sg200x.Ipc.FirmwareFacts
import Sg200x.Library.Transition

/-!
# The firmware against an arbitrary peer

One call of `sg2002_rtos_shm_process` while Linux rewrites, before every access of the
firmware, all the words that it can write.
-/

namespace Sg200x.Ipc.Firmware

open Shm RingCore App Library.Transition

/-! ## The application handler -/

section Handler

variable {mmio : Mmio} {request response : Payload} {requestLength capacity : U16}

theorem writeValue_getElem (response : Payload) (command : U8) (value : U32) {i : ℕ}
    (hi : i < payloadSize) (hlow : 5 ≤ i) :
    (response.writeValue command value)[i] = response[i] := by
  unfold Payload.writeValue
  rw [Vector.getElem_set_ne _ _ (by omega), Vector.getElem_set_ne _ _ (by omega),
    Vector.getElem_set_ne _ _ (by omega), Vector.getElem_set_ne _ _ (by omega),
    Vector.getElem_set_ne _ _ (by omega)]

/-- The handler leaves the bytes behind the length that it reports as they are. -/
theorem appHandleMessage_getElem {i : ℕ} (hi : i < payloadSize)
    (hlow : (appHandleMessage mmio request requestLength response
      capacity).responseLength.toNat ≤ i) :
    (appHandleMessage mmio request requestLength response capacity).response[i] = response[i] := by
  unfold appHandleMessage at hlow ⊢
  dsimp only at hlow ⊢
  split_ifs at hlow ⊢ with hempty hcommand hecho hlong hsmall hvalue
  · rfl
  · rfl
  · rfl
  · simp only [Payload.copyFrom, Vector.getElem_ofFn]
    exact if_neg (Nat.not_lt.mpr hlow)
  · rfl
  · generalize appHandle mmio request[0] (messageValue request) = outcome at hlow ⊢
    obtain ⟨result, value, writes⟩ := outcome
    cases result with
    | unhandled => rfl
    | handled => exact writeValue_getElem response _ _ hi hlow
  · exact writeValue_getElem response _ _ hi hlow

/-- A command that is not handled has no effect. -/
theorem appHandleMessage_unhandled
    (h : (appHandleMessage mmio request requestLength response capacity).result = .unhandled) :
    (appHandleMessage mmio request requestLength response capacity).responseLength = 0#16 ∧
      (appHandleMessage mmio request requestLength response capacity).writes = [] := by
  have hwrites : ∀ command value, (appHandle mmio command value).1 = .unhandled →
      (appHandle mmio command value).2.2 = [] := by
    intro command value hresult
    unfold appHandle at hresult ⊢
    split_ifs at hresult ⊢
    rfl
  unfold appHandleMessage at h ⊢
  dsimp only at h ⊢
  split_ifs at h ⊢ with hempty hcommand hecho hlong hsmall hvalue
  · exact ⟨rfl, rfl⟩
  · exact ⟨rfl, rfl⟩
  · exact ⟨rfl, rfl⟩
  · exact ⟨rfl, rfl⟩
  · split at h
    · rename_i hresult
      exact ⟨rfl, hwrites _ _ hresult⟩
    · cases h

end Handler

/-! ## The call -/

/-- The words that Linux writes. -/
structure PeerWords where
  layout : LayoutLine
  linuxPeer : PeerLine
  requestProducer : U32
  requestSlots : Fin slotCount → Slot
  responseConsumer : U32

def PeerWords.write (words : PeerWords) (region : Region) : Region where
  layout := words.layout
  linuxPeer := words.linuxPeer
  rtosPeer := region.rtosPeer
  request := ⟨words.requestProducer, region.request.consumer, words.requestSlots⟩
  response := ⟨region.response.producer, words.responseConsumer, region.response.slots⟩

/-- What a call has done. -/
structure Trace where
  /-- The pairs of counters that `read_occupancy` has compared. -/
  checks : List (U32 × U32)
  popped : List Slot
  handled : List (Mmio × Slot)
  pushed : List Slot

/-- The message that the next step takes out of the request ring. -/
def ProcessPc.takes (statics : Statics) : ProcessPc → List Slot
  | .tryPop _ (.publish _) => [statics.requestMessage]
  | _ => []

def ProcessPc.checks (region : Region) : ProcessPc → List (U32 × U32)
  | .canPush _ (.readConsumer producer) => [(producer, region.response.consumer)]
  | .tryPop _ (.readConsumer producer) => [(producer, region.request.consumer)]
  | .tryPush _ (.readConsumer producer) => [(producer, region.response.consumer)]
  | _ => []

def Trace.record (trace : Trace) (mmio : Mmio) (region : Region) (statics : Statics)
    (pc : ProcessPc) : Trace where
  checks := trace.checks ++ pc.checks region
  popped := trace.popped ++ pc.takes statics
  handled := trace.handled ++ pc.handles mmio statics
  pushed := trace.pushed ++ pc.pushes statics

structure CallState where
  /-- The region at the start of the call. -/
  entered : Region
  region : Region
  statics : Statics
  out : Outcome ProcessPc ProcessReturn
  trace : Trace
  steps : ℕ

/-- Linux writes, then the firmware makes its next access. -/
def callStep (label : Mmio × PeerWords) (s : CallState) : Option CallState :=
  match s.out with
  | .returned _ => none
  | .running pc =>
      let region := label.2.write s.region
      let result := processStep label.1 region s.statics pc
      some
        { entered := s.entered
          region := result.2.1
          statics := result.2.2
          out := result.1
          trace := s.trace.record label.1 region s.statics pc
          steps := s.steps + 1 }

structure CallStart (s : CallState) : Prop where
  region : s.region = s.entered
  out : s.out = .running .readGeneration
  trace : s.trace = ⟨[], [], [], []⟩
  steps : s.steps = 0

def attackedCall : System CallState (Mmio × PeerWords) := ⟨CallStart, callStep⟩

/-! ## Termination -/

/-- How many steps a call can still make. -/
def ProcessPc.rest : ProcessPc → ℕ
  | .readGeneration => 723
  | .layoutIsValid _ reads => 711 + reads.length
  | .linuxState _ => 710
  | .linuxGeneration _ => 709
  | .attachGeneration _ => 708
  | .attachState _ => 707
  | .canPush count .readProducer => 11 * (slotCount - count) + 2
  | .canPush count (.readConsumer _) => 11 * (slotCount - count) + 1
  | .tryPop count .readProducer => 11 * (slotCount - count)
  | .tryPop count (.readConsumer _) => 11 * (slotCount - count) - 1
  | .tryPop count (.copySlot _) => 11 * (slotCount - count) - 2
  | .tryPop count (.publish _) => 11 * (slotCount - count) - 3
  | .handle count => 11 * (slotCount - count) - 4
  | .tryPush count .readProducer => 11 * (slotCount - count) - 5
  | .tryPush count (.readConsumer _) => 11 * (slotCount - count) - 6
  | .tryPush count (.copySlot _) => 11 * (slotCount - count) - 7
  | .tryPush count (.publish _) => 11 * (slotCount - count) - 8
  | .corruptGeneration => 2
  | .corruptState => 1

def callRest : Outcome ProcessPc ProcessReturn → ℕ
  | .running pc => pc.rest
  | .returned _ => 0

/-- The loop runs while `count < SG2002_RTOS_SHM_SLOT_COUNT`. -/
def ProcessPc.InLoop : ProcessPc → Prop
  | .canPush count _ | .tryPop count _ | .handle count | .tryPush count _ => count < slotCount
  | _ => True

theorem callRest_loop (count : ℕ) : callRest (loop count) ≤ 11 * (slotCount - count) + 2 := by
  unfold loop
  split_ifs
  · exact Nat.le_refl _
  · exact Nat.zero_le _

section Rest

variable (mmio : Mmio) (region : Region) (statics : Statics) {pc : ProcessPc}

/-- Every step of a call takes it closer to its end, whatever it reads. -/
theorem callRest_processStep (h : pc.InLoop) :
    callRest (processStep mmio region statics pc).1 < pc.rest := by
  cases pc with
  | readGeneration =>
      simp only [processStep]
      split_ifs
      · exact Nat.succ_pos _
      · change 711 + layoutIsValid.length < 723
        decide
  | layoutIsValid generation reads =>
      cases reads with
      | nil =>
          change 710 < 711
          omega
      | cons read reads =>
          simp only [processStep]
          split_ifs
          · change 711 + reads.length < 711 + (reads.length + 1)
            omega
          · exact Nat.succ_pos _
  | linuxState generation =>
      simp only [processStep]
      split_ifs
      · exact Nat.lt_succ_self _
      · exact Nat.succ_pos _
  | linuxGeneration generation =>
      simp only [processStep, attach]
      have hloop : callRest (loop 0) ≤ 706 := callRest_loop 0
      split_ifs
      · change callRest (loop 0) < 709
        omega
      · exact Nat.lt_succ_self _
      · exact Nat.succ_pos _
  | attachGeneration generation => exact Nat.lt_succ_self _
  | attachState generation =>
      have hloop : callRest (loop 0) ≤ 706 := callRest_loop 0
      change callRest (loop 0) < 707
      omega
  | canPush count pc =>
      change count < slotCount at h
      cases pc with
      | readProducer =>
          change 11 * (slotCount - count) + 1 < 11 * (slotCount - count) + 2
          omega
      | readConsumer producer =>
          change _ < 11 * (slotCount - count) + 1
          simp only [processStep]
          split
          · rename_i hout
            simp only [canPushStep] at hout
            split at hout <;> cases hout
          · split_ifs
            · change 2 < _
              omega
            · exact Nat.succ_pos _
            · exact Nat.lt_succ_self _
  | tryPop count pc =>
      change count < slotCount at h
      cases pc with
      | readProducer =>
          change 11 * (slotCount - count) - 1 < 11 * (slotCount - count)
          omega
      | readConsumer producer =>
          change _ < 11 * (slotCount - count) - 1
          simp only [processStep, tryPopStep]
          cases readOccupancy producer region.request.consumer with
          | none =>
              change 2 < _
              omega
          | some occupancy =>
              by_cases hempty : occupancy.toNat = 0
              · simp only [if_pos hempty]
                change 0 < _
                omega
              · simp only [if_neg hempty]
                change 11 * (slotCount - count) - 2 < _
                omega
      | copySlot consumer =>
          change 11 * (slotCount - count) - 3 < 11 * (slotCount - count) - 2
          omega
      | publish consumer =>
          change _ < 11 * (slotCount - count) - 3
          by_cases hfits : statics.requestMessage.Fits
          · simp only [processStep, tryPopStep, if_pos hfits]
            change 11 * (slotCount - count) - 4 < _
            omega
          · simp only [processStep, tryPopStep, if_neg hfits]
            change 2 < _
            omega
  | handle count =>
      change count < slotCount at h
      simp only [processStep, tryPush, if_pos (respond_fits mmio statics.requestMessage)]
      change 11 * (slotCount - count) - 5 < 11 * (slotCount - count) - 4
      omega
  | tryPush count pc =>
      change count < slotCount at h
      cases pc with
      | readProducer =>
          change 11 * (slotCount - count) - 6 < 11 * (slotCount - count) - 5
          omega
      | readConsumer producer =>
          change _ < 11 * (slotCount - count) - 6
          simp only [processStep, tryPushStep]
          cases readOccupancy producer region.response.consumer with
          | none =>
              change 2 < _
              omega
          | some occupancy =>
              by_cases hfull : occupancy.toNat = slotCount
              · simp only [if_pos hfull]
                change 2 < _
                omega
              · simp only [if_neg hfull]
                change 11 * (slotCount - count) - 7 < _
                omega
      | copySlot producer =>
          change 11 * (slotCount - count) - 8 < 11 * (slotCount - count) - 7
          omega
      | publish producer =>
          have hloop := callRest_loop (count + 1)
          change callRest (loop (count + 1)) < 11 * (slotCount - count) - 8
          omega
  | corruptGeneration => exact Nat.lt_succ_self _
  | corruptState => exact Nat.succ_pos _

end Rest

/-! ## The invariant -/

/-- The messages popped are those handled and `waiting`; the responses to those handled are
those pushed and `owed`; the counters have moved by as many. -/
structure Balanced (entered region : Region) (trace : Trace) (waiting owed : List Slot) : Prop where
  consumer : region.request.consumer =
    entered.request.consumer + BitVec.ofNat 32 trace.popped.length
  producer : region.response.producer =
    entered.response.producer + BitVec.ofNat 32 trace.pushed.length
  popped : trace.popped = trace.handled.map Prod.snd ++ waiting
  pushed : trace.handled.map (fun call => respond call.1 call.2) = trace.pushed ++ owed
  fits : ∀ call ∈ trace.handled, call.2.Fits
  bound : trace.handled.length ≤ slotCount

/-- Besides, every occupancy has been found consistent. -/
structure Progress (entered region : Region) (trace : Trace) (count : ℕ)
    (waiting owed : List Slot) : Prop extends Balanced entered region trace waiting owed where
  consistent : ∀ check ∈ trace.checks, (check.1 - check.2).toNat ≤ slotCount
  count : trace.pushed.length = count

/-- What a call may leave behind that finds the channel corrupt. -/
def Broken (entered region : Region) (trace : Trace) : Prop :=
  Balanced entered region trace [] [] ∨ (∃ message, Balanced entered region trace [] [message]) ∨
    ∃ message : Slot, Balanced entered region trace [message] [] ∧ ¬ message.Fits

/-- A copy of the firmware's own counter is current. -/
def PopCurrent (region : Region) : PopPc → Prop
  | .copySlot consumer | .publish consumer => consumer = region.request.consumer
  | _ => True

def PushCurrent (region : Region) : PushPc → Prop
  | .readProducer => True
  | .readConsumer producer | .copySlot producer | .publish producer =>
      producer = region.response.producer

def PcFacts (entered region : Region) (statics : Statics) (trace : Trace) : ProcessPc → Prop
  | .readGeneration | .layoutIsValid _ _ | .linuxState _ | .linuxGeneration _
  | .attachGeneration _ | .attachState _ => Progress entered region trace 0 [] []
  | .canPush count _ => Progress entered region trace count [] [] ∧ count < slotCount
  | .tryPop count pc =>
      Progress entered region trace count [] [] ∧ count < slotCount ∧ PopCurrent region pc
  | .handle count =>
      Progress entered region trace count [statics.requestMessage] [] ∧ count < slotCount ∧
        statics.requestMessage.Fits
  | .tryPush count pc =>
      Progress entered region trace count [] [statics.responseMessage] ∧ count < slotCount ∧
        statics.responseMessage.Fits ∧ PushCurrent region pc
  | .corruptGeneration => Broken entered region trace
  | .corruptState =>
      Broken entered region trace ∧ region.rtosPeer.generation = statics.activeGeneration

def ReturnFacts (entered region : Region) (statics : Statics) (trace : Trace) :
    ProcessReturn → Prop
  | (.corrupt, _) =>
      Broken entered region trace ∧ region.rtosPeer = ⟨stateError, statics.activeGeneration⟩
  | (_, count) => Progress entered region trace count [] []

def OutFacts (entered region : Region) (statics : Statics) (trace : Trace)
    (out : Outcome ProcessPc ProcessReturn) : Prop :=
  out.Meets (PcFacts entered region statics trace) (ReturnFacts entered region statics trace)

-- The equations of these functions are generated here, once for the proofs that unfold them.
section
attribute [local simp] ProcessPc.checks ProcessPc.takes ProcessPc.handles ProcessPc.pushes
end

theorem PcFacts.inLoop {entered region : Region} {statics : Statics} {trace : Trace}
    {pc : ProcessPc} (h : PcFacts entered region statics trace pc) : pc.InLoop := by
  cases pc with
  | canPush count pc => exact h.2
  | tryPop count pc => exact h.2.1
  | handle count => exact h.2.1
  | tryPush count pc => exact h.2.1
  | _ => trivial

section Facts

variable {entered region region' : Region} {statics : Statics} {trace trace' : Trace} {count : ℕ}
  {waiting owed : List Slot}

theorem Balanced.congr (h : Balanced entered region trace waiting owed)
    (hconsumer : region'.request.consumer = region.request.consumer)
    (hproducer : region'.response.producer = region.response.producer)
    (hpopped : trace'.popped = trace.popped) (hhandled : trace'.handled = trace.handled)
    (hpushed : trace'.pushed = trace.pushed) : Balanced entered region' trace' waiting owed := by
  constructor
  · rw [hconsumer, hpopped]
    exact h.consumer
  · rw [hproducer, hpushed]
    exact h.producer
  · rw [hpopped, hhandled]
    exact h.popped
  · rw [hhandled, hpushed]
    exact h.pushed
  · rw [hhandled]
    exact h.fits
  · rw [hhandled]
    exact h.bound

/-- A step that reads, or writes no counter. -/
theorem Progress.congr (h : Progress entered region trace count waiting owed)
    (hconsumer : region'.request.consumer = region.request.consumer)
    (hproducer : region'.response.producer = region.response.producer) :
    Progress entered region' trace count waiting owed :=
  ⟨h.toBalanced.congr hconsumer hproducer rfl rfl rfl, h.consistent, h.count⟩

theorem Balanced.checked (h : Balanced entered region trace waiting owed)
    (checks : List (U32 × U32)) :
    Balanced entered region { trace with checks := trace.checks ++ checks } waiting owed :=
  h.congr rfl rfl rfl rfl rfl

theorem Progress.checked (h : Progress entered region trace count waiting owed)
    {producer consumer occupancy : U32} (hread : readOccupancy producer consumer = some occupancy) :
    Progress entered region { trace with checks := trace.checks ++ [(producer, consumer)] } count
      waiting owed := by
  refine ⟨h.toBalanced.checked _, ?_, h.count⟩
  intro check hmem
  obtain hold | hnew := List.mem_append.mp hmem
  · exact h.consistent check hold
  · rw [List.mem_singleton.mp hnew]
    unfold readOccupancy at hread
    split_ifs at hread with hle
    exact hle

/-- `request_consumer` is written. -/
theorem Progress.pop (h : Progress entered region trace count [] []) (message : Slot) :
    Progress entered
      { region with
        request := { region.request with consumer := region.request.consumer + 1#32 } }
      { trace with popped := trace.popped ++ [message] } count [message] [] := by
  refine ⟨⟨?_, h.producer, ?_, h.pushed, h.fits, h.bound⟩, h.consistent, h.count⟩
  · simp only [h.consumer, List.length_append, List.length_singleton, BitVec.ofNat_add,
      BitVec.add_assoc]
  · rw [h.popped, List.append_nil]

/-- The application handles a message. -/
theorem Progress.handle {message : Slot} (h : Progress entered region trace count [message] [])
    (hcount : count < slotCount) (hfits : message.Fits) (mmio : Mmio) :
    Progress entered region { trace with handled := trace.handled ++ [(mmio, message)] } count []
      [respond mmio message] := by
  have hpushed := h.pushed
  rw [List.append_nil] at hpushed
  have hlength : trace.handled.length = count := by
    rw [← h.count, ← hpushed, List.length_map]
  refine ⟨⟨h.consumer, h.producer, ?_, ?_, ?_, ?_⟩, h.consistent, h.count⟩
  · rw [h.popped, List.map_append, List.append_nil]
    rfl
  · rw [List.map_append, hpushed]
    rfl
  · intro call hmem
    obtain hold | hnew := List.mem_append.mp hmem
    · exact h.fits call hold
    · rw [List.mem_singleton.mp hnew]
      exact hfits
  · rw [List.length_append, List.length_singleton, hlength]
    exact hcount

/-- `response_producer` is written. -/
theorem Progress.push {message : Slot} (h : Progress entered region trace count [] [message]) :
    Progress entered
      { region with
        response := { region.response with producer := region.response.producer + 1#32 } }
      { trace with pushed := trace.pushed ++ [message] } (count + 1) [] [] := by
  refine ⟨⟨h.consumer, ?_, h.popped, ?_, h.fits, h.bound⟩, h.consistent, ?_⟩
  · simp only [h.producer, List.length_append, List.length_singleton, BitVec.ofNat_add,
      BitVec.add_assoc]
  · rw [h.pushed, List.append_nil]
  · rw [List.length_append, List.length_singleton, h.count]

theorem Progress.loop (h : Progress entered region trace count [] []) :
    OutFacts entered region statics trace (loop count) := by
  unfold Firmware.loop
  split_ifs with hlt
  · exact ⟨h, hlt⟩
  · exact h

/-- What Linux writes does not touch what the firmware owns. -/
theorem PcFacts.write {pc : ProcessPc} (h : PcFacts entered region statics trace pc)
    (words : PeerWords) : PcFacts entered (words.write region) statics trace pc := by
  have hbroken : Broken entered region trace → Broken entered (words.write region) trace := by
    rintro (hnone | ⟨message, howed⟩ | ⟨message, hwaiting, hfits⟩)
    · exact .inl (hnone.congr rfl rfl rfl rfl rfl)
    · exact .inr (.inl ⟨message, howed.congr rfl rfl rfl rfl rfl⟩)
    · exact .inr (.inr ⟨message, hwaiting.congr rfl rfl rfl rfl rfl, hfits⟩)
  cases pc with
  | canPush count pc => exact ⟨h.1.congr rfl rfl, h.2⟩
  | tryPop count pc =>
      refine ⟨h.1.congr rfl rfl, h.2.1, ?_⟩
      have hcurrent := h.2.2
      cases pc <;> exact hcurrent
  | handle count => exact ⟨h.1.congr rfl rfl, h.2⟩
  | tryPush count pc =>
      refine ⟨h.1.congr rfl rfl, h.2.1, h.2.2.1, ?_⟩
      have hcurrent := h.2.2.2
      cases pc <;> exact hcurrent
  | corruptGeneration => exact hbroken h
  | corruptState => exact ⟨hbroken h.1, h.2⟩
  | _ => exact Progress.congr h rfl rfl

variable (mmio : Mmio)

theorem attach_facts (h : Progress entered region trace 0 [] []) (generation : U32) :
    OutFacts entered region (attach statics generation).2 trace (attach statics generation).1 := by
  unfold attach
  split_ifs
  · exact h.loop
  · exact h

theorem canPush_facts {pc : CanPushPc}
    (h : PcFacts entered region statics trace (.canPush count pc)) :
    OutFacts entered (processStep mmio region statics (.canPush count pc)).2.1
      (processStep mmio region statics (.canPush count pc)).2.2
      (trace.record mmio region statics (.canPush count pc))
      (processStep mmio region statics (.canPush count pc)).1 := by
  obtain ⟨hprogress, hcount⟩ := h
  cases pc with
  | readProducer =>
      simp only [Trace.record, ProcessPc.checks, ProcessPc.takes, ProcessPc.handles,
        ProcessPc.pushes, List.append_nil]
      exact ⟨hprogress, hcount⟩
  | readConsumer producer =>
      simp only [Trace.record, ProcessPc.checks, ProcessPc.takes, ProcessPc.handles,
        ProcessPc.pushes, List.append_nil, processStep, canPushStep]
      cases hread : readOccupancy producer region.response.consumer with
      | none => exact .inl (hprogress.toBalanced.checked _)
      | some occupancy =>
          have hchecked := hprogress.checked hread
          by_cases hroom : occupancy.toNat < slotCount
          · simp only [if_pos hroom]
            exact ⟨hchecked, hcount, trivial⟩
          · simp only [if_neg hroom]
            exact hchecked

theorem tryPop_facts {pc : PopPc} (h : PcFacts entered region statics trace (.tryPop count pc)) :
    OutFacts entered (processStep mmio region statics (.tryPop count pc)).2.1
      (processStep mmio region statics (.tryPop count pc)).2.2
      (trace.record mmio region statics (.tryPop count pc))
      (processStep mmio region statics (.tryPop count pc)).1 := by
  obtain ⟨hprogress, hcount, hcurrent⟩ := h
  cases pc with
  | readProducer =>
      simp only [Trace.record, ProcessPc.checks, ProcessPc.takes, ProcessPc.handles,
        ProcessPc.pushes, List.append_nil]
      exact ⟨hprogress, hcount, trivial⟩
  | readConsumer producer =>
      simp only [Trace.record, ProcessPc.checks, ProcessPc.takes, ProcessPc.handles,
        ProcessPc.pushes, List.append_nil, processStep, tryPopStep]
      cases hread : readOccupancy producer region.request.consumer with
      | none => exact .inl (hprogress.toBalanced.checked _)
      | some occupancy =>
          have hchecked := hprogress.checked hread
          by_cases hempty : occupancy.toNat = 0
          · simp only [if_pos hempty]
            exact hchecked
          · simp only [if_neg hempty]
            exact ⟨hchecked, hcount, rfl⟩
  | copySlot consumer =>
      simp only [Trace.record, ProcessPc.checks, ProcessPc.takes, ProcessPc.handles,
        ProcessPc.pushes, List.append_nil]
      exact ⟨hprogress, hcount, hcurrent⟩
  | publish consumer =>
      obtain rfl : consumer = region.request.consumer := hcurrent
      simp only [Trace.record, ProcessPc.checks, ProcessPc.takes, ProcessPc.handles,
        ProcessPc.pushes, List.append_nil, processStep, tryPopStep]
      by_cases hfits : statics.requestMessage.Fits
      · simp only [if_pos hfits]
        exact ⟨hprogress.pop _, hcount, hfits⟩
      · -- the message is gone from the ring
        simp only [if_neg hfits]
        exact .inr (.inr ⟨_, (hprogress.pop _).toBalanced, hfits⟩)

theorem handle_facts (h : PcFacts entered region statics trace (.handle count)) :
    OutFacts entered (processStep mmio region statics (.handle count)).2.1
      (processStep mmio region statics (.handle count)).2.2
      (trace.record mmio region statics (.handle count))
      (processStep mmio region statics (.handle count)).1 := by
  obtain ⟨hprogress, hcount, hfits⟩ := h
  simp only [Trace.record, ProcessPc.checks, ProcessPc.takes, ProcessPc.handles,
    ProcessPc.pushes, List.append_nil, processStep, tryPush,
    if_pos (respond_fits mmio statics.requestMessage)]
  exact ⟨hprogress.handle hcount hfits mmio, hcount, respond_fits _ _, trivial⟩

theorem tryPush_facts {pc : PushPc} (h : PcFacts entered region statics trace (.tryPush count pc)) :
    OutFacts entered (processStep mmio region statics (.tryPush count pc)).2.1
      (processStep mmio region statics (.tryPush count pc)).2.2
      (trace.record mmio region statics (.tryPush count pc))
      (processStep mmio region statics (.tryPush count pc)).1 := by
  obtain ⟨hprogress, hcount, hfits, hcurrent⟩ := h
  cases pc with
  | readProducer =>
      simp only [Trace.record, ProcessPc.checks, ProcessPc.takes, ProcessPc.handles,
        ProcessPc.pushes, List.append_nil]
      exact ⟨hprogress, hcount, hfits, rfl⟩
  | readConsumer producer =>
      simp only [Trace.record, ProcessPc.checks, ProcessPc.takes, ProcessPc.handles,
        ProcessPc.pushes, List.append_nil, processStep, tryPushStep]
      cases hread : readOccupancy producer region.response.consumer with
      | none => exact .inr (.inl ⟨_, hprogress.toBalanced.checked _⟩)
      | some occupancy =>
          have hchecked := hprogress.checked hread
          by_cases hfull : occupancy.toNat = slotCount
          · simp only [if_pos hfull]
            exact .inr (.inl ⟨_, hchecked.toBalanced⟩)
          · simp only [if_neg hfull]
            exact ⟨hchecked, hcount, hfits, hcurrent⟩
  | copySlot producer =>
      simp only [Trace.record, ProcessPc.checks, ProcessPc.takes, ProcessPc.handles,
        ProcessPc.pushes, List.append_nil]
      exact ⟨hprogress.congr rfl rfl, hcount, hfits, hcurrent⟩
  | publish producer =>
      obtain rfl : producer = region.response.producer := hcurrent
      simp only [Trace.record, ProcessPc.checks, ProcessPc.takes, ProcessPc.handles,
        ProcessPc.pushes, List.append_nil]
      exact hprogress.push.loop

theorem processStep_facts {pc : ProcessPc} (h : PcFacts entered region statics trace pc) :
    OutFacts entered (processStep mmio region statics pc).2.1
      (processStep mmio region statics pc).2.2 (trace.record mmio region statics pc)
      (processStep mmio region statics pc).1 := by
  have hquiet : ∀ pc, pc.checks region = [] → pc.takes statics = [] → pc.handles mmio statics = [] →
      pc.pushes statics = [] → trace.record mmio region statics pc = trace := by
    intro pc hchecks htakes hhandles hpushes
    simp only [Trace.record, hchecks, htakes, hhandles, hpushes, List.append_nil]
  cases pc with
  | canPush count pc => exact canPush_facts mmio h
  | tryPop count pc => exact tryPop_facts mmio h
  | handle count => exact handle_facts mmio h
  | tryPush count pc => exact tryPush_facts mmio h
  | readGeneration =>
      rw [hquiet _ rfl rfl rfl rfl]
      simp only [processStep]
      split_ifs
      · exact h
      · exact h
  | layoutIsValid generation reads =>
      rw [hquiet _ rfl rfl rfl rfl]
      cases reads with
      | nil => exact h
      | cons read reads =>
          simp only [processStep]
          split_ifs
          · exact h
          · exact h
  | linuxState generation =>
      rw [hquiet _ rfl rfl rfl rfl]
      simp only [processStep]
      split_ifs
      · exact h
      · exact h
  | linuxGeneration generation =>
      rw [hquiet _ rfl rfl rfl rfl]
      simp only [processStep]
      split_ifs
      · exact attach_facts h generation
      · exact h
  | attachGeneration generation =>
      rw [hquiet _ rfl rfl rfl rfl]
      exact Progress.congr h rfl rfl
  | attachState generation =>
      rw [hquiet _ rfl rfl rfl rfl]
      simp only [processStep]
      apply Progress.loop
      exact Progress.congr h rfl rfl
  | corruptGeneration =>
      rw [hquiet _ rfl rfl rfl rfl]
      refine ⟨?_, rfl⟩
      obtain hnone | ⟨message, howed⟩ | ⟨message, hwaiting, hfits⟩ := h
      · exact .inl (hnone.congr rfl rfl rfl rfl rfl)
      · exact .inr (.inl ⟨message, howed.congr rfl rfl rfl rfl rfl⟩)
      · exact .inr (.inr ⟨message, hwaiting.congr rfl rfl rfl rfl rfl, hfits⟩)
  | corruptState =>
      rw [hquiet _ rfl rfl rfl rfl]
      obtain ⟨hbroken, hgeneration⟩ := h
      refine ⟨?_, congrArg (PeerLine.mk stateError) hgeneration⟩
      obtain hnone | ⟨message, howed⟩ | ⟨message, hwaiting, hfits⟩ := hbroken
      · exact .inl (hnone.congr rfl rfl rfl rfl rfl)
      · exact .inr (.inl ⟨message, howed.congr rfl rfl rfl rfl rfl⟩)
      · exact .inr (.inr ⟨message, hwaiting.congr rfl rfl rfl rfl rfl, hfits⟩)

end Facts

/-! ## Runs of the call -/

structure CallInv (s : CallState) : Prop where
  out : OutFacts s.entered s.region s.statics s.trace s.out
  rest : s.steps + callRest s.out ≤ 723

theorem CallStart.inv {s : CallState} (h : CallStart s) : CallInv s := by
  constructor
  · rw [h.out, h.trace, h.region]
    refine ⟨⟨?_, ?_, rfl, rfl, List.forall_mem_nil _, Nat.zero_le _⟩, List.forall_mem_nil _, rfl⟩
    · exact (BitVec.add_zero _).symm
    · exact (BitVec.add_zero _).symm
  · rw [h.out, h.steps]
    exact Nat.le_refl _

theorem CallInv.step {s t : CallState} (h : CallInv s) {label : Mmio × PeerWords}
    (hstep : callStep label s = some t) : CallInv t := by
  unfold callStep at hstep
  cases hout : s.out with
  | returned ret => simp [hout] at hstep
  | running pc =>
      have hfacts := h.out
      have hrest := h.rest
      rw [hout] at hfacts hrest
      simp only [hout] at hstep
      cases hstep
      have hwritten := PcFacts.write hfacts label.2
      have hless := callRest_processStep label.1 (label.2.write s.region) s.statics
        hwritten.inLoop
      constructor
      · exact processStep_facts label.1 hwritten
      · change s.steps + pc.rest ≤ 723 at hrest
        simp only
        omega

theorem reachable_callInv {s : CallState} (h : Reachable attackedCall s) : CallInv s := by
  apply h.invariant
  · intro s (hs : CallStart s)
    exact hs.inv
  · intro s t l hs hstep
    exact hs.step hstep

/-! ## What a call does -/

/-- A step writes at most the counters and the peer line of the firmware, each counter once
forward, and the response slot at its producer counter. -/
structure OwnWrites (before after : Region) : Prop where
  layout : after.layout = before.layout
  linuxPeer : after.linuxPeer = before.linuxPeer
  requestProducer : after.request.producer = before.request.producer
  requestSlots : after.request.slots = before.request.slots
  responseConsumer : after.response.consumer = before.response.consumer
  requestConsumer : after.request.consumer = before.request.consumer ∨
    after.request.consumer = before.request.consumer + 1#32
  responseProducer : after.response.producer = before.response.producer ∨
    after.response.producer = before.response.producer + 1#32
  responseSlots : after.response.slots = before.response.slots ∨
    ∃ message, after.response.slots =
      Function.update before.response.slots (slotIndex before.response.producer) message

theorem OwnWrites.refl (region : Region) : OwnWrites region region :=
  ⟨rfl, rfl, rfl, rfl, rfl, .inl rfl, .inl rfl, .inl rfl⟩

section OwnWrites

variable {entered region : Region} {statics : Statics} {trace : Trace} {pc : ProcessPc}
  (mmio : Mmio)

theorem ownWrites_tryPop {count : ℕ} {pc : PopPc}
    (h : PcFacts entered region statics trace (.tryPop count pc)) :
    OwnWrites region (processStep mmio region statics (.tryPop count pc)).2.1 := by
  have hcurrent := h.2.2
  cases pc with
  | readProducer => exact .refl region
  | readConsumer producer =>
      simp only [processStep, tryPopStep]
      cases readOccupancy producer region.request.consumer with
      | none => exact .refl region
      | some occupancy =>
          by_cases hempty : occupancy.toNat = 0
          · simp only [if_pos hempty]
            exact .refl region
          · simp only [if_neg hempty]
            exact .refl region
  | copySlot consumer => exact .refl region
  | publish consumer =>
      obtain rfl : consumer = region.request.consumer := hcurrent
      by_cases hfits : statics.requestMessage.Fits
      · simp only [processStep, tryPopStep, if_pos hfits]
        exact ⟨rfl, rfl, rfl, rfl, rfl, .inr rfl, .inl rfl, .inl rfl⟩
      · simp only [processStep, tryPopStep, if_neg hfits]
        exact ⟨rfl, rfl, rfl, rfl, rfl, .inr rfl, .inl rfl, .inl rfl⟩

theorem ownWrites_tryPush {count : ℕ} {pc : PushPc}
    (h : PcFacts entered region statics trace (.tryPush count pc)) :
    OwnWrites region (processStep mmio region statics (.tryPush count pc)).2.1 := by
  have hcurrent := h.2.2.2
  cases pc with
  | readProducer => exact .refl region
  | readConsumer producer =>
      simp only [processStep, tryPushStep]
      cases readOccupancy producer region.response.consumer with
      | none => exact .refl region
      | some occupancy =>
          by_cases hfull : occupancy.toNat = slotCount
          · simp only [if_pos hfull]
            exact .refl region
          · simp only [if_neg hfull]
            exact .refl region
  | copySlot producer =>
      obtain rfl : producer = region.response.producer := hcurrent
      exact ⟨rfl, rfl, rfl, rfl, rfl, .inl rfl, .inl rfl, .inr ⟨_, rfl⟩⟩
  | publish producer =>
      obtain rfl : producer = region.response.producer := hcurrent
      exact ⟨rfl, rfl, rfl, rfl, rfl, .inl rfl, .inr rfl, .inl rfl⟩

theorem ownWrites_processStep (h : PcFacts entered region statics trace pc) :
    OwnWrites region (processStep mmio region statics pc).2.1 := by
  cases pc with
  | tryPop count pc => exact ownWrites_tryPop mmio h
  | tryPush count pc => exact ownWrites_tryPush mmio h
  | canPush count pc =>
      simp only [processStep]
      split
      · exact .refl region
      · split_ifs
        · exact .refl region
        · exact .refl region
        · exact .refl region
  | handle count =>
      simp only [processStep]
      split
      · exact .refl region
      · exact .refl region
  | layoutIsValid generation reads =>
      cases reads with
      | nil => exact .refl region
      | cons read reads =>
          simp only [processStep]
          split_ifs
          · exact .refl region
          · exact .refl region
  | readGeneration | linuxState | linuxGeneration =>
      simp only [processStep]
      split_ifs
      · exact .refl region
      · exact .refl region
  | attachGeneration | attachState | corruptGeneration | corruptState =>
      exact ⟨rfl, rfl, rfl, rfl, rfl, .inl rfl, .inl rfl, .inl rfl⟩

end OwnWrites

/-- The handler stays within the length that it reports, and a request that it does not
handle drives nothing and is answered without payload. -/
def HandlerContained (mmio : Mmio) (request : Slot) : Prop :=
  (∀ response : Payload, ∀ reply,
    reply = appHandleMessage mmio request.payload request.length response
        (BitVec.ofNat 16 payloadSize) →
      reply.responseLength.toNat ≤ payloadSize ∧
      (∀ i, ∀ hi : i < payloadSize, reply.responseLength.toNat ≤ i →
        reply.response[i] = response[i]) ∧
      (reply.result = .unhandled → reply.responseLength = 0#16 ∧ reply.writes = [])) ∧
  ((appHandleMessage mmio request.payload request.length (Vector.replicate payloadSize 0#8)
      (BitVec.ofNat 16 payloadSize)).result = .unhandled → (respond mmio request).length = 0#16)

theorem handlerContained (mmio : Mmio) (request : Slot) : HandlerContained mmio request := by
  constructor
  · rintro response reply rfl
    refine ⟨appHandleMessage_length_le .., ?_, appHandleMessage_unhandled⟩
    intro i hi hlow
    exact appHandleMessage_getElem hi hlow
  · intro hresult
    apply if_neg
    rw [hresult]
    exact nofun

section Call

variable {s : CallState}

/-- All that has been popped has been handled, or was too long, or is handled next. -/
theorem CallInv.balanced (h : CallInv s) :
    ∃ waiting owed, Balanced s.entered s.region s.trace waiting owed ∧ waiting.length ≤ 1 ∧
      owed.length ≤ 1 := by
  have hbroken : Broken s.entered s.region s.trace →
      ∃ waiting owed, Balanced s.entered s.region s.trace waiting owed ∧ waiting.length ≤ 1 ∧
        owed.length ≤ 1 := by
    rintro (hnone | ⟨message, howed⟩ | ⟨message, hwaiting, -⟩)
    · exact ⟨_, _, hnone, Nat.zero_le _, Nat.zero_le _⟩
    · exact ⟨_, _, howed, Nat.zero_le _, Nat.le_refl _⟩
    · exact ⟨_, _, hwaiting, Nat.le_refl _, Nat.zero_le _⟩
  have hout := h.out
  cases hs : s.out with
  | running pc =>
      rw [hs] at hout
      change PcFacts s.entered s.region s.statics s.trace pc at hout
      cases pc with
      | canPush count pc => exact ⟨_, _, hout.1.toBalanced, Nat.zero_le _, Nat.zero_le _⟩
      | tryPop count pc => exact ⟨_, _, hout.1.toBalanced, Nat.zero_le _, Nat.zero_le _⟩
      | handle count => exact ⟨_, _, hout.1.toBalanced, Nat.le_refl _, Nat.zero_le _⟩
      | tryPush count pc => exact ⟨_, _, hout.1.toBalanced, Nat.zero_le _, Nat.le_refl _⟩
      | corruptGeneration => exact hbroken hout
      | corruptState => exact hbroken hout.1
      | _ => exact ⟨_, _, Progress.toBalanced hout, Nat.zero_le _, Nat.zero_le _⟩
  | returned ret =>
      rw [hs] at hout
      obtain ⟨result, count⟩ := ret
      cases result with
      | ok => exact ⟨_, _, Progress.toBalanced hout, Nat.zero_le _, Nat.zero_le _⟩
      | notReady => exact ⟨_, _, Progress.toBalanced hout, Nat.zero_le _, Nat.zero_le _⟩
      | corrupt => exact hbroken hout.1

/-- A call that does not return `CORRUPT` has answered what it has popped. -/
theorem CallInv.answered (h : CallInv s) {result : ProcessResult} {count : ℕ}
    (hs : s.out = .returned (result, count)) (hresult : result ≠ .corrupt) :
    Progress s.entered s.region s.trace count [] [] := by
  have hout := h.out
  rw [hs] at hout
  cases result with
  | ok => exact hout
  | notReady => exact hout
  | corrupt => exact absurd rfl hresult

theorem CallInv.corrupt (h : CallInv s) {count : ℕ} (hs : s.out = .returned (.corrupt, count)) :
    s.region.rtosPeer = ⟨stateError, s.statics.activeGeneration⟩ := by
  have hout := h.out
  rw [hs] at hout
  exact hout.2

/-- A call that has not returned goes on, whatever it reads. -/
theorem callStep_isSome {pc : ProcessPc} (hs : s.out = .running pc) (label : Mmio × PeerWords) :
    (callStep label s).isSome := by
  unfold callStep
  rw [hs]
  rfl

theorem CallInv.ownWrites (h : CallInv s) {label : Mmio × PeerWords} {t : CallState}
    (hstep : callStep label s = some t) : OwnWrites (label.2.write s.region) t.region := by
  unfold callStep at hstep
  cases hs : s.out with
  | returned ret => simp [hs] at hstep
  | running pc =>
      have hout := h.out
      rw [hs] at hout
      simp only [hs] at hstep
      cases hstep
      exact ownWrites_processStep label.1 (PcFacts.write hout label.2)

/-- Whatever Linux writes and whenever, a call of `sg2002_rtos_shm_process` ends, handles at
most 64 requests within the bounds of its private copies, writes what belongs to the
firmware only, and reports what is inconsistent. -/
theorem call_contained (h : Reachable attackedCall s) :
    (s.steps ≤ 723 ∧ ∀ pc, s.out = .running pc → ∀ label, (callStep label s).isSome) ∧
    (s.trace.handled.length ≤ slotCount ∧ ∀ counter, (slotIndex counter).val < slotCount) ∧
    (∀ call ∈ s.trace.handled, call.2 ∈ s.trace.popped ∧ call.2.Fits ∧
      HandlerContained call.1 call.2) ∧
    (s.trace.pushed <+: s.trace.handled.map (fun call => respond call.1 call.2) ∧
      ∀ message ∈ s.trace.pushed, message.Fits) ∧
    (∀ label t, callStep label s = some t → OwnWrites (label.2.write s.region) t.region) ∧
    (s.region.request.consumer =
        s.entered.request.consumer + BitVec.ofNat 32 s.trace.popped.length ∧
      s.region.response.producer =
        s.entered.response.producer + BitVec.ofNat 32 s.trace.pushed.length ∧
      s.trace.handled.length ≤ s.trace.popped.length ∧
      s.trace.popped.length ≤ s.trace.handled.length + 1 ∧
      s.trace.pushed.length ≤ s.trace.handled.length ∧
      s.trace.handled.length ≤ s.trace.pushed.length + 1) ∧
    ∀ result count, s.out = .returned (result, count) →
      (result ≠ .corrupt →
        s.trace.popped.length = count ∧ s.trace.handled.length = count ∧
          s.trace.pushed.length = count) ∧
      ((∃ check ∈ s.trace.checks, slotCount < (check.1 - check.2).toNat) ∨
          (∃ message ∈ s.trace.popped, ¬ message.Fits) →
        result = .corrupt) ∧
      (result = .corrupt →
        s.region.rtosPeer = ⟨stateError, s.statics.activeGeneration⟩) := by
  have hinv := reachable_callInv h
  obtain ⟨waiting, owed, hbalanced, hwaiting, howed⟩ := hinv.balanced
  have hpopped := congrArg List.length hbalanced.popped
  have hpushed := congrArg List.length hbalanced.pushed
  rw [List.length_append, List.length_map] at hpopped hpushed
  refine ⟨⟨?_, ?_⟩, ⟨hbalanced.bound, fun counter => (slotIndex counter).isLt⟩, ?_, ⟨?_, ?_⟩, ?_,
    ⟨hbalanced.consumer, hbalanced.producer, by omega, by omega, by omega, by omega⟩, ?_⟩
  · have hrest := hinv.rest
    omega
  · intro pc hs label
    exact callStep_isSome hs label
  · intro call hmem
    refine ⟨?_, hbalanced.fits call hmem, handlerContained call.1 call.2⟩
    rw [hbalanced.popped]
    exact List.mem_append_left _ (List.mem_map_of_mem hmem)
  · rw [hbalanced.pushed]
    exact List.prefix_append _ _
  · intro message hmem
    have hanswer : message ∈ s.trace.handled.map (fun call => respond call.1 call.2) := by
      rw [hbalanced.pushed]
      exact List.mem_append_left _ hmem
    obtain ⟨call, -, rfl⟩ := List.mem_map.mp hanswer
    exact respond_fits call.1 call.2
  · intro label t hstep
    exact hinv.ownWrites hstep
  · intro result count hs
    refine ⟨?_, ?_, ?_⟩
    · intro hresult
      have hprogress := hinv.answered hs hresult
      have hcount := hprogress.count
      have hpopped := congrArg List.length hprogress.popped
      have hpushed := congrArg List.length hprogress.pushed
      rw [List.length_append, List.length_map, List.length_nil] at hpopped hpushed
      omega
    · intro hbad
      by_contra hresult
      have hprogress := hinv.answered hs hresult
      obtain ⟨check, hmem, hlarge⟩ | ⟨message, hmem, hlong⟩ := hbad
      · exact absurd (hprogress.consistent check hmem) (Nat.not_le.mpr hlarge)
      · rw [hprogress.popped, List.append_nil] at hmem
        obtain ⟨call, hcall, rfl⟩ := List.mem_map.mp hmem
        exact hlong (hprogress.fits call hcall)
    · rintro rfl
      exact hinv.corrupt hs

end Call

/-- A request of 2000 bytes in the channel of generation 7. -/
def oversized : PeerWords where
  layout := initialized 7#32
  linuxPeer := ⟨stateReady, 7#32⟩
  requestProducer := 1#32
  requestSlots _ := ⟨1#32, 2000#16, Vector.replicate payloadSize 0#8⟩
  responseConsumer := 0#32

/-- The region and the statics before the first call. -/
def beforeCall : CallState where
  entered := oversized.write ⟨oversized.layout, oversized.linuxPeer, ⟨0#32, 0#32⟩,
    ⟨0#32, 0#32, fun _ => Slot.zero⟩, ⟨0#32, 0#32, fun _ => Slot.zero⟩⟩
  region := oversized.write ⟨oversized.layout, oversized.linuxPeer, ⟨0#32, 0#32⟩,
    ⟨0#32, 0#32, fun _ => Slot.zero⟩, ⟨0#32, 0#32, fun _ => Slot.zero⟩⟩
  statics := ⟨0#32, Slot.zero, Slot.zero⟩
  out := .running .readGeneration
  trace := ⟨[], [], [], []⟩
  steps := 0

theorem oversized_call : ∃ s, Reachable attackedCall s ∧ s.out = .returned (.corrupt, 0) ∧
    s.region.request.consumer = 1#32 ∧ s.entered.request.consumer = 0#32 ∧
      s.trace.handled.length = 0 := by
  have hstart : CallStart beforeCall := ⟨rfl, rfl, rfl, rfl⟩
  have hrun : (exec callStep (List.replicate 24 (fun _ => 0#32, oversized)) beforeCall).map
      (fun s => (s.out, s.region.request.consumer, s.entered.request.consumer,
        s.trace.handled.length)) = some (.returned (.corrupt, 0), 1#32, 0#32, 0) := rfl
  rw [Option.map_eq_some_iff] at hrun
  obtain ⟨s, hexec, heq⟩ := hrun
  exact ⟨s, (Reachable.start (S := attackedCall) hstart).exec hexec, by simpa using heq⟩

/-- The counter of the request ring moves past a request that is never handled. -/
theorem consumer_passes_oversize :
    ¬ ∀ s, Reachable attackedCall s → ∀ ret, s.out = .returned ret →
      s.region.request.consumer =
        s.entered.request.consumer + BitVec.ofNat 32 s.trace.handled.length := by
  intro hclaim
  obtain ⟨s, hreach, hout, hconsumer, hentered, hhandled⟩ := oversized_call
  have hbad := hclaim s hreach _ hout
  rw [hconsumer, hentered, hhandled] at hbad
  exact absurd hbad (by decide)

theorem call_contained_oversized :
    ∃ s : CallState, s.out = .returned (.corrupt, 0) ∧ s.region.rtosPeer.state = stateError := by
  obtain ⟨s, hreach, hout, -⟩ := oversized_call
  obtain ⟨-, -, -, -, -, -, hreturned⟩ := call_contained hreach
  have hpeer := (hreturned .corrupt 0 hout).2.2 rfl
  exact ⟨s, hout, by rw [hpeer]⟩

end Sg200x.Ipc.Firmware
