import Sg200x.Ipc.Firmware
import Sg200x.Ipc.DriverFacts

/-!
# What the firmware knows on an established channel

The facts that hold at each point of a process call while the channel of one
generation stays established, and what each step does to the two rings.
-/

namespace Sg200x.Ipc.Firmware

open Shm RingCore App Driver Library.WrapRing

/-- What the next step takes from the request ring. -/
def ProcessPc.pops : ProcessPc → ℕ
  | .tryPop _ (.publish _) => 1
  | _ => 0

/-- What the next step publishes in the response ring. -/
def ProcessPc.pushes (statics : Statics) : ProcessPc → List Slot
  | .tryPush _ (.publish _) => [statics.responseMessage]
  | _ => []

/-- What the next step hands to the application. -/
def ProcessPc.handles (mmio : Mmio) (statics : Statics) : ProcessPc → List (Mmio × Slot)
  | .handle _ => [(mmio, statics.requestMessage)]
  | _ => []

/-- The requests that have been popped and not yet handled. -/
def held : Option ProcessPc → ℕ
  | some (.handle _) => 1
  | _ => 0

/-- The responses that have been produced and not yet published. -/
def owed (statics : Statics) : Option ProcessPc → List Slot
  | some (.tryPush _ _) => [statics.responseMessage]
  | _ => []

/-- The firmware is attached to the generation `g`, and Linux is ready for it. -/
structure Attached (g : U32) (region : Region) (statics : Statics) : Prop where
  layout : ∀ read : LayoutRead, read.passes region.layout g = true
  linuxPeer : region.linuxPeer = ⟨stateReady, g⟩
  active : statics.activeGeneration = g
  nonzero : g ≠ 0#32

section Process

variable {g base base' : U32} {published answered : List Slot} {popped taken : ℕ}
  {region : Region} {statics : Statics}

/-- From `can_push` on there is room for the response, since only Linux moves the other
counter of the response ring.  An attached firmware neither publishes READY again nor
finds a ring corrupt. -/
def ProcessFacts (g base : U32) (published : List Slot) (popped : ℕ) (answered : List Slot)
    (taken : ℕ) (region : Region) (statics : Statics) : ProcessPc → Prop
  | .readGeneration => True
  | .layoutIsValid generation _ | .linuxState generation | .linuxGeneration generation =>
      generation = g
  | .attachGeneration _ | .attachState _ | .corruptGeneration | .corruptState => False
  | .canPush _ pc => CanPushFacts region.response pc
  | .tryPop _ pc =>
      answered.length < taken + slotCount ∧
        PopFacts base published popped region.request statics.requestMessage pc
  | .handle _ =>
      answered.length < taken + slotCount ∧
        ∃ n, popped = n + 1 ∧ published[n]? = some statics.requestMessage
  | .tryPush _ pc =>
      answered.length < taken + slotCount ∧
        PushFacts answered taken statics.responseMessage region.response pc

theorem processFacts_loop (count : ℕ) :
    (loop count).Meets (ProcessFacts g base published popped answered taken region statics)
      fun ret => ret.1 = .ok := by
  unfold loop
  split_ifs
  · trivial
  · rfl

/-- Linux has published more requests or has consumed responses. -/
theorem ProcessFacts.stable {pc : ProcessPc}
    (h : ProcessFacts g base published popped answered taken region statics pc)
    {region' : Region} {taken' : ℕ} (more : List Slot) (htaken : taken ≤ taken')
    (hrequest : region'.request.consumer = region.request.consumer)
    (hproducer : region'.response.producer = region.response.producer)
    (hslots : region'.response.slots = region.response.slots) :
    ProcessFacts g base (published ++ more) popped answered taken' region' statics pc := by
  cases pc with
  | readGeneration => trivial
  | layoutIsValid | linuxState | linuxGeneration => exact h
  | attachGeneration | attachState | corruptGeneration | corruptState => exact h
  | canPush count pc =>
      cases pc with
      | readProducer => trivial
      | readConsumer producer => exact Eq.trans h hproducer.symm
  | tryPop count pc => exact ⟨by have := h.1; omega, h.2.extend more hrequest⟩
  | handle count =>
      obtain ⟨hroom, n, hpopped, hget⟩ := h
      obtain ⟨hlt, -⟩ := List.getElem?_eq_some_iff.mp hget
      exact ⟨by omega, n, hpopped, by rw [List.getElem?_append_left hlt]; exact hget⟩
  | tryPush count pc => exact ⟨by have := h.1; omega, h.2.advance htaken hproducer hslots⟩

/-- What a step of a process call does: it keeps the facts, and a request moves from the
ring to the application and its response from there to the other ring. -/
structure ProcessEffect (g base base' : U32) (published answered : List Slot)
    (popped taken : ℕ) (region : Region) (statics : Statics) (mmio : Mmio) (pc : ProcessPc)
    (out : Outcome ProcessPc ProcessReturn) (region' : Region) (statics' : Statics) : Prop where
  active : statics'.activeGeneration = statics.activeGeneration
  rtosPeer : region'.rtosPeer = region.rtosPeer
  request : region'.request.Represents base published (popped + pc.pops)
  response : region'.response.Represents base' (answered ++ pc.pushes statics) taken
  held : held out.pc? + (pc.handles mmio statics).length = held (some pc) + pc.pops
  owed : pc.pushes statics ++ owed statics' out.pc? =
    owed statics (some pc) ++ (pc.handles mmio statics).map fun e => respond e.1 e.2
  facts : out.Meets
    (ProcessFacts g base published (popped + pc.pops) (answered ++ pc.pushes statics) taken
      region' statics')
    fun ret => ret.1 = .ok

/-- A step that neither takes a request nor hands one over nor publishes a response. -/
theorem ProcessEffect.of_quiet {mmio : Mmio} {pc : ProcessPc}
    {out : Outcome ProcessPc ProcessReturn} {region' : Region} {statics' : Statics}
    (hpops : pc.pops = 0) (hpushes : pc.pushes statics = []) (hhandles : pc.handles mmio statics = [])
    (hactive : statics'.activeGeneration = statics.activeGeneration)
    (hpeer : region'.rtosPeer = region.rtosPeer)
    (hrequest : region'.request.Represents base published popped)
    (hresponse : region'.response.Represents base' answered taken)
    (hheld : Firmware.held out.pc? = Firmware.held (some pc))
    (howed : Firmware.owed statics' out.pc? = Firmware.owed statics (some pc))
    (hfacts : out.Meets
      (ProcessFacts g base published popped answered taken region' statics')
      fun ret => ret.1 = .ok) :
    ProcessEffect g base base' published answered popped taken region statics mmio pc out region'
      statics' := by
  refine ⟨hactive, hpeer, ?_, ?_, ?_, ?_, ?_⟩
  · rwa [hpops]
  · rwa [hpushes, List.append_nil]
  · rw [hhandles, hpops, hheld, List.length_nil]
  · rw [hpushes, hhandles, howed, List.map_nil, List.append_nil, List.nil_append]
  · rwa [hpops, hpushes, List.append_nil]

theorem held_loop (count : ℕ) : held (loop count).pc? = 0 := by
  unfold loop
  split_ifs <;> rfl

theorem owed_loop (statics : Statics) (count : ℕ) : owed statics (loop count).pc? = [] := by
  unfold loop
  split_ifs <;> rfl

theorem processStep_spec (hattached : Attached g region statics)
    (hrequest : region.request.Represents base published popped)
    (hresponse : region.response.Represents base' answered taken)
    (hsound : ∀ m ∈ published, Sound m) (mmio : Mmio) {pc : ProcessPc}
    (hpc : ProcessFacts g base published popped answered taken region statics pc)
    {out : Outcome ProcessPc ProcessReturn} {region' : Region} {statics' : Statics}
    (hstep : processStep mmio region statics pc = (out, region', statics')) :
    ProcessEffect g base base' published answered popped taken region statics mmio pc out region'
      statics' := by
  have hfits : ∀ m ∈ published, m.Fits := fun m hm => (hsound m hm).1
  cases pc with
  | readGeneration =>
      have hgeneration : region.layout.generation = g := by
        simpa [LayoutRead.passes] using hattached.layout .generation
      simp only [processStep, hgeneration, if_neg hattached.nonzero] at hstep
      cases hstep
      exact .of_quiet rfl rfl rfl rfl rfl hrequest hresponse rfl rfl rfl
  | layoutIsValid generation reads =>
      obtain rfl : generation = g := hpc
      cases reads with
      | nil => cases hstep; exact .of_quiet rfl rfl rfl rfl rfl hrequest hresponse rfl rfl rfl
      | cons read reads =>
          simp only [processStep, hattached.layout, if_true] at hstep
          cases hstep
          exact .of_quiet rfl rfl rfl rfl rfl hrequest hresponse rfl rfl rfl
  | linuxState generation =>
      simp only [processStep, hattached.linuxPeer, if_true] at hstep
      cases hstep
      exact .of_quiet rfl rfl rfl rfl rfl hrequest hresponse rfl rfl hpc
  | linuxGeneration generation =>
      obtain rfl : generation = g := hpc
      simp only [processStep, attach, hattached.linuxPeer, hattached.active, if_true] at hstep
      cases hstep
      exact .of_quiet rfl rfl rfl rfl rfl hrequest hresponse (held_loop 0) (owed_loop _ 0)
        (processFacts_loop 0)
  | attachGeneration | attachState | corruptGeneration | corruptState => exact hpc.elim
  | canPush count pc =>
      have hspec := canPushStep_spec hresponse hpc
      rcases hout : canPushStep region.response pc with pc' | value
      · rw [hout] at hspec
        simp only [processStep, hout] at hstep
        cases hstep
        exact .of_quiet rfl rfl rfl rfl rfl hrequest hresponse rfl rfl hspec
      · rw [hout] at hspec
        simp only [processStep, hout] at hstep
        rcases hspec with ⟨rfl, hroom⟩ | ⟨rfl, -⟩
        · cases hstep
          exact .of_quiet rfl rfl rfl rfl rfl hrequest hresponse rfl rfl ⟨hroom, trivial⟩
        · cases hstep
          exact .of_quiet rfl rfl rfl rfl rfl hrequest hresponse rfl rfl rfl
  | tryPop count pc =>
      obtain ⟨hroom, hpop⟩ := hpc
      have hspec := tryPopStep_spec hrequest hfits hpop
      rcases hout : tryPopStep region.request statics.requestMessage pc with ⟨out', ring, message⟩
      rw [hout] at hspec
      simp only [processStep, hout] at hstep
      cases out' with
      | running pc' =>
          obtain ⟨rfl, hpop'⟩ := hspec
          have hpops : ProcessPc.pops (.tryPop count pc) = 0 := by
            cases pc with
            | publish consumer => cases hout
            | _ => rfl
          cases hstep
          exact .of_quiet hpops rfl rfl rfl rfl hrequest hresponse rfl rfl ⟨hroom, hpop'⟩
      | returned result =>
          cases result with
          | ok =>
              obtain ⟨hring, hget⟩ := hspec
              have hpops : ProcessPc.pops (.tryPop count pc) = 1 := by
                cases pc with
                | publish consumer => rfl
                | readConsumer producer =>
                    simp only [tryPopStep] at hout
                    split at hout
                    · cases hout
                    · split_ifs at hout <;> cases hout
                | readProducer | copySlot => cases hout
              cases hstep
              have hpushes : ProcessPc.pushes statics (.tryPop count pc) = [] := rfl
              refine ⟨rfl, rfl, ?_, ?_, ?_, rfl, ?_⟩
              · rwa [hpops]
              · rwa [hpushes, List.append_nil]
              · rw [hpops]
                rfl
              · rw [hpops, hpushes, List.append_nil]
                exact ⟨hroom, popped, rfl, hget⟩
          | empty =>
              obtain rfl := hspec
              have hpops : ProcessPc.pops (.tryPop count pc) = 0 := by
                cases pc with
                | publish consumer =>
                    simp only [tryPopStep] at hout
                    split_ifs at hout <;> cases hout
                | _ => rfl
              cases hstep
              exact .of_quiet hpops rfl rfl rfl rfl hrequest hresponse rfl rfl rfl
          | full => exact hspec.elim
          | corrupt => exact hspec.elim
          | invalid => exact hspec.elim
  | handle count =>
      simp only [processStep, tryPush, if_pos (respond_fits mmio statics.requestMessage)] at hstep
      cases hstep
      have hpushes : ProcessPc.pushes statics (.handle count) = [] := rfl
      refine ⟨rfl, rfl, hrequest, ?_, rfl, rfl, ?_⟩
      · rwa [hpushes, List.append_nil]
      · rw [hpushes, List.append_nil]
        exact ⟨hpc.1, trivial⟩
  | tryPush count pc =>
      obtain ⟨hroom, hpush⟩ := hpc
      have hspec := tryPushStep_spec hresponse hpush
      rcases hout : tryPushStep statics.responseMessage region.response pc with ⟨out', ring⟩
      rw [hout] at hspec
      simp only [processStep, hout] at hstep
      cases out' with
      | running pc' =>
          have hpushes : ProcessPc.pushes statics (.tryPush count pc) = [] := by
            cases pc with
            | publish consumer => cases hout
            | _ => rfl
          cases hstep
          exact .of_quiet rfl hpushes rfl rfl rfl hrequest hspec.1 rfl rfl ⟨hroom, hspec.2⟩
      | returned result =>
          cases result with
          | ok =>
              have hpushes : ProcessPc.pushes statics (.tryPush count pc) =
                  [statics.responseMessage] := by
                cases pc with
                | publish consumer => rfl
                | readConsumer producer =>
                    simp only [tryPushStep] at hout
                    split at hout
                    · cases hout
                    · split_ifs at hout <;> cases hout
                | readProducer | copySlot => cases hout
              cases hstep
              refine ⟨rfl, rfl, hrequest, ?_, ?_, ?_, ?_⟩
              · rwa [hpushes]
              · exact held_loop (count + 1)
              · rw [hpushes, owed_loop]
                rfl
              · rw [hpushes]
                exact processFacts_loop (count + 1)
          | full => exact absurd hspec.2 (by omega)
          | empty => exact hspec.elim
          | corrupt => exact hspec.elim
          | invalid => exact hspec.elim

end Process

end Sg200x.Ipc.Firmware
