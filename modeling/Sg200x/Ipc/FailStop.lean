import Sg200x.Ipc.Adversary

/-!
# After a corruption

`mark_corrupt` publishes the state ERROR for `active_generation` and leaves that variable
as it is, so that `attach` accepts the same generation again.  The calls of
`sg2002_rtos_shm_process` follow each other, and an access may find anything in the region.
-/

namespace Sg200x.Ipc.Firmware

open Shm RingCore App Library.Transition

/-- What the next step does with the messages of the channel. -/
inductive Executed
  | popped (request : Slot)
  | handled (mmio : Mmio) (request : Slot)
  | pushed (response : Slot)

def ProcessPc.executes (mmio : Mmio) (statics : Statics) (pc : ProcessPc) : List Executed :=
  (pc.takes statics).map .popped ++ (pc.handles mmio statics).map (fun call => .handled call.1 call.2)
    ++ (pc.pushes statics).map .pushed

structure FirmwareState where
  statics : Statics
  /-- The call in progress. -/
  pc : Option ProcessPc
  /-- The generation for which a call has returned `CORRUPT`, until another one is attached. -/
  declared : Option U32
  /-- What has been executed while a generation was declared corrupt. -/
  late : List Executed

inductive FirmwareLabel
  | call
  /-- The next access, with the contents of the region. -/
  | access (mmio : Mmio) (region : Region)

def ProcessReturn.isCorrupt : Outcome ProcessPc ProcessReturn → Bool
  | .returned (.corrupt, _) => true
  | _ => false

/-- A call that attaches to another generation starts afresh. -/
def declaredAfter (before after : Statics) (out : Outcome ProcessPc ProcessReturn)
    (declared : Option U32) : Option U32 :=
  if after.activeGeneration ≠ before.activeGeneration then none
  else if ProcessReturn.isCorrupt out then some after.activeGeneration
  else declared

def firmwareStep : FirmwareLabel → FirmwareState → Option FirmwareState
  | .call, s => if s.pc.isSome then none else some { s with pc := some .readGeneration }
  | .access mmio region, s =>
      match s.pc with
      | none => none
      | some pc =>
          let result := processStep mmio region s.statics pc
          some
            { statics := result.2.2
              pc := result.1.pc?
              declared := declaredAfter s.statics result.2.2 result.1 s.declared
              late := s.late ++ if s.declared.isSome then pc.executes mmio s.statics else [] }

structure FirmwareStart (s : FirmwareState) : Prop where
  pc : s.pc = none
  declared : s.declared = none
  late : s.late = []

def firmwareCalls : System FirmwareState FirmwareLabel := ⟨FirmwareStart, firmwareStep⟩

/-- In the channel of a generation that is declared corrupt, the request ring is found empty
or inconsistent. -/
def findsNothing : FirmwareLabel → FirmwareState → Bool
  | .access _ region, s =>
      match s.pc with
      | some (.tryPop _ (.readConsumer producer)) =>
          s.declared.isNone ||
            match readOccupancy producer region.request.consumer with
            | none => true
            | some occupancy => occupancy.toNat = 0
      | _ => true
  | .call, _ => true

/-! ## The invariant -/

/-- A call that has not found a request. -/
def ProcessPc.BeforePop : ProcessPc → Prop
  | .tryPop _ (.copySlot _) | .tryPop _ (.publish _) | .handle _ | .tryPush _ _ => False
  | _ => True

theorem executes_beforePop {mmio : Mmio} {statics : Statics} {pc : ProcessPc} (h : pc.BeforePop) :
    pc.executes mmio statics = [] := by
  cases pc with
  | tryPop count pc =>
      cases pc with
      | copySlot consumer => exact h.elim
      | publish consumer => exact h.elim
      | readProducer => rfl
      | readConsumer producer => rfl
  | handle count => exact h.elim
  | tryPush count pc => exact h.elim
  | _ => rfl

def CallBeforePop (out : Outcome ProcessPc ProcessReturn) : Prop :=
  out.Meets ProcessPc.BeforePop fun _ => True

theorem loop_beforePop (count : ℕ) : CallBeforePop (loop count) := by
  unfold loop
  split_ifs
  · trivial
  · trivial

/-- Until it finds a request, a call pops and executes nothing. -/
theorem processStep_beforePop (mmio : Mmio) {region : Region} (statics : Statics) {pc : ProcessPc}
    (h : pc.BeforePop)
    (hnothing : ∀ count producer, pc = .tryPop count (.readConsumer producer) →
      ∀ occupancy, readOccupancy producer region.request.consumer = some occupancy →
        occupancy.toNat = 0) :
    CallBeforePop (processStep mmio region statics pc).1 := by
  cases pc with
  | tryPop count pc =>
      cases pc with
      | readProducer => trivial
      | readConsumer producer =>
          simp only [processStep, tryPopStep]
          cases hread : readOccupancy producer region.request.consumer with
          | none => trivial
          | some occupancy =>
              have hempty := hnothing count producer rfl occupancy hread
              simp only [if_pos hempty]
              trivial
      | copySlot consumer => exact h.elim
      | publish consumer => exact h.elim
  | canPush count pc =>
      simp only [processStep]
      split
      · trivial
      · split_ifs
        · trivial
        · trivial
        · trivial
  | handle count => exact h.elim
  | tryPush count pc => exact h.elim
  | layoutIsValid generation reads =>
      cases reads with
      | nil => trivial
      | cons read reads =>
          simp only [processStep]
          split_ifs
          · trivial
          · trivial
  | readGeneration | linuxState =>
      simp only [processStep]
      split_ifs
      · trivial
      · trivial
  | linuxGeneration generation =>
      simp only [processStep, attach]
      split_ifs
      · exact loop_beforePop 0
      · trivial
      · trivial
  | attachState generation => exact loop_beforePop 0
  | attachGeneration | corruptGeneration | corruptState => trivial

structure FailStop (s : FirmwareState) : Prop where
  pc : s.declared.isSome → ∀ pc, s.pc = some pc → pc.BeforePop
  late : s.late = []

theorem FirmwareStart.failStop {s : FirmwareState} (h : FirmwareStart s) : FailStop s where
  pc := by
    rw [h.declared]
    exact nofun
  late := h.late

theorem isCorrupt_pc {out : Outcome ProcessPc ProcessReturn}
    (h : ProcessReturn.isCorrupt out = true) : out.pc? = none := by
  cases out with
  | running pc => cases h
  | returned ret => rfl

/-- A generation that is declared now was declared before, unless the call has just
returned. -/
theorem declaredAfter_isSome {before after : Statics} {out : Outcome ProcessPc ProcessReturn}
    {declared : Option U32} (h : (declaredAfter before after out declared).isSome) :
    declared.isSome ∨ out.pc? = none := by
  unfold declaredAfter at h
  split_ifs at h with hother hcorrupt
  · cases h
  · exact .inr (isCorrupt_pc hcorrupt)
  · exact .inl h

theorem FailStop.step {s t : FirmwareState} {l : FirmwareLabel} (h : FailStop s)
    (hfinds : findsNothing l s = true) (hstep : firmwareStep l s = some t) : FailStop t := by
  cases l with
  | call =>
      simp only [firmwareStep] at hstep
      split_ifs at hstep
      cases hstep
      refine ⟨?_, h.late⟩
      rintro - pc heq
      cases heq
      trivial
  | access mmio region =>
      simp only [firmwareStep] at hstep
      cases hpc : s.pc with
      | none =>
          rw [hpc] at hstep
          cases hstep
      | some pc =>
          rw [hpc] at hstep
          cases hstep
          constructor
          · intro hdeclared pc' hpc'
            obtain hbefore | hnone := declaredAfter_isSome hdeclared
            · have hnothing : ∀ count producer, pc = .tryPop count (.readConsumer producer) →
                  ∀ occupancy, readOccupancy producer region.request.consumer = some occupancy →
                    occupancy.toNat = 0 := by
                rintro count producer rfl occupancy hread
                simp only [findsNothing, hpc, hread] at hfinds
                cases hgeneration : s.declared with
                | none =>
                    rw [hgeneration] at hbefore
                    cases hbefore
                | some generation => simpa [hgeneration] using hfinds
              have hout := processStep_beforePop mmio s.statics (h.pc hbefore pc hpc) hnothing
              cases hresult : (processStep mmio region s.statics pc).1 with
              | running next =>
                  rw [hresult] at hpc' hout
                  cases hpc'
                  exact hout
              | returned ret =>
                  rw [hresult] at hpc'
                  cases hpc'
            · rw [hnone] at hpc'
              cases hpc'
          · simp only [h.late, List.nil_append]
            split_ifs with hdeclared
            · exact executes_beforePop (h.pc hdeclared pc hpc)
            · rfl

/-- As long as every call in a generation that is declared corrupt finds no request, the
firmware executes nothing in it. -/
theorem corrupt_generation_stopped {s : FirmwareState}
    (h : ReachableBy firmwareCalls (fun l s => findsNothing l s = true) s) : s.late = [] := by
  have hfail : FailStop s := by
    apply h.invariant
    · intro s (hs : FirmwareStart s)
      exact hs.failStop
    · intro s t l hs hfinds hstep
      exact hs.step hfinds hstep
  exact hfail.late

/-- A request that is found in the channel of a declared generation is taken out of it. -/
theorem late_of_request {s : FirmwareState} {count : ℕ} {producer : U32}
    (hpc : s.pc = some (.tryPop count (.readConsumer producer))) {mmio : Mmio} {region : Region}
    (hfinds : findsNothing (.access mmio region) s = false) (region₁ region₂ : Region)
    {t : FirmwareState}
    (hexec : exec firmwareStep [.access mmio region, .access mmio region₁, .access mmio region₂] s =
      some t) : t.late ≠ [] := by
  obtain ⟨statics, pc, declared, late⟩ := s
  change pc = _ at hpc
  subst hpc
  cases hread : readOccupancy producer region.request.consumer with
  | none => simp [findsNothing, hread] at hfinds
  | some occupancy =>
      simp only [findsNothing, hread, Bool.or_eq_false_iff, decide_eq_false_iff_not] at hfinds
      obtain ⟨hnone, hoccupied⟩ := hfinds
      obtain ⟨generation, rfl⟩ : ∃ generation, declared = some generation := by
        cases declared with
        | none => cases hnone
        | some generation => exact ⟨generation, rfl⟩
      have hsome : (processStep mmio region statics (.tryPop count (.readConsumer producer))).1 =
          .running (.tryPop count (.copySlot region.request.consumer)) ∧
        (processStep mmio region statics (.tryPop count (.readConsumer producer))).2.2 = statics := by
        simp only [processStep, tryPopStep, hread, if_neg hoccupied, and_self]
      simp only [exec_cons, exec_nil, firmwareStep, hsome.1, hsome.2, Option.bind_some,
        Outcome.pc?] at hexec
      cases hexec
      simp [declaredAfter, ProcessReturn.isCorrupt, processStep, tryPopStep, ProcessPc.executes,
        ProcessPc.takes]

/-- The region of generation 7, with a request in every slot. -/
def generation7 (producer consumer : U32) (request : Slot) : Region where
  layout := initialized 7#32
  linuxPeer := ⟨stateReady, 7#32⟩
  rtosPeer := ⟨stateReady, 7#32⟩
  request := ⟨producer, consumer, fun _ => request⟩
  response := ⟨0#32, 0#32, fun _ => Slot.zero⟩

/-- A call meets a request of 2000 bytes. -/
def corruptLabels : List FirmwareLabel :=
  .call :: List.replicate 24 (.access (fun _ => 0#32)
    (generation7 1#32 0#32 ⟨1#32, 2000#16, Vector.replicate payloadSize 0#8⟩))

/-- The request of the next call. -/
def nextRequest : Slot := ⟨2#32, 1#16, Vector.replicate payloadSize cmdEcho⟩

theorem start_idle : FirmwareStart ⟨⟨0#32, Slot.zero, Slot.zero⟩, none, none, []⟩ := ⟨rfl, rfl, rfl⟩

/-- The call after it takes a request and handles it. -/
theorem late_after_corrupt : ¬ ∀ s, Reachable firmwareCalls s → s.late = [] := by
  intro hclaim
  have hrun : (exec firmwareStep (corruptLabels ++ .call :: List.replicate 21
      (.access (fun _ => 0#32) (generation7 2#32 1#32 nextRequest)))
        ⟨⟨0#32, Slot.zero, Slot.zero⟩, none, none, []⟩).map (fun s => s.late.length) = some 2 := rfl
  rw [Option.map_eq_some_iff] at hrun
  obtain ⟨s, hexec, hlength⟩ := hrun
  have hreach : Reachable firmwareCalls s :=
    (Reachable.start (S := firmwareCalls) start_idle).exec hexec
  rw [hclaim s hreach] at hlength
  exact absurd hlength (by decide)

/-- A call after it that finds no request. -/
theorem corrupt_generation_stopped_empty : ∃ s : FirmwareState,
    s.declared = some 7#32 ∧ s.pc = none ∧ s.late = [] := by
  have hrun : (exec (guarded findsNothing firmwareStep) (corruptLabels ++ .call ::
      List.replicate 18 (.access (fun _ => 0#32) (generation7 1#32 1#32 nextRequest)))
        ⟨⟨0#32, Slot.zero, Slot.zero⟩, none, none, []⟩).map (fun s => (s.declared, s.pc)) =
          some (some 7#32, none) := rfl
  rw [Option.map_eq_some_iff] at hrun
  obtain ⟨s, hexec, heq⟩ := hrun
  obtain ⟨hdeclared, hpc⟩ := Prod.mk.inj heq
  have hreach : ReachableBy firmwareCalls (fun l s => findsNothing l s = true) s :=
    ReachableBy.execGuarded (S := firmwareCalls) (.start start_idle) hexec
  exact ⟨s, hdeclared, hpc, corrupt_generation_stopped hreach⟩

end Sg200x.Ipc.Firmware
