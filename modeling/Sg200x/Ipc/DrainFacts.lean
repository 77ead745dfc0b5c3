import Sg200x.Ipc.FirmwareFacts

/-!
# What is left of a call

Every call comes to its end when its party goes on alone: a wait is the one place where it
stays, and a signal ends it.
-/

namespace Sg200x.Ipc.RingCore

open Shm

/-- The steps that are left, by a bound for each point of the call. -/
def Outcome.left {κ ρ : Type} (left : κ → ℕ) (out : Outcome κ ρ) : ℕ := out.pc?.elim 0 left

@[simp] theorem Outcome.left_running {κ ρ : Type} (left : κ → ℕ) (pc : κ) :
    (Outcome.running pc : Outcome κ ρ).left left = left pc := rfl

@[simp] theorem Outcome.left_returned {κ ρ : Type} (left : κ → ℕ) (value : ρ) :
    (Outcome.returned value : Outcome κ ρ).left left = 0 := rfl

def CanPushPc.left : CanPushPc → ℕ
  | .readProducer => 2
  | .readConsumer _ => 1

def PushPc.left : PushPc → ℕ
  | .readProducer => 4
  | .readConsumer _ => 3
  | .copySlot _ => 2
  | .publish _ => 1

def PopPc.left : PopPc → ℕ
  | .readProducer => 4
  | .readConsumer _ => 3
  | .copySlot _ => 2
  | .publish _ => 1

theorem canPushStep_left (ring : Ring) (pc : CanPushPc) :
    (canPushStep ring pc).left CanPushPc.left < pc.left := by
  cases pc with
  | readProducer => simp [canPushStep, CanPushPc.left]
  | readConsumer producer =>
      simp only [canPushStep]
      split <;> simp [CanPushPc.left]

theorem tryPushStep_left (message : Slot) (ring : Ring) (pc : PushPc) :
    (tryPushStep message ring pc).1.left PushPc.left < pc.left := by
  cases pc with
  | readConsumer producer =>
      simp only [tryPushStep]
      split
      · simp [PushPc.left]
      · split_ifs <;> simp [PushPc.left]
  | readProducer | copySlot | publish => simp [tryPushStep, PushPc.left]

theorem tryPopStep_left (ring : Ring) (message : Slot) (pc : PopPc) :
    (tryPopStep ring message pc).1.left PopPc.left < pc.left := by
  cases pc with
  | readConsumer producer =>
      simp only [tryPopStep]
      split
      · simp [PopPc.left]
      · split_ifs <;> simp [PopPc.left]
  | readProducer | copySlot | publish => simp [tryPopStep, PopPc.left]

end Sg200x.Ipc.RingCore

namespace Sg200x.Ipc.Driver

open Shm RingCore

theorem readyStep_left (transport : Transport) (region : Region) (pc : ReadyPc) :
    match readyStep transport region pc with
    | .running pc' => pc'.reads.length < pc.reads.length
    | .returned _ => True := by
  obtain ⟨reads, generation⟩ := pc
  cases reads with
  | nil => trivial
  | cons read reads =>
      simp only [readyStep]
      by_cases hpass : read.passes transport region generation = true
      · rw [if_pos hpass]
        exact Nat.lt_succ_self _
      · rw [if_neg hpass]
        trivial

def KickPc.left : KickPc → ℕ
  | .shuttingDown => 4
  | .resetAttempts => 3
  | .kickNow => 2
  | .schedule => 1

theorem kickStep_left (answer : Answer) (transport : Transport) (pc : KickPc) :
    (kickStep answer transport pc).1.left KickPc.left < pc.left := by
  cases pc with
  | shuttingDown | kickNow =>
      simp only [kickStep]
      split_ifs <;> simp [KickPc.left]
  | resetAttempts | schedule => simp [kickStep, KickPc.left]

/-- A batch tests its generation again before it publishes. -/
def TxPc.left (call : TxCall) : TxPc → ℕ
  | .kick pc => pc.left
  | .publish _ _ => 5
  | .wait => 5
  | .copySlot _ stamped index => 6 + (stamped.length - index)
  | .reready _ stamped pc => 7 + stamped.length + pc.reads.length
  | .restale _ stamped => 8 + stamped.length + rtosReady.length
  | .copyOut _ stamped => 9 + stamped.length + rtosReady.length
  | .sequence _ _ => 10 + call.messages.length + rtosReady.length
  | .readConsumer _ _ => 11 + call.messages.length + rtosReady.length
  | .readProducer _ => 12 + call.messages.length + rtosReady.length
  | .ready _ pc => 13 + call.messages.length + rtosReady.length + pc.reads.length
  | .stale _ => 14 + call.messages.length + 2 * rtosReady.length

theorem txStep_left (call : TxCall) (answer : Answer) (transport : Transport) (region : Region)
    (pc : TxPc) (hwait : pc = .wait → answer = .interrupted) :
    (txStep call answer transport region pc).1.left (TxPc.left call) < pc.left call := by
  cases pc with
  | stale expired =>
      simp only [txStep]
      split_ifs <;>
        simp only [Outcome.left_running, Outcome.left_returned, TxPc.left, ReadyPc.start] <;> omega
  | ready expired pc =>
      have hready := readyStep_left transport region pc
      simp only [txStep]
      rcases hout : readyStep transport region pc with pc' | ready
      · rw [hout] at hready
        simp only [Outcome.left_running, TxPc.left]
        omega
      · cases ready <;> simp only [Outcome.left_running, Outcome.left_returned, TxPc.left] <;> omega
  | readProducer expired =>
      simp only [txStep, Outcome.left_running, TxPc.left]
      omega
  | readConsumer expired producer =>
      simp only [txStep]
      split
      · simp only [Outcome.left_returned, TxPc.left]
        omega
      · split_ifs <;> simp only [Outcome.left_running, Outcome.left_returned, TxPc.left] <;> omega
  | wait => simp [txStep, waitEnd, hwait rfl, TxPc.left]
  | sequence producer completed =>
      have hlength := length_stamp transport.nextSequence (call.messages.take completed)
      rw [List.length_take] at hlength
      simp only [txStep, Outcome.left_running, TxPc.left]
      omega
  | copyOut producer stamped =>
      simp only [txStep]
      split_ifs <;> simp only [Outcome.left_running, Outcome.left_returned, TxPc.left] <;> omega
  | restale producer stamped =>
      simp only [txStep]
      split_ifs <;>
        simp only [Outcome.left_running, Outcome.left_returned, TxPc.left, ReadyPc.start] <;> omega
  | reready producer stamped pc =>
      have hready := readyStep_left transport region pc
      simp only [txStep]
      rcases hout : readyStep transport region pc with pc' | ready
      · rw [hout] at hready
        simp only [Outcome.left_running, TxPc.left]
        omega
      · cases ready <;> simp only [Outcome.left_running, Outcome.left_returned, TxPc.left] <;> omega
  | copySlot producer stamped index =>
      simp only [txStep]
      split_ifs <;> simp only [Outcome.left_running, TxPc.left] <;> omega
  | publish producer stamped => simp [txStep, TxPc.left, KickPc.left]
  | kick pc =>
      have hkick := kickStep_left answer transport pc
      rcases hout : kickStep answer transport pc with ⟨out, transport'⟩
      rw [hout] at hkick
      simp only [txStep, hout]
      cases out <;> exact hkick

def RxPc.left (call : RxCall) : RxPc → ℕ
  | .kick _ pc => pc.left
  | .peekConsumer _ _ => 5
  | .peekProducer _ => 6
  | .publish _ _ _ => 7
  | .wait => 7
  | .reready _ _ pc => 8 + pc.reads.length
  | .restale _ _ => 9 + rtosReady.length
  | .copyOut _ _ => 10 + rtosReady.length
  | .copySlot _ completed batch => 11 + rtosReady.length + (completed - batch.length)
  | .readConsumer _ _ => 12 + rtosReady.length + call.count
  | .readProducer _ => 13 + rtosReady.length + call.count
  | .ready _ pc => 14 + rtosReady.length + call.count + pc.reads.length
  | .stale _ => 15 + 2 * rtosReady.length + call.count

theorem rxStep_left (call : RxCall) (answer : Answer) (transport : Transport) (region : Region)
    (pc : RxPc) (hwait : pc = .wait → answer = .interrupted) :
    (rxStep call answer transport region pc).1.left (RxPc.left call) < pc.left call := by
  cases pc with
  | stale expired =>
      simp only [rxStep]
      split_ifs <;>
        simp only [Outcome.left_running, Outcome.left_returned, RxPc.left, ReadyPc.start] <;> omega
  | ready expired pc =>
      have hready := readyStep_left transport region pc
      simp only [rxStep]
      rcases hout : readyStep transport region pc with pc' | ready
      · rw [hout] at hready
        simp only [Outcome.left_running, RxPc.left]
        omega
      · cases ready <;> simp only [Outcome.left_running, Outcome.left_returned, RxPc.left] <;> omega
  | readProducer expired =>
      simp only [rxStep, Outcome.left_running, RxPc.left]
      omega
  | readConsumer expired producer =>
      simp only [rxStep]
      split
      · simp only [Outcome.left_returned, RxPc.left]
        omega
      · split_ifs <;>
          simp only [Outcome.left_running, Outcome.left_returned, RxPc.left, List.length_nil] <;>
          omega
  | wait => simp [rxStep, waitEnd, hwait rfl, RxPc.left]
  | copySlot consumer completed batch =>
      simp only [rxStep]
      split_ifs <;>
        simp only [Outcome.left_running, RxPc.left, List.length_append, List.length_singleton] <;>
        omega
  | copyOut consumer batch =>
      simp only [rxStep]
      split_ifs <;> simp only [Outcome.left_running, Outcome.left_returned, RxPc.left] <;> omega
  | restale consumer batch =>
      simp only [rxStep]
      split_ifs <;>
        simp only [Outcome.left_running, Outcome.left_returned, RxPc.left, ReadyPc.start] <;> omega
  | reready consumer batch pc =>
      have hready := readyStep_left transport region pc
      simp only [rxStep]
      rcases hout : readyStep transport region pc with pc' | ready
      · rw [hout] at hready
        simp only [Outcome.left_running, RxPc.left]
        omega
      · cases ready <;> simp only [Outcome.left_running, Outcome.left_returned, RxPc.left] <;> omega
  | publish consumer batch ret => simp [rxStep, RxPc.left]
  | peekProducer ret => simp [rxStep, RxPc.left]
  | peekConsumer ret producer =>
      simp only [rxStep]
      split
      · simp [RxPc.left]
      · split_ifs <;> simp [RxPc.left, KickPc.left]
  | kick ret pc =>
      have hkick := kickStep_left answer transport pc
      rcases hout : kickStep answer transport pc with ⟨out, transport'⟩
      rw [hout] at hkick
      simp only [rxStep, hout]
      cases out <;> exact hkick

/-! ## A call that finds a response -/

/-- The call goes on to take a message: it has seen the newest producer counter, or will. -/
def Taking (ring : Ring) : RxPc → Prop
  | .ready _ _ | .readProducer _ | .copySlot _ _ _ => True
  | .readConsumer _ producer => producer = ring.producer
  | .copyOut _ batch | .publish _ batch _ => batch ≠ []
  | .stale _ | .wait | .restale _ _ | .reready _ _ _ | .peekProducer _ | .peekConsumer _ _
  | .kick _ _ => False

theorem taking_ne_wait {ring : Ring} {pc : RxPc} (h : Taking ring pc) : pc ≠ .wait := by
  rintro rfl
  exact h

/-- While the response ring is not empty, a receiver that goes on alone takes a message. -/
theorem rxStep_taking (noWait : Bool) {g base : U32} {log : List Slot} {taken : ℕ}
    {transport : Transport} {region : Region} (hest : Established g transport region)
    (hring : region.response.Represents base log taken) (hsound : ∀ m ∈ log, Sound m)
    (hmore : taken < log.length) {pc : RxPc}
    (hpc : RxFacts g base log taken region.response pc) (htaking : Taking region.response pc) :
    pc.delivered ≠ [] ∨
      ∃ pc', (rxStep (receiveMessage noWait) .done transport region pc).1 = .running pc' ∧
        Taking (rxStep (receiveMessage noWait) .done transport region pc).2.2.response pc' := by
  have hbound := hring.bounded
  cases pc with
  | ready expired pc =>
      have hready := readyStep_spec hest hpc
      right
      simp only [rxStep]
      rcases hout : readyStep transport region pc with pc' | ready
      · exact ⟨_, rfl, trivial⟩
      · rw [hout] at hready
        subst hready
        exact ⟨_, rfl, trivial⟩
  | readProducer expired => exact .inr ⟨_, rfl, rfl⟩
  | readConsumer expired producer =>
      obtain rfl : producer = region.response.producer := htaking
      have hocc := hring.occupancy
      right
      simp only [rxStep]
      rw [readOccupancy_of_le (by omega)]
      dsimp only
      rw [if_pos (by omega)]
      exact ⟨_, rfl, trivial⟩
  | copySlot consumer completed batch =>
      obtain ⟨rfl, hcompleted, hbatch, -⟩ := hpc
      have hlt : taken + batch.length < log.length := by omega
      have hread := hring.readSlot (k := batch.length) hlt
      have hkeep := (receiveMessage noWait).not_rejects (hsound _ (List.getElem_mem hlt))
      right
      simp only [rxStep, hread, if_neg hkeep]
      split_ifs
      · exact ⟨_, rfl, trivial⟩
      · exact ⟨_, rfl, by simp [Taking]⟩
  | copyOut consumer batch => exact .inr ⟨_, rfl, htaking⟩
  | publish consumer batch ret => exact .inl htaking
  | stale | wait | restale | reready | peekProducer | peekConsumer | kick => exact htaking.elim

end Sg200x.Ipc.Driver

namespace Sg200x.Ipc.Firmware

open Shm RingCore App Driver Library.WrapRing

/-- A pass through the loop takes at most 17 steps, the two writes of `mark_corrupt` included. -/
def ProcessPc.left : ProcessPc → ℕ
  | .corruptState => 1
  | .corruptGeneration => 2
  | .tryPush count pc => 17 * (slotCount - count) + 3 + pc.left
  | .handle count => 17 * (slotCount - count) + 8
  | .tryPop count pc => 17 * (slotCount - count) + 9 + pc.left
  | .canPush count pc => 17 * (slotCount - count) + 14 + pc.left
  | .attachState _ => 17 * slotCount + 17
  | .attachGeneration _ => 17 * slotCount + 18
  | .linuxGeneration _ => 17 * slotCount + 19
  | .linuxState _ => 17 * slotCount + 20
  | .layoutIsValid _ reads => 17 * slotCount + 21 + reads.length
  | .readGeneration => 17 * slotCount + 22 + Firmware.layoutIsValid.length

theorem loop_left (count : ℕ) :
    (loop count).left ProcessPc.left ≤ 17 * (slotCount - count) + 16 := by
  unfold loop
  split_ifs <;> simp [ProcessPc.left, CanPushPc.left]

theorem processStep_left (mmio : Mmio) (region : Region) (statics : Statics) (pc : ProcessPc) :
    (processStep mmio region statics pc).1.left ProcessPc.left < pc.left := by
  cases pc with
  | readGeneration =>
      simp only [processStep]
      split_ifs <;> simp only [Outcome.left_running, Outcome.left_returned, ProcessPc.left] <;> omega
  | layoutIsValid generation reads =>
      cases reads with
      | nil => simp [processStep, ProcessPc.left]
      | cons read reads =>
          simp only [processStep]
          split_ifs <;>
            simp only [Outcome.left_running, Outcome.left_returned, ProcessPc.left,
              List.length_cons] <;>
            omega
  | linuxState generation =>
      simp only [processStep]
      split_ifs <;> simp only [Outcome.left_running, Outcome.left_returned, ProcessPc.left] <;> omega
  | linuxGeneration generation =>
      have hloop := loop_left 0
      rw [Nat.sub_zero] at hloop
      simp only [processStep, attach]
      split_ifs <;> simp only [Outcome.left_running, Outcome.left_returned, ProcessPc.left] <;> omega
  | attachGeneration generation =>
      simp only [processStep, Outcome.left_running, ProcessPc.left]
      omega
  | attachState generation =>
      have hloop := loop_left 0
      rw [Nat.sub_zero] at hloop
      simp only [processStep, ProcessPc.left]
      omega
  | canPush count pc =>
      have hpush := canPushStep_left region.response pc
      simp only [processStep]
      rcases hout : canPushStep region.response pc with pc' | value <;> rw [hout] at hpush
      · simp only [Outcome.left_running, ProcessPc.left] at hpush ⊢
        omega
      · dsimp only
        split_ifs <;>
          simp only [Outcome.left_running, Outcome.left_returned, ProcessPc.left,
            PopPc.left] at hpush ⊢ <;>
          omega
  | tryPop count pc =>
      have hpop := tryPopStep_left region.request statics.requestMessage pc
      simp only [processStep]
      rcases hout : tryPopStep region.request statics.requestMessage pc with ⟨out, ring, message⟩
      rw [hout] at hpop
      rcases out with pc' | result
      · simp only [Outcome.left_running, ProcessPc.left] at hpop ⊢
        omega
      · cases result <;>
          simp only [Outcome.left_running, Outcome.left_returned, ProcessPc.left] at hpop ⊢ <;>
          omega
  | handle count =>
      simp only [processStep, tryPush, if_pos (respond_fits mmio statics.requestMessage),
        Outcome.left_running, ProcessPc.left, PushPc.left]
      omega
  | tryPush count pc =>
      have hpush := tryPushStep_left statics.responseMessage region.response pc
      simp only [processStep]
      rcases hout : tryPushStep statics.responseMessage region.response pc with ⟨out, ring⟩
      rw [hout] at hpush
      rcases out with pc' | result
      · simp only [Outcome.left_running, ProcessPc.left] at hpush ⊢
        omega
      · cases result with
        | ok =>
            simp only [Outcome.left_returned, ProcessPc.left] at hpush ⊢
            unfold loop
            split_ifs <;>
              simp only [Outcome.left_running, Outcome.left_returned, ProcessPc.left,
                CanPushPc.left] <;>
              omega
        | _ =>
            simp only [Outcome.left_running, ProcessPc.left] at hpush ⊢
            omega
  | corruptGeneration => simp [processStep, ProcessPc.left]
  | corruptState => simp [processStep, ProcessPc.left]

/-! ## A process call that finds a request -/

/-- The call goes on to answer a request: it has seen the newest producer counter, or will. -/
def Answering (ring : Ring) : ProcessPc → Prop
  | .tryPop _ (.readConsumer producer) => producer = ring.producer
  | .readGeneration | .layoutIsValid _ _ | .linuxState _ | .linuxGeneration _ | .canPush _ _
  | .tryPop _ _ | .handle _ | .tryPush _ _ => True
  | .attachGeneration _ | .attachState _ | .corruptGeneration | .corruptState => False

/-- While a request waits and its response has room, a process call that goes on alone answers. -/
theorem processStep_answering {g base base' : U32} {published answered : List Slot}
    {popped taken : ℕ} {region : Region} {statics : Statics}
    (hattached : Attached g region statics)
    (hrequest : region.request.Represents base published popped)
    (hresponse : region.response.Represents base' answered taken)
    (hsound : ∀ m ∈ published, Sound m) (hroom : answered.length < taken + slotCount) (mmio : Mmio)
    {pc : ProcessPc}
    (hpc : ProcessFacts g base published popped answered taken region statics pc)
    (hmore : held (some pc) = 0 → owed statics (some pc) = [] → popped < published.length)
    (hanswering : Answering region.request pc) :
    pc.pushes statics ≠ [] ∨
      ∃ pc', (processStep mmio region statics pc).1 = .running pc' ∧
        Answering (processStep mmio region statics pc).2.1.request pc' := by
  have hbound := hrequest.bounded
  have hfits : ∀ m ∈ published, m.Fits := fun m hm => (hsound m hm).1
  cases pc with
  | readGeneration =>
      have hgeneration : region.layout.generation = g := by
        simpa [LayoutRead.passes] using hattached.layout .generation
      simp only [processStep, hgeneration, if_neg hattached.nonzero]
      exact .inr ⟨_, rfl, trivial⟩
  | layoutIsValid generation reads =>
      obtain rfl : generation = g := hpc
      cases reads with
      | nil => exact .inr ⟨_, rfl, trivial⟩
      | cons read reads =>
          simp only [processStep, hattached.layout, if_true]
          exact .inr ⟨_, rfl, trivial⟩
  | linuxState generation =>
      simp only [processStep, hattached.linuxPeer, if_true]
      exact .inr ⟨_, rfl, trivial⟩
  | linuxGeneration generation =>
      obtain rfl : generation = g := hpc
      simp only [processStep, attach, hattached.linuxPeer, hattached.active, if_true]
      exact .inr ⟨_, rfl, trivial⟩
  | canPush count pc =>
      have hspec := canPushStep_spec hresponse hpc
      right
      simp only [processStep]
      rcases hout : canPushStep region.response pc with pc' | value <;> rw [hout] at hspec
      · exact ⟨_, rfl, trivial⟩
      · obtain ⟨rfl, -⟩ := hspec.resolve_right (by omega)
        exact ⟨_, rfl, trivial⟩
  | tryPop count pc =>
      right
      cases pc with
      | readProducer => exact ⟨_, rfl, rfl⟩
      | readConsumer producer =>
          obtain rfl : producer = region.request.producer := hanswering
          have hlt := hmore rfl rfl
          have hocc := hrequest.occupancy
          simp only [processStep, tryPopStep]
          rw [readOccupancy_of_le (by omega)]
          dsimp only
          rw [if_neg (by omega)]
          exact ⟨_, rfl, trivial⟩
      | copySlot consumer => exact ⟨_, rfl, trivial⟩
      | publish consumer =>
          have hspec := tryPopStep_spec hrequest hfits hpc.2
          simp only [processStep, tryPopStep] at hspec ⊢
          by_cases hmessage : statics.requestMessage.Fits
          · simp only [if_pos hmessage]
            exact ⟨_, rfl, trivial⟩
          · simp only [if_neg hmessage] at hspec
  | handle count =>
      simp only [processStep, tryPush, if_pos (respond_fits mmio statics.requestMessage)]
      exact .inr ⟨_, rfl, trivial⟩
  | tryPush count pc =>
      have hspec := tryPushStep_spec hresponse hpc.2
      cases pc with
      | publish producer => exact .inl (List.cons_ne_nil _ _)
      | readConsumer producer =>
          right
          obtain rfl : producer = region.response.producer := hpc.2
          have htaken := hresponse.taken_le
          have hocc := hresponse.occupancy
          simp only [processStep, tryPushStep]
          rw [readOccupancy_of_le (by omega)]
          dsimp only
          rw [if_neg (by omega)]
          exact ⟨_, rfl, trivial⟩
      | readProducer | copySlot => exact .inr ⟨_, rfl, trivial⟩
  | attachGeneration | attachState | corruptGeneration | corruptState => exact hanswering.elim

end Sg200x.Ipc.Firmware
