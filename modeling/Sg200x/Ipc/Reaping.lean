import Sg200x.Ipc.Ioctl
import Mathlib.Data.List.TakeWhile

/-!
# A batch of responses and responses one by one

`reap_batch` and `receive_message` validate a response with conditions of their own.
What each of them takes from the response ring is a function of what is queued there.
-/

namespace Sg200x.Ipc

open Shm RingCore Driver

/-- The messages in `n` slots from `counter` on. -/
def Ring.window (ring : Ring) (counter : U32) : ℕ → List Slot
  | 0 => []
  | n + 1 => ring.slots (slotIndex counter) :: ring.window (counter + 1#32) n

/-- The messages between the consumer and the producer counter. -/
def Ring.queued (ring : Ring) : List Slot :=
  ring.window ring.consumer (ring.producer - ring.consumer).toNat

/-- `n` slots are returned to the producer. -/
def Ring.consume (ring : Ring) (n : ℕ) : Ring :=
  { ring with consumer := ring.consumer + BitVec.ofNat 32 n }

@[simp] theorem Ring.length_window (ring : Ring) (counter : U32) (n : ℕ) :
    (ring.window counter n).length = n := by
  induction n generalizing counter with
  | zero => rfl
  | succ n ih => rw [Ring.window, List.length_cons, ih]

@[simp] theorem Ring.length_queued (ring : Ring) :
    ring.queued.length = (ring.producer - ring.consumer).toNat :=
  ring.length_window _ _

theorem Ring.take_window (ring : Ring) (counter : U32) (k n : ℕ) :
    (ring.window counter n).take k = ring.window counter (min k n) := by
  induction n generalizing counter k with
  | zero => simp [Ring.window]
  | succ n ih =>
      cases k with
      | zero => simp [Ring.window]
      | succ k =>
          rw [Nat.succ_min_succ, Ring.window, Ring.window, List.take_succ_cons, ih]

theorem Ring.drop_window (ring : Ring) (counter : U32) (k n : ℕ) :
    (ring.window counter n).drop k = ring.window (counter + BitVec.ofNat 32 k) (n - k) := by
  induction k generalizing counter n with
  | zero => simp
  | succ k ih =>
      cases n with
      | zero => simp [Ring.window]
      | succ n =>
          rw [Ring.window, List.drop_succ_cons, ih, Nat.succ_sub_succ]
          congr 1
          rw [BitVec.add_assoc, Nat.add_comm k, BitVec.ofNat_add]

theorem Ring.window_congr {ring ring' : Ring} (h : ring.slots = ring'.slots) (counter : U32)
    (n : ℕ) : ring.window counter n = ring'.window counter n := by
  induction n generalizing counter with
  | zero => rfl
  | succ n ih => rw [Ring.window, Ring.window, h, ih]

/-- What is queued once `n` slots have been returned. -/
theorem Ring.queued_consume (ring : Ring) {n : ℕ} (hn : n ≤ ring.queued.length) :
    (ring.consume n).queued = ring.queued.drop n := by
  rw [Ring.length_queued] at hn
  have hcount : (ring.producer - (ring.consumer + BitVec.ofNat 32 n)).toNat =
      (ring.producer - ring.consumer).toNat - n := by
    rw [← BitVec.sub_sub]
    have hlt : n < 2 ^ 32 := Nat.lt_of_le_of_lt hn (BitVec.isLt _)
    have hcast : (BitVec.ofNat 32 n).toNat = n := by
      rw [BitVec.toNat_ofNat, Nat.mod_eq_of_lt hlt]
    rw [BitVec.toNat_sub_of_le, hcast]
    rw [BitVec.le_def, hcast]
    exact hn
  rw [Ring.queued, Ring.queued, Ring.drop_window, ← hcount]
  apply Ring.window_congr
  rfl

theorem Ring.consume_consume (ring : Ring) (m n : ℕ) :
    (ring.consume m).consume n = ring.consume (m + n) := by
  simp only [Ring.consume, BitVec.ofNat_add, BitVec.add_assoc]

/-- `n` responses are returned to the firmware. -/
def Region.consume (region : Region) (n : ℕ) : Region :=
  { region with response := region.response.consume n }

theorem Region.consume_consume (region : Region) (m n : ℕ) :
    (region.consume m).consume n = region.consume (m + n) := by
  simp only [Region.consume, Ring.consume_consume]

namespace Ioctl

/-! ## A call that does not succeed -/

/-- The value that a call returns once it stores to the ring. -/
def consuming : RxPc → Option Errno
  | .publish _ _ ret | .peekProducer ret | .peekConsumer ret _ | .kick ret _ => some ret
  | _ => none

theorem rxStep_region {call : RxCall} {answer : Answer} {transport : Transport} {region : Region}
    {pc : RxPc} (hpc : consuming pc = none) :
    (Driver.rxStep call answer transport region pc).2.2 = region := by
  cases pc with
  | publish => cases hpc
  | kick => cases hpc
  | _ => rfl

abbrev rxInterrupted (call : RxCall) : RxPc → List (Memory × Memory) → Errno → Prop :=
  Interrupted fun answer => rxAccess call fun _ => answer

/-- Where a step of a call leads: a call that starts to store returns `ok` or `eproto`, and
then does not change what it returns. -/
theorem consuming_step {call : RxCall} {answer : RxPc → Answer} {pc pc' : RxPc}
    {memory memory' : Memory} (h : rxAccess call answer pc memory = (.running pc', memory')) :
    (∀ ret, consuming pc = some ret → consuming pc' = some ret) ∧
      (consuming pc = none → ∀ ret, consuming pc' = some ret → ret = .ok ∨ ret = .eproto) := by
  have hout : (Driver.rxStep call (answer pc) memory.transport memory.region pc).1 =
      .running pc' := congrArg Prod.fst h
  cases pc with
  | stale expired =>
      simp only [Driver.rxStep] at hout
      split_ifs at hout
      cases hout
      exact ⟨by rintro _ ⟨⟩, by rintro - _ ⟨⟩⟩
  | ready expired pc =>
      simp only [Driver.rxStep] at hout
      split at hout <;> cases hout <;> exact ⟨by rintro _ ⟨⟩, by rintro - _ ⟨⟩⟩
  | readProducer =>
      cases hout
      exact ⟨by rintro _ ⟨⟩, by rintro - _ ⟨⟩⟩
  | readConsumer =>
      simp only [Driver.rxStep] at hout
      split at hout
      · cases hout
      · split_ifs at hout <;> cases hout <;> exact ⟨by rintro _ ⟨⟩, by rintro - _ ⟨⟩⟩
  | wait =>
      simp only [Driver.rxStep, waitEnd] at hout
      split_ifs at hout
      cases hout
      unfold RxCall.loop
      split_ifs <;> exact ⟨by rintro _ ⟨⟩, by rintro - _ ⟨⟩⟩
  | copySlot consumer completed batch =>
      simp only [Driver.rxStep] at hout
      split_ifs at hout <;> cases hout
      · exact ⟨by rintro _ ⟨⟩, fun _ ret hret => .inr (Option.some.inj hret).symm⟩
      all_goals exact ⟨by rintro _ ⟨⟩, by rintro - _ ⟨⟩⟩
  | copyOut =>
      simp only [Driver.rxStep] at hout
      split_ifs at hout <;> cases hout
      · exact ⟨by rintro _ ⟨⟩, by rintro - _ ⟨⟩⟩
      · exact ⟨by rintro _ ⟨⟩, fun _ ret hret => .inl (Option.some.inj hret).symm⟩
  | restale =>
      simp only [Driver.rxStep] at hout
      split_ifs at hout
      cases hout
      exact ⟨by rintro _ ⟨⟩, by rintro - _ ⟨⟩⟩
  | reready consumer batch pc =>
      simp only [Driver.rxStep] at hout
      split at hout <;> cases hout
      · exact ⟨by rintro _ ⟨⟩, by rintro - _ ⟨⟩⟩
      · exact ⟨by rintro _ ⟨⟩, fun _ ret hret => .inl (Option.some.inj hret).symm⟩
  | publish | peekProducer =>
      cases hout
      exact ⟨fun _ hret => hret, by rintro ⟨⟩⟩
  | peekConsumer =>
      simp only [Driver.rxStep] at hout
      split at hout
      · cases hout
      · split_ifs at hout
        cases hout
        exact ⟨fun _ hret => hret, by rintro ⟨⟩⟩
  | kick ret pc =>
      simp only [Driver.rxStep] at hout
      split at hout <;> cases hout
      exact ⟨fun _ hret => hret, by rintro ⟨⟩⟩

theorem consuming_returned {call : RxCall} {answer : RxPc → Answer} {pc : RxPc}
    {memory memory' : Memory} {value ret : Errno}
    (h : rxAccess call answer pc memory = (.returned value, memory'))
    (hret : consuming pc = some ret) : value = ret := by
  have hout : (Driver.rxStep call (answer pc) memory.transport memory.region pc).1 =
      .returned value := congrArg Prod.fst h
  cases pc with
  | publish | peekProducer => cases hout
  | peekConsumer =>
      cases hret
      simp only [Driver.rxStep] at hout
      split at hout
      · cases hout
        rfl
      · split_ifs at hout
        cases hout
        rfl
  | kick =>
      cases hret
      simp only [Driver.rxStep] at hout
      split at hout <;> cases hout
      rfl
  | _ => cases hret

/-- A call that stores to the ring returns what it has settled on. -/
theorem returned_of_consuming {call : RxCall} {pc : RxPc} {visits : List (Memory × Memory)}
    {value ret : Errno} (h : rxInterrupted call pc visits value) (hret : consuming pc = some ret) :
    value = ret := by
  induction h with
  | returned hstep => exact consuming_returned hstep hret
  | running hstep _ ih => exact ih ((consuming_step hstep).1 ret hret)

/-- Whatever other parties do meanwhile, a call that neither succeeds nor rejects a response
leaves the region alone. -/
theorem region_of_undone {call : RxCall} {pc : RxPc} {visits : List (Memory × Memory)}
    {value : Errno} (h : rxInterrupted call pc visits value) (hpc : consuming pc = none)
    (hok : value ≠ .ok) (hproto : value ≠ .eproto) :
    ∀ visit ∈ visits, visit.2.region = visit.1.region := by
  have hquiet : ∀ {answer : Answer} {pc s s'} {out : Outcome RxPc Errno}, consuming pc = none →
      rxAccess call (fun _ => answer) pc s = (out, s') → s'.region = s.region := by
    intro answer pc s s' out hpc hstep
    have hregion := congrArg (fun result => result.2.region) hstep
    exact hregion.symm.trans (rxStep_region hpc)
  induction h with
  | returned hstep =>
      intro visit hvisit
      rw [List.mem_singleton.mp hvisit]
      exact hquiet hpc hstep
  | @running answer pc pc' s s' visits value hstep hrest ih =>
      have hpc' : consuming pc' = none := by
        cases hconsuming : consuming pc' with
        | none => rfl
        | some ret =>
            have hvalue := returned_of_consuming hrest hconsuming
            rcases (consuming_step hstep).2 hpc ret hconsuming with h | h
            · exact absurd (hvalue.trans h) hok
            · exact absurd (hvalue.trans h) hproto
      intro visit hvisit
      rcases List.mem_cons.mp hvisit with rfl | hlater
      · exact hquiet hpc hstep
      · exact ih hpc' hok hproto visit hlater

/-! ## A call on its own -/

section Alone

variable {call : RxCall} {answer : RxPc → Answer} {memory : Memory} {r : Errno × Memory}

/-- `!request_occupancy(..) && pending_requests > 0U`. -/
def pendingRequests (region : Region) : Bool :=
  match readOccupancy region.request.producer region.request.consumer with
  | none => false
  | some occupancy => decide (0 < occupancy.toNat)

/-- The memory once `n` responses have been returned to the firmware. -/
def Memory.consume (memory : Memory) (busy : Bool) (n : ℕ) : Memory :=
  { memory with
    transport := if pendingRequests memory.region then kick busy memory.transport
      else memory.transport
    region := memory.region.consume n }

theorem peekConsumer_step {ret : Errno} :
    rxAccess call answer (.peekConsumer ret memory.region.request.producer) memory =
      (if pendingRequests memory.region then .running (.kick ret .shuttingDown) else .returned ret,
        memory) := by
  unfold pendingRequests
  simp only [rxAccess, Driver.rxStep]
  cases readOccupancy memory.region.request.producer memory.region.request.consumer with
  | none => rfl
  | some occupancy => simp only [decide_eq_true_eq]

theorem returns_peekConsumer {ret : Errno} (hrunning : memory.transport.shuttingDown = false) :
    Returns (rxAccess call answer) (.peekConsumer ret memory.region.request.producer) memory r ↔
      r = (ret, { memory with
        transport := if pendingRequests memory.region then
            kick (answer (.kick ret .kickNow) = .busy) memory.transport
          else memory.transport }) := by
  rw [returns_iff, peekConsumer_step]
  by_cases hpending : pendingRequests memory.region = true
  · simp only [if_pos hpending]
    apply returns_kick
    · intro pc memory
      simp only [rxAccess, Driver.rxStep]
      rcases kickStep (answer (.kick ret pc)) memory.transport pc with ⟨out, transport⟩
      cases out <;> rfl
    · exact hrunning
  · simp only [if_neg hpending]
    rfl

theorem returns_publish_rx {batch : List Slot} {ret : Errno}
    (hrunning : memory.transport.shuttingDown = false) :
    Returns (rxAccess call answer) (.publish memory.region.response.consumer batch ret) memory r ↔
      r = (ret, memory.consume (answer (.kick ret .kickNow) = .busy) batch.length) := by
  rw [returns_iff]
  simp only [rxAccess, Driver.rxStep, Continues]
  rw [returns_iff]
  simp only [rxAccess, Driver.rxStep, Continues]
  exact @returns_peekConsumer call answer { memory with
    region := memory.region.consume batch.length }
    r ret hrunning

/-- Where a call goes on when it has read `messages` after those of `batch`. -/
def collected (call : RxCall) (consumer : U32) (batch messages : List Slot) : RxPc :=
  if batch ++ messages.takeWhile (¬ call.rejects ·) = [] then
    .publish consumer (messages.take 1) .eproto
  else .copyOut consumer (batch ++ messages.takeWhile (¬ call.rejects ·))

theorem collected_reject {consumer : U32} {batch messages : List Slot} {message : Slot}
    (hreject : call.rejects message) :
    collected call consumer batch (message :: messages) =
      if batch = [] then .publish consumer [message] .eproto else .copyOut consumer batch := by
  unfold collected
  rw [List.takeWhile_cons_of_neg (by simpa using hreject), List.append_nil]
  rfl

theorem collected_accept {consumer : U32} {batch messages : List Slot} {message : Slot}
    (haccept : ¬ call.rejects message) :
    collected call consumer batch (message :: messages) =
      collected call consumer (batch ++ [message]) messages := by
  unfold collected
  rw [List.takeWhile_cons_of_pos (by simpa using haccept), List.append_assoc,
    List.singleton_append, if_neg (by simp), if_neg (by simp)]

theorem returns_copySlot_rx {consumer : U32} {completed left : ℕ} {batch : List Slot}
    (hleft : completed = batch.length + left + 1) :
    Returns (rxAccess call answer) (.copySlot consumer completed batch) memory r ↔
      Returns (rxAccess call answer) (collected call consumer batch
        (memory.region.response.window (consumer + BitVec.ofNat 32 batch.length) (left + 1)))
        memory r := by
  induction left generalizing batch with
  | zero =>
      have hlast : ¬ batch.length + 1 < completed := by omega
      rw [returns_iff]
      simp only [rxAccess, Driver.rxStep, Ring.window, if_neg hlast]
      by_cases hreject : call.rejects (memory.region.response.slots
        (slotIndex (consumer + BitVec.ofNat 32 batch.length)))
      · rw [if_pos hreject, collected_reject hreject]
        split_ifs <;> rfl
      · rw [if_neg hreject, collected_accept hreject]
        simp only [collected, List.takeWhile_nil, List.append_nil]
        rw [if_neg (by simp)]
        rfl
  | succ left ih =>
      have hnext : batch.length + 1 < completed := by omega
      rw [returns_iff]
      simp only [rxAccess, Driver.rxStep, if_pos hnext]
      rw [Ring.window]
      by_cases hreject : call.rejects (memory.region.response.slots
        (slotIndex (consumer + BitVec.ofNat 32 batch.length)))
      · rw [if_pos hreject, collected_reject hreject]
        split_ifs <;> rfl
      · rw [if_neg hreject, collected_accept hreject]
        have hih := @ih (batch ++ [memory.region.response.slots
          (slotIndex (consumer + BitVec.ofNat 32 batch.length))]) (by simp; omega)
        rw [List.length_append, List.length_singleton, BitVec.ofNat_add, ← BitVec.add_assoc] at hih
        exact hih

theorem returns_copyOut_rx {batch : List Slot}
    (hready : ready memory.transport memory.region = true)
    (hbatch : call.batchGeneration.isSome = true →
      call.batchGeneration = some memory.transport.generation)
    (hcopy : answer (.copyOut memory.region.response.consumer batch) ≠ .fault) :
    Returns (rxAccess call answer) (.copyOut memory.region.response.consumer batch) memory r ↔
      r = (.ok, { memory.consume (answer (.kick .ok .kickNow) = .busy) batch.length with
        copied := memory.copied ++ batch }) := by
  have hrunning := running_of_ready hready
  rw [returns_iff]
  have hpublish := @returns_publish_rx call answer { memory with copied := memory.copied ++ batch }
    r batch .ok hrunning
  by_cases hisSome : call.batchGeneration.isSome = true
  · simp only [rxAccess, Driver.rxStep, if_neg hcopy, if_pos hisSome, Continues]
    rw [returns_iff]
    simp only [rxAccess, Driver.rxStep, if_pos (hbatch hisSome), Continues]
    rw [returns_ready (fun pc => RxPc.reready memory.region.response.consumer batch pc)
      (fun value => cond value (.running (.publish memory.region.response.consumer batch .ok))
        (.returned .estale))]
    · simp only [hready, cond_true, Continues]
      exact hpublish
    · intro pc
      simp only [rxAccess, Driver.rxStep]
      rcases readyStep memory.transport memory.region pc with pc' | value
      · rfl
      · cases value <;> rfl
  · simp only [rxAccess, Driver.rxStep, if_neg hcopy, if_neg hisSome, Continues]
    exact hpublish

/-- The responses up to the first that is not accepted. -/
def taken (accepts : Slot → Bool) (count : ℕ) (region : Region) : List Slot :=
  (region.response.queued.take count).takeWhile accepts

/-- The responses that a call takes. -/
abbrev accepted (call : RxCall) (region : Region) : List Slot :=
  taken (¬ call.rejects ·) call.count region

/-- What a call comes to that finds a response. -/
def received (call : RxCall) (answer : RxPc → Answer) (memory : Memory) : Errno × Memory :=
  if accepted call memory.region = [] then
    (.eproto, memory.consume (answer (.kick .eproto .kickNow) = .busy) 1)
  else
    (.ok, { memory.consume (answer (.kick .ok .kickNow) = .busy)
        (accepted call memory.region).length with
      copied := memory.copied ++ accepted call memory.region })

/-- No copy to the user fails. -/
def CopiesSucceed (answer : RxPc → Answer) : Prop :=
  ∀ consumer batch, answer (.copyOut consumer batch) ≠ .fault

theorem returns_found (hready : ready memory.transport memory.region = true)
    (hbatch : call.batchGeneration.isSome = true →
      call.batchGeneration = some memory.transport.generation)
    (hcopies : CopiesSucceed answer) (hcount : call.count ≠ 0)
    (hqueued : memory.region.response.queued ≠ []) :
    Returns (rxAccess call answer) (.copySlot memory.region.response.consumer
      (min call.count memory.region.response.queued.length) []) memory r ↔
      r = received call answer memory := by
  have hpos := List.length_pos_of_ne_nil hqueued
  obtain ⟨left, hleft⟩ : ∃ left,
      min call.count memory.region.response.queued.length = left + 1 :=
    ⟨min call.count memory.region.response.queued.length - 1, by omega⟩
  have hwindow : memory.region.response.window memory.region.response.consumer (left + 1) =
      memory.region.response.queued.take call.count := by
    rw [Ring.queued, Ring.take_window, ← hleft, Ring.length_queued]
  have hnil : (memory.region.response.consumer + BitVec.ofNat 32 ([] : List Slot).length) =
      memory.region.response.consumer := by
    simp
  rw [returns_copySlot_rx (by rw [hleft, List.length_nil, Nat.zero_add]), hnil, hwindow]
  unfold received accepted taken collected
  rw [List.nil_append]
  by_cases hnone :
      (memory.region.response.queued.take call.count).takeWhile (¬ call.rejects ·) = []
  · rw [if_pos hnone, if_pos hnone, returns_publish_rx (running_of_ready hready)]
    rw [List.length_take, List.length_take]
    have hone : min 1 (min call.count memory.region.response.queued.length) = 1 := by omega
    rw [hone]
  · rw [if_neg hnone, if_neg hnone, returns_copyOut_rx hready hbatch (hcopies _ _)]

/-- What a call finds out about the responses in the ring. -/
def arrival (call : RxCall) (expired : Bool) (region : Region) : Outcome RxPc Errno :=
  match readOccupancy region.response.producer region.response.consumer with
  | none => .returned .eproto
  | some occupancy =>
      if 0 < occupancy.toNat then
        .running (.copySlot region.response.consumer (min call.count occupancy.toNat) [])
      else if expired then .returned (outOfTime call.noWait)
      else .running .wait

theorem returns_loop_rx {expired : Bool} :
    Returns (rxAccess call answer) (call.loop expired) memory r ↔
      Continues (rxAccess call answer) (tested call.batchGeneration memory.transport memory.region
        (.readProducer expired), memory) r := by
  refine @returns_tested _ (rxAccess call answer) memory r call.batchGeneration (.stale expired)
    (.readProducer expired) (fun pc => .ready expired pc) rfl ?_
  intro pc
  cases h : readyStep memory.transport memory.region pc with
  | running pc' => simp only [rxAccess, Driver.rxStep, h]
  | returned value => cases value <;> simp only [rxAccess, Driver.rxStep, h]

theorem returns_arrival {expired : Bool}
    (hbatch : call.batchGeneration.isSome = true →
      call.batchGeneration = some memory.transport.generation)
    (hready : ready memory.transport memory.region = true) :
    Returns (rxAccess call answer) (call.loop expired) memory r ↔
      Continues (rxAccess call answer) (arrival call expired memory.region, memory) r := by
  rw [returns_loop_rx, tested_eq hbatch hready]
  change Returns _ _ _ _ ↔ _
  rw [returns_iff]
  simp only [rxAccess, Driver.rxStep, Continues]
  rw [returns_iff]
  rfl

/-- A ring whose counters are not corrupt. -/
def Sane (ring : Ring) : Prop := (ring.producer - ring.consumer).toNat ≤ slotCount

instance (ring : Ring) : Decidable (Sane ring) := inferInstanceAs (Decidable (_ ≤ _))

theorem returns_corrupt {expired : Bool}
    (hbatch : call.batchGeneration.isSome = true →
      call.batchGeneration = some memory.transport.generation)
    (hready : ready memory.transport memory.region = true)
    (hcorrupt : ¬ Sane memory.region.response) :
    Returns (rxAccess call answer) (call.loop expired) memory r ↔ r = (.eproto, memory) := by
  rw [returns_arrival hbatch hready]
  have hread : readOccupancy memory.region.response.producer memory.region.response.consumer =
      none := if_neg hcorrupt
  unfold arrival
  rw [hread]
  rfl

theorem returns_received {expired : Bool}
    (hbatch : call.batchGeneration.isSome = true →
      call.batchGeneration = some memory.transport.generation)
    (hready : ready memory.transport memory.region = true)
    (hcopies : CopiesSucceed answer) (hcount : call.count ≠ 0)
    (hsane : Sane memory.region.response) (hqueued : memory.region.response.queued ≠ []) :
    Returns (rxAccess call answer) (call.loop expired) memory r ↔
      r = received call answer memory := by
  have hpos := List.length_pos_of_ne_nil hqueued
  rw [Ring.length_queued] at hpos
  rw [returns_arrival hbatch hready, ← returns_found hready hbatch hcopies hcount hqueued]
  unfold arrival
  rw [readOccupancy_eq hsane, Ring.length_queued]
  simp only [if_pos hpos]
  rfl

/-- A call that does not wait, on an empty ring. -/
theorem returns_empty
    (hbatch : call.batchGeneration.isSome = true →
      call.batchGeneration = some memory.transport.generation)
    (hready : ready memory.transport memory.region = true)
    (hqueued : memory.region.response.queued = []) :
    Returns (rxAccess call answer) (call.loop true) memory r ↔
      r = (outOfTime call.noWait, memory) := by
  have hzero : (memory.region.response.producer - memory.region.response.consumer).toNat = 0 := by
    rw [← Ring.length_queued, hqueued, List.length_nil]
  rw [returns_arrival hbatch hready]
  unfold arrival
  rw [readOccupancy_eq (by omega)]
  simp only [hzero, Nat.lt_irrefl, if_false, if_true]
  rfl

/-- What a call comes to that does not wait. -/
def rxResult (call : RxCall) (answer : RxPc → Answer) (memory : Memory) : Errno × Memory :=
  match tested call.batchGeneration memory.transport memory.region () with
  | .returned ret => (ret, memory)
  | .running () =>
      if ¬ Sane memory.region.response then (.eproto, memory)
      else if memory.region.response.queued = [] then (outOfTime call.noWait, memory)
      else received call answer memory

theorem returns_rxResult (hcount : call.count ≠ 0) (hcopies : CopiesSucceed answer) :
    Returns (rxAccess call answer) (call.loop true) memory r ↔
      r = rxResult call answer memory := by
  by_cases hstale : call.batchGeneration.isSome ∧
      call.batchGeneration ≠ some memory.transport.generation
  · rw [returns_loop_rx, rxResult, tested, if_pos hstale, tested, if_pos hstale]
    rfl
  · have hbatch : call.batchGeneration.isSome = true →
        call.batchGeneration = some memory.transport.generation :=
      fun hisSome => not_not.mp fun hne => hstale ⟨hisSome, hne⟩
    by_cases hready : ready memory.transport memory.region = true
    · rw [rxResult, tested_eq hbatch hready]
      by_cases hsane : Sane memory.region.response
      · by_cases hqueued : memory.region.response.queued = []
        · simp only [not_true, if_false, hsane, hqueued, if_true]
          exact returns_empty hbatch hready hqueued
        · simp only [not_true, if_false, hsane, hqueued]
          exact returns_received hbatch hready hcopies hcount hsane hqueued
      · simp only [hsane, not_false_eq_true, if_true]
        exact returns_corrupt hbatch hready hsane
    · rw [returns_loop_rx, rxResult, tested, if_neg hstale, if_neg hready, tested, if_neg hstale,
        if_neg hready]
      rfl

/-- The call is at the tests that it makes again after each wait. -/
def PollingRx (memory : Memory) : RxPc → Prop
  | .stale _ | .ready _ _ | .readProducer _ | .wait => True
  | .readConsumer _ producer => producer = memory.region.response.producer
  | _ => False

/-- On a ring that stays empty a call takes nothing. -/
theorem untouched_of_empty {pc : RxPc} (h : Returns (rxAccess call answer) pc memory r)
    (hqueued : memory.region.response.queued = []) (hpc : PollingRx memory pc) :
    r.1 ≠ .ok ∧ r.1 ≠ .eproto ∧ r.2 = memory := by
  have hzero : (memory.region.response.producer - memory.region.response.consumer).toNat = 0 := by
    rw [← Ring.length_queued, hqueued, List.length_nil]
  have hread : readOccupancy memory.region.response.producer memory.region.response.consumer =
      some (memory.region.response.producer - memory.region.response.consumer) :=
    readOccupancy_eq (by omega)
  have hnone : ¬ 0 < (memory.region.response.producer - memory.region.response.consumer).toNat := by
    omega
  induction h with
  | @returned pc s s' value hstep =>
      cases pc with
      | stale expired =>
          simp only [rxAccess, Driver.rxStep] at hstep
          split_ifs at hstep <;> cases hstep
          exact ⟨by rintro ⟨⟩, by rintro ⟨⟩, rfl⟩
      | ready expired pc =>
          simp only [rxAccess, Driver.rxStep] at hstep
          split at hstep <;> cases hstep
          exact ⟨by rintro ⟨⟩, by rintro ⟨⟩, rfl⟩
      | readConsumer expired producer =>
          simp only [rxAccess, Driver.rxStep, show producer = _ from hpc, hread,
            if_neg hnone] at hstep
          split_ifs at hstep <;> cases hstep
          unfold outOfTime
          split_ifs <;> exact ⟨by rintro ⟨⟩, by rintro ⟨⟩, rfl⟩
      | wait =>
          simp only [rxAccess, Driver.rxStep, waitEnd] at hstep
          split_ifs at hstep <;> cases hstep
          exact ⟨by rintro ⟨⟩, by rintro ⟨⟩, rfl⟩
      | readProducer => cases hstep
      | _ => exact hpc.elim
  | @running pc pc' s s' r hstep hrest ih =>
      cases pc with
      | stale expired =>
          simp only [rxAccess, Driver.rxStep] at hstep
          split_ifs at hstep <;> cases hstep
          exact ih hqueued trivial hzero hread hnone
      | ready expired pc =>
          simp only [rxAccess, Driver.rxStep] at hstep
          split at hstep <;> cases hstep <;> exact ih hqueued trivial hzero hread hnone
      | readProducer =>
          cases hstep
          exact ih hqueued rfl hzero hread hnone
      | readConsumer expired producer =>
          simp only [rxAccess, Driver.rxStep, show producer = _ from hpc, hread,
            if_neg hnone] at hstep
          split_ifs at hstep <;> cases hstep
          exact ih hqueued trivial hzero hread hnone
      | wait =>
          simp only [rxAccess, Driver.rxStep, waitEnd] at hstep
          split_ifs at hstep <;> cases hstep
          apply ih hqueued ?_ hzero hread hnone
          unfold RxCall.loop
          split_ifs <;> trivial
      | _ => exact hpc.elim

end Alone

/-! ## What a call takes -/

/-- What a call that does not wait returns, copies to the user and leaves, when it looks for
up to `count` responses and stops at one that is not accepted. -/
def drained (accepts : Slot → Bool) (count : ℕ) (region : Region) : Errno × List Slot × Region :=
  if count = 0 then (.ok, [], region)
  else if ¬ Sane region.response then (.eproto, [], region)
  else if region.response.queued = [] then (.eagain, [], region)
  else if taken accepts count region = [] then
    (.eproto, [], region.consume 1)
  else (.ok, taken accepts count region, region.consume (taken accepts count region).length)

/-- The return value, the messages copied to the user and the region. -/
def seen (r : Errno × Memory) : Errno × List Slot × Region := (r.1, r.2.copied, r.2.region)

/-- The state in which calls look for responses. -/
structure Receivable (file : File) (transport : Transport) (region : Region) : Prop where
  owner : isOwner transport file = true
  ready : ready transport region = true

theorem received_eq {call : RxCall} {answer : RxPc → Answer} {transport : Transport}
    {region : Region} (hcount : call.count ≠ 0) (hsane : Sane region.response)
    (hqueued : region.response.queued ≠ []) :
    seen (received call answer ⟨transport, region, []⟩) =
      drained (¬ call.rejects ·) call.count region := by
  unfold received drained
  rw [if_neg hcount, if_neg (not_not.mpr hsane), if_neg hqueued]
  by_cases hnone : accepted call region = []
  · rw [if_pos hnone, if_pos hnone]
    rfl
  · rw [if_neg hnone, if_neg hnone]
    rfl

theorem Receivable.consume {file : File} {transport : Transport} {region : Region}
    (h : Receivable file transport region) (busy : Bool) (n : ℕ) (copied : List Slot) :
    Receivable file ((⟨transport, region, copied⟩ : Memory).consume busy n).transport
      ((⟨transport, region, copied⟩ : Memory).consume busy n).region := by
  have hkicked : Kicked transport
      ((⟨transport, region, copied⟩ : Memory).consume busy n).transport := by
    simp only [Memory.consume]
    split_ifs
    · exact kicked_kick busy transport
    · exact Kicked.refl transport
  refine ⟨?_, ?_⟩
  · rw [← h.owner]
    unfold isOwner
    rw [hkicked.channel.shuttingDown, hkicked.channel.owner]
  · rw [← h.ready]
    exact ready_congr hkicked.channel rfl rfl rfl

/-! ## RECEIVEs -/

/-- Nonblocking RECEIVEs, up to `count` of them, stopping before the first that fails when
one has succeeded. -/
inductive ReceiveLoop (file : File) : ℕ → Transport → Region → Errno × Memory → Prop
  | done {transport : Transport} {region : Region} :
      ReceiveLoop file 0 transport region (.ok, ⟨transport, region, []⟩)
  | failed {count : ℕ} {buffer : Slot} {call : RxCall} {pc : RxPc} {answer : RxPc → Answer}
      {transport : Transport} {region : Region} {ret : Errno} {memory : Memory} :
      receive transport file (some ⟨0#32, buffer⟩) = .ok (call, pc) → CopiesSucceed answer →
      Returns (rxAccess call answer) pc ⟨transport, region, []⟩ (ret, memory) → ret ≠ .ok →
      ReceiveLoop file (count + 1) transport region (ret, memory)
  | next {count : ℕ} {buffer : Slot} {call : RxCall} {pc : RxPc} {answer : RxPc → Answer}
      {transport : Transport} {region : Region} {ret : Errno} {memory later : Memory} :
      receive transport file (some ⟨0#32, buffer⟩) = .ok (call, pc) → CopiesSucceed answer →
      Returns (rxAccess call answer) pc ⟨transport, region, []⟩ (.ok, memory) →
      ReceiveLoop file count memory.transport memory.region (ret, later) →
      ReceiveLoop file (count + 1) transport region
        (.ok, if ret = .ok then { later with copied := memory.copied ++ later.copied } else memory)

theorem receive_entered {file : File} {transport : Transport} {buffer : Slot}
    (howner : isOwner transport file = true) :
    receive transport file (some ⟨0#32, buffer⟩) =
      .ok (receiveMessage true, (receiveMessage true).loop true) := by
  simp only [receive, if_pos howner, decide_true]
  rfl

theorem receiveMessage_generation {noWait : Bool} (generation : U32) :
    (receiveMessage noWait).batchGeneration.isSome = true →
      (receiveMessage noWait).batchGeneration = some generation := nofun

/-- `length <= SG2002_RTOS_SHM_PAYLOAD_SIZE`, all that `receive_message` tests. -/
def fits (message : Slot) : Bool := decide message.Fits

theorem receiveMessage_rejects {noWait : Bool} :
    (fun message => decide (¬ (receiveMessage noWait).rejects message)) = fits := by
  funext message
  apply decide_eq_decide.mpr
  simp [RxCall.rejects, receiveMessage]

theorem returns_receive_iff {answer : RxPc → Answer} {file : File} {transport : Transport}
    {region : Region} (h : Receivable file transport region) (hcopies : CopiesSucceed answer)
    (r : Errno × Memory) :
    Returns (rxAccess (receiveMessage true) answer) ((receiveMessage true).loop true)
        ⟨transport, region, []⟩ r ↔
      r = if ¬ Sane region.response then (.eproto, ⟨transport, region, []⟩)
        else if region.response.queued = [] then (.eagain, ⟨transport, region, []⟩)
        else received (receiveMessage true) answer ⟨transport, region, []⟩ := by
  by_cases hsane : Sane region.response
  · rw [if_neg (not_not.mpr hsane)]
    by_cases hqueued : region.response.queued = []
    · rw [if_pos hqueued]
      exact returns_empty (receiveMessage_generation _) h.ready hqueued
    · rw [if_neg hqueued]
      exact returns_received (receiveMessage_generation _) h.ready hcopies Nat.one_ne_zero hsane
        hqueued
  · rw [if_pos hsane]
    exact returns_corrupt (receiveMessage_generation _) h.ready hsane

theorem seen_receive {answer : RxPc → Answer} {file : File} {transport : Transport}
    {region : Region} {r : Errno × Memory} (h : Receivable file transport region)
    (hcopies : CopiesSucceed answer)
    (hreturns : Returns (rxAccess (receiveMessage true) answer) ((receiveMessage true).loop true)
      ⟨transport, region, []⟩ r) :
    seen r = drained fits 1 region ∧
      (r.1 = .ok → Receivable file r.2.transport r.2.region) := by
  rw [returns_receive_iff h hcopies] at hreturns
  rw [hreturns]
  by_cases hsane : Sane region.response
  · rw [if_neg (not_not.mpr hsane)]
    by_cases hqueued : region.response.queued = []
    · rw [if_pos hqueued]
      refine ⟨?_, nofun⟩
      unfold drained
      rw [if_neg Nat.one_ne_zero, if_neg (not_not.mpr hsane), if_pos hqueued]
      rfl
    · rw [if_neg hqueued]
      refine ⟨?_, ?_⟩
      · rw [received_eq Nat.one_ne_zero hsane hqueued, receiveMessage_rejects]
        rfl
      · intro _
        unfold received
        split_ifs
        · exact h.consume _ _ _
        · exact h.consume _ _ _
  · rw [if_pos hsane]
    refine ⟨?_, nofun⟩
    unfold drained
    rw [if_neg Nat.one_ne_zero, if_pos hsane]
    rfl

section Loop

variable {accepts : Slot → Bool} {count : ℕ} {region : Region} {message : Slot} {rest : List Slot}

theorem drained_found (hcount : count ≠ 0) (hsane : Sane region.response)
    (hqueued : region.response.queued ≠ []) (htaken : taken accepts count region ≠ []) :
    drained accepts count region =
      (.ok, taken accepts count region, region.consume (taken accepts count region).length) := by
  unfold drained
  rw [if_neg hcount, if_neg (not_not.mpr hsane), if_neg hqueued, if_neg htaken]

theorem queued_tail (hqueued : region.response.queued = message :: rest) :
    (region.response.consume 1).queued = rest := by
  have hlength : region.response.queued.length = rest.length + 1 := by
    rw [hqueued, List.length_cons]
  rw [Ring.queued_consume _ (by omega), hqueued]
  rfl

theorem Sane.tail (hsane : Sane region.response)
    (hqueued : region.response.queued = message :: rest) :
    Sane (region.response.consume 1) := by
  have hcount := Ring.length_queued (region.response.consume 1)
  have hlength := Ring.length_queued region.response
  rw [queued_tail hqueued] at hcount
  rw [hqueued, List.length_cons] at hlength
  unfold Sane at hsane ⊢
  omega

/-- The first response and then the others. -/
theorem drained_succ (hsane : Sane region.response)
    (hqueued : region.response.queued = message :: rest) (haccepts : accepts message = true) :
    drained accepts (count + 1) region =
      if (drained accepts count (region.consume 1)).1 = .ok then
        (.ok, message :: (drained accepts count (region.consume 1)).2.1,
          (drained accepts count (region.consume 1)).2.2)
      else (.ok, [message], region.consume 1) := by
  have hrest := queued_tail hqueued
  have htaken : taken accepts (count + 1) region =
      message :: taken accepts count (region.consume 1) := by
    unfold taken
    rw [hqueued, List.take_succ_cons, List.takeWhile_cons_of_pos haccepts, Region.consume, hrest]
  have hhead : drained accepts (count + 1) region =
      (.ok, message :: taken accepts count (region.consume 1),
        region.consume ((taken accepts count (region.consume 1)).length + 1)) := by
    rw [drained_found (Nat.succ_ne_zero _) hsane (by rw [hqueued]; exact List.cons_ne_nil _ _)
      (by rw [htaken]; exact List.cons_ne_nil _ _), htaken, List.length_cons]
  rw [hhead]
  by_cases hlater : taken accepts count (region.consume 1) = []
  · have hstop : (drained accepts count (region.consume 1)).1 = .ok →
        drained accepts count (region.consume 1) = (.ok, [], region.consume 1) := by
      unfold drained
      rw [if_pos hlater]
      split_ifs <;> intro h <;> first | rfl | cases h
    rw [hlater]
    split_ifs with hok
    · rw [hstop hok]
      rfl
    · rfl
  · have hcount : count ≠ 0 := by
      rintro rfl
      exact hlater rfl
    have hne : (region.consume 1).response.queued ≠ [] := by
      intro hnil
      apply hlater
      unfold taken
      rw [hnil, List.take_nil, List.takeWhile_nil]
    have hsane' : Sane (region.consume 1).response := hsane.tail hqueued
    rw [drained_found hcount hsane' hne hlater, if_pos rfl]
    simp only [Region.consume_consume, Nat.add_comm 1]

/-- A first response that is not accepted ends the calls. -/
theorem drained_failed (hret : (drained accepts 1 region).1 ≠ .ok) :
    drained accepts (count + 1) region = drained accepts 1 region := by
  have htaken : taken accepts (count + 1) region = [] ↔ taken accepts 1 region = [] := by
    unfold taken
    cases region.response.queued with
    | nil => simp
    | cons message rest => by_cases h : accepts message = true <;> simp [h]
  unfold drained at hret ⊢
  rw [if_neg Nat.one_ne_zero] at hret ⊢
  rw [if_neg (Nat.succ_ne_zero _)]
  by_cases hsane : Sane region.response
  · rw [if_neg (not_not.mpr hsane)] at hret ⊢
    rw [if_neg (not_not.mpr hsane)]
    by_cases hqueued : region.response.queued = []
    · rw [if_pos hqueued, if_pos hqueued]
    · rw [if_neg hqueued] at hret ⊢
      rw [if_neg hqueued]
      by_cases hnone : taken accepts 1 region = []
      · rw [if_pos hnone, if_pos (htaken.mpr hnone)]
      · rw [if_neg hnone] at hret
        exact absurd rfl hret
  · rw [if_pos hsane, if_pos hsane]

/-- A first response that is accepted is the first in the queue. -/
theorem drained_one (hret : (drained accepts 1 region).1 = .ok) :
    ∃ message rest, Sane region.response ∧ region.response.queued = message :: rest ∧
      accepts message = true ∧ drained accepts 1 region = (.ok, [message], region.consume 1) := by
  unfold drained at hret ⊢
  rw [if_neg Nat.one_ne_zero] at hret ⊢
  by_cases hsane : Sane region.response
  · rw [if_neg (not_not.mpr hsane)] at hret ⊢
    rcases hqueued : region.response.queued with - | ⟨message, rest⟩
    · rw [if_pos hqueued] at hret
      cases hret
    · rw [if_neg (by rw [hqueued]; exact List.cons_ne_nil _ _)] at hret
      have htaken : taken accepts 1 region = [message].takeWhile accepts := by
        unfold taken
        rw [hqueued]
        rfl
      by_cases haccepts : accepts message = true
      · rw [htaken, List.takeWhile_cons_of_pos haccepts]
        exact ⟨message, rest, hsane, rfl, haccepts, by simp⟩
      · rw [htaken, List.takeWhile_cons_of_neg haccepts] at hret
        cases hret
  · rw [if_pos hsane] at hret
    cases hret

theorem receiveLoop_eq {file : File} {transport : Transport} {r : Errno × Memory}
    (h : ReceiveLoop file count transport region r)
    (hreceivable : Receivable file transport region) : seen r = drained fits count region := by
  induction h with
  | done => rfl
  | @failed count buffer call pc answer transport region ret memory hreceive hcopies hreturns
      hret =>
      rw [receive_entered hreceivable.owner] at hreceive
      cases hreceive
      obtain ⟨hseen, -⟩ := seen_receive hreceivable hcopies hreturns
      rw [hseen]
      apply (drained_failed _).symm
      rw [← hseen]
      exact hret
  | @next count buffer call pc answer transport region ret memory later hreceive hcopies hreturns
      _ ih =>
      rw [receive_entered hreceivable.owner] at hreceive
      cases hreceive
      obtain ⟨hseen, hnext⟩ := seen_receive hreceivable hcopies hreturns
      have hlater := ih (hnext rfl)
      obtain ⟨message, rest, hsane, hqueued, hfits, hone⟩ :=
        drained_one (congrArg Prod.fst hseen).symm
      rw [hone] at hseen
      obtain ⟨hcopied, hregion⟩ := Prod.mk.inj (congrArg Prod.snd hseen)
      change memory.region = _ at hregion
      change memory.copied = _ at hcopied
      rw [hregion] at hlater
      rw [drained_succ hsane hqueued hfits, ← hlater]
      change seen _ = if ret = .ok then _ else _
      split_ifs with hok
      · simp only [seen, hcopied, List.singleton_append]
      · simp only [seen, hcopied, hregion]

end Loop

theorem exists_receiveLoop {file : File} {count : ℕ} {transport : Transport} {region : Region}
    (h : Receivable file transport region) :
    ∃ r, ReceiveLoop file count transport region r := by
  induction count generalizing transport region with
  | zero => exact ⟨_, .done⟩
  | succ count ih =>
      have hcopies : CopiesSucceed fun _ => .done := fun _ _ => nofun
      obtain ⟨⟨ret, memory⟩, hreturns⟩ : ∃ r, Returns
          (rxAccess (receiveMessage true) fun _ => .done) ((receiveMessage true).loop true)
          ⟨transport, region, []⟩ r :=
        ⟨_, (returns_receive_iff h hcopies _).mpr rfl⟩
      have hreceive := @receive_entered file transport default h.owner
      by_cases hret : ret = .ok
      · subst hret
        obtain ⟨⟨ret, later⟩, hlater⟩ := ih ((seen_receive h hcopies hreturns).2 rfl)
        exact ⟨_, .next hreceive hcopies hreturns hlater⟩
      · exact ⟨_, .failed hreceive hcopies hreturns hret⟩

/-! ## The batch -/

/-- A REAP and RECEIVEs that find the same ring. -/
structure Agree (region : Region) (reaped received : Errno × Memory) : Prop where
  messages : reaped.2.copied = received.2.copied
  left : reaped.2.region = received.2.region
  ok : reaped.1 = .ok ↔ received.1 = .ok
  rejects : reaped.1 = .eproto ↔ received.1 = .eproto
  consumed : Sane region.response → reaped.1 = .eproto → reaped.2.region = region.consume 1

/-- REAP_BATCH is RECEIVEs, and neither of them consumes what it does not deliver or reject. -/
structure ReapAgrees (file : File) (batch : Batch) (transport : Transport) (region : Region) :
    Prop where
  agree : ∀ call pc expired answer reaped received,
    reap transport file (some batch) = .ok (call, pc) → CopiesSucceed answer →
    Returns (rxAccess call answer) (call.loop expired) ⟨transport, region, []⟩ reaped →
    ReceiveLoop file batch.count.toNat transport region received → Agree region reaped received
  undone : ∀ call pc visits ret,
    (reap transport file (some batch) = .ok (call, pc) ∨
      ∃ argument, receive transport file argument = .ok (call, pc)) →
    rxInterrupted call pc visits ret → ret ≠ .ok → ret ≠ .eproto →
      ∀ visit ∈ visits, visit.2.region = visit.1.region

theorem consuming_loop (call : RxCall) (expired : Bool) : consuming (call.loop expired) = none := by
  unfold RxCall.loop
  split_ifs <;> rfl

theorem reap_entered {transport : Transport} {file : File} {batch : Batch} {call : RxCall}
    {pc : RxPc} (h : reap transport file (some batch) = .ok (call, pc)) :
    isOwner transport file = true ∧
      call = reapBatch batch.generation batch.count.toNat (batch.timeoutMs = 0#32) ∧
      batch.count.toNat ≠ 0 ∧ pc = call.loop call.noWait := by
  unfold reap at h
  split_ifs at h with howner
  split at h
  · cases h
  · next copied hcopy =>
      have hsame : copied = batch := by
        simp only [copyBatchFromUser] at hcopy
        split_ifs at hcopy
        exact (Except.ok.inj hcopy).symm
      subst hsame
      obtain ⟨rfl, henter⟩ := entered_ok h
      obtain ⟨hcount, hpc⟩ := RxCall.accepted_of_enter henter
      exact ⟨howner, rfl, Nat.ne_of_gt hcount, hpc⟩

theorem receive_loop {transport : Transport} {file : File} {argument : UserCopy Transfer}
    {call : RxCall} {pc : RxPc} (h : receive transport file argument = .ok (call, pc)) :
    pc = call.loop call.noWait := by
  unfold receive at h
  split_ifs at h with howner
  split at h
  · cases h
  · obtain ⟨rfl, henter⟩ := entered_ok h
    exact (RxCall.accepted_of_enter henter).2

/-- What a REAP on a ring that is not empty comes to. -/
theorem seen_reap {call : RxCall} {answer : RxPc → Answer} {expired : Bool} {transport : Transport}
    {region : Region} {r : Errno × Memory}
    (hbatch : call.batchGeneration.isSome = true →
      call.batchGeneration = some transport.generation)
    (hready : ready transport region = true) (hcount : call.count ≠ 0)
    (hcopies : CopiesSucceed answer)
    (hreturns : Returns (rxAccess call answer) (call.loop expired) ⟨transport, region, []⟩ r)
    (hqueued : Sane region.response → region.response.queued ≠ []) :
    seen r = drained (¬ call.rejects ·) call.count region := by
  by_cases hsane : Sane region.response
  · have hr := (@returns_received call answer ⟨transport, region, []⟩ r expired hbatch hready hcopies
      hcount hsane (hqueued hsane)).mp hreturns
    rw [hr, received_eq hcount hsane (hqueued hsane)]
  · have hr := (@returns_corrupt call answer ⟨transport, region, []⟩ r expired hbatch hready
      hsane).mp hreturns
    rw [hr]
    unfold drained
    rw [if_neg hcount, if_pos hsane]
    rfl

theorem drained_eproto {accepts : Slot → Bool} {count : ℕ} {region : Region}
    (hsane : Sane region.response) (h : (drained accepts count region).1 = .eproto) :
    (drained accepts count region).2.2 = region.consume 1 := by
  unfold drained at h ⊢
  rw [if_neg (not_not.mpr hsane)] at h ⊢
  split_ifs at h ⊢
  rfl

/-- A response that REAP_BATCH delivers. -/
def sound (message : Slot) : Bool := fits message && message.sequence ≠ 0#32

theorem reapBatch_rejects {generation : U32} {count : ℕ} {noWait : Bool} :
    (fun message => decide (¬ (reapBatch generation count noWait).rejects message)) = sound := by
  funext message
  rw [sound, fits, ← Bool.decide_and]
  apply decide_eq_decide.mpr
  simp [RxCall.rejects, reapBatch]

/-- The responses that RECEIVEs deliver are all delivered by a REAP. -/
theorem taken_sound_iff {count : ℕ} {region : Region} :
    taken sound count region = taken fits count region ↔
      ∀ message ∈ taken fits count region, message.sequence ≠ 0#32 := by
  have hsplit : taken sound count region =
      (taken fits count region).takeWhile fun message => decide (message.sequence ≠ 0#32) := by
    unfold taken
    rw [List.takeWhile_takeWhile]
    congr 1
    funext message
    simp [sound, Bool.and_comm]
  rw [hsplit, List.takeWhile_eq_self_iff]
  simp only [decide_eq_true_eq]

theorem drained_copied {accepts : Slot → Bool} {count : ℕ} {region : Region}
    (hsane : Sane region.response) :
    (drained accepts count region).2.1 = taken accepts count region := by
  unfold drained
  rw [if_neg (not_not.mpr hsane)]
  split_ifs with hcount hqueued hnone
  · rw [taken, hcount]
    rfl
  · rw [taken, hqueued, List.take_nil]
    rfl
  · exact hnone.symm
  · rfl

theorem Agree.of_seen {region : Region} {reaped received : Errno × Memory}
    {accepts : Slot → Bool} {count : ℕ} (h : seen reaped = seen received)
    (hreaped : seen reaped = drained accepts count region) : Agree region reaped received := by
  obtain ⟨hret, hleft⟩ := Prod.mk.inj h
  obtain ⟨hcopied, hregion⟩ := Prod.mk.inj hleft
  refine ⟨hcopied, hregion, ?_, ?_, ?_⟩
  · rw [hret]
  · rw [hret]
  · intro hsane hproto
    have hdrained : (drained accepts count region).1 = .eproto := by
      rw [← hreaped]
      exact hproto
    have hconsumed := drained_eproto hsane hdrained
    rw [← hreaped] at hconsumed
    exact hconsumed

theorem reap_eq {transport : Transport} {file : File} {batch : Batch}
    (howner : isOwner transport file = true)
    (hbatch : copyBatchFromUser (some batch) = .ok batch) :
    ∃ call pc, reap transport file (some batch) = .ok (call, pc) := by
  simp only [copyBatchFromUser] at hbatch
  split_ifs at hbatch with hinvalid
  have hcount : ¬ (batch.count.toNat = 0 ∨ slotCount < batch.count.toNat) := by
    rintro (hzero | hlarge)
    · exact hinvalid (.inr (.inl (BitVec.eq_of_toNat_eq hzero)))
    · exact hinvalid (.inr (.inr (.inl hlarge)))
  simp only [reap, if_pos howner, copyBatchFromUser, if_neg hinvalid]
  unfold RxCall.enter reapBatch
  rw [if_neg hcount]
  exact ⟨_, _, rfl⟩

theorem polling_loop (memory : Memory) (call : RxCall) (expired : Bool) :
    PollingRx memory (call.loop expired) := by
  unfold RxCall.loop
  split_ifs <;> trivial

theorem exists_reaped {call : RxCall} {answer : RxPc → Answer} {expired : Bool} {memory : Memory}
    (hbatch : call.batchGeneration = some memory.transport.generation)
    (hready : ready memory.transport memory.region = true) (hcopies : CopiesSucceed answer)
    (hcount : call.count ≠ 0) (hsane : Sane memory.region.response)
    (hqueued : memory.region.response.queued ≠ []) :
    ∃ r, Returns (rxAccess call answer) (call.loop expired) memory r :=
  ⟨_, (returns_received (fun _ => hbatch) hready hcopies hcount hsane hqueued).mpr rfl⟩

section Batch

variable {transport : Transport} {region : Region} {file : File} {batch : Batch}

/-- Where REAP_BATCH and RECEIVEs agree, no response that is delivered has sequence zero. -/
theorem ReapAgrees.sequence_ne_zero (hagrees : ReapAgrees file batch transport region)
    (howner : isOwner transport file = true) (hready : ready transport region = true)
    (hbatch : copyBatchFromUser (some batch) = .ok batch)
    (hgeneration : batch.generation = transport.generation) (hsane : Sane region.response) :
    ∀ message ∈ taken fits batch.count.toNat region, message.sequence ≠ 0#32 := by
  intro message hmessage
  have hreceivable : Receivable file transport region := ⟨howner, hready⟩
  have hnamed : ∀ noWait, (reapBatch batch.generation batch.count.toNat noWait).batchGeneration =
      some transport.generation := fun _ => congrArg some hgeneration
  have hqueued : region.response.queued ≠ [] := by
    intro hnil
    rw [taken, hnil, List.take_nil] at hmessage
    cases hmessage
  obtain ⟨call, pc, hreap⟩ := reap_eq howner hbatch
  obtain ⟨-, rfl, hcount, rfl⟩ := reap_entered hreap
  have hcopies : CopiesSucceed fun _ => .done := fun _ _ => nofun
  obtain ⟨reaped, hreturns⟩ := @exists_reaped _ _ true ⟨transport, region, []⟩ (hnamed _) hready
    hcopies hcount hsane hqueued
  obtain ⟨received, hloop⟩ := exists_receiveLoop hreceivable
  have hagree := hagrees.agree _ _ true _ _ _ hreap hcopies hreturns hloop
  have hreaped := seen_reap (fun _ => hnamed _) hready hcount hcopies hreturns fun _ => hqueued
  have hreceived := receiveLoop_eq hloop hreceivable
  rw [reapBatch_rejects] at hreaped
  have hsame : taken sound batch.count.toNat region = taken fits batch.count.toNat region := by
    rw [← drained_copied hsane, ← drained_copied hsane, ← hreceived]
    exact (congrArg (fun result => result.2.1) hreaped).symm.trans hagree.messages
  exact taken_sound_iff.mp hsame message hmessage

theorem reapAgrees_of_sequence_ne_zero (howner : isOwner transport file = true)
    (hready : ready transport region = true)
    (hgeneration : batch.generation = transport.generation)
    (hsequence : Sane region.response →
      ∀ message ∈ taken fits batch.count.toNat region, message.sequence ≠ 0#32) :
    ReapAgrees file batch transport region where
  agree := by
    intro call pc expired answer reaped received hreap hcopies hreturns hloop
    obtain ⟨-, rfl, hcount, rfl⟩ := reap_entered hreap
    have hreceived := receiveLoop_eq hloop ⟨howner, hready⟩
    by_cases hempty : Sane region.response ∧ region.response.queued = []
    · obtain ⟨hsane, hqueued⟩ := hempty
      obtain ⟨hok, hproto, hleft⟩ := untouched_of_empty hreturns hqueued (polling_loop _ _ _)
      have heagain : drained fits batch.count.toNat region = (.eagain, [], region) := by
        unfold drained
        rw [if_neg hcount, if_neg (not_not.mpr hsane), if_pos hqueued]
      rw [heagain] at hreceived
      obtain ⟨hret, hrest⟩ := Prod.mk.inj hreceived
      obtain ⟨hcopied, hregion⟩ := Prod.mk.inj hrest
      refine ⟨?_, ?_, ?_, ?_, ?_⟩
      · rw [hleft, hcopied]
      · rw [hleft, hregion]
      · rw [hret]
        exact ⟨fun h => absurd h hok, nofun⟩
      · rw [hret]
        exact ⟨fun h => absurd h hproto, nofun⟩
      · exact fun _ h => absurd h hproto
    · have hreaped := seen_reap (fun _ => congrArg some hgeneration) hready hcount hcopies hreturns
        fun hsane hqueued => hempty ⟨hsane, hqueued⟩
      rw [reapBatch_rejects] at hreaped
      have hsame : drained sound batch.count.toNat region =
          drained fits batch.count.toNat region := by
        unfold drained
        by_cases hsane : Sane region.response
        · rw [taken_sound_iff.mpr (hsequence hsane)]
        · rw [if_pos hsane, if_pos hsane]
      exact .of_seen (hreaped.trans (hsame.trans hreceived.symm)) hreaped
  undone := by
    intro call pc visits ret hentered hinterrupted hok hproto
    have hpc : pc = call.loop call.noWait := by
      rcases hentered with hreap | ⟨argument, hreceive⟩
      · exact (reap_entered hreap).2.2.2
      · exact receive_loop hreceive
    subst hpc
    exact region_of_undone hinterrupted (consuming_loop _ _) hok hproto

/-- REAP_BATCH takes what RECEIVEs take exactly where no response that they deliver has
sequence zero: `receive_message` does not test for it. -/
theorem reap_batch_agrees_iff (howner : isOwner transport file = true)
    (hready : ready transport region = true)
    (hbatch : copyBatchFromUser (some batch) = .ok batch)
    (hgeneration : batch.generation = transport.generation) :
    ReapAgrees file batch transport region ↔
      (Sane region.response →
        ∀ message ∈ taken fits batch.count.toNat region, message.sequence ≠ 0#32) :=
  ⟨fun hagrees => hagrees.sequence_ne_zero howner hready hbatch hgeneration,
    reapAgrees_of_sequence_ne_zero howner hready hgeneration⟩

end Batch

/-- A ring that holds one response of no request. -/
def unrequested : Ring := ⟨1#32, 0#32, fun _ => ⟨0#32, 4#16, Vector.replicate payloadSize 0#8⟩⟩

/-- `sg2002_rtos_message_reap_batch` of one response. -/
def reapOne : Batch := ⟨1#64, 0#32, 1#32, 1#16, 0#32, (0#32, 0#32)⟩

/-- The other ring holds nothing. -/
def emptyRing : Ring := ⟨0#32, 0#32, fun _ => Slot.zero⟩

theorem reap_batch_agrees_iff_empty :
    ReapAgrees 0 reapOne (acquired 0 1#32 1#32) (established 1#32 emptyRing emptyRing) ↔
      (Sane emptyRing →
        ∀ message ∈ taken fits 1 (established 1#32 emptyRing emptyRing), message.sequence ≠ 0#32) :=
  reap_batch_agrees_iff rfl (ready_established (by decide)) rfl rfl

/-- RECEIVE delivers the response that REAP_BATCH rejects. -/
theorem reap_batch_disagrees :
    ¬ ReapAgrees 0 reapOne (acquired 0 1#32 1#32) (established 1#32 emptyRing unrequested) := by
  intro hagrees
  have hsequence := hagrees.sequence_ne_zero rfl (ready_established (by decide)) rfl rfl
    (show Sane unrequested by decide)
  exact hsequence _ List.mem_cons_self rfl

end Ioctl

end Sg200x.Ipc
