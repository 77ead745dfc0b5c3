import Sg200x.Ipc.Client
import Sg200x.Ipc.Timeout

/-!
# The counter behind `pending`

`retain_pending` and `remove_pending` change the array and the eventfd one after the other,
under `rx_lock`, while any number of threads poll the eventfd without it.  The ioctls, the
clock and the polls of the holder may come to anything; a thread between two turns with the
lock has no part in the state.
-/

namespace Sg200x.Ipc.Wakeup

open Shm Library.Transition
open Client (Retained)
open Timeout (PollEvents PollResult Ready WaitPc waitStep pollin again eagain eproto emsgsize enobufs)

/-! ## The eventfd -/

/-- The counter of an eventfd does not reach 2^64 - 1. -/
def eventfdMax : ℕ := 2 ^ 64 - 2

/-- A write of 1 that does not block. -/
def eventfdWrite (counter : ℕ) : Except ℤ ℕ :=
  if counter < eventfdMax then .ok (counter + 1) else .error (-eagain)

/-- A read of a semaphore that does not block: it takes 1. -/
def eventfdRead (counter : ℕ) : Except ℤ ℕ :=
  if counter = 0 then .error (-eagain) else .ok (counter - 1)

/-- What a poll for `POLLIN` reports. -/
def eventfdRevents (counter : ℕ) : PollEvents := if 0 < counter then pollin else 0#16

/-- A result of the `poll` of `sg2002_rtos_wait`, with the `revents` of the device. -/
inductive Polled (counter : ℕ) (device : PollEvents) : PollResult → Prop
  | failed (error : Timeout.PollError) : Polled counter device (.failed error)
  | timedOut (hdevice : device = 0#16) (hpending : eventfdRevents counter = 0#16) :
      Polled counter device .timedOut
  | ready (events : Ready) (hdevice : events.device = device)
      (hpending : events.pending = eventfdRevents counter) : Polled counter device (.ready events)

/-! ## The holder of `rx_lock` -/

inductive Call
  | receive (responseCapacity : ℕ)
  | reap (count : ℕ)
  | call

/-- Who has called `retain_pending`. -/
inductive Retain
  | receive
  | drain
  | matching (sequence : U32)

/-- Who has called `remove_pending`. -/
inductive Remove
  | receive
  | reap (count index : ℕ)
  | take

inductive Pc
  | receive (responseCapacity : ℕ)
  /-- The first loop of `reap_batch_locked`, and what follows it. -/
  | reapPending (count index : ℕ)
  | reapKernel
  -- `sg2002_rtos_message_call`, the first loop
  | send
  | drain
  -- and the second
  | takePending (sequence : U32)
  | matching (sequence : U32)
  | deadline (sequence : U32)
  | wait (sequence : U32)
  /-- In `pending_event_signal`. -/
  | signal (caller : Retain)
  /-- In `pending_event_consume`. -/
  | consume (caller : Remove)

structure State where
  retained : Retained Slot
  rx : Option Pc
  /-- What `remove_pending` has returned. -/
  removals : List ℤ

/-- What a step gets from outside. -/
inductive Input
  /-- `message_send_locked`. -/
  | sent (result : Except ℤ U32)
  /-- `SG2002_RTOS_SHM_RECEIVE`. -/
  | ioctl (result : Except ℤ Slot)
  /-- A test of the deadline, a wait for the kernel, or the calls of `reap_batch_locked`. -/
  | proceed (go : Bool)
  /-- A read or a write of the eventfd; `EINTR` if it is interrupted. -/
  | eventfd (interrupted : Bool)

inductive Label
  | lock (entered : Call)
  | rx (input : Input)

def State.unlock (s : State) : State := { s with rx := none }

def State.goto (s : State) (pc : Pc) : State := { s with rx := some pc }

/-- After `retain_pending`. -/
def State.retainReturns (s : State) (ret : ℤ) : Retain → State
  | .receive | .drain => s.unlock
  | .matching sequence => if ret = 0 then s.goto (.deadline sequence) else s.unlock

/-- After `remove_pending`. -/
def State.removeReturns (s : State) (ret : ℤ) (caller : Remove) : State :=
  let s' := { s with removals := s.removals ++ [ret] }
  match caller with
  | .receive | .take => s'.unlock
  | .reap count index => if ret = 0 then s'.goto (.reapPending count (index + 1)) else s'.unlock

/-- `retain_pending` up to `pending_event_signal`. -/
def retainPending (s : State) (message : Slot) (caller : Retain) : State :=
  if slotCount ≤ s.retained.pending.length then s.retainReturns (-enobufs) caller
  else { s with retained.pending := s.retained.pending ++ [message] }.goto (.signal caller)

/-- The rest of `retain_pending`. -/
def signalStep (s : State) (caller : Retain) : State :=
  match eventfdWrite s.retained.events with
  | .ok events => { s with retained.events := events }.retainReturns 0 caller
  | .error ret =>
      { s with retained.pending := s.retained.pending.dropLast }.retainReturns ret caller

/-- `remove_pending` of an index below the count, up to `pending_event_consume`. -/
def removePending (s : State) (index : ℕ) (caller : Remove) : State :=
  { s with retained.pending := s.retained.pending.eraseIdx index }.goto (.consume caller)

/-- The rest of `remove_pending`. -/
def consumeStep (s : State) (caller : Remove) : State :=
  match eventfdRead s.retained.events with
  | .ok events => { s with retained.events := events }.removeReturns 0 caller
  | .error ret => s.removeReturns (if ret = -eagain then -eproto else ret) caller

/-- `receive_from_kernel_locked`. -/
def receiveFromKernelLocked (result : Except ℤ Slot) : Except ℤ Slot :=
  match result with
  | .ok message =>
      if message.sequence = 0#32 ∨ payloadSize < message.length.toNat then .error (-eproto)
      else .ok message
  | .error ret => .error ret

/-- `copy_message`, to a buffer that is not null unless it is empty. -/
def copyMessage (message : Slot) (responseCapacity : ℕ) : ℤ :=
  if responseCapacity < message.length.toNat then -emsgsize else 0

/-- `sg2002_rtos_message_receive`. -/
def receiveStep (s : State) (input : Input) (responseCapacity : ℕ) : Option State :=
  match s.retained.pending with
  | message :: _ =>
      some (if copyMessage message responseCapacity = -emsgsize then s.unlock
        else removePending s 0 .receive)
  | [] =>
      match input with
      | .ioctl result =>
          match receiveFromKernelLocked result with
          | .ok message =>
              some (if copyMessage message responseCapacity = -emsgsize then
                retainPending s message .receive else s.unlock)
          | .error _ => some s.unlock
      | _ => none

/-- `take_pending_oldest` in `reap_batch_locked`. -/
def reapStep (s : State) (count index : ℕ) : State :=
  if index < count ∧ s.retained.pending ≠ [] then removePending s 0 (.reap count index)
  else if 0 < index then s.unlock
  else s.goto .reapKernel

/-- `take_pending_sequence`. -/
def takeStep (s : State) (sequence : U32) : State :=
  match s.retained.pending.findIdx? fun message => message.sequence = sequence with
  | none => s.goto (.matching sequence)
  | some index => removePending s index .take

def rxStep (s : State) (input : Input) : Pc → Option State
  | .receive responseCapacity => receiveStep s input responseCapacity
  | .reapPending count index => some (reapStep s count index)
  | .reapKernel =>
      match input with
      | .proceed _ => some s.unlock
      | _ => none
  | .send =>
      match input with
      | .sent (.ok sequence) => some (s.goto (.takePending sequence))
      | .sent (.error ret) => some (if again ret then s.goto .drain else s.unlock)
      | _ => none
  | .drain =>
      match input with
      | .ioctl result =>
          match receiveFromKernelLocked result with
          | .ok message => some (retainPending s message .drain)
          | .error _ => some s.unlock
      | _ => none
  | .takePending sequence => some (takeStep s sequence)
  | .matching sequence =>
      match input with
      | .ioctl result =>
          match receiveFromKernelLocked result with
          | .ok message =>
              some (if message.sequence = sequence then s.unlock
                else retainPending s message (.matching sequence))
          | .error ret => some (if again ret then s.goto (.wait sequence) else s.unlock)
      | _ => none
  | .deadline sequence | .wait sequence =>
      match input with
      | .proceed go => some (if go then s.goto (.takePending sequence) else s.unlock)
      | _ => none
  | .signal caller =>
      match input with
      | .eventfd interrupted => some (if interrupted then s else signalStep s caller)
      | _ => none
  | .consume caller =>
      match input with
      | .eventfd interrupted => some (if interrupted then s else consumeStep s caller)
      | _ => none

def Call.pc : Call → Pc
  | .receive responseCapacity => .receive responseCapacity
  | .reap count => .reapPending count 0
  | .call => .send

def step : Label → State → Option State
  | .lock entered, s => if s.rx.isSome then none else some (s.goto entered.pc)
  | .rx input, s => s.rx.bind (rxStep s input)

/-- A handle that has just been opened. -/
def opened : State := ⟨⟨[], 0⟩, none, []⟩

def handle : System State Label := ⟨(· = opened), step⟩

/-! ## The two halves of `retain_pending` and `remove_pending` -/

theorem signalStep_retainPending (s : State) (message : Slot) (caller : Retain)
    (hevents : s.retained.events < eventfdMax) {retained : Retained Slot}
    (hretain : Client.retainPending s.retained message = some retained) :
    signalStep (retainPending s message caller) caller =
      { s with retained := retained }.retainReturns 0 caller := by
  unfold Client.retainPending at hretain
  split_ifs at hretain with hfull
  cases hretain
  have hwrite : eventfdWrite s.retained.events = .ok (s.retained.events + 1) := if_pos hevents
  unfold retainPending signalStep
  simp only [if_neg hfull, State.goto, hwrite]
  cases caller <;> rfl

theorem consumeStep_removePending (s : State) (index : ℕ) (caller : Remove) :
    consumeStep (removePending s index caller) caller =
      { s with retained := (Client.removePending s.retained index).2 }.removeReturns
        (if (Client.removePending s.retained index).1 = Driver.Errno.ok then 0 else -eproto) caller := by
  unfold consumeStep removePending Client.removePending
  by_cases hzero : s.retained.events = 0
  · have hread : eventfdRead s.retained.events = .error (-eagain) := if_pos hzero
    simp only [State.goto, hread, if_pos hzero]
    cases caller <;> rfl
  · have hread : eventfdRead s.retained.events = .ok (s.retained.events - 1) := if_neg hzero
    simp only [State.goto, hread, if_neg hzero]
    cases caller <;> rfl

/-! ## The invariant -/

/-- How far the counter is behind the array or ahead of it. -/
def Counts (retained : Retained Slot) : Option Pc → Prop
  | some (.signal _) => retained.pending.length = retained.events + 1
  | some (.consume _) => retained.events = retained.pending.length + 1
  | _ => retained.events = retained.pending.length

structure Inv (s : State) : Prop where
  counts : Counts s.retained s.rx
  pending : s.retained.pending.length ≤ slotCount
  events : s.retained.events ≤ slotCount
  removals : ∀ ret ∈ s.removals, ret = 0

/-- The array and the counter agree. -/
structure Settled (s : State) : Prop where
  counts : s.retained.events = s.retained.pending.length
  pending : s.retained.pending.length ≤ slotCount
  removals : ∀ ret ∈ s.removals, ret = 0

section Steps

variable {s : State}

theorem Settled.unlock (h : Settled s) : Inv s.unlock :=
  ⟨h.counts, h.pending, h.counts.trans_le h.pending, h.removals⟩

/-- The holder goes on without a change of the array. -/
theorem Settled.goto (h : Settled s) {pc : Pc}
    (hpc : Counts s.retained (some pc) ↔ s.retained.events = s.retained.pending.length) :
    Inv (s.goto pc) :=
  ⟨hpc.mpr h.counts, h.pending, h.counts.trans_le h.pending, h.removals⟩

theorem Settled.retainReturns (h : Settled s) (ret : ℤ) (caller : Retain) :
    Inv (s.retainReturns ret caller) := by
  cases caller with
  | receive => exact h.unlock
  | drain => exact h.unlock
  | matching sequence =>
      unfold State.retainReturns
      split_ifs
      · exact h.goto Iff.rfl
      · exact h.unlock

theorem Settled.retainPending (h : Settled s) (message : Slot) (caller : Retain) :
    Inv (Wakeup.retainPending s message caller) := by
  have hcounts := h.counts
  have hpending := h.pending
  unfold Wakeup.retainPending
  split_ifs with hfull
  · exact h.retainReturns _ caller
  · constructor
    · change (_ ++ [message]).length = s.retained.events + 1
      rw [List.length_append, List.length_singleton, hcounts]
    · change (_ ++ [message]).length ≤ slotCount
      rw [List.length_append, List.length_singleton]
      omega
    · exact hcounts.trans_le hpending
    · exact h.removals

theorem Settled.removePending (h : Settled s) {index : ℕ}
    (hindex : index < s.retained.pending.length) (caller : Remove) :
    Inv (Wakeup.removePending s index caller) := by
  have hcounts := h.counts
  have hpending := h.pending
  have hlength := List.length_eraseIdx_of_lt hindex
  constructor
  · change s.retained.events = (s.retained.pending.eraseIdx index).length + 1
    omega
  · change (s.retained.pending.eraseIdx index).length ≤ slotCount
    omega
  · exact hcounts.trans_le hpending
  · exact h.removals

/-- The write of the eventfd settles `retain_pending`. -/
theorem Inv.signalStep {caller : Retain} (h : Inv s) (hrx : s.rx = some (.signal caller)) :
    Inv (Wakeup.signalStep s caller) := by
  have hcounts := h.counts
  rw [hrx] at hcounts
  have hmax : s.retained.events < eventfdMax :=
    h.events.trans_lt (by decide)
  unfold Wakeup.signalStep eventfdWrite
  rw [if_pos hmax]
  have hsettled : Settled ⟨⟨s.retained.pending, s.retained.events + 1⟩, s.rx, s.removals⟩ :=
    ⟨hcounts.symm, h.pending, h.removals⟩
  exact hsettled.retainReturns 0 caller

/-- The read of the eventfd finds what `remove_pending` takes. -/
theorem Inv.consumeStep {caller : Remove} (h : Inv s) (hrx : s.rx = some (.consume caller)) :
    Inv (Wakeup.consumeStep s caller) := by
  have hcounts : Counts s.retained s.rx := h.counts
  rw [hrx] at hcounts
  change s.retained.events = s.retained.pending.length + 1 at hcounts
  have hremovals : ∀ ret ∈ s.removals ++ [0], ret = 0 := by
    intro ret hmem
    obtain hold | hnew := List.mem_append.mp hmem
    · exact h.removals ret hold
    · exact List.mem_singleton.mp hnew
  have hsettled : Settled ⟨⟨s.retained.pending, s.retained.events - 1⟩, s.rx, s.removals ++ [0]⟩ :=
    ⟨by simp only; omega, h.pending, hremovals⟩
  unfold Wakeup.consumeStep eventfdRead
  rw [if_neg (by omega)]
  cases caller with
  | receive => exact hsettled.unlock
  | take => exact hsettled.unlock
  | reap count index => exact hsettled.goto Iff.rfl

theorem Inv.settled (h : Inv s)
    (hpc : Counts s.retained s.rx ↔ s.retained.events = s.retained.pending.length) : Settled s :=
  ⟨hpc.mp h.counts, h.pending, h.removals⟩

theorem Settled.receiveStep (h : Settled s) {input : Input} {responseCapacity : ℕ} {t : State}
    (hstep : Wakeup.receiveStep s input responseCapacity = some t) : Inv t := by
  unfold Wakeup.receiveStep at hstep
  split at hstep
  · rename_i message rest hpending
    cases hstep
    split_ifs
    · exact h.unlock
    · exact h.removePending (by rw [hpending]; exact Nat.succ_pos _) _
  · cases input with
    | ioctl result =>
        simp only at hstep
        split at hstep
        · cases hstep
          split_ifs
          · exact h.retainPending _ _
          · exact h.unlock
        · cases hstep
          exact h.unlock
    | _ => cases hstep

theorem Settled.reapStep (h : Settled s) (count index : ℕ) : Inv (Wakeup.reapStep s count index) := by
  unfold Wakeup.reapStep
  split_ifs with hmore htaken
  · exact h.removePending (List.length_pos_of_ne_nil hmore.2) _
  · exact h.unlock
  · exact h.goto Iff.rfl

theorem Settled.takeStep (h : Settled s) (sequence : U32) : Inv (Wakeup.takeStep s sequence) := by
  unfold Wakeup.takeStep
  split
  · exact h.goto Iff.rfl
  · rename_i index hfind
    exact h.removePending (List.findIdx?_eq_some_iff_getElem.mp hfind).choose _

theorem Inv.rxStep (h : Inv s) {pc : Pc} (hrx : s.rx = some pc) {input : Input} {t : State}
    (hstep : Wakeup.rxStep s input pc = some t) : Inv t := by
  cases pc with
  | receive responseCapacity =>
      exact (h.settled (by rw [hrx]; exact Iff.rfl)).receiveStep hstep
  | reapPending count index =>
      cases hstep
      exact (h.settled (by rw [hrx]; exact Iff.rfl)).reapStep count index
  | takePending sequence =>
      cases hstep
      exact (h.settled (by rw [hrx]; exact Iff.rfl)).takeStep sequence
  | reapKernel =>
      have hsettled := h.settled (by rw [hrx]; exact Iff.rfl)
      cases input with
      | proceed go =>
          cases hstep
          exact hsettled.unlock
      | _ => cases hstep
  | send =>
      have hsettled := h.settled (by rw [hrx]; exact Iff.rfl)
      cases input with
      | sent result =>
          cases result with
          | ok sequence =>
              cases hstep
              exact hsettled.goto Iff.rfl
          | error ret =>
              cases hstep
              split_ifs
              · exact hsettled.goto Iff.rfl
              · exact hsettled.unlock
      | _ => cases hstep
  | drain =>
      have hsettled := h.settled (by rw [hrx]; exact Iff.rfl)
      cases input with
      | ioctl result =>
          simp only [Wakeup.rxStep] at hstep
          split at hstep
          · cases hstep
            exact hsettled.retainPending _ _
          · cases hstep
            exact hsettled.unlock
      | _ => cases hstep
  | matching sequence =>
      have hsettled := h.settled (by rw [hrx]; exact Iff.rfl)
      cases input with
      | ioctl result =>
          simp only [Wakeup.rxStep] at hstep
          split at hstep
          · cases hstep
            split_ifs
            · exact hsettled.unlock
            · exact hsettled.retainPending _ _
          · cases hstep
            split_ifs
            · exact hsettled.goto Iff.rfl
            · exact hsettled.unlock
      | _ => cases hstep
  | deadline sequence =>
      have hsettled := h.settled (by rw [hrx]; exact Iff.rfl)
      cases input with
      | proceed go =>
          cases hstep
          split_ifs
          · exact hsettled.goto Iff.rfl
          · exact hsettled.unlock
      | _ => cases hstep
  | wait sequence =>
      have hsettled := h.settled (by rw [hrx]; exact Iff.rfl)
      cases input with
      | proceed go =>
          cases hstep
          split_ifs
          · exact hsettled.goto Iff.rfl
          · exact hsettled.unlock
      | _ => cases hstep
  | signal caller =>
      cases input with
      | eventfd interrupted =>
          cases hstep
          split_ifs
          · exact h
          · exact h.signalStep hrx
      | _ => cases hstep
  | consume caller =>
      cases input with
      | eventfd interrupted =>
          cases hstep
          split_ifs
          · exact h
          · exact h.consumeStep hrx
      | _ => cases hstep

theorem Inv.step (h : Inv s) {l : Label} {t : State} (hstep : Wakeup.step l s = some t) : Inv t := by
  cases l with
  | lock entered =>
      simp only [Wakeup.step] at hstep
      split_ifs at hstep with hlocked
      cases hstep
      have hfree : s.rx = none := Option.not_isSome_iff_eq_none.mp hlocked
      have hsettled := h.settled (by rw [hfree]; exact Iff.rfl)
      cases entered with
      | receive responseCapacity => exact hsettled.goto Iff.rfl
      | reap count => exact hsettled.goto Iff.rfl
      | call => exact hsettled.goto Iff.rfl
  | rx input =>
      simp only [Wakeup.step] at hstep
      rw [Option.bind_eq_some_iff] at hstep
      obtain ⟨pc, hrx, hstep⟩ := hstep
      exact h.rxStep hrx hstep

end Steps

theorem inv_opened : Inv opened :=
  ⟨rfl, Nat.zero_le _, Nat.zero_le _, List.forall_mem_nil _⟩

theorem reachable_inv {s : State} (h : Reachable handle s) : Inv s := by
  apply h.invariant
  · rintro s rfl
    exact inv_opened
  · intro s t l hs hstep
    exact hs.step hstep

/-! ## Polls -/

theorem eventfdRevents_zero : eventfdRevents 0 = 0#16 := rfl

theorem eventfdRevents_pos {counter : ℕ} (h : 0 < counter) : eventfdRevents counter = pollin :=
  if_pos h

/-- A counter that is not zero ends the poll, with `POLLIN`. -/
theorem Polled.wakes {counter : ℕ} {device : PollEvents} {result : PollResult}
    (h : Polled counter device result) (hcounter : 0 < counter) :
    result ≠ .timedOut ∧
      ∀ events, result = .ready events → events.revents &&& pollin = pollin := by
  cases h with
  | failed error => exact ⟨nofun, nofun⟩
  | timedOut hdevice hpending =>
      rw [eventfdRevents_pos hcounter] at hpending
      exact absurd hpending (by decide)
  | ready events hdevice hpending =>
      refine ⟨nofun, ?_⟩
      intro events' heq
      obtain rfl := PollResult.ready.inj heq
      rw [eventfdRevents_pos hcounter] at hpending
      have hin : (if events.pending &&& pollin ≠ 0#16 then pollin else 0#16) = pollin := by
        rw [hpending]
        rfl
      unfold Ready.revents
      rw [hin]
      ext i hi
      simp only [BitVec.getElem_and, BitVec.getElem_or]
      cases pollin[i] <;> simp

/-- A counter of zero adds nothing to the events of the device. -/
theorem Polled.quiet {device : PollEvents} {result : PollResult} (h : Polled 0 device result) :
    ∀ events, result = .ready events → events.revents = device := by
  intro events heq
  cases h with
  | ready events' hdevice hpending =>
      obtain rfl := PollResult.ready.inj heq
      rw [eventfdRevents_zero] at hpending
      unfold Ready.revents
      rw [hpending, hdevice]
      simp
  | _ => cases heq

/-- A response that `sg2002_rtos_message_receive` has no room for. -/
def retainedOne : State := ⟨⟨[⟨1#32, 1#16, Vector.replicate payloadSize 0#8⟩], 1⟩, none, []⟩

theorem reachable_retainedOne : Reachable handle retainedOne := by
  have hexec : exec step
      [.lock (.receive 0), .rx (.ioctl (.ok ⟨1#32, 1#16, Vector.replicate payloadSize 0#8⟩)),
        .rx (.eventfd false)] opened = some retainedOne := rfl
  exact (Reachable.start (S := handle) rfl).exec hexec

end Sg200x.Ipc.Wakeup
