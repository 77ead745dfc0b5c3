import Sg200x.Ipc.Client
import Sg200x.Ipc.Timeout

/-!
# What a batch submission has submitted

One call of `sg2002_rtos_message_submit_batch`, with its retries, the native path and the
path of single messages.  The kernel may answer every ioctl as it likes; a message counts as
accepted when the kernel reports it as accepted.
-/

namespace Sg200x.Ipc.SubmitBatch

open Shm Library.Transition
open Client (BatchSupport carried carried_getElem)
open Timeout (again eagain einval emsgsize eproto)

def enotty : ℕ := 25
def eopnotsupp : ℤ := 95

/-- The arguments of the call.  `messages` is the array of `count` messages, or `NULL`. -/
structure Arguments where
  /-- The handle is open and has shared memory. -/
  available : Bool
  messages : Option (List Slot)
  /-- `completed` is not `NULL`. -/
  hasCompleted : Bool

def Arguments.array (arguments : Arguments) : List Slot := arguments.messages.getD []

inductive Pc
  | start
  | lock
  /-- `submit_batch_locked`, before the batch ioctl. -/
  | native
  /-- In the loop of `submit_batch_locked`. -/
  | each (index : ℕ)
  /-- In `wait_for_events`. -/
  | wait
  | returned (ret : ℤ)

structure State where
  /-- The caller's array, to which the sequences are written. -/
  messages : List Slot
  /-- `*completed`, unless the pointer is `NULL`. -/
  completed : Option ℕ
  submitBatchSupported : BatchSupport
  /-- What the kernel has accepted, in its order. -/
  accepted : List Slot
  pc : Pc

/-- What a step gets from outside. -/
inductive Input
  | none
  | mutex (ret : ℕ)
  /-- `SG2002_RTOS_SHM_SUBMIT_BATCH` returns 0 and has given these sequences. -/
  | batchAccepted (sequences : List U32)
  | batchFailed (errno : ℕ)
  /-- `SG2002_RTOS_SHM_SEND` returns 0 and has given this sequence. -/
  | sendAccepted (sequence : U32)
  | sendFailed (errno : ℕ)
  /-- `wait_for_events`. -/
  | waited (ret : ℤ)

/-- The kernel accepts a prefix of a batch that is not empty, and gives sequences that are
not 0. -/
def Input.possible (count : ℕ) : Input → Bool
  | .batchAccepted sequences =>
      sequences ≠ [] && sequences.length ≤ count && sequences.all (· ≠ 0#32)
  | .sendAccepted sequence => sequence ≠ 0#32
  | .batchFailed errno | .sendFailed errno => errno ≠ 0
  | _ => true

inductive Label
  | call (input : Input)
  /-- Another thread submits a batch of its own. -/
  | others (submitBatchSupported : BatchSupport)

/-- Writes the sequences of the first messages. -/
def writeSequences : List Slot → List U32 → List Slot
  | message :: messages, sequence :: sequences =>
      { message with sequence := sequence } :: writeSequences messages sequences
  | messages, _ => messages

def State.returns (s : State) (ret : ℤ) : State := { s with pc := .returned ret }

/-- The end of the loop's body in `sg2002_rtos_message_submit_batch`. -/
def State.attempted (s : State) (ret : ℤ) : State :=
  if again ret then { s with pc := .wait } else s.returns ret

/-- The checks of `sg2002_rtos_message_submit_batch`. -/
def startStep (arguments : Arguments) (s : State) : State :=
  let s' := { s with completed := s.completed.map fun _ => 0 }
  if !arguments.available then s'.returns (-eopnotsupp)
  else
    match arguments.messages with
    | none => s'.returns (-einval)
    | some messages =>
        if !arguments.hasCompleted || messages.length = 0 || slotCount < messages.length then
          s'.returns (-einval)
        else if messages.any fun message => payloadSize < message.length.toNat then
          s'.returns (-emsgsize)
        else { s' with pc := .lock }

/-- The batch ioctl has accepted messages. -/
def batchAccepted (s : State) (sequences : List U32) : State :=
  let messages := writeSequences s.messages sequences
  let s' :=
    { s with
      messages := messages
      accepted := s.accepted ++ messages.take sequences.length }
  if sequences.length = 0 ∨ s.messages.length < sequences.length then s'.attempted (-eproto)
  else if ∃ message ∈ messages.take sequences.length, message.sequence = 0#32 then
    s'.attempted (-eproto)
  else
    { s' with submitBatchSupported := .supported, completed := some sequences.length }.attempted 0

def batchFailed (s : State) (errno : ℕ) : State :=
  if errno ≠ enotty then { s with submitBatchSupported := .supported }.attempted (-errno)
  else { s with submitBatchSupported := .unsupported, pc := .each 0 }

/-- `message_send_locked`: what the kernel has accepted and what is returned. -/
def messageSendLocked (message : Slot) : Input → Option (List Slot × Except ℤ U32)
  | .sendAccepted sequence =>
      if payloadSize < message.length.toNat then some ([], .error (-einval))
      else
        some ([{ carried message with sequence := sequence }],
          if sequence = 0#32 then .error (-eproto) else .ok sequence)
  | .sendFailed errno =>
      if payloadSize < message.length.toNat then some ([], .error (-einval))
      else some ([], .error (-errno))
  | _ => none

/-- The loop of `submit_batch_locked`. -/
def eachStep (s : State) (input : Input) (index : ℕ) : Option State :=
  match s.messages[index]? with
  | none =>
      some ({ s with completed := some index }.attempted (if 0 < index then 0 else -eagain))
  | some message =>
      match messageSendLocked message input with
      | none => none
      | some (accepted, .ok sequence) =>
          some { s with
            messages := s.messages.set index { message with sequence := sequence }
            accepted := s.accepted ++ accepted
            pc := .each (index + 1) }
      | some (accepted, .error ret) =>
          some ({ s with accepted := s.accepted ++ accepted, completed := some index }.attempted
            (if 0 < index ∧ again ret then 0 else ret))

def callStep (arguments : Arguments) (s : State) (input : Input) : Option State :=
  match s.pc with
  | .start => some (startStep arguments s)
  | .lock =>
      match input with
      | .mutex ret =>
          some (if ret ≠ 0 then s.returns (-ret)
            else { s with completed := some 0, pc := .native })
      | _ => none
  | .native =>
      if s.submitBatchSupported = .unsupported then some { s with pc := .each 0 }
      else
        match input with
        | .batchAccepted sequences => some (batchAccepted s sequences)
        | .batchFailed errno => some (batchFailed s errno)
        | _ => none
  | .each index => eachStep s input index
  | .wait =>
      match input with
      | .waited ret => some (if ret ≠ 0 then s.returns ret else { s with pc := .lock })
      | _ => none
  | .returned _ => none

/-- The call holds `tx_lock`. -/
def Pc.locked : Pc → Bool
  | .native | .each _ => true
  | _ => false

def step (arguments : Arguments) : Label → State → Option State
  | .call input, s => if input.possible s.messages.length then callStep arguments s input else none
  | .others submitBatchSupported, s =>
      if s.pc.locked then none else some { s with submitBatchSupported := submitBatchSupported }

structure Start (arguments : Arguments) (s : State) : Prop where
  messages : s.messages = arguments.array
  completed : s.completed.isSome = arguments.hasCompleted
  accepted : s.accepted = []
  pc : s.pc = .start

def submission (arguments : Arguments) : System State Label := ⟨Start arguments, step arguments⟩

/-! ## The array -/

section Sequences

variable (messages : List Slot) (sequences : List U32)

theorem map_carried_writeSequences :
    (writeSequences messages sequences).map carried = messages.map carried := by
  induction messages, sequences using writeSequences.induct with
  | case1 message messages sequence sequences ih =>
      rw [writeSequences, List.map_cons, List.map_cons, ih]
      rfl
  | case2 messages sequences hne => rw [writeSequences.eq_2 _ _ hne]

theorem map_sequence_writeSequences (h : sequences.length ≤ messages.length) :
    ((writeSequences messages sequences).take sequences.length).map Slot.sequence = sequences := by
  induction messages, sequences using writeSequences.induct with
  | case1 message messages sequence sequences ih =>
      rw [writeSequences, List.length_cons, List.take_succ_cons, List.map_cons,
        ih (Nat.le_of_succ_le_succ h)]
  | case2 messages sequences hne =>
      cases sequences with
      | nil => simp
      | cons sequence sequences =>
          cases messages with
          | nil => exact absurd h (Nat.not_succ_le_zero _)
          | cons message messages => exact absurd rfl (hne message messages sequence sequences rfl)

theorem carried_carried (message : Slot) : carried (carried message) = carried message := by
  have hpayload : (carried (carried message)).payload = (carried message).payload := by
    apply Vector.ext
    intro i hi
    rw [carried_getElem]
    change (if i < message.length.toNat then (carried message).payload[i] else 0#8) = _
    rw [carried_getElem]
    split_ifs
    · rfl
    · rfl
  exact congrArg (Slot.mk 0#32 message.length) hpayload

end Sequences

/-! ## The invariant -/

/-- The kernel has accepted the first `n` messages of the array, once each and in order, and
the array has their sequences. -/
structure Accepts (array : List Slot) (s : State) (n : ℕ) : Prop where
  count : s.accepted.length = n
  room : n ≤ array.length
  messages : s.messages.map carried = array.map carried
  bodies : s.accepted.map carried = (array.take n).map carried
  sequences : (s.messages.take n).map Slot.sequence = s.accepted.map Slot.sequence
  assigned : ∀ message ∈ s.accepted, message.sequence ≠ 0#32

section Accepts

variable {array : List Slot} {s t : State} {n : ℕ}

theorem Accepts.length (h : Accepts array s n) : s.messages.length = array.length := by
  simpa using congrArg List.length h.messages

/-- Only the array and what has been accepted matter. -/
theorem Accepts.congr (h : Accepts array s n) (hmessages : t.messages = s.messages)
    (haccepted : t.accepted = s.accepted) : Accepts array t n := by
  constructor
  · rw [haccepted]
    exact h.count
  · exact h.room
  · rw [hmessages]
    exact h.messages
  · rw [haccepted]
    exact h.bodies
  · rw [hmessages, haccepted]
    exact h.sequences
  · rw [haccepted]
    exact h.assigned

theorem Accepts.none (hmessages : s.messages.map carried = array.map carried)
    (haccepted : s.accepted = []) : Accepts array s 0 := by
  constructor
  · rw [haccepted]
    rfl
  · exact Nat.zero_le _
  · exact hmessages
  · rw [haccepted]
    rfl
  · rw [haccepted]
    rfl
  · rw [haccepted]
    exact List.forall_mem_nil _

theorem Accepts.nil (h : Accepts array s 0) : s.accepted = [] :=
  List.eq_nil_of_length_eq_zero h.count

/-- A batch of which the kernel has accepted a prefix. -/
theorem Accepts.batch (h : Accepts array s 0) {sequences : List U32}
    (hlength : sequences.length ≤ s.messages.length) (hassigned : ∀ x ∈ sequences, x ≠ 0#32)
    (hmessages : t.messages = writeSequences s.messages sequences)
    (haccepted : t.accepted =
      s.accepted ++ (writeSequences s.messages sequences).take sequences.length) :
    Accepts array t sequences.length := by
  rw [h.nil, List.nil_append] at haccepted
  have hsequences := map_sequence_writeSequences s.messages sequences hlength
  have hbodies := map_carried_writeSequences s.messages sequences
  constructor
  · rw [haccepted, ← List.length_map Slot.sequence, hsequences]
  · exact hlength.trans_eq h.length
  · rw [hmessages, hbodies, h.messages]
  · rw [haccepted, List.map_take, hbodies, h.messages, List.map_take]
  · rw [hmessages, haccepted]
  · intro message hmem
    apply hassigned
    rw [← hsequences, ← haccepted]
    exact List.mem_map_of_mem hmem

/-- One more message. -/
theorem Accepts.push (h : Accepts array s n) {message : Slot} (hget : s.messages[n]? = some message)
    {sequence : U32} (hassigned : sequence ≠ 0#32)
    (hmessages : t.messages = s.messages.set n { message with sequence := sequence })
    (haccepted : t.accepted = s.accepted ++ [{ carried message with sequence := sequence }]) :
    Accepts array t (n + 1) := by
  obtain ⟨hlt, hmessage⟩ := List.getElem?_eq_some_iff.mp hget
  have hlength := h.length
  have hbody : carried message = carried array[n] := by
    have hn := congrArg (·[n]?) h.messages
    simpa [hget, show n < array.length by omega] using hn
  have hset : t.messages.map carried = s.messages.map carried := by
    have hcarried : (s.messages.map carried)[n]? = some (carried message) := by
      rw [List.getElem?_map, hget]
      rfl
    rw [hmessages, List.map_set]
    apply List.ext_getElem?
    intro i
    rw [List.getElem?_set]
    split_ifs with hi
    · rw [← hi, hcarried]
      rfl
    · rw [← hi, List.getElem?_eq_none]
      omega
    · rfl
  constructor
  · rw [haccepted, List.length_append, List.length_singleton, h.count]
  · omega
  · exact hset.trans h.messages
  · rw [haccepted, List.map_append, h.bodies, List.take_succ_eq_append_getElem (by omega),
      List.map_append, List.map_singleton, List.map_singleton, ← hbody]
    change _ ++ [carried (carried message)] = _
    rw [carried_carried]
  · rw [hmessages, haccepted, List.map_append, ← h.sequences,
      List.take_succ_eq_append_getElem (by simpa using hlt), List.map_append]
    rw [List.getElem_set_self, List.take_set_of_le (Nat.le_refl n)]
    simp only [List.map_cons, List.map_nil]
  · intro message' hmem
    rw [haccepted] at hmem
    obtain hold | hnew := List.mem_append.mp hmem
    · exact h.assigned message' hold
    · rw [List.mem_singleton.mp hnew]
      exact hassigned

/-- Between attempts nothing has been accepted. -/
def Inv (array : List Slot) (s : State) : Prop :=
  match s.pc with
  | .start => s.accepted = [] ∧ s.messages = array
  | .lock | .native | .wait => Accepts array s 0 ∧ s.completed.getD 0 = 0
  | .each index => Accepts array s index
  | .returned _ => Accepts array s (s.completed.getD 0)

theorem Accepts.between (h : Accepts array s 0) (hzero : s.completed.getD 0 = 0) :
    Accepts array s (s.completed.getD 0) := by
  rw [hzero]
  exact h

theorem Accepts.returns (h : Accepts array s (s.completed.getD 0)) (ret : ℤ) :
    Inv array (s.returns ret) := h.congr rfl rfl

/-- An attempt is repeated only if it has submitted nothing. -/
theorem Accepts.attempted (h : Accepts array s (s.completed.getD 0)) {ret : ℤ}
    (hagain : again ret = true → s.completed.getD 0 = 0) : Inv array (s.attempted ret) := by
  unfold State.attempted
  split_ifs with hret
  · have hzero := hagain hret
    rw [hzero] at h
    exact ⟨h.congr rfl rfl, hzero⟩
  · exact h.returns ret

theorem startStep_inv {arguments : Arguments} (haccepted : s.accepted = [])
    (hmessages : s.messages = arguments.array) : Inv arguments.array (startStep arguments s) := by
  have hzero : (s.completed.map fun _ => 0).getD 0 = 0 := by
    cases s.completed <;> rfl
  have hnone : Accepts arguments.array { s with completed := s.completed.map fun _ => 0 }
      ((s.completed.map fun _ => 0).getD 0) := by
    rw [hzero]
    exact .none (congrArg _ hmessages) haccepted
  have hreturns := hnone.returns
  rw [hzero] at hnone
  unfold startStep
  simp only
  split_ifs
  · exact hreturns _
  · split
    · exact hreturns _
    · split_ifs
      · exact hreturns _
      · exact hreturns _
      · exact ⟨hnone.congr rfl rfl, hzero⟩

theorem batchAccepted_inv (h : Accepts array s 0) {sequences : List U32}
    (hpossible : (Input.batchAccepted sequences).possible s.messages.length) :
    Inv array (batchAccepted s sequences) := by
  simp only [Input.possible, Bool.and_eq_true, decide_eq_true_eq, List.all_eq_true] at hpossible
  obtain ⟨⟨hne, hlength⟩, hassigned⟩ := hpossible
  have haccepts : Accepts array
      ⟨writeSequences s.messages sequences, some sequences.length, .supported,
        s.accepted ++ (writeSequences s.messages sequences).take sequences.length, s.pc⟩
      sequences.length := h.batch hlength hassigned rfl rfl
  have hnonzero : ¬ (sequences.length = 0 ∨ s.messages.length < sequences.length) := by
    rw [List.length_eq_zero_iff]
    exact not_or.mpr ⟨hne, Nat.not_lt.mpr hlength⟩
  have hsequences : ¬ ∃ message ∈ (writeSequences s.messages sequences).take sequences.length,
      message.sequence = 0#32 := by
    rintro ⟨message, hmem, hzero⟩
    apply haccepts.assigned message _ hzero
    exact List.mem_append_right _ hmem
  unfold batchAccepted
  simp only [if_neg hnonzero, if_neg hsequences]
  exact haccepts.attempted fun heq => absurd heq (by decide)

theorem batchFailed_inv (h : Accepts array s 0) (hzero : s.completed.getD 0 = 0) (errno : ℕ) :
    Inv array (batchFailed s errno) := by
  unfold batchFailed
  split_ifs
  · have haccepts : Accepts array { s with submitBatchSupported := .supported }
        (s.completed.getD 0) := (h.between hzero).congr rfl rfl
    exact haccepts.attempted fun _ => hzero
  · exact h.congr rfl rfl

/-- The loop over single messages. -/
theorem eachStep_inv {index : ℕ} (h : Accepts array s index) {input : Input}
    (hpossible : input.possible s.messages.length) (hstep : eachStep s input index = some t) :
    Inv array t := by
  have hstop : ∀ ret : ℤ, Inv array ({ s with completed := some index }.attempted
      (if 0 < index ∧ again ret then 0 else ret)) := by
    intro ret
    have haccepts : Accepts array { s with completed := some index } index := h.congr rfl rfl
    apply Accepts.attempted haccepts
    intro hagain
    split_ifs at hagain with hpartial
    · cases hagain
    · exact Nat.eq_zero_of_not_pos fun hpos => hpartial ⟨hpos, hagain⟩
  unfold eachStep at hstep
  cases hget : s.messages[index]? with
  | none =>
      simp only [hget] at hstep
      cases hstep
      simpa [show again (-eagain) = true from rfl] using hstop (-eagain)
  | some message =>
      simp only [hget] at hstep
      cases input with
      | sendAccepted sequence =>
          have hassigned : sequence ≠ 0#32 := by simpa [Input.possible] using hpossible
          by_cases hlong : payloadSize < message.length.toNat
          · simp only [messageSendLocked, if_pos hlong, List.append_nil] at hstep
            cases hstep
            exact hstop (-einval)
          · simp only [messageSendLocked, if_neg hlong, if_neg hassigned] at hstep
            cases hstep
            exact h.push hget hassigned rfl rfl
      | sendFailed errno =>
          by_cases hlong : payloadSize < message.length.toNat
          · simp only [messageSendLocked, if_pos hlong, List.append_nil] at hstep
            cases hstep
            exact hstop (-einval)
          · simp only [messageSendLocked, if_neg hlong, List.append_nil] at hstep
            cases hstep
            exact hstop (-errno)
      | _ => cases hstep

theorem callStep_inv {arguments : Arguments} (h : Inv arguments.array s) {input : Input}
    (hpossible : input.possible s.messages.length)
    (hstep : callStep arguments s input = some t) : Inv arguments.array t := by
  unfold Inv at h
  unfold callStep at hstep
  cases hpc : s.pc with
  | start =>
      simp only [hpc] at h hstep
      cases hstep
      exact startStep_inv h.1 h.2
  | lock =>
      simp only [hpc] at h hstep
      cases input with
      | mutex ret =>
          cases hstep
          split_ifs
          · exact (h.1.between h.2).returns _
          · exact ⟨h.1.congr rfl rfl, rfl⟩
      | _ => cases hstep
  | native =>
      simp only [hpc] at h hstep
      split_ifs at hstep
      · cases hstep
        exact h.1.congr rfl rfl
      · cases input with
        | batchAccepted sequences =>
            cases hstep
            exact batchAccepted_inv h.1 hpossible
        | batchFailed errno =>
            cases hstep
            exact batchFailed_inv h.1 h.2 errno
        | _ => cases hstep
  | each index =>
      simp only [hpc] at h hstep
      exact eachStep_inv h hpossible hstep
  | wait =>
      simp only [hpc] at h hstep
      cases input with
      | waited ret =>
          cases hstep
          split_ifs
          · exact (h.1.between h.2).returns _
          · exact ⟨h.1.congr rfl rfl, h.2⟩
      | _ => cases hstep
  | returned ret =>
      simp only [hpc] at hstep
      cases hstep

theorem step_inv {arguments : Arguments} (h : Inv arguments.array s) {l : Label}
    (hstep : step arguments l s = some t) : Inv arguments.array t := by
  cases l with
  | call input =>
      simp only [step] at hstep
      split_ifs at hstep with hpossible
      exact callStep_inv h hpossible hstep
  | others submitBatchSupported =>
      simp only [step] at hstep
      split_ifs at hstep with hlocked
      cases hstep
      unfold Inv at h ⊢
      cases hpc : s.pc with
      | start =>
          simp only [hpc] at h ⊢
          exact h
      | lock =>
          simp only [hpc] at h ⊢
          exact ⟨h.1.congr rfl rfl, h.2⟩
      | wait =>
          simp only [hpc] at h ⊢
          exact ⟨h.1.congr rfl rfl, h.2⟩
      | returned ret =>
          simp only [hpc] at h ⊢
          exact h.congr rfl rfl
      | native =>
          rw [hpc] at hlocked
          exact absurd rfl hlocked
      | each index =>
          rw [hpc] at hlocked
          exact absurd rfl hlocked

theorem reachable_inv {arguments : Arguments} (h : Reachable (submission arguments) s) :
    Inv arguments.array s := by
  apply h.invariant
  · intro s (hs : Start arguments s)
    unfold Inv
    simp only [hs.pc]
    exact ⟨hs.accepted, hs.messages⟩
  · intro s t l hs hstep
    exact step_inv hs hstep

/-- Whatever a submission returns, the kernel has accepted exactly the messages that it
counts as completed, once each and in order, and the array has their sequences. -/
theorem submitted_exactly {arguments : Arguments} (h : Reachable (submission arguments) s)
    {ret : ℤ} (hreturned : s.pc = .returned ret) :
    s.accepted.length = s.completed.getD 0 ∧ s.completed.getD 0 ≤ arguments.array.length ∧
      s.accepted.map carried = (arguments.array.take (s.completed.getD 0)).map carried ∧
      (s.messages.take (s.completed.getD 0)).map Slot.sequence = s.accepted.map Slot.sequence ∧
      ∀ message ∈ s.accepted, message.sequence ≠ 0#32 := by
  have hinv := reachable_inv h
  unfold Inv at hinv
  simp only [hreturned] at hinv
  exact ⟨hinv.count, hinv.room, hinv.bodies, hinv.sequences, hinv.assigned⟩

end Accepts

/-- Two messages of one byte. -/
def twoMessages : Arguments where
  available := true
  messages := some [⟨0#32, 1#16, Vector.replicate payloadSize 1#8⟩,
    ⟨0#32, 1#16, Vector.replicate payloadSize 2#8⟩]
  hasCompleted := true

/-- The batch ioctl is missing, and the second message meets the end of the device. -/
def partlySubmitted : State where
  messages := [⟨7#32, 1#16, Vector.replicate payloadSize 1#8⟩,
    ⟨0#32, 1#16, Vector.replicate payloadSize 2#8⟩]
  completed := some 1
  submitBatchSupported := .unsupported
  accepted := [{ carried ⟨0#32, 1#16, Vector.replicate payloadSize 1#8⟩ with sequence := 7#32 }]
  pc := .returned (-19)

theorem reachable_partlySubmitted : Reachable (submission twoMessages) partlySubmitted := by
  have hstart : Start twoMessages ⟨twoMessages.array, some 9, .unknown, [], .start⟩ :=
    ⟨rfl, rfl, rfl, rfl⟩
  have hexec : exec (step twoMessages)
      [.call .none, .call (.mutex 0), .call (.batchFailed enotty), .call (.sendAccepted 7#32),
        .call (.sendFailed 19)] ⟨twoMessages.array, some 9, .unknown, [], .start⟩ =
      some partlySubmitted := rfl
  exact (Reachable.start (S := submission twoMessages) hstart).exec hexec

theorem submitted_exactly_partly :
    partlySubmitted.accepted.length = 1 ∧
      partlySubmitted.accepted.map carried = (twoMessages.array.take 1).map carried := by
  obtain ⟨hcount, -, hbodies, -⟩ := submitted_exactly reachable_partlySubmitted rfl
  exact ⟨hcount, hbodies⟩

end Sg200x.Ipc.SubmitBatch
