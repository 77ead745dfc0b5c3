import Sg200x.Ipc.DriverFacts

/-!
# The data ioctls, one at a time

The checks that `send_message`, `receive_message`, `submit_batch` and `reap_batch` make
before they have their lock, and what a call comes to: on its own, or with other parties
between its accesses.
-/

namespace Sg200x.Ipc.Ioctl

open Shm RingCore Driver

/-! ## Runs of a call -/

section Runs

variable {κ ρ σ : Type} {access : κ → σ → Outcome κ ρ × σ} {pc : κ} {s : σ} {r : ρ × σ}

/-- The call returns, when no other party takes a step. -/
inductive Returns (access : κ → σ → Outcome κ ρ × σ) : κ → σ → ρ × σ → Prop
  | returned {pc : κ} {s s' : σ} {value : ρ} :
      access pc s = (.returned value, s') → Returns access pc s (value, s')
  | running {pc pc' : κ} {s s' : σ} {r : ρ × σ} :
      access pc s = (.running pc', s') → Returns access pc' s' r → Returns access pc s r

/-- What is left of the call after a step. -/
def Continues (access : κ → σ → Outcome κ ρ × σ) : Outcome κ ρ × σ → ρ × σ → Prop
  | (.running pc, s), r => Returns access pc s r
  | (.returned value, s), r => r = (value, s)

theorem returns_iff : Returns access pc s r ↔ Continues access (access pc s) r := by
  constructor
  · intro h
    cases h with
    | returned hstep => rw [hstep]; rfl
    | running hstep hrest => rw [hstep]; exact hrest
  · intro h
    rcases hstep : access pc s with ⟨pc' | value, s'⟩
    · rw [hstep] at h
      exact .running hstep h
    · rw [hstep] at h
      have hr : r = (value, s') := h
      rw [hr]
      exact .returned hstep

theorem Returns.unique {r' : ρ × σ} (h : Returns access pc s r) (h' : Returns access pc s r') :
    r = r' := by
  induction h with
  | returned hstep =>
      rw [returns_iff, hstep] at h'
      exact h'.symm
  | running hstep _ ih =>
      rw [returns_iff, hstep] at h'
      exact ih h'

/-- The call returns with other parties taking steps between its own: `visits` are the
states that its steps find and leave. -/
inductive Interrupted {ι : Type} (access : ι → κ → σ → Outcome κ ρ × σ) :
    κ → List (σ × σ) → ρ → Prop
  | returned {answer : ι} {pc : κ} {s s' : σ} {value : ρ} :
      access answer pc s = (.returned value, s') → Interrupted access pc [(s, s')] value
  | running {answer : ι} {pc pc' : κ} {s s' : σ} {visits : List (σ × σ)} {value : ρ} :
      access answer pc s = (.running pc', s') → Interrupted access pc' visits value →
        Interrupted access pc ((s, s') :: visits) value

end Runs

/-! ## The calls -/

/-- What a call works on; `copied` are the messages it has copied to the user. -/
structure Memory where
  transport : Transport
  region : Region
  copied : List Slot

def txAccess (call : TxCall) (answer : TxPc → Answer) (pc : TxPc) (memory : Memory) :
    Outcome TxPc Errno × Memory :=
  let (out, transport, region) := txStep call (answer pc) memory.transport memory.region pc
  let copied :=
    match pc with
    | .copyOut _ stamped => if answer pc = .fault then memory.copied else stamped
    | _ => memory.copied
  (out, ⟨transport, region, copied⟩)

def rxAccess (call : RxCall) (answer : RxPc → Answer) (pc : RxPc) (memory : Memory) :
    Outcome RxPc Errno × Memory :=
  let (out, transport, region) := rxStep call (answer pc) memory.transport memory.region pc
  let copied :=
    match pc with
    | .copyOut _ batch => if answer pc = .fault then memory.copied else memory.copied ++ batch
    | _ => memory.copied
  (out, ⟨transport, region, copied⟩)

/-- `struct sg2002_rtos_shm_transfer`. -/
structure Transfer where
  timeoutMs : U32
  message : Slot

/-- `struct sg2002_rtos_shm_batch`, without what the driver only writes. -/
structure Batch where
  slotsPtr : BitVec 64
  timeoutMs : U32
  generation : U32
  count : U16
  flags : U32
  reserved : U32 × U32

/-- `copy_from_user`: `none` is a fault. -/
abbrev UserCopy (α : Type) := Option α

def copyBatchFromUser : UserCopy Batch → Except Errno Batch
  | none => .error .efault
  | some batch =>
      if batch.slotsPtr = 0#64 ∨ batch.count = 0#16 ∨ slotCount < batch.count.toNat ∨
          batch.flags ≠ 0#32 ∨ batch.reserved.1 ≠ 0#32 ∨ batch.reserved.2 ≠ 0#32 then
        .error .einval
      else .ok batch

/-- A call that has passed the checks of its arguments. -/
def entered {call pc : Type} (request : call) : Outcome pc Errno → Except Errno (call × pc)
  | .running pc => .ok (request, pc)
  | .returned ret => .error ret

def send (transport : Transport) (file : File) (argument : UserCopy Transfer) :
    Except Errno (TxCall × TxPc) :=
  if isOwner transport file then
    match argument with
    | none => .error .efault
    | some transfer =>
        let call := sendMessage transfer.message (transfer.timeoutMs = 0#32)
        entered call call.enter
  else .error .eperm

def receive (transport : Transport) (file : File) (argument : UserCopy Transfer) :
    Except Errno (RxCall × RxPc) :=
  if isOwner transport file then
    match argument with
    | none => .error .efault
    | some transfer =>
        let call := receiveMessage (transfer.timeoutMs = 0#32)
        entered call call.enter
  else .error .eperm

/-- `slots` is the array in user memory, and `none` where it cannot be read. -/
def submit (transport : Transport) (file : File) (argument : UserCopy Batch)
    (slots : UserCopy (ℕ → Slot)) : Except Errno (TxCall × TxPc) :=
  if isOwner transport file then
    match copyBatchFromUser argument, slots with
    | .error ret, _ => .error ret
    | .ok _, none => .error .efault
    | .ok batch, some slots =>
        let call := submitBatch batch.generation ((List.range batch.count.toNat).map slots)
          (batch.timeoutMs = 0#32)
        entered call call.enter
  else .error .eperm

def reap (transport : Transport) (file : File) (argument : UserCopy Batch) :
    Except Errno (RxCall × RxPc) :=
  if isOwner transport file then
    match copyBatchFromUser argument with
    | .error ret => .error ret
    | .ok batch =>
        let call := reapBatch batch.generation batch.count.toNat (batch.timeoutMs = 0#32)
        entered call call.enter
  else .error .eperm

theorem entered_ok {κ α : Type} {call call' : α} {pc : κ} {out : Outcome κ Errno}
    (h : entered call out = .ok (call', pc)) : call' = call ∧ out = .running pc := by
  cases out with
  | running pc' =>
      obtain ⟨rfl, rfl⟩ := Prod.mk.inj (Except.ok.inj h)
      exact ⟨rfl, rfl⟩
  | returned ret => cases h

theorem entered_error {κ α : Type} {call : α} {out : Outcome κ Errno} {ret : Errno}
    (h : entered call out = .error ret) : out = .returned ret := by
  cases out with
  | running pc => cases h
  | returned ret' => exact congrArg Outcome.returned (Except.error.inj h)

theorem copyBatchFromUser_error {argument : UserCopy Batch} {ret : Errno}
    (h : copyBatchFromUser argument = .error ret) : ret ≠ .ok := by
  unfold copyBatchFromUser at h
  split at h
  · cases h
    decide
  · split_ifs at h
    cases h
    decide

theorem readOccupancy_eq {producer consumer : U32} (h : (producer - consumer).toNat ≤ slotCount) :
    readOccupancy producer consumer = some (producer - consumer) := if_pos h

theorem occupancy_of_readOccupancy {producer consumer occupancy : U32}
    (h : readOccupancy producer consumer = some occupancy) : occupancy = producer - consumer := by
  unfold readOccupancy at h
  split_ifs at h
  exact (Option.some.inj h).symm

/-! ## `rtos_ready` in a state that does not change -/

/-- What `rtos_ready` returns. -/
def ready (transport : Transport) (region : Region) : Bool :=
  rtosReady.all fun read => read.passes transport region transport.generation

/-- A region that both sides have set up. -/
def established (generation : U32) (request response : Ring) : Region :=
  ⟨initialized generation, ⟨stateReady, generation⟩, ⟨stateReady, generation⟩, request, response⟩

/-- A transport that `file` has acquired. -/
def acquired (file : File) (generation nextSequence : U32) : Transport :=
  { owner := some file, generation, nextSequence, notifications := 0#32, kickAttempts := 0
    kickScheduled := false, shuttingDown := false }

theorem ready_established {file : File} {generation nextSequence : U32} {request response : Ring}
    (h : generation ≠ 0#32) :
    ready (acquired file generation nextSequence) (established generation request response) =
      true := by
  apply List.all_eq_true.mpr
  intro read _
  cases read with
  | layout read =>
      cases read <;> simp [ReadyRead.passes, LayoutRead.passes, established, initialized, acquired]
  | _ => simp [ReadyRead.passes, established, initialized, acquired, h]

theorem passes_congr {transport : Transport} {region : Region} {generation : U32}
    {read : ReadyRead} (h : read.usesGeneration = false ∨ generation = transport.generation) :
    read.passes transport region generation =
      read.passes transport region transport.generation := by
  rcases h with h | h
  · cases read with
    | layout read => cases read <;> first | rfl | cases h
    | layoutGeneration | linuxGeneration | rtosGeneration => cases h
    | shuttingDown | generation | linuxState | rtosState => rfl
  · rw [h]

theorem readyFacts_tail {transport : Transport} {read : ReadyRead} {reads : List ReadyRead}
    {generation : U32} (h : ReadyFacts transport.generation ⟨read :: reads, generation⟩) :
    ReadyFacts transport.generation
      ⟨reads, if read = .generation then transport.generation else generation⟩ := by
  obtain ⟨htail, hset⟩ := h
  refine ⟨?_, ?_⟩
  · rw [List.mem_tails] at htail ⊢
    exact (List.suffix_cons read reads).trans htail
  · by_cases hread : read = .generation
    · rw [if_pos hread]
      exact .inr rfl
    · rw [if_neg hread]
      exact hset.imp_left fun hmem =>
        (List.mem_cons.mp hmem).resolve_left fun heq => hread heq.symm

section Ready

variable {κ : Type} {access : κ → Memory → Outcome κ Errno × Memory} (embed : ReadyPc → κ)
  (next : Bool → Outcome κ Errno) {memory : Memory} {r : Errno × Memory}

/-- The part of a call that runs `rtos_ready`. -/
theorem returns_readyPc
    (hstep : ∀ pc, access (embed pc) memory =
      (match readyStep memory.transport memory.region pc with
        | .running pc' => .running (embed pc')
        | .returned value => next value, memory))
    {reads : List ReadyRead} {generation : U32}
    (hfacts : ReadyFacts memory.transport.generation ⟨reads, generation⟩) :
    Returns access (embed ⟨reads, generation⟩) memory r ↔
      Continues access (next (reads.all fun read =>
        read.passes memory.transport memory.region memory.transport.generation), memory) r := by
  induction reads generalizing generation with
  | nil =>
      rw [returns_iff, hstep]
      rfl
  | cons read reads ih =>
      have hpasses : read.passes memory.transport memory.region generation =
          read.passes memory.transport memory.region memory.transport.generation := by
        apply passes_congr
        rcases hfacts.2 with hmem | hset
        · exact .inl (head_usesGeneration _ hfacts.1 hmem read rfl)
        · exact .inr hset
      rw [returns_iff, hstep]
      simp only [readyStep, hpasses, List.all_cons]
      by_cases hpass : read.passes memory.transport memory.region memory.transport.generation
      · simp only [hpass, if_true, Bool.true_and]
        exact ih (readyFacts_tail hfacts)
      · simp only [hpass, if_false, Bool.false_and, Bool.false_eq_true]

theorem returns_ready
    (hstep : ∀ pc, access (embed pc) memory =
      (match readyStep memory.transport memory.region pc with
        | .running pc' => .running (embed pc')
        | .returned value => next value, memory)) :
    Returns access (embed .start) memory r ↔
      Continues access (next (ready memory.transport memory.region), memory) r :=
  returns_readyPc embed next hstep (readyFacts_start _)

end Ready

/-- A channel that is ready is not shutting down. -/
theorem running_of_ready {transport : Transport} {region : Region}
    (h : ready transport region = true) : transport.shuttingDown = false := by
  have hread := List.all_eq_true.mp h .shuttingDown (by decide)
  simpa [ReadyRead.passes] using hread

/-! ## The tests that every call makes first -/

/-- What the tests of the generation and of `rtos_ready` come to. -/
def tested {κ : Type} (batchGeneration : Option U32) (transport : Transport) (region : Region)
    (found : κ) : Outcome κ Errno :=
  if batchGeneration.isSome ∧ batchGeneration ≠ some transport.generation then .returned .estale
  else if ready transport region then .running found
  else .returned .enotconn

theorem tested_eq {κ : Type} {batchGeneration : Option U32} {transport : Transport}
    {region : Region} {found : κ}
    (hbatch : batchGeneration.isSome = true → batchGeneration = some transport.generation)
    (hready : ready transport region = true) :
    tested batchGeneration transport region found = .running found := by
  unfold tested
  rw [if_neg (fun h => h.2 (hbatch h.1)), if_pos hready]

section Tests

variable {κ : Type} {access : κ → Memory → Outcome κ Errno × Memory} {memory : Memory}
  {r : Errno × Memory}

theorem returns_tested (batchGeneration : Option U32) (stale found : κ) (embed : ReadyPc → κ)
    (hstale : access stale memory =
      (if batchGeneration = some memory.transport.generation then .running (embed .start)
        else .returned .estale, memory))
    (hready : ∀ pc, access (embed pc) memory =
      (match readyStep memory.transport memory.region pc with
        | .running pc' => .running (embed pc')
        | .returned true => .running found
        | .returned false => .returned .enotconn, memory)) :
    Returns access (if batchGeneration.isSome then stale else embed .start) memory r ↔
      Continues access (tested batchGeneration memory.transport memory.region found, memory) r := by
  have hstart : Returns access (embed .start) memory r ↔
      Continues access
        (if ready memory.transport memory.region then .running found else .returned .enotconn,
          memory) r := by
    apply returns_ready embed
      (fun value => if value then .running found else .returned .enotconn)
    intro pc
    rw [hready]
    rcases readyStep memory.transport memory.region pc with pc' | value
    · rfl
    · cases value <;> rfl
  unfold tested
  by_cases hisSome : batchGeneration.isSome = true
  · rw [if_pos hisSome, returns_iff, hstale]
    by_cases hbatch : batchGeneration = some memory.transport.generation
    · rw [if_pos hbatch, if_neg (fun h => h.2 hbatch)]
      exact hstart
    · rw [if_neg hbatch, if_pos ⟨hisSome, hbatch⟩]
  · rw [if_neg hisSome, if_neg (fun h => hisSome h.1)]
    exact hstart

end Tests

/-! ## The kick -/

/-- A transport after a kick. -/
structure Kicked (transport transport' : Transport) : Prop where
  channel : SameChannel transport transport'
  nextSequence : transport'.nextSequence = transport.nextSequence

theorem Kicked.refl (transport : Transport) : Kicked transport transport := ⟨.refl _, rfl⟩

theorem ready_congr {transport transport' : Transport} {region region' : Region}
    (hchannel : SameChannel transport transport') (hlayout : region'.layout = region.layout)
    (hlinux : region'.linuxPeer = region.linuxPeer) (hrtos : region'.rtosPeer = region.rtosPeer) :
    ready transport' region' = ready transport region := by
  unfold ready
  rw [hchannel.generation]
  apply List.all_congr rfl
  intro read
  cases read with
  | layout read => simp only [ReadyRead.passes, hlayout]
  | _ => simp only [ReadyRead.passes, hlayout, hlinux, hrtos, hchannel.generation,
      hchannel.shuttingDown]

/-- What `request_kick` makes of a transport that runs. -/
def kick (busy : Bool) (transport : Transport) : Transport :=
  { transport with kickAttempts := 0, kickScheduled := busy || transport.kickScheduled }

theorem kicked_kick (busy : Bool) (transport : Transport) : Kicked transport (kick busy transport) :=
  ⟨⟨rfl, rfl, rfl, rfl⟩, rfl⟩

section Kick

variable {κ : Type} {access : κ → Memory → Outcome κ Errno × Memory} {embed : KickPc → κ}
  {answer : κ → Answer} {ret : Errno} {memory : Memory} {r : Errno × Memory}

/-- The part of a call that runs `request_kick`, its last one. -/
theorem returns_kick
    (hstep : ∀ pc memory, access (embed pc) memory =
      match kickStep (answer (embed pc)) memory.transport pc with
      | (.running pc', transport) => (.running (embed pc'), { memory with transport })
      | (.returned _, transport) => (.returned ret, { memory with transport }))
    (hrunning : memory.transport.shuttingDown = false) :
    Returns access (embed .shuttingDown) memory r ↔
      r = (ret, { memory with
        transport := kick (answer (embed .kickNow) = .busy) memory.transport }) := by
  rw [returns_iff, hstep]
  simp only [kickStep, hrunning, Bool.false_eq_true, if_false, Continues]
  rw [returns_iff, hstep]
  simp only [kickStep, Continues]
  rw [returns_iff, hstep]
  by_cases hbusy : answer (embed .kickNow) = .busy
  · simp only [kickStep, hbusy, if_true, Continues]
    rw [returns_iff, hstep]
    simp [kickStep, Continues, kick]
  · simp [kickStep, hbusy, Continues, kick]

end Kick

end Sg200x.Ipc.Ioctl
