import Mathlib.Data.PNat.Notation
import Mathlib.Logic.Function.Basic
import Sg200x.Library.Transition
import Sg200x.Ipc.App

/-!
# The bounded-worker benchmark

`rtos-thread-bench.c`: worker threads that issue one request at a time, and a dispatcher that
submits their requests and reaps the responses in batches.  The threads share `struct
thread_phase` and read and write it under its lock only, so that a step is a section between
taking the lock and releasing it, or one of the dispatcher's calls outside of the lock.  A wait
on a condition may end at any time.

What the library, the clock and the eventfd answer is part of a step's label, and so is what
`poll_transport_or_worker` returns.
-/

namespace Sg200x.Ipc.Bench

open Shm App Library.Transition

abbrev U64 := BitVec 64

def maxWorkers : ℕ := 8

def eio : ℤ := 5
def eagain : ℤ := 11
def eproto : ℤ := 71

/-- A value, or the `errno` of a call that failed. -/
abbrev Answered (α : Type) := Except ℕ+ α

inductive WorkerState
  | starting
  | idle
  | ready
  | submitting
  | inFlight
  | complete
  | exited
  deriving DecidableEq

structure Timespec where
  sec : ℤ
  nsec : ℤ
  deriving DecidableEq

structure Worker where
  request : Slot
  start : Timespec
  state : WorkerState
  target : ℕ
  issued : ℕ
  seed : U32
  sequence : U32

/-- `struct phase_stats` but for what `poll_transport_or_worker` counts. -/
structure PhaseStats where
  maxReady : ℕ
  maxInFlight : ℕ
  maxOutstanding : ℕ
  sendEagain : ℕ
  receiveEagain : ℕ
  submitCalls : ℕ
  submitSuccesses : ℕ
  submittedMessages : ℕ
  reapCalls : ℕ
  reapSuccesses : ℕ
  reapedMessages : ℕ
  maxSubmitBatch : ℕ
  maxReapBatch : ℕ

/-- A request that the library has accepted under a sequence. -/
structure Request (W : ℕ) where
  sequence : U32
  worker : Fin W
  index : ℕ
  deriving DecidableEq

/-- A response, the worker it is credited to and the request it answers. -/
structure Credit (W : ℕ) where
  response : Slot
  worker : Fin W
  request : Option (Request W)

/-- What a run has done so far.  The code does not keep it.  A response answers the outstanding
request whose sequence it carries. -/
structure Ledger (W : ℕ) where
  issued : List (Fin W × ℕ)
  outstanding : List (Request W)
  credits : List (Credit W)

/-- The shared state of `W` workers.  `overrun` tells whether one of the arrays has been written
past its end. -/
structure ThreadPhase (W total : ℕ) where
  workers : Fin W → Worker
  stats : PhaseStats
  latency : Option (Vector U64 total)
  latencySum : U64
  completed : ℕ
  started : ℕ
  ready : ℕ
  submitting : ℕ
  inFlight : ℕ
  seedBase : U32
  echoDataBytes : ℕ
  go : Bool
  stop : Bool
  error : ℤ
  ledger : Ledger W
  overrun : Bool

/-- Where a worker thread is: not created, before its first section, at the start gate, or in the
wait for the completion of an operation. -/
inductive WorkerPc
  | absent
  | created
  | gate
  | waiting (operation : ℕ)
  | exited
  deriving DecidableEq

/-- Where the main thread is, from the creation of the workers over `dispatch_phase` to the end
of `run_phase`. -/
inductive DispatcherPc (W : ℕ)
  | creating (created : ℕ)
  | top
  | reap
  | reaping (requested : ℕ)
  | reaped (messages : List Slot) (stop : Timespec)
  | submit (progressed : Bool)
  | submitting (progressed : Bool) (selected : List (Fin W × Slot))
  | submitted (progressed : Bool) (selected : List (Fin W × Slot)) (ret : ℤ) (count : ℕ)
      (sequences : List U32)
  | wait
  | polling
  | returned (ret : ℤ)
  | joining (ret : ℤ)
  | done (ret : ℤ)

structure State (W total : ℕ) where
  phase : ThreadPhase W total
  threads : Fin W → WorkerPc
  dispatcher : DispatcherPc W

variable {W total : ℕ}

/-! ## Requests and responses -/

def elapsedNanoseconds (start stop : Timespec) : U64 :=
  BitVec.ofInt 64 ((stop.sec - start.sec) * 1000000000 + (stop.nsec - start.nsec))

def workerTarget (total workers worker : ℕ) : ℕ :=
  total / workers + if worker < total % workers then 1 else 0

/-- `build_request` into a zeroed message. -/
def buildRequest (echoDataBytes : ℕ) (seed : U32) : Slot :=
  if echoDataBytes = 0 then
    { sequence := 0#32
      length := BitVec.ofNat 16 valueMessageSize
      payload := Payload.writeValue Slot.zero.payload cmdPing seed }
  else
    { sequence := 0#32
      length := BitVec.ofNat 16 (echoDataBytes + 1)
      payload := Vector.ofFn fun i =>
        if i.val = 0 then cmdEcho
        else if i.val < echoDataBytes + 1 then (seed + BitVec.ofNat 32 (i.val * 17)).setWidth 8
        else 0#8 }

def validateResponse (response : Slot) (echoDataBytes : ℕ) (seed : U32) : ℤ :=
  if echoDataBytes = 0 then
    if response.length ≠ BitVec.ofNat 16 valueMessageSize ∨ response.payload.get ⟨0, payloadSize_pos⟩ ≠ cmdPing then
      -eproto
    else if messageValue response.payload = seed ^^^ pingXor then 0
    else -eproto
  else if response.length ≠ BitVec.ofNat 16 (echoDataBytes + 1) ∨
      response.payload.get ⟨0, payloadSize_pos⟩ ≠ cmdEcho then -eproto
  else if ∀ i : Fin payloadSize, 1 ≤ i.val ∧ i.val < echoDataBytes + 1 →
      response.payload.get i = (seed + BitVec.ofNat 32 (i.val * 17)).setWidth 8 then 0
  else -eproto

/-! ## The ledger -/

def Ledger.issue (ledger : Ledger W) (w : Fin W) (index : ℕ) : Ledger W :=
  { ledger with issued := ledger.issued ++ [(w, index)] }

def Ledger.accept (ledger : Ledger W) (request : Request W) : Ledger W :=
  { ledger with outstanding := ledger.outstanding ++ [request] }

def Ledger.credit (ledger : Ledger W) (w : Fin W) (response : Slot) : Ledger W :=
  { ledger with
    outstanding := ledger.outstanding.filter fun request => request.sequence ≠ response.sequence
    credits := ledger.credits ++ [⟨response, w,
      ledger.outstanding.find? fun request => request.sequence = response.sequence⟩] }

/-- The requests that have been answered. -/
def Ledger.credited (ledger : Ledger W) : List (Fin W × ℕ) :=
  ledger.credits.filterMap fun credit => credit.request.map fun request =>
    (request.worker, request.index)

/-! ## Sections -/

namespace ThreadPhase

def setWorker (phase : ThreadPhase W total) (w : Fin W) (worker : Worker) : ThreadPhase W total :=
  { phase with workers := Function.update phase.workers w worker }

def setState (phase : ThreadPhase W total) (w : Fin W) (state : WorkerState) :
    ThreadPhase W total :=
  phase.setWorker w { phase.workers w with state := state }

end ThreadPhase

open ThreadPhase

def updateDepthStats (phase : ThreadPhase W total) : ThreadPhase W total :=
  { phase with stats := { phase.stats with
    maxReady := max phase.stats.maxReady phase.ready
    maxInFlight := max phase.stats.maxInFlight phase.inFlight
    maxOutstanding := max phase.stats.maxOutstanding
      (phase.ready + phase.submitting + phase.inFlight) } }

def failPhaseLocked (phase : ThreadPhase W total) (error : ℤ) : ThreadPhase W total :=
  { phase with
    error := if phase.error = 0 then (if error ≠ 0 then error else -eio) else phase.error
    stop := true }

/-- The seed and the request of an operation. -/
def prepare (phase : ThreadPhase W total) (w : Fin W) (operation : ℕ) : ThreadPhase W total :=
  let seed := phase.seedBase + BitVec.ofNat 32 (operation * W + w)
  phase.setWorker w { phase.workers w with
    seed := seed
    request := buildRequest phase.echoDataBytes seed }

/-- The worker is ready with its request. -/
def issue (phase : ThreadPhase W total) (w : Fin W) (operation : ℕ) (start : Timespec) :
    ThreadPhase W total :=
  let worker := phase.workers w
  updateDepthStats { phase.setWorker w { worker with
      start := start
      state := .ready
      issued := worker.issued + 1 } with
    ready := phase.ready + 1
    ledger := phase.ledger.issue w (operation * W + w) }

/-- `worker_main` from the test of its `for` loop to the next wait, or to its end. -/
def runOperation (phase : ThreadPhase W total) (w : Fin W) (operation : ℕ)
    (clock : Answered Timespec) (signal : ℤ) : ThreadPhase W total × WorkerPc :=
  if operation < (phase.workers w).target ∧ phase.stop = false then
    let prepared := prepare phase w operation
    match clock with
    | .error errno => ((failPhaseLocked prepared (-errno)).setState w .exited, .exited)
    | .ok start =>
        let issued := issue prepared w operation start
        if signal ≠ 0 then ((failPhaseLocked issued signal).setState w .exited, .exited)
        else (issued, .waiting operation)
  else (phase.setState w .exited, .exited)

/-- The section of a worker that begins when it takes the lock, or is woken. -/
def workerSection (phase : ThreadPhase W total) (w : Fin W) (clock : Answered Timespec)
    (signal : ℤ) : WorkerPc → Option (ThreadPhase W total × WorkerPc)
  | .absent => none
  | .created =>
      let started := { phase.setState w .idle with started := phase.started + 1 }
      if phase.go = false ∧ phase.stop = false then some (started, .gate)
      else some (runOperation started w 0 clock signal)
  | .gate =>
      if phase.go = false ∧ phase.stop = false then some (phase, .gate)
      else some (runOperation phase w 0 clock signal)
  | .waiting operation =>
      if (phase.workers w).state ≠ .complete ∧ phase.stop = false then
        some (phase, .waiting operation)
      else
        let resumed := if phase.stop = false then phase.setState w .idle else phase
        some (runOperation resumed w (operation + 1) clock signal)
  | .exited => none

def findInFlightWorker (phase : ThreadPhase W total) (sequence : U32) : Option (Fin W) :=
  (List.finRange W).find? fun w =>
    (phase.workers w).state = .inFlight ∧ (phase.workers w).sequence = sequence

/-- `phase->latency[phase->completed] = latency` and the sum. -/
def recordLatency (phase : ThreadPhase W total) (latency : U64) : ThreadPhase W total :=
  match phase.latency with
  | none => phase
  | some samples =>
      if h : phase.completed < total then
        { phase with
          latency := some (samples.set phase.completed latency h)
          latencySum := phase.latencySum + latency }
      else { phase with overrun := true }

def creditWorker (phase : ThreadPhase W total) (w : Fin W) (response : Slot) (stop : Timespec) :
    ThreadPhase W total :=
  let recorded := recordLatency phase (elapsedNanoseconds (phase.workers w).start stop)
  { recorded.setState w .complete with
    inFlight := phase.inFlight - 1
    completed := phase.completed + 1
    ledger := phase.ledger.credit w response }

/-- The `for` loop of `reap_ready_responses`, up to the first response that nobody waits for. -/
def creditResponses (stop : Timespec) : List Slot → ThreadPhase W total →
    Except (ThreadPhase W total) (ThreadPhase W total)
  | [], phase => .ok phase
  | response :: messages, phase =>
      match findInFlightWorker phase response.sequence with
      | none => .error (failPhaseLocked phase (-eproto))
      | some w =>
          if validateResponse response phase.echoDataBytes (phase.workers w).seed ≠ 0 then
            .error (failPhaseLocked phase (-eproto))
          else creditResponses stop messages (creditWorker phase w response stop)

/-- `messages[count]` and `selected[count]` are written for a worker. -/
def selectWorker (phase : ThreadPhase W total) (w : Fin W) (count : ℕ) : ThreadPhase W total :=
  { phase.setState w .submitting with
    ready := phase.ready - 1
    submitting := phase.submitting + 1
    overrun := phase.overrun || decide (maxWorkers ≤ count) }

/-- The first `for` loop of `submit_ready_workers`. -/
def selectWorkers : List (Fin W) → ThreadPhase W total → List (Fin W × Slot) →
    ThreadPhase W total × List (Fin W × Slot)
  | [], phase, selected => (phase, selected)
  | w :: workers, phase, selected =>
      if (phase.workers w).state ≠ .ready then selectWorkers workers phase selected
      else
        selectWorkers workers (selectWorker phase w selected.length)
          (selected ++ [(w, (phase.workers w).request)])

def putBackWorker (phase : ThreadPhase W total) (w : Fin W) : ThreadPhase W total :=
  { phase.setState w .ready with
    submitting := phase.submitting - 1
    ready := phase.ready + 1 }

def putBackWorkers (workers : List (Fin W)) (phase : ThreadPhase W total) : ThreadPhase W total :=
  workers.foldl putBackWorker phase

def launchWorker (phase : ThreadPhase W total) (w : Fin W) (sequence : U32) :
    ThreadPhase W total :=
  let worker := phase.workers w
  { phase.setWorker w { worker with sequence := sequence, state := .inFlight } with
    submitting := phase.submitting - 1
    inFlight := phase.inFlight + 1
    ledger := phase.ledger.accept ⟨sequence, w, (worker.issued - 1) * W + w⟩ }

/-- The loop over the messages that were accepted, up to the first bad sequence. -/
def launchWorkers : List (Fin W × U32) → ThreadPhase W total →
    Except (ThreadPhase W total) (ThreadPhase W total)
  | [], phase => .ok phase
  | (w, sequence) :: accepted, phase =>
      if sequence = 0#32 ∨ (findInFlightWorker phase sequence).isSome then
        .error (failPhaseLocked phase (-eproto))
      else launchWorkers accepted (launchWorker phase w sequence)

/-- The second section of `submit_ready_workers`, and what it returns. -/
def applySubmit (phase : ThreadPhase W total) (selected : List (Fin W)) (ret : ℤ) (submitted : ℕ)
    (sequences : List U32) : ThreadPhase W total × ℤ :=
  if ret ≠ 0 ∧ ret ≠ -eagain then (failPhaseLocked (putBackWorkers selected phase) ret, ret)
  else
    let counted := { phase with stats := { phase.stats with
      sendEagain := phase.stats.sendEagain + if ret = -eagain then 1 else 0 } }
    if ret = 0 ∧ (submitted = 0 ∨ selected.length < submitted) then
      (failPhaseLocked counted (-eproto), -eproto)
    else
      match launchWorkers ((selected.zip sequences).take submitted) counted with
      | .error failed => (failed, -eproto)
      | .ok launched => (updateDepthStats (putBackWorkers (selected.drop submitted) launched), 0)

def countSubmit (stats : PhaseStats) (submitted : ℕ) : PhaseStats :=
  if 0 < submitted then
    { stats with
      submitSuccesses := stats.submitSuccesses + 1
      submittedMessages := stats.submittedMessages + submitted
      maxSubmitBatch := max stats.maxSubmitBatch submitted }
  else stats

def countReap (stats : PhaseStats) (reaped : ℕ) : PhaseStats :=
  { stats with
    reapSuccesses := stats.reapSuccesses + 1
    reapedMessages := stats.reapedMessages + reaped
    maxReapBatch := max stats.maxReapBatch reaped }

/-! ## The main thread -/

namespace State

def goto (s : State W total) (dispatcher : DispatcherPc W) : State W total :=
  { s with dispatcher := dispatcher }

def withPhase (s : State W total) (phase : ThreadPhase W total) : State W total :=
  { s with phase := phase }

def finished (s : State W total) : Bool := s.phase.error ≠ 0 || s.phase.completed = total

end State

/-- The end of a turn of `dispatch_phase`. -/
def afterSubmit (progressed : Bool) : DispatcherPc W := if progressed then .top else .wait

/-- The next section of the dispatcher. -/
def dispatchSection (s : State W total) : Option (State W total) :=
  match s.dispatcher with
  | .top => some (s.goto (if s.finished then .returned s.phase.error else .reap))
  | .reap =>
      if s.phase.inFlight = 0 then some (s.goto (.submit false))
      else
        some ((s.withPhase { s.phase with
          stats := { s.phase.stats with reapCalls := s.phase.stats.reapCalls + 1 }
          overrun := s.phase.overrun || decide (maxWorkers < s.phase.inFlight) }).goto
            (.reaping s.phase.inFlight))
  | .reaped messages stop =>
      match creditResponses stop messages s.phase with
      | .error failed => some ((s.withPhase failed).goto (.returned (-eproto)))
      | .ok credited => some ((s.withPhase (updateDepthStats credited)).goto (.submit true))
  | .submit progressed =>
      let (phase, selected) := selectWorkers (List.finRange W) s.phase []
      let phase := updateDepthStats phase
      if selected = [] then some ((s.withPhase phase).goto (afterSubmit progressed))
      else
        some ((s.withPhase { phase with
          stats := { phase.stats with submitCalls := phase.stats.submitCalls + 1 } }).goto
            (.submitting progressed selected))
  | .submitted progressed selected ret count sequences =>
      let (phase, result) := applySubmit s.phase (selected.map Prod.fst) ret count sequences
      if result ≠ 0 then some ((s.withPhase phase).goto (.returned result))
      else
        some ((s.withPhase { phase with stats := countSubmit phase.stats count }).goto
          (afterSubmit (progressed || decide (0 < count))))
  | .wait =>
      if s.finished then
        some (s.goto (if s.phase.error ≠ 0 then .returned s.phase.error else .top))
      else some (s.goto .polling)
  | _ => none

/-- `sg2002_rtos_message_reap_batch` and what follows it outside of the lock. -/
def reapCall (s : State W total) (ret : ℤ) (messages : List Slot) (clock : Answered Timespec) :
    Option (State W total) :=
  match s.dispatcher with
  | .reaping requested =>
      if ret = -eagain then
        some ((s.withPhase { s.phase with stats := { s.phase.stats with
          receiveEagain := s.phase.stats.receiveEagain + 1 } }).goto (.submit false))
      else if ret ≠ 0 then some (s.goto (.returned ret))
      else if messages.length = 0 ∨ requested < messages.length then
        some (s.goto (.returned (-eproto)))
      else
        match clock with
        | .error errno => some (s.goto (.returned (-errno)))
        | .ok stop =>
            some ((s.withPhase { s.phase with
              stats := countReap s.phase.stats messages.length }).goto (.reaped messages stop))
  | _ => none

/-- `sg2002_rtos_message_submit_batch`: what it returns, how many messages it has accepted and
the sequences it leaves in the messages.  It never accepts more than it is given when it
returns `-EAGAIN`. -/
def submitCall (s : State W total) (ret : ℤ) (submitted : ℕ) (sequences : List U32) :
    Option (State W total) :=
  match s.dispatcher with
  | .submitting progressed selected =>
      if sequences.length = selected.length ∧ (ret = -eagain → submitted ≤ selected.length) then
        some (s.goto (.submitted progressed selected ret submitted sequences))
      else none
  | _ => none

/-- `pthread_cond_init` and `pthread_create` of the next worker. -/
def createWorker (s : State W total) (ret : ℤ) : Option (State W total) :=
  match s.dispatcher with
  | .creating created =>
      if h : created < W then
        let w : Fin W := ⟨created, h⟩
        let phase := s.phase.setWorker w { s.phase.workers w with
          state := .starting
          target := workerTarget total W w }
        if ret ≠ 0 then some ((s.withPhase (failPhaseLocked phase (-ret))).goto (.joining (-ret)))
        else
          some { phase := phase
                 threads := Function.update s.threads w .created
                 dispatcher := .creating (created + 1) }
      else none
  | _ => none

/-- The main thread has seen all workers start. -/
def openGate (s : State W total) (clock : Answered Timespec) : Option (State W total) :=
  match s.dispatcher with
  | .creating created =>
      if created = W ∧ (s.phase.started < W → s.phase.error ≠ 0) then
        match clock with
        | .error errno =>
            some ((s.withPhase (failPhaseLocked s.phase (-errno))).goto (.joining (-errno)))
        | .ok _ => some ((s.withPhase { s.phase with go := true }).goto .top)
      else none
  | _ => none

/-- `run_phase` goes on to join the workers. -/
def leaveDispatch (s : State W total) (ret : ℤ) : State W total :=
  if ret ≠ 0 then (s.withPhase (failPhaseLocked s.phase ret)).goto (.joining ret)
  else s.goto (.joining ret)

/-- What `run_phase` does with the result of `dispatch_phase`. -/
def finishDispatch (s : State W total) (clock : Answered Timespec) : Option (State W total) :=
  match s.dispatcher with
  | .returned ret =>
      some (leaveDispatch s (match clock with
        | .error errno => if ret = 0 then -errno else ret
        | .ok _ => ret))
  | _ => none

def joinWorkers (s : State W total) : Option (State W total) :=
  match s.dispatcher with
  | .joining ret =>
      if ∀ w, s.threads w = .exited ∨ s.threads w = .absent then
        some (s.goto (.done (if ret = 0 ∧ s.phase.completed ≠ total then -eio else ret)))
      else none
  | _ => none

/-! ## The system -/

inductive Label (W : ℕ)
  | create (ret : ℤ)
  | openGate (clock : Answered Timespec)
  | worker (w : Fin W) (clock : Answered Timespec) (signal : ℤ)
  | dispatch
  | reap (ret : ℤ) (messages : List Slot) (clock : Answered Timespec)
  | submit (ret : ℤ) (submitted : ℕ) (sequences : List U32)
  | poll (ret : ℤ)
  | finish (clock : Answered Timespec)
  | join

def step : Label W → State W total → Option (State W total)
  | .create ret, s => createWorker s ret
  | .openGate clock, s => openGate s clock
  | .worker w clock signal, s =>
      (workerSection s.phase w clock signal (s.threads w)).map fun (phase, pc) =>
        { s with phase := phase, threads := Function.update s.threads w pc }
  | .dispatch, s => dispatchSection s
  | .reap ret messages clock, s => reapCall s ret messages clock
  | .submit ret submitted sequences, s => submitCall s ret submitted sequences
  | .poll ret, s =>
      match s.dispatcher with
      | .polling => some (s.goto (if ret ≠ 0 then .returned ret else .top))
      | _ => none
  | .finish clock, s => finishDispatch s clock
  | .join, s => joinWorkers s

def Worker.zero : Worker := ⟨Slot.zero, ⟨0, 0⟩, .starting, 0, 0, 0#32, 0#32⟩

def PhaseStats.zero : PhaseStats := ⟨0, 0, 0, 0, 0, 0, 0, 0, 0, 0, 0, 0, 0⟩

/-- `struct thread_phase phase = {0}` with the arguments of `run_phase`. -/
def ThreadPhase.initial (seedBase : U32) (echoDataBytes : ℕ) (latency : Option (Vector U64 total)) :
    ThreadPhase W total where
  workers _ := .zero
  stats := .zero
  latency := latency
  latencySum := 0#64
  completed := 0
  started := 0
  ready := 0
  submitting := 0
  inFlight := 0
  seedBase := seedBase
  echoDataBytes := echoDataBytes
  go := false
  stop := false
  error := 0
  ledger := ⟨[], [], []⟩
  overrun := false

def State.initial (seedBase : U32) (echoDataBytes : ℕ) (latency : Option (Vector U64 total)) :
    State W total where
  phase := .initial seedBase echoDataBytes latency
  threads _ := .absent
  dispatcher := .creating 0

/-- `run_phase` with `W` workers and `total` requests. -/
def benchmark (W total : ℕ) : System (State W total) (Label W) where
  start s := ∃ seedBase echoDataBytes latency, s = .initial seedBase echoDataBytes latency
  step := step

end Sg200x.Ipc.Bench
