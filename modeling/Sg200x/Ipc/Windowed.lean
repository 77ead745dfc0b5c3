import Mathlib.Logic.Function.Basic
import Sg200x.Ipc.Bench
import Sg200x.Ipc.ThreadsFacts

/-!
# The windowed benchmark

`run_windowed_phase` of `rtos-bench.c` keeps up to `window` requests in flight and reaps the
responses as they come.  A step is a stretch of the function up to the next call of the library or
of the clock, or that call; the firmware executes requests in between.

The program is alone on its handle, so that the calls of the library publish requests and take
responses in their order.  A call that fails may still have moved messages, unless it failed with
`EAGAIN`.
-/

namespace Sg200x.Ipc.Windowed

open Shm App Driver Threads Library.Transition
open Bench (Timespec Answered U64 elapsedNanoseconds buildRequest validateResponse)

def maxSamples : ℕ := 1000000

def maxEchoDataBytes : ℕ := payloadSize - 1

def eintr : ℕ := 4
def eio : ℤ := 5
def ebadf : ℤ := 9
def eagain : ℕ := 11
def edeadlk : ℤ := 35
def eproto : ℤ := 71
def eoverflow : ℤ := 75
def enotconn : ℤ := 107
def etimedout : ℤ := 110

/-- What `parse_count`, `parse_payload_size` and `parse_window` let through. -/
structure Arguments where
  count : ℕ
  echoDataBytes : ℕ
  seedBase : U32
  window : ℕ
  useBatch : Bool
  count_le : count ≤ maxSamples
  echoDataBytes_le : echoDataBytes ≤ maxEchoDataBytes
  window_pos : 0 < window
  window_le : window ≤ slotCount

structure Ticket where
  sequence : U32
  seed : U32
  start : Timespec
  active : Bool

abbrev Tickets := Fin slotCount → Ticket

structure WindowStats where
  maxInFlight : ℕ
  sendEagain : ℕ
  receiveEagain : ℕ
  pollWakeups : ℕ
  submitCalls : ℕ
  reapCalls : ℕ

structure Events where
  pollIn : Bool
  pollOut : Bool

structure Revents extends Events where
  err : Bool
  hup : Bool
  nval : Bool

/-- The calls that a stretch ends with, and the beginnings of the loops. -/
inductive Pc
  | top
  | reap (progressed : Bool)
  | reaping (progressed : Bool)
  | completing (messages : List Slot)
  | submit (progressed : Bool)
  | clock (progressed : Bool)
  | submitting (progressed : Bool) (start : Timespec)
  | check (progressed : Bool)
  | waiting (events : Events)
  | returned (ret : ℤ)

/-- The variables of the function and the kernel.  `overrun` tells whether `latency` has been written
past its end. -/
structure State (arguments : Arguments) where
  kernel : Kernel
  tickets : Tickets
  latency : Option (Vector U64 arguments.count)
  latencySum : U64
  submitted : ℕ
  completed : ℕ
  inFlight : ℕ
  stats : WindowStats
  overrun : Bool
  pc : Pc

variable {arguments : Arguments}

namespace State

def goto (s : State arguments) (pc : Pc) : State arguments := { s with pc := pc }

def seed (s : State arguments) (index : ℕ) : U32 :=
  arguments.seedBase + BitVec.ofNat 32 (s.submitted + index)

def reapCount (s : State arguments) : ℕ := if arguments.useBatch then s.inFlight else 1

def submitCount (s : State arguments) : ℕ :=
  min (if arguments.useBatch then arguments.window - s.inFlight else 1)
    (arguments.count - s.submitted)

/-- The messages that are offered to the library. -/
def requests (s : State arguments) : List Slot :=
  (List.range s.submitCount).map fun index => buildRequest arguments.echoDataBytes (s.seed index)

/-- There is something to submit and room for it. -/
def canSubmit (s : State arguments) : Bool :=
  s.submitted < arguments.count ∧ s.inFlight < arguments.window

def events (s : State arguments) : Events := ⟨0 < s.inFlight, s.canSubmit⟩

/-- `latency[*completed] = …` and the sum. -/
def recordLatency (s : State arguments) (latency : U64) : State arguments :=
  match s.latency with
  | none => s
  | some samples =>
      if h : s.completed < arguments.count then
        { s with
          latency := some (samples.set s.completed latency h)
          latencySum := s.latencySum + latency }
      else { s with overrun := true }

end State

/-! ## Tickets -/

def findTicket (tickets : Tickets) (sequence : U32) : Option (Fin slotCount) :=
  (List.finRange slotCount).find? fun i => (tickets i).active ∧ (tickets i).sequence = sequence

def findFreeTicket (tickets : Tickets) : Option (Fin slotCount) :=
  (List.finRange slotCount).find? fun i => (tickets i).active = false

def completeResponse (message : Slot) (clock : Answered Timespec) (s : State arguments) :
    Except ℤ (State arguments) :=
  match clock with
  | .error errno => .error (-(errno : ℕ))
  | .ok stop =>
      match findTicket s.tickets message.sequence with
      | none => .error (-eproto)
      | some i =>
          let ret := validateResponse message arguments.echoDataBytes (s.tickets i).seed
          if ret ≠ 0 then .error ret
          else
            let recorded := s.recordLatency (elapsedNanoseconds (s.tickets i).start stop)
            .ok { recorded with
              tickets := Function.update s.tickets i { s.tickets i with active := false }
              inFlight := s.inFlight - 1
              completed := s.completed + 1 }

/-- A ticket for each request that has been submitted. -/
def takeTickets (start : Timespec) (seed : ℕ → U32) :
    ℕ → List Slot → Tickets → Except ℤ Tickets
  | _, [], tickets => .ok tickets
  | index, message :: messages, tickets =>
      match findTicket tickets message.sequence with
      | some _ => .error (-eproto)
      | none =>
          match findFreeTicket tickets with
          | none => .error (-eoverflow)
          | some i =>
              takeTickets start seed (index + 1) messages
                (Function.update tickets i ⟨message.sequence, seed index, start, true⟩)

/-! ## The calls of the library -/

inductive Reply
  | moved (count : ℕ)
  | failed (errno : ℕ+) (count : ℕ)

/-- What a reply says: the error and how much has been moved, of at most `count`. -/
def Reply.read (count : ℕ) : Reply → Option (Option ℕ+ × ℕ)
  | .moved n => if n = 0 ∨ count < n then none else some (none, n)
  | .failed errno n =>
      if count < n ∨ errno = eagain ∧ n ≠ 0 then none else some (some errno, n)

def reapCall (reply : Reply) (progressed : Bool) (s : State arguments) :
    Option (State arguments) := do
  let (error?, moved) ← reply.read s.reapCount
  let (messages, rings) ← take s.kernel.rings moved
  let t := { s with kernel := { s.kernel with rings := rings } }
  match error? with
  | none => some (t.goto (.completing (messages.map Response.message)))
  | some errno =>
      if errno = eagain then
        some { t with
          stats := { s.stats with receiveEagain := s.stats.receiveEagain + 1 }
          pc := .submit progressed }
      else some (t.goto (.returned (-(errno : ℕ))))

def submitCall (reply : Reply) (progressed : Bool) (start : Timespec) (s : State arguments) :
    Option (State arguments) := do
  let (error?, moved) ← reply.read s.submitCount
  let (stamped, kernel) ← publish s.kernel (s.requests.take moved)
  let t := { s with kernel := kernel }
  match error? with
  | none =>
      match takeTickets start s.seed 0 stamped s.tickets with
      | .error ret => some (t.goto (.returned ret))
      | .ok tickets =>
          let inFlight := s.inFlight + moved
          some { t with
            tickets := tickets
            submitted := s.submitted + moved
            inFlight := inFlight
            stats := { s.stats with maxInFlight := max s.stats.maxInFlight inFlight }
            pc := .submit true }
  | some errno =>
      if errno = eagain then
        some { t with
          stats := { s.stats with sendEagain := s.stats.sendEagain + 1 }
          pc := .check progressed }
      else some (t.goto (.returned (-(errno : ℕ))))

/-- What `sg2002_rtos_wait` returns. -/
inductive Wakeup
  | failed (errno : ℕ+)
  | timeout
  | ready (revents : Revents)

def wakeUp (events : Events) (s : State arguments) : Wakeup → State arguments
  | .failed errno => s.goto (if errno = eintr then .top else .returned (-(errno : ℕ)))
  | .timeout => s.goto (.returned (-etimedout))
  | .ready revents =>
      { s with
        stats := { s.stats with pollWakeups := s.stats.pollWakeups + 1 }
        pc :=
          if revents.nval then .returned (-ebadf)
          else if revents.err ∨ revents.hup then .returned (-enotconn)
          else if (revents.pollIn ∧ events.pollIn ∨ revents.pollOut ∧ events.pollOut) then .top
          else .returned (-eio) }

/-! ## The system -/

/-- A stretch of the function. -/
def run (s : State arguments) : Option (State arguments) :=
  match s.pc with
  | .top => some (s.goto (if s.completed < arguments.count then .reap false else .returned 0))
  | .reap progressed =>
      if 0 < s.inFlight then
        some { s with
          stats := { s.stats with reapCalls := s.stats.reapCalls + 1 }
          pc := .reaping progressed }
      else some (s.goto (.submit progressed))
  | .completing [] => some (s.goto (.reap true))
  | .submit progressed =>
      some (s.goto (if s.canSubmit then .clock progressed else .check progressed))
  | .check progressed =>
      some (s.goto
        (if s.completed = arguments.count then .returned 0
        else if progressed then .top
        else if s.events.pollIn = false ∧ s.events.pollOut = false then .returned (-edeadlk)
        else .waiting s.events))
  | _ => none

/-- A reading of the clock. -/
def clock (time : Answered Timespec) (s : State arguments) : Option (State arguments) :=
  match s.pc with
  | .completing (message :: messages) =>
      match completeResponse message time s with
      | .error ret => some (s.goto (.returned ret))
      | .ok t => some (t.goto (.completing messages))
  | .clock progressed =>
      match time with
      | .error errno => some (s.goto (.returned (-(errno : ℕ))))
      | .ok start =>
          some { s with
            stats := { s.stats with submitCalls := s.stats.submitCalls + 1 }
            pc := .submitting progressed start }
  | _ => none

/-- The firmware executes the request that is next. -/
def execute (mmio : Mmio) (s : State arguments) : Option (State arguments) := do
  let request ← s.kernel.rings.requests[s.kernel.rings.executed.length]?
  let rings := { s.kernel.rings with executed := s.kernel.rings.executed ++ [(mmio, request)] }
  if Within rings then some { s with kernel := { s.kernel with rings := rings } } else none

inductive Label
  | run
  | clock (time : Answered Timespec)
  | library (reply : Reply)
  | poll (wakeup : Wakeup)
  | execute (mmio : Mmio)

def step : Label → State arguments → Option (State arguments)
  | .run, s => run s
  | .clock time, s => clock time s
  | .library reply, s =>
      match s.pc with
      | .reaping progressed => reapCall reply progressed s
      | .submitting progressed start => submitCall reply progressed start s
      | _ => none
  | .poll wakeup, s =>
      match s.pc with
      | .waiting events => some (wakeUp events s wakeup)
      | _ => none
  | .execute mmio, s => execute mmio s

def Ticket.zero : Ticket := ⟨0#32, 0#32, ⟨0, 0⟩, false⟩

def WindowStats.zero : WindowStats := ⟨0, 0, 0, 0, 0, 0⟩

def State.initial (kernel : Kernel) (latency : Option (Vector U64 arguments.count)) :
    State arguments where
  kernel := kernel
  tickets _ := Ticket.zero
  latency := latency
  latencySum := 0#64
  submitted := 0
  completed := 0
  inFlight := 0
  stats := WindowStats.zero
  overrun := false
  pc := .top

/-- Every request has been answered and every answer taken. -/
structure Drained (kernel : Kernel) : Prop where
  executed : kernel.rings.executed.length = kernel.rings.requests.length
  delivered : kernel.rings.delivered = kernel.rings.requests.length

/-- A phase on a channel where nothing is under way. -/
def phase (arguments : Arguments) (kernel : Kernel) : System (State arguments) Label where
  start s := ∃ latency, s = State.initial kernel latency
  step := step

end Sg200x.Ipc.Windowed
