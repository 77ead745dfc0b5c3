import Sg200x.Ipc.RingCore
import Sg200x.Library.Transition

/-!
# Timeouts

The waits of `sg2002_rtos.c` and the loops of the calls around them, with what they make of
a clock and of the results of `poll`.  Return values are those of C.  What a call does under
its lock is reduced to the value that decides how the loop goes on.
-/

namespace Sg200x.Ipc.Timeout

open RingCore Library.Transition

abbrev U64 := BitVec 64

def uint32Max : U32 := 0xFFFFFFFF#32
def intMax : U32 := 0x7FFFFFFF#32

def eintr : ℤ := 4
def eagain : ℤ := 11
def enomem : ℤ := 12
def efault : ℤ := 14
def einval : ℤ := 22
def eproto : ℤ := 71
def emsgsize : ℤ := 90
def enobufs : ℤ := 105
def etimedout : ℤ := 110

/-! ## `poll` and the clock -/

abbrev PollEvents := BitVec 16

def pollin : PollEvents := 0x0001#16
def pollout : PollEvents := 0x0004#16
def pollerr : PollEvents := 0x0008#16
def pollhup : PollEvents := 0x0010#16
def pollnval : PollEvents := 0x0020#16

/-- The `revents` of the device and of `pending_fd`, which is polled for `POLLIN` if at all.
`poll` returns how many of them are not zero. -/
structure Ready where
  device : PollEvents
  pending : PollEvents
  asked : pending &&& ~~~ (pollin ||| pollerr ||| pollhup ||| pollnval) = 0#16
  some : device ≠ 0#16 ∨ pending ≠ 0#16

/-- The errors of `poll` on Linux. -/
inductive PollError
  | efault
  | eintr
  | einval
  | enomem
  deriving DecidableEq

def PollError.errno : PollError → ℤ
  | .efault => Timeout.efault
  | .eintr => Timeout.eintr
  | .einval => Timeout.einval
  | .enomem => Timeout.enomem

inductive PollResult
  | failed (error : PollError)
  | timedOut
  | ready (events : Ready)

/-- A `poll` with a negative timeout waits until a descriptor is ready. -/
def PollResult.possible (timeout : ℤ) : PollResult → Bool
  | .timedOut => decide (0 ≤ timeout)
  | _ => true

/-- `CLOCK_MONOTONIC` counts nanoseconds in a signed word of 64 bits. -/
def clockEnd : ℕ := 2 ^ 63 / 1000000

/-- What a step gets from outside. -/
inductive Input
  /-- What `monotonic_milliseconds` returns. -/
  | clock (now : ℕ)
  | poll (result : PollResult)
  /-- What a call that tries again does under its lock. -/
  | attempt (ret : ℤ)
  /-- The body of the first loop of `sg2002_rtos_message_call`; `full` if `retain_pending`
  finds no room. -/
  | send (sendRet receiveRet : ℤ) (full : Bool)
  /-- The body of the second loop: what `take_pending_sequence` and
  `receive_from_kernel_locked` return, whether the response matches, and what `copy_message`
  returns. -/
  | receive (pendingResult receiveRet : ℤ) (sequenceMatches full : Bool) (copyRet : ℤ)

/-! ## Conversions of the remaining time -/

/-- `remaining` from `deadline - now`. -/
def remainingOf (difference : U64) : U32 :=
  if uint32Max.setWidth 64 ≤ difference then uint32Max - 1#32 else difference.setWidth 32

/-- The timeout that is passed to `poll`; `(int)` reads a word as a signed one. -/
def pollTimeout (remaining : U32) : ℤ :=
  if remaining = uint32Max then -1
  else if intMax < remaining then intMax.toInt
  else remaining.toInt

/-- A conversion of the remaining time: the value and what it becomes. -/
structure Conversion where
  value : ℤ
  result : ℤ
  deriving DecidableEq

def Conversion.Exact (conversion : Conversion) : Prop := conversion.result = conversion.value

/-- `(uint32_t)difference`. -/
def remainingConversion (difference : U64) : Conversion :=
  ⟨difference.toNat, (remainingOf difference).toNat⟩

/-- `(int)remaining`, where it is reached. -/
def pollConversions (remaining : U32) : List Conversion :=
  if remaining = uint32Max ∨ intMax < remaining then [] else [⟨remaining.toNat, remaining.toInt⟩]

/-! ## `sg2002_rtos_wait` -/

inductive WaitPc
  | start (timeoutMs : U32)
  | poll (timeoutMs : U32) (deadline : U64) (remaining : U32)
  | check (timeoutMs : U32) (deadline : U64)

/-- The `revents` that `sg2002_rtos_wait` makes of those of the two descriptors. -/
def Ready.revents (events : Ready) : PollEvents :=
  events.device |||
    (if events.pending &&& pollin ≠ 0#16 then pollin else 0#16) |||
    (if events.pending &&& (pollerr ||| pollhup ||| pollnval) ≠ 0#16 then pollerr else 0#16)

/-- `sg2002_rtos_wait`, after the checks of its arguments: what it returns. -/
def waitStep (input : Input) : WaitPc → Option (Outcome WaitPc ℤ)
  | .start timeoutMs =>
      if timeoutMs = uint32Max then some (.running (.poll timeoutMs 0#64 timeoutMs))
      else
        match input with
        | .clock now =>
            some (.running (.poll timeoutMs (BitVec.ofNat 64 now + timeoutMs.setWidth 64) timeoutMs))
        | _ => none
  | .poll timeoutMs deadline remaining =>
      match input with
      | .poll result =>
          if result.possible (pollTimeout remaining) then
            match result with
            | .failed error => some (.returned (-error.errno))
            | .ready events => some (.returned (if events.revents ≠ 0#16 then 1 else 0))
            | .timedOut =>
                if timeoutMs = uint32Max then some (.returned 0)
                else some (.running (.check timeoutMs deadline))
          else none
      | _ => none
  | .check timeoutMs deadline =>
      match input with
      | .clock now =>
          if deadline ≤ BitVec.ofNat 64 now then some (.returned 0)
          else
            some (.running (.poll timeoutMs deadline (remainingOf (deadline - BitVec.ofNat 64 now))))
      | _ => none

/-- The timeouts that the step passes to `poll`. -/
def WaitPc.polls : WaitPc → List ℤ
  | .poll _ _ remaining => [pollTimeout remaining]
  | _ => []

def WaitPc.conversions (input : Input) : WaitPc → List Conversion
  | .poll _ _ remaining => pollConversions remaining
  | .check _ deadline =>
      match input with
      | .clock now =>
          if deadline ≤ BitVec.ofNat 64 now then []
          else [remainingConversion (deadline - BitVec.ofNat 64 now)]
      | _ => []
  | _ => []

/-! ## The calls -/

inductive Call
  | wait
  | messageSend
  | messageReceive
  | messageSubmitBatch
  | messageReapBatch
  | messageCall
  deriving DecidableEq

/-- What a call returns when its time is over. -/
def Call.timedOut : Call → ℤ
  | .wait => 0
  | _ => -etimedout

/-- Where a wait of `sg2002_rtos_message_call` leads back to. -/
inductive CallLoop
  | send
  | receive
  deriving DecidableEq

inductive Pc
  /-- Before `timeout_deadline`. -/
  | start
  | wait (pc : WaitPc)
  /-- The loop of a call that tries again: under the lock, and in `wait_for_events`. -/
  | attempt (deadline : U64)
  | updateRemaining (deadline : U64)
  | waitForEvents (deadline : U64) (pc : WaitPc)
  -- `sg2002_rtos_message_call`
  | send (deadline : U64)
  | receive (deadline : U64)
  | checkDeadline (deadline : U64)
  /-- `wait_for_kernel_events`. -/
  | kernelUpdate (deadline : U64) (loop : CallLoop)
  | kernelPoll (deadline : U64) (loop : CallLoop) (remaining : U32)
  | returned (ret : ℤ)

def CallLoop.pc (deadline : U64) : CallLoop → Pc
  | .send => .send deadline
  | .receive => .receive deadline

/-- A result that makes a call wait. -/
def again (ret : ℤ) : Bool := ret = -eagain || ret = -etimedout

/-- `timeout_deadline`. -/
def timeoutDeadline (timeoutMs : U32) (now : ℕ) : U64 :=
  if timeoutMs = 0#32 ∨ timeoutMs = uint32Max then 0#64
  else BitVec.ofNat 64 now + timeoutMs.setWidth 64

/-- `update_remaining`, with the clock that it reads. -/
def updateRemaining (timeoutMs : U32) (deadline : U64) (now : ℕ) : Except ℤ U32 :=
  if timeoutMs = uint32Max then .ok uint32Max
  else if deadline ≤ BitVec.ofNat 64 now then .error (-etimedout)
  else .ok (remainingOf (deadline - BitVec.ofNat 64 now))

/-- The first loop of `sg2002_rtos_message_call`. -/
def sendStep (deadline : U64) (sendRet receiveRet : ℤ) (full : Bool) : Pc :=
  if sendRet = 0 then .receive deadline
  else if !again sendRet then .returned sendRet
  else if receiveRet = 0 then
    if full then .returned (-enobufs) else .send deadline
  else if !again receiveRet then .returned receiveRet
  else .kernelUpdate deadline .send

/-- The second loop; `deadline` is not zero if the call has one. -/
def receiveStep (deadline : U64) (pendingResult receiveRet : ℤ) (sequenceMatches full : Bool)
    (copyRet : ℤ) : Pc :=
  if pendingResult < 0 then .returned pendingResult
  else if 0 < pendingResult then .returned copyRet
  else if again receiveRet then .kernelUpdate deadline .receive
  else if receiveRet ≠ 0 then .returned receiveRet
  else if sequenceMatches then .returned copyRet
  else if full then .returned (-enobufs)
  else if deadline ≠ 0#64 then .checkDeadline deadline
  else .receive deadline

/-- `copy_message` and `take_pending_sequence` have these results. -/
def Input.possible : Input → Bool
  | .receive pendingResult _ _ _ copyRet =>
      (pendingResult = -eproto || pendingResult = 0 || pendingResult = 1) &&
        (copyRet = 0 || copyRet = -emsgsize || copyRet = -einval)
  | _ => true

def next (call : Call) (timeoutMs : U32) (input : Input) : Pc → Option Pc
  | .start =>
      match call with
      | .wait => some (.wait (.start timeoutMs))
      | .messageCall =>
          match input with
          | .clock now => some (.send (timeoutDeadline timeoutMs now))
          | _ => none
      | _ =>
          match input with
          | .clock now => some (.attempt (timeoutDeadline timeoutMs now))
          | _ => none
  | .wait pc =>
      match waitStep input pc with
      | some (.running pc') => some (.wait pc')
      | some (.returned ret) => some (.returned ret)
      | none => none
  | .attempt deadline =>
      match input with
      | .attempt ret => some (if !again ret then .returned ret else .updateRemaining deadline)
      | _ => none
  | .updateRemaining deadline =>
      if timeoutMs = 0#32 then some (.returned (-eagain))
      else
        match input with
        | .clock now =>
            match updateRemaining timeoutMs deadline now with
            | .error ret => some (.returned ret)
            | .ok remaining => some (.waitForEvents deadline (.start remaining))
        | _ => none
  | .waitForEvents deadline pc =>
      match waitStep input pc with
      | some (.running pc') => some (.waitForEvents deadline pc')
      | some (.returned ret) =>
          some (if ret < 0 then .returned ret
            else if ret = 0 then .returned (-etimedout)
            else .attempt deadline)
      | none => none
  | .send deadline =>
      match input with
      | .send sendRet receiveRet full => some (sendStep deadline sendRet receiveRet full)
      | _ => none
  | .receive deadline =>
      match input with
      | .receive pendingResult receiveRet sequenceMatches full copyRet =>
          some (receiveStep deadline pendingResult receiveRet sequenceMatches full copyRet)
      | _ => none
  | .checkDeadline deadline =>
      match input with
      | .clock now =>
          some (if deadline ≤ BitVec.ofNat 64 now then .returned (-etimedout) else .receive deadline)
      | _ => none
  | .kernelUpdate deadline loop =>
      if timeoutMs = 0#32 then some (.returned (-eagain))
      else
        match input with
        | .clock now =>
            match updateRemaining timeoutMs deadline now with
            | .error ret => some (.returned ret)
            | .ok remaining => some (.kernelPoll deadline loop remaining)
        | _ => none
  | .kernelPoll deadline loop remaining =>
      match input with
      | .poll result =>
          if result.possible (pollTimeout remaining) then
            match result with
            | .failed error => some (.returned (-error.errno))
            | .timedOut => some (.kernelUpdate deadline loop)
            | .ready _ => some (loop.pc deadline)
          else none
      | _ => none
  | .returned _ => none

def Pc.polls : Pc → List ℤ
  | .wait pc | .waitForEvents _ pc => pc.polls
  | .kernelPoll _ _ remaining => [pollTimeout remaining]
  | _ => []

/-- The conversions of the step; `deadline - now` is also converted where
`sg2002_rtos_message_call` tests its deadline. -/
def Pc.conversions (timeoutMs : U32) (input : Input) : Pc → List Conversion
  | .wait pc | .waitForEvents _ pc => pc.conversions input
  | .updateRemaining deadline | .kernelUpdate deadline _ =>
      match input with
      | .clock now =>
          if timeoutMs = 0#32 ∨ timeoutMs = uint32Max ∨ deadline ≤ BitVec.ofNat 64 now then []
          else [remainingConversion (deadline - BitVec.ofNat 64 now)]
      | _ => []
  | .kernelPoll _ _ remaining => pollConversions remaining
  | .checkDeadline deadline =>
      match input with
      | .clock now =>
          if deadline ≤ BitVec.ofNat 64 now then []
          else
            [⟨(deadline - BitVec.ofNat 64 now).toNat,
              ((deadline - BitVec.ofNat 64 now).setWidth 32).toNat⟩]
      | _ => []
  | _ => []

/-! ## Runs -/

structure State where
  /-- The time at which the call started. -/
  started : ℕ
  now : ℕ
  pc : Pc
  polls : List ℤ
  conversions : List Conversion

/-- The clock does not go back. -/
def Input.now (now : ℕ) : Input → ℕ
  | .clock now' => now'
  | _ => now

def step (call : Call) (timeoutMs : U32) (input : Input) (s : State) : Option State :=
  if s.now ≤ input.now s.now ∧ input.now s.now < clockEnd ∧ input.possible then
    (next call timeoutMs input s.pc).map fun pc =>
      { s with
        now := input.now s.now
        pc := pc
        polls := s.polls ++ s.pc.polls
        conversions := s.conversions ++ s.pc.conversions timeoutMs input }
  else none

structure Start (s : State) : Prop where
  now : s.now = s.started
  running : s.now < clockEnd
  pc : s.pc = .start
  polls : s.polls = []
  conversions : s.conversions = []

def calls (call : Call) (timeoutMs : U32) : System State Input := ⟨Start, step call timeoutMs⟩

end Sg200x.Ipc.Timeout
