import Sg200x.Ipc.Mailbox
import Sg200x.Library.BoundedQueue

/-!
# From the mailbox slots to the tasks

`comm_main.c`: the interrupt handler and the recovery scan move commands from the slots to the
queues of the tasks, and the command task handles those of its own queue and replies.  The
handler preempts the task, and runs to its end before the task goes on.
-/

namespace Sg200x.Ipc.Dispatch

open Shm App Cmdqu Library Library.Transition
open Mailbox (Entry LinuxLabel)

/-- `E_QUEUE_*` -/
inductive QueueId
  | isp
  | vcodec
  | vi
  | camera
  | rgn
  | cmdqu
  | audio
  deriving DecidableEq

/-- `gTaskCtx[].queLength` -/
def queLength : QueueId → ℕ
  | .isp | .vcodec | .vi | .camera => 1
  | .rgn | .audio => 10
  | .cmdqu => 30

def ipVcodec : U8 := 1#8
def ipVi : U8 := 3#8

def prvQueueForIp (ipId : U8) : Option QueueId :=
  match ipId.toNat with
  | 0 => some .isp
  | 1 => some .vcodec
  | 3 => some .vi
  | 4 => some .rgn
  | 5 => some .audio
  | 6 => some .cmdqu
  | 7 => some .camera
  | _ => none

/-! ## `prvCmdQuRunTask` -/

/-- The command numbers and the addresses of the vendor's firmware; the commands of
`configUSE_TRACE_FACILITY` where it is set. -/
structure Vendor where
  linuxInitDone : BitVec 7
  rtosInitDone : BitVec 7
  stopIsr : BitVec 7
  stopIsrDone : BitVec 7
  dumpMsg : BitVec 7
  dumpEn : BitVec 7
  dumpDis : BitVec 7
  dumpJpg : BitVec 7
  /-- `SYS_CMD_INFO_TRACE_SNAPSHOT_START` and `_STOP`. -/
  trace : Option (BitVec 7 × BitVec 7)
  transferConfig : U32
  snapshot : U32
  /-- The labels of the `switch`. -/
  distinct : ((trace.elim [] fun labels => [labels.1, labels.2]) ++
    [dumpJpg, dumpEn, dumpDis, dumpMsg, linuxInitDone, stopIsr, stopIsrDone]).Nodup

/-- What the task reads while it handles a command. -/
structure Inputs where
  mmio : Mmio
  /-- `sg2002_rtos_shm_generation()` after the process call. -/
  generation : U32
  /-- `dump_uart_msg()` -/
  dumpUartMsg : U32

/-- `stop_ip` -/
structure StopIp where
  vi : Bool
  vcode : Bool
  deriving DecidableEq

structure Outcome where
  stopIp : StopIp
  /-- The command for another task, whose queue may refuse it. -/
  forward : Option (QueueId × Command)
  /-- What `send_label` sends. -/
  reply : Option Command

/-- The `switch` over `cmd_id`. -/
def vendorCommand (vendor : Vendor) (inputs : Inputs) (stopIp : StopIp) (command : Command) :
    Outcome :=
  if (vendor.trace.map Prod.fst) = some command.cmdId then ⟨stopIp, none, none⟩
  else if (vendor.trace.map Prod.snd) = some command.cmdId then
    ⟨stopIp, none, some { command with paramPtr := vendor.snapshot }⟩
  else if command.cmdId = vendor.dumpJpg ∨ command.cmdId = vendor.dumpEn ∨
      command.cmdId = vendor.dumpDis then ⟨stopIp, none, none⟩
  else if command.cmdId = vendor.dumpMsg then
    ⟨stopIp, none, some { command with paramPtr := inputs.dumpUartMsg }⟩
  else if command.cmdId = vendor.linuxInitDone then
    ⟨stopIp, none, some { command with
      cmdId := vendor.rtosInitDone, paramPtr := vendor.transferConfig }⟩
  else if command.cmdId = vendor.stopIsr then
    ⟨⟨false, false⟩, some (.vi, { command with ipId := ipVi }), none⟩
  else if command.cmdId = vendor.stopIsrDone then
    if command.ipId = ipVi then
      ⟨{ stopIp with vi := true },
        some (.vcodec, { command with ipId := ipVcodec, cmdId := vendor.stopIsr }), none⟩
    else
      let stopIp := if command.ipId = ipVcodec then { stopIp with vcode := true } else stopIp
      if stopIp = ⟨true, true⟩ then ⟨stopIp, none, some { command with ipId := ipSystem }⟩
      else ⟨stopIp, none, none⟩
  else ⟨stopIp, none, some command⟩

def handle (vendor : Vendor) (inputs : Inputs) (stopIp : StopIp) (command : Command) : Outcome :=
  match (runTask inputs.mmio command).1 with
  | .doorbell =>
      ⟨stopIp, none, some { command with paramPtr := inputs.generation, block := 0#1 }⟩
  | .reply reply => ⟨stopIp, none, some reply⟩
  | .vendor => vendorCommand vendor inputs stopIp command

/-! ## The parties -/

/-- An element of a queue. -/
inductive Item
  /-- It was in a slot. -/
  | received (entry : Entry)
  | sent (command : Command)
  deriving DecidableEq

def Item.command : Item → Command
  | .received entry => entry.command
  | .sent command => command

def Item.entry : Item → Option Entry
  | .received entry => some entry
  | .sent _ => none

inductive Task
  /-- In `xQueueReceive`. -/
  | idle
  /-- In `sg2002_rtos_mailbox_receive`. -/
  | recovering
  /-- In the loop of `prvRecoverMailbox`. -/
  | queueing (pending : List Entry)
  | handling (item : Item)
  | replying (reply : Command)
  /-- In `sg2002_rtos_mailbox_send`. -/
  | sending
  deriving DecidableEq

/-- `gTaskCtx[].queHandle` -/
abbrev Queues := (q : QueueId) → BoundedQueue Item (queLength q)

structure State where
  mailbox : Mailbox.State
  queues : Queues
  /-- The loop of `prvMailboxISR`. -/
  isr : Option (List Entry)
  task : Task
  stopIp : StopIp
  /-- The commands of the mailbox that a queue has accepted. -/
  queued : List Entry
  /-- Those that none has accepted, with what was in their queue. -/
  dropped : List (Entry × List Item)
  handled : List (Inputs × Item)
  replies : List Command

inductive Label
  | linux (l : LinuxLabel)
  | irq
  /-- The next access of the mailbox call in progress. -/
  | access (mask : U8)
  | isrQueue
  /-- The time of `xQueueReceive` has run out. -/
  | timeout (acquired : Bool)
  | taskQueue
  | dequeue
  | handle (inputs : Inputs)
  | reply (acquired : Bool)
  /-- A task of the vendor takes a command from a queue. -/
  | consume (q : QueueId)
  /-- A task of the vendor sends a command to a queue. -/
  | post (q : QueueId) (command : Command)

/-- The handler runs, and the task does not. -/
def State.interrupted (s : State) : Bool :=
  s.isr.isSome ||
    match s.mailbox.firmware with
    | .receive call _ => ! call.locked
    | _ => false

/-- `prvQueueCommandFromISR` and `prvQueueCommandFromTask` -/
def queueCommand (s : State) (entry : Entry) : State :=
  match prvQueueForIp entry.command.ipId with
  | none => { s with dropped := s.dropped ++ [(entry, [])] }
  | some q =>
      match (s.queues q).send (.received entry) with
      | some queue =>
          { s with queues := Function.update s.queues q queue, queued := s.queued ++ [entry] }
      | none => { s with dropped := s.dropped ++ [(entry, (s.queues q).content)] }

/-- `xQueueSend` with a command that does not come from the mailbox. -/
def sendCommand (s : State) (q : QueueId) (command : Command) : State :=
  match (s.queues q).send (.sent command) with
  | some queue => { s with queues := Function.update s.queues q queue }
  | none => s

def accessStep (s : State) (mask : U8) : Option State :=
  (Mailbox.firmwareStep s.mailbox (.access mask)).map fun mailbox =>
    match s.mailbox.firmware with
    | .receive call .finish =>
        if call.locked then { s with mailbox, task := .queueing call.commands }
        else { s with mailbox, isr := some call.commands }
    | .send _ (.unlock _) => { s with mailbox, task := .idle }
    | _ => { s with mailbox }

def isrStep (s : State) : Option State :=
  match s.isr with
  | none => none
  | some [] => some { s with isr := none }
  | some (entry :: pending) => some { queueCommand s entry with isr := some pending }

/-- A step of the command task outside the calls of the mailbox. -/
def taskStep (vendor : Vendor) (s : State) : Label → Option State
  -- The queue may fill again before the scan.
  | .timeout acquired =>
      match s.task with
      | .idle =>
          (Mailbox.firmwareStep s.mailbox (.receive Mailbox.mailboxMaxNum acquired)).map
            fun mailbox => { s with mailbox, task := if acquired then .recovering else .idle }
      | _ => none
  | .taskQueue =>
      match s.task with
      | .queueing [] => some { s with task := .idle }
      | .queueing (entry :: pending) => some { queueCommand s entry with task := .queueing pending }
      | _ => none
  | .dequeue =>
      match s.task, (s.queues .cmdqu).receive with
      | .idle, some (item, queue) =>
          some { s with queues := Function.update s.queues .cmdqu queue, task := .handling item }
      | _, _ => none
  | .handle inputs =>
      match s.task with
      | .handling item =>
          let outcome := handle vendor inputs s.stopIp item.command
          let s := { s with
            stopIp := outcome.stopIp
            handled := s.handled ++ [(inputs, item)]
            task := outcome.reply.elim .idle .replying }
          some (outcome.forward.elim s fun forward => sendCommand s forward.1 forward.2)
      | _ => none
  | .reply acquired =>
      match s.task with
      | .replying reply =>
          (Mailbox.firmwareStep s.mailbox (.send reply acquired)).map fun mailbox =>
            { s with
              mailbox
              task := if acquired then .sending else .idle
              replies := s.replies ++ [reply] }
      | _ => none
  | _ => none

def step (vendor : Vendor) (l : Label) (s : State) : Option State :=
  match l with
  | .linux l => (Mailbox.linuxStep s.mailbox l).map fun mailbox => { s with mailbox }
  | .irq =>
      if s.isr = none then
        (Mailbox.firmwareStep s.mailbox (.isr Mailbox.mailboxMaxNum)).map fun mailbox =>
          { s with mailbox }
      else none
  | .access mask => accessStep s mask
  | .isrQueue => isrStep s
  | .consume q =>
      if q ≠ .cmdqu ∧ s.interrupted = false then
        (s.queues q).receive.map fun taken =>
          { s with queues := Function.update s.queues q taken.2 }
      else none
  | .post q command => if s.interrupted = false then some (sendCommand s q command) else none
  | l => if s.interrupted = false then taskStep vendor s l else none

def State.initial : State where
  mailbox := Mailbox.State.initial
  queues := fun _ => .empty
  isr := none
  task := .idle
  stopIp := ⟨false, false⟩
  queued := []
  dropped := []
  handled := []
  replies := []

def system (vendor : Vendor) : System State Label where
  start s := s = State.initial
  step := step vendor

/-- The step does not copy half a command. -/
def whole : Label → State → Bool
  | .access _, s => ! Mailbox.tears s.mailbox
  | _, _ => true

end Sg200x.Ipc.Dispatch
