import Sg200x.Ipc.App

/-!
# Command-queue entries

`cmdqu_t`, the eight bytes of a mailbox slot, and what the firmware's task and the Linux
interrupt handler do with one.
-/

namespace Sg200x.Ipc.Cmdqu

open Shm App

/-- `cmdqu_t`.  The two bytes of `resv` are the owners of a slot, or `mstime`. -/
structure Command where
  ipId : U8
  cmdId : BitVec 7
  block : BitVec 1
  linuxValid : U8
  rtosValid : U8
  paramPtr : U32
  deriving DecidableEq

def ipSystem : U8 := 6#8
def ipLimit : ℕ := 8
def nrRtosCmd : ℕ := 127

/-- `resv.mstime`. -/
def Command.mstime (command : Command) : U16 := command.rtosValid ++ command.linuxValid

def Command.withMstime (command : Command) (mstime : U16) : Command :=
  { command with linuxValid := mstime.extractLsb' 0 8, rtosValid := mstime.extractLsb' 8 8 }

/-- The command as it lies in a slot that Linux owns. -/
def Command.fromLinux (command : Command) : Command :=
  { command with linuxValid := 1#8, rtosValid := 0#8 }

/-- `sg2002_rtos_mailbox_send` makes the slot the firmware's. -/
def Command.fromRtos (command : Command) : Command :=
  { command with linuxValid := 0#8, rtosValid := 1#8 }

/-! ## `prvCmdQuRunTask` -/

inductive TaskAction
  /-- `sg2002_rtos_shm_process` runs before the reply. -/
  | doorbell
  | reply (command : Command)
  /-- A command of the vendor firmware. -/
  | vendor
  deriving DecidableEq

def runTask (mmio : Mmio) (command : Command) : TaskAction × MmioWrites :=
  if command.ipId = ipSystem ∧ command.cmdId = doorbellCommand then (.doorbell, [])
  else if command.ipId = ipSystem then
    match appHandle mmio (command.cmdId.setWidth 8) command.paramPtr with
    | (.handled, value, writes) =>
        (.reply { command with paramPtr := value, ipId := ipSystem }, writes)
    | (.unhandled, _, writes) => (.vendor, writes)
  else (.vendor, [])

/-! ## `rtos_irq_handler` -/

inductive IrqAction
  | notify
  /-- The waiters for `ip_id` and `cmd_id` are looked up. -/
  | dewait
  | other
  deriving DecidableEq

def irqAction (command : Command) : IrqAction :=
  if command.rtosValid = 1#8 ∧ command.linuxValid = 0#8 ∧ command.ipId = ipSystem ∧
      command.cmdId = doorbellCommand ∧ command.block = 0#1 then .notify
  else if command.rtosValid = 1#8 ∧ command.linuxValid = 0#8 ∧
      command.cmdId.toNat ≤ nrRtosCmd ∧ command.ipId.toNat < ipLimit ∧ command.block = 1#1 then
    .dewait
  else .other

/-- The reply is for the waiter. -/
def Command.answers (reply waiter : Command) : Prop :=
  waiter.ipId = reply.ipId ∧ waiter.cmdId = reply.cmdId

instance (reply waiter : Command) : Decidable (reply.answers waiter) :=
  inferInstanceAs (Decidable (_ ∧ _))

end Sg200x.Ipc.Cmdqu
