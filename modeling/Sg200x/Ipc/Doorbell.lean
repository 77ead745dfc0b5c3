import Sg200x.Ipc.Poll

/-!
# The doorbells around the channel

A kick puts a doorbell command in one of eight mailbox slots; `prvMailboxISR` moves it
to the queue of the command task; `prvCmdQuRunTask` runs the process call and posts one
doorbell reply, which the interrupt handler of Linux turns into a notification.  The
slots and the queue are shared with the legacy commands.  `rtos_cmdqu_send` either fills a
free slot or fails, and the queue refuses a command when it is full.
-/

namespace Sg200x.Ipc.Doorbell

open Shm App RingCore Firmware Driver Library Library.Transition

/-- `cmdqu_t`. -/
structure Command where
  ipId : U8
  cmdId : BitVec 7
  block : Bool
  param : U32
  deriving DecidableEq

def ipSystem : U8 := 6#8

def Command.isDoorbell (command : Command) : Prop :=
  command.ipId = ipSystem ∧ command.cmdId = doorbellCommand

instance (command : Command) : Decidable command.isDoorbell :=
  inferInstanceAs (Decidable (_ ∧ _))

/-- The owner of a mailbox slot, by its two valid flags. -/
inductive MailboxSlot
  | free
  | linux (command : Command)
  | rtos (command : Command)
  deriving DecidableEq

abbrev mailboxMax : ℕ := 8

scoped instance : NeZero mailboxMax := ⟨by decide⟩

abbrev Mailbox := Fin mailboxMax → MailboxSlot

/-- `queLength` of the CMDQU task. -/
def queLength : ℕ := 30

inductive Task
  /-- In `xQueueReceive`, or in `prvRecoverMailbox` after its timeout. -/
  | idle
  /-- In `sg2002_rtos_shm_process` for a doorbell. -/
  | processing (command : Command)
  /-- About to call `sg2002_rtos_mailbox_send`. -/
  | replying (command : Command)

def Task.isIdle : Task → Bool
  | .idle => true
  | _ => false

inductive WorkPc
  | check
  | kick
  | reset
  | increment
  | retry (attempt : ℕ)

/-- A thread in `poll(2)` without a timeout, waiting for input. -/
inductive Waiter
  | away
  | polling (pc : PollPc)
  | asleep

structure State where
  channel : Channel.State
  mailbox : Mailbox
  queue : List Command
  task : Task
  /-- `kick_work`, when it runs. -/
  work : Option WorkPc
  waiter : Waiter
  /-- The waiter is on the wait queue. -/
  registered : Bool
  /-- It has been woken since its last look. -/
  woken : Bool
  /-- The requests published when the last process call began. -/
  begun : ℕ
  /-- The responses published when the last notification ran. -/
  announced : ℕ

inductive Side
  | tx
  | rx

inductive Label
  | linux (label : Channel.Label)
  /-- A call's kick and the slot it has found, if any. -/
  | kick (side : Side) (slot : Option (Fin mailboxMax))
  | workStart
  | work (slot : Option (Fin mailboxMax))
  /-- `rtos_cmdqu_send` of another user. -/
  | legacySend (slot : Fin mailboxMax) (command : Command)
  | forward (slot : Fin mailboxMax)
  | dequeue (reply : Option Command)
  | firmware (mmio : Mmio)
  /-- `locked`: the hardware lock has been obtained. -/
  | reply (locked : Bool)
  | irq (slot : Fin mailboxMax)
  | pollCall
  | poll

/-! ## Kicks -/

def post (mailbox : Mailbox) (slot : Fin mailboxMax) (command : Command) : Option Mailbox :=
  if mailbox slot = .free then some (Function.update mailbox slot (.linux command)) else none

/-- `cvi_rtos_cmdqu_shm_kick`. -/
def doorbell (generation : U32) : Command := ⟨ipSystem, doorbellCommand, false, generation⟩

/-- The next step of the call is `kick_now`. -/
def kicking (s : Channel.State) : Side → Bool
  | .tx => match s.tx with
    | some (_, .kick .kickNow) => true
    | _ => false
  | .rx => match s.rx with
    | some (_, .kick _ .kickNow) => true
    | _ => false

def Side.label : Side → Answer → Channel.Label
  | .tx => .tx
  | .rx => .rx

/-- A step of a Linux call other than its kick. -/
def linuxStep (s : State) (label : Channel.Label) : Option State :=
  match label with
  | .process | .firmware _ => none
  | .tx _ => if kicking s.channel .tx then none else advance
  | .rx _ => if kicking s.channel .rx then none else advance
  | .txCall _ | .rxCall _ => advance
where
  advance := (Channel.step label s.channel).map fun channel => { s with channel }

def kickStep (s : State) (side : Side) (slot : Option (Fin mailboxMax)) : Option State :=
  if kicking s.channel side then
    match slot with
    | none => (Channel.step (side.label .busy) s.channel).map fun channel => { s with channel }
    | some i => do
        let mailbox ← post s.mailbox i (doorbell s.channel.transport.generation)
        let channel ← Channel.step (side.label .done) s.channel
        some { s with channel, mailbox }
  else none

def State.setTransport (s : State) (transport : Transport) : State :=
  { s with channel := { s.channel with transport } }

/-- `kick_work` goes on only for an owner. -/
def workWanted (transport : Transport) : Bool :=
  !transport.shuttingDown && transport.owner.isSome

def maxAttempts : ℕ := 100

def workStep (s : State) (slot : Option (Fin mailboxMax)) : Option State :=
  let transport := s.channel.transport
  match s.work with
  | none => none
  | some .check =>
      some { s with work := if workWanted transport then some .kick else none }
  | some .kick =>
      match slot with
      | none => some { s with work := some .increment }
      | some i =>
          (post s.mailbox i (doorbell transport.generation)).map fun mailbox =>
            { s with mailbox, work := some .reset }
  | some .reset => some { s.setTransport { transport with kickAttempts := 0 } with work := none }
  | some .increment =>
      some { s.setTransport { transport with kickAttempts := transport.kickAttempts + 1 } with
        work := some (.retry (transport.kickAttempts + 1)) }
  | some (.retry attempt) =>
      if attempt < maxAttempts ∧ workWanted transport then
        some { s.setTransport { transport with kickScheduled := true } with work := none }
      else some { s with work := none }

/-! ## The firmware's interrupt handler and command task -/

/-- `receive_commands` takes one command from its slot and `prvQueueCommandFromISR` or
`prvQueueCommandFromTask` queues it; a command for another task leaves the model. -/
def forward (s : State) (slot : Fin mailboxMax) : Option State :=
  match s.mailbox slot with
  | .linux command =>
      let mailbox := Function.update s.mailbox slot .free
      if command.ipId = ipSystem ∧ s.queue.length < queLength then
        some { s with mailbox, queue := s.queue ++ [command] }
      else some { s with mailbox }
  | _ => none

/-- The task takes the next command.  `reply` is what the application or the switch of
`prvCmdQuRunTask` answers to a legacy command, and such an answer is no doorbell. -/
def dequeue (s : State) (reply : Option Command) : Option State :=
  match s.task, s.queue with
  | .idle, command :: queue =>
      if command.isDoorbell then
        (Channel.step .process s.channel).map fun channel =>
          { s with channel, queue, task := .processing command, begun := s.channel.published.length }
      else
        match reply with
        | none => some { s with queue }
        | some reply =>
            if reply.isDoorbell then none else some { s with queue, task := .replying reply }
  | _, _ => none

/-- A step of the process call; after its return the task turns to the reply. -/
def firmwareStep (s : State) (mmio : Mmio) : Option State :=
  match s.task with
  | .processing command =>
      (Channel.step (.firmware mmio) s.channel).map fun channel =>
        { s with
          channel
          task :=
            if channel.firmware.isSome then s.task
            else .replying
              { command with param := channel.statics.activeGeneration, block := false } }
  | _ => none

/-- The slot `sg2002_rtos_mailbox_send` finds. -/
def freeSlot (mailbox : Mailbox) : Option (Fin mailboxMax) :=
  (List.finRange mailboxMax).find? fun slot => mailbox slot = .free

/-- `sg2002_rtos_mailbox_send`; the task drops a reply that could not be sent. -/
def replyStep (s : State) (locked : Bool) : Option State :=
  match s.task with
  | .replying command =>
      match if locked then freeSlot s.mailbox else none with
      | some slot =>
          some { s with mailbox := Function.update s.mailbox slot (.rtos command), task := .idle }
      | none => some { s with task := .idle }
  | _ => none

/-! ## Notifications and the waiter -/

/-- `sg2002_rtos_shm_linux_notify`. -/
def notify (s : State) : State :=
  let transport := s.channel.transport
  if transport.shuttingDown then s
  else
    { s.setTransport { transport with notifications := transport.notifications + 1#32 } with
      woken := match s.waiter with
        | .asleep => false
        | _ => s.registered
      waiter := match s.waiter with
        | .asleep => .polling .shuttingDown
        | waiter => waiter
      announced := s.channel.answered.length }

/-- `rtos_irq_handler` for one slot. -/
def irq (s : State) (slot : Fin mailboxMax) : Option State :=
  match s.mailbox slot with
  | .rtos command =>
      let s := { s with mailbox := Function.update s.mailbox slot .free }
      if command.isDoorbell ∧ command.block = false then some (notify s) else some s
  | _ => none

/-- `poll(2)`: a look without a result sleeps, unless there was a notification since it
began. -/
def waiterStep (s : State) : Option State :=
  match s.waiter with
  | .polling pc =>
      match Driver.pollStep Poll.owner s.channel.transport s.channel.region pc with
      | .running pc' =>
          some { s with
            waiter := .polling pc'
            registered := match pc with
              | .pollWait => true
              | _ => s.registered }
      | .returned mask =>
          if mask.in ∨ mask.err ∨ mask.hup then
            some { s with waiter := .away, registered := false, woken := false }
          else if s.woken then some { s with waiter := .polling .shuttingDown, woken := false }
          else some { s with waiter := .asleep }
  | _ => none

def step : Label → State → Option State
  | .linux label, s => linuxStep s label
  | .kick side slot, s => kickStep s side slot
  | .workStart, s =>
      match s.work with
      | none =>
          if s.channel.transport.kickScheduled then
            some { s.setTransport { s.channel.transport with kickScheduled := false } with
              work := some .check }
          else none
      | some _ => none
  | .work slot, s => workStep s slot
  | .legacySend slot command, s =>
      (post s.mailbox slot command).map fun mailbox => { s with mailbox }
  | .forward slot, s => forward s slot
  | .dequeue reply, s => dequeue s reply
  | .firmware mmio, s => firmwareStep s mmio
  | .reply locked, s => replyStep s locked
  | .irq slot, s => irq s slot
  | .pollCall, s =>
      match s.waiter with
      | .away => some { s with waiter := .polling .shuttingDown, registered := false, woken := false }
      | _ => none
  | .poll, s => waiterStep s

structure Start (s : State) : Prop where
  channel : Channel.Start s.channel
  owner : s.channel.transport.owner = some Poll.owner
  queue : s.queue.length ≤ queLength
  task : s.task = .idle
  work : s.work = none
  waiter : s.waiter = .away
  registered : s.registered = false
  woken : s.woken = false
  announced : s.announced = 0

def system : System State Label := ⟨Start, step⟩

/-! ## Where a doorbell can be -/

def State.DoorbellPosted (s : State) : Prop :=
  ∃ i command, s.mailbox i = .linux command ∧ command.isDoorbell

def State.DoorbellQueued (s : State) : Prop := ∃ command ∈ s.queue, command.isDoorbell

/-- The command task has taken a doorbell and not yet posted its reply. -/
def State.Handling (s : State) : Prop :=
  (∃ command, s.task = .processing command) ∨
    ∃ command, s.task = .replying command ∧ command.isDoorbell

def State.ReplyPosted (s : State) : Prop :=
  ∃ i command, s.mailbox i = .rtos command ∧ command.isDoorbell ∧ command.block = false

theorem State.ReplyPosted.update {s t : State} (h : s.ReplyPosted) {slot : Fin mailboxMax}
    {value : MailboxSlot} (hslot : ∀ command, s.mailbox slot ≠ .rtos command)
    (hmailbox : t.mailbox = Function.update s.mailbox slot value) : t.ReplyPosted := by
  obtain ⟨i, command, hi, hcommand⟩ := h
  refine ⟨i, command, ?_, hcommand⟩
  rw [hmailbox, Function.update_of_ne, hi]
  rintro rfl
  exact hslot command hi

theorem State.DoorbellPosted.update {s t : State} (h : s.DoorbellPosted) {slot : Fin mailboxMax}
    {value : MailboxSlot} (hslot : ∀ command, s.mailbox slot ≠ .linux command)
    (hmailbox : t.mailbox = Function.update s.mailbox slot value) : t.DoorbellPosted := by
  obtain ⟨i, command, hi, hcommand⟩ := h
  refine ⟨i, command, ?_, hcommand⟩
  rw [hmailbox, Function.update_of_ne, hi]
  rintro rfl
  exact hslot command hi

/-! ## The channel inside -/

/-- The channel's invariant holds, and the process call is the task's. -/
structure Base (g : U32) (s : State) : Prop where
  channel : Channel.Inv g s.channel
  owner : s.channel.transport.owner = some Poll.owner
  task : s.channel.firmware.isSome ↔ ∃ command, s.task = .processing command

theorem base_of_start {s : State} (h : Start s) : Base s.channel.transport.generation s where
  channel := Channel.inv_of_start h.channel
  owner := h.owner
  task := by simp [h.channel.firmware, h.task]

/-- The steps of the doorbell machinery write variables the channel does not read. -/
theorem Base.setTransport {g : U32} {s t : State} (h : Base g s) {transport : Transport}
    (hchannel : t.channel = { s.channel with transport })
    (hsame : transport.generation = s.channel.transport.generation ∧
      transport.shuttingDown = s.channel.transport.shuttingDown ∧
      transport.owner = s.channel.transport.owner)
    (htask : t.task = s.task) : Base g t := by
  have hc := h.channel
  have hest := hc.established
  refine ⟨?_, ?_, ?_⟩
  · rw [hchannel]
    exact ⟨⟨hest.nonzero, hsame.2.1.trans hest.running, hsame.1.trans hest.generation, hest.layout,
      hest.linuxPeer, hest.rtosPeer⟩, hc.active, hc.request, hc.response, hc.sound, hc.executed,
      hc.answered, hc.taken, hc.tx, hc.rx, hc.firmware⟩
  · rw [hchannel]
    exact hsame.2.2.trans h.owner
  · rw [hchannel, htask]
    exact h.task

theorem Base.frame {g : U32} {s t : State} (h : Base g s) (hchannel : t.channel = s.channel)
    (htask : t.task = s.task) : Base g t :=
  h.setTransport hchannel ⟨rfl, rfl, rfl⟩ htask

/-- A step of the channel that leaves the process call alone. -/
theorem Base.channelStep {g : U32} {s t : State} (h : Base g s) {l : Channel.Label}
    {channel : Channel.State} (hstep : Channel.step l s.channel = some channel)
    (hfirmware : channel.firmware = s.channel.firmware) (hchannel : t.channel = channel)
    (htask : t.task = s.task) : Base g t := by
  refine ⟨hchannel ▸ h.channel.step hstep, ?_, ?_⟩
  · rw [hchannel, (Poll.step_logs hstep).2.2]
    exact h.owner
  · rw [hchannel, hfirmware, htask]
    exact h.task

/-- The calls of Linux leave the process call alone. -/
theorem linux_firmware {l : Channel.Label} {s t : Channel.State}
    (hstep : Channel.step l s = some t) (hprocess : l ≠ .process)
    (hfirmware : ∀ mmio, l ≠ .firmware mmio) :
    t.firmware = s.firmware ∧ t.statics = s.statics ∧ t.executed = s.executed ∧
      t.answered = s.answered := by
  cases l with
  | txCall call | rxCall call =>
      simp only [Channel.step] at hstep
      split at hstep <;> cases hstep
      exact ⟨rfl, rfl, rfl, rfl⟩
  | tx answer =>
      simp only [Channel.step, Channel.txStep] at hstep
      split at hstep <;> cases hstep
      exact ⟨rfl, rfl, rfl, rfl⟩
  | rx answer =>
      simp only [Channel.step, Channel.rxStep] at hstep
      split at hstep <;> cases hstep
      exact ⟨rfl, rfl, rfl, rfl⟩
  | process => exact absurd rfl hprocess
  | firmware mmio => exact absurd rfl (hfirmware mmio)

/-- A step of a Linux call is a step of the channel; none of them is a kick. -/
theorem linuxStep_channel {s t : State} {l : Channel.Label} (hstep : linuxStep s l = some t) :
    ∃ channel, Channel.step l s.channel = some channel ∧ t = { s with channel } ∧
      l ≠ .process ∧ (∀ mmio, l ≠ .firmware mmio) ∧
      (∀ answer, l = .tx answer → kicking s.channel .tx = false) ∧
      (∀ answer, l = .rx answer → kicking s.channel .rx = false) := by
  unfold linuxStep at hstep
  have hadvance : ∀ {l}, linuxStep.advance s l = some t →
      ∃ channel, Channel.step l s.channel = some channel ∧ t = { s with channel } := by
    intro l hl
    obtain ⟨channel, hchannel, rfl⟩ := Option.map_eq_some_iff.mp hl
    exact ⟨channel, hchannel, rfl⟩
  cases l with
  | process | firmware mmio => cases hstep
  | txCall call | rxCall call =>
      obtain ⟨channel, hchannel, heq⟩ := hadvance hstep
      exact ⟨channel, hchannel, heq, by simp⟩
  | tx answer =>
      dsimp only at hstep
      split_ifs at hstep with hkick
      obtain ⟨channel, hchannel, heq⟩ := hadvance hstep
      exact ⟨channel, hchannel, heq, by simp, by simp, fun _ _ => by simpa using hkick, by simp⟩
  | rx answer =>
      dsimp only at hstep
      split_ifs at hstep with hkick
      obtain ⟨channel, hchannel, heq⟩ := hadvance hstep
      exact ⟨channel, hchannel, heq, by simp, by simp, by simp, fun _ _ => by simpa using hkick⟩

/-- A kick either fills a free slot with a doorbell or goes on to schedule the work. -/
theorem kickStep_channel {s t : State} {side : Side} {slot : Option (Fin mailboxMax)}
    (hstep : kickStep s side slot = some t) :
    kicking s.channel side = true ∧
      ∃ channel answer, Channel.step (side.label answer) s.channel = some channel ∧
        ((answer = .busy ∧ t = { s with channel }) ∨
          ∃ i, answer = .done ∧ s.mailbox i = .free ∧
            t = { s with
              channel
              mailbox := Function.update s.mailbox i
                (.linux (doorbell s.channel.transport.generation)) }) := by
  unfold kickStep at hstep
  split_ifs at hstep with hkick
  refine ⟨hkick, ?_⟩
  cases slot with
  | none =>
      obtain ⟨channel, hchannel, rfl⟩ := Option.map_eq_some_iff.mp hstep
      exact ⟨channel, .busy, hchannel, .inl ⟨rfl, rfl⟩⟩
  | some i =>
      simp only [post, Option.bind_eq_bind] at hstep
      obtain ⟨mailbox, hpost, hrest⟩ := Option.bind_eq_some_iff.mp hstep
      obtain ⟨channel, hchannel, heq⟩ := Option.bind_eq_some_iff.mp hrest
      split_ifs at hpost with hfree
      cases hpost
      exact ⟨channel, .done, hchannel, .inr ⟨i, rfl, hfree, (Option.some.inj heq).symm⟩⟩

theorem post_eq_some {mailbox mailbox' : Mailbox} {slot : Fin mailboxMax} {command : Command}
    (h : post mailbox slot command = some mailbox') :
    mailbox slot = .free ∧ mailbox' = Function.update mailbox slot (.linux command) := by
  unfold post at h
  split_ifs at h with hfree
  exact ⟨hfree, (Option.some.inj h).symm⟩

theorem freeSlot_eq_some {mailbox : Mailbox} {slot : Fin mailboxMax}
    (h : freeSlot mailbox = some slot) : mailbox slot = .free := by
  have := List.find?_some h
  simpa using this

theorem workStep_frame {s t : State} {slot : Option (Fin mailboxMax)}
    (hstep : workStep s slot = some t) :
    t.task = s.task ∧ t.queue = s.queue ∧ t.waiter = s.waiter ∧ t.registered = s.registered ∧
      t.woken = s.woken ∧ t.begun = s.begun ∧ t.announced = s.announced ∧
      (t.mailbox = s.mailbox ∨
        ∃ i, s.mailbox i = .free ∧
          t.mailbox = Function.update s.mailbox i
            (.linux (doorbell s.channel.transport.generation))) ∧
      ∃ transport, t.channel = { s.channel with transport } ∧
        transport.generation = s.channel.transport.generation ∧
        transport.shuttingDown = s.channel.transport.shuttingDown ∧
        transport.owner = s.channel.transport.owner := by
  unfold workStep at hstep
  cases hwork : s.work with
  | none => simp [hwork] at hstep
  | some pc =>
      simp only [hwork] at hstep
      cases pc with
      | check | reset | increment =>
          cases hstep
          exact ⟨rfl, rfl, rfl, rfl, rfl, rfl, rfl, .inl rfl, _, rfl, rfl, rfl, rfl⟩
      | kick =>
          cases slot with
          | none =>
              cases hstep
              exact ⟨rfl, rfl, rfl, rfl, rfl, rfl, rfl, .inl rfl, _, rfl, rfl, rfl, rfl⟩
          | some i =>
              obtain ⟨mailbox, hpost, rfl⟩ := Option.map_eq_some_iff.mp hstep
              obtain ⟨hfree, rfl⟩ := post_eq_some hpost
              exact ⟨rfl, rfl, rfl, rfl, rfl, rfl, rfl, .inr ⟨i, hfree, rfl⟩, _, rfl, rfl, rfl, rfl⟩
      | retry attempt =>
          dsimp only at hstep
          split_ifs at hstep <;> cases hstep <;>
            exact ⟨rfl, rfl, rfl, rfl, rfl, rfl, rfl, .inl rfl, _, rfl, rfl, rfl, rfl⟩

theorem Base.step {g : U32} {s t : State} {l : Label} (h : Base g s) (hstep : step l s = some t) :
    Base g t := by
  cases l with
  | linux label =>
      obtain ⟨channel, hchannel, rfl, hprocess, hfirmware, -⟩ := linuxStep_channel hstep
      exact h.channelStep hchannel (linux_firmware hchannel hprocess hfirmware).1 rfl rfl
  | kick side slot =>
      obtain ⟨-, channel, answer, hchannel, ht⟩ := kickStep_channel hstep
      have hfw := linux_firmware hchannel (by cases side <;> simp [Side.label])
        (by cases side <;> simp [Side.label])
      rcases ht with ⟨-, rfl⟩ | ⟨i, -, -, rfl⟩ <;> exact h.channelStep hchannel hfw.1 rfl rfl
  | workStart =>
      simp only [Doorbell.step] at hstep
      split at hstep
      · split_ifs at hstep
        cases hstep
        exact h.setTransport rfl ⟨rfl, rfl, rfl⟩ rfl
      · cases hstep
  | work slot =>
      obtain ⟨htask, -, -, -, -, -, -, -, transport, hchannel, hsame⟩ := workStep_frame hstep
      exact h.setTransport hchannel hsame htask
  | legacySend slot command =>
      obtain ⟨mailbox, -, rfl⟩ := Option.map_eq_some_iff.mp hstep
      exact h.frame rfl rfl
  | forward slot =>
      simp only [Doorbell.step, forward] at hstep
      split at hstep
      · split_ifs at hstep <;> cases hstep <;> exact h.frame rfl rfl
      · cases hstep
  | dequeue reply =>
      simp only [Doorbell.step, dequeue] at hstep
      split at hstep
      · rename_i command queue htask hqueue
        have hidle : s.channel.firmware = none := by
          have := h.task
          simpa [htask] using this
        split_ifs at hstep
        · obtain ⟨channel, hchannel, rfl⟩ := Option.map_eq_some_iff.mp hstep
          have howner := (Poll.step_logs hchannel).2.2
          refine ⟨h.channel.step hchannel, howner.trans h.owner, ?_⟩
          simp only [Channel.step, hidle] at hchannel
          cases hchannel
          simp
        · have hlegacy : ∀ {task : Task} {queue : List Command},
              (∀ command, task ≠ .processing command) → Base g { s with task, queue } := by
            intro task queue hne
            exact ⟨h.channel, h.owner, by simp [hidle, hne]⟩
          cases reply with
          | none =>
              cases hstep
              exact hlegacy (by simp [htask])
          | some reply =>
              dsimp only at hstep
              split_ifs at hstep
              cases hstep
              exact hlegacy (by simp)
      · cases hstep
  | firmware mmio =>
      simp only [Doorbell.step, firmwareStep] at hstep
      split at hstep
      · rename_i command htask
        obtain ⟨channel, hchannel, rfl⟩ := Option.map_eq_some_iff.mp hstep
        have howner := (Poll.step_logs hchannel).2.2
        refine ⟨h.channel.step hchannel, howner.trans h.owner, ?_⟩
        dsimp only
        split_ifs with hrun
        · simp [hrun, htask]
        · simp [hrun]
      · cases hstep
  | reply locked =>
      simp only [Doorbell.step, replyStep] at hstep
      split at hstep
      · rename_i command htask
        have hidle : s.channel.firmware = none := by
          have := h.task
          simpa [htask] using this
        split at hstep <;> cases hstep <;> exact ⟨h.channel, h.owner, by simp [hidle]⟩
      · cases hstep
  | irq slot =>
      simp only [Doorbell.step, irq] at hstep
      split at hstep
      · split_ifs at hstep
        · cases hstep
          unfold notify
          dsimp only
          split_ifs
          · exact h.frame rfl rfl
          · exact h.setTransport rfl ⟨rfl, rfl, rfl⟩ rfl
        · cases hstep
          exact h.frame rfl rfl
      · cases hstep
  | pollCall =>
      simp only [Doorbell.step] at hstep
      split at hstep <;> cases hstep
      exact h.frame rfl rfl
  | poll =>
      simp only [Doorbell.step, waiterStep] at hstep
      split at hstep
      · split at hstep
        · cases hstep
          exact h.frame rfl rfl
        · split_ifs at hstep <;> cases hstep <;> exact h.frame rfl rfl
      · cases hstep

/-! ## A request that reaches the firmware -/

def State.initial : State where
  channel := Channel.State.initial 1#32
  mailbox _ := .free
  queue := []
  task := .idle
  work := none
  waiter := .away
  registered := false
  woken := false
  begun := 0
  announced := 0

theorem start_initial : system.start State.initial :=
  ⟨Channel.start_initial (by decide), rfl, by decide, rfl, rfl, rfl, rfl, rfl, rfl⟩

/-- Linux publishes a request and its doorbell gets a slot. -/
def sendRequest : List Label :=
  .linux (.txCall (sendMessage Slot.zero true)) :: List.replicate 24 (.linux (.tx .done)) ++
    [.kick .tx (some 0)]

/-- `SYS_CMD_INFO_LINUX`. -/
def legacyCommand : Command := ⟨ipSystem, 0x55#7, false, 0#32⟩

/-- The doorbell reaches the command task, which answers the request. -/
def handleRequest : List Label :=
  [.forward 0, .dequeue none] ++ List.replicate 29 (.firmware fun _ => 0#32)

end Sg200x.Ipc.Doorbell
