import Sg200x.Ipc.Cmdqu
import Sg200x.Library.Transition

/-!
# Commands through the mailbox slots

Linux posts commands into the eight slots under the hardware spinlock, and the firmware
takes them in the interrupt handler, which does not take the lock, and in the recovery
scan of its task, which does.  The replies of the task go through the same slots.
-/

namespace Sg200x.Ipc.Mailbox

open Shm Cmdqu Library.Transition

/-- `MAILBOX_MAX_NUM`. -/
abbrev mailboxMaxNum : ℕ := 8

abbrev Index := Fin mailboxMaxNum

/-- `mailbox_context`. -/
abbrev Context := Index → Command

def Context.writeHeader (context : Context) (slot : Index) (command : Command) : Context :=
  Function.update context slot { command with paramPtr := (context slot).paramPtr }

def Context.writeParam (context : Context) (slot : Index) (paramPtr : U32) : Context :=
  Function.update context slot { context slot with paramPtr := paramPtr }

def Context.zero (context : Context) (slot : Index) : Context :=
  Function.update context slot ⟨0#8, 0#7, 0#1, 0#8, 0#8, 0#32⟩

/-- A copied slot, with the number of the command whose header was in it. -/
structure Entry where
  command : Command
  post : Option ℕ
  deriving DecidableEq

inductive Holder
  | linux
  | firmware
  deriving DecidableEq

/-! ## The parties -/

inductive LinuxPc
  | idle
  | locked
  | chosen (slot : Index) (command : Command)
  /-- One of the two words is written, the header when `header` is set. -/
  | half (slot : Index) (command : Command) (header : Bool)
  | ring (slot : Index)
  deriving DecidableEq

/-- A call of `receive_commands`. -/
structure Receive where
  /-- The call holds the lock: `sg2002_rtos_mailbox_receive`. -/
  locked : Bool
  capacity : ℕ
  interruptMask : U8
  commands : List Entry
  deriving DecidableEq

inductive ReceivePc
  | readMask
  | acknowledge (slot : Index)
  | testLinux (slot : Index)
  | testRtos (slot : Index)
  | copy (slot : Index)
  | zero (slot : Index) (entry : Entry)
  | finish
  deriving DecidableEq

inductive SendPc
  | testLinux (slot : Index)
  | testRtos (slot : Index)
  | writeParam (slot : Index)
  | writeHeader (slot : Index)
  | ring (slot : Index)
  | unlock (sent : Bool)
  deriving DecidableEq

inductive FirmwarePc
  | idle
  | receive (call : Receive) (pc : ReceivePc)
  | send (reply : Command) (pc : SendPc)
  deriving DecidableEq

def FirmwarePc.locked : FirmwarePc → Bool
  | .idle => false
  | .receive call _ => call.locked
  | .send _ _ => true

/-- The commands a running call has counted. -/
def FirmwarePc.commands : FirmwarePc → List Entry
  | .receive call _ => call.commands
  | _ => []

structure State where
  context : Context
  /-- The doorbells of the firmware that are rung and not cleared. -/
  doorbells : U8
  /-- The doorbells that the replies have rung. -/
  replyDoorbells : U8
  holder : Option Holder
  linux : LinuxPc
  firmware : FirmwarePc
  /-- The result of the last `sg2002_rtos_mailbox_send`. -/
  sent : Bool
  /-- The commands whose header has been written. -/
  stream : List Command
  /-- How many of them have both words written. -/
  posted : ℕ
  /-- The command whose header a slot holds. -/
  occupant : Index → Option ℕ
  /-- What the receive calls have returned. -/
  returned : List Entry

inductive LinuxLabel
  | lock
  | choose (slot : Index) (command : Command)
  /-- The first word, the header or the parameter. -/
  | first (header : Bool)
  | second
  | ring
  | unlock
  /-- Linux takes a reply out of its slot. -/
  | take (slot : Index)

inductive FirmwareLabel
  | isr (capacity : ℕ)
  /-- The lock may fail. -/
  | receive (capacity : ℕ) (acquired : Bool)
  | send (command : Command) (acquired : Bool)
  | access (mask : U8)

inductive Label
  | linux (l : LinuxLabel)
  | firmware (l : FirmwareLabel)

/-! ## Linux -/

def bit (slot : Index) : U8 := 1#8 <<< slot.val

def Command.free (command : Command) : Prop :=
  command.linuxValid = 0#8 ∧ command.rtosValid = 0#8

instance (command : Command) : Decidable (Command.free command) :=
  inferInstanceAs (Decidable (_ ∧ _))

def State.writeHeader (s : State) (slot : Index) (command : Command) : State :=
  { s with
    context := s.context.writeHeader slot command.fromLinux
    occupant := Function.update s.occupant slot (some s.stream.length)
    stream := s.stream ++ [command] }

def State.writeParam (s : State) (slot : Index) (command : Command) : State :=
  { s with context := s.context.writeParam slot command.paramPtr }

/-- A producer that keeps the documented order: both words of a free slot, under the
lock, and then the doorbell. -/
def linuxStep (s : State) : LinuxLabel → Option State
  | .lock =>
      if s.linux = .idle ∧ s.holder = none then
        some { s with linux := .locked, holder := some .linux }
      else none
  | .choose slot command =>
      if s.linux = .locked ∧ Command.free (s.context slot) then
        some { s with linux := .chosen slot command }
      else none
  | .first header =>
      match s.linux with
      | .chosen slot command =>
          some { (if header then s.writeHeader slot command else s.writeParam slot command) with
            linux := .half slot command header }
      | _ => none
  | .second =>
      match s.linux with
      | .half slot command header =>
          some { (if header then s.writeParam slot command else s.writeHeader slot command) with
            linux := .ring slot
            posted := s.posted + 1 }
      | _ => none
  | .ring =>
      match s.linux with
      | .ring slot => some { s with linux := .locked, doorbells := s.doorbells ||| bit slot }
      | _ => none
  | .unlock =>
      if s.linux = .locked then some { s with linux := .idle, holder := none } else none
  | .take slot =>
      if (s.context slot).rtosValid = 1#8 ∧ (s.context slot).linuxValid = 0#8 then
        some { s with context := s.context.zero slot }
      else none

/-! ## `receive_commands` and `sg2002_rtos_mailbox_send` -/

def following (slot : Index) : Option Index :=
  if h : slot.val + 1 < mailboxMaxNum then some ⟨slot.val + 1, h⟩ else none

/-- The head of the scan loop. -/
def Receive.scan (call : Receive) : Option Index → ReceivePc
  | some slot => if call.commands.length < call.capacity then .testLinux slot else .finish
  | none => .finish

def Receive.acknowledged (call : Receive) : Option Index → ReceivePc
  | some slot => .acknowledge slot
  | none => call.scan (some 0)

def State.goto (s : State) (pc : FirmwarePc) : State := { s with firmware := pc }

def receiveStep (s : State) (call : Receive) (mask : U8) : ReceivePc → Option State
  -- The interrupt register shows rung doorbells that are enabled.
  | .readMask =>
      if mask &&& s.doorbells = mask then
        some { s with
          firmware := .receive { call with interruptMask := mask } (.acknowledge 0) }
      else none
  | .acknowledge slot =>
      some { s with
        doorbells := s.doorbells &&& ~~~(call.interruptMask &&& bit slot)
        firmware := .receive call (call.acknowledged (following slot)) }
  | .testLinux slot =>
      some (s.goto (.receive call (if (s.context slot).linuxValid = 1#8 then .testRtos slot
        else call.scan (following slot))))
  | .testRtos slot =>
      some (s.goto (.receive call (if (s.context slot).rtosValid = 0#8 then .copy slot
        else call.scan (following slot))))
  | .copy slot =>
      some (s.goto (.receive call (.zero slot ⟨s.context slot, s.occupant slot⟩)))
  | .zero slot entry =>
      some { s with
        context := s.context.zero slot
        occupant := Function.update s.occupant slot none
        firmware := .receive { call with commands := call.commands ++ [entry] }
          ({ call with commands := call.commands ++ [entry] }.scan (following slot)) }
  | .finish =>
      some { s with
        firmware := .idle
        holder := if call.locked then none else s.holder
        returned := s.returned ++ call.commands }

def sendNext : Option Index → SendPc
  | some slot => .testLinux slot
  | none => .unlock false

def sendStep (s : State) (reply : Command) : SendPc → State
  | .testLinux slot =>
      s.goto (.send reply (if (s.context slot).linuxValid = 0#8 then .testRtos slot
        else sendNext (following slot)))
  | .testRtos slot =>
      s.goto (.send reply (if (s.context slot).rtosValid = 0#8 then .writeParam slot
        else sendNext (following slot)))
  | .writeParam slot =>
      { s with
        context := s.context.writeParam slot reply.paramPtr
        firmware := .send reply (.writeHeader slot) }
  | .writeHeader slot =>
      { s with
        context := s.context.writeHeader slot reply
        firmware := .send reply (.ring slot) }
  | .ring slot =>
      { s with
        replyDoorbells := s.replyDoorbells ||| bit slot
        firmware := .send reply (.unlock true) }
  | .unlock sent => { s with firmware := .idle, holder := none, sent := sent }

/-- The interrupts are off while the task holds the lock. -/
def firmwareStep (s : State) : FirmwareLabel → Option State
  | .isr capacity =>
      if s.firmware = .idle ∧ capacity ≠ 0 then
        some { s with firmware := .receive ⟨false, capacity, 0#8, []⟩ .readMask }
      else none
  | .receive capacity acquired =>
      if s.firmware ≠ .idle ∨ capacity = 0 then none
      else if acquired = false then some s
      else if s.holder = none then
        some { s with
          firmware := .receive ⟨true, capacity, 0#8, []⟩ .readMask
          holder := some .firmware }
      else none
  | .send command acquired =>
      if s.firmware ≠ .idle then none
      else if acquired = false then some { s with sent := false }
      else if s.holder = none then
        some { s with
          firmware := .send command.fromRtos (.testLinux 0)
          holder := some .firmware }
      else none
  | .access mask =>
      match s.firmware with
      | .idle => none
      | .receive call pc => receiveStep s call mask pc
      | .send reply pc => some (sendStep s reply pc)

def step : Label → State → Option State
  | .linux l, s => linuxStep s l
  | .firmware l, s => firmwareStep s l

def State.initial : State :=
  ⟨fun _ => ⟨0#8, 0#7, 0#1, 0#8, 0#8, 0#32⟩, 0#8, 0#8, none, .idle, .idle, false, [], 0,
    fun _ => none, []⟩

def system : System State Label where
  start s := s = State.initial
  step := step

/-! ## What is received -/

/-- Returned, or counted by the call that is running. -/
def State.taken (s : State) : List Entry := s.returned ++ s.firmware.commands

/-- The entry is a command of the stream, header and parameter. -/
def Entry.Whole (stream : List Command) (entry : Entry) : Prop :=
  ∃ n command, entry.post = some n ∧ stream[n]? = some command ∧
    entry.command = command.fromLinux

structure Received (s : State) : Prop where
  whole : ∀ entry ∈ s.returned, entry.Whole s.stream
  once : (s.returned.map Entry.post).Nodup
  /-- A reply is written to a slot that neither side owns. -/
  unoccupied : ∀ reply slot, s.firmware = .send reply (.writeParam slot) ∨
    s.firmware = .send reply (.writeHeader slot) →
      s.occupant slot = none ∧ Command.free (s.context slot)
  /-- A posted command that has not been taken is in a slot. -/
  kept : ∀ n < s.posted, some n ∉ s.taken.map Entry.post →
    ∃ slot command, s.occupant slot = some n ∧ s.stream[n]? = some command ∧
      s.context slot = command.fromLinux

/-- A slot is copied when its header has been written and its parameter is still the
one of an earlier command. -/
def tears (s : State) : Bool :=
  match s.linux, s.firmware with
  | .half slot command true, .receive _ (.copy copied) =>
      slot = copied ∧ (s.context slot).paramPtr ≠ command.paramPtr
  | _, _ => false

/-- The step does not copy half a command. -/
def whole : Label → State → Bool
  | .firmware (.access _), s => !tears s
  | _, _ => true

/-! ## The ledger of the slots -/

/-- The header of the slot is the command's, and so is its parameter unless Linux is
about to write it. -/
def Filled (context : Context) (linux : LinuxPc) (slot : Index) (command : Command) : Prop :=
  ∃ paramPtr, context slot = { command.fromLinux with paramPtr := paramPtr } ∧
    (paramPtr = command.paramPtr ∨ linux = .half slot command true)

/-- What Linux relies on between two of its accesses. -/
def LinuxFacts (context : Context) (occupant : Index → Option ℕ) (stream : List Command)
    (posted : ℕ) (taken : List Entry) : LinuxPc → Prop
  | .idle | .locked | .ring _ => stream.length = posted
  | .chosen slot _ =>
      stream.length = posted ∧ occupant slot = none ∧ (context slot).rtosValid = 0#8
  | .half slot command false =>
      stream.length = posted ∧ occupant slot = none ∧ (context slot).rtosValid = 0#8 ∧
        (context slot).paramPtr = command.paramPtr
  | .half slot command true =>
      stream.length = posted + 1 ∧ stream[posted]? = some command ∧
        (occupant slot = some posted ∨
          occupant slot = none ∧ (context slot).rtosValid = 0#8 ∧
            some posted ∈ taken.map Entry.post)

structure Ledger (context : Context) (occupant : Index → Option ℕ) (stream : List Command)
    (posted : ℕ) (linux : LinuxPc) (taken : List Entry) : Prop where
  facts : LinuxFacts context occupant stream posted taken linux
  vacant : ∀ slot, occupant slot = none → (context slot).linuxValid = 0#8
  occupied : ∀ slot n, occupant slot = some n → ∃ command, stream[n]? = some command ∧
    Filled context linux slot command
  distinct : ∀ slot other n, occupant slot = some n → occupant other = some n → slot = other
  fresh : ∀ slot n, occupant slot = some n → some n ∉ taken.map Entry.post
  whole : ∀ entry ∈ taken, entry.Whole stream
  once : (taken.map Entry.post).Nodup
  kept : ∀ n < posted, some n ∈ taken.map Entry.post ∨ ∃ slot, occupant slot = some n

variable {context : Context} {occupant : Index → Option ℕ} {stream : List Command}
  {posted : ℕ} {linux : LinuxPc} {taken : List Entry} {slot other : Index} {command : Command}

@[simp] theorem Context.writeHeader_self :
    context.writeHeader slot command slot =
      { command with paramPtr := (context slot).paramPtr } := by
  rw [Context.writeHeader, Function.update_self]

@[simp] theorem Context.writeHeader_ne (h : other ≠ slot) :
    context.writeHeader slot command other = context other := by
  rw [Context.writeHeader, Function.update_of_ne h]

@[simp] theorem Context.writeParam_self {paramPtr : U32} :
    context.writeParam slot paramPtr slot = { context slot with paramPtr := paramPtr } := by
  rw [Context.writeParam, Function.update_self]

@[simp] theorem Context.writeParam_ne {paramPtr : U32} (h : other ≠ slot) :
    context.writeParam slot paramPtr other = context other := by
  rw [Context.writeParam, Function.update_of_ne h]

@[simp] theorem Context.zero_self :
    context.zero slot slot = ⟨0#8, 0#7, 0#1, 0#8, 0#8, 0#32⟩ := by
  rw [Context.zero, Function.update_self]

@[simp] theorem Context.zero_ne (h : other ≠ slot) : context.zero slot other = context other := by
  rw [Context.zero, Function.update_of_ne h]

theorem Filled.linuxValid (h : Filled context linux slot command) :
    (context slot).linuxValid = 1#8 := by
  obtain ⟨paramPtr, hslot, -⟩ := h
  rw [hslot]
  rfl

theorem Filled.rtosValid (h : Filled context linux slot command) :
    (context slot).rtosValid = 0#8 := by
  obtain ⟨paramPtr, hslot, -⟩ := h
  rw [hslot]
  rfl

/-- The slot holds the command, if its parameter is not still to be written. -/
theorem Filled.eq (h : Filled context linux slot command)
    (hparam : linux = .half slot command true → (context slot).paramPtr = command.paramPtr) :
    context slot = command.fromLinux := by
  obtain ⟨paramPtr, hslot, hwritten⟩ := h
  have hvalue : paramPtr = command.paramPtr := by
    apply hwritten.elim id
    intro hlinux
    rw [← hparam hlinux, hslot]
  rw [hslot, hvalue]
  rfl

/-- Only the slot and the step Linux is at matter. -/
theorem Filled.frame {context' : Context} {linux' : LinuxPc}
    (h : Filled context linux slot command) (hslot : context' slot = context slot)
    (hlinux : linux = .half slot command true → linux' = .half slot command true) :
    Filled context' linux' slot command := by
  obtain ⟨paramPtr, hcontext, hwritten⟩ := h
  exact ⟨paramPtr, hslot.trans hcontext, hwritten.imp_right hlinux⟩

/-- A slot is free or holds a command of the stream. -/
theorem Ledger.occupant_of_linuxValid (h : Ledger context occupant stream posted linux taken)
    (hvalid : (context slot).linuxValid = 1#8) : ∃ n, occupant slot = some n := by
  apply Option.ne_none_iff_exists'.mp
  intro hnone
  rw [h.vacant slot hnone] at hvalid
  exact absurd hvalid (by decide)

theorem Ledger.linuxValid_of_occupant (h : Ledger context occupant stream posted linux taken)
    {n : ℕ} (hoccupant : occupant slot = some n) : (context slot).linuxValid = 1#8 := by
  obtain ⟨command, -, hfilled⟩ := h.occupied slot n hoccupant
  exact hfilled.linuxValid

theorem Ledger.occupant_of_zero (h : Ledger context occupant stream posted linux taken)
    (hvalid : (context slot).linuxValid = 0#8) : occupant slot = none := by
  apply Option.eq_none_iff_forall_ne_some.mpr
  intro n hn
  rw [h.linuxValid_of_occupant hn] at hvalid
  exact absurd hvalid (by decide)

theorem Ledger.occupant_lt (h : Ledger context occupant stream posted linux taken)
    {n : ℕ} (hoccupant : occupant slot = some n) : n < stream.length := by
  obtain ⟨command, hstream, -⟩ := h.occupied slot n hoccupant
  exact (List.getElem?_eq_some_iff.mp hstream).1

theorem Ledger.taken_lt (h : Ledger context occupant stream posted linux taken)
    {n : ℕ} (htaken : some n ∈ taken.map Entry.post) : n < stream.length := by
  obtain ⟨entry, hentry, hpost⟩ := List.mem_map.mp htaken
  obtain ⟨m, command, hm, hstream, -⟩ := h.whole entry hentry
  rw [hpost, Option.some.injEq] at hm
  rw [hm]
  exact (List.getElem?_eq_some_iff.mp hstream).1

theorem Entry.Whole.mono {entry : Entry} {stream' : List Command} (h : entry.Whole stream)
    (hextends : stream <+: stream') : entry.Whole stream' := by
  obtain ⟨n, command, hpost, hstream, hcommand⟩ := h
  obtain ⟨rest, rfl⟩ := hextends
  refine ⟨n, command, hpost, ?_, hcommand⟩
  rw [List.getElem?_append_left (List.getElem?_eq_some_iff.mp hstream).1, hstream]

/-! ### What the accesses do to the ledger -/

theorem Ledger.frame (h : Ledger context occupant stream posted linux taken)
    {context' : Context} {linux' : LinuxPc}
    (hfacts : LinuxFacts context' occupant stream posted taken linux')
    (hvacant : ∀ slot, occupant slot = none → (context' slot).linuxValid = 0#8)
    (hfilled : ∀ slot command, occupant slot ≠ none → Filled context linux slot command →
      Filled context' linux' slot command) :
    Ledger context' occupant stream posted linux' taken := by
  refine ⟨hfacts, hvacant, ?_, h.distinct, h.fresh, h.whole, h.once, h.kept⟩
  intro slot n hslot
  obtain ⟨command, hstream, hcommand⟩ := h.occupied slot n hslot
  refine ⟨command, hstream, hfilled slot command ?_ hcommand⟩
  rw [hslot]
  exact Option.some_ne_none n

/-- Linux goes on without an access to the slots. -/
theorem Ledger.goto (h : Ledger context occupant stream posted linux taken) {linux' : LinuxPc}
    (hfacts : LinuxFacts context occupant stream posted taken linux')
    (hlinux : ∀ slot command, linux ≠ .half slot command true) :
    Ledger context occupant stream posted linux' taken := by
  apply h.frame hfacts h.vacant
  intro slot command _ hfilled
  exact hfilled.frame rfl fun hhalf => absurd hhalf (hlinux slot command)

/-- A write to a slot that holds no command. -/
theorem Ledger.write (h : Ledger context occupant stream posted linux taken)
    {context' : Context} {linux' : LinuxPc} (hslot : occupant slot = none)
    (hvalid : (context' slot).linuxValid = 0#8)
    (hothers : ∀ other, other ≠ slot → context' other = context other)
    (hfacts : LinuxFacts context' occupant stream posted taken linux')
    (hlinux : ∀ slot command, linux = .half slot command true → linux' = .half slot command true) :
    Ledger context' occupant stream posted linux' taken := by
  apply h.frame hfacts
  · intro other hother
    by_cases hne : other = slot
    · rw [hne]
      exact hvalid
    · rw [hothers other hne]
      exact h.vacant other hother
  · intro other command hother hfilled
    apply hfilled.frame (hothers other _) (hlinux other command)
    intro heq
    exact hother (heq ▸ hslot)

/-- The header of a new command goes into a slot that holds none. -/
theorem Ledger.writeHeader (h : Ledger context occupant stream posted linux taken)
    {linux' : LinuxPc} {posted' : ℕ} (hslot : occupant slot = none)
    (hlinux : ∀ slot command, linux ≠ .half slot command true)
    (hparam : (context slot).paramPtr = command.paramPtr ∨ linux' = .half slot command true)
    (hposted : posted' = stream.length ∨ posted' = stream.length + 1)
    (hlength : stream.length = posted)
    (hfacts : LinuxFacts (context.writeHeader slot command.fromLinux)
      (Function.update occupant slot (some stream.length)) (stream ++ [command]) posted' taken
      linux') :
    Ledger (context.writeHeader slot command.fromLinux)
      (Function.update occupant slot (some stream.length)) (stream ++ [command]) posted' linux'
      taken := by
  have hself : Function.update occupant slot (some stream.length) slot = some stream.length :=
    Function.update_self _ _ _
  have hother : ∀ other, other ≠ slot →
      Function.update occupant slot (some stream.length) other = occupant other :=
    fun other hne => Function.update_of_ne hne _ _
  refine ⟨hfacts, ?_, ?_, ?_, ?_, fun entry hentry => (h.whole entry hentry).mono (List.prefix_append _ _),
    h.once, ?_⟩
  · intro other hnone
    by_cases hne : other = slot
    · rw [hne, hself] at hnone
      exact absurd hnone (Option.some_ne_none _)
    · rw [hother other hne] at hnone
      rw [Context.writeHeader_ne hne]
      exact h.vacant other hnone
  · intro other n hn
    by_cases hne : other = slot
    · rw [hne, hself, Option.some.injEq] at hn
      rw [hne, ← hn]
      refine ⟨command, List.getElem?_concat_length, (context slot).paramPtr, ?_, hparam⟩
      rw [Context.writeHeader_self]
    · rw [hother other hne] at hn
      obtain ⟨c, hstream, hfilled⟩ := h.occupied other n hn
      refine ⟨c, ?_, hfilled.frame (Context.writeHeader_ne hne)
        fun hhalf => absurd hhalf (hlinux other c)⟩
      rw [List.getElem?_append_left (h.occupant_lt hn), hstream]
  · intro one other n hone hn
    by_cases h1 : one = slot <;> by_cases h2 : other = slot
    · rw [h1, h2]
    · rw [h1, hself, Option.some.injEq] at hone
      rw [hother other h2] at hn
      exact absurd (h.occupant_lt hn) (by omega)
    · rw [h2, hself, Option.some.injEq] at hn
      rw [hother one h1] at hone
      exact absurd (h.occupant_lt hone) (by omega)
    · rw [hother one h1] at hone
      rw [hother other h2] at hn
      exact h.distinct one other n hone hn
  · intro other n hn htaken
    by_cases hne : other = slot
    · rw [hne, hself, Option.some.injEq] at hn
      exact absurd (h.taken_lt htaken) (by omega)
    · rw [hother other hne] at hn
      exact h.fresh other n hn htaken
  · intro n hn
    by_cases hlast : n = stream.length
    · exact .inr ⟨slot, by rw [hself, hlast]⟩
    · apply (h.kept n (by omega)).imp_right
      intro ⟨other, hn⟩
      refine ⟨other, ?_⟩
      rw [hother other, hn]
      intro heq
      rw [heq, hslot] at hn
      exact absurd hn.symm (Option.some_ne_none n)

/-- The parameter of the command whose header is written. -/
theorem Ledger.writeParam (h : Ledger context occupant stream posted (.half slot command true) taken) :
    Ledger (context.writeParam slot command.paramPtr) occupant stream (posted + 1) (.ring slot)
      taken := by
  obtain ⟨hlength, hstream, hslot⟩ := h.facts
  refine ⟨hlength, ?_, ?_, h.distinct, h.fresh, h.whole, h.once, ?_⟩
  · intro other hnone
    by_cases hne : other = slot
    · rw [hne, Context.writeParam_self]
      exact h.vacant slot (hne ▸ hnone)
    · rw [Context.writeParam_ne hne]
      exact h.vacant other hnone
  · intro other n hn
    obtain ⟨c, hc, hfilled⟩ := h.occupied other n hn
    refine ⟨c, hc, ?_⟩
    by_cases hne : other = slot
    · subst hne
      have hcommand : c = command := by
        have hposted : n = posted := by
          apply hslot.elim
          · intro hsome
            rw [hsome, Option.some.injEq] at hn
            exact hn.symm
          · intro hnone
            rw [hnone.1] at hn
            exact absurd hn.symm (Option.some_ne_none n)
        rw [hposted, hstream, Option.some.injEq] at hc
        exact hc.symm
      obtain ⟨paramPtr, hslot', -⟩ := hfilled
      refine ⟨command.paramPtr, ?_, .inl (by rw [hcommand])⟩
      rw [Context.writeParam_self, hslot']
    · apply hfilled.frame (Context.writeParam_ne hne)
      intro hhalf
      rw [LinuxPc.half.injEq] at hhalf
      exact absurd hhalf.1.symm hne
  · intro n hn
    by_cases hlast : n = posted
    · rw [hlast]
      exact hslot.elim (fun hsome => .inr ⟨slot, hsome⟩) fun hnone => .inl hnone.2.2
    · exact h.kept n (by omega)

/-- The slot Linux is about to write to is not the one that is taken. -/
theorem LinuxFacts.zero (h : LinuxFacts context occupant stream posted taken linux) {n : ℕ}
    {entry : Entry} (hslot : occupant slot = some n) (hpost : entry.post = some n) :
    LinuxFacts (context.zero slot) (Function.update occupant slot none) stream posted
      (taken ++ [entry]) linux := by
  have hne : ∀ other, occupant other = none → other ≠ slot := by
    intro other hnone heq
    rw [heq, hslot] at hnone
    exact absurd hnone (Option.some_ne_none n)
  cases linux with
  | idle => exact h
  | locked => exact h
  | ring => exact h
  | chosen other command =>
      obtain ⟨hlength, hnone, hvalid⟩ := h
      refine ⟨hlength, ?_, ?_⟩
      · rw [Function.update_of_ne (hne other hnone), hnone]
      · rw [Context.zero_ne (hne other hnone), hvalid]
  | half other command header =>
      cases header with
      | false =>
          obtain ⟨hlength, hnone, hvalid, hparam⟩ := h
          refine ⟨hlength, ?_, ?_, ?_⟩
          · rw [Function.update_of_ne (hne other hnone), hnone]
          · rw [Context.zero_ne (hne other hnone), hvalid]
          · rw [Context.zero_ne (hne other hnone), hparam]
      | true =>
          obtain ⟨hlength, hstream, hother⟩ := h
          refine ⟨hlength, hstream, ?_⟩
          rw [List.map_append, List.mem_append]
          rcases hother with hsome | ⟨hnone, hvalid, htaken⟩
          · by_cases heq : other = slot
            · rw [heq, hslot, Option.some.injEq] at hsome
              rw [heq, Function.update_self, Context.zero_self]
              refine .inr ⟨rfl, rfl, .inr ?_⟩
              rw [List.map_singleton, hpost, hsome]
              exact List.mem_singleton_self _
            · rw [Function.update_of_ne heq]
              exact .inl hsome
          · rw [Function.update_of_ne (hne other hnone), Context.zero_ne (hne other hnone)]
            exact .inr ⟨hnone, hvalid, .inl htaken⟩

/-- A copied command leaves its slot. -/
theorem Ledger.zero (h : Ledger context occupant stream posted linux taken) {n : ℕ}
    {entry : Entry} (hslot : occupant slot = some n) (hpost : entry.post = some n)
    (hentry : entry.Whole stream) :
    Ledger (context.zero slot) (Function.update occupant slot none) stream posted linux
      (taken ++ [entry]) := by
  have hself : Function.update occupant slot none slot = none := Function.update_self _ _ _
  have hother : ∀ other, other ≠ slot →
      Function.update occupant slot none other = occupant other :=
    fun other hne => Function.update_of_ne hne _ _
  have hsome : ∀ other m, Function.update occupant slot none other = some m →
      other ≠ slot ∧ occupant other = some m := by
    intro other m hm
    by_cases hne : other = slot
    · rw [hne, hself] at hm
      exact absurd hm.symm (Option.some_ne_none m)
    · exact ⟨hne, by rw [← hother other hne, hm]⟩
  have hmap : (taken ++ [entry]).map Entry.post = taken.map Entry.post ++ [some n] := by
    rw [List.map_append, List.map_singleton, hpost]
  refine ⟨h.facts.zero hslot hpost, ?_, ?_, ?_, ?_, ?_, ?_, ?_⟩
  · intro other hnone
    by_cases hne : other = slot
    · rw [hne, Context.zero_self]
    · rw [hother other hne] at hnone
      rw [Context.zero_ne hne]
      exact h.vacant other hnone
  · intro other m hm
    obtain ⟨hne, hm'⟩ := hsome other m hm
    obtain ⟨command, hstream, hfilled⟩ := h.occupied other m hm'
    exact ⟨command, hstream, hfilled.frame (Context.zero_ne hne) id⟩
  · intro one other m hone hm
    exact h.distinct one other m (hsome one m hone).2 (hsome other m hm).2
  · intro other m hm htaken
    obtain ⟨hne, hm'⟩ := hsome other m hm
    rw [hmap, List.mem_append, List.mem_singleton] at htaken
    apply htaken.elim (h.fresh other m hm')
    intro heq
    rw [heq] at hm'
    exact hne (h.distinct other slot n hm' hslot)
  · intro e he
    rw [List.mem_append, List.mem_singleton] at he
    exact he.elim (h.whole e) fun heq => heq ▸ hentry
  · rw [hmap, List.nodup_append_comm, List.singleton_append, List.nodup_cons]
    exact ⟨h.fresh slot n hslot, h.once⟩
  · intro m hm
    rw [hmap, List.mem_append, List.mem_singleton]
    by_cases heq : m = n
    · exact .inl (.inr (by rw [heq]))
    · apply (h.kept m hm).imp .inl
      intro ⟨other, hm'⟩
      refine ⟨other, ?_⟩
      rw [hother other, hm']
      intro hne
      rw [hne, hslot, Option.some.injEq] at hm'
      exact heq hm'.symm

/-! ## The invariant -/

def SendFacts (context : Context) : SendPc → Prop
  | .testRtos slot => (context slot).linuxValid = 0#8
  | .writeParam slot | .writeHeader slot => Command.free (context slot)
  | _ => True

/-- What the firmware relies on between two of its accesses. -/
def FirmwareFacts (context : Context) (occupant : Index → Option ℕ) (stream : List Command) :
    FirmwarePc → Prop
  | .receive _ (.testRtos slot) | .receive _ (.copy slot) => (context slot).linuxValid = 1#8
  | .receive _ (.zero slot entry) => entry.Whole stream ∧ entry.post = occupant slot
  | .send reply pc => reply.linuxValid = 0#8 ∧ SendFacts context pc
  | _ => True

structure Inv (s : State) : Prop where
  linuxHolds : s.linux ≠ .idle → s.holder = some .linux
  firmwareHolds : s.firmware.locked = true → s.holder = some .firmware
  ledger : Ledger s.context s.occupant s.stream s.posted s.linux s.taken
  firmware : FirmwareFacts s.context s.occupant s.stream s.firmware

theorem Inv.initial : Inv State.initial where
  linuxHolds h := absurd rfl h
  firmwareHolds h := nomatch h
  ledger :=
    { facts := rfl
      vacant := fun _ _ => rfl
      occupied := fun _ _ h => nomatch h
      distinct := fun _ _ _ h => nomatch h
      fresh := fun _ _ h => nomatch h
      whole := fun _ h => nomatch h
      once := List.nodup_nil
      kept := fun n h => absurd h (Nat.not_lt_zero n) }
  firmware := trivial

/-- What a step of Linux keeps of the slots, as far as the firmware relies on them. -/
structure Kept (s t : State) : Prop where
  valid : ∀ slot, (s.context slot).linuxValid = 1#8 → (t.context slot).linuxValid = 1#8
  occupant : ∀ slot n, s.occupant slot = some n → t.occupant slot = some n
  stream : s.stream <+: t.stream
  /-- The firmware does not hold the lock, or nothing becomes occupied. -/
  free : s.firmware.locked = false ∨ ∀ slot,
    ((s.context slot).linuxValid = 0#8 → (t.context slot).linuxValid = 0#8) ∧
      ((s.context slot).rtosValid = 0#8 → (t.context slot).rtosValid = 0#8)

theorem FirmwareFacts.kept {s t : State} (hinv : Inv s) (hkept : Kept s t) :
    FirmwareFacts t.context t.occupant t.stream s.firmware := by
  have h := hinv.firmware
  cases hpc : s.firmware with
  | idle => trivial
  | receive call pc =>
      rw [hpc] at h
      cases pc with
      | testRtos slot => exact hkept.valid slot h
      | copy slot => exact hkept.valid slot h
      | zero slot entry =>
          obtain ⟨hwhole, hpost⟩ := h
          refine ⟨hwhole.mono hkept.stream, ?_⟩
          obtain ⟨n, command, hn, -⟩ := hwhole
          rw [hn, hkept.occupant slot n (hpost.symm.trans hn)]
      | readMask => trivial
      | acknowledge => trivial
      | testLinux => trivial
      | finish => trivial
  | send reply pc =>
      have hfree := hkept.free.resolve_left (by rw [hpc]; exact Bool.noConfusion)
      rw [hpc] at h
      obtain ⟨hreply, hsend⟩ := h
      refine ⟨hreply, ?_⟩
      cases pc with
      | testRtos slot => exact (hfree slot).1 hsend
      | writeParam slot => exact ⟨(hfree slot).1 hsend.1, (hfree slot).2 hsend.2⟩
      | writeHeader slot => exact ⟨(hfree slot).1 hsend.1, (hfree slot).2 hsend.2⟩
      | testLinux => trivial
      | ring => trivial
      | unlock => trivial

/-- The lock keeps Linux and the task apart. -/
theorem Inv.not_locked {s : State} (h : Inv s) (hlinux : s.linux ≠ .idle) :
    s.firmware.locked = false := by
  cases hlocked : s.firmware.locked with
  | false => rfl
  | true =>
      have hboth := (h.linuxHolds hlinux).symm.trans (h.firmwareHolds hlocked)
      exact absurd hboth (by decide)

/-- A step of Linux that leaves the firmware where it is. -/
theorem Inv.preserve {s t : State} (h : Inv s) (hfirmware : t.firmware = s.firmware)
    (hreturned : t.returned = s.returned) (hkept : Kept s t)
    (hlinux : t.linux ≠ .idle → t.holder = some .linux)
    (hholder : t.holder = s.holder ∨ s.firmware.locked = false)
    (hledger : Ledger t.context t.occupant t.stream t.posted t.linux s.taken) : Inv t where
  linuxHolds := hlinux
  firmwareHolds := by
    intro hlocked
    rw [hfirmware] at hlocked
    apply hholder.elim
    · intro heq
      rw [heq, h.firmwareHolds hlocked]
    · intro hfree
      rw [hlocked] at hfree
      exact absurd hfree (by decide)
  ledger := by
    rw [State.taken, hfirmware, hreturned]
    exact hledger
  firmware := by
    rw [hfirmware]
    exact FirmwareFacts.kept h hkept

theorem Kept.of_eq {s t : State} (hcontext : t.context = s.context)
    (hoccupant : t.occupant = s.occupant) (hstream : t.stream = s.stream) : Kept s t where
  valid slot h := by rw [hcontext, h]
  occupant slot n h := by rw [hoccupant, h]
  stream := by rw [hstream]
  free := .inr fun slot => by rw [hcontext]; exact ⟨id, id⟩

/-- Linux writes the header of its command. -/
theorem Kept.writeHeader {s t : State} (hfree : s.firmware.locked = false)
    (hslot : s.occupant slot = none)
    (hcontext : t.context = s.context.writeHeader slot command.fromLinux)
    (hoccupant : t.occupant = Function.update s.occupant slot (some s.stream.length))
    (hstream : t.stream = s.stream ++ [command]) : Kept s t where
  valid other h := by
    rw [hcontext]
    by_cases hne : other = slot
    · rw [hne, Context.writeHeader_self]
      rfl
    · rw [Context.writeHeader_ne hne, h]
  occupant other n h := by
    have hne : other ≠ slot := by
      intro heq
      rw [heq, hslot] at h
      exact absurd h.symm (Option.some_ne_none n)
    rw [hoccupant, Function.update_of_ne hne, h]
  stream := by
    rw [hstream]
    exact List.prefix_append _ _
  free := .inl hfree

theorem Kept.writeParam {s t : State} {paramPtr : U32}
    (hcontext : t.context = s.context.writeParam slot paramPtr)
    (hoccupant : t.occupant = s.occupant) (hstream : t.stream = s.stream) : Kept s t := by
  have hsame : ∀ other, (t.context other).linuxValid = (s.context other).linuxValid ∧
      (t.context other).rtosValid = (s.context other).rtosValid := by
    intro other
    rw [hcontext]
    by_cases hne : other = slot
    · rw [hne, Context.writeParam_self]
      exact ⟨rfl, rfl⟩
    · rw [Context.writeParam_ne hne]
      exact ⟨rfl, rfl⟩
  refine ⟨?_, ?_, by rw [hstream], .inr ?_⟩
  · intro other h
    rw [(hsame other).1, h]
  · intro other n h
    rw [hoccupant, h]
  · intro other
    rw [(hsame other).1, (hsame other).2]
    exact ⟨id, id⟩

/-- Linux takes a reply. -/
theorem Kept.zero {s t : State} (hvalid : (s.context slot).linuxValid = 0#8)
    (hcontext : t.context = s.context.zero slot) (hoccupant : t.occupant = s.occupant)
    (hstream : t.stream = s.stream) : Kept s t := by
  refine ⟨?_, ?_, by rw [hstream], .inr ?_⟩
  · intro other h
    have hne : other ≠ slot := by
      intro heq
      rw [heq, hvalid] at h
      exact absurd h (by decide)
    rw [hcontext, Context.zero_ne hne, h]
  · intro other n h
    rw [hoccupant, h]
  · intro other
    rw [hcontext]
    by_cases hne : other = slot
    · rw [hne, Context.zero_self]
      exact ⟨fun _ => rfl, fun _ => rfl⟩
    · rw [Context.zero_ne hne]
      exact ⟨id, id⟩

/-- A reply that Linux takes is not in the slot it is about to write to. -/
theorem LinuxFacts.takeReply (h : LinuxFacts context occupant stream posted taken linux)
    (hvalid : (context slot).rtosValid = 1#8) :
    LinuxFacts (context.zero slot) occupant stream posted taken linux := by
  have hne : ∀ other, (context other).rtosValid = 0#8 → other ≠ slot := by
    intro other hother heq
    rw [heq, hvalid] at hother
    exact absurd hother (by decide)
  cases linux with
  | idle => exact h
  | locked => exact h
  | ring => exact h
  | chosen other command =>
      refine ⟨h.1, h.2.1, ?_⟩
      rw [Context.zero_ne (hne other h.2.2), h.2.2]
  | half other command header =>
      cases header with
      | false =>
          obtain ⟨hlength, hnone, hother, hparam⟩ := h
          rw [LinuxFacts, Context.zero_ne (hne other hother)]
          exact ⟨hlength, hnone, hother, hparam⟩
      | true =>
          refine ⟨h.1, h.2.1, h.2.2.imp_right ?_⟩
          intro ⟨hnone, hother, htaken⟩
          rw [Context.zero_ne (hne other hother)]
          exact ⟨hnone, hother, htaken⟩

theorem Inv.linuxStep {s t : State} {l : LinuxLabel} (h : Inv s)
    (hstep : Mailbox.linuxStep s l = some t) : Inv t := by
  have hledger := h.ledger
  have hfacts := hledger.facts
  cases l with
  | lock =>
      simp only [Mailbox.linuxStep] at hstep
      split_ifs at hstep with hidle
      cases hstep
      rw [hidle.1] at hledger hfacts
      refine h.preserve rfl rfl (.of_eq rfl rfl rfl) (fun _ => rfl) (.inr ?_)
        (hledger.goto hfacts (fun _ _ => LinuxPc.noConfusion))
      cases hlocked : s.firmware.locked with
      | false => rfl
      | true =>
          have hholds := h.firmwareHolds hlocked
          rw [hidle.2] at hholds
          exact absurd hholds (by decide)
  | choose slot command =>
      simp only [Mailbox.linuxStep] at hstep
      split_ifs at hstep with hlocked
      cases hstep
      obtain ⟨hpc, hvalid, hrtos⟩ := hlocked
      have hholds := h.linuxHolds (by rw [hpc]; exact LinuxPc.noConfusion)
      rw [hpc] at hledger hfacts
      exact h.preserve rfl rfl (.of_eq rfl rfl rfl) (fun _ => hholds) (.inl rfl)
        (hledger.goto ⟨hfacts, hledger.occupant_of_zero hvalid, hrtos⟩
          (fun _ _ => LinuxPc.noConfusion))
  | first header =>
      simp only [Mailbox.linuxStep] at hstep
      split at hstep
      · rename_i slot command hpc
        cases hstep
        have hpc' : s.linux ≠ .idle := by rw [hpc]; exact LinuxPc.noConfusion
        have hholds := h.linuxHolds hpc'
        have hfree := h.not_locked hpc'
        rw [hpc] at hledger hfacts
        obtain ⟨hlength, hnone, hrtos⟩ := hfacts
        cases header with
        | true =>
            refine h.preserve rfl rfl (.writeHeader hfree hnone rfl rfl rfl) (fun _ => hholds)
              (.inl rfl) (hledger.writeHeader hnone (fun _ _ => LinuxPc.noConfusion) (.inr rfl)
                (.inl hlength.symm) hlength ⟨?_, ?_, .inl ?_⟩)
            · rw [List.length_append, List.length_singleton, hlength]
              rfl
            · show (s.stream ++ [command])[s.posted]? = some command
              rw [← hlength, List.getElem?_concat_length]
            · show Function.update s.occupant slot (some s.stream.length) slot = some s.posted
              rw [Function.update_self, hlength]
        | false =>
            have hvalid : (s.context.writeParam slot command.paramPtr slot).linuxValid = 0#8 := by
              rw [Context.writeParam_self]
              exact hledger.vacant slot hnone
            have hrtos' : (s.context.writeParam slot command.paramPtr slot).rtosValid = 0#8 := by
              rw [Context.writeParam_self]
              exact hrtos
            have hparam : (s.context.writeParam slot command.paramPtr slot).paramPtr =
                command.paramPtr := by
              rw [Context.writeParam_self]
            exact h.preserve rfl rfl (.writeParam rfl rfl rfl) (fun _ => hholds) (.inl rfl)
              (hledger.write hnone hvalid (fun _ => Context.writeParam_ne)
                ⟨hlength, hnone, hrtos', hparam⟩ (fun _ _ => LinuxPc.noConfusion))
      · cases hstep
  | second =>
      simp only [Mailbox.linuxStep] at hstep
      split at hstep
      · rename_i slot command header hpc
        cases hstep
        have hpc' : s.linux ≠ .idle := by rw [hpc]; exact LinuxPc.noConfusion
        have hholds := h.linuxHolds hpc'
        have hfree := h.not_locked hpc'
        rw [hpc] at hledger hfacts
        cases header with
        | true =>
            exact h.preserve rfl rfl (.writeParam rfl rfl rfl) (fun _ => hholds) (.inl rfl)
              hledger.writeParam
        | false =>
            obtain ⟨hlength, hnone, hrtos, hparam⟩ := hfacts
            refine h.preserve rfl rfl (.writeHeader hfree hnone rfl rfl rfl) (fun _ => hholds)
              (.inl rfl) (hledger.writeHeader hnone (fun _ _ heq => nomatch heq)
                (.inl hparam) (.inr ?_) hlength ?_)
            · show s.posted + 1 = s.stream.length + 1
              rw [hlength]
            · show (s.stream ++ [command]).length = s.posted + 1
              rw [List.length_append, List.length_singleton, hlength]
      · cases hstep
  | ring =>
      simp only [Mailbox.linuxStep] at hstep
      split at hstep
      · rename_i slot hpc
        cases hstep
        have hholds := h.linuxHolds (by rw [hpc]; exact LinuxPc.noConfusion)
        rw [hpc] at hledger hfacts
        exact h.preserve rfl rfl (.of_eq rfl rfl rfl) (fun _ => hholds) (.inl rfl)
          (hledger.goto hfacts (fun _ _ => LinuxPc.noConfusion))
      · cases hstep
  | unlock =>
      simp only [Mailbox.linuxStep] at hstep
      split_ifs at hstep with hpc
      cases hstep
      have hfree := h.not_locked (by rw [hpc]; exact LinuxPc.noConfusion)
      rw [hpc] at hledger hfacts
      exact h.preserve rfl rfl (.of_eq rfl rfl rfl) (fun hidle => absurd rfl hidle) (.inr hfree)
        (hledger.goto hfacts (fun _ _ => LinuxPc.noConfusion))
  | take slot =>
      simp only [Mailbox.linuxStep] at hstep
      split_ifs at hstep with hreply
      cases hstep
      obtain ⟨hrtos, hvalid⟩ := hreply
      have hzero : (s.context.zero slot slot).linuxValid = 0#8 := by rw [Context.zero_self]
      exact h.preserve rfl rfl (.zero hvalid rfl rfl rfl) h.linuxHolds (.inl rfl)
        (hledger.write (hledger.occupant_of_zero hvalid) hzero (fun _ => Context.zero_ne)
          (hfacts.takeReply hrtos) (fun _ _ => id))

/-! ## The firmware -/

/-- A step of the firmware that leaves the ledger alone. -/
theorem Inv.goto {s t : State} (h : Inv s) (hcontext : t.context = s.context)
    (hoccupant : t.occupant = s.occupant) (hstream : t.stream = s.stream)
    (hposted : t.posted = s.posted) (hlinux : t.linux = s.linux) (htaken : t.taken = s.taken)
    (hholds : t.linux ≠ .idle → t.holder = some .linux)
    (hlocked : t.firmware.locked = true → t.holder = some .firmware)
    (hfirmware : FirmwareFacts t.context t.occupant t.stream t.firmware) : Inv t where
  linuxHolds := hholds
  firmwareHolds := hlocked
  ledger := by
    rw [hcontext, hoccupant, hstream, hposted, hlinux, htaken]
    exact h.ledger
  firmware := hfirmware

theorem firmwareFacts_scan {call call' : Receive} {next : Option Index} :
    FirmwareFacts context occupant stream (.receive call' (call.scan next)) := by
  cases next with
  | none => trivial
  | some slot =>
      unfold Receive.scan
      split_ifs <;> trivial

theorem firmwareFacts_acknowledged {call call' : Receive} {next : Option Index} :
    FirmwareFacts context occupant stream (.receive call' (call.acknowledged next)) := by
  cases next with
  | none => exact (firmwareFacts_scan : FirmwareFacts _ _ _ (.receive _ (call.scan (some 0))))
  | some slot => trivial

theorem sendFacts_sendNext {next : Option Index} : SendFacts context (sendNext next) := by
  cases next <;> trivial

/-- The slot that is copied holds a whole command. -/
theorem Inv.copies {s : State} (h : Inv s) {call : Receive} {slot : Index}
    (hpc : s.firmware = .receive call (.copy slot)) (hwhole : tears s = false) :
    Entry.Whole s.stream ⟨s.context slot, s.occupant slot⟩ := by
  have hvalid := h.firmware
  rw [hpc] at hvalid
  obtain ⟨n, hn⟩ := h.ledger.occupant_of_linuxValid hvalid
  obtain ⟨command, hstream, hfilled⟩ := h.ledger.occupied slot n hn
  refine ⟨n, command, hn, hstream, hfilled.eq ?_⟩
  intro hhalf
  unfold tears at hwhole
  rw [hhalf, hpc] at hwhole
  by_contra hne
  rw [decide_eq_false_iff_not] at hwhole
  exact hwhole ⟨rfl, hne⟩

theorem Inv.receiveStep {s t : State} {call : Receive} {pc : ReceivePc} {mask : U8} (h : Inv s)
    (hpc : s.firmware = .receive call pc) (hwhole : tears s = false)
    (hstep : Mailbox.receiveStep s call mask pc = some t) : Inv t := by
  have hlocked := h.firmwareHolds
  have hfirmware := h.firmware
  have htaken : s.taken = s.returned ++ call.commands := by rw [State.taken, hpc]; rfl
  rw [hpc] at hlocked hfirmware
  cases pc with
  | readMask =>
      simp only [Mailbox.receiveStep] at hstep
      split_ifs at hstep
      cases hstep
      exact h.goto rfl rfl rfl rfl rfl htaken.symm h.linuxHolds hlocked trivial
  | acknowledge slot =>
      cases hstep
      exact h.goto rfl rfl rfl rfl rfl htaken.symm h.linuxHolds hlocked firmwareFacts_acknowledged
  | testLinux slot =>
      cases hstep
      refine h.goto rfl rfl rfl rfl rfl htaken.symm h.linuxHolds hlocked ?_
      show FirmwareFacts _ _ _ (.receive call (ite _ _ _))
      split_ifs with hvalid
      · exact hvalid
      · exact firmwareFacts_scan
  | testRtos slot =>
      cases hstep
      refine h.goto rfl rfl rfl rfl rfl htaken.symm h.linuxHolds hlocked ?_
      show FirmwareFacts _ _ _ (.receive call (ite _ _ _))
      split_ifs
      · exact hfirmware
      · exact firmwareFacts_scan
  | copy slot =>
      cases hstep
      exact h.goto rfl rfl rfl rfl rfl htaken.symm h.linuxHolds hlocked
        ⟨h.copies hpc hwhole, rfl⟩
  | zero slot entry =>
      cases hstep
      obtain ⟨hentry, hpost⟩ := hfirmware
      obtain ⟨n, command, hn, -⟩ := id hentry
      refine ⟨h.linuxHolds, hlocked, ?_, firmwareFacts_scan⟩
      have hledger := h.ledger.zero (hpost.symm.trans hn) hn hentry
      rw [htaken, List.append_assoc] at hledger
      exact hledger
  | finish =>
      cases hstep
      refine h.goto rfl rfl rfl rfl rfl ?_ ?_ Bool.noConfusion trivial
      · rw [htaken]
        exact List.append_nil _
      · intro hidle
        show (if call.locked then none else s.holder) = some Holder.linux
        split_ifs with hcall
        · have hboth := (h.linuxHolds hidle).symm.trans (hlocked hcall)
          exact absurd hboth (by decide)
        · exact h.linuxHolds hidle

/-- A reply is written to a free slot while Linux is away. -/
theorem Inv.writeReply {s t : State} (h : Inv s) {slot : Index}
    (hfree : Command.free (s.context slot)) (hidle : s.linux = .idle)
    (hvalid : (t.context slot).linuxValid = 0#8)
    (hothers : ∀ other, other ≠ slot → t.context other = s.context other)
    (hoccupant : t.occupant = s.occupant) (hstream : t.stream = s.stream)
    (hposted : t.posted = s.posted) (hlinux : t.linux = s.linux) (htaken : t.taken = s.taken)
    (hholder : t.holder = some .firmware)
    (hfirmware : FirmwareFacts t.context t.occupant t.stream t.firmware) : Inv t where
  linuxHolds := by
    rw [hlinux, hidle]
    exact fun hne => absurd rfl hne
  firmwareHolds _ := hholder
  ledger := by
    rw [hoccupant, hstream, hposted, htaken]
    apply h.ledger.write (h.ledger.occupant_of_zero hfree.1) hvalid hothers
    · have hfacts := h.ledger.facts
      rw [hidle] at hfacts
      rw [hlinux, hidle]
      exact hfacts
    · intro slot command hhalf
      rw [hlinux, hhalf]
  firmware := hfirmware

theorem Inv.sendStep {s : State} {reply : Command} {pc : SendPc} (h : Inv s)
    (hpc : s.firmware = .send reply pc) : Inv (Mailbox.sendStep s reply pc) := by
  have hholder : s.holder = some .firmware := h.firmwareHolds (by rw [hpc]; rfl)
  have htaken : s.taken = s.returned ++ [] := by rw [State.taken, hpc]; rfl
  have hidle : s.linux = .idle := by
    by_contra hne
    have hboth := (h.linuxHolds hne).symm.trans hholder
    exact absurd hboth (by decide)
  have hfirmware := h.firmware
  rw [hpc] at hfirmware
  obtain ⟨hreply, hsend⟩ := hfirmware
  cases pc with
  | testLinux slot =>
      refine h.goto rfl rfl rfl rfl rfl htaken.symm h.linuxHolds (fun _ => hholder) ⟨hreply, ?_⟩
      show SendFacts s.context (ite _ _ _)
      split_ifs with hvalid
      · exact hvalid
      · exact sendFacts_sendNext
  | testRtos slot =>
      refine h.goto rfl rfl rfl rfl rfl htaken.symm h.linuxHolds (fun _ => hholder) ⟨hreply, ?_⟩
      show SendFacts s.context (ite _ _ _)
      split_ifs with hvalid
      · exact ⟨hsend, hvalid⟩
      · exact sendFacts_sendNext
  | writeParam slot =>
      have hfree : Command.free (s.context.writeParam slot reply.paramPtr slot) := by
        rw [Context.writeParam_self]
        exact hsend
      exact h.writeReply hsend hidle hfree.1 (fun _ => Context.writeParam_ne) rfl rfl rfl rfl
        htaken.symm hholder ⟨hreply, hfree⟩
  | writeHeader slot =>
      have hvalid : (s.context.writeHeader slot reply slot).linuxValid = 0#8 := by
        rw [Context.writeHeader_self]
        exact hreply
      exact h.writeReply hsend hidle hvalid (fun _ => Context.writeHeader_ne) rfl rfl rfl rfl
        htaken.symm hholder ⟨hreply, trivial⟩
  | ring slot =>
      exact h.goto rfl rfl rfl rfl rfl htaken.symm h.linuxHolds (fun _ => hholder)
        ⟨hreply, trivial⟩
  | unlock sent =>
      exact h.goto rfl rfl rfl rfl rfl htaken.symm (fun hne => absurd hidle hne)
        Bool.noConfusion trivial

theorem Inv.firmwareStep {s t : State} {l : FirmwareLabel} (h : Inv s)
    (hwhole : whole (.firmware l) s = true) (hstep : Mailbox.firmwareStep s l = some t) :
    Inv t := by
  have hidle : s.firmware = .idle → s.taken = s.returned ++ [] := by
    intro hpc
    rw [State.taken, hpc]
    rfl
  have hfree : s.holder = none → s.linux ≠ .idle → some Holder.firmware = some .linux := by
    intro hholder hlinux
    have hholds := h.linuxHolds hlinux
    rw [hholder] at hholds
    exact absurd hholds.symm (Option.some_ne_none _)
  cases l with
  | isr capacity =>
      simp only [Mailbox.firmwareStep] at hstep
      split_ifs at hstep with hcall
      cases hstep
      exact h.goto rfl rfl rfl rfl rfl (hidle hcall.1).symm h.linuxHolds Bool.noConfusion trivial
  | receive capacity acquired =>
      simp only [Mailbox.firmwareStep] at hstep
      split_ifs at hstep with hcall hacquired hholder
      · cases hstep
        exact h
      · cases hstep
        have hpc : s.firmware = .idle := not_not.mp fun hne => hcall (.inl hne)
        exact h.goto rfl rfl rfl rfl rfl (hidle hpc).symm (hfree hholder) (fun _ => rfl) trivial
  | send command acquired =>
      simp only [Mailbox.firmwareStep] at hstep
      split_ifs at hstep with hcall hacquired hholder
      · cases hstep
        exact h.goto rfl rfl rfl rfl rfl rfl h.linuxHolds h.firmwareHolds h.firmware
      · cases hstep
        exact h.goto rfl rfl rfl rfl rfl (hidle (not_not.mp hcall)).symm (hfree hholder)
          (fun _ => rfl) ⟨rfl, trivial⟩
  | access mask =>
      simp only [Mailbox.firmwareStep] at hstep
      rw [whole, Bool.not_eq_true'] at hwhole
      split at hstep
      · cases hstep
      · rename_i call pc hpc
        exact h.receiveStep hpc hwhole hstep
      · rename_i reply pc hpc
        cases hstep
        exact h.sendStep hpc

theorem inv {s : State} (h : ReachableBy system (fun l s => whole l s = true) s) : Inv s := by
  apply h.invariant
  · intro s hs
    rw [show s = State.initial from hs]
    exact Inv.initial
  · intro s t l hs hwhole hstep
    cases l with
    | linux l => exact hs.linuxStep hstep
    | firmware l => exact hs.firmwareStep hwhole hstep

/-- Commands are received whole and once, as long as no slot is copied that Linux has
written the header of and not the parameter. -/
theorem commands_received {s : State}
    (h : ReachableBy system (fun l s => whole l s = true) s) : Received s := by
  have hinv := inv h
  have hledger := hinv.ledger
  refine ⟨fun entry hentry => hledger.whole entry (List.mem_append_left _ hentry), ?_, ?_, ?_⟩
  · have honce := hledger.once
    rw [State.taken, List.map_append] at honce
    exact honce.of_append_left
  · intro reply slot hpc
    have hfree : Command.free (s.context slot) := by
      have hfirmware := hinv.firmware
      rcases hpc with hpc | hpc <;> rw [hpc] at hfirmware <;> exact hfirmware.2
    exact ⟨hledger.occupant_of_zero hfree.1, hfree⟩
  · intro n hn htaken
    obtain ⟨slot, hslot⟩ := (hledger.kept n hn).resolve_left htaken
    obtain ⟨command, hstream, hfilled⟩ := hledger.occupied slot n hslot
    refine ⟨slot, command, hslot, hstream, hfilled.eq ?_⟩
    intro hhalf
    have hfacts := hledger.facts
    rw [hhalf] at hfacts
    obtain ⟨hlength, -, hposted⟩ := hfacts
    exfalso
    rcases hposted with hsome | ⟨hnone, -⟩
    · rw [hslot, Option.some.injEq] at hsome
      omega
    · rw [hslot] at hnone
      exact Option.some_ne_none n hnone

/-! ### A handler that reads the slot of another doorbell -/

def post (slot : Index) (command : Command) (header : Bool) : List Label :=
  [.linux .lock, .linux (.choose slot command), .linux (.first header), .linux .second,
    .linux .ring, .linux .unlock]

def handle (mask : U8) (accesses : ℕ) : List Label :=
  .firmware (.isr mailboxMaxNum) :: List.replicate accesses (.firmware (.access mask))

def earlier : Command := ⟨ipSystem, 1#7, 1#1, 0#8, 0#8, 7#32⟩
def later : Command := ⟨ipSystem, 2#7, 1#1, 0#8, 0#8, 9#32⟩

/-- The handler runs for the first slot while Linux is between the words of the second. -/
def tornRun : List Label :=
  post 0 earlier true ++
    [.linux .lock, .linux (.choose 1 later), .linux (.first true)] ++ handle 1#8 24

theorem commands_received_earlier : ∃ s, s.returned = [⟨earlier.fromLinux, some 0⟩] ∧
    Received s := by
  have hrun : (exec (guarded whole step) (post 0 earlier true ++ handle 1#8 21)
      State.initial).map State.returned = some [⟨earlier.fromLinux, some 0⟩] := by
    decide
  obtain ⟨s, hexec, hreturned⟩ := Option.map_eq_some_iff.mp hrun
  exact ⟨s, hreturned, commands_received ((ReachableBy.start rfl).execGuarded hexec)⟩

theorem later_received_torn : ¬∀ s, Reachable system s → Received s := by
  intro hall
  have hrun : (exec step tornRun State.initial).map
      (fun s => (s.returned.map fun entry => (entry.command.paramPtr, entry.post), s.stream)) =
        some ([(7#32, some 0), (0#32, some 1)], [earlier, later]) := by
    decide
  obtain ⟨s, hexec, hs⟩ := Option.map_eq_some_iff.mp hrun
  rw [Prod.mk.injEq] at hs
  obtain ⟨hreturned, hstream⟩ := hs
  obtain ⟨entry, hentry, hpair⟩ := List.mem_map.mp
    (show (0#32, some 1) ∈ s.returned.map fun entry => (entry.command.paramPtr, entry.post) by
      rw [hreturned]; decide)
  rw [Prod.mk.injEq] at hpair
  obtain ⟨n, command, hpost, hcommand, heq⟩ :=
    (hall s (Reachable.exec (Reachable.start rfl) hexec)).whole entry hentry
  rw [hpair.2, Option.some.injEq] at hpost
  rw [← hpost, hstream] at hcommand
  have hlater : command = later := (Option.some.inj hcommand).symm
  rw [heq, hlater] at hpair
  exact absurd hpair.1 (by decide)

end Sg200x.Ipc.Mailbox
