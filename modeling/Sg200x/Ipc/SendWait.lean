import Sg200x.Ipc.Cmdqu
import Sg200x.Library.Transition

/-!
# Synchronous command-queue calls

Any number of threads are in `RTOS_CMDQU_SEND_WAIT` while the firmware answers commands,
the mailbox interrupt hands replies to waiters and the driver is removed.  What is done
under `send_queue_lock` is one step.  A thread is where the list that holds its call
says: between taking `file_ops_lock` and testing `shutting_down`, before
`send_wait_lock`, inside it, or on its way out.
-/

namespace Sg200x.Ipc.SendWait

open Shm App Cmdqu Library.Transition

inductive Errno
  | eintr
  | efault
  | enomem
  | eexist
  | einval
  | enobufs
  | enodev
  | etimedout
  | erestartsys
  deriving DecidableEq

/-- The `condition` of an aborted waiter. -/
def enodev : ℤ := -19

/-- `mstime` of a wait without a limit. -/
def waitForever : U16 := 0xFFFF#16

/-- `struct rtos_cmdqu_wait_list_t`.  Calls are numbered by the order in which they queue
a waiter. -/
structure Waiter where
  ticket : ℕ
  cmdq : Command
  condition : ℤ
  /-- The call whose command the copied reply answers. -/
  origin : Option ℕ
  deriving DecidableEq

/-- A command or a reply under way, with the call that sent the command. -/
structure Item where
  origin : ℕ
  command : Command
  deriving DecidableEq

/-- `ret` between the wait and the end of `rtos_cmdqu_send_wait`. -/
inductive WaitResult
  | error (errno : Errno)
  | zero
  | positive
  deriving DecidableEq

/-- A call that holds `send_wait_lock`. -/
inductive HolderPc
  | allocate
  | queue
  | send (ticket : ℕ)
  | wait (ticket : ℕ)
  | collect (ticket : ℕ) (ret : WaitResult)
  | unlock (result : Except Errno Command)

inductive RemovePc
  | idle
  | marked
  | deregistered
  | shmShutdown
  | aborted
  /-- Holds `file_ops_lock` for writing. -/
  | writing
  | removed
  deriving DecidableEq

/-- A call that has returned 0. -/
structure Success where
  ticket : ℕ
  command : Command
  reply : Command
  origin : Option ℕ
  /-- The calls whose replies were under way when the waiter was queued. -/
  owed : List ℕ

structure State where
  shuttingDown : Bool
  remove : RemovePc
  /-- Hold `file_ops_lock`, before the test of `shutting_down`. -/
  entering : List Command
  /-- Wait for `send_wait_lock`. -/
  blocked : List Command
  holder : Option (Command × HolderPc)
  /-- The calls whose replies were under way when the holder queued its waiter. -/
  owed : List ℕ
  leaving : List (Except Errno Command)
  results : List (Except Errno Command)
  /-- `rtos_cmdqu_wait_head`. -/
  waiters : List Waiter
  /-- The number of waiters that have been queued. -/
  tickets : ℕ
  requests : List Item
  /-- The queue of the command task. -/
  queue : List Item
  replies : List Item
  /-- The replies of the firmware. -/
  answered : List Item
  /-- The waiters that got a reply, with the reply. -/
  deliveries : List (ℕ × Item)
  successes : List Success

/-- What a step of the holder meets. -/
inductive Answer
  | done
  /-- `kzalloc` or `rtos_cmdqu_send` fails. -/
  | fail (errno : Errno)
  | timeout
  | signal

inductive Label
  | enter (command : Command)
  | test (i : ℕ) (fault : Bool)
  | lock (i : ℕ) (interrupted : Bool)
  | holder (answer : Answer)
  | leave (i : ℕ) (fault : Bool)
  /-- The firmware takes a command out of its slot. -/
  | receive (i : ℕ)
  | answer (mmio : Mmio) (reply : Option Command)
  /-- `rtos_irq_handler` takes a reply out of its slot. -/
  | irq (i : ℕ)
  | remove

/-! ## `rtos_cmdqu_send_wait` -/

/-- `existing` has the key of the command. -/
def Waiter.waitsFor (waiter : Waiter) (command : Command) : Bool :=
  decide (command.ipId = waiter.cmdq.ipId) && decide (command.cmdId = waiter.cmdq.cmdId)

def State.outstanding (s : State) : List ℕ := (s.requests ++ s.queue ++ s.replies).map Item.origin

/-- The end of the wait, with the waiter out of the list. -/
def finish (waiter : Waiter) (ret : WaitResult) : Except Errno Command :=
  if waiter.condition < 0 then .error .enodev
  else
    match ret with
    | .error errno => .error errno
    | .zero => if waiter.condition ≠ 0 then .ok waiter.cmdq else .error .etimedout
    | .positive => .ok waiter.cmdq

def State.goto (s : State) (command : Command) (pc : HolderPc) : State :=
  { s with holder := some (command, pc) }

def State.queueWaiter (s : State) (command : Command) : State :=
  { s with
    waiters := s.waiters ++ [⟨s.tickets, command, 0, none⟩]
    tickets := s.tickets + 1
    owed := s.outstanding
    holder := some (command, .send s.tickets) }

def State.findWaiter (s : State) (ticket : ℕ) : Option Waiter :=
  s.waiters.find? fun waiter => waiter.ticket = ticket

/-- `list_del_init`, and what the call returns. -/
def State.collect (s : State) (command : Command) (waiter : Waiter) (ret : WaitResult) : State :=
  { s with
    waiters := s.waiters.filter fun other => other.ticket ≠ waiter.ticket
    holder := some (command, .unlock (finish waiter ret))
    successes :=
      match finish waiter ret with
      | .ok reply => s.successes ++ [⟨waiter.ticket, command, reply, waiter.origin, s.owed⟩]
      | .error _ => s.successes }

def holderStep (s : State) (command : Command) (answer : Answer) : HolderPc → Option State
  | .allocate =>
      match answer with
      | .done => some (s.goto { command with block := 1#1 } .queue)
      | .fail _ => some (s.goto command (.unlock (.error .enomem)))
      | _ => none
  | .queue =>
      if s.waiters.any fun waiter => waiter.waitsFor command then
        some (s.goto command (.unlock (.error .eexist)))
      else some (s.queueWaiter command)
  | .send ticket =>
      match answer with
      | .done =>
          some { s with
            requests := s.requests ++ [⟨ticket, command⟩]
            holder := some (command, .wait ticket) }
      | .fail errno => some (s.goto command (.collect ticket (.error errno)))
      | _ => none
  -- The condition is tested before the signal and after the time is up.
  | .wait ticket =>
      match s.findWaiter ticket with
      | none => none
      | some waiter =>
          if waiter.condition ≠ 0 then some (s.goto command (.collect ticket .positive))
          else
            match answer with
            | .timeout =>
                if command.mstime = waitForever then none
                else some (s.goto command (.collect ticket .zero))
            | .signal => some (s.goto command (.collect ticket (.error .erestartsys)))
            | _ => none
  | .collect ticket ret =>
      match s.findWaiter ticket with
      | none => none
      | some waiter => some (s.collect command waiter ret)
  | .unlock result => some { s with holder := none, leaving := s.leaving ++ [result] }

/-! ## The interrupt and the firmware -/

/-- The dewait branch of `rtos_irq_handler`: the first waiter with the key of the reply. -/
def deliver (item : Item) : List Waiter → List Waiter × List (ℕ × Item)
  | [] => ([], [])
  | waiter :: waiters =>
      if waiter.waitsFor item.command then
        if waiter.condition = 0 then
          ({ waiter with
              cmdq := item.command
              condition := 1
              origin := some item.origin } :: waiters, [(waiter.ticket, item)])
        else (waiter :: waiters, [])
      else
        let (rest, delivered) := deliver item waiters
        (waiter :: rest, delivered)

def irqStep (s : State) (item : Item) : State :=
  if irqAction item.command = .dewait then
    { s with
      waiters := (deliver item s.waiters).1
      deliveries := s.deliveries ++ (deliver item s.waiters).2 }
  else s

/-- What `prvCmdQuRunTask` may send for a command.  A vendor command may go without an
answer. -/
def mayAnswer (mmio : Mmio) (command : Command) (reply : Option Command) : Bool :=
  match (runTask mmio command).1, reply with
  | .reply command', some reply => reply = command'.fromRtos
  | .doorbell, some reply =>
      reply = { command with paramPtr := reply.paramPtr, block := 0#1 }.fromRtos
  | .vendor, some reply => reply = reply.fromRtos
  | .vendor, none => true
  | _, none => false

/-! ## `cvi_rtos_cmdqu_remove` -/

/-- `cvi_rtos_cmdqu_abort_waiters`. -/
def abortWaiters (waiters : List Waiter) : List Waiter :=
  waiters.map fun waiter => { waiter with condition := enodev }

/-- Nobody holds `file_ops_lock` for reading. -/
def State.noReaders (s : State) : Bool :=
  s.entering.isEmpty && s.blocked.isEmpty && s.holder.isNone && s.leaving.isEmpty

def removeStep (s : State) : Option State :=
  match s.remove with
  | .idle => some { s with remove := .marked, shuttingDown := true }
  | .marked => some { s with remove := .deregistered }
  | .deregistered => some { s with remove := .shmShutdown }
  | .shmShutdown =>
      some { s with remove := .aborted, waiters := abortWaiters s.waiters }
  | .aborted => if s.noReaders then some { s with remove := .writing } else none
  | .writing => some { s with remove := .removed }
  | .removed => none

/-- `cvi_rtos_cmdqu_abort_waiters` has finished. -/
def RemovePc.afterAbort : RemovePc → Bool
  | .aborted | .writing | .removed => true
  | _ => false

/-! ## The system -/

def step : Label → State → Option State
  | .enter command, s =>
      if s.remove = .writing then none else some { s with entering := s.entering ++ [command] }
  | .test i fault, s =>
      match s.entering[i]? with
      | none => none
      | some command =>
          if s.shuttingDown then
            some { s with
              entering := s.entering.eraseIdx i
              leaving := s.leaving ++ [.error .enodev] }
          else if fault then
            some { s with
              entering := s.entering.eraseIdx i
              leaving := s.leaving ++ [.error .efault] }
          else
            some { s with
              entering := s.entering.eraseIdx i
              blocked := s.blocked ++ [command] }
  | .lock i interrupted, s =>
      match s.blocked[i]? with
      | none => none
      | some command =>
          if interrupted then
            some { s with
              blocked := s.blocked.eraseIdx i
              leaving := s.leaving ++ [.error .eintr] }
          else if s.holder.isNone then
            some { s with
              blocked := s.blocked.eraseIdx i
              holder := some (command, .allocate) }
          else none
  | .holder answer, s =>
      match s.holder with
      | none => none
      | some (command, pc) => holderStep s command answer pc
  | .leave i fault, s =>
      match s.leaving[i]? with
      | none => none
      | some result =>
          let result := if fault ∧ result.toBool then .error .efault else result
          some { s with
            leaving := s.leaving.eraseIdx i
            results := s.results ++ [if s.shuttingDown then .error .enodev else result] }
  | .receive i, s =>
      match s.requests[i]? with
      | none => none
      | some item =>
          some { s with
            requests := s.requests.eraseIdx i
            queue := s.queue ++ [{ item with command := item.command.fromLinux }] }
  | .answer mmio reply, s =>
      match s.queue with
      | [] => none
      | item :: queue =>
          if mayAnswer mmio item.command reply then
            match reply with
            | none => some { s with queue := queue }
            | some reply =>
                some { s with
                  queue := queue
                  replies := s.replies ++ [⟨item.origin, reply⟩]
                  answered := s.answered ++ [⟨item.origin, reply⟩] }
          else none
  -- `free_irq` is called under the write lock.
  | .irq i, s =>
      if s.remove = .removed then none
      else
        match s.replies[i]? with
        | none => none
        | some item => some (irqStep { s with replies := s.replies.eraseIdx i } item)
  | .remove, s => removeStep s

def State.initial : State :=
  ⟨false, .idle, [], [], none, [], [], [], [], 0, [], [], [], [], [], []⟩

def system : System State Label where
  start s := s = State.initial
  step := step

/-! ## The waiters of a removed driver -/

/-- No waiter is left to a reply, and so no call that holds `file_ops_lock` sleeps. -/
structure Aborted (s : State) : Prop where
  waiters : ∀ waiter ∈ s.waiters, waiter.condition ≠ 0
  awake : ∀ command ticket, s.holder = some (command, .wait ticket) →
    ∀ waiter, s.findWaiter ticket = some waiter → waiter.condition ≠ 0

/-- The step does not queue a waiter after `cvi_rtos_cmdqu_abort_waiters`. -/
def queuesInTime (l : Label) (s : State) : Bool :=
  match l, s.holder with
  | .holder _, some (_, .queue) => !s.remove.afterAbort
  | _, _ => true

theorem deliver_condition {item : Item} {waiters : List Waiter}
    (h : ∀ waiter ∈ waiters, waiter.condition ≠ 0) :
    ∀ waiter ∈ (deliver item waiters).1, waiter.condition ≠ 0 := by
  induction waiters with
  | nil => exact h
  | cons waiter waiters ih =>
      have hhead := h waiter List.mem_cons_self
      unfold deliver
      split_ifs
      · exact h
      · intro other hother
        rw [List.mem_cons] at hother
        apply hother.elim
        · intro heq
          rw [heq]
          exact hhead
        · exact ih (fun other hmem => h other (List.mem_cons_of_mem _ hmem)) other

theorem abortWaiters_condition {waiters : List Waiter} :
    ∀ waiter ∈ abortWaiters waiters, waiter.condition ≠ 0 := by
  intro waiter hwaiter
  obtain ⟨other, -, heq⟩ := List.mem_map.mp hwaiter
  rw [← heq]
  show enodev ≠ 0
  decide

/-- What a step may do to the list of waiters. -/
inductive Waiters (l : Label) (s t : State) : Prop
  | same : t.waiters = s.waiters → Waiters l s t
  | remove (keep : Waiter → Bool) : t.waiters = s.waiters.filter keep → Waiters l s t
  | deliver (item : Item) : t.waiters = (SendWait.deliver item s.waiters).1 → Waiters l s t
  | abort : t.waiters = abortWaiters s.waiters → Waiters l s t
  | queue (command : Command) (answer : Answer) : l = .holder answer →
      s.holder = some (command, .queue) → Waiters l s t

theorem holderStep_waiters {s t : State} {command : Command} {answer : Answer} {pc : HolderPc}
    (hholder : s.holder = some (command, pc))
    (h : holderStep s command answer pc = some t) :
    Waiters (.holder answer) s t ∧ t.remove = s.remove := by
  cases pc with
  | allocate => cases answer <;> cases h <;> exact ⟨.same rfl, rfl⟩
  | queue =>
      simp only [holderStep] at h
      split_ifs at h <;> cases h
      · exact ⟨.same rfl, rfl⟩
      · exact ⟨.queue command answer rfl hholder, rfl⟩
  | send ticket => cases answer <;> cases h <;> exact ⟨.same rfl, rfl⟩
  | wait ticket =>
      simp only [holderStep] at h
      split at h
      · cases h
      · cases answer <;> dsimp only at h <;> split_ifs at h <;> cases h <;>
          exact ⟨.same rfl, rfl⟩
  | collect ticket ret =>
      simp only [holderStep] at h
      split at h
      · cases h
      · cases h
        exact ⟨.remove _ rfl, rfl⟩
  | unlock result =>
      cases h
      exact ⟨.same rfl, rfl⟩

theorem step_waiters {s t : State} {l : Label} (h : step l s = some t) :
    Waiters l s t ∧ (t.remove.afterAbort = true →
      s.remove.afterAbort = true ∨ t.waiters = abortWaiters s.waiters) := by
  cases l with
  | enter command =>
      simp only [step] at h
      split_ifs at h
      cases h
      exact ⟨.same rfl, .inl⟩
  | test i fault =>
      simp only [step] at h
      split at h
      · cases h
      · split_ifs at h <;> cases h <;> exact ⟨.same rfl, .inl⟩
  | lock i interrupted =>
      simp only [step] at h
      split at h
      · cases h
      · split_ifs at h <;> cases h <;> exact ⟨.same rfl, .inl⟩
  | holder answer =>
      simp only [step] at h
      split at h
      · cases h
      · rename_i command pc hholder
        obtain ⟨hwaiters, hremove⟩ := holderStep_waiters hholder h
        exact ⟨hwaiters, fun habort => .inl (hremove ▸ habort)⟩
  | leave i fault =>
      simp only [step] at h
      split at h <;> cases h
      exact ⟨.same rfl, .inl⟩
  | receive i =>
      simp only [step] at h
      split at h <;> cases h
      exact ⟨.same rfl, .inl⟩
  | answer mmio reply =>
      simp only [step] at h
      split at h
      · cases h
      · split_ifs at h
        split at h <;> cases h <;> exact ⟨.same rfl, .inl⟩
  | irq i =>
      simp only [step] at h
      split_ifs at h
      split at h <;> cases h
      rename_i item _
      unfold irqStep
      split_ifs
      · exact ⟨.deliver item rfl, .inl⟩
      · exact ⟨.same rfl, .inl⟩
  | remove =>
      simp only [step, removeStep] at h
      cases hremove : s.remove with
      | idle =>
          rw [hremove] at h
          cases h
          exact ⟨.same rfl, Bool.noConfusion⟩
      | marked =>
          rw [hremove] at h
          cases h
          exact ⟨.same rfl, Bool.noConfusion⟩
      | deregistered =>
          rw [hremove] at h
          cases h
          exact ⟨.same rfl, Bool.noConfusion⟩
      | shmShutdown =>
          rw [hremove] at h
          cases h
          exact ⟨.abort rfl, fun _ => .inr rfl⟩
      | aborted =>
          rw [hremove] at h
          dsimp only at h
          split_ifs at h
          cases h
          exact ⟨.same rfl, fun _ => .inl rfl⟩
      | writing =>
          rw [hremove] at h
          cases h
          exact ⟨.same rfl, fun _ => .inl rfl⟩
      | removed =>
          rw [hremove] at h
          cases h

/-- After the abort no step leaves a waiter to a reply. -/
theorem waiters_aborted {s t : State} {l : Label} (hin : queuesInTime l s = true)
    (h : s.remove.afterAbort = true → ∀ waiter ∈ s.waiters, waiter.condition ≠ 0)
    (hstep : step l s = some t) :
    t.remove.afterAbort = true → ∀ waiter ∈ t.waiters, waiter.condition ≠ 0 := by
  intro hafter
  obtain ⟨hwaiters, habort⟩ := step_waiters hstep
  rcases habort hafter with hbefore | habort
  · have hs := h hbefore
    cases hwaiters with
    | same heq =>
        rw [heq]
        exact hs
    | remove keep heq =>
        rw [heq]
        intro waiter hwaiter
        exact hs waiter (List.mem_of_mem_filter hwaiter)
    | deliver item heq =>
        rw [heq]
        exact deliver_condition hs
    | abort heq =>
        rw [heq]
        exact abortWaiters_condition
    | queue command answer hl hholder =>
        unfold queuesInTime at hin
        rw [hl, hholder, hbefore] at hin
        exact absurd hin Bool.false_ne_true
  · rw [habort]
    exact abortWaiters_condition

/-- No waiter escapes the abort, as long as none is queued after it. -/
theorem no_waiter_escapes {s : State}
    (h : ReachableBy system (fun l s => queuesInTime l s = true) s)
    (hafter : s.remove.afterAbort = true) : Aborted s := by
  have hwaiters : s.remove.afterAbort = true → ∀ waiter ∈ s.waiters, waiter.condition ≠ 0 := by
    apply h.invariant
    · intro s hs
      rw [show s = State.initial from hs]
      exact Bool.noConfusion
    · intro s t l hs hin hstep
      exact waiters_aborted hin hs hstep
  refine ⟨hwaiters hafter, ?_⟩
  intro command ticket _ waiter hfind
  exact hwaiters hafter waiter (List.mem_of_find?_eq_some hfind)

/-! ### A call that waits for the lock during the abort -/

def ping (value : U32) : Command := ⟨ipSystem, 0x60#7, 0#1, 0xFF#8, 0xFF#8, value⟩

/-- A call that sleeps is aborted. -/
def abortRun : List Label :=
  [.enter (ping 0#32), .test 0 false, .lock 0 false, .holder .done, .holder .done,
    .holder .done, .remove, .remove, .remove, .remove]

/-- The same call, still before the lock. -/
def escapeRun : List Label :=
  [.enter (ping 0#32), .test 0 false, .remove, .remove, .remove, .remove, .lock 0 false,
    .holder .done, .holder .done, .holder .done]

theorem no_waiter_escapes_abort : ∃ s, s.remove = .aborted ∧ s.waiters.length = 1 ∧ Aborted s := by
  have hrun : (exec (guarded queuesInTime step) abortRun State.initial).map
      (fun s => (s.remove, s.waiters.length)) = some (.aborted, 1) := by
    decide
  obtain ⟨s, hexec, hs⟩ := Option.map_eq_some_iff.mp hrun
  rw [Prod.mk.injEq] at hs
  exact ⟨s, hs.1, hs.2, no_waiter_escapes ((ReachableBy.start rfl).execGuarded hexec)
    (by rw [hs.1]; rfl)⟩

theorem waiter_escapes :
    ¬∀ s, Reachable system s → s.remove.afterAbort = true → Aborted s := by
  intro hall
  have hrun : (exec step escapeRun State.initial).map
      (fun s => (s.remove, s.waiters.map Waiter.condition)) = some (.aborted, [0]) := by
    decide
  obtain ⟨s, hexec, hs⟩ := Option.map_eq_some_iff.mp hrun
  rw [Prod.mk.injEq] at hs
  have haborted := hall s (Reachable.exec (Reachable.start rfl) hexec) (by rw [hs.1]; rfl)
  obtain ⟨waiter, hwaiter, hcondition⟩ := List.mem_map.mp
    (show (0 : ℤ) ∈ s.waiters.map Waiter.condition by rw [hs.2]; exact List.mem_singleton_self _)
  exact haborted.waiters waiter hwaiter hcondition

end Sg200x.Ipc.SendWait
