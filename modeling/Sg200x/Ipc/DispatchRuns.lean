import Sg200x.Ipc.Dispatch

/-!
# Where the commands are

Every command that Linux posts is at one place: in its slot, with the handler or the scan, in the
queue of its task, or dropped at a queue that was full.  The command task does with the commands
of its queue what a sequential task does.
-/

namespace Sg200x.Ipc.Dispatch

open Shm App Cmdqu Library Library.Transition
open Mailbox (Entry LinuxLabel)

variable {vendor : Vendor} {s t : State}

/-! ## The mailbox below -/

theorem linuxStep_frame {m m' : Mailbox.State} {l : LinuxLabel}
    (h : Mailbox.linuxStep m l = some m') :
    m'.firmware = m.firmware ∧ m'.returned = m.returned := by
  cases l with
  | lock | choose | unlock | take =>
      simp only [Mailbox.linuxStep] at h
      split_ifs at h
      cases h
      exact ⟨rfl, rfl⟩
  | first header =>
      simp only [Mailbox.linuxStep] at h
      split at h
      · cases h
        cases header <;> exact ⟨rfl, rfl⟩
      · cases h
  | second =>
      simp only [Mailbox.linuxStep] at h
      split at h
      · rename_i header _
        cases h
        cases header <;> exact ⟨rfl, rfl⟩
      · cases h
  | ring =>
      simp only [Mailbox.linuxStep] at h
      split at h
      · cases h
        exact ⟨rfl, rfl⟩
      · cases h

theorem isr_start {m m' : Mailbox.State} {capacity : ℕ}
    (h : Mailbox.firmwareStep m (.isr capacity) = some m') :
    m.firmware = .idle ∧ m'.returned = m.returned ∧
      m'.firmware = .receive ⟨false, capacity, 0#8, []⟩ .readMask := by
  simp only [Mailbox.firmwareStep] at h
  split_ifs at h with hidle
  cases h
  exact ⟨hidle.1, rfl, rfl⟩

theorem receive_start {m m' : Mailbox.State} {capacity : ℕ} {acquired : Bool}
    (h : Mailbox.firmwareStep m (.receive capacity acquired) = some m') :
    m.firmware = .idle ∧ m'.returned = m.returned ∧
      m'.firmware =
        if acquired then .receive ⟨true, capacity, 0#8, []⟩ .readMask else .idle := by
  simp only [Mailbox.firmwareStep] at h
  split_ifs at h with hcall hacquired hholder
  · cases h
    have hidle : m.firmware = .idle := not_not.mp fun hne => hcall (.inl hne)
    refine ⟨hidle, rfl, ?_⟩
    rw [hacquired, hidle]
    rfl
  · cases h
    refine ⟨not_not.mp fun hne => hcall (.inl hne), rfl, ?_⟩
    rw [Bool.not_eq_false] at hacquired
    rw [hacquired]
    rfl

theorem send_start {m m' : Mailbox.State} {reply : Command} {acquired : Bool}
    (h : Mailbox.firmwareStep m (.send reply acquired) = some m') :
    m.firmware = .idle ∧ m'.returned = m.returned ∧
      m'.firmware = if acquired then .send reply.fromRtos (.testLinux 0) else .idle := by
  simp only [Mailbox.firmwareStep] at h
  split_ifs at h with hcall hacquired hholder
  · cases h
    have hidle : m.firmware = .idle := not_not.mp hcall
    refine ⟨hidle, rfl, ?_⟩
    rw [hacquired]
    exact hidle
  · cases h
    refine ⟨not_not.mp hcall, rfl, ?_⟩
    rw [Bool.not_eq_false] at hacquired
    rw [hacquired]
    rfl

theorem receiveStep_cases {m m' : Mailbox.State} {call : Mailbox.Receive} {mask : U8}
    {pc : Mailbox.ReceivePc} (hne : pc ≠ .finish)
    (h : Mailbox.receiveStep m call mask pc = some m') :
    (∃ call' pc', m'.firmware = .receive call' pc' ∧ call'.locked = call.locked) ∧
      m'.returned = m.returned := by
  cases pc with
  | readMask =>
      simp only [Mailbox.receiveStep] at h
      split_ifs at h
      cases h
      exact ⟨⟨_, _, rfl, rfl⟩, rfl⟩
  | acknowledge | testLinux | testRtos | copy | zero =>
      cases h
      exact ⟨⟨_, _, rfl, rfl⟩, rfl⟩
  | finish => exact absurd rfl hne

theorem receiveStep_finish {m m' : Mailbox.State} {call : Mailbox.Receive} {mask : U8}
    (h : Mailbox.receiveStep m call mask .finish = some m') :
    m'.firmware = .idle ∧ m'.returned = m.returned ++ call.commands := by
  cases h
  exact ⟨rfl, rfl⟩

theorem sendStep_cases (m : Mailbox.State) (reply : Command) {pc : Mailbox.SendPc}
    (hne : ∀ sent, pc ≠ .unlock sent) :
    (∃ pc', (Mailbox.sendStep m reply pc).firmware = .send reply pc') ∧
      (Mailbox.sendStep m reply pc).returned = m.returned := by
  cases pc with
  | unlock sent => exact absurd rfl (hne sent)
  | testLinux | testRtos | writeParam | writeHeader | ring => exact ⟨⟨_, rfl⟩, rfl⟩

/-! ## Who runs -/

/-- The task is in a call of the mailbox. -/
def Task.calling : Task → Bool
  | .recovering | .sending => true
  | _ => false

/-- The handler preempts the task outside the calls, and the calls keep the handler out. -/
def Phase (isr : Option (List Entry)) (task : Task) : Mailbox.FirmwarePc → Prop
  | .idle => task.calling = false
  | .receive call _ => isr = none ∧ if call.locked then task = .recovering else task.calling = false
  | .send _ _ => isr = none ∧ task = .sending

def State.Phased (s : State) : Prop := Phase s.isr s.task s.mailbox.firmware

/-- What an access of the mailbox does to the handler and to the task. -/
inductive Access (s t : State) (m : Mailbox.State) : Prop
  | within (result : t = { s with mailbox := m }) (phase : Phase s.isr s.task m.firmware)
      (returned : m.returned = s.mailbox.returned)
  | handler (call : Mailbox.Receive)
      (result : t = { s with mailbox := m, isr := some call.commands })
      (idle : m.firmware = .idle) (returned : m.returned = s.mailbox.returned ++ call.commands)
      (isr : s.isr = none) (calling : s.task.calling = false)
  | scan (call : Mailbox.Receive)
      (result : t = { s with mailbox := m, task := .queueing call.commands })
      (idle : m.firmware = .idle) (returned : m.returned = s.mailbox.returned ++ call.commands)
      (task : s.task = .recovering)
  | sent (result : t = { s with mailbox := m, task := .idle }) (idle : m.firmware = .idle)
      (returned : m.returned = s.mailbox.returned) (task : s.task = .sending)

theorem accessStep_cases {mask : U8} (hphase : s.Phased) (h : accessStep s mask = some t) :
    ∃ m, Mailbox.firmwareStep s.mailbox (.access mask) = some m ∧ Access s t m := by
  unfold accessStep at h
  obtain ⟨m, hm, ht⟩ := Option.map_eq_some_iff.mp h
  refine ⟨m, hm, ?_⟩
  unfold State.Phased at hphase
  simp only [Mailbox.firmwareStep] at hm
  split at hm
  · cases hm
  · rename_i call pc hpc
    rw [hpc] at hphase ht
    by_cases hfinish : pc = .finish
    · subst hfinish
      obtain ⟨hidle, hreturned⟩ := receiveStep_finish hm
      dsimp only at ht
      split_ifs at ht with hlocked
      · have htask := hphase.2
        rw [if_pos hlocked] at htask
        exact .scan call ht.symm hidle hreturned htask
      · have hcalling := hphase.2
        rw [if_neg hlocked] at hcalling
        exact .handler call ht.symm hidle hreturned hphase.1 hcalling
    · obtain ⟨⟨call', pc', hfirmware, hlocked⟩, hreturned⟩ := receiveStep_cases hfinish hm
      refine .within ?_ ?_ hreturned
      · cases pc with
        | finish => exact absurd rfl hfinish
        | readMask | acknowledge | testLinux | testRtos | copy | zero => exact ht.symm
      · rw [hfirmware]
        refine ⟨hphase.1, ?_⟩
        rw [hlocked]
        exact hphase.2
  · rename_i reply pc hpc
    rw [hpc] at hphase ht
    cases hm
    by_cases hunlock : ∃ sent, pc = .unlock sent
    · obtain ⟨sent, rfl⟩ := hunlock
      exact .sent ht.symm rfl rfl hphase.2
    · have hne : ∀ sent, pc ≠ .unlock sent := fun sent heq => hunlock ⟨sent, heq⟩
      obtain ⟨⟨pc', hfirmware⟩, hreturned⟩ := sendStep_cases s.mailbox reply hne
      refine .within ?_ ?_ hreturned
      · cases pc with
        | unlock sent => exact absurd rfl (hne sent)
        | testLinux | testRtos | writeParam | writeHeader | ring => exact ht.symm
      · rw [hfirmware]
        exact hphase

/-- Outside the handler the task is in no call, or the mailbox is with it. -/
theorem State.Phased.idle (h : s.Phased) (hinterrupted : s.interrupted = false)
    (hcalling : s.task.calling = false) : s.isr = none ∧ s.mailbox.firmware = .idle := by
  unfold State.interrupted at hinterrupted
  rw [Bool.or_eq_false_iff, Option.isSome_eq_false_iff, Option.isNone_iff_eq_none] at hinterrupted
  refine ⟨hinterrupted.1, ?_⟩
  unfold State.Phased at h
  cases hfirmware : s.mailbox.firmware with
  | idle => rfl
  | receive call pc =>
      rw [hfirmware] at h hinterrupted
      have hlocked : call.locked = true := by
        have hnot := hinterrupted.2
        dsimp only at hnot
        rwa [Bool.not_eq_false'] at hnot
      have htask := h.2
      rw [if_pos hlocked] at htask
      rw [htask] at hcalling
      exact absurd hcalling (by decide)
  | send reply pc =>
      rw [hfirmware] at h
      rw [h.2] at hcalling
      exact absurd hcalling (by decide)

/-! ## The queues -/

/-- The entry goes to the task of the queue. -/
def routes (q : QueueId) (entry : Entry) : Bool := prvQueueForIp entry.command.ipId = some q

/-- Each queue has accepted its commands of the mailbox in their order, and refuses only while it
is full. -/
structure Routed (queues : Queues) (queued : List Entry) (dropped : List (Entry × List Item)) :
    Prop where
  fifo : ∀ q, (queues q).accepted.filterMap Item.entry = queued.filter (routes q)
  full : ∀ drop ∈ dropped, ∀ q, routes q drop.1 = true → drop.2.length = queLength q

theorem queueCommand_cases (entry : Entry) (h : Routed s.queues s.queued s.dropped) :
    ∃ queues queued dropped, queueCommand s entry = { s with queues, queued, dropped } ∧
      Routed queues queued dropped ∧ (∀ q, (queues q).consumed = (s.queues q).consumed) ∧
      (queued ++ dropped.map Prod.fst).Perm (s.queued ++ s.dropped.map Prod.fst ++ [entry]) := by
  have hrefused : (s.queued ++ (s.dropped.map Prod.fst ++ [entry])).Perm
      (s.queued ++ s.dropped.map Prod.fst ++ [entry]) := by
    rw [List.append_assoc]
  unfold queueCommand
  split
  · rename_i hnone
    refine ⟨_, _, _, rfl, ⟨h.fifo, ?_⟩, fun _ => rfl, ?_⟩
    · intro drop hdrop q hroutes
      apply (List.mem_append.mp hdrop).elim (fun hold => h.full drop hold q hroutes)
      intro hnew
      rw [List.mem_singleton.mp hnew, routes, hnone] at hroutes
      exact absurd (of_decide_eq_true hroutes) (Option.some_ne_none q).symm
    · rw [List.map_append]
      exact hrefused
  · rename_i q hq
    split
    · rename_i queue hsend
      obtain ⟨haccepted, -, hconsumed⟩ := BoundedQueue.send_eq_some hsend
      refine ⟨_, _, _, rfl, ⟨?_, h.full⟩, ?_, ?_⟩
      · intro q'
        rw [List.filter_append, ← h.fifo q']
        by_cases heq : q' = q
        · subst heq
          have hroutes : routes q' entry = true := decide_eq_true hq
          rw [Function.update_self, haccepted, List.filterMap_append,
            List.filter_cons_of_pos hroutes]
          rfl
        · have hroutes : ¬routes q' entry = true := by
            intro hroutes
            rw [routes, hq, decide_eq_true_iff, Option.some.injEq] at hroutes
            exact heq hroutes.symm
          rw [Function.update_of_ne heq, List.filter_cons_of_neg hroutes, List.filter_nil,
            List.append_nil]
      · intro q'
        by_cases heq : q' = q
        · subst heq
          rw [Function.update_self, hconsumed]
        · rw [Function.update_of_ne heq]
      · rw [List.append_assoc, List.append_assoc]
        exact List.perm_append_comm.append_left _
    · rename_i hsend
      refine ⟨_, _, _, rfl, ⟨h.fifo, ?_⟩, fun _ => rfl, ?_⟩
      · intro drop hdrop q' hroutes
        apply (List.mem_append.mp hdrop).elim (fun hold => h.full drop hold q' hroutes)
        intro hnew
        rw [List.mem_singleton.mp hnew, routes, hq] at hroutes
        rw [List.mem_singleton.mp hnew, ← Option.some.inj (of_decide_eq_true hroutes)]
        exact BoundedQueue.send_eq_none hsend
      · rw [List.map_append]
        exact hrefused

theorem sendCommand_cases (q : QueueId) (command : Command)
    (h : Routed s.queues s.queued s.dropped) :
    ∃ queues, sendCommand s q command = { s with queues } ∧
      Routed queues s.queued s.dropped ∧ ∀ q, (queues q).consumed = (s.queues q).consumed := by
  unfold sendCommand
  split
  · rename_i queue hsend
    obtain ⟨haccepted, -, hconsumed⟩ := BoundedQueue.send_eq_some hsend
    refine ⟨_, rfl, ⟨?_, h.full⟩, ?_⟩
    · intro q'
      rw [← h.fifo q']
      by_cases heq : q' = q
      · subst heq
        rw [Function.update_self, haccepted, List.filterMap_append]
        exact List.append_nil _
      · rw [Function.update_of_ne heq]
    · intro q'
      by_cases heq : q' = q
      · subst heq
        rw [Function.update_self, hconsumed]
      · rw [Function.update_of_ne heq]
  · exact ⟨s.queues, rfl, h, fun _ => rfl⟩

/-- A task takes a command. -/
theorem Routed.receive {queues : Queues} {queued : List Entry}
    {dropped : List (Entry × List Item)} (h : Routed queues queued dropped) {q : QueueId}
    {item : Item} {queue : BoundedQueue Item (queLength q)}
    (hreceive : (queues q).receive = some (item, queue)) :
    Routed (Function.update queues q queue) queued dropped := by
  refine ⟨?_, h.full⟩
  intro q'
  rw [← h.fifo q']
  by_cases heq : q' = q
  · subst heq
    rw [Function.update_self, (BoundedQueue.receive_eq_some hreceive).1]
  · rw [Function.update_of_ne heq]

/-! ## The command task in sequence -/

def replayStep (vendor : Vendor) (past : StopIp × List Command) (next : Inputs × Item) :
    StopIp × List Command :=
  ((handle vendor next.1 past.1 next.2.command).stopIp,
    past.2 ++ (handle vendor next.1 past.1 next.2.command).reply.toList)

/-- The commands one after the other: `stop_ip` and the replies. -/
def replay (vendor : Vendor) (handled : List (Inputs × Item)) : StopIp × List Command :=
  handled.foldl (replayStep vendor) (⟨false, false⟩, [])

theorem replay_append (handled : List (Inputs × Item)) (next : Inputs × Item) :
    replay vendor (handled ++ [next]) = replayStep vendor (replay vendor handled) next := by
  rw [replay, List.foldl_append]
  rfl

/-- What the scan has still to queue. -/
def Task.pending : Task → List Entry
  | .queueing pending => pending
  | _ => []

def Task.current : Task → List Item
  | .handling item => [item]
  | _ => []

def Task.answer : Task → List Command
  | .replying reply => [reply]
  | _ => []

/-- The commands that the handler and the scan have yet to queue. -/
def State.inHand (s : State) : List Entry := s.isr.getD [] ++ s.task.pending

/-- The commands of the mailbox that have left their slots, at their places. -/
def State.received (s : State) : List Entry :=
  s.queued ++ s.dropped.map Prod.fst ++ s.inHand ++ s.mailbox.firmware.commands

/-! ## The invariant -/

structure Inv (vendor : Vendor) (s : State) : Prop where
  phased : s.Phased
  accounted : (s.queued ++ s.dropped.map Prod.fst ++ s.inHand).Perm s.mailbox.returned
  routed : Routed s.queues s.queued s.dropped
  executed : s.handled.map Prod.snd ++ s.task.current = (s.queues .cmdqu).consumed
  replied : replay vendor s.handled = (s.stopIp, s.replies ++ s.task.answer)

theorem Inv.initial : Inv vendor State.initial where
  phased := rfl
  accounted := List.Perm.refl _
  routed := ⟨fun _ => rfl, fun _ h => nomatch h⟩
  executed := rfl
  replied := rfl

theorem Inv.linux (h : Inv vendor s) {l : LinuxLabel} {m : Mailbox.State}
    (hm : Mailbox.linuxStep s.mailbox l = some m) : Inv vendor { s with mailbox := m } := by
  obtain ⟨hfirmware, hreturned⟩ := linuxStep_frame hm
  refine ⟨?_, ?_, h.routed, h.executed, h.replied⟩
  · show Phase _ _ m.firmware
    rw [hfirmware]
    exact h.phased
  · show List.Perm _ m.returned
    rw [hreturned]
    exact h.accounted

theorem Inv.irq (h : Inv vendor s) (hisr : s.isr = none) {m : Mailbox.State}
    (hm : Mailbox.firmwareStep s.mailbox (.isr Mailbox.mailboxMaxNum) = some m) :
    Inv vendor { s with mailbox := m } := by
  obtain ⟨hidle, hreturned, hfirmware⟩ := isr_start hm
  refine ⟨?_, ?_, h.routed, h.executed, h.replied⟩
  · have hphased := h.phased
    rw [State.Phased, hidle] at hphased
    show Phase _ _ m.firmware
    rw [hfirmware]
    exact ⟨hisr, hphased⟩
  · show List.Perm _ m.returned
    rw [hreturned]
    exact h.accounted

theorem Inv.access (h : Inv vendor s) {mask : U8} (hstep : accessStep s mask = some t) : Inv vendor t := by
  obtain ⟨m, -, haccess⟩ := accessStep_cases h.phased hstep
  have haccounted := h.accounted
  cases haccess with
  | within result phase returned =>
      rw [result]
      refine ⟨phase, ?_, h.routed, h.executed, h.replied⟩
      show List.Perm _ m.returned
      rw [returned]
      exact haccounted
  | handler call result idle returned isr calling =>
      rw [result]
      refine ⟨?_, ?_, h.routed, h.executed, h.replied⟩
      · show Phase _ _ m.firmware
        rw [idle]
        exact calling
      · show List.Perm (_ ++ (call.commands ++ s.task.pending)) m.returned
        rw [State.inHand, isr] at haccounted
        rw [returned]
        apply List.Perm.trans (List.perm_append_comm.append_left _)
        rw [← List.append_assoc]
        exact haccounted.append_right _
  | scan call result idle returned task =>
      rw [result]
      have hexecuted := h.executed
      have hreplied := h.replied
      rw [task] at hexecuted hreplied
      refine ⟨?_, ?_, h.routed, hexecuted, hreplied⟩
      · show Phase _ _ m.firmware
        rw [idle]
        rfl
      · show List.Perm (_ ++ (s.isr.getD [] ++ call.commands)) m.returned
        rw [State.inHand, task] at haccounted
        rw [returned, ← List.append_assoc]
        apply List.Perm.append_right
        rwa [show Task.recovering.pending = [] from rfl, List.append_nil] at haccounted
  | sent result idle returned task =>
      rw [result]
      have hexecuted := h.executed
      have hreplied := h.replied
      rw [task] at hexecuted hreplied
      refine ⟨?_, ?_, h.routed, hexecuted, hreplied⟩
      · show Phase _ _ m.firmware
        rw [idle]
        rfl
      · show List.Perm (_ ++ (s.isr.getD [] ++ [])) m.returned
        rw [State.inHand, task] at haccounted
        rw [returned]
        exact haccounted

theorem Inv.isrQueue (h : Inv vendor s) (hstep : isrStep s = some t) : Inv vendor t := by
  have haccounted := h.accounted
  rw [State.inHand] at haccounted
  unfold isrStep at hstep
  split at hstep
  · cases hstep
  · rename_i hisr
    cases hstep
    have hphased := h.phased
    rw [State.Phased, hisr] at hphased
    rw [hisr] at haccounted
    refine ⟨?_, haccounted, h.routed, h.executed, h.replied⟩
    show Phase none s.task s.mailbox.firmware
    cases hfirmware : s.mailbox.firmware with
    | idle => rwa [hfirmware] at hphased
    | receive | send =>
        rw [hfirmware] at hphased
        exact absurd hphased.1 (Option.some_ne_none _)
  · rename_i entry pending hisr
    cases hstep
    obtain ⟨queues, queued, dropped, hqueue, hrouted, hconsumed, hperm⟩ :=
      queueCommand_cases entry h.routed
    rw [hisr] at haccounted
    rw [hqueue]
    refine ⟨?_, ?_, hrouted, ?_, h.replied⟩
    · have hphased := h.phased
      rw [State.Phased, hisr] at hphased
      show Phase (some pending) s.task s.mailbox.firmware
      cases hfirmware : s.mailbox.firmware with
      | idle => rwa [hfirmware] at hphased
      | receive | send =>
          rw [hfirmware] at hphased
          exact absurd hphased.1 (Option.some_ne_none _)
    · show List.Perm (_ ++ (pending ++ s.task.pending)) s.mailbox.returned
      apply (hperm.append_right _).trans
      rw [List.append_assoc]
      exact haccounted
    · show _ = (queues .cmdqu).consumed
      rw [hconsumed]
      exact h.executed

/-- The scan goes on when the handler has returned. -/
theorem Inv.taskQueue (h : Inv vendor s) (hidle : s.isr = none ∧ s.mailbox.firmware = .idle)
    (hstep : taskStep vendor s .taskQueue = some t) : Inv vendor t := by
  have haccounted := h.accounted
  have hexecuted := h.executed
  have hreplied := h.replied
  rw [State.inHand, hidle.1] at haccounted
  simp only [taskStep] at hstep
  split at hstep
  · rename_i htask
    cases hstep
    rw [htask] at haccounted hexecuted hreplied
    refine ⟨?_, ?_, h.routed, hexecuted, hreplied⟩
    · show Phase s.isr .idle s.mailbox.firmware
      rw [hidle.2]
      rfl
    · show List.Perm (_ ++ (s.isr.getD [] ++ [])) s.mailbox.returned
      rw [hidle.1]
      exact haccounted
  · rename_i entry pending htask
    cases hstep
    obtain ⟨queues, queued, dropped, hqueue, hrouted, hconsumed, hperm⟩ :=
      queueCommand_cases entry h.routed
    rw [htask] at haccounted hexecuted hreplied
    rw [hqueue]
    refine ⟨?_, ?_, hrouted, ?_, hreplied⟩
    · show Phase s.isr (.queueing pending) s.mailbox.firmware
      rw [hidle.2]
      rfl
    · show List.Perm (_ ++ (s.isr.getD [] ++ pending)) s.mailbox.returned
      rw [hidle.1]
      apply (hperm.append_right _).trans
      rw [List.append_assoc]
      exact haccounted
    · show _ = (queues .cmdqu).consumed
      rw [hconsumed]
      exact hexecuted
  · cases hstep

theorem Inv.timeout (h : Inv vendor s) (hisr : s.isr = none) {acquired : Bool}
    (hstep : taskStep vendor s (.timeout acquired) = some t) : Inv vendor t := by
  have haccounted := h.accounted
  have hexecuted := h.executed
  have hreplied := h.replied
  simp only [taskStep] at hstep
  split at hstep
  · rename_i htask
    obtain ⟨m, hm, rfl⟩ := Option.map_eq_some_iff.mp hstep
    obtain ⟨-, hreturned, hfirmware⟩ := receive_start hm
    rw [State.inHand, htask] at haccounted
    rw [htask] at hexecuted hreplied
    refine ⟨?_, ?_, h.routed, ?_, ?_⟩
    · show Phase s.isr _ m.firmware
      rw [hfirmware, hisr]
      cases acquired
      · rfl
      · exact ⟨rfl, rfl⟩
    · show List.Perm (_ ++ (s.isr.getD [] ++ Task.pending _)) m.returned
      rw [hreturned]
      cases acquired <;> exact haccounted
    · cases acquired <;> exact hexecuted
    · cases acquired <;> exact hreplied
  · cases hstep

theorem Inv.dequeue (h : Inv vendor s) (hidle : s.isr = none ∧ s.mailbox.firmware = .idle)
    (hstep : taskStep vendor s .dequeue = some t) : Inv vendor t := by
  have haccounted := h.accounted
  have hexecuted := h.executed
  have hreplied := h.replied
  simp only [taskStep] at hstep
  split at hstep
  · rename_i item queue htask hreceive
    cases hstep
    rw [State.inHand, htask] at haccounted
    rw [htask] at hexecuted hreplied
    refine ⟨?_, haccounted, h.routed.receive hreceive, ?_, hreplied⟩
    · show Phase s.isr (.handling item) s.mailbox.firmware
      rw [hidle.2]
      rfl
    · show s.handled.map Prod.snd ++ [item] =
        (Function.update s.queues .cmdqu queue .cmdqu).consumed
      rw [Function.update_self, (BoundedQueue.receive_eq_some hreceive).2.2, ← hexecuted]
      rw [show Task.idle.current = [] from rfl, List.append_nil]
  · cases hstep

/-- The reply that a handled command leaves to the task. -/
theorem answer_elim (reply : Option Command) :
    (reply.elim Task.idle .replying).answer = reply.toList := by
  cases reply <;> rfl

theorem Inv.handle (h : Inv vendor s) (hidle : s.isr = none ∧ s.mailbox.firmware = .idle)
    {inputs : Inputs} (hstep : taskStep vendor s (.handle inputs) = some t) : Inv vendor t := by
  have haccounted := h.accounted
  have hexecuted := h.executed
  have hreplied := h.replied
  simp only [taskStep] at hstep
  split at hstep
  · rename_i item htask
    rw [State.inHand, htask] at haccounted
    rw [htask] at hexecuted hreplied
    generalize houtcome : Dispatch.handle vendor inputs s.stopIp item.command = outcome at hstep
    have hinv : Inv vendor { s with
        stopIp := outcome.stopIp
        handled := s.handled ++ [(inputs, item)]
        task := outcome.reply.elim .idle .replying } := by
      refine ⟨?_, ?_, h.routed, ?_, ?_⟩
      · show Phase s.isr _ s.mailbox.firmware
        rw [hidle.2]
        cases outcome.reply <;> rfl
      · show List.Perm (_ ++ (s.isr.getD [] ++ Task.pending _)) s.mailbox.returned
        cases outcome.reply <;> exact haccounted
      · show (s.handled ++ [(inputs, item)]).map Prod.snd ++ Task.current _ = _
        rw [List.map_append]
        cases outcome.reply <;> exact (List.append_nil _).trans hexecuted
      · show replay vendor (s.handled ++ [(inputs, item)]) = (outcome.stopIp, _)
        rw [replay_append, hreplied, replayStep, houtcome, answer_elim]
        rw [show (Task.handling item).answer = [] from rfl, List.append_nil]
    rw [← Option.some.inj hstep]
    cases outcome.forward with
    | none => exact hinv
    | some forward =>
        obtain ⟨queues, hqueues, hrouted, hconsumed⟩ :=
          sendCommand_cases forward.1 forward.2 hinv.routed
        rw [Option.elim_some, hqueues]
        refine ⟨hinv.phased, hinv.accounted, hrouted, ?_, hinv.replied⟩
        show _ = (queues .cmdqu).consumed
        rw [hconsumed]
        exact hinv.executed
  · cases hstep

theorem Inv.reply (h : Inv vendor s) (hisr : s.isr = none) {acquired : Bool}
    (hstep : taskStep vendor s (.reply acquired) = some t) : Inv vendor t := by
  have haccounted := h.accounted
  have hexecuted := h.executed
  have hreplied := h.replied
  simp only [taskStep] at hstep
  split at hstep
  · rename_i reply htask
    obtain ⟨m, hm, rfl⟩ := Option.map_eq_some_iff.mp hstep
    obtain ⟨-, hreturned, hfirmware⟩ := send_start hm
    rw [State.inHand, htask] at haccounted
    rw [htask] at hexecuted hreplied
    refine ⟨?_, ?_, h.routed, ?_, ?_⟩
    · show Phase s.isr _ m.firmware
      rw [hfirmware, hisr]
      cases acquired
      · rfl
      · exact ⟨rfl, rfl⟩
    · show List.Perm (_ ++ (s.isr.getD [] ++ Task.pending _)) m.returned
      rw [hreturned]
      cases acquired <;> exact haccounted
    · cases acquired <;> exact hexecuted
    · show replay vendor s.handled = (s.stopIp, s.replies ++ [reply] ++ Task.answer _)
      cases acquired <;> exact hreplied.trans (by rw [List.append_assoc]; rfl)
  · cases hstep

theorem Inv.consume (h : Inv vendor s) {q : QueueId} (hq : q ≠ .cmdqu)
    {taken : Item × BoundedQueue Item (queLength q)} (hreceive : (s.queues q).receive = some taken) :
    Inv vendor { s with queues := Function.update s.queues q taken.2 } := by
  refine ⟨h.phased, h.accounted, h.routed.receive hreceive, ?_, h.replied⟩
  show _ = (Function.update s.queues q taken.2 .cmdqu).consumed
  rw [Function.update_of_ne hq.symm]
  exact h.executed

theorem Inv.post (h : Inv vendor s) (q : QueueId) (command : Command) :
    Inv vendor (sendCommand s q command) := by
  obtain ⟨queues, hqueues, hrouted, hconsumed⟩ :=
    sendCommand_cases q command h.routed
  rw [hqueues]
  refine ⟨h.phased, h.accounted, hrouted, ?_, h.replied⟩
  show _ = (queues .cmdqu).consumed
  rw [hconsumed]
  exact h.executed

theorem State.isr_of_not_interrupted (h : s.interrupted = false) : s.isr = none := by
  rw [State.interrupted, Bool.or_eq_false_iff, Option.isSome_eq_false_iff] at h
  exact Option.isNone_iff_eq_none.mp h.1

theorem Inv.step {l : Label} (h : Inv vendor s)
    (hstep : Dispatch.step vendor l s = some t) : Inv vendor t := by
  have hcalls : ∀ {task : Task}, s.task = task → task.calling = false → s.interrupted = false →
      s.isr = none ∧ s.mailbox.firmware = .idle := by
    intro task htask hcalling hinterrupted
    exact h.phased.idle hinterrupted (htask ▸ hcalling)
  cases l with
  | linux l =>
      obtain ⟨m, hm, rfl⟩ := Option.map_eq_some_iff.mp hstep
      exact h.linux hm
  | irq =>
      simp only [Dispatch.step] at hstep
      split_ifs at hstep with hisr
      obtain ⟨m, hm, rfl⟩ := Option.map_eq_some_iff.mp hstep
      exact h.irq hisr hm
  | access mask => exact h.access hstep
  | isrQueue => exact h.isrQueue hstep
  | timeout acquired =>
      simp only [Dispatch.step] at hstep
      split_ifs at hstep with hinterrupted
      exact h.timeout (State.isr_of_not_interrupted hinterrupted) hstep
  | taskQueue =>
      simp only [Dispatch.step] at hstep
      split_ifs at hstep with hinterrupted
      apply h.taskQueue _ hstep
      cases htask : s.task with
      | queueing pending => exact hcalls htask rfl hinterrupted
      | idle | recovering | handling | replying | sending => simp [taskStep, htask] at hstep
  | dequeue =>
      simp only [Dispatch.step] at hstep
      split_ifs at hstep with hinterrupted
      apply h.dequeue _ hstep
      cases htask : s.task with
      | idle => exact hcalls htask rfl hinterrupted
      | queueing | recovering | handling | replying | sending => simp [taskStep, htask] at hstep
  | handle inputs =>
      simp only [Dispatch.step] at hstep
      split_ifs at hstep with hinterrupted
      apply h.handle _ hstep
      cases htask : s.task with
      | handling entry => exact hcalls htask rfl hinterrupted
      | idle | queueing | recovering | replying | sending => simp [taskStep, htask] at hstep
  | reply acquired =>
      simp only [Dispatch.step] at hstep
      split_ifs at hstep with hinterrupted
      exact h.reply (State.isr_of_not_interrupted hinterrupted) hstep
  | consume q =>
      simp only [Dispatch.step] at hstep
      split_ifs at hstep with hcan
      obtain ⟨taken, hreceive, rfl⟩ := Option.map_eq_some_iff.mp hstep
      exact h.consume hcan.1 hreceive
  | post q command =>
      simp only [Dispatch.step] at hstep
      split_ifs at hstep
      cases hstep
      exact h.post q command

theorem inv (h : Reachable (system vendor) s) : Inv vendor s := by
  apply h.invariant
  · intro s hs
    rw [show s = State.initial from hs]
    exact Inv.initial
  · intro s t l hs hstep
    exact hs.step hstep

/-! ## The run of the mailbox -/

theorem queueCommand_mailbox (entry : Entry) : (queueCommand s entry).mailbox = s.mailbox := by
  unfold queueCommand
  split
  · rfl
  · split <;> rfl

theorem sendCommand_mailbox (q : QueueId) (command : Command) :
    (sendCommand s q command).mailbox = s.mailbox := by
  unfold sendCommand
  split <;> rfl

theorem accessStep_mailbox {mask : U8} (h : accessStep s mask = some t) :
    Mailbox.firmwareStep s.mailbox (.access mask) = some t.mailbox := by
  obtain ⟨m, hm, rfl⟩ := Option.map_eq_some_iff.mp h
  rw [hm]
  split
  · split_ifs <;> rfl
  · rfl
  · rfl

/-- Outside the calls the task leaves the mailbox alone. -/
theorem taskStep_mailbox {l : Label} (h : taskStep vendor s l = some t) :
    t.mailbox = s.mailbox ∨
      (∃ acquired, Mailbox.firmwareStep s.mailbox (.receive Mailbox.mailboxMaxNum acquired) =
        some t.mailbox) ∨
      ∃ reply acquired, Mailbox.firmwareStep s.mailbox (.send reply acquired) = some t.mailbox := by
  cases l with
  | timeout acquired =>
      simp only [taskStep] at h
      split at h
      · obtain ⟨m, hm, rfl⟩ := Option.map_eq_some_iff.mp h
        exact .inr (.inl ⟨acquired, hm⟩)
      · cases h
  | taskQueue =>
      simp only [taskStep] at h
      split at h
      · cases h
        exact .inl rfl
      · cases h
        exact .inl (queueCommand_mailbox _)
      · cases h
  | dequeue =>
      simp only [taskStep] at h
      split at h
      · cases h
        exact .inl rfl
      · cases h
  | handle inputs =>
      simp only [taskStep] at h
      split at h
      · rename_i item _
        rw [← Option.some.inj h]
        cases (handle vendor inputs s.stopIp item.command).forward with
        | none => exact .inl rfl
        | some forward => exact .inl (sendCommand_mailbox _ _)
      · cases h
  | reply acquired =>
      simp only [taskStep] at h
      split at h
      · rename_i reply _
        obtain ⟨m, hm, rfl⟩ := Option.map_eq_some_iff.mp h
        exact .inr (.inr ⟨reply, acquired, hm⟩)
      · cases h
  | linux | irq | access | isrQueue | consume | post => simp [taskStep] at h

/-- A step is one of the mailbox below it, or leaves it. -/
theorem step_mailbox {l : Label} (h : step vendor l s = some t) :
    t.mailbox = s.mailbox ∨ ∃ l', Mailbox.step l' s.mailbox = some t.mailbox ∧
      (whole l s = true → Mailbox.whole l' s.mailbox = true) := by
  have htask : taskStep vendor s l = some t → t.mailbox = s.mailbox ∨
      ∃ l', Mailbox.step l' s.mailbox = some t.mailbox ∧
        (whole l s = true → Mailbox.whole l' s.mailbox = true) := by
    intro htask
    apply (taskStep_mailbox htask).imp_right
    rintro (⟨acquired, hm⟩ | ⟨reply, acquired, hm⟩)
    · exact ⟨.firmware (.receive Mailbox.mailboxMaxNum acquired), hm, fun _ => rfl⟩
    · exact ⟨.firmware (.send reply acquired), hm, fun _ => rfl⟩
  cases l with
  | linux l =>
      obtain ⟨m, hm, rfl⟩ := Option.map_eq_some_iff.mp h
      exact .inr ⟨.linux l, hm, fun _ => rfl⟩
  | irq =>
      simp only [step] at h
      split_ifs at h
      obtain ⟨m, hm, rfl⟩ := Option.map_eq_some_iff.mp h
      exact .inr ⟨.firmware (.isr Mailbox.mailboxMaxNum), hm, fun _ => rfl⟩
  | access mask => exact .inr ⟨.firmware (.access mask), accessStep_mailbox h, id⟩
  | isrQueue =>
      simp only [step, isrStep] at h
      split at h
      · cases h
      · cases h
        exact .inl rfl
      · cases h
        exact .inl (queueCommand_mailbox _)
  | timeout | taskQueue | dequeue | handle | reply =>
      simp only [step] at h
      split_ifs at h
      exact htask h
  | consume q =>
      simp only [step] at h
      split_ifs at h
      obtain ⟨taken, -, rfl⟩ := Option.map_eq_some_iff.mp h
      exact .inl rfl
  | post q command =>
      simp only [step] at h
      split_ifs at h
      cases h
      exact .inl (sendCommand_mailbox q command)

/-- A run of the tasks is a run of the mailbox. -/
theorem mailbox_reachable (h : ReachableBy (system vendor) (fun l s => whole l s = true) s) :
    ReachableBy Mailbox.system (fun l m => Mailbox.whole l m = true) s.mailbox := by
  induction h with
  | start hs =>
      rw [show _ = State.initial from hs]
      exact .start rfl
  | step _ hwhole hstep ih =>
      rcases step_mailbox hstep with hsame | ⟨l', hl', hwhole'⟩
      · rw [hsame]
        exact ih
      · exact ih.step (hwhole' hwhole) hl'

/-! ## Where the commands are -/

structure Dispatched (vendor : Vendor) (s : State) : Prop where
  whole : ∀ entry ∈ s.received, entry.Whole s.mailbox.stream
  once : (s.received.map Entry.post).Nodup
  /-- A posted command is in its slot or has been received, and not both. -/
  kept : ∀ n < s.mailbox.posted, some n ∈ s.received.map Entry.post ∨
    ∃ slot command, s.mailbox.occupant slot = some n ∧ s.mailbox.stream[n]? = some command ∧
      Mailbox.Filled s.mailbox.context s.mailbox.linux slot command
  fresh : ∀ slot n, s.mailbox.occupant slot = some n → some n ∉ s.received.map Entry.post
  routed : Routed s.queues s.queued s.dropped
  handled : s.handled.map Prod.snd ++ s.task.current <+: (s.queues .cmdqu).accepted
  replied : replay vendor s.handled = (s.stopIp, s.replies ++ s.task.answer)

theorem Inv.received_perm (h : Inv vendor s) : s.received.Perm s.mailbox.taken :=
  h.accounted.append_right _

/-- No command is lost between its slot and its queue, or handled twice, whatever the
interleaving of Linux, the handler, the command task and the tasks of the vendor. -/
theorem commands_dispatched
    (h : ReachableBy (system vendor) (fun l s => whole l s = true) s) : Dispatched vendor s := by
  have hinv := inv h.reachable
  have hledger := (Mailbox.inv (mailbox_reachable h)).ledger
  have hperm := hinv.received_perm
  have hposts := hperm.map Entry.post
  refine ⟨?_, hposts.nodup_iff.mpr hledger.once, ?_, ?_, hinv.routed, ?_, hinv.replied⟩
  · intro entry hentry
    exact hledger.whole entry (hperm.subset hentry)
  · intro n hn
    apply (hledger.kept n hn).imp fun hmem => hposts.symm.subset hmem
    intro ⟨slot, hslot⟩
    obtain ⟨command, hstream, hfilled⟩ := hledger.occupied slot n hslot
    exact ⟨slot, command, hslot, hstream, hfilled⟩
  · intro slot n hslot hmem
    exact hledger.fresh slot n hslot (hposts.subset hmem)
  · rw [hinv.executed]
    exact BoundedQueue.consumed_prefix _

/-! ### A ping -/

/-- The numbers of `enum SYS_CMD_ID`, and one for `SYS_CMD_INFO_DUMP_JPG`. -/
def sysCmd : Vendor where
  linuxInitDone := 0x51#7
  rtosInitDone := 0x52#7
  stopIsr := 0x53#7
  stopIsrDone := 0x54#7
  dumpMsg := 0x58#7
  dumpEn := 0x59#7
  dumpDis := 0x5a#7
  dumpJpg := 0x5f#7
  trace := some (0x5b#7, 0x5c#7)
  transferConfig := 0#32
  snapshot := 0#32
  distinct := by decide

def ping : Command := ⟨ipSystem, 0x60#7, 1#1, 0#8, 0#8, 1#32⟩

def postAndHandle (slot : Mailbox.Index) (command : Command) : List Label :=
  [.linux .lock, .linux (.choose slot command), .linux (.first true), .linux .second,
    .linux .ring, .linux .unlock, .irq] ++
  List.replicate 21 (.access (Mailbox.bit slot)) ++
  [.isrQueue, .isrQueue, .dequeue, .handle ⟨fun _ => 0#32, 0#32, 0#32⟩]

theorem commands_dispatched_ping : ∃ s, s.received.map Entry.post = [some 0] ∧
    s.task.answer.map Command.paramPtr = [1#32 ^^^ pingXor] ∧ Dispatched sysCmd s := by
  have hrun : (exec (guarded whole (step sysCmd)) (postAndHandle 0 ping) State.initial).map
      (fun s => (s.received.map Entry.post, s.task.answer.map Command.paramPtr)) =
        some ([some 0], [1#32 ^^^ pingXor]) := by
    decide
  obtain ⟨s, hexec, hs⟩ := Option.map_eq_some_iff.mp hrun
  rw [Prod.mk.injEq] at hs
  exact ⟨s, hs.1, hs.2, commands_dispatched ((ReachableBy.start rfl).execGuarded hexec)⟩

end Sg200x.Ipc.Dispatch
