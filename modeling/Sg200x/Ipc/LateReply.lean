import Sg200x.Ipc.SendWait
import Mathlib.Data.List.Perm.Basic
import Mathlib.Data.List.Perm.Subperm
import Mathlib.Data.List.Nodup

/-!
# The reply of a synchronous call

A reply is matched by `ip_id` and `cmd_id`, and it may come after its call has returned.
The next call with the same key then gets it.  What holds is that a call gets the reply
to its own command or one that was under way when it queued its waiter.
-/

namespace Sg200x.Ipc.LateReply

open Shm Cmdqu SendWait Library.Transition

/-- The call returned a reply to its own command. -/
def Own (success : Success) : Prop := success.origin = some success.ticket

/-- The call returned a reply of the firmware with its key, and the command that was
answered is its own or one whose reply was under way before it queued its waiter. -/
structure Due (s : State) (success : Success) : Prop where
  reply : ∃ origin, success.origin = some origin ∧ ⟨origin, success.reply⟩ ∈ s.answered ∧
    (success.ticket, ⟨origin, success.reply⟩) ∈ s.deliveries ∧
      (origin = success.ticket ∨ origin ∈ success.owed ∧ origin < success.ticket)
  key : success.reply.answers success.command

structure Replied (s : State) : Prop where
  due : ∀ success ∈ s.successes, Due s success
  /-- A waiter gets one reply. -/
  once : (s.deliveries.map Prod.fst).Nodup
  /-- No two waiters get the same reply. -/
  distinct : (s.deliveries.map fun delivery => delivery.2.origin).Nodup

/-! ## Commands and replies under way -/

/-- The calls whose commands have been sent and are not accounted for. -/
def sentOrigins (s : State) : List ℕ :=
  s.outstanding ++ s.deliveries.map fun delivery => delivery.2.origin

structure Traffic (s : State) : Prop where
  nodup : (sentOrigins s).Nodup
  issued : ∀ origin ∈ sentOrigins s, origin < s.tickets
  replies : ∀ item ∈ s.replies, item ∈ s.answered
  deliveries : ∀ delivery ∈ s.deliveries, delivery.2 ∈ s.answered ∧ delivery.1 < s.tickets
  once : (s.deliveries.map Prod.fst).Nodup

def ticketOf : HolderPc → Option ℕ
  | .send ticket | .wait ticket | .collect ticket _ => some ticket
  | _ => none

/-- What the waiter of the holder has. -/
structure Waiting (s : State) (command : Command) (waiter : Waiter) : Prop where
  last : waiter.ticket + 1 = s.tickets
  key : waiter.waitsFor command = true
  /-- No reply yet, or the one that was delivered. -/
  origin : match waiter.origin with
    | none => waiter.condition ≤ 0 ∧ ∀ delivery ∈ s.deliveries, delivery.1 ≠ waiter.ticket
    | some origin => waiter.condition ≠ 0 ∧
        (waiter.ticket, ⟨origin, waiter.cmdq⟩) ∈ s.deliveries ∧
          (origin = waiter.ticket ∨ origin ∈ s.owed)
  under : ∀ origin ∈ s.outstanding, origin = waiter.ticket ∨ origin ∈ s.owed
  owed : ∀ origin ∈ s.owed, origin < waiter.ticket

/-- A wait that has ended well has seen the condition. -/
def Woken (waiter : Waiter) : HolderPc → Prop
  | .collect _ .positive => waiter.condition ≠ 0
  | _ => True

/-- `send_wait_lock` leaves room for one waiter, that of the call that holds it. -/
def HolderFacts (s : State) : Option (Command × HolderPc) → Prop
  | none => s.waiters = []
  | some (command, pc) =>
      match ticketOf pc with
      | none => s.waiters = []
      | some ticket => ∃ waiter, s.waiters = [waiter] ∧ waiter.ticket = ticket ∧
          Waiting s command waiter ∧ Woken waiter pc

/-- The command has not been sent. -/
def Unsent (s : State) : Option (Command × HolderPc) → Prop
  | some (_, .send ticket) => ticket ∉ sentOrigins s
  | _ => True

structure Inv (s : State) : Prop where
  traffic : Traffic s
  holder : HolderFacts s s.holder
  unsent : Unsent s s.holder
  successes : ∀ success ∈ s.successes, Due s success

theorem Inv.replied {s : State} (h : Inv s) : Replied s where
  due := h.successes
  once := h.traffic.once
  distinct := by
    have hnodup := h.traffic.nodup
    unfold sentOrigins at hnodup
    exact hnodup.of_append_right

/-! ## What the steps keep -/

variable {s t : State} {command : Command} {waiter : Waiter} {success : Success}

theorem nodup_of_subperm {l m : List ℕ} (h : l.Subperm m) (hnodup : m.Nodup) : l.Nodup := by
  obtain ⟨k, hperm, hsublist⟩ := h
  exact hperm.nodup_iff.mp (hnodup.sublist hsublist)

theorem Due.mono (h : Due s success) (hanswered : ∀ item ∈ s.answered, item ∈ t.answered)
    (hdeliveries : ∀ delivery ∈ s.deliveries, delivery ∈ t.deliveries) : Due t success := by
  obtain ⟨⟨origin, horigin, hin, hdelivered, hdue⟩, hkey⟩ := h
  exact ⟨⟨origin, horigin, hanswered _ hin, hdeliveries _ hdelivered, hdue⟩, hkey⟩

theorem Waiting.mono (h : Waiting s command waiter) (htickets : t.tickets = s.tickets)
    (howed : t.owed = s.owed) (hdeliveries : t.deliveries = s.deliveries)
    (hunder : ∀ origin ∈ t.outstanding, origin ∈ s.outstanding) : Waiting t command waiter where
  last := by rw [htickets, h.last]
  key := h.key
  origin := by
    rw [hdeliveries, howed]
    exact h.origin
  under origin horigin := by
    rw [howed]
    exact h.under origin (hunder origin horigin)
  owed := by
    rw [howed]
    exact h.owed

/-- The commands go on their way, or a call that has no part in it goes on. -/
theorem Inv.flow (h : Inv s) (hfacts : HolderFacts s t.holder) (hunsent : Unsent s t.holder)
    (hwaiters : t.waiters = s.waiters) (htickets : t.tickets = s.tickets)
    (howed : t.owed = s.owed) (hdeliveries : t.deliveries = s.deliveries)
    (hsuccesses : t.successes = s.successes)
    (hanswered : ∀ item ∈ s.answered, item ∈ t.answered)
    (hout : t.outstanding.Subperm s.outstanding)
    (hreplies : ∀ item ∈ t.replies, item ∈ t.answered) : Inv t := by
  have hsent : (sentOrigins t).Subperm (sentOrigins s) := by
    unfold sentOrigins
    rw [hdeliveries]
    exact (List.subperm_append_right _).mpr hout
  refine ⟨⟨nodup_of_subperm hsent h.traffic.nodup, ?_, hreplies, ?_, ?_⟩, ?_, ?_, ?_⟩
  · intro origin horigin
    rw [htickets]
    exact h.traffic.issued origin (hsent.subset horigin)
  · intro delivery hdelivery
    rw [hdeliveries] at hdelivery
    obtain ⟨hin, hlt⟩ := h.traffic.deliveries delivery hdelivery
    exact ⟨hanswered _ hin, by rw [htickets]; exact hlt⟩
  · rw [hdeliveries]
    exact h.traffic.once
  · cases hholder : t.holder with
    | none =>
        rw [hholder] at hfacts
        exact hwaiters.trans hfacts
    | some pair =>
        obtain ⟨command, pc⟩ := pair
        rw [hholder] at hfacts
        unfold HolderFacts at hfacts ⊢
        cases hpc : ticketOf pc with
        | none =>
            simp only [hpc] at hfacts ⊢
            exact hwaiters.trans hfacts
        | some ticket =>
            simp only [hpc] at hfacts ⊢
            obtain ⟨waiter, hlist, hticket, hwaiting, hwoken⟩ := hfacts
            exact ⟨waiter, hwaiters.trans hlist, hticket,
              hwaiting.mono htickets howed hdeliveries (fun _ ho => hout.subset ho), hwoken⟩
  · cases hholder : t.holder with
    | none => trivial
    | some pair =>
        obtain ⟨command, pc⟩ := pair
        rw [hholder] at hunsent
        cases pc with
        | send ticket => exact fun hin => hunsent (hsent.subset hin)
        | allocate => trivial
        | queue => trivial
        | wait => trivial
        | collect => trivial
        | unlock => trivial
  · intro success hsuccess
    rw [hsuccesses] at hsuccess
    exact (h.successes success hsuccess).mono hanswered fun delivery hdelivery => by
      rw [hdeliveries]
      exact hdelivery

/-- Nothing under way changes. -/
theorem Inv.goto (h : Inv s) (hfacts : HolderFacts s t.holder) (hunsent : Unsent s t.holder)
    (hwaiters : t.waiters = s.waiters) (htickets : t.tickets = s.tickets)
    (howed : t.owed = s.owed) (hdeliveries : t.deliveries = s.deliveries)
    (hsuccesses : t.successes = s.successes) (hanswered : t.answered = s.answered)
    (hout : t.outstanding = s.outstanding) (hreplies : t.replies = s.replies) : Inv t := by
  apply h.flow hfacts hunsent hwaiters htickets howed hdeliveries hsuccesses
  · rw [hanswered]
    exact fun _ hitem => hitem
  · rw [hout]
  · rw [hreplies, hanswered]
    exact h.traffic.replies

theorem waitsFor_iff : waiter.waitsFor command = true ↔
    command.ipId = waiter.cmdq.ipId ∧ command.cmdId = waiter.cmdq.cmdId := by
  rw [Waiter.waitsFor, Bool.and_eq_true, decide_eq_true_iff, decide_eq_true_iff]

theorem findWaiter_singleton (h : s.waiters = [waiter]) :
    s.findWaiter waiter.ticket = some waiter := by
  simp [State.findWaiter, h]

/-- The facts of a call whose waiter is in the list. -/
theorem Inv.waiting (h : Inv s) {pc : HolderPc} {ticket : ℕ}
    (hholder : s.holder = some (command, pc)) (hticket : ticketOf pc = some ticket) :
    ∃ waiter, s.waiters = [waiter] ∧ s.findWaiter ticket = some waiter ∧
      waiter.ticket = ticket ∧ Waiting s command waiter ∧ Woken waiter pc := by
  have hfacts := h.holder
  rw [hholder] at hfacts
  unfold HolderFacts at hfacts
  simp only [hticket] at hfacts
  obtain ⟨waiter, hlist, heq, hwaiting, hwoken⟩ := hfacts
  exact ⟨waiter, hlist, heq ▸ findWaiter_singleton hlist, heq, hwaiting, hwoken⟩

theorem Inv.no_waiter (h : Inv s) {pc : HolderPc} (hholder : s.holder = some (command, pc))
    (hticket : ticketOf pc = none) : s.waiters = [] := by
  have hfacts := h.holder
  rw [hholder] at hfacts
  unfold HolderFacts at hfacts
  simp only [hticket] at hfacts
  exact hfacts

/-! ## The call that holds the lock -/

theorem Inv.queueWaiter (h : Inv s) (hholder : s.holder = some (command, .queue)) :
    Inv (s.queueWaiter command) := by
  have hwaiters : s.waiters = [] := h.no_waiter hholder rfl
  have hissued : ∀ origin ∈ s.outstanding, origin < s.tickets :=
    fun origin horigin => h.traffic.issued origin (List.mem_append_left _ horigin)
  have hkey : (⟨s.tickets, command, 0, none⟩ : Waiter).waitsFor command = true :=
    waitsFor_iff.mpr ⟨rfl, rfl⟩
  refine ⟨⟨h.traffic.nodup, ?_, h.traffic.replies, ?_, h.traffic.once⟩, ?_, ?_, ?_⟩
  · intro origin horigin
    exact (h.traffic.issued origin horigin).trans (Nat.lt_succ_self _)
  · intro delivery hdelivery
    obtain ⟨hin, hlt⟩ := h.traffic.deliveries delivery hdelivery
    exact ⟨hin, hlt.trans (Nat.lt_succ_self _)⟩
  · refine ⟨⟨s.tickets, command, 0, none⟩, ?_, rfl, ⟨rfl, hkey, ?_, ?_, hissued⟩, trivial⟩
    · show s.waiters ++ [_] = _
      rw [hwaiters, List.nil_append]
    · refine ⟨Int.le_refl 0, ?_⟩
      intro delivery hdelivery
      exact (h.traffic.deliveries delivery hdelivery).2.ne
    · intro origin horigin
      exact .inr horigin
  · intro hin
    exact absurd (h.traffic.issued _ hin) (Nat.lt_irrefl _)
  · intro success hsuccess
    exact (h.successes success hsuccess).mono (fun _ hi => hi) (fun _ hd => hd)

/-- The command of the waiter is sent. -/
theorem Inv.send (h : Inv s) {ticket : ℕ} (hholder : s.holder = some (command, .send ticket)) :
    Inv { s with
      requests := s.requests ++ [⟨ticket, command⟩]
      holder := some (command, .wait ticket) } := by
  obtain ⟨waiter, hlist, -, hticket, hwaiting, -⟩ := h.waiting hholder rfl
  have hunsent : ticket ∉ sentOrigins s := by
    have hunsent := h.unsent
    rw [hholder] at hunsent
    exact hunsent
  have hout : ((s.requests ++ [(⟨ticket, command⟩ : Item)] ++ s.queue ++ s.replies).map Item.origin).Perm
      (ticket :: s.outstanding) := by
    rw [List.append_assoc, List.append_assoc, List.singleton_append, State.outstanding,
      List.append_assoc]
    exact List.Perm.map Item.origin List.perm_middle
  refine ⟨⟨?_, ?_, h.traffic.replies, h.traffic.deliveries, h.traffic.once⟩, ?_, trivial, ?_⟩
  · apply (hout.append_right _).nodup_iff.mpr
    exact List.nodup_cons.mpr ⟨hunsent, h.traffic.nodup⟩
  · intro origin horigin
    have hmem := (hout.append_right _).subset horigin
    rw [List.cons_append, List.mem_cons] at hmem
    apply hmem.elim
    · intro heq
      have hlast := hwaiting.last
      show origin < s.tickets
      omega
    · exact h.traffic.issued origin
  · refine ⟨waiter, hlist, hticket,
      ⟨hwaiting.last, hwaiting.key, hwaiting.origin, ?_, hwaiting.owed⟩, trivial⟩
    intro origin horigin
    have hmem := hout.subset horigin
    rw [List.mem_cons] at hmem
    apply hmem.elim
    · intro heq
      rw [heq, hticket]
      exact .inl rfl
    · exact hwaiting.under origin
  · intro success hsuccess
    exact (h.successes success hsuccess).mono (fun _ hi => hi) (fun _ hd => hd)

/-- A call returns a reply only if its waiter got one. -/
theorem finish_eq_ok {ret : WaitResult} {reply : Command} (h : finish waiter ret = .ok reply)
    (hret : ret = .positive → waiter.condition ≠ 0) :
    0 < waiter.condition ∧ reply = waiter.cmdq := by
  unfold finish at h
  by_cases hnegative : waiter.condition < 0
  · rw [if_pos hnegative] at h
    cases h
  · rw [if_neg hnegative] at h
    cases ret with
    | error errno => cases h
    | zero =>
        dsimp only at h
        split_ifs at h with hzero
        cases h
        exact ⟨by omega, rfl⟩
    | positive =>
        cases h
        have hne := hret rfl
        exact ⟨by omega, rfl⟩

/-- What the call returns is due to it. -/
theorem Waiting.due {pc : HolderPc} {ticket : ℕ} {ret : WaitResult} {reply : Command}
    (h : Waiting s command waiter) (hwoken : Woken waiter pc) (hpc : pc = .collect ticket ret)
    (htraffic : Traffic s) (hreply : finish waiter ret = .ok reply) :
    Due s ⟨waiter.ticket, command, reply, waiter.origin, s.owed⟩ := by
  have hret : ret = .positive → waiter.condition ≠ 0 := by
    intro heq
    rw [hpc, heq] at hwoken
    exact hwoken
  obtain ⟨hpositive, heq⟩ := finish_eq_ok hreply hret
  have horigin := h.origin
  cases hcopied : waiter.origin with
  | none =>
      rw [hcopied] at horigin
      exact absurd horigin.1 (by omega)
  | some origin =>
      rw [hcopied] at horigin
      obtain ⟨-, hdelivered, howed⟩ := horigin
      refine ⟨⟨origin, rfl, ?_, ?_, howed.imp_right fun hin => ⟨hin, h.owed origin hin⟩⟩, ?_⟩
      · rw [heq]
        exact (htraffic.deliveries _ hdelivered).1
      · rw [heq]
        exact hdelivered
      · obtain ⟨hip, hcmd⟩ := waitsFor_iff.mp h.key
        show reply.answers command
        rw [heq]
        exact ⟨hip, hcmd⟩

theorem Inv.collect (h : Inv s) {ticket : ℕ} {ret : WaitResult}
    (hholder : s.holder = some (command, .collect ticket ret)) :
    ∃ waiter, s.findWaiter ticket = some waiter ∧ Inv (s.collect command waiter ret) := by
  obtain ⟨waiter, hlist, hfind, hticket, hwaiting, hwoken⟩ := h.waiting hholder rfl
  refine ⟨waiter, hfind, ⟨h.traffic.nodup, h.traffic.issued, h.traffic.replies,
    h.traffic.deliveries, h.traffic.once⟩, ?_, trivial, ?_⟩
  · show s.waiters.filter _ = []
    rw [hlist]
    simp
  · intro success hsuccess
    have hmono : ∀ success, Due s success → Due (s.collect command waiter ret) success :=
      fun success hdue => hdue.mono (fun _ hi => hi) (fun _ hd => hd)
    apply hmono
    cases hresult : finish waiter ret with
    | error errno =>
        simp only [State.collect, hresult] at hsuccess
        exact h.successes success hsuccess
    | ok reply =>
        simp only [State.collect, hresult, List.mem_append, List.mem_singleton] at hsuccess
        apply hsuccess.elim (h.successes success)
        intro heq
        rw [heq]
        exact hwaiting.due hwoken rfl h.traffic hresult

/-- The holder goes on with no waiter in the list. -/
theorem Inv.goto_none (h : Inv s) (hwaiters : s.waiters = []) {command : Command}
    {next : HolderPc} (hnext : ticketOf next = none) : Inv (s.goto command next) := by
  refine h.goto ?_ ?_ rfl rfl rfl rfl rfl rfl rfl rfl
  · show HolderFacts s (some (command, next))
    unfold HolderFacts
    simp only [hnext]
    exact hwaiters
  · show Unsent s (some (command, next))
    cases next <;> trivial

/-- The holder goes on with its waiter. -/
theorem Inv.goto_collect (h : Inv s) {pc : HolderPc} {ticket : ℕ} {ret : WaitResult}
    (hholder : s.holder = some (command, pc)) (hticket : ticketOf pc = some ticket)
    (hret : ret = .positive → ∀ waiter, s.findWaiter ticket = some waiter →
      waiter.condition ≠ 0) :
    Inv (s.goto command (.collect ticket ret)) := by
  obtain ⟨waiter, hlist, hfind, heq, hwaiting, -⟩ := h.waiting hholder hticket
  refine h.goto ⟨waiter, hlist, heq, hwaiting, ?_⟩ trivial rfl rfl rfl rfl rfl rfl rfl rfl
  cases ret with
  | positive => exact hret rfl waiter hfind
  | error => trivial
  | zero => trivial

theorem Inv.holderStep {answer : Answer} {pc : HolderPc} (h : Inv s)
    (hholder : s.holder = some (command, pc))
    (hstep : SendWait.holderStep s command answer pc = some t) : Inv t := by
  cases pc with
  | allocate =>
      have hwaiters : s.waiters = [] := h.no_waiter hholder rfl
      cases answer <;> cases hstep <;> exact h.goto_none hwaiters rfl
  | queue =>
      simp only [SendWait.holderStep] at hstep
      split_ifs at hstep <;> cases hstep
      · exact h.goto_none (h.no_waiter hholder rfl) rfl
      · exact h.queueWaiter hholder
  | send ticket =>
      cases answer with
      | done =>
          cases hstep
          exact h.send hholder
      | fail errno =>
          cases hstep
          exact h.goto_collect hholder rfl (by simp)
      | timeout => cases hstep
      | signal => cases hstep
  | wait ticket =>
      simp only [SendWait.holderStep] at hstep
      cases hfind : s.findWaiter ticket with
      | none =>
          rw [hfind] at hstep
          cases hstep
      | some waiter =>
          rw [hfind] at hstep
          dsimp only at hstep
          by_cases hcondition : waiter.condition ≠ 0
          · rw [if_pos hcondition] at hstep
            cases hstep
            apply h.goto_collect hholder rfl
            intro _ other hother
            rw [hfind, Option.some.injEq] at hother
            rw [← hother]
            exact hcondition
          · rw [if_neg hcondition] at hstep
            cases answer <;> dsimp only at hstep <;> try split_ifs at hstep
            all_goals cases hstep
            all_goals exact h.goto_collect hholder rfl (by simp)
  | collect ticket ret =>
      obtain ⟨waiter, hfind, hinv⟩ := h.collect hholder
      simp only [SendWait.holderStep, hfind] at hstep
      cases hstep
      exact hinv
  | unlock result =>
      cases hstep
      exact h.goto (h.no_waiter hholder rfl) trivial rfl rfl rfl rfl rfl rfl rfl rfl

/-! ## The interrupt and the firmware -/

/-- A reply leaves its slot. -/
theorem outstanding_erase {i : ℕ} {item : Item} (hitem : s.replies[i]? = some item) :
    s.outstanding.Perm (item.origin ::
      State.outstanding { s with replies := s.replies.eraseIdx i }) := by
  obtain ⟨hi, hget⟩ := List.getElem?_eq_some_iff.mp hitem
  have hreplies : s.replies.Perm (item :: s.replies.eraseIdx i) := by
    rw [← hget]
    exact (List.getElem_cons_eraseIdx_perm hi).symm
  unfold State.outstanding
  rw [← List.map_cons]
  exact ((hreplies.append_left _).trans List.perm_middle).map _

theorem Inv.erase (h : Inv s) {i : ℕ} {item : Item} (hitem : s.replies[i]? = some item) :
    Inv { s with replies := s.replies.eraseIdx i } := by
  refine h.flow h.holder h.unsent rfl rfl rfl rfl rfl (fun _ hin => hin) ?_ ?_
  · exact List.Subperm.cons_self.trans (outstanding_erase hitem).symm.subperm
  · intro other hother
    exact h.traffic.replies other (List.mem_of_mem_eraseIdx hother)

/-- The reply that left its slot is known to nobody else. -/
theorem Traffic.erase (h : Traffic s) {i : ℕ} {item : Item} (hitem : s.replies[i]? = some item) :
    item.origin ∉ sentOrigins { s with replies := s.replies.eraseIdx i } ∧
      item.origin < s.tickets ∧ item ∈ s.answered := by
  have hperm := (outstanding_erase hitem).append_right
    (s.deliveries.map fun delivery => delivery.2.origin)
  have hnodup := hperm.nodup_iff.mp h.nodup
  rw [List.cons_append, List.nodup_cons] at hnodup
  refine ⟨hnodup.1, h.issued item.origin (hperm.symm.subset List.mem_cons_self), ?_⟩
  exact h.replies item (List.mem_of_getElem? hitem)

theorem deliver_singleton {item : Item} :
    deliver item [waiter] =
      if waiter.waitsFor item.command ∧ waiter.condition = 0 then
        ([{ waiter with cmdq := item.command, condition := 1, origin := some item.origin }],
          [(waiter.ticket, item)])
      else ([waiter], []) := by
  unfold deliver
  by_cases hkey : waiter.waitsFor item.command
  · by_cases hcondition : waiter.condition = 0
    · rw [if_pos hkey, if_pos hcondition, if_pos ⟨hkey, hcondition⟩]
    · rw [if_pos hkey, if_neg hcondition, if_neg (fun hboth => hcondition hboth.2)]
  · rw [if_neg hkey, if_neg (fun hboth => hkey hboth.1)]
    rfl

/-- The waiter has the reply. -/
theorem Waiting.deliver (h : Waiting s command waiter) {item : Item}
    (hmatch : waiter.waitsFor item.command = true)
    (hdue : item.origin = waiter.ticket ∨ item.origin ∈ s.owed) :
    Waiting { s with
        waiters := [{ waiter with
          cmdq := item.command
          condition := 1
          origin := some item.origin }]
        deliveries := s.deliveries ++ [(waiter.ticket, item)] } command
      { waiter with cmdq := item.command, condition := 1, origin := some item.origin } where
  last := h.last
  key := by
    obtain ⟨hip, hcmd⟩ := waitsFor_iff.mp h.key
    obtain ⟨hip', hcmd'⟩ := waitsFor_iff.mp hmatch
    exact waitsFor_iff.mpr ⟨hip.trans hip'.symm, hcmd.trans hcmd'.symm⟩
  origin := by
    refine ⟨one_ne_zero, ?_, hdue⟩
    exact List.mem_append_right _ (List.mem_singleton_self _)
  under := h.under
  owed := h.owed

/-- The reply goes to the waiter of the call that holds the lock. -/
theorem Inv.deliver (h : Inv s) {item : Item} {pc : HolderPc} {ticket : ℕ}
    (hholder : s.holder = some (command, pc)) (hticket : ticketOf pc = some ticket)
    (hlist : s.waiters = [waiter]) (hmatch : waiter.waitsFor item.command = true)
    (hcondition : waiter.condition = 0) (hfresh : item.origin ∉ sentOrigins s)
    (hissued : item.origin < s.tickets) (hanswered : item ∈ s.answered)
    (hdue : item.origin = waiter.ticket ∨ item.origin ∈ s.owed)
    (hsent : ∀ ticket, pc = .send ticket → item.origin ≠ ticket) :
    Inv { s with
      waiters := [{ waiter with
        cmdq := item.command
        condition := 1
        origin := some item.origin }]
      deliveries := s.deliveries ++ [(waiter.ticket, item)] } := by
  obtain ⟨waiter', hlist', -, heq, hwaiting, -⟩ := h.waiting hholder hticket
  rw [hlist, List.cons.injEq] at hlist'
  rw [← hlist'.1] at heq hwaiting
  -- a waiter whose condition is zero has no reply yet
  have hnew : ∀ delivery ∈ s.deliveries, delivery.1 ≠ waiter.ticket := by
    have horigin := hwaiting.origin
    cases hcopied : waiter.origin with
    | none =>
        rw [hcopied] at horigin
        exact horigin.2
    | some origin =>
        rw [hcopied] at horigin
        exact absurd hcondition horigin.1
  have hperm : (s.outstanding ++ (s.deliveries ++ [(waiter.ticket, item)]).map
      fun delivery => delivery.2.origin).Perm (item.origin :: sentOrigins s) := by
    rw [List.map_append, ← List.append_assoc]
    exact List.perm_append_singleton _ _
  refine ⟨⟨?_, ?_, h.traffic.replies, ?_, ?_⟩, ?_, ?_, ?_⟩
  · exact hperm.nodup_iff.mpr (List.nodup_cons.mpr ⟨hfresh, h.traffic.nodup⟩)
  · intro origin horigin
    have hmem := hperm.subset horigin
    rw [List.mem_cons] at hmem
    apply hmem.elim
    · intro horigin
      rw [horigin]
      exact hissued
    · exact h.traffic.issued origin
  · intro delivery hdelivery
    rw [List.mem_append, List.mem_singleton] at hdelivery
    apply hdelivery.elim (h.traffic.deliveries delivery)
    intro hdelivery
    rw [hdelivery]
    refine ⟨hanswered, ?_⟩
    have hlast := hwaiting.last
    show waiter.ticket < s.tickets
    omega
  · rw [List.map_append, List.nodup_append_comm, List.map_singleton, List.singleton_append,
      List.nodup_cons]
    refine ⟨?_, h.traffic.once⟩
    intro hin
    obtain ⟨delivery, hdelivery, hfst⟩ := List.mem_map.mp hin
    exact hnew delivery hdelivery hfst
  · refine (congrArg (HolderFacts _) hholder).mpr ?_
    unfold HolderFacts
    simp only [hticket]
    refine ⟨_, rfl, heq, hwaiting.deliver hmatch hdue, ?_⟩
    unfold Woken
    split
    · exact one_ne_zero
    · trivial
  · show Unsent _ s.holder
    have hunsent := h.unsent
    rw [hholder] at hunsent ⊢
    cases pc with
    | send ticket =>
        intro hin
        have hmem := hperm.subset hin
        rw [List.mem_cons] at hmem
        exact hmem.elim (fun horigin => hsent ticket rfl horigin.symm) hunsent
    | allocate => trivial
    | queue => trivial
    | wait => trivial
    | collect => trivial
    | unlock => trivial
  · intro success hsuccess
    exact (h.successes success hsuccess).mono (fun _ hi => hi)
      (fun _ hd => List.mem_append_left _ hd)

/-- No step of the interrupt handler finds a waiter when nobody holds the lock. -/
theorem Inv.waiters_cases (h : Inv s) : s.waiters = [] ∨
    ∃ command pc ticket waiter, s.holder = some (command, pc) ∧ ticketOf pc = some ticket ∧
      s.waiters = [waiter] ∧ Waiting s command waiter ∧ waiter.ticket = ticket := by
  cases hholder : s.holder with
  | none =>
      have hfacts := h.holder
      rw [hholder] at hfacts
      exact .inl hfacts
  | some pair =>
      obtain ⟨command, pc⟩ := pair
      cases hticket : ticketOf pc with
      | none => exact .inl (h.no_waiter hholder hticket)
      | some ticket =>
          obtain ⟨waiter, hlist, -, heq, hwaiting, -⟩ := h.waiting hholder hticket
          exact .inr ⟨command, pc, ticket, waiter, rfl, hticket, hlist, hwaiting, heq⟩

theorem Inv.irq (h : Inv s) {i : ℕ} {item : Item} (hitem : s.replies[i]? = some item) :
    Inv (irqStep { s with replies := s.replies.eraseIdx i } item) := by
  have herase := h.erase hitem
  obtain ⟨hfresh, hissued, hanswered⟩ := h.traffic.erase hitem
  unfold irqStep
  split_ifs
  · rcases h.waiters_cases with hnone | ⟨command, pc, ticket, waiter, hholder, hticket, hlist,
      hwaiting, heq⟩
    · rw [show (State.waiters { s with replies := s.replies.eraseIdx i }) = [] from hnone]
      simp only [SendWait.deliver, List.append_nil]
      rw [← hnone]
      exact herase
    · rw [show (State.waiters { s with replies := s.replies.eraseIdx i }) = [waiter] from hlist,
        deliver_singleton]
      have hout : item.origin ∈ s.outstanding :=
        (outstanding_erase hitem).symm.subset List.mem_cons_self
      split_ifs with hmatch
      · apply herase.deliver hholder hticket hlist hmatch.1 hmatch.2 hfresh hissued hanswered
          (hwaiting.under item.origin hout)
        intro other hpc horigin
        have hunsent := h.unsent
        rw [hholder, hpc] at hunsent
        exact hunsent (List.mem_append_left _ (horigin ▸ hout))
      · simp only [List.append_nil]
        rw [← hlist]
        exact herase
  · exact herase

/-- The firmware takes a command. -/
theorem Inv.receive (h : Inv s) {i : ℕ} {item item' : Item} (hitem : s.requests[i]? = some item)
    (horigin : item'.origin = item.origin) :
    Inv { s with requests := s.requests.eraseIdx i, queue := s.queue ++ [item'] } := by
  refine h.flow h.holder h.unsent rfl rfl rfl rfl rfl (fun _ hin => hin) ?_ h.traffic.replies
  obtain ⟨hi, hget⟩ := List.getElem?_eq_some_iff.mp hitem
  have hrequests : (item :: s.requests.eraseIdx i).Perm s.requests := by
    rw [← hget]
    exact List.getElem_cons_eraseIdx_perm hi
  have hmoved : (s.requests.eraseIdx i ++ (s.queue ++ [item']) ++ s.replies).Perm
      (item' :: (s.requests.eraseIdx i ++ (s.queue ++ s.replies))) := by
    rw [List.append_assoc, List.append_assoc, List.singleton_append, ← List.append_assoc,
      ← List.append_assoc]
    exact List.perm_middle
  have hback : (item :: (s.requests.eraseIdx i ++ (s.queue ++ s.replies))).Perm
      (s.requests ++ s.queue ++ s.replies) := by
    rw [List.append_assoc, ← List.cons_append]
    exact hrequests.append_right _
  have hsame : (item' :: (s.requests.eraseIdx i ++ (s.queue ++ s.replies))).map Item.origin =
      (item :: (s.requests.eraseIdx i ++ (s.queue ++ s.replies))).map Item.origin := by
    rw [List.map_cons, List.map_cons, horigin]
  apply List.Perm.subperm
  apply (hmoved.map Item.origin).trans
  rw [hsame]
  exact hback.map Item.origin

/-- The firmware answers the first command of its queue, or drops it. -/
theorem Inv.answer (h : Inv s) {item : Item} {queue : List Item} (hqueue : s.queue = item :: queue)
    (reply : Option Command) :
    Inv (match reply with
      | none => { s with queue := queue }
      | some reply =>
          { s with
            queue := queue
            replies := s.replies ++ [⟨item.origin, reply⟩]
            answered := s.answered ++ [⟨item.origin, reply⟩] }) := by
  have hfirst : (item :: (s.requests ++ (queue ++ s.replies))).Perm
      (s.requests ++ s.queue ++ s.replies) := by
    rw [hqueue, List.append_assoc, List.cons_append]
    exact List.perm_middle.symm
  cases reply with
  | none =>
      refine h.flow h.holder h.unsent rfl rfl rfl rfl rfl (fun _ hin => hin) ?_ h.traffic.replies
      have hrest : ((s.requests ++ queue ++ s.replies).map Item.origin).Subperm
          ((item :: (s.requests ++ (queue ++ s.replies))).map Item.origin) := by
        rw [List.append_assoc]
        exact List.Subperm.cons_self
      exact hrest.trans (hfirst.map Item.origin).subperm
  | some reply =>
      refine h.flow h.holder h.unsent rfl rfl rfl rfl rfl
        (fun _ hin => List.mem_append_left _ hin) ?_ ?_
      · apply List.Perm.subperm
        have hmoved : (s.requests ++ queue ++ (s.replies ++ [(⟨item.origin, reply⟩ : Item)])).Perm
            (⟨item.origin, reply⟩ :: (s.requests ++ (queue ++ s.replies))) := by
          rw [← List.append_assoc, ← List.append_assoc]
          exact List.perm_append_singleton _ _
        exact (hmoved.map Item.origin).trans (hfirst.map Item.origin)
      · intro other hother
        rw [List.mem_append] at hother ⊢
        exact hother.imp_left (h.traffic.replies other)

/-- The abort makes no waiter look as if it had a reply. -/
theorem Waiting.abort (h : Waiting s command waiter) (remove : RemovePc) :
    Waiting { s with remove := remove, waiters := abortWaiters s.waiters } command
      { waiter with condition := enodev } where
  last := h.last
  key := h.key
  origin := by
    have horigin := h.origin
    show match waiter.origin with
      | none => enodev ≤ 0 ∧ ∀ delivery ∈ s.deliveries, delivery.1 ≠ waiter.ticket
      | some origin => enodev ≠ 0 ∧ (waiter.ticket, ⟨origin, waiter.cmdq⟩) ∈ s.deliveries ∧
          (origin = waiter.ticket ∨ origin ∈ s.owed)
    cases hcopied : waiter.origin with
    | none =>
        rw [hcopied] at horigin
        exact ⟨by decide, horigin.2⟩
    | some origin =>
        rw [hcopied] at horigin
        exact ⟨by decide, horigin.2⟩
  under := h.under
  owed := h.owed

theorem Inv.abort (h : Inv s) (remove : RemovePc) :
    Inv { s with remove := remove, waiters := abortWaiters s.waiters } := by
  rcases h.waiters_cases with hnone | ⟨command, pc, ticket, waiter, hholder, hticket, hlist,
    hwaiting, heq⟩
  · refine h.goto h.holder h.unsent ?_ rfl rfl rfl rfl rfl rfl rfl
    show abortWaiters s.waiters = s.waiters
    rw [hnone]
    rfl
  · refine ⟨⟨h.traffic.nodup, h.traffic.issued, h.traffic.replies, h.traffic.deliveries,
      h.traffic.once⟩, ?_, h.unsent, ?_⟩
    · refine (congrArg (HolderFacts _) hholder).mpr ?_
      unfold HolderFacts
      simp only [hticket]
      refine ⟨{ waiter with condition := enodev }, ?_, heq, hwaiting.abort remove, ?_⟩
      · rw [hlist]
        rfl
      · unfold Woken
        split
        · show enodev ≠ 0
          decide
        · trivial
    · intro success hsuccess
      exact (h.successes success hsuccess).mono (fun _ hi => hi) (fun _ hd => hd)

theorem Inv.step {l : Label} (h : Inv s) (hstep : SendWait.step l s = some t) : Inv t := by
  cases l with
  | enter command =>
      simp only [SendWait.step] at hstep
      split_ifs at hstep
      cases hstep
      exact h.goto h.holder h.unsent rfl rfl rfl rfl rfl rfl rfl rfl
  | test i fault =>
      simp only [SendWait.step] at hstep
      split at hstep
      · cases hstep
      · split_ifs at hstep <;> cases hstep <;>
          exact h.goto h.holder h.unsent rfl rfl rfl rfl rfl rfl rfl rfl
  | lock i interrupted =>
      simp only [SendWait.step] at hstep
      split at hstep
      · cases hstep
      · split_ifs at hstep with _ hfree <;> cases hstep
        · exact h.goto h.holder h.unsent rfl rfl rfl rfl rfl rfl rfl rfl
        · have hfacts := h.holder
          rw [Option.isNone_iff_eq_none.mp hfree] at hfacts
          exact h.goto hfacts trivial rfl rfl rfl rfl rfl rfl rfl rfl
  | holder answer =>
      simp only [SendWait.step] at hstep
      split at hstep
      · cases hstep
      · rename_i command pc hholder
        exact h.holderStep hholder hstep
  | leave i fault =>
      simp only [SendWait.step] at hstep
      split at hstep <;> cases hstep
      exact h.goto h.holder h.unsent rfl rfl rfl rfl rfl rfl rfl rfl
  | receive i =>
      simp only [SendWait.step] at hstep
      split at hstep <;> cases hstep
      rename_i item hitem
      exact h.receive hitem rfl
  | answer mmio reply =>
      simp only [SendWait.step] at hstep
      split at hstep
      · cases hstep
      · rename_i item queue hqueue
        split_ifs at hstep
        have hanswer := h.answer hqueue reply
        split at hstep <;> cases hstep <;> exact hanswer
  | irq i =>
      simp only [SendWait.step] at hstep
      split_ifs at hstep
      split at hstep <;> cases hstep
      rename_i item hitem
      exact h.irq hitem
  | remove =>
      simp only [SendWait.step, removeStep] at hstep
      split at hstep
      · cases hstep
        exact h.goto h.holder h.unsent rfl rfl rfl rfl rfl rfl rfl rfl
      · cases hstep
        exact h.goto h.holder h.unsent rfl rfl rfl rfl rfl rfl rfl rfl
      · cases hstep
        exact h.goto h.holder h.unsent rfl rfl rfl rfl rfl rfl rfl rfl
      · cases hstep
        exact h.abort .aborted
      · split_ifs at hstep
        cases hstep
        exact h.goto h.holder h.unsent rfl rfl rfl rfl rfl rfl rfl rfl
      · cases hstep
        exact h.goto h.holder h.unsent rfl rfl rfl rfl rfl rfl rfl rfl
      · cases hstep

theorem Inv.initial : Inv State.initial where
  traffic :=
    { nodup := List.nodup_nil
      issued := fun _ h => nomatch h
      replies := fun _ h => nomatch h
      deliveries := fun _ h => nomatch h
      once := List.nodup_nil }
  holder := rfl
  unsent := trivial
  successes := fun _ h => nomatch h

/-- A call that returns 0 returns the reply to its own command, or to a command whose
reply was under way when it queued its waiter. -/
theorem replies_due {s : State} (h : Reachable system s) : Replied s := by
  have hinv : Inv s := by
    apply Reachable.invariant _ _ h
    · intro s hs
      rw [show s = State.initial from hs]
      exact Inv.initial
    · intro s t l hs hstep
      exact hs.step hstep
  exact hinv.replied

/-! ### A reply that comes after its call has timed out -/

/-- A call up to the end of `rtos_cmdqu_send`. -/
def sendPing (value : U32) : List Label :=
  [.enter ((ping value).withMstime 1000#16), .test 0 false, .lock 0 false, .holder .done,
    .holder .done, .holder .done]

/-- The firmware's answer to `sendPing`. -/
def pong (value : U32) : Command :=
  { ping value with
    block := 1#1
    linuxValid := 0#8
    rtosValid := 1#8
    paramPtr := value ^^^ App.pingXor }

/-- The answer to the first call arrives after the second call has queued its waiter. -/
def lateRun : List Label :=
  sendPing 1#32 ++ [.holder .timeout, .holder .done, .holder .done] ++ sendPing 2#32 ++
    [.receive 0, .answer (fun _ => 0#32) (some (pong 1#32)), .irq 0, .holder .done,
      .holder .done]

theorem late_reply : ¬∀ s, Reachable system s → ∀ success ∈ s.successes, Own success := by
  intro hall
  have hrun : (exec step lateRun State.initial).map
      (fun s => s.successes.map fun success => (success.ticket, success.reply, success.origin)) =
        some [(1, pong 1#32, some 0)] := by
    decide
  obtain ⟨s, hexec, hs⟩ := Option.map_eq_some_iff.mp hrun
  obtain ⟨success, hsuccess, heq⟩ := List.mem_map.mp
    (show (1, pong 1#32, some 0) ∈ s.successes.map
        fun success => (success.ticket, success.reply, success.origin) by
      rw [hs]; exact List.mem_singleton_self _)
  rw [Prod.mk.injEq, Prod.mk.injEq] at heq
  have hown := hall s (Reachable.exec (Reachable.start rfl) hexec) success hsuccess
  rw [Own, heq.1, heq.2.2, Option.some.injEq] at hown
  exact absurd hown (by decide)

/-- With one call the reply is its own. -/
theorem replies_due_ping : ∃ s, s.successes.length = 1 ∧ Replied s := by
  have hrun : (exec step (sendPing 1#32 ++ [.receive 0,
      .answer (fun _ => 0#32) (some (pong 1#32)), .irq 0, .holder .done, .holder .done])
        State.initial).map (fun s => s.successes.length) = some 1 := by
    decide
  obtain ⟨s, hexec, hs⟩ := Option.map_eq_some_iff.mp hrun
  exact ⟨s, hs, replies_due (Reachable.exec (Reachable.start rfl) hexec)⟩

end Sg200x.Ipc.LateReply
