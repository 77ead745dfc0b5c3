import Sg200x.Ipc.Doorbell

/-!
# Announcing the responses

Every response that waits in the response ring has been announced by a notification,
or its wakeup is still on the way, provided that no doorbell reply is dropped while it
is needed.  `sg2002_rtos_mailbox_send` gives up when it gets no lock or finds no slot,
and the command task does not try again.
-/

namespace Sg200x.Ipc.Doorbell

open Shm App RingCore Firmware Driver Library Library.Transition

/-- A wakeup is on its way to Linux. -/
def State.WakeupComing (s : State) : Prop :=
  s.ReplyPosted ∨ s.Handling ∨ s.DoorbellPosted ∨ s.DoorbellQueued

structure Announced (s : State) : Prop where
  response : ∀ i, s.channel.taken.length ≤ i → i < s.channel.answered.length →
    i < s.announced ∨ s.WakeupComing
  waiter : s.waiter = .asleep → s.channel.taken.length < s.channel.answered.length →
    s.WakeupComing

/-- The responses that are in the ring and have not been announced. -/
def State.Unannounced (s : State) : Prop :=
  max s.channel.taken.length s.announced < s.channel.answered.length

/-- A doorbell reply that cannot be sent finds another one in the mailbox, or no response
is waiting for it. -/
def Redundant : Label → State → Prop
  | .reply locked, s =>
      ∀ command, s.task = .replying command → command.isDoorbell →
        (locked = false ∨ freeSlot s.mailbox = none) → s.ReplyPosted ∨ ¬ s.Unannounced
  | _, _ => True

/-! ## The invariant -/

/-- What the waiter has seen since it went on the wait queue, unless it has been woken. -/
def WaiterFacts (s : State) : Waiter → Prop
  | .away => True
  | .asleep => s.woken = false ∧ s.announced ≤ s.channel.taken.length
  | .polling pc =>
      match pc with
      | .shuttingDown | .owner | .pollWait => True
      | .ready _ | .responseProducer | .requestProducer true | .requestConsumer true _ =>
          s.registered = true
      | .responseConsumer producer =>
          s.registered = true ∧ (s.woken = false → ∃ seen,
            producer = WrapRing.position 0#32 seen ∧ s.announced ≤ seen ∧
              seen ≤ s.channel.answered.length)
      | .requestProducer false | .requestConsumer false _ =>
          s.registered = true ∧ (s.woken = false → s.announced ≤ s.channel.taken.length)

structure Heralded (s : State) : Prop where
  covered : s.Unannounced → s.ReplyPosted ∨ s.Handling
  announced_le : s.announced ≤ s.channel.answered.length
  processing : ∀ command, s.task = .processing command → command.isDoorbell
  /-- The reply to a doorbell has its block flag cleared. -/
  reply : ∀ command, s.task = .replying command → command.isDoorbell → command.block = false
  waiter : WaiterFacts s s.waiter

theorem heralded_of_start {s : State} (h : Start s) : Heralded s where
  covered := by simp [State.Unannounced, h.channel.answered]
  announced_le := by simp [h.announced]
  processing := by simp [h.task]
  reply := by simp [h.task]
  waiter := by simp [h.waiter, WaiterFacts]

/-- The waiter's facts survive whatever neither announces nor wakes. -/
theorem WaiterFacts.frame {s t : State} {waiter : Waiter} (h : WaiterFacts s waiter)
    (hregistered : t.registered = s.registered) (hwoken : t.woken = s.woken)
    (hannounced : t.announced = s.announced)
    (htaken : s.channel.taken.length ≤ t.channel.taken.length)
    (hanswered : s.channel.answered.length ≤ t.channel.answered.length) :
    WaiterFacts t waiter := by
  unfold WaiterFacts at h ⊢
  rw [hregistered, hwoken, hannounced]
  split at h
  · trivial
  · exact ⟨h.1, h.2.trans htaken⟩
  · split at h
    · trivial
    · trivial
    · trivial
    · exact h
    · exact h
    · exact h
    · exact h
    · refine ⟨h.1, fun hw => ?_⟩
      obtain ⟨seen, heq, hlow, hhigh⟩ := h.2 hw
      exact ⟨seen, heq, hlow, hhigh.trans hanswered⟩
    · exact ⟨h.1, fun hw => (h.2 hw).trans htaken⟩
    · exact ⟨h.1, fun hw => (h.2 hw).trans htaken⟩

theorem taken_le {s t : Channel.State} {l : Channel.Label} (hstep : Channel.step l s = some t) :
    s.taken.length ≤ t.taken.length := by
  cases l with
  | txCall call | rxCall call | process =>
      simp only [Channel.step] at hstep
      split at hstep <;> cases hstep
      exact Nat.le_refl _
  | tx answer | firmware mmio =>
      simp only [Channel.step, Channel.txStep, Channel.firmwareStep] at hstep
      split at hstep <;> cases hstep
      exact Nat.le_refl _
  | rx answer =>
      simp only [Channel.step, Channel.rxStep] at hstep
      split at hstep <;> cases hstep
      simp

/-- A step that publishes no response and announces none. -/
theorem Heralded.frame {s t : State} (h : Heralded s)
    (htaken : s.channel.taken.length ≤ t.channel.taken.length)
    (hanswered : t.channel.answered = s.channel.answered)
    (hannounced : t.announced = s.announced)
    (hcovered : s.ReplyPosted ∨ s.Handling → t.ReplyPosted ∨ t.Handling)
    (hprocessing : ∀ command, t.task = .processing command → command.isDoorbell)
    (hreply : ∀ command, t.task = .replying command → command.isDoorbell →
      command.block = false)
    (hwaiter : WaiterFacts t t.waiter) : Heralded t where
  covered := by
    intro hun
    apply hcovered
    apply h.covered
    unfold State.Unannounced at hun ⊢
    rw [hanswered, hannounced] at hun
    omega
  announced_le := by rw [hanswered, hannounced]; exact h.announced_le
  processing := hprocessing
  reply := hreply
  waiter := hwaiter

/-- A step of the machinery that leaves the channel, the task and the waiter alone. -/
theorem Heralded.quiet {s t : State} (h : Heralded s)
    (htaken : s.channel.taken.length ≤ t.channel.taken.length)
    (hanswered : t.channel.answered = s.channel.answered) (htask : t.task = s.task)
    (hwaiter : t.waiter = s.waiter ∧ t.registered = s.registered ∧ t.woken = s.woken ∧
      t.announced = s.announced)
    (hposted : s.ReplyPosted → t.ReplyPosted) : Heralded t := by
  obtain ⟨hw, hregistered, hwoken, hannounced⟩ := hwaiter
  refine h.frame htaken hanswered hannounced ?_ (htask ▸ h.processing) (htask ▸ h.reply) ?_
  · unfold State.Handling
    rw [htask]
    exact Or.imp_left hposted
  · rw [hw]
    exact h.waiter.frame hregistered hwoken hannounced htaken (by rw [hanswered])

theorem Heralded.firmwareStep {s t : State} (h : Heralded s) {mmio : Mmio} (hstep : firmwareStep s mmio = some t) : Heralded t := by
  unfold Doorbell.firmwareStep at hstep
  split at hstep
  · rename_i command htask
    obtain ⟨channel, hchannel, rfl⟩ := Option.map_eq_some_iff.mp hstep
    have htaken := taken_le hchannel
    have hanswered := (Poll.step_logs hchannel).1
    have hdoorbell := h.processing command htask
    have hreply : ({ command with
        param := channel.statics.activeGeneration, block := false } : Command).isDoorbell :=
      hdoorbell
    refine ⟨fun _ => .inr ?_, h.announced_le.trans hanswered, ?_, ?_,
      h.waiter.frame rfl rfl rfl htaken hanswered⟩
    · unfold State.Handling
      dsimp only
      split_ifs
      · exact .inl ⟨command, htask⟩
      · exact .inr ⟨_, rfl, hreply⟩
    · dsimp only
      split_ifs
      · exact h.processing
      · intro _ heq
        cases heq
    · dsimp only
      split_ifs
      · rw [htask]
        intro _ heq
        cases heq
      · intro _ heq _
        cases heq
        rfl
  · cases hstep

theorem Heralded.replyStep {s t : State} (h : Heralded s) {locked : Bool}
    (hallowed : Redundant (.reply locked) s) (hstep : replyStep s locked = some t) :
    Heralded t := by
  unfold Doorbell.replyStep at hstep
  split at hstep
  · rename_i command htask
    have hidle : ∀ command', Task.idle ≠ .processing command' ∧ Task.idle ≠ .replying command' :=
      fun _ => ⟨(by rintro ⟨⟩), by rintro ⟨⟩⟩
    split at hstep
    · rename_i slot hslot
      have hfree : s.mailbox slot = .free := by
        split_ifs at hslot
        exact freeSlot_eq_some hslot
      cases hstep
      refine h.frame (Nat.le_refl _) rfl rfl ?_ (fun _ heq => absurd heq (hidle _).1)
        (fun _ heq => absurd heq (hidle _).2) (h.waiter.frame rfl rfl rfl (Nat.le_refl _) (Nat.le_refl _))
      rintro (hposted | ⟨_, hprocessing⟩ | ⟨command', hreplying, hdoorbell⟩)
      · exact .inl (hposted.update (by simp [hfree]) rfl)
      · rw [htask] at hprocessing
        cases hprocessing
      · rw [htask] at hreplying
        cases hreplying
        exact .inl ⟨slot, command, Function.update_self .., hdoorbell, h.reply _ htask hdoorbell⟩
    · rename_i hslot
      cases hstep
      have hfailed : locked = false ∨ freeSlot s.mailbox = none := by
        cases locked
        · exact .inl rfl
        · exact .inr hslot
      refine ⟨?_, h.announced_le, fun _ heq => absurd heq (hidle _).1,
        fun _ heq => absurd heq (hidle _).2, h.waiter.frame rfl rfl rfl (Nat.le_refl _) (Nat.le_refl _)⟩
      intro hun
      rcases h.covered hun with hposted | ⟨_, hprocessing⟩ | ⟨command', hreplying, hdoorbell⟩
      · exact .inl hposted
      · rw [htask] at hprocessing
        cases hprocessing
      · rcases hallowed command' hreplying hdoorbell hfailed with hposted | hnone
        · exact .inl hposted
        · exact absurd hun hnone
  · cases hstep

/-- A notification announces every response that has been published. -/
theorem heralded_notify {s : State} (hrunning : s.channel.transport.shuttingDown = false)
    (hprocessing : ∀ command, s.task = .processing command → command.isDoorbell)
    (hreply : ∀ command, s.task = .replying command → command.isDoorbell →
      command.block = false)
    (hwaiter : WaiterFacts s s.waiter) : Heralded (notify s) := by
  unfold notify
  simp only [hrunning]
  refine ⟨fun hun => ?_, Nat.le_refl _, hprocessing, hreply, ?_⟩
  · have hlt : max s.channel.taken.length s.channel.answered.length < s.channel.answered.length :=
      hun
    omega
  · have hw := hwaiter
    unfold WaiterFacts at hw ⊢
    cases hstate : s.waiter with
    | away | asleep => trivial
    | polling pc =>
        rw [hstate] at hw
        dsimp only at hw ⊢
        cases pc with
        | shuttingDown | owner | pollWait => trivial
        | ready | responseProducer => exact hw
        | responseConsumer producer =>
            exact ⟨hw.1, fun hwoken => by cases hw.1.symm.trans hwoken⟩
        | requestProducer readable | requestConsumer readable producer =>
            cases readable
            · exact ⟨hw.1, fun hwoken => by cases hw.1.symm.trans hwoken⟩
            · exact hw

theorem Heralded.irq {g : U32} {s t : State} (h : Heralded s) (hbase : Base g s)
    {slot : Fin mailboxMax} (hstep : irq s slot = some t) : Heralded t := by
  unfold Doorbell.irq at hstep
  split at hstep
  · rename_i command hslot
    dsimp only at hstep
    have hwaiter : WaiterFacts { s with mailbox := Function.update s.mailbox slot .free }
        s.waiter := h.waiter.frame rfl rfl rfl (Nat.le_refl _) (Nat.le_refl _)
    split_ifs at hstep with hreply
    · cases hstep
      -- the reply may leave the mailbox, because its notification runs now
      exact heralded_notify hbase.channel.established.running h.processing h.reply hwaiter
    · cases hstep
      refine h.frame (Nat.le_refl _) rfl rfl ?_ h.processing h.reply hwaiter
      refine Or.imp_left ?_
      rintro ⟨i, command', hi, hcommand⟩
      refine ⟨i, command', ?_, hcommand⟩
      dsimp only
      rw [Function.update_of_ne, hi]
      rintro rfl
      rw [hslot] at hi
      cases hi
      exact hreply hcommand
  · cases hstep

/-- A response the waiter has not seen has been published after the value it has read. -/
theorem WaiterFacts.empty {g : U32} {s : State} (hbase : Base g s) {producer : U32} {seen : ℕ}
    (hproducer : producer = WrapRing.position 0#32 seen) (hseen : seen ≤ s.channel.answered.length)
    (hzero : (producer - s.channel.region.response.consumer).toNat = 0) :
    seen ≤ s.channel.taken.length := by
  have hring := hbase.channel.response
  have hbound := hring.bounded
  by_contra hlt
  have heq : producer = s.channel.region.response.consumer :=
    sub_eq_zero.mp (BitVec.eq_of_toNat_eq hzero)
  rw [hproducer, hring.consumer_eq] at heq
  have hsame := WrapRing.position_injective 0#32 (Nat.le_of_not_le hlt)
    (by simp only [slotCount] at hbound; omega) heq.symm
  omega

theorem Heralded.waiterStep {g : U32} {s t : State} (h : Heralded s) (hbase : Base g s)
    (hstep : waiterStep s = some t) : Heralded t := by
  have hest := hbase.channel.established
  unfold Doorbell.waiterStep at hstep
  split at hstep
  · rename_i pc hwaiter
    have hfacts := h.waiter
    rw [hwaiter] at hfacts
    have hsame : ∀ {waiter : Waiter} {registered woken : Bool},
        WaiterFacts { s with waiter, registered, woken } waiter →
        Heralded { s with waiter, registered, woken } :=
      fun hw => h.frame (Nat.le_refl _) rfl rfl id h.processing h.reply hw
    rcases hout : Driver.pollStep Poll.owner s.channel.transport s.channel.region pc with pc' | mask
    · simp only [hout] at hstep
      cases hstep
      apply hsame
      cases pc with
      | shuttingDown | owner =>
          simp only [Driver.pollStep] at hout
          split_ifs at hout
          cases hout
          trivial
      | pollWait => cases hout; rfl
      | ready pc =>
          simp only [Driver.pollStep] at hout
          split at hout <;> cases hout <;> exact hfacts
      | responseProducer =>
          cases hout
          refine ⟨hfacts, fun _ => ⟨_, hbase.channel.response.producer_eq, h.announced_le, Nat.le_refl _⟩⟩
      | responseConsumer producer =>
          simp only [Driver.pollStep] at hout
          split at hout
          · cases hout
          · rename_i occupancy hocc
            unfold readOccupancy at hocc
            split_ifs at hocc
            cases hocc
            cases hout
            by_cases hread : 0 < (producer - s.channel.region.response.consumer).toNat
            · rw [decide_eq_true hread]
              exact hfacts.1
            · rw [decide_eq_false hread]
              refine ⟨hfacts.1, fun hwoken => ?_⟩
              obtain ⟨seen, hproducer, hlow, hhigh⟩ := hfacts.2 hwoken
              exact hlow.trans (WaiterFacts.empty hbase hproducer hhigh (by omega))
      | requestProducer readable =>
          cases hout
          cases readable <;> exact hfacts
      | requestConsumer readable producer =>
          simp only [Driver.pollStep] at hout
          split at hout <;> cases hout
    · simp only [hout] at hstep
      split_ifs at hstep with hmask hwoken
      · cases hstep
        exact hsame trivial
      · cases hstep
        exact hsame trivial
      · cases hstep
        apply hsame
        cases pc with
        | requestConsumer readable producer =>
            simp only [Driver.pollStep] at hout
            split at hout <;> cases hout
            · exact absurd (.inr (.inl rfl)) hmask
            · cases readable
              · exact ⟨by simpa using hwoken, hfacts.2 (by simpa using hwoken)⟩
              · exact absurd (.inl rfl) hmask
        | shuttingDown | owner =>
            simp only [Driver.pollStep] at hout
            split_ifs at hout
            cases hout
            exact absurd (.inr (.inl rfl)) hmask
        | ready pc =>
            simp only [Driver.pollStep] at hout
            split at hout <;> cases hout
            exact absurd (.inr (.inl rfl)) hmask
        | responseConsumer producer =>
            simp only [Driver.pollStep] at hout
            split at hout <;> cases hout
            exact absurd (.inr (.inl rfl)) hmask
        | pollWait | responseProducer | requestProducer => cases hout
  · cases hstep

theorem Heralded.step {g : U32} {s t : State} {l : Label} (h : Heralded s) (hbase : Base g s)
    (hallowed : Redundant l s) (hstep : step l s = some t) : Heralded t := by
  cases l with
  | linux label =>
      obtain ⟨channel, hchannel, rfl, hprocess, hfirmware, -⟩ := linuxStep_channel hstep
      have hanswered := (linux_firmware hchannel hprocess hfirmware).2.2.2
      exact h.quiet (taken_le hchannel) hanswered rfl ⟨rfl, rfl, rfl, rfl⟩ id
  | kick side slot =>
      obtain ⟨-, channel, answer, hchannel, ht⟩ := kickStep_channel hstep
      have hanswered := (linux_firmware hchannel (by cases side <;> simp [Side.label])
        (by cases side <;> simp [Side.label])).2.2.2
      rcases ht with ⟨-, rfl⟩ | ⟨i, -, hfree, rfl⟩
      · exact h.quiet (taken_le hchannel) hanswered rfl ⟨rfl, rfl, rfl, rfl⟩ id
      · exact h.quiet (taken_le hchannel) hanswered rfl ⟨rfl, rfl, rfl, rfl⟩
          fun hposted => hposted.update (by simp [hfree]) rfl
  | workStart =>
      simp only [Doorbell.step] at hstep
      split at hstep
      · split_ifs at hstep
        cases hstep
        exact h.quiet (Nat.le_refl _) rfl rfl ⟨rfl, rfl, rfl, rfl⟩ id
      · cases hstep
  | work slot =>
      obtain ⟨htask, -, hwaiter, hregistered, hwoken, -, hannounced, hmailbox, transport, hchannel,
        -⟩ := workStep_frame hstep
      refine h.quiet (by rw [hchannel]) (by rw [hchannel]) htask
        ⟨hwaiter, hregistered, hwoken, hannounced⟩ ?_
      rcases hmailbox with hmailbox | ⟨i, hfree, hmailbox⟩
      · unfold State.ReplyPosted
        rw [hmailbox]
        exact id
      · exact fun hposted => hposted.update (by simp [hfree]) hmailbox
  | legacySend slot command =>
      obtain ⟨mailbox, hpost, rfl⟩ := Option.map_eq_some_iff.mp hstep
      obtain ⟨hfree, rfl⟩ := post_eq_some hpost
      exact h.quiet (Nat.le_refl _) rfl rfl ⟨rfl, rfl, rfl, rfl⟩
        fun hposted => hposted.update (by simp [hfree]) rfl
  | forward slot =>
      simp only [Doorbell.step, forward] at hstep
      split at hstep
      · rename_i command hslot
        have hkeep : s.ReplyPosted →
            ({ s with mailbox := Function.update s.mailbox slot .free } : State).ReplyPosted :=
          fun hposted => hposted.update (by simp [hslot]) rfl
        split_ifs at hstep <;> cases hstep <;>
          exact h.quiet (Nat.le_refl _) rfl rfl ⟨rfl, rfl, rfl, rfl⟩ hkeep
      · cases hstep
  | dequeue reply =>
      simp only [Doorbell.step, dequeue] at hstep
      split at hstep
      · rename_i command queue htask hqueue
        have hidle : ¬ s.Handling := by simp [State.Handling, htask]
        split_ifs at hstep with hdoorbell
        · obtain ⟨channel, hchannel, rfl⟩ := Option.map_eq_some_iff.mp hstep
          have hw := h.waiter.frame (t := { s with channel }) rfl rfl rfl (taken_le hchannel)
            (Poll.step_logs hchannel).1
          simp only [Channel.step] at hchannel
          split at hchannel <;> cases hchannel
          refine h.frame (Nat.le_refl _) rfl rfl (fun _ => .inr (.inl ⟨command, rfl⟩)) ?_ ?_ hw
          · rintro _ ⟨⟩
            exact hdoorbell
          · rintro _ ⟨⟩
        · cases reply with
          | none =>
              cases hstep
              exact h.quiet (Nat.le_refl _) rfl rfl ⟨rfl, rfl, rfl, rfl⟩ id
          | some reply =>
              dsimp only at hstep
              split_ifs at hstep with hreply
              cases hstep
              refine h.frame (Nat.le_refl _) rfl rfl (fun hcovered => .inl (hcovered.resolve_right hidle))
                ?_ ?_ h.waiter
              · rintro _ ⟨⟩
              · rintro _ ⟨⟩ hd
                exact absurd hd hreply
      · cases hstep
  | firmware mmio => exact h.firmwareStep hstep
  | reply locked => exact h.replyStep hallowed hstep
  | irq slot => exact h.irq hbase hstep
  | pollCall =>
      simp only [Doorbell.step] at hstep
      split at hstep <;> cases hstep
      exact h.frame (Nat.le_refl _) rfl rfl id h.processing h.reply trivial
  | poll => exact h.waiterStep hbase hstep

theorem reachable_heralded {s : State} (h : ReachableBy system Redundant s) :
    ∃ g, Base g s ∧ Heralded s :=
  h.invariant (I := fun s => ∃ g, Base g s ∧ Heralded s)
    (fun _ hs => ⟨_, base_of_start hs, heralded_of_start hs⟩)
    fun _ _ _ ⟨g, hbase, hs⟩ hallowed hstep =>
      ⟨g, hbase.step hstep, hs.step hbase hallowed hstep⟩

/-- While only redundant replies are dropped, no response is left unannounced. -/
theorem no_unannounced_response {s : State} (h : ReachableBy system Redundant s) :
    Announced s := by
  obtain ⟨g, -, hs⟩ := reachable_heralded h
  have hcoming : s.Unannounced → s.WakeupComing := by
    intro hun
    rcases hs.covered hun with hposted | hhandling
    · exact .inl hposted
    · exact .inr (.inl hhandling)
  refine ⟨fun i hlow hhigh => ?_, fun hasleep hlt => ?_⟩
  · by_cases hannounced : i < s.announced
    · exact .inl hannounced
    · refine .inr (hcoming ?_)
      unfold State.Unannounced
      omega
  · have hw := hs.waiter
    rw [hasleep] at hw
    refine hcoming ?_
    unfold State.Unannounced
    have := hw.2
    omega

/-- The response has been published and its reply is about to be posted. -/
theorem no_unannounced_response_pending :
    ∃ s, exec step (sendRequest ++ handleRequest) State.initial = some s ∧
      s.channel.answered.length = 1 ∧ Announced s := by
  have hrun : (exec step (sendRequest ++ handleRequest) State.initial).map
      (fun s => s.channel.answered.length) = some 1 := by decide +kernel
  obtain ⟨s, hs, hanswered⟩ := Option.map_eq_some_iff.mp hrun
  have hallowed : ∀ l ∈ sendRequest ++ handleRequest, ∀ s, Redundant l s := by
    simp [sendRequest, handleRequest, Redundant]
  have hreach : ReachableBy system Redundant s :=
    ReachableBy.exec (.start start_initial) hallowed hs
  exact ⟨s, hs, hanswered, no_unannounced_response hreach⟩

/-! ## The dropped reply -/

/-- Legacy commands have filled the mailbox when the reply is to be posted. -/
def droppedReply : List Label :=
  sendRequest ++ handleRequest ++
    (List.finRange mailboxMax).map (.legacySend · legacyCommand) ++ [.reply true]

theorem reply_dropped :
    (exec step droppedReply State.initial).map (fun s =>
      ((s.channel.taken.length, s.channel.answered.length, s.announced),
        s.task.isIdle, s.queue, (List.finRange mailboxMax).map s.mailbox)) =
      some ((0, 1, 0), true, [], List.replicate mailboxMax (.linux legacyCommand)) := by
  decide +kernel

theorem response_left_unannounced : ¬ ∀ s, Reachable system s → Announced s := by
  intro h
  obtain ⟨s, hs, hstate⟩ := Option.map_eq_some_iff.mp reply_dropped
  simp only [Prod.mk.injEq] at hstate
  obtain ⟨⟨htaken, hanswered, hannounced⟩, htask, hqueue, hmailbox⟩ := hstate
  have hreach : Reachable system s := (Reachable.start start_initial).exec hs
  have hslots : ∀ i, s.mailbox i = .linux legacyCommand := by
    intro i
    exact (List.map_eq_replicate_iff.mp hmailbox) i (List.mem_finRange i)
  have hlegacy : ¬ legacyCommand.isDoorbell := by decide
  rcases (h s hreach).response 0 (by omega) (by omega) with hlt | hcoming
  · omega
  · rcases hcoming with ⟨i, command, hi, -⟩ | hhandling | ⟨i, command, hi, hd⟩ | ⟨command, hc, -⟩
    · rw [hslots i] at hi
      cases hi
    · rcases hhandling with ⟨command, hc⟩ | ⟨command, hc, -⟩ <;> rw [hc] at htask <;> cases htask
    · rw [hslots i] at hi
      cases hi
      exact hlegacy hd
    · rw [hqueue] at hc
      cases hc

end Sg200x.Ipc.Doorbell
