import Sg200x.Ipc.Doorbell

/-!
# Requests are not stranded

As long as a request waits and its response would find room, something is on its way
that makes the firmware look at the request ring again, provided that no doorbell is
dropped while it is needed.  `prvMailboxISR` drops the commands that find the queue of
the command task full, and a legacy user can fill it.
-/

namespace Sg200x.Ipc.Doorbell

open Shm App RingCore Firmware Driver Library Library.Transition

/-- A Linux call has yet to finish `request_kick`. -/
def KickingCall (s : Channel.State) : Prop :=
  (∃ call pc, s.tx = some (call, .kick pc)) ∨ ∃ call ret pc, s.rx = some (call, .kick ret pc)

/-- A Linux call has yet to look for pending requests. -/
def PeekingCall (s : Channel.State) : Prop :=
  (∃ call ret, s.rx = some (call, .peekProducer ret)) ∨
    ∃ call ret producer, s.rx = some (call, .peekConsumer ret producer)

/-- Something will ring the firmware's doorbell, or `kick_work` has given up. -/
def State.Attended (s : State) : Prop :=
  s.DoorbellPosted ∨ s.DoorbellQueued ∨ s.Handling ∨
    (s.channel.transport.kickScheduled = true ∨ s.work.isSome) ∨
    (KickingCall s.channel ∨ PeekingCall s.channel) ∨
    maxAttempts ≤ s.channel.transport.kickAttempts

def NotStranded (s : State) : Prop :=
  s.channel.region.request.producer ≠ s.channel.region.request.consumer →
    (s.channel.region.response.producer - s.channel.region.response.consumer).toNat < slotCount →
    s.Attended

/-- A doorbell that finds the queue full finds another doorbell in the queue or in the
mailbox, or no request is waiting for it. -/
def Spared : Label → State → Prop
  | .forward slot, s =>
      ∀ command, s.mailbox slot = .linux command → command.isDoorbell →
        s.queue.length < queLength ∨ s.DoorbellQueued ∨
          (∃ i command, i ≠ slot ∧ s.mailbox i = .linux command ∧ command.isDoorbell) ∨
          s.channel.region.request.producer = s.channel.region.request.consumer
  | _, _ => True

/-! ## What keeps the doorbell coming -/

/-- The step of `kick_work` still leads to a kick, to another attempt or to giving up. -/
def WorkPc.Armed : WorkPc → Prop
  | .check | .kick | .increment => True
  | .reset => False
  | .retry attempt => attempt < maxAttempts

/-- A doorbell is on its way.  The attempts are not counted while `kick_work` is about to
reset them after a kick that has succeeded. -/
def State.Armed (s : State) : Prop :=
  s.DoorbellPosted ∨ s.DoorbellQueued ∨ s.channel.transport.kickScheduled = true ∨
    (∃ pc, s.work = some pc ∧ pc.Armed) ∨ KickingCall s.channel ∨
    (maxAttempts ≤ s.channel.transport.kickAttempts ∧ ∀ pc, s.work = some pc → pc ≠ .reset)

/-- A call that returns responses will see a request that has been published and not
popped. -/
def RxWillKick (s : Channel.State) : Prop :=
  (∃ call ret, s.rx = some (call, .peekProducer ret)) ∨
    ∃ call ret seen, s.rx = some (call, .peekConsumer ret (WrapRing.position 0#32 seen)) ∧
      s.popped < seen ∧ seen ≤ s.published.length

def Pending (s : Channel.State) : Prop := s.popped < s.published.length

def ResponseFull (s : Channel.State) : Prop :=
  s.answered.length = s.taken.length + slotCount

/-- How far the process call has come: `begun` requests were published when it began, and
it stops before it has popped them only when the response ring is full. -/
def Scan (begun popped published : ℕ) : ProcessPc → Prop
  | .readGeneration | .layoutIsValid _ _ | .linuxState _ | .linuxGeneration _ =>
      begun ≤ popped + slotCount
  | .attachGeneration _ | .attachState _ | .corruptGeneration | .corruptState => False
  | .canPush count _ => begun + count ≤ popped + slotCount
  | .tryPop count pc =>
      begun + count ≤ popped + slotCount ∧
        match pc with
        | .readConsumer producer =>
            ∃ seen, producer = WrapRing.position 0#32 seen ∧ begun ≤ seen ∧ popped ≤ seen ∧
              seen ≤ published
        | _ => True
  | .handle count | .tryPush count _ => begun + count + 1 ≤ popped + slotCount

structure Covered (s : State) : Prop where
  quiet : s.channel.firmware = none → Pending s.channel → ¬ ResponseFull s.channel →
    s.Armed ∨ RxWillKick s.channel
  running : ∀ pc, s.channel.firmware = some pc →
    s.begun ≤ s.channel.published.length ∧
      (max s.begun s.channel.popped < s.channel.published.length → s.Armed) ∧
      Scan s.begun s.channel.popped s.channel.published.length pc

theorem covered_of_start {s : State} (h : Start s) : Covered s where
  quiet := by
    intro _ hpending
    simp [Pending, h.channel.published] at hpending
  running := by simp [h.channel.firmware]

/-! ## A step of the process call -/

theorem Scan.publish {begun popped published published' : ℕ} {pc : ProcessPc}
    (h : Scan begun popped published pc) (hle : published ≤ published') :
    Scan begun popped published' pc := by
  cases pc with
  | tryPop count pc =>
      refine ⟨h.1, ?_⟩
      have := h.2
      cases pc with
      | readConsumer producer =>
          obtain ⟨seen, heq, hbegun, hlow, hhigh⟩ := this
          exact ⟨seen, heq, hbegun, hlow, hhigh.trans hle⟩
      | _ => trivial
  | _ => exact h

theorem scan_loop {begun popped published count : ℕ} {p : Prop}
    (h : begun + count ≤ popped + slotCount) :
    (loop count).Meets (Scan begun popped published) fun _ => begun ≤ popped ∨ p := by
  unfold loop
  split_ifs with hcount
  · exact h
  · have hpopped : begun ≤ popped := by omega
    exact .inl hpopped

/-- A process call that ends has popped what was there when it began, unless it has found
the response ring full. -/
theorem processStep_scan {g : U32} {s : Channel.State} (h : Channel.Inv g s) {begun : ℕ}
    (hbegun : begun ≤ s.published.length) (mmio : Mmio) {pc : ProcessPc}
    (hfw : s.firmware = some pc) (hscan : Scan begun s.popped s.published.length pc) :
    (processStep mmio s.region s.statics pc).1.Meets
      (Scan begun (s.popped + pc.pops) s.published.length)
      fun _ => begun ≤ s.popped ∨ ResponseFull s := by
  have hfacts := h.firmware pc hfw
  have hattached := h.attached
  have hfits : ∀ m ∈ s.published, m.Fits := fun m hm => (h.sound m hm).1
  cases pc with
  | readGeneration =>
      have hgeneration : s.region.layout.generation = g := by
        simpa [LayoutRead.passes] using hattached.layout .generation
      simp only [processStep, hgeneration, if_neg hattached.nonzero]
      exact hscan
  | layoutIsValid generation reads =>
      obtain rfl : generation = g := hfacts
      cases reads with
      | nil => exact hscan
      | cons read reads =>
          simp only [processStep, hattached.layout, if_true]
          exact hscan
  | linuxState generation =>
      simp only [processStep, hattached.linuxPeer, if_true]
      exact hscan
  | linuxGeneration generation =>
      obtain rfl : generation = g := hfacts
      simp only [processStep, attach, hattached.linuxPeer, hattached.active, if_true]
      exact scan_loop hscan
  | attachGeneration | attachState | corruptGeneration | corruptState => exact hfacts.elim
  | canPush count pc =>
      have hspec := canPushStep_spec h.response hfacts
      rcases hout : canPushStep s.region.response pc with pc' | value
      · simp only [processStep, hout]
        exact hscan
      · rw [hout] at hspec
        simp only [processStep, hout]
        rcases hspec with ⟨rfl, -⟩ | ⟨rfl, hfull⟩
        · exact ⟨hscan, trivial⟩
        · exact .inr hfull
  | tryPop count pc =>
      obtain ⟨hcount, hseen⟩ := hscan
      cases pc with
      | readProducer =>
          have hle := h.request.taken_le
          exact ⟨hcount, s.published.length, h.request.producer_eq, hbegun, hle, Nat.le_refl _⟩
      | readConsumer producer =>
          obtain ⟨seen, rfl, hbegun, hlow, hhigh⟩ := hseen
          have hbound := h.request.bounded
          have hocc := h.request.stale_occupancy hlow hhigh
          simp only [processStep, tryPopStep]
          rw [readOccupancy_of_le (by omega)]
          dsimp only
          rw [hocc]
          split_ifs with hempty
          · have hpopped : begun ≤ s.popped := by omega
            exact .inl hpopped
          · exact ⟨hcount, trivial⟩
      | copySlot consumer => exact ⟨hcount, trivial⟩
      | publish consumer =>
          obtain ⟨-, -, hget⟩ := hfacts
          obtain ⟨hlt, hmessage⟩ := List.getElem?_eq_some_iff.mp hget
          have hfit : s.statics.requestMessage.Fits := hmessage ▸ hfits _ (List.getElem_mem hlt)
          simp only [processStep, tryPopStep, if_pos hfit]
          change begun + count + 1 ≤ s.popped + 1 + slotCount
          omega
  | handle count =>
      simp only [processStep, tryPush, if_pos (respond_fits mmio s.statics.requestMessage)]
      exact hscan
  | tryPush count pc =>
      obtain ⟨hroom, hpush⟩ := hfacts
      have hspec := tryPushStep_spec h.response hpush
      rcases hout : tryPushStep s.statics.responseMessage s.region.response pc with ⟨out', ring⟩
      rw [hout] at hspec
      simp only [processStep, hout]
      cases out' with
      | running pc' => exact hscan
      | returned result =>
          cases result with
          | ok => exact scan_loop hscan
          | full => exact absurd hspec.2 (by omega)
          | empty => exact hspec.elim
          | corrupt => exact hspec.elim
          | invalid => exact hspec.elim

/-! ## A step of a Linux call -/

theorem kickStep_busy (answer : Answer) {transport : Transport} (pc : KickPc)
    (hrunning : transport.shuttingDown = false) (hbusy : pc = .kickNow → answer = .busy) :
    (Driver.kickStep answer transport pc).1 = .returned () →
      (Driver.kickStep answer transport pc).2.kickScheduled = true := by
  cases pc with
  | shuttingDown => simp [Driver.kickStep, hrunning]
  | resetAttempts => simp [Driver.kickStep]
  | kickNow => simp [Driver.kickStep, hbusy rfl]
  | schedule => simp [Driver.kickStep]

/-- The attempts are reset just before a kick. -/
theorem kickStep_attempts (answer : Answer) (transport : Transport) (pc : KickPc) :
    (transport.kickScheduled = true →
        (Driver.kickStep answer transport pc).2.kickScheduled = true) ∧
      ((Driver.kickStep answer transport pc).2.kickAttempts = transport.kickAttempts ∨
        ∃ pc', (Driver.kickStep answer transport pc).1 = .running pc') := by
  cases pc with
  | shuttingDown | kickNow => exact ⟨id, .inl rfl⟩
  | resetAttempts => exact ⟨id, .inr ⟨_, rfl⟩⟩
  | schedule => exact ⟨fun _ => rfl, .inl rfl⟩

/-- What a step of a Linux call other than a kick that succeeds leaves of the kicks. -/
structure KeepsKicks (s t : Channel.State) : Prop where
  kicking : KickingCall s → KickingCall t ∨ t.transport.kickScheduled = true
  scheduled : s.transport.kickScheduled = true → t.transport.kickScheduled = true
  attempts : t.transport.kickAttempts = s.transport.kickAttempts ∨ KickingCall t
  published : s.published.length ≤ t.published.length ∧
    (t.published.length ≠ s.published.length → KickingCall t)
  full : ResponseFull s → ResponseFull t ∨ RxWillKick t
  willKick : Pending s → RxWillKick s → RxWillKick t ∨ KickingCall t

/-- A call on the request ring leaves the other call alone. -/
theorem RxWillKick.publish {s t : Channel.State} (h : RxWillKick s) (hrx : t.rx = s.rx)
    (hpopped : t.popped = s.popped) (hpublished : s.published.length ≤ t.published.length) :
    RxWillKick t := by
  unfold RxWillKick
  rw [hrx, hpopped]
  rcases h with hpeek | ⟨call, ret, seen, hpc, hlow, hhigh⟩
  · exact .inl hpeek
  · exact .inr ⟨call, ret, seen, hpc, hlow, hhigh.trans hpublished⟩

theorem KickingCall.of_tx {s t : Channel.State} (h : KickingCall s)
    (hrx : ∀ call ret pc, s.rx ≠ some (call, .kick ret pc)) (htx : t.tx = s.tx) : KickingCall t := by
  rcases h with ⟨call, pc, heq⟩ | ⟨call, ret, pc, heq⟩
  · exact .inl ⟨call, pc, htx.trans heq⟩
  · exact absurd heq (hrx call ret pc)

theorem keepsKicks_tx {g : U32} {s t : Channel.State} (h : Channel.Inv g s) {answer : Answer}
    (hstep : Channel.txStep s answer = some t) (hbusy : kicking s .tx = true → answer = .busy) :
    KeepsKicks s t := by
  have hrunning := h.established.running
  unfold Channel.txStep at hstep
  rcases htx : s.tx with - | ⟨call, pc⟩
  · rw [htx] at hstep
    cases hstep
  · simp only [htx] at hstep
    cases hstep
    have hwill : ∀ {t : Channel.State}, t.rx = s.rx → t.popped = s.popped →
        s.published.length ≤ t.published.length → Pending s → RxWillKick s →
        RxWillKick t ∨ KickingCall t :=
      fun hrx hpopped hpublished _ hwill => .inl (hwill.publish hrx hpopped hpublished)
    have hlength : s.published.length ≤ (s.published ++ pc.published).length := by simp
    cases pc with
    | kick pc =>
        have hsame := kickStep_busy answer pc hrunning fun heq =>
          hbusy (by rw [kicking, htx, heq])
        have hattempts := kickStep_attempts answer s.transport pc
        have hpublished : ∀ {p : Prop},
            (s.published ++ TxPc.published (.kick pc)).length ≠ s.published.length → p :=
          fun hne => absurd (by simp [TxPc.published]) hne
        rcases hout : Driver.kickStep answer s.transport pc with ⟨pc' | ret, transport⟩
        · rw [hout] at hattempts
          have hkicking : ∃ call' pc'', Option.map (fun x => (call, x))
              (Driver.txStep call answer s.transport s.region (.kick pc)).1.pc? =
                some (call', TxPc.kick pc'') := by
            simp only [Driver.txStep, hout]
            exact ⟨call, pc', rfl⟩
          refine ⟨fun _ => .inl (.inl hkicking), ?_, .inr (.inl hkicking), ⟨hlength, hpublished⟩,
            .inl, hwill rfl rfl hlength⟩
          simp only [Driver.txStep, hout]
          exact hattempts.1
        · rw [hout] at hattempts hsame
          have hscheduled := hsame rfl
          have hafter : (Driver.txStep call answer s.transport s.region (.kick pc)).2.1 =
              transport := by simp only [Driver.txStep, hout]
          refine ⟨fun _ => .inr ?_, fun _ => ?_, .inl ?_, ⟨hlength, hpublished⟩, .inl,
            hwill rfl rfl hlength⟩
          · exact hafter ▸ hscheduled
          · exact hafter ▸ hscheduled
          · exact hafter ▸ hattempts.2.resolve_right (by rintro ⟨pc', ⟨⟩⟩)
    | publish producer stamped =>
        have hkicking : ∃ call' pc', Option.map (fun x => (call, x))
            (Driver.txStep call answer s.transport s.region (.publish producer stamped)).1.pc? =
              some (call', TxPc.kick pc') := ⟨call, _, rfl⟩
        exact ⟨fun _ => .inl (.inl hkicking), id, .inl rfl, ⟨hlength, fun _ => .inl hkicking⟩, .inl,
          hwill rfl rfl hlength⟩
    | _ =>
        refine ⟨?_, id, .inl rfl, ⟨hlength, fun hne => absurd (by simp [TxPc.published]) hne⟩, .inl,
          hwill rfl rfl hlength⟩
        rintro (⟨call', pc', heq⟩ | hrx)
        · rw [htx] at heq
          cases heq
        · exact .inl (.inr hrx)

theorem keepsKicks_rx {g : U32} {s t : Channel.State} (h : Channel.Inv g s) {answer : Answer}
    (hstep : Channel.rxStep s answer = some t) (hbusy : kicking s .rx = true → answer = .busy) :
    KeepsKicks s t := by
  have hrunning := h.established.running
  have hpopped_le : s.popped ≤ s.published.length := h.request.taken_le
  unfold Channel.rxStep at hstep
  rcases hrx : s.rx with - | ⟨call, pc⟩
  · rw [hrx] at hstep
    cases hstep
  · simp only [hrx] at hstep
    cases hstep
    have hsame : ∀ {p : Prop}, s.published.length ≠ s.published.length → p :=
      fun hne => absurd rfl hne
    cases pc with
    | kick ret pc =>
        have hreturned := kickStep_busy answer pc hrunning fun heq =>
          hbusy (by rw [kicking, hrx, heq])
        have hattempts := kickStep_attempts answer s.transport pc
        have hwill : ∀ {p : Prop}, RxWillKick s → p := by
          rintro p (⟨call', ret', heq⟩ | ⟨call', ret', seen, heq, -⟩) <;> rw [hrx] at heq <;>
            cases heq
        have hfull : ∀ {p : Prop}, ResponseFull s →
            s.answered.length = (s.taken ++ RxPc.delivered (.kick ret pc)).length + slotCount ∨ p :=
          fun hfull => .inl (by
            rw [show RxPc.delivered (.kick ret pc) = [] from rfl, List.append_nil]
            exact hfull)
        rcases hout : Driver.kickStep answer s.transport pc with ⟨pc' | value, transport⟩
        · rw [hout] at hattempts
          have hkicking : ∃ call' ret' pc'', Option.map (fun x => (call, x))
              (Driver.rxStep call answer s.transport s.region (.kick ret pc)).1.pc? =
                some (call', RxPc.kick ret' pc'') := by
            simp only [Driver.rxStep, hout]
            exact ⟨call, ret, pc', rfl⟩
          refine ⟨fun _ => .inl (.inr hkicking), ?_, .inr (.inr hkicking), ⟨Nat.le_refl _, hsame⟩,
            hfull, fun _ => hwill⟩
          simp only [Driver.rxStep, hout]
          exact hattempts.1
        · rw [hout] at hattempts hreturned
          have hscheduled := hreturned rfl
          have hafter : (Driver.rxStep call answer s.transport s.region (.kick ret pc)).2.1 =
              transport := by simp only [Driver.rxStep, hout]
          refine ⟨fun _ => .inr ?_, fun _ => ?_, .inl ?_, ⟨Nat.le_refl _, hsame⟩, hfull,
            fun _ => hwill⟩
          · exact hafter ▸ hscheduled
          · exact hafter ▸ hscheduled
          · exact hafter ▸ hattempts.2.resolve_right (by rintro ⟨pc', ⟨⟩⟩)
    | publish consumer batch ret =>
        have hwill : ∃ call' ret', Option.map (fun x => (call, x))
            (Driver.rxStep call answer s.transport s.region (.publish consumer batch ret)).1.pc? =
              some (call', RxPc.peekProducer ret') := ⟨call, ret, rfl⟩
        exact ⟨fun hkick => .inl (hkick.of_tx (by simp [hrx]) rfl), id, .inl rfl,
          ⟨Nat.le_refl _, hsame⟩, fun _ => .inr (.inl hwill), fun _ _ => .inl (.inl hwill)⟩
    | peekProducer ret =>
        refine ⟨fun hkick => .inl (hkick.of_tx (by simp [hrx]) rfl), id, .inl rfl,
          ⟨Nat.le_refl _, hsame⟩, fun hfull => .inl (by simpa [ResponseFull, RxPc.delivered]), ?_⟩
        intro hpending _
        exact .inl (.inr ⟨call, ret, s.published.length,
          congrArg (fun producer => some (call, RxPc.peekConsumer ret producer)) h.request.producer_eq,
          hpending, Nat.le_refl _⟩)
    | peekConsumer ret producer =>
        refine ⟨fun hkick => .inl (hkick.of_tx (by simp [hrx]) rfl), id, .inl rfl,
          ⟨Nat.le_refl _, hsame⟩, fun hfull => .inl (by simpa [ResponseFull, RxPc.delivered]), ?_⟩
        rintro - (⟨call', ret', heq⟩ | ⟨call', ret', seen, heq, hlow, hhigh⟩)
        · rw [hrx] at heq
          cases heq
        · rw [hrx] at heq
          cases heq
          have hbound := h.request.bounded
          have hocc := h.request.stale_occupancy (Nat.le_of_lt hlow) hhigh
          refine .inr (.inr ⟨call, ret, .shuttingDown, ?_⟩)
          simp only [Driver.rxStep]
          rw [readOccupancy_of_le (by omega)]
          dsimp only
          rw [hocc, if_pos (by omega)]
          rfl
    | _ =>
        refine ⟨fun hkick => .inl (hkick.of_tx (by simp [hrx]) rfl), id, .inl rfl,
          ⟨Nat.le_refl _, hsame⟩, fun hfull => .inl (by simpa [ResponseFull, RxPc.delivered]), ?_⟩
        rintro - (⟨call', ret', heq⟩ | ⟨call', ret', seen, heq, -⟩) <;> rw [hrx] at heq <;>
          cases heq

/-- The calls of Linux other than a kick that succeeds. -/
theorem keepsKicks {g : U32} {s t : Channel.State} (h : Channel.Inv g s) {l : Channel.Label}
    (hstep : Channel.step l s = some t) (hprocess : l ≠ .process)
    (hfirmware : ∀ mmio, l ≠ .firmware mmio)
    (hbusy : ∀ side answer, l = Side.label side answer → kicking s side = true → answer = .busy) :
    KeepsKicks s t := by
  cases l with
  | txCall call =>
      simp only [Channel.step] at hstep
      split at hstep
      · rename_i htx
        cases hstep
        refine ⟨?_, id, .inl rfl, ⟨Nat.le_refl _, fun hne => absurd rfl hne⟩, .inl,
          fun _ hwill => .inl hwill⟩
        rintro (⟨call', pc, heq⟩ | hkick)
        · rw [htx] at heq
          cases heq
        · exact .inl (.inr hkick)
      · cases hstep
  | rxCall call =>
      simp only [Channel.step] at hstep
      split at hstep
      · rename_i hrx
        cases hstep
        refine ⟨fun hkick => .inl (hkick.of_tx (by simp [hrx]) rfl), id, .inl rfl,
          ⟨Nat.le_refl _, fun hne => absurd rfl hne⟩, .inl, ?_⟩
        rintro - (⟨call', ret', heq⟩ | ⟨call', ret', seen, heq, -⟩) <;> rw [hrx] at heq <;>
          cases heq
      · cases hstep
  | tx answer => exact keepsKicks_tx h hstep fun hkick => hbusy .tx answer rfl hkick
  | rx answer => exact keepsKicks_rx h hstep fun hkick => hbusy .rx answer rfl hkick
  | process => exact absurd rfl hprocess
  | firmware mmio => exact absurd rfl (hfirmware mmio)

/-! ## Every step keeps the doorbell coming -/

theorem State.Armed.frame {s t : State} (h : s.Armed)
    (hposted : s.DoorbellPosted → t.DoorbellPosted ∨ t.DoorbellQueued)
    (hqueued : s.DoorbellQueued → t.DoorbellQueued) (htx : t.channel.tx = s.channel.tx)
    (hrx : t.channel.rx = s.channel.rx)
    (hscheduled : t.channel.transport.kickScheduled = s.channel.transport.kickScheduled)
    (hattempts : t.channel.transport.kickAttempts = s.channel.transport.kickAttempts)
    (hwork : t.work = s.work) : t.Armed := by
  unfold State.Armed KickingCall
  rw [htx, hrx, hscheduled, hattempts, hwork]
  rcases h with h | h | h
  · exact (hposted h).elim .inl fun h => .inr (.inl h)
  · exact .inr (.inl (hqueued h))
  · exact .inr (.inr h)

theorem State.Armed.linux {s : State} {channel : Channel.State} (h : s.Armed)
    (hkeeps : KeepsKicks s.channel channel) : ({ s with channel } : State).Armed := by
  rcases h with h | h | h | h | h | ⟨h, hreset⟩
  · exact .inl h
  · exact .inr (.inl h)
  · exact .inr (.inr (.inl (hkeeps.scheduled h)))
  · exact .inr (.inr (.inr (.inl h)))
  · rcases hkeeps.kicking h with h | h
    · exact .inr (.inr (.inr (.inr (.inl h))))
    · exact .inr (.inr (.inl h))
  · rcases hkeeps.attempts with heq | h
    · exact .inr (.inr (.inr (.inr (.inr ⟨heq ▸ h, hreset⟩))))
    · exact .inr (.inr (.inr (.inr (.inl h))))

/-- A step that neither publishes nor moves the process call. -/
theorem Covered.frame {s t : State} (h : Covered s)
    (harmed : Pending s.channel → s.Armed → t.Armed)
    (hfirmware : t.channel.firmware = s.channel.firmware) (hbegun : t.begun = s.begun)
    (hrx : t.channel.rx = s.channel.rx) (hpopped : t.channel.popped = s.channel.popped)
    (hpublished : t.channel.published = s.channel.published)
    (hanswered : t.channel.answered = s.channel.answered)
    (htaken : t.channel.taken = s.channel.taken) : Covered t := by
  refine ⟨?_, ?_⟩
  · unfold Pending ResponseFull RxWillKick
    rw [hfirmware, hrx, hpopped, hpublished, hanswered, htaken]
    exact fun hquiet hpending hroom =>
      (h.quiet hquiet hpending hroom).imp_left (harmed hpending)
  · rw [hfirmware, hbegun, hpopped, hpublished]
    intro pc hpc
    obtain ⟨hle, hmore, hscan⟩ := h.running pc hpc
    exact ⟨hle, fun hlt => harmed (lt_of_le_of_lt (le_max_right ..) hlt) (hmore hlt), hscan⟩

/-- Once a doorbell is on its way, only the progress of the process call matters. -/
theorem Covered.of_armed {s t : State} (h : Covered s) (harmed : t.Armed)
    (hfirmware : t.channel.firmware = s.channel.firmware) (hbegun : t.begun = s.begun)
    (hpopped : t.channel.popped = s.channel.popped)
    (hpublished : s.channel.published.length ≤ t.channel.published.length) : Covered t := by
  refine ⟨fun _ _ _ => .inl harmed, ?_⟩
  rw [hfirmware, hbegun, hpopped]
  intro pc hpc
  obtain ⟨hle, -, hscan⟩ := h.running pc hpc
  exact ⟨hle.trans hpublished, fun _ => harmed, hscan.publish hpublished⟩

theorem State.armed_of_kicking {s : State} (h : KickingCall s.channel) : s.Armed :=
  .inr (.inr (.inr (.inr (.inl h))))

/-- A step of a Linux call that is not a kick that succeeds. -/
theorem Covered.linux {g : U32} {s : State} (h : Covered s) (hinv : Channel.Inv g s.channel)
    {l : Channel.Label} {channel : Channel.State} (hstep : Channel.step l s.channel = some channel)
    (hprocess : l ≠ .process) (hfirmware : ∀ mmio, l ≠ .firmware mmio)
    (hbusy : ∀ side answer, l = Side.label side answer → kicking s.channel side = true →
      answer = .busy) : Covered { s with channel } := by
  have hkeeps := keepsKicks hinv hstep hprocess hfirmware hbusy
  obtain ⟨hfw, -, hexecuted, -⟩ := linux_firmware hstep hprocess hfirmware
  have hpopped : channel.popped = s.channel.popped := by
    rw [Channel.State.popped, Channel.State.popped, hfw, hexecuted]
  obtain ⟨hle, hpublish⟩ := hkeeps.published
  by_cases hsame : channel.published.length = s.channel.published.length
  · refine ⟨fun hquiet hpending hroom => ?_, fun pc hpc => ?_⟩
    · have hpending' : Pending s.channel := by
        change channel.popped < channel.published.length at hpending
        change s.channel.popped < s.channel.published.length
        omega
      by_cases hfull : ResponseFull s.channel
      · exact .inr ((hkeeps.full hfull).resolve_left hroom)
      · rcases h.quiet (hfw.symm.trans hquiet) hpending' hfull with harmed | hwill
        · exact .inl (harmed.linux hkeeps)
        · rcases hkeeps.willKick hpending' hwill with hwill | hkick
          · exact .inr hwill
          · exact .inl (State.armed_of_kicking hkick)
    · obtain ⟨hbegun, hmore, hscan⟩ := h.running pc (hfw.symm.trans hpc)
      refine ⟨hbegun.trans hle, fun hlt => (hmore ?_).linux hkeeps, ?_⟩
      · rwa [← hpopped, ← hsame]
      · rw [hpopped]
        exact hscan.publish hle
  · exact h.of_armed (State.armed_of_kicking (hpublish hsame)) hfw rfl hpopped hle

theorem Covered.kickStep {g : U32} {s t : State} (h : Covered s) (hinv : Channel.Inv g s.channel)
    {side : Side} {slot : Option (Fin mailboxMax)} (hstep : kickStep s side slot = some t) :
    Covered t := by
  obtain ⟨-, channel, answer, hchannel, ht⟩ := kickStep_channel hstep
  have hprocess : side.label answer ≠ .process := by cases side <;> simp [Side.label]
  have hfirmware : ∀ mmio, side.label answer ≠ .firmware mmio := by
    cases side <;> simp [Side.label]
  rcases ht with ⟨rfl, rfl⟩ | ⟨i, rfl, -, rfl⟩
  · refine h.linux hinv hchannel hprocess hfirmware fun side' answer heq _ => ?_
    cases side <;> cases side' <;> cases heq <;> rfl
  · obtain ⟨hfw, -, hexecuted, -⟩ := linux_firmware hchannel hprocess hfirmware
    refine h.of_armed (.inl ⟨i, _, Function.update_self .., rfl, rfl⟩) hfw rfl ?_ ?_
    · rw [Channel.State.popped, Channel.State.popped, hfw, hexecuted]
    · exact (Poll.step_logs hchannel).2.1

/-- The attempts of `kick_work` lead to a doorbell, to another attempt or to giving up. -/
theorem State.Armed.workStep {g : U32} {s t : State} (h : s.Armed) (hbase : Base g s)
    {slot : Option (Fin mailboxMax)} (hstep : workStep s slot = some t) : t.Armed := by
  have hwanted : workWanted s.channel.transport = true := by
    simp [workWanted, hbase.channel.established.running, hbase.owner]
  unfold Doorbell.workStep at hstep
  cases hwork : s.work with
  | none => simp [hwork] at hstep
  | some pc =>
      simp only [hwork] at hstep
      cases pc with
      | check =>
          cases hstep
          exact .inr (.inr (.inr (.inl ⟨.kick, by rw [if_pos hwanted], trivial⟩)))
      | kick =>
          cases slot with
          | none =>
              cases hstep
              exact .inr (.inr (.inr (.inl ⟨.increment, rfl, trivial⟩)))
          | some i =>
              obtain ⟨mailbox, hpost, rfl⟩ := Option.map_eq_some_iff.mp hstep
              obtain ⟨-, rfl⟩ := post_eq_some hpost
              exact .inl ⟨i, _, Function.update_self .., rfl, rfl⟩
      | reset =>
          cases hstep
          rcases h with h | h | h | ⟨pc, heq, harmed⟩ | h | ⟨-, hreset⟩
          · exact .inl h
          · exact .inr (.inl h)
          · exact .inr (.inr (.inl h))
          · rw [hwork] at heq
            cases heq
            exact harmed.elim
          · exact .inr (.inr (.inr (.inr (.inl h))))
          · exact absurd rfl (hreset _ hwork)
      | increment =>
          cases hstep
          by_cases hmore : s.channel.transport.kickAttempts + 1 < maxAttempts
          · exact .inr (.inr (.inr (.inl ⟨_, rfl, hmore⟩)))
          · refine .inr (.inr (.inr (.inr (.inr ⟨Nat.le_of_not_lt hmore, ?_⟩))))
            rintro _ ⟨⟩
            rintro ⟨⟩
      | retry attempt =>
          dsimp only at hstep
          split_ifs at hstep with hretry
          · cases hstep
            exact .inr (.inr (.inl rfl))
          · cases hstep
            rcases h with h | h | h | ⟨pc, heq, harmed⟩ | h | ⟨h, -⟩
            · exact .inl h
            · exact .inr (.inl h)
            · exact .inr (.inr (.inl h))
            · rw [hwork] at heq
              cases heq
              exact absurd ⟨harmed, hwanted⟩ hretry
            · exact .inr (.inr (.inr (.inr (.inl h))))
            · exact .inr (.inr (.inr (.inr (.inr ⟨h, by simp⟩))))

theorem State.Armed.forward {g : U32} {s t : State} (h : s.Armed) (hbase : Base g s)
    (hpending : Pending s.channel) {slot : Fin mailboxMax} (hallowed : Spared (.forward slot) s)
    (hstep : forward s slot = some t) : t.Armed := by
  unfold Doorbell.forward at hstep
  split at hstep
  · rename_i command hslot
    dsimp only at hstep
    split_ifs at hstep with hqueue
    · cases hstep
      refine h.frame ?_ ?_ rfl rfl rfl rfl rfl
      · rintro ⟨i, command', hi, hdoorbell⟩
        by_cases hsame : i = slot
        · subst hsame
          rw [hslot] at hi
          cases hi
          exact .inr ⟨command, List.mem_append_right _ (List.mem_singleton_self _), hdoorbell⟩
        · exact .inl ⟨i, command', (Function.update_of_ne hsame ..).trans hi, hdoorbell⟩
      · rintro ⟨command', hmem, hdoorbell⟩
        exact ⟨command', List.mem_append_left _ hmem, hdoorbell⟩
    · cases hstep
      refine h.frame ?_ id rfl rfl rfl rfl rfl
      rintro ⟨i, command', hi, hdoorbell⟩
      by_cases hsame : i = slot
      · subst hsame
        rw [hslot] at hi
        cases hi
        have hroom : ¬ s.queue.length < queLength := fun hroom => hqueue ⟨hdoorbell.1, hroom⟩
        rcases (hallowed command hslot hdoorbell).resolve_left hroom with
          hqueued | ⟨j, command', hne, hj, hd⟩ | hempty
        · exact .inr hqueued
        · exact .inl ⟨j, command', (Function.update_of_ne hne ..).trans hj, hd⟩
        · have hocc := hbase.channel.request.occupancy
          rw [hempty, BitVec.sub_self] at hocc
          unfold Pending at hpending
          have hwaiting : (0#32).toNat = 0 := rfl
          omega
      · exact .inl ⟨i, command', (Function.update_of_ne hsame ..).trans hi, hdoorbell⟩
  · cases hstep

theorem Covered.dequeue {g : U32} {s t : State} (h : Covered s) (hbase : Base g s)
    {reply : Option Command} (hstep : dequeue s reply = some t) : Covered t := by
  have hbound := hbase.channel.request.bounded
  unfold Doorbell.dequeue at hstep
  split at hstep
  · rename_i command queue htask hqueue
    split_ifs at hstep with hdoorbell
    · obtain ⟨channel, hchannel, rfl⟩ := Option.map_eq_some_iff.mp hstep
      simp only [Channel.step] at hchannel
      split at hchannel
      · rename_i hidle
        cases hchannel
        refine ⟨by rintro ⟨⟩, ?_⟩
        rintro _ ⟨⟩
        refine ⟨Nat.le_refl _, fun hlt => absurd (le_max_left ..) (Nat.not_le_of_lt hlt), ?_⟩
        have hpopped : s.channel.popped = s.channel.executed.length := by
          rw [Channel.State.popped, hidle]
          rfl
        change s.channel.published.length ≤ s.channel.executed.length + 0 + slotCount
        omega
      · cases hchannel
    · -- a legacy command leaves the doorbells of the queue where they are
      have hkeep : ∀ {task : Task}, Pending s.channel → s.Armed →
          ({ s with task, queue } : State).Armed := by
        intro task _ harmed
        refine harmed.frame .inl ?_ rfl rfl rfl rfl rfl
        rintro ⟨command', hmem, hd⟩
        rw [hqueue] at hmem
        rcases List.mem_cons.mp hmem with rfl | hmem
        · exact absurd hd hdoorbell
        · exact ⟨command', hmem, hd⟩
      cases reply with
      | none =>
          cases hstep
          exact h.frame hkeep rfl rfl rfl rfl rfl rfl rfl
      | some reply =>
          dsimp only at hstep
          split_ifs at hstep
          cases hstep
          exact h.frame hkeep rfl rfl rfl rfl rfl rfl rfl
  · cases hstep

theorem Covered.firmwareStep {g : U32} {s t : State} (h : Covered s) (hbase : Base g s)
    {mmio : Mmio} (hstep : firmwareStep s mmio = some t) : Covered t := by
  unfold Doorbell.firmwareStep at hstep
  split at hstep
  · obtain ⟨channel, hchannel, rfl⟩ := Option.map_eq_some_iff.mp hstep
    have hbound := (hbase.channel.step hchannel).response.bounded
    have hlogs := Poll.step_logs hchannel
    simp only [Channel.step] at hchannel
    cases hfw : s.channel.firmware with
    | none =>
        simp only [Channel.firmwareStep, hfw] at hchannel
        cases hchannel
    | some pc =>
        have hpopped := hbase.channel.firmwareStep_popped hfw hchannel
        obtain ⟨hbegun, hmore, hscan⟩ := h.running pc hfw
        have hmeets := processStep_scan hbase.channel hbegun mmio hfw hscan
        simp only [Channel.firmwareStep, hfw] at hchannel
        cases hchannel
        rcases hout : processStep mmio s.channel.region s.channel.statics pc with
          ⟨out, region, statics⟩
        simp only [hout] at hpopped hbound hlogs ⊢
        rw [hout] at hmeets
        cases out with
        | running pc' =>
            refine ⟨by rintro ⟨⟩, ?_⟩
            rintro _ ⟨⟩
            rw [hpopped]
            refine ⟨hbegun, fun hlt => ?_, hmeets⟩
            refine (hmore ?_).frame .inl id rfl rfl rfl rfl rfl
            change max s.begun _ < s.channel.published.length at hlt
            omega
        | returned value =>
            refine ⟨fun _ hpending hroom => .inl ?_, by rintro _ ⟨⟩⟩
            refine (hmore ?_).frame .inl id rfl rfl rfl rfl rfl
            rcases hmeets with hdone | hfull
            · -- what has been published since the call began has rung its own doorbell
              change _ < s.channel.published.length at hpending
              rw [hpopped] at hpending
              omega
            · refine absurd ?_ hroom
              change List.length _ = _
              have hle := hlogs.1
              change s.channel.answered.length = s.channel.taken.length + slotCount at hfull
              exact Nat.le_antisymm hbound (hfull ▸ hle)
  · cases hstep

theorem Covered.step {g : U32} {s t : State} {l : Label} (h : Covered s) (hbase : Base g s)
    (hallowed : Spared l s) (hstep : step l s = some t) : Covered t := by
  cases l with
  | linux label =>
      obtain ⟨channel, hchannel, rfl, hprocess, hfirmware, htx, hrx⟩ := linuxStep_channel hstep
      refine h.linux hbase.channel hchannel hprocess hfirmware fun side answer heq hkick => ?_
      cases side with
      | tx => exact absurd hkick (by simp [htx answer heq])
      | rx => exact absurd hkick (by simp [hrx answer heq])
  | kick side slot => exact h.kickStep hbase.channel hstep
  | workStart =>
      simp only [Doorbell.step] at hstep
      split at hstep
      · split_ifs at hstep
        cases hstep
        exact h.frame (fun _ _ => .inr (.inr (.inr (.inl ⟨.check, rfl, trivial⟩)))) rfl rfl rfl rfl rfl
          rfl rfl
      · cases hstep
  | work slot =>
      obtain ⟨-, -, -, -, -, hbegun, -, -, transport, hchannel, -⟩ := workStep_frame hstep
      exact h.frame (fun _ harmed => harmed.workStep hbase hstep) (by rw [hchannel]) hbegun
        (by rw [hchannel]) (by rw [hchannel]; rfl) (by rw [hchannel]) (by rw [hchannel])
        (by rw [hchannel])
  | legacySend slot command =>
      obtain ⟨mailbox, hpost, rfl⟩ := Option.map_eq_some_iff.mp hstep
      obtain ⟨hfree, rfl⟩ := post_eq_some hpost
      refine h.frame (fun _ harmed => harmed.frame ?_ id rfl rfl rfl rfl rfl) rfl rfl rfl rfl rfl rfl
        rfl
      exact fun hposted => .inl (hposted.update (by simp [hfree]) rfl)
  | forward slot =>
      have harmed : Pending s.channel → s.Armed → t.Armed :=
        fun hpending harmed => harmed.forward hbase hpending hallowed hstep
      simp only [Doorbell.step, forward] at hstep
      split at hstep
      · split_ifs at hstep <;> cases hstep <;> exact h.frame harmed rfl rfl rfl rfl rfl rfl rfl
      · cases hstep
  | dequeue reply => exact h.dequeue hbase hstep
  | firmware mmio => exact h.firmwareStep hbase hstep
  | reply locked =>
      simp only [Doorbell.step, replyStep] at hstep
      split at hstep
      · split at hstep
        · rename_i slot hslot
          have hfree : s.mailbox slot = .free := by
            split_ifs at hslot
            exact freeSlot_eq_some hslot
          cases hstep
          refine h.frame (fun _ harmed => harmed.frame ?_ id rfl rfl rfl rfl rfl) rfl rfl rfl rfl rfl
            rfl rfl
          exact fun hposted => .inl (hposted.update (by simp [hfree]) rfl)
        · cases hstep
          exact h.frame (fun _ harmed => harmed.frame .inl id rfl rfl rfl rfl rfl) rfl rfl rfl rfl rfl
            rfl rfl
      · cases hstep
  | irq slot =>
      simp only [Doorbell.step, irq] at hstep
      split at hstep
      · rename_i command hslot
        have hposted : s.DoorbellPosted →
            ({ s with mailbox := Function.update s.mailbox slot .free } : State).DoorbellPosted :=
          fun hposted => hposted.update (by simp [hslot]) rfl
        split_ifs at hstep
        · cases hstep
          unfold notify
          dsimp only
          split_ifs
          · exact h.frame (fun _ harmed => harmed.frame (fun hp => .inl (hposted hp)) id rfl rfl rfl rfl
              rfl) rfl rfl rfl rfl rfl rfl rfl
          · exact h.frame (fun _ harmed => harmed.frame (fun hp => .inl (hposted hp)) id rfl rfl rfl rfl
              rfl) rfl rfl rfl rfl rfl rfl rfl
        · cases hstep
          exact h.frame (fun _ harmed => harmed.frame (fun hp => .inl (hposted hp)) id rfl rfl rfl rfl
            rfl) rfl rfl rfl rfl rfl rfl rfl
      · cases hstep
  | pollCall =>
      simp only [Doorbell.step] at hstep
      split at hstep <;> cases hstep
      exact h.frame (fun _ harmed => harmed.frame .inl id rfl rfl rfl rfl rfl) rfl rfl rfl rfl rfl rfl
        rfl
  | poll =>
      simp only [Doorbell.step, waiterStep] at hstep
      split at hstep
      · split at hstep
        · cases hstep
          exact h.frame (fun _ harmed => harmed.frame .inl id rfl rfl rfl rfl rfl) rfl rfl rfl rfl rfl
            rfl rfl
        · split_ifs at hstep <;> cases hstep <;>
            exact h.frame (fun _ harmed => harmed.frame .inl id rfl rfl rfl rfl rfl) rfl rfl rfl rfl
              rfl rfl rfl
      · cases hstep

theorem Covered.notStranded {g : U32} {s : State} (h : Covered s) (hbase : Base g s) :
    NotStranded s := by
  intro hwaiting hroom
  have hrequest := hbase.channel.request
  have hpending : Pending s.channel := by
    refine lt_of_le_of_ne hrequest.taken_le fun heq => hwaiting ?_
    rw [hrequest.producer_eq, hrequest.consumer_eq, heq]
  have hnotfull : ¬ ResponseFull s.channel := by
    have hocc := hbase.channel.response.occupancy
    unfold ResponseFull
    omega
  cases hfw : s.channel.firmware with
  | some pc =>
      have hprocessing := hbase.task.mp (by rw [hfw]; rfl)
      exact .inr (.inr (.inl (.inl hprocessing)))
  | none =>
      rcases h.quiet hfw hpending hnotfull with harmed | hwill
      · rcases harmed with h | h | h | ⟨pc, h, -⟩ | h | ⟨h, -⟩
        · exact .inl h
        · exact .inr (.inl h)
        · exact .inr (.inr (.inr (.inl (.inl h))))
        · exact .inr (.inr (.inr (.inl (.inr (by rw [h]; rfl)))))
        · exact .inr (.inr (.inr (.inr (.inl (.inl h)))))
        · exact .inr (.inr (.inr (.inr (.inr h))))
      · refine .inr (.inr (.inr (.inr (.inl (.inr ?_)))))
        exact hwill.imp id fun ⟨call, ret, seen, hpc, _⟩ => ⟨call, ret, _, hpc⟩

/-- While the queue drops no doorbell that is needed, no request is stranded. -/
theorem no_stranded_request {s : State} (h : ReachableBy system Spared s) : NotStranded s := by
  obtain ⟨g, hbase, hs⟩ := h.invariant (I := fun s => ∃ g, Base g s ∧ Covered s)
    (fun _ hs => ⟨_, base_of_start hs, covered_of_start hs⟩)
    fun _ _ _ ⟨g, hbase, hs⟩ hallowed hstep =>
      ⟨g, hbase.step hstep, hs.step hbase hallowed hstep⟩
  exact hs.notStranded hbase

/-- The request has been published and its doorbell is in the mailbox. -/
theorem no_stranded_request_pending :
    ∃ s, exec step sendRequest State.initial = some s ∧
      s.channel.region.request.producer = 1#32 ∧ s.channel.region.request.consumer = 0#32 ∧
      NotStranded s := by
  have hrun : (exec step sendRequest State.initial).map (fun s =>
      (s.channel.region.request.producer, s.channel.region.request.consumer)) =
      some (1#32, 0#32) := by decide +kernel
  obtain ⟨s, hs, hcounters⟩ := Option.map_eq_some_iff.mp hrun
  rw [Prod.mk.injEq] at hcounters
  have hallowed : ∀ l ∈ sendRequest, ∀ s, Spared l s := by simp [sendRequest, Spared]
  have hreach : ReachableBy system Spared s :=
    ReachableBy.exec (.start start_initial) hallowed hs
  exact ⟨s, hs, hcounters.1, hcounters.2, no_stranded_request hreach⟩

/-! ## The dropped doorbell -/

/-- Legacy commands have filled the queue when the doorbell arrives. -/
def droppedDoorbell : List Label :=
  (List.replicate queLength [.legacySend 0 legacyCommand, .forward 0]).flatten ++ sendRequest ++
    [.forward 0]

theorem doorbell_dropped :
    (exec step droppedDoorbell State.initial).map (fun s =>
      (s.channel.region.request.producer != s.channel.region.request.consumer &&
          s.channel.region.response.producer == s.channel.region.response.consumer,
        s.channel.tx.isNone && s.channel.rx.isNone && s.work.isNone &&
          !s.channel.transport.kickScheduled && s.task.isIdle, s.channel.transport.kickAttempts, s.queue, (List.finRange mailboxMax).map s.mailbox)) =
      some (true, true, 0,
        List.replicate queLength legacyCommand, List.replicate mailboxMax .free) := by
  decide +kernel

theorem request_stranded : ¬ ∀ s, Reachable system s → NotStranded s := by
  intro h
  obtain ⟨s, hs, hstate⟩ := Option.map_eq_some_iff.mp doorbell_dropped
  simp only [Prod.mk.injEq] at hstate
  obtain ⟨hrings, hidle, hattempts, hqueue, hmailbox⟩ := hstate
  have hreach : Reachable system s := (Reachable.start start_initial).exec hs
  have hslots : ∀ i, s.mailbox i = .free := fun i =>
    (List.map_eq_replicate_iff.mp hmailbox) i (List.mem_finRange i)
  have hlegacy : ¬ legacyCommand.isDoorbell := by decide
  simp only [Bool.and_eq_true, Option.isNone_iff_eq_none, Bool.not_eq_true'] at hidle
  obtain ⟨⟨⟨⟨htx, hrx⟩, hwork⟩, hscheduled⟩, htask⟩ := hidle
  simp only [Bool.and_eq_true, bne_iff_ne, beq_iff_eq] at hrings
  have hattended := h s hreach hrings.1 (by rw [hrings.2, BitVec.sub_self]; decide)
  rcases hattended with ⟨i, command, hi, -⟩ | ⟨command, hmem, hd⟩ | hhandling | hkick | hcall | hgave
  · rw [hslots i] at hi
    cases hi
  · rw [hqueue] at hmem
    exact hlegacy (List.eq_of_mem_replicate hmem ▸ hd)
  · rcases hhandling with ⟨command, hc⟩ | ⟨command, hc, -⟩ <;> rw [hc] at htask <;> cases htask
  · simp [hscheduled, hwork] at hkick
  · simp [KickingCall, PeekingCall, htx, hrx] at hcall
  · rw [hattempts] at hgave
    exact absurd hgave (by decide)

end Sg200x.Ipc.Doorbell
