import Sg200x.Ipc.Channel

/-!
# Polling an established channel

`sg2002_rtos_shm_linux_poll` takes no lock.  It reads the two counters of the
response ring and then those of the request ring, one after the other, while the
channel goes on.
-/

namespace Sg200x.Ipc.Driver

open RingCore

/-- The bits of the mask; `in` stands for `EPOLLIN | EPOLLRDNORM` and `out` for
`EPOLLOUT | EPOLLWRNORM`. -/
structure PollMask where
  «in» : Bool
  out : Bool
  err : Bool
  hup : Bool
  deriving DecidableEq

inductive PollPc
  | shuttingDown
  | owner
  | pollWait
  | ready (pc : ReadyPc)
  | responseProducer
  | responseConsumer (producer : U32)
  | requestProducer (readable : Bool)
  | requestConsumer (readable : Bool) (producer : U32)

def pollStep (file : File) (transport : Transport) (region : Region) :
    PollPc → Outcome PollPc PollMask
  | .shuttingDown =>
      if transport.shuttingDown then .returned ⟨false, false, true, true⟩ else .running .owner
  | .owner =>
      if isOwner transport file then .running .pollWait else .returned ⟨false, false, true, false⟩
  | .pollWait => .running (.ready .start)
  | .ready pc =>
      match readyStep transport region pc with
      | .running pc' => .running (.ready pc')
      | .returned true => .running .responseProducer
      | .returned false => .returned ⟨false, false, true, true⟩
  | .responseProducer => .running (.responseConsumer region.response.producer)
  | .responseConsumer producer =>
      match readOccupancy producer region.response.consumer with
      | none => .returned ⟨false, false, true, false⟩
      | some occupancy => .running (.requestProducer (0 < occupancy.toNat))
  | .requestProducer readable => .running (.requestConsumer readable region.request.producer)
  | .requestConsumer readable producer =>
      match readOccupancy producer region.request.consumer with
      | none => .returned ⟨false, false, true, false⟩
      | some occupancy => .returned ⟨readable, occupancy.toNat < Shm.slotCount, false, false⟩

end Sg200x.Ipc.Driver

namespace Sg200x.Ipc.Poll

open Shm RingCore Firmware Driver Library Library.Transition

structure State where
  channel : Channel.State
  poll : Option PollPc
  /-- The masks returned so far. -/
  masks : List PollMask

inductive Label
  | channel (label : Channel.Label)
  | call
  | poll

/-- The file that polls is the owner. -/
def owner : File := 0

def pollStep (s : State) : Option State :=
  match s.poll with
  | none => none
  | some pc =>
      match Driver.pollStep Poll.owner s.channel.transport s.channel.region pc with
      | .running pc' => some { s with poll := some pc' }
      | .returned mask => some { s with poll := none, masks := s.masks ++ [mask] }

def step : Label → State → Option State
  | .channel label, s => (Channel.step label s.channel).map fun channel => { s with channel }
  | .call, s =>
      match s.poll with
      | none => some { s with poll := some .shuttingDown }
      | some _ => none
  | .poll, s => pollStep s

structure Start (s : State) : Prop where
  channel : Channel.Start s.channel
  owner : s.channel.transport.owner = some owner
  poll : s.poll = none
  masks : s.masks = []

def polling : System State Label := ⟨Start, step⟩

def State.inPoll (s : State) : Prop := s.poll ≠ none

def State.responseEmpty (s : State) : Prop :=
  s.channel.region.response.producer = s.channel.region.response.consumer

def State.requestFull (s : State) : Prop :=
  (s.channel.region.request.producer - s.channel.region.request.consumer).toNat = slotCount

/-- What the poll of a healthy channel promises. -/
structure Truthful {n : ℕ} (r : Run polling n) : Prop where
  noError : ∀ i, i ≤ n → ∀ mask ∈ (r.state i).masks, mask.err = false ∧ mask.hup = false
  /-- A mask without `EPOLLIN` has been returned by a call during which the response ring was
  empty at some instant. -/
  readable : ∀ i, i < n → ∀ mask, (r.state (i + 1)).masks = (r.state i).masks ++ [mask] →
    mask.in = false → During r.state State.inPoll State.responseEmpty i
  writable : ∀ i, i < n → ∀ mask, (r.state (i + 1)).masks = (r.state i).masks ++ [mask] →
    mask.out = false → During r.state State.inPoll State.requestFull i

/-! ## What the poll must not meet -/

/-- The step returns slots of the response ring: the new consumer counter. -/
def responseAdvance (s : Channel.State) : Channel.Label → Option U32
  | .rx _ =>
      match s.rx with
      | some (_, .publish consumer batch _) => some (consumer + BitVec.ofNat 32 batch.length)
      | _ => none
  | _ => none

/-- The step returns a slot of the request ring: the new consumer counter. -/
def requestAdvance (s : Channel.State) : Channel.Label → Option U32
  | .firmware _ =>
      match s.firmware with
      | some (.tryPop _ (.publish consumer)) => some (consumer + 1#32)
      | _ => none
  | _ => none

/-- Between the two reads of a ring its consumer counter is not moved past the producer
value the poll holds; on the response ring it is not even moved up to that value
unless the ring is then empty. -/
def Undisturbed : Label → State → Prop
  | .channel label, s =>
      match s.poll with
      | some (.responseConsumer producer) =>
          ∀ consumer, responseAdvance s.channel label = some consumer →
            (producer - consumer).toNat ≤ slotCount ∧
              (consumer = producer → consumer = s.channel.region.response.producer)
      | some (.requestConsumer _ producer) =>
          ∀ consumer, requestAdvance s.channel label = some consumer →
            (producer - consumer).toNat ≤ slotCount
      | _ => True
  | _, _ => True

/-! ## How the counters move -/

section Counters

open Channel

variable {g : U32} {s t : Channel.State} {l : Channel.Label}

theorem step_logs (hstep : Channel.step l s = some t) :
    s.answered.length ≤ t.answered.length ∧ s.published.length ≤ t.published.length ∧
      t.transport.owner = s.transport.owner := by
  cases l with
  | txCall call | rxCall call | process =>
      simp only [Channel.step] at hstep
      split at hstep <;> cases hstep
      exact ⟨Nat.le_refl _, Nat.le_refl _, rfl⟩
  | tx answer =>
      simp only [Channel.step, Channel.txStep] at hstep
      split at hstep
      · cases hstep
      · rename_i call pc _
        have hframe := (txStep_frame call answer s.transport s.region pc).1
        cases hstep
        exact ⟨Nat.le_refl _, by simp, hframe.owner⟩
  | rx answer =>
      simp only [Channel.step, Channel.rxStep] at hstep
      split at hstep
      · cases hstep
      · rename_i call pc _
        have hframe := (rxStep_frame call answer s.transport s.region pc).1
        cases hstep
        exact ⟨Nat.le_refl _, Nat.le_refl _, hframe.owner⟩
  | firmware mmio =>
      simp only [Channel.step, Channel.firmwareStep] at hstep
      split at hstep <;> cases hstep
      exact ⟨by simp, Nat.le_refl _, rfl⟩

/-- Linux takes responses at the step that advances the consumer counter. -/
theorem step_taken (h : Channel.Inv g s) (hstep : Channel.step l s = some t) :
    t.taken.length = s.taken.length ∨
      responseAdvance s l = some (WrapRing.position 0#32 t.taken.length) ∧
        t.answered = s.answered := by
  cases l with
  | txCall call | rxCall call | process =>
      simp only [Channel.step] at hstep
      split at hstep <;> cases hstep
      exact .inl rfl
  | tx answer =>
      simp only [Channel.step, Channel.txStep] at hstep
      split at hstep <;> cases hstep
      exact .inl rfl
  | firmware mmio =>
      simp only [Channel.step, Channel.firmwareStep] at hstep
      split at hstep <;> cases hstep
      exact .inl rfl
  | rx answer =>
      simp only [Channel.step, Channel.rxStep] at hstep
      rcases hrx : s.rx with - | ⟨call, pc⟩
      · rw [hrx] at hstep
        cases hstep
      · have hfacts := (h.rx call pc hrx).2
        simp only [hrx] at hstep
        cases hstep
        cases pc with
        | publish consumer batch ret =>
            right
            obtain ⟨rfl, -, -⟩ := hfacts
            simp only [responseAdvance, hrx, RxPc.delivered, List.length_append, and_true]
            rw [h.response.consumer_eq, WrapRing.position_add]
        | _ => exact .inl (by simp [RxPc.delivered])

/-- The firmware pops at the step that advances the consumer counter. -/
theorem step_popped (h : Channel.Inv g s) (hstep : Channel.step l s = some t) :
    t.popped = s.popped ∨
      requestAdvance s l = some (WrapRing.position 0#32 t.popped) ∧ t.popped = s.popped + 1 := by
  cases l with
  | txCall call | rxCall call =>
      simp only [Channel.step] at hstep
      split at hstep <;> cases hstep
      exact .inl rfl
  | process =>
      simp only [Channel.step] at hstep
      split at hstep
      · rename_i hidle
        cases hstep
        left
        rw [Channel.State.popped, Channel.State.popped, hidle]
        rfl
      · cases hstep
  | tx answer =>
      simp only [Channel.step, Channel.txStep] at hstep
      split at hstep <;> cases hstep
      exact .inl rfl
  | rx answer =>
      simp only [Channel.step, Channel.rxStep] at hstep
      split at hstep <;> cases hstep
      exact .inl rfl
  | firmware mmio =>
      simp only [Channel.step, Channel.firmwareStep] at hstep
      cases hfw : s.firmware with
      | none => rw [hfw] at hstep; cases hstep
      | some pc =>
          have hfacts := h.firmware pc hfw
          rcases hresult : processStep mmio s.region s.statics pc with ⟨out, region, statics⟩
          have hheld :=
            (processStep_spec h.attached h.request h.response h.sound mmio hfacts hresult).held
          simp only [hfw, hresult] at hstep
          cases hstep
          have hpopped : (s.executed ++ pc.handles mmio s.statics).length + held out.pc? =
              s.popped + pc.pops := by
            rw [Channel.State.popped, hfw, List.length_append]
            omega
          change _ + held out.pc? = _ ∨ _ = some (WrapRing.position 0#32 (_ + held out.pc?)) ∧
            _ + held out.pc? = _
          rw [hpopped]
          by_cases hpop : ∃ count consumer, pc = .tryPop count (.publish consumer)
          · obtain ⟨count, consumer, rfl⟩ := hpop
            obtain ⟨-, rfl, -⟩ := hfacts
            right
            simp only [requestAdvance, hfw, ProcessPc.pops, and_true]
            rw [h.request.consumer_eq, ← WrapRing.position_add]
          · left
            have hpops : pc.pops = 0 := by
              unfold ProcessPc.pops
              split
              · rename_i count consumer
                exact absurd ⟨count, consumer, rfl⟩ hpop
              · rfl
            rw [hpops, Nat.add_zero]

/-- A value that a counter has not been moved past still lies ahead of it. -/
theorem le_of_toNat_sub_le {seen counter : ℕ} (hnear : counter ≤ seen + slotCount)
    (h : (WrapRing.position 0#32 seen - WrapRing.position 0#32 counter).toNat ≤ slotCount) :
    counter ≤ seen := by
  by_contra hlt
  have hwrap := WrapRing.toNat_position_sub_of_lt 0#32 (Nat.not_le.mp hlt)
    (by simp only [slotCount] at hnear; omega)
  rw [hwrap] at h
  simp only [slotCount] at hnear h
  omega

end Counters

/-! ## The invariant of a poll that is not disturbed -/

def PollFacts (g : U32) (s : Channel.State) : PollPc → Prop
  | .shuttingDown | .owner | .pollWait | .responseProducer | .requestProducer _ => True
  | .ready pc => ReadyFacts g pc
  | .responseConsumer producer =>
      ∃ seen, producer = WrapRing.position 0#32 seen ∧ s.taken.length ≤ seen ∧
        seen ≤ s.answered.length
  | .requestConsumer _ producer =>
      ∃ seen, producer = WrapRing.position 0#32 seen ∧ s.popped ≤ seen ∧
        seen ≤ s.published.length

structure Inv (g : U32) (s : State) : Prop where
  channel : Channel.Inv g s.channel
  owner : s.channel.transport.owner = some owner
  poll : ∀ pc, s.poll = some pc → PollFacts g s.channel pc
  masks : ∀ mask ∈ s.masks, mask.err = false ∧ mask.hup = false

theorem inv_of_start {s : State} (h : Start s) : Inv s.channel.transport.generation s where
  channel := Channel.inv_of_start h.channel
  owner := h.owner
  poll := by simp [h.poll]
  masks := by simp [h.masks]

/-- The facts about a poll in progress survive a step of the channel that does not
disturb it. -/
theorem Inv.channelStep {g : U32} {s : State} (h : Inv g s) {l : Channel.Label}
    {t : Channel.State} (hallowed : Undisturbed (.channel l) s)
    (hstep : Channel.step l s.channel = some t) : Inv g { s with channel := t } := by
  obtain ⟨hanswered, hpublished, howner⟩ := step_logs hstep
  have ht := h.channel.step hstep
  refine ⟨ht, howner.trans h.owner, ?_, h.masks⟩
  intro pc hpc
  have hfacts := h.poll pc hpc
  simp only [Undisturbed, show s.poll = some pc from hpc] at hallowed
  cases pc with
  | shuttingDown | owner | pollWait | responseProducer | requestProducer => trivial
  | ready pc => exact hfacts
  | responseConsumer producer =>
      obtain ⟨seen, rfl, hlow, hhigh⟩ := hfacts
      refine ⟨seen, rfl, ?_, hhigh.trans hanswered⟩
      rcases step_taken h.channel hstep with htaken | ⟨hadvance, hsame⟩
      · exact htaken.trans_le hlow
      · have hbound := h.channel.response.bounded
        have htaken := ht.response.taken_le
        rw [hsame] at htaken
        have hnear : t.taken.length ≤ seen + slotCount := by omega
        exact le_of_toNat_sub_le hnear (hallowed _ hadvance).1
  | requestConsumer readable producer =>
      obtain ⟨seen, rfl, hlow, hhigh⟩ := hfacts
      refine ⟨seen, rfl, ?_, hhigh.trans hpublished⟩
      rcases step_popped h.channel hstep with hpopped | ⟨hadvance, hnext⟩
      · exact hpopped.trans_le hlow
      · exact le_of_toNat_sub_le (by simp only [slotCount]; omega) (hallowed _ hadvance)

theorem Inv.pollStep {g : U32} {s t : State} (h : Inv g s) (hstep : pollStep s = some t) :
    Inv g t := by
  have hest := h.channel.established
  unfold Poll.pollStep at hstep
  cases hpc : s.poll with
  | none => rw [hpc] at hstep; cases hstep
  | some pc =>
      have hfacts := h.poll pc hpc
      simp only [hpc] at hstep
      have hspec : (Driver.pollStep Poll.owner s.channel.transport s.channel.region pc).Meets
          (PollFacts g s.channel) fun mask => mask.err = false ∧ mask.hup = false := by
        cases pc with
        | shuttingDown => simp [Driver.pollStep, hest.running, Outcome.Meets, PollFacts]
        | owner => simp [Driver.pollStep, isOwner, hest.running, h.owner, Outcome.Meets, PollFacts]
        | pollWait => exact readyFacts_start g
        | ready pc =>
            have hready := readyStep_spec hest hfacts
            simp only [Driver.pollStep]
            rcases hout : readyStep s.channel.transport s.channel.region pc with pc' | ready
            · rw [hout] at hready
              exact hready
            · rw [hout] at hready
              subst hready
              trivial
        | responseProducer =>
            exact ⟨_, h.channel.response.producer_eq, h.channel.response.taken_le, Nat.le_refl _⟩
        | responseConsumer producer =>
            obtain ⟨seen, rfl, hlow, hhigh⟩ := hfacts
            have hocc := h.channel.response.stale_occupancy hlow hhigh
            have hbound := h.channel.response.bounded
            simp only [Driver.pollStep]
            rw [readOccupancy_of_le (by omega)]
            trivial
        | requestProducer readable =>
            exact ⟨_, h.channel.request.producer_eq, h.channel.request.taken_le, Nat.le_refl _⟩
        | requestConsumer readable producer =>
            obtain ⟨seen, rfl, hlow, hhigh⟩ := hfacts
            have hocc := h.channel.request.stale_occupancy hlow hhigh
            have hbound := h.channel.request.bounded
            simp only [Driver.pollStep]
            rw [readOccupancy_of_le (by omega)]
            exact ⟨rfl, rfl⟩
      rcases hout : Driver.pollStep Poll.owner s.channel.transport s.channel.region pc with pc' | mask
      · rw [hout] at hspec
        simp only [hout] at hstep
        cases hstep
        refine ⟨h.channel, h.owner, ?_, h.masks⟩
        intro pc'' hpc''
        cases hpc''
        exact hspec
      · rw [hout] at hspec
        simp only [hout] at hstep
        cases hstep
        refine ⟨h.channel, h.owner, fun pc' hpc' => (by cases hpc'), ?_⟩
        intro mask' hmem
        rcases List.mem_append.mp hmem with hmem | hmem
        · exact h.masks mask' hmem
        · exact List.mem_singleton.mp hmem ▸ hspec

theorem Inv.step {g : U32} {s t : State} {l : Label} (h : Inv g s) (hallowed : Undisturbed l s)
    (hstep : step l s = some t) : Inv g t := by
  cases l with
  | channel l =>
      obtain ⟨channel, hchannel, rfl⟩ := Option.map_eq_some_iff.mp hstep
      exact h.channelStep hallowed hchannel
  | call =>
      simp only [Poll.step] at hstep
      split at hstep <;> cases hstep
      refine ⟨h.channel, h.owner, ?_, h.masks⟩
      intro pc hpc
      cases hpc
      trivial
  | poll => exact h.pollStep hstep

theorem reachable_inv {s : State} (h : ReachableBy polling Undisturbed s) : ∃ g, Inv g s :=
  h.invariant (I := fun s => ∃ g, Inv g s) (fun _ hs => ⟨_, inv_of_start hs⟩)
    fun _ _ _ ⟨g, hs⟩ hallowed hstep => ⟨g, hs.step hallowed hstep⟩

/-! ## Instants of a poll -/

section Instants

variable {n : ℕ} (r : Run polling n)

/-- What the poll has seen of an empty response ring. -/
def EmptySeen (i : ℕ) : Prop :=
  ∀ pc, (r.state i).poll = some pc →
    match pc with
    | .responseConsumer producer =>
        producer = (r.state i).channel.region.response.consumer →
          During r.state State.inPoll State.responseEmpty i
    | .requestProducer readable | .requestConsumer readable _ =>
        readable = false → During r.state State.inPoll State.responseEmpty i
    | _ => True

theorem inPoll_of_eq {s : State} {pc : PollPc} (h : s.poll = some pc) : s.inPoll := by
  simp [State.inPoll, h]

variable (hallowed : ∀ i, i < n → Undisturbed (r.label i) (r.state i))
include hallowed

theorem emptySeen {i : ℕ} (hi : i ≤ n) : EmptySeen r i := by
  induction i with
  | zero =>
      intro pc hpc
      rw [r.start.poll] at hpc
      cases hpc
  | succ i ih =>
      have hlt : i < n := by omega
      have hsteps := hallowed i hlt
      have hstep := r.next i hlt
      obtain ⟨g, hinv⟩ := reachable_inv (r.reachableBy hallowed hlt.le)
      intro pc hpc
      have hcall := inPoll_of_eq hpc
      cases hl : r.label i with
      | channel l =>
          rw [hl] at hstep hsteps
          obtain ⟨t, ht, heq⟩ := Option.map_eq_some_iff.mp hstep
          have hsame : (r.state i).poll = some pc := by rw [← hpc, ← heq]
          have hseen := ih hlt.le pc hsame
          have htinv := hinv.channel.step ht
          cases pc with
          | shuttingDown | owner | pollWait | ready | responseProducer => trivial
          | requestProducer readable | requestConsumer readable producer =>
              exact fun hread => (hseen hread).succ hcall
          | responseConsumer producer =>
              intro hequal
              rw [← heq] at hequal
              rcases step_taken hinv.channel ht with htaken | ⟨hadvance, hanswered⟩
              · refine (hseen ?_).succ hcall
                rw [hequal, htinv.response.consumer_eq, hinv.channel.response.consumer_eq, htaken]
              · -- the ring is emptied up to the value the poll holds
                simp only [Undisturbed, hsame] at hsteps
                have hempty := (hsteps _ hadvance).2
                  (htinv.response.consumer_eq.symm.trans hequal.symm)
                refine During.now hcall ?_
                rw [State.responseEmpty, ← heq, htinv.response.producer_eq, hanswered,
                  htinv.response.consumer_eq, hempty, hinv.channel.response.producer_eq]
      | call =>
          rw [hl] at hstep
          simp only [polling, step] at hstep
          split at hstep
          · rw [← Option.some.inj hstep] at hpc
            cases hpc
            trivial
          · cases hstep
      | poll =>
          rw [hl] at hstep
          simp only [polling, step, pollStep] at hstep
          cases hold : (r.state i).poll with
          | none => rw [hold] at hstep; cases hstep
          | some pc' =>
              have hseen := ih hlt.le pc' hold
              simp only [hold] at hstep
              rcases hout : Driver.pollStep owner (r.state i).channel.transport
                (r.state i).channel.region pc' with pc'' | mask
              · rw [hout] at hstep
                have heq := Option.some.inj hstep
                rw [← heq] at hpc
                obtain rfl := Option.some.inj hpc
                have hchannel : (r.state (i + 1)).channel = (r.state i).channel := by rw [← heq]
                cases pc' with
                | shuttingDown | owner =>
                    simp only [Driver.pollStep] at hout
                    split_ifs at hout
                    cases hout
                    trivial
                | pollWait => cases hout; trivial
                | ready pc' =>
                    simp only [Driver.pollStep] at hout
                    split at hout <;> cases hout <;> trivial
                | responseProducer =>
                    cases hout
                    intro hempty
                    refine During.now hcall ?_
                    rw [State.responseEmpty, ← hempty, hchannel]
                | responseConsumer producer =>
                    simp only [Driver.pollStep] at hout
                    split at hout
                    · cases hout
                    · rename_i occupancy hocc
                      unfold readOccupancy at hocc
                      split_ifs at hocc
                      cases hocc
                      cases hout
                      intro hread
                      refine (hseen ?_).succ hcall
                      have hzero : (producer -
                          (r.state i).channel.region.response.consumer).toNat = 0 := by
                        simpa using hread
                      exact sub_eq_zero.mp (BitVec.eq_of_toNat_eq hzero)
                | requestProducer readable =>
                    cases hout
                    exact fun hread => (hseen hread).succ hcall
                | requestConsumer readable producer =>
                    simp only [Driver.pollStep] at hout
                    split at hout <;> cases hout
              · rw [hout] at hstep
                rw [← Option.some.inj hstep] at hpc
                cases hpc

/-- A poll returns from its last read, unless it reports an error. -/
theorem poll_returns {i : ℕ} (hi : i < n) {mask : PollMask}
    (hret : (r.state (i + 1)).masks = (r.state i).masks ++ [mask]) :
    ∃ producer, (r.state i).poll = some (.requestConsumer mask.in producer) ∧
      (mask.out = false →
        slotCount ≤ (producer - (r.state i).channel.region.request.consumer).toNat) := by
  have hne : ∀ masks : List PollMask, masks ≠ masks ++ [mask] :=
    fun masks heq => by simpa using congrArg List.length heq
  obtain ⟨g, hinv⟩ := reachable_inv (r.reachableBy hallowed hi)
  have herr : mask.err = false := (hinv.masks mask (by rw [hret]; simp)).1
  have hstep := r.next i hi
  cases hl : r.label i with
  | channel l =>
      rw [hl] at hstep
      obtain ⟨t, -, heq⟩ := Option.map_eq_some_iff.mp hstep
      rw [← heq] at hret
      exact absurd hret (hne _)
  | call =>
      rw [hl] at hstep
      simp only [polling, step] at hstep
      split at hstep
      · rw [← Option.some.inj hstep] at hret
        exact absurd hret (hne _)
      · cases hstep
  | poll =>
      rw [hl] at hstep
      simp only [polling, step, pollStep] at hstep
      cases hold : (r.state i).poll with
      | none => rw [hold] at hstep; cases hstep
      | some pc =>
          simp only [hold] at hstep
          rcases hout : Driver.pollStep owner (r.state i).channel.transport
            (r.state i).channel.region pc with pc' | mask'
          · rw [hout] at hstep
            rw [← Option.some.inj hstep] at hret
            exact absurd hret (hne _)
          · rw [hout] at hstep
            rw [← Option.some.inj hstep] at hret
            obtain rfl : mask' = mask :=
              List.singleton_inj.mp (List.append_cancel_left hret)
            cases pc with
            | requestConsumer readable producer =>
                simp only [Driver.pollStep] at hout
                split at hout
                · cases hout; cases herr
                · rename_i occupancy hocc
                  unfold readOccupancy at hocc
                  split_ifs at hocc
                  cases hocc
                  cases hout
                  exact ⟨producer, rfl, fun hfull => by simpa using hfull⟩
            | shuttingDown | owner =>
                simp only [Driver.pollStep] at hout
                split_ifs at hout
                cases hout
                cases herr
            | ready pc =>
                simp only [Driver.pollStep] at hout
                split at hout <;> cases hout
                cases herr
            | responseConsumer producer =>
                simp only [Driver.pollStep] at hout
                split at hout <;> cases hout
                cases herr
            | pollWait | responseProducer | requestProducer => cases hout

/-- In every run whose steps leave the poll undisturbed, the poll is truthful. -/
theorem poll_truthful : Truthful r where
  noError i hi mask hmem := by
    obtain ⟨g, hinv⟩ := reachable_inv (r.reachableBy hallowed hi)
    exact hinv.masks mask hmem
  readable i hi mask hret hread := by
    obtain ⟨producer, hpc, -⟩ := poll_returns r hallowed hi hret
    exact emptySeen r hallowed hi.le _ hpc hread
  writable i hi mask hret hwrite := by
    obtain ⟨producer, hpc, hfull⟩ := poll_returns r hallowed hi hret
    obtain ⟨g, hinv⟩ := reachable_inv (r.reachableBy hallowed hi.le)
    obtain ⟨seen, rfl, hlow, hhigh⟩ := hinv.poll _ hpc
    have hocc := hinv.channel.request.stale_occupancy hlow hhigh
    have hbound := hinv.channel.request.bounded
    have hwhole := hinv.channel.request.occupancy
    have hfull := hfull hwrite
    refine During.now (inPoll_of_eq hpc) ?_
    rw [State.requestFull, hwhole]
    omega

end Instants

/-! ## Runs of a poll -/

def State.initial : State := ⟨Channel.State.initial 1#32, none, []⟩

theorem start_initial : polling.start State.initial :=
  ⟨Channel.start_initial (by decide), rfl, rfl, rfl⟩

/-- A poll that nothing interleaves with. -/
def quietPoll : List Label := .call :: List.replicate 23 .poll

theorem poll_truthful_quiet :
    Truthful (Run.ofExec start_initial quietPoll .call (by decide +kernel)) := by
  apply poll_truthful
  intro i hi
  have hmem : quietPoll.getD i .call ∈ quietPoll := by
    rw [List.getD_eq_getElem?_getD, List.getElem?_eq_getElem hi]
    exact List.getElem_mem hi
  change Undisturbed (quietPoll.getD i .call) _
  rcases List.mem_cons.mp hmem with hcall | hpoll
  · rw [hcall]
    trivial
  · rw [List.eq_of_mem_replicate hpoll]
    trivial

/-- A request makes its round trip between the two reads of the response ring. -/
def straddlingPoll : List Label :=
  .call :: List.replicate 20 .poll ++ Channel.roundTrip.map .channel ++ [.poll]

theorem poll_straddling :
    (exec step straddlingPoll State.initial).map (fun s => s.masks) =
      some [⟨false, false, true, false⟩] := by
  decide +kernel

theorem poll_not_truthful : ¬ ∀ {n : ℕ} (r : Run polling n), Truthful r := by
  intro h
  obtain ⟨s, hs, hmasks⟩ := Option.map_eq_some_iff.mp poll_straddling
  have hsome : (exec polling.step straddlingPoll State.initial).isSome :=
    Option.isSome_iff_exists.mpr ⟨s, hs⟩
  have hrun := (h (Run.ofExec start_initial straddlingPoll .call hsome)).noError
    straddlingPoll.length (Nat.le_refl _)
  have hlast : (Run.ofExec start_initial straddlingPoll .call hsome).state
      straddlingPoll.length = s := by
    change (exec step (straddlingPoll.take straddlingPoll.length) State.initial).getD State.initial = s
    rw [List.take_length, hs]
    rfl
  rw [hlast, hmasks] at hrun
  cases (hrun _ List.mem_cons_self).1

end Sg200x.Ipc.Poll
