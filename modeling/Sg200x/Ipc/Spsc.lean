import Sg200x.Ipc.RingCore
import Sg200x.Library.Transition

/-!
# One producer and one consumer on the ring core

A producer repeatedly calls `sg2002_rtos_ring_can_push` and
`sg2002_rtos_ring_try_push`, a consumer repeatedly calls
`sg2002_rtos_ring_try_pop`, and their accesses to the ring interleave freely.
The state keeps the returns of both sides, oldest first.
-/

namespace Sg200x.Ipc.Spsc

open Shm RingCore Library.Transition

inductive ProducerPc
  | idle
  | push (message : Slot) (pc : PushPc)
  | canPush (pc : CanPushPc)

inductive ConsumerPc
  | idle
  | pop (pc : PopPc)

inductive ProducerReturn
  | push (message : Slot) (result : RingResult)
  | canPush (value : ℤ)

structure PopReturn where
  result : RingResult
  message : Slot

structure State where
  ring : Ring
  producer : ProducerPc
  consumer : ConsumerPc
  /-- The buffer the consumer passes to `try_pop`. -/
  message : Slot
  producerReturns : List ProducerReturn
  popReturns : List PopReturn

inductive Label
  | callPush (message : Slot)
  | callCanPush
  | callPop
  | producer
  | consumer

def State.producerReturn (s : State) (value : ProducerReturn) : State :=
  { s with producer := .idle, producerReturns := s.producerReturns ++ [value] }

def State.popReturn (s : State) (result : RingResult) : State :=
  { s with consumer := .idle, popReturns := s.popReturns ++ [⟨result, s.message⟩] }

def callPush (s : State) (message : Slot) : State :=
  match tryPush message with
  | .running pc => { s with producer := .push message pc }
  | .returned result => s.producerReturn (.push message result)

def producerStep (s : State) : Option State :=
  match s.producer with
  | .idle => none
  | .push message pc =>
      match tryPushStep message s.ring pc with
      | (.running pc', ring) => some { s with ring := ring, producer := .push message pc' }
      | (.returned result, ring) =>
          some ({ s with ring := ring }.producerReturn (.push message result))
  | .canPush pc =>
      match canPushStep s.ring pc with
      | .running pc' => some { s with producer := .canPush pc' }
      | .returned value => some (s.producerReturn (.canPush value))

def consumerStep (s : State) : Option State :=
  match s.consumer with
  | .idle => none
  | .pop pc =>
      match tryPopStep s.ring s.message pc with
      | (.running pc', ring, message) =>
          some { s with ring := ring, message := message, consumer := .pop pc' }
      | (.returned result, ring, message) =>
          some ({ s with ring := ring, message := message }.popReturn result)

def step : Label → State → Option State
  | .callPush message, s =>
      match s.producer with
      | .idle => some (callPush s message)
      | _ => none
  | .callCanPush, s =>
      match s.producer with
      | .idle => some { s with producer := .canPush .readProducer }
      | _ => none
  | .callPop, s =>
      match s.consumer with
      | .idle => some { s with consumer := .pop .readProducer }
      | _ => none
  | .producer, s => producerStep s
  | .consumer, s => consumerStep s

/-- The counters start at any equal value. -/
structure Start (s : State) : Prop where
  counters : s.ring.producer = s.ring.consumer
  producer : s.producer = .idle
  consumer : s.consumer = .idle
  producerReturns : s.producerReturns = []
  popReturns : s.popReturns = []

def spsc : System State Label := ⟨Start, step⟩

/-! ## What the returns say -/

/-- The messages whose push returned OK. -/
def pushedOf (returns : List ProducerReturn) : List Slot :=
  returns.filterMap fun
    | .push message .ok => some message
    | _ => none

/-- The messages popped with OK. -/
def poppedOf (returns : List PopReturn) : List Slot :=
  returns.filterMap fun r => if r.result = .ok then some r.message else none

def State.pushed (s : State) : List Slot := pushedOf s.producerReturns

def State.popped (s : State) : List Slot := poppedOf s.popReturns

def State.isFull (s : State) : Prop := (s.ring.producer - s.ring.consumer).toNat = slotCount

def State.isEmpty (s : State) : Prop := s.ring.producer = s.ring.consumer

def State.inProducerCall (s : State) : Prop := s.producer ≠ .idle

def State.inPopCall (s : State) : Prop := s.consumer ≠ .idle

def ProducerReturn.isPush : ProducerReturn → Bool
  | .push _ _ => true
  | .canPush _ => false

/-- Some `can_push` has returned 1 since the last push returned. -/
def armed (returns : List ProducerReturn) : Bool :=
  returns.foldl (fun room e => match e with
    | .push _ _ => false
    | .canPush value => room || value == 1) false

@[simp] theorem pushedOf_append (returns more : List ProducerReturn) :
    pushedOf (returns ++ more) = pushedOf returns ++ pushedOf more := by
  simp [pushedOf]

@[simp] theorem poppedOf_append (returns more : List PopReturn) :
    poppedOf (returns ++ more) = poppedOf returns ++ poppedOf more := by
  simp [poppedOf]

theorem pushedOf_push_ok (message : Slot) : pushedOf [.push message .ok] = [message] := rfl

theorem poppedOf_ok (message : Slot) : poppedOf [⟨.ok, message⟩] = [message] := rfl

theorem poppedOf_of_ne {message : Slot} {result : RingResult} (h : result ≠ .ok) :
    poppedOf [⟨result, message⟩] = [] := by
  simp [poppedOf, h]

@[simp] theorem State.pushed_producerReturn (s : State) (e : ProducerReturn) :
    (s.producerReturn e).pushed = s.pushed ++ pushedOf [e] := by
  simp [State.pushed, State.producerReturn]

@[simp] theorem State.popped_producerReturn (s : State) (e : ProducerReturn) :
    (s.producerReturn e).popped = s.popped := rfl

@[simp] theorem State.pushed_popReturn (s : State) (result : RingResult) :
    (s.popReturn result).pushed = s.pushed := rfl

@[simp] theorem State.popped_popReturn (s : State) (result : RingResult) :
    (s.popReturn result).popped = s.popped ++ poppedOf [⟨result, s.message⟩] := by
  simp [State.popped, State.popReturn]

theorem armed_push (returns : List ProducerReturn) (message : Slot) (result : RingResult) :
    armed (returns ++ [.push message result]) = false := by
  simp [armed]

theorem armed_canPush (returns : List ProducerReturn) (value : ℤ) :
    armed (returns ++ [.canPush value]) = (armed returns || value == 1) := by
  simp [armed]

/-- Whatever follows a `can_push` that returned 1 keeps the promise until the next
push. -/
theorem armed_of_no_push (returns mid : List ProducerReturn)
    (hmid : ∀ e ∈ mid, e.isPush = false) :
    armed (returns ++ .canPush 1 :: mid) = true := by
  induction mid using List.reverseRecOn with
  | nil => simp [armed_canPush]
  | append_singleton mid e ih =>
      have hrest := ih fun e' he' => hmid e' (by simp [he'])
      cases e with
      | push message result => exact Bool.noConfusion (hmid (.push message result) (by simp))
      | canPush value =>
          rw [← List.cons_append, ← List.append_assoc, armed_canPush, hrest, Bool.true_or]

/-! ## The invariant -/

def ProducerFacts (pushed : List Slot) (taken : ℕ) (ring : Ring) : ProducerPc → Prop
  | .idle => True
  | .push message pc => message.Fits ∧ PushFacts pushed taken message ring pc
  | .canPush pc => CanPushFacts ring pc

def ConsumerFacts (base : U32) (pushed : List Slot) (taken : ℕ) (ring : Ring) (message : Slot) :
    ConsumerPc → Prop
  | .idle => True
  | .pop pc => PopFacts base pushed taken ring message pc

/-- No call has returned CORRUPT. -/
structure NoCorrupt (producerReturns : List ProducerReturn) (popReturns : List PopReturn) :
    Prop where
  push : ∀ message, .push message .corrupt ∉ producerReturns
  canPush : ∀ value, .canPush value ∈ producerReturns → 0 ≤ value
  pop : ∀ r ∈ popReturns, r.result ≠ .corrupt

/-- A push of a valid message returns OK when a `can_push` before it, and after the
push before that, returned 1. -/
def Kept (returns : List ProducerReturn) : Prop :=
  ∀ earlier message result later, returns = earlier ++ .push message result :: later →
    armed earlier = true → message.Fits → result = .ok

structure Inv (base : U32) (s : State) : Prop where
  ring : s.ring.Represents base s.pushed s.popped.length
  popped : s.popped <+: s.pushed
  valid : ∀ m ∈ s.pushed, m.Fits
  producer : ProducerFacts s.pushed s.popped.length s.ring s.producer
  consumer : ConsumerFacts base s.pushed s.popped.length s.ring s.message s.consumer
  noCorrupt : NoCorrupt s.producerReturns s.popReturns
  room : armed s.producerReturns = true → s.pushed.length < s.popped.length + slotCount
  kept : Kept s.producerReturns

theorem Kept.append {returns : List ProducerReturn} (h : Kept returns) (e : ProducerReturn)
    (hlast : ∀ message result, e = .push message result → armed returns = true →
      message.Fits → result = .ok) : Kept (returns ++ [e]) := by
  intro earlier message result later heq harmed hfits
  rcases List.eq_nil_or_concat later with rfl | ⟨rest, last, rfl⟩
  · obtain ⟨rfl, hpush⟩ := List.append_inj' heq rfl
    exact hlast message result (List.singleton_inj.mp hpush) harmed hfits
  · rw [List.concat_eq_append, ← List.cons_append, ← List.append_assoc] at heq
    obtain ⟨rfl, -⟩ := List.append_inj' heq rfl
    exact h _ _ _ _ rfl harmed hfits

theorem inv_of_start {s : State} (h : Start s) : Inv s.ring.consumer s where
  ring := by
    have hempty := Library.WrapRing.represents_empty s.ring.consumer s.ring.slots
    simpa [Ring.Represents, State.pushed, State.popped, h.producerReturns, h.popReturns,
      pushedOf, poppedOf, h.counters] using hempty
  popped := by simp [State.popped, h.popReturns, poppedOf]
  valid := by simp [State.pushed, h.producerReturns, pushedOf]
  producer := by simp [h.producer, ProducerFacts]
  consumer := by simp [h.consumer, ConsumerFacts]
  noCorrupt := by constructor <;> simp [h.producerReturns, h.popReturns]
  room := by simp [h.producerReturns, armed]
  kept := by simp [Kept, h.producerReturns]

/-- A return that pushes nothing leaves the ring and its log alone. -/
theorem Inv.producerReturn {base : U32} {s : State} (h : Inv base s) {e : ProducerReturn}
    (hnone : pushedOf [e] = [])
    (hcorrupt : ∀ message, e ≠ .push message .corrupt)
    (hsign : ∀ value, e = .canPush value → 0 ≤ value)
    (hroom : armed (s.producerReturns ++ [e]) = true →
      s.pushed.length < s.popped.length + slotCount)
    (hlast : ∀ message result, e = .push message result → armed s.producerReturns = true →
      message.Fits → result = .ok) : Inv base (s.producerReturn e) := by
  have hpushed : (s.producerReturn e).pushed = s.pushed := by simp [hnone]
  refine ⟨?_, ?_, ?_, trivial, ?_, ?_, ?_, h.kept.append e hlast⟩
  · rw [hpushed]; exact h.ring
  · rw [hpushed]; exact h.popped
  · rw [hpushed]; exact h.valid
  · rw [hpushed]; exact h.consumer
  · refine ⟨?_, ?_, h.noCorrupt.pop⟩
    · intro message hmem
      rcases List.mem_append.mp hmem with hmem | hmem
      · exact h.noCorrupt.push message hmem
      · exact hcorrupt message (List.mem_singleton.mp hmem).symm
    · intro value hmem
      rcases List.mem_append.mp hmem with hmem | hmem
      · exact h.noCorrupt.canPush value hmem
      · exact hsign value (List.mem_singleton.mp hmem).symm
  · rw [hpushed]; exact hroom

theorem Inv.callPush {base : U32} {s : State} (h : Inv base s) (message : Slot) :
    Inv base (callPush s message) := by
  unfold Spsc.callPush tryPush
  split_ifs with hfits
  · exact ⟨h.ring, h.popped, h.valid, ⟨hfits, trivial⟩, h.consumer, h.noCorrupt, h.room, h.kept⟩
  · apply h.producerReturn
    · rfl
    · intro _ heq; cases heq
    · intro _ heq; cases heq
    · simp [armed_push]
    · intro _ _ heq _ hfits'
      cases heq
      exact absurd hfits' hfits

theorem Inv.producerStep {base : U32} {s t : State} (h : Inv base s)
    (hstep : producerStep s = some t) : Inv base t := by
  unfold Spsc.producerStep at hstep
  have hfacts := h.producer
  cases hpc : s.producer with
  | idle => rw [hpc] at hstep; cases hstep
  | push message pc =>
      rw [hpc] at hstep hfacts
      obtain ⟨hfits, hfacts⟩ := hfacts
      have hspec := tryPushStep_spec h.ring hfacts
      have hconsumer := tryPushStep_consumer message s.ring pc
      rcases hout : tryPushStep message s.ring pc with ⟨out, ring⟩
      rw [hout] at hspec hconsumer
      simp only [hout] at hstep
      cases out with
      | running pc' =>
          cases hstep
          refine ⟨hspec.1, h.popped, h.valid, ⟨hfits, hspec.2⟩, ?_, h.noCorrupt, h.room, h.kept⟩
          have hcons := h.consumer
          change ConsumerFacts base s.pushed s.popped.length ring s.message s.consumer
          cases hc : s.consumer with
          | idle => trivial
          | pop pc'' =>
              rw [hc] at hcons
              rw [← List.append_nil s.pushed]
              exact PopFacts.extend hcons [] hconsumer
      | returned result =>
          cases hstep
          cases result with
          | ok =>
              refine ⟨?_, ?_, ?_, trivial, ?_, ?_, ?_, h.kept.append _ ?_⟩
              · rw [State.pushed_producerReturn]; exact hspec
              · rw [State.pushed_producerReturn]
                exact h.popped.trans (List.prefix_append _ _)
              · rw [State.pushed_producerReturn, pushedOf_push_ok]
                intro m hm
                rcases List.mem_append.mp hm with hm | hm
                · exact h.valid m hm
                · exact List.mem_singleton.mp hm ▸ hfits
              · rw [State.pushed_producerReturn, pushedOf_push_ok]
                have hcons := h.consumer
                change ConsumerFacts base (s.pushed ++ [message]) s.popped.length ring
                  s.message s.consumer
                cases hc : s.consumer with
                | idle => trivial
                | pop pc'' =>
                    rw [hc] at hcons
                    exact PopFacts.extend hcons [message] hconsumer
              · refine ⟨?_, ?_, h.noCorrupt.pop⟩
                · intro m hmem
                  rcases List.mem_append.mp hmem with hmem | hmem
                  · exact h.noCorrupt.push m hmem
                  · cases List.mem_singleton.mp hmem
                · intro value hmem
                  rcases List.mem_append.mp hmem with hmem | hmem
                  · exact h.noCorrupt.canPush value hmem
                  · cases List.mem_singleton.mp hmem
              · intro harmed
                rw [State.producerReturn, armed_push] at harmed
                cases harmed
              · intro _ _ heq _ _
                cases heq
                rfl
          | full =>
              obtain ⟨rfl, hfull⟩ := hspec
              apply h.producerReturn
              · rfl
              · intro _ heq; cases heq
              · intro _ heq; cases heq
              · simp [armed_push]
              · intro _ _ _ harmed _
                have := h.room harmed
                omega
          | empty => exact hspec.elim
          | corrupt => exact hspec.elim
          | invalid => exact hspec.elim
  | canPush pc =>
      rw [hpc] at hstep hfacts
      have hspec := canPushStep_spec h.ring hfacts
      rcases hout : canPushStep s.ring pc with pc' | value
      · rw [hout] at hspec
        simp only [hout] at hstep
        cases hstep
        exact ⟨h.ring, h.popped, h.valid, hspec, h.consumer, h.noCorrupt, h.room, h.kept⟩
      · rw [hout] at hspec
        simp only [hout] at hstep
        cases hstep
        apply h.producerReturn
        · rfl
        · intro _ heq; cases heq
        · intro _ heq
          cases heq
          rcases hspec with ⟨rfl, -⟩ | ⟨rfl, -⟩ <;> decide
        · intro harmed
          rw [armed_canPush, Bool.or_eq_true, beq_iff_eq] at harmed
          rcases hspec with ⟨-, hroom⟩ | ⟨rfl, -⟩
          · exact hroom
          · exact h.room (harmed.resolve_right (by decide))
        · intro _ _ heq; cases heq

theorem Inv.consumerStep {base : U32} {s t : State} (h : Inv base s)
    (hstep : consumerStep s = some t) : Inv base t := by
  unfold Spsc.consumerStep at hstep
  have hfacts := h.consumer
  cases hpc : s.consumer with
  | idle => rw [hpc] at hstep; cases hstep
  | pop pc =>
      rw [hpc] at hstep hfacts
      have hspec := tryPopStep_spec h.ring h.valid hfacts
      have hframe := tryPopStep_frame s.ring s.message pc
      rcases hout : tryPopStep s.ring s.message pc with ⟨out, ring, message⟩
      rw [hout] at hspec hframe
      simp only [hout] at hstep
      cases out with
      | running pc' =>
          cases hstep
          obtain ⟨rfl, hpop⟩ := hspec
          exact ⟨h.ring, h.popped, h.valid, h.producer, hpop, h.noCorrupt, h.room, h.kept⟩
      | returned result =>
          cases hstep
          cases result with
          | ok =>
              obtain ⟨hring, hget⟩ := hspec
              have hlength : (s.popped ++ [message]).length = s.popped.length + 1 := by simp
              refine ⟨?_, ?_, h.valid, ?_, trivial, ?_, ?_, h.kept⟩
              · rw [State.popped_popReturn, poppedOf_ok]
                exact hlength ▸ hring
              · rw [State.popped_popReturn, poppedOf_ok]
                obtain ⟨hlt, hmessage⟩ := List.getElem?_eq_some_iff.mp hget
                change s.popped ++ [message] <+: s.pushed
                rw [List.prefix_iff_eq_take, hlength, List.take_succ_eq_append_getElem hlt]
                exact congrArg₂ (· ++ [·]) (List.prefix_iff_eq_take.mp h.popped) hmessage.symm
              · rw [State.popped_popReturn, poppedOf_ok]
                have hprod := h.producer
                change ProducerFacts s.pushed (s.popped ++ [message]).length ring s.producer
                rw [hlength]
                cases hp : s.producer with
                | idle => trivial
                | push m pc'' =>
                    rw [hp] at hprod
                    exact ⟨hprod.1, hprod.2.advance (by omega) hframe.1 hframe.2⟩
                | canPush pc'' =>
                    rw [hp] at hprod
                    cases pc'' with
                    | readProducer => trivial
                    | readConsumer producer => exact hprod.trans hframe.1.symm
              · refine ⟨h.noCorrupt.push, h.noCorrupt.canPush, ?_⟩
                intro r hmem
                rcases List.mem_append.mp hmem with hmem | hmem
                · exact h.noCorrupt.pop r hmem
                · simp [List.mem_singleton.mp hmem]
              · intro harmed
                have hroom := h.room harmed
                rw [State.popped_popReturn, poppedOf_ok]
                change s.pushed.length < (s.popped ++ [message]).length + slotCount
                omega
          | empty =>
              obtain rfl := hspec
              refine ⟨?_, ?_, h.valid, ?_, trivial, ?_, ?_, h.kept⟩
              · rw [State.popped_popReturn, poppedOf_of_ne (by decide), List.append_nil]
                exact h.ring
              · rw [State.popped_popReturn, poppedOf_of_ne (by decide), List.append_nil]
                exact h.popped
              · rw [State.popped_popReturn, poppedOf_of_ne (by decide), List.append_nil]
                exact h.producer
              · refine ⟨h.noCorrupt.push, h.noCorrupt.canPush, ?_⟩
                intro r hmem
                rcases List.mem_append.mp hmem with hmem | hmem
                · exact h.noCorrupt.pop r hmem
                · simp [List.mem_singleton.mp hmem]
              · rw [State.popped_popReturn, poppedOf_of_ne (by decide), List.append_nil]
                exact h.room
          | full => exact hspec.elim
          | corrupt => exact hspec.elim
          | invalid => exact hspec.elim

theorem Inv.step {base : U32} {s t : State} {l : Label} (h : Inv base s)
    (hstep : step l s = some t) : Inv base t := by
  cases l with
  | callPush message =>
      simp only [Spsc.step] at hstep
      split at hstep <;> cases hstep
      exact h.callPush message
  | callCanPush =>
      simp only [Spsc.step] at hstep
      split at hstep <;> cases hstep
      exact ⟨h.ring, h.popped, h.valid, trivial, h.consumer, h.noCorrupt, h.room, h.kept⟩
  | callPop =>
      simp only [Spsc.step] at hstep
      split at hstep <;> cases hstep
      exact ⟨h.ring, h.popped, h.valid, h.producer, trivial, h.noCorrupt, h.room, h.kept⟩
  | producer => exact h.producerStep hstep
  | consumer => exact h.consumerStep hstep

theorem reachable_inv {s : State} (h : Reachable spsc s) : ∃ base, Inv base s :=
  h.invariant (I := fun s => ∃ base, Inv base s) (fun _ hs => ⟨_, inv_of_start hs⟩)
    fun _ _ _ ⟨base, hs⟩ hstep => ⟨base, hs.step hstep⟩

/-! ## Instants of a call -/

/-- While a pop holds the producer value it has read, the ring was empty at some
instant of the call if that value is the consumer counter. -/
def EmptySeen {n : ℕ} (r : Run spsc n) (i : ℕ) : Prop :=
  ∀ producer, (r.state i).consumer = .pop (.readConsumer producer) →
    producer = (r.state i).ring.consumer →
    During r.state State.inPopCall State.isEmpty i

/-- A step of the other side leaves the pop and the consumer counter alone. -/
theorem step_consumer {s t : State} {l : Label} (hstep : step l s = some t)
    (hl : l ≠ .callPop) (hl' : l ≠ .consumer) :
    t.consumer = s.consumer ∧ t.ring.consumer = s.ring.consumer := by
  cases l with
  | callPush message =>
      simp only [step] at hstep
      split at hstep <;> cases hstep
      unfold callPush
      split <;> exact ⟨rfl, rfl⟩
  | callCanPush =>
      simp only [step] at hstep
      split at hstep <;> cases hstep
      exact ⟨rfl, rfl⟩
  | callPop => exact absurd rfl hl
  | consumer => exact absurd rfl hl'
  | producer =>
      simp only [step, producerStep] at hstep
      split at hstep
      · cases hstep
      · rename_i message pc _
        have hframe : (tryPushStep message s.ring pc).2.consumer = s.ring.consumer :=
          tryPushStep_consumer message s.ring pc
        rcases hout : tryPushStep message s.ring pc with ⟨out, ring⟩
        rw [hout] at hframe
        simp only [hout] at hstep
        cases out <;> cases hstep <;> exact ⟨rfl, hframe⟩
      · split at hstep <;> cases hstep <;> exact ⟨rfl, rfl⟩

/-- A pop holds the producer value it has just read, or held it before the step. -/
theorem step_readConsumer {s t : State} {l : Label} {producer : U32}
    (hstep : step l s = some t) (hpc : t.consumer = .pop (.readConsumer producer)) :
    (s.consumer = .pop .readProducer ∧ producer = s.ring.producer ∧
      t.ring.consumer = s.ring.consumer) ∨
    (s.consumer = .pop (.readConsumer producer) ∧ t.ring.consumer = s.ring.consumer) := by
  by_cases hl : l = .callPop
  · subst hl
    simp only [step] at hstep
    split at hstep <;> cases hstep
    cases hpc
  by_cases hl' : l = .consumer
  · subst hl'
    simp only [step, consumerStep] at hstep
    cases hold : s.consumer with
    | idle => simp [hold] at hstep
    | pop pc =>
        rw [hold] at hstep
        rcases hout : tryPopStep s.ring s.message pc with ⟨out, ring, message⟩
        simp only [hout] at hstep
        cases out with
        | returned result => cases hstep; cases hpc
        | running pc' =>
            cases hstep
            cases hpc
            cases pc with
            | readProducer => cases hout; exact .inl ⟨rfl, rfl, rfl⟩
            | readConsumer producer' =>
                simp only [tryPopStep] at hout
                split at hout
                · cases hout
                · split_ifs at hout <;> cases hout
            | copySlot consumer => cases hout
            | publish consumer => cases hout
  · obtain ⟨hsame, hcounter⟩ := step_consumer hstep hl hl'
    exact .inr ⟨hsame ▸ hpc, hcounter⟩

theorem emptySeen {n : ℕ} (r : Run spsc n) {i : ℕ} (hi : i ≤ n) : EmptySeen r i := by
  induction i with
  | zero =>
      intro producer hpc
      rw [r.start.consumer] at hpc
      cases hpc
  | succ i ih =>
      intro producer hpc heq
      have hcall : (r.state (i + 1)).inPopCall := by simp [State.inPopCall, hpc]
      rcases step_readConsumer (r.next i (by omega)) hpc with ⟨hold, hread, hsame⟩ | ⟨hold, hsame⟩
      · -- the read of the producer counter is the instant
        have hempty : (r.state i).isEmpty := by rw [State.isEmpty, ← hread, heq, hsame]
        exact (During.now (by simp [State.inPopCall, hold]) hempty).succ hcall
      · exact (ih (by omega) producer hold (heq.trans hsame)).succ hcall

/-- A pop that returns EMPTY has read equal counters. -/
theorem step_pop_empty {s t : State} {l : Label} {message : Slot} (hstep : step l s = some t)
    (hret : t.popReturns = s.popReturns ++ [⟨.empty, message⟩]) :
    s.consumer = .pop (.readConsumer s.ring.consumer) := by
  have hne : ∀ (returns : List PopReturn) (r : PopReturn), returns ≠ returns ++ [r] :=
    fun returns r h => by simpa using congrArg List.length h
  cases l with
  | callPush message' =>
      simp only [step] at hstep
      split at hstep <;> cases hstep
      unfold callPush at hret
      split at hret <;> exact absurd hret (hne _ _)
  | callCanPush =>
      simp only [step] at hstep
      split at hstep <;> cases hstep
      exact absurd hret (hne _ _)
  | callPop =>
      simp only [step] at hstep
      split at hstep <;> cases hstep
      exact absurd hret (hne _ _)
  | producer =>
      simp only [step, producerStep] at hstep
      split at hstep
      · cases hstep
      · split at hstep <;> cases hstep <;> exact absurd hret (hne _ _)
      · split at hstep <;> cases hstep <;> exact absurd hret (hne _ _)
  | consumer =>
      simp only [step, consumerStep] at hstep
      cases hold : s.consumer with
      | idle => simp [hold] at hstep
      | pop pc =>
          rw [hold] at hstep
          rcases hout : tryPopStep s.ring s.message pc with ⟨out, ring, message'⟩
          simp only [hout] at hstep
          cases out with
          | running pc' => cases hstep; exact absurd hret (hne _ _)
          | returned result =>
              cases hstep
              obtain rfl : result = .empty := by
                simpa [State.popReturn] using congrArg PopReturn.result
                  (List.singleton_inj.mp (List.append_cancel_left hret))
              cases pc with
              | readProducer => cases hout
              | readConsumer producer =>
                  simp only [tryPopStep, readOccupancy] at hout
                  split at hout
                  · cases hout
                  · rename_i occupancy hocc
                    split_ifs at hocc
                    obtain rfl := Option.some.inj hocc
                    split_ifs at hout with hzero
                    · have heq : producer - s.ring.consumer = 0#32 := BitVec.eq_of_toNat_eq hzero
                      rw [sub_eq_zero.mp heq]
                    · cases hout
              | copySlot consumer => cases hout
              | publish consumer =>
                  simp only [tryPopStep] at hout
                  split_ifs at hout <;> cases hout

/-- A push that returns FULL does so at the read of the consumer counter, when the
difference to its own counter is the capacity. -/
theorem step_push_full {base : U32} {s t : State} {l : Label} {message : Slot} (h : Inv base s)
    (hstep : step l s = some t)
    (hret : t.producerReturns = s.producerReturns ++ [.push message .full]) :
    s.inProducerCall ∧ s.isFull := by
  have hne : ∀ (returns : List ProducerReturn) (r : ProducerReturn), returns ≠ returns ++ [r] :=
    fun returns r h => by simpa using congrArg List.length h
  have hlast : ∀ (returns : List ProducerReturn) (e e' : ProducerReturn),
      returns ++ [e] = returns ++ [e'] → e = e' :=
    fun _ _ _ heq => List.singleton_inj.mp (List.append_cancel_left heq)
  cases l with
  | callPush message' =>
      simp only [step] at hstep
      split at hstep <;> cases hstep
      unfold callPush tryPush at hret
      split_ifs at hret
      · exact absurd hret (hne _ _)
      · cases hlast _ _ _ hret
  | callCanPush =>
      simp only [step] at hstep
      split at hstep <;> cases hstep
      exact absurd hret (hne _ _)
  | callPop =>
      simp only [step] at hstep
      split at hstep <;> cases hstep
      exact absurd hret (hne _ _)
  | consumer =>
      simp only [step, consumerStep] at hstep
      split at hstep
      · cases hstep
      · split at hstep <;> cases hstep <;> exact absurd hret (hne _ _)
  | producer =>
      have hfacts := h.producer
      simp only [step, producerStep] at hstep
      cases hold : s.producer with
      | idle => simp [hold] at hstep
      | push message' pc =>
          rw [hold] at hstep hfacts
          have hspec := tryPushStep_spec h.ring hfacts.2
          rcases hout : tryPushStep message' s.ring pc with ⟨out, ring⟩
          rw [hout] at hspec
          simp only [hout] at hstep
          cases out with
          | running pc' => cases hstep; exact absurd hret (hne _ _)
          | returned result =>
              cases hstep
              cases hlast _ _ _ hret
              have hocc := h.ring.occupancy
              refine ⟨by simp [State.inProducerCall, hold], ?_⟩
              rw [State.isFull, hocc]
              have := hspec.2
              omega
      | canPush pc =>
          rw [hold] at hstep
          rcases hout : canPushStep s.ring pc with pc' | value
          · simp only [hout] at hstep
            cases hstep
            exact absurd hret (hne _ _)
          · simp only [hout] at hstep
            cases hstep
            cases hlast _ _ _ hret

/-! ## Linearizability -/

/-- What a run of one producer and one consumer guarantees. -/
structure Linearizable {n : ℕ} (r : Run spsc n) : Prop where
  /-- The messages popped are a prefix of the messages whose push returned OK. -/
  fifo : ∀ i, i ≤ n → (r.state i).popped <+: (r.state i).pushed
  /-- At most 64 messages are in the ring, and the counters say how many. -/
  bounded : ∀ i, i ≤ n →
    (r.state i).pushed.length ≤ (r.state i).popped.length + slotCount ∧
    ((r.state i).ring.producer - (r.state i).ring.consumer).toNat =
      (r.state i).pushed.length - (r.state i).popped.length
  /-- The slot a push is about to write is not the one a pop is reading. -/
  exclusive : ∀ i, i ≤ n → ∀ message producer consumer,
    (r.state i).producer = .push message (.copySlot producer) →
    (r.state i).consumer = .pop (.copySlot consumer) ∨
      (r.state i).consumer = .pop (.publish consumer) →
    slotIndex producer ≠ slotIndex consumer
  /-- FULL is returned only if the ring was full at some instant of the call. -/
  full : ∀ i, i < n → ∀ message,
    (r.state (i + 1)).producerReturns = (r.state i).producerReturns ++ [.push message .full] →
    During r.state State.inProducerCall State.isFull i
  /-- EMPTY is returned only if the ring was empty at some instant of the call. -/
  empty : ∀ i, i < n → ∀ message,
    (r.state (i + 1)).popReturns = (r.state i).popReturns ++ [⟨.empty, message⟩] →
    During r.state State.inPopCall State.isEmpty i
  noCorrupt : ∀ i, i ≤ n → NoCorrupt (r.state i).producerReturns (r.state i).popReturns
  /-- The first push after a `can_push` that returned 1 returns OK if its message is
  valid. -/
  canPush : ∀ i, i ≤ n → ∀ earlier between message result later,
    (r.state i).producerReturns =
      (earlier ++ .canPush 1 :: between) ++ .push message result :: later →
    (∀ e ∈ between, e.isPush = false) → message.Fits → result = .ok

theorem Inv.exclusive {base : U32} {s : State} (h : Inv base s) {message : Slot}
    {producer consumer : U32} (hproducer : s.producer = .push message (.copySlot producer))
    (hconsumer : s.consumer = .pop (.copySlot consumer) ∨
      s.consumer = .pop (.publish consumer)) : slotIndex producer ≠ slotIndex consumer := by
  have hp := h.producer
  have hc := h.consumer
  rw [hproducer] at hp
  obtain ⟨-, rfl, hroom⟩ := hp
  have htaken : consumer = s.ring.consumer ∧ s.popped.length < s.pushed.length := by
    rcases hconsumer with hconsumer | hconsumer <;> rw [hconsumer] at hc
    · exact hc
    · exact ⟨hc.1, (List.getElem?_eq_some_iff.mp hc.2).1⟩
  obtain ⟨rfl, htaken⟩ := htaken
  simpa using h.ring.slotIndex_ne (k := 0) (by omega) htaken

end Sg200x.Ipc.Spsc
