import Sg200x.Ipc.FirmwareFacts
import Sg200x.Library.Service
import Sg200x.Library.Transition

/-!
# The channel of one generation

The calls that hold `tx_lock`, the calls that hold `rx_lock` and the firmware's
process calls, interleaved access by access.  The state keeps the history of the
messages: what Linux has published, what the firmware has handed to the application
and published in turn, and what Linux has taken.
-/

namespace Sg200x.Ipc.Channel

open Shm RingCore App Firmware Driver Library Library.Transition

structure State where
  transport : Transport
  region : Region
  /-- The call that holds `tx_lock`. -/
  tx : Option (TxCall × TxPc)
  /-- The call that holds `rx_lock`. -/
  rx : Option (RxCall × RxPc)
  /-- The process call in progress. -/
  firmware : Option ProcessPc
  statics : Statics
  published : List Slot
  executed : List (Mmio × Slot)
  answered : List Slot
  taken : List Slot

inductive Label
  | txCall (call : TxCall)
  | tx (answer : Answer)
  | rxCall (call : RxCall)
  | rx (answer : Answer)
  | process
  /-- `mmio` is what the registers read during the step. -/
  | firmware (mmio : Mmio)

def txStep (s : State) (answer : Answer) : Option State :=
  match s.tx with
  | none => none
  | some (call, pc) =>
      let (out, transport, region) := Driver.txStep call answer s.transport s.region pc
      some { s with
        transport := transport
        region := region
        tx := out.pc?.map (call, ·)
        published := s.published ++ pc.published }

def rxStep (s : State) (answer : Answer) : Option State :=
  match s.rx with
  | none => none
  | some (call, pc) =>
      let (out, transport, region) := Driver.rxStep call answer s.transport s.region pc
      some { s with
        transport := transport
        region := region
        rx := out.pc?.map (call, ·)
        taken := s.taken ++ pc.delivered }

def firmwareStep (s : State) (mmio : Mmio) : Option State :=
  match s.firmware with
  | none => none
  | some pc =>
      let (out, region, statics) := processStep mmio s.region s.statics pc
      some { s with
        region := region
        firmware := out.pc?
        statics := statics
        executed := s.executed ++ pc.handles mmio s.statics
        answered := s.answered ++ pc.pushes s.statics }

def step : Label → State → Option State
  | .txCall call, s =>
      match s.tx with
      | none => some { s with tx := call.enter.pc?.map (call, ·) }
      | some _ => none
  | .tx answer, s => txStep s answer
  | .rxCall call, s =>
      match s.rx with
      | none => some { s with rx := call.enter.pc?.map (call, ·) }
      | some _ => none
  | .rx answer, s => rxStep s answer
  | .process, s =>
      match s.firmware with
      | none => some { s with firmware := some .readGeneration }
      | some _ => none
  | .firmware mmio, s => firmwareStep s mmio

/-- `initialize_generation` has set up the region and the firmware has attached. -/
structure Start (s : State) : Prop where
  established : Established s.transport.generation s.transport s.region
  active : s.statics.activeGeneration = s.transport.generation
  requestProducer : s.region.request.producer = 0#32
  requestConsumer : s.region.request.consumer = 0#32
  responseProducer : s.region.response.producer = 0#32
  responseConsumer : s.region.response.consumer = 0#32
  tx : s.tx = none
  rx : s.rx = none
  firmware : s.firmware = none
  published : s.published = []
  executed : s.executed = []
  answered : s.answered = []
  taken : s.taken = []

def channel : System State Label := ⟨Start, step⟩

/-! ## The invariant -/

/-- The requests that have left the request ring. -/
def State.popped (s : State) : ℕ := s.executed.length + held s.firmware

structure Inv (g : U32) (s : State) : Prop where
  established : Established g s.transport s.region
  active : s.statics.activeGeneration = g
  request : s.region.request.Represents 0#32 s.published s.popped
  response : s.region.response.Represents 0#32 s.answered s.taken.length
  sound : ∀ m ∈ s.published, Sound m
  executed : s.executed.map Prod.snd <+: s.published
  answered : s.executed.map (fun e => respond e.1 e.2) = s.answered ++ owed s.statics s.firmware
  taken : s.taken <+: s.answered
  tx : ∀ call pc, s.tx = some (call, pc) →
    call.Accepted ∧ TxFacts g 0#32 s.published s.popped s.region.request pc
  rx : ∀ call pc, s.rx = some (call, pc) →
    call.Accepted ∧ RxFacts g 0#32 s.answered s.taken.length s.region.response pc
  firmware : ∀ pc, s.firmware = some pc →
    ProcessFacts g 0#32 s.published s.popped s.answered s.taken.length s.region s.statics pc

theorem inv_of_start {s : State} (h : Start s) : Inv s.transport.generation s where
  established := h.established
  active := h.active
  request := by
    have hempty := WrapRing.represents_empty 0#32 s.region.request.slots
    simpa [Ring.Represents, State.popped, held, h.published, h.executed, h.firmware,
      h.requestProducer, h.requestConsumer] using hempty
  response := by
    have hempty := WrapRing.represents_empty 0#32 s.region.response.slots
    simpa [Ring.Represents, h.answered, h.taken, h.responseProducer, h.responseConsumer]
      using hempty
  sound := by simp [h.published]
  executed := by simp [h.executed]
  answered := by simp [h.executed, h.answered, h.firmware, owed]
  taken := by simp [h.taken]
  tx := by simp [h.tx]
  rx := by simp [h.rx]
  firmware := by simp [h.firmware]

theorem Inv.attached {g : U32} {s : State} (h : Inv g s) : Attached g s.region s.statics where
  layout := h.established.layout
  linuxPeer := h.established.linuxPeer
  active := h.active
  nonzero := h.established.nonzero

/-- Every response answers a request that has been published. -/
theorem Inv.answered_prefix {g : U32} {s : State} (h : Inv g s) :
    s.answered <+: s.executed.map fun e => respond e.1 e.2 :=
  h.answered ▸ List.prefix_append _ _

theorem Inv.sound_answered {g : U32} {s : State} (h : Inv g s) : ∀ m ∈ s.answered, Sound m := by
  intro m hm
  obtain ⟨e, he, rfl⟩ := List.mem_map.mp (h.answered_prefix.subset hm)
  have hrequest := h.sound _ (h.executed.subset (List.mem_map_of_mem he))
  exact ⟨respond_fits e.1 e.2, hrequest.2⟩

/-- A call of Linux keeps the lines that `rtos_ready` reads. -/
theorem established_of_same {g : U32} {transport transport' : Transport} {region region' : Region}
    (h : Established g transport region) (hsame : SameChannel transport transport')
    (hlayout : region'.layout = region.layout) (hlinux : region'.linuxPeer = region.linuxPeer)
    (hrtos : region'.rtosPeer = region.rtosPeer) : Established g transport' region' where
  nonzero := h.nonzero
  running := hsame.shuttingDown.trans h.running
  generation := hsame.generation.trans h.generation
  layout := hlayout ▸ h.layout
  linuxPeer := hlinux.trans h.linuxPeer
  rtosPeer := hrtos.trans h.rtosPeer

/-! ## Each party keeps the invariant -/

theorem Inv.txStep {g : U32} {s t : State} (h : Inv g s) {answer : Answer}
    (hstep : txStep s answer = some t) : Inv g t := by
  unfold Channel.txStep at hstep
  rcases htx : s.tx with - | ⟨call, pc⟩
  · rw [htx] at hstep
    cases hstep
  · obtain ⟨hcall, hfacts⟩ := h.tx call pc htx
    obtain ⟨hsame, hregion, hconsumer⟩ := txStep_frame call answer s.transport s.region pc
    obtain ⟨hring, hsound, hout⟩ :=
      txStep_spec h.established hcall h.request hfacts answer
    rcases hresult : Driver.txStep call answer s.transport s.region pc with
      ⟨out, transport, region⟩
    rw [hresult] at hsame hregion hconsumer hring hout
    simp only [htx, hresult] at hstep
    cases hstep
    dsimp only at hregion hconsumer hring hout
    have hlayout : region.layout = s.region.layout := by rw [hregion]
    have hlinux : region.linuxPeer = s.region.linuxPeer := by rw [hregion]
    have hrtos : region.rtosPeer = s.region.rtosPeer := by rw [hregion]
    have hresponse : region.response = s.region.response := by rw [hregion]
    refine ⟨established_of_same h.established hsame hlayout hlinux hrtos, h.active, hring, ?_, ?_,
      h.executed.trans (List.prefix_append _ _), h.answered, h.taken, ?_, ?_, ?_⟩
    · exact hresponse ▸ h.response
    · intro m hm
      exact (List.mem_append.mp hm).elim (h.sound m) (hsound m)
    · intro call' pc' hpc'
      cases out with
      | running pc'' => cases hpc'; exact ⟨hcall, hout⟩
      | returned ret => cases hpc'
    · intro call' pc' hpc'
      exact hresponse ▸ h.rx call' pc' hpc'
    · intro pc' hpc'
      exact (h.firmware pc' hpc').stable pc.published (Nat.le_refl _) hconsumer
        (by rw [hresponse]) (by rw [hresponse])

theorem Inv.rxStep {g : U32} {s t : State} (h : Inv g s) {answer : Answer}
    (hstep : rxStep s answer = some t) : Inv g t := by
  unfold Channel.rxStep at hstep
  rcases hrx : s.rx with - | ⟨call, pc⟩
  · rw [hrx] at hstep
    cases hstep
  · obtain ⟨hcall, hfacts⟩ := h.rx call pc hrx
    obtain ⟨hsame, hregion, hproducer, hslots⟩ :=
      rxStep_frame call answer s.transport s.region pc
    obtain ⟨hring, hcopied, hout⟩ :=
      rxStep_spec h.established hcall h.response h.sound_answered hfacts answer
    rcases hresult : Driver.rxStep call answer s.transport s.region pc with
      ⟨out, transport, region⟩
    rw [hresult] at hsame hregion hproducer hslots hring hout
    simp only [hrx, hresult] at hstep
    cases hstep
    dsimp only at hregion hproducer hslots hring hout
    have hlayout : region.layout = s.region.layout := by rw [hregion]
    have hlinux : region.linuxPeer = s.region.linuxPeer := by rw [hregion]
    have hrtos : region.rtosPeer = s.region.rtosPeer := by rw [hregion]
    have hrequest : region.request = s.region.request := by rw [hregion]
    have hlength : (s.taken ++ pc.delivered).length = s.taken.length + pc.delivered.length :=
      List.length_append
    refine ⟨established_of_same h.established hsame hlayout hlinux hrtos, h.active, ?_, ?_, h.sound,
      h.executed, h.answered, ?_, ?_, ?_, ?_⟩
    · exact hrequest ▸ h.request
    · rwa [hlength]
    · obtain ⟨rest, hrest⟩ := h.taken
      have hdrop : s.answered.drop s.taken.length = rest := by rw [← hrest, List.drop_left]
      rw [Copied, hdrop] at hcopied
      rw [← hrest]
      exact (List.prefix_append_right_inj _).mpr hcopied
    · intro call' pc' hpc'
      exact hrequest ▸ h.tx call' pc' hpc'
    · intro call' pc' hpc'
      cases out with
      | running pc'' => cases hpc'; rw [hlength]; exact ⟨hcall, hout⟩
      | returned ret => cases hpc'
    · intro pc' hpc'
      rw [← List.append_nil s.published]
      exact (h.firmware pc' hpc').stable [] (by rw [hlength]; omega) (by rw [hrequest]) hproducer
        hslots

theorem Inv.firmwareStep {g : U32} {s t : State} (h : Inv g s) {mmio : Mmio}
    (hstep : firmwareStep s mmio = some t) : Inv g t := by
  unfold Channel.firmwareStep at hstep
  rcases hfw : s.firmware with - | pc
  · rw [hfw] at hstep
    cases hstep
  · have hfacts := h.firmware pc hfw
    obtain ⟨hlayout, hlinux, hproducer, hslots, hconsumer⟩ :=
      processStep_frame mmio s.region s.statics pc
    rcases hresult : processStep mmio s.region s.statics pc with ⟨out, region, statics⟩
    rw [hresult] at hlayout hlinux hproducer hslots hconsumer
    have hspec := processStep_spec h.attached h.request h.response h.sound mmio hfacts hresult
    simp only [hfw, hresult] at hstep
    cases hstep
    dsimp only at hlayout hlinux hproducer hslots hconsumer
    have hheld := hspec.held
    have howed := hspec.owed
    have hanswered := h.answered
    rw [hfw] at hanswered
    have hpopped : (s.executed ++ pc.handles mmio s.statics).length + held out.pc? =
        s.popped + pc.pops := by
      rw [State.popped, hfw, List.length_append]
      omega
    refine ⟨established_of_same h.established (.refl _) hlayout hlinux hspec.rtosPeer,
      hspec.active.trans h.active, ?_, hspec.response, h.sound, ?_, ?_,
      h.taken.trans (List.prefix_append _ _), ?_, ?_, ?_⟩
    · change region.request.Represents 0#32 s.published (_ + held out.pc?)
      rw [hpopped]
      exact hspec.request
    · -- the request handed over is the next one published
      cases pc with
      | handle count =>
          obtain ⟨-, n, hn, hget⟩ := hfacts
          have hlength : n = s.executed.length := by
            rw [State.popped, hfw] at hn
            exact (Nat.succ.inj hn).symm
          rw [ProcessPc.handles, List.map_append]
          exact Service.prefix_append_next h.executed (by rwa [List.length_map, ← hlength])
      | _ => exact (List.append_nil s.executed).symm ▸ h.executed
    · rw [List.map_append, hanswered, List.append_assoc, List.append_assoc, howed]
    · intro call' pc' hpc'
      change call'.Accepted ∧ TxFacts g 0#32 s.published (_ + held out.pc?) region.request pc'
      rw [hpopped]
      obtain ⟨hcall, htx⟩ := h.tx call' pc' hpc'
      exact ⟨hcall, htx.advance (by omega) hproducer hslots⟩
    · intro call' pc' hpc'
      obtain ⟨hcall, hrx⟩ := h.rx call' pc' hpc'
      exact ⟨hcall, hrx.extend _ h.response.taken_le hconsumer⟩
    · intro pc' hpc'
      change ProcessFacts g 0#32 s.published (_ + held out.pc?) _ _ region statics pc'
      rw [hpopped]
      have hmeets := hspec.facts
      cases out with
      | running pc'' => cases hpc'; exact hmeets
      | returned ret => cases hpc'

theorem Inv.firmwareStep_popped {g : U32} {s t : State} (h : Inv g s) {mmio : Mmio}
    {pc : ProcessPc} (hfw : s.firmware = some pc)
    (hstep : Channel.firmwareStep s mmio = some t) : t.popped = s.popped + pc.pops := by
  unfold Channel.firmwareStep at hstep
  rcases hresult : processStep mmio s.region s.statics pc with ⟨out, region, statics⟩
  have hspec := processStep_spec h.attached h.request h.response h.sound mmio (h.firmware pc hfw)
    hresult
  have hheld := hspec.held
  simp only [hfw, hresult] at hstep
  cases hstep
  unfold State.popped
  rw [hfw, List.length_append]
  dsimp only
  omega

theorem Inv.step {g : U32} {s t : State} {l : Label} (h : Inv g s) (hstep : step l s = some t) :
    Inv g t := by
  cases l with
  | txCall call =>
      simp only [Channel.step] at hstep
      split at hstep
      · cases hstep
        refine ⟨h.established, h.active, h.request, h.response, h.sound, h.executed, h.answered,
          h.taken, ?_, h.rx, h.firmware⟩
        intro call' pc' hpc'
        rcases hout : call.enter with pc | ret <;> rw [hout] at hpc'
        · cases hpc'
          obtain ⟨hcall, rfl⟩ := TxCall.accepted_of_enter hout
          exact ⟨hcall, txFacts_loop _⟩
        · cases hpc'
      · cases hstep
  | tx answer => exact h.txStep hstep
  | rxCall call =>
      simp only [Channel.step] at hstep
      split at hstep
      · cases hstep
        refine ⟨h.established, h.active, h.request, h.response, h.sound, h.executed, h.answered,
          h.taken, h.tx, ?_, h.firmware⟩
        intro call' pc' hpc'
        rcases hout : call.enter with pc | ret <;> rw [hout] at hpc'
        · cases hpc'
          obtain ⟨hcall, rfl⟩ := RxCall.accepted_of_enter hout
          exact ⟨hcall, rxFacts_loop _⟩
        · cases hpc'
      · cases hstep
  | rx answer => exact h.rxStep hstep
  | process =>
      simp only [Channel.step] at hstep
      split at hstep
      · rename_i hidle
        cases hstep
        have hpopped : { s with firmware := some .readGeneration }.popped = s.popped := by
          rw [State.popped, State.popped, hidle]
          rfl
        refine ⟨h.established, h.active, ?_, h.response, h.sound, h.executed, ?_, h.taken, ?_, h.rx,
          ?_⟩
        · rw [hpopped]
          exact h.request
        · have := h.answered
          rwa [hidle] at this
        · rw [hpopped]
          exact h.tx
        · intro pc' hpc'
          cases hpc'
          trivial
      · cases hstep
  | firmware mmio => exact h.firmwareStep hstep

theorem reachable_inv {s : State} (h : Reachable channel s) : ∃ g, Inv g s :=
  h.invariant (I := fun s => ∃ g, Inv g s) (fun _ hs => ⟨_, inv_of_start hs⟩)
    fun _ _ _ ⟨g, hs⟩ hstep => ⟨g, hs.step hstep⟩

/-! ## The channel as an in-order service -/

def State.service (s : State) : Service Slot Mmio := ⟨s.published, s.executed, s.taken.length⟩

theorem Inv.inOrder {g : U32} {s : State} (h : Inv g s) : s.service.InOrder where
  executed := h.executed
  delivered := by
    have hanswered := h.answered_prefix.length_le
    rw [List.length_map] at hanswered
    exact h.taken.length_le.trans hanswered

/-- Publishing a request submits it, handing it to the application executes it, and
returning a response to the ring delivers it; every other step is invisible. -/
theorem Inv.refines {g : U32} {s t : State} {l : Label} (h : Inv g s)
    (hstep : Channel.step l s = some t) : Service.Step s.service t.service ∨ t.service = s.service := by
  have ht := (h.step hstep).inOrder
  cases l with
  | txCall call | rxCall call | process =>
      simp only [Channel.step] at hstep
      split at hstep <;> cases hstep
      exact .inr rfl
  | tx answer =>
      simp only [Channel.step, Channel.txStep] at hstep
      split at hstep <;> cases hstep
      exact .inl (.submit s.service _)
  | rx answer =>
      simp only [Channel.step, Channel.rxStep] at hstep
      split at hstep
      · cases hstep
      · rename_i call pc _
        cases hstep
        left
        have hdelivered := ht.delivered
        simp only [State.service, List.length_append] at hdelivered ⊢
        exact .deliver s.service pc.delivered.length hdelivered
  | firmware mmio =>
      simp only [Channel.step, Channel.firmwareStep] at hstep
      cases hfw : s.firmware with
      | none => rw [hfw] at hstep; cases hstep
      | some pc =>
          simp only [hfw] at hstep
          cases hstep
          cases pc with
          | handle count =>
              obtain ⟨-, n, hn, hget⟩ := h.firmware _ hfw
              have hlength : n = s.executed.length := by
                rw [State.popped, hfw] at hn
                exact (Nat.succ.inj hn).symm
              exact .inl (.execute s.service mmio s.statics.requestMessage (hlength ▸ hget))
          | _ => exact .inr (by simp [State.service, ProcessPc.handles])

/-! ## Exactly once -/

/-- What holds of the channel at every instant. -/
structure ExactlyOnce (s : State) : Prop where
  /-- Linux has taken the handler's responses to the published requests, in order. -/
  order : s.taken <+: List.zipWith respond (s.executed.map Prod.fst) s.published
  sequence : s.taken.map Slot.sequence <+: s.published.map Slot.sequence
  /-- Every request is executed once, in order. -/
  executed : s.executed.map Prod.snd <+: s.published
  /-- Every response but the one being pushed is in the ring or taken. -/
  answered : s.executed.map (fun e => respond e.1 e.2) = s.answered ++ owed s.statics s.firmware
  room : ∀ count pc, s.firmware = some (.tryPush count pc) →
    (tryPushStep s.statics.responseMessage s.region.response pc).1 ≠ .returned .full
  txHealthy : ∀ call pc answer, s.tx = some (call, pc) →
    (Driver.txStep call answer s.transport s.region pc).1 ≠ .returned .eproto
  rxHealthy : ∀ call pc answer, s.rx = some (call, pc) →
    (Driver.rxStep call answer s.transport s.region pc).1 ≠ .returned .eproto
  firmwareHealthy : s.firmware ≠ some .corruptGeneration ∧ s.firmware ≠ some .corruptState

theorem Inv.exactlyOnce {g : U32} {s : State} (h : Inv g s) : ExactlyOnce s where
  order := by
    have hresponses := h.inOrder.responses_eq respond
    rw [State.service] at hresponses
    exact hresponses ▸ h.taken.trans h.answered_prefix
  sequence := by
    have hmap := (h.taken.trans h.answered_prefix).map Slot.sequence
    rw [List.map_map] at hmap
    have hexecuted := h.executed.map Slot.sequence
    rw [List.map_map] at hexecuted
    exact hmap.trans hexecuted
  executed := h.executed
  answered := h.answered
  room := by
    intro count pc hfw heq
    obtain ⟨hroom, hpush⟩ := h.firmware _ hfw
    have hspec := tryPushStep_spec h.response hpush
    rcases hout : tryPushStep s.statics.responseMessage s.region.response pc with ⟨out, ring⟩
    rw [hout] at heq hspec
    dsimp only at heq
    subst heq
    exact absurd hspec.2 (by omega)
  txHealthy := by
    intro call pc answer htx heq
    obtain ⟨hcall, hfacts⟩ := h.tx call pc htx
    have hspec := (txStep_spec h.established hcall h.request hfacts answer).2.2
    rw [heq] at hspec
    exact hspec rfl
  rxHealthy := by
    intro call pc answer hrx heq
    obtain ⟨hcall, hfacts⟩ := h.rx call pc hrx
    have hspec :=
      (rxStep_spec h.established hcall h.response h.sound_answered hfacts answer).2.2
    rw [heq] at hspec
    exact hspec rfl
  firmwareHealthy := ⟨fun hfw => (h.firmware _ hfw).elim, fun hfw => (h.firmware _ hfw).elim⟩

theorem exactly_once {s : State} (h : Reachable channel s) : ExactlyOnce s := by
  obtain ⟨g, hinv⟩ := reachable_inv h
  exact hinv.exactlyOnce

/-- The region and the driver just after the hand-over of the generation `g`. -/
def State.initial (g : U32) : State where
  transport := ⟨some 0, g, 1#32, 0#32, 0, false, false⟩
  region :=
    { layout := ⟨Shm.magic, Shm.abiVersion, Shm.controlSize, Shm.regionSize, Shm.slotSize, 64#16,
        Shm.requestOffset, Shm.responseOffset, g, Shm.features⟩
      linuxPeer := ⟨stateReady, g⟩
      rtosPeer := ⟨stateReady, g⟩
      request := ⟨0#32, 0#32, fun _ => Slot.zero⟩
      response := ⟨0#32, 0#32, fun _ => Slot.zero⟩ }
  tx := none
  rx := none
  firmware := none
  statics := ⟨g, Slot.zero, Slot.zero⟩
  published := []
  executed := []
  answered := []
  taken := []

theorem start_initial {g : U32} (hg : g ≠ 0#32) : Start (State.initial g) := by
  refine ⟨⟨hg, rfl, rfl, fun read => ?_, rfl, rfl⟩, rfl, rfl, rfl, rfl, rfl, rfl, rfl, rfl, rfl,
    rfl, rfl, rfl⟩
  cases read <;> simp [LayoutRead.passes, State.initial, slotCount]

/-- One request sent, answered and received. -/
def roundTrip : List Label :=
  .txCall (sendMessage Slot.zero true) :: List.replicate 25 (.tx .done) ++
    .process :: List.replicate 29 (.firmware fun _ => 0#32) ++
    .rxCall (receiveMessage true) :: List.replicate 23 (.rx .done)

theorem exactly_once_roundTrip :
    ∃ s, exec step roundTrip (State.initial 1#32) = some s ∧ s.taken.length = 1 ∧
      ExactlyOnce s := by
  have hrun : (exec step roundTrip (State.initial 1#32)).map (fun s => s.taken.length) =
      some 1 := by decide +kernel
  obtain ⟨s, hs, htaken⟩ := Option.map_eq_some_iff.mp hrun
  have hstart : Reachable channel (State.initial 1#32) := .start (start_initial (by decide))
  exact ⟨s, hs, htaken, exactly_once (hstart.exec hs)⟩

end Sg200x.Ipc.Channel
