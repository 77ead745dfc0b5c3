import Sg200x.Ipc.Driver
import Mathlib.Data.List.Sublists

/-!
# What the driver's calls know on an established channel

The facts that hold at each point of a call while the channel of one generation
stays established, and what each step of the call does to its ring.
-/

namespace Sg200x.Ipc.Driver

open Shm RingCore Library.WrapRing

/-- What `rtos_ready` tests for the generation `g`. -/
structure Established (g : U32) (transport : Transport) (region : Region) : Prop where
  nonzero : g ≠ 0#32
  running : transport.shuttingDown = false
  generation : transport.generation = g
  layout : ∀ read : LayoutRead, read.passes region.layout g = true
  linuxPeer : region.linuxPeer = ⟨stateReady, g⟩
  rtosPeer : region.rtosPeer = ⟨stateReady, g⟩

/-- A request or a response that no receiver rejects. -/
def Sound (message : Slot) : Prop := message.Fits ∧ message.sequence ≠ 0#32

/-- Whether a read is compared with the local variable of `rtos_ready`. -/
def ReadyRead.usesGeneration : ReadyRead → Bool
  | .layout read => read = .generation
  | .layoutGeneration | .linuxGeneration | .rtosGeneration => true
  | _ => false

/-- What is left to read, and the local variable once it has been set. -/
def ReadyFacts (g : U32) (pc : ReadyPc) : Prop :=
  pc.reads ∈ rtosReady.tails ∧ (.generation ∈ pc.reads ∨ pc.generation = g)

theorem readyFacts_start (g : U32) : ReadyFacts g .start := ⟨by decide, .inl (by decide)⟩

/-- The local variable is not used before it is set. -/
theorem head_usesGeneration : ∀ reads ∈ rtosReady.tails, .generation ∈ reads →
    ∀ read ∈ reads.head?, read.usesGeneration = false := by decide

theorem Established.passes {g : U32} {transport : Transport} {region : Region}
    (h : Established g transport region) {generation : U32} {read : ReadyRead}
    (hread : read.usesGeneration = false ∨ generation = g) :
    read.passes transport region generation = true := by
  have hlayout : ∀ read : LayoutRead, read ≠ .generation ∨ generation = g →
      read.passes region.layout generation = true := by
    intro read hread
    rw [← h.layout read]
    rcases hread with hread | rfl
    · cases read <;> first | rfl | exact absurd rfl hread
    · rfl
  cases read with
  | layout read =>
      apply hlayout
      simpa [ReadyRead.usesGeneration] using hread
  | layoutGeneration =>
      exact hlayout .generation (by simpa [ReadyRead.usesGeneration] using hread)
  | linuxGeneration | rtosGeneration =>
      have hg : generation = g := by simpa [ReadyRead.usesGeneration] using hread
      simp [ReadyRead.passes, h.linuxPeer, h.rtosPeer, hg]
  | shuttingDown => simp [ReadyRead.passes, h.running]
  | generation => simp [ReadyRead.passes, h.generation, h.nonzero]
  | linuxState => simp [ReadyRead.passes, h.linuxPeer]
  | rtosState => simp [ReadyRead.passes, h.rtosPeer]

/-- On an established channel `rtos_ready` returns true. -/
theorem readyStep_spec {g : U32} {transport : Transport} {region : Region}
    (h : Established g transport region) {pc : ReadyPc} (hpc : ReadyFacts g pc) :
    match readyStep transport region pc with
    | .running pc' => ReadyFacts g pc'
    | .returned ready => ready = true := by
  obtain ⟨reads, generation⟩ := pc
  obtain ⟨htail, hset⟩ := hpc
  dsimp only at htail hset
  cases reads with
  | nil => rfl
  | cons read rest =>
      have hpass : read.passes transport region generation = true := by
        apply h.passes
        rcases hset with hset | hset
        · exact .inl (head_usesGeneration _ htail hset read rfl)
        · exact .inr hset
      have hrest : rest ∈ rtosReady.tails := by
        rw [List.mem_tails] at htail ⊢
        exact (List.suffix_cons read rest).trans htail
      simp only [readyStep, hpass, if_true]
      refine ⟨hrest, ?_⟩
      by_cases hread : read = .generation
      · rw [if_pos hread]
        exact .inr h.generation
      · rw [if_neg hread]
        exact hset.imp_left fun hmem =>
          (List.mem_cons.mp hmem).resolve_left fun heq => hread heq.symm

/-! ## A call on the request ring -/

/-- The first check of the arguments, as a property of the call. -/
structure TxCall.Accepted (call : TxCall) : Prop where
  nonempty : call.messages ≠ []
  fits : ∀ message ∈ call.messages, message.Fits

theorem TxCall.accepted_of_enter {call : TxCall} {pc : TxPc} (h : call.enter = .running pc) :
    call.Accepted ∧ pc = call.loop call.noWait := by
  unfold TxCall.enter at h
  split_ifs at h with hcount hfits
  cases h
  exact ⟨⟨fun hnil => hcount (.inl hnil), hfits⟩, rfl⟩

theorem takeSequence_ne (next : U32) : (takeSequence next).1 ≠ 0#32 := by
  unfold takeSequence
  split_ifs with h
  · decide
  · exact h

theorem length_stamp (next : U32) (messages : List Slot) :
    (stamp next messages).1.length = messages.length := by
  induction messages generalizing next with
  | nil => rfl
  | cons message messages ih => simp only [stamp, List.length_cons, ih]

theorem sound_of_mem_stamp (messages : List Slot) (hfits : ∀ message ∈ messages, message.Fits)
    (next : U32) : ∀ message ∈ (stamp next messages).1, Sound message := by
  induction messages generalizing next with
  | nil => simp [stamp]
  | cons message messages ih =>
      have hrest := ih (fun m hm => hfits m (List.mem_cons_of_mem _ hm))
      intro m hm
      simp only [stamp, List.mem_cons] at hm
      rcases hm with rfl | hm
      · exact ⟨hfits message List.mem_cons_self, takeSequence_ne next⟩
      · exact hrest _ m hm

section Tx

variable {g base : U32} {log : List Slot} {taken : ℕ} {ring : Ring} {call : TxCall}
  {transport : Transport} {region : Region}

/-- The messages of a call that has found room: `completed` slots stay free for it. -/
structure Room (log : List Slot) (taken : ℕ) (stamped : List Slot) : Prop where
  nonempty : stamped ≠ []
  free : log.length + stamped.length ≤ taken + slotCount
  sound : ∀ message ∈ stamped, Sound message

/-- The call holds `tx_lock`, so the producer counter it has read is current. -/
def TxFacts (g base : U32) (log : List Slot) (taken : ℕ) (ring : Ring) : TxPc → Prop
  | .stale _ | .readProducer _ | .wait | .kick _ => True
  | .ready _ pc => ReadyFacts g pc
  | .readConsumer _ producer => producer = ring.producer
  | .sequence producer completed =>
      producer = ring.producer ∧ 0 < completed ∧ log.length + completed ≤ taken + slotCount
  | .copyOut producer stamped | .restale producer stamped =>
      producer = ring.producer ∧ Room log taken stamped
  | .reready producer stamped pc =>
      producer = ring.producer ∧ Room log taken stamped ∧ ReadyFacts g pc
  | .copySlot producer stamped index =>
      producer = ring.producer ∧ Room log taken stamped ∧ index < stamped.length ∧
        Staged ring.slots base log.length stamped index
  | .publish producer stamped =>
      producer = ring.producer ∧ Room log taken stamped ∧
        Staged ring.slots base log.length stamped stamped.length

theorem txFacts_loop (expired : Bool) : TxFacts g base log taken ring (call.loop expired) := by
  unfold TxCall.loop
  split_ifs
  · trivial
  · exact readyFacts_start g

/-- Room that has been seen stays, since only the firmware moves the other counter. -/
theorem TxFacts.advance {pc : TxPc} (h : TxFacts g base log taken ring pc) {ring' : Ring}
    {taken' : ℕ} (hle : taken ≤ taken') (hproducer : ring'.producer = ring.producer)
    (hslots : ring'.slots = ring.slots) : TxFacts g base log taken' ring' pc := by
  have hroom : ∀ {stamped}, Room log taken stamped → Room log taken' stamped :=
    fun hroom => ⟨hroom.nonempty, by have := hroom.free; omega, hroom.sound⟩
  cases pc with
  | stale | readProducer | wait | kick => trivial
  | ready => exact h
  | readConsumer => exact Eq.trans h hproducer.symm
  | sequence => exact ⟨h.1.trans hproducer.symm, h.2.1, by have := h.2.2; omega⟩
  | copyOut | restale => exact ⟨h.1.trans hproducer.symm, hroom h.2⟩
  | reready => exact ⟨h.1.trans hproducer.symm, hroom h.2.1, h.2.2⟩
  | copySlot => exact ⟨h.1.trans hproducer.symm, hroom h.2.1, h.2.2.1, hslots ▸ h.2.2.2⟩
  | publish => exact ⟨h.1.trans hproducer.symm, hroom h.2.1, hslots ▸ h.2.2⟩

/-- The variables of the transport that no call on an established channel writes. -/
structure SameChannel (transport transport' : Transport) : Prop where
  owner : transport'.owner = transport.owner
  generation : transport'.generation = transport.generation
  notifications : transport'.notifications = transport.notifications
  shuttingDown : transport'.shuttingDown = transport.shuttingDown

theorem SameChannel.refl (transport : Transport) : SameChannel transport transport :=
  ⟨rfl, rfl, rfl, rfl⟩

theorem SameChannel.trans {transport transport' transport'' : Transport}
    (h : SameChannel transport transport') (h' : SameChannel transport' transport'') :
    SameChannel transport transport'' where
  owner := h'.owner.trans h.owner
  generation := h'.generation.trans h.generation
  notifications := h'.notifications.trans h.notifications
  shuttingDown := h'.shuttingDown.trans h.shuttingDown

theorem kickStep_frame (answer : Answer) (transport : Transport) (pc : KickPc) :
    SameChannel transport (kickStep answer transport pc).2 := by
  cases pc <;> exact ⟨rfl, rfl, rfl, rfl⟩

/-- A call on the request ring writes the producer's side of that ring only. -/
theorem txStep_frame (call : TxCall) (answer : Answer) (transport : Transport) (region : Region)
    (pc : TxPc) :
    SameChannel transport (txStep call answer transport region pc).2.1 ∧
      (txStep call answer transport region pc).2.2 =
        { region with request := (txStep call answer transport region pc).2.2.request } ∧
      (txStep call answer transport region pc).2.2.request.consumer =
        region.request.consumer := by
  cases pc with
  | kick pc =>
      have hkick := kickStep_frame answer transport pc
      rcases hout : kickStep answer transport pc with ⟨out, transport'⟩
      rw [hout] at hkick
      simp only [txStep, hout]
      cases out <;> exact ⟨hkick, rfl, rfl⟩
  | sequence producer completed => exact ⟨⟨rfl, rfl, rfl, rfl⟩, rfl, rfl⟩
  | copySlot producer stamped index => exact ⟨SameChannel.refl _, rfl, rfl⟩
  | publish producer stamped => exact ⟨SameChannel.refl _, rfl, rfl⟩
  | stale | ready | readProducer | readConsumer | wait | copyOut | restale | reready =>
      exact ⟨SameChannel.refl _, rfl, rfl⟩

theorem txStep_spec (hest : Established g transport region) (hcall : call.Accepted)
    (hring : region.request.Represents base log taken) {pc : TxPc}
    (hpc : TxFacts g base log taken region.request pc) (answer : Answer) :
    (txStep call answer transport region pc).2.2.request.Represents base
        (log ++ pc.published) taken ∧
      (∀ message ∈ pc.published, Sound message) ∧
      match (txStep call answer transport region pc).1 with
      | .running pc' =>
          TxFacts g base (log ++ pc.published) taken
            (txStep call answer transport region pc).2.2.request pc'
      | .returned ret => ret ≠ .eproto := by
  have hbound := hring.bounded
  cases pc with
  | stale expired =>
      simp only [txStep, TxPc.published, List.append_nil]
      refine ⟨hring, by simp, ?_⟩
      split_ifs
      · exact readyFacts_start g
      · intro heq; cases heq
  | ready expired pc =>
      have hready := readyStep_spec hest hpc
      simp only [txStep, TxPc.published, List.append_nil]
      refine ⟨hring, by simp, ?_⟩
      rcases hout : readyStep transport region pc with pc' | ready
      · rw [hout] at hready
        exact hready
      · rw [hout] at hready
        subst hready
        trivial
  | readProducer expired =>
      simp only [txStep, TxPc.published, List.append_nil]
      exact ⟨hring, by simp, rfl⟩
  | readConsumer expired producer =>
      obtain rfl : producer = region.request.producer := hpc
      have hocc := hring.occupancy
      have hmessages := List.length_pos_of_ne_nil hcall.nonempty
      simp only [txStep, TxPc.published, List.append_nil]
      refine ⟨hring, by simp, ?_⟩
      rw [readOccupancy_of_le (by omega)]
      dsimp only
      rw [hocc]
      split_ifs with hroom hexpired
      · exact ⟨rfl, by omega, by omega⟩
      · unfold outOfTime
        split_ifs <;> intro heq <;> cases heq
      · trivial
  | wait =>
      simp only [txStep, TxPc.published, List.append_nil]
      refine ⟨hring, by simp, ?_⟩
      unfold waitEnd
      split_ifs
      · intro heq; cases heq
      · exact txFacts_loop _
  | sequence producer completed =>
      obtain ⟨hproducer, hpos, hfree⟩ := hpc
      have hmessages := List.length_pos_of_ne_nil hcall.nonempty
      have hlength := length_stamp transport.nextSequence (call.messages.take completed)
      rw [List.length_take] at hlength
      have hsound := sound_of_mem_stamp (call.messages.take completed)
        (fun message hm => hcall.fits message (List.mem_of_mem_take hm)) transport.nextSequence
      simp only [txStep, TxPc.published, List.append_nil]
      refine ⟨hring, by simp, hproducer, ?_, by omega, hsound⟩
      exact List.ne_nil_of_length_pos (by omega)
  | copyOut producer stamped =>
      simp only [txStep, TxPc.published, List.append_nil]
      refine ⟨hring, by simp, ?_⟩
      split_ifs
      · intro heq; cases heq
      · exact hpc
      · exact ⟨hpc.1, hpc.2, List.length_pos_of_ne_nil hpc.2.nonempty, staged_zero⟩
  | restale producer stamped =>
      simp only [txStep, TxPc.published, List.append_nil]
      refine ⟨hring, by simp, ?_⟩
      split_ifs
      · exact ⟨hpc.1, hpc.2, readyFacts_start g⟩
      · intro heq; cases heq
  | reready producer stamped pc =>
      have hready := readyStep_spec hest hpc.2.2
      simp only [txStep, TxPc.published, List.append_nil]
      refine ⟨hring, by simp, ?_⟩
      rcases hout : readyStep transport region pc with pc' | ready
      · rw [hout] at hready
        exact ⟨hpc.1, hpc.2.1, hready⟩
      · rw [hout] at hready
        subst hready
        exact ⟨hpc.1, hpc.2.1, List.length_pos_of_ne_nil hpc.2.1.nonempty, staged_zero⟩
  | copySlot producer stamped index =>
      obtain ⟨rfl, hroom, hindex, hstaged⟩ := hpc
      have hfree := hroom.free
      have hwrite := hring.writeSlot (k := index) (by omega) stamped[index]
      have hstaged' : Staged (region.request.writeSlot
          (slotIndex (region.request.producer + BitVec.ofNat 32 index)) stamped[index]).slots
          base log.length stamped (index + 1) := by
        rw [Ring.writeSlot_slots, slotIndex_eq_cell, hring.producer_eq, position_add]
        exact hstaged.write slotCount_dvd hindex (by have := hring.taken_le; omega)
      simp only [txStep, TxPc.published, List.append_nil, getElem!_pos stamped index hindex]
      refine ⟨hwrite, by simp, ?_⟩
      split_ifs with hmore
      · exact ⟨rfl, hroom, hmore, hstaged'⟩
      · have hlast : stamped.length = index + 1 := by omega
        exact ⟨rfl, hroom, hlast ▸ hstaged'⟩
  | publish producer stamped =>
      obtain ⟨rfl, hroom, hstaged⟩ := hpc
      exact ⟨hring.publish hstaged hroom.free, hroom.sound, trivial⟩
  | kick pc =>
      simp only [txStep, TxPc.published, List.append_nil]
      rcases hout : kickStep answer transport pc with ⟨pc' | ret, transport'⟩
      · exact ⟨hring, by simp, trivial⟩
      · exact ⟨hring, by simp, fun heq => by cases heq⟩

end Tx

/-! ## A call on the response ring -/

section Rx

variable {g base : U32} {log : List Slot} {taken : ℕ} {ring : Ring} {call : RxCall}
  {transport : Transport} {region : Region}

/-- The arguments of the call have passed their check. -/
def RxCall.Accepted (call : RxCall) : Prop := 0 < call.count

theorem RxCall.accepted_of_enter {call : RxCall} {pc : RxPc} (h : call.enter = .running pc) :
    call.Accepted ∧ pc = call.loop call.noWait := by
  unfold RxCall.enter at h
  split_ifs at h with hcount
  cases h
  exact ⟨Nat.pos_of_ne_zero fun hzero => hcount (.inl hzero), rfl⟩

/-- A message that arrives sound is delivered. -/
theorem RxCall.not_rejects {message : Slot} (h : Sound message) (call : RxCall) :
    ¬ call.rejects message := by
  rintro (hfits | ⟨-, hsequence⟩)
  · exact hfits h.1
  · exact h.2 hsequence

/-- The entries of the log that the call has copied. -/
def Copied (log : List Slot) (taken : ℕ) (batch : List Slot) : Prop :=
  batch <+: log.drop taken

/-- The call holds `rx_lock`, so its own counter is current and the producer counter
it has read is one that was published. -/
def RxFacts (g base : U32) (log : List Slot) (taken : ℕ) (ring : Ring) : RxPc → Prop
  | .stale _ | .readProducer _ | .wait => True
  | .ready _ pc => ReadyFacts g pc
  | .readConsumer _ producer =>
      ∃ seen, producer = position base seen ∧ taken ≤ seen ∧ seen ≤ log.length
  | .copySlot consumer completed batch =>
      consumer = ring.consumer ∧ taken + completed ≤ log.length ∧ batch.length < completed ∧
        Copied log taken batch
  | .copyOut consumer batch | .restale consumer batch =>
      consumer = ring.consumer ∧ Copied log taken batch
  | .reready consumer batch pc =>
      consumer = ring.consumer ∧ Copied log taken batch ∧ ReadyFacts g pc
  | .publish consumer batch ret =>
      consumer = ring.consumer ∧ Copied log taken batch ∧ ret = .ok
  | .peekProducer ret | .peekConsumer ret _ | .kick ret _ => ret = .ok

theorem rxFacts_loop (expired : Bool) : RxFacts g base log taken ring (call.loop expired) := by
  unfold RxCall.loop
  split_ifs
  · trivial
  · exact readyFacts_start g

theorem Copied.length_le {batch : List Slot} (h : Copied log taken batch)
    (htaken : taken ≤ log.length) : taken + batch.length ≤ log.length := by
  have := List.IsPrefix.length_le h
  rw [List.length_drop] at this
  omega

theorem Copied.append {batch : List Slot} (h : Copied log taken batch)
    (hlt : taken + batch.length < log.length) :
    Copied log taken (batch ++ [log[taken + batch.length]]) := by
  have heq : batch = (log.drop taken).take batch.length := List.prefix_iff_eq_take.mp h
  have hlt' : batch.length < (log.drop taken).length := by
    rw [List.length_drop]
    omega
  unfold Copied
  rw [List.prefix_iff_eq_take, List.length_append, List.length_singleton,
    List.take_succ_eq_append_getElem hlt', ← heq, List.getElem_drop]

/-- The log only grows. -/
theorem RxFacts.extend {pc : RxPc} (h : RxFacts g base log taken ring pc) {ring' : Ring}
    (more : List Slot) (htaken : taken ≤ log.length) (hconsumer : ring'.consumer = ring.consumer) :
    RxFacts g base (log ++ more) taken ring' pc := by
  have hlength : log.length ≤ (log ++ more).length := by simp
  have hcopied : ∀ {batch}, Copied log taken batch → Copied (log ++ more) taken batch := by
    intro batch hcopied
    unfold Copied
    rw [List.drop_append_of_le_length htaken]
    exact List.IsPrefix.trans hcopied (List.prefix_append _ _)
  cases pc with
  | stale | readProducer | wait => trivial
  | ready | peekProducer | peekConsumer | kick => exact h
  | readConsumer =>
      obtain ⟨seen, heq, hlow, hhigh⟩ := h
      exact ⟨seen, heq, hlow, by omega⟩
  | copySlot =>
      exact ⟨h.1.trans hconsumer.symm, by have := h.2.1; omega, h.2.2.1, hcopied h.2.2.2⟩
  | copyOut | restale => exact ⟨h.1.trans hconsumer.symm, hcopied h.2⟩
  | reready | publish => exact ⟨h.1.trans hconsumer.symm, hcopied h.2.1, h.2.2⟩

/-- A call on the response ring writes that ring's consumer counter only. -/
theorem rxStep_frame (call : RxCall) (answer : Answer) (transport : Transport) (region : Region)
    (pc : RxPc) :
    SameChannel transport (rxStep call answer transport region pc).2.1 ∧
      (rxStep call answer transport region pc).2.2 =
        { region with response := (rxStep call answer transport region pc).2.2.response } ∧
      (rxStep call answer transport region pc).2.2.response.producer =
        region.response.producer ∧
      (rxStep call answer transport region pc).2.2.response.slots = region.response.slots := by
  cases pc with
  | kick ret pc =>
      have hkick := kickStep_frame answer transport pc
      rcases hout : kickStep answer transport pc with ⟨out, transport'⟩
      rw [hout] at hkick
      simp only [rxStep, hout]
      cases out <;> exact ⟨hkick, rfl, rfl, rfl⟩
  | stale | ready | readProducer | readConsumer | wait | copySlot | copyOut | restale | reready
  | publish | peekProducer | peekConsumer => exact ⟨SameChannel.refl _, rfl, rfl, rfl⟩

theorem rxStep_spec (hest : Established g transport region) (hcall : call.Accepted)
    (hring : region.response.Represents base log taken) (hsound : ∀ m ∈ log, Sound m) {pc : RxPc}
    (hpc : RxFacts g base log taken region.response pc) (answer : Answer) :
    (rxStep call answer transport region pc).2.2.response.Represents base log
        (taken + pc.delivered.length) ∧
      Copied log taken pc.delivered ∧
      match (rxStep call answer transport region pc).1 with
      | .running pc' =>
          RxFacts g base log (taken + pc.delivered.length)
            (rxStep call answer transport region pc).2.2.response pc'
      | .returned ret => ret ≠ .eproto := by
  have hbound := hring.bounded
  have hnil : Copied log taken [] := List.nil_prefix
  unfold RxCall.Accepted at hcall
  cases pc with
  | stale expired =>
      simp only [rxStep, RxPc.delivered, List.length_nil, Nat.add_zero]
      refine ⟨hring, hnil, ?_⟩
      split_ifs
      · exact readyFacts_start g
      · intro heq; cases heq
  | ready expired pc =>
      have hready := readyStep_spec hest hpc
      simp only [rxStep, RxPc.delivered, List.length_nil, Nat.add_zero]
      refine ⟨hring, hnil, ?_⟩
      rcases hout : readyStep transport region pc with pc' | ready
      · rw [hout] at hready
        exact hready
      · rw [hout] at hready
        subst hready
        trivial
  | readProducer expired =>
      simp only [rxStep, RxPc.delivered, List.length_nil, Nat.add_zero]
      exact ⟨hring, hnil, log.length, hring.producer_eq, hring.taken_le, Nat.le_refl _⟩
  | readConsumer expired producer =>
      obtain ⟨seen, rfl, hlow, hhigh⟩ := hpc
      have hocc := hring.stale_occupancy hlow hhigh
      simp only [rxStep, RxPc.delivered, List.length_nil, Nat.add_zero]
      refine ⟨hring, hnil, ?_⟩
      rw [readOccupancy_of_le (by omega)]
      dsimp only
      rw [hocc]
      split_ifs with hsome hexpired
      · refine ⟨rfl, by omega, ?_, hnil⟩
        rw [List.length_nil]
        omega
      · unfold outOfTime
        split_ifs <;> intro heq <;> cases heq
      · trivial
  | wait =>
      simp only [rxStep, RxPc.delivered, List.length_nil, Nat.add_zero]
      refine ⟨hring, hnil, ?_⟩
      unfold waitEnd
      split_ifs
      · intro heq; cases heq
      · exact rxFacts_loop _
  | copySlot consumer completed batch =>
      obtain ⟨rfl, hcompleted, hbatch, hcopied⟩ := hpc
      have hlt : taken + batch.length < log.length := by omega
      have happend := hcopied.append hlt
      have hread := hring.readSlot (k := batch.length) hlt
      have hkeep := call.not_rejects (hsound _ (List.getElem_mem hlt))
      simp only [rxStep, RxPc.delivered, List.length_nil, Nat.add_zero, hread, if_neg hkeep]
      refine ⟨hring, hnil, ?_⟩
      split_ifs with hmore
      · refine ⟨rfl, hcompleted, ?_, happend⟩
        rwa [List.length_append, List.length_singleton]
      · exact ⟨rfl, happend⟩
  | copyOut consumer batch =>
      simp only [rxStep, RxPc.delivered, List.length_nil, Nat.add_zero]
      refine ⟨hring, hnil, ?_⟩
      split_ifs
      · intro heq; cases heq
      · exact hpc
      · exact ⟨hpc.1, hpc.2, rfl⟩
  | restale consumer batch =>
      simp only [rxStep, RxPc.delivered, List.length_nil, Nat.add_zero]
      refine ⟨hring, hnil, ?_⟩
      split_ifs
      · exact ⟨hpc.1, hpc.2, readyFacts_start g⟩
      · intro heq; cases heq
  | reready consumer batch pc =>
      have hready := readyStep_spec hest hpc.2.2
      simp only [rxStep, RxPc.delivered, List.length_nil, Nat.add_zero]
      refine ⟨hring, hnil, ?_⟩
      rcases hout : readyStep transport region pc with pc' | ready
      · rw [hout] at hready
        exact ⟨hpc.1, hpc.2.1, hready⟩
      · rw [hout] at hready
        subst hready
        exact ⟨hpc.1, hpc.2.1, rfl⟩
  | publish consumer batch ret =>
      obtain ⟨rfl, hcopied, rfl⟩ := hpc
      exact ⟨hring.advance (hcopied.length_le hring.taken_le), hcopied, rfl⟩
  | peekProducer ret =>
      simp only [rxStep, RxPc.delivered, List.length_nil, Nat.add_zero]
      exact ⟨hring, hnil, hpc⟩
  | peekConsumer ret producer =>
      obtain rfl : ret = .ok := hpc
      simp only [rxStep, RxPc.delivered, List.length_nil, Nat.add_zero]
      refine ⟨hring, hnil, ?_⟩
      rcases readOccupancy producer region.request.consumer with - | occupancy
      · intro heq; cases heq
      · dsimp only
        split_ifs
        · rfl
        · intro heq; cases heq
  | kick ret pc =>
      obtain rfl : ret = .ok := hpc
      simp only [rxStep, RxPc.delivered, List.length_nil, Nat.add_zero]
      rcases hout : kickStep answer transport pc with ⟨pc' | ret, transport'⟩
      · exact ⟨hring, hnil, rfl⟩
      · exact ⟨hring, hnil, fun heq => by cases heq⟩

end Rx

end Sg200x.Ipc.Driver
