import Sg200x.Ipc.DriverFacts
import Sg200x.Ipc.Handover

/-!
# The channel belongs to the file that acquired it

A data call tests its file before it waits for `tx_lock` or `rx_lock`, and does not test
it again.  A call that is still in flight when another file clears the region goes on in
the channel of that file, unless it names a generation and is refused for it.
-/

namespace Sg200x.Ipc.Handover

open Shm RingCore App Firmware Driver Library.Transition

/-- A call that is past `rtos_ready`, and so uses the rings, is a call on the file whose
ACQUIRE set them up. -/
structure Owned (s : State) : Prop where
  tx : ∀ file call pc, s.tx = some (file, call, pc) → txPending pc = none →
    s.acquirer = some file
  rx : ∀ file call pc, s.rx = some (file, call, pc) → rxPending pc = none →
    s.acquirer = some file

/-! ## The calls that have passed `is_owner` -/

structure Admitted where
  file : File
  batchGeneration : Option U32
  /-- The reads that are left between the call and the ring. -/
  pending : Option (List ReadyRead)
  /-- The call first compares the generation it names. -/
  compares : Bool

def queuedTx : File × TxCall → Admitted
  | (file, call) =>
      ⟨file, call.batchGeneration, some rtosReady, call.batchGeneration.isSome⟩

def queuedRx : File × RxCall → Admitted
  | (file, call) =>
      ⟨file, call.batchGeneration, some rtosReady, call.batchGeneration.isSome⟩

def runningTx : File × TxCall × TxPc → Admitted
  | (file, call, pc) => ⟨file, call.batchGeneration, txPending pc, pc matches .stale _⟩

def runningRx : File × RxCall × RxPc → Admitted
  | (file, call, pc) => ⟨file, call.batchGeneration, rxPending pc, pc matches .stale _⟩

def State.admitted (s : State) : List Admitted :=
  s.txQueue.map queuedTx ++ s.rxQueue.map queuedRx ++ s.tx.toList.map runningTx ++
    s.rx.toList.map runningRx

/-- The call will be refused: it names a generation that has gone. -/
def Admitted.outdated (call : Admitted) (generation next : U32) : Bool :=
  call.compares && call.batchGeneration.any fun named => named != generation && named != next

/-- When an ACQUIRE begins the `memset_io`, every call of another file is outdated. -/
def exclusive : Label → State → Bool
  | .holder _, s =>
      match s.holder with
      | some (file, .acquire (.clear previous _ left)) =>
          left != pieces || s.admitted.all fun call =>
            call.file == file || call.outdated s.transport.generation (nextGeneration previous)
      | _ => true
  | _, _ => true

/-! ## The invariant -/

/-- The generation an ACQUIRE is about to publish, from its first store to the region on. -/
def upcoming : AcquirePc → Option U32
  | .clear previous _ left => if left = pieces then none else some (nextGeneration previous)
  | .init generation _ => some generation
  | _ => none

def State.upcoming (s : State) : Option U32 :=
  match s.holder with
  | some (_, .acquire pc) => Handover.upcoming pc
  | _ => none

/-- No call gets past `rtos_ready`. -/
structure Closed (s : State) : Prop where
  unready : s.transport.generation = 0#32 ∨ s.region.linuxPeer.state ≠ stateReady
  upcoming : s.upcoming = none

/-- The call has not got past the test that fails. -/
structure Outside (s : State) (call : Admitted) : Prop where
  closed : Closed s
  linuxState : ¬ Past .linuxState call.pending
  generation : Past .generation call.pending → s.region.linuxPeer.state ≠ stateReady

/-- The call will be refused. -/
structure Refused (s : State) (call : Admitted) : Prop where
  compares : call.compares = true
  named : ∀ generation, call.batchGeneration = some generation →
    generation ≠ s.transport.generation ∧ s.upcoming ≠ some generation
  batch : call.batchGeneration.isSome

def Entitled (s : State) (call : Admitted) : Prop :=
  s.acquirer = some call.file ∨ Outside s call ∨ Refused s call

def OwnerFacts (s : State) (file : File) : AcquirePc → Prop
  | .owner => s.transport.owner = none → Closed s
  | .layoutValid _ | .layoutGeneration | .rtosState _ | .rtosGeneration _ | .setOwner _ _ =>
      Closed s
  | .offline _ | .clearMagic _ | .clearGeneration _ | .snapshot _ | .quiesceKick _ _ _ | .wait _ _
  | .awake _ _ => Closed s ∧ s.transport.owner = some file
  | .clear _ _ left =>
      s.transport.owner = some file ∧ left.length ≤ pieces.length ∧ (left = pieces → Closed s)
  | .init _ _ => s.transport.owner = some file
  | _ => True

structure Ownership (s : State) : Prop where
  calls : ∀ call ∈ s.admitted, Entitled s call
  ordered : ∀ call ∈ s.admitted, Ordered call.pending
  owner : ∀ file, s.transport.owner = some file → s.acquirer = some file ∨ Closed s
  released : s.transport.owner = none → s.transport.shuttingDown = true ∨ Closed s
  acquire : ∀ file pc, s.holder = some (file, .acquire pc) → OwnerFacts s file pc
  release : ∀ file, s.holder = some (file, .release .clearOwner) →
    s.transport.shuttingDown = true ∨ Closed s

theorem ownership_of_start {s : State} (h : Start s) : Ownership s := by
  have hnone : s.admitted = [] := by
    simp [State.admitted, h.txQueue, h.rxQueue, h.tx, h.rx]
  have hclosed : Closed s := by
    refine ⟨.inl ?_, ?_⟩
    · rw [h.transport]
      rfl
    · unfold State.upcoming
      rw [h.holder]
  refine ⟨?_, ?_, fun _ _ => .inr hclosed, fun _ => .inr hclosed, ?_, ?_⟩
  · simp [hnone]
  · simp [hnone]
  · simp [h.holder]
  · simp [h.holder]

theorem mem_admitted {s : State} {call : Admitted} :
    call ∈ s.admitted ↔
      ((∃ entry ∈ s.txQueue, queuedTx entry = call) ∨ ∃ entry ∈ s.rxQueue, queuedRx entry = call) ∨
        (∃ entry, s.tx = some entry ∧ runningTx entry = call) ∨
          ∃ entry, s.rx = some entry ∧ runningRx entry = call := by
  simp [State.admitted, or_assoc]

theorem mem_admitted_tx {s : State} {file : File} {call : TxCall} {pc : TxPc}
    (h : s.tx = some (file, call, pc)) : runningTx (file, call, pc) ∈ s.admitted :=
  mem_admitted.mpr (.inr (.inl ⟨_, h, rfl⟩))

theorem mem_admitted_rx {s : State} {file : File} {call : RxCall} {pc : RxPc}
    (h : s.rx = some (file, call, pc)) : runningRx (file, call, pc) ∈ s.admitted :=
  mem_admitted.mpr (.inr (.inr ⟨_, h, rfl⟩))

/-- A call that compares its generation has read nothing. -/
theorem pending_of_compares {s : State} {call : Admitted} (hmem : call ∈ s.admitted)
    (h : call.compares = true) : call.pending = some rtosReady := by
  rcases mem_admitted.mp hmem with (⟨entry, -, rfl⟩ | ⟨entry, -, rfl⟩) |
    ⟨⟨file, call, pc⟩, -, rfl⟩ | ⟨⟨file, call, pc⟩, -, rfl⟩
  · rfl
  · rfl
  · cases pc <;> first | rfl | cases h
  · cases pc <;> first | rfl | cases h

theorem Ownership.owned {s : State} (h : Ownership s) : Owned s := by
  have hcall : ∀ call ∈ s.admitted, call.pending = none → s.acquirer = some call.file := by
    intro call hmem hpending
    rcases h.calls call hmem with hown | houtside | hrefused
    · exact hown
    · exact absurd (hpending ▸ nofun) houtside.linuxState
    · have hstart := pending_of_compares hmem hrefused.compares
      rw [hpending] at hstart
      cases hstart
  refine ⟨fun file call pc htx hpending => ?_, fun file call pc hrx hpending => ?_⟩
  · exact hcall _ (mem_admitted_tx htx) hpending
  · exact hcall _ (mem_admitted_rx hrx) hpending

/-! ## What a step keeps -/

theorem Closed.congr {s t : State} (h : Closed s)
    (hgeneration : t.transport.generation = s.transport.generation)
    (hpeer : t.region.linuxPeer.state = s.region.linuxPeer.state)
    (hupcoming : t.upcoming = s.upcoming) : Closed t where
  unready := by
    rw [hgeneration, hpeer]
    exact h.unready
  upcoming := hupcoming.trans h.upcoming

/-- A step after which no call gets past `rtos_ready` keeps the calls where they are. -/
theorem Entitled.close {s t : State} {call : Admitted} (h : Entitled s call)
    (hstart : call.compares = true → call.pending = some rtosReady)
    (hacquirer : t.acquirer = s.acquirer) (hclosed : Closed t)
    (hoffline : s.region.linuxPeer.state ≠ stateReady → t.region.linuxPeer.state ≠ stateReady) :
    Entitled t call := by
  rcases h with hown | houtside | hrefused
  · exact .inl (hacquirer.trans hown)
  · exact .inr (.inl ⟨hclosed, houtside.linuxState, fun hp => hoffline (houtside.generation hp)⟩)
  · have hpending := hstart hrefused.compares
    refine .inr (.inl ⟨hclosed, fun hpast => ?_, fun hpast => ?_⟩)
    · exact absurd (by decide) (hpast _ hpending)
    · exact absurd (by decide) (hpast _ hpending)

theorem Entitled.congr {s t : State} {call : Admitted} (h : Entitled s call)
    (hacquirer : t.acquirer = s.acquirer)
    (hgeneration : t.transport.generation = s.transport.generation)
    (hpeer : t.region.linuxPeer.state = s.region.linuxPeer.state)
    (hupcoming : t.upcoming = s.upcoming) : Entitled t call := by
  rcases h with hown | houtside | hrefused
  · exact .inl (hacquirer.trans hown)
  · refine .inr (.inl ⟨houtside.closed.congr hgeneration hpeer hupcoming, houtside.linuxState, ?_⟩)
    rw [hpeer]
    exact houtside.generation
  · refine .inr (.inr ⟨hrefused.compares, ?_, hrefused.batch⟩)
    rw [hgeneration, hupcoming]
    exact hrefused.named

/-- What a step of the holder leaves of the calls. -/
structure SameCalls (s t : State) : Prop where
  txQueue : t.txQueue = s.txQueue
  rxQueue : t.rxQueue = s.rxQueue
  tx : t.tx = s.tx
  rx : t.rx = s.rx

theorem SameCalls.admitted {s t : State} (h : SameCalls s t) : t.admitted = s.admitted := by
  unfold State.admitted
  rw [h.txQueue, h.rxQueue, h.tx, h.rx]

/-- What the ownership depends on beside the calls. -/
structure SameOwner (s t : State) : Prop where
  generation : t.transport.generation = s.transport.generation
  owner : t.transport.owner = s.transport.owner
  shuttingDown : s.transport.shuttingDown = true → t.transport.shuttingDown = true
  peer : t.region.linuxPeer.state = s.region.linuxPeer.state
  acquirer : t.acquirer = s.acquirer
  upcoming : t.upcoming = s.upcoming

theorem SameOwner.closed {s t : State} (h : SameOwner s t) (hclosed : Closed s) : Closed t :=
  hclosed.congr h.generation h.peer h.upcoming

theorem SameOwner.entitled {s t : State} (h : SameOwner s t) {call : Admitted}
    (hcall : Entitled s call) : Entitled t call :=
  hcall.congr h.acquirer h.generation h.peer h.upcoming

theorem OwnerFacts.congr {s t : State} {file : File} {pc : AcquirePc} (h : OwnerFacts s file pc)
    (hst : SameOwner s t) : OwnerFacts t file pc := by
  have howner : s.transport.owner = some file → t.transport.owner = some file := hst.owner.trans
  cases pc with
  | owner => exact fun hnone => hst.closed (h (hst.owner.symm.trans hnone))
  | layoutValid | layoutGeneration | rtosState | rtosGeneration | setOwner => exact hst.closed h
  | offline | clearMagic | clearGeneration | snapshot | quiesceKick | wait | awake =>
      exact ⟨hst.closed h.1, howner h.2⟩
  | clear => exact ⟨howner h.1, h.2.1, fun hleft => hst.closed (h.2.2 hleft)⟩
  | init => exact howner h
  | shuttingDown | kick => trivial

theorem Ownership.keep {s t : State} (h : Ownership s) (hst : SameOwner s t)
    (hcalls : ∀ call ∈ t.admitted, call ∈ s.admitted ∨ Entitled t call ∧ Ordered call.pending)
    (hacquire : ∀ file pc, t.holder = some (file, .acquire pc) → OwnerFacts t file pc)
    (hrelease : ∀ file, t.holder = some (file, .release .clearOwner) →
      t.transport.shuttingDown = true ∨ Closed t) : Ownership t where
  calls call hmem := (hcalls call hmem).elim (fun hold => hst.entitled (h.calls call hold)) And.left
  ordered call hmem := (hcalls call hmem).elim (h.ordered call) And.right
  owner file howner := by
    rw [hst.acquirer]
    exact (h.owner file (hst.owner.symm.trans howner)).imp id hst.closed
  released hnone := (h.released (hst.owner.symm.trans hnone)).imp hst.shuttingDown hst.closed
  acquire := hacquire
  release := hrelease

/-- A step after which no call gets past `rtos_ready`. -/
theorem Ownership.close {s t : State} (h : Ownership s) (hcalls : SameCalls s t)
    (hacquirer : t.acquirer = s.acquirer) (hclosed : Closed t)
    (hoffline : s.region.linuxPeer.state ≠ stateReady → t.region.linuxPeer.state ≠ stateReady)
    (hacquire : ∀ file pc, t.holder = some (file, .acquire pc) → OwnerFacts t file pc) :
    Ownership t where
  calls call hmem := by
    rw [hcalls.admitted] at hmem
    exact (h.calls call hmem).close (pending_of_compares hmem) hacquirer hclosed hoffline
  ordered call hmem := h.ordered call (hcalls.admitted ▸ hmem)
  owner _ _ := .inr hclosed
  released _ := .inr hclosed
  acquire := hacquire
  release _ _ := .inr hclosed

/-! ## The holder of `owner_lock` -/

theorem offline_ne_ready : stateOffline ≠ stateReady := by decide

theorem upcoming_acquire {s : State} {file : File} {pc : AcquirePc}
    (h : s.holder = some (file, .acquire pc)) : s.upcoming = Handover.upcoming pc := by
  unfold State.upcoming
  rw [h]

/-- The calls while the region belongs to nobody but the ACQUIRE that fills it. -/
theorem Entitled.filling {s t : State} {call : Admitted} {generation : U32}
    (h : Entitled s call) (hacquirer : t.acquirer = s.acquirer)
    (hupcoming : s.upcoming = some generation)
    (hgeneration : t.transport.generation = s.transport.generation ∨
      t.transport.generation = generation)
    (hlater : t.upcoming = none ∨ t.upcoming = some generation) : Entitled t call := by
  rcases h with hown | houtside | hrefused
  · exact .inl (hacquirer.trans hown)
  · have hnone := houtside.closed.upcoming
    rw [hupcoming] at hnone
    cases hnone
  · refine .inr (.inr ⟨hrefused.compares, fun named hnamed => ?_, hrefused.batch⟩)
    obtain ⟨hold, hnew⟩ := hrefused.named named hnamed
    have hne : named ≠ generation := fun heq => hnew (heq ▸ hupcoming)
    refine ⟨?_, ?_⟩
    · rcases hgeneration with heq | heq
      · exact heq ▸ hold
      · exact heq ▸ hne
    · rcases hlater with heq | heq
      · simp [heq]
      · rw [heq]
        exact fun heq => hne (Option.some.inj heq).symm

/-- A step of the ACQUIRE that fills the region. -/
theorem Ownership.filling {s t : State} {file : File} {generation : U32} (h : Ownership s)
    (hcalls : SameCalls s t) (hacquirer : t.acquirer = s.acquirer)
    (howner : s.transport.owner = some file ∧ t.transport.owner = some file)
    (hupcoming : s.upcoming = some generation)
    (hgeneration : t.transport.generation = s.transport.generation ∨
      t.transport.generation = generation)
    (hlater : t.upcoming = none ∨ t.upcoming = some generation)
    (hacquire : ∀ file pc, t.holder = some (file, .acquire pc) → OwnerFacts t file pc)
    (hholder : ∀ file, t.holder ≠ some (file, .release .clearOwner)) : Ownership t where
  calls call hmem := by
    rw [hcalls.admitted] at hmem
    exact (h.calls call hmem).filling hacquirer hupcoming hgeneration hlater
  ordered call hmem := h.ordered call (hcalls.admitted ▸ hmem)
  owner file' heq := by
    left
    rw [howner.2] at heq
    cases heq
    rcases h.owner file howner.1 with hown | hclosed
    · exact hacquirer.trans hown
    · have hnone := hclosed.upcoming
      rw [hupcoming] at hnone
      cases hnone
  released hnone := by
    rw [howner.2] at hnone
    cases hnone
  acquire := hacquire
  release file heq := absurd heq (hholder file)

/-- The first piece of the `memset_io`. -/
theorem Ownership.begin {s t : State} {file : File} {previous : U32} (h : Ownership s)
    (hcalls : SameCalls s t) (hacquirer : t.acquirer = some file)
    (howner : t.transport.owner = some file)
    (hgeneration : t.transport.generation = s.transport.generation)
    (hexclusive : ∀ call ∈ s.admitted, call.file = file ∨
      call.outdated s.transport.generation (nextGeneration previous) = true)
    (hlater : t.upcoming = some (nextGeneration previous))
    (hacquire : ∀ file pc, t.holder = some (file, .acquire pc) → OwnerFacts t file pc)
    (hholder : ∀ file, t.holder ≠ some (file, .release .clearOwner)) : Ownership t where
  calls call hmem := by
    rw [hcalls.admitted] at hmem
    rcases hexclusive call hmem with rfl | houtdated
    · exact .inl hacquirer
    · simp only [Admitted.outdated, Bool.and_eq_true, Option.any_eq_true, bne_iff_ne] at houtdated
      obtain ⟨hcompares, named, hnamed, hold, hnew⟩ := houtdated
      refine .inr (.inr ⟨hcompares, fun named' heq => ?_, by rw [hnamed]; rfl⟩)
      obtain rfl : named = named' := Option.some.inj (hnamed.symm.trans heq)
      refine ⟨hgeneration ▸ hold, ?_⟩
      rw [hlater]
      exact fun heq => hnew (Option.some.inj heq).symm
  ordered call hmem := h.ordered call (hcalls.admitted ▸ hmem)
  owner file' heq := .inl (hacquirer.trans (howner.symm.trans heq))
  released hnone := by
    rw [howner] at hnone
    cases hnone
  acquire := hacquire
  release file heq := absurd heq (hholder file)

theorem Ownership.acquireStep {s t : State} (h : Ownership s) {answer : Answer} {file : File}
    {pc : AcquirePc} (hholder : s.holder = some (file, .acquire pc))
    (hallowed : exclusive (.holder answer) s = true) (hstep : holderStep s answer = some t) :
    Ownership t := by
  have hfacts := h.acquire file pc hholder
  have hupcoming := upcoming_acquire hholder
  have hsame : ∀ {t : State}, SameCalls s t → SameOwner s t →
      (∀ file pc, t.holder = some (file, .acquire pc) → OwnerFacts t file pc) →
      (∀ file, t.holder ≠ some (file, .release .clearOwner)) → Ownership t :=
    fun {t} hcalls hst hacquire hne =>
      h.keep hst (fun call hmem => .inl (hcalls.admitted ▸ hmem)) hacquire
        fun file heq => absurd heq (hne file)
  simp only [exclusive, hholder] at hallowed
  simp only [holderStep, hholder] at hstep
  cases pc with
  | shuttingDown =>
      simp only [Driver.acquireStep] at hstep
      split_ifs at hstep with hshut <;> cases hstep
      · exact hsame ⟨rfl, rfl, rfl, rfl⟩ ⟨rfl, rfl, id, rfl, rfl, hupcoming.symm⟩ nofun nofun
      · refine hsame ⟨rfl, rfl, rfl, rfl⟩ ⟨rfl, rfl, id, rfl, rfl, hupcoming.symm⟩ ?_ nofun
        rintro _ _ ⟨⟩ hnone
        exact ((h.released hnone).resolve_left hshut).congr rfl rfl hupcoming.symm
  | owner =>
      simp only [Driver.acquireStep] at hstep
      split at hstep
      · rename_i hout
        split at hout <;> cases hout
        rename_i hnone
        cases hstep
        refine hsame ⟨rfl, rfl, rfl, rfl⟩ ⟨rfl, rfl, id, rfl, rfl, hupcoming.symm⟩ ?_ nofun
        rintro _ _ ⟨⟩
        exact (hfacts hnone).congr rfl rfl hupcoming.symm
      all_goals
        cases hstep
        exact hsame ⟨rfl, rfl, rfl, rfl⟩ ⟨rfl, rfl, id, rfl, rfl, hupcoming.symm⟩ nofun nofun
  | layoutValid reads =>
      cases reads with
      | nil =>
          cases hstep
          refine hsame ⟨rfl, rfl, rfl, rfl⟩ ⟨rfl, rfl, id, rfl, rfl, hupcoming.symm⟩ ?_ nofun
          rintro _ _ ⟨⟩
          exact Closed.congr hfacts rfl rfl hupcoming.symm
      | cons read reads =>
          simp only [Driver.acquireStep] at hstep
          split_ifs at hstep <;> cases hstep <;>
            refine hsame ⟨rfl, rfl, rfl, rfl⟩ ⟨rfl, rfl, id, rfl, rfl, hupcoming.symm⟩ ?_ nofun <;>
            rintro _ _ ⟨⟩ <;> exact Closed.congr hfacts rfl rfl hupcoming.symm
  | layoutGeneration | rtosState previous =>
      simp only [Driver.acquireStep] at hstep
      split_ifs at hstep <;> cases hstep <;>
        refine hsame ⟨rfl, rfl, rfl, rfl⟩ ⟨rfl, rfl, id, rfl, rfl, hupcoming.symm⟩ ?_ nofun <;>
        rintro _ _ ⟨⟩ <;> exact Closed.congr hfacts rfl rfl hupcoming.symm
  | rtosGeneration previous =>
      cases hstep
      refine hsame ⟨rfl, rfl, rfl, rfl⟩ ⟨rfl, rfl, id, rfl, rfl, hupcoming.symm⟩ ?_ nofun
      rintro _ _ ⟨⟩
      exact Closed.congr hfacts rfl rfl hupcoming.symm
  | setOwner previous quiesce =>
      cases hstep
      have hclosed : ∀ pc, upcoming pc = none →
          Closed { s with
            transport := { s.transport with owner := some file }
            holder := some (file, .acquire pc) } :=
        fun pc hpc => Closed.congr hfacts rfl rfl (hpc.trans hupcoming.symm)
      cases quiesce
      · refine h.close ⟨rfl, rfl, rfl, rfl⟩ rfl (hclosed (.clear previous false pieces) rfl) id ?_
        rintro _ _ ⟨⟩
        exact ⟨rfl, le_rfl, fun _ => hclosed (.clear previous false pieces) rfl⟩
      · refine h.close ⟨rfl, rfl, rfl, rfl⟩ rfl (hclosed (.offline previous) rfl) id ?_
        rintro _ _ ⟨⟩
        exact ⟨hclosed (.offline previous) rfl, rfl⟩
  | offline previous =>
      cases hstep
      refine h.close ⟨rfl, rfl, rfl, rfl⟩ rfl ⟨.inr offline_ne_ready, rfl⟩
        (fun _ => offline_ne_ready) ?_
      rintro _ _ ⟨⟩
      exact ⟨⟨.inr offline_ne_ready, rfl⟩, hfacts.2⟩
  | clearMagic previous =>
      cases hstep
      refine hsame ⟨rfl, rfl, rfl, rfl⟩ ⟨rfl, rfl, id, rfl, rfl, hupcoming.symm⟩ ?_ nofun
      rintro _ _ ⟨⟩
      exact ⟨hfacts.1.congr rfl rfl hupcoming.symm, hfacts.2⟩
  | clearGeneration previous =>
      cases hstep
      refine h.close ⟨rfl, rfl, rfl, rfl⟩ rfl ⟨.inl rfl, rfl⟩ id ?_
      rintro _ _ ⟨⟩
      exact ⟨⟨.inl rfl, rfl⟩, hfacts.2⟩
  | snapshot previous =>
      cases hstep
      refine hsame ⟨rfl, rfl, rfl, rfl⟩ ⟨rfl, rfl, id, rfl, rfl, hupcoming.symm⟩ ?_ nofun
      rintro _ _ ⟨⟩
      exact ⟨hfacts.1.congr rfl rfl hupcoming.symm, hfacts.2⟩
  | quiesceKick previous notification pc =>
      have hchannel := kickStep_frame answer s.transport pc
      simp only [Driver.acquireStep] at hstep
      rcases hout : kickStep answer s.transport pc with ⟨pc' | value, transport⟩ <;>
        simp only [hout] at hstep hchannel <;> cases hstep <;>
        refine hsame ⟨rfl, rfl, rfl, rfl⟩ ⟨hchannel.generation, hchannel.owner,
          hchannel.shuttingDown.trans, rfl, rfl, hupcoming.symm⟩ ?_ nofun <;>
        rintro _ _ ⟨⟩ <;>
        exact ⟨hfacts.1.congr hchannel.generation rfl hupcoming.symm,
          hchannel.owner.trans hfacts.2⟩
  | wait previous notification =>
      simp only [Driver.acquireStep] at hstep
      split_ifs at hstep <;> cases hstep <;>
        refine hsame ⟨rfl, rfl, rfl, rfl⟩ ⟨rfl, rfl, id, rfl, rfl, hupcoming.symm⟩ ?_ nofun <;>
        rintro _ _ ⟨⟩ <;> exact ⟨hfacts.1.congr rfl rfl hupcoming.symm, hfacts.2⟩
  | awake previous ended =>
      simp only [Driver.acquireStep] at hstep
      split_ifs at hstep with hshut
      · cases hstep
        exact hsame ⟨rfl, rfl, rfl, rfl⟩ ⟨rfl, rfl, id, rfl, rfl, hupcoming.symm⟩ nofun nofun
      · cases ended with
        | expired | interrupted =>
            cases hstep
            exact hsame ⟨rfl, rfl, rfl, rfl⟩ ⟨rfl, rfl, id, rfl, rfl, hupcoming.symm⟩ nofun nofun
        | done | fault | busy =>
            cases hstep
            refine hsame ⟨rfl, rfl, rfl, rfl⟩ ⟨rfl, rfl, id, rfl, rfl, hupcoming.symm⟩ ?_ nofun
            rintro _ _ ⟨⟩
            exact ⟨hfacts.2, le_rfl, fun _ => hfacts.1.congr rfl rfl hupcoming.symm⟩
  | clear previous quiesce left =>
      obtain ⟨howner, hlength, hclosed⟩ := hfacts
      cases left with
      | nil =>
          cases hstep
          refine h.filling ⟨rfl, rfl, rfl, rfl⟩ rfl ⟨howner, howner⟩ hupcoming (.inl rfl) (.inr rfl)
            ?_ nofun
          rintro _ _ ⟨⟩
          exact howner
      | cons piece left =>
          cases hstep
          have hshort : left ≠ pieces := by
            rintro rfl
            exact absurd hlength (by simp)
          have hlater : Handover.upcoming (.clear previous quiesce left) =
              some (nextGeneration previous) := if_neg hshort
          have hnext : ∀ {t : State}, t.transport.owner = some file →
              ∀ file' pc', some (file, Holder.acquire (.clear previous quiesce left)) =
                some (file', .acquire pc') → OwnerFacts t file' pc' := by
            rintro t howner _ _ ⟨⟩
            exact ⟨howner, by simp at hlength; omega, fun heq => absurd heq hshort⟩
          by_cases hfirst : piece :: left = pieces
          · simp only [hfirst, bne_self_eq_false, Bool.false_or, List.all_eq_true, Bool.or_eq_true,
              beq_iff_eq] at hallowed
            exact h.begin ⟨rfl, rfl, rfl, rfl⟩ rfl howner rfl hallowed hlater (hnext howner) nofun
          · have hupcoming : s.upcoming = some (nextGeneration previous) :=
              hupcoming.trans (if_neg hfirst)
            have hacquirer : s.acquirer = some file := by
              rcases h.owner file howner with hown | hclosed
              · exact hown
              · have hnone := hclosed.upcoming
                rw [hupcoming] at hnone
                cases hnone
            exact h.filling ⟨rfl, rfl, rfl, rfl⟩ hacquirer.symm ⟨howner, howner⟩ hupcoming (.inl rfl)
              (.inr hlater) (hnext howner) nofun
  | init generation writes =>
      cases writes with
      | nil =>
          cases hstep
          exact h.filling ⟨rfl, rfl, rfl, rfl⟩ rfl ⟨hfacts, hfacts⟩ hupcoming (.inl rfl) (.inl rfl)
            (by rintro _ _ ⟨⟩; trivial) nofun
      | cons write writes =>
          simp only [Driver.acquireStep] at hstep
          cases hstep
          have howner : (write.transport generation s.transport).owner = some file := by
            cases write <;> exact hfacts
          refine h.filling ?_ ?_ ⟨hfacts, howner⟩ hupcoming ?_ (.inr rfl) ?_ nofun
          · cases write <;> exact ⟨rfl, rfl, rfl, rfl⟩
          · cases write <;> rfl
          · cases write <;> first | exact .inr rfl | exact .inl rfl
          · rintro _ _ ⟨⟩
            exact howner
  | kick pc =>
      have hchannel := kickStep_frame answer s.transport pc
      simp only [Driver.acquireStep] at hstep
      rcases hout : kickStep answer s.transport pc with ⟨pc' | value, transport⟩ <;>
        simp only [hout] at hstep hchannel <;> cases hstep <;>
        refine hsame ⟨rfl, rfl, rfl, rfl⟩ ⟨hchannel.generation, hchannel.owner,
          hchannel.shuttingDown.trans, rfl, rfl, hupcoming.symm⟩ ?_ nofun <;>
        rintro _ _ ⟨⟩
      trivial

theorem Ownership.releaseStep {s t : State} (h : Ownership s) {answer : Answer} {file : File}
    {pc : ReleasePc} (hholder : s.holder = some (file, .release pc))
    (hstep : holderStep s answer = some t) : Ownership t := by
  have hupcoming : s.upcoming = none := by
    unfold State.upcoming
    rw [hholder]
  simp only [holderStep, hholder] at hstep
  cases hstep
  cases pc with
  | owner =>
      by_cases howner : s.transport.owner = some file
      · simp only [Driver.releaseStep, if_pos howner]
        exact h.keep ⟨rfl, rfl, id, rfl, rfl, hupcoming.symm⟩ (fun _ => .inl) nofun nofun
      · simp only [Driver.releaseStep, if_neg howner]
        exact h.keep ⟨rfl, rfl, id, rfl, rfl, hupcoming.symm⟩ (fun _ => .inl) nofun nofun
  | shuttingDown =>
      by_cases hshut : s.transport.shuttingDown = true
      · simp only [Driver.releaseStep, if_pos hshut]
        exact h.keep ⟨rfl, rfl, id, rfl, rfl, hupcoming.symm⟩ (fun _ => .inl) nofun
          fun _ _ => .inl hshut
      · simp only [Driver.releaseStep, if_neg hshut]
        exact h.keep ⟨rfl, rfl, id, rfl, rfl, hupcoming.symm⟩ (fun _ => .inl) nofun nofun
  | offline =>
      exact h.close ⟨rfl, rfl, rfl, rfl⟩ rfl ⟨.inr offline_ne_ready, rfl⟩
        (fun _ => offline_ne_ready) nofun
  | clearOwner =>
      have hclosed : Closed s → Closed
          { s with transport := { s.transport with owner := none }, holder := none } :=
        fun hclosed => hclosed.congr rfl rfl hupcoming.symm
      refine ⟨fun call hmem => ?_, h.ordered, nofun, fun _ => ?_, nofun, nofun⟩
      · exact (h.calls call hmem).congr rfl rfl rfl hupcoming.symm
      · exact (h.release file hholder).imp id hclosed

/-! ## The calls that hold `tx_lock` or `rx_lock` -/

theorem TxCall.compares_of_enter {file : File} {call : TxCall} {pc : TxPc}
    (h : call.enter = .running pc) : runningTx (file, call, pc) = queuedTx (file, call) := by
  rw [(TxCall.accepted_of_enter h).2]
  simp only [runningTx, queuedTx, txPending_loop]
  unfold TxCall.loop
  by_cases hbatch : call.batchGeneration.isSome <;> simp [hbatch]

theorem RxCall.compares_of_enter {file : File} {call : RxCall} {pc : RxPc}
    (h : call.enter = .running pc) : runningRx (file, call, pc) = queuedRx (file, call) := by
  rw [(RxCall.accepted_of_enter h).2]
  simp only [runningRx, queuedRx, rxPending_loop]
  unfold RxCall.loop
  by_cases hbatch : call.batchGeneration.isSome <;> simp [hbatch]

theorem Past.generation {pending : Option (List ReadyRead)} (h : Past .linuxState pending)
    (hordered : Ordered pending) : Past .generation pending := by
  have horder : ∀ reads ∈ rtosReady.tails, .linuxState ∉ reads → .generation ∉ reads := by decide
  exact fun reads heq => horder reads (hordered reads heq) (h reads heq)

/-- A call that will be refused is refused in its next step, and a call that is not past
`rtos_ready` does not get past it. -/
theorem Entitled.callStep {s t : State} {call call' : Admitted} (h : Entitled s call)
    (hst : SameOwner s t) (hfile : call'.file = call.file) (hordered : Ordered call.pending)
    (hcompares : call.compares = true → call.batchGeneration = some s.transport.generation)
    (hstep : CallStep s.transport t.transport s.region t.region call.pending (some call'.pending)) :
    Entitled t call' := by
  rcases h with hown | houtside | hrefused
  · left
    rw [hst.acquirer, hown, hfile]
  · have hgeneration : s.region.linuxPeer.state = stateReady →
        ¬ Past .generation call'.pending := by
      intro hready
      have hpast : ¬ Past .generation call.pending := fun hpast =>
        houtside.generation hpast hready
      have hzero := houtside.closed.unready.resolve_right (not_not.mpr hready)
      exact (hstep.not_past (by decide) hpast (by simp [ReadyRead.passes, hzero])).2 _ rfl
    refine .inr (.inl ⟨hst.closed houtside.closed, fun hpast => ?_, fun hpast => ?_⟩)
    · by_cases hready : s.region.linuxPeer.state = stateReady
      · exact hgeneration hready (hpast.generation (hstep.ordered hordered rfl))
      · exact (hstep.not_past (by decide) houtside.linuxState
          (by simp [ReadyRead.passes, hready])).2 _ rfl hpast
    · rw [hst.peer]
      exact fun hready => hgeneration hready hpast
  · obtain ⟨generation, hbatch⟩ := Option.isSome_iff_exists.mp hrefused.batch
    have heq := hcompares hrefused.compares
    exact absurd (Option.some.inj (hbatch.symm.trans heq)) (hrefused.named generation hbatch).1

theorem sameOwner_of_call {s t : State} (hsame : SameChannel s.transport t.transport)
    (hpeer : t.region.linuxPeer = s.region.linuxPeer) (hacquirer : t.acquirer = s.acquirer)
    (hholder : t.holder = s.holder) : SameOwner s t where
  generation := hsame.generation
  owner := hsame.owner
  shuttingDown := hsame.shuttingDown.trans
  peer := by rw [hpeer]
  acquirer := hacquirer
  upcoming := by
    unfold State.upcoming
    rw [hholder]

theorem txStep_compares {file : File} {call : TxCall} {answer : Answer} {transport : Transport}
    {region : Region} {pc pc' : TxPc} (h : (runningTx (file, call, pc)).compares = true)
    (hout : (Driver.txStep call answer transport region pc).1.pc? = some pc') :
    call.batchGeneration = some transport.generation := by
  cases pc with
  | stale expired =>
      simp only [Driver.txStep] at hout
      split_ifs at hout with hbatch
      · exact hbatch
      · cases hout
  | _ => cases h

theorem Ownership.txStep {s t : State} (h : Ownership s) {answer : Answer}
    (hstep : txStep s answer = some t) : Ownership t := by
  unfold Handover.txStep at hstep
  rcases htx : s.tx with - | ⟨file, call, pc⟩
  · rw [htx] at hstep
    cases hstep
  · simp only [htx] at hstep
    cases hstep
    obtain ⟨hsame, hregion, -⟩ := txStep_frame call answer s.transport s.region pc
    have hcall := txStep_callStep call answer s.transport s.region pc
    have hmem := mem_admitted_tx htx
    have hst : SameOwner s { s with
        transport := (Driver.txStep call answer s.transport s.region pc).2.1
        region := (Driver.txStep call answer s.transport s.region pc).2.2
        tx := (Driver.txStep call answer s.transport s.region pc).1.pc?.map
          fun pc' => (file, call, pc') } :=
      sameOwner_of_call hsame (by rw [hregion]) rfl rfl
    refine h.keep hst (fun next hnext => ?_) (fun file' pc' heq => (h.acquire file' pc' heq).congr hst)
      fun file' heq => (h.release file' heq).imp hst.shuttingDown hst.closed
    rcases mem_admitted.mp hnext with hqueued | ⟨entry, hrunning, rfl⟩ | hother
    · exact .inl (mem_admitted.mpr (.inl hqueued))
    · obtain ⟨pc', hpc, rfl⟩ := Option.map_eq_some_iff.mp hrunning
      right
      have hnext : (Driver.txStep call answer s.transport s.region pc).1.pc?.map txPending =
          some (txPending pc') := by
        rw [hpc]
        rfl
      rw [hnext] at hcall
      refine ⟨(h.calls _ hmem).callStep hst rfl (h.ordered _ hmem) ?_ hcall,
        hcall.ordered (h.ordered _ hmem) rfl⟩
      exact fun hcompares => txStep_compares hcompares hpc
    · exact .inl (mem_admitted.mpr (.inr (.inr hother)))

theorem rxStep_compares {file : File} {call : RxCall} {answer : Answer} {transport : Transport}
    {region : Region} {pc pc' : RxPc} (h : (runningRx (file, call, pc)).compares = true)
    (hout : (Driver.rxStep call answer transport region pc).1.pc? = some pc') :
    call.batchGeneration = some transport.generation := by
  cases pc with
  | stale expired =>
      simp only [Driver.rxStep] at hout
      split_ifs at hout with hbatch
      · exact hbatch
      · cases hout
  | _ => cases h

theorem Ownership.rxStep {s t : State} (h : Ownership s) {answer : Answer}
    (hstep : rxStep s answer = some t) : Ownership t := by
  unfold Handover.rxStep at hstep
  rcases hrx : s.rx with - | ⟨file, call, pc⟩
  · rw [hrx] at hstep
    cases hstep
  · simp only [hrx] at hstep
    cases hstep
    obtain ⟨hsame, hregion, -⟩ := rxStep_frame call answer s.transport s.region pc
    have hcall := rxStep_callStep call answer s.transport s.region pc
    have hmem := mem_admitted_rx hrx
    have hst : SameOwner s { s with
        transport := (Driver.rxStep call answer s.transport s.region pc).2.1
        region := (Driver.rxStep call answer s.transport s.region pc).2.2
        rx := (Driver.rxStep call answer s.transport s.region pc).1.pc?.map
          fun pc' => (file, call, pc') } :=
      sameOwner_of_call hsame (by rw [hregion]) rfl rfl
    refine h.keep hst (fun next hnext => ?_) (fun file' pc' heq => (h.acquire file' pc' heq).congr hst)
      fun file' heq => (h.release file' heq).imp hst.shuttingDown hst.closed
    rcases mem_admitted.mp hnext with hqueued | hother | ⟨entry, hrunning, rfl⟩
    · exact .inl (mem_admitted.mpr (.inl hqueued))
    · exact .inl (mem_admitted.mpr (.inr (.inl hother)))
    · obtain ⟨pc', hpc, rfl⟩ := Option.map_eq_some_iff.mp hrunning
      right
      have hnext : (Driver.rxStep call answer s.transport s.region pc).1.pc?.map rxPending =
          some (rxPending pc') := by
        rw [hpc]
        rfl
      rw [hnext] at hcall
      refine ⟨(h.calls _ hmem).callStep hst rfl (h.ordered _ hmem) ?_ hcall,
        hcall.ordered (h.ordered _ hmem) rfl⟩
      exact fun hcompares => rxStep_compares hcompares hpc

/-! ## Every step -/

/-- A step that keeps the calls and the owner, and at most starts an ACQUIRE or a release. -/
theorem Ownership.quiet {s t : State} (h : Ownership s) (hst : SameOwner s t)
    (hcalls : ∀ call ∈ t.admitted, call ∈ s.admitted ∨ Entitled t call ∧ Ordered call.pending)
    (hholder : ∀ file holder, t.holder = some (file, holder) →
      s.holder = some (file, holder) ∨ holder = .acquire .shuttingDown ∨
        holder = .release .owner) : Ownership t := by
  refine h.keep hst hcalls (fun file pc heq => ?_) fun file heq => ?_
  · rcases hholder file _ heq with hsame | hstart | hstart
    · exact (h.acquire file pc hsame).congr hst
    · cases hstart
      trivial
    · cases hstart
  · rcases hholder file _ heq with hsame | hstart | hstart
    · exact (h.release file hsame).imp hst.shuttingDown hst.closed
    · cases hstart
    · cases hstart

theorem owner_of_isOwner {transport : Transport} {file : File}
    (h : isOwner transport file = true) : transport.owner = some file := by
  simpa [isOwner] using (Bool.and_eq_true_iff.mp h).2

theorem Ownership.step {s t : State} {l : Label} (h : Ownership s)
    (hallowed : exclusive l s = true) (hstep : step l s = some t) : Ownership t := by
  have hqueued : ∀ {call : Admitted}, s.transport.owner = some call.file →
      call.pending = some rtosReady → ∀ {t : State}, SameOwner s t →
        Entitled t call ∧ Ordered call.pending := by
    intro call howner hpending t hst
    refine ⟨?_, hpending ▸ ordered_start⟩
    rcases h.owner call.file howner with hown | hclosed
    · exact .inl (hst.acquirer.trans hown)
    · refine .inr (.inl ⟨hst.closed hclosed, fun hpast => ?_, fun hpast => ?_⟩)
      · exact absurd (by decide) (hpast _ hpending)
      · exact absurd (by decide) (hpast _ hpending)
  cases l with
  | acquire file =>
      simp only [Handover.step] at hstep
      split at hstep <;> cases hstep
      rename_i hnone
      refine h.quiet ⟨rfl, rfl, id, rfl, rfl, ?_⟩ (fun _ => .inl) ?_
      · simp [State.upcoming, upcoming, hnone]
      · rintro _ _ ⟨⟩
        exact .inr (.inl rfl)
  | holder answer =>
      rcases hholder : s.holder with - | ⟨file, pc | pc⟩
      · simp only [Handover.step, holderStep, hholder] at hstep
        cases hstep
      · exact h.acquireStep hholder hallowed hstep
      · exact h.releaseStep hholder hstep
  | outside i answer =>
      simp only [Handover.step, outsideStep] at hstep
      split at hstep
      · cases hstep
      · split at hstep <;> cases hstep
        rename_i hnone
        refine h.quiet ⟨rfl, rfl, id, rfl, rfl, ?_⟩ (fun _ => .inl) ?_
        · simp [State.upcoming, hnone]
        · rintro _ _ ⟨⟩
          exact .inr (.inr rfl)
      · split at hstep <;> cases hstep <;>
          exact h.quiet ⟨rfl, rfl, id, rfl, rfl, rfl⟩ (fun _ => .inl) fun _ _ => .inl
  | close file =>
      simp only [Handover.step] at hstep
      split_ifs at hstep
      cases hstep
      exact h.quiet ⟨rfl, rfl, id, rfl, rfl, rfl⟩ (fun _ => .inl) fun _ _ => .inl
  | admitTx file call =>
      simp only [Handover.step] at hstep
      split_ifs at hstep with howner
      cases hstep
      have hst : SameOwner s { s with txQueue := s.txQueue ++ [(file, call)] } :=
        ⟨rfl, rfl, id, rfl, rfl, rfl⟩
      refine h.quiet hst (fun next hnext => ?_) fun _ _ => .inl
      rcases mem_admitted.mp hnext with (⟨entry, hmem, rfl⟩ | hother) | hrunning
      · rcases List.mem_append.mp hmem with hold | hnew
        · exact .inl (mem_admitted.mpr (.inl (.inl ⟨entry, hold, rfl⟩)))
        · obtain rfl := List.mem_singleton.mp hnew
          exact .inr (hqueued (owner_of_isOwner howner) rfl hst)
      · exact .inl (mem_admitted.mpr (.inl (.inr hother)))
      · exact .inl (mem_admitted.mpr (.inr hrunning))
  | admitRx file call =>
      simp only [Handover.step] at hstep
      split_ifs at hstep with howner
      cases hstep
      have hst : SameOwner s { s with rxQueue := s.rxQueue ++ [(file, call)] } :=
        ⟨rfl, rfl, id, rfl, rfl, rfl⟩
      refine h.quiet hst (fun next hnext => ?_) fun _ _ => .inl
      rcases mem_admitted.mp hnext with (hother | ⟨entry, hmem, rfl⟩) | hrunning
      · exact .inl (mem_admitted.mpr (.inl (.inl hother)))
      · rcases List.mem_append.mp hmem with hold | hnew
        · exact .inl (mem_admitted.mpr (.inl (.inr ⟨entry, hold, rfl⟩)))
        · obtain rfl := List.mem_singleton.mp hnew
          exact .inr (hqueued (owner_of_isOwner howner) rfl hst)
      · exact .inl (mem_admitted.mpr (.inr hrunning))
  | leaveTx i =>
      cases hstep
      refine h.quiet ⟨rfl, rfl, id, rfl, rfl, rfl⟩ (fun next hnext => ?_) fun _ _ => .inl
      rcases mem_admitted.mp hnext with (⟨entry, hmem, rfl⟩ | hother) | hrunning
      · exact .inl (mem_admitted.mpr (.inl (.inl ⟨entry, List.mem_of_mem_eraseIdx hmem, rfl⟩)))
      · exact .inl (mem_admitted.mpr (.inl (.inr hother)))
      · exact .inl (mem_admitted.mpr (.inr hrunning))
  | leaveRx i =>
      cases hstep
      refine h.quiet ⟨rfl, rfl, id, rfl, rfl, rfl⟩ (fun next hnext => ?_) fun _ _ => .inl
      rcases mem_admitted.mp hnext with (hother | ⟨entry, hmem, rfl⟩) | hrunning
      · exact .inl (mem_admitted.mpr (.inl (.inl hother)))
      · exact .inl (mem_admitted.mpr (.inl (.inr ⟨entry, List.mem_of_mem_eraseIdx hmem, rfl⟩)))
      · exact .inl (mem_admitted.mpr (.inr hrunning))
  | lockTx i =>
      simp only [Handover.step] at hstep
      split at hstep <;> cases hstep
      rename_i file call _ hi
      refine h.quiet ⟨rfl, rfl, id, rfl, rfl, rfl⟩ (fun next hnext => ?_) fun _ _ => .inl
      rcases mem_admitted.mp hnext with (⟨entry, hmem, rfl⟩ | hother) | hrunning
      · exact .inl (mem_admitted.mpr (.inl (.inl ⟨entry, List.mem_of_mem_eraseIdx hmem, rfl⟩)))
      · exact .inl (mem_admitted.mpr (.inl (.inr hother)))
      · rcases hrunning with ⟨entry, hentered, rfl⟩ | hother
        · obtain ⟨pc, hpc, rfl⟩ := Option.map_eq_some_iff.mp hentered
          have hout : call.enter = .running pc := by
            rcases hout : call.enter with next | ret
            · rw [hout] at hpc
              cases hpc
              rfl
            · rw [hout] at hpc
              cases hpc
          refine .inl (mem_admitted.mpr (.inl (.inl ⟨(file, call), List.mem_of_getElem? hi, ?_⟩)))
          exact (TxCall.compares_of_enter hout).symm
        · exact .inl (mem_admitted.mpr (.inr (.inr hother)))
  | lockRx i =>
      simp only [Handover.step] at hstep
      split at hstep <;> cases hstep
      rename_i file call _ hi
      refine h.quiet ⟨rfl, rfl, id, rfl, rfl, rfl⟩ (fun next hnext => ?_) fun _ _ => .inl
      rcases mem_admitted.mp hnext with (hother | ⟨entry, hmem, rfl⟩) | hrunning
      · exact .inl (mem_admitted.mpr (.inl (.inl hother)))
      · exact .inl (mem_admitted.mpr (.inl (.inr ⟨entry, List.mem_of_mem_eraseIdx hmem, rfl⟩)))
      · rcases hrunning with hother | ⟨entry, hentered, rfl⟩
        · exact .inl (mem_admitted.mpr (.inr (.inl hother)))
        · obtain ⟨pc, hpc, rfl⟩ := Option.map_eq_some_iff.mp hentered
          have hout : call.enter = .running pc := by
            rcases hout : call.enter with next | ret
            · rw [hout] at hpc
              cases hpc
              rfl
            · rw [hout] at hpc
              cases hpc
          refine .inl (mem_admitted.mpr (.inl (.inr ⟨(file, call), List.mem_of_getElem? hi, ?_⟩)))
          exact (RxCall.compares_of_enter hout).symm
  | tx answer => exact h.txStep hstep
  | rx answer => exact h.rxStep hstep
  | process =>
      simp only [Handover.step] at hstep
      split_ifs at hstep
      cases hstep
      exact h.quiet ⟨rfl, rfl, id, rfl, rfl, rfl⟩ (fun _ => .inl) fun _ _ => .inl
  | firmware mmio =>
      simp only [Handover.step, firmwareStep] at hstep
      split at hstep
      · cases hstep
      · rename_i pc _
        cases hstep
        obtain ⟨-, hpeer, -⟩ := processStep_frame mmio s.region s.statics pc
        exact h.quiet ⟨rfl, rfl, id, by rw [hpeer], rfl, rfl⟩ (fun _ => .inl) fun _ _ => .inl
  | reply sent =>
      simp only [Handover.step] at hstep
      split_ifs at hstep <;> cases hstep <;>
        exact h.quiet ⟨rfl, rfl, id, rfl, rfl, rfl⟩ (fun _ => .inl) fun _ _ => .inl
  | irq =>
      simp only [Handover.step] at hstep
      split_ifs at hstep <;> cases hstep <;>
        exact h.quiet ⟨rfl, rfl, id, rfl, rfl, rfl⟩ (fun _ => .inl) fun _ _ => .inl
  | shutdown =>
      cases hstep
      exact h.quiet ⟨rfl, rfl, fun _ => rfl, rfl, rfl, rfl⟩ (fun _ => .inl) fun _ _ => .inl
  | finishShutdown =>
      simp only [Handover.step, Handover.finishShutdown] at hstep
      split_ifs at hstep with hready
      cases hstep
      have hholder := Option.isNone_iff_eq_none.mp hready.2.2.1
      refine h.close ⟨rfl, rfl, rfl, rfl⟩ rfl ⟨.inl rfl, ?_⟩ (fun _ => offline_ne_ready)
        (by simp [hholder])
      simp [State.upcoming, hholder]
  | create =>
      simp only [Handover.step, Handover.create] at hstep
      split_ifs at hstep with hready
      cases hstep
      have hholder := Option.isNone_iff_eq_none.mp hready.2.1
      refine h.close ⟨rfl, rfl, rfl, rfl⟩ rfl ⟨.inl rfl, ?_⟩ id (by simp [hholder])
      simp [State.upcoming, hholder]

/-- While every ACQUIRE that clears the region finds at most outdated calls of other files,
the rings are used by the file that acquired the channel. -/
theorem channel_owned {s : State} (h : ReachableBy system (fun l s => exclusive l s = true) s) :
    Owned s :=
  Ownership.owned (h.invariant (fun _ => ownership_of_start) fun _ _ _ hs hallowed hstep =>
    hs.step hallowed hstep)

/-- The file whose call on the request ring is about to publish. -/
def publisher (s : State) : Option File :=
  match s.tx with
  | some (file, _, .publish _ _) => some file
  | _ => none

theorem publisher_eq_some {s : State} {file : File} (h : publisher s = some file) :
    ∃ call producer stamped, s.tx = some (file, call, .publish producer stamped) := by
  unfold publisher at h
  split at h
  · rename_i file' call producer stamped htx
    cases h
    exact ⟨call, producer, stamped, htx⟩
  · cases h

def publishMessage : List Label := .lockTx 0 :: List.replicate 21 (.tx .done)

/-- The second owner sends a message. -/
def secondOwner : List Label :=
  firstAcquire 1 ++ attachFirmware ++ finishAcquire ++ [.irq] ++ closeFile 1 ++ quiesceFirmware 2 ++
    .process :: firmwareSteps 2 ++ [.reply true, .irq] ++ initializeRegion ++ attachFirmware ++
    finishAcquire ++ .admitTx 2 (sendMessage Slot.zero true) :: publishMessage

theorem channel_owned_second :
    ∃ s, exec (guarded exclusive step) secondOwner State.initial = some s ∧
      publisher s = some 2 ∧ s.acquirer = some 2 ∧ Owned s := by
  have hrun : (exec (guarded exclusive step) secondOwner State.initial).map
      (fun s => (publisher s, s.acquirer)) = some (some 2, some 2) := by decide +kernel
  obtain ⟨s, hs, hstate⟩ := Option.map_eq_some_iff.mp hrun
  rw [Prod.mk.injEq] at hstate
  have hreach := (ReachableBy.start start_initial).execGuarded hs
  exact ⟨s, hs, hstate.1, hstate.2, channel_owned hreach⟩

/-! ## The second thread -/

/-- One thread of the owner waits for `tx_lock` while an ACQUIRE of another thread fails in
its copy and gives the channel up; the first thread sends in the next owner's channel. -/
def secondThread : List Label :=
  firstAcquire 1 ++ attachFirmware ++ finishAcquire ++
    [.irq, .admitTx 1 (sendMessage Slot.zero true), .acquire 1] ++ holderSteps 2 ++
    List.replicate 16 (.outside 0 .done) ++ [.outside 0 .fault, .outside 0 .done] ++
    holderSteps 4 ++ quiesceFirmware 2 ++ .process :: firmwareSteps 2 ++ [.reply true, .irq] ++
    initializeRegion ++ attachFirmware ++ finishAcquire ++ publishMessage

theorem second_thread :
    (exec step secondThread State.initial).map (fun s => (publisher s, s.acquirer)) =
      some (some 1, some 2) := by decide +kernel

theorem channel_not_owned : ¬ ∀ s, Reachable system s → Owned s := by
  intro h
  obtain ⟨s, hs, hstate⟩ := Option.map_eq_some_iff.mp second_thread
  rw [Prod.mk.injEq] at hstate
  have hreach : Reachable system s := (Reachable.start start_initial).exec hs
  obtain ⟨call, producer, stamped, htx⟩ := publisher_eq_some hstate.1
  have hown := (h s hreach).tx 1 call _ htx rfl
  rw [hstate.2] at hown
  cases hown

end Sg200x.Ipc.Handover
