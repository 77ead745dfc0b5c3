import Sg200x.Ipc.Freshness

/-!
# The firmware attaches to a complete generation

`attach` reads the layout line and then Linux's peer line, one word after the other,
while ACQUIREs and releases write them.  READY is the last word that
`initialize_generation` writes, so that the region is complete when `attach` sees it.
One read is still to come, and a release may have gone ahead by then.
-/

namespace Sg200x.Ipc.Attach

open Shm RingCore Firmware Driver Library Library.Transition
open Handover (publishing attaching writeLayout writePeer writeLayout_initWrites
  writePeer_initWrites)

/-! ## What is recorded of a run -/

/-- The region as `attach` has read `linux_peer.state`, and what had been cleared by then. -/
structure Look where
  layout : LayoutLine
  linuxPeer : PeerLine
  cleared : List (U32 × Piece)

structure State where
  handover : Handover.State
  /-- The generation that was in the region at the start. -/
  leftover : U32
  published : List U32
  /-- The pieces `memset_io` has cleared, each for the generation published after it. -/
  cleared : List (U32 × Piece)
  look : Option Look

def clearing (s : Handover.State) : Option (U32 × Piece) :=
  match s.holder with
  | some (_, .acquire (.clear previous _ (piece :: _))) => some (nextGeneration previous, piece)
  | _ => none

def looking (s : Handover.State) : Bool :=
  match s.firmware with
  | some (.linuxState _) => true
  | _ => false

def record (label : Handover.Label) (s : State) (handover : Handover.State) : State :=
  match label with
  | .holder _ =>
      { s with
        handover
        published := (publishing s.handover).toList ++ s.published
        cleared := (clearing s.handover).toList ++ s.cleared }
  | .firmware _ =>
      { s with
        handover
        look :=
          if looking s.handover then
            some ⟨s.handover.region.layout, s.handover.region.linuxPeer, s.cleared⟩
          else s.look }
  | _ => { s with handover }

def step (label : Handover.Label) (s : State) : Option State :=
  (Handover.step label s.handover).map (record label s)

structure Start (s : State) : Prop where
  handover : Handover.Start s.handover
  leftover : s.leftover = s.handover.region.layout.generation
  published : s.published = []
  cleared : s.cleared = []
  look : s.look = none

def system : System State Handover.Label := ⟨Start, step⟩

/-- No generation is published twice. -/
def distinct : Handover.Label → State → Bool
  | .holder _, s => (publishing s.handover).all (· ∉ s.leftover :: s.published)
  | _, _ => true

/-! ## What an attach finds -/

def counters : List Piece :=
  [.requestProducer, .requestConsumer, .responseProducer, .responseConsumer]

/-- `attach` makes its last read, and goes on to return 1. -/
def State.attaches (s : State) (g : U32) : Prop :=
  s.handover.firmware = some (.linuxGeneration g) ∧ s.handover.region.linuxPeer.generation = g

/-- The whole region is there at the last read. -/
def AttachesComplete (s : State) : Prop :=
  ∀ g ∈ s.published, s.attaches g →
    s.handover.region.layout = initialized g ∧
      s.handover.region.linuxPeer = ⟨stateReady, g⟩ ∧
      (s.handover.statics.activeGeneration ≠ g → ∀ piece ∈ counters, (g, piece) ∈ s.cleared)

structure Look.Complete (look : Look) (g : U32) : Prop where
  layout : look.layout = initialized g
  linuxPeer : look.linuxPeer = ⟨stateReady, g⟩
  cleared : ∀ piece ∈ pieces, (g, piece) ∈ look.cleared

/-- What `attach` has seen of the generation it returns 1 for. -/
structure Attaches (s : State) (g : U32) : Prop where
  published : g ∈ s.published
  /-- The region was complete at the read of `linux_peer.state`. -/
  look : ∃ look, s.look = some look ∧ look.Complete g
  /-- It still is at the last read, if nothing has written OFFLINE in between. -/
  last : s.handover.region.linuxPeer.state = stateReady →
    s.handover.region.layout = initialized g

/-! ## The invariant -/

section Facts

variable (s : State)

/-- The peer line is one that this run has written. -/
def State.Ready : Prop :=
  s.published ≠ [] ∧ s.handover.region.linuxPeer.state = stateReady

def State.Owned : Prop := s.handover.transport.owner ≠ none

/-- What an ACQUIRE knows of the region. -/
def AcquireFacts : AcquirePc → Prop
  | .owner => s.handover.transport.owner = none → ¬s.Ready
  | .layoutValid _ | .layoutGeneration | .rtosState _ | .rtosGeneration _ | .setOwner _ _ =>
      ¬s.Ready
  | .offline _ => s.Owned
  | .clearMagic _ | .clearGeneration _ | .snapshot _ | .quiesceKick _ _ _ | .wait _ _
  | .awake _ _ => s.Owned ∧ ¬s.Ready
  | .clear previous _ left =>
      s.Owned ∧ ¬s.Ready ∧
        (.linuxPeer ∈ left ∨ s.handover.region.linuxPeer.state ≠ stateReady) ∧
        ∀ piece ∈ pieces, piece ∈ left ∨ (nextGeneration previous, piece) ∈ s.cleared
  | .init g writes =>
      s.Owned ∧ writes ∈ initWrites.tails ∧
        writeLayout g writes s.handover.region.layout = initialized g ∧
        writePeer g writes s.handover.region.linuxPeer = ⟨stateReady, g⟩ ∧
        (.linuxState ∈ writes → s.handover.region.linuxPeer.state ≠ stateReady) ∧
        (∀ piece ∈ pieces, (g, piece) ∈ s.cleared) ∧
        (.layoutGeneration ∈ writes ∨ g ∈ s.published)
  | _ => True

/-- An ACQUIRE has written `layout.generation` and not yet `linux_peer.generation`. -/
def Between (holder : Option (File × Handover.Holder)) (g : U32) : Prop :=
  ∃ file writes, holder = some (file, .acquire (.init g writes)) ∧
    .linuxGeneration ∈ writes ∧ .layoutGeneration ∉ writes

structure Inv : Prop where
  cleared : ∀ g ∈ s.published, ∀ piece ∈ pieces, (g, piece) ∈ s.cleared
  layout : s.handover.region.layout.generation = 0#32 ∨
    s.handover.region.layout.generation = s.leftover ∨
    s.handover.region.layout.generation ∈ s.published
  ready : s.Ready →
    s.handover.region.layout = initialized s.handover.region.linuxPeer.generation ∧
      (s.Owned ∨ s.handover.transport.shuttingDown = true)
  complete : s.handover.shutdownComplete = true →
    s.handover.transport.shuttingDown = true ∧
      s.handover.region.linuxPeer.state ≠ stateReady
  acquire : ∀ file pc, s.handover.holder = some (file, .acquire pc) →
    AcquireFacts s pc ∧ (s.handover.shutdownComplete = true → pc = .shuttingDown)
  release : ∀ file, s.handover.holder = some (file, .release .clearOwner) →
    s.Ready → s.handover.transport.shuttingDown = true
  firmware : ∀ pc g, s.handover.firmware = some pc → attaching pc = some g →
    g ≠ 0#32 ∧ (g ≠ s.leftover → g ∈ s.published)
  last : ∀ g, s.handover.firmware = some (.linuxGeneration g) → g ≠ s.leftover →
    ¬Between s.handover.holder g ∧
      (s.handover.region.linuxPeer.generation = g →
        ∃ look, s.look = some look ∧ look.Complete g)

end Facts

theorem inv_of_start {s : State} (h : Start s) : Inv s where
  cleared := by simp [h.published]
  layout := .inr (.inl h.leftover.symm)
  ready hready := absurd h.published hready.1
  complete := by simp [h.handover.shutdownComplete]
  acquire := by simp [h.handover.holder]
  release := by simp [h.handover.holder]
  firmware := by simp [h.handover.firmware]
  last := by simp [h.handover.firmware]

theorem Inv.attaches {s : State} (hs : Inv s) {g : U32} (hne : g ≠ s.leftover)
    (h : s.attaches g) : Attaches s g := by
  obtain ⟨hfirmware, hpeer⟩ := h
  have hpublished := (hs.firmware _ g hfirmware rfl).2 hne
  refine ⟨hpublished, (hs.last g hfirmware hne).2 hpeer, fun hready => ?_⟩
  rw [← hpeer]
  exact (hs.ready ⟨List.ne_nil_of_mem hpublished, hready⟩).1

/-! ## The steps that leave the two lines alone -/

/-- What an ACQUIRE's facts depend on. -/
structure Same (s t : State) : Prop where
  layout : t.handover.region.layout = s.handover.region.layout
  linuxPeer : t.handover.region.linuxPeer = s.handover.region.linuxPeer
  owner : t.handover.transport.owner = s.handover.transport.owner
  leftover : t.leftover = s.leftover
  published : t.published = s.published
  cleared : t.cleared = s.cleared

theorem Same.ready {s t : State} (h : Same s t) : t.Ready ↔ s.Ready := by
  unfold State.Ready
  rw [h.published, h.linuxPeer]

theorem AcquireFacts.same {s t : State} {pc : AcquirePc} (h : AcquireFacts s pc)
    (hsame : Same s t) : AcquireFacts t pc := by
  have hready := hsame.ready
  have howned : t.Owned ↔ s.Owned := by
    unfold State.Owned
    rw [hsame.owner]
  cases pc with
  | owner =>
      change t.handover.transport.owner = none → ¬t.Ready
      rw [hsame.owner, hready]
      exact h
  | layoutValid | layoutGeneration | rtosState | rtosGeneration | setOwner => exact hready.not.mpr h
  | offline => exact howned.mpr h
  | clearMagic | clearGeneration | snapshot | quiesceKick | wait | awake =>
      exact ⟨howned.mpr h.1, hready.not.mpr h.2⟩
  | clear previous quiesce left =>
      obtain ⟨hown, hnot, hpeer, hcleared⟩ := h
      refine ⟨howned.mpr hown, hready.not.mpr hnot, ?_, ?_⟩
      · rw [hsame.linuxPeer]
        exact hpeer
      · rw [hsame.cleared]
        exact hcleared
  | init g writes =>
      obtain ⟨hown, htails, hlayout, hpeer, hstate, hcleared, hpublished⟩ := h
      refine ⟨howned.mpr hown, htails, ?_, ?_, ?_, ?_, ?_⟩
      · rw [hsame.layout]
        exact hlayout
      · rw [hsame.linuxPeer]
        exact hpeer
      · rw [hsame.linuxPeer]
        exact hstate
      · rw [hsame.cleared]
        exact hcleared
      · rw [hsame.published]
        exact hpublished
  | _ => trivial

/-- A step of a party that holds no lock on the two lines. -/
theorem Inv.frame {s t : State} (hs : Inv s) (hsame : Same s t)
    (hflag : s.handover.transport.shuttingDown = true →
      t.handover.transport.shuttingDown = true)
    (hcomplete : t.handover.shutdownComplete = true → s.handover.shutdownComplete = true)
    (hacquire : ∀ file pc, t.handover.holder = some (file, .acquire pc) →
      AcquireFacts t pc ∧ (t.handover.shutdownComplete = true → pc = .shuttingDown))
    (hrelease : ∀ file, t.handover.holder = some (file, .release .clearOwner) →
      s.handover.holder = some (file, .release .clearOwner))
    (hfirmware : ∀ pc g, t.handover.firmware = some pc → attaching pc = some g →
      g ≠ 0#32 ∧ (g ≠ t.leftover → g ∈ t.published))
    (hlast : ∀ g, t.handover.firmware = some (.linuxGeneration g) → g ≠ t.leftover →
      ¬Between t.handover.holder g ∧ (t.handover.region.linuxPeer.generation = g →
        ∃ look, t.look = some look ∧ look.Complete g)) : Inv t where
  cleared := by
    rw [hsame.published, hsame.cleared]
    exact hs.cleared
  layout := by
    rw [hsame.layout, hsame.leftover, hsame.published]
    exact hs.layout
  ready hready := by
    obtain ⟨hlayout, howner⟩ := hs.ready (hsame.ready.mp hready)
    refine ⟨?_, howner.imp (fun h => ?_) hflag⟩
    · rw [hsame.layout, hsame.linuxPeer]
      exact hlayout
    · unfold State.Owned
      rw [hsame.owner]
      exact h
  complete hdone := by
    obtain ⟨hdown, hstate⟩ := hs.complete (hcomplete hdone)
    refine ⟨hflag hdown, ?_⟩
    rw [hsame.linuxPeer]
    exact hstate
  acquire := hacquire
  release file hholder hready := hflag (hs.release file (hrelease file hholder)
    (hsame.ready.mp hready))
  firmware := hfirmware
  last := hlast

/-- A step outside the lock, and not of the firmware. -/
theorem Inv.quiet {s t : State} (hs : Inv s) (hsame : Same s t)
    (hflag : s.handover.transport.shuttingDown = true →
      t.handover.transport.shuttingDown = true)
    (hcomplete : t.handover.shutdownComplete = true → s.handover.shutdownComplete = true)
    (hholder : t.handover.holder = s.handover.holder ∨
      (∃ file, t.handover.holder = some (file, .acquire .shuttingDown)) ∨
      ∃ file, t.handover.holder = some (file, .release .owner))
    (hfirmware : t.handover.firmware = s.handover.firmware) (hlook : t.look = s.look) :
    Inv t := by
  refine hs.frame hsame hflag hcomplete ?_ ?_ ?_ ?_
  · intro file pc heq
    rcases hholder with hh | ⟨file', hh⟩ | ⟨file', hh⟩
    · rw [hh] at heq
      obtain ⟨hfacts, hdone⟩ := hs.acquire file pc heq
      exact ⟨hfacts.same hsame, fun h => hdone (hcomplete h)⟩
    · rw [hh] at heq
      cases heq
      exact ⟨trivial, fun _ => rfl⟩
    · rw [hh] at heq
      cases heq
  · intro file heq
    rcases hholder with hh | ⟨file', hh⟩ | ⟨file', hh⟩
    · rw [← hh]
      exact heq
    · rw [hh] at heq
      cases heq
    · rw [hh] at heq
      cases heq
  · rw [hfirmware, hsame.leftover, hsame.published]
    exact hs.firmware
  · rw [hfirmware, hsame.leftover, hsame.linuxPeer, hlook]
    intro g hpc hne
    obtain ⟨hbetween, hseen⟩ := hs.last g hpc hne
    refine ⟨?_, hseen⟩
    rcases hholder with hh | ⟨file', hh⟩ | ⟨file', hh⟩
    · rw [hh]
      exact hbetween
    · rintro ⟨file, writes, heq, -⟩
      rw [hh] at heq
      cases heq
    · rintro ⟨file, writes, heq, -⟩
      rw [hh] at heq
      cases heq

/-! ## The holder of `owner_lock` -/

theorem record_holder {s : State} {answer : Answer} {handover : Handover.State}
    (hpublishing : publishing s.handover = none) (hclearing : clearing s.handover = none) :
    record (.holder answer) s handover = { s with handover } := by
  unfold record
  simp only [hpublishing, hclearing, Option.toList_none, List.nil_append]

/-- The ACQUIRE goes on or leaves, and has not written to the two lines. -/
theorem Inv.hold {s : State} (hs : Inv s) {file : File} {answer : Answer}
    {handover : Handover.State} (hpublishing : publishing s.handover = none)
    (hclearing : clearing s.handover = none)
    (hregion : handover.region = s.handover.region)
    (howner : handover.transport.owner = s.handover.transport.owner)
    (hflag : handover.transport.shuttingDown = s.handover.transport.shuttingDown)
    (hrecord : handover.shutdownComplete = s.handover.shutdownComplete ∧
      handover.firmware = s.handover.firmware)
    (hnext : handover.holder = none ∨ ∃ pc', handover.holder = some (file, .acquire pc') ∧
      AcquireFacts s pc' ∧ s.handover.shutdownComplete = false ∧
      ∀ g writes, pc' = .init g writes → .linuxGeneration ∈ writes →
        .layoutGeneration ∈ writes) :
    Inv (record (.holder answer) s handover) := by
  rw [record_holder hpublishing hclearing]
  obtain ⟨hcomplete, hfirmware⟩ := hrecord
  have hsame : Same s { s with handover } :=
    ⟨by rw [hregion], by rw [hregion], howner, rfl, rfl, rfl⟩
  refine hs.frame hsame (fun h => hflag.trans h) (fun h => hcomplete.symm.trans h) ?_ ?_ ?_ ?_
  · intro file' pc' heq
    rcases hnext with hnone | ⟨next, hsome, hfacts, hdone, -⟩
    · rw [hnone] at heq
      cases heq
    · rw [hsome] at heq
      cases heq
      refine ⟨hfacts.same hsame, fun h => ?_⟩
      rw [hcomplete, hdone] at h
      cases h
  · intro file' heq
    rcases hnext with hnone | ⟨next, hsome, -⟩
    · rw [hnone] at heq
      cases heq
    · rw [hsome] at heq
      cases heq
  · rw [hfirmware]
    exact hs.firmware
  · rw [hfirmware, hregion]
    intro g hpc hne
    refine ⟨?_, (hs.last g hpc hne).2⟩
    rintro ⟨file', writes, heq, hlinux, hlayout⟩
    rcases hnext with hnone | ⟨next, hsome, -, -, hinit⟩
    · rw [hnone] at heq
      cases heq
    · rw [hsome] at heq
      cases heq
      exact hlayout (hinit g writes rfl hlinux)

/-- The ACQUIRE has written to a line that is not READY. -/
theorem Inv.store {s t : State} (hs : Inv s) (hready : ¬t.Ready)
    (hcomplete : t.handover.shutdownComplete = false)
    (hfirmware : t.handover.firmware = s.handover.firmware)
    (hrecord : t.leftover = s.leftover ∧ t.look = s.look)
    (hpublished : ∀ g ∈ s.published, g ∈ t.published)
    (hcleared : ∀ g ∈ t.published, ∀ piece ∈ pieces, (g, piece) ∈ t.cleared)
    (hlayout : t.handover.region.layout.generation = 0#32 ∨
      t.handover.region.layout.generation = s.handover.region.layout.generation ∨
      t.handover.region.layout.generation ∈ t.published)
    {file : File} {pc : AcquirePc} (hholder : t.handover.holder = some (file, .acquire pc))
    (hfacts : AcquireFacts t pc)
    (hattach : ∀ g ∈ s.published, g ≠ 0#32 → ¬Between s.handover.holder g →
      ¬Between t.handover.holder g ∧ (t.handover.region.linuxPeer.generation = g →
        s.handover.region.linuxPeer.generation = g)) : Inv t where
  cleared := hcleared
  layout := by
    rw [hrecord.1]
    rcases hlayout with hzero | hsame | hnew
    · exact .inl hzero
    · rw [hsame]
      exact hs.layout.imp id fun h => h.imp id fun h => hpublished _ h
    · exact .inr (.inr hnew)
  ready h := absurd h hready
  complete hdone := by
    rw [hcomplete] at hdone
    cases hdone
  acquire file' pc' heq := by
    rw [hholder] at heq
    cases heq
    refine ⟨hfacts, fun hdone => ?_⟩
    rw [hcomplete] at hdone
    cases hdone
  release file' heq := by
    rw [hholder] at heq
    cases heq
  firmware := by
    rw [hfirmware, hrecord.1]
    intro pc' g hpc hattaching
    exact (hs.firmware pc' g hpc hattaching).imp id fun h hne => hpublished g (h hne)
  last := by
    rw [hfirmware, hrecord.1, hrecord.2]
    intro g hpc hne
    obtain ⟨hbetween, hlook⟩ := hs.last g hpc hne
    obtain ⟨hzero, hmem⟩ := hs.firmware _ g hpc rfl
    obtain ⟨hbetween', hpeer⟩ := hattach g (hmem hne) hzero hbetween
    exact ⟨hbetween', fun h => hlook (hpeer h)⟩

/-! ### `initialize_generation` -/

theorem initWrites_nodup : ∀ all ∈ initWrites.tails, all.Nodup := by decide

/-- What follows READY does not touch the region. -/
theorem linuxState_mem_or : ∀ all ∈ initWrites.tails,
    .linuxState ∈ all ∨ ∀ write ∈ all, write = .generation ∨ write = .nextSequence := by decide

theorem initWrites_after : ∀ all ∈ initWrites.tails, all.head? = some .linuxState →
    all.tail = [.generation, .nextSequence] := by decide

theorem linuxState_of_linuxGeneration : ∀ all ∈ initWrites.tails,
    .linuxGeneration ∈ all → .linuxState ∈ all := by decide

theorem initWrite_owner (g : U32) (transport : Transport) (write : InitWrite) :
    (write.transport g transport).owner = transport.owner ∧
      (write.transport g transport).shuttingDown = transport.shuttingDown := by
  cases write <;> exact ⟨rfl, rfl⟩

theorem initWrite_state {write : InitWrite} (hne : write ≠ .linuxState) (g : U32)
    (peer : PeerLine) : (write.peer g peer).state = peer.state := by
  cases write with
  | linuxState => exact absurd rfl hne
  | _ => rfl

theorem initWrite_layoutGeneration {write : InitWrite} (hne : write ≠ .layoutGeneration)
    (g : U32) (layout : LayoutLine) :
    (write.layout g layout).generation = layout.generation := by
  cases write with
  | layoutGeneration => exact absurd rfl hne
  | _ => rfl

theorem initWrite_peerGeneration {write : InitWrite} (hne : write ≠ .linuxGeneration)
    (g : U32) (peer : PeerLine) : (write.peer g peer).generation = peer.generation := by
  cases write with
  | linuxGeneration => exact absurd rfl hne
  | _ => rfl

theorem recordAcquire_frame (s : Handover.State) (file : File) (pc : AcquirePc) :
    (Handover.recordAcquire s file pc).shutdownComplete = s.shutdownComplete ∧
      (Handover.recordAcquire s file pc).firmware = s.firmware := by
  unfold Handover.recordAcquire
  split <;> exact ⟨rfl, rfl⟩

theorem publishing_init {s : Handover.State} {file : File} {g : U32} {write : InitWrite}
    {writes : List InitWrite}
    (hholder : s.holder = some (file, .acquire (.init g (write :: writes)))) :
    publishing s = if write = .layoutGeneration then some g else none := by
  cases write <;> simp only [publishing, hholder] <;> rfl

/-- The store of READY finds the rest of the two lines written. -/
theorem Inv.publishReady {s t : State} (hs : Inv s) {file : File} {g : U32}
    {writes : List InitWrite}
    (hholder : s.handover.holder = some (file, .acquire (.init g (.linuxState :: writes))))
    (htransport : t.handover.transport = s.handover.transport)
    (hlayout : t.handover.region.layout = s.handover.region.layout)
    (hpeer : t.handover.region.linuxPeer =
      { s.handover.region.linuxPeer with state := stateReady })
    (hcomplete : t.handover.shutdownComplete = s.handover.shutdownComplete)
    (hfirmware : t.handover.firmware = s.handover.firmware)
    (hholder' : t.handover.holder = some (file, .acquire (.init g writes)))
    (hrecord : t.leftover = s.leftover ∧ t.published = s.published ∧ t.cleared = s.cleared ∧
      t.look = s.look) : Inv t := by
  obtain ⟨⟨howned, htails, hwritten, hwritten', -, hcleared, hpublished⟩, hdone⟩ :=
    hs.acquire _ _ hholder
  obtain ⟨hleftover, hpub, hclear, hlook⟩ := hrecord
  have hrest : writes = [.generation, .nextSequence] := initWrites_after _ htails rfl
  subst hrest
  have hline : s.handover.region.layout = initialized g := hwritten
  have hgeneration : s.handover.region.linuxPeer.generation = g :=
    congrArg PeerLine.generation hwritten'
  have hrunning : t.handover.shutdownComplete = false := by
    rw [hcomplete]
    by_contra hdown
    cases hdone ((Bool.not_eq_false _).mp hdown)
  have howned' : t.Owned := by
    unfold State.Owned
    rw [htransport]
    exact howned
  refine ⟨?_, ?_, fun _ => ⟨?_, .inl howned'⟩, ?_, ?_, ?_, ?_, ?_⟩
  · rw [hpub, hclear]
    exact hs.cleared
  · rw [hlayout, hleftover, hpub]
    exact hs.layout
  · rw [hlayout, hpeer, hline, hgeneration]
  · intro hdown
    rw [hrunning] at hdown
    cases hdown
  · intro file' pc heq
    rw [hholder'] at heq
    cases heq
    refine ⟨⟨howned', by decide, ?_, ?_, fun h => absurd h (by decide), ?_, .inr ?_⟩, ?_⟩
    · rw [hlayout, hline]
      rfl
    · rw [hpeer]
      exact hwritten'
    · rw [hclear]
      exact hcleared
    · rw [hpub]
      exact hpublished.resolve_left (by decide)
    · intro hdown
      rw [hrunning] at hdown
      cases hdown
  · intro file' heq
    rw [hholder'] at heq
    cases heq
  · rw [hfirmware, hleftover, hpub]
    exact hs.firmware
  · rw [hfirmware, hleftover, hlook, hpeer]
    intro g' hpc hne
    refine ⟨?_, (hs.last g' hpc hne).2⟩
    rintro ⟨file', writes, heq, hmem, -⟩
    rw [hholder'] at heq
    cases heq
    exact absurd hmem (by decide)

theorem Inv.initStep {s : State} (hs : Inv s) {file : File} {g : U32} {writes : List InitWrite}
    (hholder : s.handover.holder = some (file, .acquire (.init g writes))) {answer : Answer}
    (hdistinct : distinct (.holder answer) s = true) {handover : Handover.State}
    (hstep : Handover.holderStep s.handover answer = some handover) :
    Inv (record (.holder answer) s handover) := by
  obtain ⟨⟨howned, htails, hlayout, hpeer, hstate, hcleared, hpublished⟩, hdone⟩ :=
    hs.acquire _ _ hholder
  have hrunning : s.handover.shutdownComplete = false := by
    by_contra hcomplete
    cases hdone ((Bool.not_eq_false _).mp hcomplete)
  have hclearing : clearing s.handover = none := by simp only [clearing, hholder]
  simp only [Handover.holderStep, hholder] at hstep
  cases writes with
  | nil =>
      have hpublishing : publishing s.handover = none := by simp only [publishing, hholder]
      cases hstep
      exact @Inv.hold s hs file answer _ hpublishing hclearing rfl rfl rfl ⟨rfl, rfl⟩
        (.inr ⟨_, rfl, trivial, hrunning, (by simp)⟩)
  | cons write rest =>
      have hnodup := initWrites_nodup _ htails
      rw [List.nodup_cons] at hnodup
      have hrest : rest ∈ initWrites.tails := by
        rw [List.mem_tails] at htails ⊢
        exact (List.suffix_cons write rest).trans htails
      obtain ⟨howner, hflag⟩ := initWrite_owner g s.handover.transport write
      have hpub := publishing_init hholder
      obtain ⟨hcomplete, hfirmware⟩ :=
        recordAcquire_frame s.handover file (.init g (write :: rest))
      cases hstep
      by_cases hlast : .linuxState ∈ rest
      · -- the line is not READY, and READY is still to come
        have hne : write ≠ .linuxState := fun heq => hnodup.1 (heq ▸ hlast)
        have hstate' := initWrite_state hne g s.handover.region.linuxPeer
        have hoffline := hstate (List.mem_cons_of_mem _ hlast)
        have hmono : ∀ g' ∈ s.published,
            g' ∈ (publishing s.handover).toList ++ s.published :=
          fun g' hmem => List.mem_append_right _ hmem
        have hnew : write = .layoutGeneration →
            g ∈ (publishing s.handover).toList ++ s.published ∧ g ∉ s.published := by
          intro heq
          rw [if_pos heq] at hpub
          rw [hpub]
          refine ⟨List.mem_cons_self, fun hmem => ?_⟩
          simp only [distinct, hpub, Option.all_some, decide_eq_true_eq] at hdistinct
          exact hdistinct (List.mem_cons_of_mem _ hmem)
        refine hs.store (fun hready => ?_) (hcomplete.trans hrunning) hfirmware ⟨rfl, rfl⟩ hmono
          ?_ ?_ rfl ?_ ?_
        · exact hoffline (hstate'.symm.trans hready.2)
        · intro g' hmem piece hpiece
          simp only [record, clearing, hholder, Option.toList_none, List.nil_append]
          rcases List.mem_append.mp hmem with hmem | hmem
          · rw [hpub] at hmem
            split_ifs at hmem
            · rw [List.mem_singleton.mp hmem]
              exact hcleared piece hpiece
            · cases hmem
          · exact hs.cleared g' hmem piece hpiece
        · by_cases hwrite : write = .layoutGeneration
          · right; right
            subst hwrite
            exact (hnew rfl).1
          · exact .inr (.inl (initWrite_layoutGeneration hwrite g _))
        · refine ⟨?_, hrest, hlayout, hpeer, fun _ => ?_, ?_, ?_⟩
          · change (write.transport g s.handover.transport).owner ≠ none
            rw [howner]
            exact howned
          · exact fun hready => hoffline (hstate'.symm.trans hready)
          · simp only [record, clearing, hholder, Option.toList_none, List.nil_append]
            exact hcleared
          · by_cases hwrite : write = .layoutGeneration
            · exact .inr (hnew hwrite).1
            · exact hpublished.imp (fun h => (List.mem_cons.mp h).resolve_left (Ne.symm hwrite))
                (hmono g)
        · intro g' hmem hzero hbetween
          refine ⟨?_, fun hread => ?_⟩
          · rintro ⟨file', writes', heq, hlinux, hnot⟩
            cases heq
            by_cases hwrite : write = .layoutGeneration
            · exact (hnew hwrite).2 hmem
            · refine hbetween ⟨file, _, hholder, List.mem_cons_of_mem _ hlinux, fun hlater => ?_⟩
              exact hnot ((List.mem_cons.mp hlater).resolve_left (Ne.symm hwrite))
          · by_cases hwrite : write = .linuxGeneration
            · subst hwrite
              obtain rfl : g = g' := hread
              refine absurd ⟨file, _, hholder, List.mem_cons_self, fun hlater => ?_⟩ hbetween
              have hlater := (List.mem_cons.mp hlater).resolve_left (by simp)
              exact (Handover.initWrites_order htails hlater).2.1 rfl
            · exact (initWrite_peerGeneration hwrite g _).symm.trans hread
      · rcases linuxState_mem_or _ htails with hmem | hafter
        · obtain rfl : InitWrite.linuxState = write :=
            (List.mem_cons.mp hmem).resolve_right hlast
          rw [if_neg (by simp)] at hpub
          refine hs.publishReady hholder rfl rfl rfl hcomplete hfirmware rfl ⟨rfl, ?_, ?_, rfl⟩
          · simp only [record, hpub, Option.toList_none, List.nil_append]
          · simp only [record, hclearing, Option.toList_none, List.nil_append]
        · have hlater : .layoutGeneration ∉ write :: rest := fun hmem => by
            rcases hafter _ hmem with heq | heq <;> cases heq
          have hmem : g ∈ s.published := hpublished.resolve_left hlater
          have hearly : .linuxGeneration ∉ rest := fun hmem => by
            rcases hafter _ (List.mem_cons_of_mem _ hmem) with heq | heq <;> cases heq
          have hnext : AcquireFacts s (.init g rest) := by
            refine ⟨howned, hrest, ?_, ?_, fun h => absurd h hlast, hcleared, .inr hmem⟩
            · rcases hafter write List.mem_cons_self with rfl | rfl <;> exact hlayout
            · rcases hafter write List.mem_cons_self with rfl | rfl <;> exact hpeer
          have hregion : ({ s.handover.region with
              layout := write.layout g s.handover.region.layout
              linuxPeer := write.peer g s.handover.region.linuxPeer } : Region) =
                s.handover.region := by
            rcases hafter write List.mem_cons_self with rfl | rfl <;> rfl
          refine hs.hold ?_ hclearing hregion howner hflag ⟨hcomplete, hfirmware⟩
            (.inr ⟨.init g rest, rfl, hnext, hrunning, ?_⟩)
          · rw [hpub, if_neg fun heq : write = .layoutGeneration => hlater (heq ▸ List.mem_cons_self)]
          · rintro _ _ ⟨⟩ hlinux
            exact absurd hlinux hearly

theorem clear_linuxPeer (region : Region) (piece : Piece) :
    (piece.clear region).linuxPeer = ⟨0#32, 0#32⟩ ∨
      piece ≠ .linuxPeer ∧ (piece.clear region).linuxPeer = region.linuxPeer := by
  cases piece with
  | linuxPeer => exact .inl rfl
  | _ => exact .inr ⟨nofun, rfl⟩

theorem Inv.clearStep {s : State} (hs : Inv s) {file : File} {previous : U32} {quiesce : Bool}
    {left : List Piece}
    (hholder : s.handover.holder = some (file, .acquire (.clear previous quiesce left)))
    {answer : Answer} {handover : Handover.State}
    (hstep : Handover.holderStep s.handover answer = some handover) :
    Inv (record (.holder answer) s handover) := by
  obtain ⟨⟨howned, hready, hpeer, hcleared⟩, hdone⟩ := hs.acquire _ _ hholder
  have hrunning : s.handover.shutdownComplete = false := by
    by_contra hcomplete
    cases hdone ((Bool.not_eq_false _).mp hcomplete)
  have hpublishing : publishing s.handover = none := by simp only [publishing, hholder]
  simp only [Handover.holderStep, hholder] at hstep
  cases left with
  | nil =>
      have hclearing : clearing s.handover = none := by simp only [clearing, hholder]
      cases hstep
      refine @Inv.hold s hs file answer _ hpublishing hclearing rfl rfl rfl ⟨rfl, rfl⟩
        (.inr ⟨_, rfl, ⟨howned, by decide, writeLayout_initWrites _ _, writePeer_initWrites _ _,
          fun _ => hpeer.resolve_left (by simp), ?_, .inl (by decide)⟩, hrunning, ?_⟩)
      · exact fun piece hpiece => (hcleared piece hpiece).resolve_left (by simp)
      · rintro _ _ ⟨⟩ -
        decide
  | cons piece left =>
      have hclearing : clearing s.handover = some (nextGeneration previous, piece) := by
        simp only [clearing, hholder]
      have hoffline : (piece.clear s.handover.region).linuxPeer.state = stateReady →
          s.handover.region.linuxPeer.state = stateReady := by
        rcases clear_linuxPeer s.handover.region piece with hzero | ⟨-, hsame⟩
        · rw [hzero]
          exact fun h => absurd h (by decide)
        · rw [hsame]
          exact id
      cases hstep
      refine hs.store (fun h => hready ?_) hrunning rfl ⟨rfl, rfl⟩ ?_ ?_ ?_ rfl ?_ ?_
      · simp only [State.Ready, record, hpublishing, Option.toList_none, List.nil_append] at h
        exact ⟨h.1, hoffline h.2⟩
      · exact fun g hmem => List.mem_append_right _ hmem
      · simp only [record, hpublishing, hclearing, Option.toList_none, List.nil_append]
        exact fun g hmem piece hpiece => List.mem_append_right _ (hs.cleared g hmem piece hpiece)
      · exact (Handover.clear_layoutGeneration s.handover.region piece).imp id .inl
      · refine ⟨howned, fun h => hready ?_, ?_, ?_⟩
        · simp only [State.Ready, record, hpublishing, Option.toList_none, List.nil_append] at h
          exact ⟨h.1, hoffline h.2⟩
        · rcases clear_linuxPeer s.handover.region piece with hzero | ⟨hne, hsame⟩
          · right
            change (piece.clear s.handover.region).linuxPeer.state ≠ stateReady
            rw [hzero]
            decide
          · refine hpeer.imp (fun hmem => (List.mem_cons.mp hmem).resolve_left (Ne.symm hne))
              fun hstate => ?_
            change (piece.clear s.handover.region).linuxPeer.state ≠ stateReady
            rw [hsame]
            exact hstate
        · intro piece' hpiece
          simp only [record, hclearing, Option.toList_some, List.singleton_append, List.mem_cons]
          rcases hcleared piece' hpiece with hmem | hmem
          · rcases List.mem_cons.mp hmem with rfl | hmem
            · exact .inr (.inl rfl)
            · exact .inl hmem
          · exact .inr (.inr hmem)
      · intro g _ hzero _
        refine ⟨?_, fun hread => ?_⟩
        · rintro ⟨file', writes, heq, -⟩
          cases heq
        · rcases Handover.clear_peerGeneration s.handover.region piece with hcleared | ⟨-, hsame⟩
          · exact absurd (hread.symm.trans hcleared) hzero
          · exact hsame.symm.trans hread

/-! ### The rest of `acquire` -/

section Rest

variable {s : Handover.State} {file : File} {pc : AcquirePc}
  (hholder : s.holder = some (file, .acquire pc))
include hholder

theorem publishing_eq_none (hinit : ∀ g writes, pc ≠ .init g writes) : publishing s = none := by
  cases pc with
  | init g writes => exact absurd rfl (hinit g writes)
  | _ => simp only [publishing, hholder]

theorem clearing_eq_none (hclear : ∀ previous quiesce left, pc ≠ .clear previous quiesce left) :
    clearing s = none := by
  cases pc with
  | clear previous quiesce left => exact absurd rfl (hclear previous quiesce left)
  | _ => simp only [clearing, hholder]

end Rest

theorem Inv.acquireStep {s : State} (hs : Inv s) {file : File} {pc : AcquirePc}
    (hholder : s.handover.holder = some (file, .acquire pc)) {answer : Answer}
    (hdistinct : distinct (.holder answer) s = true) {handover : Handover.State}
    (hstep : Handover.holderStep s.handover answer = some handover) :
    Inv (record (.holder answer) s handover) := by
  obtain ⟨hfacts, hdone⟩ := hs.acquire file pc hholder
  have hrunning : pc ≠ .shuttingDown → s.handover.shutdownComplete = false := by
    intro hne
    by_contra hcomplete
    exact hne (hdone ((Bool.not_eq_false _).mp hcomplete))
  have hold := fun hinit hclear handover => @Inv.hold s hs file answer handover
    (publishing_eq_none hholder hinit) (clearing_eq_none hholder hclear)
  -- a store to a line that is not READY, or of the owner
  have hstore : (∀ g writes, pc ≠ .init g writes) →
      (∀ previous quiesce left, pc ≠ .clear previous quiesce left) →
      ∀ (transport : Transport) (region : Region) (pc' : AcquirePc),
        ¬State.Ready { s with handover := { s.handover with transport, region } } →
        region.layout.generation = s.handover.region.layout.generation →
        region.linuxPeer.generation = s.handover.region.linuxPeer.generation →
        s.handover.shutdownComplete = false → (∀ g writes, pc' ≠ .init g writes) →
        AcquireFacts { s with handover := { s.handover with transport, region } } pc' →
        Inv (record (.holder answer) s { s.handover with
          transport, region, holder := some (file, .acquire pc') }) := by
    intro hinit hclear transport region pc' hready hlayout hpeer hcomplete hinit' hnext
    rw [record_holder (publishing_eq_none hholder hinit) (clearing_eq_none hholder hclear)]
    refine hs.store hready hcomplete rfl ⟨rfl, rfl⟩ (fun _ => id) hs.cleared
      (.inr (.inl hlayout)) rfl (hnext.same ⟨rfl, rfl, rfl, rfl, rfl, rfl⟩) ?_
    intro g _ _ _
    refine ⟨?_, fun hread => hpeer.symm.trans hread⟩
    rintro ⟨file', writes, heq, -⟩
    cases heq
    exact hinit' g writes rfl
  cases pc with
  | init g writes => exact hs.initStep hholder hdistinct hstep
  | clear previous quiesce left => exact hs.clearStep hholder hstep
  | shuttingDown =>
      simp only [Handover.holderStep, hholder, Driver.acquireStep] at hstep
      split_ifs at hstep with hflag <;> cases hstep
      · exact hold (by simp) (by simp) _ rfl rfl rfl ⟨rfl, rfl⟩ (.inl rfl)
      · refine hold (by simp) (by simp) _ rfl rfl rfl ⟨rfl, rfl⟩ (.inr ⟨.owner, rfl, ?_, ?_, (by simp)⟩)
        · intro howner hready
          rcases (hs.ready hready).2 with hown | hdown
          · exact hown howner
          · exact hflag hdown
        · by_contra hcomplete
          exact hflag (hs.complete ((Bool.not_eq_false _).mp hcomplete)).1
  | owner =>
      simp only [Handover.holderStep, hholder, Driver.acquireStep] at hstep
      cases howner : s.handover.transport.owner with
      | none =>
          rw [howner] at hstep
          cases hstep
          exact hold (by simp) (by simp) _ rfl rfl rfl ⟨rfl, rfl⟩
            (.inr ⟨_, rfl, hfacts howner, hrunning (by simp), (by simp)⟩)
      | some other =>
          rw [howner] at hstep
          dsimp only at hstep
          split_ifs at hstep <;> cases hstep <;>
            exact hold (by simp) (by simp) _ rfl rfl rfl ⟨rfl, rfl⟩ (.inl rfl)
  | layoutValid reads =>
      simp only [Handover.holderStep, hholder] at hstep
      cases reads with
      | nil =>
          cases hstep
          exact hold (by simp) (by simp) _ rfl rfl rfl ⟨rfl, rfl⟩ (.inr ⟨_, rfl, hfacts, hrunning (by simp), (by simp)⟩)
      | cons read reads =>
          simp only [Driver.acquireStep] at hstep
          split_ifs at hstep <;> cases hstep <;>
            exact hold (by simp) (by simp) _ rfl rfl rfl ⟨rfl, rfl⟩ (.inr ⟨_, rfl, hfacts, hrunning (by simp), (by simp)⟩)
  | layoutGeneration | rtosState previous =>
      simp only [Handover.holderStep, hholder, Driver.acquireStep] at hstep
      split_ifs at hstep <;> cases hstep <;>
        exact hold (by simp) (by simp) _ rfl rfl rfl ⟨rfl, rfl⟩ (.inr ⟨_, rfl, hfacts, hrunning (by simp), (by simp)⟩)
  | setOwner previous quiesce =>
      simp only [Handover.holderStep, hholder, Driver.acquireStep] at hstep
      cases quiesce with
      | true =>
          cases hstep
          exact hstore (by simp) (by simp) _ _ (.offline previous) hfacts rfl rfl (hrunning (by simp)) (by simp)
            (by rintro ⟨⟩)
      | false =>
          cases hstep
          exact hstore (by simp) (by simp) _ _ (.clear previous false pieces) hfacts rfl rfl
            (hrunning (by simp)) (by simp)
            ⟨by rintro ⟨⟩, hfacts, .inl (by simp [pieces]), fun _ => .inl⟩
  | rtosGeneration previous =>
      simp only [Handover.holderStep, hholder] at hstep
      cases hstep
      exact hold (by simp) (by simp) _ rfl rfl rfl ⟨rfl, rfl⟩
        (.inr ⟨_, rfl, hfacts, hrunning (by simp), (by simp)⟩)
  | offline previous =>
      have hready : ¬State.Ready { s with handover := { s.handover with
          region := { s.handover.region with
            linuxPeer := { s.handover.region.linuxPeer with state := stateOffline } } } } :=
        fun h => absurd h.2 (by decide : stateOffline ≠ stateReady)
      simp only [Handover.holderStep, hholder] at hstep
      cases hstep
      exact hstore (by simp) (by simp) _ _ (.clearMagic previous) hready rfl rfl (hrunning (by simp)) (by simp)
        ⟨hfacts, hready⟩
  | clearMagic previous =>
      simp only [Handover.holderStep, hholder] at hstep
      cases hstep
      exact hstore (by simp) (by simp) _ _ (.clearGeneration previous) hfacts.2 rfl rfl (hrunning (by simp))
        (by simp) hfacts
  | clearGeneration previous | snapshot previous =>
      simp only [Handover.holderStep, hholder] at hstep
      cases hstep
      exact hold (by simp) (by simp) _ rfl rfl rfl ⟨rfl, rfl⟩
        (.inr ⟨_, rfl, hfacts, hrunning (by simp), (by simp)⟩)
  | quiesceKick previous notification pc =>
      have hframe := kickStep_frame answer s.handover.transport pc
      simp only [Handover.holderStep, hholder, Driver.acquireStep] at hstep
      rcases hout : kickStep answer s.handover.transport pc with ⟨pc' | value, transport⟩ <;>
        rw [hout] at hframe <;> simp only [hout] at hstep <;> cases hstep <;>
        exact hold (by simp) (by simp) _ rfl hframe.owner hframe.shuttingDown ⟨rfl, rfl⟩
          (.inr ⟨_, rfl, hfacts, hrunning (by simp), (by simp)⟩)
  | wait previous notification =>
      simp only [Handover.holderStep, hholder, Driver.acquireStep] at hstep
      split_ifs at hstep <;> cases hstep <;>
        exact hold (by simp) (by simp) _ rfl rfl rfl ⟨rfl, rfl⟩
          (.inr ⟨_, rfl, hfacts, hrunning (by simp), (by simp)⟩)
  | awake previous ended =>
      simp only [Handover.holderStep, hholder, Driver.acquireStep] at hstep
      split_ifs at hstep
      · cases hstep
        exact hold (by simp) (by simp) _ rfl rfl rfl ⟨rfl, rfl⟩ (.inl rfl)
      · cases ended with
        | expired | interrupted =>
            cases hstep
            exact hold (by simp) (by simp) _ rfl rfl rfl ⟨rfl, rfl⟩ (.inl rfl)
        | done | fault | busy =>
            cases hstep
            exact hold (by simp) (by simp) _ rfl rfl rfl ⟨rfl, rfl⟩ (.inr ⟨_, rfl,
              ⟨hfacts.1, hfacts.2, .inl (by simp [pieces]), fun _ => .inl⟩, hrunning (by simp), (by simp)⟩)
  | kick pc =>
      have hframe := kickStep_frame answer s.handover.transport pc
      simp only [Handover.holderStep, hholder, Driver.acquireStep] at hstep
      rcases hout : kickStep answer s.handover.transport pc with ⟨pc' | value, transport⟩ <;>
        rw [hout] at hframe <;> simp only [hout] at hstep <;> cases hstep
      · exact hold (by simp) (by simp) _ rfl hframe.owner hframe.shuttingDown ⟨rfl, rfl⟩
          (.inr ⟨_, rfl, trivial, hrunning (by simp), (by simp)⟩)
      · exact hold (by simp) (by simp) _ rfl hframe.owner hframe.shuttingDown ⟨rfl, rfl⟩ (.inl rfl)

/-! ## The other writers of the two lines -/

theorem Inv.releaseStep {s : State} (hs : Inv s) {file : File} {pc : ReleasePc}
    (hholder : s.handover.holder = some (file, .release pc)) {answer : Answer}
    {handover : Handover.State} (hstep : Handover.holderStep s.handover answer = some handover) :
    Inv (record (.holder answer) s handover) := by
  have hpublishing : publishing s.handover = none := by simp only [publishing, hholder]
  have hclearing : clearing s.handover = none := by simp only [clearing, hholder]
  have hlast : ∀ (holder : Option (File × Handover.Holder)),
      (∀ file pc, holder ≠ some (file, .acquire pc)) →
      ∀ g, s.handover.firmware = some (.linuxGeneration g) → g ≠ s.leftover →
        ¬Between holder g ∧ (s.handover.region.linuxPeer.generation = g →
          ∃ look, s.look = some look ∧ look.Complete g) := by
    intro holder hne g hpc hg
    refine ⟨?_, (hs.last g hpc hg).2⟩
    rintro ⟨file', writes, heq, -⟩
    exact hne _ _ heq
  rw [record_holder hpublishing hclearing]
  simp only [Handover.holderStep, hholder] at hstep
  cases pc with
  | owner =>
      simp only [Driver.releaseStep] at hstep
      split_ifs at hstep <;> cases hstep <;>
        exact { hs with acquire := (by simp), release := (by rintro _ ⟨⟩), last := hlast _ (by simp) }
  | shuttingDown =>
      simp only [Driver.releaseStep] at hstep
      split_ifs at hstep with hflag <;> cases hstep
      · exact { hs with
          acquire := (by simp)
          release := fun _ _ _ => hflag
          last := hlast _ (by simp) }
      · exact { hs with acquire := (by simp), release := (by rintro _ ⟨⟩), last := hlast _ (by simp) }
  | offline =>
      cases hstep
      have hoffline : stateOffline ≠ stateReady := by decide
      exact { hs with
        ready := fun hready => absurd hready.2 hoffline
        complete := fun hdone => ⟨(hs.complete hdone).1, hoffline⟩
        acquire := (by simp)
        release := fun _ _ hready => absurd hready.2 hoffline
        last := hlast _ (by simp) }
  | clearOwner =>
      cases hstep
      exact { hs with
        ready := fun hready => ⟨(hs.ready hready).1, .inr (hs.release file hholder hready)⟩
        acquire := (by simp)
        release := (by rintro _ ⟨⟩)
        last := hlast _ (by simp) }

theorem Inv.finishShutdown {s : State} (hs : Inv s) {handover : Handover.State}
    (hstep : Handover.finishShutdown s.handover = some handover) :
    Inv { s with handover } := by
  unfold Handover.finishShutdown at hstep
  split_ifs at hstep with hready
  obtain ⟨hflag, -, hholder, -⟩ := hready
  rw [Option.isNone_iff_eq_none] at hholder
  have hoffline : stateOffline ≠ stateReady := by decide
  cases hstep
  exact { hs with
    ready := fun h => absurd h.2 hoffline
    complete := fun _ => ⟨hflag, hoffline⟩
    acquire := by simp [hholder]
    release := by simp [hholder] }

theorem Inv.create {s : State} (hs : Inv s) {handover : Handover.State}
    (hstep : Handover.create s.handover = some handover) : Inv { s with handover } := by
  unfold Handover.create at hstep
  split_ifs at hstep with hready
  obtain ⟨hdone, hholder, -⟩ := hready
  rw [Option.isNone_iff_eq_none] at hholder
  have hoffline := (hs.complete hdone).2
  cases hstep
  exact { hs with
    ready := fun h => absurd h.2 hoffline
    complete := nofun
    acquire := by simp [hholder]
    release := by simp [hholder] }

/-! ## The firmware -/

/-- Only a peer that is READY leads to the last read. -/
theorem processStep_linuxGeneration {mmio : App.Mmio} {region : Region} {statics : Statics}
    {pc : ProcessPc} {g : U32}
    (hout : (processStep mmio region statics pc).1 = .running (.linuxGeneration g)) :
    pc = .linuxState g ∧ region.linuxPeer.state = stateReady := by
  have hattaching : attaching pc = some g ∨ pc = .readGeneration :=
    (Handover.processStep_attaching hout rfl).imp id And.left
  cases pc with
  | linuxState generation =>
      simp only [processStep] at hout
      split_ifs at hout with hready
      cases hout
      exact ⟨rfl, hready⟩
  | layoutIsValid generation reads =>
      cases reads with
      | nil => cases hout
      | cons read reads =>
          simp only [processStep] at hout
          split_ifs at hout
          cases hout
  | linuxGeneration generation =>
      simp only [processStep] at hout
      split_ifs at hout
      unfold attach loop at hout
      split_ifs at hout <;> cases hout
  | readGeneration =>
      simp only [processStep] at hout
      split_ifs at hout
      cases hout
  | _ => rcases hattaching with h | h <;> cases h

theorem Inv.firmwareStep {s : State} (hs : Inv s) {mmio : App.Mmio} {handover : Handover.State}
    (hstep : Handover.firmwareStep s.handover mmio = some handover) :
    Inv (record (.firmware mmio) s handover) := by
  unfold Handover.firmwareStep at hstep
  rcases hfw : s.handover.firmware with - | pc
  · rw [hfw] at hstep
    cases hstep
  · simp only [hfw] at hstep
    obtain ⟨hlayout, hpeer, -⟩ := processStep_frame mmio s.handover.region s.handover.statics pc
    rcases hresult : processStep mmio s.handover.region s.handover.statics pc with
      ⟨out, region, statics⟩
    rw [hresult] at hstep hlayout hpeer
    dsimp only at hlayout hpeer
    cases hstep
    have hout : ∀ {pc'}, out.pc? = some pc' →
        (processStep mmio s.handover.region s.handover.statics pc).1 = .running pc' := by
      intro pc' heq
      rw [hresult]
      cases out with
      | running next => cases heq; rfl
      | returned ret => cases heq
    have hfirmware : ∀ pc' g, out.pc? = some pc' → attaching pc' = some g →
        g ≠ 0#32 ∧ (g ≠ s.leftover → g ∈ s.published) := by
      intro pc' g hpc' hattaching
      rcases Handover.processStep_attaching (hout hpc') hattaching with hsame | ⟨-, heq, hne⟩
      · exact hs.firmware pc g hfw hsame
      · refine ⟨hne, fun hleft => ?_⟩
        rw [heq] at hne hleft ⊢
        exact (hs.layout.resolve_left hne).resolve_left hleft
    refine hs.frame ⟨hlayout, hpeer, rfl, rfl, rfl, rfl⟩ id id ?_ (fun _ => id) hfirmware ?_
    · intro file pc' heq
      obtain ⟨hfacts, hdone⟩ := hs.acquire file pc' heq
      exact ⟨hfacts.same ⟨hlayout, hpeer, rfl, rfl, rfl, rfl⟩, hdone⟩
    · intro g hpc' hleft
      obtain ⟨rfl, hready⟩ := processStep_linuxGeneration (hout hpc')
      have hmem := (hs.firmware _ g hfw rfl).2 hleft
      have hrec : s.Ready := ⟨List.ne_nil_of_mem hmem, hready⟩
      refine ⟨?_, fun hread => ?_⟩
      · rintro ⟨file, writes, heq, hlinux, -⟩
        obtain ⟨⟨-, htails, -, -, hstate, -⟩, -⟩ := hs.acquire _ _ heq
        exact hstate (linuxState_of_linuxGeneration _ htails hlinux) hready
      · have hgeneration : s.handover.region.linuxPeer.generation = g := hpeer ▸ hread
        refine ⟨_, if_pos (by simp only [looking, hfw]), ?_, ?_, hs.cleared g hmem⟩
        · rw [← hgeneration]
          exact (hs.ready hrec).1
        · rw [← hready, ← hgeneration]

/-! ## Every step -/

theorem Inv.step {s t : State} {l : Handover.Label} (hs : Inv s)
    (hdistinct : distinct l s = true) (h : Attach.step l s = some t) : Inv t := by
  obtain ⟨handover, hstep, rfl⟩ := Option.map_eq_some_iff.mp h
  clear h
  cases l with
  | acquire file =>
      simp only [Handover.step] at hstep
      split at hstep <;> cases hstep
      exact hs.quiet ⟨rfl, rfl, rfl, rfl, rfl, rfl⟩ id id (.inr (.inl ⟨file, rfl⟩)) rfl rfl
  | holder answer =>
      rcases hholder : s.handover.holder with - | ⟨file, pc | pc⟩
      · simp only [Handover.step, Handover.holderStep, hholder] at hstep
        cases hstep
      · exact hs.acquireStep hholder hdistinct hstep
      · exact hs.releaseStep hholder hstep
  | outside i answer =>
      simp only [Handover.step, Handover.outsideStep] at hstep
      split at hstep
      · cases hstep
      · rename_i file _
        split at hstep <;> cases hstep
        exact hs.quiet ⟨rfl, rfl, rfl, rfl, rfl, rfl⟩ id id (.inr (.inr ⟨file, rfl⟩)) rfl rfl
      · split at hstep <;> cases hstep <;>
          exact hs.quiet ⟨rfl, rfl, rfl, rfl, rfl, rfl⟩ id id (.inl rfl) rfl rfl
  | close file | admitTx file call | admitRx file call =>
      simp only [Handover.step] at hstep
      split_ifs at hstep
      cases hstep
      exact hs.quiet ⟨rfl, rfl, rfl, rfl, rfl, rfl⟩ id id (.inl rfl) rfl rfl
  | leaveTx i | leaveRx i =>
      cases hstep
      exact hs.quiet ⟨rfl, rfl, rfl, rfl, rfl, rfl⟩ id id (.inl rfl) rfl rfl
  | lockTx i | lockRx i =>
      simp only [Handover.step] at hstep
      split at hstep <;> cases hstep
      exact hs.quiet ⟨rfl, rfl, rfl, rfl, rfl, rfl⟩ id id (.inl rfl) rfl rfl
  | tx answer =>
      simp only [Handover.step, Handover.txStep] at hstep
      split at hstep
      · cases hstep
      · rename_i file call pc _
        cases hstep
        obtain ⟨htransport, hregion, -⟩ :=
          txStep_frame call answer s.handover.transport s.handover.region pc
        have hlayout := congrArg Region.layout hregion
        have hpeer := congrArg Region.linuxPeer hregion
        exact hs.quiet ⟨hlayout, hpeer, htransport.owner, rfl, rfl, rfl⟩
          (fun h => htransport.shuttingDown.trans h) id (.inl rfl) rfl rfl
  | rx answer =>
      simp only [Handover.step, Handover.rxStep] at hstep
      split at hstep
      · cases hstep
      · rename_i file call pc _
        cases hstep
        obtain ⟨htransport, hregion, -⟩ :=
          rxStep_frame call answer s.handover.transport s.handover.region pc
        have hlayout := congrArg Region.layout hregion
        have hpeer := congrArg Region.linuxPeer hregion
        exact hs.quiet ⟨hlayout, hpeer, htransport.owner, rfl, rfl, rfl⟩
          (fun h => htransport.shuttingDown.trans h) id (.inl rfl) rfl rfl
  | process =>
      simp only [Handover.step] at hstep
      split_ifs at hstep
      cases hstep
      exact { hs with firmware := by rintro _ _ ⟨⟩ ⟨⟩, last := by rintro _ ⟨⟩ }
  | firmware mmio => exact hs.firmwareStep hstep
  | reply sent | irq =>
      simp only [Handover.step] at hstep
      split_ifs at hstep <;> cases hstep <;>
        exact hs.quiet ⟨rfl, rfl, rfl, rfl, rfl, rfl⟩ id id (.inl rfl) rfl rfl
  | shutdown =>
      cases hstep
      exact hs.quiet ⟨rfl, rfl, rfl, rfl, rfl, rfl⟩ (fun _ => rfl) id (.inl rfl) rfl rfl
  | finishShutdown => exact hs.finishShutdown hstep
  | create => exact hs.create hstep

/-- The region is complete at the read of `linux_peer.state`, and at the last read too
unless OFFLINE has been written in between. -/
theorem attach_complete {s : State}
    (h : ReachableBy system (fun l s => distinct l s = true) s) {g : U32}
    (hne : g ≠ s.leftover) (hattaches : s.attaches g) : Attaches s g := by
  have hs : Inv s := by
    apply h.invariant
    · intro s hstart
      exact inv_of_start hstart
    · intro s t l hs hdistinct hstep
      exact hs.step hdistinct hstep
  exact hs.attaches hne hattaches

def State.initial : State := ⟨Handover.State.initial, 0#32, [], [], none⟩

theorem start_initial : system.start State.initial :=
  ⟨Handover.start_initial, rfl, rfl, rfl, rfl⟩

/-- An attach up to its last read, during the first ACQUIRE. -/
def attachRun : List Handover.Label :=
  Handover.firstAcquire 1 ++ .process :: Handover.firmwareSteps 13

/-- The generation of an attach that makes its last read. -/
def lastRead (s : State) : Option U32 :=
  match s.handover.firmware with
  | some (.linuxGeneration g) => some g
  | _ => none

theorem lastRead_eq_some {s : State} {g : U32} (h : lastRead s = some g) :
    s.handover.firmware = some (.linuxGeneration g) := by
  unfold lastRead at h
  split at h
  · rename_i g' hfirmware
    cases h
    exact hfirmware
  · cases h

theorem attach_complete_first : ∃ s, s.leftover = 0#32 ∧ s.attaches 1#32 ∧ Attaches s 1#32 := by
  have hrun : (exec (guarded distinct step) attachRun State.initial).map
      (fun s => (s.leftover, lastRead s, s.handover.region.linuxPeer.generation)) =
        some (0#32, some 1#32, 1#32) := by
    decide +kernel
  obtain ⟨s, hexec, hs⟩ := Option.map_eq_some_iff.mp hrun
  rw [Prod.mk.injEq, Prod.mk.injEq] at hs
  obtain ⟨hleftover, hread, hpeer⟩ := hs
  have hattaches : s.attaches 1#32 := ⟨lastRead_eq_some hread, hpeer⟩
  refine ⟨s, hleftover, hattaches, ?_⟩
  exact attach_complete ((ReachableBy.start start_initial).execGuarded hexec)
    (by rw [hleftover]; decide) hattaches

/-- The ACQUIRE waits in vain and gives the channel back. -/
def giveUp : List Handover.Label :=
  List.replicate 14 (.outside 0 .done) ++ .outside 0 .expired ::
    List.replicate 15 (.outside 0 .done) ++ Handover.holderSteps 4

/-- Before the last read of the attach, another ACQUIRE has cleared the magic. -/
def overtakenRun : List Handover.Label :=
  attachRun ++ giveUp ++ .acquire 2 :: Handover.holderSteps 15

theorem attach_overtaken :
    ¬∀ s, ReachableBy system (fun l s => distinct l s = true) s → AttachesComplete s := by
  intro hall
  have hrun : (exec (guarded distinct step) overtakenRun State.initial).map
      (fun s => (s.published, lastRead s, s.handover.region.linuxPeer.generation,
        s.handover.region.layout.magic)) = some ([1#32], some 1#32, 1#32, 0#32) := by
    decide +kernel
  obtain ⟨s, hexec, hs⟩ := Option.map_eq_some_iff.mp hrun
  rw [Prod.mk.injEq, Prod.mk.injEq, Prod.mk.injEq] at hs
  obtain ⟨hpublished, hread, hpeer, hmagic⟩ := hs
  have hcomplete := hall s ((ReachableBy.start start_initial).execGuarded hexec) 1#32
    (by rw [hpublished]; exact List.mem_singleton_self _) ⟨lastRead_eq_some hread, hpeer⟩
  rw [hcomplete.1] at hmagic
  exact absurd hmagic (by decide)

end Sg200x.Ipc.Attach
