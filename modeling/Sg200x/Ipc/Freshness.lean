import Sg200x.Ipc.Handover
import Sg200x.Library.NonzeroCounter

/-!
# Every generation is new to the firmware

`initialize_generation` counts on from the generation it finds in the layout line, and
starts again at 1 when that line is not valid.  The firmware attaches to a generation only
if it is not the one it is attached to, so that a generation which comes back is never
published as READY.
-/

namespace Sg200x.Ipc.Handover

open Shm RingCore App Firmware Driver Library Library.Transition

/-- The generations, one after the other, before one comes back. -/
abbrev generations : ℕ := NonzeroCounter.period 32

/-- `rtos_ready`, read at one instant. -/
def RtosReady (s : State) : Prop :=
  ∀ read ∈ rtosReady, read.passes s.transport s.region s.transport.generation = true

structure Fresh (s : State) : Prop where
  /-- When `layout.generation` is about to be written. -/
  publish : ∀ file generation writes,
    s.holder = some (file, .acquire (.init generation (.layoutGeneration :: writes))) →
      generation ≠ 0#32 ∧ s.statics.activeGeneration ≠ generation ∧
        attach s.statics generation =
          (.running (.attachGeneration generation),
            { s.statics with activeGeneration := generation })
  /-- After `initialize_generation`, the next process call makes the ACQUIRE succeed. -/
  observe : ∀ file, s.holder = some (file, .acquire (.kick .shuttingDown)) →
    s.firmware = none → s.replying = false → s.transport.shuttingDown = false →
      s.statics.activeGeneration ≠ s.transport.generation →
        ∃ t, exec step (.process :: firmwareSteps 16) s = some t ∧ RtosReady t

/-- The conditions on the start of the `memset_io`. -/
def renewable : Label → State → Bool
  | .holder _, s =>
      match s.holder with
      | some (_, .acquire (.clear previous _ left)) =>
          left != pieces ||
            if previous = 0#32 then s.statics.activeGeneration == 0#32 && !s.firmwarePast
            else s.statics.activeGeneration == 0#32 || decide (s.age + 1 < generations)
      | _ => true
  | _, _ => true

/-! ## The invariant -/

/-- The firmware has never attached, and no process call gets past the magic. -/
structure Unattached (s : State) : Prop where
  magic : s.region.layout.magic ≠ Shm.magic
  firmware : s.firmwarePast = false
  active : s.statics.activeGeneration = 0#32

/-- The generation after `previous` will be new to the firmware. -/
def Renews (s : State) (previous : U32) : Prop :=
  previous = 0#32 ∧ Unattached s ∨
    previous ≠ 0#32 ∧ previous = s.current ∧
      (s.statics.activeGeneration = 0#32 ∨ s.age + 1 < generations)

def writeLayout (generation : U32) (writes : List InitWrite) (layout : LayoutLine) : LayoutLine :=
  writes.foldl (fun layout write => write.layout generation layout) layout

def writePeer (generation : U32) (writes : List InitWrite) (peer : PeerLine) : PeerLine :=
  writes.foldl (fun peer write => write.peer generation peer) peer

/-- What the rest of the stores makes of the region. -/
structure Completes (s : State) (generation : U32) (writes : List InitWrite) : Prop where
  layout : writeLayout generation writes s.region.layout = initialized generation
  peer : writePeer generation writes s.region.linuxPeer = ⟨stateReady, generation⟩
  transport : .generation ∉ writes → s.transport.generation = generation

def RenewFacts (s : State) : AcquirePc → Prop
  | .rtosState previous | .rtosGeneration previous | .offline previous | .clearMagic previous
  | .clearGeneration previous | .snapshot previous | .quiesceKick previous _ _
  | .wait previous _ | .awake previous _ => previous ≠ 0#32 ∧ previous = s.current
  | .setOwner previous quiesce =>
      (previous = 0#32 ∧ quiesce = false) ∨ (previous ≠ 0#32 ∧ previous = s.current)
  | .clear previous _ left =>
      left = pieces ∧ (previous = 0#32 ∨ previous ≠ 0#32 ∧ previous = s.current) ∨
        Renews s previous ∧ (.linuxPeer ∈ left ∨ s.region.linuxPeer.generation = 0#32)
  | .init generation writes =>
      writes ∈ initWrites.tails ∧ Completes s generation writes ∧
        if .layoutGeneration ∈ writes then
          (∃ previous, generation = nextGeneration previous ∧ Renews s previous) ∧
            s.region.linuxPeer.generation = 0#32
        else generation ≠ 0#32 ∧ generation = s.current
  | .kick .shuttingDown =>
      s.transport.generation ≠ 0#32 ∧ Completes s s.transport.generation []
  | _ => True

/-- The generation an attach that is under way has read. -/
def attaching : ProcessPc → Option U32
  | .layoutIsValid generation _ | .linuxState generation | .linuxGeneration generation =>
      some generation
  | _ => none

structure Renewal (s : State) : Prop where
  layout : s.region.layout.generation = 0#32 ∨ s.region.layout.generation = s.current
  age : s.statics.activeGeneration ≠ 0#32 →
    s.current = nextGeneration^[s.age] s.statics.activeGeneration
  firmware : ∀ pc generation, s.firmware = some pc → attaching pc = some generation →
    generation ≠ 0#32 ∧
      (s.region.linuxPeer.generation = generation → generation = s.current)
  acquire : ∀ file pc, s.holder = some (file, .acquire pc) → RenewFacts s pc

theorem renewal_of_start {s : State} (h : Start s) : Renewal s where
  layout := .inr h.current.symm
  age hne := absurd h.active hne
  firmware := by simp [h.firmware]
  acquire := by simp [h.holder]

/-! ## What the other parties leave of the ACQUIRE's facts -/

structure Steady (s t : State) : Prop where
  layout : t.region.layout = s.region.layout
  linuxPeer : t.region.linuxPeer = s.region.linuxPeer
  generation : t.transport.generation = s.transport.generation
  current : t.current = s.current
  unattached : Unattached s → Unattached t
  age : s.statics.activeGeneration = 0#32 ∨ s.age + 1 < generations →
    t.statics.activeGeneration = 0#32 ∨ t.age + 1 < generations

theorem Renews.steady {s t : State} {previous : U32} (h : Renews s previous)
    (hcurrent : t.current = s.current) (hunattached : Unattached s → Unattached t)
    (hage : s.statics.activeGeneration = 0#32 ∨ s.age + 1 < generations →
      t.statics.activeGeneration = 0#32 ∨ t.age + 1 < generations) : Renews t previous := by
  rcases h with ⟨hzero, hun⟩ | ⟨hne, heq, hactive⟩
  · exact .inl ⟨hzero, hunattached hun⟩
  · exact .inr ⟨hne, heq.trans hcurrent.symm, hage hactive⟩

theorem Completes.steady {s t : State} {generation : U32} {writes : List InitWrite}
    (h : Completes s generation writes) (hst : Steady s t) : Completes t generation writes where
  layout := hst.layout ▸ h.layout
  peer := hst.linuxPeer ▸ h.peer
  transport hmem := hst.generation.trans (h.transport hmem)

theorem RenewFacts.steady {s t : State} {pc : AcquirePc} (h : RenewFacts s pc)
    (hst : Steady s t) : RenewFacts t pc := by
  have hrenews : ∀ {previous}, Renews s previous → Renews t previous :=
    fun hr => hr.steady hst.current hst.unattached hst.age
  cases pc with
  | rtosState | rtosGeneration | offline | clearMagic | clearGeneration | snapshot | quiesceKick
  | wait | awake => exact ⟨h.1, h.2.trans hst.current.symm⟩
  | setOwner previous quiesce => exact h.imp id fun h => ⟨h.1, h.2.trans hst.current.symm⟩
  | clear previous quiesce left =>
      refine h.imp (fun h => ⟨h.1, h.2.imp id fun h => ⟨h.1, h.2.trans hst.current.symm⟩⟩) ?_
      exact fun h => ⟨hrenews h.1, by rw [hst.linuxPeer]; exact h.2⟩
  | init generation writes =>
      obtain ⟨htails, hcompletes, hpublished⟩ := h
      refine ⟨htails, hcompletes.steady hst, ?_⟩
      split_ifs at hpublished ⊢
      · obtain ⟨⟨previous, heq, hr⟩, hpeer⟩ := hpublished
        exact ⟨⟨previous, heq, hrenews hr⟩, by rw [hst.linuxPeer]; exact hpeer⟩
      · exact ⟨hpublished.1, hpublished.2.trans hst.current.symm⟩
  | kick pc =>
      cases pc with
      | shuttingDown =>
          change t.transport.generation ≠ 0#32 ∧ Completes t t.transport.generation []
          rw [hst.generation]
          exact ⟨h.1, h.2.steady hst⟩
      | _ => trivial
  | _ => trivial

/-! ## The holder of `owner_lock` -/

theorem writeLayout_initWrites (generation : U32) (layout : LayoutLine) :
    writeLayout generation initWrites layout = initialized generation := rfl

theorem writePeer_initWrites (generation : U32) (peer : PeerLine) :
    writePeer generation initWrites peer = ⟨stateReady, generation⟩ := rfl

theorem clear_layoutGeneration (region : Region) (piece : Piece) :
    (piece.clear region).layout.generation = 0#32 ∨
      (piece.clear region).layout.generation = region.layout.generation := by
  cases piece with
  | generation => exact .inl rfl
  | _ => exact .inr rfl

theorem clear_peerGeneration (region : Region) (piece : Piece) :
    (piece.clear region).linuxPeer.generation = 0#32 ∨
      piece ≠ .linuxPeer ∧
        (piece.clear region).linuxPeer.generation = region.linuxPeer.generation := by
  cases piece with
  | linuxPeer => exact .inl rfl
  | _ => exact .inr ⟨nofun, rfl⟩

/-- The layout's generation is written once, and before the peer's. -/
theorem initWrites_order {write : InitWrite} {writes : List InitWrite}
    (h : (write :: writes) ∈ initWrites.tails) (hlater : .layoutGeneration ∈ writes) :
    write ≠ .layoutGeneration ∧ write ≠ .linuxGeneration ∧ write ≠ .magic := by
  have horder : ∀ all ∈ initWrites.tails, .layoutGeneration ∈ all.tail →
      ∀ write ∈ all.head?, write ≠ .layoutGeneration ∧ write ≠ .linuxGeneration ∧
        write ≠ .magic := by decide
  exact horder _ h hlater write rfl

theorem Renewal.frame {s t : State} (h : Renewal s)
    (hlayout : t.region.layout.generation = 0#32 ∨
      t.region.layout.generation = s.region.layout.generation)
    (hpeer : t.region.linuxPeer.generation = 0#32 ∨
      t.region.linuxPeer.generation = s.region.linuxPeer.generation)
    (hrecord : t.current = s.current ∧ t.age = s.age ∧ t.firmware = s.firmware ∧
      t.statics = s.statics)
    (hacquire : ∀ file pc, t.holder = some (file, .acquire pc) → RenewFacts t pc) :
    Renewal t := by
  obtain ⟨hcurrent, hage, hfirmware, hstatics⟩ := hrecord
  refine ⟨?_, ?_, ?_, hacquire⟩
  · rw [hcurrent]
    rcases hlayout with hzero | hsame
    · exact .inl hzero
    · rw [hsame]
      exact h.layout
  · rw [hstatics, hcurrent, hage]
    exact h.age
  · rw [hfirmware, hcurrent]
    intro pc generation hpc hattaching
    obtain ⟨hne, heq⟩ := h.firmware pc generation hpc hattaching
    refine ⟨hne, fun hread => ?_⟩
    rcases hpeer with hzero | hsame
    · exact absurd (hread.symm.trans hzero) hne
    · exact heq (hsame.symm.trans hread)

theorem Renewal.acquireStep {s t : State} (h : Renewal s) {answer : Answer} {file : File}
    {pc : AcquirePc} (hholder : s.holder = some (file, .acquire pc))
    (hallowed : renewable (.holder answer) s = true) (hstep : holderStep s answer = some t) :
    Renewal t := by
  have hfacts := h.acquire file pc hholder
  have hquiet : ∀ {transport region holder outside},
      region.layout.generation = s.region.layout.generation ∧
        region.linuxPeer.generation = s.region.linuxPeer.generation →
      (∀ file pc, holder = some (file, .acquire pc) →
        RenewFacts { s with transport, region, holder, outside } pc) →
      Renewal { s with transport, region, holder, outside } :=
    fun {transport region holder outside} hregion =>
      h.frame (t := { s with transport, region, holder, outside }) (.inr hregion.1)
        (.inr hregion.2) ⟨rfl, rfl, rfl, rfl⟩
  have hregion : s.region.layout.generation = s.region.layout.generation ∧
      s.region.linuxPeer.generation = s.region.linuxPeer.generation := ⟨rfl, rfl⟩
  simp only [renewable, hholder] at hallowed
  simp only [holderStep, hholder] at hstep
  cases pc with
  | shuttingDown =>
      simp only [Driver.acquireStep] at hstep
      split_ifs at hstep <;> cases hstep <;> exact hquiet hregion (by rintro _ _ ⟨⟩ <;> trivial)
  | owner =>
      simp only [Driver.acquireStep] at hstep
      split at hstep
      · rename_i hout
        split at hout <;> cases hout
        cases hstep
        exact hquiet hregion (by rintro _ _ ⟨⟩; trivial)
      all_goals
        cases hstep
        exact hquiet hregion (by rintro _ _ ⟨⟩)
  | layoutValid reads =>
      cases reads with
      | nil => cases hstep; exact hquiet hregion (by rintro _ _ ⟨⟩; trivial)
      | cons read reads =>
          simp only [Driver.acquireStep] at hstep
          split_ifs at hstep
          · cases hstep
            exact hquiet hregion (by rintro _ _ ⟨⟩; trivial)
          · cases hstep
            exact hquiet hregion (by rintro _ _ ⟨⟩; exact .inl ⟨rfl, rfl⟩)
  | layoutGeneration =>
      simp only [Driver.acquireStep] at hstep
      split_ifs at hstep with hzero
      · cases hstep
        exact hquiet hregion (by rintro _ _ ⟨⟩; exact .inl ⟨rfl, rfl⟩)
      · cases hstep
        exact hquiet hregion (by rintro _ _ ⟨⟩; exact ⟨hzero, h.layout.resolve_left hzero⟩)
  | rtosState previous =>
      simp only [Driver.acquireStep] at hstep
      split_ifs at hstep
      · cases hstep
        exact hquiet hregion (by rintro _ _ ⟨⟩; exact hfacts)
      · cases hstep
        exact hquiet hregion (by rintro _ _ ⟨⟩; exact .inr hfacts)
  | rtosGeneration previous =>
      cases hstep
      exact hquiet hregion (by rintro _ _ ⟨⟩; exact .inr hfacts)
  | setOwner previous quiesce =>
      cases hstep
      refine hquiet hregion ?_
      rintro _ _ ⟨⟩
      cases quiesce
      · exact .inl ⟨rfl, hfacts.imp And.left id⟩
      · exact hfacts.resolve_left fun hfalse => by cases hfalse.2
  | offline | clearMagic | clearGeneration | snapshot =>
      cases hstep
      exact hquiet hregion (by rintro _ _ ⟨⟩; exact hfacts)
  | quiesceKick previous notification pc =>
      simp only [Driver.acquireStep] at hstep
      rcases hout : kickStep answer s.transport pc with ⟨pc' | value, transport⟩ <;>
        simp only [hout] at hstep <;> cases hstep <;>
        exact hquiet hregion (by rintro _ _ ⟨⟩; exact hfacts)
  | wait previous notification =>
      simp only [Driver.acquireStep] at hstep
      split_ifs at hstep <;> cases hstep <;>
        exact hquiet hregion (by rintro _ _ ⟨⟩; exact hfacts)
  | awake previous ended =>
      simp only [Driver.acquireStep] at hstep
      split_ifs at hstep
      · cases hstep
        exact hquiet hregion (by rintro _ _ ⟨⟩)
      · cases ended with
        | expired | interrupted => cases hstep; exact hquiet hregion (by rintro _ _ ⟨⟩)
        | done | fault | busy =>
            cases hstep
            exact hquiet hregion (by rintro _ _ ⟨⟩; exact .inl ⟨rfl, .inr hfacts⟩)
  | clear previous quiesce left =>
      cases left with
      | nil =>
          cases hstep
          rcases hfacts with ⟨hleft, -⟩ | ⟨hrenews, hpeer⟩
          · cases hleft
          · refine h.frame (.inr rfl) (.inr rfl) ⟨rfl, rfl, rfl, rfl⟩ ?_
            rintro _ _ ⟨⟩
            refine ⟨by decide, ⟨writeLayout_initWrites _ _, writePeer_initWrites _ _, ?_⟩, ?_⟩
            · exact fun hmem => absurd (by decide) hmem
            · rw [if_pos (by decide)]
              refine ⟨⟨previous, rfl, hrenews.steady rfl ?_ id⟩, hpeer.resolve_left nofun⟩
              exact fun hun => ⟨hun.magic, hun.firmware, hun.active⟩
      | cons piece left =>
          have hrenews : ∀ {u : State}, u.current = s.current → u.statics = s.statics →
              u.age = s.age → u.firmware = s.firmware →
              u.region.layout.magic = (piece.clear s.region).layout.magic → Renews u previous := by
            intro u hcurrent hstatics hage hfirmware hmagic
            have hactive : s.statics.activeGeneration = 0#32 ∨ s.age + 1 < generations →
                u.statics.activeGeneration = 0#32 ∨ u.age + 1 < generations := by
              rw [hstatics, hage]
              exact id
            rcases hfacts with ⟨hleft, hprevious⟩ | ⟨hrenews, -⟩
            · simp only [hleft, bne_self_eq_false, Bool.false_or] at hallowed
              rcases hprevious with hzero | ⟨hne, heq⟩
              · simp only [hzero, if_true, Bool.and_eq_true, beq_iff_eq,
                  Bool.not_eq_true'] at hallowed
                refine .inl ⟨hzero, ?_, ?_, ?_⟩
                · rw [hmagic]
                  cases hleft
                  exact (by decide : (0#32 : U32) ≠ Shm.magic)
                · rw [firmwarePast_congr hfirmware]
                  exact hallowed.2
                · rw [hstatics]
                  exact hallowed.1
              · simp only [if_neg hne, Bool.or_eq_true, beq_iff_eq, decide_eq_true_eq] at hallowed
                exact .inr ⟨hne, heq.trans hcurrent.symm, hactive hallowed⟩
            · refine hrenews.steady hcurrent (fun hun => ⟨?_, ?_, ?_⟩) hactive
              · rw [hmagic]
                exact clear_magic hun.magic
              · rw [firmwarePast_congr hfirmware]
                exact hun.firmware
              · rw [hstatics]
                exact hun.active
          have hpeer : .linuxPeer ∈ left ∨ (piece.clear s.region).linuxPeer.generation = 0#32 := by
            rcases hfacts with ⟨hleft, -⟩ | ⟨-, hpeer⟩
            · cases hleft
              exact .inl (by simp)
            · rcases clear_peerGeneration s.region piece with hzero | ⟨hne, hsame⟩
              · exact .inr hzero
              · refine hpeer.imp (fun hmem => ?_) hsame.trans
                exact (List.mem_cons.mp hmem).resolve_left hne.symm
          cases hstep
          refine h.frame (clear_layoutGeneration s.region piece)
            ((clear_peerGeneration s.region piece).imp id And.right) ⟨rfl, rfl, rfl, rfl⟩ ?_
          rintro _ _ ⟨⟩
          exact .inr ⟨hrenews rfl rfl rfl rfl rfl, hpeer⟩
  | init generation writes =>
      obtain ⟨htails, hcompletes, hpublished⟩ := hfacts
      cases writes with
      | nil =>
          cases hstep
          refine hquiet hregion ?_
          rintro _ _ ⟨⟩
          have hgeneration := hcompletes.transport nofun
          change s.transport.generation ≠ 0#32 ∧ Completes _ s.transport.generation []
          rw [hgeneration]
          exact ⟨hpublished.1, hcompletes.layout, hcompletes.peer, hcompletes.transport⟩
      | cons write writes =>
          have hrest : writes ∈ initWrites.tails := by
            rw [List.mem_tails] at htails ⊢
            exact (List.suffix_cons write writes).trans htails
          -- what is known of the generation before a store that is not its own
          have hkeep : ∀ {u : State}, write ≠ .layoutGeneration → u.current = s.current →
              u.statics = s.statics → u.age = s.age → u.firmware = s.firmware →
              (write ≠ .magic → u.region.layout.magic = s.region.layout.magic) →
              (write ≠ .linuxGeneration →
                u.region.linuxPeer.generation = s.region.linuxPeer.generation) →
              if .layoutGeneration ∈ writes then
                (∃ previous, generation = nextGeneration previous ∧ Renews u previous) ∧
                  u.region.linuxPeer.generation = 0#32
              else generation ≠ 0#32 ∧ generation = u.current := by
            intro u hne hcurrent hstatics hage hfirmware hmagic hpeer
            by_cases hlater : .layoutGeneration ∈ writes
            · obtain ⟨-, hpeer', hmagic'⟩ := initWrites_order htails hlater
              rw [if_pos (List.mem_cons_of_mem _ hlater)] at hpublished
              obtain ⟨⟨previous, heq, hrenews⟩, hzero⟩ := hpublished
              rw [if_pos hlater]
              refine ⟨⟨previous, heq, hrenews.steady hcurrent ?_ ?_⟩, (hpeer hpeer').trans hzero⟩
              · intro hun
                refine ⟨?_, ?_, ?_⟩
                · rw [hmagic hmagic']
                  exact hun.magic
                · rw [firmwarePast_congr hfirmware]
                  exact hun.firmware
                · rw [hstatics]
                  exact hun.active
              · rw [hstatics, hage]
                exact id
            · have hnot : .layoutGeneration ∉ write :: writes := by
                rw [List.mem_cons]
                rintro (heq | hmem)
                · exact hne heq.symm
                · exact hlater hmem
              rw [if_neg hnot] at hpublished
              rw [if_neg hlater, hcurrent]
              exact hpublished
          cases write with
          | layoutGeneration =>
              rw [if_pos List.mem_cons_self] at hpublished
              obtain ⟨⟨previous, rfl, hrenews⟩, hzero⟩ := hpublished
              cases hstep
              refine ⟨.inr rfl, ?_, ?_, ?_⟩
              · intro hactive
                change nextGeneration previous = nextGeneration^[s.age + 1] s.statics.activeGeneration
                rcases hrenews with ⟨-, hun⟩ | ⟨-, heq, -⟩
                · exact absurd hun.active hactive
                · rw [Function.iterate_succ_apply', ← h.age hactive, heq]
              · intro pc' x hpc hattaching
                have hne := (h.firmware pc' x hpc hattaching).1
                exact ⟨hne, fun hread => absurd (hread.symm.trans hzero) hne⟩
              · rintro _ _ ⟨⟩
                refine ⟨hrest, ⟨hcompletes.layout, hcompletes.peer, fun hmem => ?_⟩, ?_⟩
                · exact hcompletes.transport (by simp [hmem])
                · rw [if_neg fun hlater => (initWrites_order htails hlater).1 rfl]
                  exact ⟨NonzeroCounter.next_ne_zero (by decide) previous, rfl⟩
          | linuxGeneration =>
              have hnot : .layoutGeneration ∉ InitWrite.linuxGeneration :: writes := by
                intro hmem
                have hlater := (List.mem_cons.mp hmem).resolve_left nofun
                exact (initWrites_order htails hlater).2.1 rfl
              have hcurrent := hpublished
              rw [if_neg hnot] at hcurrent
              cases hstep
              refine ⟨h.layout, h.age, ?_, ?_⟩
              · intro pc' x hpc hattaching
                have hne := (h.firmware pc' x hpc hattaching).1
                exact ⟨hne, fun hread => hread.symm.trans hcurrent.2⟩
              · rintro _ _ ⟨⟩
                refine ⟨hrest, ⟨hcompletes.layout, hcompletes.peer, fun hmem => ?_⟩, ?_⟩
                · exact hcompletes.transport (by simp [hmem])
                · exact hkeep nofun rfl rfl rfl rfl (fun _ => rfl) fun hne => absurd rfl hne
          | magic =>
              cases hstep
              refine h.frame (.inr rfl) (.inr rfl) ⟨rfl, rfl, rfl, rfl⟩ ?_
              rintro _ _ ⟨⟩
              refine ⟨hrest, ⟨hcompletes.layout, hcompletes.peer, fun hmem => ?_⟩, ?_⟩
              · exact hcompletes.transport (by simp [hmem])
              · exact hkeep nofun rfl rfl rfl rfl (fun hne => absurd rfl hne) fun _ => rfl
          | generation =>
              cases hstep
              refine h.frame (.inr rfl) (.inr rfl) ⟨rfl, rfl, rfl, rfl⟩ ?_
              rintro _ _ ⟨⟩
              refine ⟨hrest, ⟨hcompletes.layout, hcompletes.peer, fun _ => rfl⟩, ?_⟩
              exact hkeep nofun rfl rfl rfl rfl (fun _ => rfl) fun _ => rfl
          | _ =>
              cases hstep
              refine h.frame (.inr rfl) (.inr rfl) ⟨rfl, rfl, rfl, rfl⟩ ?_
              rintro _ _ ⟨⟩
              refine ⟨hrest, ⟨hcompletes.layout, hcompletes.peer, fun hmem => ?_⟩, ?_⟩
              · exact hcompletes.transport (by simp [hmem])
              · exact hkeep nofun rfl rfl rfl rfl (fun _ => rfl) fun _ => rfl
  | kick pc =>
      cases pc with
      | shuttingDown =>
          simp only [Driver.acquireStep, kickStep] at hstep
          split_ifs at hstep <;> cases hstep <;>
            exact hquiet hregion (by rintro _ _ ⟨⟩ <;> trivial)
      | resetAttempts => cases hstep; exact hquiet hregion (by rintro _ _ ⟨⟩; trivial)
      | kickNow =>
          simp only [Driver.acquireStep, kickStep] at hstep
          split_ifs at hstep
          · cases hstep
            exact hquiet hregion (by rintro _ _ ⟨⟩; trivial)
          · cases hstep
            exact hquiet hregion (by rintro _ _ ⟨⟩)
      | schedule => cases hstep; exact hquiet hregion (by rintro _ _ ⟨⟩)

/-! ## The firmware -/

/-- A process call attaches to the generation of Linux's peer line. -/
theorem processStep_active (mmio : Mmio) (region : Region) (statics : Statics) (pc : ProcessPc) :
    (processStep mmio region statics pc).2.2.activeGeneration = statics.activeGeneration ∨
      ∃ generation, pc = .linuxGeneration generation ∧
        region.linuxPeer.generation = generation ∧
        (processStep mmio region statics pc).2.2.activeGeneration = generation := by
  cases pc with
  | linuxGeneration generation =>
      simp only [processStep, attach]
      split_ifs with hread hactive
      · exact .inl rfl
      · exact .inr ⟨generation, rfl, hread, rfl⟩
      · exact .inl rfl
  | layoutIsValid generation reads =>
      cases reads with
      | nil => exact .inl rfl
      | cons read reads =>
          simp only [processStep]
          split_ifs <;> exact .inl rfl
  | readGeneration | linuxState =>
      simp only [processStep]
      split_ifs <;> exact .inl rfl
  | canPush count pc =>
      simp only [processStep]
      split
      · exact .inl rfl
      · split_ifs <;> exact .inl rfl
  | tryPop count pc =>
      simp only [processStep]
      split <;> exact .inl rfl
  | handle count =>
      simp only [processStep]
      split <;> exact .inl rfl
  | tryPush count pc =>
      simp only [processStep]
      split <;> exact .inl rfl
  | attachGeneration | attachState | corruptGeneration | corruptState => exact .inl rfl

/-- The generation of an attach is the one it has read first. -/
theorem processStep_attaching {mmio : Mmio} {region : Region} {statics : Statics}
    {pc pc' : ProcessPc} {generation : U32}
    (hout : (processStep mmio region statics pc).1 = .running pc')
    (hattaching : attaching pc' = some generation) :
    attaching pc = some generation ∨
      pc = .readGeneration ∧ generation = region.layout.generation ∧ generation ≠ 0#32 := by
  have hloop : ∀ count, loop count = .running pc' → False := by
    intro count heq
    unfold loop at heq
    split_ifs at heq
    cases heq
    cases hattaching
  cases pc with
  | readGeneration =>
      simp only [processStep] at hout
      split_ifs at hout with hzero
      cases hout
      cases hattaching
      exact .inr ⟨rfl, rfl, hzero⟩
  | layoutIsValid generation' reads =>
      cases reads with
      | nil => cases hout; exact .inl hattaching
      | cons read reads =>
          simp only [processStep] at hout
          split_ifs at hout
          cases hout
          exact .inl hattaching
  | linuxState generation' =>
      simp only [processStep] at hout
      split_ifs at hout
      cases hout
      exact .inl hattaching
  | linuxGeneration generation' =>
      simp only [processStep, attach] at hout
      split_ifs at hout
      · exact (hloop 0 hout).elim
      · cases hout
        cases hattaching
  | canPush count pc =>
      simp only [processStep] at hout
      split at hout
      · cases hout
        cases hattaching
      · split_ifs at hout <;> cases hout <;> cases hattaching
  | tryPop count pc =>
      simp only [processStep] at hout
      split at hout <;> cases hout <;> cases hattaching
  | handle count =>
      simp only [processStep] at hout
      split at hout <;> cases hout <;> cases hattaching
  | tryPush count pc =>
      simp only [processStep] at hout
      split at hout
      · cases hout
        cases hattaching
      · exact (hloop (count + 1) hout).elim
      · cases hout
        cases hattaching
  | attachState => exact (hloop 0 hout).elim
  | attachGeneration | corruptGeneration => cases hout; cases hattaching
  | corruptState => cases hout

theorem Renewal.firmwareStep {s t : State} (h : Renewal s) {mmio : Mmio}
    (hstep : firmwareStep s mmio = some t) : Renewal t := by
  unfold Handover.firmwareStep at hstep
  rcases hfw : s.firmware with - | pc
  · rw [hfw] at hstep
    cases hstep
  · simp only [hfw] at hstep
    cases hstep
    obtain ⟨hlayout, hpeer, -⟩ := processStep_frame mmio s.region s.statics pc
    have hactive := processStep_active mmio s.region s.statics pc
    rcases hresult : processStep mmio s.region s.statics pc with ⟨out, region, statics⟩
    rw [hresult] at hlayout hpeer hactive
    dsimp only at hlayout hpeer hactive ⊢
    have hattach : ∀ {generation}, pc = .linuxGeneration generation →
        s.region.linuxPeer.generation = generation → generation = s.current := by
      rintro generation rfl hread
      exact (h.firmware _ generation hfw rfl).2 hread
    refine ⟨?_, ?_, ?_, fun file pc' heq => (h.acquire file pc' heq).steady ?_⟩
    · rw [hlayout]
      exact h.layout
    · intro hne
      dsimp only at hne ⊢
      rcases hactive with hsame | ⟨generation, hpc, hread, heq⟩
      · rw [if_pos hsame, hsame]
        exact h.age (hsame ▸ hne)
      · have hcurrent := hattach hpc hread
        by_cases hsame : statics.activeGeneration = s.statics.activeGeneration
        · rw [if_pos hsame, hsame]
          exact h.age (hsame ▸ hne)
        · rw [if_neg hsame, heq, hcurrent]
          rfl
    · intro pc' generation hpc' hattaching
      have hout : (processStep mmio s.region s.statics pc).1 = .running pc' := by
        rw [hresult]
        cases out with
        | running next => cases hpc'; rfl
        | returned ret => cases hpc'
      dsimp only
      rw [hpeer]
      rcases processStep_attaching hout hattaching with hsame | ⟨-, heq, hne⟩
      · exact h.firmware pc generation hfw hsame
      · exact ⟨hne, fun _ => heq.trans (h.layout.resolve_left (heq ▸ hne))⟩
    · refine ⟨hlayout, hpeer, rfl, rfl, fun hun => ?_, ?_⟩
      · have hearly := processStep_early mmio s.statics hun.magic
          (firmwarePast_eq_false.mp hun.firmware pc hfw)
        rw [hresult] at hearly
        have hstatics : statics = s.statics := congrArg Prod.snd hearly.1
        refine ⟨?_, hearly.2, ?_⟩
        · rw [hlayout]
          exact hun.magic
        · change statics.activeGeneration = 0#32
          rw [hstatics]
          exact hun.active
      · intro hage
        dsimp only
        by_cases hsame : statics.activeGeneration = s.statics.activeGeneration
        · rw [if_pos hsame, hsame]
          exact hage
        · rw [if_neg hsame]
          exact .inr (by decide)

/-! ## Every step -/

/-- A step that neither publishes a generation nor attaches to one. -/
theorem Renewal.quiet {s t : State} (h : Renewal s) (hlayout : t.region.layout = s.region.layout)
    (hpeer : t.region.linuxPeer.generation = s.region.linuxPeer.generation)
    (hrecord : t.current = s.current ∧ t.age = s.age ∧ t.firmware = s.firmware ∧
      t.statics = s.statics)
    (hholder : ∀ file pc, t.holder = some (file, .acquire pc) →
      pc = .shuttingDown ∨ s.holder = some (file, .acquire pc) ∧
        t.region.linuxPeer = s.region.linuxPeer ∧
        t.transport.generation = s.transport.generation) : Renewal t := by
  refine h.frame (.inr (by rw [hlayout])) (.inr hpeer) hrecord fun file pc heq => ?_
  obtain ⟨hcurrent, hage, hfirmware, hstatics⟩ := hrecord
  rcases hholder file pc heq with rfl | ⟨hsame, hlinux, hgeneration⟩
  · trivial
  · refine (h.acquire file pc hsame).steady ⟨hlayout, hlinux, hgeneration, hcurrent, ?_, ?_⟩
    · intro hun
      exact ⟨hlayout ▸ hun.magic, (firmwarePast_congr hfirmware).trans hun.firmware,
        hstatics ▸ hun.active⟩
    · rw [hstatics, hage]
      exact id

theorem Renewal.step {s t : State} {l : Label} (h : Renewal s) (hallowed : renewable l s = true)
    (hstep : step l s = some t) : Renewal t := by
  have hsame : ∀ {file pc}, s.holder = some (file, Holder.acquire pc) →
      pc = .shuttingDown ∨ s.holder = some (file, .acquire pc) ∧
        s.region.linuxPeer = s.region.linuxPeer ∧
        s.transport.generation = s.transport.generation := fun heq => .inr ⟨heq, rfl, rfl⟩
  cases l with
  | acquire file =>
      simp only [Handover.step] at hstep
      split at hstep <;> cases hstep
      refine h.quiet rfl rfl ⟨rfl, rfl, rfl, rfl⟩ ?_
      rintro _ _ ⟨⟩
      exact .inl rfl
  | holder answer =>
      rcases hholder : s.holder with - | ⟨file, pc | pc⟩
      · simp only [Handover.step, holderStep, hholder] at hstep
        cases hstep
      · exact h.acquireStep hholder hallowed hstep
      · simp only [Handover.step, holderStep, hholder] at hstep
        cases hstep
        refine h.quiet ?_ ?_ ⟨rfl, rfl, rfl, rfl⟩ fun file' pc' heq => ?_
        · cases pc <;> rfl
        · cases pc <;> rfl
        · obtain ⟨pc'', -, hne⟩ := Option.map_eq_some_iff.mp heq
          cases hne
  | outside i answer =>
      simp only [Handover.step, outsideStep] at hstep
      split at hstep
      · cases hstep
      · split at hstep <;> cases hstep
        exact h.quiet rfl rfl ⟨rfl, rfl, rfl, rfl⟩ nofun
      · split at hstep <;> cases hstep <;>
          exact h.quiet rfl rfl ⟨rfl, rfl, rfl, rfl⟩ fun _ _ => hsame
  | close file | admitTx file call | admitRx file call =>
      simp only [Handover.step] at hstep
      split_ifs at hstep
      cases hstep
      exact h.quiet rfl rfl ⟨rfl, rfl, rfl, rfl⟩ fun _ _ => hsame
  | leaveTx i | leaveRx i =>
      cases hstep
      exact h.quiet rfl rfl ⟨rfl, rfl, rfl, rfl⟩ fun _ _ => hsame
  | lockTx i | lockRx i =>
      simp only [Handover.step] at hstep
      split at hstep <;> cases hstep
      exact h.quiet rfl rfl ⟨rfl, rfl, rfl, rfl⟩ fun _ _ => hsame
  | tx answer =>
      simp only [Handover.step, Handover.txStep] at hstep
      split at hstep
      · cases hstep
      · rename_i file call pc _
        cases hstep
        obtain ⟨htransport, hregion, -⟩ := txStep_frame call answer s.transport s.region pc
        exact h.quiet (by rw [hregion]) (by rw [hregion]) ⟨rfl, rfl, rfl, rfl⟩
          fun _ _ heq => .inr ⟨heq, by rw [hregion], htransport.generation⟩
  | rx answer =>
      simp only [Handover.step, Handover.rxStep] at hstep
      split at hstep
      · cases hstep
      · rename_i file call pc _
        cases hstep
        obtain ⟨htransport, hregion, -⟩ := rxStep_frame call answer s.transport s.region pc
        exact h.quiet (by rw [hregion]) (by rw [hregion]) ⟨rfl, rfl, rfl, rfl⟩
          fun _ _ heq => .inr ⟨heq, by rw [hregion], htransport.generation⟩
  | process =>
      simp only [Handover.step] at hstep
      split_ifs at hstep
      cases hstep
      refine ⟨h.layout, h.age, ?_, fun file pc heq => (h.acquire file pc heq).steady ?_⟩
      · rintro _ _ ⟨⟩ ⟨⟩
      · exact ⟨rfl, rfl, rfl, rfl, fun hun => ⟨hun.magic, rfl, hun.active⟩, id⟩
  | firmware mmio => exact h.firmwareStep hstep
  | reply sent | irq =>
      simp only [Handover.step] at hstep
      split_ifs at hstep <;> cases hstep <;>
        exact h.quiet rfl rfl ⟨rfl, rfl, rfl, rfl⟩ fun _ _ => hsame
  | shutdown =>
      cases hstep
      exact h.quiet rfl rfl ⟨rfl, rfl, rfl, rfl⟩ fun _ _ => hsame
  | finishShutdown =>
      simp only [Handover.step, Handover.finishShutdown] at hstep
      split_ifs at hstep with hready
      cases hstep
      have hholder := Option.isNone_iff_eq_none.mp hready.2.2.1
      exact h.quiet rfl rfl ⟨rfl, rfl, rfl, rfl⟩ (by simp [hholder])
  | create =>
      simp only [Handover.step, Handover.create] at hstep
      split_ifs at hstep with hready
      cases hstep
      have hholder := Option.isNone_iff_eq_none.mp hready.2.1
      exact h.quiet rfl rfl ⟨rfl, rfl, rfl, rfl⟩ (by simp [hholder])

/-! ## The next process call attaches -/

/-- A step of the process call that goes on. -/
theorem firmwareStep_running {s : State} (mmio : Mmio) {pc : ProcessPc} (pc' : ProcessPc)
    (region : Region) (statics : Statics) (hfw : s.firmware = some pc)
    (hstep : processStep mmio s.region s.statics pc = (.running pc', region, statics)) :
    ∃ t, firmwareStep s mmio = some t ∧ t.firmware = some pc' ∧ t.region = region ∧
      t.statics = statics ∧ t.transport = s.transport := by
  simp only [firmwareStep, hfw, hstep]
  exact ⟨_, rfl, rfl, rfl, rfl, rfl⟩

theorem exec_firmware {s t : State} {n : ℕ} (h : firmwareStep s (fun _ => 0#32) = some t) :
    exec step (firmwareSteps (n + 1)) s = exec step (firmwareSteps n) t := by
  change (firmwareStep s _).bind (exec step (firmwareSteps n)) = _
  rw [h]
  rfl

/-- The firmware accepts a layout it finds valid. -/
theorem exec_layoutIsValid {generation : U32} {reads : List LayoutRead} (n : ℕ) {s : State}
    (hpasses : ∀ read ∈ reads, read.passes s.region.layout generation = true)
    (hfw : s.firmware = some (.layoutIsValid generation reads)) :
    ∃ t, exec step (firmwareSteps (n + (reads.length + 1))) s = exec step (firmwareSteps n) t ∧
      t.firmware = some (.linuxState generation) ∧ t.region = s.region ∧ t.statics = s.statics ∧
      t.transport = s.transport := by
  induction reads generalizing s with
  | nil =>
      obtain ⟨t, hstep, ht⟩ := firmwareStep_running (fun _ => 0#32) _ _ _ hfw rfl
      exact ⟨t, exec_firmware hstep, ht⟩
  | cons read reads ih =>
      have hread := hpasses read List.mem_cons_self
      obtain ⟨t, hstep, hpc, hregion, hstatics, htransport⟩ :=
        firmwareStep_running (fun _ => 0#32) (.layoutIsValid generation reads) s.region
          s.statics hfw (by simp only [processStep, hread, if_true])
      obtain ⟨u, hexec, hu, hregion', hstatics', htransport'⟩ := ih
        (fun read hmem => by
          rw [hregion]
          exact hpasses read (List.mem_cons_of_mem _ hmem)) hpc
      refine ⟨u, ?_, hu, hregion'.trans hregion, hstatics'.trans hstatics,
        htransport'.trans htransport⟩
      rw [← hexec]
      exact exec_firmware hstep

/-- On a region that Linux has initialised, a process call of a firmware that is attached
to another generation publishes READY. -/
theorem exec_attach {s : State} {generation : U32} (hgeneration : generation ≠ 0#32)
    (hlayout : s.region.layout = initialized generation)
    (hpeer : s.region.linuxPeer = ⟨stateReady, generation⟩) (hfw : s.firmware = none)
    (hreplying : s.replying = false) (hactive : s.statics.activeGeneration ≠ generation) :
    ∃ t, exec step (.process :: firmwareSteps 16) s = some t ∧ t.transport = s.transport ∧
      t.region = { s.region with rtosPeer := ⟨stateReady, generation⟩ } := by
  have hvalid : ∀ read ∈ Firmware.layoutIsValid,
      read.passes s.region.layout generation = true := by
    intro read _
    rw [hlayout]
    cases read <;> simp [LayoutRead.passes, initialized]
  have hstart : step .process s = some { s with firmware := some .readGeneration } := by
    simp [Handover.step, hfw, hreplying]
  rw [exec_cons, hstart, Option.bind_some]
  obtain ⟨t₁, hstep₁, hpc₁, hregion₁, hstatics₁, htransport₁⟩ :=
    firmwareStep_running (s := { s with firmware := some .readGeneration }) (fun _ => 0#32)
      (.layoutIsValid generation Firmware.layoutIsValid) s.region s.statics rfl
      (by simp only [processStep, hlayout, initialized, if_neg hgeneration])
  rw [exec_firmware hstep₁]
  obtain ⟨t₂, hexec₂, hpc₂, hregion₂, hstatics₂, htransport₂⟩ :=
    exec_layoutIsValid 4 (fun read hmem => by rw [hregion₁]; exact hvalid read hmem) hpc₁
  rw [show 15 = 4 + (Firmware.layoutIsValid.length + 1) from rfl, hexec₂]
  have hregion : t₂.region = s.region := hregion₂.trans hregion₁
  have hstatics : t₂.statics = s.statics := hstatics₂.trans hstatics₁
  obtain ⟨t₃, hstep₃, hpc₃, hregion₃, hstatics₃, htransport₃⟩ :=
    firmwareStep_running (fun _ => 0#32) (.linuxGeneration generation) s.region s.statics hpc₂
      (by simp only [processStep, hregion, hstatics, hpeer, if_true])
  rw [exec_firmware hstep₃]
  obtain ⟨t₄, hstep₄, hpc₄, hregion₄, hstatics₄, htransport₄⟩ :=
    firmwareStep_running (fun _ => 0#32) (.attachGeneration generation) s.region
      { s.statics with activeGeneration := generation } hpc₃
      (by simp only [processStep, attach, hregion₃, hstatics₃, hpeer, if_true, if_neg hactive])
  rw [exec_firmware hstep₄]
  obtain ⟨t₅, hstep₅, hpc₅, hregion₅, hstatics₅, htransport₅⟩ :=
    firmwareStep_running (fun _ => 0#32) (.attachState generation) _ _ hpc₄ rfl
  rw [exec_firmware hstep₅]
  obtain ⟨t₆, hstep₆, -, hregion₆, -, htransport₆⟩ :=
    firmwareStep_running (fun _ => 0#32) (.canPush 0 .readProducer) _ _ hpc₅ rfl
  rw [exec_firmware hstep₆]
  refine ⟨t₆, rfl, ?_, ?_⟩
  · rw [htransport₆, htransport₅, htransport₄, htransport₃, htransport₂, htransport₁]
  · rw [hregion₆, hregion₅, hregion₄]

theorem Renewal.fresh {s : State} (h : Renewal s) : Fresh s where
  publish := by
    intro file generation writes hholder
    obtain ⟨-, -, hpublished⟩ := h.acquire _ _ hholder
    rw [if_pos List.mem_cons_self] at hpublished
    obtain ⟨⟨previous, rfl, hrenews⟩, -⟩ := hpublished
    have hnew : s.statics.activeGeneration ≠ nextGeneration previous := by
      by_cases hactive : s.statics.activeGeneration = 0#32
      · rw [hactive]
        exact (NonzeroCounter.next_ne_zero (by decide) previous).symm
      · rcases hrenews with ⟨-, hun⟩ | ⟨-, hcurrent, hzero | hage⟩
        · exact absurd hun.active hactive
        · exact absurd hzero hactive
        · rw [hcurrent, h.age hactive, ← Function.iterate_succ_apply' nextGeneration]
          exact NonzeroCounter.iterate_ne (m := 0) (by decide) hactive (Nat.succ_pos _)
            (by rw [Nat.zero_add]; exact hage)
    refine ⟨NonzeroCounter.next_ne_zero (by decide) previous, hnew, ?_⟩
    unfold attach
    rw [if_neg hnew]
  observe := by
    intro file hholder hfw hreplying hrunning hactive
    obtain ⟨hgeneration, hcompletes⟩ := h.acquire _ _ hholder
    obtain ⟨t, hexec, htransport, hregion⟩ := exec_attach hgeneration hcompletes.layout
      hcompletes.peer hfw hreplying hactive
    refine ⟨t, hexec, fun read hread => ?_⟩
    have hlayout : s.region.layout = initialized s.transport.generation := hcompletes.layout
    have hpeer : s.region.linuxPeer = ⟨stateReady, s.transport.generation⟩ := hcompletes.peer
    rw [htransport, hregion]
    cases read with
    | layout read => cases read <;> simp [ReadyRead.passes, LayoutRead.passes, hlayout, initialized]
    | _ => simp [ReadyRead.passes, hlayout, hpeer, hrunning, hgeneration, initialized]

/-- While the firmware is unattached whenever the count starts again, and attaches before
the count comes round, every generation is new to it. -/
theorem generation_fresh {s : State} (h : ReachableBy system (fun l s => renewable l s = true) s) :
    Fresh s :=
  Renewal.fresh (h.invariant (fun _ => renewal_of_start) fun _ _ _ hs hallowed hstep =>
    hs.step hallowed hstep)

/-- A second ACQUIRE is about to write its generation, which the first one has left. -/
def renew : List Label :=
  firstAcquire 1 ++ attachFirmware ++ finishAcquire ++ [.irq] ++ closeFile 1 ++ quiesceFirmware 2 ++
    .process :: firmwareSteps 2 ++ [.reply true, .irq] ++ holderSteps 148

def publishing (s : State) : Option U32 :=
  match s.holder with
  | some (_, .acquire (.init generation (.layoutGeneration :: _))) => some generation
  | _ => none

theorem publishing_eq_some {s : State} {generation : U32} (h : publishing s = some generation) :
    ∃ file writes,
      s.holder = some (file, .acquire (.init generation (.layoutGeneration :: writes))) := by
  unfold publishing at h
  split at h
  · rename_i file generation' writes hholder
    cases h
    exact ⟨file, writes, hholder⟩
  · cases h

theorem generation_fresh_second :
    ∃ s, exec (guarded renewable step) renew State.initial = some s ∧
      publishing s = some 2#32 ∧ s.statics.activeGeneration = 1#32 ∧ Fresh s := by
  have hrun : (exec (guarded renewable step) renew State.initial).map
      (fun s => (publishing s, s.statics.activeGeneration)) = some (some 2#32, 1#32) := by
    decide +kernel
  obtain ⟨s, hs, hstate⟩ := Option.map_eq_some_iff.mp hrun
  rw [Prod.mk.injEq] at hstate
  have hreach := (ReachableBy.start start_initial).execGuarded hs
  exact ⟨s, hs, hstate.1, hstate.2, generation_fresh hreach⟩

/-! ## The count that starts again -/

/-- A handshake that times out has cleared the magic, so that the next ACQUIRE publishes 1
again. -/
def startAgain : List Label :=
  firstAcquire 1 ++ attachFirmware ++ finishAcquire ++ [.irq] ++ closeFile 1 ++ quiesceFirmware 2 ++
    [.holder .expired, .holder .done, .outside 0 .done] ++ holderSteps 4 ++
    .acquire 3 :: holderSteps 150

theorem start_again :
    (exec step startAgain State.initial).map (fun s =>
      (publishing s, s.statics.activeGeneration)) = some (some 1#32, 1#32) := by decide +kernel

theorem generation_not_fresh : ¬ ∀ s, Reachable system s → Fresh s := by
  intro h
  obtain ⟨s, hs, hstate⟩ := Option.map_eq_some_iff.mp start_again
  rw [Prod.mk.injEq] at hstate
  have hreach : Reachable system s := (Reachable.start start_initial).exec hs
  obtain ⟨file, writes, hholder⟩ := publishing_eq_some hstate.1
  exact ((h s hreach).publish file 1#32 writes hholder).2.1 hstate.2

end Sg200x.Ipc.Handover
