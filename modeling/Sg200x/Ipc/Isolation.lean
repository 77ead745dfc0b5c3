import Sg200x.Ipc.Handover

/-!
# A new generation is not touched by an old process call

The handshake of `acquire` waits for any notification.  It keeps the firmware out of the
region that is cleared, provided that no older reply is on its way while a process call
goes on, that an ACQUIRE without a handshake finds no process call, and that no call of
Linux goes on with what it has tested before.
-/

namespace Sg200x.Ipc.Handover

open Shm RingCore App Firmware Driver Library.Transition

/-- The next step stores to a ring counter or a ring slot. -/
def stores : ProcessPc → Bool
  | .tryPop _ (.publish _) | .tryPush _ (.copySlot _) | .tryPush _ (.publish _) => true
  | _ => false

structure Isolated (s : State) : Prop where
  store : ∀ pc, s.firmware = some pc → stores pc = true → s.stale = false
  ready : s.pristine = true → s.region.request = Ring.cleared ∧ s.region.response = Ring.cleared

/-- The conditions on the snapshot of the notifications and on the start of the
`memset_io`. -/
def quiesced : Label → State → Bool
  | .holder _, s =>
      match s.holder with
      | some (_, .acquire (.snapshot _)) => !s.firmwarePast || s.replies == 0
      | some (_, .acquire (.clear _ quiesce left)) =>
          left != pieces || (quiesce || !s.firmwarePast) && !s.callPast (.layout .magic)
      | _ => true
  | _, _ => true

/-! ## The invariant -/

/-- No process call gets to the rings. -/
def Sealed (s : State) : Prop := s.region.layout.magic ≠ Shm.magic ∧ s.firmwarePast = false

def AcquireFacts (s : State) : AcquirePc → Prop
  | .clearGeneration _ | .snapshot _ => s.region.layout.magic ≠ Shm.magic
  | .quiesceKick _ notification _ | .wait _ notification =>
      s.region.layout.magic ≠ Shm.magic ∧
        (s.firmwarePast = true → s.replies = 0 ∧ s.transport.notifications = notification)
  | .awake _ answer =>
      s.region.layout.magic ≠ Shm.magic ∧
        (answer ≠ .expired → answer ≠ .interrupted →
          s.transport.shuttingDown = true ∨ s.firmwarePast = false)
  | .clear _ quiesce left =>
      left = pieces ∧ (quiesce = true → Sealed s) ∨
        Sealed s ∧ s.callPast (.layout .magic) = false ∧ clearAll left s.region = Region.cleared
  | .init _ writes =>
      writes ∈ initWrites.tails ∧
        (.magic ∈ writes → Sealed s ∧ s.callPast (.layout .magic) = false)
  | _ => True

/-- In a region that nobody has used yet the firmware finds both rings empty. -/
def FindsEmpty : ProcessPc → Prop
  | .canPush _ (.readConsumer producer) | .tryPop _ (.readConsumer producer) => producer = 0#32
  | .canPush _ .readProducer | .tryPop _ .readProducer => True
  | .tryPop _ _ | .handle _ | .tryPush _ _ | .corruptGeneration | .corruptState => False
  | _ => True

structure Pristine (s : State) : Prop where
  request : s.region.request = Ring.cleared
  response : s.region.response = Ring.cleared
  rtosState : s.region.rtosPeer.state ≠ stateReady
  calls : s.callPast .rtosState = false
  firmware : ∀ pc, s.firmware = some pc → FindsEmpty pc

structure Inv (s : State) : Prop where
  stale : s.stale = false
  replying : s.replying = true → s.firmware = none
  tx : ∀ file call pc, s.tx = some (file, call, pc) → Ordered (txPending pc)
  rx : ∀ file call pc, s.rx = some (file, call, pc) → Ordered (rxPending pc)
  acquire : ∀ file pc, s.holder = some (file, .acquire pc) → AcquireFacts s pc
  pristine : s.pristine = true → Pristine s

theorem inv_of_start {s : State} (h : Start s) : Inv s where
  stale := h.stale
  replying := by simp [h.replying]
  tx := by simp [h.tx]
  rx := by simp [h.rx]
  acquire := by simp [h.holder]
  pristine := by simp [h.pristine]

theorem Inv.isolated {s : State} (h : Inv s) : Isolated s :=
  ⟨fun _ _ _ => h.stale, fun hp => ⟨(h.pristine hp).request, (h.pristine hp).response⟩⟩

/-! ## What the other parties leave of the ACQUIRE's facts -/

/-- What a step of another party must leave of the state for the ACQUIRE that holds
`owner_lock`. -/
structure Undisturbed (s t : State) : Prop where
  magic : t.region.layout.magic = s.region.layout.magic
  firmware : s.region.layout.magic ≠ Shm.magic → s.firmwarePast = false → t.firmwarePast = false
  replies : s.region.layout.magic ≠ Shm.magic → t.firmwarePast = true →
    s.firmwarePast = true ∧ (s.replies = 0 →
      t.replies = 0 ∧ t.transport.notifications = s.transport.notifications)
  shuttingDown : s.transport.shuttingDown = true → t.transport.shuttingDown = true
  calls : s.region.layout.magic ≠ Shm.magic → s.callPast (.layout .magic) = false →
    t.callPast (.layout .magic) = false
  region : Sealed s → s.callPast (.layout .magic) = false → t.region = s.region

theorem AcquireFacts.undisturbed {s t : State} {pc : AcquirePc} (h : AcquireFacts s pc)
    (hst : Undisturbed s t) : AcquireFacts t pc := by
  have hmagic : s.region.layout.magic ≠ Shm.magic → t.region.layout.magic ≠ Shm.magic :=
    fun hne => hst.magic ▸ hne
  have hsealed : Sealed s → Sealed t := fun hs => ⟨hmagic hs.1, hst.firmware hs.1 hs.2⟩
  cases pc with
  | clearGeneration | snapshot => exact hmagic h
  | quiesceKick previous notification pc | wait previous notification =>
      refine ⟨hmagic h.1, fun hpast => ?_⟩
      obtain ⟨hpast', hreplies⟩ := hst.replies h.1 hpast
      obtain ⟨hnone, hsame⟩ := h.2 hpast'
      exact ⟨(hreplies hnone).1, (hreplies hnone).2.trans hsame⟩
  | awake previous answer =>
      refine ⟨hmagic h.1, fun hexpired hinterrupted => ?_⟩
      exact (h.2 hexpired hinterrupted).imp hst.shuttingDown (hst.firmware h.1)
  | clear previous quiesce left =>
      rcases h with ⟨hleft, hquiesce⟩ | ⟨hs, hcalls, hcleared⟩
      · exact .inl ⟨hleft, fun hq => hsealed (hquiesce hq)⟩
      · exact .inr ⟨hsealed hs, hst.calls hs.1 hcalls, by rw [hst.region hs hcalls]; exact hcleared⟩
  | init generation writes =>
      refine ⟨h.1, fun hmem => ?_⟩
      obtain ⟨hs, hcalls⟩ := h.2 hmem
      exact ⟨hsealed hs, hst.calls hs.1 hcalls⟩
  | _ => trivial

/-! ## The holder of `owner_lock` -/

theorem Pristine.frame {s t : State} (h : Pristine s) (hrequest : t.region.request = s.region.request)
    (hresponse : t.region.response = s.region.response)
    (hrtos : t.region.rtosPeer = s.region.rtosPeer) (htx : t.tx = s.tx) (hrx : t.rx = s.rx)
    (hfirmware : t.firmware = s.firmware) : Pristine t where
  request := hrequest.trans h.request
  response := hresponse.trans h.response
  rtosState := hrtos ▸ h.rtosState
  calls := (callPast_congr htx hrx).trans h.calls
  firmware := hfirmware ▸ h.firmware

/-- A step of the holder that leaves the rings alone. -/
theorem Inv.frame {s t : State} (h : Inv s)
    (hrecord : t.stale = s.stale ∧ t.replying = s.replying ∧ t.firmware = s.firmware ∧
      t.tx = s.tx ∧ t.rx = s.rx ∧ t.pristine = s.pristine)
    (hregion : t.region.request = s.region.request ∧ t.region.response = s.region.response ∧
      t.region.rtosPeer = s.region.rtosPeer)
    (hacquire : ∀ file pc, t.holder = some (file, .acquire pc) → AcquireFacts t pc) : Inv t := by
  obtain ⟨hstale, hreplying, hfirmware, htx, hrx, hpristine⟩ := hrecord
  refine ⟨hstale.trans h.stale, ?_, ?_, ?_, hacquire, fun hp => ?_⟩
  · rw [hreplying, hfirmware]
    exact h.replying
  · rw [htx]
    exact h.tx
  · rw [hrx]
    exact h.rx
  · exact (h.pristine (hpristine ▸ hp)).frame hregion.1 hregion.2.1 hregion.2.2 htx hrx hfirmware

theorem magic_mem_tail : ∀ writes, (.magic :: writes) ∈ initWrites.tails → .magic ∉ writes := by
  have htails : ∀ writes ∈ initWrites.tails, writes.head? = some .magic → .magic ∉ writes.tail := by
    decide
  exact fun writes hmem => htails _ hmem rfl

theorem holdsValues_past {pc : ProcessPc} (h : processPast pc = false) : holdsValues pc = false := by
  cases pc with
  | readGeneration | layoutIsValid => rfl
  | _ => cases h

theorem findsEmpty_of_early {pc : ProcessPc} (h : processPast pc = false) : FindsEmpty pc := by
  cases pc with
  | readGeneration | layoutIsValid => trivial
  | _ => cases h

theorem Inv.acquireStep {s t : State} (h : Inv s) {answer : Answer} {file : File} {pc : AcquirePc}
    (hholder : s.holder = some (file, .acquire pc))
    (hallowed : quiesced (.holder answer) s = true) (hstep : holderStep s answer = some t) :
    Inv t := by
  have hfacts := h.acquire file pc hholder
  have hquiet : ∀ {transport region holder outside},
      region.request = s.region.request ∧ region.response = s.region.response ∧
        region.rtosPeer = s.region.rtosPeer →
      (∀ file pc, holder = some (file, .acquire pc) →
        AcquireFacts { s with transport, region, holder, outside } pc) →
      Inv { s with transport, region, holder, outside } :=
    fun {transport region holder outside} hregion =>
      h.frame (t := { s with transport, region, holder, outside }) ⟨rfl, rfl, rfl, rfl, rfl, rfl⟩
        hregion
  have hregion : s.region.request = s.region.request ∧ s.region.response = s.region.response ∧
      s.region.rtosPeer = s.region.rtosPeer := ⟨rfl, rfl, rfl⟩
  simp only [quiesced, hholder] at hallowed
  simp only [holderStep, hholder] at hstep
  cases pc with
  | shuttingDown =>
      simp only [Driver.acquireStep] at hstep
      split_ifs at hstep <;> cases hstep <;> exact hquiet hregion (by rintro _ _ ⟨⟩ <;> trivial)
  | owner =>
      simp only [Driver.acquireStep] at hstep
      split at hstep
      · rename_i hout
        split at hout <;> cases hout
        cases hstep
        exact hquiet hregion (by rintro _ _ ⟨⟩; trivial)
      all_goals
        cases hstep
        exact hquiet hregion (by rintro _ _ ⟨⟩)
  | layoutValid reads =>
      cases reads with
      | nil => cases hstep; exact hquiet hregion (by rintro _ _ ⟨⟩; trivial)
      | cons read reads =>
          simp only [Driver.acquireStep] at hstep
          split_ifs at hstep <;> cases hstep <;> exact hquiet hregion (by rintro _ _ ⟨⟩; trivial)
  | layoutGeneration | rtosState previous =>
      simp only [Driver.acquireStep] at hstep
      split_ifs at hstep <;> cases hstep <;> exact hquiet hregion (by rintro _ _ ⟨⟩; trivial)
  | rtosGeneration previous => cases hstep; exact hquiet hregion (by rintro _ _ ⟨⟩; trivial)
  | setOwner previous quiesce =>
      cases hstep
      refine hquiet hregion ?_
      rintro _ _ ⟨⟩
      cases quiesce
      · exact .inl ⟨rfl, nofun⟩
      · trivial
  | offline previous => cases hstep; exact hquiet hregion (by rintro _ _ ⟨⟩; trivial)
  | clearMagic previous =>
      cases hstep
      exact hquiet hregion (by rintro _ _ ⟨⟩; exact (by decide : (0#32 : U32) ≠ Shm.magic))
  | clearGeneration previous => cases hstep; exact hquiet hregion (by rintro _ _ ⟨⟩; exact hfacts)
  | snapshot previous =>
      cases hstep
      refine hquiet hregion ?_
      rintro _ _ ⟨⟩
      refine ⟨hfacts, fun hpast => ⟨?_, rfl⟩⟩
      simpa [show s.firmwarePast = true from hpast] using hallowed
  | quiesceKick previous notification pc =>
      have hsame := kickStep_frame answer s.transport pc
      simp only [Driver.acquireStep] at hstep
      rcases hout : kickStep answer s.transport pc with ⟨pc' | value, transport⟩ <;>
        simp only [hout] at hstep hsame <;> cases hstep <;> refine hquiet hregion ?_ <;>
        rintro _ _ ⟨⟩ <;> refine ⟨hfacts.1, fun hpast => ?_⟩
      · exact ⟨(hfacts.2 hpast).1, hsame.notifications.trans (hfacts.2 hpast).2⟩
      · exact ⟨(hfacts.2 hpast).1, hsame.notifications.trans (hfacts.2 hpast).2⟩
  | wait previous notification =>
      simp only [Driver.acquireStep] at hstep
      split_ifs at hstep with hdone hended
      · cases hstep
        refine hquiet hregion ?_
        rintro _ _ ⟨⟩
        refine ⟨hfacts.1, fun _ _ => ?_⟩
        -- a notification has come, so that an older process call has ended
        rcases hdone with hshut | hnotified
        · exact .inl hshut
        · right
          by_contra hpast
          have hpast' : s.firmwarePast = true := eq_true_of_ne_false hpast
          exact hnotified (hfacts.2 hpast').2
      · cases hstep
        refine hquiet hregion ?_
        rintro _ _ ⟨⟩
        refine ⟨hfacts.1, fun hexpired hinterrupted => ?_⟩
        exact absurd hended (by simp [hexpired, hinterrupted])
      · cases hstep
        exact hquiet hregion (by rintro _ _ ⟨⟩; exact hfacts)
  | awake previous ended =>
      simp only [Driver.acquireStep] at hstep
      split_ifs at hstep with hshut
      · cases hstep
        exact hquiet hregion (by rintro _ _ ⟨⟩)
      · cases ended with
        | expired | interrupted => cases hstep; exact hquiet hregion (by rintro _ _ ⟨⟩)
        | done | fault | busy =>
            cases hstep
            refine hquiet hregion ?_
            rintro _ _ ⟨⟩
            have hpast := (hfacts.2 (by simp) (by simp)).resolve_left hshut
            exact .inl ⟨rfl, fun _ => ⟨hfacts.1, hpast⟩⟩
  | clear previous quiesce left =>
      cases left with
      | nil =>
          cases hstep
          rcases hfacts with ⟨hleft, -⟩ | ⟨hsealed, hcalls, hcleared⟩
          · cases hleft
          · have hregion : s.region = Region.cleared := hcleared
            refine ⟨h.stale, h.replying, h.tx, h.rx, ?_, fun _ => ?_⟩
            · rintro _ _ ⟨⟩
              exact ⟨by decide, fun _ => ⟨hsealed, hcalls⟩⟩
            · refine ⟨by rw [hregion]; rfl, by rw [hregion]; rfl, ?_, ?_, ?_⟩
              · rw [hregion]
                exact (by decide : (0#32 : U32) ≠ stateReady)
              · rw [callPast_eq_false] at hcalls ⊢
                exact ⟨fun file call pc heq hpast =>
                    hcalls.1 file call pc heq (hpast.earlier (h.tx file call pc heq)),
                  fun file call pc heq hpast =>
                    hcalls.2 file call pc heq (hpast.earlier (h.rx file call pc heq))⟩
              · exact fun pc heq => findsEmpty_of_early (firmwarePast_eq_false.mp hsealed.2 pc heq)
      | cons piece left =>
          cases hstep
          have hnow : s.firmwarePast = false ∧ s.callPast (.layout .magic) = false ∧
              (Piece.clear s.region piece).layout.magic ≠ Shm.magic ∧
              clearAll left (piece.clear s.region) = Region.cleared := by
            rcases hfacts with ⟨hleft, hquiesce⟩ | ⟨hsealed, hcalls, hcleared⟩
            · simp only [hleft, bne_self_eq_false, Bool.false_or, Bool.and_eq_true,
                Bool.or_eq_true, Bool.not_eq_true'] at hallowed
              refine ⟨hallowed.1.elim (fun hq => (hquiesce hq).2) id, hallowed.2, ?_, ?_⟩
              · cases hleft
                exact (by decide : (0#32 : U32) ≠ Shm.magic)
              · have hall := clearAll_pieces s.region
                rw [← hleft] at hall
                exact hall
            · exact ⟨hsealed.2, hcalls, clear_magic hsealed.1, hcleared⟩
          obtain ⟨hpast, hcalls, hmagic, hcleared⟩ := hnow
          refine ⟨?_, h.replying, h.tx, h.rx, ?_, nofun⟩
          · have hholds : s.firmware.any holdsValues = false := by
              rw [Option.any_eq_false]
              exact fun pc heq => by
                simpa using holdsValues_past (firmwarePast_eq_false.mp hpast pc heq)
            change (s.stale || s.firmware.any holdsValues) = false
            rw [h.stale, hholds]
            rfl
          · rintro _ _ ⟨⟩
            exact .inr ⟨⟨hmagic, hpast⟩, hcalls, hcleared⟩
  | init generation writes =>
      cases writes with
      | nil => cases hstep; exact hquiet hregion (by rintro _ _ ⟨⟩; trivial)
      | cons write writes =>
          simp only [Driver.acquireStep] at hstep
          cases hstep
          refine h.frame ?_ hregion ?_
          · cases write <;> exact ⟨rfl, rfl, rfl, rfl, rfl, rfl⟩
          · rintro _ _ ⟨⟩
            have htails := hfacts.1
            rw [List.mem_tails] at htails
            refine ⟨(List.mem_tails ..).mpr ((List.suffix_cons write writes).trans htails), fun hmem => ?_⟩
            obtain ⟨hsealed, hcalls⟩ := hfacts.2 (List.mem_cons_of_mem _ hmem)
            have hne : write ≠ .magic := by
              rintro rfl
              exact magic_mem_tail writes hfacts.1 hmem
            refine ⟨⟨?_, ?_⟩, ?_⟩
            · cases write <;> first | exact hsealed.1 | exact absurd rfl hne
            · cases write <;> exact hsealed.2
            · cases write <;> exact hcalls
  | kick pc =>
      simp only [Driver.acquireStep] at hstep
      rcases hout : kickStep answer s.transport pc with ⟨pc' | value, transport⟩ <;>
        simp only [hout] at hstep <;> cases hstep <;> refine hquiet hregion ?_ <;>
        rintro _ _ ⟨⟩
      trivial

theorem Inv.releaseStep {s t : State} (h : Inv s) {answer : Answer} {file : File} {pc : ReleasePc}
    (hholder : s.holder = some (file, .release pc)) (hstep : holderStep s answer = some t) :
    Inv t := by
  simp only [holderStep, hholder] at hstep
  cases hstep
  refine h.frame ⟨rfl, rfl, rfl, rfl, rfl, rfl⟩ ?_ ?_
  · cases pc <;> exact ⟨rfl, rfl, rfl⟩
  · intro file' pc' heq
    obtain ⟨pc'', -, hne⟩ := Option.map_eq_some_iff.mp heq
    cases hne

/-! ## The calls of Linux -/

/-- A call of Linux leaves the firmware and the notifications alone. -/
theorem undisturbed_of_call {s t : State} (hlayout : t.region.layout = s.region.layout)
    (hfirmware : t.firmware = s.firmware) (hreplies : t.replies = s.replies)
    (hsame : SameChannel s.transport t.transport)
    (hcalls : s.region.layout.magic ≠ Shm.magic → s.callPast (.layout .magic) = false →
      t.callPast (.layout .magic) = false)
    (hregion : s.region.layout.magic ≠ Shm.magic → s.callPast (.layout .magic) = false →
      t.region = s.region) : Undisturbed s t where
  magic := by rw [hlayout]
  firmware _ hpast := (firmwarePast_congr hfirmware).trans hpast
  replies _ hpast :=
    ⟨(firmwarePast_congr hfirmware).symm.trans hpast,
      fun hnone => ⟨hreplies.trans hnone, hsame.notifications⟩⟩
  shuttingDown hshut := hsame.shuttingDown.trans hshut
  calls := hcalls
  region hsealed := hregion hsealed.1

/-- A step of a call keeps the invariant, if it keeps what is tested of the region from
being tested too early. -/
theorem Inv.callStep {s t : State} (h : Inv s)
    (hrecord : t.stale = s.stale ∧ t.replying = s.replying ∧ t.firmware = s.firmware ∧
      t.pristine = s.pristine ∧ t.holder = s.holder ∧ t.replies = s.replies)
    (hlayout : t.region.layout = s.region.layout) (hsame : SameChannel s.transport t.transport)
    (htx : ∀ file call pc, t.tx = some (file, call, pc) → Ordered (txPending pc))
    (hrx : ∀ file call pc, t.rx = some (file, call, pc) → Ordered (rxPending pc))
    (hcalls : ∀ read ∈ rtosReady,
      (∀ generation, read.passes s.transport s.region generation = false) →
        s.callPast read = false → t.callPast read = false ∧ t.region = s.region) : Inv t := by
  obtain ⟨hstale, hreplying, hfirmware, hpristine, hholder, hreplies⟩ := hrecord
  refine ⟨hstale.trans h.stale, ?_, htx, hrx, fun file pc heq => ?_, fun hp => ?_⟩
  · rw [hreplying, hfirmware]
    exact h.replying
  · have hcalls' : s.region.layout.magic ≠ Shm.magic → s.callPast (.layout .magic) = false →
        t.callPast (.layout .magic) = false ∧ t.region = s.region := fun hmagic =>
      hcalls (.layout .magic) (by decide) (by simp [ReadyRead.passes, LayoutRead.passes, hmagic])
    exact (h.acquire file pc (hholder ▸ heq)).undisturbed
      (undisturbed_of_call hlayout hfirmware hreplies hsame
        (fun hmagic hpast => (hcalls' hmagic hpast).1) fun hmagic hpast => (hcalls' hmagic hpast).2)
  · have hpris := h.pristine (hpristine ▸ hp)
    obtain ⟨hcalls', hregion⟩ := hcalls .rtosState (by decide)
      (by simp [ReadyRead.passes, hpris.rtosState]) hpris.calls
    refine ⟨?_, ?_, ?_, hcalls', ?_⟩
    · rw [hregion]; exact hpris.request
    · rw [hregion]; exact hpris.response
    · rw [hregion]; exact hpris.rtosState
    · rw [hfirmware]; exact hpris.firmware

theorem Inv.txStep {s t : State} (h : Inv s) {answer : Answer} (hstep : txStep s answer = some t) :
    Inv t := by
  unfold Handover.txStep at hstep
  rcases htx : s.tx with - | ⟨file, call, pc⟩
  · rw [htx] at hstep
    cases hstep
  · simp only [htx] at hstep
    cases hstep
    obtain ⟨hsame, hrequest, -⟩ := txStep_frame call answer s.transport s.region pc
    have hcall := txStep_callStep call answer s.transport s.region pc
    have hnext : ∀ {file' call' pc'},
        (Driver.txStep call answer s.transport s.region pc).1.pc?.map (fun pc' => (file, call, pc')) =
          some (file', call', pc') →
        (Driver.txStep call answer s.transport s.region pc).1.pc?.map txPending =
          some (txPending pc') := by
      intro file' call' pc' heq
      obtain ⟨next, hout, ⟨⟩⟩ := Option.map_eq_some_iff.mp heq
      rw [hout]
      rfl
    refine h.callStep ⟨rfl, rfl, rfl, rfl, rfl, rfl⟩ (by rw [hrequest]) hsame ?_
      h.rx ?_
    · exact fun file' call' pc' heq => hcall.ordered (h.tx file call pc htx) (hnext heq)
    · intro read hread hfails hcalls
      rw [callPast_eq_false] at hcalls ⊢
      obtain ⟨hquiet, hpast⟩ := hcall.not_past hread (hcalls.1 file call pc htx) hfails
      exact ⟨⟨fun file' call' pc' heq => hpast _ (hnext heq), hcalls.2⟩, congrArg Prod.snd hquiet⟩

theorem Inv.rxStep {s t : State} (h : Inv s) {answer : Answer} (hstep : rxStep s answer = some t) :
    Inv t := by
  unfold Handover.rxStep at hstep
  rcases hrx : s.rx with - | ⟨file, call, pc⟩
  · rw [hrx] at hstep
    cases hstep
  · simp only [hrx] at hstep
    cases hstep
    obtain ⟨hsame, hresponse, -⟩ := rxStep_frame call answer s.transport s.region pc
    have hcall := rxStep_callStep call answer s.transport s.region pc
    have hnext : ∀ {file' call' pc'},
        (Driver.rxStep call answer s.transport s.region pc).1.pc?.map (fun pc' => (file, call, pc')) =
          some (file', call', pc') →
        (Driver.rxStep call answer s.transport s.region pc).1.pc?.map rxPending =
          some (rxPending pc') := by
      intro file' call' pc' heq
      obtain ⟨next, hout, ⟨⟩⟩ := Option.map_eq_some_iff.mp heq
      rw [hout]
      rfl
    refine h.callStep ⟨rfl, rfl, rfl, rfl, rfl, rfl⟩ (by rw [hresponse]) hsame h.tx ?_ ?_
    · exact fun file' call' pc' heq => hcall.ordered (h.rx file call pc hrx) (hnext heq)
    · intro read hread hfails hcalls
      rw [callPast_eq_false] at hcalls ⊢
      obtain ⟨hquiet, hpast⟩ := hcall.not_past hread (hcalls.2 file call pc hrx) hfails
      exact ⟨⟨hcalls.1, fun file' call' pc' heq => hpast _ (hnext heq)⟩, congrArg Prod.snd hquiet⟩

/-! ## The firmware -/

/-- Until it publishes READY, a process call leaves an unused region as it is. -/
theorem processStep_findsEmpty (mmio : Mmio) {region : Region} (statics : Statics)
    {pc : ProcessPc} (hrequest : region.request = Ring.cleared)
    (hresponse : region.response = Ring.cleared) (hpc : FindsEmpty pc)
    (hready : ∀ generation, pc ≠ .attachState generation) :
    (processStep mmio region statics pc).2.1.request = Ring.cleared ∧
      (processStep mmio region statics pc).2.1.response = Ring.cleared ∧
      (processStep mmio region statics pc).2.1.rtosPeer.state = region.rtosPeer.state ∧
      ∀ pc', (processStep mmio region statics pc).1 = .running pc' → FindsEmpty pc' := by
  have hloop : ∀ count pc', loop count = .running pc' → FindsEmpty pc' := by
    intro count pc' heq
    unfold loop at heq
    split_ifs at heq
    cases heq
    trivial
  cases pc with
  | readGeneration =>
      simp only [processStep]
      split_ifs
      · exact ⟨hrequest, hresponse, rfl, by rintro _ ⟨⟩⟩
      · refine ⟨hrequest, hresponse, rfl, ?_⟩
        rintro _ ⟨⟩
        trivial
  | linuxState generation =>
      simp only [processStep]
      split_ifs
      · refine ⟨hrequest, hresponse, rfl, ?_⟩
        rintro _ ⟨⟩
        trivial
      · exact ⟨hrequest, hresponse, rfl, by rintro _ ⟨⟩⟩
  | layoutIsValid generation reads =>
      cases reads with
      | nil =>
          refine ⟨hrequest, hresponse, rfl, ?_⟩
          rintro _ ⟨⟩
          trivial
      | cons read reads =>
          simp only [processStep]
          split_ifs
          · refine ⟨hrequest, hresponse, rfl, ?_⟩
            rintro _ ⟨⟩
            trivial
          · exact ⟨hrequest, hresponse, rfl, by rintro _ ⟨⟩⟩
  | linuxGeneration generation =>
      simp only [processStep, attach]
      split_ifs
      · exact ⟨hrequest, hresponse, rfl, hloop 0⟩
      · refine ⟨hrequest, hresponse, rfl, ?_⟩
        rintro _ ⟨⟩
        trivial
      · exact ⟨hrequest, hresponse, rfl, by rintro _ ⟨⟩⟩
  | attachGeneration =>
      refine ⟨hrequest, hresponse, rfl, ?_⟩
      rintro _ ⟨⟩
      trivial
  | attachState generation => exact absurd rfl (hready generation)
  | canPush count pc =>
      cases pc with
      | readProducer =>
          refine ⟨hrequest, hresponse, rfl, ?_⟩
          rintro _ ⟨⟩
          exact congrArg Ring.producer hresponse
      | readConsumer producer =>
          obtain rfl : producer = 0#32 := hpc
          simp only [processStep, canPushStep, hresponse]
          refine ⟨hrequest, hresponse, rfl, ?_⟩
          rintro _ ⟨⟩
          trivial
  | tryPop count pc =>
      cases pc with
      | readProducer =>
          refine ⟨hrequest, hresponse, rfl, ?_⟩
          rintro _ ⟨⟩
          exact congrArg Ring.producer hrequest
      | readConsumer producer =>
          obtain rfl : producer = 0#32 := hpc
          simp only [processStep, tryPopStep, hrequest]
          exact ⟨rfl, hresponse, rfl, by rintro _ ⟨⟩⟩
      | copySlot | publish => exact hpc.elim
  | handle | tryPush | corruptGeneration | corruptState => exact hpc.elim

theorem Inv.firmwareStep {s t : State} (h : Inv s) {mmio : Mmio}
    (hstep : firmwareStep s mmio = some t) : Inv t := by
  unfold Handover.firmwareStep at hstep
  rcases hfw : s.firmware with - | pc
  · rw [hfw] at hstep
    cases hstep
  · simp only [hfw] at hstep
    cases hstep
    obtain ⟨hlayout, -⟩ := processStep_frame mmio s.region s.statics pc
    have hearly : s.region.layout.magic ≠ Shm.magic → s.firmwarePast = false →
        (processStep mmio s.region s.statics pc).2 = (s.region, s.statics) ∧
          (processStep mmio s.region s.statics pc).1.pc?.any processPast = false :=
      fun hmagic hpast => processStep_early mmio s.statics hmagic (firmwarePast_eq_false.mp hpast pc hfw)
    refine ⟨?_, ?_, h.tx, h.rx, fun file pc' heq => ?_, fun hp => ?_⟩
    · change (s.stale && _) = false
      rw [h.stale]
      rfl
    · intro hreplying
      exact Option.isNone_iff_eq_none.mp hreplying
    · refine (h.acquire file pc' heq).undisturbed ⟨by rw [hlayout], ?_, ?_, id, fun _ => id, ?_⟩
      · exact fun hmagic hpast => (hearly hmagic hpast).2
      · intro hmagic hpast
        have hpast' : s.firmwarePast = true := by
          by_contra hnot
          have hafter := (hearly hmagic (eq_false_of_ne_true hnot)).2
          exact absurd (hpast.symm.trans hafter) (by decide)
        exact ⟨hpast', fun hnone => ⟨hnone, rfl⟩⟩
      · exact fun hsealed _ => congrArg Prod.fst (hearly hsealed.1 hsealed.2).1
    · simp only [Bool.and_eq_true, Bool.not_eq_true'] at hp
      have hpris := h.pristine hp.1
      have hready : ∀ generation, pc ≠ .attachState generation := by
        rintro generation rfl
        exact absurd hp.2 (by simp)
      obtain ⟨hrequest, hresponse, hrtos, hnext⟩ :=
        processStep_findsEmpty mmio s.statics hpris.request hpris.response
          (hpris.firmware pc hfw) hready
      refine ⟨hrequest, hresponse, ?_, hpris.calls, fun pc' heq => ?_⟩
      · rw [hrtos]
        exact hpris.rtosState
      · apply hnext
        rcases hout : (processStep mmio s.region s.statics pc).1 with next | ret
        · rw [hout] at heq
          cases heq
          rfl
        · rw [hout] at heq
          cases heq

/-! ## Every step -/

/-- A step that changes nothing the invariant speaks of, except for the ACQUIRE it starts
or for what is recorded of the notifications. -/
theorem Inv.quiet {s t : State} (h : Inv s)
    (hrecord : t.stale = s.stale ∧ t.replying = s.replying ∧ t.firmware = s.firmware ∧
      t.tx = s.tx ∧ t.rx = s.rx ∧ t.pristine = s.pristine) (hregion : t.region = s.region)
    (hholder : ∀ file pc, t.holder = some (file, .acquire pc) →
      pc = .shuttingDown ∨ s.holder = some (file, .acquire pc))
    (hreplies : s.firmwarePast = true → s.replies = 0 →
      t.replies = 0 ∧ t.transport.notifications = s.transport.notifications)
    (hshut : s.holder.isSome → s.transport.shuttingDown = true → t.transport.shuttingDown = true) :
    Inv t := by
  refine h.frame hrecord ⟨by rw [hregion], by rw [hregion], by rw [hregion]⟩ fun file pc heq => ?_
  obtain ⟨-, -, hfirmware, htx, hrx, -⟩ := hrecord
  rcases hholder file pc heq with rfl | hsame
  · trivial
  · have hpast := firmwarePast_congr hfirmware
    refine (h.acquire file pc hsame).undisturbed ⟨by rw [hregion], ?_, ?_, ?_, ?_, fun _ _ => hregion⟩
    · exact fun _ => hpast.trans
    · exact fun _ hp => ⟨hpast.symm.trans hp, hreplies (hpast.symm.trans hp)⟩
    · exact hshut (by rw [hsame]; rfl)
    · exact fun _ => (callPast_congr htx hrx).trans

/-- A call that has just got its lock has read nothing yet. -/
theorem Inv.lockTx {s t : State} (h : Inv s) {i : ℕ} (hstep : step (.lockTx i) s = some t) :
    Inv t := by
  simp only [Handover.step] at hstep
  split at hstep
  · rename_i file call htx _
    cases hstep
    have hstart : ∀ {file' call' pc'},
        call.enter.pc?.map (fun pc => (file, call, pc)) = some (file', call', pc') →
        txPending pc' = some rtosReady := by
      intro file' call' pc' heq
      obtain ⟨pc, hpc, ⟨⟩⟩ := Option.map_eq_some_iff.mp heq
      rcases hout : call.enter with next | ret
      · rw [hout] at hpc
        cases hpc
        rw [(TxCall.accepted_of_enter hout).2, txPending_loop]
      · rw [hout] at hpc
        cases hpc
    refine h.callStep ⟨rfl, rfl, rfl, rfl, rfl, rfl⟩ rfl (.refl _) ?_ h.rx fun read hread _ hcalls => ?_
    · intro file' call' pc' heq
      rw [hstart heq]
      exact ordered_start
    · rw [callPast_eq_false] at hcalls ⊢
      refine ⟨⟨fun file' call' pc' heq hpast => ?_, hcalls.2⟩, rfl⟩
      exact hpast _ (hstart heq) hread
  · cases hstep

theorem Inv.lockRx {s t : State} (h : Inv s) {i : ℕ} (hstep : step (.lockRx i) s = some t) :
    Inv t := by
  simp only [Handover.step] at hstep
  split at hstep
  · rename_i file call hrx _
    cases hstep
    have hstart : ∀ {file' call' pc'},
        call.enter.pc?.map (fun pc => (file, call, pc)) = some (file', call', pc') →
        rxPending pc' = some rtosReady := by
      intro file' call' pc' heq
      obtain ⟨pc, hpc, ⟨⟩⟩ := Option.map_eq_some_iff.mp heq
      rcases hout : call.enter with next | ret
      · rw [hout] at hpc
        cases hpc
        rw [(RxCall.accepted_of_enter hout).2, rxPending_loop]
      · rw [hout] at hpc
        cases hpc
    refine h.callStep ⟨rfl, rfl, rfl, rfl, rfl, rfl⟩ rfl (.refl _) h.tx ?_ fun read hread _ hcalls => ?_
    · intro file' call' pc' heq
      rw [hstart heq]
      exact ordered_start
    · rw [callPast_eq_false] at hcalls ⊢
      refine ⟨⟨hcalls.1, fun file' call' pc' heq hpast => ?_⟩, rfl⟩
      exact hpast _ (hstart heq) hread
  · cases hstep

theorem Inv.step {s t : State} {l : Label} (h : Inv s) (hallowed : quiesced l s = true)
    (hstep : step l s = some t) : Inv t := by
  cases l with
  | acquire file =>
      simp only [Handover.step] at hstep
      split at hstep <;> cases hstep
      refine h.quiet ⟨rfl, rfl, rfl, rfl, rfl, rfl⟩ rfl ?_ (fun _ hnone => ⟨hnone, rfl⟩) fun _ => id
      rintro _ _ ⟨⟩
      exact .inl rfl
  | holder answer =>
      rcases hholder : s.holder with - | ⟨file, pc | pc⟩
      · simp only [Handover.step, holderStep, hholder] at hstep
        cases hstep
      · exact h.acquireStep hholder hallowed hstep
      · exact h.releaseStep hholder hstep
  | outside i answer =>
      simp only [Handover.step, outsideStep] at hstep
      split at hstep
      · cases hstep
      · split at hstep <;> cases hstep
        exact h.quiet ⟨rfl, rfl, rfl, rfl, rfl, rfl⟩ rfl nofun (fun _ hnone => ⟨hnone, rfl⟩)
          fun _ => id
      · split at hstep <;> cases hstep <;>
          exact h.quiet ⟨rfl, rfl, rfl, rfl, rfl, rfl⟩ rfl (fun _ _ => .inr)
            (fun _ hnone => ⟨hnone, rfl⟩) fun _ => id
  | close file | admitTx file call | admitRx file call =>
      simp only [Handover.step] at hstep
      split_ifs at hstep
      cases hstep
      exact h.quiet ⟨rfl, rfl, rfl, rfl, rfl, rfl⟩ rfl (fun _ _ => .inr)
        (fun _ hnone => ⟨hnone, rfl⟩) fun _ => id
  | leaveTx i | leaveRx i =>
      cases hstep
      exact h.quiet ⟨rfl, rfl, rfl, rfl, rfl, rfl⟩ rfl (fun _ _ => .inr)
        (fun _ hnone => ⟨hnone, rfl⟩) fun _ => id
  | lockTx i => exact h.lockTx hstep
  | lockRx i => exact h.lockRx hstep
  | tx answer => exact h.txStep hstep
  | rx answer => exact h.rxStep hstep
  | process =>
      simp only [Handover.step] at hstep
      split_ifs at hstep with hidle
      cases hstep
      refine ⟨h.stale, by simp [hidle.2], h.tx, h.rx, fun file pc heq => ?_, fun hp => ?_⟩
      · exact (h.acquire file pc heq).undisturbed
          ⟨rfl, fun _ _ => rfl, fun _ => nofun, id, fun _ => id, fun _ _ => rfl⟩
      · have hpris := h.pristine hp
        refine ⟨hpris.request, hpris.response, hpris.rtosState, hpris.calls, ?_⟩
        rintro _ ⟨⟩
        trivial
  | firmware mmio => exact h.firmwareStep hstep
  | reply sent =>
      by_cases hreplying : s.replying = true
      · simp only [Handover.step, if_pos hreplying] at hstep
        cases hstep
        have hpast : s.firmwarePast = false := by simp [State.firmwarePast, h.replying hreplying]
        refine ⟨h.stale, nofun, h.tx, h.rx, fun file pc heq => ?_, fun hp => ?_⟩
        · exact (h.acquire file pc heq).undisturbed
            ⟨rfl, fun _ => id, fun _ hp => absurd (hp.symm.trans hpast) (by decide), id,
              fun _ => id, fun _ _ => rfl⟩
        · exact (h.pristine hp).frame rfl rfl rfl rfl rfl rfl
      · simp only [Handover.step, if_neg hreplying] at hstep
        cases hstep
  | irq =>
      simp only [Handover.step] at hstep
      split_ifs at hstep with hnone hshut
      · cases hstep
        exact h.quiet ⟨rfl, rfl, rfl, rfl, rfl, rfl⟩ rfl (fun _ _ => .inr)
          (fun _ hzero => absurd hzero hnone) fun _ => id
      · cases hstep
        exact h.quiet ⟨rfl, rfl, rfl, rfl, rfl, rfl⟩ rfl (fun _ _ => .inr)
          (fun _ hzero => absurd hzero hnone) fun _ => id
  | shutdown =>
      cases hstep
      exact h.quiet ⟨rfl, rfl, rfl, rfl, rfl, rfl⟩ rfl (fun _ _ => .inr)
        (fun _ hnone => ⟨hnone, rfl⟩) fun _ _ => rfl
  | finishShutdown =>
      simp only [Handover.step, Handover.finishShutdown] at hstep
      split_ifs at hstep with hready
      cases hstep
      have hholder := Option.isNone_iff_eq_none.mp hready.2.2.1
      exact h.frame ⟨rfl, rfl, rfl, rfl, rfl, rfl⟩ ⟨rfl, rfl, rfl⟩ (by simp [hholder])
  | create =>
      simp only [Handover.step, Handover.create] at hstep
      split_ifs at hstep with hready
      cases hstep
      have hholder := Option.isNone_iff_eq_none.mp hready.2.1
      exact h.frame ⟨rfl, rfl, rfl, rfl, rfl, rfl⟩ ⟨rfl, rfl, rfl⟩ (by simp [hholder])

/-- While every ACQUIRE begins to clear the region in peace, no process call stores what
it has read before. -/
theorem handover_isolated {s : State} (h : ReachableBy system (fun l s => quiesced l s = true) s) :
    Isolated s :=
  Inv.isolated (h.invariant (fun _ => inv_of_start) fun _ _ _ hs hallowed hstep =>
    hs.step hallowed hstep)

/-- One file closes, another one acquires with a handshake, and the firmware attaches
again. -/
def handover : List Label :=
  firstAcquire 1 ++ attachFirmware ++ finishAcquire ++ [.irq] ++ closeFile 1 ++ quiesceFirmware 2 ++
    .process :: firmwareSteps 2 ++ [.reply true, .irq] ++ initializeRegion ++
    .process :: firmwareSteps 15

theorem handover_isolated_second :
    ∃ s, exec (guarded quiesced step) handover State.initial = some s ∧ s.pristine = true ∧
      s.firmware.any (· matches .attachState 2#32) = true ∧ Isolated s := by
  have hrun : (exec (guarded quiesced step) handover State.initial).map
      (fun s => (s.pristine, s.firmware.any (· matches .attachState 2#32))) = some (true, true) := by
    decide +kernel
  obtain ⟨s, hs, hstate⟩ := Option.map_eq_some_iff.mp hrun
  rw [Prod.mk.injEq] at hstate
  have hreach := (ReachableBy.start start_initial).execGuarded hs
  exact ⟨s, hs, hstate.1, hstate.2, handover_isolated hreach⟩

/-! ## The late reply -/

/-- The reply to the first doorbell is delivered after the snapshot, while the firmware is
in the process call of the second one. -/
def lateReply : List Label :=
  firstAcquire 1 ++ attachFirmware ++ finishAcquire ++
    [.admitTx 1 (sendMessage Slot.zero true), .lockTx 0] ++ List.replicate 25 (.tx .done) ++
    .process :: firmwareSteps 19 ++ closeFile 1 ++ quiesceFirmware 2 ++ [.irq] ++ holderSteps 142 ++
    firmwareSteps 1

theorem late_reply :
    (exec step lateReply State.initial).map (fun s =>
      (s.pristine, s.stale, s.region.request.consumer)) = some (true, true, 1#32) := by
  decide +kernel

theorem handover_not_isolated : ¬ ∀ s, Reachable system s → Isolated s := by
  intro h
  obtain ⟨s, hs, hstate⟩ := Option.map_eq_some_iff.mp late_reply
  simp only [Prod.mk.injEq] at hstate
  have hreach : Reachable system s := (Reachable.start start_initial).exec hs
  have hcleared := ((h s hreach).ready hstate.1).1
  rw [hcleared] at hstate
  exact absurd hstate.2.2 (by decide)

end Sg200x.Ipc.Handover
