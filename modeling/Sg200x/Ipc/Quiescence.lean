import Sg200x.Ipc.Shutdown

/-!
# A driver that is shut down keeps quiet

Behind a shutdown that has come to a place in its function lie the locks it has taken
there, and what held them before is over.  A call that holds one of them since then has
entered it with `shutting_down` set, and can only return an error.
-/

namespace Sg200x.Ipc.Shutdown

open Shm RingCore Driver Library Library.Transition

-- The equations of `step` are generated here, once for all the proofs that unfold it.
section
attribute [local simp] step
end

/-! ## What a shutdown promises -/

/-- None of the recorded accesses has been made. -/
structure Still (s t : State) : Prop where
  effects : t.effects = s.effects
  owner : t.transport.owner = s.transport.owner
  generation : t.transport.generation = s.transport.generation
  kickScheduled : t.transport.kickScheduled = s.transport.kickScheduled

/-- The steps that a call has left at most once the flag is set. -/
def holderLeft : HolderPc → ℕ
  | .acquire (.wait _ _) => 2
  | .acquire (.awake _ _) | .acquire .shuttingDown => 1
  | _ => 0

def outsideLeft : OutsidePc → ℕ
  | .asleep => 2
  | .ready _ _ => 1
  | _ => 0

def txLeft : TxPc → ℕ
  | .wait => 3
  | .stale _ => 2
  | .ready _ _ => 1
  | _ => 0

def rxLeft : RxPc → ℕ
  | .wait => 3
  | .stale _ => 2
  | .ready _ _ => 1
  | _ => 0

/-- A blocked call goes on without an access, and returns an error in the end. -/
structure Failing {κ : Type} (left : κ → ℕ) (place : State → Option (Ongoing κ))
    (label : Answer → Label) (s : State) : Prop where
  step : ∀ call, place s = some call → call.blocked = true → ∀ answer, ∃ t,
    step (label answer) s = some t ∧ t.effects = s.effects ∧ t.region = s.region ∧
      t.transport = s.transport ∧
      ((∃ ret, ret ≠ .ok ∧ t.results = s.results ++ [(true, ret)]) ∨
        ∃ pc, place t = some { call with pc } ∧ left pc < left call.pc)

structure Quiescent (s : State) : Prop where
  still : s.returned = true → ∀ label t, step label s = some t → Still s t
  /-- The region is the firmware's to write. -/
  region : s.returned = true → ∀ label t, step label s = some t →
    (∀ region, label ≠ .firmware region) → t.region = s.region
  holder : Failing holderLeft State.holder .holder s
  outside : ∀ i, Failing outsideLeft (fun s => s.outside[i]?) (.outside i) s
  tx : Failing txLeft (fun s => s.tx.map Prod.snd) .tx s
  rx : Failing rxLeft (fun s => s.rx.map Prod.snd) .rx s
  results : ∀ ret, (true, ret) ∈ s.results → ret ≠ .ok
  /-- No thread waits, through others, for itself. -/
  acyclic : ∀ thread, ¬Relation.TransGen (LockOrder.Blocks s.waits s.holds) thread thread
  /-- A shutdown after the first one looks at its own variable only. -/
  second : s.shutdownComplete = true →
    ∀ pc, s.closing = some pc → pc = .testComplete ∨ pc = .unlock

/-! ## A call once the flag is set -/

/-- The call can only return an error. -/
def holderQuiet : HolderPc → Prop
  | .acquire .shuttingDown | .acquire (.wait _ _) | .acquire (.awake _ _) => True
  | _ => False

def outsideQuiet : OutsidePc → Prop
  | .asleep => True
  | .ready _ pc => pc.reads = rtosReady
  | _ => False

def txQuiet : TxPc → Prop
  | .stale _ | .wait => True
  | .ready _ pc => pc.reads = rtosReady
  | _ => False

def rxQuiet : RxPc → Prop
  | .stale _ | .wait => True
  | .ready _ pc => pc.reads = rtosReady
  | _ => False

section Quiet

variable {transport : Transport} (hflag : transport.shuttingDown = true)
include hflag

theorem readyStep_shuttingDown (region : Region) {pc : ReadyPc} (hpc : pc.reads = rtosReady) :
    readyStep transport region pc = .returned false := by
  unfold readyStep
  rw [hpc]
  simp [rtosReady, ReadyRead.passes, hflag]

theorem txStep_quiet (call : TxCall) (answer : Answer) (region : Region) {pc : TxPc}
    (hpc : txQuiet pc) :
    (Driver.txStep call answer transport region pc).2 = (transport, region) ∧
      txEffects pc = [] ∧
      match (Driver.txStep call answer transport region pc).1 with
      | .running pc' => txQuiet pc' ∧ txLeft pc' < txLeft pc
      | .returned ret => ret ≠ .ok := by
  cases pc with
  | stale expired =>
      refine ⟨rfl, rfl, ?_⟩
      dsimp only [Driver.txStep]
      split_ifs
      · exact ⟨rfl, Nat.lt_add_one 1⟩
      · exact Errno.noConfusion
  | ready expired pc =>
      refine ⟨rfl, rfl, ?_⟩
      dsimp only [Driver.txStep]
      rw [readyStep_shuttingDown hflag region hpc]
      exact Errno.noConfusion
  | wait =>
      refine ⟨rfl, rfl, ?_⟩
      dsimp only [Driver.txStep, waitEnd, TxCall.loop]
      split_ifs
      · exact Errno.noConfusion
      · exact ⟨trivial, Nat.lt_add_one 2⟩
      · exact ⟨rfl, (by decide : 1 < 3)⟩
  | _ => exact hpc.elim

theorem rxStep_quiet (call : RxCall) (answer : Answer) (region : Region) {pc : RxPc}
    (hpc : rxQuiet pc) :
    (Driver.rxStep call answer transport region pc).2 = (transport, region) ∧
      rxEffects pc = [] ∧
      match (Driver.rxStep call answer transport region pc).1 with
      | .running pc' => rxQuiet pc' ∧ rxLeft pc' < rxLeft pc
      | .returned ret => ret ≠ .ok := by
  cases pc with
  | stale expired =>
      refine ⟨rfl, rfl, ?_⟩
      dsimp only [Driver.rxStep]
      split_ifs
      · exact ⟨rfl, Nat.lt_add_one 1⟩
      · exact Errno.noConfusion
  | ready expired pc =>
      refine ⟨rfl, rfl, ?_⟩
      dsimp only [Driver.rxStep]
      rw [readyStep_shuttingDown hflag region hpc]
      exact Errno.noConfusion
  | wait =>
      refine ⟨rfl, rfl, ?_⟩
      dsimp only [Driver.rxStep, waitEnd, RxCall.loop]
      split_ifs
      · exact Errno.noConfusion
      · exact ⟨trivial, Nat.lt_add_one 2⟩
      · exact ⟨rfl, (by decide : 1 < 3)⟩
  | _ => exact hpc.elim

theorem acquireStep_quiet (file : File) (answer : Answer) (region : Region) {pc : AcquirePc}
    (hpc : holderQuiet (.acquire pc)) :
    (acquireStep file answer transport region pc).2 = (transport, region) ∧
      acquireEffects pc = [] ∧
      match (acquireStep file answer transport region pc).1 with
      | .running pc' =>
          holderQuiet (.acquire pc') ∧ holderLeft (.acquire pc') < holderLeft (.acquire pc)
      | .returned exit => ∃ ret, exit = .failed ret ∧ ret ≠ .ok := by
  cases pc with
  | shuttingDown =>
      refine ⟨rfl, rfl, ?_⟩
      dsimp only [acquireStep]
      rw [if_pos hflag]
      exact ⟨.enodev, rfl, Errno.noConfusion⟩
  | wait previous notification =>
      refine ⟨rfl, rfl, ?_⟩
      dsimp only [acquireStep]
      rw [if_pos (.inl hflag)]
      exact ⟨trivial, Nat.lt_add_one 1⟩
  | awake previous answer =>
      refine ⟨rfl, rfl, ?_⟩
      dsimp only [acquireStep]
      rw [if_pos hflag]
      exact ⟨.enodev, rfl, Errno.noConfusion⟩
  | _ => exact hpc.elim

theorem outsideStep_quiet (answer : Answer) (region : Region) {pc : OutsidePc}
    (hpc : outsideQuiet pc) :
    match Driver.outsideStep answer transport region pc with
    | .running pc' => outsideQuiet pc' ∧ outsideLeft pc' < outsideLeft pc
    | .returned ret => ret ≠ .ok := by
  cases pc with
  | ready ended pc =>
      dsimp only [Driver.outsideStep]
      rw [readyStep_shuttingDown hflag region hpc]
      dsimp only
      rw [if_pos hflag]
      exact Errno.noConfusion
  | asleep => exact ⟨rfl, Nat.lt_add_one 1⟩
  | _ => exact hpc.elim

end Quiet

/-! ## The flag stays set -/

theorem acquireStep_flag (file : File) (answer : Answer) (transport : Transport)
    (region : Region) (pc : AcquirePc) :
    (acquireStep file answer transport region pc).2.1.shuttingDown = transport.shuttingDown := by
  cases pc with
  | quiesceKick previous notification pc =>
      have hkick := (kickStep_frame answer transport pc).shuttingDown
      rcases hout : kickStep answer transport pc with ⟨out, transport'⟩
      rw [hout] at hkick
      simp only [acquireStep, hout]
      cases out <;> exact hkick
  | kick pc =>
      have hkick := (kickStep_frame answer transport pc).shuttingDown
      rcases hout : kickStep answer transport pc with ⟨out, transport'⟩
      rw [hout] at hkick
      simp only [acquireStep, hout]
      cases out <;> exact hkick
  | layoutValid reads => cases reads <;> rfl
  | clear previous quiesce pieces => cases pieces <;> rfl
  | init generation writes =>
      cases writes with
      | nil => rfl
      | cons write writes => cases write <;> rfl
  | _ => rfl

theorem releaseStep_flag (file : File) (transport : Transport) (region : Region)
    (pc : ReleasePc) :
    (releaseStep file transport region pc).2.1.shuttingDown = transport.shuttingDown := by
  cases pc <;> rfl

theorem workStep_flag (answer : Answer) (transport : Transport) (pc : WorkPc) :
    (workStep answer transport pc).2.shuttingDown = transport.shuttingDown := by
  cases pc <;> rfl

/-! ## The invariant -/

/-- The shutdown that holds `shutdown_lock` has come to this place, or one is over. -/
def State.past (n : ℕ) (s : State) : Prop :=
  s.shutdownComplete = true ∨ ∃ pc, s.closing = some pc ∧ n ≤ pc.rank

theorem State.past.mono {s : State} {m n : ℕ} (hle : m ≤ n) (h : s.past n) : s.past m := by
  rcases h with hcomplete | ⟨pc, hpc, hn⟩
  · exact .inl hcomplete
  · exact .inr ⟨pc, hpc, hle.trans hn⟩

/-- What may hold `owner_lock` once a shutdown has had it. -/
def holderLate : HolderPc → Prop
  | .acquire .shuttingDown | .release .owner => True
  | _ => False

structure Inv (s : State) : Prop where
  closers : ∀ pc ∈ s.closers, pc ≠ .setFlag → s.transport.shuttingDown = true
  flag : s.past 0 → s.transport.shuttingDown = true
  returned : s.returned = true → s.shutdownComplete = true
  unlock : s.closing = some .unlock → s.shutdownComplete = true
  second : s.shutdownComplete = true →
    ∀ pc, s.closing = some pc → pc = .testComplete ∨ pc = .unlock
  ownerLock : s.closing.any ClosingPc.holdsOwner = true → s.holder = none
  rxLock : s.closing.any ClosingPc.holdsRx = true → s.rx = none
  txLock : s.closing.any ClosingPc.holdsTx = true → s.tx = none
  holder : s.past 2 → ∀ call, s.holder = some call → holderLate call.pc
  rx : s.past 3 → ∀ call ongoing, s.rx = some (call, ongoing) → rxQuiet ongoing.pc
  tx : s.past 4 → ∀ call ongoing, s.tx = some (call, ongoing) → txQuiet ongoing.pc
  work : s.past 5 → s.work = none ∧ s.transport.kickScheduled = false
  owner : s.past 7 → s.transport.owner = none
  holderBlocked : ∀ call, s.holder = some call → call.blocked = true →
    s.transport.shuttingDown = true ∧ holderQuiet call.pc
  outsideBlocked : ∀ call ∈ s.outside, call.blocked = true →
    s.transport.shuttingDown = true ∧ outsideQuiet call.pc
  rxBlocked : ∀ call ongoing, s.rx = some (call, ongoing) → ongoing.blocked = true →
    s.transport.shuttingDown = true ∧ rxQuiet ongoing.pc
  txBlocked : ∀ call ongoing, s.tx = some (call, ongoing) → ongoing.blocked = true →
    s.transport.shuttingDown = true ∧ txQuiet ongoing.pc
  results : ∀ ret, (true, ret) ∈ s.results → ret ≠ .ok

theorem not_past_initial (region : Region) (n : ℕ) : ¬(State.initial region).past n := by
  rintro (hcomplete | ⟨pc, hpc, -⟩)
  · cases hcomplete
  · cases hpc

theorem inv_initial (region : Region) : Inv (State.initial region) where
  closers := by intro pc hpc; cases hpc
  flag h := absurd h (not_past_initial region 0)
  returned h := h
  unlock h := by cases h
  second h := by cases h
  ownerLock h := by cases h
  rxLock h := by cases h
  txLock h := by cases h
  holder h := absurd h (not_past_initial region 2)
  rx h := absurd h (not_past_initial region 3)
  tx h := absurd h (not_past_initial region 4)
  work h := absurd h (not_past_initial region 5)
  owner h := absurd h (not_past_initial region 7)
  holderBlocked := by intro call hcall; cases hcall
  outsideBlocked := by intro call hcall; cases hcall
  rxBlocked := by intro call ongoing hcall; cases hcall
  txBlocked := by intro call ongoing hcall; cases hcall
  results := by intro ret hret; cases hret

/-- A shutdown that is past its two unlocks and the call that runs since. -/
theorem Inv.past_of_holder {s : State} (hs : Inv s) (hpast : s.past 2) {call : Ongoing HolderPc}
    (hcall : s.holder = some call) : s.past 12 := by
  rcases hpast with hcomplete | ⟨pc, hpc, hrank⟩
  · exact .inl hcomplete
  · right
    refine ⟨pc, hpc, ?_⟩
    by_contra hlt
    have hholds : s.closing.any ClosingPc.holdsOwner = true := by
      rw [hpc]
      exact decide_eq_true ⟨hrank, by omega⟩
    rw [hs.ownerLock hholds] at hcall
    cases hcall

/-- A call that returns an error, or was not blocked. -/
theorem results_append {results : List (Bool × Errno)} {blocked : Bool} {ret : Errno}
    (hs : ∀ ret, (true, ret) ∈ results → ret ≠ .ok) (hret : blocked = true → ret ≠ .ok) :
    ∀ r, (true, r) ∈ results ++ [(blocked, ret)] → r ≠ .ok := by
  intro r hr
  rcases List.mem_append.mp hr with hr | hr
  · exact hs r hr
  · rw [List.mem_singleton, Prod.mk.injEq] at hr
    rw [hr.2]
    exact hret hr.1.symm

/-! ## The steps of the calls -/

theorem Inv.arriveStep {s t : State} (hs : Inv s) {i : ℕ}
    (h : Shutdown.arriveStep s i = some t) : Inv t := by
  unfold Shutdown.arriveStep at h
  split at h
  · cases h
  · rename_i file request pc _
    have hreturn : ∀ ret, ∀ r, (true, r) ∈ s.results ++ [(false, ret)] → r ≠ .ok :=
      fun ret => results_append hs.results Bool.noConfusion
    cases pc with
    | ioctl =>
        dsimp only at h
        split_ifs at h
        · cases h
          exact { hs with results := hreturn .enodev }
        · cases request <;> cases h <;> exact { hs with }
    | shuttingDown =>
        dsimp only at h
        split_ifs at h <;> cases h
        · exact { hs with results := hreturn .eperm }
        · exact { hs with }
    | owner =>
        dsimp only at h
        split_ifs at h
        · cases request <;> cases h <;> exact { hs with }
        · cases h
          exact { hs with results := hreturn .eperm }

/-- A step of a thread that leaves the flag as it is. -/
theorem Inv.access {s : State} (hs : Inv s) {transport : Transport} (region : Region)
    (effects : List Effect) (hflag : transport.shuttingDown = s.transport.shuttingDown)
    (hkick : s.past 5 → transport.kickScheduled = false)
    (howner : s.past 7 → transport.owner = none) :
    Inv { s with transport, region, effects } :=
  { hs with
    closers := fun pc hpc hne => hflag.trans (hs.closers pc hpc hne)
    flag := fun hpast => hflag.trans (hs.flag hpast)
    work := fun hpast => ⟨(hs.work hpast).1, hkick hpast⟩
    owner := howner
    holderBlocked := fun call hcall hblocked =>
      ⟨hflag.trans (hs.holderBlocked call hcall hblocked).1,
        (hs.holderBlocked call hcall hblocked).2⟩
    outsideBlocked := fun call hcall hblocked =>
      ⟨hflag.trans (hs.outsideBlocked call hcall hblocked).1,
        (hs.outsideBlocked call hcall hblocked).2⟩
    rxBlocked := fun call ongoing hcall hblocked =>
      ⟨hflag.trans (hs.rxBlocked call ongoing hcall hblocked).1,
        (hs.rxBlocked call ongoing hcall hblocked).2⟩
    txBlocked := fun call ongoing hcall hblocked =>
      ⟨hflag.trans (hs.txBlocked call ongoing hcall hblocked).1,
        (hs.txBlocked call ongoing hcall hblocked).2⟩ }

theorem Inv.txStep {s t : State} (hs : Inv s) {answer : Answer}
    (h : Shutdown.txStep s answer = some t) : Inv t := by
  unfold Shutdown.txStep at h
  split at h
  · cases h
  · rename_i call file blocked pc htx
    have hframe := (txStep_frame call answer s.transport s.region pc).1
    have hquiet := fun (hflag : s.transport.shuttingDown = true) (hpc : txQuiet pc) =>
      txStep_quiet hflag call answer s.region hpc
    rcases hout : Driver.txStep call answer s.transport s.region pc with ⟨out, transport, region⟩
    rw [hout] at h hframe hquiet
    have hlate : s.past 4 → s.transport.shuttingDown = true ∧ txQuiet pc := fun hpast =>
      ⟨hs.flag (hpast.mono (Nat.zero_le 4)), hs.tx hpast call _ htx⟩
    have hblocked : blocked = true → s.transport.shuttingDown = true ∧ txQuiet pc :=
      hs.txBlocked call _ htx
    have haccess := hs.access region (s.effects ++ txEffects pc)
      hframe.shuttingDown
      (by
        intro hpast
        obtain ⟨hflag, hpc⟩ := hlate (hpast.mono (by omega))
        have hsame : transport = s.transport := congrArg Prod.fst (hquiet hflag hpc).1
        rw [hsame]
        exact (hs.work hpast).2)
      (fun hpast => hframe.owner.trans (hs.owner hpast))
    have hlock : ¬s.closing.any ClosingPc.holdsTx = true := fun hholds => by
      rw [hs.txLock hholds] at htx
      cases htx
    cases out with
    | running pc' =>
        cases h
        exact { haccess with
          txLock := fun hholds => absurd hholds hlock
          tx := by
            intro hpast call' ongoing htx'
            cases htx'
            exact ((hquiet (hlate hpast).1 (hlate hpast).2).2.2).1
          txBlocked := by
            intro call' ongoing htx' hmarked
            cases htx'
            obtain ⟨hflag, hpc⟩ := hblocked hmarked
            exact ⟨hframe.shuttingDown.trans hflag, ((hquiet hflag hpc).2.2).1⟩ }
    | returned ret =>
        cases h
        exact { haccess with
          txLock := fun _ => rfl
          tx := by
            intro _ call' ongoing htx'
            cases htx'
          txBlocked := by
            intro call' ongoing htx'
            cases htx'
          results := results_append hs.results fun hmarked =>
            (hquiet (hblocked hmarked).1 (hblocked hmarked).2).2.2 }

theorem Inv.rxStep {s t : State} (hs : Inv s) {answer : Answer}
    (h : Shutdown.rxStep s answer = some t) : Inv t := by
  unfold Shutdown.rxStep at h
  split at h
  · cases h
  · rename_i call file blocked pc hrx
    have hframe := (rxStep_frame call answer s.transport s.region pc).1
    have hquiet := fun (hflag : s.transport.shuttingDown = true) (hpc : rxQuiet pc) =>
      rxStep_quiet hflag call answer s.region hpc
    rcases hout : Driver.rxStep call answer s.transport s.region pc with ⟨out, transport, region⟩
    rw [hout] at h hframe hquiet
    have hlate : s.past 3 → s.transport.shuttingDown = true ∧ rxQuiet pc := fun hpast =>
      ⟨hs.flag (hpast.mono (Nat.zero_le 3)), hs.rx hpast call _ hrx⟩
    have hblocked : blocked = true → s.transport.shuttingDown = true ∧ rxQuiet pc :=
      hs.rxBlocked call _ hrx
    have haccess := hs.access region (s.effects ++ rxEffects pc)
      hframe.shuttingDown
      (by
        intro hpast
        obtain ⟨hflag, hpc⟩ := hlate (hpast.mono (by omega))
        have hsame : transport = s.transport := congrArg Prod.fst (hquiet hflag hpc).1
        rw [hsame]
        exact (hs.work hpast).2)
      (fun hpast => hframe.owner.trans (hs.owner hpast))
    have hlock : ¬s.closing.any ClosingPc.holdsRx = true := fun hholds => by
      rw [hs.rxLock hholds] at hrx
      cases hrx
    cases out with
    | running pc' =>
        cases h
        exact { haccess with
          rxLock := fun hholds => absurd hholds hlock
          rx := by
            intro hpast call' ongoing hrx'
            cases hrx'
            exact ((hquiet (hlate hpast).1 (hlate hpast).2).2.2).1
          rxBlocked := by
            intro call' ongoing hrx' hmarked
            cases hrx'
            obtain ⟨hflag, hpc⟩ := hblocked hmarked
            exact ⟨hframe.shuttingDown.trans hflag, ((hquiet hflag hpc).2.2).1⟩ }
    | returned ret =>
        cases h
        exact { haccess with
          rxLock := fun _ => rfl
          rx := by
            intro _ call' ongoing hrx'
            cases hrx'
          rxBlocked := by
            intro call' ongoing hrx'
            cases hrx'
          results := results_append hs.results fun hmarked =>
            (hquiet (hblocked hmarked).1 (hblocked hmarked).2).2.2 }

theorem Inv.holderStep {s t : State} (hs : Inv s) {answer : Answer}
    (h : Shutdown.holderStep s answer = some t) : Inv t := by
  unfold Shutdown.holderStep at h
  split at h
  · cases h
  · rename_i file blocked pc hholder
    have hframe := acquireStep_flag file answer s.transport s.region pc
    have hquiet := fun (hflag : s.transport.shuttingDown = true)
      (hpc : holderQuiet (.acquire pc)) => acquireStep_quiet hflag file answer s.region hpc
    rcases hout : acquireStep file answer s.transport s.region pc with ⟨out, transport, region⟩
    rw [hout] at h hframe hquiet
    have hlate : s.past 2 → s.transport.shuttingDown = true ∧ pc = .shuttingDown := by
      intro hpast
      refine ⟨hs.flag (hpast.mono (Nat.zero_le 2)), ?_⟩
      have hpc := hs.holder hpast _ hholder
      cases pc <;> first | rfl | exact hpc.elim
    have hblocked : blocked = true →
        s.transport.shuttingDown = true ∧ holderQuiet (.acquire pc) :=
      hs.holderBlocked _ hholder
    have hsame : s.past 2 → transport = s.transport := by
      intro hpast
      obtain ⟨hflag, rfl⟩ := hlate hpast
      exact congrArg Prod.fst (hquiet hflag trivial).1
    have haccess := hs.access region (s.effects ++ acquireEffects pc)
      hframe
      (by
        intro hpast
        rw [hsame (hpast.mono (by omega))]
        exact (hs.work hpast).2)
      (by
        intro hpast
        rw [hsame (hpast.mono (by omega))]
        exact hs.owner hpast)
    have hlock : ¬s.closing.any ClosingPc.holdsOwner = true := fun hholds => by
      rw [hs.ownerLock hholds] at hholder
      cases hholder
    have hnone : Inv { s with
        transport, region, effects := s.effects ++ acquireEffects pc, holder := none } :=
      { haccess with
        ownerLock := fun _ => rfl
        holder := by
          intro _ call hcall
          cases hcall
        holderBlocked := by
          intro call hcall
          cases hcall }
    cases out with
    | running pc' =>
        cases h
        exact { haccess with
          ownerLock := fun hholds => absurd hholds hlock
          holder := by
            intro hpast
            obtain ⟨hflag, rfl⟩ := hlate hpast
            dsimp only [acquireStep] at hout
            rw [if_pos hflag] at hout
            cases hout
          holderBlocked := by
            intro call hcall hmarked
            cases hcall
            obtain ⟨hflag, hpc⟩ := hblocked hmarked
            exact ⟨hframe.trans hflag, ((hquiet hflag hpc).2.2).1⟩ }
    | returned exit =>
        have hexit : blocked = true → ∃ ret, exit = .failed ret ∧ ret ≠ .ok := fun hmarked =>
          (hquiet (hblocked hmarked).1 (hblocked hmarked).2).2.2
        cases exit with
        | failed ret =>
            cases h
            refine { hnone with results := results_append hs.results ?_ }
            intro hmarked
            obtain ⟨ret', heq, hne⟩ := hexit hmarked
            cases heq
            exact hne
        | release ret =>
            cases h
            refine { hnone with
              outsideBlocked := ?_
              results := results_append hs.results ?_ }
            · intro call hcall hmarked
              rcases List.mem_append.mp hcall with hcall | hcall
              · exact hnone.outsideBlocked call hcall hmarked
              · rw [List.mem_singleton.mp hcall] at hmarked
                cases hmarked
            · intro hmarked
              obtain ⟨ret', heq, -⟩ := hexit hmarked
              cases heq
        | ready =>
            cases h
            refine { hnone with outsideBlocked := ?_ }
            intro call hcall hmarked
            rcases List.mem_append.mp hcall with hcall | hcall
            · exact hnone.outsideBlocked call hcall hmarked
            · rw [List.mem_singleton.mp hcall] at hmarked
              obtain ⟨ret', heq, -⟩ := hexit hmarked
              cases heq
  · rename_i file blocked pc hholder
    have hflag := releaseStep_flag file s.transport s.region pc
    have hlate : s.past 2 → pc = .owner ∧ s.transport.owner = none := by
      intro hpast
      refine ⟨?_, hs.owner ((hs.past_of_holder hpast hholder).mono (by omega))⟩
      have hpc := hs.holder hpast _ hholder
      cases pc <;> first | rfl | exact hpc.elim
    have hreturn : s.past 2 →
        releaseStep file s.transport s.region pc = (.returned (), s.transport, s.region) := by
      intro hpast
      obtain ⟨rfl, howner⟩ := hlate hpast
      unfold releaseStep
      rw [howner]
      rfl
    rcases hout : releaseStep file s.transport s.region pc with ⟨out, transport, region⟩
    rw [hout] at h hflag hreturn
    have haccess := hs.access region (s.effects ++ releaseEffects pc) hflag
      (by
        intro hpast
        cases hreturn (hpast.mono (by omega))
        exact (hs.work hpast).2)
      (by
        intro hpast
        cases hreturn (hpast.mono (by omega))
        exact hs.owner hpast)
    have hmarked : blocked = false := by
      by_contra hblocked
      rw [Bool.not_eq_false] at hblocked
      exact (hs.holderBlocked _ hholder hblocked).2.elim
    cases h
    exact { haccess with
      ownerLock := by
        intro hholds
        rw [hs.ownerLock hholds] at hholder
        cases hholder
      holder := by
        intro hpast call hcall
        cases hreturn hpast
        cases hcall
      holderBlocked := by
        intro call hcall hblocked
        obtain ⟨pc', -, rfl⟩ := Option.map_eq_some_iff.mp hcall
        rw [hmarked] at hblocked
        cases hblocked }

theorem Inv.outsideStep {s t : State} (hs : Inv s) {i : ℕ} {answer : Answer}
    (h : Shutdown.outsideStep s i answer = some t) : Inv t := by
  have herase : ∀ call ∈ s.outside.eraseIdx i, call.blocked = true →
      s.transport.shuttingDown = true ∧ outsideQuiet call.pc := fun call hcall =>
    hs.outsideBlocked call (List.mem_of_mem_eraseIdx hcall)
  unfold Shutdown.outsideStep at h
  split at h
  · cases h
  · rename_i file blocked hi
    split_ifs at h with hfree
    cases h
    have hclosing : ¬s.closing.any ClosingPc.holdsOwner = true := by
      unfold State.ownerFree at hfree
      rw [Bool.and_eq_true, Bool.not_eq_true'] at hfree
      rw [hfree.2]
      exact Bool.false_ne_true
    exact { hs with
      ownerLock := fun hholds => absurd hholds hclosing
      holder := by
        intro _ call hcall
        cases hcall
        trivial
      holderBlocked := by
        intro call hcall hmarked
        cases hcall
        cases hmarked
      outsideBlocked := herase }
  · rename_i file blocked pc hrelease hi
    have hmem := List.mem_of_getElem? hi
    have hquiet := fun hmarked : blocked = true =>
      outsideStep_quiet (hs.outsideBlocked _ hmem hmarked).1 answer s.region
        (hs.outsideBlocked _ hmem hmarked).2
    have hset : ∀ call : Ongoing OutsidePc,
        (call.blocked = true → s.transport.shuttingDown = true ∧ outsideQuiet call.pc) →
        ∀ c ∈ s.outside.set i call, c.blocked = true →
          s.transport.shuttingDown = true ∧ outsideQuiet c.pc := by
      intro call hcall c hc hmarked
      rcases List.mem_or_eq_of_mem_set hc with hc | rfl
      · exact hs.outsideBlocked c hc hmarked
      · exact hcall hmarked
    split at h
    · rename_i hout
      rw [hout] at hquiet
      cases h
      exact { hs with
        outsideBlocked := hset _ Bool.noConfusion
        results := results_append hs.results fun hmarked => ((hquiet hmarked).1).elim }
    · rename_i pc' _ hout
      rw [hout] at hquiet
      cases h
      exact { hs with
        outsideBlocked := hset _ fun hmarked =>
          ⟨(hs.outsideBlocked _ hmem hmarked).1, (hquiet hmarked).1⟩ }
    · rename_i ret hout
      rw [hout] at hquiet
      cases h
      exact { hs with
        outsideBlocked := herase
        results := results_append hs.results hquiet }

/-! ## The shutdown itself -/

theorem mark_eq {κ : Type} {waits : κ → Bool} {call : Option (Ongoing κ)} {marked : Ongoing κ}
    (h : call.map (Ongoing.mark waits) = some marked) :
    ∃ before, call = some before ∧ marked.pc = before.pc ∧
      (marked.blocked = true → before.blocked = true ∨ waits before.pc = true) := by
  obtain ⟨before, hcall, rfl⟩ := Option.map_eq_some_iff.mp h
  exact ⟨before, hcall, rfl, fun hmarked => Bool.or_eq_true_iff.mp hmarked⟩

theorem mark_pair_eq {κ γ : Type} {waits : κ → Bool} {call : Option (γ × Ongoing κ)} {arg : γ}
    {marked : Ongoing κ}
    (h : call.map (fun (arg, call) => (arg, call.mark waits)) = some (arg, marked)) :
    ∃ before, call = some (arg, before) ∧ marked.pc = before.pc ∧
      (marked.blocked = true → before.blocked = true ∨ waits before.pc = true) := by
  obtain ⟨⟨arg', before⟩, hcall, heq⟩ := Option.map_eq_some_iff.mp h
  cases heq
  exact ⟨before, hcall, rfl, fun hmarked => Bool.or_eq_true_iff.mp hmarked⟩

theorem holderQuiet_of_waits {pc : HolderPc} (h : holderWaits pc = true) : holderQuiet pc := by
  cases pc with
  | acquire pc => cases pc <;> trivial
  | release pc => cases h

theorem outsideQuiet_of_waits {pc : OutsidePc} (h : outsideWaits pc = true) :
    outsideQuiet pc := by
  cases pc <;> trivial

theorem txQuiet_of_waits {pc : TxPc} (h : txWaits pc = true) : txQuiet pc := by
  cases pc <;> trivial

theorem rxQuiet_of_waits {pc : RxPc} (h : rxWaits pc = true) : rxQuiet pc := by
  cases pc <;> trivial

theorem Inv.setFlag {s : State} (hs : Inv s) : Inv s.setFlag where
  closers _ _ _ := rfl
  flag _ := rfl
  returned := hs.returned
  unlock := hs.unlock
  second := hs.second
  ownerLock hholds := by
    change s.holder.map _ = none
    rw [hs.ownerLock hholds]
    rfl
  rxLock hholds := by
    change s.rx.map _ = none
    rw [hs.rxLock hholds]
    rfl
  txLock hholds := by
    change s.tx.map _ = none
    rw [hs.txLock hholds]
    rfl
  holder hpast call hcall := by
    obtain ⟨before, hbefore, hpc, -⟩ := mark_eq hcall
    rw [hpc]
    exact hs.holder hpast before hbefore
  rx hpast call ongoing hcall := by
    obtain ⟨before, hbefore, hpc, -⟩ := mark_pair_eq hcall
    rw [hpc]
    exact hs.rx hpast call before hbefore
  tx hpast call ongoing hcall := by
    obtain ⟨before, hbefore, hpc, -⟩ := mark_pair_eq hcall
    rw [hpc]
    exact hs.tx hpast call before hbefore
  work := hs.work
  owner := hs.owner
  holderBlocked call hcall hmarked := by
    obtain ⟨before, hbefore, hpc, hblocked⟩ := mark_eq hcall
    rw [hpc]
    rcases hblocked hmarked with hblocked | hwaits
    · exact ⟨rfl, (hs.holderBlocked before hbefore hblocked).2⟩
    · exact ⟨rfl, holderQuiet_of_waits hwaits⟩
  outsideBlocked call hcall hmarked := by
    obtain ⟨before, hbefore, rfl⟩ := List.mem_map.mp hcall
    rcases Bool.or_eq_true_iff.mp hmarked with hblocked | hwaits
    · exact ⟨rfl, (hs.outsideBlocked before hbefore hblocked).2⟩
    · exact ⟨rfl, outsideQuiet_of_waits hwaits⟩
  rxBlocked call ongoing hcall hmarked := by
    obtain ⟨before, hbefore, hpc, hblocked⟩ := mark_pair_eq hcall
    rw [hpc]
    rcases hblocked hmarked with hblocked | hwaits
    · exact ⟨rfl, (hs.rxBlocked call before hbefore hblocked).2⟩
    · exact ⟨rfl, rxQuiet_of_waits hwaits⟩
  txBlocked call ongoing hcall hmarked := by
    obtain ⟨before, hbefore, hpc, hblocked⟩ := mark_pair_eq hcall
    rw [hpc]
    rcases hblocked hmarked with hblocked | hwaits
    · exact ⟨rfl, (hs.txBlocked call before hbefore hblocked).2⟩
    · exact ⟨rfl, txQuiet_of_waits hwaits⟩
  results := hs.results

theorem Inv.closerStep {s t : State} (hs : Inv s) {i : ℕ}
    (h : Shutdown.closerStep s i = some t) : Inv t := by
  unfold Shutdown.closerStep at h
  split at h
  · cases h
  · cases h
    exact { hs.setFlag with closers := fun _ _ _ => rfl }
  · rename_i hi
    have hflag := hs.closers _ (List.mem_of_getElem? hi) CloserPc.noConfusion
    cases h
    exact { hs with closers := fun _ _ _ => hflag }
  · rename_i hi
    have hflag := hs.closers _ (List.mem_of_getElem? hi) CloserPc.noConfusion
    split at h
    · rename_i hclosing
      cases h
      have hpast : ∀ n, (n = 0 → False) →
          State.past n { s with
            closers := s.closers.eraseIdx i, closing := some .testComplete } → s.past n := by
        rintro n hn (hcomplete | ⟨pc, hpc, hrank⟩)
        · exact .inl hcomplete
        · cases hpc
          exact (hn (Nat.le_zero.mp hrank)).elim
      exact { hs with
        closers := fun _ _ _ => hflag
        flag := fun _ => hflag
        unlock := by intro heq; cases heq
        second := by
          intro _ pc hpc
          cases hpc
          exact .inl rfl
        ownerLock := by intro hholds; cases hholds
        rxLock := by intro hholds; cases hholds
        txLock := by intro hholds; cases hholds
        holder := fun h => hs.holder (hpast 2 (by decide) h)
        rx := fun h => hs.rx (hpast 3 (by decide) h)
        tx := fun h => hs.tx (hpast 4 (by decide) h)
        work := fun h => hs.work (hpast 5 (by decide) h)
        owner := fun h => hs.owner (hpast 7 (by decide) h) }
    · cases h

/-- The shutdown goes on to its next place. -/
theorem Inv.advance {s : State} (hs : Inv s) {pc pc' : ClosingPc} (hclosing : s.closing = some pc)
    (hcomplete : s.shutdownComplete = false) (hrank : pc'.rank = pc.rank + 1)
    (hunlock : pc' ≠ .unlock)
    (howner : pc'.holdsOwner = false ∨ pc.holdsOwner = true ∨ s.holder = none)
    (hrx : pc'.holdsRx = false ∨ pc.holdsRx = true ∨ s.rx = none)
    (htx : pc'.holdsTx = false ∨ pc.holdsTx = true ∨ s.tx = none)
    (hwork : pc'.rank ≠ 5 ∨ s.work = none ∧ s.transport.kickScheduled = false)
    (hcleared : pc'.rank ≠ 7 ∨ s.transport.owner = none) :
    Inv { s with closing := some pc' } := by
  have hpast : ∀ {n}, State.past n { s with closing := some pc' } → s.past n ∨ n = pc'.rank := by
    rintro n (hcomplete' | ⟨_, hpc, hn⟩)
    · rw [hcomplete] at hcomplete'
      cases hcomplete'
    · cases hpc
      by_cases hle : n ≤ pc.rank
      · exact .inl (.inr ⟨pc, hclosing, hle⟩)
      · exact .inr (by omega)
  have hany : ∀ holds : ClosingPc → Bool, holds pc = true → s.closing.any holds = true := by
    intro holds hholds
    rw [hclosing]
    exact hholds
  have hownerLock : pc'.holdsOwner = true → s.holder = none := by
    intro hholds
    rcases howner with hfree | hbefore | hnone
    · rw [hfree] at hholds
      cases hholds
    · exact hs.ownerLock (hany _ hbefore)
    · exact hnone
  have hrxLock : pc'.holdsRx = true → s.rx = none := by
    intro hholds
    rcases hrx with hfree | hbefore | hnone
    · rw [hfree] at hholds
      cases hholds
    · exact hs.rxLock (hany _ hbefore)
    · exact hnone
  have htxLock : pc'.holdsTx = true → s.tx = none := by
    intro hholds
    rcases htx with hfree | hbefore | hnone
    · rw [hfree] at hholds
      cases hholds
    · exact hs.txLock (hany _ hbefore)
    · exact hnone
  refine { hs with
    flag := fun _ => hs.flag (.inr ⟨pc, hclosing, Nat.zero_le _⟩)
    unlock := fun heq => absurd (Option.some.inj heq) hunlock
    second := fun hdone => absurd hdone (by rw [hcomplete]; exact Bool.false_ne_true)
    ownerLock := hownerLock
    rxLock := hrxLock
    txLock := htxLock
    holder := ?_
    rx := ?_
    tx := ?_
    work := fun h => (hpast h).elim hs.work fun heq => hwork.resolve_left (· heq.symm)
    owner := fun h => (hpast h).elim hs.owner fun heq => hcleared.resolve_left (· heq.symm) }
  · intro h call hcall
    rcases hpast h with hbefore | heq
    · exact hs.holder hbefore call hcall
    · rw [hownerLock (decide_eq_true (by omega))] at hcall
      cases hcall
  · intro h call ongoing hcall
    rcases hpast h with hbefore | heq
    · exact hs.rx hbefore call ongoing hcall
    · rw [hrxLock (decide_eq_true (by omega))] at hcall
      cases hcall
  · intro h call ongoing hcall
    rcases hpast h with hbefore | heq
    · exact hs.tx hbefore call ongoing hcall
    · rw [htxLock (decide_eq_true (by omega))] at hcall
      cases hcall

theorem Inv.closingStep {s t : State} (hs : Inv s) (h : Shutdown.closingStep s = some t) :
    Inv t := by
  unfold Shutdown.closingStep at h
  split at h
  · cases h
  · rename_i pc hclosing
    have hcomplete : pc ≠ .testComplete → pc ≠ .unlock → s.shutdownComplete = false := by
      intro htest hunlock
      by_contra hdone
      rw [Bool.not_eq_false] at hdone
      exact (hs.second hdone pc hclosing).elim htest hunlock
    have hsame := hs.access s.region (s.effects ++ closingEffects pc) rfl
      (fun hpast => (hs.work hpast).2) hs.owner
    cases pc with
    | testComplete =>
        dsimp only at h
        split_ifs at h with hdone <;> cases h
        · exact { hsame with
            flag := fun _ => hs.flag (.inl hdone)
            unlock := fun _ => hdone
            second := by
              intro _ pc hpc
              cases hpc
              exact .inr rfl
            ownerLock := by intro hholds; cases hholds
            rxLock := by intro hholds; cases hholds
            txLock := by intro hholds; cases hholds
            holder := fun _ => hs.holder (.inl hdone)
            rx := fun _ => hs.rx (.inl hdone)
            tx := fun _ => hs.tx (.inl hdone)
            work := fun _ => hs.work (.inl hdone)
            owner := fun _ => hs.owner (.inl hdone) }
        · rw [Bool.not_eq_true] at hdone
          exact hsame.advance hclosing hdone rfl ClosingPc.noConfusion (.inl rfl) (.inl rfl)
            (.inl rfl) (.inl (by decide)) (.inl (by decide))
    | lockOwner =>
        have hdone := hcomplete ClosingPc.noConfusion ClosingPc.noConfusion
        dsimp only at h
        split_ifs at h with hfree
        cases h
        exact hsame.advance hclosing hdone rfl ClosingPc.noConfusion
          (.inr (.inr (Option.isNone_iff_eq_none.mp hfree))) (.inl rfl) (.inl rfl)
          (.inl (by decide)) (.inl (by decide))
    | lockRx =>
        have hdone := hcomplete ClosingPc.noConfusion ClosingPc.noConfusion
        dsimp only at h
        split_ifs at h with hfree
        cases h
        exact hsame.advance hclosing hdone rfl ClosingPc.noConfusion (.inr (.inl rfl))
          (.inr (.inr (Option.isNone_iff_eq_none.mp hfree))) (.inl rfl) (.inl (by decide))
          (.inl (by decide))
    | lockTx =>
        have hdone := hcomplete ClosingPc.noConfusion ClosingPc.noConfusion
        dsimp only at h
        split_ifs at h with hfree
        cases h
        exact hsame.advance hclosing hdone rfl ClosingPc.noConfusion (.inr (.inl rfl))
          (.inr (.inl rfl)) (.inr (.inr (Option.isNone_iff_eq_none.mp hfree))) (.inl (by decide))
          (.inl (by decide))
    | cancelWork =>
        have hdone := hcomplete ClosingPc.noConfusion ClosingPc.noConfusion
        dsimp only at h
        split_ifs at h with hidle
        cases h
        have hcancelled := @Inv.access s hs { s.transport with kickScheduled := false } s.region
          (s.effects ++ closingEffects .cancelWork) rfl (fun _ => rfl) hs.owner
        exact hcancelled.advance hclosing hdone rfl ClosingPc.noConfusion (.inr (.inl rfl))
          (.inr (.inl rfl)) (.inr (.inl rfl)) (.inr ⟨Option.isNone_iff_eq_none.mp hidle, rfl⟩)
          (.inl (by decide))
    | offline =>
        have hdone := hcomplete ClosingPc.noConfusion ClosingPc.noConfusion
        cases h
        have hoffline := hs.access
          { s.region with linuxPeer := { s.region.linuxPeer with state := stateOffline } }
          (s.effects ++ closingEffects .offline) rfl (fun hpast => (hs.work hpast).2) hs.owner
        exact hoffline.advance hclosing hdone rfl ClosingPc.noConfusion (.inr (.inl rfl))
          (.inr (.inl rfl)) (.inr (.inl rfl)) (.inl (by decide)) (.inl (by decide))
    | clearOwner =>
        have hdone := hcomplete ClosingPc.noConfusion ClosingPc.noConfusion
        cases h
        have hcleared := @Inv.access s hs { s.transport with owner := none } s.region
          (s.effects ++ closingEffects .clearOwner) rfl (fun hpast => (hs.work hpast).2)
          (fun _ => rfl)
        exact hcleared.advance hclosing hdone rfl ClosingPc.noConfusion (.inr (.inl rfl))
          (.inr (.inl rfl)) (.inr (.inl rfl)) (.inl (by decide)) (.inr rfl)
    | clearGeneration =>
        have hdone := hcomplete ClosingPc.noConfusion ClosingPc.noConfusion
        cases h
        have hcleared := @Inv.access s hs { s.transport with generation := 0#32 } s.region
          (s.effects ++ closingEffects .clearGeneration) rfl (fun hpast => (hs.work hpast).2)
          hs.owner
        exact hcleared.advance hclosing hdone rfl ClosingPc.noConfusion (.inr (.inl rfl))
          (.inr (.inl rfl)) (.inr (.inl rfl)) (.inl (by decide)) (.inl (by decide))
    | wake =>
        have hdone := hcomplete ClosingPc.noConfusion ClosingPc.noConfusion
        cases h
        exact hsame.advance hclosing hdone rfl ClosingPc.noConfusion (.inr (.inl rfl))
          (.inr (.inl rfl)) (.inr (.inl rfl)) (.inl (by decide)) (.inl (by decide))
    | unlockTx =>
        have hdone := hcomplete ClosingPc.noConfusion ClosingPc.noConfusion
        cases h
        exact hsame.advance hclosing hdone rfl ClosingPc.noConfusion (.inr (.inl rfl))
          (.inr (.inl rfl)) (.inl rfl) (.inl (by decide)) (.inl (by decide))
    | unlockRx =>
        have hdone := hcomplete ClosingPc.noConfusion ClosingPc.noConfusion
        cases h
        exact hsame.advance hclosing hdone rfl ClosingPc.noConfusion (.inr (.inl rfl)) (.inl rfl)
          (.inl rfl) (.inl (by decide)) (.inl (by decide))
    | unlockOwner =>
        have hdone := hcomplete ClosingPc.noConfusion ClosingPc.noConfusion
        cases h
        exact hsame.advance hclosing hdone rfl ClosingPc.noConfusion (.inl rfl) (.inl rfl)
          (.inl rfl) (.inl (by decide)) (.inl (by decide))
    | setComplete =>
        have hpast : s.past 12 := .inr ⟨_, hclosing, Nat.le_refl 12⟩
        cases h
        exact { hsame with
          flag := fun _ => hs.flag (hpast.mono (by decide))
          returned := fun _ => rfl
          unlock := fun _ => rfl
          second := by
            intro _ pc hpc
            cases hpc
            exact .inr rfl
          ownerLock := by intro hholds; cases hholds
          rxLock := by intro hholds; cases hholds
          txLock := by intro hholds; cases hholds
          holder := fun _ => hs.holder (hpast.mono (by decide))
          rx := fun _ => hs.rx (hpast.mono (by decide))
          tx := fun _ => hs.tx (hpast.mono (by decide))
          work := fun _ => hs.work (hpast.mono (by decide))
          owner := fun _ => hs.owner (hpast.mono (by decide)) }
    | unlock =>
        have hdone := hs.unlock hclosing
        cases h
        exact { hsame with
          flag := fun _ => hs.flag (.inl hdone)
          returned := fun _ => hdone
          unlock := by intro heq; cases heq
          second := by intro _ pc hpc; cases hpc
          ownerLock := by intro hholds; cases hholds
          rxLock := by intro hholds; cases hholds
          txLock := by intro hholds; cases hholds
          holder := fun _ => hs.holder (.inl hdone)
          rx := fun _ => hs.rx (.inl hdone)
          tx := fun _ => hs.tx (.inl hdone)
          work := fun _ => hs.work (.inl hdone)
          owner := fun _ => hs.owner (.inl hdone) }

/-! ## The locks -/

theorem not_holds_of_free {closing : Option ClosingPc} {free : Bool} {holds : ClosingPc → Bool}
    (h : (free && !closing.any holds) = true) : ¬closing.any holds = true := by
  rw [Bool.and_eq_true, Bool.not_eq_true'] at h
  rw [h.2]
  exact Bool.false_ne_true

theorem txQuiet_of_enter {call : TxCall} {pc : TxPc} (h : call.enter = .running pc) :
    txQuiet pc := by
  rw [(TxCall.accepted_of_enter h).2]
  unfold TxCall.loop
  split_ifs
  · trivial
  · rfl

theorem rxQuiet_of_enter {call : RxCall} {pc : RxPc} (h : call.enter = .running pc) :
    rxQuiet pc := by
  rw [(RxCall.accepted_of_enter h).2]
  unfold RxCall.loop
  split_ifs
  · trivial
  · rfl

theorem TxCall.enter_ne_ok {call : TxCall} {ret : Errno} (h : call.enter = .returned ret) :
    ret ≠ .ok := by
  unfold Driver.TxCall.enter at h
  split_ifs at h <;> cases h <;> exact Errno.noConfusion

theorem RxCall.enter_ne_ok {call : RxCall} {ret : Errno} (h : call.enter = .returned ret) :
    ret ≠ .ok := by
  unfold Driver.RxCall.enter at h
  split_ifs at h
  cases h
  exact Errno.noConfusion

theorem Inv.lockTx {s t : State} (hs : Inv s) {i : ℕ}
    (h : Shutdown.step (.lockTx i) s = some t) : Inv t := by
  simp only [Shutdown.step] at h
  split at h
  · cases h
  · rename_i file call _
    split_ifs at h with hfree
    have hlock := not_holds_of_free hfree
    split at h
    · rename_i pc henter
      cases h
      have hquiet := txQuiet_of_enter henter
      exact { hs with
        txLock := fun hholds => absurd hholds hlock
        tx := by
          intro _ call' ongoing htx
          cases htx
          exact hquiet
        txBlocked := by
          intro call' ongoing htx hblocked
          cases htx
          exact ⟨hblocked, hquiet⟩ }
    · rename_i ret henter
      cases h
      exact { hs with
        results := results_append hs.results fun _ => TxCall.enter_ne_ok henter }

theorem Inv.lockRx {s t : State} (hs : Inv s) {i : ℕ}
    (h : Shutdown.step (.lockRx i) s = some t) : Inv t := by
  simp only [Shutdown.step] at h
  split at h
  · cases h
  · rename_i file call _
    split_ifs at h with hfree
    have hlock := not_holds_of_free hfree
    split at h
    · rename_i pc henter
      cases h
      have hquiet := rxQuiet_of_enter henter
      exact { hs with
        rxLock := fun hholds => absurd hholds hlock
        rx := by
          intro _ call' ongoing hrx
          cases hrx
          exact hquiet
        rxBlocked := by
          intro call' ongoing hrx hblocked
          cases hrx
          exact ⟨hblocked, hquiet⟩ }
    · rename_i ret henter
      cases h
      exact { hs with
        results := results_append hs.results fun _ => RxCall.enter_ne_ok henter }

theorem Inv.lockOwner {s t : State} (hs : Inv s) {i : ℕ}
    (h : Shutdown.step (.lockOwner i) s = some t) : Inv t := by
  simp only [Shutdown.step] at h
  split at h
  · cases h
  · split_ifs at h with hfree
    have hlock := not_holds_of_free hfree
    cases h
    exact { hs with
      ownerLock := fun hholds => absurd hholds hlock
      holder := by
        intro _ call hcall
        cases hcall
        trivial
      holderBlocked := by
        intro call hcall hblocked
        cases hcall
        exact ⟨hblocked, trivial⟩ }

/-- A signal ends the wait for a lock. -/
theorem Inv.leave {s : State} (hs : Inv s) (blocked : Bool) :
    Inv (State.return s blocked .erestartsys) :=
  { hs with results := results_append hs.results fun _ => Errno.noConfusion }

/-! ## Every step -/

theorem Inv.workStep {s t : State} (hs : Inv s) {answer : Answer}
    (h : Shutdown.step (.work answer) s = some t) : Inv t := by
  simp only [Shutdown.step] at h
  split at h
  · cases h
  · rename_i pc hwork
    have hlate : ¬s.past 5 := by
      intro hpast
      rw [(hs.work hpast).1] at hwork
      cases hwork
    have haccess := hs.access s.region (s.effects ++ workEffects pc)
      (workStep_flag answer s.transport pc) (fun hpast => absurd hpast hlate)
      (fun hpast => absurd (hpast.mono (by decide)) hlate)
    cases h
    exact { haccess with work := fun hpast => absurd hpast hlate }

theorem Inv.step {s t : State} {l : Label} (hs : Inv s) (h : Shutdown.step l s = some t) :
    Inv t := by
  cases l with
  | call file request =>
      cases h
      exact { hs with }
  | arrive i => exact hs.arriveStep h
  | leaveOwner i =>
      simp only [Shutdown.step] at h
      split at h <;> cases h
      exact { hs.leave s.transport.shuttingDown with }
  | lockOwner i => exact hs.lockOwner h
  | holder answer => exact hs.holderStep h
  | close file =>
      cases h
      refine { hs with outsideBlocked := ?_ }
      intro call hcall hblocked
      rcases List.mem_append.mp hcall with hcall | hcall
      · exact hs.outsideBlocked call hcall hblocked
      · rw [List.mem_singleton.mp hcall] at hblocked
        cases hblocked
  | outside i answer => exact hs.outsideStep h
  | leaveTx i =>
      simp only [Shutdown.step] at h
      split at h <;> cases h
      exact { hs.leave s.transport.shuttingDown with }
  | lockTx i => exact hs.lockTx h
  | tx answer => exact hs.txStep h
  | leaveRx i =>
      simp only [Shutdown.step] at h
      split at h <;> cases h
      exact { hs.leave s.transport.shuttingDown with }
  | lockRx i => exact hs.lockRx h
  | rx answer => exact hs.rxStep h
  | pollCall file =>
      cases h
      exact { hs with }
  | poll i =>
      simp only [Shutdown.step] at h
      split at h
      · cases h
      · split at h <;> cases h <;> exact { hs with }
  | runWork =>
      simp only [Shutdown.step] at h
      split_ifs at h with hscheduled
      have hlate : ¬s.past 5 := by
        intro hpast
        rw [(hs.work hpast).2] at hscheduled
        cases hscheduled.1
      cases h
      have haccess := @Inv.access s hs { s.transport with kickScheduled := false } s.region
        s.effects rfl (fun _ => rfl) hs.owner
      exact { haccess with work := fun hpast => absurd hpast hlate }
  | work answer => exact hs.workStep h
  | shutdown =>
      cases h
      refine { hs with closers := ?_ }
      intro pc hpc hne
      rcases List.mem_append.mp hpc with hpc | hpc
      · exact hs.closers pc hpc hne
      · exact absurd (List.mem_singleton.mp hpc) hne
  | closer i => exact hs.closerStep h
  | closing => exact hs.closingStep h
  | notify =>
      simp only [Shutdown.step] at h
      split_ifs at h <;> cases h
      · exact hs
      · exact @Inv.access s hs
          { s.transport with notifications := s.transport.notifications + 1#32 } s.region
          s.effects rfl (fun hpast => (hs.work hpast).2) hs.owner
  | firmware region =>
      cases h
      exact { hs with }

theorem inv_of_reachable {s : State} (h : Reachable system s) : Inv s := by
  apply h.invariant
  · rintro s ⟨region, rfl⟩
    exact inv_initial region
  · intro s t l hs hstep
    exact hs.step hstep

/-! ## After a shutdown -/

section Complete

variable {s t : State} (hs : Inv s) (hdone : s.shutdownComplete = true)
include hs hdone

theorem Inv.holderStep_still {answer : Answer} (h : Shutdown.holderStep s answer = some t) :
    Still s t ∧ t.region = s.region := by
  have hflag := hs.flag (.inl hdone)
  unfold Shutdown.holderStep at h
  split at h
  · cases h
  · rename_i file blocked pc hholder
    obtain rfl : pc = .shuttingDown := by
      have hpc := hs.holder (.inl hdone) _ hholder
      cases pc <;> first | rfl | exact hpc.elim
    dsimp only [acquireStep] at h
    rw [if_pos hflag] at h
    cases h
    exact ⟨⟨List.append_nil _, rfl, rfl, rfl⟩, rfl⟩
  · rename_i file blocked pc hholder
    obtain rfl : pc = .owner := by
      have hpc := hs.holder (.inl hdone) _ hholder
      cases pc <;> first | rfl | exact hpc.elim
    cases h
    exact ⟨⟨List.append_nil _, rfl, rfl, rfl⟩, rfl⟩

theorem Inv.txStep_still {answer : Answer} (h : Shutdown.txStep s answer = some t) :
    Still s t ∧ t.region = s.region := by
  unfold Shutdown.txStep at h
  split at h
  · cases h
  · rename_i call file blocked pc htx
    obtain ⟨hsame, heffects, -⟩ := txStep_quiet (hs.flag (.inl hdone)) call answer s.region
      (hs.tx (.inl hdone) call _ htx)
    rcases hout : Driver.txStep call answer s.transport s.region pc with ⟨out, transport, region⟩
    rw [hout] at h hsame
    cases hsame
    dsimp only at heffects h
    rw [heffects, List.append_nil] at h
    cases out <;> cases h <;> exact ⟨⟨rfl, rfl, rfl, rfl⟩, rfl⟩

theorem Inv.rxStep_still {answer : Answer} (h : Shutdown.rxStep s answer = some t) :
    Still s t ∧ t.region = s.region := by
  unfold Shutdown.rxStep at h
  split at h
  · cases h
  · rename_i call file blocked pc hrx
    obtain ⟨hsame, heffects, -⟩ := rxStep_quiet (hs.flag (.inl hdone)) call answer s.region
      (hs.rx (.inl hdone) call _ hrx)
    rcases hout : Driver.rxStep call answer s.transport s.region pc with ⟨out, transport, region⟩
    rw [hout] at h hsame
    cases hsame
    dsimp only at heffects h
    rw [heffects, List.append_nil] at h
    cases out <;> cases h <;> exact ⟨⟨rfl, rfl, rfl, rfl⟩, rfl⟩

theorem Inv.closingStep_still (h : Shutdown.closingStep s = some t) :
    Still s t ∧ t.region = s.region := by
  unfold Shutdown.closingStep at h
  split at h
  · cases h
  · rename_i pc hclosing
    rcases hs.second hdone pc hclosing with rfl | rfl
    · cases h
      exact ⟨⟨List.append_nil _, rfl, rfl, rfl⟩, rfl⟩
    · cases h
      exact ⟨⟨List.append_nil _, rfl, rfl, rfl⟩, rfl⟩

end Complete

theorem arriveStep_still {s t : State} {i : ℕ} (h : arriveStep s i = some t) :
    Still s t ∧ t.region = s.region := by
  unfold arriveStep at h
  split at h
  · cases h
  · rename_i file request pc _
    cases pc with
    | ioctl =>
        dsimp only at h
        split_ifs at h
        · cases h
          exact ⟨⟨rfl, rfl, rfl, rfl⟩, rfl⟩
        · cases request <;> cases h <;> exact ⟨⟨rfl, rfl, rfl, rfl⟩, rfl⟩
    | shuttingDown =>
        dsimp only at h
        split_ifs at h <;> cases h <;> exact ⟨⟨rfl, rfl, rfl, rfl⟩, rfl⟩
    | owner =>
        dsimp only at h
        split_ifs at h
        · cases request <;> cases h <;> exact ⟨⟨rfl, rfl, rfl, rfl⟩, rfl⟩
        · cases h
          exact ⟨⟨rfl, rfl, rfl, rfl⟩, rfl⟩

theorem outsideStep_still {s t : State} {i : ℕ} {answer : Answer}
    (h : outsideStep s i answer = some t) : Still s t ∧ t.region = s.region := by
  unfold outsideStep at h
  split at h
  · cases h
  · split_ifs at h
    cases h
    exact ⟨⟨rfl, rfl, rfl, rfl⟩, rfl⟩
  · split at h <;> cases h <;> exact ⟨⟨rfl, rfl, rfl, rfl⟩, rfl⟩

theorem closerStep_still {s t : State} {i : ℕ} (h : closerStep s i = some t) :
    Still s t ∧ t.region = s.region := by
  unfold closerStep at h
  split at h
  · cases h
  · cases h
    exact ⟨⟨rfl, rfl, rfl, rfl⟩, rfl⟩
  · cases h
    exact ⟨⟨rfl, rfl, rfl, rfl⟩, rfl⟩
  · split at h <;> cases h
    exact ⟨⟨rfl, rfl, rfl, rfl⟩, rfl⟩

/-- After a shutdown nothing but the firmware moves what it has closed. -/
theorem Inv.still {s t : State} {l : Label} (hs : Inv s) (hdone : s.shutdownComplete = true)
    (h : Shutdown.step l s = some t) :
    Still s t ∧ ((∀ region, l ≠ .firmware region) → t.region = s.region) := by
  have hboth : Still s t ∧ t.region = s.region →
      Still s t ∧ ((∀ region, l ≠ .firmware region) → t.region = s.region) :=
    fun hsame => ⟨hsame.1, fun _ => hsame.2⟩
  cases l with
  | arrive i => exact hboth (arriveStep_still h)
  | holder answer => exact hboth (hs.holderStep_still hdone h)
  | outside i answer => exact hboth (outsideStep_still h)
  | tx answer => exact hboth (hs.txStep_still hdone h)
  | rx answer => exact hboth (hs.rxStep_still hdone h)
  | closer i => exact hboth (closerStep_still h)
  | closing => exact hboth (hs.closingStep_still hdone h)
  | call | close | pollCall | shutdown =>
      cases h
      exact hboth ⟨⟨rfl, rfl, rfl, rfl⟩, rfl⟩
  | leaveOwner | leaveTx | leaveRx =>
      simp only [Shutdown.step] at h
      split at h <;> cases h
      exact hboth ⟨⟨rfl, rfl, rfl, rfl⟩, rfl⟩
  | lockOwner i =>
      simp only [Shutdown.step] at h
      split at h
      · cases h
      · split_ifs at h
        cases h
        exact hboth ⟨⟨rfl, rfl, rfl, rfl⟩, rfl⟩
  | lockTx | lockRx =>
      simp only [Shutdown.step] at h
      split at h
      · cases h
      · split_ifs at h
        split at h <;> cases h <;> exact hboth ⟨⟨rfl, rfl, rfl, rfl⟩, rfl⟩
  | poll i =>
      simp only [Shutdown.step] at h
      split at h
      · cases h
      · split at h <;> cases h <;> exact hboth ⟨⟨rfl, rfl, rfl, rfl⟩, rfl⟩
  | runWork =>
      simp only [Shutdown.step] at h
      rw [(hs.work (.inl hdone)).2, if_neg fun hscheduled => Bool.false_ne_true hscheduled.1] at h
      cases h
  | work answer =>
      simp only [Shutdown.step] at h
      rw [(hs.work (.inl hdone)).1] at h
      cases h
  | notify =>
      simp only [Shutdown.step] at h
      split_ifs at h <;> cases h <;> exact hboth ⟨⟨rfl, rfl, rfl, rfl⟩, rfl⟩
  | firmware region =>
      cases h
      exact ⟨⟨rfl, rfl, rfl, rfl⟩, fun hne => absurd rfl (hne region)⟩

/-! ## The blocked calls -/

theorem Inv.holder_failing {s : State} (hs : Inv s) :
    Failing holderLeft State.holder .holder s where
  step call hcall hblocked answer := by
    obtain ⟨file, blocked, pc⟩ := call
    obtain rfl : blocked = true := hblocked
    obtain ⟨hflag, hpc⟩ := hs.holderBlocked _ hcall rfl
    cases pc with
    | release pc => exact hpc.elim
    | acquire pc =>
        obtain ⟨hsame, heffects, hout⟩ := acquireStep_quiet hflag file answer s.region hpc
        simp only [Shutdown.step, Shutdown.holderStep, hcall]
        rcases hstep : acquireStep file answer s.transport s.region pc with
          ⟨out, transport, region⟩
        rw [hstep] at hsame hout
        cases hsame
        rw [heffects, List.append_nil]
        cases out with
        | running pc' => exact ⟨_, rfl, rfl, rfl, rfl, .inr ⟨.acquire pc', rfl, hout.2⟩⟩
        | returned exit =>
            obtain ⟨ret, rfl, hne⟩ := hout
            exact ⟨_, rfl, rfl, rfl, rfl, .inl ⟨ret, hne, rfl⟩⟩

theorem Inv.tx_failing {s : State} (hs : Inv s) :
    Failing txLeft (fun s => s.tx.map Prod.snd) .tx s where
  step ongoing htx hblocked answer := by
    obtain ⟨⟨call, file, blocked, pc⟩, hcall, rfl⟩ := Option.map_eq_some_iff.mp htx
    obtain rfl : blocked = true := hblocked
    obtain ⟨hflag, hpc⟩ := hs.txBlocked call _ hcall rfl
    obtain ⟨hsame, heffects, hout⟩ := txStep_quiet hflag call answer s.region hpc
    simp only [Shutdown.step, Shutdown.txStep, hcall]
    rcases hstep : Driver.txStep call answer s.transport s.region pc with ⟨out, transport, region⟩
    rw [hstep] at hsame hout
    cases hsame
    rw [heffects, List.append_nil]
    cases out with
    | running pc' => exact ⟨_, rfl, rfl, rfl, rfl, .inr ⟨pc', rfl, hout.2⟩⟩
    | returned ret => exact ⟨_, rfl, rfl, rfl, rfl, .inl ⟨ret, hout, rfl⟩⟩

theorem Inv.rx_failing {s : State} (hs : Inv s) :
    Failing rxLeft (fun s => s.rx.map Prod.snd) .rx s where
  step ongoing hrx hblocked answer := by
    obtain ⟨⟨call, file, blocked, pc⟩, hcall, rfl⟩ := Option.map_eq_some_iff.mp hrx
    obtain rfl : blocked = true := hblocked
    obtain ⟨hflag, hpc⟩ := hs.rxBlocked call _ hcall rfl
    obtain ⟨hsame, heffects, hout⟩ := rxStep_quiet hflag call answer s.region hpc
    simp only [Shutdown.step, Shutdown.rxStep, hcall]
    rcases hstep : Driver.rxStep call answer s.transport s.region pc with ⟨out, transport, region⟩
    rw [hstep] at hsame hout
    cases hsame
    rw [heffects, List.append_nil]
    cases out with
    | running pc' => exact ⟨_, rfl, rfl, rfl, rfl, .inr ⟨pc', rfl, hout.2⟩⟩
    | returned ret => exact ⟨_, rfl, rfl, rfl, rfl, .inl ⟨ret, hout, rfl⟩⟩

theorem Inv.outside_failing {s : State} (hs : Inv s) (i : ℕ) :
    Failing outsideLeft (fun s => s.outside[i]?) (.outside i) s where
  step call hcall hblocked answer := by
    obtain ⟨file, blocked, pc⟩ := call
    obtain rfl : blocked = true := hblocked
    have hi : i < s.outside.length := (List.getElem?_eq_some_iff.mp hcall).1
    obtain ⟨hflag, hpc⟩ := hs.outsideBlocked _ (List.mem_of_getElem? hcall) rfl
    have hout := outsideStep_quiet hflag answer s.region hpc
    have hnext : ∀ call, (s.outside.set i call)[i]? = some call := fun call =>
      List.getElem?_set_self hi
    cases pc with
    | ready ended pc =>
        simp only [Shutdown.step, Shutdown.outsideStep, hcall]
        rcases hstep : Driver.outsideStep answer s.transport s.region (.ready ended pc) with
          pc' | ret
        · dsimp only [Driver.outsideStep] at hstep
          rw [readyStep_shuttingDown hflag s.region hpc] at hstep
          dsimp only at hstep
          rw [if_pos hflag] at hstep
          cases hstep
        · rw [hstep] at hout
          exact ⟨_, rfl, rfl, rfl, rfl, .inl ⟨ret, hout, rfl⟩⟩
    | asleep =>
        simp only [Shutdown.step, Shutdown.outsideStep, hcall]
        exact ⟨_, rfl, rfl, rfl, rfl, .inr ⟨.ready answer .start, hnext _, Nat.lt_add_one 1⟩⟩
    | _ => exact hpc.elim

/-- In every reachable state the driver keeps what a shutdown promises. -/
theorem shutdown_quiescent {s : State} (h : Reachable system s) : Quiescent s := by
  have hs := inv_of_reachable h
  exact {
    still := fun hreturned _ _ hstep => (hs.still (hs.returned hreturned) hstep).1
    region := fun hreturned _ _ hstep => (hs.still (hs.returned hreturned) hstep).2
    holder := hs.holder_failing
    outside := hs.outside_failing
    tx := hs.tx_failing
    rx := hs.rx_failing
    results := hs.results
    acyclic := (ordered s).acyclic
    second := hs.second }

/-- A region that an earlier run has left. -/
def leftover : Region :=
  ⟨initialized 1#32, ⟨stateReady, 1#32⟩, ⟨stateReady, 1#32⟩, Ring.cleared, Ring.cleared⟩

/-- An ACQUIRE waits for the firmware as the driver is shut down. -/
def acquireRun : List Label :=
  [.call 0 .acquire, .arrive 0, .lockOwner 0] ++ List.replicate 22 (.holder .done) ++
    [.shutdown, .closer 0, .closer 0, .closer 0, .closing, .holder .done, .holder .done] ++
      List.replicate 13 .closing

theorem shutdown_quiescent_acquire :
    ∃ s, s.returned = true ∧ s.results = [(true, .enodev)] ∧ Quiescent s := by
  have hrun : (exec step acquireRun (State.initial leftover)).map
      (fun s => (s.returned, s.results)) = some (true, [(true, .enodev)]) := by
    decide
  obtain ⟨s, hexec, hs⟩ := Option.map_eq_some_iff.mp hrun
  rw [Prod.mk.injEq] at hs
  exact ⟨s, hs.1, hs.2, shutdown_quiescent (Reachable.exec (Reachable.start ⟨leftover, rfl⟩) hexec)⟩

end Sg200x.Ipc.Shutdown
