import Sg200x.Ipc.BenchAccounts

/-!
# Runs of the benchmark

Every section of a run without errors keeps the accounts, so that no index is issued twice, no
array is written past its end, each response is credited to the worker that asked, and the
dispatcher is done when all is answered.
-/

namespace Sg200x.Ipc.Bench

open Shm App Library.Transition Library.Turns Library.Census ThreadPhase

variable {W total : ℕ}

/-- The workers whose requests the dispatcher holds. -/
def DispatcherPc.selected : DispatcherPc W → List (Fin W)
  | .submitting _ selected => selected.map Prod.fst
  | .submitted _ selected _ _ _ => selected.map Prod.fst
  | _ => []

/-- What the dispatcher has returned, if it has. -/
def DispatcherPc.outcome : DispatcherPc W → Option ℤ
  | .returned ret => some ret
  | .joining ret => some ret
  | .done ret => some ret
  | _ => none

def State.noError (s : State W total) : Bool :=
  s.phase.error = 0 && s.dispatcher.outcome.getD 0 = 0

/-- A step that ends without an error. -/
def withoutError (l : Label W) (s : State W total) : Bool := (step l s).all State.noError

/-- What the dispatcher knows where it is. -/
def DispatcherOk (s : State W total) : Prop :=
  match s.dispatcher with
  | .creating created => ∀ w : Fin W, created ≤ w → s.threads w = .absent
  | .submitted _ selected _ _ sequences => sequences.length = selected.length
  | .returned _ => s.phase.completed = total
  | .joining _ => s.phase.completed = total
  | .done _ => s.phase.completed = total
  | _ => True

/-- The invariant of the runs without errors. -/
structure Sound (s : State W total) : Prop where
  balanced : Balanced s.dispatcher.selected s.threads s.phase
  placed : DispatcherOk s

theorem Sound.initial (seedBase : U32) (echoDataBytes : ℕ) (latency : Option (Vector U64 total)) :
    Sound (State.initial seedBase echoDataBytes latency : State W total) := by
  have hcensus : ∀ state, state ≠ .starting →
      (ThreadPhase.initial seedBase echoDataBytes latency : ThreadPhase W total).count state = 0 := by
    intro state hstate
    exact census_eq_zero_iff.mpr fun _ => Ne.symm hstate
  refine ⟨⟨fun w => ⟨rfl, rfl⟩, ?_, ?_, rfl⟩, fun w _ => rfl⟩
  · constructor
    · exact (hcensus .ready nofun).symm
    · exact (hcensus .submitting nofun).symm
    · exact (hcensus .inFlight nofun).symm
    · exact (Finset.sum_const_zero).symm
    · exact fun w => Nat.zero_le _
    · exact fun w => iff_of_false nofun (List.not_mem_nil)
    · exact List.nodup_nil
    · rfl
  · exact ⟨InTurn.nil, InTurn.nil, fun w => rfl, nofun, nofun⟩

variable {s t : State W total} {w : Fin W}

/-! ## Steps of a worker -/

theorem runOperation_completed {phase phase' : ThreadPhase W total} {operation : ℕ}
    {clock : Answered Timespec} {signal : ℤ} {pc : WorkerPc}
    (h : runOperation phase w operation clock signal = (phase', pc)) :
    phase'.completed = phase.completed := by
  unfold runOperation at h
  split at h
  · cases clock with
    | error errno => cases h; rfl
    | ok start =>
        dsimp only at h
        split at h
        · cases h; rfl
        · cases h; rfl
  · cases h; rfl

theorem workerSection_completed {phase phase' : ThreadPhase W total} {clock : Answered Timespec}
    {signal : ℤ} {pc pc' : WorkerPc}
    (h : workerSection phase w clock signal pc = some (phase', pc')) :
    phase'.completed = phase.completed := by
  unfold workerSection at h
  split at h
  · cases h
  · dsimp only at h
    split at h
    · cases h; rfl
    · have hcompleted := runOperation_completed (Option.some.inj h)
      exact hcompleted
  · split at h
    · cases h; rfl
    · exact runOperation_completed (Option.some.inj h)
  · split at h
    · cases h; rfl
    · have hcompleted := runOperation_completed (Option.some.inj h)
      split at hcompleted
      · exact hcompleted
      · exact hcompleted
  · cases h

theorem Sound.worker (h : Sound s) {clock : Answered Timespec} {signal : ℤ}
    (hstep : step (.worker w clock signal) s = some t) (hok : t.phase.error = 0) : Sound t := by
  have hbalanced := h.balanced
  have hplaced := h.placed
  cases hsection : workerSection s.phase w clock signal (s.threads w) with
  | none =>
      rw [step, hsection] at hstep
      cases hstep
  | some next =>
      obtain ⟨phase, pc⟩ := next
      rw [step, hsection] at hstep
      cases hstep
      have hcompleted := workerSection_completed hsection
      refine ⟨hbalanced.workerSection hsection hok, ?_⟩
      unfold DispatcherOk at hplaced ⊢
      dsimp only
      split
      · next created hpc =>
        rw [hpc] at hplaced
        intro v hv
        have habsent : s.threads v = .absent := hplaced v hv
        by_cases hvw : v = w
        · subst hvw
          rw [habsent] at hsection
          cases hsection
        · rw [Function.update_of_ne hvw]
          exact habsent
      · next hpc =>
        rw [hpc] at hplaced
        exact hplaced
      · next hpc =>
        rw [hpc] at hplaced
        exact hcompleted.trans hplaced
      · next hpc =>
        rw [hpc] at hplaced
        exact hcompleted.trans hplaced
      · next hpc =>
        rw [hpc] at hplaced
        exact hcompleted.trans hplaced
      · trivial

/-! ## Steps of the main thread -/

theorem State.noError_iff : s.noError = true ↔ s.phase.error = 0 ∧ s.dispatcher.outcome.getD 0 = 0 := by
  simp [State.noError]

theorem Sound.create (h : Sound s) {ret : ℤ} (hstep : createWorker s ret = some t)
    (hok : t.phase.error = 0) : Sound t := by
  have hbalanced := h.balanced
  have hplaced := h.placed
  unfold createWorker at hstep
  split at hstep
  · next created hpc =>
    rw [hpc] at hbalanced
    simp only [DispatcherOk, hpc] at hplaced
    split at hstep
    · next hlt =>
      dsimp only at hstep
      split at hstep
      · cases hstep
        exact absurd hok (failPhaseLocked_error_ne_zero _ _)
      · cases hstep
        have habsent := hplaced ⟨created, hlt⟩ (Nat.le_refl _)
        have hworker := hbalanced.workers ⟨created, hlt⟩
        rw [habsent] at hworker
        obtain ⟨hstate, hissued⟩ := hworker
        have hstarting : ¬ WorkerState.starting.Pending := by decide
        have hold : ¬ (s.phase.workers ⟨created, hlt⟩).state.Pending := hstate ▸ hstarting
        refine ⟨⟨?_, ?_, ?_, hbalanced.running⟩, ?_⟩
        · exact Threads.setWorker ⟨created, hlt⟩ (fun v _ => hbalanced.workers v) _ rfl
            ⟨rfl, hissued, rfl⟩
        · exact hbalanced.counts.quiet ⟨created, hlt⟩ _ hold hstarting rfl
        · exact hbalanced.books.rest ⟨created, hlt⟩ _ rfl rfl hold hstarting rfl
        · intro v hv
          have hne : v ≠ ⟨created, hlt⟩ := by
            rintro rfl
            exact Nat.not_succ_le_self _ hv
          dsimp only
          rw [Function.update_of_ne hne]
          exact hplaced v (Nat.le_of_succ_le hv)
    · cases hstep
  · cases hstep

/-- A step that changes none of the accounts. -/
theorem Sound.goto (h : Balanced s.dispatcher.selected s.threads s.phase) {phase : ThreadPhase W total}
    {dispatcher : DispatcherPc W} (haccounts : phase.accounts = s.phase.accounts)
    (hledger : phase.ledger = s.phase.ledger) (hstop : phase.stop = s.phase.stop)
    (hselected : dispatcher.selected = s.dispatcher.selected)
    (hplaced : DispatcherOk ((s.withPhase phase).goto dispatcher)) :
    Sound ((s.withPhase phase).goto dispatcher) := by
  refine ⟨?_, hplaced⟩
  change Balanced dispatcher.selected s.threads phase
  rw [hselected]
  exact h.congr haccounts hledger hstop

theorem Sound.openGate (h : Sound s) {clock : Answered Timespec}
    (hstep : openGate s clock = some t) (hok : t.phase.error = 0) : Sound t := by
  unfold Bench.openGate at hstep
  split at hstep
  · next created hpc =>
    split at hstep
    · cases clock with
      | error errno =>
          cases hstep
          exact absurd hok (failPhaseLocked_error_ne_zero _ _)
      | ok start =>
          cases hstep
          exact Sound.goto h.balanced rfl rfl rfl (by rw [hpc]; rfl) trivial
    · cases hstep
  · cases hstep

theorem State.finished_iff :
    s.finished = true ↔ s.phase.error ≠ 0 ∨ s.phase.completed = total := by
  simp [State.finished]

theorem afterSubmit_selected (progressed : Bool) :
    (afterSubmit progressed : DispatcherPc W).selected = [] := by
  cases progressed with
  | false => rfl
  | true => rfl

theorem afterSubmit_placed (progressed : Bool) {phase : ThreadPhase W total}
    {threads : Fin W → WorkerPc} : DispatcherOk ⟨phase, threads, afterSubmit progressed⟩ := by
  cases progressed with
  | false => trivial
  | true => trivial

/-- The responses of a reap are credited. -/
theorem Sound.reaped (h : Sound s) (hW : 0 < W) {messages : List Slot} {stop : Timespec}
    (hpc : s.dispatcher = .reaped messages stop) (hstep : dispatchSection s = some t)
    (hok : t.dispatcher.outcome.getD 0 = 0) : Sound t := by
  have hbalanced := h.balanced
  rw [hpc] at hbalanced
  simp only [dispatchSection, hpc] at hstep
  split at hstep
  · cases hstep
    exact absurd hok (by decide : (-eproto : ℤ) ≠ 0)
  · next credited hcredited =>
    cases hstep
    refine ⟨?_, trivial⟩
    exact (hbalanced.creditResponses hW hcredited).congr rfl rfl rfl

/-- The ready workers are selected. -/
theorem Sound.submit (h : Sound s) (hmax : W ≤ maxWorkers) {progressed : Bool}
    (hpc : s.dispatcher = .submit progressed) (hstep : dispatchSection s = some t) : Sound t := by
  have hbalanced := h.balanced
  rw [hpc] at hbalanced
  have hselected : Balanced ((selectWorkers (List.finRange W) s.phase []).2.map Prod.fst) s.threads
      (selectWorkers (List.finRange W) s.phase []).1 :=
    Balanced.selectWorkers hmax (List.finRange W) hbalanced
  simp only [dispatchSection, hpc] at hstep
  split at hstep
  · next hempty =>
    cases hstep
    rw [hempty] at hselected
    refine ⟨?_, afterSubmit_placed progressed⟩
    change Balanced (afterSubmit progressed).selected _ _
    rw [afterSubmit_selected]
    exact hselected.congr rfl rfl rfl
  · cases hstep
    refine ⟨?_, trivial⟩
    exact hselected.congr rfl rfl rfl

/-- The answer to a submission is taken up. -/
theorem Sound.submitted (h : Sound s) {progressed : Bool} {selected : List (Fin W × Slot)} {ret : ℤ}
    {count : ℕ} {sequences : List U32}
    (hpc : s.dispatcher = .submitted progressed selected ret count sequences)
    (hstep : dispatchSection s = some t) (hok : t.dispatcher.outcome.getD 0 = 0) : Sound t := by
  have hbalanced := h.balanced
  have hplaced := h.placed
  rw [hpc] at hbalanced
  simp only [DispatcherOk, hpc] at hplaced
  have hlength : sequences.length = (selected.map Prod.fst).length := by
    rw [List.length_map, hplaced]
  simp only [dispatchSection, hpc] at hstep
  split at hstep
  · next hfailed =>
    cases hstep
    exact absurd hok hfailed
  · next happlied =>
    cases hstep
    refine ⟨?_, afterSubmit_placed _⟩
    change Balanced (afterSubmit _).selected _ _
    rw [afterSubmit_selected]
    exact (Balanced.applySubmit hbalanced hlength (not_not.mp happlied)).congr rfl rfl rfl

theorem Sound.dispatch (h : Sound s) (hW : 0 < W) (hmax : W ≤ maxWorkers)
    (hstep : dispatchSection s = some t) (hok : t.phase.error = 0 ∧ t.dispatcher.outcome.getD 0 = 0) :
    Sound t := by
  cases hpc : s.dispatcher with
  | reaped messages stop => exact h.reaped hW hpc hstep hok.2
  | submit progressed => exact h.submit hmax hpc hstep
  | submitted progressed selected ret count sequences => exact h.submitted hpc hstep hok.2
  | top =>
      simp only [dispatchSection, hpc] at hstep
      cases hstep
      split
      · next hfinished =>
        -- without an error the phase is finished when it is completed
        have herror : s.phase.error = 0 := hok.1
        refine Sound.goto h.balanced rfl rfl rfl (by rw [hpc]; rfl) ?_
        exact (State.finished_iff.mp hfinished).resolve_left fun hne => hne herror
      · exact Sound.goto h.balanced rfl rfl rfl (by rw [hpc]; rfl) trivial
  | reap =>
      simp only [dispatchSection, hpc] at hstep
      split at hstep
      · cases hstep
        exact Sound.goto h.balanced rfl rfl rfl (by rw [hpc]; rfl) trivial
      · cases hstep
        have hworkers := h.balanced.counts.le_workers
        refine Sound.goto h.balanced ?_ rfl rfl (by rw [hpc]; rfl) trivial
        have hbound : ¬ maxWorkers < s.phase.inFlight := by omega
        simp [ThreadPhase.accounts, hbound]
  | wait =>
      simp only [dispatchSection, hpc] at hstep
      split at hstep
      · cases hstep
        have herror : s.phase.error = 0 := hok.1
        rw [if_neg (not_not.mpr herror)]
        exact Sound.goto h.balanced rfl rfl rfl (by rw [hpc]; rfl) trivial
      · cases hstep
        exact Sound.goto h.balanced rfl rfl rfl (by rw [hpc]; rfl) trivial
  | creating created | reaping requested | submitting progressed selected | polling | returned ret
  | joining ret | done ret => simp [dispatchSection, hpc] at hstep

theorem Sound.reap (h : Sound s) {ret : ℤ} {messages : List Slot} {clock : Answered Timespec}
    (hstep : reapCall s ret messages clock = some t) (hok : t.dispatcher.outcome.getD 0 = 0) : Sound t := by
  unfold reapCall at hstep
  split at hstep
  · next requested hpc =>
    split at hstep
    · cases hstep
      exact Sound.goto h.balanced rfl rfl rfl (by rw [hpc]; rfl) trivial
    · split at hstep
      · next hfailed =>
        cases hstep
        exact absurd hok hfailed
      · split at hstep
        · cases hstep
          exact absurd hok (by decide : (-eproto : ℤ) ≠ 0)
        · cases clock with
          | error errno =>
              cases hstep
              have herrno : ((errno : ℕ) : ℤ) ≠ 0 := Int.natCast_ne_zero.mpr errno.2.ne'
              exact absurd hok (neg_ne_zero.mpr herrno)
          | ok stop =>
              cases hstep
              exact Sound.goto h.balanced rfl rfl rfl (by rw [hpc]; rfl) trivial
  · cases hstep

theorem Sound.submitCall (h : Sound s) {ret : ℤ} {submitted : ℕ} {sequences : List U32}
    (hstep : submitCall s ret submitted sequences = some t) : Sound t := by
  unfold Bench.submitCall at hstep
  split at hstep
  · next progressed selected hpc =>
    split at hstep
    · next hanswer =>
      cases hstep
      exact Sound.goto h.balanced rfl rfl rfl (by rw [hpc]; rfl) hanswer.1
    · cases hstep
  · cases hstep

theorem Sound.poll (h : Sound s) {ret : ℤ} (hstep : step (.poll ret) s = some t)
    (hok : t.dispatcher.outcome.getD 0 = 0) : Sound t := by
  unfold step at hstep
  dsimp only at hstep
  split at hstep
  · next hpc =>
    cases hstep
    split at hok
    · next hfailed => exact absurd hok hfailed
    · next hpolled =>
      rw [if_neg hpolled]
      exact Sound.goto h.balanced rfl rfl rfl (by rw [hpc]; rfl) trivial
  · cases hstep

theorem Sound.leave (h : Sound s) {ret result : ℤ} (hpc : s.dispatcher = .returned ret)
    (hok : (leaveDispatch s result).phase.error = 0) : Sound (leaveDispatch s result) := by
  have hplaced := h.placed
  simp only [DispatcherOk, hpc] at hplaced
  unfold leaveDispatch at hok ⊢
  split at hok
  · exact absurd hok (failPhaseLocked_error_ne_zero _ _)
  · next hresult =>
    rw [if_neg hresult]
    exact Sound.goto h.balanced rfl rfl rfl (by rw [hpc]; rfl) hplaced

theorem Sound.finish (h : Sound s) {clock : Answered Timespec}
    (hstep : finishDispatch s clock = some t) (hok : t.phase.error = 0) : Sound t := by
  unfold finishDispatch at hstep
  split at hstep
  · next ret hpc =>
    cases hstep
    exact h.leave hpc hok
  · cases hstep

theorem Sound.join (h : Sound s) (hstep : joinWorkers s = some t) : Sound t := by
  have hplaced := h.placed
  unfold joinWorkers at hstep
  split at hstep
  · next ret hpc =>
    simp only [DispatcherOk, hpc] at hplaced
    split at hstep
    · cases hstep
      exact Sound.goto h.balanced rfl rfl rfl (by rw [hpc]; rfl) hplaced
    · cases hstep
  · cases hstep

/-- A step without an error. -/
theorem Sound.step (h : Sound s) (hW : 0 < W) (hmax : W ≤ maxWorkers) {l : Label W}
    (hstep : step l s = some t) (hok : t.noError = true) : Sound t := by
  obtain ⟨herror, hresult⟩ := State.noError_iff.mp hok
  cases l with
  | create ret => exact h.create hstep herror
  | openGate clock => exact h.openGate hstep herror
  | worker w clock signal => exact h.worker hstep herror
  | dispatch => exact h.dispatch hW hmax hstep ⟨herror, hresult⟩
  | reap ret messages clock => exact h.reap hstep hresult
  | submit ret submitted sequences => exact h.submitCall hstep
  | poll ret => exact h.poll hstep hresult
  | finish clock => exact h.finish hstep herror
  | join => exact h.join hstep

theorem sound_reachable (hW : 0 < W) (hmax : W ≤ maxWorkers)
    (h : ReachableBy (benchmark W total) (fun l s => withoutError l s = true) s) : Sound s := by
  apply ReachableBy.invariant _ _ h
  · rintro s ⟨seedBase, echoDataBytes, latency, rfl⟩
    exact Sound.initial seedBase echoDataBytes latency
  · intro s t l hs hallowed hstep
    change step l s = some t at hstep
    apply hs.step hW hmax hstep
    rw [withoutError, hstep] at hallowed
    exact hallowed

/-! ## What a run without errors has done -/

/-- The requests have been issued, counted and credited as they should. -/
structure Accounted (s : State W total) : Prop where
  issued : ∀ w, s.phase.ledger.issued.filter (fun entry => entry.1 = w) =
    (List.range (s.phase.workers w).issued).map fun k => (w, k * W + w)
  within : ∀ w : Fin W, (s.phase.workers w).issued ≤ workerTarget total W w
  exited : ∀ w, s.threads w = .exited → (s.phase.workers w).issued = workerTarget total W w
  once : (s.phase.ledger.issued.map Prod.snd).Nodup
  below : ∀ i ∈ s.phase.ledger.issued.map Prod.snd, i < total
  ready : s.phase.ready = s.phase.count .ready
  submitting : s.phase.submitting = s.phase.count .submitting
  inFlight : s.phase.inFlight = s.phase.count .inFlight
  bounded : s.phase.ready + s.phase.submitting + s.phase.inFlight ≤ W
  inBounds : s.phase.overrun = false
  distinct : (s.phase.ledger.outstanding.map Request.sequence).Nodup
  credits : ∀ credit ∈ s.phase.ledger.credits, ∃ request, credit.request = some request ∧
    request.worker = credit.worker ∧ request.sequence = credit.response.sequence
  answeredOnce : (s.phase.ledger.credited.map Prod.snd).Nodup
  succeeded : s.dispatcher.outcome = some 0 → s.phase.completed = total ∧
    s.phase.ledger.outstanding = [] ∧ s.phase.ready = 0 ∧ s.phase.submitting = 0 ∧
    s.phase.inFlight = 0 ∧ (∀ w : Fin W, (s.phase.workers w).issued = workerTarget total W w) ∧
    (s.phase.ledger.issued.map Prod.snd).Perm (List.range total) ∧
    (s.phase.ledger.credited.map Prod.snd).Perm (List.range total)

theorem Sound.completed (h : Sound s) (hreturned : s.dispatcher.outcome = some 0) :
    s.phase.completed = total := by
  have hplaced := h.placed
  unfold DispatcherPc.outcome at hreturned
  unfold DispatcherOk at hplaced
  split at hreturned
  · next hpc => rwa [hpc] at hplaced
  · next hpc => rwa [hpc] at hplaced
  · next hpc => rwa [hpc] at hplaced
  · cases hreturned

/-- Nothing is pending when all is completed. -/
theorem Sound.quiescent (h : Sound s) (hW : 0 < W) (hcompleted : s.phase.completed = total) :
    s.phase.ready = 0 ∧ s.phase.submitting = 0 ∧ s.phase.inFlight = 0 ∧
      ∀ w, ¬ (s.phase.workers w).state.Pending := by
  have hcounts := h.balanced.counts
  have htotal := hcounts.le_total hW
  have hready : s.phase.ready = 0 := by omega
  have hsubmitting : s.phase.submitting = 0 := by omega
  have hinFlight : s.phase.inFlight = 0 := by omega
  refine ⟨hready, hsubmitting, hinFlight, ?_⟩
  rintro w (hstate | hstate | hstate)
  · exact absurd (hcounts.count_pos.1 hstate) (by omega)
  · exact absurd (hcounts.count_pos.2.1 hstate) (by omega)
  · exact absurd (hcounts.count_pos.2.2 hstate) (by omega)

/-- Every worker has issued its share when all is completed. -/
theorem Sound.issued_eq (h : Sound s) (hW : 0 < W) (hcompleted : s.phase.completed = total)
    (w : Fin W) : (s.phase.workers w).issued = share total W w := by
  have hcounts := h.balanced.counts
  obtain ⟨hready, hsubmitting, hinFlight, -⟩ := h.quiescent hW hcompleted
  have hsum : ∑ v, (s.phase.workers v).issued = ∑ v : Fin W, share total W v := by
    rw [← hcounts.issued, sum_share hW]
    omega
  exact (Finset.sum_eq_sum_iff_of_le fun v _ => hcounts.bounded v).mp hsum w (Finset.mem_univ w)

theorem Sound.outstanding_eq_nil (h : Sound s) (hW : 0 < W)
    (hcompleted : s.phase.completed = total) : s.phase.ledger.outstanding = [] := by
  obtain ⟨-, -, -, hnone⟩ := h.quiescent hW hcompleted
  rw [List.eq_nil_iff_forall_not_mem]
  intro request hmem
  have hstate := (h.balanced.books.mem_outstanding.mp hmem).1
  exact hnone _ (.inr (.inr hstate))

/-- In every run without errors the accounts are right. -/
theorem accounting (hW : 0 < W) (hmax : W ≤ maxWorkers)
    (h : ReachableBy (benchmark W total) (fun l s => withoutError l s = true) s) :
    Accounted s := by
  have hsound := sound_reachable hW hmax h
  have hcounts := hsound.balanced.counts
  have hbooks := hsound.balanced.books
  constructor
  · exact hbooks.issued
  · exact hcounts.bounded
  · intro w hexited
    have hw := hsound.balanced.workers w
    rw [hexited] at hw
    exact hw.2.1.trans hw.2.2
  · exact hbooks.issued.nodup
  · exact hbooks.issued.lt hcounts.bounded
  · exact hcounts.ready
  · exact hcounts.submitting
  · exact hcounts.inFlight
  · exact hcounts.le_workers
  · exact hcounts.inBounds
  · exact hbooks.sequences_nodup
  · exact hbooks.answers
  · exact hbooks.credited.nodup
  · intro hreturned
    have hcompleted := hsound.completed hreturned
    have hissued := hsound.issued_eq hW hcompleted
    obtain ⟨hready, hsubmitting, hinFlight, hnone⟩ := hsound.quiescent hW hcompleted
    refine ⟨hcompleted, hsound.outstanding_eq_nil hW hcompleted, hready, hsubmitting, hinFlight,
      hissued, hbooks.issued.perm hW hissued, hbooks.credited.perm hW ?_⟩
    intro w
    rw [answered_of_not_pending (hnone w), hissued]

/-- A response to the ping with a seed. -/
def pong (sequence seed : U32) : Slot where
  sequence := sequence
  length := BitVec.ofNat 16 valueMessageSize
  payload := Payload.writeValue Slot.zero.payload cmdPing (seed ^^^ pingXor)

/-- Two workers and three requests; the first submission is accepted in part. -/
def threeRequests : List (Label 2) :=
  let clock : Answered Timespec := .ok ⟨0, 0⟩
  [.create 0, .create 0, .worker 0 clock 0, .worker 1 clock 0, .openGate clock,
    .worker 0 clock 0, .worker 1 clock 0, .dispatch, .dispatch, .dispatch,
    .submit (-eagain) 1 [5#32, 0#32], .dispatch, .dispatch, .dispatch,
    .reap 0 [pong 5#32 0#32] clock, .dispatch, .dispatch, .submit 0 1 [6#32], .dispatch,
    .worker 0 clock 0, .dispatch, .dispatch, .reap 0 [pong 6#32 1#32] clock, .dispatch, .dispatch,
    .submit 0 1 [7#32], .dispatch, .worker 1 clock 0, .dispatch, .dispatch,
    .reap 0 [pong 7#32 2#32] clock, .dispatch, .dispatch, .dispatch, .finish clock,
    .worker 0 clock 0, .join]

theorem accounting_threeRequests :
    ∃ s : State 2 3, s.dispatcher.outcome = some 0 ∧ Accounted s := by
  let start : State 2 3 := .initial 0#32 0 none
  have hrun : ((exec (guarded withoutError step) threeRequests start).any
      fun s => s.dispatcher.outcome = some 0) = true := by
    decide +kernel
  rw [Option.any_eq_true] at hrun
  obtain ⟨s, hexec, hreturned⟩ := hrun
  have hstart : ReachableBy (benchmark 2 3) (fun l s => withoutError l s = true) start :=
    .start ⟨0#32, 0, none, rfl⟩
  exact ⟨s, of_decide_eq_true hreturned, accounting (by decide) (by decide) (hstart.execGuarded hexec)⟩

end Sg200x.Ipc.Bench
