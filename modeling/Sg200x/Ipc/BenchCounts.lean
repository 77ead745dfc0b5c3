import Sg200x.Library.Census
import Sg200x.Library.Turns
import Sg200x.Ipc.Bench

/-!
# The counters of the benchmark

Each counter of `struct thread_phase` is the number of workers in its state.  Every move of a
worker changes its state and the counters together.
-/

namespace Sg200x.Ipc.Bench

open Library.Census Library.Turns ThreadPhase

variable {W total : ℕ}

/-! ## Workers and their threads -/

/-- A request of the worker has no response yet. -/
def WorkerState.Pending (state : WorkerState) : Prop :=
  state = .ready ∨ state = .submitting ∨ state = .inFlight

instance : DecidablePred WorkerState.Pending := fun _ => inferInstanceAs (Decidable (_ ∨ _))

/-- What the thread of a worker knows of it. -/
def ThreadOk (total : ℕ) (w : Fin W) (worker : Worker) : WorkerPc → Prop
  | .absent => worker.state = .starting ∧ worker.issued = 0
  | .created => worker.state = .starting ∧ worker.issued = 0 ∧ worker.target = share total W w
  | .gate => worker.state = .idle ∧ worker.issued = 0 ∧ worker.target = share total W w
  | .waiting operation =>
      (worker.state.Pending ∨ worker.state = .complete) ∧ worker.issued = operation + 1 ∧
        operation < worker.target ∧ worker.target = share total W w
  | .exited =>
      worker.state = .exited ∧ worker.issued = worker.target ∧ worker.target = share total W w

/-- A worker with a pending request waits for its response. -/
theorem ThreadOk.waiting_of_pending {w : Fin W} {worker : Worker} {pc : WorkerPc}
    (h : ThreadOk total w worker pc) (hpending : worker.state.Pending) :
    ∃ operation, pc = .waiting operation ∧ worker.issued = operation + 1 := by
  have hnot : ∀ state, worker.state = state → state.Pending := fun state hstate => hstate ▸ hpending
  cases pc with
  | absent => exact absurd (hnot _ h.1) (by decide)
  | created => exact absurd (hnot _ h.1) (by decide)
  | gate => exact absurd (hnot _ h.1) (by decide)
  | waiting operation => exact ⟨operation, rfl, h.2.1⟩
  | exited => exact absurd (hnot _ h.1) (by decide)

/-- The dispatcher moves a worker whose request is pending. -/
theorem ThreadOk.move {w : Fin W} {worker worker' : Worker} {pc : WorkerPc}
    (h : ThreadOk total w worker pc) (hpending : worker.state.Pending)
    (hstate : worker'.state.Pending ∨ worker'.state = .complete)
    (hissued : worker'.issued = worker.issued) (htarget : worker'.target = worker.target) :
    ThreadOk total w worker' pc := by
  obtain ⟨operation, rfl, -⟩ := h.waiting_of_pending hpending
  obtain ⟨-, hcount, hlt, hshare⟩ := h
  exact ⟨hstate, by rw [hissued, hcount], by rw [htarget]; exact hlt, by rw [htarget, hshare]⟩

def Threads (threads : Fin W → WorkerPc) (phase : ThreadPhase W total) : Prop :=
  ∀ w, ThreadOk total w (phase.workers w) (threads w)

theorem setWorker_workers_self {phase : ThreadPhase W total} {w : Fin W} {worker : Worker} :
    (phase.setWorker w worker).workers w = worker := Function.update_self ..

theorem setWorker_workers_ne {phase : ThreadPhase W total} {v w : Fin W} {worker : Worker}
    (h : v ≠ w) : (phase.setWorker w worker).workers v = phase.workers v :=
  Function.update_of_ne h ..

/-- A worker changes and its thread moves. -/
theorem Threads.setWorker {threads : Fin W → WorkerPc} {phase phase' : ThreadPhase W total}
    (w : Fin W) (h : ∀ v, v ≠ w → ThreadOk total v (phase.workers v) (threads v)) (worker : Worker)
    {pc : WorkerPc} (hworkers : phase'.workers = (phase.setWorker w worker).workers)
    (hworker : ThreadOk total w worker pc) : Threads (Function.update threads w pc) phase' := by
  intro v
  rw [hworkers]
  by_cases hv : v = w
  · subst hv
    rw [setWorker_workers_self, Function.update_self]
    exact hworker
  · rw [setWorker_workers_ne hv, Function.update_of_ne hv]
    exact h v hv

/-- The dispatcher leaves the threads where they are. -/
theorem Threads.move {threads : Fin W → WorkerPc} {phase phase' : ThreadPhase W total}
    (h : Threads threads phase) (w : Fin W) (worker : Worker)
    (hworkers : phase'.workers = (phase.setWorker w worker).workers)
    (hpending : (phase.workers w).state.Pending)
    (hstate : worker.state.Pending ∨ worker.state = .complete)
    (hissued : worker.issued = (phase.workers w).issued)
    (htarget : worker.target = (phase.workers w).target) : Threads threads phase' := by
  have hmoved := Threads.setWorker w (fun v _ => h v) worker hworkers
    ((h w).move hpending hstate hissued htarget)
  rwa [Function.update_eq_self] at hmoved

/-! ## The counters -/

def ThreadPhase.count (phase : ThreadPhase W total) (state : WorkerState) : ℕ :=
  census (fun w => (phase.workers w).state) state

/-- The counters say what the workers are at; `selected` are the workers whose requests the
dispatcher holds. -/
structure Counts (selected : List (Fin W)) (phase : ThreadPhase W total) : Prop where
  ready : phase.ready = phase.count .ready
  submitting : phase.submitting = phase.count .submitting
  inFlight : phase.inFlight = phase.count .inFlight
  issued : phase.completed + phase.ready + phase.submitting + phase.inFlight =
    ∑ w, (phase.workers w).issued
  bounded : ∀ w : Fin W, (phase.workers w).issued ≤ share total W w
  held : ∀ w, (phase.workers w).state = .submitting ↔ w ∈ selected
  nodup : selected.Nodup
  inBounds : phase.overrun = false

/-- All that the counters are about. -/
def ThreadPhase.accounts (phase : ThreadPhase W total) :=
  (phase.workers, phase.ready, phase.submitting, phase.inFlight, phase.completed, phase.overrun)

variable {selected : List (Fin W)} {phase phase' : ThreadPhase W total} {w : Fin W}
  {worker : Worker}

theorem Counts.congr (h : Counts selected phase) (heq : phase'.accounts = phase.accounts) :
    Counts selected phase' := by
  simp only [ThreadPhase.accounts, Prod.mk.injEq] at heq
  obtain ⟨hworkers, hready, hsubmitting, hinFlight, hcompleted, hoverrun⟩ := heq
  constructor
  · rw [hready, count, hworkers]; exact h.ready
  · rw [hsubmitting, count, hworkers]; exact h.submitting
  · rw [hinFlight, count, hworkers]; exact h.inFlight
  · rw [hcompleted, hready, hsubmitting, hinFlight, hworkers]; exact h.issued
  · rw [hworkers]; exact h.bounded
  · rw [hworkers]; exact h.held
  · exact h.nodup
  · rw [hoverrun]; exact h.inBounds

/-- A worker changes: a counter moves with the state it is for. -/
theorem count_setWorker (phase : ThreadPhase W total) (w : Fin W) (worker : Worker)
    (state : WorkerState) :
    (phase.setWorker w worker).count state + (if (phase.workers w).state = state then 1 else 0) =
      phase.count state + (if worker.state = state then 1 else 0) := by
  have hstates : (fun v => ((phase.setWorker w worker).workers v).state) =
      Function.update (fun v => (phase.workers v).state) w worker.state :=
    Function.comp_update Worker.state phase.workers w worker
  rw [count, hstates]
  exact census_update (fun v => (phase.workers v).state) w worker.state state

theorem sum_issued_setWorker (phase : ThreadPhase W total) (w : Fin W) (worker : Worker) :
    ∑ v, ((phase.setWorker w worker).workers v).issued + (phase.workers w).issued =
      ∑ v, (phase.workers v).issued + worker.issued :=
  sum_update phase.workers w worker Worker.issued

/-- A worker changes, and the counters with it. -/
theorem Counts.setWorker (h : Counts selected phase) (w : Fin W) (worker : Worker)
    {selected' : List (Fin W)} (hworkers : phase'.workers = (phase.setWorker w worker).workers)
    (hready : phase'.ready + (if (phase.workers w).state = .ready then 1 else 0) =
      phase.ready + (if worker.state = .ready then 1 else 0))
    (hsubmitting : phase'.submitting + (if (phase.workers w).state = .submitting then 1 else 0) =
      phase.submitting + (if worker.state = .submitting then 1 else 0))
    (hinFlight : phase'.inFlight + (if (phase.workers w).state = .inFlight then 1 else 0) =
      phase.inFlight + (if worker.state = .inFlight then 1 else 0))
    (hissued : phase'.completed + phase'.ready + phase'.submitting + phase'.inFlight +
        (phase.workers w).issued =
      phase.completed + phase.ready + phase.submitting + phase.inFlight + worker.issued)
    (hshare : worker.issued ≤ share total W w)
    (hselected : ∀ v, v ∈ selected' ↔ if v = w then worker.state = .submitting else v ∈ selected)
    (hnodup : selected'.Nodup) (hinBounds : phase'.overrun = false) : Counts selected' phase' := by
  have hcount := fun state => count_setWorker phase w worker state
  have hsum := sum_issued_setWorker phase w worker
  have hphase : ∀ state, phase'.count state = (phase.setWorker w worker).count state := by
    intro state
    rw [count, hworkers]
    rfl
  constructor
  · have := hcount .ready
    rw [hphase]
    rw [← h.ready] at this
    omega
  · have := hcount .submitting
    rw [hphase]
    rw [← h.submitting] at this
    omega
  · have := hcount .inFlight
    rw [hphase]
    rw [← h.inFlight] at this
    omega
  · have := h.issued
    rw [hworkers]
    omega
  · intro v
    rw [hworkers]
    by_cases hv : v = w
    · subst hv
      rw [setWorker_workers_self]
      exact hshare
    · rw [setWorker_workers_ne hv]
      exact h.bounded v
  · intro v
    rw [hworkers, hselected v]
    by_cases hv : v = w
    · subst hv
      rw [setWorker_workers_self, if_pos rfl]
    · rw [setWorker_workers_ne hv, if_neg hv]
      exact h.held v
  · exact hnodup
  · exact hinBounds

theorem Counts.count_pos (h : Counts selected phase) :
    ((phase.workers w).state = .ready → 0 < phase.ready) ∧
    ((phase.workers w).state = .submitting → 0 < phase.submitting) ∧
    ((phase.workers w).state = .inFlight → 0 < phase.inFlight) := by
  rw [h.ready, h.submitting, h.inFlight]
  exact ⟨fun hstate => census_pos hstate, fun hstate => census_pos hstate,
    fun hstate => census_pos hstate⟩

/-- The counters of distinct states sum up to no more than the workers. -/
theorem Counts.le_workers (h : Counts selected phase) :
    phase.ready + phase.submitting + phase.inFlight ≤ W := by
  have hsum := sum_census_le (fun w => (phase.workers w).state) {.ready, .submitting, .inFlight}
  rw [Fintype.card_fin, Finset.sum_insert (by decide), Finset.sum_insert (by decide),
    Finset.sum_singleton] at hsum
  rw [h.ready, h.submitting, h.inFlight, Nat.add_assoc]
  exact hsum

/-- The completed and the pending requests are within the total. -/
theorem Counts.le_total (h : Counts selected phase) (hW : 0 < W) :
    phase.completed + phase.ready + phase.submitting + phase.inFlight ≤ total := by
  calc
    _ = ∑ w, (phase.workers w).issued := h.issued
    _ ≤ ∑ w : Fin W, share total W w := Finset.sum_le_sum fun w _ => h.bounded w
    _ = total := sum_share hW

theorem Counts.length_selected (h : Counts selected phase) (hw : w ∉ selected) :
    selected.length < W := by
  have hnodup : (w :: selected).Nodup := List.nodup_cons.mpr ⟨hw, h.nodup⟩
  have hlength := hnodup.length_le_card
  rw [Fintype.card_fin] at hlength
  exact hlength

/-! ## The moves of the dispatcher -/

theorem Counts.select (h : Counts selected phase)
    (hstate : (phase.workers w).state = .ready) (hlength : selected.length < maxWorkers) :
    Counts (selected ++ [w]) (selectWorker phase w selected.length) := by
  have hpos := h.count_pos.1 hstate
  have hnot : w ∉ selected := by
    rw [← h.held w, hstate]
    decide
  refine h.setWorker w { phase.workers w with state := .submitting } rfl ?_ ?_ ?_ ?_ (h.bounded w)
    ?_ ?_ ?_
  · rw [hstate]
    change phase.ready - 1 + 1 = phase.ready + 0
    omega
  · rw [hstate]
    rfl
  · rw [hstate]
    rfl
  · change phase.completed + (phase.ready - 1) + (phase.submitting + 1) + phase.inFlight +
      (phase.workers w).issued = _ + (phase.workers w).issued
    omega
  · intro v
    by_cases hv : v = w
    · simp [hv]
    · simp [hv]
  · exact h.nodup.append (List.nodup_singleton w) (by simpa using hnot)
  · change (phase.overrun || decide (maxWorkers ≤ selected.length)) = false
    rw [h.inBounds, decide_eq_false (by omega)]
    rfl

/-- The worker at the head of the selection leaves it. -/
theorem Counts.mem_tail_iff (h : Counts (w :: selected) phase)
    (hstate : worker.state ≠ .submitting) (v : Fin W) :
    v ∈ selected ↔ if v = w then worker.state = .submitting else v ∈ w :: selected := by
  by_cases hv : v = w
  · subst hv
    rw [if_pos rfl]
    exact iff_of_false (List.nodup_cons.mp h.nodup).1 hstate
  · rw [if_neg hv, List.mem_cons]
    exact ⟨.inr, fun hmem => hmem.resolve_left hv⟩

theorem Counts.putBack (h : Counts (w :: selected) phase) :
    Counts selected (putBackWorker phase w) := by
  have hstate : (phase.workers w).state = .submitting := (h.held w).mpr List.mem_cons_self
  have hpos := h.count_pos.2.1 hstate
  refine h.setWorker w { phase.workers w with state := .ready } rfl ?_ ?_ ?_ ?_ (h.bounded w)
    ?_ ?_ ?_
  · rw [hstate]
    rfl
  · rw [hstate]
    change phase.submitting - 1 + 1 = phase.submitting + 0
    omega
  · rw [hstate]
    rfl
  · change phase.completed + (phase.ready + 1) + (phase.submitting - 1) + phase.inFlight +
      (phase.workers w).issued = _ + (phase.workers w).issued
    omega
  · exact h.mem_tail_iff nofun
  · exact (List.nodup_cons.mp h.nodup).2
  · exact h.inBounds

theorem Counts.launch (h : Counts (w :: selected) phase) (sequence : U32) :
    Counts selected (launchWorker phase w sequence) := by
  have hstate : (phase.workers w).state = .submitting := (h.held w).mpr List.mem_cons_self
  have hpos := h.count_pos.2.1 hstate
  refine h.setWorker w { phase.workers w with sequence := sequence, state := .inFlight } rfl
    ?_ ?_ ?_ ?_ (h.bounded w) ?_ ?_ ?_
  · rw [hstate]
    rfl
  · rw [hstate]
    change phase.submitting - 1 + 1 = phase.submitting + 0
    omega
  · rw [hstate]
    rfl
  · change phase.completed + phase.ready + (phase.submitting - 1) + (phase.inFlight + 1) +
      (phase.workers w).issued = _ + (phase.workers w).issued
    omega
  · exact h.mem_tail_iff nofun
  · exact (List.nodup_cons.mp h.nodup).2
  · exact h.inBounds

/-- Below the total a latency is recorded within the array. -/
theorem recordLatency_eq (phase : ThreadPhase W total) (latency : U64) :
    ∃ samples sum overrun, recordLatency phase latency =
        { phase with latency := samples, latencySum := sum, overrun := overrun } ∧
      (phase.completed < total → overrun = phase.overrun) := by
  unfold recordLatency
  split
  · exact ⟨phase.latency, phase.latencySum, phase.overrun, rfl, fun _ => rfl⟩
  · split
    · exact ⟨_, _, phase.overrun, rfl, fun _ => rfl⟩
    · next hfull => exact ⟨phase.latency, phase.latencySum, true, rfl, fun h => absurd h hfull⟩

theorem Counts.credit (h : Counts selected phase) (hW : 0 < W)
    (hstate : (phase.workers w).state = .inFlight) (response : Slot) (stop : Timespec) :
    Counts selected (creditWorker phase w response stop) := by
  have hpos := h.count_pos.2.2 hstate
  have htotal := h.le_total hW
  have hnot : w ∉ selected := by
    rw [← h.held w, hstate]
    decide
  have hlt : phase.completed < total := by omega
  obtain ⟨samples, sum, overrun, hrecorded, hoverrun⟩ :=
    recordLatency_eq phase (elapsedNanoseconds (phase.workers w).start stop)
  have hinBounds : overrun = false := (hoverrun hlt).trans h.inBounds
  unfold creditWorker
  dsimp only
  rw [hrecorded]
  refine h.setWorker w { phase.workers w with state := .complete } rfl ?_ ?_ ?_ ?_ (h.bounded w)
    ?_ h.nodup hinBounds
  · rw [hstate]
    rfl
  · rw [hstate]
    rfl
  · rw [hstate]
    change phase.inFlight - 1 + 1 = phase.inFlight + 0
    omega
  · change phase.completed + 1 + phase.ready + phase.submitting + (phase.inFlight - 1) +
      (phase.workers w).issued = _ + (phase.workers w).issued
    omega
  · intro v
    by_cases hv : v = w
    · subst hv
      rw [if_pos rfl]
      exact iff_of_false hnot nofun
    · rw [if_neg hv]

/-! ## The moves of a worker -/

theorem ite_eq_zero_of_not_pending {state counted : WorkerState} (h : ¬ state.Pending)
    (hcounted : counted.Pending) : (if state = counted then 1 else 0) = 0 := by
  rw [if_neg]
  rintro rfl
  exact h hcounted

/-- A worker changes with no request pending. -/
theorem Counts.quiet (h : Counts selected phase) (w : Fin W) (worker : Worker)
    (hold : ¬ (phase.workers w).state.Pending) (hnew : ¬ worker.state.Pending)
    (hissued : worker.issued = (phase.workers w).issued) :
    Counts selected (phase.setWorker w worker) := by
  have hcounted : ∀ counted : WorkerState, counted.Pending → ∀ n : ℕ,
      n + (if (phase.workers w).state = counted then 1 else 0) =
        n + (if worker.state = counted then 1 else 0) := by
    intro counted hpending n
    rw [ite_eq_zero_of_not_pending hold hpending, ite_eq_zero_of_not_pending hnew hpending]
  refine h.setWorker w worker rfl (hcounted .ready (by decide) _)
    (hcounted .submitting (by decide) _) (hcounted .inFlight (by decide) _) ?_ ?_ ?_ h.nodup
    h.inBounds
  · rw [hissued]
    rfl
  · rw [hissued]
    exact h.bounded w
  · intro v
    by_cases hv : v = w
    · subst hv
      rw [if_pos rfl, ← h.held v]
      refine iff_of_false ?_ ?_
      · intro hstate
        exact hold (.inr (.inl hstate))
      · intro hstate
        exact hnew (.inr (.inl hstate))
    · rw [if_neg hv]

theorem Counts.issue (h : Counts selected phase) (hstate : (phase.workers w).state = .idle)
    (hnext : (phase.workers w).issued < share total W w) (operation : ℕ) (start : Timespec) :
    Counts selected (issue phase w operation start) := by
  refine h.setWorker w { phase.workers w with
    start := start, state := .ready, issued := (phase.workers w).issued + 1 } rfl ?_ ?_ ?_ ?_ hnext
    ?_ h.nodup h.inBounds
  · rw [hstate]
    rfl
  · rw [hstate]
    rfl
  · rw [hstate]
    rfl
  · change phase.completed + (phase.ready + 1) + phase.submitting + phase.inFlight +
      (phase.workers w).issued = _ + ((phase.workers w).issued + 1)
    omega
  · intro v
    by_cases hv : v = w
    · subst hv
      rw [if_pos rfl, ← h.held v, hstate]
      exact iff_of_false nofun nofun
    · rw [if_neg hv]

end Sg200x.Ipc.Bench
