import Sg200x.Ipc.BenchCounts

/-!
# The requests of the benchmark

Each worker issues its indices in turn and has at most one request outstanding, the one it issued
last.  A response is credited to the worker whose outstanding request it answers.
-/

namespace Sg200x.Ipc.Bench

open Library.Turns ThreadPhase

variable {W total : ℕ}

/-- How many requests of a worker have been answered. -/
def Worker.answered (worker : Worker) : ℕ :=
  if worker.state.Pending then worker.issued - 1 else worker.issued

/-- The request that a worker in flight waits for. -/
def ThreadPhase.currentRequest (phase : ThreadPhase W total) (w : Fin W) : Request W :=
  ⟨(phase.workers w).sequence, w, index W w ((phase.workers w).issued - 1)⟩

structure Books (phase : ThreadPhase W total) : Prop where
  issued : InTurn phase.ledger.issued fun w => (phase.workers w).issued
  credited : InTurn phase.ledger.credited fun w => (phase.workers w).answered
  outstanding : ∀ w, phase.ledger.outstanding.filter (fun request => request.worker = w) =
    if (phase.workers w).state = .inFlight then [phase.currentRequest w] else []
  sequences : ∀ v w, (phase.workers v).state = .inFlight → (phase.workers w).state = .inFlight →
    (phase.workers v).sequence = (phase.workers w).sequence → v = w
  answers : ∀ credit ∈ phase.ledger.credits, ∃ request, credit.request = some request ∧
    request.worker = credit.worker ∧ request.sequence = credit.response.sequence

variable {phase phase' : ThreadPhase W total} {w : Fin W} {worker : Worker}

theorem Books.congr (h : Books phase) (hworkers : phase'.workers = phase.workers)
    (hledger : phase'.ledger = phase.ledger) : Books phase' := by
  constructor
  · rw [hworkers, hledger]; exact h.issued
  · rw [hworkers, hledger]; exact h.credited
  · simp only [currentRequest, hworkers, hledger]; exact h.outstanding
  · rw [hworkers]; exact h.sequences
  · rw [hledger]; exact h.answers

/-- An outstanding request is the one its worker waits for. -/
theorem Books.mem_outstanding (h : Books phase) {request : Request W} :
    request ∈ phase.ledger.outstanding ↔
      (phase.workers request.worker).state = .inFlight ∧
        request = phase.currentRequest request.worker := by
  have hfilter : request ∈ phase.ledger.outstanding ↔
      request ∈ phase.ledger.outstanding.filter fun other => other.worker = request.worker := by
    simp
  rw [hfilter, h.outstanding]
  by_cases hstate : (phase.workers request.worker).state = .inFlight
  · simp [hstate]
  · simp [hstate]

/-- No two outstanding requests have the same sequence. -/
theorem Books.sequences_nodup (h : Books phase) :
    (phase.ledger.outstanding.map Request.sequence).Nodup := by
  have hworker : ∀ w,
      (phase.ledger.outstanding.filter fun request => request.worker = w).Nodup := by
    intro w
    rw [h.outstanding]
    split
    · exact List.nodup_singleton _
    · exact List.nodup_nil
  have houtstanding : phase.ledger.outstanding.Nodup := nodup_of_filter Request.worker hworker
  apply houtstanding.map_on
  intro request hrequest other hother hsequence
  obtain ⟨hstate, heq⟩ := h.mem_outstanding.mp hrequest
  obtain ⟨hstate', heq'⟩ := h.mem_outstanding.mp hother
  have hsame : request.worker = other.worker := by
    apply h.sequences _ _ hstate hstate'
    calc
      _ = request.sequence := by rw [heq]; rfl
      _ = other.sequence := hsequence
      _ = _ := by rw [heq']; rfl
  rw [heq, heq', hsame]

theorem findInFlightWorker_eq_some {sequence : U32}
    (h : findInFlightWorker phase sequence = some w) :
    (phase.workers w).state = .inFlight ∧ (phase.workers w).sequence = sequence := by
  have hw := List.find?_some h
  exact of_decide_eq_true hw

theorem findInFlightWorker_eq_none {sequence : U32}
    (h : findInFlightWorker phase sequence = none) (w : Fin W)
    (hstate : (phase.workers w).state = .inFlight) : (phase.workers w).sequence ≠ sequence := by
  intro hsequence
  have hw := List.find?_eq_none.mp h w (List.mem_finRange w)
  exact hw (decide_eq_true ⟨hstate, hsequence⟩)

/-- The request that a response answers is the one of the worker that is found. -/
theorem Books.find_outstanding (h : Books phase) {sequence : U32}
    (hfound : findInFlightWorker phase sequence = some w) :
    phase.ledger.outstanding.find? (fun request => request.sequence = sequence) =
      some (phase.currentRequest w) := by
  obtain ⟨hstate, hsequence⟩ := findInFlightWorker_eq_some hfound
  have hmem : phase.currentRequest w ∈ phase.ledger.outstanding :=
    h.mem_outstanding.mpr ⟨hstate, rfl⟩
  cases hfind : phase.ledger.outstanding.find? fun request => request.sequence = sequence with
  | none =>
      have hnone := List.find?_eq_none.mp hfind _ hmem
      exact absurd (decide_eq_true hsequence) hnone
  | some request =>
      obtain ⟨hother, hrequest⟩ := h.mem_outstanding.mp (List.mem_of_find?_eq_some hfind)
      have hrequestSequence : request.sequence = sequence := by
        simpa using List.find?_some hfind
      have hworker : request.worker = w := by
        apply h.sequences _ _ hother hstate
        rw [hsequence, ← hrequestSequence, hrequest]
        rfl
      rw [hrequest, hworker]

/-- A worker changes, and the ledger with it. -/
theorem Books.setWorker (h : Books phase) (w : Fin W) (worker : Worker)
    (hworkers : phase'.workers = (phase.setWorker w worker).workers)
    (hissued : InTurn phase'.ledger.issued
      (Function.update (fun v => (phase.workers v).issued) w worker.issued))
    (hcredited : InTurn phase'.ledger.credited
      (Function.update (fun v => (phase.workers v).answered) w worker.answered))
    (hself : phase'.ledger.outstanding.filter (fun request => request.worker = w) =
      if worker.state = .inFlight then [⟨worker.sequence, w, index W w (worker.issued - 1)⟩] else [])
    (hothers : ∀ v, v ≠ w → phase'.ledger.outstanding.filter (fun request => request.worker = v) =
      phase.ledger.outstanding.filter fun request => request.worker = v)
    (hfresh : worker.state = .inFlight → ∀ v, v ≠ w → (phase.workers v).state = .inFlight →
      (phase.workers v).sequence ≠ worker.sequence)
    (hanswers : ∀ credit ∈ phase'.ledger.credits, ∃ request, credit.request = some request ∧
      request.worker = credit.worker ∧ request.sequence = credit.response.sequence) :
    Books phase' := by
  constructor
  · have hcomp : (fun v => (phase'.workers v).issued) =
        Function.update (fun v => (phase.workers v).issued) w worker.issued := by
      rw [hworkers]
      exact Function.comp_update Worker.issued phase.workers w worker
    rw [hcomp]
    exact hissued
  · have hcomp : (fun v => (phase'.workers v).answered) =
        Function.update (fun v => (phase.workers v).answered) w worker.answered := by
      rw [hworkers]
      exact Function.comp_update Worker.answered phase.workers w worker
    rw [hcomp]
    exact hcredited
  · intro v
    unfold currentRequest
    rw [hworkers]
    by_cases hv : v = w
    · subst hv
      rw [setWorker_workers_self]
      exact hself
    · rw [setWorker_workers_ne hv, hothers v hv]
      exact h.outstanding v
  · intro u v hu hv huv
    rw [hworkers] at hu hv huv
    by_cases huw : u = w
    · by_cases hvw : v = w
      · rw [huw, hvw]
      · subst huw
        rw [setWorker_workers_self] at hu huv
        rw [setWorker_workers_ne hvw] at hv huv
        exact absurd huv.symm (hfresh hu v hvw hv)
    · rw [setWorker_workers_ne huw] at hu huv
      by_cases hvw : v = w
      · subst hvw
        rw [setWorker_workers_self] at hv huv
        exact absurd huv (hfresh hv u huw hu)
      · rw [setWorker_workers_ne hvw] at hv huv
        exact h.sequences u v hu hv huv
  · exact hanswers

/-- A worker changes that is not in flight. -/
theorem Books.quiet (h : Books phase) (w : Fin W) (worker : Worker)
    (hworkers : phase'.workers = (phase.setWorker w worker).workers)
    (hledger : phase'.ledger = phase.ledger)
    (hold : (phase.workers w).state ≠ .inFlight) (hnew : worker.state ≠ .inFlight)
    (hissued : worker.issued = (phase.workers w).issued)
    (hanswered : worker.answered = (phase.workers w).answered) : Books phase' := by
  have hself := h.outstanding w
  rw [if_neg hold] at hself
  apply h.setWorker w worker hworkers
  · rw [hissued, hledger, Function.update_eq_self w fun v => (phase.workers v).issued]
    exact h.issued
  · rw [hanswered, hledger, Function.update_eq_self w fun v => (phase.workers v).answered]
    exact h.credited
  · rw [hledger, hself, if_neg hnew]
  · intro v hv
    rw [hledger]
  · intro hstate
    exact absurd hstate hnew
  · rw [hledger]
    exact h.answers

/-! ## The moves -/

theorem answered_of_pending (h : worker.state.Pending) : worker.answered = worker.issued - 1 :=
  if_pos h

theorem answered_of_not_pending (h : ¬ worker.state.Pending) : worker.answered = worker.issued :=
  if_neg h

/-- A worker changes with no request pending. -/
theorem Books.rest (h : Books phase) (w : Fin W) (worker : Worker)
    (hworkers : phase'.workers = (phase.setWorker w worker).workers)
    (hledger : phase'.ledger = phase.ledger) (hold : ¬ (phase.workers w).state.Pending)
    (hnew : ¬ worker.state.Pending) (hissued : worker.issued = (phase.workers w).issued) :
    Books phase' := by
  have hbefore : (phase.workers w).answered = (phase.workers w).issued :=
    answered_of_not_pending hold
  have hgrounded : ∀ state : WorkerState, ¬ state.Pending → state ≠ .inFlight := by
    intro state hstate hflight
    exact hstate (.inr (.inr hflight))
  apply h.quiet w worker hworkers hledger (hgrounded _ hold) (hgrounded _ hnew) hissued
  rw [hbefore, answered_of_not_pending hnew, hissued]

/-- The dispatcher takes up a request or puts it back. -/
theorem Books.shift (h : Books phase) (w : Fin W) (state : WorkerState)
    (hworkers : phase'.workers = (phase.setState w state).workers)
    (hledger : phase'.ledger = phase.ledger) (hpending : (phase.workers w).state.Pending)
    (hold : (phase.workers w).state ≠ .inFlight) (hstate : state.Pending) (hnew : state ≠ .inFlight) :
    Books phase' := by
  have hbefore : (phase.workers w).answered = (phase.workers w).issued - 1 :=
    answered_of_pending hpending
  refine h.quiet w { phase.workers w with state := state } hworkers hledger hold hnew rfl ?_
  rw [hbefore]
  exact answered_of_pending hstate

/-- A worker issues its next request. -/
theorem Books.issue (h : Books phase) (hstate : (phase.workers w).state = .idle) (start : Timespec) :
    Books (issue phase w (phase.workers w).issued start) := by
  have hidle : ¬ (phase.workers w).state.Pending := by
    rw [hstate]
    decide
  have hself := h.outstanding w
  rw [hstate] at hself
  refine h.setWorker w { phase.workers w with
    start := start, state := .ready, issued := (phase.workers w).issued + 1 } rfl
    (h.issued.take w) ?_ hself (fun v hv => rfl) nofun h.answers
  have hanswered : (phase.workers w).answered = (phase.workers w).issued :=
    answered_of_not_pending hidle
  rw [answered_of_pending (.inl rfl)]
  change InTurn phase.ledger.credited (Function.update _ w ((phase.workers w).issued + 1 - 1))
  rw [Nat.add_sub_cancel, ← hanswered, Function.update_eq_self w fun v => (phase.workers v).answered]
  exact h.credited

/-- A request is accepted under a sequence that no other one has. -/
theorem Books.launch (h : Books phase) (hstate : (phase.workers w).state = .submitting)
    {sequence : U32} (hfresh : findInFlightWorker phase sequence = none) :
    Books (launchWorker phase w sequence) := by
  have hself := h.outstanding w
  rw [hstate] at hself
  refine h.setWorker w { phase.workers w with sequence := sequence, state := .inFlight } rfl
    ?_ ?_ ?_ ?_ ?_ h.answers
  · change InTurn phase.ledger.issued (Function.update _ w (phase.workers w).issued)
    rw [Function.update_eq_self w fun v => (phase.workers v).issued]
    exact h.issued
  · have hanswered : (phase.workers w).answered = (phase.workers w).issued - 1 :=
      answered_of_pending (.inr (.inl hstate))
    rw [answered_of_pending (.inr (.inr rfl))]
    change InTurn phase.ledger.credited (Function.update _ w ((phase.workers w).issued - 1))
    rw [← hanswered, Function.update_eq_self w fun v => (phase.workers v).answered]
    exact h.credited
  · change (phase.ledger.outstanding ++ [_]).filter _ = _
    rw [List.filter_append, hself, List.filter_singleton]
    simp [index]
  · intro v hv
    change (phase.ledger.outstanding ++ [_]).filter _ = _
    rw [List.filter_append, List.filter_singleton]
    simp [Ne.symm hv]
  · intro _ v _ hv
    exact findInFlightWorker_eq_none hfresh v hv

theorem creditWorker_workers (phase : ThreadPhase W total) (w : Fin W) (response : Slot)
    (stop : Timespec) : (creditWorker phase w response stop).workers =
      (phase.setWorker w { phase.workers w with state := .complete }).workers := by
  obtain ⟨samples, sum, overrun, hrecorded, -⟩ :=
    recordLatency_eq phase (elapsedNanoseconds (phase.workers w).start stop)
  unfold creditWorker
  dsimp only
  rw [hrecorded]
  rfl

/-- The request with a sequence in flight is the only one with it. -/
theorem Books.filter_sequence (h : Books phase) {sequence : U32}
    (hfound : findInFlightWorker phase sequence = some w) (v : Fin W) :
    (phase.ledger.outstanding.filter fun request => request.sequence ≠ sequence).filter
        (fun request => request.worker = v) =
      if v = w then [] else phase.ledger.outstanding.filter fun request => request.worker = v := by
  obtain ⟨hstate, hsequence⟩ := findInFlightWorker_eq_some hfound
  rw [List.filter_comm, h.outstanding v]
  by_cases hv : v = w
  · subst hv
    rw [if_pos hstate, if_pos rfl, List.filter_singleton]
    simp [currentRequest, hsequence]
  · rw [if_neg hv]
    by_cases hflight : (phase.workers v).state = .inFlight
    · have hother : (phase.workers v).sequence ≠ sequence := by
        intro heq
        exact hv (h.sequences v w hflight hstate (heq.trans hsequence.symm))
      rw [if_pos hflight, List.filter_singleton]
      simp [currentRequest, hother]
    · rw [if_neg hflight]
      rfl

/-- A response is credited to the worker that is found. -/
theorem Books.credit (h : Books phase) {response : Slot}
    (hfound : findInFlightWorker phase response.sequence = some w)
    (hissued : 0 < (phase.workers w).issued) (stop : Timespec) :
    Books (creditWorker phase w response stop) := by
  obtain ⟨hstate, hsequence⟩ := findInFlightWorker_eq_some hfound
  have hfind := h.find_outstanding hfound
  have hfilter := h.filter_sequence hfound
  have hcredited : (creditWorker phase w response stop).ledger.credited =
      phase.ledger.credited ++ [(w, index W w ((phase.workers w).issued - 1))] := by
    change List.filterMap _ (phase.ledger.credits ++ [_]) = _
    rw [List.filterMap_append, hfind]
    rfl
  refine h.setWorker w { phase.workers w with state := .complete }
    (creditWorker_workers phase w response stop) ?_ ?_ ?_ ?_ nofun ?_
  · change InTurn phase.ledger.issued (Function.update _ w (phase.workers w).issued)
    rw [Function.update_eq_self w fun v => (phase.workers v).issued]
    exact h.issued
  · have hbefore : (phase.workers w).answered = (phase.workers w).issued - 1 :=
      answered_of_pending (.inr (.inr hstate))
    have hcomplete : ¬ WorkerState.complete.Pending := by decide
    have hafter : ({ phase.workers w with state := .complete } : Worker).answered =
        (phase.workers w).answered + 1 := by
      rw [answered_of_not_pending hcomplete, hbefore]
      change (phase.workers w).issued = _
      omega
    rw [hafter, hcredited, ← hbefore]
    exact h.credited.take w
  · exact (hfilter w).trans (if_pos rfl)
  · intro v hv
    exact (hfilter v).trans (if_neg hv)
  · intro credit hmem
    rcases List.mem_append.mp hmem with hold | hnew
    · exact h.answers credit hold
    · rw [List.mem_singleton] at hnew
      subst hnew
      exact ⟨phase.currentRequest w, hfind, rfl, hsequence⟩

end Sg200x.Ipc.Bench
