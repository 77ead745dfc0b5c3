import Sg200x.Ipc.BenchBooks

/-!
# The accounts of the benchmark

What the threads know, what the counters say and what the ledger holds fit together after every
section that does not fail.
-/

namespace Sg200x.Ipc.Bench

open Library.Turns ThreadPhase

variable {W total : ℕ}

/-- The accounts fit together, and no error has stopped the phase. -/
structure Balanced (selected : List (Fin W)) (threads : Fin W → WorkerPc)
    (phase : ThreadPhase W total) : Prop where
  workers : Threads threads phase
  counts : Counts selected phase
  books : Books phase
  running : phase.stop = false

variable {selected : List (Fin W)} {threads : Fin W → WorkerPc} {phase phase' : ThreadPhase W total}
  {w : Fin W}

theorem Balanced.congr (h : Balanced selected threads phase)
    (haccounts : phase'.accounts = phase.accounts) (hledger : phase'.ledger = phase.ledger)
    (hstop : phase'.stop = phase.stop) : Balanced selected threads phase' := by
  have hworkers : phase'.workers = phase.workers := congrArg Prod.fst haccounts
  refine ⟨?_, h.counts.congr haccounts, h.books.congr hworkers hledger, hstop.trans h.running⟩
  intro v
  rw [hworkers]
  exact h.workers v

/-! ## The moves of the dispatcher -/

theorem Balanced.select (h : Balanced selected threads phase)
    (hstate : (phase.workers w).state = .ready) (hlength : selected.length < maxWorkers) :
    Balanced (selected ++ [w]) threads (selectWorker phase w selected.length) := by
  have hpending : (phase.workers w).state.Pending := .inl hstate
  refine ⟨?_, h.counts.select hstate hlength, ?_, h.running⟩
  · exact h.workers.move w { phase.workers w with state := .submitting } rfl hpending
      (.inl (.inr (.inl rfl))) rfl rfl
  · exact h.books.shift w .submitting rfl rfl hpending (hstate ▸ nofun) (by decide) nofun

theorem Balanced.putBack (h : Balanced (w :: selected) threads phase) :
    Balanced selected threads (putBackWorker phase w) := by
  have hstate : (phase.workers w).state = .submitting := (h.counts.held w).mpr List.mem_cons_self
  have hpending : (phase.workers w).state.Pending := .inr (.inl hstate)
  refine ⟨?_, h.counts.putBack, ?_, h.running⟩
  · exact h.workers.move w { phase.workers w with state := .ready } rfl hpending
      (.inl (.inl rfl)) rfl rfl
  · exact h.books.shift w .ready rfl rfl hpending (hstate ▸ nofun) (by decide) nofun

theorem Balanced.launch (h : Balanced (w :: selected) threads phase) {sequence : U32}
    (hfresh : findInFlightWorker phase sequence = none) :
    Balanced selected threads (launchWorker phase w sequence) := by
  have hstate : (phase.workers w).state = .submitting := (h.counts.held w).mpr List.mem_cons_self
  refine ⟨?_, h.counts.launch sequence, h.books.launch hstate hfresh, h.running⟩
  exact h.workers.move w { phase.workers w with sequence := sequence, state := .inFlight } rfl
    (.inr (.inl hstate)) (.inl (.inr (.inr rfl))) rfl rfl

theorem creditWorker_stop (phase : ThreadPhase W total) (w : Fin W) (response : Slot)
    (stop : Timespec) : (creditWorker phase w response stop).stop = phase.stop := by
  obtain ⟨samples, sum, overrun, hrecorded, -⟩ :=
    recordLatency_eq phase (elapsedNanoseconds (phase.workers w).start stop)
  unfold creditWorker
  dsimp only
  rw [hrecorded]
  rfl

theorem Balanced.credit (h : Balanced selected threads phase) (hW : 0 < W) {response : Slot}
    (hfound : findInFlightWorker phase response.sequence = some w) (stop : Timespec) :
    Balanced selected threads (creditWorker phase w response stop) := by
  obtain ⟨hstate, -⟩ := findInFlightWorker_eq_some hfound
  have hpending : (phase.workers w).state.Pending := .inr (.inr hstate)
  obtain ⟨operation, -, hissued⟩ := (h.workers w).waiting_of_pending hpending
  constructor
  · exact h.workers.move w { phase.workers w with state := .complete }
      (creditWorker_workers phase w response stop) hpending (.inr rfl) rfl rfl
  · exact h.counts.credit hW hstate response stop
  · exact h.books.credit hfound (by omega) stop
  · rw [creditWorker_stop]
    exact h.running

/-! ## The loops of the dispatcher -/

theorem Balanced.selectWorkers (hmax : W ≤ maxWorkers) (workers : List (Fin W))
    {taken : List (Fin W × Slot)} (h : Balanced (taken.map Prod.fst) threads phase) :
    Balanced ((selectWorkers workers phase taken).2.map Prod.fst) threads
      (selectWorkers workers phase taken).1 := by
  induction workers generalizing phase taken with
  | nil => exact h
  | cons w workers ih =>
      unfold Bench.selectWorkers
      split
      · exact ih h
      · next hready =>
        have hstate : (phase.workers w).state = .ready := by simpa using hready
        have hnot : w ∉ taken.map Prod.fst := by
          rw [← h.counts.held w, hstate]
          decide
        have hlength := h.counts.length_selected hnot
        have hselected := h.select hstate (by omega)
        rw [List.length_map] at hselected
        apply ih
        rw [List.map_append]
        exact hselected

theorem Balanced.putBackWorkers (h : Balanced selected threads phase) :
    Balanced [] threads (putBackWorkers selected phase) := by
  induction selected generalizing phase with
  | nil => exact h
  | cons w selected ih => exact ih h.putBack

theorem Balanced.launchWorkers {accepted : List (Fin W × U32)}
    (h : Balanced (accepted.map Prod.fst ++ selected) threads phase)
    (hlaunched : launchWorkers accepted phase = .ok phase') :
    Balanced selected threads phase' := by
  induction accepted generalizing phase with
  | nil =>
      cases hlaunched
      exact h
  | cons entry accepted ih =>
      obtain ⟨w, sequence⟩ := entry
      unfold Bench.launchWorkers at hlaunched
      split at hlaunched
      · cases hlaunched
      · next hgood =>
        have hfresh : findInFlightWorker phase sequence = none := by
          simpa using (not_or.mp hgood).2
        exact ih (h.launch hfresh) hlaunched

theorem Balanced.creditResponses (h : Balanced selected threads phase) (hW : 0 < W)
    {messages : List Slot} {stop : Timespec}
    (hcredited : creditResponses stop messages phase = .ok phase') :
    Balanced selected threads phase' := by
  induction messages generalizing phase with
  | nil =>
      cases hcredited
      exact h
  | cons response messages ih =>
      unfold Bench.creditResponses at hcredited
      split at hcredited
      · cases hcredited
      · next w hfound =>
        split at hcredited
        · cases hcredited
        · exact ih (h.credit hW hfound stop) hcredited

/-- The section after a submission that returns no error: all workers leave the selection. -/
theorem Balanced.applySubmit (h : Balanced selected threads phase) {ret : ℤ} {submitted : ℕ}
    {sequences : List U32} (hlength : sequences.length = selected.length)
    (hok : (applySubmit phase selected ret submitted sequences).2 = 0) :
    Balanced [] threads (applySubmit phase selected ret submitted sequences).1 := by
  have hproto : -eproto ≠ 0 := by decide
  have hsplit : ((selected.zip sequences).take submitted).map Prod.fst ++
      selected.drop submitted = selected := by
    rw [List.map_take, List.map_fst_zip hlength.ge, List.take_append_drop]
  unfold Bench.applySubmit at hok ⊢
  split at hok
  · next hfailed => exact absurd hok hfailed.1
  · next hanswered =>
    rw [if_neg hanswered]
    dsimp only at hok ⊢
    split at hok
    · exact absurd hok hproto
    · next hgood =>
      rw [if_neg hgood]
      split at hok
      · exact absurd hok hproto
      · next launched hlaunch =>
        rw [← hsplit] at h
        refine (Balanced.launchWorkers ?_ hlaunch).putBackWorkers.congr rfl rfl rfl
        exact h.congr rfl rfl rfl

/-! ## The sections of a worker -/

/-- A worker is at the test of its loop. -/
structure AtTest (selected : List (Fin W)) (threads : Fin W → WorkerPc)
    (phase : ThreadPhase W total) (w : Fin W) (operation : ℕ) : Prop where
  others : ∀ v, v ≠ w → ThreadOk total v (phase.workers v) (threads v)
  counts : Counts selected phase
  books : Books phase
  running : phase.stop = false
  idle : (phase.workers w).state = .idle
  issued : (phase.workers w).issued = operation
  target : (phase.workers w).target = share total W w

theorem AtTest.congr {operation : ℕ} (h : AtTest selected threads phase w operation)
    (haccounts : phase'.accounts = phase.accounts) (hledger : phase'.ledger = phase.ledger)
    (hstop : phase'.stop = phase.stop) : AtTest selected threads phase' w operation := by
  have hworkers : phase'.workers = phase.workers := congrArg Prod.fst haccounts
  have hbooks := h.books.congr hworkers hledger
  refine ⟨?_, h.counts.congr haccounts, hbooks, hstop.trans h.running, ?_, ?_, ?_⟩
  · rw [hworkers]; exact h.others
  · rw [hworkers]; exact h.idle
  · rw [hworkers]; exact h.issued
  · rw [hworkers]; exact h.target

/-- A worker with no request pending gets to the test as an idle one. -/
theorem Balanced.resume (h : Balanced selected threads phase)
    (hold : ¬ (phase.workers w).state.Pending)
    (htarget : (phase.workers w).target = share total W w) :
    AtTest selected threads (phase.setState w .idle) w (phase.workers w).issued := by
  have hidle : ¬ WorkerState.idle.Pending := by decide
  have hworker : (phase.setState w .idle).workers w = { phase.workers w with state := .idle } :=
    setWorker_workers_self
  constructor
  · intro v hv
    rw [setState, setWorker_workers_ne hv]
    exact h.workers v
  · exact h.counts.quiet w { phase.workers w with state := .idle } hold hidle rfl
  · exact h.books.rest w { phase.workers w with state := .idle } rfl rfl hold hidle rfl
  · exact h.running
  · rw [hworker]
  · rw [hworker]
  · rw [hworker]
    exact htarget

theorem AtTest.prepare {operation : ℕ} (h : AtTest selected threads phase w operation) :
    AtTest selected threads (prepare phase w operation) w operation := by
  have hidle : ¬ (phase.workers w).state.Pending := by
    rw [h.idle]
    decide
  have hworker : (Bench.prepare phase w operation).workers w = { phase.workers w with
      seed := phase.seedBase + BitVec.ofNat 32 (operation * W + w)
      request := buildRequest phase.echoDataBytes
        (phase.seedBase + BitVec.ofNat 32 (operation * W + w)) } := setWorker_workers_self
  constructor
  · intro v hv
    rw [Bench.prepare, setWorker_workers_ne hv]
    exact h.others v hv
  · exact h.counts.quiet w _ hidle hidle rfl
  · exact h.books.rest w _ rfl rfl hidle hidle rfl
  · exact h.running
  · rw [hworker]
    exact h.idle
  · rw [hworker]
    exact h.issued
  · rw [hworker]
    exact h.target

theorem AtTest.issue {operation : ℕ} (h : AtTest selected threads phase w operation)
    (hmore : operation < share total W w) (start : Timespec) :
    Balanced selected (Function.update threads w (.waiting operation))
      (issue phase w operation start) := by
  have hissued := h.issued
  have htarget := h.target
  constructor
  · apply Threads.setWorker w h.others { phase.workers w with
      start := start, state := .ready, issued := (phase.workers w).issued + 1 } rfl
    exact ⟨.inl (.inl rfl), by dsimp only; omega, by dsimp only; omega, htarget⟩
  · exact h.counts.issue h.idle (by omega) operation start
  · subst hissued
    exact h.books.issue h.idle start
  · exact h.running

theorem AtTest.gate (h : AtTest selected threads phase w 0) :
    Balanced selected (Function.update threads w .gate) phase := by
  refine ⟨?_, h.counts, h.books, h.running⟩
  refine Threads.setWorker w h.others (phase.workers w) ?_ ⟨h.idle, h.issued, h.target⟩
  rw [ThreadPhase.setWorker, Function.update_eq_self]

theorem AtTest.exit {operation : ℕ} (h : AtTest selected threads phase w operation)
    (hdone : share total W w ≤ operation) :
    Balanced selected (Function.update threads w .exited) (phase.setState w .exited) := by
  have hexited : ¬ WorkerState.exited.Pending := by decide
  have hidle : ¬ (phase.workers w).state.Pending := by
    rw [h.idle]
    decide
  have hissued := h.issued
  have htarget := h.target
  have hbounded := h.counts.bounded w
  constructor
  · apply Threads.setWorker w h.others { phase.workers w with state := .exited } rfl
    exact ⟨rfl, by dsimp only; omega, htarget⟩
  · exact h.counts.quiet w { phase.workers w with state := .exited } hidle hexited rfl
  · exact h.books.rest w { phase.workers w with state := .exited } rfl rfl hidle hexited rfl
  · exact h.running

theorem failPhaseLocked_error_ne_zero (phase : ThreadPhase W total) (error : ℤ) :
    (failPhaseLocked phase error).error ≠ 0 := by
  unfold failPhaseLocked eio
  dsimp only
  split_ifs with hphase herror
  · exact herror
  · decide
  · exact hphase

/-- From the test to the next wait, or to the end, without an error. -/
theorem AtTest.run {operation : ℕ} (h : AtTest selected threads phase w operation)
    {clock : Answered Timespec} {signal : ℤ} {pc : WorkerPc}
    (hrun : runOperation phase w operation clock signal = (phase', pc))
    (hok : phase'.error = 0) : Balanced selected (Function.update threads w pc) phase' := by
  have htarget := h.target
  unfold runOperation at hrun
  split at hrun
  · next hmore =>
    cases clock with
    | error errno =>
        cases hrun
        exact absurd hok (failPhaseLocked_error_ne_zero _ _)
    | ok start =>
        dsimp only at hrun
        split at hrun
        · cases hrun
          exact absurd hok (failPhaseLocked_error_ne_zero _ _)
        · cases hrun
          exact h.prepare.issue (by omega) start
  · next hdone =>
    have hrunning := h.running
    cases hrun
    apply h.exit
    by_contra hlt
    exact hdone ⟨by omega, hrunning⟩

/-- A section of a worker that does not fail. -/
theorem Balanced.workerSection (h : Balanced selected threads phase) {clock : Answered Timespec}
    {signal : ℤ} {pc : WorkerPc}
    (hsection : workerSection phase w clock signal (threads w) = some (phase', pc))
    (hok : phase'.error = 0) : Balanced selected (Function.update threads w pc) phase' := by
  have hw := h.workers w
  have hrunning := h.running
  have hstay : Balanced selected (Function.update threads w (threads w)) phase := by
    rw [Function.update_eq_self]
    exact h
  cases hpc : threads w with
  | absent =>
      rw [hpc] at hsection
      cases hsection
  | created =>
      rw [hpc] at hsection hw
      obtain ⟨hstate, hissued, htarget⟩ := hw
      have hold : ¬ (phase.workers w).state.Pending := by
        rw [hstate]
        decide
      have htest := h.resume hold htarget
      rw [hissued] at htest
      unfold Bench.workerSection at hsection
      dsimp only at hsection
      split at hsection
      · cases hsection
        exact htest.gate.congr rfl rfl rfl
      · refine AtTest.run ?_ (Option.some.inj hsection) hok
        exact htest.congr rfl rfl rfl
  | gate =>
      rw [hpc] at hsection hw hstay
      obtain ⟨hstate, hissued, htarget⟩ := hw
      have htest : AtTest selected threads phase w 0 :=
        ⟨fun v _ => h.workers v, h.counts, h.books, hrunning, hstate, hissued, htarget⟩
      unfold Bench.workerSection at hsection
      dsimp only at hsection
      split at hsection
      · cases hsection
        exact hstay
      · exact htest.run (Option.some.inj hsection) hok
  | waiting operation =>
      rw [hpc] at hsection hw hstay
      obtain ⟨-, hissued, -, htarget⟩ := hw
      unfold Bench.workerSection at hsection
      dsimp only at hsection
      split at hsection
      · cases hsection
        exact hstay
      · next hwoken =>
        -- nothing has stopped the phase, so that the response has come
        have hcomplete : (phase.workers w).state = .complete := by
          by_contra hother
          exact hwoken ⟨hother, hrunning⟩
        have hold : ¬ (phase.workers w).state.Pending := by
          rw [hcomplete]
          decide
        have htest := h.resume hold htarget
        rw [hissued] at htest
        exact htest.run (Option.some.inj hsection) hok
  | exited =>
      rw [hpc] at hsection
      cases hsection

end Sg200x.Ipc.Bench
