import Sg200x.Ipc.WindowedRuns

/-!
# A phase can always be finished

Whatever has been accepted and delivered so far, the firmware can execute what is left, and then the
phase reaps, submits and comes to its end.
-/

namespace Sg200x.Ipc.Windowed

open Shm App Driver Threads Library Library.Transition
open Bench (Timespec Answered U64 elapsedNanoseconds buildRequest validateResponse)

variable {arguments : Arguments} {s t : State arguments} {base : ℕ}

/-! ## What is left to do -/

namespace State

/-- What there is to submit, to execute, to take and to complete. -/
def work (s : State arguments) : ℕ :=
  4 * (arguments.count - s.submitted) +
    (s.kernel.rings.requests.length - s.kernel.rings.executed.length) +
    (s.kernel.rings.requests.length - s.kernel.rings.delivered) + s.inFlight

/-- How far it is to the next call that does some of the work. -/
def distance (s : State arguments) : ℕ :=
  match s.pc with
  | .returned _ => 0
  | .submitting _ _ => 1
  | .clock _ => 2
  | .reaping _ => 4
  | .reap _ => 5
  | .top => 6
  | .completing _ => 6
  | .waiting _ => 7
  | .check _ => if s.canSubmit ∨ 0 < s.inFlight then 8 else 1
  | .submit _ => if s.canSubmit then 3 else if 0 < s.inFlight then 9 else 2

def left (s : State arguments) : ℕ := 10 * s.work + s.distance

end State

theorem distance_lt (s : State arguments) : s.distance < 10 := by
  unfold State.distance
  split <;> (try split_ifs) <;> omega

theorem left_lt_of_work (h : t.work < s.work) : t.left < s.left := by
  have := distance_lt t
  unfold State.left
  omega

theorem left_lt_of_distance (hwork : t.work = s.work) (h : t.distance < s.distance) :
    t.left < s.left := by
  unfold State.left
  omega

/-! ## Each call does some of the work -/

theorem Underway.bounds {kernel : Kernel} {submitted completed : ℕ} {messages : List Slot}
    (hkernel : kernel.Inv)
    (h : Underway arguments base kernel submitted completed messages) :
    base + completed ≤ kernel.rings.delivered ∧ kernel.rings.delivered ≤ kernel.rings.executed.length ∧
      kernel.rings.executed.length ≤ kernel.rings.requests.length := by
  have hdelivered := h.delivered
  have hexecuted := hkernel.inOrder.executed.length_le
  rw [List.length_map] at hexecuted
  exact ⟨by omega, hkernel.inOrder.delivered, hexecuted⟩

/-- Where a phase that goes on stands, its requests and responses are accounted for. -/
theorem Inv.exists_underway (h : Inv base s) (hpc : ∀ ret, s.pc ≠ .returned ret) :
    ∃ messages, s.Underway base messages := by
  have hplace := h.place
  cases hs : s.pc with
  | returned ret => exact absurd hs (hpc ret)
  | completing messages =>
      rw [hs] at hplace
      exact ⟨messages, hplace⟩
  | reaping | clock | submitting | waiting =>
      rw [hs] at hplace
      exact ⟨[], hplace.1⟩
  | top | reap | submit | check =>
      rw [hs] at hplace
      exact ⟨[], hplace⟩

/-- A request that has not been executed can be. -/
theorem Inv.exists_execute (h : Inv base s) (hpc : ∀ ret, s.pc ≠ .returned ret)
    (hmore : s.kernel.rings.executed.length < s.kernel.rings.requests.length) (mmio : Mmio) :
    ∃ t, Windowed.execute mmio s = some t ∧ t.left < s.left := by
  obtain ⟨messages, hunderway⟩ := h.exists_underway hpc
  obtain ⟨hcompleted, hdelivered, -⟩ := hunderway.bounds h.kernel
  have hrequests := hunderway.requests
  have hbalance := h.balance
  have hwindow := h.window
  have hslots := arguments.window_le
  obtain ⟨request, hnext⟩ : ∃ request,
      s.kernel.rings.requests[s.kernel.rings.executed.length]? = some request :=
    ⟨_, List.getElem?_eq_getElem hmore⟩
  have hwithin : Within { s.kernel.rings with
      executed := s.kernel.rings.executed ++ [(mmio, request)] } := by
    have hold := h.kernel.within.requests
    constructor <;>
    · dsimp only
      rw [List.length_append, List.length_singleton]
      omega
  refine ⟨{ s with kernel := { s.kernel with rings := { s.kernel.rings with
    executed := s.kernel.rings.executed ++ [(mmio, request)] } } }, ?_, left_lt_of_work ?_⟩
  · unfold Windowed.execute
    rw [hnext]
    exact if_pos hwithin
  · unfold State.work
    dsimp only
    rw [List.length_append, List.length_singleton]
    omega

/-- The response that is next can be credited. -/
theorem Inv.exists_clock {message : Slot} {messages : List Slot} (h : Inv base s)
    (hpc : s.pc = .completing (message :: messages)) (stop : Timespec) :
    ∃ t, Windowed.clock (.ok stop) s = some t ∧ t.left < s.left ∧ ∀ ret, t.pc ≠ .returned ret := by
  obtain ⟨latency, latencySum, tickets, hinFlight, hcomplete, -, -⟩ :=
    h.completeResponse (h.at hpc) stop
  refine ⟨State.goto { s with
    latency := latency
    latencySum := latencySum
    tickets := tickets
    inFlight := s.inFlight - 1
    completed := s.completed + 1 } (.completing messages), ?_, left_lt_of_work ?_, ?_⟩
  · unfold Windowed.clock
    simp only [hpc, hcomplete]
  · unfold State.work State.goto
    dsimp only
    omega
  · intro ret hret
    cases hret

/-- A response that is there can be taken. -/
theorem Inv.exists_reap (h : Inv base s) {progressed : Bool} (hpc : s.pc = .reaping progressed)
    (hall : s.kernel.rings.executed.length = s.kernel.rings.requests.length) :
    ∃ t, Windowed.reapCall (.moved 1) progressed s = some t ∧ t.left < s.left ∧
      ∀ ret, t.pc ≠ .returned ret := by
  obtain ⟨hunderway, hinFlight⟩ : s.Underway base [] ∧ 0 < s.inFlight := h.at hpc
  have hcount : 0 < s.reapCount := (h.sound.reaping progressed hpc).1
  have hrequests := hunderway.requests
  have hdelivered := hunderway.delivered
  have hbalance := h.balance
  rw [List.length_nil] at hdelivered
  obtain ⟨messages, htake⟩ : ∃ messages, Threads.take s.kernel.rings 1 = some
      (messages, { s.kernel.rings with delivered := s.kernel.rings.delivered + 1 }) :=
    ⟨_, if_pos (by omega)⟩
  have hread : (Reply.moved 1).read s.reapCount = some (none, 1) := if_neg (by omega)
  refine ⟨State.goto { s with kernel := { s.kernel with rings := { s.kernel.rings with
    delivered := s.kernel.rings.delivered + 1 } } } (.completing (messages.map Response.message)),
    ?_, left_lt_of_work ?_, ?_⟩
  · unfold Windowed.reapCall
    rw [hread, Option.bind_eq_bind, Option.bind_some]
    dsimp only
    rw [htake, Option.bind_eq_bind, Option.bind_some]
  · unfold State.work State.goto
    dsimp only
    omega
  · intro ret hret
    cases hret

/-- A request can be accepted once the earlier ones are executed. -/
theorem Inv.exists_submit (h : Inv base s) {progressed : Bool} {start : Timespec}
    (hpc : s.pc = .submitting progressed start)
    (hall : s.kernel.rings.executed.length = s.kernel.rings.requests.length) :
    ∃ t, Windowed.submitCall (.moved 1) progressed start s = some t ∧ t.left < s.left ∧
      ∀ ret, t.pc ≠ .returned ret := by
  obtain ⟨hunderway, hcan⟩ : s.Underway base [] ∧ s.canSubmit = true := h.at hpc
  have hcount : 1 ≤ s.submitCount := (h.sound.submitting progressed start hpc).1
  have hread : (Reply.moved 1).read s.submitCount = some (none, 1) := if_neg (by omega)
  have hlength : (stamp s.kernel.nextSequence (s.requests.take 1)).1.length = 1 := by
    rw [length_stamp, State.take_requests hcount, List.length_map, List.length_range]
  have hwithin : Within { s.kernel.rings with
      requests := s.kernel.rings.requests ++ (stamp s.kernel.nextSequence (s.requests.take 1)).1 } := by
    refine ⟨?_, h.kernel.within.executed⟩
    dsimp only
    rw [List.length_append, hlength, hall]
    omega
  have hpublish : Threads.publish s.kernel (s.requests.take 1) = some
      ((stamp s.kernel.nextSequence (s.requests.take 1)).1, { s.kernel with
        rings := { s.kernel.rings with
          requests := s.kernel.rings.requests ++ (stamp s.kernel.nextSequence (s.requests.take 1)).1 }
        nextSequence := (stamp s.kernel.nextSequence (s.requests.take 1)).2 }) := if_pos hwithin
  obtain ⟨-, -, hsequences⟩ := h.publish hunderway hcount hpublish
  obtain ⟨tickets, htickets, -⟩ := h.takeTickets hcan hcount hsequences start
  obtain ⟨hmore, -⟩ := State.submitCount_le hcan hcount
  have hinFlight := h.kernel.inOrder.delivered
  refine ⟨{ s with
    kernel := { s.kernel with
      rings := { s.kernel.rings with
        requests := s.kernel.rings.requests ++ (stamp s.kernel.nextSequence (s.requests.take 1)).1 }
      nextSequence := (stamp s.kernel.nextSequence (s.requests.take 1)).2 }
    tickets := tickets
    submitted := s.submitted + 1
    inFlight := s.inFlight + 1
    stats := { s.stats with maxInFlight := max s.stats.maxInFlight (s.inFlight + 1) }
    pc := .submit true }, ?_, left_lt_of_work ?_, ?_⟩
  · unfold Windowed.submitCall
    rw [hread, Option.bind_eq_bind, Option.bind_some]
    dsimp only
    rw [hpublish, Option.bind_eq_bind, Option.bind_some]
    simp only [htickets]
  · unfold State.work
    dsimp only
    rw [List.length_append, hlength]
    omega
  · intro ret hret
    cases hret

/-! ## The end -/

/-- A stretch of the function comes closer to the next call. -/
theorem Inv.exists_run (h : Inv base s) (hrun : (Windowed.run s).isSome = true) :
    ∃ t, Windowed.run s = some t ∧ t.left < s.left ∧ ∀ ret, t.pc = .returned ret → ret = 0 := by
  have hdone : s.inFlight = 0 → s.canSubmit = false → s.completed = arguments.count := h.completed
  unfold Windowed.run at hrun ⊢
  cases hpc : s.pc with
  | top =>
      refine ⟨_, rfl, left_lt_of_distance rfl ?_, ?_⟩
      · split_ifs <;> simp [State.distance, State.goto, hpc]
      · intro ret hret
        simp only [State.goto] at hret
        split_ifs at hret
        exact (Pc.returned.inj hret).symm
  | reap progressed =>
      by_cases hinFlight : 0 < s.inFlight
      · refine ⟨_, if_pos hinFlight, left_lt_of_distance rfl ?_, fun ret hret => by cases hret⟩
        simp [State.distance, hpc]
      · refine ⟨_, if_neg hinFlight, left_lt_of_distance rfl ?_, fun ret hret => by cases hret⟩
        simp only [State.distance, State.goto, hpc, hinFlight, if_false]
        split_ifs <;> omega
  | completing messages =>
      cases messages with
      | nil =>
          refine ⟨_, rfl, left_lt_of_distance rfl ?_, fun ret hret => by cases hret⟩
          simp [State.distance, State.goto, hpc]
      | cons message messages =>
          rw [hpc] at hrun
          cases hrun
  | submit progressed =>
      refine ⟨_, rfl, left_lt_of_distance rfl ?_, ?_⟩
      · by_cases hcan : s.canSubmit = true
        · simp [State.distance, State.goto, hpc, hcan]
        · have hcan' : ({ s with pc := .check progressed } : State arguments).canSubmit = false := by
            change s.canSubmit = false
            simpa using hcan
          simp only [State.distance, State.goto, hpc, hcan, hcan', if_false, Bool.false_eq_true,
            false_or]
          split_ifs <;> omega
      · intro ret hret
        simp only [State.goto] at hret
        split_ifs at hret
  | check progressed =>
      by_cases hcompleted : s.completed = arguments.count
      · refine ⟨s.goto (.returned 0), ?_, left_lt_of_distance rfl ?_, ?_⟩
        · dsimp only
          rw [if_pos hcompleted]
        · simp only [State.distance, State.goto, hpc]
          split_ifs <;> omega
        · intro ret hret
          exact (Pc.returned.inj hret).symm
      · have hmore : s.canSubmit = true ∨ 0 < s.inFlight := by
          by_contra hnone
          obtain ⟨hcan, hinFlight⟩ := not_or.mp hnone
          exact hcompleted (hdone (by omega) (by simpa using hcan))
        have hevents : ¬ (s.events.pollIn = false ∧ s.events.pollOut = false) := by
          rintro ⟨hin, hout⟩
          rcases hmore with hcan | hinFlight
          · exact absurd (hcan.symm.trans hout) (by decide)
          · exact absurd hinFlight (of_decide_eq_false hin)
        refine ⟨_, rfl, left_lt_of_distance rfl ?_, ?_⟩
        · rw [if_neg hcompleted, if_neg hevents]
          split_ifs <;> simp [State.distance, State.goto, hpc, hmore]
        · intro ret hret
          rw [if_neg hcompleted, if_neg hevents] at hret
          simp only [State.goto] at hret
          split_ifs at hret
  | reaping | clock | submitting | waiting | returned =>
      rw [hpc] at hrun
      cases hrun

/-- A phase that has not failed. -/
def Going (base : ℕ) (s : State arguments) : Prop :=
  Inv base s ∧ ∀ ret, s.pc = .returned ret → ret = 0

theorem Going.step (h : Going base s) : s.pc = .returned 0 ∨
    ∃ label t, Windowed.step label s = some t ∧ Going base t ∧ t.left < s.left := by
  obtain ⟨hinv, hreturned⟩ := h
  by_cases hdone : s.pc = .returned 0
  · exact .inl hdone
  have hpc : ∀ ret, s.pc ≠ .returned ret := by
    intro ret hret
    rw [hreturned ret hret] at hret
    exact hdone hret
  right
  -- The firmware goes first.
  by_cases hmore : s.kernel.rings.executed.length < s.kernel.rings.requests.length
  · obtain ⟨t, ht, hlt⟩ := hinv.exists_execute hpc hmore (fun _ => 0#32)
    refine ⟨.execute (fun _ => 0#32), t, ht, ⟨hinv.execute ht, ?_⟩, hlt⟩
    obtain ⟨request, -, hrest⟩ := Option.bind_eq_some_iff.mp ht
    dsimp only at hrest
    split_ifs at hrest
    obtain rfl := Option.some.inj hrest
    exact hreturned
  obtain ⟨messages, hunderway⟩ := hinv.exists_underway hpc
  obtain ⟨-, -, hle⟩ := hunderway.bounds hinv.kernel
  have hall : s.kernel.rings.executed.length = s.kernel.rings.requests.length := by omega
  have next : ∀ (label : Label) (t : State arguments), label.Plain →
      Windowed.step label s = some t → (∀ ret, t.pc ≠ .returned ret) → t.left < s.left →
      ∃ label t, Windowed.step label s = some t ∧ Going base t ∧ t.left < s.left :=
    fun label t hplain ht hret hlt =>
      ⟨label, t, ht, ⟨hinv.step hplain ht, fun ret h => absurd h (hret ret)⟩, hlt⟩
  have hrun : (run s).isSome = true →
      ∃ label t, Windowed.step label s = some t ∧ Going base t ∧ t.left < s.left := by
    intro hrun
    obtain ⟨t, ht, hlt, hret⟩ := hinv.exists_run hrun
    exact ⟨.run, t, ht, ⟨hinv.run ht, hret⟩, hlt⟩
  cases hs : s.pc with
  | top | submit | check => exact hrun (by simp [run, hs])
  | reap progressed =>
      refine hrun ?_
      simp only [run, hs]
      split_ifs <;> rfl
  | completing messages =>
      cases messages with
      | nil => exact hrun (by simp [run, hs])
      | cons message messages =>
          obtain ⟨t, ht, hlt, hret⟩ := hinv.exists_clock hs ⟨0, 0⟩
          exact next (.clock (.ok ⟨0, 0⟩)) t trivial ht hret hlt
  | clock progressed =>
      refine next (.clock (.ok ⟨0, 0⟩)) { s with
        stats := { s.stats with submitCalls := s.stats.submitCalls + 1 }
        pc := .submitting progressed ⟨0, 0⟩ } trivial ?_ (fun ret hret => by cases hret)
        (left_lt_of_distance rfl ?_)
      · simp only [Windowed.step, clock, hs]
      · simp [State.distance, hs]
  | reaping progressed =>
      obtain ⟨t, ht, hlt, hret⟩ := hinv.exists_reap hs hall
      exact next (.library (.moved 1)) t trivial (by simp only [Windowed.step, hs, ht]) hret hlt
  | submitting progressed start =>
      obtain ⟨t, ht, hlt, hret⟩ := hinv.exists_submit hs hall
      exact next (.library (.moved 1)) t trivial (by simp only [Windowed.step, hs, ht]) hret hlt
  | waiting events =>
      obtain ⟨-, hevents⟩ : s.Underway base [] ∧ (events.pollIn = true ∨ events.pollOut = true) :=
        hinv.at hs
      refine next (.poll (.ready ⟨⟨true, true⟩, false, false, false⟩)) { s with
        stats := { s.stats with pollWakeups := s.stats.pollWakeups + 1 }
        pc := .top } trivial ?_ (fun ret hret => by cases hret) (left_lt_of_distance rfl ?_)
      · simp [Windowed.step, hs, wakeUp, hevents]
      · simp [State.distance, hs]
  | returned ret => exact absurd hs (hpc ret)

/-- Every phase that has not failed can be brought to its end, whatever has been accepted and
delivered so far. -/
theorem phase_can_finish {kernel : Kernel} (hkernel : kernel.Inv) (hdrained : Drained kernel)
    (h : ReachableBy (phase arguments kernel) (fun label _ => label.Plain) s)
    (hgoing : ∀ ret, s.pc = .returned ret → ret = 0) :
    ∃ labels t, exec step labels s = some t ∧ t.pc = .returned 0 ∧
      t.completed = arguments.count ∧ Drained t.kernel := by
  obtain ⟨labels, t, hexec, ⟨hinv, -⟩, hdone⟩ :=
    exists_exec (S := phase arguments kernel) (Going kernel.rings.requests.length)
      (fun t => t.pc = .returned 0) State.left (fun _ hs => hs.step) (s := s) ⟨reachable_inv hkernel hdrained h, hgoing⟩
  obtain ⟨hcompleted, -, -, hend, -⟩ := hinv.sound.finished hdone
  exact ⟨labels, t, hexec, hdone, hcompleted, hend⟩

/-! ### Two pings in a window of two -/

def twoPings : Arguments where
  count := 2
  echoDataBytes := 0
  seedBase := 7#32
  window := 2
  useBatch := true
  count_le := by decide
  echoDataBytes_le := by decide
  window_pos := by decide
  window_le := by decide

def idleKernel : Kernel := ⟨⟨[], [], 0⟩, 1#32, true⟩

theorem inv_idleKernel : idleKernel.Inv where
  inOrder := ⟨List.nil_prefix, Nat.le_refl _⟩
  within := by decide
  sequences := rfl
  next := rfl

theorem drained_idleKernel : Drained idleKernel := ⟨rfl, rfl⟩

/-- Both are submitted at once; the response to the first is reaped before the second is executed. -/
def pingRun : List Label :=
  [.run, .run, .run, .clock (.ok ⟨0, 0⟩), .library (.moved 2), .run, .run, .run, .run,
    .execute fun _ => 0#32, .library (.moved 1), .clock (.ok ⟨0, 5⟩), .run, .run,
    .library (.failed ⟨11, by decide⟩ 0), .run, .run, .run, .execute fun _ => 0#32, .run, .library (.moved 1),
    .clock (.ok ⟨0, 9⟩), .run, .run, .run, .run]

theorem reachable_pingRun (n : ℕ) {t : State twoPings}
    (hexec : exec step (pingRun.take n) (State.initial idleKernel none) = some t) :
    ReachableBy (phase twoPings idleKernel) (fun label _ => label.Plain) t := by
  refine ReachableBy.exec (.start ⟨none, rfl⟩) (fun label hlabel _ => ?_) hexec
  have hplain : ∀ label ∈ pingRun, label.Plain := by
    simp only [pingRun, List.forall_mem_cons, Label.Plain, true_and]
    exact ⟨by decide, by simp⟩
  exact hplain label (List.mem_of_mem_take hlabel)

theorem phase_sound_pingRun : ∃ s : State twoPings, s.pc = .returned 0 ∧ Sound 0 s := by
  have hrun : ((exec step (pingRun.take 26)
      (State.initial idleKernel none : State twoPings)).map State.pc) =
        some (.returned 0) := by
    rfl
  obtain ⟨s, hexec, hpc⟩ := Option.map_eq_some_iff.mp hrun
  exact ⟨s, hpc, phase_sound inv_idleKernel drained_idleKernel (reachable_pingRun 26 hexec)⟩

theorem phase_can_finish_pingRun :
    ∃ (s : State twoPings) (labels : List Label) (t : State twoPings), s.pc = .completing [] ∧
      exec step labels s = some t ∧ t.pc = .returned 0 ∧ t.completed = 2 ∧ Drained t.kernel := by
  have hrun : ((exec step (pingRun.take 12)
      (State.initial idleKernel none : State twoPings)).map State.pc) =
        some (.completing []) := by
    rfl
  obtain ⟨s, hexec, hpc⟩ := Option.map_eq_some_iff.mp hrun
  obtain ⟨labels, t, ht⟩ := phase_can_finish inv_idleKernel drained_idleKernel
    (reachable_pingRun 12 hexec) (fun ret hret => by rw [hpc] at hret; cases hret)
  exact ⟨s, labels, t, hpc, ht⟩

end Sg200x.Ipc.Windowed
