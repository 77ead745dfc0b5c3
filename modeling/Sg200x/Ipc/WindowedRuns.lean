import Mathlib.Algebra.BigOperators.Group.List.Basic
import Mathlib.Data.BitVec
import Sg200x.Ipc.WindowedFacts
import Sg200x.Library.Progress

/-!
# A phase finishes what it begins

Over every run of `run_windowed_phase`, whatever the library accepts and delivers at a time: the
checks of the function never fail, a phase that returns 0 has had every request answered, and a
phase can always be brought to its end.
-/

namespace Sg200x.Ipc.Windowed

open Shm App Driver Threads Library Library.Transition
open Bench (Timespec Answered U64 elapsedNanoseconds buildRequest validateResponse)

variable {arguments : Arguments} {s t : State arguments} {base : ℕ}

/-! ## The invariant -/

/-- What a slot carries but for its sequence. -/
def content (slot : Slot) : U16 × Payload := (slot.length, slot.payload)

theorem eq_of_content {slot slot' : Slot} (h : content slot = content slot') :
    slot = { slot' with sequence := slot.sequence } := by
  obtain ⟨hlength, hpayload⟩ := Prod.mk.inj h
  rw [← hlength, ← hpayload]

def built (arguments : Arguments) (k : ℕ) : Slot :=
  buildRequest arguments.echoDataBytes (arguments.seedBase + BitVec.ofNat 32 k)

/-- The requests of the phase follow the `base` earlier ones, and `messages` have been taken but not
been looked at. -/
structure Underway (arguments : Arguments) (base : ℕ) (kernel : Kernel) (submitted completed : ℕ)
    (messages : List Slot) : Prop where
  requests : kernel.rings.requests.length = base + submitted
  built : (kernel.rings.requests.drop base).map content =
    (List.range submitted).map fun k => content (built arguments k)
  delivered : kernel.rings.delivered = base + completed + messages.length
  messages : ∀ j message, messages[j]? = some message →
    ∃ response, (answers kernel.rings)[base + completed + j]? = some response ∧
      response.message = message

def State.Underway (base : ℕ) (s : State arguments) (messages : List Slot) : Prop :=
  Windowed.Underway arguments base s.kernel s.submitted s.completed messages

/-- The codes that only the checks of the function return. -/
def ownErrors : List ℤ := [-eproto, -eoverflow, -edeadlk]

def Place (base : ℕ) (s : State arguments) : Pc → Prop
  | .returned ret =>
      (ret = 0 → s.completed = arguments.count ∧ s.Underway base []) ∧ ret ∉ ownErrors
  | .completing messages => s.Underway base messages
  | .reaping _ => s.Underway base [] ∧ 0 < s.inFlight
  | .clock _ | .submitting _ _ => s.Underway base [] ∧ s.canSubmit = true
  | .waiting events => s.Underway base [] ∧ (events.pollIn = true ∨ events.pollOut = true)
  | _ => s.Underway base []

structure Inv (base : ℕ) (s : State arguments) : Prop where
  kernel : s.kernel.Inv
  submitted : s.submitted ≤ arguments.count
  balance : s.submitted = s.completed + s.inFlight
  window : s.inFlight ≤ arguments.window
  tickets : Holds arguments.seedBase base s.completed s.inFlight s.tickets
  latency : ∀ samples, s.latency = some samples →
    s.latencySum = (samples.toList.take s.completed).sum
  overrun : s.overrun = false
  maxInFlight : s.stats.maxInFlight ≤ arguments.window
  place : Place base s s.pc

theorem inv_initial {kernel : Kernel} (hkernel : kernel.Inv) (hdrained : Drained kernel)
    (latency : Option (Vector U64 arguments.count)) :
    Inv kernel.rings.requests.length (State.initial kernel latency : State arguments) where
  kernel := hkernel
  submitted := Nat.zero_le _
  balance := rfl
  window := Nat.zero_le _
  tickets := by
    have hnone : held (fun _ => Ticket.zero) = fun _ => none := rfl
    unfold Holds State.initial
    rw [hnone, roll_none]
    exact List.Perm.refl _
  latency _ _ := rfl
  overrun := rfl
  maxInFlight := Nat.zero_le _
  place :=
    { requests := rfl
      built := by simp [State.initial]
      delivered := hdrained.delivered
      messages := by simp }

/-! ## Steps of the function alone -/

theorem Inv.goto (h : Inv base s) {pc : Pc} (hplace : Place base s pc) : Inv base (s.goto pc) :=
  { h with place := hplace }

theorem Inv.at (h : Inv base s) {pc : Pc} (hpc : s.pc = pc) : Place base s pc := hpc ▸ h.place

/-- A state with an error that the function has not found itself. -/
theorem Inv.fail (h : Inv base s) {ret : ℤ} (hret : ret ≠ 0) (hown : ret ∉ ownErrors) :
    Inv base (s.goto (.returned ret)) :=
  h.goto ⟨fun hzero => absurd hzero hret, hown⟩

/-- With nothing in flight and nothing to submit everything is completed. -/
theorem Inv.completed (h : Inv base s) (hinFlight : s.inFlight = 0) (hsubmit : s.canSubmit = false) :
    s.completed = arguments.count := by
  have hwindow := arguments.window_pos
  have hsubmitted := h.submitted
  have hbalance := h.balance
  have hcount : ¬ s.submitted < arguments.count := by
    intro hlt
    rw [State.canSubmit, decide_eq_false_iff_not] at hsubmit
    exact hsubmit ⟨hlt, by omega⟩
  omega

theorem Inv.run (h : Inv base s) (hstep : run s = some t) : Inv base t := by
  unfold Windowed.run at hstep
  cases hpc : s.pc with
  | top =>
      rw [hpc] at hstep
      obtain rfl := Option.some.inj hstep
      have hunderway := h.at hpc
      have hbalance := h.balance
      have hsubmitted := h.submitted
      refine h.goto ?_
      split_ifs with hlt
      · exact hunderway
      · exact ⟨fun _ => ⟨by omega, hunderway⟩, by decide⟩
  | reap progressed =>
      rw [hpc] at hstep
      dsimp only at hstep
      have hunderway := h.at hpc
      split_ifs at hstep with hinFlight
      · obtain rfl := Option.some.inj hstep
        exact { h with place := ⟨hunderway, hinFlight⟩ }
      · obtain rfl := Option.some.inj hstep
        exact h.goto hunderway
  | completing messages =>
      rw [hpc] at hstep
      cases messages with
      | nil =>
          obtain rfl := Option.some.inj hstep
          have hunderway : s.Underway base [] := h.at hpc
          exact h.goto hunderway
      | cons message messages => cases hstep
  | submit progressed =>
      rw [hpc] at hstep
      obtain rfl := Option.some.inj hstep
      have hunderway := h.at hpc
      refine h.goto ?_
      split_ifs with hcan
      · exact ⟨hunderway, hcan⟩
      · exact hunderway
  | check progressed =>
      rw [hpc] at hstep
      obtain rfl := Option.some.inj hstep
      have hunderway := h.at hpc
      refine h.goto ?_
      split_ifs with hcompleted _ hevents
      · exact ⟨fun _ => ⟨hcompleted, hunderway⟩, by decide⟩
      · exact hunderway
      · -- There is always something to wait for.
        refine absurd (h.completed ?_ hevents.2) hcompleted
        have hnone : decide (0 < s.inFlight) = false := hevents.1
        simpa using hnone
      · refine ⟨hunderway, ?_⟩
        by_contra hnone
        obtain ⟨hin, hout⟩ := not_or.mp hnone
        exact hevents ⟨by simpa using hin, by simpa using hout⟩
  | reaping | clock | submitting | waiting | returned =>
      rw [hpc] at hstep
      cases hstep

theorem errno_ne_zero (errno : ℕ+) : -((errno : ℕ) : ℤ) ≠ 0 := by
  have hpos : 0 < (errno : ℕ) := errno.2
  omega

theorem Inv.wakeUp (h : Inv base s) {events : Events} (hpc : s.pc = .waiting events)
    {wakeup : Wakeup} (hplain : ∀ errno, wakeup = .failed errno → -((errno : ℕ) : ℤ) ∉ ownErrors) :
    Inv base (wakeUp events s wakeup) := by
  obtain ⟨hunderway, -⟩ : s.Underway base [] ∧ _ := h.at hpc
  cases wakeup with
  | failed errno =>
      refine h.goto ?_
      split_ifs
      · exact hunderway
      · exact ⟨fun hzero => absurd hzero (errno_ne_zero errno), hplain errno rfl⟩
  | timeout => exact h.fail (by decide) (by decide)
  | ready revents =>
      refine { h with place := ?_ }
      dsimp only [Windowed.wakeUp]
      split_ifs
      · exact ⟨fun hzero => absurd hzero (by decide), by decide⟩
      · exact ⟨fun hzero => absurd hzero (by decide), by decide⟩
      · exact hunderway
      · exact ⟨fun hzero => absurd hzero (by decide), by decide⟩

/-! ## Responses -/

/-- What `latency` is after another sample. -/
theorem recordLatency_eq (h : Inv base s) (hlt : s.completed < arguments.count) (sample : U64) :
    ∃ latency latencySum, s.recordLatency sample =
        { s with latency := latency, latencySum := latencySum } ∧
      ∀ samples, latency = some samples →
        latencySum = (samples.toList.take (s.completed + 1)).sum := by
  unfold State.recordLatency
  cases hlatency : s.latency with
  | none =>
      refine ⟨none, s.latencySum, ?_, fun _ hsamples => by cases hsamples⟩
      dsimp only
      rw [← hlatency]
  | some samples =>
      dsimp only
      rw [dif_pos hlt]
      refine ⟨_, _, rfl, fun _ hsamples => ?_⟩
      obtain rfl := Option.some.inj hsamples
      have hlength : s.completed < samples.toList.length := by rwa [Vector.length_toList]
      have htake : ((samples.toList.set s.completed sample).take (s.completed + 1)) =
          samples.toList.take s.completed ++ [sample] := by
        rw [List.take_succ_eq_append_getElem (by rwa [List.length_set]), List.getElem_set_self,
          List.take_set_of_le (Nat.le_refl _)]
      rw [Vector.toList_set, htake, List.sum_append, List.sum_singleton, h.latency _ hlatency]

/-- The response that is looked at answers the first request in flight. -/
theorem Inv.response {message : Slot} {messages : List Slot} (h : Inv base s)
    (hunderway : s.Underway base (message :: messages)) :
    s.completed < s.submitted ∧ message.sequence = ticket (base + s.completed) ∧
      validateResponse message arguments.echoDataBytes
        (arguments.seedBase + BitVec.ofNat 32 s.completed) = 0 := by
  obtain ⟨response, hget, hresponse⟩ := hunderway.messages 0 message rfl
  rw [Nat.add_zero, answers_getElem?] at hget
  obtain ⟨e, he, rfl⟩ := Option.map_eq_some_iff.mp hget
  have hrequest := h.kernel.executed he
  have hsequence := h.kernel.sequence hrequest
  have hlt : s.completed < s.submitted := by
    have hlt := (List.getElem?_eq_some_iff.mp hrequest).1
    rw [hunderway.requests] at hlt
    omega
  have hcontent : content e.2 = content (built arguments s.completed) := by
    have hbuilt := congrArg (fun contents => contents[s.completed]?) hunderway.built
    simp only [List.getElem?_map, List.getElem?_drop, hrequest, Option.map_some,
      List.getElem?_range hlt] at hbuilt
    exact Option.some.inj hbuilt
  have hslot : e.2 = { built arguments s.completed with sequence := ticket (base + s.completed) } := by
    rw [← hsequence]
    exact eq_of_content hcontent
  refine ⟨hlt, ?_, ?_⟩
  · rw [← hresponse]
    exact (respond_sequence e.1 e.2).trans hsequence
  · rw [← hresponse]
    change validateResponse (respond e.1 e.2) _ _ = 0
    rw [hslot]
    exact validateResponse_respond arguments.echoDataBytes_le e.1 _ _

theorem Underway.tail {kernel : Kernel} {submitted completed : ℕ} {message : Slot}
    {messages : List Slot}
    (h : Underway arguments base kernel submitted completed (message :: messages)) :
    Underway arguments base kernel submitted (completed + 1) messages where
  requests := h.requests
  built := h.built
  delivered := by
    rw [h.delivered, List.length_cons]
    omega
  messages j m hm := by
    obtain ⟨response, hget, hresponse⟩ := h.messages (j + 1) m hm
    refine ⟨response, ?_, hresponse⟩
    rw [← hget]
    congr 1
    omega

/-- The response that is looked at is credited to the first request in flight. -/
theorem Inv.completeResponse {message : Slot} {messages : List Slot} (h : Inv base s)
    (hunderway : s.Underway base (message :: messages)) (stop : Timespec) :
    ∃ latency latencySum tickets, 0 < s.inFlight ∧
      completeResponse message (.ok stop) s = .ok { s with
        latency := latency
        latencySum := latencySum
        tickets := tickets
        inFlight := s.inFlight - 1
        completed := s.completed + 1 } ∧
      Holds arguments.seedBase base (s.completed + 1) (s.inFlight - 1) tickets ∧
      ∀ samples, latency = some samples →
        latencySum = (samples.toList.take (s.completed + 1)).sum := by
  obtain ⟨hlt, hsequence, hvalid⟩ := h.response hunderway
  have hbalance := h.balance
  have hsubmitted := h.submitted
  have hwindow := h.window
  have hslots := arguments.window_le
  have htickets := h.tickets
  obtain ⟨n, hn⟩ : ∃ n, s.inFlight = n + 1 := ⟨s.inFlight - 1, by omega⟩
  rw [hn] at htickets
  obtain ⟨i, hi, hseed, hgiven⟩ := htickets.give (by omega)
  obtain ⟨latency, latencySum, hrecorded, hsum⟩ := recordLatency_eq h
    (by omega) (elapsedNanoseconds (s.tickets i).start stop)
  refine ⟨latency, latencySum, Function.update s.tickets i { s.tickets i with active := false },
    by omega, ?_, ?_, hsum⟩
  · simp only [Windowed.completeResponse, hsequence, hi, hseed, hvalid, hrecorded]
    rfl
  · rwa [hn, Nat.add_sub_cancel]

theorem Inv.clock (h : Inv base s) {time : Answered Timespec} (hstep : clock time s = some t)
    (hplain : ∀ errno, time = .error errno → -((errno : ℕ) : ℤ) ∉ ownErrors) : Inv base t := by
  unfold Windowed.clock at hstep
  cases hpc : s.pc with
  | completing messages =>
      rw [hpc] at hstep
      cases messages with
      | nil => cases hstep
      | cons message messages =>
          have hunderway : s.Underway base (message :: messages) := h.at hpc
          cases time with
          | error errno =>
              obtain rfl := Option.some.inj hstep
              exact h.fail (errno_ne_zero errno) (hplain errno rfl)
          | ok stop =>
              obtain ⟨latency, latencySum, tickets, hinFlight, hcomplete, hholds, hsum⟩ :=
                h.completeResponse hunderway stop
              have hbalance := h.balance
              have hwindow := h.window
              simp only [hcomplete] at hstep
              obtain rfl := Option.some.inj hstep
              exact { h with
                balance := by
                  change s.submitted = s.completed + 1 + (s.inFlight - 1)
                  omega
                window := by
                  change s.inFlight - 1 ≤ arguments.window
                  omega
                tickets := hholds
                latency := hsum
                place := hunderway.tail }
  | clock progressed =>
      rw [hpc] at hstep
      cases time with
      | error errno =>
          obtain rfl := Option.some.inj hstep
          exact h.fail (errno_ne_zero errno) (hplain errno rfl)
      | ok start =>
          obtain rfl := Option.some.inj hstep
          exact { h with place := h.at hpc }
  | top | reap | reaping | submit | submitting | check | waiting | returned =>
      rw [hpc] at hstep
      cases hstep

/-! ## The calls of the library -/

theorem Reply.read_eq {reply : Reply} {count n : ℕ} {error? : Option ℕ+}
    (h : reply.read count = some (error?, n)) : n ≤ count ∧
      (error? = none ∧ reply = .moved n ∧ 0 < n ∨
        ∃ errno, error? = some errno ∧ reply = .failed errno n ∧ (errno = eagain → n = 0)) := by
  cases reply with
  | moved m =>
      simp only [Reply.read] at h
      split_ifs at h with hbad
      obtain ⟨rfl, rfl⟩ := Prod.mk.inj (Option.some.inj h)
      exact ⟨by omega, .inl ⟨rfl, rfl, by omega⟩⟩
  | failed errno m =>
      simp only [Reply.read] at h
      split_ifs at h with hbad
      obtain ⟨rfl, rfl⟩ := Prod.mk.inj (Option.some.inj h)
      refine ⟨by omega, .inr ⟨errno, rfl, rfl, fun hagain => ?_⟩⟩
      by_contra hmoved
      exact hbad (.inr ⟨hagain, hmoved⟩)

/-- What is taken is what has not been looked at. -/
theorem Inv.take (h : Inv base s) (hunderway : s.Underway base []) {n : ℕ}
    {messages : List Response} {rings : Rings} (htake : take s.kernel.rings n = some (messages, rings)) :
    ({ s.kernel with rings := rings } : Kernel).Inv ∧
      Underway arguments base { s.kernel with rings := rings } s.submitted s.completed
        (messages.map Response.message) := by
  have hkernel := h.kernel.step (.take htake)
  have hdelivered := hunderway.delivered
  rw [List.length_nil, Nat.add_zero] at hdelivered
  refine ⟨hkernel, ?_⟩
  unfold Threads.take at htake
  split_ifs at htake with hcount
  obtain ⟨rfl, rfl⟩ := Prod.mk.inj (Option.some.inj htake)
  have hlength : (((answers s.kernel.rings).drop s.kernel.rings.delivered).take n).length = n := by
    rw [List.length_take, List.length_drop, length_answers]
    omega
  refine ⟨hunderway.requests, hunderway.built, ?_, ?_⟩
  · rw [List.length_map, hlength, ← hdelivered]
  · intro j message hj
    rw [List.getElem?_map] at hj
    obtain ⟨response, hget, hmessage⟩ := Option.map_eq_some_iff.mp hj
    rw [List.getElem?_take] at hget
    split_ifs at hget
    rw [List.getElem?_drop, hdelivered] at hget
    exact ⟨response, hget, hmessage⟩

/-- A call that fails with `EAGAIN` has moved nothing. -/
theorem take_zero {rings rings' : Rings} {messages : List Response}
    (h : take rings 0 = some (messages, rings')) : rings' = rings := by
  unfold Threads.take at h
  split_ifs at h
  exact (Prod.mk.inj (Option.some.inj h)).2.symm

theorem Inv.reapCall (h : Inv base s) {progressed : Bool} (hpc : s.pc = .reaping progressed)
    {reply : Reply} (hcall : reapCall reply progressed s = some t)
    (hplain : ∀ errno n, reply = .failed errno n → -((errno : ℕ) : ℤ) ∉ ownErrors) : Inv base t := by
  obtain ⟨hunderway, -⟩ : s.Underway base [] ∧ 0 < s.inFlight := h.at hpc
  obtain ⟨⟨error?, n⟩, hread, hmoved⟩ := Option.bind_eq_some_iff.mp hcall
  obtain ⟨⟨messages, rings⟩, htake, hstep⟩ := Option.bind_eq_some_iff.mp hmoved
  obtain ⟨hkernel, htaken⟩ := h.take hunderway htake
  rcases (Reply.read_eq hread).2 with ⟨rfl, -, -⟩ | ⟨errno, rfl, rfl, hagain⟩
  · obtain rfl := Option.some.inj hstep
    exact { h with kernel := hkernel, place := htaken }
  · dsimp only at hstep
    split_ifs at hstep with heagain
    · obtain rfl := Option.some.inj hstep
      obtain rfl := hagain heagain
      obtain rfl := take_zero htake
      exact { h with place := hunderway }
    · obtain rfl := Option.some.inj hstep
      exact { h with
        kernel := hkernel
        place := ⟨fun hzero => absurd hzero (errno_ne_zero errno), hplain errno n rfl⟩ }

/-- Requests with the next sequences get the next tickets. -/
theorem Holds.takeTickets {seedBase : U32} {first count : ℕ} {tickets : Tickets} (start : Timespec)
    (seed : ℕ → U32) (index : ℕ) (messages : List Slot)
    (h : Holds seedBase base first count tickets)
    (hsequences : messages.map Slot.sequence =
      (List.range messages.length).map fun j => ticket (base + (first + count + j)))
    (hroom : count + messages.length ≤ slotCount)
    (hseed : ∀ j, seed (index + j) = seedBase + BitVec.ofNat 32 (first + count + j)) :
    ∃ tickets', takeTickets start seed index messages tickets = .ok tickets' ∧
      Holds seedBase base first (count + messages.length) tickets' := by
  induction messages generalizing count index tickets with
  | nil => exact ⟨tickets, rfl, h⟩
  | cons message messages ih =>
      rw [List.length_cons] at hroom
      rw [List.map_cons, List.length_cons, List.range_succ_eq_map, List.map_cons, List.map_map,
        List.cons_eq_cons] at hsequences
      obtain ⟨hsequence, hrest⟩ := hsequences
      rw [Nat.add_zero] at hsequence
      obtain ⟨hnew, i, hi, htaken⟩ := h.take (by omega)
      obtain ⟨tickets', htickets', hholds⟩ := ih (index + 1) (htaken start)
        (hrest.trans (List.map_congr_left fun j _ => congrArg ticket (by
          rw [Nat.succ_eq_add_one]
          omega)))
        (by omega) (fun j => by
          rw [Nat.add_assoc, hseed]
          congr 2
          omega)
      refine ⟨tickets', ?_, ?_⟩
      · have hfirst := hseed 0
        rw [Nat.add_zero, Nat.add_zero] at hfirst
        simp only [Windowed.takeTickets, hsequence, hnew, hi, hfirst]
        exact htickets'
      · rwa [List.length_cons, Nat.add_comm messages.length, ← Nat.add_assoc]

theorem map_content_stamp (next : U32) (messages : List Slot) :
    (stamp next messages).1.map content = messages.map content := by
  induction messages generalizing next with
  | nil => rfl
  | cons message messages ih =>
      rw [stamp, List.map_cons, List.map_cons, ih]
      rfl

theorem State.take_requests {n : ℕ} (hn : n ≤ s.submitCount) :
    s.requests.take n =
      (List.range n).map fun j => built arguments (s.submitted + j) := by
  rw [State.requests, ← List.map_take, List.take_range, Nat.min_eq_left hn]
  rfl

theorem Inv.publish (h : Inv base s) (hunderway : s.Underway base []) {n : ℕ}
    (hn : n ≤ s.submitCount) {stamped : List Slot} {kernel : Kernel}
    (hpublish : publish s.kernel (s.requests.take n) = some (stamped, kernel)) :
    kernel.Inv ∧ Underway arguments base kernel (s.submitted + n) s.completed [] ∧
      stamped.map Slot.sequence =
        (List.range n).map fun j => ticket (base + (s.submitted + j)) := by
  have hkernel := h.kernel.step (.publish hpublish)
  obtain ⟨rfl, -, rfl⟩ := publish_eq_some hpublish
  rw [State.take_requests hn] at hkernel ⊢
  obtain ⟨hsequences, -⟩ := stamp_tickets
    ((List.range n).map fun j => built arguments (s.submitted + j)) h.kernel.next
  have hlength := length_stamp s.kernel.nextSequence
    ((List.range n).map fun j => built arguments (s.submitted + j))
  rw [List.length_map, List.length_range] at hsequences hlength
  have hrequests := hunderway.requests
  refine ⟨hkernel, ⟨?_, ?_, hunderway.delivered, fun j message hj => by cases hj⟩, ?_⟩
  · dsimp only
    rw [List.length_append, hlength, hrequests, Nat.add_assoc]
  · dsimp only
    rw [List.drop_append_of_le_length (by omega), List.map_append, hunderway.built,
      map_content_stamp, List.range_add, List.map_append, List.map_map, List.map_map]
    rfl
  · rw [hsequences]
    exact List.map_congr_left fun j _ => congrArg ticket (by omega)

theorem publish_nil {kernel kernel' : Kernel} {stamped : List Slot}
    (h : publish kernel [] = some (stamped, kernel')) : kernel' = kernel := by
  obtain ⟨rfl, -, rfl⟩ := publish_eq_some h
  simp [stamp]

/-- What may be submitted fits into the window and into the phase. -/
theorem State.submitCount_le (hcan : s.canSubmit = true) {n : ℕ} (hn : n ≤ s.submitCount) :
    s.submitted + n ≤ arguments.count ∧ s.inFlight + n ≤ arguments.window := by
  obtain ⟨hsubmit, hroom⟩ : s.submitted < arguments.count ∧ s.inFlight < arguments.window :=
    of_decide_eq_true hcan
  have hcount : n ≤ arguments.count - s.submitted := hn.trans (Nat.min_le_right ..)
  have hwindow : n ≤ arguments.window - s.inFlight := by
    refine hn.trans ((Nat.min_le_left ..).trans ?_)
    split_ifs
    · exact Nat.le_refl _
    · omega
  exact ⟨by omega, by omega⟩

/-- The requests that have been accepted get their tickets. -/
theorem Inv.takeTickets (h : Inv base s) (hcan : s.canSubmit = true) {n : ℕ}
    (hn : n ≤ s.submitCount) {stamped : List Slot}
    (hsequences : stamped.map Slot.sequence =
      (List.range n).map fun j => ticket (base + (s.submitted + j))) (start : Timespec) :
    ∃ tickets, takeTickets start s.seed 0 stamped s.tickets = .ok tickets ∧
      Holds arguments.seedBase base s.completed (s.inFlight + n) tickets := by
  have hbalance := h.balance
  have hslots := arguments.window_le
  obtain ⟨-, hwindow⟩ := State.submitCount_le hcan hn
  have hlength : stamped.length = n := by
    simpa using congrArg List.length hsequences
  obtain ⟨tickets, htickets, hholds⟩ := Holds.takeTickets start s.seed 0 stamped h.tickets
    (by rw [hsequences, hlength, hbalance]) (by omega) (fun j => by
      rw [State.seed, Nat.zero_add, hbalance])
  exact ⟨tickets, htickets, hlength ▸ hholds⟩

theorem Inv.submitCall (h : Inv base s) {progressed : Bool} {start : Timespec}
    (hpc : s.pc = .submitting progressed start) {reply : Reply}
    (hcall : submitCall reply progressed start s = some t)
    (hplain : ∀ errno n, reply = .failed errno n → -((errno : ℕ) : ℤ) ∉ ownErrors) : Inv base t := by
  obtain ⟨hunderway, hcan⟩ : s.Underway base [] ∧ s.canSubmit = true := h.at hpc
  obtain ⟨⟨error?, n⟩, hread, hmoved⟩ := Option.bind_eq_some_iff.mp hcall
  obtain ⟨⟨stamped, kernel⟩, hpublish, hstep⟩ := Option.bind_eq_some_iff.mp hmoved
  obtain ⟨hn, hreply⟩ := Reply.read_eq hread
  obtain ⟨hkernel, hpublished, hsequences⟩ := h.publish hunderway hn hpublish
  rcases hreply with ⟨rfl, -, -⟩ | ⟨errno, rfl, rfl, hagain⟩
  · obtain ⟨tickets, htickets, hholds⟩ := h.takeTickets hcan hn hsequences start
    obtain ⟨hcount, hwindow⟩ := State.submitCount_le hcan hn
    simp only [htickets] at hstep
    obtain rfl := Option.some.inj hstep
    exact { h with
      kernel := hkernel
      submitted := hcount
      balance := by
        have hbalance := h.balance
        change s.submitted + n = s.completed + (s.inFlight + n)
        omega
      window := hwindow
      tickets := hholds
      maxInFlight := Nat.max_le.mpr ⟨h.maxInFlight, hwindow⟩
      place := hpublished }
  · dsimp only at hstep
    split_ifs at hstep with heagain
    · obtain rfl := Option.some.inj hstep
      obtain rfl := hagain heagain
      rw [List.take_zero] at hpublish
      obtain rfl := publish_nil hpublish
      exact { h with place := hunderway }
    · obtain rfl := Option.some.inj hstep
      exact { h with
        kernel := hkernel
        place := ⟨fun hzero => absurd hzero (errno_ne_zero errno), hplain errno n rfl⟩ }

/-! ## The firmware -/

theorem Underway.execute {kernel : Kernel} {submitted completed : ℕ} {messages : List Slot}
    (h : Underway arguments base kernel submitted completed messages) (e : Mmio × Slot) :
    Underway arguments base
      { kernel with rings := { kernel.rings with executed := kernel.rings.executed ++ [e] } }
      submitted completed messages where
  requests := h.requests
  built := h.built
  delivered := h.delivered
  messages j message hj := by
    obtain ⟨response, hget, hmessage⟩ := h.messages j message hj
    refine ⟨response, ?_, hmessage⟩
    have hlt := (List.getElem?_eq_some_iff.mp hget).1
    dsimp only
    rw [answers_execute, List.getElem?_append_left hlt, hget]

theorem Inv.execute (h : Inv base s) {mmio : Mmio} (hstep : execute mmio s = some t) :
    Inv base t := by
  obtain ⟨request, hnext, hrest⟩ := Option.bind_eq_some_iff.mp hstep
  dsimp only at hrest
  split_ifs at hrest with hwithin
  obtain rfl := Option.some.inj hrest
  refine { h with kernel := h.kernel.step (.execute mmio hnext hwithin), place := ?_ }
  have hplace := h.place
  cases hpc : s.pc with
  | returned ret =>
      rw [hpc] at hplace
      obtain ⟨hdone, hown⟩ := hplace
      exact ⟨fun hzero => ⟨(hdone hzero).1, (hdone hzero).2.execute (mmio, request)⟩, hown⟩
  | reaping | clock | submitting | waiting =>
      rw [hpc] at hplace
      exact ⟨hplace.1.execute (mmio, request), hplace.2⟩
  | top | reap | completing | submit | check =>
      rw [hpc] at hplace
      exact Underway.execute hplace (mmio, request)

/-! ## Runs -/

/-- The library, the clock and the wait fail with none of the codes that the function has for its own
checks. -/
def Label.Plain : Label → Prop
  | .clock (.error errno) => -((errno : ℕ) : ℤ) ∉ ownErrors
  | .library (.failed errno _) => -((errno : ℕ) : ℤ) ∉ ownErrors
  | .poll (.failed errno) => -((errno : ℕ) : ℤ) ∉ ownErrors
  | _ => True

theorem Inv.step {label : Label} (h : Inv base s) (hplain : label.Plain)
    (hstep : step label s = some t) : Inv base t := by
  cases label with
  | run => exact h.run hstep
  | clock time =>
      refine h.clock hstep ?_
      rintro errno rfl
      exact hplain
  | library reply =>
      have hfailed : ∀ errno n, reply = .failed errno n → -((errno : ℕ) : ℤ) ∉ ownErrors := by
        rintro errno n rfl
        exact hplain
      simp only [Windowed.step] at hstep
      split at hstep
      · exact h.reapCall ‹_› hstep hfailed
      · exact h.submitCall ‹_› hstep hfailed
      · cases hstep
  | poll wakeup =>
      simp only [Windowed.step] at hstep
      split at hstep
      · obtain rfl := Option.some.inj hstep
        refine h.wakeUp ‹_› ?_
        rintro errno rfl
        exact hplain
      · cases hstep
  | execute mmio => exact h.execute hstep

theorem reachable_inv {kernel : Kernel} (hkernel : kernel.Inv) (hdrained : Drained kernel)
    (h : ReachableBy (phase arguments kernel) (fun label _ => label.Plain) s) :
    Inv kernel.rings.requests.length s := by
  refine h.invariant ?_ fun s t label hs hplain hstep => hs.step hplain hstep
  rintro s ⟨latency, rfl⟩
  exact inv_initial hkernel hdrained latency

/-- What holds whenever a phase is looked at. -/
structure Sound (base : ℕ) (s : State arguments) : Prop where
  balance : s.submitted = s.completed + s.inFlight
  submitted : s.submitted ≤ arguments.count
  window : s.inFlight ≤ arguments.window ∧ s.stats.maxInFlight ≤ arguments.window
  /-- One ticket for each request in flight, all of them with different sequences. -/
  tickets : (roll (held s.tickets)).length = s.inFlight ∧
    ((roll (held s.tickets)).map Prod.fst).Nodup
  latency : s.overrun = false ∧ ∀ samples, s.latency = some samples →
    s.latencySum = (samples.toList.take s.completed).sum
  /-- The library is asked for what it can do. -/
  reaping : ∀ progressed, s.pc = .reaping progressed → 0 < s.reapCount ∧ s.reapCount ≤ slotCount
  submitting : ∀ progressed start, s.pc = .submitting progressed start →
    0 < s.submitCount ∧ s.submitCount ≤ slotCount ∧ ∀ request ∈ s.requests, request.Fits
  checks : ∀ ret, s.pc = .returned ret → ret ∉ ownErrors
  /-- A phase that returns 0 has published its requests, and nothing is under way. -/
  finished : s.pc = .returned 0 → s.completed = arguments.count ∧ s.inFlight = 0 ∧
    s.kernel.Inv ∧ Drained s.kernel ∧ (s.kernel.rings.requests.drop base).map content =
      (List.range arguments.count).map fun k => content (built arguments k)

theorem buildRequest_fits (seed : U32) :
    (buildRequest arguments.echoDataBytes seed).Fits := by
  have hle := arguments.echoDataBytes_le
  have hmax : maxEchoDataBytes = 1017 := rfl
  by_cases hecho : arguments.echoDataBytes = 0
  · rw [buildRequest, if_pos hecho]
    exact (show (BitVec.ofNat 16 valueMessageSize).toNat ≤ payloadSize by decide)
  · have hlength := buildRequest_length hle hecho seed
    unfold Slot.Fits
    rw [hlength]
    exact (show arguments.echoDataBytes + 1 ≤ 1018 by omega)

theorem Inv.sound (h : Inv base s) : Sound base s where
  balance := h.balance
  submitted := h.submitted
  window := ⟨h.window, h.maxInFlight⟩
  tickets := by
    have hslots := arguments.window_le
    have hwindow := h.window
    have hsize : slotCount = 64 := rfl
    refine ⟨by rw [h.tickets.length_eq, List.length_map, List.length_range], ?_⟩
    rw [(h.tickets.map Prod.fst).nodup_iff, List.map_map]
    refine List.Nodup.map_on ?_ List.nodup_range
    intro i hi j hj heq
    rw [List.mem_range] at hi hj
    have hsame := (ticket_eq_iff (by omega) (by omega)).mp
      (show ticket (base + (s.completed + i)) = ticket (base + (s.completed + j)) from heq)
    omega
  latency := ⟨h.overrun, h.latency⟩
  reaping progressed hpc := by
    obtain ⟨-, hinFlight⟩ : s.Underway base [] ∧ 0 < s.inFlight := h.at hpc
    have hwindow := h.window
    have hslots := arguments.window_le
    unfold State.reapCount
    split_ifs
    · exact ⟨hinFlight, by omega⟩
    · exact ⟨Nat.one_pos, by decide⟩
  submitting progressed start hpc := by
    obtain ⟨-, hcan⟩ : s.Underway base [] ∧ s.canSubmit = true := h.at hpc
    obtain ⟨hsubmit, hroom⟩ : s.submitted < arguments.count ∧ s.inFlight < arguments.window :=
      of_decide_eq_true hcan
    have hslots := arguments.window_le
    have hsize : slotCount = 64 := rfl
    refine ⟨?_, ?_, fun request hrequest => ?_⟩
    · unfold State.submitCount
      split_ifs <;> omega
    · unfold State.submitCount
      split_ifs <;> omega
    · obtain ⟨index, -, rfl⟩ := List.mem_map.mp hrequest
      exact buildRequest_fits _
  checks ret hpc := (h.at hpc).2
  finished hpc := by
    obtain ⟨hdone, -⟩ : (0 = (0 : ℤ) → s.completed = arguments.count ∧ s.Underway base []) ∧ _ :=
      h.at hpc
    obtain ⟨hcompleted, hunderway⟩ := hdone rfl
    have hbalance := h.balance
    have hsubmitted := h.submitted
    have hinFlight : s.inFlight = 0 := by omega
    have hall : s.submitted = arguments.count := by omega
    have hrequests := hunderway.requests
    have hdelivered := hunderway.delivered
    rw [List.length_nil] at hdelivered
    have hinOrder := h.kernel.inOrder
    have hexecuted := hinOrder.executed.length_le
    rw [List.length_map] at hexecuted
    have hle := hinOrder.delivered
    exact ⟨hcompleted, hinFlight, h.kernel, ⟨by omega, by omega⟩, hall ▸ hunderway.built⟩

/-- On a channel that keeps the order, no check of a phase fails, whatever is accepted and delivered
at a time. -/
theorem phase_sound {kernel : Kernel} (hkernel : kernel.Inv) (hdrained : Drained kernel)
    (h : ReachableBy (phase arguments kernel) (fun label _ => label.Plain) s) :
    Sound kernel.rings.requests.length s :=
  (reachable_inv hkernel hdrained h).sound

end Sg200x.Ipc.Windowed
