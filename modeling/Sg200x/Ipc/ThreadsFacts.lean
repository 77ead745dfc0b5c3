import Sg200x.Ipc.Threads
import Sg200x.Library.NonzeroCounter

/-!
# What the threads do to the kernel

Every step of the threads is a step of the service or leaves the kernel alone, so that the
requests carry the sequences of the kernel's counter one after the other and no more of
them are outstanding than the rings hold.
-/

namespace Sg200x.Ipc.Threads

open Shm App Driver Library Library.Transition
open Client (Retained BatchSupport retainPending removePending takePending takePendingSequence
  carried)

/-! ## The responses -/

section Responses

variable {rings rings' : Rings} {message : Response} {messages : List Response}

theorem length_answers : (answers rings).length = rings.executed.length := by
  simp [answers, Service.responses]

theorem answers_getElem? (i : ℕ) :
    (answers rings)[i]? = rings.executed[i]?.map fun e => ⟨i, respond e.1 e.2⟩ := by
  simp [answers, Service.responses, Function.comp_def]

theorem answers_execute (e : Mmio × Slot) :
    answers { rings with executed := rings.executed ++ [e] } =
      answers rings ++ [⟨rings.executed.length, respond e.1 e.2⟩] := by
  simp [answers, Service.responses]

theorem mem_removed :
    message ∈ removed rings ↔ message.index < rings.delivered ∧
      ∃ e, rings.executed[message.index]? = some e ∧ message.message = respond e.1 e.2 := by
  simp only [removed, List.mem_iff_getElem?, List.getElem?_take, answers_getElem?]
  constructor
  · rintro ⟨i, hi⟩
    split_ifs at hi with hlt
    obtain ⟨e, he, rfl⟩ := Option.map_eq_some_iff.mp hi
    exact ⟨hlt, e, he, rfl⟩
  · rintro ⟨hlt, e, he, hmessage⟩
    refine ⟨message.index, ?_⟩
    rw [if_pos hlt, he, Option.map_some, ← hmessage]

theorem map_index_answers : (answers rings).map Response.index = List.range rings.executed.length := by
  apply List.ext_getElem?
  intro i
  rw [List.getElem?_map, answers_getElem?, Option.map_map]
  by_cases hi : i < rings.executed.length
  · rw [List.getElem?_eq_getElem hi, List.getElem?_range hi]
    rfl
  · rw [List.getElem?_eq_none (by omega), List.getElem?_eq_none (by simpa using hi)]
    rfl

/-- No response is removed twice. -/
theorem nodup_removed : (removed rings).Nodup := by
  have hindices : ((answers rings).map Response.index).Nodup := by
    rw [map_index_answers]
    exact List.nodup_range
  exact (List.Nodup.of_map _ hindices).sublist (List.take_sublist ..)

theorem removed_of_executed (hdelivered : rings.delivered ≤ rings.executed.length)
    (e : Mmio × Slot) :
    removed { rings with executed := rings.executed ++ [e] } = removed rings := by
  rw [removed, answers_execute]
  exact List.take_append_of_le_length (by rwa [length_answers])

/-- What a take of `count` messages does. -/
theorem take_eq_some {count : ℕ} (h : take rings count = some (messages, rings')) :
    rings.delivered + count ≤ rings.executed.length ∧
      rings' = { rings with delivered := rings.delivered + count } ∧
      removed rings' = removed rings ++ messages ∧ messages.length = count := by
  unfold take at h
  split_ifs at h with hcount
  cases h
  refine ⟨hcount, rfl, List.take_add, ?_⟩
  rw [List.length_take, List.length_drop, length_answers]
  omega

theorem mem_answers_of_take {count : ℕ} (h : take rings count = some (messages, rings'))
    (hmem : message ∈ messages) : message ∈ answers rings := by
  unfold take at h
  split_ifs at h
  cases h
  exact List.mem_of_mem_drop (List.mem_of_mem_take hmem)

/-- The response that is taken is the next one. -/
theorem answers_of_take_one (h : take rings 1 = some ([message], rings')) :
    (answers rings)[rings.delivered]? = some message := by
  unfold take at h
  split_ifs at h with hcount
  have hlt : rings.delivered < (answers rings).length := by
    rw [length_answers]
    omega
  rw [List.drop_eq_getElem_cons hlt] at h
  cases h
  exact List.getElem?_eq_getElem hlt

theorem index_of_take_one (h : take rings 1 = some ([message], rings')) :
    message.index = rings.delivered := by
  have hget := answers_of_take_one h
  rw [answers_getElem?] at hget
  obtain ⟨e, -, rfl⟩ := Option.map_eq_some_iff.mp hget
  rfl

end Responses

/-! ## The sequences -/

/-- The sequence of the `n`-th request of a generation. -/
def ticket (n : ℕ) : U32 := NonzeroCounter.next^[n] 1#32

theorem ticket_succ (n : ℕ) : ticket (n + 1) = NonzeroCounter.next (ticket n) :=
  Function.iterate_succ_apply' ..

theorem ticket_ne_zero (n : ℕ) : ticket n ≠ 0#32 := by
  cases n with
  | zero => decide
  | succ n =>
      rw [ticket_succ]
      exact NonzeroCounter.next_ne_zero (by decide) _

/-- Two requests of which fewer than a period are sent between have different sequences. -/
theorem ticket_inj {m n : ℕ} (hmn : m ≤ n) (hn : n < m + NonzeroCounter.period 32)
    (h : ticket m = ticket n) : m = n := by
  by_contra hne
  exact NonzeroCounter.iterate_ne (by decide) (by decide) (by omega) hn h

theorem takeSequence_succ (x : U32) :
    (takeSequence (takeSequence x).2).1 = NonzeroCounter.next (takeSequence x).1 := by
  have hcounts : (takeSequence x).2 = (takeSequence x).1 + 1#32 := by
    unfold takeSequence
    split_ifs <;> rfl
  rw [hcounts]
  unfold takeSequence NonzeroCounter.next
  split_ifs <;> rfl

/-- The messages of one ioctl get the sequences that are next. -/
theorem stamp_tickets (messages : List Slot) {x : U32} {n : ℕ}
    (hx : (takeSequence x).1 = ticket n) :
    (stamp x messages).1.map Slot.sequence =
        (List.range messages.length).map (fun i => ticket (n + i)) ∧
      (takeSequence (stamp x messages).2).1 = ticket (n + messages.length) := by
  induction messages generalizing x n with
  | nil => exact ⟨rfl, hx⟩
  | cons message messages ih =>
      have hnext : (takeSequence (takeSequence x).2).1 = ticket (n + 1) := by
        rw [takeSequence_succ, hx, ticket_succ]
      obtain ⟨hsequences, hlast⟩ := ih hnext
      constructor
      · simp only [stamp, List.map_cons, List.length_cons, List.range_succ_eq_map, List.map_map]
        rw [hsequences, hx]
        refine congrArg _ (List.map_congr_left fun i _ => ?_)
        exact congrArg ticket (by omega)
      · simp only [stamp, List.length_cons]
        rw [hlast]
        exact congrArg ticket (by omega)

/-! ## The kernel -/

/-- The channel of a generation is such a service. -/
theorem within_channel {g : U32} {s : Channel.State} (h : Channel.Inv g s) : Within s.service where
  requests := by
    have hbounded := h.request.bounded
    have hheld : Firmware.held s.firmware ≤ 1 := by
      unfold Firmware.held
      split <;> omega
    unfold Channel.State.popped at hbounded
    simp only [Channel.State.service]
    omega
  executed := by
    have hbounded := h.response.bounded
    have howed : (Firmware.owed s.statics s.firmware).length ≤ 1 := by
      unfold Firmware.owed
      split <;> simp
    have hlength := congrArg List.length h.answered
    rw [List.length_map, List.length_append] at hlength
    simp only [Channel.State.service]
    omega

structure Kernel.Inv (kernel : Kernel) : Prop where
  inOrder : kernel.rings.InOrder
  within : Within kernel.rings
  sequences : kernel.rings.requests.map Slot.sequence =
    (List.range kernel.rings.requests.length).map ticket
  next : (takeSequence kernel.nextSequence).1 = ticket kernel.rings.requests.length

/-- What a step of the threads or of the firmware does to the kernel. -/
inductive Kernel.Step : Kernel → Kernel → Prop
  | publish {kernel kernel' : Kernel} {messages stamped : List Slot}
      (h : publish kernel messages = some (stamped, kernel')) : Step kernel kernel'
  | take {kernel : Kernel} {count : ℕ} {messages : List Response} {rings : Rings}
      (h : take kernel.rings count = some (messages, rings)) :
      Step kernel { kernel with rings := rings }
  | execute {kernel : Kernel} {request : Slot} (mmio : Mmio)
      (hnext : kernel.rings.requests[kernel.rings.executed.length]? = some request)
      (hwithin : Within
        { kernel.rings with executed := kernel.rings.executed ++ [(mmio, request)] }) :
      Step kernel { kernel with
        rings := { kernel.rings with executed := kernel.rings.executed ++ [(mmio, request)] } }

theorem publish_eq_some {kernel kernel' : Kernel} {messages stamped : List Slot}
    (h : publish kernel messages = some (stamped, kernel')) :
    stamped = (stamp kernel.nextSequence messages).1 ∧
      Within { kernel.rings with requests := kernel.rings.requests ++ stamped } ∧
      kernel' = { kernel with
        rings := { kernel.rings with requests := kernel.rings.requests ++ stamped }
        nextSequence := (stamp kernel.nextSequence messages).2 } := by
  unfold publish at h
  dsimp only at h
  split_ifs at h with hwithin
  cases h
  exact ⟨rfl, hwithin, rfl⟩

theorem Kernel.Step.service {kernel kernel' : Kernel} (h : Kernel.Step kernel kernel') :
    Service.Step kernel.rings kernel'.rings := by
  cases h with
  | publish hpublish =>
      obtain ⟨-, -, rfl⟩ := publish_eq_some hpublish
      exact .submit _ _
  | take htake =>
      obtain ⟨hcount, rfl, -⟩ := take_eq_some htake
      exact .deliver _ _ hcount
  | execute mmio hnext hwithin => exact .execute _ _ _ hnext

theorem Kernel.Inv.step {kernel kernel' : Kernel} (h : kernel.Inv)
    (hstep : Kernel.Step kernel kernel') : kernel'.Inv := by
  have hinOrder := h.inOrder.step hstep.service
  cases hstep with
  | publish hpublish =>
      obtain ⟨rfl, hwithin, rfl⟩ := publish_eq_some hpublish
      obtain ⟨hstamped, hlast⟩ := stamp_tickets _ h.next
      refine ⟨hinOrder, hwithin, ?_, ?_⟩
      · rw [List.map_append, h.sequences, hstamped, List.length_append, length_stamp,
          List.range_add, List.map_append, List.map_map]
        rfl
      · rw [hlast, List.length_append, length_stamp]
  | take htake =>
      obtain ⟨hcount, rfl, -⟩ := take_eq_some htake
      refine ⟨hinOrder, ⟨h.within.requests, ?_⟩, h.sequences, h.next⟩
      have hexecuted := h.within.executed
      dsimp only
      omega
  | execute mmio hnext hwithin => exact ⟨hinOrder, hwithin, h.sequences, h.next⟩

theorem Kernel.Inv.sequence {kernel : Kernel} (h : kernel.Inv) {i : ℕ} {request : Slot}
    (hi : kernel.rings.requests[i]? = some request) : request.sequence = ticket i := by
  have hlt : i < kernel.rings.requests.length := (List.getElem?_eq_some_iff.mp hi).1
  have hget : (kernel.rings.requests.map Slot.sequence)[i]? = some (ticket i) := by
    rw [h.sequences, List.getElem?_map, List.getElem?_range hlt]
    rfl
  rw [List.getElem?_map, hi] at hget
  exact Option.some.inj hget

/-- The firmware has executed the request that stands where its response does. -/
theorem Kernel.Inv.executed {kernel : Kernel} (h : kernel.Inv) {i : ℕ} {e : Mmio × Slot}
    (hi : kernel.rings.executed[i]? = some e) : kernel.rings.requests[i]? = some e.2 := by
  have hmap : (kernel.rings.executed.map Prod.snd)[i]? = some e.2 := by
    rw [List.getElem?_map, hi]
    rfl
  obtain ⟨rest, hrest⟩ := h.inOrder.executed
  rw [← hrest, List.getElem?_append_left (List.getElem?_eq_some_iff.mp hmap).1, hmap]

/-- A response carries the sequence of the request in its place. -/
theorem Kernel.Inv.response {kernel : Kernel} (h : kernel.Inv) {message : Response}
    (hmessage : message ∈ answers kernel.rings) :
    message.message.sequence = ticket message.index := by
  obtain ⟨i, hi⟩ := List.mem_iff_getElem?.mp hmessage
  rw [answers_getElem?] at hi
  obtain ⟨e, he, rfl⟩ := Option.map_eq_some_iff.mp hi
  exact (respond_sequence e.1 e.2).trans (h.sequence (h.executed he))

theorem sound_of_mem_answers {kernel : Kernel} (h : kernel.Inv) {message : Response}
    (hmessage : message ∈ answers kernel.rings) : Sound message.message := by
  constructor
  · obtain ⟨i, hi⟩ := List.mem_iff_getElem?.mp hmessage
    rw [answers_getElem?] at hi
    obtain ⟨e, he, rfl⟩ := Option.map_eq_some_iff.mp hi
    exact respond_fits e.1 e.2
  · rw [h.response hmessage]
    exact ticket_ne_zero _

/-! ## One message -/

theorem send_error {answer : Answer} {kernel kernel' : Kernel} {message : Slot} {ret : Errno}
    (h : messageSendLocked answer kernel message = some (.error ret, kernel')) :
    kernel' = kernel := by
  unfold messageSendLocked at h
  split_ifs at h with hlength
  · cases h
    rfl
  · cases answer with
    | failed ret =>
        cases h
        rfl
    | done count =>
        obtain ⟨⟨stamped, kernel''⟩, hpublish, hresult⟩ := Option.map_eq_some_iff.mp h
        obtain ⟨rfl, -⟩ := publish_eq_some hpublish
        dsimp only at hresult
        split_ifs at hresult with hzero
        · exact absurd hzero (takeSequence_ne kernel.nextSequence)
        · cases hresult

theorem send_ok {answer : Answer} {kernel kernel' : Kernel} {message : Slot} {sequence : U32}
    (h : messageSendLocked answer kernel message = some (.ok sequence, kernel')) :
    sequence = (takeSequence kernel.nextSequence).1 ∧
      publish kernel [carried message] = some
        ([{ carried message with sequence := sequence }], kernel') := by
  unfold messageSendLocked at h
  split_ifs at h with hlength
  · cases h
  · cases answer with
    | failed ret => cases h
    | done count =>
        obtain ⟨⟨stamped, kernel''⟩, hpublish, hresult⟩ := Option.map_eq_some_iff.mp h
        obtain ⟨rfl, -⟩ := publish_eq_some hpublish
        dsimp only at hresult
        split_ifs at hresult with hzero
        · cases hresult
        · cases hresult
          exact ⟨rfl, hpublish⟩

theorem receive_ok {answer : Answer} {rings rings' : Rings} {message : Response}
    (h : receiveFromKernelLocked answer rings = some (.ok message, rings')) :
    take rings 1 = some ([message], rings') := by
  unfold receiveFromKernelLocked at h
  cases answer with
  | failed ret => cases h
  | done count =>
      simp only at h
      split at h
      · rename_i other rings'' htake
        split_ifs at h
        · cases h
        · cases h
          exact htake
      · cases h

theorem answer_of_receive_ok {answer : Answer} {rings rings' : Rings} {message : Response}
    (h : receiveFromKernelLocked answer rings = some (.ok message, rings')) :
    ∃ count, answer = .done count := by
  cases answer with
  | failed ret => cases h
  | done count => exact ⟨count, rfl⟩

theorem send_error_ne {answer : Answer} {kernel kernel' : Kernel} {message : Slot} {ret : Errno}
    (h : messageSendLocked answer kernel message = some (.error ret, kernel')) : ret ≠ .ok := by
  unfold messageSendLocked at h
  split_ifs at h
  · cases h
    exact nofun
  · cases answer with
    | failed ret =>
        cases h
        exact ret.2
    | done count =>
        obtain ⟨published, -, hresult⟩ := Option.map_eq_some_iff.mp h
        dsimp only at hresult
        split_ifs at hresult <;> cases hresult
        exact nofun

theorem answer_of_send_ok {answer : Answer} {kernel kernel' : Kernel} {message : Slot}
    {sequence : U32} (h : messageSendLocked answer kernel message = some (.ok sequence, kernel')) :
    ∃ count, answer = .done count := by
  unfold messageSendLocked at h
  split_ifs at h
  · cases h
  · cases answer with
    | failed ret => cases h
    | done count => exact ⟨count, rfl⟩

theorem receive_error_ne {answer : Answer} {rings rings' : Rings} {ret : Errno}
    (h : receiveFromKernelLocked answer rings = some (.error ret, rings')) : ret ≠ .ok := by
  unfold receiveFromKernelLocked at h
  cases answer with
  | failed ret =>
      cases h
      exact ret.2
  | done count =>
      simp only at h
      split at h
      · split_ifs at h <;> cases h
        exact nofun
      · cases h

/-- A receive that fails has taken nothing: the firmware's responses pass the checks. -/
theorem receive_error {answer : Answer} {kernel : Kernel} {rings : Rings} {ret : Errno}
    (hkernel : kernel.Inv)
    (h : receiveFromKernelLocked answer kernel.rings = some (.error ret, rings)) :
    rings = kernel.rings := by
  unfold receiveFromKernelLocked at h
  cases answer with
  | failed ret =>
      cases h
      rfl
  | done count =>
      simp only at h
      split at h
      · rename_i message rings' htake
        obtain ⟨hfits, hsequence⟩ :=
          sound_of_mem_answers hkernel (mem_answers_of_take htake List.mem_cons_self)
        rw [if_neg (not_or.mpr ⟨hsequence, Nat.not_lt.mpr hfits⟩)] at h
        cases h
      · cases h

/-! ## Leaving a lock -/

section Leave

variable (s : State) (call : Call) (ret : Code) (messages : List Response) (report : Report)
  (responseCapacity : ℕ) (sent : Sent) (message : Response)

@[simp] theorem report_kernel : (s.report report).kernel = s.kernel := rfl
@[simp] theorem report_retained : (s.report report).retained = s.retained := rfl
@[simp] theorem report_rx : (s.report report).rx = s.rx := rfl
@[simp] theorem report_reports : (s.report report).reports = s.reports ++ [report] := rfl

@[simp] theorem leave_kernel : (s.leave call ret messages).kernel = s.kernel := by
  unfold State.leave
  split_ifs <;> rfl

@[simp] theorem leave_retained : (s.leave call ret messages).retained = s.retained := by
  unfold State.leave
  split_ifs <;> rfl

@[simp] theorem leave_rx : (s.leave call ret messages).rx = s.rx := by
  unfold State.leave
  split_ifs <;> rfl

theorem copyOut_eq :
    s.copyOut responseCapacity sent message =
      if responseCapacity < message.message.length.toNat then
        s.fail responseCapacity sent (.errno .emsgsize)
      else s.report ⟨.call sent.request responseCapacity, .errno .ok, [message], some sent⟩ := by
  unfold State.copyOut copyMessage
  split_ifs <;> rfl

@[simp] theorem copyOut_kernel :
    (s.copyOut responseCapacity sent message).kernel = s.kernel := by
  rw [copyOut_eq]
  split_ifs <;> rfl

end Leave

/-! ## Every step is a step of the kernel -/

/-- The kernel stays as it is or takes one step. -/
def Kernel.Moves (kernel kernel' : Kernel) : Prop := kernel' = kernel ∨ Kernel.Step kernel kernel'

theorem Kernel.Moves.refl (kernel : Kernel) : kernel.Moves kernel := .inl rfl

theorem Kernel.Inv.moves {kernel kernel' : Kernel} (h : kernel.Inv)
    (hmoves : kernel.Moves kernel') : kernel'.Inv :=
  hmoves.elim (fun heq => heq ▸ h) h.step

theorem messageSendLocked_moves {answer : Answer} {kernel kernel' : Kernel} {message : Slot}
    {result : Except Errno U32}
    (h : messageSendLocked answer kernel message = some (result, kernel')) :
    kernel.Moves kernel' := by
  cases result with
  | ok sequence => exact .inr (.publish (send_ok h).2)
  | error ret => exact .inl (send_error h)

theorem receiveFromKernelLocked_moves {answer : Answer} {kernel : Kernel} {rings : Rings}
    {result : Except Errno Response} (hkernel : kernel.Inv)
    (h : receiveFromKernelLocked answer kernel.rings = some (result, rings)) :
    kernel.Moves { kernel with rings := rings } := by
  cases result with
  | ok message => exact .inr (.take (receive_ok h))
  | error ret =>
      obtain rfl := receive_error hkernel h
      exact .refl _

section Step

variable {s t : State} {answer : Answer}

theorem messageReceive_moves (hkernel : s.kernel.Inv) {responseCapacity : ℕ}
    (h : messageReceive answer s responseCapacity = some t) : s.kernel.Moves t.kernel := by
  unfold messageReceive at h
  split at h
  · left
    split at h
    · cases h
      exact leave_kernel ..
    · split at h <;> cases h <;> exact leave_kernel ..
  · split at h
    · cases h
    · rename_i hreceive
      cases h
      rw [leave_kernel]
      exact receiveFromKernelLocked_moves hkernel hreceive
    · rename_i hreceive
      have hmoves := receiveFromKernelLocked_moves hkernel hreceive
      split at h
      · cases h
        rwa [leave_kernel]
      · split at h <;> cases h <;> rwa [leave_kernel]

theorem submitBatchLocked_moves {messages : Batch}
    (h : submitBatchLocked answer s messages = some t) : s.kernel.Moves t.kernel := by
  unfold submitBatchLocked at h
  split_ifs at h
  · cases answer with
    | failed ret =>
        cases h
        exact .inl (leave_kernel ..)
    | done completed =>
        simp only at h
        split_ifs at h
        obtain ⟨⟨stamped, kernel⟩, hpublish, ht⟩ := Option.map_eq_some_iff.mp h
        right
        simp only at ht
        split_ifs at ht <;> subst ht <;> rw [leave_kernel] <;> exact .publish hpublish
  · cases h
    exact .refl _

theorem reapBatchLocked_moves {count : BatchCount} (h : reapBatchLocked answer s count = some t) :
    s.kernel.Moves t.kernel := by
  unfold reapBatchLocked at h
  split at h
  · cases h
    exact .inl (leave_kernel ..)
  · cases h
    exact .inl (leave_kernel ..)
  · split_ifs at h
    · cases answer with
      | failed ret =>
          cases h
          exact .inl (leave_kernel ..)
      | done completed =>
          simp only at h
          split_ifs at h
          obtain ⟨⟨messages, rings⟩, htake, ht⟩ := Option.map_eq_some_iff.mp h
          right
          simp only at ht
          split_ifs at ht <;> subst ht <;> rw [leave_kernel] <;> exact .take htake
    · cases h
      exact .refl _

theorem txStep_moves (h : txStep answer s = some t) : s.kernel.Moves t.kernel := by
  unfold txStep at h
  split at h
  · cases h
  · obtain ⟨⟨result, kernel⟩, hsend, ht⟩ := Option.map_eq_some_iff.mp h
    have hmoves := messageSendLocked_moves hsend
    cases result with
    | ok sequence =>
        simp only at ht
        split_ifs at ht <;> subst ht
        · exact hmoves
        · rwa [leave_kernel]
    | error ret =>
        subst ht
        rwa [leave_kernel]

theorem rxStep_moves (hkernel : s.kernel.Inv) (h : rxStep answer s = some t) :
    s.kernel.Moves t.kernel := by
  unfold rxStep at h
  split at h
  · cases h
  · -- the loop of `reap_batch_locked`
    obtain ⟨⟨result, rings⟩, hreceive, ht⟩ := Option.map_eq_some_iff.mp h
    have hmoves := receiveFromKernelLocked_moves hkernel hreceive
    cases result with
    | ok message =>
        simp only at ht
        split_ifs at ht <;> subst ht
        · exact hmoves
        · rwa [leave_kernel]
    | error ret =>
        subst ht
        rwa [leave_kernel]
  · -- the synchronous call sends
    split_ifs at h
    obtain ⟨⟨result, kernel⟩, hsend, ht⟩ := Option.map_eq_some_iff.mp h
    have hmoves := messageSendLocked_moves hsend
    cases result with
    | ok sequence =>
        subst ht
        exact hmoves
    | error ret =>
        simp only at ht
        split_ifs at ht <;> subst ht <;> exact hmoves
  · -- it makes room in the response ring
    obtain ⟨⟨result, rings⟩, hreceive, ht⟩ := Option.map_eq_some_iff.mp h
    have hmoves := receiveFromKernelLocked_moves hkernel hreceive
    cases result with
    | ok message =>
        simp only at ht
        split at ht <;> subst ht <;> exact hmoves
    | error ret =>
        subst ht
        rwa [leave_kernel]
  · -- it looks among the retained responses
    left
    split at h <;> cases h
    · rfl
    · exact copyOut_kernel ..
    · rfl
  · -- it receives
    obtain ⟨⟨result, rings⟩, hreceive, ht⟩ := Option.map_eq_some_iff.mp h
    have hmoves := receiveFromKernelLocked_moves hkernel hreceive
    cases result with
    | ok message =>
        simp only at ht
        split_ifs at ht
        · subst ht
          rwa [copyOut_kernel]
        · split at ht <;> subst ht <;> exact hmoves
    | error ret =>
        simp only at ht
        split_ifs at ht <;> subst ht <;> exact hmoves
  · cases answer <;> cases h <;> exact .refl _
  · cases answer <;> cases h <;> exact .refl _

theorem locked_moves (hkernel : s.kernel.Inv) {call : Call} (h : s.locked answer call = some t) :
    s.kernel.Moves t.kernel := by
  cases call with
  | send request =>
      simp only [State.locked] at h
      split_ifs at h
      obtain ⟨⟨result, kernel⟩, hsend, ht⟩ := Option.map_eq_some_iff.mp h
      subst ht
      rw [leave_kernel]
      exact messageSendLocked_moves hsend
  | receive responseCapacity =>
      simp only [State.locked] at h
      split_ifs at h
      exact messageReceive_moves hkernel h
  | submit messages =>
      simp only [State.locked] at h
      split_ifs at h
      exact submitBatchLocked_moves h
  | reap count =>
      simp only [State.locked] at h
      split_ifs at h
      exact reapBatchLocked_moves h
  | call request responseCapacity =>
      simp only [State.locked] at h
      split_ifs at h
      cases h
      exact .refl _

theorem step_moves (hkernel : s.kernel.Inv) {l : Label} (h : step l s = some t) :
    s.kernel.Moves t.kernel := by
  cases l with
  | enter call =>
      cases h
      exact .refl _
  | lock i answer =>
      simp only [step] at h
      split at h
      · exact locked_moves (s := { s with outside := s.outside.eraseIdx i }) hkernel h
      · cases h
  | events i answer =>
      simp only [step] at h
      split at h
      · cases answer <;> cases h <;> exact .refl _
      · cases h
  | tx answer => exact txStep_moves h
  | rx answer => exact rxStep_moves hkernel h
  | execute mmio =>
      simp only [step] at h
      split at h
      · cases h
      · rename_i request hnext
        split_ifs at h with hwithin
        cases h
        exact .inr (.execute mmio hnext hwithin)

end Step

theorem Start.kernelInv {s : State} (h : Start s) : s.kernel.Inv where
  inOrder := by
    rw [h.rings]
    exact ⟨List.prefix_rfl, Nat.le_refl _⟩
  within := by
    rw [h.rings]
    decide
  sequences := by
    rw [h.rings]
    rfl
  next := by
    rw [h.rings, h.nextSequence]
    rfl

theorem reachable_kernelInv {allowed : Label → State → Prop} {s : State}
    (h : ReachableBy threads allowed s) : s.kernel.Inv :=
  h.invariant (I := fun s => s.kernel.Inv) (fun _ (hs : Start _) => hs.kernelInv)
    fun _ _ _ hs _ hstep => hs.moves (step_moves hs hstep)

/-- The steps of the threads are steps of the service. -/
theorem step_refines {s t : State} {l : Label} (hkernel : s.kernel.Inv)
    (h : step l s = some t) :
    t.kernel.rings = s.kernel.rings ∨ Service.Step s.kernel.rings t.kernel.rings :=
  (step_moves hkernel h).imp (congrArg Kernel.rings) Kernel.Step.service

end Sg200x.Ipc.Threads
