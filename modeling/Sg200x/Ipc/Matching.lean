import Sg200x.Ipc.Ledger

/-!
# Synchronous calls get their own response

A synchronous call holds `rx_lock` from its send to the match, so that nobody else takes
its response, and fewer requests are outstanding than the sequence counter has values.  A
response that stays in `pending` has no such bound: once the counter has come round, the
sequence of a call can be that of a retained response.
-/

namespace Sg200x.Ipc.Threads

open Shm App Driver Library Library.Transition
open Client (Retained BatchSupport retainPending removePending takePending takePendingOldest
  takePendingSequence carried)

/-- The request of the synchronous call that holds `rx_lock`, once it has been sent. -/
def RxPc.sent? : RxPc → Option Sent
  | .takePending _ sent | .receive _ sent | .deadline _ sent | .wait _ sent => some sent
  | _ => none

/-- The response to a request is still in the response ring, or on its way there. -/
structure Outstanding (s : State) (sent : Sent) : Prop where
  request : s.kernel.rings.requests[sent.index]? = some sent.stamped
  delivered : s.kernel.rings.delivered ≤ sent.index
  distinct : ∀ message ∈ s.retained.pending, message.message.sequence ≠ sent.sequence

/-- A synchronous call that returned 0 has the response which stands where its request
does. -/
def Answered (rings : Rings) (report : Report) : Prop :=
  ∀ request responseCapacity, report.call = .call request responseCapacity →
    report.ret = .errno .ok → ∃ sent, report.sent = some sent ∧ sent.request = request ∧
      rings.requests[sent.index]? = some sent.stamped ∧
      ∃ message ∈ removed rings, message.index = sent.index ∧ report.messages = [message]

/-- Not a synchronous call that returned 0. -/
def Unanswered (call : Call) (ret : Code) : Prop :=
  ∀ request responseCapacity, call = .call request responseCapacity → ret ≠ .errno .ok

structure Matched (s : State) : Prop where
  sent : ∀ pc sent, s.rx = some pc → pc.sent? = some sent → Outstanding s sent
  reports : ∀ report ∈ s.reports, Answered s.kernel.rings report

/-- No retained response has the sequence that a synchronous call is about to get. -/
def unambiguous (l : Label) (s : State) : Bool :=
  match l, s.rx with
  | .rx (.done _), some (.send _ _) =>
      s.retained.pending.all fun message =>
        message.message.sequence ≠ (takeSequence s.kernel.nextSequence).1
  | _, _ => true

def Call.synchronous : Call → Bool
  | .call _ _ => true
  | _ => false

theorem unanswered {call : Call} {ret : Code} (h : call.synchronous = false) :
    Unanswered call ret := by
  intro request responseCapacity hcall
  rw [hcall] at h
  cases h

/-! ## The rings only grow -/

theorem Kernel.Moves.grow {kernel kernel' : Kernel} (h : kernel.Moves kernel')
    (hkernel : kernel.Inv) :
    kernel.rings.requests <+: kernel'.rings.requests ∧
      removed kernel.rings <+: removed kernel'.rings := by
  rcases h with rfl | hstep
  · exact ⟨List.prefix_rfl, List.prefix_rfl⟩
  · cases hstep with
    | publish hpublish =>
        obtain ⟨-, -, rfl⟩ := publish_eq_some hpublish
        exact ⟨List.prefix_append _ _, List.prefix_rfl⟩
    | take htake =>
        obtain ⟨-, hrings, hremoved, -⟩ := take_eq_some htake
        simp only [hremoved]
        exact ⟨by rw [hrings], List.prefix_append _ _⟩
    | execute mmio hnext hwithin =>
        rw [removed_of_executed hkernel.inOrder.delivered]
        exact ⟨List.prefix_rfl, List.prefix_rfl⟩

theorem getElem?_of_isPrefix {α : Type} {xs ys : List α} (h : xs <+: ys) {i : ℕ} {x : α}
    (hi : xs[i]? = some x) : ys[i]? = some x := by
  obtain ⟨rest, rfl⟩ := h
  rw [List.getElem?_append_left (List.getElem?_eq_some_iff.mp hi).1, hi]

section Frame

variable {s t : State} {answer : Answer}

theorem Answered.grow {rings rings' : Rings} {report : Report} (h : Answered rings report)
    (hrequests : rings.requests <+: rings'.requests)
    (hremoved : removed rings <+: removed rings') : Answered rings' report := by
  intro request responseCapacity hcall hret
  obtain ⟨sent, hsent, hsame, hrequest, message, hmem, hanswers⟩ :=
    h request responseCapacity hcall hret
  exact ⟨sent, hsent, hsame, getElem?_of_isPrefix hrequests hrequest, message,
    hremoved.subset hmem, hanswers⟩

/-- A step which no synchronous call takes that has sent its request. -/
structure Frame (s t : State) : Prop where
  rx : ∀ pc, s.rx = none → t.rx = some pc → pc.sent? = none
  held : s.rx ≠ none → t.rx = s.rx ∧ t.retained = s.retained ∧
    t.kernel.rings.delivered = s.kernel.rings.delivered
  reports : ∃ new, t.reports = s.reports ++ new ∧
    ∀ report ∈ new, Unanswered report.call report.ret

theorem Frame.matched (h : Frame s t) (hkernel : s.kernel.Inv)
    (hmoves : s.kernel.Moves t.kernel) (hs : Matched s) : Matched t where
  sent := by
    intro pc sent hpc hsent
    by_cases hrx : s.rx = none
    · rw [h.rx pc hrx hpc] at hsent
      cases hsent
    · obtain ⟨hsame, hretained, hdelivered⟩ := h.held hrx
      obtain ⟨hrequest, hle, hdistinct⟩ := hs.sent pc sent (hsame ▸ hpc) hsent
      exact ⟨getElem?_of_isPrefix (hmoves.grow hkernel).1 hrequest, hdelivered ▸ hle,
        hretained ▸ hdistinct⟩
  reports := by
    obtain ⟨hrequests, hremoved⟩ := hmoves.grow hkernel
    obtain ⟨new, heq, hnone⟩ := h.reports
    intro report hreport
    rw [heq] at hreport
    rcases List.mem_append.mp hreport with hold | hnew
    · exact (hs.reports report hold).grow hrequests hremoved
    · intro request responseCapacity hcall hret
      exact absurd hret (hnone report hnew request responseCapacity hcall)

/-- What `leave` appends to the reports. -/
theorem leave_reports (s : State) {call : Call} {ret : Code} (messages : List Response)
    (hcall : Unanswered call ret) :
    ∃ new, (s.leave call ret messages).reports = s.reports ++ new ∧
      ∀ report ∈ new, Unanswered report.call report.ret := by
  unfold State.leave
  split_ifs
  · exact ⟨[], (List.append_nil _).symm, List.forall_mem_nil _⟩
  · exact ⟨[_], rfl, fun report hreport => List.mem_singleton.mp hreport ▸ hcall⟩

theorem frame_leave {call : Call} {ret : Code} {messages : List Response}
    (hcall : Unanswered call ret) (hrx : t.rx = s.rx) (hheld : s.rx ≠ none → t.retained = s.retained ∧
      t.kernel.rings.delivered = s.kernel.rings.delivered) (hreports : t.reports = s.reports) :
    Frame s (t.leave call ret messages) where
  rx pc hnone hpc := by
    rw [leave_rx, hrx, hnone] at hpc
    cases hpc
  held hne := by
    rw [leave_rx, leave_retained, leave_kernel]
    exact ⟨hrx, hheld hne⟩
  reports := hreports ▸ leave_reports t messages hcall

theorem delivered_of_send {kernel kernel' : Kernel} {message : Slot} {result : Except Errno U32}
    (h : messageSendLocked answer kernel message = some (result, kernel')) :
    kernel'.rings.delivered = kernel.rings.delivered := by
  cases result with
  | ok sequence =>
      obtain ⟨-, -, rfl⟩ := publish_eq_some (send_ok h).2
      rfl
  | error ret =>
      obtain rfl := send_error h
      rfl

theorem messageReceive_frame (hrx : s.rx = none) {responseCapacity : ℕ}
    (hstep : messageReceive answer s responseCapacity = some t) : Frame s t := by
  have hfree : ∀ {p : Prop}, s.rx ≠ none → p := fun hne => absurd hrx hne
  unfold messageReceive at hstep
  split at hstep
  · split at hstep
    · cases hstep
      exact frame_leave (unanswered rfl) rfl hfree rfl
    · split at hstep <;> cases hstep <;> exact frame_leave (unanswered rfl) rfl hfree rfl
  · split at hstep
    · cases hstep
    · cases hstep
      exact frame_leave (unanswered rfl) rfl hfree rfl
    · split at hstep
      · cases hstep
        exact frame_leave (unanswered rfl) rfl hfree rfl
      · split at hstep <;> cases hstep <;> exact frame_leave (unanswered rfl) rfl hfree rfl

theorem submitBatchLocked_frame {messages : Batch}
    (hstep : submitBatchLocked answer s messages = some t) : Frame s t := by
  unfold submitBatchLocked at hstep
  split_ifs at hstep
  · cases answer with
    | failed ret =>
        cases hstep
        exact frame_leave (unanswered rfl) rfl (fun _ => ⟨rfl, rfl⟩) rfl
    | done completed =>
        simp only at hstep
        split_ifs at hstep
        obtain ⟨⟨stamped, kernel⟩, hpublish, ht⟩ := Option.map_eq_some_iff.mp hstep
        obtain ⟨-, -, rfl⟩ := publish_eq_some hpublish
        simp only at ht
        split_ifs at ht <;> subst ht <;> exact frame_leave (unanswered rfl) rfl (fun _ => ⟨rfl, rfl⟩) rfl
  · cases hstep
    exact ⟨fun pc hnone hpc => (by rw [hnone] at hpc; cases hpc), fun _ => ⟨rfl, rfl, rfl⟩,
      [], (List.append_nil _).symm, List.forall_mem_nil _⟩

theorem reapBatchLocked_frame (hrx : s.rx = none) {count : BatchCount}
    (hstep : reapBatchLocked answer s count = some t) : Frame s t := by
  have hfree : ∀ {p : Prop}, s.rx ≠ none → p := fun hne => absurd hrx hne
  unfold reapBatchLocked at hstep
  split at hstep
  · cases hstep
    exact frame_leave (unanswered rfl) rfl hfree rfl
  · cases hstep
    exact frame_leave (unanswered rfl) rfl hfree rfl
  · split_ifs at hstep
    · cases answer with
      | failed ret =>
          cases hstep
          exact frame_leave (unanswered rfl) rfl hfree rfl
      | done completed =>
          simp only at hstep
          split_ifs at hstep
          obtain ⟨⟨messages, rings⟩, htake, ht⟩ := Option.map_eq_some_iff.mp hstep
          simp only at ht
          split_ifs at ht <;> subst ht <;> exact frame_leave (unanswered rfl) rfl hfree rfl
    · cases hstep
      exact ⟨fun pc _ hpc => (by cases hpc; rfl), hfree, [], (List.append_nil _).symm, List.forall_mem_nil _⟩

theorem txStep_frame (hstep : txStep answer s = some t) : Frame s t := by
  unfold txStep at hstep
  split at hstep
  · cases hstep
  · obtain ⟨⟨result, kernel⟩, hsend, ht⟩ := Option.map_eq_some_iff.mp hstep
    have hdelivered := delivered_of_send hsend
    cases result with
    | ok sequence =>
        simp only at ht
        split_ifs at ht <;> subst ht
        · exact ⟨fun pc hnone hpc => (by rw [hnone] at hpc; cases hpc),
            fun _ => ⟨rfl, rfl, hdelivered⟩, [], (List.append_nil _).symm, List.forall_mem_nil _⟩
        · exact frame_leave (unanswered rfl) rfl (fun _ => ⟨rfl, hdelivered⟩) rfl
    | error ret =>
        subst ht
        exact frame_leave (unanswered rfl) rfl (fun _ => ⟨rfl, hdelivered⟩) rfl

theorem locked_frame {call : Call} (hstep : s.locked answer call = some t) : Frame s t := by
  cases call with
  | send request =>
      simp only [State.locked] at hstep
      split_ifs at hstep
      obtain ⟨⟨result, kernel⟩, hsend, ht⟩ := Option.map_eq_some_iff.mp hstep
      subst ht
      exact frame_leave (unanswered rfl) rfl (fun _ => ⟨rfl, delivered_of_send hsend⟩) rfl
  | receive responseCapacity =>
      simp only [State.locked] at hstep
      split_ifs at hstep with hrx
      exact messageReceive_frame (Option.not_isSome_iff_eq_none.mp hrx) hstep
  | submit messages =>
      simp only [State.locked] at hstep
      split_ifs at hstep
      exact submitBatchLocked_frame hstep
  | reap count =>
      simp only [State.locked] at hstep
      split_ifs at hstep with hrx
      exact reapBatchLocked_frame (Option.not_isSome_iff_eq_none.mp hrx) hstep
  | call request responseCapacity =>
      simp only [State.locked] at hstep
      split_ifs at hstep with hrx
      cases hstep
      exact ⟨fun pc _ hpc => (by cases hpc; rfl),
        fun hne => absurd (Option.not_isSome_iff_eq_none.mp hrx) hne, [],
        (List.append_nil _).symm, List.forall_mem_nil _⟩

end Frame

/-! ## The steps of a synchronous call -/

section Call

variable {s t : State} {answer : Answer}

theorem Matched.settle (hs : Matched s) (hkernel : s.kernel.Inv)
    (hmoves : s.kernel.Moves t.kernel)
    (hsent : ∀ pc sent, t.rx = some pc → pc.sent? = some sent → Outstanding t sent)
    {new : List Report} (hreports : t.reports = s.reports ++ new)
    (hnew : ∀ report ∈ new, Answered t.kernel.rings report) : Matched t where
  sent := hsent
  reports := by
    obtain ⟨hrequests, hremoved⟩ := hmoves.grow hkernel
    intro report hreport
    rw [hreports] at hreport
    rcases List.mem_append.mp hreport with hold | hlast
    · exact (hs.reports report hold).grow hrequests hremoved
    · exact hnew report hlast

/-- The state in which a call leaves `rx_lock`, before its report. -/
structure Left (s t : State) : Prop where
  moves : s.kernel.Moves t.kernel
  rx : t.rx = none
  reports : t.reports = s.reports

/-- A call that returns with an error. -/
theorem Matched.report (hs : Matched s) (hkernel : s.kernel.Inv) {report : Report}
    (hret : report.ret ≠ .errno .ok) (h : Left s t) : Matched (t.report report) := by
  refine hs.settle hkernel h.moves (fun pc sent hpc => ?_)
    (h.reports ▸ report_reports t report) fun other hother => ?_
  · rw [report_rx, h.rx] at hpc
    cases hpc
  · rw [List.mem_singleton.mp hother]
    exact fun request responseCapacity _ hok => absurd hok hret

/-- A call that has sent no request of its own, or none that is left, leaves its lock. -/
theorem Matched.leave (hs : Matched s) (hkernel : s.kernel.Inv) {call : Call} {ret : Code}
    {messages : List Response} (hcall : Unanswered call ret) (h : Left s t) :
    Matched (t.leave call ret messages) := by
  obtain ⟨new, hnew, hnone⟩ := leave_reports t messages hcall
  refine hs.settle hkernel (by rw [leave_kernel]; exact h.moves) (fun pc sent hpc => ?_)
    (h.reports ▸ hnew) fun report hreport request responseCapacity hsame hret => ?_
  · rw [leave_rx, h.rx] at hpc
    cases hpc
  · exact absurd hret (hnone report hreport request responseCapacity hsame)

/-- A call that goes on without a new report. -/
theorem Matched.goto (hs : Matched s) (hkernel : s.kernel.Inv)
    (hmoves : s.kernel.Moves t.kernel) (hreports : t.reports = s.reports)
    (hsent : ∀ pc sent, t.rx = some pc → pc.sent? = some sent → Outstanding t sent) :
    Matched t :=
  hs.settle hkernel hmoves hsent (hreports.trans (List.append_nil _).symm) (List.forall_mem_nil _)

/-- The call that has sent its request receives the next response. -/
theorem Outstanding.receive {sent : Sent} (h : Outstanding s sent) (hkernel : s.kernel.Inv)
    {message : Response} {rings : Rings} (htake : take s.kernel.rings 1 = some ([message], rings)) :
    message.message.sequence = sent.sequence ↔ message.index = sent.index := by
  have hindex := index_of_take_one htake
  have hmessage : message.message.sequence = ticket message.index :=
    hkernel.response (mem_answers_of_take htake List.mem_cons_self)
  have hsent : sent.sequence = ticket sent.index := hkernel.sequence h.request
  rw [hmessage, hsent]
  constructor
  · intro hticket
    -- fewer requests are outstanding than the counter has values
    have hlt := (List.getElem?_eq_some_iff.mp h.request).1
    have hrequests := hkernel.within.requests
    have hexecuted := hkernel.within.executed
    have hperiod : 2 * (slotCount + 1) < NonzeroCounter.period 32 := by decide
    have hle := h.delivered
    exact ticket_inj (by omega) (by omega) hticket
  · exact congrArg ticket

theorem Matched.copyOut (hs : Matched s) (hkernel : s.kernel.Inv) {responseCapacity : ℕ}
    {sent : Sent} {message : Response} (h : Left s t)
    (hrequest : t.kernel.rings.requests[sent.index]? = some sent.stamped)
    (hmem : message ∈ removed t.kernel.rings) (hindex : message.index = sent.index) :
    Matched (t.copyOut responseCapacity sent message) := by
  rw [copyOut_eq]
  split_ifs
  · exact hs.report hkernel nofun h
  · refine hs.settle hkernel h.moves (fun pc sent hpc => ?_) (h.reports ▸ report_reports t _)
      fun report hreport => ?_
    · rw [report_rx, h.rx] at hpc
      cases hpc
    · rw [List.mem_singleton.mp hreport]
      intro request responseCapacity' hcall _
      cases hcall
      exact ⟨sent, rfl, rfl, hrequest, message, hmem, hindex, rfl⟩

theorem Matched.rxStep (hs : Matched s) (hkernel : s.kernel.Inv)
    (hunambiguous : unambiguous (.rx answer) s = true) (hstep : rxStep answer s = some t) :
    Matched t := by
  have hmoves := rxStep_moves hkernel hstep
  unfold Threads.rxStep at hstep
  unfold unambiguous at hunambiguous
  cases hrx : s.rx with
  | none =>
      rw [hrx] at hstep
      cases hstep
  | some pc =>
      rw [hrx] at hstep hunambiguous
      have hcurrent : ∀ sent, pc.sent? = some sent → Outstanding s sent :=
        fun sent => hs.sent pc sent hrx
      cases pc with
      | reapEach count messages =>
          obtain ⟨⟨result, rings⟩, hreceive, ht⟩ := Option.map_eq_some_iff.mp hstep
          have hreceived := receiveFromKernelLocked_moves hkernel hreceive
          cases result with
          | ok message =>
              simp only at ht
              split_ifs at ht <;> subst ht
              · refine hs.goto hkernel hmoves rfl fun pc sent hpc hsent => ?_
                cases hpc
                cases hsent
              · refine hs.leave hkernel (unanswered rfl) ?_
                exact ⟨hreceived, rfl, rfl⟩
          | error ret =>
              subst ht
              refine hs.leave hkernel (unanswered rfl) ?_
              exact ⟨hreceived, rfl, rfl⟩
      | send request responseCapacity =>
          simp only at hstep
          split_ifs at hstep
          obtain ⟨⟨result, kernel⟩, hsend, ht⟩ := Option.map_eq_some_iff.mp hstep
          cases result with
          | ok sequence =>
              obtain ⟨count, rfl⟩ := answer_of_send_ok hsend
              obtain ⟨rfl, hpublish⟩ := send_ok hsend
              obtain ⟨-, -, rfl⟩ := publish_eq_some hpublish
              subst ht
              refine hs.goto hkernel hmoves rfl fun pc sent hpc hsent => ?_
              cases hpc
              cases hsent
              refine ⟨List.getElem?_concat_length, ?_, fun message hmem => ?_⟩
              · exact hkernel.inOrder.delivered.trans (hkernel.inOrder.executed.length_le.trans' (by simp))
              · exact of_decide_eq_true (List.all_eq_true.mp hunambiguous message hmem)
          | error ret =>
              have hne := send_error_ne hsend
              simp only at ht
              split_ifs at ht with hagain
              · subst ht
                refine hs.goto hkernel hmoves rfl fun pc sent hpc hsent => ?_
                cases hpc
                cases hsent
              · subst ht
                refine hs.report hkernel (fun heq => hne (Code.errno.inj heq)) ?_
                exact ⟨hmoves, rfl, rfl⟩
      | drain request responseCapacity =>
          obtain ⟨⟨result, rings⟩, hreceive, ht⟩ := Option.map_eq_some_iff.mp hstep
          have hreceived := receiveFromKernelLocked_moves hkernel hreceive
          cases result with
          | ok message =>
              simp only at ht
              split at ht <;> subst ht
              · refine hs.goto hkernel hmoves rfl fun pc sent hpc => ?_
                cases hpc
              · refine hs.report hkernel (nofun) ?_
                exact ⟨hmoves, rfl, rfl⟩
          | error ret =>
              have hne := receive_error_ne hreceive
              subst ht
              refine hs.leave hkernel (fun _ _ _ heq => hne (Code.errno.inj heq)) ?_
              exact ⟨hreceived, rfl, rfl⟩
      | takePending responseCapacity sent =>
          simp only at hstep
          have hout := hcurrent sent rfl
          rw [takePendingSequence_none hout.distinct] at hstep
          cases hstep
          refine hs.goto hkernel hmoves rfl fun pc sent' hpc hsent => ?_
          cases hpc
          cases hsent
          exact ⟨hout.request, hout.delivered, hout.distinct⟩
      | receive responseCapacity sent =>
          obtain ⟨⟨result, rings⟩, hreceive, ht⟩ := Option.map_eq_some_iff.mp hstep
          have hout := hcurrent sent rfl
          cases result with
          | ok message =>
              have htake := receive_ok hreceive
              obtain ⟨hcount, hrings, hremoved, -⟩ := take_eq_some htake
              simp only at ht
              split_ifs at ht with hmatch
              · subst ht
                refine hs.copyOut hkernel ?_ ?_ ?_ ((hout.receive hkernel htake).mp hmatch)
                · exact ⟨.inr (.take htake), rfl, rfl⟩
                · subst hrings
                  exact hout.request
                · simp only [hremoved]
                  exact List.mem_append_right _ List.mem_cons_self
              · split at ht <;> rename_i hretain <;> subst ht
                · obtain ⟨-, rfl⟩ := retainPending_eq_some hretain
                  refine hs.goto hkernel hmoves rfl fun pc sent' hpc hsent => ?_
                  cases hpc
                  cases hsent
                  subst hrings
                  refine ⟨hout.request, ?_, fun other hother => ?_⟩
                  · have hne := mt (hout.receive hkernel htake).mpr hmatch
                    have hindex := index_of_take_one htake
                    have hle := hout.delivered
                    change s.kernel.rings.delivered + 1 ≤ sent.index
                    omega
                  · rcases List.mem_append.mp hother with hold | hlast
                    · exact hout.distinct other hold
                    · rwa [List.mem_singleton.mp hlast]
                · refine hs.report hkernel (nofun) ?_
                  exact ⟨hmoves, rfl, rfl⟩
          | error ret =>
              have hne := receive_error_ne hreceive
              obtain rfl := receive_error hkernel hreceive
              simp only at ht
              split_ifs at ht <;> subst ht
              · refine hs.goto hkernel hmoves rfl fun pc sent' hpc hsent => ?_
                cases hpc
                cases hsent
                exact ⟨hout.request, hout.delivered, hout.distinct⟩
              · refine hs.report hkernel (fun heq => hne (Code.errno.inj heq)) ?_
                exact ⟨hmoves, rfl, rfl⟩
      | deadline responseCapacity sent =>
          have hout := hcurrent sent rfl
          cases answer with
          | done count =>
              cases hstep
              refine hs.goto hkernel hmoves rfl fun pc sent' hpc hsent => ?_
              cases hpc
              cases hsent
              exact ⟨hout.request, hout.delivered, hout.distinct⟩
          | failed ret =>
              cases hstep
              refine hs.report hkernel nofun ?_
              exact ⟨hmoves, rfl, rfl⟩
      | wait responseCapacity sent =>
          have hout := hcurrent sent rfl
          cases answer with
          | done count =>
              cases hstep
              refine hs.goto hkernel hmoves rfl fun pc sent' hpc hsent => ?_
              cases hpc
              cases hsent
              exact ⟨hout.request, hout.delivered, hout.distinct⟩
          | failed ret =>
              cases hstep
              refine hs.report hkernel (fun heq => ret.2 (Code.errno.inj heq)) ?_
              exact ⟨hmoves, rfl, rfl⟩

theorem Matched.step (hs : Matched s) (hkernel : s.kernel.Inv) {l : Label}
    (hunambiguous : unambiguous l s = true) (hstep : step l s = some t) : Matched t := by
  have hmoves := step_moves hkernel hstep
  cases l with
  | enter call =>
      cases hstep
      exact ⟨fun pc sent hpc hsent => by
        obtain ⟨hrequest, hdelivered, hdistinct⟩ := hs.sent pc sent hpc hsent
        exact ⟨hrequest, hdelivered, hdistinct⟩, hs.reports⟩
  | lock i answer =>
      simp only [Threads.step] at hstep
      split at hstep
      · have hframe := locked_frame hstep
        exact Frame.matched (s := s) ⟨hframe.rx, hframe.held, hframe.reports⟩ hkernel hmoves hs
      · cases hstep
  | events i answer =>
      simp only [Threads.step] at hstep
      split at hstep
      · have hrx : ∀ pc, s.rx = none → s.rx = some pc → pc.sent? = none := by
          intro pc hnone hpc
          rw [hnone] at hpc
          cases hpc
        cases answer with
        | done count =>
            cases hstep
            exact Frame.matched ⟨hrx, fun _ => ⟨rfl, rfl, rfl⟩, [], (List.append_nil _).symm, List.forall_mem_nil _⟩
              hkernel hmoves hs
        | failed ret =>
            cases hstep
            refine Frame.matched ⟨hrx, fun _ => ⟨rfl, rfl, rfl⟩, [_], rfl, fun report hreport => ?_⟩
              hkernel hmoves hs
            rw [List.mem_singleton.mp hreport]
            exact fun _ _ _ heq => ret.2 (Code.errno.inj heq)
      · cases hstep
  | tx answer => exact (txStep_frame hstep).matched hkernel hmoves hs
  | rx answer => exact hs.rxStep hkernel hunambiguous hstep
  | execute mmio =>
      simp only [Threads.step] at hstep
      split at hstep
      · cases hstep
      · split_ifs at hstep
        cases hstep
        refine Frame.matched (s := s) ⟨fun pc hnone hpc => ?_, fun _ => ⟨rfl, rfl, rfl⟩, [],
          (List.append_nil _).symm, List.forall_mem_nil _⟩ hkernel hmoves hs
        change s.rx = some pc at hpc
        rw [hnone] at hpc
        cases hpc

end Call

theorem Start.matched {s : State} (h : Start s) : Matched s where
  sent := by
    rw [h.rx]
    exact nofun
  reports := by
    rw [h.reports]
    exact nofun

theorem reachable_matched {s : State}
    (h : ReachableBy threads (fun l s => unambiguous l s = true) s) :
    s.kernel.Inv ∧ Matched s :=
  h.invariant (I := fun s => s.kernel.Inv ∧ Matched s)
    (fun s (hs : Start s) => ⟨hs.kernelInv, hs.matched⟩)
    fun _ _ _ ⟨hkernel, hs⟩ hl hstep =>
      ⟨hkernel.moves (step_moves hkernel hstep), hs.step hkernel hl hstep⟩

/-! ## The response of a synchronous call -/

/-- A synchronous call that returns 0 returns what the firmware answered to its own request,
as long as no retained response has the sequence that the kernel assigns to the call. -/
theorem own_response {s : State}
    (h : ReachableBy threads (fun l s => unambiguous l s = true) s) :
    ∀ report ∈ s.reports, ∀ request responseCapacity,
      report.call = .call request responseCapacity → report.ret = .errno .ok →
        ∃ sent mmio, report.sent = some sent ∧ sent.request = request ∧
          s.kernel.rings.executed[sent.index]? = some (mmio, sent.stamped) ∧
          report.messages = [⟨sent.index, respond mmio sent.stamped⟩] := by
  obtain ⟨hkernel, hmatched⟩ := reachable_matched h
  intro report hreport request responseCapacity hcall hret
  obtain ⟨sent, hsent, hsame, hrequest, message, hmem, hindex, hmessages⟩ :=
    hmatched.reports report hreport request responseCapacity hcall hret
  obtain ⟨-, ⟨mmio, executed⟩, hexecuted, hmessage⟩ := mem_removed.mp hmem
  rw [hindex] at hexecuted
  have hstamped : executed = sent.stamped := by
    have hget := hkernel.executed hexecuted
    rw [hrequest] at hget
    exact (Option.some.inj hget).symm
  subst hstamped
  refine ⟨sent, mmio, hsent, hsame, hexecuted, ?_⟩
  rw [hmessages, ← hindex]
  exact congrArg (fun m : Response => [m]) (by rw [← hmessage])

/-- A synchronous call that the firmware answers at once. -/
theorem own_response_first :
    ∃ s, exec step (callLabels Slot.zero 0 fun _ => 0#32) opened = some s ∧
      ∃ report ∈ s.reports, report.ret = .errno .ok ∧
        ∃ (sent : Sent) (mmio : Mmio),
          report.messages = [⟨sent.index, respond mmio sent.stamped⟩] := by
  have hexec : ∃ s, exec (guarded unambiguous step) (callLabels Slot.zero 0 fun _ => 0#32) opened =
      some s ∧ exec step (callLabels Slot.zero 0 fun _ => 0#32) opened = some s ∧
      ∃ report ∈ s.reports, report.call = .call Slot.zero 0 ∧ report.ret = .errno .ok :=
    ⟨_, rfl, rfl, _, List.mem_singleton_self _, rfl, rfl⟩
  obtain ⟨s, hguarded, hs, report, hreport, hcall, hret⟩ := hexec
  have hreachable := (ReachableBy.start (S := threads) start_opened).execGuarded hguarded
  obtain ⟨sent, mmio, -, -, -, hmessages⟩ :=
    own_response hreachable report hreport Slot.zero 0 hcall hret
  exact ⟨s, hs, report, hreport, hret, sent, mmio, hmessages⟩

/-! ## A retained response with the sequence of a later call -/

/-- The first call is timed out; the second one retains its response. -/
def orphanLabels : List Label :=
  [.enter (.call Slot.zero 0), .lock 0 (.done 0), .rx (.done 1), .rx (.done 0),
    .rx (.failed ⟨.eagain, by decide⟩), .rx (.failed ⟨.etimedout, by decide⟩),
    .execute (fun _ => 0#32),
    .enter (.call Slot.zero 0), .lock 0 (.done 0), .rx (.done 1), .execute (fun _ => 0#32),
    .rx (.done 0), .rx (.done 1), .rx (.done 0), .rx (.done 0), .rx (.done 1)]

/-- The response to the first request. -/
def orphan : Response := ⟨0, respond (fun _ => 0#32) (Sent.mk Slot.zero 0 1#32).stamped⟩

/-- `n` requests have been sent, and the response to the first one is retained. -/
structure Orphaned (n : ℕ) (s : State) : Prop where
  reachable : Reachable threads s
  idle : Idle s
  retained : s.retained = ⟨[orphan], 1⟩
  requests : s.kernel.rings.requests.length = n

theorem orphaned_two : ∃ s, Orphaned 2 s := by
  have hexec : ∃ s, exec step orphanLabels opened = some s ∧ Idle s ∧
      s.retained = ⟨[orphan], 1⟩ ∧ s.kernel.rings.requests.length = 2 :=
    ⟨_, rfl, ⟨rfl, rfl, rfl, rfl, rfl⟩, rfl, rfl⟩
  obtain ⟨s, hs, hidle, hretained, hrequests⟩ := hexec
  exact ⟨s, (Reachable.start start_opened).exec hs, hidle, hretained, hrequests⟩

theorem Orphaned.succ {n : ℕ} {s : State} (h : Orphaned n s) (hpos : 0 < n)
    (hn : n < NonzeroCounter.period 32) : ∃ t, Orphaned (n + 1) t := by
  have hkernel := reachable_kernelInv h.reachable
  have hnone : ∀ message ∈ s.retained.pending,
      message.message.sequence ≠ (takeSequence s.kernel.nextSequence).1 := by
    intro message hmem
    rw [h.retained] at hmem
    rw [List.mem_singleton.mp hmem, hkernel.next, h.requests]
    intro heq
    have hzero : 0 = n := ticket_inj (Nat.zero_le n) (by omega) heq
    omega
  have hexec := exec_callLabels h.idle Slot.zero payloadSize (fun _ => 0#32)
    (by decide) hnone
  rw [copyOut_eq, if_neg (Nat.not_lt.mpr (respond_fits _ _))] at hexec
  refine ⟨_, h.reachable.exec hexec, ⟨h.idle.rx, h.idle.tx, h.idle.outside, ?_, ?_⟩, h.retained,
    ?_⟩
  · simp [Kernel.serve, State.report, h.idle.executed]
  · simp [Kernel.serve, State.report, h.idle.delivered]
  · simp [Kernel.serve, State.report, h.requests]

/-- The counter comes round while the response is retained. -/
theorem orphaned_period : ∃ s, Orphaned (NonzeroCounter.period 32) s := by
  have hall : ∀ k, k + 2 ≤ NonzeroCounter.period 32 → ∃ s, Orphaned (k + 2) s := by
    intro k hk
    induction k with
    | zero => exact orphaned_two
    | succ k ih =>
        obtain ⟨s, hs⟩ := ih (by omega)
        obtain ⟨t, ht⟩ := hs.succ (Nat.succ_pos _) (by omega)
        exact ⟨t, (by omega : k + 2 + 1 = k + 1 + 2) ▸ ht⟩
  exact hall (NonzeroCounter.period 32 - 2) (by decide)

theorem ticket_period : ticket (NonzeroCounter.period 32) = 1#32 := by
  apply BitVec.eq_of_toNat_eq
  rw [ticket, NonzeroCounter.toNat_iterate (by decide) (by decide)]
  rfl

/-- A call in which the sequence counter has come round to that of the retained response. -/
def staleLabels : List Label :=
  [.enter (.call Slot.zero payloadSize), .lock 0 (.done 0), .rx (.done 1), .rx (.done 0)]

theorem exec_staleLabels {s : State} (h : Idle s) (hretained : s.retained = ⟨[orphan], 1⟩)
    (hsequence : (takeSequence s.kernel.nextSequence).1 = 1#32) :
    ∃ t, exec step staleLabels s = some t ∧
      ∃ report ∈ t.reports, report.call = .call Slot.zero payloadSize ∧
        report.ret = .errno .ok ∧ report.sent = some (s.nextSent Slot.zero) ∧
        report.messages = [orphan] := by
  rcases s with ⟨⟨⟨requests, executed, delivered⟩, nextSequence, hasBatch⟩, submitSupported,
    reapSupported, retained, rx, tx, outside, reports⟩
  obtain ⟨hrx, htx, houtside, hexecuted, hdelivered⟩ := h
  dsimp only at hrx htx houtside hexecuted hdelivered hretained hsequence
  subst hrx htx houtside hdelivered hretained
  have hsend : messageSendLocked (.done 1) ⟨⟨requests, executed, requests.length⟩, nextSequence,
      hasBatch⟩ Slot.zero = some (.ok 1#32, ⟨⟨requests ++
        [(Sent.mk Slot.zero requests.length 1#32).stamped], executed, requests.length⟩,
        (takeSequence nextSequence).2, hasBatch⟩) := by
    have hzero : Slot.zero.Fits := by decide
    refine send_done ⟨Slot.zero, requests.length, 1#32⟩ 1 hzero hsequence.symm ?_
    constructor <;> simp <;> omega
  have hpending : takePendingSequence (fun message : Response => message.message.sequence)
      ⟨[orphan], 1⟩ 1#32 = (.ok (some orphan), ⟨[], 0⟩) := rfl
  have hfits : ¬ payloadSize < orphan.message.length.toNat :=
    Nat.not_lt.mpr (respond_fits _ _)
  simp only [staleLabels, exec_cons, exec_nil, step, State.locked, rxStep, List.nil_append,
    List.getElem?_cons_zero, List.eraseIdx_cons_zero, Option.isSome_none, Bool.false_eq_true,
    if_false, Option.bind_some, hsend, Option.map_some, hpending, copyOut_eq, if_neg hfits]
  refine ⟨_, rfl, _, List.mem_append_right _ (List.mem_singleton_self _), rfl, rfl, ?_, rfl⟩
  rw [State.nextSent, hsequence]

/-- A synchronous call returns the response to a call that timed out long ago. -/
theorem stale_response :
    ¬ ∀ s, Reachable threads s → ∀ report ∈ s.reports, ∀ request responseCapacity,
      report.call = .call request responseCapacity → report.ret = .errno .ok →
        ∃ sent mmio, report.sent = some sent ∧ sent.request = request ∧
          s.kernel.rings.executed[sent.index]? = some (mmio, sent.stamped) ∧
          report.messages = [⟨sent.index, respond mmio sent.stamped⟩] := by
  intro hown
  obtain ⟨s, hs⟩ := orphaned_period
  have hkernel := reachable_kernelInv hs.reachable
  have hsequence : (takeSequence s.kernel.nextSequence).1 = 1#32 := by
    rw [hkernel.next, hs.requests, ticket_period]
  have hrequests := hs.requests
  obtain ⟨t, ht, report, hreport, hcall, hret, hsent, hmessages⟩ :=
    exec_staleLabels hs.idle hs.retained hsequence
  obtain ⟨sent, mmio, hsent', -, -, hown⟩ :=
    hown t (hs.reachable.exec ht) report hreport Slot.zero payloadSize hcall hret
  rw [hsent] at hsent'
  cases hsent'
  rw [hmessages] at hown
  have hindex : (0 : ℕ) = s.kernel.rings.requests.length :=
    congrArg Response.index (List.singleton_injective hown)
  rw [hrequests] at hindex
  exact absurd hindex (by decide)

end Sg200x.Ipc.Threads
