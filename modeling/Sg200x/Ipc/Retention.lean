import Sg200x.Ipc.Ledger

/-!
# Conservation of responses

A response that has left the response ring is retained in `pending`, lies in the buffer of
the reap that holds `rx_lock`, or has been handed out by one call.  A synchronous call
loses what it takes in two places: a response to another request when `pending` is full,
and its own response when that is too long for the caller's buffer.
-/

namespace Sg200x.Ipc.Threads

open Shm App Driver Library Library.Transition
open Client (carried carried_getElem)

/-- The responses that calls have handed out. -/
def Ledger.handed (a : Ledger) : List Response := a.reports.flatMap Report.messages

structure Ledger.Conserved (a : Ledger) : Prop where
  places : ∀ message, a.retained.pending.count message + (a.buffer.getD []).count message +
    a.handed.count message = a.removed.count message
  reported : ∀ report ∈ a.reports, report.messages ≠ [] →
    report.ret = .errno .ok ∨ ∃ count, report.call = .reap count

section Moves

variable {a b : Ledger}

theorem Ledger.handed_report (report : Report) :
    (a.report report).handed = a.handed ++ report.messages := by
  simp [Ledger.handed, Ledger.report]

theorem Ledger.Conserved.report {report : Report} (h : a.Conserved)
    (hreports : b.reports = a.reports)
    (hhands : report.messages ≠ [] → report.ret = .errno .ok ∨ ∃ count, report.call = .reap count)
    (hplaces : ∀ message, b.retained.pending.count message + (b.buffer.getD []).count message +
      (a.handed.count message + report.messages.count message) = b.removed.count message) :
    (b.report report).Conserved where
  places := by
    intro message
    have hhanded : b.handed = a.handed := by
      unfold Ledger.handed
      rw [hreports]
    rw [Ledger.handed_report, List.count_append, hhanded]
    exact hplaces message
  reported := by
    intro other hother
    rcases List.mem_append.mp hother with hold | hnew
    · exact h.reported other (hreports ▸ hold)
    · exact List.mem_singleton.mp hnew ▸ hhands

theorem count_eraseIdx {pending : List Response} {i : ℕ} {message : Response}
    (hi : pending[i]? = some message) (other : Response) :
    (pending.eraseIdx i).count other + [message].count other = pending.count other := by
  obtain ⟨hlt, rfl⟩ := List.getElem?_eq_some_iff.mp hi
  rw [← (List.getElem_cons_eraseIdx_perm hlt).count_eq, List.count_cons, List.count_cons]
  simp

/-- A move that loses nothing conserves the responses. -/
theorem Ledger.Conserved.move (h : a.Conserved) (hmove : a.Move False b) : b.Conserved := by
  cases hmove with
  | fail report hnone =>
      refine h.report rfl (fun hne => absurd hnone hne) fun message => ?_
      rw [hnone, List.count_nil]
      exact h.places message
  | retain message hroom hbuffer =>
      refine ⟨fun other => ?_, h.reported⟩
      have hplaces := h.places other
      simp only [Ledger.take, List.count_append]
      change _ + _ + a.handed.count other = _
      omega
  | oldest rest report hpending hbuffer hret hcall =>
      refine h.report rfl (fun _ => .inl hret) fun message => ?_
      have hplaces := h.places message
      rw [hpending, List.count_append] at hplaces
      change rest.count message + (a.buffer.getD []).count message + _ = a.removed.count message
      omega
  | newest report hpending hbuffer hret hcall =>
      refine h.report rfl (fun _ => .inl hret) fun message => ?_
      have hplaces := h.places message
      simp only [Ledger.take, List.count_append]
      omega
  | start hpending hbuffer =>
      refine ⟨fun message => ?_, h.reported⟩
      have hplaces := h.places message
      rw [hbuffer] at hplaces
      exact hplaces
  | fill messages message hbuffer =>
      refine ⟨fun other => ?_, h.reported⟩
      have hplaces := h.places other
      rw [hbuffer] at hplaces
      simp only [Ledger.take, Option.getD_some, List.count_append] at hplaces ⊢
      change _ + _ + a.handed.count other = _
      omega
  | giveUp hbuffer =>
      refine ⟨fun message => ?_, h.reported⟩
      have hplaces := h.places message
      rw [hbuffer] at hplaces
      exact hplaces
  | finish report hbuffer hcall =>
      refine h.report rfl (fun _ => .inr hcall) fun message => ?_
      have hplaces := h.places message
      rw [hbuffer, Option.getD_some] at hplaces
      simp only [Option.getD_none, List.count_nil]
      omega
  | answer message report hmessages hret hcall =>
      refine h.report rfl (fun _ => .inl hret) fun other => ?_
      have hplaces := h.places other
      simp only [Ledger.take, List.count_append, hmessages]
      omega
  | answerRetained i message report hi hmessages hret hcall =>
      refine h.report rfl (fun _ => .inl hret) fun other => ?_
      have hplaces := h.places other
      have hcount := count_eraseIdx hi other
      simp only [Ledger.erase, hmessages]
      omega
  | lose message hlossy => exact hlossy.elim
  | loseRetained i hi hlossy => exact hlossy.elim

end Moves

/-! ## Conservation -/

/-- As long as a synchronous call has a place for every response that it takes, each
response that has left the ring is in one place, once: in `pending`, in the buffer of the
reap in progress, or in what one call has handed out. -/
theorem responses_conserved {s : State}
    (h : ReachableBy threads (fun l s => keeps l s = true) s) :
    (removed s.kernel.rings).Nodup ∧
      (s.retained.pending ++ ((buffer s.rx).getD [] ++ s.reports.flatMap Report.messages)).Perm
        (removed s.kernel.rings) ∧
      ∀ report ∈ s.reports, report.messages ≠ [] →
        report.ret = .errno .ok ∨ ∃ count, report.call = .reap count := by
  have hconserved : s.ledger.Conserved :=
    ledger_invariant False (fun l s hkeeps hnot => by rw [hkeeps] at hnot; cases hnot)
      ⟨fun _ => rfl, nofun⟩ (fun _ _ _ ha hmove => ha.move hmove) h
  refine ⟨nodup_removed, List.perm_iff_count.mpr fun message => ?_, hconserved.reported⟩
  rw [List.count_append, List.count_append, ← Nat.add_assoc]
  exact hconserved.places message

/-- A message without payload is sent, executed and received. -/
def receiveLabels : List Label :=
  [.enter (.send Slot.zero), .lock 0 (.done 1), .execute (fun _ => 0#32), .enter (.receive 0),
    .lock 0 (.done 1)]

theorem responses_conserved_receive :
    ∃ s, exec step receiveLabels opened = some s ∧ (removed s.kernel.rings).length = 1 ∧
      (s.retained.pending ++ ((buffer s.rx).getD [] ++ s.reports.flatMap Report.messages)).Perm
        (removed s.kernel.rings) := by
  have hexec : ∃ s, exec step receiveLabels opened = some s ∧
      (removed s.kernel.rings).length = 1 := ⟨_, rfl, rfl⟩
  obtain ⟨s, hs, hlength⟩ := hexec
  have hkeeps : ∀ l ∈ receiveLabels, ∀ s, keeps l s = true := by
    intro l hl s
    simp only [receiveLabels, List.mem_cons, List.not_mem_nil, or_false] at hl
    rcases hl with rfl | rfl | rfl | rfl | rfl <;> rfl
  exact ⟨s, hs, hlength,
    (responses_conserved ((ReachableBy.start start_opened).exec hkeeps hs)).2.1⟩

/-! ## A response that is lost -/

/-- A message of one byte, which the firmware echoes. -/
def echoByte : Slot := ⟨0#32, 1#16, Vector.replicate payloadSize cmdEcho⟩

theorem length_respond_echoByte (mmio : Mmio) (index : ℕ) (sequence : U32) :
    (respond mmio (Sent.mk echoByte index sequence).stamped).length = 1#16 := by
  have hcommand : (Sent.mk echoByte index sequence).stamped.payload[0] = cmdEcho := by
    change (carried echoByte).payload[0] = cmdEcho
    rw [carried_getElem]
    simp [echoByte]
  have hlength : (Sent.mk echoByte index sequence).stamped.length = 1#16 := rfl
  unfold respond appHandleMessage
  rw [hcommand, hlength]
  rfl

/-- A synchronous call whose buffer is too small loses the response to its own request. -/
theorem response_lost :
    ¬ ∀ s, Reachable threads s →
      (s.retained.pending ++ ((buffer s.rx).getD [] ++ s.reports.flatMap Report.messages)).Perm
        (removed s.kernel.rings) := by
  intro hconserved
  have hexec := exec_callLabels idle_opened echoByte 0 (fun _ => 0#32) (by decide)
    (by intro message hmem; cases hmem)
  have hlength := length_respond_echoByte (fun _ => 0#32) 0 1#32
  have hperm := (hconserved _ ((Reachable.start start_opened).exec hexec)).length_eq
  rw [copyOut_eq, if_pos] at hperm
  · rw [removed, List.length_take, length_answers] at hperm
    cases hperm
  · change 0 < (respond (fun _ => 0#32) (Sent.mk echoByte 0 1#32).stamped).length.toNat
    rw [hlength]
    decide

end Sg200x.Ipc.Threads
