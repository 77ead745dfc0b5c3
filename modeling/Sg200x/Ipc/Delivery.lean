import Sg200x.Ipc.Matching

/-!
# The order of asynchronous deliveries

What receives and reaps have handed out, then what the reap in progress holds, then what is
retained: in this order these are responses of the ring in the order of the ring.
-/

namespace Sg200x.Ipc.Threads

open Shm App Driver Library Library.Transition

/-- What receives and reaps have handed out, in the order in which they held `rx_lock`. -/
def delivered (reports : List Report) : List Response :=
  (reports.filter fun report => report.call.asynchronous).flatMap Report.messages

theorem delivered_report {reports : List Report} {report : Report}
    (h : report.call.asynchronous = true) :
    delivered (reports ++ [report]) = delivered reports ++ report.messages := by
  simp [delivered, h]

theorem delivered_synchronous {reports : List Report} {report : Report}
    (h : report.call.asynchronous = false) :
    delivered (reports ++ [report]) = delivered reports := by
  simp [delivered, h]

theorem delivered_none {reports : List Report} {report : Report} (h : report.messages = []) :
    delivered (reports ++ [report]) = delivered reports := by
  cases hcall : report.call.asynchronous with
  | true => rw [delivered_report hcall, h, List.append_nil]
  | false => exact delivered_synchronous hcall

def Ledger.Ordered (a : Ledger) : Prop :=
  (delivered a.reports ++ (a.buffer.getD [] ++ a.retained.pending)).Sublist a.removed

theorem Ledger.Ordered.move {a b : Ledger} (hinv : a.Inv) (h : a.Ordered)
    (hmove : a.Move True b) : b.Ordered := by
  unfold Ledger.Ordered at h ⊢
  cases hmove with
  | fail report hnone =>
      simp only [Ledger.report]
      rwa [delivered_none hnone]
  | retain message hroom hbuffer =>
      simp only [Ledger.take, ← List.append_assoc] at h ⊢
      exact h.append_right [message]
  | oldest rest report hpending hbuffer hret hcall =>
      simp only [Ledger.report, hbuffer, Option.getD_none, List.nil_append] at h ⊢
      rwa [delivered_report hcall, List.append_assoc, ← hpending]
  | newest report hpending hbuffer hret hcall =>
      simp only [Ledger.report, Ledger.take, hbuffer, hpending, Option.getD_none,
        List.append_nil] at h ⊢
      rw [delivered_report hcall]
      exact h.append_right report.messages
  | start hpending hbuffer =>
      rw [hbuffer] at h
      exact h
  | fill messages message hbuffer =>
      have hpending := hinv.buffer (by rw [hbuffer]; exact nofun)
      simp only [Ledger.take, hbuffer, hpending, Option.getD_some, List.append_nil] at h ⊢
      rw [← List.append_assoc]
      exact h.append_right [message]
  | giveUp hbuffer =>
      rw [hbuffer] at h
      exact h
  | finish report hbuffer hcall =>
      obtain ⟨count, hcall⟩ := hcall
      simp only [Ledger.report, hbuffer, Option.getD_some, Option.getD_none, List.nil_append] at h ⊢
      rw [delivered_report (by rw [hcall]; rfl), List.append_assoc]
      exact h
  | answer message report hmessages hret hcall =>
      simp only [Ledger.report, Ledger.take]
      rw [delivered_synchronous hcall]
      exact h.trans (List.sublist_append_left _ _)
  | answerRetained i message report hi hmessages hret hcall =>
      simp only [Ledger.report, Ledger.erase]
      rw [delivered_synchronous hcall]
      exact .trans (((List.eraseIdx_sublist ..).append_left _).append_left _) h
  | lose message => exact h.trans (List.sublist_append_left _ _)
  | loseRetained i hi =>
      exact .trans (((List.eraseIdx_sublist ..).append_left _).append_left _) h

theorem pairwise_removed (rings : Rings) :
    (removed rings).Pairwise fun x y => x.index < y.index := by
  have hanswers : (answers rings).Pairwise fun x y => x.index < y.index := by
    rw [← List.pairwise_map, map_index_answers]
    exact List.pairwise_lt_range
  exact hanswers.sublist (List.take_sublist ..)

/-- Receives and reaps deliver responses in the order of the ring, and a retained response
before any that was behind it. -/
theorem deliveries_ordered {s : State} (h : Reachable threads s) :
    (delivered s.reports).Sublist (removed s.kernel.rings) ∧
      s.retained.pending.Sublist (removed s.kernel.rings) ∧
      (removed s.kernel.rings).Pairwise (fun x y => x.index < y.index) ∧
      ∀ x ∈ delivered s.reports, ∀ y ∈ s.retained.pending, x.index < y.index := by
  have hordered : s.ledger.Ordered :=
    ledger_invariant True (fun _ _ _ _ => trivial) (List.Sublist.refl [])
      (fun _ _ hinv ha hmove => ha.move hinv hmove) h
  unfold Ledger.Ordered at hordered
  have hpairwise := (pairwise_removed s.kernel.rings).sublist hordered
  refine ⟨(List.sublist_append_left _ _).trans hordered,
    ((List.sublist_append_right _ _).trans (List.sublist_append_right _ _)).trans hordered,
    pairwise_removed _, fun x hx y hy => ?_⟩
  exact (List.pairwise_append.mp hpairwise).2.2 x hx y (List.mem_append_right _ hy)

/-- A synchronous call has retained a response, which is then received. -/
theorem deliveries_ordered_retained :
    ∃ s, exec step (orphanLabels ++ [.enter (.receive 0), .lock 0 (.done 0)]) opened = some s ∧
      delivered s.reports = [orphan] ∧
        (delivered s.reports).Sublist (removed s.kernel.rings) := by
  have hexec : ∃ s, exec step (orphanLabels ++ [.enter (.receive 0), .lock 0 (.done 0)]) opened =
      some s ∧ delivered s.reports = [orphan] := ⟨_, rfl, rfl⟩
  obtain ⟨s, hs, hdelivered⟩ := hexec
  exact ⟨s, hs, hdelivered, (deliveries_ordered ((Reachable.start start_opened).exec hs)).1⟩

end Sg200x.Ipc.Threads
