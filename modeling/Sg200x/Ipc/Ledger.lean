import Sg200x.Ipc.ThreadsFacts
import Mathlib.Logic.Relation

/-!
# Where a step moves responses

The responses that have left the response ring are retained in `pending`, lie in the buffer
of the reap that holds `rx_lock`, have been handed out, or are lost.  Every step of the
threads is a sequence of moves between these places.
-/

namespace Sg200x.Ipc.Threads

open Shm App Driver Library Library.Transition
open Client (Retained BatchSupport retainPending removePending takePending takePendingOldest
  takePendingSequence carried)

/-! ## Retained responses -/

/-- The eventfd counts the retained responses. -/
structure Counted (retained : Retained Response) : Prop where
  events : retained.events = retained.pending.length
  room : retained.pending.length ≤ slotCount

section Counted

variable {retained : Retained Response} {message : Response}

theorem retainPending_of_room (hroom : retained.pending.length < slotCount) :
    retainPending retained message =
      some ⟨retained.pending ++ [message], retained.events + 1⟩ := by
  unfold retainPending
  rw [if_neg (Nat.not_le.mpr hroom)]

theorem retainPending_eq_none (h : retainPending retained message = none) :
    ¬ retained.pending.length < slotCount := by
  intro hroom
  rw [retainPending_of_room hroom] at h
  cases h

theorem retainPending_eq_some {retained' : Retained Response}
    (h : retainPending retained message = some retained') :
    retained.pending.length < slotCount ∧
      retained' = ⟨retained.pending ++ [message], retained.events + 1⟩ := by
  unfold retainPending at h
  split_ifs at h with hfull
  cases h
  exact ⟨Nat.not_le.mp hfull, rfl⟩

/-- The eventfd is not empty while a response is retained. -/
theorem Counted.removePending (h : Counted retained) {i : ℕ} (hi : i < retained.pending.length) :
    Client.removePending retained i =
      (.ok, ⟨retained.pending.eraseIdx i, retained.events - 1⟩) := by
  have hevents := h.events
  unfold Client.removePending
  rw [if_neg (by omega)]

theorem Counted.erase (h : Counted retained) {i : ℕ} (hi : i < retained.pending.length) :
    Counted ⟨retained.pending.eraseIdx i, retained.events - 1⟩ := by
  have hroom := h.room
  refine ⟨?_, ?_⟩ <;> simp only [List.length_eraseIdx_of_lt hi]
  · rw [h.events]
  · omega

theorem Counted.append (h : Counted retained) (hroom : retained.pending.length < slotCount) :
    Counted ⟨retained.pending ++ [message], retained.events + 1⟩ := by
  refine ⟨?_, ?_⟩ <;> simp only [List.length_append, List.length_singleton]
  · rw [h.events]
  · omega

theorem Counted.drop (h : Counted retained) {messages rest : List Response}
    (hpending : retained.pending = messages ++ rest) :
    Counted ⟨rest, retained.events - messages.length⟩ := by
  have hevents := h.events
  have hroom := h.room
  rw [hpending, List.length_append] at hevents hroom
  exact ⟨by simp only; omega, by simp only; omega⟩

/-- The first loop of `reap_batch_locked` takes the oldest responses. -/
theorem Counted.takePending (h : Counted retained) (count : ℕ) :
    ∃ messages rest, retained.pending = messages ++ rest ∧
      Client.takePending count retained =
        (.ok messages, ⟨rest, retained.events - messages.length⟩) ∧
      (count ≠ 0 → messages = [] → rest = []) := by
  induction count generalizing retained with
  | zero => exact ⟨[], retained.pending, rfl, rfl, fun hne => absurd rfl hne⟩
  | succ count ih =>
      rcases retained with ⟨pending, events⟩
      cases pending with
      | nil => exact ⟨[], [], rfl, rfl, fun _ _ => rfl⟩
      | cons message pending =>
          have hremove := h.removePending (i := 0) (Nat.succ_pos _)
          obtain ⟨messages, rest, hpending, htake, -⟩ := ih (h.erase (Nat.succ_pos _))
          refine ⟨message :: messages, rest, congrArg _ hpending, ?_, fun _ hnil => nomatch hnil⟩
          simp only [List.eraseIdx_cons_zero] at hremove htake
          simp only [Client.takePending, takePendingOldest, hremove, htake, List.length_cons]
          rw [Nat.sub_sub, Nat.add_comm 1]

theorem takePendingSequence_none {sequence : U32}
    (hnone : ∀ message ∈ retained.pending, message.message.sequence ≠ sequence) :
    takePendingSequence (·.message.sequence) retained sequence = (.ok none, retained) := by
  have hfind : retained.pending.findIdx? (fun message => message.message.sequence = sequence) =
      none := by
    rw [List.findIdx?_eq_none_iff]
    intro message hmem
    exact decide_eq_false (hnone message hmem)
  unfold Client.takePendingSequence
  rw [hfind]

theorem Counted.takePendingSequence (h : Counted retained) (sequence : U32) :
    (Client.takePendingSequence (·.message.sequence) retained sequence = (.ok none, retained) ∧
        ∀ message ∈ retained.pending, message.message.sequence ≠ sequence) ∨
      ∃ i message, retained.pending[i]? = some message ∧ message.message.sequence = sequence ∧
        retained.pending.find? (fun message => message.message.sequence = sequence) =
          some message ∧
        Client.takePendingSequence (·.message.sequence) retained sequence =
          (.ok (some message), ⟨retained.pending.eraseIdx i, retained.events - 1⟩) := by
  cases hfind : retained.pending.findIdx? fun message => message.message.sequence = sequence with
  | none =>
      have hnone : ∀ message ∈ retained.pending, message.message.sequence ≠ sequence := by
        intro message hmem
        simpa using List.findIdx?_eq_none_iff.mp hfind message hmem
      exact .inl ⟨takePendingSequence_none hnone, hnone⟩
  | some i =>
      obtain ⟨hlt, hsequence, -⟩ := List.findIdx?_eq_some_iff_getElem.mp hfind
      have hi := List.getElem?_eq_getElem hlt
      refine .inr ⟨i, retained.pending[i], hi, of_decide_eq_true hsequence, ?_, ?_⟩
      · rw [List.find?_eq_bind_findIdx?_getElem?, hfind]
        exact hi
      · unfold Client.takePendingSequence
        simp only [hfind, h.removePending hlt, hi]

end Counted

/-! ## The ledger -/

structure Ledger where
  removed : List Response
  retained : Retained Response
  /-- The messages of a reap in its loop over the kernel's messages. -/
  buffer : Option (List Response)
  reports : List Report

/-- The buffer of the call that holds `rx_lock`. -/
def buffer : Option RxPc → Option (List Response)
  | some (.reapEach _ messages) => some messages
  | _ => none

def State.ledger (s : State) : Ledger :=
  ⟨removed s.kernel.rings, s.retained, buffer s.rx, s.reports⟩

def Ledger.report (a : Ledger) (report : Report) : Ledger :=
  { a with reports := a.reports ++ [report] }

def Ledger.take (a : Ledger) (messages : List Response) : Ledger :=
  { a with removed := a.removed ++ messages }

def Ledger.erase (a : Ledger) (i : ℕ) : Ledger :=
  { a with retained := ⟨a.retained.pending.eraseIdx i, a.retained.events - 1⟩ }

/-- The calls that deliver responses in their order. -/
def Call.asynchronous : Call → Bool
  | .receive _ | .reap _ => true
  | _ => false

/-- A move of responses.  Only a `lossy` move leaves one without a place. -/
inductive Ledger.Move (lossy : Prop) : Ledger → Ledger → Prop
  | fail (a : Ledger) (report : Report) (hnone : report.messages = []) :
      Move lossy a (a.report report)
  | retain (a : Ledger) (message : Response) (hroom : a.retained.pending.length < slotCount)
      (hbuffer : a.buffer = none) :
      Move lossy a { a.take [message] with
        retained := ⟨a.retained.pending ++ [message], a.retained.events + 1⟩ }
  /-- A receive or a reap that finds responses in `pending`. -/
  | oldest (a : Ledger) (rest : List Response) (report : Report)
      (hpending : a.retained.pending = report.messages ++ rest) (hbuffer : a.buffer = none)
      (hret : report.ret = .errno .ok) (hcall : report.call.asynchronous = true) :
      Move lossy a ({ a with
        retained := ⟨rest, a.retained.events - report.messages.length⟩ }.report report)
  /-- A receive or a reap that takes responses from the ring. -/
  | newest (a : Ledger) (report : Report) (hpending : a.retained.pending = [])
      (hbuffer : a.buffer = none) (hret : report.ret = .errno .ok) (hcall : report.call.asynchronous = true) :
      Move lossy a ((a.take report.messages).report report)
  | start (a : Ledger) (hpending : a.retained.pending = []) (hbuffer : a.buffer = none) :
      Move lossy a { a with buffer := some [] }
  | fill (a : Ledger) (messages : List Response) (message : Response)
      (hbuffer : a.buffer = some messages) :
      Move lossy a { a.take [message] with buffer := some (messages ++ [message]) }
  | giveUp (a : Ledger) (hbuffer : a.buffer = some []) : Move lossy a { a with buffer := none }
  | finish (a : Ledger) (report : Report) (hbuffer : a.buffer = some report.messages)
      (hcall : ∃ count, report.call = .reap count) :
      Move lossy a ({ a with buffer := none }.report report)
  /-- A synchronous call gets its response from the ring. -/
  | answer (a : Ledger) (message : Response) (report : Report)
      (hmessages : report.messages = [message]) (hret : report.ret = .errno .ok)
      (hcall : report.call.asynchronous = false) :
      Move lossy a ((a.take [message]).report report)
  | answerRetained (a : Ledger) (i : ℕ) (message : Response) (report : Report)
      (hi : a.retained.pending[i]? = some message) (hmessages : report.messages = [message])
      (hret : report.ret = .errno .ok) (hcall : report.call.asynchronous = false) :
      Move lossy a ((a.erase i).report report)
  | lose (a : Ledger) (message : Response) (hlossy : lossy) : Move lossy a (a.take [message])
  | loseRetained (a : Ledger) (i : ℕ) (hi : i < a.retained.pending.length) (hlossy : lossy) :
      Move lossy a (a.erase i)

theorem Ledger.Move.mono {lossy lossy' : Prop} {a b : Ledger} (himp : lossy → lossy')
    (h : a.Move lossy b) : a.Move lossy' b := by
  cases h with
  | fail report hnone => exact .fail a report hnone
  | retain message hroom hbuffer => exact .retain a message hroom hbuffer
  | oldest rest report hpending hbuffer hret hcall =>
      exact .oldest a rest report hpending hbuffer hret hcall
  | newest report hpending hbuffer hret hcall =>
      exact .newest a report hpending hbuffer hret hcall
  | start hpending hbuffer => exact .start a hpending hbuffer
  | fill messages message hbuffer => exact .fill a messages message hbuffer
  | giveUp hbuffer => exact .giveUp a hbuffer
  | finish report hbuffer hcall => exact .finish a report hbuffer hcall
  | answer message report hmessages hret hcall => exact .answer a message report hmessages hret hcall
  | answerRetained i message report hi hmessages hret hcall =>
      exact .answerRetained a i message report hi hmessages hret hcall
  | lose message hlossy => exact .lose a message (himp hlossy)
  | loseRetained i hi hlossy => exact .loseRetained a i hi (himp hlossy)

/-- What holds of the ledger in every run. -/
structure Ledger.Inv (a : Ledger) : Prop where
  counted : Counted a.retained
  buffer : a.buffer ≠ none → a.retained.pending = []

theorem Ledger.Inv.move {lossy : Prop} {a b : Ledger} (h : a.Inv) (hmove : a.Move lossy b) :
    b.Inv := by
  cases hmove with
  | fail | newest | answer | lose => exact ⟨h.counted, h.buffer⟩
  | retain message hroom hbuffer =>
      exact ⟨h.counted.append hroom, fun hne => absurd hbuffer hne⟩
  | oldest rest report hpending =>
      refine ⟨h.counted.drop hpending, fun hne => ?_⟩
      have hnil := h.buffer hne
      rw [hpending] at hnil
      exact (List.append_eq_nil_iff.mp hnil).2
  | start hpending => exact ⟨h.counted, fun _ => hpending⟩
  | fill messages message hbuffer =>
      exact ⟨h.counted, fun _ => h.buffer (by rw [hbuffer]; exact nofun)⟩
  | giveUp | finish => exact ⟨h.counted, fun hne => absurd rfl hne⟩
  | answerRetained i message report hi =>
      have hlt := (List.getElem?_eq_some_iff.mp hi).1
      refine ⟨h.counted.erase hlt, fun hne => ?_⟩
      rw [h.buffer hne] at hlt
      exact absurd hlt (Nat.not_lt_zero i)
  | loseRetained i hi =>
      refine ⟨h.counted.erase hi, fun hne => ?_⟩
      rw [h.buffer hne] at hi
      exact absurd hi (Nat.not_lt_zero i)

/-- A sequence of moves. -/
abbrev Ledger.Moves (lossy : Prop) : Ledger → Ledger → Prop :=
  Relation.ReflTransGen (Ledger.Move lossy)

/-- A property that every move preserves, in every ledger it is made in. -/
theorem Ledger.Moves.invariant {lossy : Prop} {I : Ledger → Prop} {a b : Ledger}
    (hmoves : a.Moves lossy b) (hstep : ∀ a b, a.Inv → I a → a.Move lossy b → I b)
    (hinv : a.Inv) (h : I a) : b.Inv ∧ I b := by
  induction hmoves with
  | refl => exact ⟨hinv, h⟩
  | tail _ hmove ih => exact ⟨ih.1.move hmove, hstep _ _ ih.1 ih.2 hmove⟩

/-! ## Every step is a sequence of moves -/

/-- There is a place for the response that the step of a synchronous call takes: room in
`pending`, or in the caller's buffer if it answers the call. -/
def keeps (l : Label) (s : State) : Bool :=
  match l, s.rx with
  | .rx (.done _), some (.drain _ _) => decide (s.retained.pending.length < slotCount)
  | .rx (.done _), some (.receive responseCapacity sent) =>
      (answers s.kernel.rings)[s.kernel.rings.delivered]?.all fun message =>
        if message.message.sequence = sent.sequence then
          decide (message.message.length.toNat ≤ responseCapacity)
        else decide (s.retained.pending.length < slotCount)
  | .rx _, some (.takePending responseCapacity sent) =>
      (s.retained.pending.find? fun message => message.message.sequence = sent.sequence).all
        fun message => decide (message.message.length.toNat ≤ responseCapacity)
  | _, _ => true

section Steps

variable {lossy : Prop} {s t : State} {answer : Answer}

theorem removed_of_send {kernel kernel' : Kernel} {message : Slot} {result : Except Errno U32}
    (h : messageSendLocked answer kernel message = some (result, kernel')) :
    removed kernel'.rings = removed kernel.rings := by
  cases result with
  | ok sequence =>
      obtain ⟨-, -, rfl⟩ := publish_eq_some (send_ok h).2
      rfl
  | error ret =>
      obtain rfl := send_error h
      rfl

/-- A step that leaves the responses where they are. -/
theorem moves_of_eq (hremoved : removed t.kernel.rings = removed s.kernel.rings)
    (hretained : t.retained = s.retained) (hbuffer : buffer t.rx = buffer s.rx)
    (hreports : t.reports = s.reports) : s.ledger.Moves lossy t.ledger := by
  have heq : t.ledger = s.ledger := by
    unfold State.ledger
    rw [hremoved, hretained, hbuffer, hreports]
  rw [heq]

/-- A call that returns without a message. -/
theorem moves_report {report : Report} (h : s.ledger.Moves lossy t.ledger)
    (hnone : report.messages = []) : s.ledger.Moves lossy (t.report report).ledger :=
  h.tail (.fail _ _ hnone)

/-- A call that waits or returns without a message. -/
theorem moves_leave {call : Call} {ret : Code} (h : s.ledger.Moves lossy t.ledger) :
    s.ledger.Moves lossy (t.leave call ret []).ledger := by
  unfold State.leave
  split_ifs
  · exact h
  · exact moves_report h rfl

theorem leave_ok (call : Call) (messages : List Response) :
    s.leave call (.errno .ok) messages = s.report ⟨call, .errno .ok, messages, none⟩ := rfl

theorem messageReceive_ledger (hkernel : s.kernel.Inv) (hledger : s.ledger.Inv)
    (hrx : s.rx = none) {responseCapacity : ℕ}
    (hstep : messageReceive answer s responseCapacity = some t) :
    s.ledger.Moves lossy t.ledger := by
  have hbuffer : s.ledger.buffer = none := by
    rw [State.ledger, hrx]
    rfl
  unfold messageReceive at hstep
  cases hpending : s.retained.pending with
  | cons message rest =>
      have hremove := hledger.counted.removePending (i := 0)
        (by change 0 < s.retained.pending.length; rw [hpending]; exact Nat.succ_pos _)
      change Client.removePending s.retained 0 =
        (.ok, ⟨s.retained.pending.eraseIdx 0, s.retained.events - 1⟩) at hremove
      rw [hpending, List.eraseIdx_cons_zero] at hremove
      simp only [hpending, hremove, copyMessage] at hstep
      split_ifs at hstep with hcapacity
      · cases hstep
        exact moves_leave .refl
      · cases hstep
        rw [leave_ok]
        exact .single (.oldest s.ledger rest
          ⟨.receive responseCapacity, .errno .ok, [message], none⟩ hpending hbuffer rfl rfl)
  | nil =>
      simp only [hpending] at hstep
      split at hstep
      · cases hstep
      · rename_i ret rings hreceive
        obtain rfl := receive_error hkernel hreceive
        cases hstep
        exact moves_leave .refl
      · rename_i message rings hreceive
        have hremoved := (take_eq_some (receive_ok hreceive)).2.2.1
        simp only [copyMessage] at hstep
        split_ifs at hstep with hcapacity
        · -- `pending` is empty, so that there is room
          have hroom : s.retained.pending.length < slotCount := by
            rw [hpending]
            decide
          simp only [retainPending_of_room hroom] at hstep
          cases hstep
          apply moves_leave
          unfold State.ledger
          rw [hremoved]
          exact .single (.retain s.ledger message hroom hbuffer)
        · cases hstep
          rw [leave_ok]
          unfold State.ledger
          simp only [report_kernel, hremoved]
          exact .single (.newest s.ledger
            ⟨.receive responseCapacity, .errno .ok, [message], none⟩ hpending hbuffer rfl rfl)

theorem submitBatchLocked_ledger {messages : Batch}
    (hstep : submitBatchLocked answer s messages = some t) : s.ledger.Moves lossy t.ledger := by
  unfold submitBatchLocked at hstep
  split_ifs at hstep
  · cases answer with
    | failed ret =>
        cases hstep
        exact moves_leave .refl
    | done completed =>
        simp only at hstep
        split_ifs at hstep
        obtain ⟨⟨stamped, kernel⟩, hpublish, ht⟩ := Option.map_eq_some_iff.mp hstep
        obtain ⟨-, -, rfl⟩ := publish_eq_some hpublish
        simp only at ht
        split_ifs at ht <;> subst ht <;> exact moves_leave .refl
  · cases hstep
    exact .refl

theorem reapBatchLocked_ledger (hkernel : s.kernel.Inv) (hledger : s.ledger.Inv)
    (hrx : s.rx = none) {count : BatchCount}
    (hstep : reapBatchLocked answer s count = some t) : s.ledger.Moves lossy t.ledger := by
  have hbuffer : s.ledger.buffer = none := by
    rw [State.ledger, hrx]
    rfl
  unfold reapBatchLocked at hstep
  obtain ⟨messages, rest, hpending, htakePending, hempty⟩ :=
    hledger.counted.takePending count.1
  change s.retained.pending = messages ++ rest at hpending
  change Client.takePending count.1 s.retained = _ at htakePending
  rw [htakePending] at hstep
  cases messages with
  | cons message messages =>
      cases hstep
      rw [leave_ok]
      exact .single (.oldest s.ledger rest ⟨.reap count, .errno .ok, message :: messages, none⟩
        hpending hbuffer rfl rfl)
  | nil =>
      -- nothing has been taken from `pending`
      obtain rfl : s.retained.pending = rest := hpending
      have hnil := hempty count.2.1 rfl
      have hretained : (⟨s.retained.pending, s.ledger.retained.events - ([] : List Response).length⟩ :
          Retained Response) = s.retained := rfl
      rw [hretained] at hstep
      simp only at hstep
      split_ifs at hstep
      · cases answer with
        | failed ret =>
            cases hstep
            exact moves_leave .refl
        | done completed =>
            simp only at hstep
            split_ifs at hstep
            obtain ⟨⟨messages, rings⟩, htake, ht⟩ := Option.map_eq_some_iff.mp hstep
            have hsound : ¬ ∃ message ∈ messages, message.message.sequence = 0#32 ∨
                payloadSize < message.message.length.toNat := by
              rintro ⟨message, hmem, hbad⟩
              obtain ⟨hfits, hsequence⟩ :=
                sound_of_mem_answers hkernel (mem_answers_of_take htake hmem)
              exact hbad.elim hsequence (Nat.not_lt.mpr hfits)
            simp only [if_neg hsound] at ht
            subst ht
            rw [leave_ok]
            unfold State.ledger
            simp only [report_kernel, (take_eq_some htake).2.2.1]
            exact .single (.newest s.ledger ⟨.reap count, .errno .ok, messages, none⟩ hnil hbuffer
              rfl rfl)
      · cases hstep
        exact .single (.start s.ledger hnil hbuffer)

theorem txStep_ledger (hstep : txStep answer s = some t) : s.ledger.Moves lossy t.ledger := by
  unfold txStep at hstep
  split at hstep
  · cases hstep
  · obtain ⟨⟨result, kernel⟩, hsend, ht⟩ := Option.map_eq_some_iff.mp hstep
    have hremoved := removed_of_send hsend
    cases result with
    | ok sequence =>
        simp only at ht
        split_ifs at ht <;> subst ht
        · exact moves_of_eq hremoved rfl rfl rfl
        · exact moves_leave (moves_of_eq hremoved rfl rfl rfl)
    | error ret =>
        subst ht
        exact moves_leave (moves_of_eq hremoved rfl rfl rfl)

/-- The loop of `reap_batch_locked`. -/
theorem reapEach_ledger (hkernel : s.kernel.Inv) {count : BatchCount} {messages : List Response}
    (hrx : s.rx = some (.reapEach count messages)) (hstep : rxStep answer s = some t) :
    s.ledger.Moves lossy t.ledger := by
  unfold rxStep at hstep
  rw [hrx] at hstep
  obtain ⟨⟨result, rings⟩, hreceive, ht⟩ := Option.map_eq_some_iff.mp hstep
  have hbuffer : s.ledger.buffer = some messages := by
    rw [State.ledger, hrx]
    rfl
  cases result with
  | ok message =>
      have hremoved := (take_eq_some (receive_ok hreceive)).2.2.1
      have hfill : s.ledger.Moves lossy
          { s.ledger.take [message] with buffer := some (messages ++ [message]) } :=
        .single (.fill s.ledger messages message hbuffer)
      simp only at ht
      split_ifs at ht <;> subst ht
      · unfold State.ledger
        rw [hremoved]
        exact hfill
      · rw [leave_ok]
        unfold State.ledger
        simp only [report_kernel, hremoved]
        exact hfill.tail (.finish _ ⟨.reap count, .errno .ok, messages ++ [message], none⟩ rfl
          ⟨count, rfl⟩)
  | error ret =>
      obtain rfl := receive_error hkernel hreceive
      simp only at ht
      subst ht
      by_cases hsome : 0 < messages.length ∧ Code.again (.errno ret) = true
      · rw [if_pos hsome, leave_ok]
        exact .single (.finish s.ledger ⟨.reap count, .errno .ok, messages, none⟩ hbuffer
          ⟨count, rfl⟩)
      · rw [if_neg hsome]
        unfold State.leave
        split_ifs with hagain
        · -- a reap that waits has no message
          have hnil : messages = [] := by
            by_contra hne
            exact hsome ⟨List.length_pos_of_ne_nil hne, hagain⟩
          subst hnil
          exact .single (.giveUp s.ledger hbuffer)
        · exact .single (.finish s.ledger ⟨.reap count, .errno ret, messages, none⟩ hbuffer
            ⟨count, rfl⟩)

/-- `copy_message` of a response that a synchronous call has just taken from the ring. -/
theorem copyOut_ledger {responseCapacity : ℕ} {sent : Sent} {message : Response}
    (hledger : t.ledger = s.ledger.take [message])
    (hfits : responseCapacity < message.message.length.toNat → lossy) :
    s.ledger.Moves lossy (t.copyOut responseCapacity sent message).ledger := by
  rw [copyOut_eq]
  split_ifs with hcapacity
  · apply moves_report _ rfl
    rw [hledger]
    exact .single (.lose s.ledger message (hfits hcapacity))
  · change s.ledger.Moves lossy (t.ledger.report _)
    rw [hledger]
    exact .single (.answer s.ledger message
      ⟨.call sent.request responseCapacity, .errno .ok, [message], some sent⟩ rfl rfl rfl)

/-- `retain_pending` of a response that a synchronous call has just taken from the ring. -/
theorem retain_ledger (rx : Option RxPc) {rings : Rings} {message : Response}
    (hbuffer : s.ledger.buffer = none) (hrx : buffer rx = none)
    (htake : take s.kernel.rings 1 = some ([message], rings))
    (hroom : s.retained.pending.length < slotCount) :
    s.ledger.Moves lossy
      ⟨removed rings, ⟨s.retained.pending ++ [message], s.retained.events + 1⟩, buffer rx,
        s.reports⟩ := by
  have hmove : s.ledger.Move lossy _ := .retain s.ledger message hroom hbuffer
  rw [hrx, (take_eq_some htake).2.2.1, ← hbuffer]
  exact .single hmove

/-- The steps of a synchronous call. -/
theorem callStep_ledger (hkernel : s.kernel.Inv) (hledger : s.ledger.Inv) {pc : RxPc}
    (hrx : s.rx = some pc) (hbuffer : s.ledger.buffer = none)
    (hstep : rxStep answer s = some t) :
    s.ledger.Moves (keeps (.rx answer) s = false) t.ledger := by
  have hnone : buffer s.rx = none := hbuffer
  unfold rxStep at hstep
  rw [hrx] at hstep
  cases pc with
  | reapEach count messages =>
      rw [hrx] at hnone
      cases hnone
  | send request responseCapacity =>
      simp only at hstep
      split_ifs at hstep
      obtain ⟨⟨result, kernel⟩, hsend, ht⟩ := Option.map_eq_some_iff.mp hstep
      have hremoved := removed_of_send hsend
      cases result with
      | ok sequence =>
          subst ht
          exact moves_of_eq hremoved rfl hnone.symm rfl
      | error ret =>
          simp only at ht
          split_ifs at ht <;> subst ht
          · exact moves_of_eq hremoved rfl hnone.symm rfl
          · exact moves_report (moves_of_eq hremoved rfl hnone.symm rfl) rfl
  | drain request responseCapacity =>
      obtain ⟨⟨result, rings⟩, hreceive, ht⟩ := Option.map_eq_some_iff.mp hstep
      cases result with
      | ok message =>
          obtain ⟨count, rfl⟩ := answer_of_receive_ok hreceive
          have htake := receive_ok hreceive
          simp only at ht
          split at ht <;> rename_i hretain <;> subst ht
          · obtain ⟨hroom, rfl⟩ := retainPending_eq_some hretain
            exact retain_ledger none hbuffer rfl htake hroom
          · apply moves_report _ rfl
            unfold State.ledger
            rw [(take_eq_some htake).2.2.1, hnone]
            refine .single (.lose _ message ?_)
            unfold keeps
            rw [hrx]
            exact decide_eq_false (retainPending_eq_none hretain)
      | error ret =>
          obtain rfl := receive_error hkernel hreceive
          subst ht
          exact moves_leave (moves_of_eq rfl rfl hnone.symm rfl)
  | takePending responseCapacity sent =>
      simp only at hstep
      rcases hledger.counted.takePendingSequence sent.sequence with
        ⟨hnot, -⟩ | ⟨i, message, hi, -, hfind, hsome⟩
      · change takePendingSequence _ s.retained _ = _ at hnot
        rw [hnot] at hstep
        cases hstep
        exact moves_of_eq rfl rfl hnone.symm rfl
      · change takePendingSequence _ s.retained _ = _ at hsome
        rw [hsome] at hstep
        cases hstep
        rw [copyOut_eq]
        split_ifs with hcapacity
        · apply moves_report _ rfl
          unfold State.ledger
          rw [hnone]
          refine .single (.loseRetained _ i (List.getElem?_eq_some_iff.mp hi).1 ?_)
          have hkeeps : keeps (.rx answer) s = (s.retained.pending.find?
              fun message => message.message.sequence = sent.sequence).all
                fun message => decide (message.message.length.toNat ≤ responseCapacity) := by
            unfold keeps
            rw [hrx]
            cases answer <;> rfl
          change s.retained.pending.find? _ = _ at hfind
          rw [hkeeps, hfind]
          exact decide_eq_false (Nat.not_le.mpr hcapacity)
        · unfold State.ledger
          rw [hnone]
          exact .single (.answerRetained _ i message
            ⟨.call sent.request responseCapacity, .errno .ok, [message], some sent⟩ hi rfl rfl rfl)
  | receive responseCapacity sent =>
      obtain ⟨⟨result, rings⟩, hreceive, ht⟩ := Option.map_eq_some_iff.mp hstep
      cases result with
      | ok message =>
          obtain ⟨count, rfl⟩ := answer_of_receive_ok hreceive
          have htake := receive_ok hreceive
          have hremoved := (take_eq_some htake).2.2.1
          have hget := answers_of_take_one htake
          simp only at ht
          split_ifs at ht with hmatch
          · subst ht
            apply copyOut_ledger
            · unfold State.ledger
              rw [hremoved, hnone]
              rfl
            · intro hcapacity
              unfold keeps
              rw [hrx]
              simp only [hget, Option.all_some, if_pos hmatch]
              exact decide_eq_false (Nat.not_le.mpr hcapacity)
          · split at ht <;> rename_i hretain <;> subst ht
            · obtain ⟨hroom, rfl⟩ := retainPending_eq_some hretain
              exact retain_ledger (some (.deadline responseCapacity sent)) hbuffer rfl htake hroom
            · apply moves_report _ rfl
              unfold State.ledger
              rw [hremoved, hnone]
              refine .single (.lose _ message ?_)
              unfold keeps
              rw [hrx]
              simp only [hget, Option.all_some, if_neg hmatch]
              exact decide_eq_false (retainPending_eq_none hretain)
      | error ret =>
          obtain rfl := receive_error hkernel hreceive
          simp only at ht
          split_ifs at ht <;> subst ht
          · exact moves_of_eq rfl rfl hnone.symm rfl
          · exact moves_report (moves_of_eq rfl rfl hnone.symm rfl) rfl
  | deadline responseCapacity sent | wait responseCapacity sent =>
      cases answer with
      | done count =>
          cases hstep
          exact moves_of_eq rfl rfl hnone.symm rfl
      | failed ret =>
          cases hstep
          exact moves_report (moves_of_eq rfl rfl hnone.symm rfl) rfl

theorem locked_ledger (hkernel : s.kernel.Inv) (hledger : s.ledger.Inv) {call : Call}
    (hstep : s.locked answer call = some t) : s.ledger.Moves lossy t.ledger := by
  cases call with
  | send request =>
      simp only [State.locked] at hstep
      split_ifs at hstep
      obtain ⟨⟨result, kernel⟩, hsend, ht⟩ := Option.map_eq_some_iff.mp hstep
      subst ht
      exact moves_leave (moves_of_eq (removed_of_send hsend) rfl rfl rfl)
  | receive responseCapacity =>
      simp only [State.locked] at hstep
      split_ifs at hstep with hrx
      exact messageReceive_ledger hkernel hledger (Option.not_isSome_iff_eq_none.mp hrx) hstep
  | submit messages =>
      simp only [State.locked] at hstep
      split_ifs at hstep
      exact submitBatchLocked_ledger hstep
  | reap count =>
      simp only [State.locked] at hstep
      split_ifs at hstep with hrx
      exact reapBatchLocked_ledger hkernel hledger (Option.not_isSome_iff_eq_none.mp hrx) hstep
  | call request responseCapacity =>
      simp only [State.locked] at hstep
      split_ifs at hstep with hrx
      cases hstep
      have hnone := Option.not_isSome_iff_eq_none.mp hrx
      exact moves_of_eq rfl rfl (by rw [hnone]; rfl) rfl

/-- What a step of the threads does to the responses. -/
theorem step_ledger (hkernel : s.kernel.Inv) (hledger : s.ledger.Inv) {l : Label}
    (hstep : step l s = some t) : s.ledger.Moves (keeps l s = false) t.ledger := by
  cases l with
  | enter call =>
      cases hstep
      exact .refl
  | lock i answer =>
      simp only [step] at hstep
      split at hstep
      · exact locked_ledger (s := { s with outside := s.outside.eraseIdx i }) hkernel hledger hstep
      · cases hstep
  | events i answer =>
      simp only [step] at hstep
      split at hstep
      · cases answer with
        | done count =>
            cases hstep
            exact .refl
        | failed ret =>
            cases hstep
            exact moves_report .refl rfl
      · cases hstep
  | tx answer => exact txStep_ledger hstep
  | rx answer =>
      cases hrx : s.rx with
      | none =>
          simp only [step, rxStep, hrx] at hstep
          cases hstep
      | some pc =>
          cases hbuffer : s.ledger.buffer with
          | none => exact callStep_ledger hkernel hledger hrx hbuffer hstep
          | some messages =>
              cases pc with
              | reapEach count messages => exact reapEach_ledger hkernel hrx hstep
              | _ =>
                  rw [State.ledger, hrx] at hbuffer
                  cases hbuffer
  | execute mmio =>
      simp only [step] at hstep
      split at hstep
      · cases hstep
      · split_ifs at hstep
        cases hstep
        exact moves_of_eq (removed_of_executed hkernel.inOrder.delivered _) rfl rfl rfl

end Steps

/-! ## Runs -/

theorem Start.ledger_eq {s : State} (h : Start s) : s.ledger = ⟨[], ⟨[], 0⟩, none, []⟩ := by
  rw [State.ledger, h.rings, h.retained, h.rx, h.reports]
  rfl

theorem Start.ledgerInv {s : State} (h : Start s) : s.ledger.Inv := by
  rw [h.ledger_eq]
  exact ⟨⟨rfl, Nat.zero_le _⟩, fun hne => absurd rfl hne⟩

theorem reachable_ledgerInv {allowed : Label → State → Prop} {s : State}
    (h : ReachableBy threads allowed s) : s.kernel.Inv ∧ s.ledger.Inv :=
  h.invariant (I := fun s => s.kernel.Inv ∧ s.ledger.Inv)
    (fun _ (hs : Start _) => ⟨hs.kernelInv, hs.ledgerInv⟩)
    fun _ _ _ ⟨hkernel, hledger⟩ _ hstep =>
      ⟨hkernel.moves (step_moves hkernel hstep),
        ((step_ledger hkernel hledger hstep).invariant (I := fun _ => True)
          (fun _ _ _ _ _ => trivial) hledger trivial).1⟩

/-- The induction on runs for a property of the ledger: every move that the allowed steps
can make preserves it. -/
theorem ledger_invariant (lossy : Prop) {allowed : Label → State → Prop} {I : Ledger → Prop}
    (hallowed : ∀ l s, allowed l s → keeps l s = false → lossy)
    (hstart : I ⟨[], ⟨[], 0⟩, none, []⟩)
    (hmove : ∀ a b, a.Inv → I a → a.Move lossy b → I b) {s : State}
    (h : ReachableBy threads allowed s) : I s.ledger := by
  have hboth : (s.kernel.Inv ∧ s.ledger.Inv) ∧ I s.ledger :=
    h.invariant (I := fun s => (s.kernel.Inv ∧ s.ledger.Inv) ∧ I s.ledger)
      (fun s (hs : Start s) => ⟨⟨hs.kernelInv, hs.ledgerInv⟩, hs.ledger_eq ▸ hstart⟩)
      fun s t l ⟨⟨hkernel, hledger⟩, hI⟩ hl hstep => by
        obtain ⟨hinv, hI'⟩ := (step_ledger hkernel hledger hstep).invariant
          (fun a b ha hIa hab => hmove a b ha hIa (hab.mono (hallowed l s hl))) hledger hI
        exact ⟨⟨hkernel.moves (step_moves hkernel hstep), hinv⟩, hI'⟩
  exact hboth.2

/-! ## A synchronous call on its own -/

/-- No call is in progress, and all requests have been answered. -/
structure Idle (s : State) : Prop where
  rx : s.rx = none
  tx : s.tx = none
  outside : s.outside = []
  executed : s.kernel.rings.executed.length = s.kernel.rings.requests.length
  delivered : s.kernel.rings.delivered = s.kernel.rings.requests.length

theorem idle_opened : Idle opened := ⟨rfl, rfl, rfl, rfl, rfl⟩

/-- A synchronous call which the firmware answers at once. -/
def callLabels (request : Slot) (responseCapacity : ℕ) (mmio : Mmio) : List Label :=
  [.enter (.call request responseCapacity), .lock 0 (.done 0), .rx (.done 1), .execute mmio,
    .rx (.done 0), .rx (.done 1)]

/-- The request of a call, as it stands in the request ring. -/
def Sent.stamped (sent : Sent) : Slot := { carried sent.request with sequence := sent.sequence }

/-- The kernel after a request has been sent, executed and answered. -/
def Kernel.serve (kernel : Kernel) (mmio : Mmio) (request : Slot) : Kernel :=
  { kernel with
    rings :=
      ⟨kernel.rings.requests ++ [request], kernel.rings.executed ++ [(mmio, request)],
        kernel.rings.delivered + 1⟩
    nextSequence := (takeSequence kernel.nextSequence).2 }

/-- The next request of a handle. -/
def State.nextSent (s : State) (request : Slot) : Sent :=
  ⟨request, s.kernel.rings.requests.length, (takeSequence s.kernel.nextSequence).1⟩

theorem send_done {kernel : Kernel} (sent : Sent) (count : ℕ) (hfits : sent.request.Fits)
    (hsequence : sent.sequence = (takeSequence kernel.nextSequence).1)
    (hwithin : Within { kernel.rings with requests := kernel.rings.requests ++ [sent.stamped] }) :
    messageSendLocked (.done count) kernel sent.request =
      some (.ok sent.sequence, { kernel with
        rings := { kernel.rings with requests := kernel.rings.requests ++ [sent.stamped] }
        nextSequence := (takeSequence kernel.nextSequence).2 }) := by
  have hstamped : stamp kernel.nextSequence [carried sent.request] =
      ([sent.stamped], (takeSequence kernel.nextSequence).2) := by
    rw [Sent.stamped, hsequence]
    rfl
  have hpublish : publish kernel [carried sent.request] =
      some ([sent.stamped], { kernel with
        rings := { kernel.rings with requests := kernel.rings.requests ++ [sent.stamped] }
        nextSequence := (takeSequence kernel.nextSequence).2 }) := by
    unfold publish
    simp only [hstamped]
    exact if_pos hwithin
  have hne : ([sent.stamped].headD (carried sent.request)).sequence ≠ 0#32 := by
    change sent.sequence ≠ 0#32
    rw [hsequence]
    exact takeSequence_ne _
  unfold messageSendLocked
  rw [if_neg (Nat.not_lt.mpr hfits)]
  simp only [hpublish, Option.map_some]
  rw [if_neg hne]
  rfl

theorem receive_done {rings : Rings} {e : Mmio × Slot} (count : ℕ)
    (hnext : rings.executed[rings.delivered]? = some e) (hsequence : e.2.sequence ≠ 0#32) :
    receiveFromKernelLocked (.done count) rings =
      some (.ok ⟨rings.delivered, respond e.1 e.2⟩,
        { rings with delivered := rings.delivered + 1 }) := by
  obtain ⟨hlt, -⟩ := List.getElem?_eq_some_iff.mp hnext
  have hget : (answers rings)[rings.delivered]? = some ⟨rings.delivered, respond e.1 e.2⟩ := by
    rw [answers_getElem?, hnext]
    rfl
  obtain ⟨hlength, hget⟩ := List.getElem?_eq_some_iff.mp hget
  have htake : take rings 1 =
      some ([⟨rings.delivered, respond e.1 e.2⟩],
        { rings with delivered := rings.delivered + 1 }) := by
    unfold take
    rw [if_pos (Nat.succ_le_of_lt hlt), List.drop_eq_getElem_cons hlength, hget]
    rfl
  unfold receiveFromKernelLocked
  simp only [htake]
  rw [if_neg]
  rintro (hzero | hlong)
  · exact hsequence hzero
  · exact absurd (respond_fits e.1 e.2) (Nat.not_le.mpr hlong)

theorem exec_callLabels {s : State} (h : Idle s) (request : Slot) (responseCapacity : ℕ)
    (mmio : Mmio) (hfits : request.Fits)
    (hnone : ∀ message ∈ s.retained.pending,
      message.message.sequence ≠ (takeSequence s.kernel.nextSequence).1) :
    exec step (callLabels request responseCapacity mmio) s =
      some ({ s with
        kernel := s.kernel.serve mmio (s.nextSent request).stamped }.copyOut responseCapacity
          (s.nextSent request)
          ⟨s.kernel.rings.requests.length, respond mmio (s.nextSent request).stamped⟩) := by
  rcases s with ⟨⟨⟨requests, executed, delivered⟩, nextSequence, hasBatch⟩, submitSupported,
    reapSupported, retained, rx, tx, outside, reports⟩
  obtain ⟨hrx, htx, houtside, hexecuted, hdelivered⟩ := h
  dsimp only at hrx htx houtside hexecuted hdelivered hnone
  subst hrx htx houtside hdelivered
  simp only [State.nextSent]
  -- the kernel before the call, and after each of its steps
  let sent : Sent := ⟨request, requests.length, (takeSequence nextSequence).1⟩
  let opened : Rings := ⟨requests, executed, requests.length⟩
  let sending : Rings := { opened with requests := requests ++ [sent.stamped] }
  let answering : Rings := { sending with executed := executed ++ [(mmio, sent.stamped)] }
  have hsending : Within sending := by
    constructor <;> simp [sending, opened] <;> omega
  have hanswering : Within answering := by
    constructor <;> simp [answering, sending, opened] <;> omega
  have hsend : messageSendLocked (.done 1) ⟨opened, nextSequence, hasBatch⟩ request =
      some (.ok sent.sequence, ⟨sending, (takeSequence nextSequence).2, hasBatch⟩) :=
    send_done sent 1 hfits rfl hsending
  have hnext : (requests ++ [sent.stamped])[executed.length]? = some sent.stamped := by
    rw [hexecuted, List.getElem?_concat_length]
  have hpending := takePendingSequence_none hnone
  have hreceive : receiveFromKernelLocked (.done 1) answering =
      some (.ok ⟨requests.length, respond mmio sent.stamped⟩,
        { answering with delivered := requests.length + 1 }) := by
    refine receive_done (e := (mmio, sent.stamped)) 1 ?_ (takeSequence_ne nextSequence)
    change (executed ++ [(mmio, sent.stamped)])[requests.length]? = some (mmio, sent.stamped)
    rw [← hexecuted, List.getElem?_concat_length]
  simp only [opened, sending, answering, sent] at hsend hnext hreceive hanswering
  simp only [callLabels, exec_cons, exec_nil, step, State.locked, rxStep,
    List.nil_append, List.getElem?_cons_zero, List.eraseIdx_cons_zero, Option.isSome_none,
    Bool.false_eq_true, if_false, Option.bind_some, hsend, Option.map_some, hnext,
    if_pos hanswering, hpending, hreceive]
  exact congrArg some (if_pos rfl)

end Sg200x.Ipc.Threads
