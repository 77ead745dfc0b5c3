import Sg200x.Ipc.Channel
import Sg200x.Ipc.DrainFacts
import Sg200x.Library.Progress

/-!
# The channel can always be drained

Whatever the calls in progress are doing, they can be brought to their ends, and then a receiver
and the firmware, one after the other, empty both rings: a request that has been published is
answered, and its response taken.
-/

namespace Sg200x.Ipc.Channel

open Shm RingCore App Firmware Driver Library Library.Transition

variable {g : U32} {s t : State}

/-- No call is in progress. -/
structure State.Idle (s : State) : Prop where
  tx : s.tx = none
  rx : s.rx = none
  firmware : s.firmware = none

/-- The steps of the calls in progress. -/
def State.left (s : State) : ℕ :=
  s.tx.elim 0 (fun e => e.2.left e.1) + s.rx.elim 0 (fun e => e.2.left e.1) +
    s.firmware.elim 0 ProcessPc.left

/-! ## One step of a party -/

theorem step_tx {call : TxCall} {pc : TxPc} (htx : s.tx = some (call, pc)) (answer : Answer) :
    step (.tx answer) s = some { s with
      transport := (Driver.txStep call answer s.transport s.region pc).2.1
      region := (Driver.txStep call answer s.transport s.region pc).2.2
      tx := (Driver.txStep call answer s.transport s.region pc).1.pc?.map (call, ·)
      published := s.published ++ pc.published } := by
  simp only [step, txStep, htx]

theorem step_rx {call : RxCall} {pc : RxPc} (hrx : s.rx = some (call, pc)) (answer : Answer) :
    step (.rx answer) s = some { s with
      transport := (Driver.rxStep call answer s.transport s.region pc).2.1
      region := (Driver.rxStep call answer s.transport s.region pc).2.2
      rx := (Driver.rxStep call answer s.transport s.region pc).1.pc?.map (call, ·)
      taken := s.taken ++ pc.delivered } := by
  simp only [step, rxStep, hrx]

theorem step_firmware {pc : ProcessPc} (hfw : s.firmware = some pc) (mmio : Mmio) :
    step (.firmware mmio) s = some { s with
      region := (processStep mmio s.region s.statics pc).2.1
      firmware := (processStep mmio s.region s.statics pc).1.pc?
      statics := (processStep mmio s.region s.statics pc).2.2
      executed := s.executed ++ pc.handles mmio s.statics
      answered := s.answered ++ pc.pushes s.statics } := by
  simp only [step, firmwareStep, hfw]

theorem elim_map_pair {κ ρ γ : Type} (out : Outcome κ ρ) (call : γ) (left : γ → κ → ℕ) :
    (out.pc?.map (call, ·)).elim 0 (fun e => left e.1 e.2) = out.left (left call) := by
  cases out <;> rfl

/-! ## To the ends of the calls -/

/-- The histories only grow, and nothing is published unless a call is on its way. -/
structure Grown (s t : State) : Prop where
  published : s.published <+: t.published
  answered : s.answered.length ≤ t.answered.length
  taken : s.taken.length ≤ t.taken.length
  closed : s.tx = none → t.tx = none ∧ t.published = s.published

theorem Grown.refl (s : State) : Grown s s :=
  ⟨List.prefix_rfl, Nat.le_refl _, Nat.le_refl _, fun h => ⟨h, rfl⟩⟩

theorem Grown.trans {u : State} (h : Grown s t) (h' : Grown t u) : Grown s u where
  published := h.published.trans h'.published
  answered := h.answered.trans h'.answered
  taken := h.taken.trans h'.taken
  closed := by
    intro htx
    obtain ⟨htx', hpublished⟩ := h.closed htx
    obtain ⟨htx'', hpublished'⟩ := h'.closed htx'
    exact ⟨htx'', hpublished'.trans hpublished⟩

/-- A call in progress can go on, a wait by a signal. -/
theorem idle_or_step (s : State) :
    s.Idle ∨ ∃ label t, step label s = some t ∧ Grown s t ∧ t.left < s.left := by
  rcases htx : s.tx with - | ⟨call, pc⟩
  · rcases hrx : s.rx with - | ⟨call, pc⟩
    · rcases hfw : s.firmware with - | pc
      · exact .inl ⟨htx, hrx, hfw⟩
      · have hlt := processStep_left (fun _ => 0#32) s.region s.statics pc
        refine .inr ⟨_, _, step_firmware hfw fun _ => 0#32, ⟨List.prefix_rfl, ?_, Nat.le_refl _,
          fun h => ⟨h, rfl⟩⟩, ?_⟩
        · dsimp only
          rw [List.length_append]
          omega
        · simp only [State.left, htx, hrx, hfw, Option.elim_some, Option.elim_none]
          rw [Outcome.left] at hlt
          omega
    · have hlt := rxStep_left call .interrupted s.transport s.region pc fun _ => rfl
      refine .inr ⟨_, _, step_rx hrx .interrupted, ⟨List.prefix_rfl, Nat.le_refl _, ?_,
        fun h => ⟨h, rfl⟩⟩, ?_⟩
      · dsimp only
        rw [List.length_append]
        omega
      · simp only [State.left, htx, hrx, Option.elim_some, Option.elim_none]
        rw [elim_map_pair _ call RxPc.left]
        omega
  · have hlt := txStep_left call .interrupted s.transport s.region pc fun _ => rfl
    refine .inr ⟨_, _, step_tx htx .interrupted, ⟨List.prefix_append _ _, Nat.le_refl _,
      Nat.le_refl _, fun h => ?_⟩, ?_⟩
    · rw [htx] at h
      cases h
    · simp only [State.left, htx, Option.elim_some]
      rw [elim_map_pair _ call TxPc.left]
      omega

theorem Inv.exists_idle (h : Inv g s) :
    ∃ labels t, exec Channel.step labels s = some t ∧ (Inv g t ∧ Grown s t) ∧ t.Idle := by
  apply exists_exec (S := channel) (fun t => Inv g t ∧ Grown s t) State.Idle State.left
  · rintro t ⟨hinv, hgrown⟩
    refine (idle_or_step t).imp_right ?_
    rintro ⟨label, u, hu, hgrown', hlt⟩
    exact ⟨label, u, hu, ⟨hinv.step hu, hgrown.trans hgrown'⟩, hlt⟩
  · exact ⟨h, Grown.refl s⟩

/-! ## One more answer -/

/-- The firmware alone has gone on since `s`, to answer a request. -/
structure Serving (s t : State) : Prop where
  tx : t.tx = none
  rx : t.rx = none
  published : t.published = s.published
  taken : t.taken = s.taken
  answering : s.answered.length < t.answered.length ∨
    t.answered = s.answered ∧ ∃ pc, t.firmware = some pc ∧ Answering t.region.request pc

theorem Serving.step (hinv : Inv g t) (h : Serving s t)
    (hmore : s.answered.length < s.published.length)
    (hroom : s.answered.length < s.taken.length + slotCount) :
    s.answered.length < t.answered.length ∨
      ∃ label u, Channel.step label t = some u ∧ (Inv g u ∧ Serving s u) ∧ u.left < t.left := by
  refine h.answering.imp_right ?_
  rintro ⟨hanswered, pc, hfw, hanswering⟩
  have hpopped : held (some pc) = 0 → owed t.statics (some pc) = [] →
      t.popped < t.published.length := by
    intro hheld howed
    have hlength := congrArg List.length hinv.answered
    rw [hfw, howed, List.append_nil, List.length_map, hanswered] at hlength
    rw [State.popped, hfw, hheld, h.published]
    omega
  have hnext := processStep_answering hinv.attached hinv.request hinv.response hinv.sound
    (by rwa [hanswered, h.taken]) (fun _ => 0#32) (hinv.firmware pc hfw) hpopped hanswering
  have hstep := step_firmware hfw fun _ => 0#32
  refine ⟨_, _, hstep, ⟨hinv.step hstep, h.tx, h.rx, h.published, h.taken, ?_⟩, ?_⟩
  · dsimp only
    by_cases hpushes : pc.pushes t.statics = []
    · obtain ⟨pc', hrunning, hanswering'⟩ := hnext.resolve_left fun hne => hne hpushes
      rw [hpushes, List.append_nil, hrunning]
      exact .inr ⟨hanswered, pc', rfl, hanswering'⟩
    · left
      have hpos := List.length_pos_of_ne_nil hpushes
      rw [List.length_append, hanswered]
      omega
  · have hlt := processStep_left (fun _ => 0#32) t.region t.statics pc
    simp only [State.left, h.tx, h.rx, hfw, Option.elim_some, Option.elim_none]
    rw [Outcome.left] at hlt
    omega

theorem Inv.exists_answered (h : Inv g s) (hidle : s.Idle)
    (hmore : s.answered.length < s.published.length)
    (hroom : s.answered.length < s.taken.length + slotCount) :
    ∃ labels t, exec Channel.step labels s = some t ∧ Inv g t ∧ t.tx = none ∧
      t.published = s.published ∧ t.taken = s.taken ∧ s.answered.length < t.answered.length := by
  have hstart : Channel.step .process s = some { s with firmware := some .readGeneration } := by
    simp only [Channel.step, hidle.firmware]
  obtain ⟨labels, t, ht, ⟨hinv, hserving⟩, hgrown⟩ :=
    exists_exec (S := channel) (fun t => Inv g t ∧ Serving s t)
      (fun t => s.answered.length < t.answered.length) State.left
      (fun t ht => ht.2.step ht.1 hmore hroom)
      ⟨h.step hstart, hidle.tx, hidle.rx, rfl, rfl, .inr ⟨rfl, _, rfl, trivial⟩⟩
  refine ⟨.process :: labels, t, ?_, hinv, hserving.tx, hserving.published, hserving.taken, hgrown⟩
  rw [exec_cons, hstart]
  exact ht

/-! ## One more message -/

/-- A receiver alone has gone on since `s`, to take a message. -/
structure Receiving (s t : State) : Prop where
  tx : t.tx = none
  firmware : t.firmware = none
  published : t.published = s.published
  answered : t.answered = s.answered
  taking : s.taken.length < t.taken.length ∨
    t.taken = s.taken ∧ ∃ pc, t.rx = some (receiveMessage true, pc) ∧ Taking t.region.response pc

theorem Receiving.step (hinv : Inv g t) (h : Receiving s t)
    (hmore : s.taken.length < s.answered.length) :
    s.taken.length < t.taken.length ∨
      ∃ label u, Channel.step label t = some u ∧ (Inv g u ∧ Receiving s u) ∧ u.left < t.left := by
  refine h.taking.imp_right ?_
  rintro ⟨htaken, pc, hrx, htaking⟩
  have hnext := rxStep_taking true hinv.established hinv.response hinv.sound_answered
    (by rwa [htaken, h.answered]) (hinv.rx _ _ hrx).2 htaking
  have hstep := step_rx hrx .done
  refine ⟨_, _, hstep, ⟨hinv.step hstep, h.tx, h.firmware, h.published, h.answered, ?_⟩, ?_⟩
  · dsimp only
    by_cases hdelivered : pc.delivered = []
    · obtain ⟨pc', hrunning, htaking'⟩ := hnext.resolve_left fun hne => hne hdelivered
      rw [hdelivered, List.append_nil, hrunning]
      exact .inr ⟨htaken, pc', rfl, htaking'⟩
    · left
      have hpos := List.length_pos_of_ne_nil hdelivered
      rw [List.length_append, htaken]
      omega
  · have hlt := rxStep_left (receiveMessage true) .done t.transport t.region pc
      fun hwait => absurd hwait (taking_ne_wait htaking)
    simp only [State.left, h.tx, hrx, h.firmware, Option.elim_some, Option.elim_none]
    rw [elim_map_pair _ (receiveMessage true) RxPc.left]
    omega

theorem Inv.exists_taken (h : Inv g s) (hidle : s.Idle)
    (hmore : s.taken.length < s.answered.length) :
    ∃ labels t, exec Channel.step labels s = some t ∧ Inv g t ∧ t.tx = none ∧
      t.published = s.published ∧ t.answered = s.answered ∧ s.taken.length < t.taken.length := by
  have hstart : Channel.step (.rxCall (receiveMessage true)) s =
      some { s with rx := some (receiveMessage true, .ready true .start) } := by
    simp only [Channel.step, hidle.rx]
    rfl
  obtain ⟨labels, t, ht, ⟨hinv, hreceiving⟩, hgrown⟩ :=
    exists_exec (S := channel) (fun t => Inv g t ∧ Receiving s t)
      (fun t => s.taken.length < t.taken.length) State.left
      (fun t ht => ht.2.step ht.1 hmore)
      ⟨h.step hstart, hidle.tx, hidle.firmware, rfl, rfl, .inr ⟨rfl, _, rfl, trivial⟩⟩
  refine ⟨.rxCall (receiveMessage true) :: labels, t, ?_, hinv, hreceiving.tx,
    hreceiving.published, hreceiving.answered, hgrown⟩
  rw [exec_cons, hstart]
  exact ht

/-! ## To the end -/

/-- No call is in progress, every request published has been executed once, in order, and Linux
has taken the response to each. -/
structure Drained (s : State) : Prop where
  idle : s.Idle
  executed : s.executed.map Prod.snd = s.published
  taken : s.taken = List.zipWith respond (s.executed.map Prod.fst) s.published

/-- What is left at an idle state: a request without a response counts twice. -/
def State.outstanding (s : State) : ℕ :=
  2 * s.published.length - s.answered.length - s.taken.length

theorem Inv.lengths (h : Inv g s) :
    s.taken.length ≤ s.answered.length ∧ s.answered.length ≤ s.executed.length ∧
      s.executed.length ≤ s.published.length := by
  have htaken := h.taken.length_le
  have hanswered := h.answered_prefix.length_le
  have hexecuted := h.executed.length_le
  rw [List.length_map] at hanswered hexecuted
  exact ⟨htaken, hanswered, hexecuted⟩

theorem Inv.drained (h : Inv g s) (hidle : s.Idle)
    (hanswered : s.published.length ≤ s.answered.length)
    (htaken : s.answered.length ≤ s.taken.length) : Drained s where
  idle := hidle
  executed := by
    obtain ⟨-, hle, hle'⟩ := h.lengths
    apply h.executed.eq_of_length
    rw [List.length_map]
    omega
  taken := by
    have horder := h.exactlyOnce.order
    apply horder.eq_of_length
    obtain ⟨hle, hle', hle''⟩ := h.lengths
    rw [List.length_zipWith, List.length_map]
    omega

/-- At an idle state there is nothing left, or a receiver or a process call leaves less. -/
theorem Inv.drained_or_run (h : Inv g s) (hidle : s.Idle) :
    Drained s ∨ ∃ labels t, exec Channel.step labels s = some t ∧
      (Inv g t ∧ t.Idle ∧ t.published = s.published) ∧ t.outstanding < s.outstanding := by
  obtain ⟨hle, hle', hle''⟩ := h.lengths
  by_cases htaken : s.taken.length < s.answered.length
  · obtain ⟨labels, t, ht, hinv, htx, hpublished, hanswered, hgrown⟩ := h.exists_taken hidle htaken
    obtain ⟨more, u, hu, ⟨hinv', hkept⟩, hidle'⟩ := hinv.exists_idle
    have hpublished' := (hkept.closed htx).2.trans hpublished
    have hanswered' := hkept.answered
    have htaken' := hkept.taken
    refine .inr ⟨labels ++ more, u, ?_, ⟨hinv', hidle', hpublished'⟩, ?_⟩
    · rw [exec_append, ht]
      exact hu
    · rw [hanswered] at hanswered'
      rw [State.outstanding, State.outstanding, hpublished']
      omega
  · by_cases hmore : s.answered.length < s.published.length
    · obtain ⟨labels, t, ht, hinv, htx, hpublished, heq, hgrown⟩ :=
        h.exists_answered hidle hmore (by rw [slotCount]; omega)
      obtain ⟨more, u, hu, ⟨hinv', hkept⟩, hidle'⟩ := hinv.exists_idle
      have hpublished' := (hkept.closed htx).2.trans hpublished
      have hanswered' := hkept.answered
      have htaken' := hkept.taken
      refine .inr ⟨labels ++ more, u, ?_, ⟨hinv', hidle', hpublished'⟩, ?_⟩
      · rw [exec_append, ht]
        exact hu
      · rw [heq] at htaken'
        rw [State.outstanding, State.outstanding, hpublished']
        omega
    · exact .inl (h.drained hidle (by omega) (by omega))

/-- From every reachable state some run leads to one in which all that has been published is
answered and taken. -/
theorem can_drain {s : State} (h : Reachable channel s) :
    ∃ labels t, exec Channel.step labels s = some t ∧ s.published <+: t.published ∧ Drained t := by
  obtain ⟨g, hinv⟩ := reachable_inv h
  obtain ⟨labels, t, ht, ⟨hinv', hgrown⟩, hidle⟩ := hinv.exists_idle
  obtain ⟨more, u, hu, ⟨-, -, hpublished⟩, hdrained⟩ :=
    exists_exec_of_runs (S := channel)
      (fun u => Inv g u ∧ u.Idle ∧ u.published = t.published) Drained State.outstanding
      (fun u hu => (hu.1.drained_or_run hu.2.1).imp_right
        fun ⟨labels, v, hv, ⟨hinv, hidle, hpublished⟩, hlt⟩ =>
          ⟨labels, v, hv, ⟨hinv, hidle, hpublished.trans hu.2.2⟩, hlt⟩)
      ⟨hinv', hidle, rfl⟩
  refine ⟨labels ++ more, u, ?_, hpublished ▸ hgrown.published, hdrained⟩
  rw [exec_append]
  rw [ht]
  exact hu

/-- A request that has been published while a receiver waits. -/
theorem can_drain_roundTrip :
    ∃ s, exec step (.rxCall (receiveMessage false) :: List.replicate 18 (.rx .done) ++
        .txCall (sendMessage Slot.zero true) :: List.replicate 22 (.tx .done))
      (State.initial 1#32) = some s ∧ s.published.length = 1 ∧
      ∃ labels t, exec Channel.step labels s = some t ∧ s.published <+: t.published ∧
        Drained t := by
  have hrun : (exec step (.rxCall (receiveMessage false) :: List.replicate 18 (.rx .done) ++
      .txCall (sendMessage Slot.zero true) :: List.replicate 22 (.tx .done))
      (State.initial 1#32)).map (fun s => s.published.length) = some 1 := by decide +kernel
  obtain ⟨s, hs, hpublished⟩ := Option.map_eq_some_iff.mp hrun
  have hstart : Reachable channel (State.initial 1#32) := .start (start_initial (by decide))
  exact ⟨s, hs, hpublished, can_drain (hstart.exec hs)⟩

end Sg200x.Ipc.Channel
