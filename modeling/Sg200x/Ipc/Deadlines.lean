import Sg200x.Ipc.Timeout

/-!
# Calls keep their timeouts

The deadline of a call lies `timeout_ms` after its start and at most `timeout_ms` ahead of
the clock, so that the remaining time is less than `UINT32_MAX` and survives every
conversion.  `UINT32_MAX` itself, the deadline 0 and the timeout -1 are kept apart from it.
-/

namespace Sg200x.Ipc.Timeout

open RingCore Library.Transition

/-! ## Conversions -/

theorem toNat_uint32Max : uint32Max.toNat = 2 ^ 32 - 1 := rfl

theorem toNat_lt_of_ne {x : U32} (h : x ≠ uint32Max) : x.toNat < 2 ^ 32 - 1 := by
  have hlt := x.isLt
  have hne : x.toNat ≠ uint32Max.toNat := fun heq => h (BitVec.eq_of_toNat_eq heq)
  rw [toNat_uint32Max] at hne
  omega

theorem toNat_remainingOf {difference : U64} (h : difference.toNat < 2 ^ 32 - 1) :
    (remainingOf difference).toNat = difference.toNat := by
  unfold remainingOf
  rw [if_neg, BitVec.toNat_setWidth, Nat.mod_eq_of_lt (by omega)]
  rw [BitVec.le_def, BitVec.toNat_setWidth, toNat_uint32Max]
  omega

theorem remainingOf_ne {difference : U64} (h : difference.toNat < 2 ^ 32 - 1) :
    remainingOf difference ≠ uint32Max := by
  intro heq
  have htoNat := toNat_remainingOf h
  rw [heq, toNat_uint32Max] at htoNat
  omega

/-- A word that is read as an `int`. -/
theorem toInt_of_le {x : U32} (h : ¬ intMax < x) : x.toInt = x.toNat := by
  rw [BitVec.lt_def] at h
  have hmax : intMax.toNat = 2 ^ 31 - 1 := rfl
  apply BitVec.toInt_eq_toNat_of_lt
  omega

theorem pollTimeout_bounds {remaining : U32} (h : remaining ≠ uint32Max) :
    0 ≤ pollTimeout remaining ∧ pollTimeout remaining ≤ 2 ^ 31 - 1 := by
  unfold pollTimeout
  rw [if_neg h]
  split_ifs with hlarge
  · decide
  · rw [toInt_of_le hlarge]
    rw [BitVec.lt_def] at hlarge
    have hmax : intMax.toNat = 2 ^ 31 - 1 := rfl
    omega

theorem pollConversions_exact (remaining : U32) :
    ∀ conversion ∈ pollConversions remaining, conversion.Exact := by
  unfold pollConversions
  split_ifs with h
  · exact List.forall_mem_nil _
  · intro conversion hmem
    rw [List.mem_singleton.mp hmem]
    exact toInt_of_le fun hlarge => h (.inr hlarge)

/-- Before the deadline the difference is the time that remains. -/
theorem toNat_difference {deadline : U64} {now : ℕ} (hnow : now < clockEnd)
    (h : ¬ deadline ≤ BitVec.ofNat 64 now) :
    now < deadline.toNat ∧ (deadline - BitVec.ofNat 64 now).toNat = deadline.toNat - now := by
  have hend : clockEnd < 2 ^ 64 := by decide
  have htoNat : (BitVec.ofNat 64 now).toNat = now := by
    rw [BitVec.toNat_ofNat]
    exact Nat.mod_eq_of_lt (by omega)
  rw [BitVec.le_def, htoNat] at h
  refine ⟨by omega, ?_⟩
  rw [BitVec.toNat_sub_of_le (by rw [BitVec.le_def, htoNat]; omega), htoNat]

theorem le_of_reached {deadline : U64} {now : ℕ} (h : deadline ≤ BitVec.ofNat 64 now) :
    deadline.toNat ≤ now := by
  rw [BitVec.le_def, BitVec.toNat_ofNat] at h
  exact h.trans (Nat.mod_le _ _)

/-- The sum of the clock and a timeout does not wrap. -/
theorem toNat_deadline {now : ℕ} (hnow : now < clockEnd) (timeoutMs : U32) :
    (BitVec.ofNat 64 now + timeoutMs.setWidth 64).toNat = now + timeoutMs.toNat := by
  have hend : clockEnd + 2 ^ 32 < 2 ^ 64 := by decide
  have htimeout := timeoutMs.isLt
  rw [BitVec.toNat_add, BitVec.toNat_ofNat, BitVec.toNat_setWidth,
    Nat.mod_eq_of_lt (a := now) (by omega), Nat.mod_eq_of_lt (a := timeoutMs.toNat) (by omega)]
  exact Nat.mod_eq_of_lt (by omega)

/-! ## `sg2002_rtos_wait` -/

/-- A wait does not end for its time before `target`; with an infinite timeout it does not
end for its time. -/
def WaitFacts (target : ℕ) (infinite : Prop) (now : ℕ) : WaitPc → Prop
  | .start timeoutMs =>
      (timeoutMs = uint32Max ↔ infinite) ∧ (¬ infinite → target ≤ now + timeoutMs.toNat)
  | .poll timeoutMs deadline remaining =>
      (timeoutMs = uint32Max ↔ infinite) ∧ (remaining = uint32Max ↔ infinite) ∧
        (¬ infinite → target ≤ deadline.toNat ∧ deadline.toNat ≤ now + timeoutMs.toNat)
  | .check timeoutMs deadline =>
      (timeoutMs = uint32Max ↔ infinite) ∧ ¬ infinite ∧ target ≤ deadline.toNat ∧
        deadline.toNat ≤ now + timeoutMs.toNat

section Wait

variable {target now : ℕ} {infinite : Prop} {input : Input} {pc : WaitPc}

/-- The bits that a mask keeps and those that it clears. -/
theorem eq_and_or_and_not (x m : PollEvents) : x = x &&& m ||| x &&& ~~~ m := by
  ext i hi
  simp only [BitVec.getElem_or, BitVec.getElem_and, BitVec.getElem_not]
  cases x[i] <;> cases m[i] <;> rfl

/-- If `poll` reports a descriptor, the wait reports an event. -/
theorem revents_ne (events : Ready) : events.revents ≠ 0#16 := by
  intro hzero
  unfold Ready.revents at hzero
  rw [BitVec.or_eq_zero_iff, BitVec.or_eq_zero_iff] at hzero
  obtain ⟨⟨hdevice, hin⟩, herr⟩ := hzero
  have hin : events.pending &&& pollin = 0#16 := by
    by_contra hne
    rw [if_pos hne] at hin
    exact absurd hin (by decide)
  have herr : events.pending &&& (pollerr ||| pollhup ||| pollnval) = 0#16 := by
    by_contra hne
    rw [if_pos hne] at herr
    exact absurd herr (by decide)
  have hpending : events.pending = 0#16 := by
    rw [eq_and_or_and_not events.pending (pollin ||| pollerr ||| pollhup ||| pollnval),
      events.asked, BitVec.or_assoc, BitVec.or_assoc, BitVec.and_or_distrib_left, hin,
      ← BitVec.or_assoc pollerr, herr]
    rfl
  exact events.some.elim (fun hne => hne hdevice) fun hne => hne hpending

/-- What a wait returns: 0 only when its time is over, and no result that makes a call
try again. -/
def WaitReturns (target : ℕ) (infinite : Prop) (now : ℕ) (ret : ℤ) : Prop :=
  (ret = 0 → ¬ infinite ∧ target ≤ now) ∧ ret ≠ -eagain ∧ ret ≠ -etimedout

theorem WaitFacts.step (h : WaitFacts target infinite now pc) (hle : now ≤ input.now now)
    (hend : input.now now < clockEnd) {out : Outcome WaitPc ℤ}
    (hstep : waitStep input pc = some out) :
    out.Meets (WaitFacts target infinite (input.now now))
      (WaitReturns target infinite (input.now now)) := by
  cases pc with
  | start timeoutMs =>
      obtain ⟨hinfinite, htarget⟩ := h
      simp only [waitStep] at hstep
      split_ifs at hstep with hmax
      · cases hstep
        exact ⟨hinfinite, hinfinite, fun hnot => absurd (hinfinite.mp hmax) hnot⟩
      · cases input with
        | clock now' =>
            cases hstep
            simp only [Input.now] at hle hend ⊢
            refine ⟨hinfinite, hinfinite, fun hnot => ?_⟩
            rw [toNat_deadline hend]
            have hbefore := htarget hnot
            omega
        | _ => cases hstep
  | poll timeoutMs deadline remaining =>
      obtain ⟨hinfinite, hremaining, hdeadline⟩ := h
      cases input with
      | poll result =>
          by_cases hpossible : result.possible (pollTimeout remaining) = true
          · simp only [waitStep, if_pos hpossible] at hstep
            cases result with
            | failed error =>
                cases hstep
                cases error <;> exact ⟨fun heq => absurd heq (by decide), by decide, by decide⟩
            | ready events =>
                simp only [if_pos (revents_ne events)] at hstep
                cases hstep
                exact ⟨fun heq => absurd heq (by decide), by decide, by decide⟩
            | timedOut =>
                simp only at hstep
                split_ifs at hstep with hmax
                · -- a `poll` without a timeout does not time out
                  rw [hremaining.mpr (hinfinite.mp hmax)] at hpossible
                  cases hpossible
                · cases hstep
                  have hnot := mt hinfinite.mpr hmax
                  exact ⟨hinfinite, hnot, hdeadline hnot⟩
          · simp only [waitStep, if_neg hpossible] at hstep
            cases hstep
      | _ => cases hstep
  | check timeoutMs deadline =>
      obtain ⟨hinfinite, hnot, htarget, hdeadline⟩ := h
      cases input with
      | clock now' =>
          simp only [waitStep] at hstep
          simp only [Input.now] at hle hend ⊢
          split_ifs at hstep with hreached
          · cases hstep
            have hover := le_of_reached hreached
            exact ⟨fun _ => ⟨hnot, by omega⟩, by decide, by decide⟩
          · cases hstep
            obtain ⟨hlt, hdifference⟩ := toNat_difference hend hreached
            have htimeout := toNat_lt_of_ne (mt hinfinite.mp hnot)
            have hne : remainingOf (deadline - BitVec.ofNat 64 now') ≠ uint32Max :=
              remainingOf_ne (by omega)
            exact ⟨hinfinite, ⟨fun heq => absurd heq hne, fun hinf => absurd hinf hnot⟩,
              fun _ => ⟨htarget, by omega⟩⟩
      | _ => cases hstep

theorem WaitFacts.polls (h : WaitFacts target infinite now pc) :
    ∀ timeout ∈ pc.polls, (infinite → timeout = -1) ∧
      (¬ infinite → 0 ≤ timeout ∧ timeout ≤ 2 ^ 31 - 1) := by
  cases pc with
  | poll timeoutMs deadline remaining =>
      intro timeout hmem
      rw [List.mem_singleton.mp hmem]
      refine ⟨fun hinf => ?_, fun hnot => pollTimeout_bounds (mt h.2.1.mp hnot)⟩
      rw [h.2.1.mpr hinf]
      rfl
  | _ => exact List.forall_mem_nil _

theorem WaitFacts.conversions (h : WaitFacts target infinite now pc) (hle : now ≤ input.now now)
    (hend : input.now now < clockEnd) :
    ∀ conversion ∈ pc.conversions input, conversion.Exact := by
  cases pc with
  | start timeoutMs => exact List.forall_mem_nil _
  | poll timeoutMs deadline remaining => exact pollConversions_exact remaining
  | check timeoutMs deadline =>
      obtain ⟨hinfinite, hnot, htarget, hdeadline⟩ := h
      cases input with
      | clock now' =>
          simp only [WaitPc.conversions]
          simp only [Input.now] at hle hend
          split_ifs with hreached
          · exact List.forall_mem_nil _
          · intro conversion hmem
            obtain ⟨hlt, hdifference⟩ := toNat_difference hend hreached
            have htimeout := toNat_lt_of_ne (mt hinfinite.mp hnot)
            rw [List.mem_singleton.mp hmem]
            exact congrArg Int.ofNat (toNat_remainingOf (by omega))
      | _ => exact List.forall_mem_nil _

end Wait

/-! ## The deadline of a call -/

/-- The deadline 0 stands for no deadline; any other one is the end of the timeout. -/
structure DeadlineFacts (timeoutMs : U32) (started now : ℕ) (deadline : U64) : Prop where
  unused : timeoutMs = 0#32 ∨ timeoutMs = uint32Max → deadline = 0#64
  used : ¬ (timeoutMs = 0#32 ∨ timeoutMs = uint32Max) →
    started + timeoutMs.toNat ≤ deadline.toNat ∧ deadline.toNat ≤ now + timeoutMs.toNat

/-- What a call may return: the end of its time only when its time is over, and `-EAGAIN`
only if it had none. -/
structure Returns (call : Call) (timeoutMs : U32) (started now : ℕ) (ret : ℤ) : Prop where
  timedOut : ret = call.timedOut → timeoutMs ≠ uint32Max ∧ started + timeoutMs.toNat ≤ now
  again : ret = -eagain → timeoutMs = 0#32
  infinite : timeoutMs = uint32Max → ret ≠ -etimedout

section Deadline

variable {call : Call} {timeoutMs : U32} {started now now' : ℕ} {deadline : U64} {ret : ℤ}

theorem DeadlineFacts.mono (h : DeadlineFacts timeoutMs started now deadline) (hle : now ≤ now') :
    DeadlineFacts timeoutMs started now' deadline :=
  ⟨h.unused, fun hnot => ⟨(h.used hnot).1, by have := (h.used hnot).2; omega⟩⟩

theorem timeoutDeadline_facts (hnow : now < clockEnd) (hle : started ≤ now) :
    DeadlineFacts timeoutMs started now (timeoutDeadline timeoutMs now) := by
  constructor
  · intro hunused
    exact if_pos hunused
  · intro hused
    unfold timeoutDeadline
    rw [if_neg hused, toNat_deadline hnow]
    omega

/-- A deadline that is not 0 is only reached at the end of the timeout. -/
theorem DeadlineFacts.reached (h : DeadlineFacts timeoutMs started now deadline)
    (hused : ¬ (timeoutMs = 0#32 ∨ timeoutMs = uint32Max))
    (hreached : deadline ≤ BitVec.ofNat 64 now') : started + timeoutMs.toNat ≤ now' :=
  (h.used hused).1.trans (le_of_reached hreached)

/-- Before the deadline, what remains of the time is less than `UINT32_MAX`. -/
theorem DeadlineFacts.difference (h : DeadlineFacts timeoutMs started now deadline)
    (hused : ¬ (timeoutMs = 0#32 ∨ timeoutMs = uint32Max)) (hle : now ≤ now')
    (hnow : now' < clockEnd) (hbefore : ¬ deadline ≤ BitVec.ofNat 64 now') :
    (deadline - BitVec.ofNat 64 now').toNat = deadline.toNat - now' ∧
      now' < deadline.toNat ∧ (deadline - BitVec.ofNat 64 now').toNat < 2 ^ 32 - 1 := by
  obtain ⟨hlt, hdifference⟩ := toNat_difference hnow hbefore
  have htimeout := toNat_lt_of_ne fun hmax => hused (.inr hmax)
  have hdeadline := (h.used hused).2
  exact ⟨hdifference, hlt, by omega⟩

/-- The remaining time is infinite if the timeout is, and else reaches the deadline. -/
theorem updateRemaining_ok (h : DeadlineFacts timeoutMs started now deadline)
    (hzero : timeoutMs ≠ 0#32) (hle : now ≤ now') (hnow : now' < clockEnd) {remaining : U32}
    (hok : updateRemaining timeoutMs deadline now' = .ok remaining) :
    (remaining = uint32Max ↔ timeoutMs = uint32Max) ∧
      (timeoutMs ≠ uint32Max → started + timeoutMs.toNat ≤ now' + remaining.toNat) := by
  unfold updateRemaining at hok
  split_ifs at hok with hmax hreached
  · cases hok
    exact ⟨⟨fun _ => hmax, fun _ => rfl⟩, fun hnot => absurd hmax hnot⟩
  · cases hok
    have hused : ¬ (timeoutMs = 0#32 ∨ timeoutMs = uint32Max) := fun hor => hor.elim hzero hmax
    obtain ⟨hdifference, hlt, hsmall⟩ := h.difference hused hle hnow hreached
    have hdeadline := (h.used hused).1
    refine ⟨⟨fun heq => absurd heq (remainingOf_ne hsmall), fun hinf => absurd hinf hmax⟩,
      fun _ => ?_⟩
    rw [toNat_remainingOf hsmall]
    omega

theorem Returns.expired (hmax : timeoutMs ≠ uint32Max)
    (hover : started + timeoutMs.toNat ≤ now) : Returns call timeoutMs started now (-etimedout) where
  timedOut _ := ⟨hmax, hover⟩
  again := fun heq => absurd heq (by decide)
  infinite := fun hinf => absurd hinf hmax

theorem DeadlineFacts.returns (h : DeadlineFacts timeoutMs started now deadline)
    (hzero : timeoutMs ≠ 0#32) (herror : updateRemaining timeoutMs deadline now' = .error ret) :
    Returns call timeoutMs started now' ret := by
  unfold updateRemaining at herror
  split_ifs at herror with hmax hreached
  cases herror
  exact .expired hmax (h.reached (fun hused => hused.elim hzero hmax) hreached)

theorem Call.timedOut_of_ne (hcall : call ≠ .wait) : call.timedOut = -etimedout := by
  cases call with
  | wait => exact absurd rfl hcall
  | _ => rfl

/-- An error that is not about the time. -/
theorem Returns.other (hcall : call ≠ .wait) (hret : Timeout.again ret = false) :
    Returns call timeoutMs started now ret := by
  have hne : ret ≠ -eagain ∧ ret ≠ -etimedout := by
    simpa [Timeout.again] using hret
  exact ⟨fun heq => absurd (heq.trans (Call.timedOut_of_ne hcall)) hne.2,
    fun heq => absurd heq hne.1, fun _ => hne.2⟩

theorem Returns.noTime (hcall : call ≠ .wait) (hzero : timeoutMs = 0#32) :
    Returns call timeoutMs started now (-eagain) where
  timedOut := fun heq => absurd (heq.trans (Call.timedOut_of_ne hcall)) (by decide)
  again _ := hzero
  infinite _ := by decide

end Deadline

/-! ## Runs -/

/-- A call that loops and has its deadline. -/
def Timed (call : Call) (timeoutMs : U32) (started now : ℕ) (deadline : U64) : Prop :=
  call ≠ .wait ∧ DeadlineFacts timeoutMs started now deadline

def PcFacts (call : Call) (timeoutMs : U32) (started now : ℕ) : Pc → Prop
  | .start => True
  | .wait pc =>
      call = .wait ∧ WaitFacts (started + timeoutMs.toNat) (timeoutMs = uint32Max) now pc
  | .attempt deadline | .updateRemaining deadline | .send deadline | .receive deadline
  | .kernelUpdate deadline _ => Timed call timeoutMs started now deadline
  | .waitForEvents deadline pc =>
      Timed call timeoutMs started now deadline ∧
        WaitFacts (started + timeoutMs.toNat) (timeoutMs = uint32Max) now pc
  | .checkDeadline deadline =>
      Timed call timeoutMs started now deadline ∧ deadline ≠ 0#64
  | .kernelPoll deadline _ remaining =>
      Timed call timeoutMs started now deadline ∧
        (remaining = uint32Max ↔ timeoutMs = uint32Max)
  | .returned ret => Returns call timeoutMs started now ret

section Run

variable {call : Call} {timeoutMs : U32} {started now now' : ℕ} {deadline : U64} {ret : ℤ}
  {input : Input} {pc pc' : Pc}

theorem Timed.mono (h : Timed call timeoutMs started now deadline) (hle : now ≤ now') :
    Timed call timeoutMs started now' deadline := ⟨h.1, h.2.mono hle⟩

theorem CallLoop.facts (loop : CallLoop) (h : Timed call timeoutMs started now deadline) :
    PcFacts call timeoutMs started now (loop.pc deadline) := by
  cases loop with
  | send => exact h
  | receive => exact h

theorem sendStep_facts (h : Timed call timeoutMs started now deadline) (sendRet receiveRet : ℤ)
    (full : Bool) :
    PcFacts call timeoutMs started now (sendStep deadline sendRet receiveRet full) := by
  unfold sendStep
  split_ifs with hsend hagain hreceive hfull hreceiveAgain
  · exact h
  · exact .other h.1 (by simpa using hagain)
  · exact .other h.1 (by decide)
  · exact h
  · exact .other h.1 (by simpa using hreceiveAgain)
  · exact h

theorem receiveStep_facts (h : Timed call timeoutMs started now deadline)
    {pendingResult receiveRet copyRet : ℤ} {sequenceMatches full : Bool}
    (hpossible : (Input.receive pendingResult receiveRet sequenceMatches full copyRet).possible) :
    PcFacts call timeoutMs started now
      (receiveStep deadline pendingResult receiveRet sequenceMatches full copyRet) := by
  simp only [Input.possible, Bool.and_eq_true, Bool.or_eq_true, decide_eq_true_eq] at hpossible
  obtain ⟨hpending, hcopy⟩ := hpossible
  have hcopied : Returns call timeoutMs started now copyRet := by
    obtain (rfl | rfl) | rfl := hcopy <;> exact .other h.1 (by decide)
  unfold receiveStep
  split_ifs with hfailed hfound hagain hreceive hmatches hfull hdeadline
  · obtain (rfl | rfl) | rfl := hpending
    · exact .other h.1 (by decide)
    · exact absurd hfailed (by decide)
    · exact absurd hfailed (by decide)
  · exact hcopied
  · exact h
  · exact .other h.1 (by simpa using hagain)
  · exact hcopied
  · exact .other h.1 (by decide)
  · exact ⟨h, hdeadline⟩
  · exact h

theorem wait_facts {wait : WaitPc}
    (h : PcFacts call timeoutMs started now (.wait wait)) (hle : now ≤ input.now now)
    (hend : input.now now < clockEnd) (hnext : next call timeoutMs input (.wait wait) = some pc') :
    PcFacts call timeoutMs started (input.now now) pc' := by
  obtain ⟨rfl, hwait⟩ := h
  cases hstep : waitStep input wait with
  | none => simp [next, hstep] at hnext
  | some out =>
      have hmeets := hwait.step hle hend hstep
      cases out with
      | running pc'' =>
          simp only [next, hstep] at hnext
          cases hnext
          exact ⟨rfl, hmeets⟩
      | returned ret =>
          simp only [next, hstep] at hnext
          cases hnext
          exact ⟨hmeets.1, fun heq => absurd heq hmeets.2.1, fun _ => hmeets.2.2⟩

/-- `wait_for_events` turns the end of a wait into `-ETIMEDOUT`. -/
theorem waitForEvents_facts {wait : WaitPc}
    (h : PcFacts call timeoutMs started now (.waitForEvents deadline wait)) (hle : now ≤ input.now now)
    (hend : input.now now < clockEnd)
    (hnext : next call timeoutMs input (.waitForEvents deadline wait) = some pc') :
    PcFacts call timeoutMs started (input.now now) pc' := by
  obtain ⟨htimed, hwait⟩ := h
  cases hstep : waitStep input wait with
  | none => simp [next, hstep] at hnext
  | some out =>
      have hmeets := hwait.step hle hend hstep
      cases out with
      | running pc'' =>
          simp only [next, hstep] at hnext
          cases hnext
          exact ⟨htimed.mono hle, hmeets⟩
      | returned ret =>
          simp only [next, hstep] at hnext
          cases hnext
          split_ifs with hneg hzero
          · exact .other htimed.1 (by simpa [again] using hmeets.2)
          · exact .expired (hmeets.1 hzero).1 (hmeets.1 hzero).2
          · exact htimed.mono hle

theorem next_facts (h : PcFacts call timeoutMs started now pc) (hstarted : started ≤ now)
    (hle : now ≤ input.now now) (hend : input.now now < clockEnd) (hpossible : input.possible)
    (hnext : next call timeoutMs input pc = some pc') :
    PcFacts call timeoutMs started (input.now now) pc' := by
  cases pc with
  | start =>
      by_cases hwait : call = .wait
      · subst hwait
        cases hnext
        exact ⟨rfl, Iff.rfl, fun _ => by omega⟩
      · cases input with
        | clock now' =>
            have hfacts : Timed call timeoutMs started now' (timeoutDeadline timeoutMs now') :=
              ⟨hwait, timeoutDeadline_facts hend (hstarted.trans hle)⟩
            cases call with
            | wait => exact absurd rfl hwait
            | _ =>
                cases hnext
                exact hfacts
        | _ => cases call <;> first | exact absurd rfl hwait | cases hnext
  | wait pc => exact wait_facts h hle hend hnext
  | waitForEvents deadline pc => exact waitForEvents_facts h hle hend hnext
  | attempt deadline =>
      cases input with
      | attempt ret =>
          cases hnext
          split_ifs with hagain
          · exact .other h.1 (by simpa using hagain)
          · exact h
      | _ => cases hnext
  | updateRemaining deadline =>
      simp only [next] at hnext
      split_ifs at hnext with hzero
      · cases hnext
        exact .noTime h.1 hzero
      · cases input with
        | clock now' =>
            cases hupdate : updateRemaining timeoutMs deadline now' with
            | error ret =>
                simp only [hupdate] at hnext
                cases hnext
                exact h.2.returns hzero hupdate
            | ok remaining =>
                simp only [hupdate] at hnext
                cases hnext
                exact ⟨h.mono hle, updateRemaining_ok h.2 hzero hle hend hupdate⟩
        | _ => cases hnext
  | send deadline =>
      cases input with
      | send sendRet receiveRet full =>
          cases hnext
          exact sendStep_facts h sendRet receiveRet full
      | _ => cases hnext
  | receive deadline =>
      cases input with
      | receive pendingResult receiveRet sequenceMatches full copyRet =>
          cases hnext
          exact receiveStep_facts h hpossible
      | _ => cases hnext
  | checkDeadline deadline =>
      obtain ⟨htimed, hne⟩ := h
      cases input with
      | clock now' =>
          cases hnext
          split_ifs with hreached
          · have hused : ¬ (timeoutMs = 0#32 ∨ timeoutMs = uint32Max) :=
              fun hor => hne (htimed.2.unused hor)
            exact .expired (fun hmax => hused (.inr hmax)) (htimed.2.reached hused hreached)
          · exact htimed.mono hle
      | _ => cases hnext
  | kernelUpdate deadline loop =>
      simp only [next] at hnext
      split_ifs at hnext with hzero
      · cases hnext
        exact .noTime h.1 hzero
      · cases input with
        | clock now' =>
            cases hupdate : updateRemaining timeoutMs deadline now' with
            | error ret =>
                simp only [hupdate] at hnext
                cases hnext
                exact h.2.returns hzero hupdate
            | ok remaining =>
                simp only [hupdate] at hnext
                cases hnext
                exact ⟨h.mono hle, (updateRemaining_ok h.2 hzero hle hend hupdate).1⟩
        | _ => cases hnext
  | kernelPoll deadline loop remaining =>
      obtain ⟨htimed, hinfinite⟩ := h
      cases input with
      | poll result =>
          simp only [next] at hnext
          split_ifs at hnext
          cases result with
          | failed error =>
              cases hnext
              exact .other htimed.1 (by cases error <;> decide)
          | timedOut =>
              cases hnext
              exact htimed
          | ready events =>
              cases hnext
              exact loop.facts htimed
      | _ => cases hnext
  | returned ret => cases hnext

/-- The timeout of a `poll`: -1 exactly if the call has no end. -/
def PollBounds (timeoutMs : U32) (timeout : ℤ) : Prop :=
  if timeoutMs = uint32Max then timeout = -1 else 0 ≤ timeout ∧ timeout ≤ 2 ^ 31 - 1

theorem WaitFacts.pollBounds {target : ℕ} {wait : WaitPc}
    (h : WaitFacts target (timeoutMs = uint32Max) now wait) :
    ∀ timeout ∈ wait.polls, PollBounds timeoutMs timeout := by
  intro timeout hmem
  obtain ⟨hinfinite, hfinite⟩ := h.polls timeout hmem
  unfold PollBounds
  split_ifs with hmax
  · exact hinfinite hmax
  · exact hfinite hmax

theorem pc_polls (h : PcFacts call timeoutMs started now pc) :
    ∀ timeout ∈ pc.polls, PollBounds timeoutMs timeout := by
  cases pc with
  | wait wait => exact h.2.pollBounds
  | waitForEvents deadline wait => exact h.2.pollBounds
  | kernelPoll deadline loop remaining =>
      intro timeout hmem
      rw [List.mem_singleton.mp hmem]
      unfold PollBounds
      split_ifs with hmax
      · rw [h.2.mpr hmax]
        rfl
      · exact pollTimeout_bounds (mt h.2.mp hmax)
  | _ => exact List.forall_mem_nil _

/-- `(uint32_t)(deadline - now)`, with and without the limit of `update_remaining`. -/
theorem difference_exact (h : Timed call timeoutMs started now deadline)
    (hused : ¬ (timeoutMs = 0#32 ∨ timeoutMs = uint32Max)) (hle : now ≤ now')
    (hend : now' < clockEnd) (hbefore : ¬ deadline ≤ BitVec.ofNat 64 now') :
    (remainingConversion (deadline - BitVec.ofNat 64 now')).Exact ∧
      ((deadline - BitVec.ofNat 64 now').setWidth 32).toNat =
        (deadline - BitVec.ofNat 64 now').toNat := by
  obtain ⟨-, -, hsmall⟩ := h.2.difference hused hle hend hbefore
  constructor
  · exact congrArg Int.ofNat (toNat_remainingOf hsmall)
  · rw [BitVec.toNat_setWidth]
    exact Nat.mod_eq_of_lt (by omega)

theorem pc_conversions (h : PcFacts call timeoutMs started now pc) (hle : now ≤ input.now now)
    (hend : input.now now < clockEnd) :
    ∀ conversion ∈ pc.conversions timeoutMs input, conversion.Exact := by
  have hupdate : ∀ deadline now', input = .clock now' → Timed call timeoutMs started now deadline →
      ∀ conversion ∈
        (if timeoutMs = 0#32 ∨ timeoutMs = uint32Max ∨ deadline ≤ BitVec.ofNat 64 now' then []
        else [remainingConversion (deadline - BitVec.ofNat 64 now')]), conversion.Exact := by
    rintro deadline now' rfl htimed
    split_ifs with hor
    · exact List.forall_mem_nil _
    · intro conversion hmem
      rw [List.mem_singleton.mp hmem]
      exact (difference_exact htimed (fun h' => hor (h'.imp_right .inl)) hle hend
        fun h' => hor (.inr (.inr h'))).1
  cases pc with
  | wait wait => exact h.2.conversions hle hend
  | waitForEvents deadline wait => exact h.2.conversions hle hend
  | kernelPoll deadline loop remaining => exact pollConversions_exact remaining
  | updateRemaining deadline =>
      cases input with
      | clock now' => exact hupdate deadline now' rfl h
      | _ => exact List.forall_mem_nil _
  | kernelUpdate deadline loop =>
      cases input with
      | clock now' => exact hupdate deadline now' rfl h
      | _ => exact List.forall_mem_nil _
  | checkDeadline deadline =>
      cases input with
      | clock now' =>
          simp only [Pc.conversions]
          split_ifs with hreached
          · exact List.forall_mem_nil _
          · intro conversion hmem
            rw [List.mem_singleton.mp hmem]
            have hused : ¬ (timeoutMs = 0#32 ∨ timeoutMs = uint32Max) :=
              fun hor => h.2 (h.1.2.unused hor)
            exact congrArg Int.ofNat (difference_exact h.1 hused hle hend hreached).2
      | _ => exact List.forall_mem_nil _
  | _ => exact List.forall_mem_nil _

/-- The invariant of a call. -/
structure Inv (call : Call) (timeoutMs : U32) (s : State) : Prop where
  started : s.started ≤ s.now
  pc : PcFacts call timeoutMs s.started s.now s.pc
  polls : ∀ timeout ∈ s.polls, PollBounds timeoutMs timeout
  conversions : ∀ conversion ∈ s.conversions, conversion.Exact

theorem Start.inv {s : State} (h : Start s) : Inv call timeoutMs s where
  started := h.now.ge
  pc := by
    rw [h.pc]
    exact trivial
  polls := by
    rw [h.polls]
    exact List.forall_mem_nil _
  conversions := by
    rw [h.conversions]
    exact List.forall_mem_nil _

theorem Inv.step {s t : State} (h : Inv call timeoutMs s)
    (hstep : Timeout.step call timeoutMs input s = some t) : Inv call timeoutMs t := by
  unfold Timeout.step at hstep
  split_ifs at hstep with hinput
  obtain ⟨hle, hend, hpossible⟩ := hinput
  rw [Option.map_eq_some_iff] at hstep
  obtain ⟨pc, hnext, rfl⟩ := hstep
  constructor
  · exact h.started.trans hle
  · exact next_facts h.pc h.started hle hend hpossible hnext
  · intro timeout hmem
    exact (List.mem_append.mp hmem).elim (h.polls timeout) (pc_polls h.pc timeout)
  · intro conversion hmem
    exact (List.mem_append.mp hmem).elim (h.conversions conversion)
      (pc_conversions h.pc hle hend conversion)

theorem reachable_inv {s : State} (h : Reachable (calls call timeoutMs) s) : Inv call timeoutMs s :=
  h.invariant (fun _ => Start.inv) fun _ _ _ => Inv.step

/-- Whatever a call meets, its polls and its results keep to its timeout, and what remains of
it is converted without loss. -/
theorem timeouts_kept {s : State} (h : Reachable (calls call timeoutMs) s) :
    (∀ timeout ∈ s.polls,
      (timeoutMs = uint32Max → timeout = -1) ∧
        (timeoutMs ≠ uint32Max → 0 ≤ timeout ∧ timeout ≤ 2 ^ 31 - 1)) ∧
    (∀ ret, s.pc = .returned ret →
      (ret = call.timedOut → s.started + timeoutMs.toNat ≤ s.now) ∧
      (ret = -eagain → timeoutMs = 0#32) ∧
      (timeoutMs = uint32Max → ret ≠ call.timedOut ∧ ret ≠ -etimedout)) ∧
    ∀ conversion ∈ s.conversions, conversion.Exact := by
  have hinv := reachable_inv h
  refine ⟨?_, ?_, hinv.conversions⟩
  · intro timeout hmem
    have hbounds := hinv.polls timeout hmem
    unfold PollBounds at hbounds
    split_ifs at hbounds with hmax
    · exact ⟨fun _ => hbounds, fun hne => absurd hmax hne⟩
    · exact ⟨fun heq => absurd heq hmax, fun _ => hbounds⟩
  · intro ret hret
    have hreturns := hinv.pc
    rw [hret] at hreturns
    exact ⟨fun heq => (hreturns.timedOut heq).2, hreturns.again,
      fun hmax => ⟨fun heq => (hreturns.timedOut heq).1 hmax, hreturns.infinite hmax⟩⟩

end Run

/-- The ring stays full for the 50 ms of a `sg2002_rtos_message_send`. -/
def expiredSend : State where
  started := 1000
  now := 1050
  pc := .returned (-etimedout)
  polls := [40]
  conversions := [⟨40, 40⟩, ⟨40, 40⟩]

theorem reachable_expiredSend : Reachable (calls .messageSend 50#32) expiredSend := by
  have hstart : Start ⟨1000, 1000, .start, [], []⟩ := ⟨rfl, by decide, rfl, rfl, rfl⟩
  have hexec : exec (step .messageSend 50#32) [.clock 1000, .attempt (-eagain), .clock 1010,
      .clock 1010, .poll .timedOut, .clock 1050] ⟨1000, 1000, .start, [], []⟩ =
        some expiredSend := rfl
  exact (Reachable.start (S := calls .messageSend 50#32) hstart).exec hexec

theorem timeouts_kept_send :
    (∀ timeout ∈ expiredSend.polls, 0 ≤ timeout ∧ timeout ≤ 2 ^ 31 - 1) ∧
      expiredSend.started + 50 ≤ expiredSend.now := by
  obtain ⟨hpolls, hreturned, -⟩ := timeouts_kept reachable_expiredSend
  exact ⟨fun timeout hmem => (hpolls timeout hmem).2 (by decide), (hreturned _ rfl).1 rfl⟩

end Sg200x.Ipc.Timeout
