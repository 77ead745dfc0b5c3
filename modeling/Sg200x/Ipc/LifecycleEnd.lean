import Sg200x.Ipc.LifecycleRuns

/-!
# The device can always be given back

Two threads that wait for each other would stay for ever.  Here a thread that waits has somebody to
wait for who can go on: the one that holds the lock, the handler, the work, or the call that is
inside.  So every run can be continued until everything is freed.
-/

namespace Sg200x.Ipc.Lifecycle

open Library Library.Transition

variable {s t : State} {config : Config} {answer : Answer}

/-! ## What is left to do -/

def MainPc.left : MainPc → ℕ
  | .alloc => 40
  | .resource => 39
  | .mapRegisters => 38
  | .shared => 37
  | .getIrq => 36
  | .init => 35
  | .requestIrq => 34
  | .register => 33
  | .callback => 32
  | .bound => 31
  | .errIrq _ => 19
  | .errDeinit _ => 18
  | .errPut _ => 17
  | .teardown _ pc => 15 - pc.rank
  | .devres _ => 1
  | .unbound _ => 0

theorem MainPc.unbound_of_left {m : MainPc} (h : m.left = 0) : ∃ ret, m = .unbound ret := by
  cases m with
  | unbound ret => exact ⟨ret, rfl⟩
  | teardown removal pc => cases pc <;> cases h
  | _ => cases h

theorem MainPc.bound_of_left {m : MainPc} (h : m.left = 31) : m = .bound := by
  cases m with
  | bound => rfl
  | teardown removal pc => cases pc <;> cases h
  | _ => cases h

def OpenPc.left : OpenPc → ℕ
  | .lock => 11
  | .test => 10
  | .get => 9
  | .unlock _ => 8

def CallPc.left : CallPc → ℕ
  | .enter _ => 5
  | .test => 4
  | .body => 3
  | .retest => 2
  | .leave _ => 1

def ReleasePc.left : ReleasePc → ℕ
  | .enter => 5
  | .test => 4
  | .shm => 3
  | .leave => 2
  | .put => 1

def FilePc.left : FilePc → ℕ
  | .opened calls => 6 + (calls.map CallPc.left).sum
  | .releasing pc => pc.left

def State.left (s : State) : ℕ :=
  s.main.left + s.opening.elim 0 OpenPc.left + (s.files.map FilePc.left).sum + s.handler.toNat +
    s.work.toNat

@[simp] theorem State.use_files (s : State) (parts : List Part) : (s.use parts).files = s.files := rfl

/-! ## The driver -/

/-- What a step of the driver leaves to the others. -/
structure Others (s t : State) : Prop where
  opening : t.opening = s.opening
  files : t.files = s.files
  handler : t.handler = s.handler
  work : t.work = s.work

theorem others_put (s : State) : Others s s.put := by
  unfold State.put State.destroy
  dsimp only
  split_ifs <;> exact ⟨rfl, rfl, rfl, rfl⟩

theorem others_create (start size : ℕ) (allocations : Allocations) (s : State) :
    Others s (create start size allocations s).2 := by
  unfold create
  dsimp only
  split_ifs <;> exact ⟨rfl, rfl, rfl, rfl⟩

theorem sharedStep_left (config : Config) (answer : Answer) (s : State) :
    Others s (sharedStep config answer s) ∧ (sharedStep config answer s).main.left < 37 := by
  unfold sharedStep
  split
  · exact ⟨⟨rfl, rfl, rfl, rfl⟩, by simp [MainPc.left]⟩
  · exact ⟨⟨rfl, rfl, rfl, rfl⟩, by simp [MainPc.left]⟩
  · rename_i start size _
    split_ifs
    · exact ⟨⟨rfl, rfl, rfl, rfl⟩, by simp [MainPc.left]⟩
    · have hcreate := others_create start size answer.shm s
      refine ⟨⟨hcreate.opening, hcreate.files, hcreate.handler, hcreate.work⟩, ?_⟩
      dsimp only
      split_ifs <;> simp [MainPc.left]

theorem teardownStep_left {removal : Bool} {pc : TeardownPc}
    (hstep : teardownStep removal answer s pc = some t) :
    Others s t ∧ t.main.left < (MainPc.teardown removal pc).left := by
  by_cases hpc : pc = .put
  · subst hpc
    have hput := others_put s
    obtain rfl := Option.some.inj hstep
    exact ⟨⟨hput.opening, hput.files, hput.handler, hput.work⟩, by simp [MainPc.left, TeardownPc.rank]⟩
  · unfold teardownStep at hstep
    cases pc <;> first | exact absurd rfl hpc | skip
    all_goals
      dsimp only at hstep
      try split_ifs at hstep
    all_goals
      obtain rfl := Option.some.inj hstep
      exact ⟨⟨rfl, rfl, rfl, rfl⟩, by simp [MainPc.left, TeardownPc.rank]⟩

theorem mainStep_left (hstep : mainStep config answer s = some t) :
    Others s t ∧ t.main.left < s.main.left := by
  have hput := others_put s
  unfold mainStep at hstep
  cases hmain : s.main <;> rw [hmain] at hstep
  case shared =>
    obtain rfl := Option.some.inj hstep
    obtain ⟨hothers, hlt⟩ := sharedStep_left config answer (s.use [.device])
    exact ⟨⟨hothers.opening, hothers.files, hothers.handler, hothers.work⟩, hlt⟩
  case errPut ret =>
    obtain rfl := Option.some.inj hstep
    exact ⟨⟨hput.opening, hput.files, hput.handler, hput.work⟩, by simp [MainPc.left]⟩
  case teardown removal pc => exact teardownStep_left hstep
  case resource | getIrq =>
    obtain rfl := Option.some.inj hstep
    refine ⟨⟨rfl, rfl, rfl, rfl⟩, ?_⟩
    dsimp only
    split_ifs <;> simp [MainPc.left]
  case bound | unbound => cases hstep
  all_goals
    dsimp only at hstep
    try split_ifs at hstep
  all_goals
    obtain rfl := Option.some.inj hstep
    exact ⟨⟨rfl, rfl, rfl, rfl⟩, by simp [MainPc.left, TeardownPc.rank]⟩

/-- The driver waits for an `open`, for the work, for the handler and for who is inside. -/
theorem mainStep_isSome (answer : Answer) (hopening : s.opening = none) (hwork : s.work = false)
    (hhandler : s.handler = false) (hbound : s.main.left ≠ 31)
    (hunbound : s.main.left ≠ 0)
    (hinside : s.main.left = 8 → s.files.any FilePc.reading = false) :
    (mainStep config answer s).isSome = true := by
  unfold mainStep
  cases hmain : s.main with
  | teardown removal pc =>
      rw [hmain] at hinside
      cases pc with
      | downWrite => simp [teardownStep, hinside rfl]
      | lockLifecycle | deregister => simp [teardownStep, hopening]
      | setShmFlag =>
          dsimp only [teardownStep]
          split_ifs <;> rfl
      | cancelWork => simp [teardownStep, hwork]
      | freeIrq => simp [teardownStep, hhandler]
      | _ => rfl
  | errIrq ret => simp [hhandler]
  | bound => exact absurd (congrArg MainPc.left hmain) hbound
  | unbound ret => exact absurd (congrArg MainPc.left hmain) hunbound
  | alloc | mapRegisters | requestIrq | register | callback =>
      dsimp only
      split_ifs <;> rfl
  | _ => rfl

theorem exists_main_step (answer : Answer) (h : (mainStep config answer s).isSome = true) :
    ∃ label t, step config label s = some t ∧ t.left < s.left := by
  obtain ⟨t, hstep⟩ := Option.isSome_iff_exists.mp h
  obtain ⟨hothers, hlt⟩ := mainStep_left hstep
  refine ⟨.main answer, t, hstep, ?_⟩
  unfold State.left
  rw [hothers.opening, hothers.files, hothers.handler, hothers.work]
  omega

/-! ## The files -/

theorem left_lt_of_file {i : ℕ} {file : FilePc} (file? : Option FilePc) (hothers : Others s t)
    (hmain : t.main = s.main) (hfile : s.files[i]? = some file)
    (hlt : file?.elim 0 FilePc.left < file.left) :
    State.left { t with files := advance s.files i file? } < s.left := by
  have hsum := sum_advance_lt FilePc.left hfile hlt
  unfold State.left
  rw [hmain, hothers.opening, hothers.handler, hothers.work]
  dsimp only
  omega

/-- A call waits only for the lock. -/
theorem callStep_go {pc : CallPc} (hgo : pc.reading = true ∨ s.main.writing = false) :
    ∃ pc? t, callStep .go s pc = some (pc?, t) ∧ Others s t ∧ t.main = s.main ∧
      pc?.elim 0 CallPc.left < pc.left := by
  cases pc with
  | enter poll =>
      have hwriting := hgo.resolve_left Bool.false_ne_true
      exact ⟨some .test, s.use [.device], by simp [callStep, hwriting], ⟨rfl, rfl, rfl, rfl⟩, rfl,
        Nat.lt_succ_self 4⟩
  | test =>
      refine ⟨_, _, rfl, ⟨rfl, rfl, rfl, rfl⟩, rfl, ?_⟩
      dsimp only [Option.elim_some]
      split_ifs <;> decide
  | body => exact ⟨_, _, rfl, ⟨rfl, rfl, rfl, rfl⟩, rfl, by decide⟩
  | retest => exact ⟨_, _, rfl, ⟨rfl, rfl, rfl, rfl⟩, rfl, Nat.one_lt_two⟩
  | leave gone => exact ⟨_, _, rfl, ⟨rfl, rfl, rfl, rfl⟩, rfl, Nat.one_pos⟩

theorem exists_call_step {i j : ℕ} {calls : List CallPc} {pc : CallPc}
    (hfile : s.files[i]? = some (.opened calls)) (hcall : calls[j]? = some pc)
    (hgo : pc.reading = true ∨ s.main.writing = false) :
    ∃ label t, step config label s = some t ∧ t.left < s.left := by
  obtain ⟨pc?, t, hstep, hothers, hmain, hlt⟩ := callStep_go hgo
  refine ⟨.callStep i j .go, { t with files := s.files.set i (.opened (advance calls j pc?)) },
    by simp [step, hfile, hcall, hstep], ?_⟩
  refine left_lt_of_file (some (.opened (advance calls j pc?))) hothers hmain hfile ?_
  exact Nat.add_lt_add_left (sum_advance_lt CallPc.left hcall hlt) 6

theorem releaseStep_go {pc : ReleasePc} (hgo : pc.reading = true ∨ s.main.writing = false) :
    ∃ pc? t, releaseStep false s pc = some (pc?, t) ∧ Others s t ∧ t.main = s.main ∧
      pc?.elim 0 ReleasePc.left < pc.left := by
  cases pc with
  | enter =>
      have hwriting := hgo.resolve_left Bool.false_ne_true
      exact ⟨some .test, s.use [.device], by simp [releaseStep, hwriting], ⟨rfl, rfl, rfl, rfl⟩, rfl,
        by decide⟩
  | test =>
      refine ⟨_, _, rfl, ⟨rfl, rfl, rfl, rfl⟩, rfl, ?_⟩
      dsimp only [Option.elim_some]
      split_ifs <;> decide
  | shm =>
      refine ⟨_, _, rfl, ?_, ?_, by decide⟩
      · split_ifs <;> exact ⟨rfl, rfl, rfl, rfl⟩
      · split_ifs <;> rfl
  | leave => exact ⟨_, _, rfl, ⟨rfl, rfl, rfl, rfl⟩, rfl, by decide⟩
  | put =>
      refine ⟨none, s.put, rfl, others_put s, ?_, by decide⟩
      unfold State.put State.destroy
      dsimp only
      split_ifs <;> rfl

theorem exists_file_step {file : FilePc} (hfile : file ∈ s.files)
    (hgo : file.reading = true ∨ s.main.writing = false) :
    ∃ label t, step config label s = some t ∧ t.left < s.left := by
  obtain ⟨i, hfile⟩ := List.mem_iff_getElem?.mp hfile
  cases file with
  | opened calls =>
      rcases hgo with hreading | hwriting
      · obtain ⟨pc, hpc, hreading⟩ := List.any_eq_true.mp hreading
        obtain ⟨j, hcall⟩ := List.mem_iff_getElem?.mp hpc
        exact exists_call_step hfile hcall (.inl hreading)
      · cases calls with
        | nil =>
            refine ⟨.close i, { s with files := s.files.set i (.releasing .enter) },
              by simp [step, hfile], ?_⟩
            exact left_lt_of_file (some (.releasing .enter)) ⟨rfl, rfl, rfl, rfl⟩ rfl hfile
              (by decide)
        | cons pc calls => exact exists_call_step hfile (j := 0) rfl (.inr hwriting)
  | releasing pc =>
      obtain ⟨pc?, t, hstep, hothers, hmain, hlt⟩ := releaseStep_go hgo
      refine ⟨.release i false, { t with files := advance s.files i (pc?.map .releasing) },
        by simp [step, hfile, hstep], left_lt_of_file _ hothers hmain hfile ?_⟩
      cases pc? with
      | none => exact hlt
      | some pc' => exact hlt

theorem exists_open_step {pc : OpenPc} (hopening : s.opening = some pc)
    (hgo : pc ≠ .lock ∨ s.main.inLifecycle = false) :
    ∃ label t, step config label s = some t ∧ t.left < s.left := by
  have left_lt : ∀ t, openStep s pc = some t → t.main = s.main → t.handler = s.handler →
      t.work = s.work → t.opening.elim 0 OpenPc.left + (t.files.map FilePc.left).sum <
        pc.left + (s.files.map FilePc.left).sum →
      ∃ label t, step config label s = some t ∧ t.left < s.left := by
    intro t hstep hmain hhandler hwork hlt
    refine ⟨.open, t, by simp [step, hopening, hstep], ?_⟩
    unfold State.left
    rw [hopening, hmain, hhandler, hwork, Option.elim_some]
    omega
  cases pc with
  | lock =>
      have hfree := hgo.resolve_left (fun h => h rfl)
      refine left_lt { s.use [.device] with opening := some .test } ?_ rfl rfl rfl ?_
      · simp [openStep, hfree]
      · simp [OpenPc.left]
  | test =>
      refine left_lt _ rfl rfl rfl rfl ?_
      dsimp only
      split_ifs <;> simp [OpenPc.left]
  | get => exact left_lt _ rfl rfl rfl rfl (by simp [OpenPc.left])
  | unlock ret =>
      refine left_lt _ rfl rfl rfl rfl ?_
      dsimp only
      split_ifs
      · simp only [OpenPc.left, FilePc.left, Option.elim_none, List.map_append, List.sum_append,
          List.map_cons, List.map_nil, List.sum_cons, List.sum_nil, State.use_files]
        omega
      · simp [OpenPc.left]

/-! ## Everything is given back -/

/-- The driver has left the device and nobody has it open. -/
def State.ended (s : State) : Prop := s.main.left = 0 ∧ s.files = []

theorem ended_or_step (config : Config) (s : State) :
    s.ended ∨ ∃ label t, step config label s = some t ∧ t.left < s.left := by
  by_cases hhandler : s.handler = true
  · refine .inr ⟨.handled, { s with handler := false }, by simp [step, hhandler], ?_⟩
    simp [State.left, hhandler]
  by_cases hwork : s.work = true
  · refine .inr ⟨.workDone, { s with work := false }, by simp [step, hwork], ?_⟩
    simp [State.left, hwork]
  rw [Bool.not_eq_true] at hhandler hwork
  let answer : Answer := ⟨0, true, ⟨true, true, true, true⟩⟩
  cases hopening : s.opening with
  | some pc =>
      refine .inr ?_
      by_cases hgo : pc ≠ .lock ∨ s.main.inLifecycle = false
      · exact exists_open_step hopening hgo
      · -- `mark_shutdown` has the lock and goes on.
        obtain ⟨-, hlocked⟩ := not_or.mp hgo
        apply exists_main_step answer
        unfold mainStep
        cases hmain : s.main with
        | teardown removal pc =>
            rw [hmain] at hlocked
            cases pc <;> first | rfl | exact absurd rfl hlocked
        | _ =>
            rw [hmain] at hlocked
            exact absurd rfl hlocked
  | none =>
      by_cases hunbound : s.main.left = 0
      · obtain ⟨ret, hmain⟩ := MainPc.unbound_of_left hunbound
        by_cases hfiles : s.files = []
        · exact .inl ⟨hunbound, hfiles⟩
        · obtain ⟨file, hfile⟩ := List.exists_mem_of_ne_nil _ hfiles
          exact .inr (exists_file_step hfile (.inr (by rw [hmain]; rfl)))
      by_cases hbound : s.main.left = 31
      · have hmain := MainPc.bound_of_left hbound
        refine .inr ⟨.remove, { s with main := .teardown true .lockLifecycle }, ?_, ?_⟩
        · simp [step, hmain]
        · simp [State.left, hmain, MainPc.left, TeardownPc.rank]
      by_cases hinside : s.main.left = 8 ∧ s.files.any FilePc.reading = true
      · obtain ⟨-, hreading⟩ := hinside
        obtain ⟨file, hfile, hreading⟩ := List.any_eq_true.mp hreading
        exact .inr (exists_file_step hfile (.inl hreading))
      · refine .inr (exists_main_step answer (mainStep_isSome answer hopening hwork hhandler hbound
          hunbound fun hleft => ?_))
        simpa using fun h => hinside ⟨hleft, h⟩

/-- Every run, wherever it has come to, can be continued until the driver has left the device, nobody
has it open and all of its memory is freed. -/
theorem can_end (h : Reachable (system config) s) :
    ∃ labels t, exec (step config) labels s = some t ∧ (∃ ret, t.main = .unbound ret) ∧
      t.files = [] ∧ ∀ part, t.memory part ≠ .live := by
  obtain ⟨labels, t, hexec, ht, hleft, hfiles⟩ :=
    h.exists_exec State.left fun s _ => ended_or_step config s
  obtain ⟨ret, hmain⟩ := MainPc.unbound_of_left hleft
  refine ⟨labels, t, hexec, ⟨ret, hmain⟩, hfiles, fun part hlive => ?_⟩
  exact (((left_of_unbound ht hmain).live part).mp hlive).1 hfiles

theorem can_end_openRun :
    ∃ s labels t, s.main = .bound ∧ exec (step plainConfig) labels s = some t ∧
      (∃ ret, t.main = .unbound ret) ∧ t.files = [] ∧ ∀ part, t.memory part ≠ .live := by
  have hrun : (exec (step plainConfig) (openRun.take 20) State.initial).map State.main =
      some .bound := by
    rfl
  obtain ⟨s, hexec, hs⟩ := Option.map_eq_some_iff.mp hrun
  obtain ⟨labels, t, ht⟩ := can_end (Reachable.exec (Reachable.start rfl) hexec)
  exact ⟨s, labels, t, hs, ht⟩

end Sg200x.Ipc.Lifecycle
