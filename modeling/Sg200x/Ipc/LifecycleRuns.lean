import Sg200x.Ipc.LifecycleFacts

/-!
# Nothing is used after it is gone

Each step keeps the invariant of the device's life, and so every run does.
-/

namespace Sg200x.Ipc.Lifecycle

open Library Library.Transition

variable {s t : State} {config : Config}

theorem FilePc.reading_of_inside (file : FilePc) (h : file.inside = true) :
    file.reading = true := by
  cases file with
  | opened calls =>
      simp only [inside, List.any_eq_true] at h
      obtain ⟨pc, hpc, hinside⟩ := h
      refine List.any_eq_true.mpr ⟨pc, hpc, ?_⟩
      cases pc <;> first | rfl | cases hinside
  | releasing pc =>
      obtain rfl : pc = .shm := by simpa [inside] using h
      rfl

theorem Inv.at (h : Inv s) {m : MainPc} (hmain : s.main = m) : Inv { s with main := m } := by
  rw [← hmain]
  exact h

theorem Inv.use_device (h : Inv s) (href : 0 < s.refcount) : s.use [.device] = s :=
  State.use_eq (by simpa using h.device href)

theorem Inv.opening_none (h : Inv s) (hmisc : s.misc = false) : s.opening = none := by
  have hnot : ¬ s.opening.isSome = true := fun hopening => by
    rw [h.opening hopening] at hmisc
    cases hmisc
  simpa using hnot

/-! ## The driver -/

/-- The driver gives its reference back after it has stopped everything that needs it. -/
theorem Inv.put_main (h : Inv s) (hmain : s.main.hasReference = true) (hirq : s.irq = false)
    (hmisc : s.misc = false) (hdrvdata : s.drvdata = false) (hcmdqu : s.cmdqu = false)
    (hattached : s.main.attached = true) (hflagged : s.files ≠ [] → s.shuttingDown = true)
    (hcompleted : s.shm = true → s.shmComplete = true ∨ s.refcount = 1)
    (hidle : s.work = false ∧ s.workPending = false)
    (hpast : ∀ file ∈ s.files, file.inside = false) {ret : ℤ} :
    Inv { s.put with main := .devres ret } := by
  have hput := h.put (h.pos_of_reference hmain) (fun _ => hidle) fun _ hshm _ =>
    h.region hattached hshm
  have hopening := h.opening_none hmisc
  have hreferences : s.refcount - 1 = s.files.length := by
    rw [h.references, State.references, hmain, hopening]
    simp
  generalize s.put = t at hput
  rw [hput.frame]
  exact
    { faultless := h.faultless
      references := by
        rw [State.references, hreferences]
        simp [MainPc.hasReference, hopening]
      live := hput.live
      bare := fun h => Bool.noConfusion h
      registers := fun h => Bool.noConfusion h
      region := fun _ hshm => hput.region.trans (h.region hattached hshm)
      unmapped := fun h => Bool.noConfusion h
      irq := hirq
      misc := hmisc
      drvdata := hdrvdata
      cmdqu := hcmdqu
      handler := fun hhandler => h.handler hhandler
      opening := fun hsome => h.opening hsome
      files := fun h => Bool.noConfusion h
      flagged := fun _ hseen => hflagged (hseen.resolve_left fun h => by simp [hmisc] at h)
      cancelling := fun h => Bool.noConfusion h
      completed := fun _ hshm => hput.completed hshm (hcompleted hshm)
      work := fun hwork => by
        obtain ⟨hpending, -⟩ := hput.work hwork
        rw [hidle.1, ← hpending, hidle.2] at hwork
        simp at hwork
      writing := fun h => Bool.noConfusion h
      past := fun _ => hpast }

theorem Inv.teardownStep {removal : Bool} {answer : Answer} {pc : TeardownPc} (h : Inv s)
    (hmain : s.main = .teardown removal pc) (hstep : teardownStep removal answer s pc = some t) :
    Inv t := by
  have href : 0 < s.refcount := h.pos_of_reference (by rw [hmain]; rfl)
  have hdevice := h.use_device href
  have h' := h.at hmain
  cases pc with
  | lockLifecycle =>
      simp only [Lifecycle.teardownStep, hdevice] at hstep
      split_ifs at hstep
      obtain rfl := Option.some.inj hstep
      exact { h' with }
  | setFlag =>
      simp only [Lifecycle.teardownStep, hdevice] at hstep
      obtain rfl := Option.some.inj hstep
      exact { h' with flagged := fun _ _ => rfl }
  | unlockLifecycle =>
      simp only [Lifecycle.teardownStep, hdevice] at hstep
      obtain rfl := Option.some.inj hstep
      exact { h' with }
  | deregister =>
      simp only [Lifecycle.teardownStep, hdevice] at hstep
      split_ifs at hstep with hopening
      obtain rfl := Option.some.inj hstep
      exact { h' with
        misc := rfl
        opening := fun h => absurd h hopening
        flagged := fun _ _ => h'.flagged rfl (.inl h'.misc) }
  | setShmFlag =>
      simp only [Lifecycle.teardownStep, hdevice] at hstep
      split_ifs at hstep with hshm
      · have huse : s.use [.device, .transport] = s :=
          State.use_eq (by simpa using ⟨h.device href, h.shmLive href hshm (by decide)⟩)
        rw [huse] at hstep
        obtain rfl := Option.some.inj hstep
        exact { h' with cancelling := fun _ => hshm }
      · obtain rfl := Option.some.inj hstep
        exact { h' with completed := fun _ hshm' => absurd hshm' hshm }
  | cancelWork =>
      have hshm : s.shm = true := h'.cancelling rfl
      have huse : s.use [.transport, .region] = s :=
        State.use_eq (by simpa using ⟨h.shmLive href hshm (by decide), h'.region rfl hshm⟩)
      simp only [Lifecycle.teardownStep, huse] at hstep
      split_ifs at hstep with hwork
      obtain rfl := Option.some.inj hstep
      exact { h' with
        cancelling := fun h => Bool.noConfusion h
        completed := fun _ _ => rfl
        work := fun h => by simp [hwork] at h }
  | abortWaiters =>
      obtain rfl := Option.some.inj hstep
      exact { h' with }
  | downWrite =>
      simp only [Lifecycle.teardownStep, hdevice] at hstep
      by_cases hreading : s.files.any FilePc.reading = true
      · rw [if_pos hreading] at hstep
        cases hstep
      rw [if_neg hreading] at hstep
      obtain rfl := Option.some.inj hstep
      have hnone : ∀ file ∈ s.files, file.reading = false := by simpa using hreading
      -- Who is inside has the lock.
      have hinside : ∀ file ∈ s.files, file.inside = false := by
        intro file hfile
        have hnot : ¬ file.inside = true := fun hinside => by
          have hreading := hnone file hfile
          rw [file.reading_of_inside hinside] at hreading
          cases hreading
        simpa using hnot
      cases removal with
      | true => exact { h' with writing := fun _ => hnone, past := fun _ => hinside }
      | false => exact { h' with writing := fun _ => hnone, past := fun _ => hinside }
  | rmCallback =>
      obtain rfl := Option.some.inj hstep
      exact { h' with }
  | freeIrq =>
      simp only [Lifecycle.teardownStep] at hstep
      split_ifs at hstep with hhandler
      obtain rfl := Option.some.inj hstep
      exact { h' with
        irq := rfl
        handler := fun h => absurd h hhandler }
  | clearDrvdata =>
      obtain rfl := Option.some.inj hstep
      exact { h' with drvdata := rfl }
  | deinit =>
      obtain rfl := Option.some.inj hstep
      exact { h' with cmdqu := rfl }
  | upWrite =>
      simp only [Lifecycle.teardownStep, hdevice] at hstep
      obtain rfl := Option.some.inj hstep
      exact { h' with writing := fun h => Bool.noConfusion h }
  | put =>
      obtain rfl := Option.some.inj hstep
      exact h.put_main (by rw [hmain]; rfl) h'.irq h'.misc h'.drvdata h'.cmdqu (by rw [hmain]; rfl)
        (fun hne => h'.flagged rfl (.inr hne)) (fun hshm => .inl (h'.completed rfl hshm)) (h.idle (h'.completed rfl))
        (h'.past rfl)

/-- What `create` leaves: a transport, or nothing but perhaps the mapping of its region. -/
structure Created (s : State) (ret : ℤ) (t : State) : Prop where
  frame : t = { s with memory := t.memory, shm := t.shm }
  shm : t.shm = true ↔ ret = 0
  live : ∀ part, part.counted →
    (t.memory part = .live ↔ 0 < s.refcount ∧ (part = .device ∨ t.shm = true))
  registers : t.memory .registers = s.memory .registers
  region : t.shm = true → t.memory .region = .live

theorem Inv.created (h : Inv s) (href : 0 < s.refcount) (hshm : s.shm = false) (start size : ℕ)
    (allocations : Allocations) :
    Created s (create start size allocations s).1 (create start size allocations s).2 := by
  have hdevice := h.device href
  have hdead : ∀ part, part.counted = true → part ≠ .device → s.memory part ≠ .live := by
    intro part hcounted hne hlive
    have hshm' := ((h.live part hcounted).mp hlive).2.resolve_left hne
    rw [hshm] at hshm'
    cases hshm'
  have htransport := hdead .transport rfl (by decide)
  have htx := hdead .txBatch rfl (by decide)
  have hrx := hdead .rxBatch rfl (by decide)
  -- Nothing is left of a creation that fails, but for the mapping.
  have failed : ∀ {ret : ℤ} {t : State}, ret ≠ 0 → t = { s with memory := t.memory } →
      t.memory .device = .live → (∀ part ∈ shmParts, t.memory part ≠ .live) →
      t.memory .registers = s.memory .registers → Created s ret t := by
    intro ret t hret ht hlive hgone hregisters
    have htshm : t.shm = false := by rw [ht, hshm]
    refine ⟨by rw [ht], ?_, ?_, hregisters, ?_⟩
    · rw [htshm]
      exact iff_of_false Bool.false_ne_true hret
    · intro part hpart
      rw [htshm]
      cases part with
      | device => simp [hlive, href]
      | transport => simpa using hgone .transport (by decide)
      | txBatch => simpa using hgone .txBatch (by decide)
      | rxBatch => simpa using hgone .rxBatch (by decide)
      | registers | region => cases hpart
    · rw [htshm]
      exact fun h => Bool.noConfusion h
  unfold create
  split_ifs with hinvalid hnoTransport hnoRegion hnoTx hnoRx
  · refine failed (show -einval ≠ 0 by decide) rfl hdevice ?_ rfl
    simp [shmParts, htransport, htx, hrx]
  · refine failed (show -enomem ≠ 0 by decide) rfl hdevice ?_ rfl
    simp [shmParts, htransport, htx, hrx]
  · refine failed (show -enomem ≠ 0 by decide) ?_ ?_ ?_ ?_ <;>
      simp [State.acquire, State.release, State.use, shmParts, hdevice, htx, hrx]
  · refine failed (show -enomem ≠ 0 by decide) ?_ ?_ ?_ ?_ <;>
      simp [State.acquire, State.release, State.use, shmParts, hdevice, htx, hrx]
  · refine failed (show -enomem ≠ 0 by decide) ?_ ?_ ?_ ?_ <;>
      simp [State.acquire, State.release, State.use, shmParts, hdevice, hrx]
  · refine ⟨rfl, by simp, ?_, rfl, fun _ => rfl⟩
    intro part hpart
    cases part with
    | device => simp [State.acquire, hdevice, href]
    | transport | txBatch | rxBatch => simp [State.acquire, href]
    | registers | region => cases hpart

theorem Inv.sharedStep {answer : Answer} (h : Inv s) (hmain : s.main = .shared) :
    Inv (sharedStep config answer s) := by
  have href := h.pos_of_reference (by rw [hmain]; rfl)
  have h' := h.at hmain
  have hshm : s.shm = false := h'.bare rfl
  unfold Lifecycle.sharedStep
  split
  · exact { h' with
      bare := fun h => Bool.noConfusion h
      registers := fun h => Bool.noConfusion h }
  · exact { h' with bare := fun h => Bool.noConfusion h }
  · rename_i start size _
    split_ifs with hsize
    · exact { h' with bare := fun h => Bool.noConfusion h }
    · have hcreated := h.created href hshm start size answer.shm
      dsimp only
      generalize create start size answer.shm s = result at hcreated
      obtain ⟨ret, t⟩ := result
      dsimp only at hcreated ⊢
      rw [hcreated.frame]
      split_ifs with hret
      · exact { h' with
          live := hcreated.live
          bare := fun h => Bool.noConfusion h
          registers := fun _ => hcreated.registers.trans (h'.registers rfl)
          region := fun _ hshm => hcreated.region hshm
          unmapped := fun h => Bool.noConfusion h
          completed := fun h => Bool.noConfusion h
          cancelling := fun h => Bool.noConfusion h
          work := fun h => Bool.noConfusion (h'.work h).1 }
      · exact { h' with
          live := hcreated.live
          bare := fun h => Bool.noConfusion h
          registers := fun h => Bool.noConfusion h
          region := fun _ hshm => hcreated.region hshm
          unmapped := fun h => Bool.noConfusion h
          completed := fun h => Bool.noConfusion h
          cancelling := fun h => Bool.noConfusion h
          work := fun h => Bool.noConfusion (h'.work h).1 }

theorem Inv.mainStep {answer : Answer} (h : Inv s) (hstep : mainStep config answer s = some t) :
    Inv t := by
  unfold Lifecycle.mainStep at hstep
  cases hmain : s.main with
  | alloc =>
      rw [hmain] at hstep
      dsimp only at hstep
      have h' := h.at hmain
      have hfiles : s.files = [] := h'.files rfl
      have hopening := h.opening_none h'.misc
      have hshm : s.shm = false := h'.bare rfl
      split_ifs at hstep
      · have hzero : s.refcount = 0 := by
          rw [h.references, State.references, hmain, hfiles, hopening]
          rfl
        obtain rfl := Option.some.inj hstep
        exact { h' with
          references := by
            simp [State.references, State.acquire, hfiles, hopening, MainPc.hasReference]
          live := fun part hpart => by
            by_cases hdevice : part = .device
            · simp [hdevice, State.acquire]
            · have hdead := h.live part hpart
              simp only [hzero, Nat.lt_irrefl, false_and, iff_false] at hdead
              simp [State.acquire, hdevice, hdead, hshm]
          registers := fun h => Bool.noConfusion h
          region := fun _ hshm' => absurd (hshm.symm.trans hshm') Bool.false_ne_true
          unmapped := fun h => Bool.noConfusion h }
      · obtain rfl := Option.some.inj hstep
        exact { h' with
          bare := fun h => Bool.noConfusion h
          files := fun h => Bool.noConfusion h
          flagged := fun _ hseen => absurd hfiles
            (hseen.resolve_left fun h => Bool.noConfusion (h'.misc.symm.trans h))
          completed := fun _ hshm' => absurd (hshm.symm.trans hshm') Bool.false_ne_true
          work := fun h => Bool.noConfusion (h'.work h).1
          past := fun _ => by simp [hfiles] }
  | resource =>
      rw [hmain] at hstep
      obtain rfl := Option.some.inj hstep
      have h' := h.at hmain
      cases hregisters : config.hasRegisters with
      | true => exact { h' with }
      | false => exact { h' with bare := fun h => Bool.noConfusion h }
  | mapRegisters =>
      rw [hmain] at hstep
      dsimp only at hstep
      have h' := h.at hmain
      split_ifs at hstep
      · obtain rfl := Option.some.inj hstep
        exact { h' with
          live := fun part hpart => by
            refine Iff.trans ?_ (h.live part hpart)
            cases part <;> first | rfl | cases hpart
          registers := fun _ => by simp [State.acquire]
          region := fun _ hshm => h'.region rfl hshm
          unmapped := fun h => Bool.noConfusion h }
      · obtain rfl := Option.some.inj hstep
        exact { h' with bare := fun h => Bool.noConfusion h }
  | shared =>
      rw [hmain] at hstep
      obtain rfl := Option.some.inj hstep
      rw [h.use_device (h.pos_of_reference (by rw [hmain]; rfl))]
      exact h.sharedStep hmain
  | getIrq =>
      rw [hmain] at hstep
      obtain rfl := Option.some.inj hstep
      have h' := h.at hmain
      split_ifs
      · exact { h' with registers := fun h => Bool.noConfusion h }
      · exact { h' with }
  | init =>
      rw [hmain] at hstep
      obtain rfl := Option.some.inj hstep
      have h' := h.at hmain
      exact { h' with drvdata := rfl, cmdqu := rfl }
  | requestIrq =>
      rw [hmain] at hstep
      dsimp only at hstep
      have h' := h.at hmain
      split_ifs at hstep
      · obtain rfl := Option.some.inj hstep
        exact { h' with }
      · obtain rfl := Option.some.inj hstep
        exact { h' with irq := rfl, handler := fun _ => rfl }
  | register =>
      rw [hmain] at hstep
      dsimp only at hstep
      rw [h.use_device (h.pos_of_reference (by rw [hmain]; rfl))] at hstep
      have h' := h.at hmain
      split_ifs at hstep
      · obtain rfl := Option.some.inj hstep
        exact { h' with }
      · obtain rfl := Option.some.inj hstep
        exact { h' with
          misc := rfl
          opening := fun _ => rfl
          flagged := fun h => Bool.noConfusion h
          files := fun h => Bool.noConfusion h
          work := fun h => ⟨rfl, (h'.work h).2⟩ }
  | callback =>
      rw [hmain] at hstep
      dsimp only at hstep
      have h' := h.at hmain
      split_ifs at hstep
      · obtain rfl := Option.some.inj hstep
        exact { h' with }
      · obtain rfl := Option.some.inj hstep
        exact { h' with }
  | bound =>
      rw [hmain] at hstep
      cases hstep
  | errIrq ret =>
      rw [hmain] at hstep
      dsimp only at hstep
      have h' := h.at hmain
      split_ifs at hstep with hhandler
      obtain rfl := Option.some.inj hstep
      exact { h' with irq := rfl, handler := fun h => absurd h hhandler }
  | errDeinit ret =>
      rw [hmain] at hstep
      obtain rfl := Option.some.inj hstep
      have h' := h.at hmain
      exact { h' with
        drvdata := rfl
        cmdqu := rfl
        registers := fun h => Bool.noConfusion h }
  | errPut ret =>
      rw [hmain] at hstep
      obtain rfl := Option.some.inj hstep
      have h' := h.at hmain
      have hfiles : s.files = [] := h'.files rfl
      have hone : s.refcount = 1 := by
        rw [h.references, State.references, hmain, hfiles, h.opening_none h'.misc]
        rfl
      have hidle : ¬ (s.work = true ∨ s.workPending = true) :=
        fun hwork => Bool.noConfusion (h'.work hwork).1
      exact h.put_main (by rw [hmain]; rfl) h'.irq h'.misc h'.drvdata h'.cmdqu (by rw [hmain]; rfl)
        (fun hne => absurd hfiles hne) (fun _ => .inr hone) (by simpa using hidle) (by simp [hfiles])
  | teardown removal pc =>
      rw [hmain] at hstep
      exact h.teardownStep hmain hstep
  | devres ret =>
      rw [hmain] at hstep
      obtain rfl := Option.some.inj hstep
      have h' := h.at hmain
      exact { h' with
        live := fun part hpart => by
          refine Iff.trans ?_ (h.live part hpart)
          cases part <;> first | rfl | cases hpart
        registers := fun h => Bool.noConfusion h
        region := fun h => Bool.noConfusion h
        unmapped := fun _ => by simp }
  | unbound ret =>
      rw [hmain] at hstep
      cases hstep

/-! ## The files -/

theorem Inv.flagged_of_past (h : Inv s) (hfiles : s.files ≠ [])
    (hup : s.shuttingDown = false) : s.main.past = false := by
  have hflagged : ¬ s.main.flagged = true := by
    intro hflagged
    rw [h.flagged hflagged (.inr hfiles)] at hup
    cases hup
  cases hmain : s.main with
  | teardown removal pc =>
      rw [hmain] at hflagged
      cases pc <;> first | rfl | exact absurd rfl hflagged
  | devres ret | unbound ret =>
      rw [hmain] at hflagged
      exact absurd rfl hflagged
  | _ => rfl

theorem Inv.isOpen_of_misc (h : Inv s) (hmisc : s.misc = true) : s.main.isOpen = true := by
  rw [h.misc] at hmisc
  cases hmain : s.main <;> rw [hmain] at hmisc <;> first | rfl | cases hmisc

/-- A file goes on to something that it may do. -/
theorem Inv.set_file (h : Inv s) {i : ℕ} {file file' : FilePc} (hfile : s.files[i]? = some file)
    (hreading : s.main.writing = true → file.reading = false → file'.reading = false)
    (hinside : s.main.past = true → file.inside = false → file'.inside = false) :
    Inv { s with files := s.files.set i file' } := by
  have hmem := List.mem_of_getElem? hfile
  have hne : s.files ≠ [] := List.ne_nil_of_mem hmem
  exact { h with
    references := by
      rw [h.references, State.references, State.references, List.length_set]
    files := fun hopen => absurd (h.files hopen) hne
    flagged := fun hflagged _ => h.flagged hflagged (.inr hne)
    writing := fun hwriting other hother => by
      rcases List.mem_or_eq_of_mem_set hother with hold | rfl
      · exact h.writing hwriting other hold
      · exact hreading hwriting (h.writing hwriting file hmem)
    past := fun hpast other hother => by
      rcases List.mem_or_eq_of_mem_set hother with hold | rfl
      · exact h.past hpast other hold
      · exact hinside hpast (h.past hpast file hmem) }

theorem Inv.openStep {pc : OpenPc} (h : Inv s) (hopening : s.opening = some pc)
    (hstep : openStep s pc = some t) : Inv t := by
  have hmisc : s.misc = true := h.opening (by rw [hopening]; rfl)
  have href : 0 < s.refcount := h.pos_of_reference (h.reference_of_misc hmisc)
  have hdevice := h.use_device href
  have hreferences := h.references
  simp only [State.references, hopening] at hreferences
  cases pc with
  | lock =>
      simp only [Lifecycle.openStep, hdevice] at hstep
      split_ifs at hstep
      obtain rfl := Option.some.inj hstep
      exact { h with references := hreferences, opening := fun _ => hmisc }
  | test =>
      simp only [Lifecycle.openStep, hdevice] at hstep
      obtain rfl := Option.some.inj hstep
      refine { h with references := ?_, opening := fun _ => hmisc }
      cases hdown : s.shuttingDown <;>
        simpa [State.references, OpenPc.hasReference, enodev] using hreferences
  | get =>
      simp only [Lifecycle.openStep, hdevice] at hstep
      obtain rfl := Option.some.inj hstep
      exact { h with
        references := by
          simp only [State.references, Option.any_some, OpenPc.hasReference] at hreferences ⊢
          simp only [decide_true, Bool.toNat_true, Bool.toNat_false] at hreferences ⊢
          omega
        live := fun part hpart => by
          refine (h.live part hpart).trans ?_
          simp [href]
        opening := fun _ => hmisc }
  | unlock ret =>
      simp only [Lifecycle.openStep, hdevice] at hstep
      obtain rfl := Option.some.inj hstep
      by_cases hret : ret = 0
      · have hfiles : (if ret = 0 then s.files ++ [FilePc.opened []] else s.files) =
            s.files ++ [.opened []] := if_pos hret
        rw [hfiles]
        exact { h with
          references := by
            simp only [State.references, Option.any_some, OpenPc.hasReference, hret, Option.any_none,
              List.length_append, List.length_singleton, decide_true, Bool.toNat_true,
              Bool.toNat_false] at hreferences ⊢
            omega
          opening := fun h => by cases h
          files := fun hopen => Bool.noConfusion (hopen.symm.trans (h.isOpen_of_misc hmisc))
          flagged := fun hflagged _ => h.flagged hflagged (.inl hmisc)
          writing := fun hwriting file hfile => by
            rcases List.mem_append.mp hfile with hold | hnew
            · exact h.writing hwriting file hold
            · obtain rfl := List.mem_singleton.mp hnew
              rfl
          past := fun hpast file hfile => by
            rcases List.mem_append.mp hfile with hold | hnew
            · exact h.past hpast file hold
            · obtain rfl := List.mem_singleton.mp hnew
              rfl }
      · rw [if_neg hret]
        exact { h with
          references := by
            simpa [State.references, OpenPc.hasReference, hret] using hreferences
          opening := fun h => by cases h }

/-- What a file can use while it is inside. -/
theorem Inv.inside_live (h : Inv s) {file : FilePc} (hfile : file ∈ s.files)
    (hinside : file.inside = true) :
    s.memory .registers = .live ∧ (s.shm = true → s.memory .region = .live) := by
  have hpast : s.main.past = false := by
    have hnot : ¬ s.main.past = true := fun hpast => by
      rw [h.past hpast file hfile] at hinside
      cases hinside
    simpa using hnot
  obtain ⟨hmapped, hattached⟩ := h.mapped_of_file (List.ne_nil_of_mem hfile) hpast
  exact ⟨h.registers hmapped, h.region hattached⟩

theorem any_set {p : CallPc → Bool} {calls : List CallPc} {j : ℕ} {pc : CallPc}
    (hcalls : calls.any p = false) (hpc : p pc = false) : (calls.set j pc).any p = false := by
  rw [List.any_eq_false] at hcalls ⊢
  intro other hother
  rcases List.mem_or_eq_of_mem_set hother with hold | rfl
  · exact hcalls other hold
  · simpa using hpc

theorem any_eraseIdx {p : CallPc → Bool} {calls : List CallPc} {j : ℕ}
    (hcalls : calls.any p = false) : (calls.eraseIdx j).any p = false := by
  rw [List.any_eq_false] at hcalls ⊢
  exact fun other hother => hcalls other (List.mem_of_mem_eraseIdx hother)

/-- A call goes on to something that it may do. -/
theorem Inv.set_call (h : Inv s) {i j : ℕ} {calls : List CallPc} {pc pc' : CallPc}
    (hfile : s.files[i]? = some (.opened calls)) (hcall : calls[j]? = some pc)
    (hreading : s.main.writing = true → pc.reading = false → pc'.reading = false)
    (hinside : s.main.past = true → pc.inside = false → pc'.inside = false) :
    Inv { s with files := s.files.set i (.opened (calls.set j pc')) } := by
  have hmem := List.mem_of_getElem? hcall
  refine h.set_file hfile (fun hwriting hnone => ?_) (fun hpast hnone => ?_)
  · have hpc : pc.reading = false := by simpa using List.any_eq_false.mp hnone pc hmem
    exact any_set hnone (hreading hwriting hpc)
  · have hpc : pc.inside = false := by simpa using List.any_eq_false.mp hnone pc hmem
    exact any_set hnone (hinside hpast hpc)

theorem Inv.bodyAccess (h : Inv s) {file : FilePc} (hfile : file ∈ s.files)
    (hinside : file.inside = true) (access : Access) :
    ∃ pending, bodyAccess access s = { s with workPending := pending } ∧
      Inv { s with workPending := pending } := by
  have hne := List.ne_nil_of_mem hfile
  have href := h.pos_of_file hne
  obtain ⟨hregisters, hregion⟩ := h.inside_live hfile hinside
  have huse : s.use (.device :: if access.registers then [.registers] else []) = s := by
    refine State.use_eq fun part hpart => ?_
    rcases List.mem_cons.mp hpart with rfl | hpart
    · exact h.device href
    · split_ifs at hpart
      · obtain rfl := List.mem_singleton.mp hpart
        exact hregisters
      · cases hpart
  unfold Lifecycle.bodyAccess
  simp only [huse]
  split_ifs with hshm
  · have huse : s.use (.region :: shmParts) = s := by
      refine State.use_eq fun part hpart => ?_
      rcases List.mem_cons.mp hpart with rfl | hpart
      · exact hregion hshm.2
      · exact h.shmLive href hshm.2 hpart
    rw [huse]
    refine ⟨_, rfl, { h with work := fun hwork => ?_ }⟩
    rcases hwork with hwork | hpending
    · exact h.work (.inl hwork)
    · simp only [Bool.or_eq_true, Bool.and_eq_true, Bool.not_eq_true'] at hpending
      rcases hpending with hpending | ⟨-, hcomplete⟩
      · exact h.work (.inr hpending)
      · have hopen : s.main.isOpen = true := by
          have hnot : ¬ s.main.isOpen = false := fun hopen => hne (h.files hopen)
          simpa using hnot
        exact ⟨hopen, hshm.2, hcomplete⟩
  · exact ⟨s.workPending, rfl, h⟩

/-- What a step of a call does to the call and to the device. -/
theorem Inv.callStep (h : Inv s) {i j : ℕ} {calls : List CallPc} {pc : CallPc} {choice : Choice}
    {pc? : Option CallPc} (hfile : s.files[i]? = some (.opened calls)) (hcall : calls[j]? = some pc)
    (hstep : callStep choice s pc = some (pc?, t)) :
    Inv { t with files := s.files.set i (.opened (advance calls j pc?)) } := by
  have hne := List.ne_nil_of_mem (List.mem_of_getElem? hfile)
  have hdevice := h.use_device (h.pos_of_file hne)
  have hleft : Inv { s with files := s.files.set i (.opened (calls.eraseIdx j)) } :=
    h.set_file hfile (fun _ => any_eraseIdx) (fun _ => any_eraseIdx)
  cases pc with
  | enter poll =>
      have henter : Lifecycle.callStep choice s (.enter poll) = some (none, s) ∨
          s.main.writing = false ∧
            Lifecycle.callStep choice s (.enter poll) = some (some .test, s) ∨
          Lifecycle.callStep choice s (.enter poll) = none := by
        simp only [Lifecycle.callStep, hdevice]
        cases hwriting : s.main.writing <;> cases choice <;> cases poll <;> simp
      rcases henter with hkilled | ⟨hwriting, hentered⟩ | hwaits
      · obtain ⟨rfl, rfl⟩ := Prod.mk.inj (Option.some.inj (hkilled.symm.trans hstep))
        exact hleft
      · obtain ⟨rfl, rfl⟩ := Prod.mk.inj (Option.some.inj (hentered.symm.trans hstep))
        refine h.set_call hfile hcall (fun hwriting' => ?_) (fun _ _ => rfl)
        rw [hwriting] at hwriting'
        cases hwriting'
      · rw [hwaits] at hstep
        cases hstep
  | test =>
      simp only [Lifecycle.callStep, hdevice] at hstep
      obtain ⟨rfl, rfl⟩ := Prod.mk.inj (Option.some.inj hstep)
      refine h.set_call hfile hcall (fun _ h => Bool.noConfusion h) (fun hpast _ => ?_)
      -- Who has come past the driver finds the flag set.
      cases hdown : s.shuttingDown with
      | false =>
          rw [h.flagged_of_past hne hdown] at hpast
          cases hpast
      | true => rfl
  | body =>
      cases choice with
      | access access =>
          obtain ⟨rfl, rfl⟩ := Prod.mk.inj (Option.some.inj hstep)
          have hinside : (FilePc.opened calls).inside = true :=
            List.any_eq_true.mpr ⟨.body, List.mem_of_getElem? hcall, rfl⟩
          obtain ⟨pending, haccess, hinv⟩ :=
            h.bodyAccess (List.mem_of_getElem? hfile) hinside access
          rw [haccess]
          exact hinv.set_call hfile hcall (fun _ h => h) (fun _ h => h)
      | kill | go =>
          obtain ⟨rfl, rfl⟩ := Prod.mk.inj (Option.some.inj hstep)
          exact h.set_call hfile hcall (fun _ h => Bool.noConfusion h) (fun _ _ => rfl)
  | retest =>
      simp only [Lifecycle.callStep, hdevice] at hstep
      obtain ⟨rfl, rfl⟩ := Prod.mk.inj (Option.some.inj hstep)
      exact h.set_call hfile hcall (fun _ h => Bool.noConfusion h) (fun _ _ => rfl)
  | leave gone =>
      simp only [Lifecycle.callStep, hdevice] at hstep
      obtain ⟨rfl, rfl⟩ := Prod.mk.inj (Option.some.inj hstep)
      exact hleft

/-- The last file frees the device, if the driver has left it. -/
theorem Inv.put_file (h : Inv s) {i : ℕ} {file : FilePc} (hfile : s.files[i]? = some file) :
    Inv { s.put with files := s.files.eraseIdx i } := by
  have hlt : i < s.files.length := by
    obtain ⟨hlt, -⟩ := List.getElem?_eq_some_iff.mp hfile
    exact hlt
  have hne := List.ne_nil_of_mem (List.mem_of_getElem? hfile)
  have hopen : ¬ s.main.isOpen = false := fun hopen => hne (h.files hopen)
  have hlast : s.refcount = 1 → s.main.cancelled = true := by
    intro hone
    rw [h.references, State.references] at hone
    have hreference : s.main.hasReference.toNat = 0 := by omega
    cases hmain : s.main <;> rw [hmain] at hreference hopen <;>
      first | exact absurd rfl hopen | rfl | cases hreference
  have hput := h.put (h.pos_of_file hne) (fun hone => h.idle (h.completed (hlast hone)))
    fun hone hshm hcomplete => by
      rw [h.completed (hlast hone) hshm] at hcomplete
      cases hcomplete
  have hreferences : s.refcount - 1 = s.main.hasReference.toNat +
      (s.opening.any OpenPc.hasReference).toNat + (s.files.eraseIdx i).length := by
    rw [h.references, State.references, List.length_eraseIdx_of_lt hlt]
    omega
  generalize s.put = t at hput
  rw [hput.frame]
  exact { h with
    references := hreferences
    live := hput.live
    registers := fun hmapped => hput.registers.trans (h.registers hmapped)
    region := fun hattached hshm => hput.region.trans (h.region hattached hshm)
    unmapped := fun hattached => by
      rw [hput.registers, hput.region]
      exact h.unmapped hattached
    files := fun hopen' => absurd hopen' hopen
    flagged := fun hflagged _ => h.flagged hflagged (.inr hne)
    completed := fun hcancelled hshm => hput.completed hshm (.inl (h.completed hcancelled hshm))
    work := fun hwork => by
      obtain ⟨hpending, hcomplete⟩ := hput.work hwork
      rw [hcomplete]
      exact h.work (by rwa [hpending])
    writing := fun hwriting file hfile =>
      h.writing hwriting file (List.mem_of_mem_eraseIdx hfile)
    past := fun hpast file hfile => h.past hpast file (List.mem_of_mem_eraseIdx hfile) }

theorem Inv.releaseStep (h : Inv s) {i : ℕ} {pc : ReleasePc} {owner : Bool}
    {pc? : Option ReleasePc} (hfile : s.files[i]? = some (.releasing pc))
    (hstep : releaseStep owner s pc = some (pc?, t)) :
    Inv { t with files := advance s.files i (pc?.map .releasing) } := by
  have hmem := List.mem_of_getElem? hfile
  have hne := List.ne_nil_of_mem hmem
  have href := h.pos_of_file hne
  have hdevice := h.use_device href
  cases pc with
  | enter =>
      simp only [Lifecycle.releaseStep, hdevice] at hstep
      split_ifs at hstep with hwriting
      obtain ⟨rfl, rfl⟩ := Prod.mk.inj (Option.some.inj hstep)
      exact h.set_file hfile (fun hwriting' => absurd hwriting' hwriting) (fun _ _ => rfl)
  | test =>
      simp only [Lifecycle.releaseStep, hdevice] at hstep
      obtain ⟨rfl, rfl⟩ := Prod.mk.inj (Option.some.inj hstep)
      refine h.set_file hfile (fun _ h => Bool.noConfusion h) (fun hpast _ => ?_)
      cases hdown : s.shuttingDown with
      | false =>
          rw [h.flagged_of_past hne hdown] at hpast
          cases hpast
      | true => rfl
  | shm =>
      obtain ⟨-, hregion⟩ := h.inside_live hmem rfl
      have huse : (if s.shm = true then
          if owner = true ∧ s.shmShuttingDown = false then s.use [.device, .transport, .region]
          else s.use [.device, .transport]
        else s.use [.device]) = s := by
        split_ifs with hshm
        · refine State.use_eq ?_
          simpa using ⟨h.device href, h.shmLive href hshm (by decide), hregion hshm⟩
        · refine State.use_eq ?_
          simpa using ⟨h.device href, h.shmLive href hshm (by decide)⟩
        · exact hdevice
      simp only [Lifecycle.releaseStep, huse] at hstep
      obtain ⟨rfl, rfl⟩ := Prod.mk.inj (Option.some.inj hstep)
      exact h.set_file hfile (fun _ h => Bool.noConfusion h) (fun _ _ => rfl)
  | leave =>
      simp only [Lifecycle.releaseStep, hdevice] at hstep
      obtain ⟨rfl, rfl⟩ := Prod.mk.inj (Option.some.inj hstep)
      exact h.set_file hfile (fun _ _ => rfl) (fun _ _ => rfl)
  | put =>
      obtain ⟨rfl, rfl⟩ := Prod.mk.inj (Option.some.inj hstep)
      exact h.put_file hfile

/-! ## Runs -/

theorem Inv.step {label : Label} (h : Inv s) (hstep : step config label s = some t) : Inv t := by
  cases label with
  | main answer => exact h.mainStep hstep
  | remove =>
      cases hmain : s.main <;> simp only [Lifecycle.step, hmain] at hstep <;>
        first | cases hstep | skip
      have h' := h.at hmain
      exact { h' with }
  | openCall =>
      simp only [Lifecycle.step] at hstep
      split_ifs at hstep with hcan
      obtain rfl := Option.some.inj hstep
      exact { h with
        references := by
          rw [h.references, State.references, State.references, hcan.2]
          rfl
        opening := fun _ => hcan.1 }
  | «open» =>
      obtain ⟨pc, hpc, hstep⟩ := Option.bind_eq_some_iff.mp hstep
      exact h.openStep hpc hstep
  | call i poll =>
      simp only [Lifecycle.step] at hstep
      split at hstep
      · rename_i calls hfile
        obtain rfl := Option.some.inj hstep
        exact h.set_file hfile (fun _ hnone => by simpa [FilePc.reading, CallPc.reading] using hnone)
          (fun _ hnone => by simpa [FilePc.inside, CallPc.inside] using hnone)
      · cases hstep
  | callStep i j choice =>
      simp only [Lifecycle.step] at hstep
      split at hstep
      · rename_i calls hfile
        split at hstep
        · cases hstep
        · rename_i pc hcall
          obtain ⟨⟨pc?, u⟩, hcallStep, rfl⟩ := Option.map_eq_some_iff.mp hstep
          exact h.callStep hfile hcall hcallStep
      · cases hstep
  | close i =>
      simp only [Lifecycle.step] at hstep
      split at hstep
      · rename_i hfile
        obtain rfl := Option.some.inj hstep
        exact h.set_file hfile (fun _ _ => rfl) (fun _ _ => rfl)
      · cases hstep
  | release i owner =>
      simp only [Lifecycle.step] at hstep
      split at hstep
      · rename_i pc hfile
        obtain ⟨⟨pc?, u⟩, hreleaseStep, rfl⟩ := Option.map_eq_some_iff.mp hstep
        exact h.releaseStep hfile hreleaseStep
      · cases hstep
  | interrupt =>
      simp only [Lifecycle.step] at hstep
      split_ifs at hstep with hcan
      obtain rfl := Option.some.inj hstep
      exact { h with handler := fun _ => hcan.1 }
  | handler doorbell =>
      simp only [Lifecycle.step] at hstep
      split_ifs at hstep with hhandler hdoorbell
      · obtain ⟨hreference, hmapped⟩ := h.reference_of_irq (h.handler hhandler)
        have href := h.pos_of_reference hreference
        have huse : s.use ([.device, .registers] ++ [.transport]) = s := State.use_eq (by
          simpa using ⟨h.device href, h.registers hmapped, h.shmLive href hdoorbell.2 (by decide)⟩)
        obtain rfl := Option.some.inj hstep
        rwa [huse]
      · obtain ⟨hreference, hmapped⟩ := h.reference_of_irq (h.handler hhandler)
        have huse : s.use ([.device, .registers] ++ []) = s := State.use_eq (by
          simpa using ⟨h.device (h.pos_of_reference hreference), h.registers hmapped⟩)
        obtain rfl := Option.some.inj hstep
        rwa [huse]
  | handled =>
      simp only [Lifecycle.step] at hstep
      split_ifs at hstep
      obtain rfl := Option.some.inj hstep
      exact { h with handler := fun h => Bool.noConfusion h }
  | workRun =>
      simp only [Lifecycle.step] at hstep
      split_ifs at hstep with hcan
      obtain rfl := Option.some.inj hstep
      exact { h with work := fun _ => h.work (.inr hcan.1) }
  | workKick again =>
      simp only [Lifecycle.step] at hstep
      split_ifs at hstep with hwork
      obtain ⟨hreference, hmapped, -, hshm⟩ := h.reference_of_work (.inl hwork)
      have huse : s.use [.transport, .registers] = s := State.use_eq (by
        simpa using ⟨h.shmLive (h.pos_of_reference hreference) hshm (by decide),
          h.registers hmapped⟩)
      obtain rfl := Option.some.inj hstep
      rw [huse]
      exact { h with work := fun _ => h.work (.inl hwork) }
  | workDone =>
      simp only [Lifecycle.step] at hstep
      split_ifs at hstep with hwork
      obtain rfl := Option.some.inj hstep
      exact { h with work := fun _ => h.work (.inl hwork) }

theorem reachable_inv (h : Reachable (system config) s) : Inv s := by
  refine h.invariant ?_ fun s t label hinv hstep => hinv.step hstep
  rintro s rfl
  exact inv_initial

/-- Whatever the order of the steps, nothing is used before it is there or after it is gone, nothing
is freed twice and the transport is not freed under its work. -/
theorem faultless (h : Reachable (system config) s) : s.faulty = false := (reachable_inv h).faultless

/-- What there still is once the driver has left the device. -/
structure Left (s : State) : Prop where
  refcount : s.refcount = s.files.length
  live : ∀ part, s.memory part = .live ↔
    s.files ≠ [] ∧ (part = .device ∨ part ∈ shmParts ∧ s.shm = true)
  undone : s.irq = false ∧ s.misc = false ∧ s.drvdata = false ∧ s.cmdqu = false
  silent : s.handler = false ∧ s.work = false ∧ s.workPending = false
  opening : s.opening = none
  outside : ∀ file ∈ s.files, file.inside = false

/-- A failed `probe` and `remove` leave nothing but the memory that the open files need. -/
theorem left_of_unbound {ret : ℤ} (h : Reachable (system config) s)
    (hmain : s.main = .unbound ret) : Left s := by
  have hinv := reachable_inv h
  have hinv' := hinv.at hmain
  have hopening : s.opening = none := hinv.opening_none hinv'.misc
  have hrefcount : s.refcount = s.files.length := by
    rw [hinv.references, State.references, hmain, hopening]
    simp [MainPc.hasReference]
  have hidle := hinv.idle (hinv'.completed rfl)
  obtain ⟨hregisters, hregion⟩ := hinv'.unmapped rfl
  have hhandler : ¬ s.handler = true := fun hhandler =>
    Bool.noConfusion ((hinv.handler hhandler).symm.trans hinv'.irq)
  have hpos : 0 < s.refcount ↔ s.files ≠ [] := by
    rw [hrefcount, List.length_pos_iff]
  refine ⟨hrefcount, fun part => ?_, ⟨hinv'.irq, hinv'.misc, hinv'.drvdata, hinv'.cmdqu⟩,
    ⟨by simpa using hhandler, hidle⟩, hopening, hinv'.past rfl⟩
  cases part with
  | registers => simpa [shmParts] using hregisters
  | region => simpa [shmParts] using hregion
  | device | transport | txBatch | rxBatch =>
      rw [hinv.live _ rfl, hpos]
      simp [shmParts]

/-! ### A file that is open during `remove` -/

def plainConfig : Config := ⟨true, 0, 0, some (0x8f800000, Shm.regionSize.toNat)⟩

def granted : Label := .main ⟨0, true, ⟨true, true, true, true⟩⟩

/-- A file is opened and used, the device is removed, and the file is closed. -/
def openRun : List Label :=
  List.replicate 9 granted ++ [.openCall, .open, .open, .open, .open] ++
    [.call 0 false, .callStep 0 0 .go, .callStep 0 0 .go, .callStep 0 0 (.access ⟨true, true, true⟩),
      .interrupt, .handler true, .handled, .workRun, .remove] ++ List.replicate 5 granted ++
    [.callStep 0 0 (.access ⟨false, true, false⟩), .workKick true, .workDone] ++
    List.replicate 2 granted ++ [.callStep 0 0 .go, .callStep 0 0 .go, .callStep 0 0 .go] ++
    List.replicate 8 granted

theorem faultless_openRun : ∃ s : State, s.refcount = 1 ∧ s.main = .unbound 0 ∧ s.faulty = false := by
  have hrun : (exec (step plainConfig) openRun State.initial).map
      (fun s => (s.refcount, s.main)) = some (1, .unbound 0) := by
    rfl
  obtain ⟨s, hexec, hs⟩ := Option.map_eq_some_iff.mp hrun
  obtain ⟨hrefcount, hmain⟩ := Prod.mk.inj hs
  exact ⟨s, hrefcount, hmain, faultless (Reachable.exec (Reachable.start rfl) hexec)⟩

theorem left_of_unbound_openRun : ∃ s : State, s.refcount = 1 ∧ Left s := by
  have hrun : (exec (step plainConfig) openRun State.initial).map
      (fun s => (s.refcount, s.main)) = some (1, .unbound 0) := by
    rfl
  obtain ⟨s, hexec, hs⟩ := Option.map_eq_some_iff.mp hrun
  obtain ⟨hrefcount, hmain⟩ := Prod.mk.inj hs
  exact ⟨s, hrefcount, left_of_unbound (Reachable.exec (Reachable.start rfl) hexec) hmain⟩

end Sg200x.Ipc.Lifecycle
