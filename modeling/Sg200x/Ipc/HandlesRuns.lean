import Sg200x.Ipc.HandlesFacts

/-!
# Nothing is leaked

Whatever fails and in whatever order handles are opened and closed, each descriptor, block and
mutex of the library belongs to one handle or to one call, and the handles with shared memory are
the owners of their transports.
-/

namespace Sg200x.Ipc.Handles

open Shm Library Library.Transition

-- The equations of `step` are generated here, once for all the proofs that unfold it.
section
attribute [local simp] step
end

variable {s t : State} {i : ℕ} {c : Caller} {fd : ℕ} {file : File} {address : ℕ}

/-! ## The invariant -/

structure Inv (s : State) : Prop where
  owned : Owned s.callers s.files s.owner s.nextFile s.probed s.shuttingDown
  eventfds : Custody (fun fd => s.fds fd = some .eventfd) (Caller.pending ∘ s.callers)
  blocks : Blocks s.callers s.blocks
  formed : ∀ i, (s.callers i).Formed

theorem Inv.initial : Inv State.initial where
  owned :=
    { devices := ⟨fun _ _ h => (nomatch h), fun _ h => (nomatch h), fun _ _ _ h => (nomatch h)⟩
      distinct := fun _ _ _ h => nomatch h
      fresh := fun _ _ h => nomatch h
      older := fun _ _ h => nomatch h
      current := fun _ h => nomatch h
      entitled := fun _ _ _ _ h => nomatch h
      plain := fun _ _ _ _ h => nomatch h }
  eventfds := ⟨fun _ _ h => (nomatch h), fun _ h => (nomatch h), fun _ _ _ h => (nomatch h)⟩
  blocks := ⟨⟨fun _ _ h => (nomatch h), fun _ h => (nomatch h), fun _ _ _ h => (nomatch h)⟩,
    fun _ _ _ h => (nomatch h)⟩
  formed _ := ⟨fun _ h => (nomatch h), fun h => (nomatch h), fun _ h => (nomatch h)⟩

theorem files_update (fds : ℕ → Option Object) (fd : ℕ) (object : Option Object) :
    (fun fd' => (Function.update fds fd object fd').bind Object.toFile) =
      Function.update (fun fd' => (fds fd').bind Object.toFile) fd (object.bind Object.toFile) :=
  Function.comp_update (fun object : Option Object => object.bind Object.toFile) fds fd object

/-- A descriptor that is no `eventfd` before and after. -/
theorem eventfd_update {fds : ℕ → Option Object} {object : Option Object}
    (hold : fds fd ≠ some .eventfd) (hnew : object ≠ some .eventfd) (fd' : ℕ) :
    Function.update fds fd object fd' = some .eventfd ↔ fds fd' = some .eventfd := by
  by_cases hne : fd' = fd
  · rw [hne, Function.update_self]
    exact iff_of_false hnew hold
  · rw [Function.update_of_ne hne]

theorem State.release_eq (s : State) (fd : ℕ) :
    s.release fd = { s with owner := released s.files s.owner fd } := by
  have hnone : s.files fd = none → released s.files s.owner fd = s.owner :=
    fun hfile => if_pos (.inl hfile)
  unfold State.release
  cases hfd : s.fds fd with
  | none => rw [hnone (by rw [State.files, hfd]; rfl)]
  | some object =>
      cases object with
      | eventfd | other => rw [hnone (by rw [State.files, hfd]; rfl)]
      | device file =>
          have hfile := State.files_eq_some.mpr hfd
          dsimp only
          rw [released, hfile]
          by_cases howner : s.owner = some file
          · rw [if_pos howner, if_neg]
            rintro (hnone | hne)
            · cases hnone
            · exact hne howner
          · rw [if_neg howner, if_pos (.inr howner)]

variable {old : Caller}

theorem Inv.setCaller (h : Inv s) (hold : s.callers i = old) (hdevice : c.device = old.device)
    (hpending : c.pending = old.pending) (hlocks : c.locks = old.locks)
    (hentitled : ∀ fd, c.entitled = some fd → old.entitled = some fd)
    (hplain : s.shuttingDown = false → ∀ fd file, c.plain = some fd → s.files fd = some file →
      s.owner ≠ some file) (hformed : c.Formed) : Inv (s.setCaller i c) where
  owned := h.owned.setCaller (by rw [hold, hdevice]) (by rw [hold]; exact hentitled) hplain
  eventfds := by
    show Custody _ (Caller.pending ∘ Function.update s.callers i c)
    rw [comp_update_same Caller.pending (by rw [hold, hpending])]
    exact h.eventfds
  blocks := h.blocks.setCaller (by rw [hold, hlocks])
  formed := update_caller (p := fun _ c => c.Formed) hformed fun j _ => h.formed j

/-- The caller goes on with what it holds, and is no more entitled than before. -/
theorem Inv.goto (h : Inv s) (hold : s.callers i = old) (hdevice : c.device = old.device)
    (hpending : c.pending = old.pending) (hlocks : c.locks = old.locks)
    (hentitled : c.entitled = none ∨ c.entitled = old.entitled)
    (hplain : c.plain = none ∨ c.plain = old.plain) (hformed : c.Formed) :
    Inv (s.setCaller i c) := by
  apply h.setCaller hold hdevice hpending hlocks _ _ hformed
  · intro fd hfd
    rcases hentitled with hnone | hsame
    · rw [hnone] at hfd
      cases hfd
    · rw [← hsame, hfd]
  · intro hrunning fd file hfd
    rcases hplain with hnone | hsame
    · rw [hnone] at hfd
      cases hfd
    · rw [hsame, ← hold] at hfd
      exact h.owned.plain hrunning i fd file hfd

/-- The caller changes its block. -/
theorem Inv.setBlock (h : Inv s) (hold : s.callers i = old) {b : Option Block}
    (hblocks : Blocks (Function.update s.callers i c) (Function.update s.blocks address b))
    (hdevice : c.device = old.device) (hpending : c.pending = old.pending)
    (hentitled : c.entitled = none ∨ c.entitled = old.entitled) (hplain : c.plain = none)
    (hformed : c.Formed) : Inv ((s.setBlock address b).setCaller i c) where
  owned := by
    apply h.owned.setCaller (by rw [hold, hdevice])
    · intro fd hfd
      rw [hold]
      rcases hentitled with hnone | hsame
      · rw [hnone] at hfd
        cases hfd
      · rw [← hsame, hfd]
    · intro _ fd file hfd
      rw [hplain] at hfd
      cases hfd
  eventfds := by
    show Custody _ (Caller.pending ∘ Function.update s.callers i c)
    rw [comp_update_same Caller.pending (by rw [hold, hpending])]
    exact h.eventfds
  blocks := hblocks
  formed := update_caller (p := fun _ c => c.Formed) hformed fun j _ => h.formed j

/-- The caller closes the device. -/
theorem Inv.close (h : Inv s) (hold : s.callers i = old) (hfd : old.device = some fd)
    (hdevice : c.device = none) (hpending : c.pending = old.pending) (hlocks : c.locks = old.locks)
    (hformed : c.Formed) : Inv ((s.closeFd fd).setCaller i c) := by
  have hsome := h.owned.devices.sound i fd (by rw [Function.comp_apply, hold, hfd])
  have hne : s.fds fd ≠ some .eventfd := by
    intro heq
    unfold State.files at hsome
    rw [heq] at hsome
    cases hsome
  unfold State.closeFd
  rw [State.release_eq]
  refine ⟨?_, ?_, h.blocks.setCaller (by rw [hold, hlocks]),
    update_caller (p := fun _ c => c.Formed) hformed fun j _ => h.formed j⟩
  · show Owned (Function.update s.callers i c)
      (fun fd' => (Function.update s.fds fd none fd').bind Object.toFile) _ _ _ _
    rw [files_update]
    exact h.owned.close (by rw [hold, hfd]) hdevice
  · show Custody (fun fd' => Function.update s.fds fd none fd' = some .eventfd)
      (Caller.pending ∘ Function.update s.callers i c)
    rw [comp_update_same Caller.pending (by rw [hold, hpending])]
    exact h.eventfds.congr (eventfd_update hne (Option.some_ne_none _).symm)

theorem Inv.release (h : Inv s) (hold : s.callers i = old) (hfd : old.device = some fd)
    (hdevice : c.device = old.device) (hpending : c.pending = old.pending)
    (hlocks : c.locks = old.locks) (hentitled : c.entitled = none) (hformed : c.Formed) :
    Inv ((s.release fd).setCaller i c) := by
  rw [State.release_eq]
  refine ⟨h.owned.release (by rw [hold, hdevice]) (by rw [hold, hfd]) hentitled, ?_,
    h.blocks.setCaller (by rw [hold, hlocks]),
    update_caller (p := fun _ c => c.Formed) hformed fun j _ => h.formed j⟩
  show Custody _ (Caller.pending ∘ Function.update s.callers i c)
  rw [comp_update_same Caller.pending (by rw [hold, hpending])]
  exact h.eventfds

/-! ## The calls -/

theorem caller_eq {pc : Pc} (hpc : (s.callers i).pc = pc) :
    s.callers i = ⟨(s.callers i).handle, pc, (s.callers i).ret⟩ := by
  rw [← hpc]

theorem Inv.openStep (h : Inv s) {result : Except Errno ℕ}
    (hstep : Handles.openStep s i result = some t) : Inv t := by
  unfold Handles.openStep at hstep
  split at hstep
  · rename_i hpc
    have hold := caller_eq hpc
    have hformed := h.formed i
    rw [hold] at hformed
    obtain ⟨hprivate, -, -⟩ := hformed
    split_ifs at hstep with hopen
    · cases hstep
      refine h.goto hold rfl rfl rfl (.inr rfl) (.inr rfl) ⟨hprivate, ?_, ?_⟩
      · intro hzero
        cases hzero
      · intro ret hret _ hne
        rw [← Option.some.inj hret] at hne
        exact absurd rfl hne
    · have hclosed : (s.callers i).handle = .closed := by
        generalize (s.callers i).handle = handle at hopen hprivate
        obtain ⟨handleFd, privateData⟩ := handle
        cases handleFd with
        | some fd => exact absurd rfl hopen
        | none =>
            cases privateData with
            | none => rfl
            | some privateData => exact absurd (hprivate privateData rfl).1 Bool.false_ne_true
      split at hstep
      · rename_i error
        cases hstep
        refine h.goto hold rfl rfl rfl (.inr rfl) (.inr rfl) ⟨hprivate, ?_, ?_⟩
        · intro hzero
          have hpos : -((error : ℕ) : ℤ) = 0 := Option.some.inj hzero
          have := error.pos
          omega
        · exact fun _ _ _ _ => hclosed
      · rename_i fd
        split_ifs at hstep with hfree
        cases hstep
        have hdevice : (s.callers i).device = none := by
          rw [hold, hclosed]
          rfl
        have hnone : s.files fd = none := by
          rw [State.files, hfree]
          rfl
        refine ⟨?_, ?_, ?_, ?_⟩
        · show Owned (Function.update s.callers i _)
            (fun fd' => (Function.update s.fds fd _ fd').bind Object.toFile) _ _ _ _
          rw [files_update]
          exact h.owned.open hdevice hnone rfl rfl
        · show Custody (fun fd' => Function.update s.fds fd _ fd' = some .eventfd)
            (Caller.pending ∘ Function.update s.callers i _)
          rw [comp_update_same Caller.pending (by rw [hold, hclosed]; rfl)]
          apply h.eventfds.congr
          apply eventfd_update
          · rw [hfree]
            exact (Option.some_ne_none _).symm
          · simp
        · exact h.blocks.setCaller (by rw [hold, hclosed]; rfl)
        · exact update_caller (p := fun _ c => c.Formed) hclosed fun j _ => h.formed j
  · cases hstep

/-- The call has found no shared memory for the file, or gives the descriptor back. -/
theorem Inv.acquireFailed (h : Inv s) {pc : Pc} (hpc : (s.callers i).pc = pc)
    (hcalling : pc = .acquire fd ∨ pc = .waiting fd) (error : Errno)
    (hplain : s.shuttingDown = false → ∀ file, s.files fd = some file → s.owner ≠ some file) :
    Inv (s.acquireFailed i fd error) := by
  have hold := caller_eq hpc
  have hformed := h.formed i
  have hplain' : ∀ c : Caller, c.plain = some fd ∨ c.plain = none → s.shuttingDown = false →
      ∀ fd' file, c.plain = some fd' → s.files fd' = some file → s.owner ≠ some file := by
    intro c hc hrunning fd' file hfd'
    rcases hc with hsome | hnone
    · rw [hsome, Option.some.injEq] at hfd'
      rw [← hfd']
      exact hplain hrunning file
    · rw [hnone] at hfd'
      cases hfd'
  rw [hold] at hformed
  unfold State.acquireFailed
  split_ifs
  · have hopened : (⟨⟨some fd, none⟩, .idle, some 0⟩ : Caller).Formed := by
      refine ⟨fun _ h => (nomatch h), fun _ => rfl, ?_⟩
      intro ret hret hne
      exact absurd (Option.some.inj hret).symm hne
    rcases hcalling with rfl | rfl <;>
      exact h.setCaller hold rfl rfl rfl (fun _ h => (nomatch h)) (hplain' _ (.inl rfl)) hopened
  · rcases hcalling with rfl | rfl <;>
      exact h.setCaller hold rfl rfl rfl (fun _ h => (nomatch h)) (hplain' _ (.inr rfl)) hformed

theorem Inv.acquireStep (h : Inv s) (hpc : (s.callers i).pc = .acquire fd)
    {refused : Option Errno} (hstep : Handles.acquireStep s i fd refused = some t) : Inv t := by
  have hold := caller_eq hpc
  have hfailed : ∀ error, Inv (s.acquireFailed i fd error) := by
    intro error
    apply h.acquireFailed hpc (.inl rfl) error
    intro hrunning file
    exact h.owned.plain hrunning i fd file (by rw [hold]; rfl)
  unfold Handles.acquireStep at hstep
  split at hstep
  · cases hstep
    exact hfailed _
  · rename_i file hfile
    split_ifs at hstep with hgone hfree
    · cases hstep
      exact hfailed _
    · cases hstep
      rw [not_or, not_not] at hgone
      have hformed := h.formed i
      rw [hold] at hformed
      have howned := h.owned.acquire (c := { s.callers i with pc := .waiting fd }) (i := i)
        (by rw [hold]; rfl) (by rw [hold]; rfl) (State.files_eq_some.mpr hfile) hgone.1 hfree rfl rfl
      refine ⟨howned, ?_, h.blocks.setCaller (by rw [hold]; rfl),
        update_caller (p := fun _ c => c.Formed) hformed fun j _ => h.formed j⟩
      show Custody _ (Caller.pending ∘ Function.update s.callers i _)
      rw [comp_update_same Caller.pending (by rw [hold]; rfl)]
      exact h.eventfds
    · cases hstep
      exact hfailed _
  · cases hstep

theorem Inv.acquiredStep (h : Inv s) (hpc : (s.callers i).pc = .waiting fd) {result : Acquired}
    (hstep : Handles.acquiredStep s i fd result = some t) : Inv t := by
  have hold := caller_eq hpc
  have hformed := h.formed i
  rw [hold] at hformed
  cases result with
  | ready generation =>
      simp only [Handles.acquiredStep] at hstep
      split_ifs at hstep
      · cases hstep
        exact h.goto hold rfl rfl rfl (.inr rfl) (.inl rfl) hformed
      · cases hstep
        exact h.goto hold rfl rfl rfl (.inl rfl) (.inl rfl) hformed
  | shutDown =>
      simp only [Handles.acquiredStep] at hstep
      split at hstep
      · rename_i file hfile
        split_ifs at hstep with hgone
        cases hstep
        apply h.acquireFailed hpc (.inr rfl)
        intro hrunning file' hfile' howner
        rw [State.files_eq_some.mpr hfile, Option.some.injEq] at hfile'
        rw [← hfile'] at howner
        rcases hgone with hne | hdown
        · exact hne (h.owned.current file howner).1
        · rw [hrunning] at hdown
          cases hdown
      · cases hstep
  | failed error =>
      simp only [Handles.acquiredStep] at hstep
      cases hstep
      have hsame : (s.release fd).callers = s.callers := by rw [State.release_eq]
      unfold State.acquireFailed
      split_ifs
      · refine h.release hold rfl rfl rfl rfl rfl ⟨fun _ h => (nomatch h), fun _ => rfl, ?_⟩
        intro ret hret hne
        exact absurd (Option.some.inj hret).symm hne
      · unfold State.goto
        rw [hsame]
        exact h.release hold rfl rfl rfl rfl rfl hformed

/-- A descriptor that is no device before and after. -/
theorem files_update_same {object : Option Object} (hold : s.files fd = none)
    (hnew : object.bind Object.toFile = none) :
    (fun fd' => (Function.update s.fds fd object fd').bind Object.toFile) = s.files := by
  rw [files_update, hnew]
  exact (congrArg (Function.update s.files fd) hold.symm).trans (Function.update_eq_self fd s.files)

theorem Inv.calloc (h : Inv s) {info : Info} (hpc : (s.callers i).pc = .calloc fd info)
    (hfree : s.blocks address = none) :
    Inv ((s.setBlock address (some ⟨false, false⟩)).goto i (.initTx fd info address)) := by
  have hold := caller_eq hpc
  have hformed := h.formed i
  rw [hold] at hformed
  exact h.setBlock hold (h.blocks.alloc (by rw [hold]; rfl) hfree rfl) rfl rfl (.inr rfl) rfl hformed

/-- A mutex of the block that the caller holds. -/
theorem Inv.mutex (h : Inv s) {pc pc' : Pc} {b b' : Block} (hpc : (s.callers i).pc = pc)
    (hb : Caller.locks ⟨(s.callers i).handle, pc, (s.callers i).ret⟩ = some (address, b))
    (hb' : Caller.locks { s.callers i with pc := pc' } = some (address, b'))
    (hdevice : Caller.device { s.callers i with pc := pc' } =
      Caller.device ⟨(s.callers i).handle, pc, (s.callers i).ret⟩)
    (hpending : Caller.pending { s.callers i with pc := pc' } =
      Caller.pending ⟨(s.callers i).handle, pc, (s.callers i).ret⟩)
    (hentitled : Caller.entitled { s.callers i with pc := pc' } =
      Caller.entitled ⟨(s.callers i).handle, pc, (s.callers i).ret⟩)
    (hplain : Caller.plain { s.callers i with pc := pc' } = none)
    (hformed : Caller.Formed ⟨(s.callers i).handle, pc, (s.callers i).ret⟩ →
      Caller.Formed { s.callers i with pc := pc' }) :
    Inv ((s.setBlock address (some b')).goto i pc') := by
  have hold := caller_eq hpc
  apply h.setBlock hold (h.blocks.change (by rw [hold]; exact hb) hb') hdevice hpending
    (.inr hentitled) hplain
  apply hformed
  rw [← hold]
  exact h.formed i

theorem Inv.mutexInit (h : Inv s) {error : Option Errno}
    (hstep : step (.mutexInit i error) s = some t) : Inv t := by
  have hformed := h.formed i
  simp only [step] at hstep
  split at hstep
  · rename_i hpc
    have hold := caller_eq hpc
    rw [hold] at hformed
    cases hstep
    exact h.goto hold rfl rfl rfl (.inr rfl) (.inl rfl) hformed
  · rename_i hpc
    cases hstep
    exact h.mutex hpc rfl rfl rfl rfl rfl rfl id
  · rename_i hpc
    have hold := caller_eq hpc
    rw [hold] at hformed
    cases hstep
    exact h.goto hold rfl rfl rfl (.inr rfl) (.inl rfl) hformed
  · rename_i hpc
    cases hstep
    exact h.mutex hpc rfl rfl rfl rfl rfl rfl id
  · cases hstep

theorem Inv.eventfd (h : Inv s) {result : Except Errno ℕ}
    (hstep : step (.eventfd i result) s = some t) : Inv t := by
  have hformed := h.formed i
  simp only [step] at hstep
  split at hstep
  · rename_i hpc
    have hold := caller_eq hpc
    rw [hold] at hformed
    cases hstep
    exact h.goto hold rfl rfl rfl (.inr rfl) (.inl rfl) hformed
  · rename_i fd info address pendingFd hpc
    have hold := caller_eq hpc
    split_ifs at hstep with hfree
    cases hstep
    have hnone : s.files pendingFd = none := by rw [State.files, hfree]; rfl
    refine ⟨?_, ?_, h.blocks.setCaller (by rw [hold]; rfl), ?_⟩
    · show Owned (Function.update s.callers i _)
        (fun fd' => (Function.update s.fds pendingFd _ fd').bind Object.toFile) _ _ _ _
      rw [files_update_same hnone rfl]
      apply h.owned.setCaller
      · rw [hold]
        rfl
      · intro fd' hfd'
        rw [hold]
        exact hfd'
      · intro _ _ _ hplain
        cases hplain
    · show Custody (fun fd' => Function.update s.fds pendingFd _ fd' = some .eventfd)
        (Caller.pending ∘ Function.update s.callers i _)
      rw [Function.comp_update]
      apply h.eventfds.acquire (by rw [Function.comp_apply, hold]; rfl)
      · rw [hfree]
        exact (Option.some_ne_none _).symm
      · intro fd'
        by_cases hne : fd' = pendingFd
        · rw [hne, Function.update_self]
          simp
        · rw [Function.update_of_ne hne]
          simp [hne]
    · refine update_caller (p := fun _ c => c.Formed) ⟨?_, fun _ => rfl, ?_⟩
        fun j _ => h.formed j
      · intro privateData hprivate
        rw [← Option.some.inj hprivate]
        exact ⟨rfl, rfl⟩
      · intro ret hret hne
        exact absurd (Option.some.inj hret).symm hne
  · cases hstep

/-- The caller closes its `eventfd`. -/
theorem Inv.closePending (h : Inv s) {privateData : Private}
    (hpc : (s.callers i).pc = .closePending privateData) :
    Inv ((s.closeFd privateData.pendingFd).goto i (.closeRx privateData.address)) := by
  have hold := caller_eq hpc
  have hpending : (Caller.pending ∘ s.callers) i = some privateData.pendingFd := by
    rw [Function.comp_apply, hold]
    rfl
  have hlive := h.eventfds.sound i _ hpending
  have hnone : s.files privateData.pendingFd = none := by
    rw [State.files, hlive]
    rfl
  have hclose : s.closeFd privateData.pendingFd =
      { s with fds := Function.update s.fds privateData.pendingFd none } := by
    rw [State.closeFd, State.release_eq, released, if_pos (.inl hnone)]
  rw [hclose]
  refine ⟨?_, ?_, h.blocks.setCaller (by rw [hold]; rfl),
    update_caller (p := fun _ c => c.Formed) trivial fun j _ => h.formed j⟩
  · show Owned (Function.update s.callers i _)
      (fun fd' => (Function.update s.fds privateData.pendingFd none fd').bind Object.toFile) _ _ _ _
    rw [files_update_same hnone rfl]
    refine h.owned.setCaller (by rw [hold]; rfl) ?_ ?_
    · intro fd' hfd'
      cases hfd'
    · intro _ _ _ hplain
      cases hplain
  · show Custody (fun fd' => Function.update s.fds privateData.pendingFd none fd' = some .eventfd)
      (Caller.pending ∘ Function.update s.callers i _)
    rw [Function.comp_update]
    apply h.eventfds.release hpending
    intro fd'
    by_cases hne : fd' = privateData.pendingFd
    · rw [hne, Function.update_self]
      simp
    · rw [Function.update_of_ne hne]
      simp [hne]

theorem Caller.formed_closed : Caller.Formed ⟨.closed, .idle, none⟩ :=
  ⟨fun _ h => (nomatch h), fun h => (nomatch h), fun _ h => (nomatch h)⟩

theorem Inv.cleanupStep (h : Inv s) {pc : Pc} (hpc : (s.callers i).pc = pc)
    (hstep : Handles.cleanupStep s i pc = some t) : Inv t := by
  have hold := caller_eq hpc
  have hformed := h.formed i
  rw [hold] at hformed
  have hfree : ∀ {address b}, (s.callers i).locks = some (address, b) → ∀ {c : Caller},
      c.locks = none → Blocks (Function.update s.callers i c) (Function.update s.blocks address none) :=
    fun hlocks _ hc => h.blocks.free hlocks hc
  cases pc with
  | undoRx fd address error =>
      cases hstep
      exact h.mutex hpc rfl rfl rfl rfl rfl rfl id
  | undoTx fd address error =>
      cases hstep
      exact h.mutex hpc rfl rfl rfl rfl rfl rfl id
  | undoFree fd address error =>
      cases hstep
      exact h.setBlock hold (hfree (by rw [hold]; rfl) rfl) rfl rfl (.inl rfl) rfl hformed
  | undoFd fd error =>
      cases hstep
      have hclosed : (s.callers i).handle = .closed := hformed
      refine h.close hold rfl (by rw [hclosed]; rfl) (by rw [hclosed]; rfl) (by rw [hclosed]; rfl) ?_
      refine ⟨?_, ?_, fun _ _ _ _ => hclosed⟩
      · intro privateData hprivate
        rw [hclosed] at hprivate
        cases hprivate
      · intro hzero
        have hpos : -((error : ℕ) : ℤ) = 0 := Option.some.inj hzero
        have := error.pos
        omega
  | closeFd fd privateData =>
      cases privateData with
      | none =>
          cases hstep
          exact h.close hold rfl rfl rfl rfl Caller.formed_closed
      | some privateData =>
          cases hstep
          have hsame : (s.closeFd fd).callers = s.callers := by
            rw [State.closeFd, State.release_eq]
          unfold State.goto
          rw [hsame]
          exact h.close hold rfl rfl rfl rfl trivial
  | closePending privateData =>
      cases hstep
      exact h.closePending hpc
  | closeRx address =>
      cases hstep
      exact h.mutex hpc rfl rfl rfl rfl rfl rfl id
  | closeTx address =>
      cases hstep
      exact h.mutex hpc rfl rfl rfl rfl rfl rfl id
  | closeFree address =>
      cases hstep
      exact h.setBlock hold (hfree (by rw [hold]; rfl) rfl) rfl rfl (.inl rfl) rfl
        Caller.formed_closed
  | idle | acquire | waiting | calloc | initTx | initRx | eventfd => cases hstep

theorem Inv.closeCall (h : Inv s) (hstep : step (.close i) s = some t) : Inv t := by
  simp only [step] at hstep
  split at hstep
  · cases hstep
    exact h
  · rename_i fd privateData hpc hhandle
    cases hstep
    have hold := caller_eq hpc
    rw [hhandle] at hold
    have hentitled : ∀ handle, Caller.entitled ⟨handle, .closeFd fd privateData, none⟩ =
        Caller.entitled ⟨⟨some fd, privateData⟩, .idle, (s.callers i).ret⟩ := by
      cases privateData <;> exact fun _ => rfl
    have hplain : ∀ handle, Caller.plain ⟨handle, .closeFd fd privateData, none⟩ =
        Caller.plain ⟨⟨some fd, privateData⟩, .idle, (s.callers i).ret⟩ := by
      cases privateData <;> exact fun _ => rfl
    exact h.goto hold rfl rfl rfl (.inr (hentitled _)) (.inr (hplain _)) trivial
  · cases hstep

/-! ## The driver and the processes -/

theorem Inv.other (h : Inv s) (hstep : step (.other fd) s = some t) : Inv t := by
  have hframe : ∀ {object : Option Object}, s.files fd = none → s.fds fd ≠ some .eventfd →
      object.bind Object.toFile = none → object ≠ some .eventfd →
      Inv { s with fds := Function.update s.fds fd object } := by
    intro object hfile hold hnew hne
    refine ⟨?_, h.eventfds.congr (eventfd_update hold hne), h.blocks, h.formed⟩
    show Owned _ (fun fd' => (Function.update s.fds fd object fd').bind Object.toFile) _ _ _ _
    rw [files_update_same hfile hnew]
    exact h.owned
  simp only [step] at hstep
  split at hstep
  · rename_i hfd
    cases hstep
    exact hframe (by rw [State.files, hfd]; rfl) (by rw [hfd]; simp) rfl (by simp)
  · rename_i hfd
    cases hstep
    exact hframe (by rw [State.files, hfd]; rfl) (by rw [hfd]; simp) rfl (by simp)
  · cases hstep

theorem Inv.markShutdown (h : Inv s) : Inv { s with shuttingDown := true } :=
  ⟨{ h.owned with
      entitled := fun hrunning => Bool.noConfusion hrunning
      plain := fun hrunning => Bool.noConfusion hrunning }, h.eventfds, h.blocks, h.formed⟩

theorem Inv.clearOwner (h : Inv s) (hdown : s.shuttingDown = true) :
    Inv { s with owner := none } :=
  ⟨{ h.owned with
      current := fun _ howner => nomatch howner
      entitled := fun hrunning => absurd (hdown.symm.trans hrunning) (by decide)
      plain := fun _ _ _ _ _ _ howner => nomatch howner }, h.eventfds, h.blocks, h.formed⟩

theorem Inv.probe (h : Inv s) :
    Inv { s with probed := s.probed + 1, shuttingDown := false, owner := none } := by
  refine ⟨?_, h.eventfds, h.blocks, h.formed⟩
  exact
    { h.owned with
      older := fun fd file hfile => Nat.le_succ_of_le (h.owned.older fd file hfile)
      current := fun _ howner => nomatch howner
      entitled := by
        intro _ i fd file _ hfile htransport
        have hle := h.owned.older fd file hfile
        have hnew : file.transport = s.probed + 1 := htransport
        omega
      plain := fun _ _ _ _ _ _ howner => nomatch howner }

theorem Inv.step {l : Label} (h : Inv s) (hstep : Handles.step l s = some t) : Inv t := by
  cases l with
  | «open» i result => exact h.openStep hstep
  | acquire i refused =>
      simp only [Handles.step] at hstep
      split at hstep
      · rename_i fd hpc
        exact h.acquireStep hpc hstep
      · cases hstep
  | acquired i result =>
      simp only [Handles.step] at hstep
      split at hstep
      · rename_i fd hpc
        exact h.acquiredStep hpc hstep
      · cases hstep
  | calloc i address =>
      have hformed := h.formed i
      simp only [Handles.step] at hstep
      split at hstep
      · rename_i hpc
        have hold := caller_eq hpc
        rw [hold] at hformed
        cases hstep
        exact h.goto hold rfl rfl rfl (.inl rfl) (.inl rfl) hformed
      · rename_i hpc
        split_ifs at hstep with hfree
        cases hstep
        exact h.calloc hpc hfree
      · cases hstep
  | mutexInit i error => exact h.mutexInit hstep
  | eventfd i result => exact h.eventfd hstep
  | cleanup i => exact h.cleanupStep rfl hstep
  | close i => exact h.closeCall hstep
  | other fd => exact h.other hstep
  | markShutdown =>
      cases hstep
      exact h.markShutdown
  | clearOwner =>
      simp only [Handles.step] at hstep
      split_ifs at hstep with hdown
      cases hstep
      exact h.clearOwner hdown
  | probe =>
      simp only [Handles.step] at hstep
      split_ifs at hstep
      cases hstep
      exact h.probe

theorem reachable_inv (h : Reachable system s) : Inv s := by
  apply h.invariant
  · intro s hs
    rw [show s = State.initial from hs]
    exact Inv.initial
  · intro s t l hs hstep
    exact hs.step hstep

/-! ## What is held -/

structure Accounted (s : State) : Prop where
  devices : Custody (fun fd => ∃ file, s.fds fd = some (.device file)) (Caller.device ∘ s.callers)
  eventfds : Custody (fun fd => s.fds fd = some .eventfd) (Caller.pending ∘ s.callers)
  blocks : Custody (fun address => (s.blocks address).isSome = true) (Caller.block ∘ s.callers)
  locks : ∀ i address block, (s.callers i).locks = some (address, block) →
    s.blocks address = some block
  /-- Success means an open handle, and an error one that is closed and holds nothing. -/
  formed : ∀ i, (s.callers i).Formed

/-- A handle that no call runs on, open on the transport of the last probe. -/
def State.InUse (s : State) (i : ℕ) (file : File) : Prop :=
  (s.callers i).pc = .idle ∧ file.transport = s.probed ∧
    ∃ fd, (s.callers i).handle.fd = some fd ∧ s.fds fd = some (.device file)

theorem Inv.available_iff (h : Inv s) (hrunning : s.shuttingDown = false)
    (huse : s.InUse i file) :
    sharedMemoryAvailable (s.callers i).handle = true ↔ s.owner = some file := by
  obtain ⟨hpc, htransport, fd, hfd, hfile⟩ := huse
  have hfiles := State.files_eq_some.mpr hfile
  have hold := caller_eq hpc
  have hformed := h.formed i
  rw [hold] at hformed
  cases hprivate : (s.callers i).handle.privateData with
  | none =>
      have hplain : (s.callers i).plain = some fd := by
        rw [hold]
        simp [Caller.plain, hprivate, hfd]
      apply iff_of_false
      · simp [sharedMemoryAvailable, hprivate]
      · exact h.owned.plain hrunning i fd file hplain hfiles
  | some privateData =>
      have hentitled : (s.callers i).entitled = some fd := by
        rw [hold]
        simp [Caller.entitled, hprivate, hfd]
      have henabled := (hformed.1 privateData hprivate).2
      apply iff_of_true
      · simp [sharedMemoryAvailable, hprivate, hfd, henabled]
      · exact h.owned.entitled hrunning i fd file hentitled hfiles htransport

/-- The handles with shared memory are the owners that the driver sees, and so there is one at
most. -/
theorem shared_memory_owner (h : Reachable system s) (hrunning : s.shuttingDown = false) :
    (∀ i file, s.InUse i file →
      (sharedMemoryAvailable (s.callers i).handle = true ↔ s.owner = some file)) ∧
    ∀ i j file file', s.InUse i file → s.InUse j file' →
      sharedMemoryAvailable (s.callers i).handle = true →
      sharedMemoryAvailable (s.callers j).handle = true → i = j := by
  have hinv := reachable_inv h
  refine ⟨fun i file huse => hinv.available_iff hrunning huse, ?_⟩
  intro i j file file' hi hj havailable havailable'
  have howner := (hinv.available_iff hrunning hi).mp havailable
  rw [(hinv.available_iff hrunning hj).mp havailable', Option.some.injEq] at howner
  subst howner
  obtain ⟨hpc, -, fd, hfd, hfile⟩ := hi
  obtain ⟨hpc', -, fd', hfd', hfile'⟩ := hj
  have hsame := hinv.owned.distinct fd fd' file' (State.files_eq_some.mpr hfile)
    (State.files_eq_some.mpr hfile')
  apply hinv.owned.devices.one i j fd
  · rw [Function.comp_apply, caller_eq hpc]
    exact hfd
  · rw [Function.comp_apply, caller_eq hpc', hsame]
    exact hfd'

/-! ### Three handles -/

/-- The first handle gets the shared memory, the second is told that there is none, and the third
finds it taken. -/
def openRun : List Label :=
  [.open 0 (.ok 3), .acquire 0 none, .acquired 0 (.ready 1#32), .calloc 0 (some 64),
    .mutexInit 0 none, .mutexInit 0 none, .eventfd 0 (.ok 4), .open 1 (.ok 5),
    .acquire 1 (some enotty), .open 2 (.ok 6), .acquire 2 none, .cleanup 2]

def Pc.isIdle : Pc → Bool
  | .idle => true
  | _ => false

theorem reachable_openRun : ∃ s, Reachable system s ∧ s.shuttingDown = false ∧
    s.InUse 0 ⟨0, 0⟩ ∧ sharedMemoryAvailable (s.callers 0).handle = true ∧
    s.InUse 1 ⟨0, 1⟩ ∧ (s.callers 2).ret = some (-16) := by
  have hrun : (exec step openRun State.initial).map (fun s =>
      (s.shuttingDown, (s.callers 2).ret)) = some (false, some (-16)) := by
    decide
  obtain ⟨s, hexec, hs⟩ := Option.map_eq_some_iff.mp hrun
  have hhandles : (exec step openRun State.initial).map (fun s =>
      ((s.callers 0).handle, (s.callers 1).handle)) =
        some (⟨some 3, some ⟨64, 4, true, 1#32⟩⟩, ⟨some 5, none⟩) := by
    decide
  have hfiles : (exec step openRun State.initial).map (fun s => (s.probed, s.fds 3, s.fds 5)) =
      some (0, some (.device ⟨0, 0⟩), some (.device ⟨0, 1⟩)) := by
    decide
  have hidle : (exec step openRun State.initial).map (fun s =>
      ((s.callers 0).pc.isIdle, (s.callers 1).pc.isIdle)) = some (true, true) := by
    decide
  rw [hexec, Option.map_some, Option.some.injEq] at hhandles hfiles hidle
  simp only [Prod.mk.injEq] at hs hhandles hfiles hidle
  have hpc : ∀ {pc : Pc}, pc.isIdle = true → pc = .idle := by
    intro pc hpc
    cases pc <;> first | rfl | cases hpc
  refine ⟨s, Reachable.exec (.start rfl) hexec, hs.1,
    ⟨hpc hidle.1, hfiles.1.symm, 3, ?_, hfiles.2.1⟩, ?_,
    ⟨hpc hidle.2, hfiles.1.symm, 5, ?_, hfiles.2.2⟩, hs.2⟩
  · rw [hhandles.1]
  · rw [hhandles.1]
    rfl
  · rw [hhandles.2]

theorem shared_memory_owner_openRun : ∃ s : State, s.owner = some ⟨0, 0⟩ ∧
    sharedMemoryAvailable (s.callers 1).handle = false := by
  obtain ⟨s, hreachable, hrunning, h0, havailable, h1, -⟩ := reachable_openRun
  obtain ⟨hiff, hone⟩ := shared_memory_owner hreachable hrunning
  refine ⟨s, (hiff 0 _ h0).mp havailable, ?_⟩
  apply Bool.eq_false_iff.mpr
  intro havailable'
  exact absurd (hone 0 1 _ _ h0 h1 havailable havailable') (by decide)

end Sg200x.Ipc.Handles
