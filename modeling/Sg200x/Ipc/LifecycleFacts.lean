import Sg200x.Ipc.Lifecycle

/-!
# What lives as long as the device is used

The reference of the driver and those of the files are what `refcount` counts, and the parts of the
device live as long as it is not zero.  The interrupt handler and the work need the reference of the
driver, which gives it back after it has stopped them.
-/

namespace Sg200x.Ipc.Lifecycle

open Library Library.Transition

/-! ## What holds at a place of the driver -/

namespace MainPc

/-- The driver has its reference. -/
def hasReference : MainPc → Bool
  | alloc | devres _ | unbound _ => false
  | _ => true

/-- The transport has not been created yet. -/
def bare : MainPc → Bool
  | alloc | resource | mapRegisters | shared => true
  | _ => false

/-- The device can be or has been opened. -/
def isOpen : MainPc → Bool
  | callback | bound | teardown _ _ | devres _ | unbound _ => true
  | _ => false

/-- The registers are mapped. -/
def mapped : MainPc → Bool
  | alloc | resource | mapRegisters | errPut _ | devres _ | unbound _ => false
  | _ => true

def attached : MainPc → Bool
  | unbound _ => false
  | _ => true

def irqOn : MainPc → Bool
  | register | callback | bound | errIrq _ => true
  | teardown _ pc => pc.rank ≤ TeardownPc.freeIrq.rank
  | _ => false

def miscOn : MainPc → Bool
  | callback | bound => true
  | teardown _ pc => pc.rank ≤ TeardownPc.deregister.rank
  | _ => false

def drvdataOn : MainPc → Bool
  | requestIrq | register | callback | bound | errIrq _ | errDeinit _ => true
  | teardown _ pc => pc.rank ≤ TeardownPc.clearDrvdata.rank
  | _ => false

def cmdquOn : MainPc → Bool
  | requestIrq | register | callback | bound | errIrq _ | errDeinit _ => true
  | teardown _ pc => pc.rank ≤ TeardownPc.deinit.rank
  | _ => false

/-- `shutting_down` is set, if anyone can see it. -/
def flagged : MainPc → Bool
  | teardown _ pc => TeardownPc.setFlag.rank < pc.rank
  | devres _ | unbound _ => true
  | _ => false

/-- The work of the transport is cancelled. -/
def cancelled : MainPc → Bool
  | teardown _ pc => TeardownPc.cancelWork.rank < pc.rank
  | devres _ | unbound _ => true
  | _ => false

/-- The shutdown of the transport goes on. -/
def cancelling : MainPc → Bool
  | teardown _ .cancelWork => true
  | _ => false

/-- The driver has had `file_ops_lock`. -/
def past : MainPc → Bool
  | teardown _ pc => TeardownPc.downWrite.rank < pc.rank
  | devres _ | unbound _ => true
  | _ => false

end MainPc

def CallPc.inside : CallPc → Bool
  | .body => true
  | _ => false

/-- The file uses the hardware. -/
def FilePc.inside : FilePc → Bool
  | .opened calls => calls.any CallPc.inside
  | .releasing pc => pc = .shm

/-- An `open` that has its reference. -/
def OpenPc.hasReference : OpenPc → Bool
  | .unlock ret => ret = 0
  | _ => false

def State.references (s : State) : ℕ :=
  s.main.hasReference.toNat + (s.opening.any OpenPc.hasReference).toNat + s.files.length

def Part.counted : Part → Bool
  | .registers | .region => false
  | _ => true

structure Inv (s : State) : Prop where
  faultless : s.faulty = false
  references : s.refcount = s.references
  live : ∀ part, part.counted → (s.memory part = .live ↔ 0 < s.refcount ∧ (part = .device ∨ s.shm))
  bare : s.main.bare → s.shm = false
  registers : s.main.mapped → s.memory .registers = .live
  region : s.main.attached → s.shm → s.memory .region = .live
  unmapped : s.main.attached = false → s.memory .registers ≠ .live ∧ s.memory .region ≠ .live
  irq : s.irq = s.main.irqOn
  misc : s.misc = s.main.miscOn
  drvdata : s.drvdata = s.main.drvdataOn
  cmdqu : s.cmdqu = s.main.cmdquOn
  handler : s.handler → s.irq
  opening : s.opening.isSome → s.misc
  files : s.main.isOpen = false → s.files = []
  flagged : s.main.flagged → s.misc ∨ s.files ≠ [] → s.shuttingDown
  cancelling : s.main.cancelling → s.shm
  completed : s.main.cancelled → s.shm → s.shmComplete
  work : s.work ∨ s.workPending → s.main.isOpen ∧ s.shm ∧ s.shmComplete = false
  writing : s.main.writing → ∀ file ∈ s.files, file.reading = false
  past : s.main.past → ∀ file ∈ s.files, file.inside = false

theorem inv_initial : Inv State.initial where
  faultless := rfl
  references := rfl
  live part _ := by simp [State.initial]
  bare _ := rfl
  registers := by simp [State.initial, MainPc.mapped]
  region := by simp [State.initial]
  unmapped := by simp [State.initial]
  irq := rfl
  misc := rfl
  drvdata := rfl
  cmdqu := rfl
  handler := by simp [State.initial]
  opening := by simp [State.initial]
  files _ := rfl
  flagged := by simp [State.initial, MainPc.flagged]
  cancelling := by simp [State.initial, MainPc.cancelling]
  completed := by simp [State.initial, MainPc.cancelled]
  work := by simp [State.initial]
  writing := by simp [State.initial, MainPc.writing]
  past := by simp [State.initial, MainPc.past]

/-! ## What can be used -/

variable {s t : State} {parts : List Part} {config : Config}

theorem State.use_eq (h : ∀ part ∈ parts, s.memory part = .live) : s.use parts = s := by
  have hnone : (parts.any fun part => s.memory part ≠ .live) = false := by
    simpa using h
  unfold use
  rw [hnone, Bool.or_false]

namespace Inv

theorem device (h : Inv s) (href : 0 < s.refcount) : s.memory .device = .live :=
  (h.live .device rfl).mpr ⟨href, .inl rfl⟩

theorem shmLive (h : Inv s) (href : 0 < s.refcount) (hshm : s.shm = true) {part : Part}
    (hpart : part ∈ shmParts) : s.memory part = .live := by
  have hcounted : part.counted := by
    simp only [shmParts, List.mem_cons, List.not_mem_nil, or_false] at hpart
    rcases hpart with rfl | rfl | rfl <;> rfl
  exact (h.live part hcounted).mpr ⟨href, .inr hshm⟩

theorem pos_of_reference (h : Inv s) (hmain : s.main.hasReference = true) : 0 < s.refcount := by
  rw [h.references, State.references, hmain, Bool.toNat_true]
  omega

theorem pos_of_file (h : Inv s) (hfiles : s.files ≠ []) : 0 < s.refcount := by
  have := List.length_pos_iff.mpr hfiles
  rw [h.references, State.references]
  omega

theorem reference_of_misc (h : Inv s) (hmisc : s.misc = true) : s.main.hasReference = true := by
  rw [h.misc] at hmisc
  cases hmain : s.main <;> rw [hmain] at hmisc <;> first | rfl | cases hmisc

theorem reference_of_irq (h : Inv s) (hirq : s.irq = true) :
    s.main.hasReference = true ∧ s.main.mapped = true := by
  rw [h.irq] at hirq
  cases hmain : s.main <;> rw [hmain] at hirq <;> first | exact ⟨rfl, rfl⟩ | cases hirq

/-- The driver has not come to the end of the shutdown while there is work. -/
theorem reference_of_work (h : Inv s) (hwork : s.work = true ∨ s.workPending = true) :
    s.main.hasReference = true ∧ s.main.mapped = true ∧ s.main.attached = true ∧ s.shm = true := by
  obtain ⟨hopen, hshm, hcomplete⟩ := h.work hwork
  have hcancelled : ¬ s.main.cancelled = true := by
    intro hcancelled
    rw [h.completed hcancelled hshm] at hcomplete
    cases hcomplete
  cases hmain : s.main <;> rw [hmain] at hopen hcancelled <;>
    first | exact ⟨rfl, rfl, rfl, hshm⟩ | exact absurd rfl hcancelled | cases hopen

/-- The registers are mapped as long as a file may use the hardware. -/
theorem mapped_of_file (h : Inv s) (hfiles : s.files ≠ []) (hpast : s.main.past = false) :
    s.main.mapped = true ∧ s.main.attached = true := by
  have hopen : ¬ s.main.isOpen = false := fun hopen => hfiles (h.files hopen)
  cases hmain : s.main <;> rw [hmain] at hopen hpast <;>
    first | exact ⟨rfl, rfl⟩ | exact absurd rfl hopen | cases hpast

end Inv

/-! ## Giving a reference back -/

/-- What `kref_put` leaves. -/
structure Put (s t : State) : Prop where
  frame : t = { s with
    memory := t.memory
    refcount := s.refcount - 1
    shmShuttingDown := t.shmShuttingDown
    shmComplete := t.shmComplete
    workPending := t.workPending }
  live : ∀ part, part.counted →
    (t.memory part = .live ↔ 0 < s.refcount - 1 ∧ (part = .device ∨ s.shm))
  registers : t.memory .registers = s.memory .registers
  region : t.memory .region = s.memory .region
  completed : s.shm → s.shmComplete ∨ s.refcount = 1 → t.shmComplete
  work : s.work ∨ t.workPending → s.workPending = t.workPending ∧ t.shmComplete = s.shmComplete

theorem Inv.put_of_one_lt (h : Inv s) (href : 1 < s.refcount) : Put s s.put := by
  have hput : s.put = { s with refcount := s.refcount - 1 } := by
    have huse : s.use [.device] = s := State.use_eq (by simpa using h.device (by omega))
    unfold State.put
    rw [huse]
    exact if_neg (show s.refcount - 1 ≠ 0 by omega)
  have hpos : 0 < s.refcount - 1 := by omega
  have hpos' : 0 < s.refcount := by omega
  rw [hput]
  refine ⟨rfl, ?_, rfl, rfl, ?_, fun _ => ⟨rfl, rfl⟩⟩
  · intro part hpart
    rw [h.live part hpart]
    simp only [hpos, hpos']
  · rintro - (hcomplete | hone)
    · exact hcomplete
    · omega

/-- The last reference frees what the device is made of. -/
theorem Inv.put_of_one (h : Inv s) (href : s.refcount = 1)
    (hidle : s.work = false ∧ s.workPending = false)
    (hregion : s.shm = true → s.shmComplete = false → s.memory .region = .live) :
    Put s s.put := by
  have hdevice := h.device (by omega)
  obtain ⟨hwork, hpending⟩ := hidle
  cases hshm : s.shm with
  | false =>
      have hdead : ∀ part ∈ shmParts, s.memory part ≠ .live := by
        intro part hpart hlive
        simp only [shmParts, List.mem_cons, List.not_mem_nil, or_false] at hpart
        have hshm' := ((h.live part (by rcases hpart with rfl | rfl | rfl <;> rfl)).mp hlive).2
        rw [hshm] at hshm'
        rcases hpart with rfl | rfl | rfl <;> simp at hshm'
      have hput : s.put = { s with
          refcount := 0
          memory := Function.update s.memory .device .gone } := by
        simp [State.put, State.destroy, State.release, State.use, hshm, hdevice, href]
      rw [hput]
      refine ⟨by rw [href], ?_, rfl, rfl, ?_, fun _ => ⟨rfl, rfl⟩⟩
      · intro part hpart
        refine iff_of_false ?_ (fun hpos => by omega)
        cases part with
        | device => simp
        | transport => exact hdead .transport (by decide)
        | txBatch => exact hdead .txBatch (by decide)
        | rxBatch => exact hdead .rxBatch (by decide)
        | registers | region => cases hpart
      · intro hshm'
        rw [hshm] at hshm'
        cases hshm'
  | true =>
      have htransport := h.shmLive (by omega) hshm (show .transport ∈ shmParts by decide)
      have htx := h.shmLive (by omega) hshm (show .txBatch ∈ shmParts by decide)
      have hrx := h.shmLive (by omega) hshm (show .rxBatch ∈ shmParts by decide)
      have hput : ∃ flag, s.put = { s with
          refcount := 0
          shmShuttingDown := flag
          shmComplete := true
          workPending := false
          memory := Function.update (Function.update (Function.update (Function.update s.memory
            .rxBatch .gone) .txBatch .gone) .transport .gone) .device .gone } := by
        cases hcomplete : s.shmComplete with
        | true =>
            refine ⟨s.shmShuttingDown, ?_⟩
            simp [State.put, State.destroy, State.releaseShm, State.release, State.use, hshm,
              hdevice, href, htransport, htx, hrx, hcomplete, hwork, hpending]
        | false =>
            refine ⟨true, ?_⟩
            simp [State.put, State.destroy, State.releaseShm, State.release, State.use, hshm,
              hdevice, href, htransport, htx, hrx, hcomplete, hwork, hregion hshm hcomplete]
      obtain ⟨flag, hput⟩ := hput
      rw [hput]
      refine ⟨by rw [href], ?_, rfl, rfl, fun _ _ => rfl, ?_⟩
      · intro part hpart
        refine iff_of_false ?_ (fun hpos => by omega)
        cases part with
        | device | transport | txBatch | rxBatch => simp
        | registers | region => cases hpart
      · rintro (hwork' | hpending')
        · exact absurd (hwork.symm.trans hwork') Bool.false_ne_true
        · cases hpending'

theorem Inv.put (h : Inv s) (href : 0 < s.refcount)
    (hidle : s.refcount = 1 → s.work = false ∧ s.workPending = false)
    (hregion : s.refcount = 1 → s.shm = true → s.shmComplete = false →
      s.memory .region = .live) : Put s s.put := by
  rcases Nat.lt_or_eq_of_le (Nat.succ_le_of_lt href) with hlt | hone
  · exact h.put_of_one_lt hlt
  · exact h.put_of_one hone.symm (hidle hone.symm) (hregion hone.symm)

/-- There is no work once the shutdown of the transport is complete. -/
theorem Inv.idle (h : Inv s) (hcompleted : s.shm = true → s.shmComplete = true) :
    s.work = false ∧ s.workPending = false := by
  have hnot : ¬ (s.work = true ∨ s.workPending = true) := by
    intro hwork
    obtain ⟨-, hshm, hcomplete⟩ := h.work hwork
    rw [hcompleted hshm] at hcomplete
    cases hcomplete
  simpa using hnot

end Sg200x.Ipc.Lifecycle
