import Sg200x.Ipc.Handles
import Sg200x.Library.Custody

/-!
# What the handles hold

The descriptors and the block that a handle or a call on it holds, and how opening, closing and
the driver change who holds what.
-/

namespace Sg200x.Ipc.Handles

open Shm Library Library.Transition

variable {s t : State} {i : ℕ} {c : Caller} {fd : ℕ} {file : File} {address : ℕ}

/-! ## What a caller holds -/

/-- The descriptor of the device. -/
def Caller.device (c : Caller) : Option ℕ :=
  match c.pc with
  | .idle => c.handle.fd
  | .acquire fd | .waiting fd | .calloc fd _ | .initTx fd _ _ | .initRx fd _ _ | .eventfd fd _ _
  | .undoRx fd _ _ | .undoTx fd _ _ | .undoFree fd _ _ | .undoFd fd _ | .closeFd fd _ => some fd
  | .closePending _ | .closeRx _ | .closeTx _ | .closeFree _ => none

/-- The descriptor of the `eventfd`. -/
def Caller.pending (c : Caller) : Option ℕ :=
  match c.pc with
  | .idle => c.handle.privateData.map Private.pendingFd
  | .closeFd _ privateData => privateData.map Private.pendingFd
  | .closePending privateData => some privateData.pendingFd
  | _ => none

/-- The block, and which of its mutexes are initialised. -/
def Caller.locks (c : Caller) : Option (ℕ × Block) :=
  match c.pc with
  | .idle => c.handle.privateData.map fun privateData => (privateData.address, ⟨true, true⟩)
  | .closeFd _ privateData =>
      privateData.map fun privateData => (privateData.address, ⟨true, true⟩)
  | .closePending privateData => some (privateData.address, ⟨true, true⟩)
  | .eventfd _ _ address | .undoRx _ address _ | .closeRx address => some (address, ⟨true, true⟩)
  | .initRx _ _ address | .undoTx _ address _ | .closeTx address => some (address, ⟨true, false⟩)
  | .initTx _ _ address | .undoFree _ address _ | .closeFree address =>
      some (address, ⟨false, false⟩)
  | .acquire _ | .waiting _ | .calloc _ _ | .undoFd _ _ => none

def Caller.block (c : Caller) : Option ℕ := c.locks.map Prod.fst

/-- The descriptor of the owner of the transport. -/
def Caller.entitled (c : Caller) : Option ℕ :=
  match c.pc with
  | .idle => if c.handle.privateData.isSome then c.handle.fd else none
  | .waiting fd | .calloc fd _ | .initTx fd _ _ | .initRx fd _ _ | .eventfd fd _ _
  | .undoRx fd _ _ | .undoTx fd _ _ | .undoFree fd _ _ | .closeFd fd (some _) => some fd
  | _ => none

/-- The descriptor that has not become the owner. -/
def Caller.plain (c : Caller) : Option ℕ :=
  match c.pc with
  | .idle => if c.handle.privateData.isSome then none else c.handle.fd
  | .acquire fd | .closeFd fd none => some fd
  | _ => none

theorem Caller.device_of_entitled (h : c.entitled = some fd) : c.device = some fd := by
  obtain ⟨handle, pc, ret⟩ := c
  cases pc with
  | idle =>
      simp only [Caller.entitled] at h
      split_ifs at h
      exact h
  | closeFd fd privateData =>
      cases privateData with
      | none => cases h
      | some privateData => exact h
  | acquire | undoFd | closePending | closeRx | closeTx | closeFree => cases h
  | waiting | calloc | initTx | initRx | eventfd | undoRx | undoTx | undoFree => exact h

theorem Caller.device_of_plain (h : c.plain = some fd) : c.device = some fd := by
  obtain ⟨handle, pc, ret⟩ := c
  cases pc with
  | idle =>
      simp only [Caller.plain] at h
      split_ifs at h
      exact h
  | closeFd fd privateData =>
      cases privateData with
      | none => exact h
      | some privateData => cases h
  | acquire => exact h
  | waiting | calloc | initTx | initRx | eventfd | undoRx | undoTx | undoFree | undoFd
  | closePending | closeRx | closeTx | closeFree => cases h

/-- A handle that is open has been opened with success, and one that is not holds nothing. -/
def Caller.Formed (c : Caller) : Prop :=
  match c.pc with
  | .idle =>
      (∀ privateData, c.handle.privateData = some privateData →
        c.handle.fd.isSome ∧ privateData.sharedMemoryEnabled = true) ∧
      (c.ret = some 0 → c.handle.fd.isSome) ∧
      ∀ ret, c.ret = some ret → ret ≠ 0 → ret ≠ -(ealready : ℕ) → c.handle = .closed
  | .closeFd _ _ | .closePending _ | .closeRx _ | .closeTx _ | .closeFree _ => True
  | _ => c.handle = .closed

/-! ## The owner -/

def Object.toFile : Object → Option File
  | .device file => some file
  | _ => none

/-- The open file of a descriptor. -/
def State.files (s : State) (fd : ℕ) : Option File := (s.fds fd).bind Object.toFile

theorem State.files_eq_some : s.files fd = some file ↔ s.fds fd = some (.device file) := by
  unfold State.files
  cases s.fds fd with
  | none => simp
  | some object => cases object <;> simp [Object.toFile]

/-- The device descriptors, and the handles that own the transport of the last probe. -/
structure Owned (callers : ℕ → Caller) (files : ℕ → Option File) (owner : Option File)
    (nextFile probed : ℕ) (shuttingDown : Bool) : Prop where
  devices : Custody (fun fd => (files fd).isSome = true) (Caller.device ∘ callers)
  distinct : ∀ fd fd' file, files fd = some file → files fd' = some file → fd = fd'
  fresh : ∀ fd file, files fd = some file → file.id < nextFile
  older : ∀ fd file, files fd = some file → file.transport ≤ probed
  current : ∀ file, owner = some file → file.transport = probed ∧ ∃ fd, files fd = some file
  entitled : shuttingDown = false → ∀ i fd file, (callers i).entitled = some fd →
    files fd = some file → file.transport = probed → owner = some file
  plain : shuttingDown = false → ∀ i fd file, (callers i).plain = some fd →
    files fd = some file → owner ≠ some file

variable {callers : ℕ → Caller} {files : ℕ → Option File} {owner : Option File}
  {nextFile probed : ℕ} {shuttingDown : Bool}

theorem update_caller {p : ℕ → Caller → Prop} (hself : p i c) (hother : ∀ j, j ≠ i → p j (callers j)) :
    ∀ j, p j (Function.update callers i c j) := by
  intro j
  by_cases hne : j = i
  · subst hne
    rw [Function.update_self]
    exact hself
  · rw [Function.update_of_ne hne]
    exact hother j hne

theorem comp_update_same {α : Type} (f : Caller → α) (h : f c = f (callers i)) :
    f ∘ Function.update callers i c = f ∘ callers := by
  rw [Function.comp_update, h]
  exact Function.update_eq_self i (f ∘ callers)

/-- The caller keeps its descriptor. -/
theorem Owned.setCaller (h : Owned callers files owner nextFile probed shuttingDown)
    (hdevice : c.device = (callers i).device)
    (hentitled : ∀ fd, c.entitled = some fd → (callers i).entitled = some fd)
    (hplain : shuttingDown = false → ∀ fd file, c.plain = some fd → files fd = some file →
      owner ≠ some file) :
    Owned (Function.update callers i c) files owner nextFile probed shuttingDown where
  devices := by
    rw [comp_update_same _ hdevice]
    exact h.devices
  distinct := h.distinct
  fresh := h.fresh
  older := h.older
  current := h.current
  entitled hrunning := update_caller
    (p := fun _ c => ∀ fd file, c.entitled = some fd → files fd = some file →
      file.transport = probed → owner = some file)
    (fun fd file hfd => h.entitled hrunning i fd file (hentitled fd hfd))
    fun j _ => h.entitled hrunning j
  plain hrunning := update_caller
    (p := fun _ c => ∀ fd file, c.plain = some fd → files fd = some file → owner ≠ some file)
    (hplain hrunning) fun j _ => h.plain hrunning j

/-- The driver makes the file of the caller the owner. -/
theorem Owned.acquire (h : Owned callers files owner nextFile probed shuttingDown)
    (hdevice : c.device = (callers i).device) (hfd : (callers i).device = some fd)
    (hfile : files fd = some file) (htransport : file.transport = probed)
    (hfree : owner = none ∨ owner = some file) (hentitled : c.entitled = some fd)
    (hplain : c.plain = none) :
    Owned (Function.update callers i c) files (some file) nextFile probed shuttingDown where
  devices := by
    rw [comp_update_same _ hdevice]
    exact h.devices
  distinct := h.distinct
  fresh := h.fresh
  older := h.older
  current file' heq := by
    rw [← Option.some.inj heq]
    exact ⟨htransport, fd, hfile⟩
  entitled hrunning := update_caller
    (p := fun _ c => ∀ fd file', c.entitled = some fd → files fd = some file' →
      file'.transport = probed → some file = some file')
    (by
      intro fd' file' hfd' hfile' _
      rw [hentitled, Option.some.injEq] at hfd'
      rw [← hfile, ← hfile', hfd'])
    (by
      intro j _ fd' file' hfd' hfile' htransport'
      have howner := h.entitled hrunning j fd' file' hfd' hfile' htransport'
      rcases hfree with hnone | hsome
      · rw [hnone] at howner
        cases howner
      · rw [← hsome, howner])
  plain hrunning := update_caller
    (p := fun _ c => ∀ fd file', c.plain = some fd → files fd = some file' →
      some file ≠ some file')
    (by
      intro fd' file' hfd'
      rw [hplain] at hfd'
      cases hfd')
    (by
      intro j hne fd' file' hfd' hfile' heq
      rw [← Option.some.inj heq] at hfile'
      rw [h.distinct fd' fd file hfile' hfile] at hfd'
      exact h.devices.ne_of_ne hfd hne (Caller.device_of_plain hfd'))

/-- The owner, once the file of a descriptor has been released. -/
def released (files : ℕ → Option File) (owner : Option File) (fd : ℕ) : Option File :=
  if files fd = none ∨ owner ≠ files fd then owner else none

theorem released_eq_some (h : released files owner fd = some file) :
    owner = some file ∧ files fd ≠ some file := by
  unfold released at h
  split_ifs at h with hother
  refine ⟨h, ?_⟩
  intro hfile
  rcases hother with hnone | hne
  · rw [hnone] at hfile
    cases hfile
  · exact hne (h.trans hfile.symm)

theorem released_of_ne (howner : owner = some file) (hne : files fd ≠ some file) :
    released files owner fd = some file := by
  unfold released
  rw [if_pos, howner]
  right
  rw [howner]
  exact hne.symm

/-- The caller gives the transport back and keeps its descriptor. -/
theorem Owned.release (h : Owned callers files owner nextFile probed shuttingDown)
    (hdevice : c.device = (callers i).device) (hfd : (callers i).device = some fd)
    (hentitled : c.entitled = none) :
    Owned (Function.update callers i c) files (released files owner fd) nextFile probed
      shuttingDown where
  devices := by
    rw [comp_update_same _ hdevice]
    exact h.devices
  distinct := h.distinct
  fresh := h.fresh
  older := h.older
  current file heq := h.current file (released_eq_some heq).1
  entitled hrunning := update_caller
    (p := fun _ c => ∀ fd' file, c.entitled = some fd' → files fd' = some file →
      file.transport = probed → released files owner fd = some file)
    (by
      intro fd' file' hfd'
      rw [hentitled] at hfd'
      cases hfd')
    (by
      intro j hne fd' file hfd' hfile htransport
      apply released_of_ne (h.entitled hrunning j fd' file hfd' hfile htransport)
      intro hsame
      rw [h.distinct fd' fd file hfile hsame] at hfd'
      exact h.devices.ne_of_ne hfd hne (Caller.device_of_entitled hfd'))
  plain hrunning := update_caller
    (p := fun _ c => ∀ fd' file, c.plain = some fd' → files fd' = some file →
      released files owner fd ≠ some file)
    (by
      intro fd' file hfd' hfile heq
      have hsame := Caller.device_of_plain hfd'
      rw [hdevice, hfd, Option.some.injEq] at hsame
      rw [← hsame] at hfile
      exact (released_eq_some heq).2 hfile)
    (by
      intro j _ fd' file hfd' hfile heq
      exact h.plain hrunning j fd' file hfd' hfile (released_eq_some heq).1)

/-- The caller closes its descriptor. -/
theorem Owned.close (h : Owned callers files owner nextFile probed shuttingDown)
    (hfd : (callers i).device = some fd) (hdevice : c.device = none) :
    Owned (Function.update callers i c) (Function.update files fd none)
      (released files owner fd) nextFile probed shuttingDown := by
  have hkept : ∀ fd' file, Function.update files fd none fd' = some file →
      fd' ≠ fd ∧ files fd' = some file := by
    intro fd' file hfile
    by_cases hne : fd' = fd
    · rw [hne, Function.update_self] at hfile
      cases hfile
    · rw [Function.update_of_ne hne] at hfile
      exact ⟨hne, hfile⟩
  have hentitled : c.entitled = none := by
    apply Option.eq_none_iff_forall_ne_some.mpr
    intro fd' hfd'
    rw [Caller.device_of_entitled hfd'] at hdevice
    cases hdevice
  have hplain : c.plain = none := by
    apply Option.eq_none_iff_forall_ne_some.mpr
    intro fd' hfd'
    rw [Caller.device_of_plain hfd'] at hdevice
    cases hdevice
  refine ⟨?_, ?_, ?_, ?_, ?_, ?_, ?_⟩
  · rw [Function.comp_update, hdevice]
    apply h.devices.release hfd
    intro fd'
    by_cases hne : fd' = fd
    · rw [hne, Function.update_self]
      simp
    · rw [Function.update_of_ne hne]
      simp [hne]
  · intro fd' fd'' file h' h''
    exact h.distinct fd' fd'' file (hkept fd' file h').2 (hkept fd'' file h'').2
  · intro fd' file h'
    exact h.fresh fd' file (hkept fd' file h').2
  · intro fd' file h'
    exact h.older fd' file (hkept fd' file h').2
  · intro file heq
    obtain ⟨howner, hne⟩ := released_eq_some heq
    obtain ⟨htransport, fd', hfile⟩ := h.current file howner
    refine ⟨htransport, fd', ?_⟩
    rw [Function.update_of_ne, hfile]
    intro hsame
    exact hne (hsame ▸ hfile)
  · intro hrunning
    apply update_caller (p := fun _ c => ∀ fd' file, c.entitled = some fd' →
      Function.update files fd none fd' = some file → file.transport = probed →
        released files owner fd = some file)
    · intro fd' file hfd'
      rw [hentitled] at hfd'
      cases hfd'
    · intro j _ fd' file hfd' hfile htransport
      obtain ⟨hne, hfile'⟩ := hkept fd' file hfile
      apply released_of_ne (h.entitled hrunning j fd' file hfd' hfile' htransport)
      exact fun hsame => hne (h.distinct fd' fd file hfile' hsame)
  · intro hrunning
    apply update_caller (p := fun _ c => ∀ fd' file, c.plain = some fd' →
      Function.update files fd none fd' = some file → released files owner fd ≠ some file)
    · intro fd' file hfd'
      rw [hplain] at hfd'
      cases hfd'
    · intro j _ fd' file hfd' hfile heq
      exact h.plain hrunning j fd' file hfd' (hkept fd' file hfile).2 (released_eq_some heq).1

/-- The caller opens the device. -/
theorem Owned.open (h : Owned callers files owner nextFile probed shuttingDown)
    (hnone : (callers i).device = none) (hfree : files fd = none) (hdevice : c.device = some fd)
    (hentitled : c.entitled = none) :
    Owned (Function.update callers i c) (Function.update files fd (some ⟨probed, nextFile⟩))
      owner (nextFile + 1) probed shuttingDown := by
  have hcases : ∀ fd' file, Function.update files fd (some ⟨probed, nextFile⟩) fd' = some file →
      fd' = fd ∧ file = ⟨probed, nextFile⟩ ∨ fd' ≠ fd ∧ files fd' = some file := by
    intro fd' file hfile
    by_cases hne : fd' = fd
    · rw [hne, Function.update_self] at hfile
      exact .inl ⟨hne, (Option.some.inj hfile).symm⟩
    · rw [Function.update_of_ne hne] at hfile
      exact .inr ⟨hne, hfile⟩
  have hnew : ∀ fd' file, files fd' = some file → file ≠ ⟨probed, nextFile⟩ := by
    intro fd' file hfile heq
    have hlt := h.fresh fd' file hfile
    rw [heq] at hlt
    exact Nat.lt_irrefl _ hlt
  have howner : ∀ file, owner = some file → file ≠ ⟨probed, nextFile⟩ := by
    intro file heq
    obtain ⟨-, fd', hfile⟩ := h.current file heq
    exact hnew fd' file hfile
  refine ⟨?_, ?_, ?_, ?_, ?_, ?_, ?_⟩
  · rw [Function.comp_update, hdevice]
    apply h.devices.acquire hnone
    · rw [hfree]
      exact Bool.false_ne_true
    · intro fd'
      by_cases hne : fd' = fd
      · rw [hne, Function.update_self]
        simp
      · rw [Function.update_of_ne hne]
        simp [hne]
  · intro fd' fd'' file h' h''
    rcases hcases fd' file h' with ⟨h1, hfile⟩ | ⟨-, h1⟩ <;>
      rcases hcases fd'' file h'' with ⟨h2, hfile'⟩ | ⟨-, h2⟩
    · rw [h1, h2]
    · exact absurd hfile (hnew fd'' file h2)
    · exact absurd hfile' (hnew fd' file h1)
    · exact h.distinct fd' fd'' file h1 h2
  · intro fd' file h'
    rcases hcases fd' file h' with ⟨-, hfile⟩ | ⟨-, hfile⟩
    · rw [hfile]
      exact Nat.lt_succ_self _
    · exact Nat.lt_succ_of_lt (h.fresh fd' file hfile)
  · intro fd' file h'
    rcases hcases fd' file h' with ⟨-, hfile⟩ | ⟨-, hfile⟩
    · rw [hfile]
    · exact h.older fd' file hfile
  · intro file heq
    obtain ⟨htransport, fd', hfile⟩ := h.current file heq
    refine ⟨htransport, fd', ?_⟩
    rw [Function.update_of_ne, hfile]
    intro hsame
    rw [hsame, hfree] at hfile
    cases hfile
  · intro hrunning
    apply update_caller (p := fun _ c => ∀ fd' file, c.entitled = some fd' →
      Function.update files fd (some ⟨probed, nextFile⟩) fd' = some file →
        file.transport = probed → owner = some file)
    · intro fd' file hfd'
      rw [hentitled] at hfd'
      cases hfd'
    · intro j _ fd' file hfd' hfile
      rcases hcases fd' file hfile with ⟨hsame, -⟩ | ⟨-, hfile'⟩
      · have hlive := h.devices.sound j fd' (Caller.device_of_entitled hfd')
        rw [hsame, hfree] at hlive
        cases hlive
      · exact h.entitled hrunning j fd' file hfd' hfile'
  · intro hrunning
    apply update_caller (p := fun _ c => ∀ fd' file, c.plain = some fd' →
      Function.update files fd (some ⟨probed, nextFile⟩) fd' = some file → owner ≠ some file)
    · intro fd' file hfd' hfile heq
      have hsame := Caller.device_of_plain hfd'
      rw [hdevice, Option.some.injEq] at hsame
      rcases hcases fd' file hfile with ⟨-, hnew'⟩ | ⟨hne, -⟩
      · exact howner file heq hnew'
      · exact hne hsame.symm
    · intro j _ fd' file hfd' hfile
      rcases hcases fd' file hfile with ⟨hsame, -⟩ | ⟨-, hfile'⟩
      · have hlive := h.devices.sound j fd' (Caller.device_of_plain hfd')
        rw [hsame, hfree] at hlive
        cases hlive
      · exact h.plain hrunning j fd' file hfd' hfile'

/-! ## The blocks -/

structure Blocks (callers : ℕ → Caller) (blocks : ℕ → Option Block) : Prop where
  custody : Custody (fun address => (blocks address).isSome = true) (Caller.block ∘ callers)
  locks : ∀ i address block, (callers i).locks = some (address, block) →
    blocks address = some block

variable {blocks : ℕ → Option Block} {block block' : Block}

theorem Caller.block_of_locks (h : c.locks = some (address, block)) : c.block = some address := by
  rw [Caller.block, h]
  rfl

theorem Caller.block_of_locks_none (h : c.locks = none) : c.block = none := by
  rw [Caller.block, h]
  rfl

theorem Blocks.setCaller (h : Blocks callers blocks) (hlocks : c.locks = (callers i).locks) :
    Blocks (Function.update callers i c) blocks where
  custody := by
    rw [comp_update_same Caller.block (by rw [Caller.block, Caller.block, hlocks])]
    exact h.custody
  locks := update_caller
    (p := fun _ c => ∀ address block, c.locks = some (address, block) →
      blocks address = some block)
    (by
      intro address block hc
      exact h.locks i address block (hlocks ▸ hc))
    fun j _ => h.locks j

/-- Another mutex of the block is initialised or destroyed. -/
theorem Blocks.change (h : Blocks callers blocks)
    (hold : (callers i).locks = some (address, block)) (hlocks : c.locks = some (address, block')) :
    Blocks (Function.update callers i c) (Function.update blocks address (some block')) := by
  have hblock := Caller.block_of_locks hold
  have hlive := h.locks i address block hold
  refine ⟨?_, ?_⟩
  · rw [comp_update_same Caller.block (by rw [hblock, Caller.block_of_locks hlocks])]
    apply h.custody.congr
    intro a
    by_cases hne : a = address
    · rw [hne, Function.update_self, hlive]
      simp
    · rw [Function.update_of_ne hne]
  · apply update_caller (p := fun _ c => ∀ a b, c.locks = some (a, b) →
      Function.update blocks address (some block') a = some b)
    · intro a b hc
      rw [hlocks, Option.some.injEq, Prod.mk.injEq] at hc
      rw [← hc.1, ← hc.2, Function.update_self]
    · intro j hne a b hj
      rw [Function.update_of_ne, h.locks j a b hj]
      intro heq
      rw [heq] at hj
      exact h.custody.ne_of_ne hblock hne (Caller.block_of_locks hj)

theorem Blocks.alloc (h : Blocks callers blocks) (hold : (callers i).locks = none)
    (hfree : blocks address = none) (hlocks : c.locks = some (address, block)) :
    Blocks (Function.update callers i c) (Function.update blocks address (some block)) := by
  refine ⟨?_, ?_⟩
  · rw [Function.comp_update, Caller.block_of_locks hlocks]
    apply h.custody.acquire (Caller.block_of_locks_none hold)
    · rw [hfree]
      exact Bool.false_ne_true
    · intro a
      by_cases hne : a = address
      · rw [hne, Function.update_self]
        simp
      · rw [Function.update_of_ne hne]
        simp [hne]
  · apply update_caller (p := fun _ c => ∀ a b, c.locks = some (a, b) →
      Function.update blocks address (some block) a = some b)
    · intro a b hc
      rw [hlocks, Option.some.injEq, Prod.mk.injEq] at hc
      rw [← hc.1, ← hc.2, Function.update_self]
    · intro j _ a b hj
      have hlive := h.locks j a b hj
      rw [Function.update_of_ne, hlive]
      intro heq
      rw [heq, hfree] at hlive
      cases hlive

theorem Blocks.free (h : Blocks callers blocks) (hold : (callers i).locks = some (address, block))
    (hlocks : c.locks = none) :
    Blocks (Function.update callers i c) (Function.update blocks address none) := by
  have hblock := Caller.block_of_locks hold
  refine ⟨?_, ?_⟩
  · rw [Function.comp_update, Caller.block_of_locks_none hlocks]
    apply h.custody.release hblock
    intro a
    by_cases hne : a = address
    · rw [hne, Function.update_self]
      simp
    · rw [Function.update_of_ne hne]
      simp [hne]
  · apply update_caller (p := fun _ c => ∀ a b, c.locks = some (a, b) →
      Function.update blocks address none a = some b)
    · intro a b hc
      rw [hlocks] at hc
      cases hc
    · intro j hne a b hj
      rw [Function.update_of_ne, h.locks j a b hj]
      intro heq
      rw [heq] at hj
      exact h.custody.ne_of_ne hblock hne (Caller.block_of_locks hj)

end Sg200x.Ipc.Handles
