import Sg200x.Ci.Digest

/-!
# The invalidation of layers

`scripts/ci/cache.py`: what is removed from the build root for a layer, and the loop over the
layers.
-/

namespace Sg200x.Ci

/-- The keys of `mappings`. -/
inductive Removal
  | firmware
  | fsbl
  | linux
  | osdrv
  | middleware
  | boot
  | rootfs
  deriving DecidableEq

def mappings : Removal → List String
  | .firmware => ["sg2002-ipc-build-stamp", "sg2002-ipc-stamp"]
  | .fsbl =>
      ["fsbl", "fsbl-prepare-checkout-stamp", "fsbl-prepare-patch-stamp", "fsbl-compile-stamp",
        "fsbl-package-stamp"]
  | .linux =>
      ["kernel", "linux-prepare-checkout-stamp", "linux-prepare-patch-stamp",
        "linux-prepare-configure-stamp", "linux-compile-stamp"]
  | .osdrv =>
      ["osdrv", "osdrv-prepare-checkout-stamp", "osdrv-prepare-patch-stamp",
        "osdrv-prepare-configure-stamp", "osdrv-compile-stamp", "osdrv-package-stamp"]
  | .middleware =>
      ["middleware", "middleware-prepare-checkout-stamp", "middleware-prepare-patch-stamp",
        "middleware-prepare-configure-stamp", "middleware-compile-stamp",
        "middleware-package-stamp"]
  | .boot =>
      ["u-boot", "opensbi", "fsbl", "uboot-prepare-checkout-stamp", "uboot-prepare-patch-stamp",
        "uboot-prepare-configure-stamp", "uboot-compile-stamp",
        "opensbi-prepare-checkout-stamp", "opensbi-prepare-patch-stamp",
        "opensbi-compile-stamp", "fsbl-prepare-checkout-stamp", "fsbl-prepare-patch-stamp",
        "fsbl-compile-stamp", "fsbl-package-stamp"]
  | .rootfs =>
      ["rootfs", "image-prepare-stamp", "image-addons-stamp", "image-customize-stamp",
        "image-compile-stamp"]

def downstream : Layer → List Removal
  | .firmware => [.firmware, .fsbl, .rootfs]
  | .linux => [.linux, .osdrv, .middleware, .rootfs]
  | .osdrv => [.osdrv, .middleware, .rootfs]
  | .middleware => [.middleware, .rootfs]
  | .boot => [.boot, .rootfs]
  | .rootfs => [.rootfs]

def layerCompletionPaths : Layer → List String
  | .firmware => ["sg2002-ipc-build-stamp"]
  | .linux => ["linux-compile-stamp", "kernel/.git/HEAD"]
  | .osdrv => ["osdrv-package-stamp", "osdrv/.git/HEAD"]
  | .middleware => ["middleware-package-stamp", "middleware/.git/HEAD"]
  | .boot => ["fsbl-package-stamp", "u-boot/.git/HEAD", "opensbi/.git/HEAD", "fsbl/.git/HEAD"]
  | .rootfs => ["image-compile-stamp", "rootfs"]

def rootfsReusableStampPrefixes : List String :=
  ["linux-", "osdrv-", "middleware-", "vcodec-firmware-", "uboot-", "opensbi-", "fsbl-"]

def rootfsReusableStamps : List String := ["cvi-pinmux-package-stamp", "sg2002-ipc-build-stamp"]

def rootfsStampIsReusable (name : Text) : Bool :=
  rootfsReusableStamps.any (fun stamp => name = stamp.toList) ||
    rootfsReusableStampPrefixes.any fun start => start.toList <+: name

/-- The build root is the list of the paths below it that exist; what is removed are entries of
the build root itself, with what is below. -/
def removePath (entries : List Path) (relative : String) : List Path :=
  entries.filter fun entry => entry.head? ≠ some relative.toList

/-- `build_root.glob("*-stamp")`, without the stamps that are reused. -/
def isRootfsStamp : Path → Bool
  | [name] => "-stamp".toList <:+ name && ! rootfsStampIsReusable name
  | _ => false

def invalidate (entries : List Path) (layer : Layer) : List Path :=
  let affected := downstream layer
  let removed := (affected.flatMap mappings).foldl removePath entries
  if .rootfs ∈ affected then removed.filter fun entry => ! isRootfsStamp entry else removed

def layerComplete (entries : List Path) (layer : Layer) : Bool :=
  (layerCompletionPaths layer).all fun relative => parts relative.toList ∈ entries

/-- The build root and the hashes of `.source-hashes.json`. -/
structure BuildRoot (δ : Type) where
  hashes : Layer → Option δ
  entries : List Path

variable {δ : Type} [DecidableEq δ]

/-- What is done for a layer whose digest is known. -/
def refresh (old : Layer → Option δ) (root : BuildRoot δ) (layer : Layer) (current : δ) :
    BuildRoot δ :=
  if some current ≠ old layer ∨ layerComplete root.entries layer = false then
    { hashes := Function.update root.hashes layer (some current)
      entries := invalidate root.entries layer }
  else root

section

variable (sha256 : Bytes → δ) (t : Tree) (repo configRoot : Path) (board storage : Text)

def digestPaths (paths : List Path) : δ := sha256 (digestStream t repo paths)

/-- The body of the loop over the layers. -/
def refreshLayer (old : Layer → Option δ) (root : BuildRoot δ) (layer : Layer) :
    Except Raised (BuildRoot δ) := do
  let inputs ← layerInputs t repo configRoot board storage layer
  return refresh old root layer (digestPaths sha256 t repo inputs)

/-- `main` without `--dry-run`: the hashes are compared with those of the last run. -/
def cacheLayers (root : BuildRoot δ) (layers : List Layer) : Except Raised (BuildRoot δ) :=
  layers.foldlM (refreshLayer sha256 t repo configRoot board storage root.hashes) root

/-- The hash of a layer in this checkout. -/
def HashOf (layer : Layer) (hash : Option δ) : Prop :=
  ∃ inputs, layerInputs t repo configRoot board storage layer = .ok inputs ∧
    hash = some (digestPaths sha256 t repo inputs)

end

/-- The entries that the invalidation of a layer leaves alone. -/
def spared (layer : Layer) (entry : Path) : Bool :=
  ((downstream layer).flatMap mappings).all
      (fun relative => entry.head? ≠ some relative.toList) &&
    ! isRootfsStamp entry

theorem foldl_removePath (entries : List Path) (removed : List String) :
    removed.foldl removePath entries = entries.filter fun entry =>
      removed.all fun relative => entry.head? ≠ some relative.toList := by
  induction removed generalizing entries with
  | nil => simp
  | cons relative removed ih =>
      rw [List.foldl_cons, ih, removePath, List.filter_filter]
      apply List.filter_congr
      intro entry _
      rw [List.all_cons, Bool.and_comm]

theorem rootfs_mem_downstream (layer : Layer) : .rootfs ∈ downstream layer := by
  cases layer <;> decide

theorem invalidate_eq (entries : List Path) (layer : Layer) :
    invalidate entries layer = entries.filter (spared layer) := by
  rw [invalidate, foldl_removePath]
  show (if _ then _ else _) = _
  rw [if_pos (rootfs_mem_downstream layer), List.filter_filter]
  apply List.filter_congr
  intro entry _
  rw [spared, Bool.and_comm]

section

variable {sha256 : Bytes → δ} {t : Tree} {repo configRoot : Path} {board storage : Text}
  {root mid left : BuildRoot δ} {done layers : List Layer}

omit [DecidableEq δ] in
theorem HashOf.unique {layer : Layer} {hash other : Option δ}
    (h : HashOf sha256 t repo configRoot board storage layer hash)
    (hother : HashOf sha256 t repo configRoot board storage layer other) : hash = other := by
  obtain ⟨inputs, hinputs, rfl⟩ := h
  obtain ⟨inputs', hinputs', rfl⟩ := hother
  rw [Except.ok.inj (hinputs.symm.trans hinputs')]

/-- What has become of a build root once these layers are done. -/
structure Swept (sha256 : Bytes → δ) (t : Tree) (repo configRoot : Path) (board storage : Text)
    (root : BuildRoot δ) (done : List Layer) (left : BuildRoot δ) : Prop where
  hashOf : ∀ layer ∈ done, HashOf sha256 t repo configRoot board storage layer (left.hashes layer)
  same : ∀ layer, layer ∉ done → left.hashes layer = root.hashes layer
  subset : ∀ entry ∈ left.entries, entry ∈ root.entries
  spared : ∀ layer ∈ done, root.hashes layer ≠ left.hashes layer →
    ∀ entry ∈ left.entries, spared layer entry = true
  /-- Entries that no layer tells apart stay or go together. -/
  together : ∀ entry ∈ left.entries, ∀ other ∈ root.entries,
    (∀ layer, Ci.spared layer entry = Ci.spared layer other) → other ∈ left.entries

omit [DecidableEq δ] in
theorem Swept.start : Swept sha256 t repo configRoot board storage root [] root where
  hashOf := by simp
  same := fun _ _ => rfl
  subset := fun _ h => h
  spared := by simp
  together := fun _ _ _ h _ => h

theorem Swept.next {layer : Layer} {inputs : List Path}
    (h : Swept sha256 t repo configRoot board storage root done mid)
    (hinputs : layerInputs t repo configRoot board storage layer = .ok inputs) :
    Swept sha256 t repo configRoot board storage root (done ++ [layer])
      (refresh root.hashes mid layer (digestPaths sha256 t repo inputs)) := by
  have hhash : HashOf sha256 t repo configRoot board storage layer
      (some (digestPaths sha256 t repo inputs)) := ⟨inputs, hinputs, rfl⟩
  generalize digestPaths sha256 t repo inputs = current at hhash
  rw [refresh]
  by_cases hchanged : some current ≠ root.hashes layer ∨ layerComplete mid.entries layer = false
  · rw [if_pos hchanged]
    refine ⟨?_, ?_, ?_, ?_, ?_⟩
    · intro other hother
      by_cases heq : other = layer
      · subst heq
        simpa using hhash
      · have hdone : other ∈ done := by simpa [heq] using hother
        simpa [heq] using h.hashOf other hdone
    · intro other hother
      simp only [List.mem_append, List.mem_singleton, not_or] at hother
      simpa [hother.2] using h.same other hother.1
    · intro entry hentry
      rw [invalidate_eq] at hentry
      exact h.subset entry (List.mem_of_mem_filter hentry)
    · intro other hother hne entry hentry
      rw [invalidate_eq, List.mem_filter] at hentry
      by_cases heq : other = layer
      · exact heq ▸ hentry.2
      · have hdone : other ∈ done := by simpa [heq] using hother
        exact h.spared other hdone (by simpa [heq] using hne) entry hentry.1
    · intro entry hentry other hother hsame
      rw [invalidate_eq, List.mem_filter] at hentry ⊢
      exact ⟨h.together entry hentry.1 other hother hsame, hsame layer ▸ hentry.2⟩
  · rw [if_neg hchanged]
    rw [not_or, not_not] at hchanged
    refine ⟨?_, ?_, h.subset, ?_, h.together⟩
    · intro other hother
      by_cases hdone : other ∈ done
      · exact h.hashOf other hdone
      · obtain rfl : other = layer := by simpa [hdone] using hother
        rw [h.same other hdone, ← hchanged.1]
        exact hhash
    · intro other hother
      exact h.same other fun hdone => hother (List.mem_append_left _ hdone)
    · intro other hother hne
      by_cases hdone : other ∈ done
      · exact h.spared other hdone hne
      · exact absurd (h.same other hdone).symm hne

/-- The loop starts with the first layer. -/
theorem refresh_of_foldlM {old : Layer → Option δ} {layer : Layer}
    (h : (layer :: layers).foldlM
      (refreshLayer sha256 t repo configRoot board storage old) mid = .ok left) :
    ∃ inputs, layerInputs t repo configRoot board storage layer = .ok inputs ∧
      layers.foldlM (refreshLayer sha256 t repo configRoot board storage old)
        (refresh old mid layer (digestPaths sha256 t repo inputs)) = .ok left := by
  rw [List.foldlM_cons, bind_eq_ok] at h
  obtain ⟨next, hnext, hloop⟩ := h
  simp only [refreshLayer, bind_eq_ok] at hnext
  obtain ⟨inputs, hinputs, hnext⟩ := hnext
  obtain rfl := Except.ok.inj hnext
  exact ⟨inputs, hinputs, hloop⟩

/-- The loop sweeps layer after layer. -/
theorem Swept.foldlM (h : Swept sha256 t repo configRoot board storage root done mid)
    (hloop : layers.foldlM (refreshLayer sha256 t repo configRoot board storage root.hashes) mid =
      .ok left) :
    Swept sha256 t repo configRoot board storage root (done ++ layers) left := by
  induction layers generalizing done mid with
  | nil =>
      obtain rfl := Except.ok.inj hloop
      simpa using h
  | cons layer layers ih =>
      obtain ⟨inputs, hinputs, hloop⟩ := refresh_of_foldlM hloop
      have hdone := ih (h.next hinputs) hloop
      rwa [List.append_assoc] at hdone

theorem swept_of_cacheLayers
    (h : cacheLayers sha256 t repo configRoot board storage root layers = .ok left) :
    Swept sha256 t repo configRoot board storage root layers left :=
  Swept.start.foldlM h

/-- Entries stay if each layer spares them or is left alone, its completion paths among them. -/
theorem kept_of_foldlM {old : Layer → Option δ} {kept : List Path}
    (h : layers.foldlM (refreshLayer sha256 t repo configRoot board storage old) mid = .ok left)
    (hmem : ∀ entry ∈ kept, entry ∈ mid.entries)
    (hlayers : ∀ layer ∈ layers, (∀ entry ∈ kept, Ci.spared layer entry = true) ∨
      HashOf sha256 t repo configRoot board storage layer (old layer) ∧
        ∀ relative ∈ layerCompletionPaths layer, parts relative.toList ∈ kept) :
    ∀ entry ∈ kept, entry ∈ left.entries := by
  induction layers generalizing mid with
  | nil => exact Except.ok.inj h ▸ hmem
  | cons layer layers ih =>
      obtain ⟨inputs, hinputs, hloop⟩ := refresh_of_foldlM h
      refine ih hloop ?_ fun other hother => hlayers other (List.mem_cons_of_mem _ hother)
      intro entry hentry
      rcases hlayers layer List.mem_cons_self with hspared | ⟨hhash, hpaths⟩
      · unfold refresh
        split_ifs
        · rw [invalidate_eq]
          exact List.mem_filter.mpr ⟨hmem entry hentry, hspared entry hentry⟩
        · exact hmem entry hentry
      · have hsame := hhash.unique ⟨inputs, hinputs, rfl⟩
        have hcomplete : layerComplete mid.entries layer = true :=
          List.all_eq_true.mpr fun relative hrelative =>
            decide_eq_true (hmem _ (hpaths relative hrelative))
        rw [refresh, if_neg (by rw [hsame, hcomplete]; simp)]
        exact hmem entry hentry

end

end Sg200x.Ci
