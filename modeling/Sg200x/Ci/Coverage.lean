import Sg200x.Ci.Chain
import Sg200x.Ci.Recipes

/-!
# What the input lists cover

The targets that the invalidation of a layer removes, and the files that their recipes read
although none of these layers lists them.
-/

namespace Sg200x.Ci

/-- The targets whose artifacts `mappings` lists. -/
def clears : Removal → Target → Bool
  | .firmware, .sg2002Ipc | .fsbl, .fsbl | .linux, .linux | .osdrv, .osdrv => true
  | .middleware, .middleware | .rootfs, .image => true
  | .boot, .uboot | .boot, .opensbi | .boot, .fsbl => true
  | _, _ => false

/-- The targets that the invalidation of a layer removes. -/
def removes (layer : Layer) (target : Target) : Bool :=
  (downstream layer).any fun removal => clears removal target

/-- What uses a removed target is removed as well. -/
theorem removes_of_uses {layer : Layer} {target used : Target} (h : used ∈ uses target)
    (hremoves : removes layer used = true) : removes layer target = true := by
  have hall : ((uses target).all fun used => ! removes layer used || removes layer target) =
      true := by
    cases layer <;> cases target <;> rfl
  have hused := List.all_eq_true.mp hall used h
  simpa [hremoves] using hused

/-- A removal lists all artifacts of a target or none. -/
theorem mem_mappings_iff {removal : Removal} {target : Target} {name : String}
    (h : name ∈ artifacts target) : name ∈ mappings removal ↔ clears removal target = true := by
  have hall : ((artifacts target).all fun name =>
      decide (name ∈ mappings removal) == clears removal target) = true := by
    cases removal <;> cases target <;> decide +kernel
  have hname := List.all_eq_true.mp hall name h
  rw [beq_iff_eq] at hname
  rw [← hname, decide_eq_true_iff]

theorem isRootfsStamp_of_reusable {start rest : String}
    (h : start ∈ rootfsReusableStampPrefixes) :
    isRootfsStamp (artifact (start ++ rest)) = false := by
  have hreusable : rootfsStampIsReusable (start ++ rest).toList = true := by
    rw [rootfsStampIsReusable, Bool.or_eq_true]
    right
    rw [List.any_eq_true]
    refine ⟨start, h, ?_⟩
    rw [String.toList_append, decide_eq_true_iff]
    exact List.prefix_append _ _
  show (decide _ && ! rootfsStampIsReusable (start ++ rest).toList) = false
  rw [hreusable, Bool.not_true, Bool.and_false]

/-- The stamps that an invalidated image leaves alone. -/
theorem isRootfsStamp_artifact {target : Target} {name : String} (h : name ∈ artifacts target)
    (htarget : target ≠ .image) : isRootfsStamp (artifact name) = false := by
  have hstamps : ∀ {start : String} {steps : List String},
      start ∈ rootfsReusableStampPrefixes → name ∈ stamps start steps →
      isRootfsStamp (artifact name) = false := by
    intro start steps hstart hname
    obtain ⟨step, -, rfl⟩ := List.mem_map.mp hname
    rw [String.append_assoc]
    exact isRootfsStamp_of_reusable hstart
  cases target with
  | sg2002Ipc | cviPinmux =>
      rw [List.mem_singleton.mp h]
      decide +kernel
  | linux | osdrv | middleware | vcodecFirmware | uboot | opensbi | fsbl =>
      rcases List.mem_cons.mp h with rfl | hname
      · decide +kernel
      · exact hstamps (by decide) hname
  | image => exact absurd rfl htarget

/-- An invalidation removes all of a target or nothing. -/
theorem spared_artifact {layer : Layer} {target : Target} {name : String}
    (h : name ∈ artifacts target) :
    spared layer (artifact name) = ! removes layer target := by
  have hkept : ((downstream layer).flatMap mappings).all (fun relative =>
      (artifact name).head? ≠ some relative.toList) = ! removes layer target := by
    rw [Bool.eq_iff_iff, List.all_eq_true, Bool.not_eq_true', removes, List.any_eq_false]
    constructor
    · intro hkept removal hremoval hclears
      have hmem := (mem_mappings_iff h).mpr hclears
      have hne := hkept name (List.mem_flatMap.mpr ⟨removal, hremoval, hmem⟩)
      exact of_decide_eq_true hne rfl
    · intro hclear relative hrelative
      apply decide_eq_true
      intro heq
      have hname : name = relative := String.toList_inj.mp (Option.some.inj heq)
      obtain ⟨removal, hremoval, hmem⟩ := List.mem_flatMap.mp hrelative
      exact hclear removal hremoval ((mem_mappings_iff h).mp (hname ▸ hmem))
  rw [spared, hkept]
  cases hremoves : removes layer target with
  | true => rfl
  | false =>
      have htarget : target ≠ .image := by
        rintro rfl
        have himage : removes layer .image = true := by cases layer <;> rfl
        rw [himage] at hremoves
        exact absurd hremoves (by decide)
      rw [isRootfsStamp_artifact h htarget]
      rfl

/-- The files that the recipes read and that no layer lists whose invalidation removes the
target. -/
def unlistedFiles (t : Tree) (repo configRoot : Path) (board : Text) : Target → List Path
  | .sg2002Ipc =>
      (component repo).slash "tools/check_trace_layout.py" ::
        boardChainFiles t repo configRoot board
  | .linux => [repo.slash "scripts/ci/validate.py", repo.slash "scripts/ci/plan.py"]
  | .osdrv => [(component repo).slash "include/sg2002_rtos_shm.h", deb repo "cvitek-osdrv"]
  | .middleware => [deb repo "cvitek-middleware"]
  | .vcodecFirmware => [deb repo "firmware-vcodec-cv181x"]
  | .uboot => [repo.slash "scripts/python/XmlParser.py"]
  | .opensbi => []
  | .fsbl => [deb repo "cvitek-fsbl"]
  | .cviPinmux => []
  | .image =>
      repo.slash "scripts/python/XmlParser.py" :: boardChainFiles t repo configRoot board

variable {t : Tree} {repo configRoot : Path} {board storage : Text} {own inputs : List Path}
  {target : Target} {layer : Layer} {path : Path}

/-- A path that is, or lies below, an input of a layer whose invalidation removes the target. -/
def Listed (t : Tree) (repo configRoot : Path) (board storage : Text) (target : Target)
    (path : Path) : Prop :=
  ∃ layer inputs input rest, removes layer target = true ∧
    layerInputs t repo configRoot board storage layer = .ok inputs ∧ input ∈ inputs ∧
    parent ∉ rest ∧ path = input ++ rest

theorem Listed.of_mem (hremoves : removes layer target = true)
    (hinputs : layerInputs t repo configRoot board storage layer = .ok inputs)
    (h : path ∈ inputs) : Listed t repo configRoot board storage target path :=
  ⟨layer, inputs, path, [], hremoves, hinputs, h, by simp, by simp⟩

theorem ownInputs_of_layerInputs
    (h : layerInputs t repo configRoot board storage layer = .ok inputs) :
    ∃ shared own, commonInputs t repo configRoot board = .ok shared ∧
      ownInputs t repo configRoot board storage layer = .ok own ∧ inputs = shared ++ own := by
  simp only [layerInputs, bind_eq_ok] at h
  obtain ⟨shared, hshared, own, hown, hinputs⟩ := h
  exact ⟨shared, own, hshared, hown, (Except.ok.inj hinputs).symm⟩

theorem resolved_eq {relative : String}
    (h : resolveFile t configRoot board relative.toList = .ok path) :
    resolved t configRoot board relative = [path] := by
  rw [resolved, h]
  rfl

theorem boardPatches_eq {patchComponent : String} {patches : List Path}
    (h : patchFiles t configRoot board patchComponent.toList = .ok patches) :
    boardPatches t configRoot board patchComponent = patches := by
  rw [boardPatches, h]
  rfl

/-- The device trees come from a layer of the board or from the common layer. -/
theorem mem_boardDtsDir {chain : List Text} (hchain : boardChain t configRoot board = .ok chain)
    (h : path ∈ boardDtsDir t configRoot board) :
    path = configRoot.slash "common/dts" ∨ path ∈ layerDeviceTrees configRoot chain := by
  rw [boardDtsDir] at h
  cases hdir : resolveDirectory t configRoot board "dts".toList with
  | error raised =>
      rw [hdir] at h
      exact nomatch h
  | ok dir =>
      rw [hdir] at h
      obtain rfl : path = dir := List.mem_singleton.mp h
      obtain ⟨layer, hlayer, rfl⟩ := resolveDirectory_spec hchain hdir
      by_cases hcommon : layer = common
      · subst hcommon
        left
        show configRoot ++ [common] ++ ["dts".toList] = configRoot ++ [common, "dts".toList]
        simp
      · right
        exact List.mem_map.mpr ⟨layer, List.mem_filter.mpr ⟨hlayer, by simpa using hcommon⟩, rfl⟩

theorem firmwareInputs_covers (h : firmwareInputs t repo configRoot board = .ok own)
    (hpath : path ∈ firmwareFiles t repo configRoot board) :
    path ∈ own ∨ path = (component repo).slash "tools/check_trace_layout.py" ∨
      path ∈ boardChainFiles t repo configRoot board := by
  rw [firmwareInputs, bind_eq_ok] at h
  obtain ⟨memmap, hmemmap, hown⟩ := h
  obtain rfl := Except.ok.inj hown
  rw [firmwareFiles, resolved_eq hmemmap, List.mem_append] at hpath
  rcases hpath with hread | hmore
  · exact Or.inl hread
  · exact Or.inr (List.mem_cons.mp hmore)

theorem linuxInputs_covers (h : linuxInputs t repo configRoot board = .ok own) :
    boardPatches t configRoot board "linux" ++ resolved t configRoot board "linux/defconfig" ++
        [configRoot.slash "common/dts"] ++ boardDtsDir t configRoot board ++
        [repo.slash "scripts/python/mmap_conv.py"] ++ resolved t configRoot board "memmap.py" ⊆
      own := by
  simp only [linuxInputs, bind_eq_ok] at h
  obtain ⟨defconfig, hdefconfig, memmap, hmemmap, chain, hchain, patches, hpatches, hown⟩ := h
  obtain rfl := Except.ok.inj hown
  rw [boardPatches_eq hpatches, resolved_eq hdefconfig, resolved_eq hmemmap]
  intro path hpath
  simp only [List.mem_append, List.mem_singleton] at hpath
  simp only [List.mem_append, List.mem_cons, List.not_mem_nil, or_false]
  rcases hpath with ((((hpatch | rfl) | rfl) | hdts) | rfl) | rfl
  · exact Or.inr hpatch
  · simp
  · simp
  · rcases mem_boardDtsDir hchain hdts with rfl | hlayer
    · simp
    · exact Or.inl (Or.inr hlayer)
  · simp
  · simp

theorem osdrvInputs_covers (h : osdrvInputs t repo configRoot board = .ok own) :
    boardPatches t configRoot board "osdrv" ++ [(component repo).slash "ports/osdrv"] ⊆ own := by
  simp only [osdrvInputs, bind_eq_ok] at h
  obtain ⟨patches, hpatches, hown⟩ := h
  obtain rfl := Except.ok.inj hown
  rw [boardPatches_eq hpatches]
  exact fun _ hpath => hpath

theorem middlewareInputs_covers (h : middlewareInputs t configRoot board = .ok own) :
    boardPatches t configRoot board "middleware" ++
      boardPatches t configRoot board "sensorsupportlist" ⊆ own := by
  simp only [middlewareInputs, bind_eq_ok] at h
  obtain ⟨patches, hpatches, sensors, hsensors, hown⟩ := h
  obtain rfl := Except.ok.inj hown
  rw [boardPatches_eq hpatches, boardPatches_eq hsensors]
  exact fun _ hpath => hpath

/-- What the recipes of the boot targets read and the boot layer lists. -/
theorem bootInputs_covers (h : bootInputs t repo configRoot board storage = .ok own) :
    boardPatches t configRoot board "u-boot" ++
        resolved t configRoot board "u-boot/defconfig" ++ [configRoot.slash "common/dts"] ++
        boardDtsDir t configRoot board ++ resolved t configRoot board "u-boot/cvitek.h" ++
        resolved t configRoot board "u-boot/cvi_board_init.c" ++
        [repo.slash "scripts/python/mmap_conv.py"] ++ resolved t configRoot board "memmap.py" ++
        [repo.slash "scripts/python/mkcvipart.py", repo.slash "scripts/python/mk_imgHeader.py"] ++
        boardPartitionFile t configRoot board storage ++
        boardPatches t configRoot board "opensbi" ++ boardPatches t configRoot board "fsbl" ⊆
      own := by
  simp only [bootInputs, bind_eq_ok] at h
  obtain ⟨settings, hsettings, memmap, hmemmap, partitions, hpartitions, chain, hchain, defconfig,
    hdefconfig, header, hheader, init, hinit, uboot, huboot, opensbi, hopensbi, fsbl, hfsbl,
    hown⟩ := h
  obtain rfl := Except.ok.inj hown
  have hpartition : boardPartitionFile t configRoot board storage = partitions := by
    rw [boardPartitionFile, hsettings]
    show shell (partitionInputs t configRoot board (partitionFile settings storage)) = _
    rw [hpartitions]
    rfl
  rw [boardPatches_eq huboot, boardPatches_eq hopensbi, boardPatches_eq hfsbl,
    resolved_eq hdefconfig, resolved_eq hheader, resolved_eq hinit, resolved_eq hmemmap, hpartition]
  intro path hpath
  simp only [List.mem_append, List.mem_cons, List.not_mem_nil, or_false] at hpath
  simp only [List.mem_append, List.mem_cons, List.not_mem_nil, or_false]
  rcases hpath with ((((((((((( hmem | rfl) | rfl) | hdts) | rfl) | rfl) | rfl) | rfl) |
    rfl | rfl) | hmem) | hmem) | hmem)
  · simp [hmem]
  · simp
  · simp
  · rcases mem_boardDtsDir hchain hdts with rfl | hlayer
    · simp
    · simp [hlayer]
  · simp
  · simp
  · simp
  · simp
  · simp
  · simp
  · simp [hmem]
  · simp [hmem]
  · simp [hmem]

/-- Below the tools, `rootfsInputs` has the check of the firmware too. -/
theorem rootfsInputs_covers :
    [repo.slash "scripts/addons", repo.slash "scripts/deb", repo.slash "scripts/setup_rootfs.sh",
      repo.slash "scripts/genimage_sd.cfg", repo.slash "scripts/genimage_emmc.cfg",
      repo.slash "scripts/python/raw2cimg.py", (component repo).slash "linux",
      (component repo).slash "tools"] ⊆ rootfsInputs repo := by
  intro path hpath
  simp only [List.mem_cons, List.not_mem_nil, or_false] at hpath
  rcases hpath with rfl | rfl | rfl | rfl | rfl | rfl | rfl | rfl <;> simp [rootfsInputs]

theorem exists_own (hremoves : removes layer target = true)
    (hinputs : ∃ inputs, layerInputs t repo configRoot board storage layer = .ok inputs) :
    ∃ own, ownInputs t repo configRoot board storage layer = .ok own ∧
      ∀ path ∈ own, Listed t repo configRoot board storage target path := by
  obtain ⟨inputs, hinputs⟩ := hinputs
  obtain ⟨shared, own, -, hown, rfl⟩ := ownInputs_of_layerInputs hinputs
  refine ⟨own, hown, fun path hpath => ?_⟩
  exact .of_mem hremoves hinputs (List.mem_append_right shared hpath)

theorem checkTraceLayout_listed
    (hinputs : ∃ inputs, layerInputs t repo configRoot board storage .rootfs = .ok inputs) :
    Listed t repo configRoot board storage .image
      ((component repo).slash "tools/check_trace_layout.py") := by
  obtain ⟨inputs, hinputs⟩ := hinputs
  obtain ⟨shared, own, -, hown, rfl⟩ := ownInputs_of_layerInputs hinputs
  obtain rfl := Except.ok.inj hown
  refine ⟨.rootfs, _, (component repo).slash "tools", ["check_trace_layout.py".toList], rfl,
    hinputs, ?_, by decide, ?_⟩
  · apply List.mem_append_right
    apply rootfsInputs_covers
    simp
  · show component repo ++ ["tools".toList, "check_trace_layout.py".toList] =
      component repo ++ ["tools".toList] ++ ["check_trace_layout.py".toList]
    simp

/-- What a recipe reads is listed for a layer whose invalidation removes the target, or it is
among the unlisted files. -/
theorem unlisted_or_listed
    (hinputs : ∀ layer, removes layer target = true →
      ∃ inputs, layerInputs t repo configRoot board storage layer = .ok inputs)
    (hpath : path ∈ recipeFiles t repo configRoot board storage target) :
    path ∈ unlistedFiles t repo configRoot board target ∨ Listed t repo configRoot board storage target path := by
  have hexists : ∀ layer, removes layer target = true →
      ∃ own, ownInputs t repo configRoot board storage layer = .ok own ∧
        ∀ path ∈ own, Listed t repo configRoot board storage target path :=
    fun layer hremoves => exists_own hremoves (hinputs layer hremoves)
  cases target with
  | sg2002Ipc =>
      obtain ⟨own, hown, hlisted⟩ := hexists .firmware rfl
      rcases firmwareInputs_covers hown hpath with hread | hmore
      · exact Or.inr (hlisted path hread)
      · exact Or.inl (List.mem_cons.mpr hmore)
  | linux =>
      obtain ⟨own, hown, hlisted⟩ := hexists .linux rfl
      rcases List.mem_append.mp hpath with hread | hunlisted
      · exact Or.inr (hlisted path (linuxInputs_covers hown hread))
      · exact Or.inl hunlisted
  | osdrv =>
      obtain ⟨linux, hlinux, hlistedLinux⟩ := hexists .linux rfl
      obtain ⟨own, hown, hlisted⟩ := hexists .osdrv rfl
      rcases List.mem_append.mp hpath with hread | hunlisted
      · right
        rcases List.mem_append.mp hread with hfirst | hdefconfig
        · exact hlisted path (osdrvInputs_covers hown hfirst)
        · apply hlistedLinux path
          apply linuxInputs_covers hlinux
          simp only [List.mem_append, hdefconfig, true_or, or_true]
      · exact Or.inl hunlisted
  | middleware =>
      obtain ⟨linux, hlinux, hlistedLinux⟩ := hexists .linux rfl
      obtain ⟨own, hown, hlisted⟩ := hexists .middleware rfl
      rcases List.mem_append.mp hpath with hread | hunlisted
      · right
        rcases List.mem_append.mp hread with hfirst | hdefconfig
        · exact hlisted path (middlewareInputs_covers hown hfirst)
        · apply hlistedLinux path
          apply linuxInputs_covers hlinux
          simp only [List.mem_append, hdefconfig, true_or, or_true]
      · exact Or.inl hunlisted
  | vcodecFirmware => exact Or.inl hpath
  | uboot =>
      obtain ⟨own, hown, hlisted⟩ := hexists .boot rfl
      rcases List.mem_append.mp hpath with hread | hunlisted
      · right
        apply hlisted path
        apply bootInputs_covers hown
        exact List.mem_append_left _ (List.mem_append_left _ hread)
      · exact Or.inl hunlisted
  | opensbi =>
      obtain ⟨own, hown, hlisted⟩ := hexists .boot rfl
      right
      apply hlisted path
      apply bootInputs_covers hown
      exact List.mem_append_left _ (List.mem_append_right _ hpath)
  | fsbl =>
      obtain ⟨own, hown, hlisted⟩ := hexists .boot rfl
      rcases List.mem_append.mp hpath with hread | hunlisted
      · right
        apply hlisted path
        apply bootInputs_covers hown
        simp only [List.mem_append] at hread ⊢
        rcases hread with (hpatch | hconverter) | hmemmap
        · simp only [hpatch, or_true]
        · simp only [hconverter, true_or, or_true]
        · simp only [hmemmap, true_or, or_true]
      · exact Or.inl hunlisted
  | cviPinmux => exact nomatch hpath
  | image =>
      obtain ⟨rootfs, hrootfs, hlistedRootfs⟩ := hexists .rootfs rfl
      obtain rfl := Except.ok.inj hrootfs
      obtain ⟨firmware, hfirmware, hlistedFirmware⟩ := hexists .firmware rfl
      obtain ⟨boot, hboot, hlistedBoot⟩ := hexists .boot rfl
      rcases List.mem_append.mp hpath with hread | hxml
      · rcases List.mem_append.mp hread with hread | hread
        · right
          rcases List.mem_append.mp hread with hread | hpartition
          · exact hlistedRootfs path (rootfsInputs_covers hread)
          · apply hlistedBoot path
            apply bootInputs_covers hboot
            simp only [List.mem_append, hpartition, true_or, or_true]
        · rcases firmwareInputs_covers hfirmware hread with hfirst | rfl | hchain
          · exact Or.inr (hlistedFirmware path hfirst)
          · exact Or.inr (checkTraceLayout_listed (hinputs .rootfs rfl))
          · exact Or.inl (List.mem_cons_of_mem _ hchain)
      · exact Or.inl (List.mem_cons.mpr (Or.inl (List.mem_singleton.mp hxml)))

/-- Every layer lists the makefiles that it shares with the others. -/
theorem listed_of_makefile (hremoves : removes layer target = true)
    (hinputs : ∃ inputs, layerInputs t repo configRoot board storage layer = .ok inputs)
    (hpath : path ∈ listedMakefiles t repo configRoot board) :
    Listed t repo configRoot board storage target path := by
  obtain ⟨inputs, hinputs⟩ := hinputs
  obtain ⟨shared, own, hshared, -, rfl⟩ := ownInputs_of_layerInputs hinputs
  apply Listed.of_mem hremoves hinputs
  apply List.mem_append_left
  rw [commonInputs, bind_eq_ok] at hshared
  obtain ⟨settings, hsettings, hshared⟩ := hshared
  obtain rfl := Except.ok.inj hshared
  rw [listedMakefiles, hsettings] at hpath
  rcases List.mem_append.mp hpath with hfixed | hmem
  · apply List.mem_append_left
    simp only [List.mem_cons, List.not_mem_nil, or_false] at hfixed
    rcases hfixed with rfl | rfl | rfl <;> simp
  · exact List.mem_append_right _ hmem

end Sg200x.Ci
