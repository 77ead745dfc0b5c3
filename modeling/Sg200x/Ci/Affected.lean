import Sg200x.Ci.Chain
import Sg200x.Ci.Digest
import Sg200x.Ci.Matrix

/-!
# The selection covers the hashed files

`layer_inputs` and `affected_matrix` classify paths independently.  Here every path that the
one hashes is placed in a class that the other knows.
-/

namespace Sg200x.Ci

open Library.Lineage Library.Listing Library.Delimited

variable {t : Tree} {repo configRoot path : Path} {board : Text} {chain : List Text}

/-- Where an input of a layer lies. -/
inductive InputKind (repo : Path) (chain : List Text) : Path → Prop
  | file (name : Text) (hname : name ∈ globalFiles) : InputKind repo chain (join repo name)
  | python (name : Text) :
      InputKind repo chain (repo ++ ["scripts".toList, "python".toList, name])
  | layer (name entry : Text) (rest : Path) (hname : name ∈ chain) :
      InputKind repo chain (repo ++ "configs".toList :: name :: entry :: rest)
  | component (entry : Text) (rest : Path) :
      InputKind repo chain
        (repo ++ "components".toList :: "sg2002-ipc".toList :: entry :: rest)
  | addons : InputKind repo chain (repo ++ ["scripts".toList, "addons".toList])
  | deb : InputKind repo chain (repo ++ ["scripts".toList, "deb".toList])

/-- What the scripts take for a file is no directory, and the other way round. -/
structure RepositoryShape (t : Tree) (repo : Path) : Prop where
  files : ∀ name ∈ globalFiles, t.isDir (join repo name) = false
  addons : t.content (repo.slash "scripts/addons") = none
  deb : t.content (repo.slash "scripts/deb") = none
  common : t.content (repo.slash "configs/common") = none

/-! ## The classes of the inputs -/

/-- A board whose layers have plain names, in a tree of the expected shape. -/
structure PlainBoard (t : Tree) (repo : Path) (board : Text) (chain : List Text) : Prop where
  shape : RepositoryShape t repo
  resolves : boardChain t (repo.slash "configs") board = .ok chain
  plain : ∀ name ∈ chain, PlainName name

theorem component_kind (entry : Text) (rest : Path) :
    InputKind repo chain (component repo ++ entry :: rest) := by
  have hpath : component repo ++ entry :: rest =
      repo ++ "components".toList :: "sg2002-ipc".toList :: entry :: rest := by
    show repo ++ ["components".toList, "sg2002-ipc".toList] ++ entry :: rest = _
    simp
  rw [hpath]
  exact .component entry rest

namespace PlainBoard

theorem layerDir (h : PlainBoard t repo board chain) {layer : Text} (hlayer : layer ∈ chain) :
    join (repo.slash "configs") layer = repo ++ ["configs".toList, layer] := by
  rw [join_plain (h.plain layer hlayer)]
  show repo ++ ["configs".toList] ++ [layer] = _
  simp

theorem common_mem (h : PlainBoard t repo board chain) : common ∈ chain := by
  obtain ⟨boards, rfl, -⟩ := chain_of_ok h.resolves
  simp

theorem settings_kind (h : PlainBoard t repo board chain) {layer : Text} (hlayer : layer ∈ chain) :
    InputKind repo chain ((join (repo.slash "configs") layer).slash "settings.mk") := by
  have hpath : (join (repo.slash "configs") layer).slash "settings.mk" =
      repo ++ "configs".toList :: layer :: "settings.mk".toList :: [] := by
    show join (repo.slash "configs") layer ++ ["settings.mk".toList] = _
    rw [h.layerDir hlayer]
    simp
  rw [hpath]
  exact .layer layer _ _ hlayer

theorem dts_kind (h : PlainBoard t repo board chain) {layer : Text} (hlayer : layer ∈ chain) :
    InputKind repo chain ((join (repo.slash "configs") layer).slash "dts") := by
  have hpath : (join (repo.slash "configs") layer).slash "dts" =
      repo ++ "configs".toList :: layer :: "dts".toList :: [] := by
    show join (repo.slash "configs") layer ++ ["dts".toList] = _
    rw [h.layerDir hlayer]
    simp
  rw [hpath]
  exact .layer layer _ _ hlayer

/-- No layer is itself a file. -/
theorem resolved_kind (h : PlainBoard t repo board chain) {relative : Text}
    (hresolve : resolveFile t (repo.slash "configs") board relative = .ok path) :
    InputKind repo chain path := by
  obtain ⟨layer, hlayer, hpath, hfile⟩ := resolveFile_spec h.resolves hresolve
  cases hparts : parts relative with
  | nil =>
      rw [hparts, List.append_nil] at hpath
      have hnone : t.content path = none := by
        obtain ⟨boards, hchain, hdirs⟩ := chain_of_ok h.resolves
        rw [hchain] at hlayer
        rcases List.mem_append.mp hlayer with hboard | hcommon
        · rw [hpath]
          exact Tree.content_of_isDir (hdirs layer hboard)
        · rw [hpath, List.mem_singleton.mp hcommon]
          show t.content ((repo ++ ["configs".toList]) ++ [common]) = none
          rw [List.append_assoc]
          exact h.shape.common
      rw [Tree.isFile, hnone] at hfile
      exact absurd hfile (by simp)
  | cons entry rest =>
      rw [hpath, hparts, h.layerDir hlayer, List.append_assoc]
      exact .layer layer entry rest hlayer

theorem patches_kind (h : PlainBoard t repo board chain) {component : Text} {paths : List Path}
    (hpatches : patchFiles t (repo.slash "configs") board component = .ok paths) :
    ∀ path ∈ paths, InputKind repo chain path := by
  intro path hpath
  obtain ⟨layer, hlayer, name, rfl⟩ := patchFiles_spec h.resolves hpatches path hpath
  rw [h.layerDir hlayer, List.append_assoc]
  exact .layer layer _ _ hlayer

theorem deviceTrees_kind (h : PlainBoard t repo board chain) :
    ∀ path ∈ layerDeviceTrees (repo.slash "configs") chain, InputKind repo chain path := by
  intro path hpath
  obtain ⟨layer, hlayer, rfl⟩ := List.mem_map.mp hpath
  exact h.dts_kind (List.mem_of_mem_filter hlayer)

theorem commonInputs_kind (h : PlainBoard t repo board chain) {paths : List Path}
    (hinputs : commonInputs t repo (repo.slash "configs") board = .ok paths) :
    ∀ path ∈ paths, InputKind repo chain path := by
  rw [commonInputs, boardSettings_eq h.resolves] at hinputs
  obtain rfl := Except.ok.inj hinputs
  intro path hpath
  rcases List.mem_append.mp hpath with hfixed | hsettings
  · simp only [List.mem_cons, List.not_mem_nil, or_false] at hfixed
    rcases hfixed with rfl | rfl | rfl | rfl
    · exact .file "versions.env".toList (List.mem_iff_getElem?.mpr ⟨15, rfl⟩)
    · exact .file "toolchain.env".toList (List.mem_iff_getElem?.mpr ⟨16, rfl⟩)
    · exact .file "scripts/Makefile".toList (List.mem_iff_getElem?.mpr ⟨10, rfl⟩)
    · have hpath : (repo.slash "configs").slash "settings.mk" =
          join repo "configs/settings.mk".toList := by
        show repo ++ ["configs".toList] ++ ["settings.mk".toList] =
          repo ++ ["configs".toList, "settings.mk".toList]
        simp
      rw [hpath]
      exact .file "configs/settings.mk".toList (List.mem_iff_getElem?.mpr ⟨13, rfl⟩)
  · obtain ⟨layer, hlayer, rfl⟩ := List.mem_map.mp hsettings
    exact h.settings_kind (List.mem_reverse.mp (List.mem_of_mem_filter hlayer))

theorem firmwareInputs_kind (h : PlainBoard t repo board chain) {paths : List Path}
    (hinputs : firmwareInputs t repo (repo.slash "configs") board = .ok paths) :
    ∀ path ∈ paths, InputKind repo chain path := by
  rw [firmwareInputs, bind_eq_ok] at hinputs
  obtain ⟨memmap, hmemmap, hpaths⟩ := hinputs
  obtain rfl := Except.ok.inj hpaths
  intro path hpath
  simp only [List.mem_cons, List.not_mem_nil, or_false] at hpath
  rcases hpath with rfl | rfl | rfl | rfl | rfl | rfl | rfl
  · exact component_kind _ []
  · exact component_kind _ []
  · exact component_kind _ []
  · exact component_kind _ []
  · exact component_kind _ []
  · exact component_kind _ ["duo-sdk".toList]
  · exact h.resolved_kind hmemmap

theorem commonDts_kind (h : PlainBoard t repo board chain) :
    InputKind repo chain ((repo.slash "configs").slash "common/dts") := by
  have hpath : (repo.slash "configs").slash "common/dts" =
      repo ++ "configs".toList :: common :: "dts".toList :: [] := by
    show repo ++ ["configs".toList] ++ [common, "dts".toList] = _
    simp
  rw [hpath]
  exact .layer common _ _ h.common_mem

theorem linuxInputs_kind (h : PlainBoard t repo board chain) {paths : List Path}
    (hinputs : linuxInputs t repo (repo.slash "configs") board = .ok paths) :
    ∀ path ∈ paths, InputKind repo chain path := by
  simp only [linuxInputs, bind_eq_ok] at hinputs
  obtain ⟨defconfig, hdefconfig, memmap, hmemmap, chain', hchain, patches, hpatches, hpaths⟩ :=
    hinputs
  obtain rfl := Except.ok.inj hpaths
  obtain rfl : chain = chain' := Except.ok.inj (h.resolves.symm.trans hchain)
  intro path hpath
  rcases List.mem_append.mp hpath with hpath | hpatch
  · rcases List.mem_append.mp hpath with hfixed | hdts
    · simp only [List.mem_cons, List.not_mem_nil, or_false] at hfixed
      rcases hfixed with rfl | rfl | rfl | rfl
      · exact h.resolved_kind hdefconfig
      · exact h.resolved_kind hmemmap
      · exact h.commonDts_kind
      · exact .python _
    · exact h.deviceTrees_kind path hdts
  · exact h.patches_kind hpatches path hpatch

theorem osdrvInputs_kind (h : PlainBoard t repo board chain) {paths : List Path}
    (hinputs : osdrvInputs t repo (repo.slash "configs") board = .ok paths) :
    ∀ path ∈ paths, InputKind repo chain path := by
  simp only [osdrvInputs, bind_eq_ok] at hinputs
  obtain ⟨patches, hpatches, hpaths⟩ := hinputs
  obtain rfl := Except.ok.inj hpaths
  intro path hpath
  rcases List.mem_append.mp hpath with hpatch | hport
  · exact h.patches_kind hpatches path hpatch
  · rw [List.mem_singleton.mp hport]
    exact component_kind _ ["osdrv".toList]

theorem middlewareInputs_kind (h : PlainBoard t repo board chain) {paths : List Path}
    (hinputs : middlewareInputs t (repo.slash "configs") board = .ok paths) :
    ∀ path ∈ paths, InputKind repo chain path := by
  simp only [middlewareInputs, bind_eq_ok] at hinputs
  obtain ⟨patches, hpatches, sensors, hsensors, hpaths⟩ := hinputs
  obtain rfl := Except.ok.inj hpaths
  intro path hpath
  rcases List.mem_append.mp hpath with hpatch | hsensor
  · exact h.patches_kind hpatches path hpatch
  · exact h.patches_kind hsensors path hsensor

theorem bootInputs_kind (h : PlainBoard t repo board chain) {storage : Text} {paths : List Path}
    (hinputs : bootInputs t repo (repo.slash "configs") board storage = .ok paths) :
    ∀ path ∈ paths, InputKind repo chain path := by
  simp only [bootInputs, bind_eq_ok] at hinputs
  obtain ⟨settings, -, memmap, hmemmap, partitions, hpartitions, chain', hchain, defconfig,
    hdefconfig, header, hheader, init, hinit, uboot, huboot, opensbi, hopensbi, fsbl, hfsbl,
    hpaths⟩ := hinputs
  obtain rfl := Except.ok.inj hpaths
  obtain rfl : chain = chain' := Except.ok.inj (h.resolves.symm.trans hchain)
  have hpartition : ∀ path ∈ partitions, InputKind repo chain path := by
    rw [partitionInputs] at hpartitions
    by_cases hnone : partitionFile settings storage = []
    · rw [if_pos hnone] at hpartitions
      obtain rfl := Except.ok.inj hpartitions
      exact fun _ hmem => absurd hmem (by simp)
    · rw [if_neg hnone, bind_eq_ok] at hpartitions
      obtain ⟨file, hfile, heq⟩ := hpartitions
      obtain rfl := Except.ok.inj heq
      intro path hpath
      rw [List.mem_singleton.mp hpath]
      exact h.resolved_kind hfile
  intro path hpath
  simp only [List.mem_append, List.mem_cons, List.not_mem_nil, or_false] at hpath
  rcases hpath with (((((hfixed | hmem) | hdts) | hfiles) | hmem) | hmem) | hmem
  · rcases hfixed with rfl | rfl | rfl | rfl | rfl
    · exact h.resolved_kind hmemmap
    · exact h.commonDts_kind
    · exact .python _
    · exact .python _
    · exact .python _
  · exact hpartition path hmem
  · exact h.deviceTrees_kind path hdts
  · rcases hfiles with rfl | rfl | rfl
    · exact h.resolved_kind hdefconfig
    · exact h.resolved_kind hheader
    · exact h.resolved_kind hinit
  · exact h.patches_kind huboot path hmem
  · exact h.patches_kind hopensbi path hmem
  · exact h.patches_kind hfsbl path hmem

theorem rootfsInputs_kind : ∀ path ∈ rootfsInputs repo, InputKind repo chain path := by
  intro path hpath
  simp only [rootfsInputs, List.mem_cons, List.not_mem_nil, or_false] at hpath
  rcases hpath with rfl | rfl | rfl | rfl | rfl | rfl | rfl | rfl | rfl | rfl
  · exact .addons
  · exact .deb
  · exact .file "scripts/genimage_sd.cfg".toList (List.mem_iff_getElem?.mpr ⟨9, rfl⟩)
  · exact .file "scripts/genimage_emmc.cfg".toList (List.mem_iff_getElem?.mpr ⟨8, rfl⟩)
  · exact .python _
  · exact .file "scripts/setup_rootfs.sh".toList (List.mem_iff_getElem?.mpr ⟨12, rfl⟩)
  · exact component_kind _ []
  · exact component_kind _ []
  · exact component_kind _ []
  · exact component_kind _ []

/-- Every input of every layer has a class. -/
theorem layerInputs_kind (h : PlainBoard t repo board chain) {storage : Text} {layer : Layer}
    {paths : List Path}
    (hinputs : layerInputs t repo (repo.slash "configs") board storage layer = .ok paths) :
    ∀ path ∈ paths, InputKind repo chain path := by
  simp only [layerInputs, bind_eq_ok] at hinputs
  obtain ⟨shared, hshared, own, hown, hpaths⟩ := hinputs
  obtain rfl := Except.ok.inj hpaths
  have hkind : ∀ path ∈ own, InputKind repo chain path := by
    cases layer with
    | firmware => exact h.firmwareInputs_kind hown
    | linux => exact h.linuxInputs_kind hown
    | osdrv => exact h.osdrvInputs_kind hown
    | middleware => exact h.middlewareInputs_kind hown
    | boot => exact h.bootInputs_kind hown
    | rootfs =>
        obtain rfl := Except.ok.inj hown
        exact rootfsInputs_kind
  intro path hpath
  rcases List.mem_append.mp hpath with hmem | hmem
  · exact h.commonInputs_kind hshared path hmem
  · exact hkind path hmem

end PlainBoard

/-! ## Changed paths -/

theorem relativeText_append {rest : Path} (hne : rest ≠ []) :
    relativeText repo (repo ++ rest) = ['/'].intercalate rest := by
  rw [relativeText, if_pos (List.prefix_append repo rest), List.length_append, List.drop_left,
    if_neg]
  have hpos := List.length_pos_iff.mpr hne
  omega

theorem slashless_of_append {first rest : Path} (h : Slashless (first ++ rest)) : Slashless rest :=
  fun name hname => h name (List.mem_append_right _ hname)

theorem splitOn_relativeText {rest : Path} (hslashless : Slashless rest) (hne : rest ≠ []) :
    (relativeText repo (repo ++ rest)).splitOn '/' = rest := by
  rw [relativeText_append hne]
  exact List.splitOn_intercalate '/' (fun name hname => (hslashless name hname).2.2) hne

theorem globalFile_text {name : Text} (hname : name ∈ globalFiles) :
    relativeText repo (join repo name) = name := by
  have hglobal : ∀ name ∈ globalFiles, name.head? ≠ some '/' ∧ parts name ≠ [] ∧
      ['/'].intercalate (parts name) = name := by decide
  obtain ⟨hhead, hne, htext⟩ := hglobal name hname
  rw [join, if_neg hhead, relativeText_append hne, htext]

/-- What a changed file triggers. -/
inductive Trigger (repo : Path) (chain : List Text) (file : Path) : Prop
  | global (h : isGlobal (relativeText repo file) = true)
  | layer (name : Text) (hname : name ∈ chain)
      (h : configLayer (relativeText repo file) = some name)
  | component (name : Text) (rest : Path)
      (hfile : file = repo ++ "components".toList :: name :: rest)
      (hstart : "components/".toList <+: relativeText repo file)
      (h : ((relativeText repo file).splitOn '/').getD 1 [] = name)
  | addon (addon : Text) (rest : Path)
      (hfile : file = repo ++ "scripts".toList :: "addons".toList :: addon :: rest)
      (hstart : "scripts/addons/".toList <+: relativeText repo file)
      (h : ((relativeText repo file).splitOn '/').getD 2 [] = addon)
  | deb (h : "scripts/deb/".toList <+: relativeText repo file)

theorem isPrefix_intercalate (first : Path) (name : Text) (rest : Path) :
    first.flatMap (· ++ ['/']) <+: ['/'].intercalate (first ++ name :: rest) := by
  induction first with
  | nil => exact List.nil_prefix
  | cons head first ih =>
      have hcons : ['/'].intercalate (head :: first ++ name :: rest) =
          head ++ ['/'] ++ ['/'].intercalate (first ++ name :: rest) := by
        cases first with
        | nil => exact List.intercalate_cons_cons
        | cons next more => exact List.intercalate_cons_cons
      rw [hcons, List.flatMap_cons]
      exact List.prefix_append_right_inj _ |>.mpr ih

theorem trigger_of_kind (hshape : RepositoryShape t repo) {file : Path × Bytes} {rest : Path}
    (hkind : InputKind repo chain path) (hfile : file.1 = path ++ rest)
    (hcontent : t.content file.1 = some file.2) :
    Trigger repo chain file.1 := by
  have hslashless := slashless_of_content hcontent
  have hsplit : ∀ {name : Text} {more : Path}, file.1 = repo ++ name :: more →
      (relativeText repo file.1).splitOn '/' = name :: more := by
    intro name more heq
    rw [heq] at hslashless ⊢
    exact splitOn_relativeText (slashless_of_append hslashless) (by simp)
  cases hkind with
  | file name hname =>
      cases rest with
      | nil =>
          apply Trigger.global
          rw [hfile, List.append_nil, globalFile_text hname]
          simp [isGlobal, hname]
      | cons entry rest =>
          rw [hfile] at hcontent
          have hdir := Tree.isDir_of_content hcontent
          rw [hshape.files name hname] at hdir
          exact absurd hdir (by simp)
  | python name =>
      have hpath : file.1 = repo ++ ["scripts".toList, "python".toList] ++ name :: rest := by
        rw [hfile]
        simp
      apply Trigger.global
      rw [hpath, List.append_assoc, relativeText_append (by simp), isGlobal, Bool.or_eq_true,
        List.any_eq_true]
      right
      refine ⟨"scripts/python/".toList, by decide, decide_eq_true ?_⟩
      exact isPrefix_intercalate ["scripts".toList, "python".toList] name rest
  | layer name entry more hname =>
      have hpath : file.1 = repo ++ "configs".toList :: name :: entry :: (more ++ rest) := by
        rw [hfile]
        simp
      have hne : name ≠ [] := by
        rw [hpath] at hslashless
        exact (hslashless name (by simp)).1
      apply Trigger.layer name hname
      rw [configLayer, hsplit hpath]
      simp [hne]
  | component entry more =>
      have hpath : file.1 = repo ++ "components".toList :: "sg2002-ipc".toList ::
          entry :: (more ++ rest) := by
        rw [hfile]
        simp
      apply Trigger.component _ _ hpath
      · rw [hpath, relativeText_append (by simp)]
        exact isPrefix_intercalate ["components".toList] _ _
      · rw [hsplit hpath]
        rfl
  | addons =>
      cases rest with
      | nil =>
          rw [hfile, List.append_nil] at hcontent
          have hnone : t.content (repo ++ ["scripts".toList, "addons".toList]) = none :=
            hshape.addons
          rw [hnone] at hcontent
          exact nomatch hcontent
      | cons addon rest =>
          have hpath : file.1 = repo ++ "scripts".toList :: "addons".toList :: addon :: rest := by
            rw [hfile]
            simp
          apply Trigger.addon addon rest hpath
          · rw [hpath, relativeText_append (by simp)]
            exact isPrefix_intercalate ["scripts".toList, "addons".toList] addon rest
          · rw [hsplit hpath]
            rfl
  | deb =>
      cases rest with
      | nil =>
          rw [hfile, List.append_nil] at hcontent
          have hnone : t.content (repo ++ ["scripts".toList, "deb".toList]) = none :=
            hshape.deb
          rw [hnone] at hcontent
          exact nomatch hcontent
      | cons entry rest =>
          have hpath : file.1 = repo ++ "scripts".toList :: "deb".toList :: entry :: rest := by
            rw [hfile]
            simp
          apply Trigger.deb
          rw [hpath, relativeText_append (by simp)]
          exact isPrefix_intercalate ["scripts".toList, "deb".toList] entry rest

/-! ## The selection -/

/-- A matrix that passes the checks, with settings that can be read. -/
structure ValidMatrix (loads : Text → Option Json) (t : Tree) (configRoot : Path)
    (entries : List Json) : Prop where
  valid : validate loads t configRoot = .ok entries
  settings : ∀ entry ∈ entries, ∃ values,
    effectiveAssignments t configRoot (entryBoard entry) = .ok values

variable {entries : List Json} {loads : Text → Option Json} {entry : Json}

theorem plan_ne_ok {α : Type} {error : PlanError} {a : α} : plan error ≠ .ok a :=
  fun h => nomatch h

/-- An entry that passes its checks brings a new pair, and its board can be resolved. -/
theorem validateEntry_spec {index : ℕ} {seen after : List (Text × Text)}
    (h : validateEntry t configRoot index seen entry = .ok after) :
    after = (entryBoard entry, entryStorage entry) :: seen ∧
      (entryBoard entry, entryStorage entry) ∉ seen ∧
      ∃ chain, boardChain t configRoot (entryBoard entry) = .ok chain := by
  have hfield : ∀ {key : String} {text : Text}, requiredText entry key = some text →
      entry.textOf key = text := by
    intro key text hrequired
    rw [requiredText, Option.filter_eq_some_iff] at hrequired
    rw [Json.textOf, hrequired.1]
    rfl
  rw [validateEntry] at h
  by_cases hobject : (! entry.isObject) = true
  · rw [if_pos hobject] at h
    exact absurd h plan_ne_ok
  · rw [if_neg hobject] at h
    cases hboard : requiredText entry "board" with
    | none =>
        simp only [hboard] at h
        exact absurd h plan_ne_ok
    | some board =>
        cases hstorage : requiredText entry "storage" with
        | none =>
            simp only [hboard, hstorage] at h
            exact absurd h plan_ne_ok
        | some storage =>
            cases hformat : requiredText entry "format" with
            | none =>
                simp only [hboard, hstorage, hformat] at h
                exact absurd h plan_ne_ok
            | some format =>
                simp only [hboard, hstorage, hformat] at h
                rw [entryBoard, entryStorage, hfield hboard, hfield hstorage]
                split_ifs at h
                iterate 5 exact absurd h plan_ne_ok
                · next hseen _ =>
                    obtain ⟨chain, hchain, hafter⟩ := bind_eq_ok.mp h
                    exact ⟨(Except.ok.inj hafter).symm, hseen, chain, hchain⟩
                · obtain ⟨chain, -, hplan⟩ := bind_eq_ok.mp h
                  exact absurd hplan plan_ne_ok

/-- The entries of a checked matrix have distinct pairs of board and storage. -/
theorem validateEntries_spec {index : ℕ} {seen : List (Text × Text)}
    (h : validateEntries t configRoot index seen entries = .ok ()) :
    (∀ entry ∈ entries, ∃ chain, boardChain t configRoot (entryBoard entry) = .ok chain) ∧
      (entries.map fun entry => (entryBoard entry, entryStorage entry)).Nodup ∧
      ∀ entry ∈ entries, (entryBoard entry, entryStorage entry) ∉ seen := by
  induction entries generalizing index seen with
  | nil => exact ⟨by simp, List.nodup_nil, by simp⟩
  | cons first entries ih =>
      rw [validateEntries, bind_eq_ok] at h
      obtain ⟨after, hfirst, hrest⟩ := h
      obtain ⟨hafter, hfresh, hchain⟩ := validateEntry_spec hfirst
      obtain ⟨hchains, hnodup, hothers⟩ := ih hrest
      rw [hafter] at hothers
      refine ⟨?_, ?_, ?_⟩
      · intro entry hentry
        rcases List.mem_cons.mp hentry with rfl | hmem
        · exact hchain
        · exact hchains entry hmem
      · rw [List.map_cons, List.nodup_cons]
        refine ⟨?_, hnodup⟩
        intro hmem
        obtain ⟨entry, hentry, heq⟩ := List.mem_map.mp hmem
        exact hothers entry hentry (heq ▸ List.mem_cons_self)
      · intro entry hentry
        rcases List.mem_cons.mp hentry with rfl | hmem
        · exact hfresh
        · exact fun hseen => hothers entry hmem (List.mem_cons_of_mem _ hseen)

theorem ValidMatrix.checked (h : ValidMatrix loads t configRoot entries) :
    validateEntries t configRoot 0 [] entries = .ok () := by
  have hvalid := h.valid
  simp only [validate, bind_eq_ok] at hvalid
  obtain ⟨loaded, -, ⟨⟩, hchecked, hentries⟩ := hvalid
  obtain rfl := Except.ok.inj hentries
  exact hchecked

/-- Every board of a valid matrix can be resolved. -/
theorem ValidMatrix.chains (h : ValidMatrix loads t configRoot entries) :
    ∀ entry ∈ entries, ∃ chain, boardChain t configRoot (entryBoard entry) = .ok chain :=
  (validateEntries_spec h.checked).1

theorem ValidMatrix.nodup (h : ValidMatrix loads t configRoot entries) : entries.Nodup :=
  (validateEntries_spec h.checked).2.1.of_map _

theorem derivedBoards_spec
    (hchains : ∀ entry ∈ entries, ∃ chain,
      boardChain t configRoot (entryBoard entry) = .ok chain) (layer : Text) :
    ∃ boards, derivedBoards t configRoot layer entries = .ok boards ∧
      ∀ entry ∈ entries, ∀ chain, boardChain t configRoot (entryBoard entry) = .ok chain →
        layer ∈ chain → entryBoard entry ∈ boards := by
  induction entries with
  | nil => exact ⟨[], rfl, by simp⟩
  | cons first entries ih =>
      obtain ⟨chain, hchain⟩ := hchains first (by simp)
      obtain ⟨boards, hboards, hcover⟩ :=
        ih fun entry hentry => hchains entry (List.mem_cons_of_mem _ hentry)
      refine ⟨if layer ∈ chain then entryBoard first :: boards else boards, ?_, ?_⟩
      · rw [derivedBoards, hchain, hboards]
        rfl
      · intro entry hentry chain' hchain' hlayer
        rcases List.mem_cons.mp hentry with rfl | hmem
        · obtain rfl := Except.ok.inj (hchain.symm.trans hchain')
          rw [if_pos hlayer]
          exact List.mem_cons_self
        · have hmem := hcover entry hmem chain' hchain' hlayer
          split_ifs
          · exact List.mem_cons_of_mem _ hmem
          · exact hmem

theorem addonBoards_spec
    (hsettings : ∀ entry ∈ entries, ∃ values,
      effectiveAssignments t configRoot (entryBoard entry) = .ok values) (addon : Text) :
    ∃ boards, addonBoards t configRoot addon entries = .ok boards ∧
      ∀ entry ∈ entries, ∀ values,
        effectiveAssignments t configRoot (entryBoard entry) = .ok values →
        addon ∈ assignmentWords (values.get "IMAGE_ADDITIONS".toList) →
        entryBoard entry ∈ boards := by
  induction entries with
  | nil => exact ⟨[], rfl, by simp⟩
  | cons first entries ih =>
      obtain ⟨values, hvalues⟩ := hsettings first (by simp)
      obtain ⟨boards, hboards, hcover⟩ :=
        ih fun entry hentry => hsettings entry (List.mem_cons_of_mem _ hentry)
      refine ⟨if addon ∈ assignmentWords (values.get "IMAGE_ADDITIONS".toList)
        then entryBoard first :: boards else boards, ?_, ?_⟩
      · rw [addonBoards, hvalues, hboards]
        rfl
      · intro entry hentry values' hvalues' haddon
        rcases List.mem_cons.mp hentry with rfl | hmem
        · obtain rfl := Except.ok.inj (hvalues.symm.trans hvalues')
          rw [if_pos haddon]
          exact List.mem_cons_self
        · have hmem := hcover entry hmem values' hvalues' haddon
          split_ifs
          · exact List.mem_cons_of_mem _ hmem
          · exact hmem

theorem boardsOfLayer_spec (hvalid : ValidMatrix loads t configRoot entries) (path : Text) :
    ∃ boards, boardsOfLayer t configRoot entries path = .ok boards ∧
      ∀ entry ∈ entries, ∀ layer chain, configLayer path = some layer →
        boardChain t configRoot (entryBoard entry) = .ok chain → layer ∈ chain →
        entryBoard entry ∈ boards := by
  rw [boardsOfLayer]
  cases configLayer path with
  | none => exact ⟨[], rfl, fun _ _ _ _ h => nomatch h⟩
  | some layer =>
      obtain ⟨boards, hboards, hcover⟩ := derivedBoards_spec hvalid.chains layer
      refine ⟨boards, hboards, ?_⟩
      intro entry hentry other chain heq hchain hmem
      obtain rfl := Option.some.inj heq
      exact hcover entry hentry chain hchain hmem

theorem boardsOfAddon_spec (hvalid : ValidMatrix loads t configRoot entries) (path : Text) :
    ∃ boards, boardsOfAddon t configRoot entries path = .ok boards ∧
      ∀ entry ∈ entries, ∀ values, "scripts/addons/".toList <+: path →
        effectiveAssignments t configRoot (entryBoard entry) = .ok values →
        (path.splitOn '/').getD 2 [] ∈ assignmentWords (values.get "IMAGE_ADDITIONS".toList) →
        entryBoard entry ∈ boards := by
  rw [boardsOfAddon]
  by_cases hstart : "scripts/addons/".toList <+: path
  · rw [if_pos hstart]
    obtain ⟨boards, hboards, hcover⟩ :=
      addonBoards_spec hvalid.settings ((path.splitOn '/').getD 2 [])
    exact ⟨boards, hboards, fun entry hentry values _ => hcover entry hentry values⟩
  · rw [if_neg hstart]
    exact ⟨[], rfl, fun _ _ _ h => absurd h hstart⟩

theorem affectedBy_eq {path : Text} {inheriting adding : List Text}
    (hlayer : boardsOfLayer t configRoot entries path = .ok inheriting)
    (haddon : boardsOfAddon t configRoot entries path = .ok adding) :
    affectedBy t configRoot entries path =
      .ok (inheriting ++ boardsOfComponent entries path ++ adding) := by
  rw [affectedBy, hlayer]
  show (boardsOfAddon t configRoot entries path >>= _) = _
  rw [haddon]
  rfl

theorem ValidMatrix.affectedBy_ok (h : ValidMatrix loads t configRoot entries) (path : Text) :
    ∃ boards, affectedBy t configRoot entries path = .ok boards := by
  obtain ⟨inheriting, hinheriting, -⟩ := boardsOfLayer_spec h path
  obtain ⟨adding, hadding, -⟩ := boardsOfAddon_spec h path
  exact ⟨_, affectedBy_eq hinheriting hadding⟩

theorem mem_boardsOfComponent {path : Text} (hentry : entry ∈ entries)
    (hstart : "components/".toList <+: path)
    (hlists : (path.splitOn '/').getD 1 [] ∈ entryComponents entry) :
    entryBoard entry ∈ boardsOfComponent entries path := by
  rw [boardsOfComponent, if_pos hstart]
  refine List.mem_map.mpr ⟨entry, ?_, rfl⟩
  exact List.mem_filter.mpr ⟨hentry, decide_eq_true hlists⟩

/-- An entry is selected exactly if it is affected. -/
theorem affectedLoop_spec
    (hby : ∀ path, ∃ boards, affectedBy t configRoot entries path = .ok boards)
    (affected paths : List Text) :
    ∃ selected, affectedLoop t configRoot entries affected paths = .ok selected ∧
      selected.Sublist entries ∧
      ∀ entry ∈ entries, entry ∈ selected ↔ (entryBoard entry ∈ affected ∨
        ∃ path ∈ paths, "scripts/deb/".toList <+: path ∨
          ∃ boards, affectedBy t configRoot entries path = .ok boards ∧
            entryBoard entry ∈ boards) := by
  induction paths generalizing affected with
  | nil =>
      refine ⟨_, rfl, List.filter_sublist, ?_⟩
      intro entry hentry
      rw [List.mem_filter, decide_eq_true_iff, and_iff_right hentry]
      simp
  | cons path paths ih =>
      obtain ⟨boards, hboards⟩ := hby path
      rw [affectedLoop, hboards]
      by_cases hdeb : "scripts/deb/".toList <+: path
      · refine ⟨entries, ?_, List.Sublist.refl _, ?_⟩
        · show (if _ then _ else _) = _
          rw [if_pos hdeb]
          rfl
        · intro entry hentry
          exact iff_of_true hentry (Or.inr ⟨path, List.mem_cons_self, Or.inl hdeb⟩)
      · obtain ⟨selected, hselected, hsublist, hspec⟩ := ih (affected ++ boards)
        refine ⟨selected, ?_, hsublist, ?_⟩
        · show (if _ then _ else _) = _
          rw [if_neg hdeb]
          exact hselected
        · intro entry hentry
          have hpath : ("scripts/deb/".toList <+: path ∨ ∃ boards',
              affectedBy t configRoot entries path = .ok boards' ∧ entryBoard entry ∈ boards') ↔
              entryBoard entry ∈ boards := by
            rw [or_iff_right hdeb, hboards]
            simp
          rw [hspec entry hentry, List.mem_append, List.exists_mem_cons_iff, hpath, or_assoc]

/-- A layer of an entry hashes this file. -/
def HashedFor (t : Tree) (repo : Path) (entry : Json) (layer : Layer)
    (file : Path × Bytes) : Prop :=
  ∃ paths, layerInputs t repo (repo.slash "configs") (entryBoard entry) (entryStorage entry)
    layer = .ok paths ∧ file ∈ fedFiles t paths

/-- A change of a component matters to the entries that list it. -/
def ListsComponent (repo : Path) (entry : Json) (file : Path × Bytes) : Prop :=
  ∀ component rest, file.1 = repo ++ "components".toList :: component :: rest →
    component ∈ entryComponents entry

/-- A change below an addition matters to the entries that install it. -/
def InstallsAddon (t : Tree) (repo : Path) (entry : Json) (file : Path × Bytes) : Prop :=
  ∀ addon name rest,
    file.1 = repo ++ "scripts".toList :: "addons".toList :: addon :: name :: rest →
    ∀ values, effectiveAssignments t (repo.slash "configs") (entryBoard entry) = .ok values →
      addon ∈ assignmentWords (values.get "IMAGE_ADDITIONS".toList)

/-- The changed files that a layer of an entry hashes select the entry, if its layers have
plain names and the files do not lie directly in `scripts/addons`. -/
theorem selection_covers {loads : Text → Option Json} {t : Tree} {repo : Path}
    {entries : List Json} {entry : Json} {layer : Layer} {file : Path × Bytes}
    {files : List Text} (hshape : RepositoryShape t repo)
    (hvalid : ValidMatrix loads t (repo.slash "configs") entries) (hentry : entry ∈ entries)
    (hplain : ∀ chain, boardChain t (repo.slash "configs") (entryBoard entry) = .ok chain →
      ∀ name ∈ chain, PlainName name)
    (hhashed : HashedFor t repo entry layer file)
    (hchanged : relativeText repo file.1 ∈ files)
    (hlists : ListsComponent repo entry file) (hinstalls : InstallsAddon t repo entry file)
    (hdirect : ∀ name, file.1 ≠ repo ++ ["scripts".toList, "addons".toList, name]) :
    ∃ selected, affectedMatrix loads t (repo.slash "configs") files = .ok selected ∧
      entry ∈ selected := by
  obtain ⟨chain, hchain⟩ := hvalid.chains entry hentry
  have hboard : PlainBoard t repo (entryBoard entry) chain :=
    ⟨hshape, hchain, hplain chain hchain⟩
  obtain ⟨paths, hpaths, hfed⟩ := hhashed
  obtain ⟨path, hpath, hfile⟩ := mem_fedFiles_iff.mp hfed
  obtain ⟨⟨rest, hrest, -⟩, hcontent, -⟩ := mem_hashedFiles_iff.mp hfile
  have hkind := hboard.layerInputs_kind hpaths path hpath
  have htrigger := trigger_of_kind hshape hkind hrest hcontent
  rw [affectedMatrix, hvalid.valid]
  show ∃ selected, (if files = [] then _ else _) = _ ∧ _
  rw [if_neg (List.ne_nil_of_mem hchanged)]
  by_cases hglobal : files.any isGlobal = true
  · rw [if_pos hglobal]
    exact ⟨entries, rfl, hentry⟩
  · rw [if_neg hglobal]
    obtain ⟨selected, hselected, -, hspec⟩ := affectedLoop_spec hvalid.affectedBy_ok [] files
    refine ⟨selected, hselected, (hspec entry hentry).mpr (Or.inr ⟨_, hchanged, ?_⟩)⟩
    obtain ⟨inheriting, hinheriting, hderives⟩ :=
      boardsOfLayer_spec hvalid (relativeText repo file.1)
    obtain ⟨adding, hadding, hadds⟩ := boardsOfAddon_spec hvalid (relativeText repo file.1)
    have haffected := affectedBy_eq hinheriting hadding
    cases htrigger with
    | global h => exact absurd (List.any_eq_true.mpr ⟨_, hchanged, h⟩) hglobal
    | layer name hname h =>
        refine Or.inr ⟨_, haffected, ?_⟩
        have hmem := hderives entry hentry name chain h hchain hname
        exact List.mem_append_left _ (List.mem_append_left _ hmem)
    | component name rest hname hstart h =>
        refine Or.inr ⟨_, haffected, ?_⟩
        have hlisted : name ∈ entryComponents entry := hlists name rest hname
        have hmem := mem_boardsOfComponent hentry hstart (h.symm ▸ hlisted)
        exact List.mem_append_left _ (List.mem_append_right _ hmem)
    | addon addon rest hname hstart h =>
        refine Or.inr ⟨_, haffected, ?_⟩
        obtain ⟨values, hvalues⟩ := hvalid.settings entry hentry
        cases rest with
        | nil => exact absurd hname (hdirect addon)
        | cons name rest =>
            have hinstalled := hinstalls addon name rest hname values hvalues
            have hmem := hadds entry hentry values hstart hvalues (h.symm ▸ hinstalled)
            exact List.mem_append_right _ hmem
    | deb h => exact Or.inl h

/-- A changed file is hashed for an entry and does not select it. -/
def Skipped (loads : Text → Option Json) (t : Tree) (repo : Path) (entries : List Json)
    (entry : Json) (layer : Layer) (file : Path × Bytes) : Prop :=
  RepositoryShape t repo ∧ ValidMatrix loads t (repo.slash "configs") entries ∧
    entry ∈ entries ∧ HashedFor t repo entry layer file ∧ ListsComponent repo entry file ∧
    InstallsAddon t repo entry file ∧
    affectedMatrix loads t (repo.slash "configs") [relativeText repo file.1] = .ok []

theorem hashedFor_of_mem {t : Tree} {repo : Path} {entry : Json} {layer : Layer}
    {file : Path × Bytes}
    (h : (layerInputs t repo (repo.slash "configs") (entryBoard entry) (entryStorage entry)
      layer).toOption.any (fun paths => file ∈ fedFiles t paths) = true) :
    HashedFor t repo entry layer file := by
  rw [HashedFor]
  cases hinputs : layerInputs t repo (repo.slash "configs") (entryBoard entry)
      (entryStorage entry) layer with
  | error raised => simp [hinputs, Except.toOption] at h
  | ok paths => exact ⟨paths, rfl, by simpa [hinputs, Except.toOption] using h⟩

def sampleEntry (board : String) : Json :=
  .object [("board".toList, .string board.toList), ("storage".toList, .string "sd".toList),
    ("format".toList, .string "img".toList)]

def sampleEntries : List Json := [sampleEntry "b", sampleEntry "c"]

def sampleLoads (_ : Text) : Option Json :=
  some (.object [("include".toList, .array sampleEntries)])

def sampleRepo : Path := ["w".toList]

/-- The board `b` inherits from `./base`, and the board `c` from nothing. -/
def sampleTree : Tree where
  files :=
    [(sampleRepo ++ ["configs".toList, "build-matrix.json".toList], []),
      (sampleRepo ++ ["configs".toList, "b".toList, "board.mk".toList],
        encodeUtf8 "BASE_BOARD=./base".toList),
      (sampleRepo ++ ["configs".toList, "base".toList, "settings.mk".toList], []),
      (sampleRepo ++ ["configs".toList, "c".toList, "settings.mk".toList], []),
      (sampleRepo ++ ["scripts".toList, "addons".toList, "notes".toList], [])]
  dirs :=
    [[], sampleRepo, sampleRepo ++ ["configs".toList],
      sampleRepo ++ ["configs".toList, "b".toList],
      sampleRepo ++ ["configs".toList, "base".toList],
      sampleRepo ++ ["configs".toList, "c".toList], sampleRepo ++ ["scripts".toList],
      sampleRepo ++ ["scripts".toList, "addons".toList]]
  nodup := by decide +kernel
  root_mem := by decide +kernel
  plain := by decide +kernel
  parent_mem := by decide +kernel
  disjoint := by decide +kernel

theorem sampleTree_shape : RepositoryShape sampleTree sampleRepo :=
  ⟨by decide +kernel, by decide +kernel, by decide +kernel, by decide +kernel⟩

theorem sampleTree_valid :
    ValidMatrix sampleLoads sampleTree (sampleRepo.slash "configs") sampleEntries := by
  refine ⟨rfl, ?_⟩
  intro entry hentry
  simp only [sampleEntries, List.mem_cons, List.not_mem_nil, or_false] at hentry
  rcases hentry with rfl | rfl
  · exact ⟨[], rfl⟩
  · exact ⟨[], rfl⟩

/-- A file directly in `scripts/addons` is hashed and selects nothing, and so does a file of a
layer that is inherited as `./base`. -/
theorem selection_skips :
    ∃ (loads : Text → Option Json) (t : Tree) (repo : Path) (entries : List Json) (entry : Json)
      (layer : Layer) (file other : Path × Bytes),
      Skipped loads t repo entries entry layer file ∧
        Skipped loads t repo entries entry layer other := by
  refine ⟨sampleLoads, sampleTree, sampleRepo, sampleEntries, sampleEntry "b", .rootfs,
    (sampleRepo ++ ["scripts".toList, "addons".toList, "notes".toList], []),
    (sampleRepo ++ ["configs".toList, "base".toList, "settings.mk".toList], []), ?_, ?_⟩
  · refine ⟨sampleTree_shape, sampleTree_valid, List.mem_cons_self,
      hashedFor_of_mem (by decide +kernel), ?_, ?_, rfl⟩
    · intro component rest heq
      simp [sampleRepo] at heq
    · intro addon name rest heq
      simp [sampleRepo] at heq
  · refine ⟨sampleTree_shape, sampleTree_valid, List.mem_cons_self,
      hashedFor_of_mem (by decide +kernel), ?_, ?_, rfl⟩
    · intro component rest heq
      simp [sampleRepo] at heq
    · intro addon name rest heq
      simp [sampleRepo] at heq

theorem selection_covers_settings :
    ∃ selected, affectedMatrix sampleLoads sampleTree (sampleRepo.slash "configs")
        ["configs/c/settings.mk".toList] = .ok selected ∧ sampleEntry "c" ∈ selected := by
  have hchain : boardChain sampleTree (sampleRepo.slash "configs") "c".toList =
      .ok ["c".toList, common] := by decide +kernel
  have hhashed : HashedFor sampleTree sampleRepo (sampleEntry "c") .rootfs
      (sampleRepo ++ ["configs".toList, "c".toList, "settings.mk".toList], []) :=
    hashedFor_of_mem (by decide +kernel)
  apply selection_covers sampleTree_shape sampleTree_valid
    (List.mem_cons_of_mem _ List.mem_cons_self) _ hhashed
  · decide
  · intro component rest heq
    simp [sampleRepo] at heq
  · intro addon name rest heq
    simp [sampleRepo] at heq
  · intro name heq
    simp [sampleRepo] at heq
  · intro chain hresolves
    obtain rfl := Except.ok.inj (hchain.symm.trans hresolves)
    decide

end Sg200x.Ci
