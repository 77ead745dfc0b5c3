import Sg200x.Ci.Coverage

/-!
# Rebuilding from a cache

Checkouts follow each other in a build root: `cache.py` removes what changed inputs affect, and
`make` makes what is missing.
-/

namespace Sg200x.Ci

open Library.Incremental Relation

section

variable (t u : Tree) (repo configRoot : Path) (board storage : Text)

/-- The files that are hashed for a layer. -/
def layerFiles (layer : Layer) : List (Path × Bytes) :=
  fedFiles t (shell (layerInputs t repo configRoot board storage layer))

def AmbiguousLayer (layer : Layer) : Prop :=
  Ambiguous repo (layerFiles t repo configRoot board storage layer)
    (layerFiles u repo configRoot board storage layer)

/-- A file that a layer lists has changed, and the hashed stream shows it. -/
def ToldApart (layer : Layer) : Prop :=
  layerFiles t repo configRoot board storage layer ≠
      layerFiles u repo configRoot board storage layer ∧
    ¬ AmbiguousLayer t u repo configRoot board storage layer

/-- The bytecode that `add_path` passes over. -/
def hiddenFiles (path : Path) : List (Path × Bytes) :=
  (inputFiles t path).filter fun file => excluded file.1

/-- The makefiles are the same, as far as no layer sees to it that lists them. -/
structure SameMakefiles (target : Target) : Prop where
  listed_paths : listedMakefiles t repo configRoot board = listedMakefiles u repo configRoot board
  other_paths : otherMakefiles t repo configRoot board = otherMakefiles u repo configRoot board
  listed : ∀ path ∈ listedMakefiles t repo configRoot board, inputFiles t path = inputFiles u path ∨
    (hiddenFiles t path = hiddenFiles u path ∧ ∃ layer, removes layer target = true)
  other : ∀ path ∈ otherMakefiles t repo configRoot board, inputFiles t path = inputFiles u path

variable {κ ο : Type} (make : Make κ ο)

/-- Nothing that `cache.py` does not look at has changed for a target. -/
structure SameUnlisted (target : Target) : Prop where
  paths : recipeFiles t repo configRoot board storage target =
    recipeFiles u repo configRoot board storage target
  unlisted : ∀ path ∈ unlistedFiles t repo configRoot board target ++
    unlistedFiles u repo configRoot board target, inputFiles t path = inputFiles u path
  hidden : ∀ path ∈ recipeFiles t repo configRoot board storage target,
    hiddenFiles t path = hiddenFiles u path
  commands : commands t repo configRoot board make target =
      commands u repo configRoot board make target ∨
    SameMakefiles t u repo configRoot board target

/-- The step from one checkout to the next leaves no stale target behind. -/
def Accounted (target : Target) : Prop :=
  (∃ layer, removes layer target = true ∧ ToldApart t u repo configRoot board storage layer) ∨
    ((∀ layer, removes layer target = true →
        ¬ AmbiguousLayer t u repo configRoot board storage layer) ∧
      SameUnlisted t u repo configRoot board storage make target)

end

variable {t u : Tree} {repo configRoot : Path} {board storage : Text} {κ ο δ : Type}
  {make : Make κ ο} {target : Target} {layer : Layer} {path : Path}

/-! ## One step -/

theorem hashedFiles_subset (hlisted : Listed t repo configRoot board storage target path)
    (hsame : ∀ layer, removes layer target = true →
      layerFiles t repo configRoot board storage layer =
        layerFiles u repo configRoot board storage layer) {file : Path × Bytes}
    (h : file ∈ hashedFiles t path) : file ∈ hashedFiles u path := by
  obtain ⟨layer, inputs, input, rest, hremoves, hinputs, hinput, hdown, rfl⟩ := hlisted
  obtain ⟨⟨below, hfile, hbelow⟩, hcontent, hkept⟩ := mem_hashedFiles_iff.mp h
  have hinputFile : file ∈ hashedFiles t input := by
    apply mem_hashedFiles_iff.mpr
    refine ⟨⟨rest ++ below, by rw [hfile, List.append_assoc], ?_⟩, hcontent, hkept⟩
    rw [List.mem_append, not_or]
    exact ⟨hdown, hbelow⟩
  have hfed : file ∈ layerFiles t repo configRoot board storage layer := by
    rw [layerFiles, hinputs]
    exact mem_fedFiles_iff.mpr ⟨input, hinput, hinputFile⟩
  rw [hsame layer hremoves] at hfed
  obtain ⟨other, -, hother⟩ := mem_fedFiles_iff.mp hfed
  exact mem_hashedFiles_iff.mpr
    ⟨⟨below, hfile, hbelow⟩, (mem_hashedFiles_iff.mp hother).2.1, hkept⟩

/-- What is read below a listed path is the same if what is hashed and what is hidden is. -/
theorem inputFiles_eq_of_listed (hlisted : Listed t repo configRoot board storage target path)
    (hlisted' : Listed u repo configRoot board storage target path)
    (hsame : ∀ layer, removes layer target = true →
      layerFiles t repo configRoot board storage layer =
        layerFiles u repo configRoot board storage layer)
    (hhidden : hiddenFiles t path = hiddenFiles u path) :
    inputFiles t path = inputFiles u path := by
  have hhashed : ∀ file, file ∈ hashedFiles t path ↔ file ∈ hashedFiles u path := fun file =>
    ⟨hashedFiles_subset hlisted hsame,
      hashedFiles_subset hlisted' fun layer hremoves => (hsame layer hremoves).symm⟩
  have hsplit : ∀ (v : Tree) (file : Path × Bytes),
      file ∈ inputFiles v path ↔ file ∈ hashedFiles v path ∨ file ∈ hiddenFiles v path := by
    intro v file
    rw [hashedFiles, hiddenFiles, List.mem_filter, List.mem_filter, ← and_or_left]
    cases excluded file.1 <;> simp
  have hall : (inputFiles t path).filter (fun _ => true) =
      (inputFiles u path).filter fun _ => true := by
    apply filter_inputFiles_congr
    intro file
    rw [List.filter_true, List.filter_true, hsplit, hsplit, hhashed, hhidden]
  rwa [List.filter_true, List.filter_true] at hall

theorem filesAt_congr {paths : List Path}
    (h : ∀ path ∈ paths, inputFiles t path = inputFiles u path) :
    filesAt t paths = filesAt u paths :=
  List.flatMap_congr h

/-- If the listed and the unlisted files are the same, so is the source of the target. -/
theorem source_eq
    (hinputs : ∀ layer, ∃ inputs, layerInputs t repo configRoot board storage layer = .ok inputs)
    (hinputs' : ∀ layer, ∃ inputs,
      layerInputs u repo configRoot board storage layer = .ok inputs)
    (hsame : ∀ layer, removes layer target = true →
      layerFiles t repo configRoot board storage layer =
        layerFiles u repo configRoot board storage layer)
    (h : SameUnlisted t u repo configRoot board storage make target) :
    source t repo configRoot board storage make target =
      source u repo configRoot board storage make target := by
  have hcommands : commands t repo configRoot board make target =
      commands u repo configRoot board make target := by
    rcases h.commands with hsame' | hmakefiles
    · exact hsame'
    · rw [commands, commands, makefiles, makefiles, ← hmakefiles.listed_paths,
        ← hmakefiles.other_paths]
      apply congrArg (fun files => make.expand files target)
      apply filesAt_congr
      intro path hpath
      rcases List.mem_append.mp hpath with hmem | hmem
      · rcases hmakefiles.listed path hmem with heq | ⟨hhidden, layer, hremoves⟩
        · exact heq
        · have hmem' := hmakefiles.listed_paths ▸ hmem
          exact inputFiles_eq_of_listed (listed_of_makefile hremoves (hinputs layer) hmem)
            (listed_of_makefile hremoves (hinputs' layer) hmem') hsame hhidden
      · exact hmakefiles.other path hmem
  have hfiles : ∀ path ∈ recipeFiles t repo configRoot board storage target,
      inputFiles t path = inputFiles u path := by
    intro path hpath
    rcases unlisted_or_listed (fun layer _ => hinputs layer) hpath with hunlisted | hlisted
    · exact h.unlisted path (List.mem_append_left _ hunlisted)
    · rcases unlisted_or_listed (fun layer _ => hinputs' layer) (h.paths ▸ hpath) with
        hunlisted | hlisted'
      · exact h.unlisted path (List.mem_append_right _ hunlisted)
      · exact inputFiles_eq_of_listed hlisted hlisted' hsame (h.hidden path hpath)
  rw [source, source, hcommands, ← h.paths, filesAt_congr hfiles]

/-! ## Hashes -/

/-- Equal hashes hash the same fields. -/
theorem fields_eq_of_hashOf {sha256 : Bytes → δ} (hsha : Function.Injective sha256)
    {hash : Option δ} (h : HashOf sha256 t repo configRoot board storage layer hash)
    (h' : HashOf sha256 u repo configRoot board storage layer hash) :
    fields repo (layerFiles t repo configRoot board storage layer) =
      fields repo (layerFiles u repo configRoot board storage layer) := by
  obtain ⟨inputs, hinputs, hhash⟩ := h
  obtain ⟨inputs', hinputs', hhash'⟩ := h'
  have hstream := hsha (Option.some.inj (hhash.symm.trans hhash'))
  rw [layerFiles, layerFiles, hinputs, hinputs']
  exact digestStream_eq_iff.mp hstream

theorem not_ambiguousLayer_of_eq
    (h : layerFiles t repo configRoot board storage layer =
      layerFiles u repo configRoot board storage layer) :
    ¬ AmbiguousLayer t u repo configRoot board storage layer := by
  rw [AmbiguousLayer, h]
  rintro ⟨-, hcuts | hpaths⟩
  · exact hcuts rfl
  · exact hpaths rfl

theorem layerFiles_eq_of_fields
    (h : fields repo (layerFiles t repo configRoot board storage layer) =
      fields repo (layerFiles u repo configRoot board storage layer))
    (hclear : ¬ AmbiguousLayer t u repo configRoot board storage layer) :
    layerFiles t repo configRoot board storage layer =
      layerFiles u repo configRoot board storage layer := by
  rw [AmbiguousLayer, Ambiguous, not_and, not_or, not_not, not_not] at hclear
  obtain ⟨hcuts, hpaths⟩ := hclear h
  exact files_eq_of_fields h hcuts hpaths

/-- If no layer that removes the target has another hash, the source of the target is the same. -/
theorem Accounted.source_eq {sha256 : Bytes → δ} (hsha : Function.Injective sha256)
    {hashes : Layer → Option δ}
    (hhash : ∀ layer, HashOf sha256 t repo configRoot board storage layer (hashes layer))
    (hhash' : ∀ layer, ∃ hash, HashOf sha256 u repo configRoot board storage layer hash)
    (hsame : ∀ layer, removes layer target = true →
      HashOf sha256 u repo configRoot board storage layer (hashes layer))
    (h : Accounted t u repo configRoot board storage make target) :
    source t repo configRoot board storage make target =
      source u repo configRoot board storage make target := by
  have hfiles : ∀ layer, removes layer target = true →
      ¬ AmbiguousLayer t u repo configRoot board storage layer →
      layerFiles t repo configRoot board storage layer =
        layerFiles u repo configRoot board storage layer := fun layer hremoves =>
    layerFiles_eq_of_fields (fields_eq_of_hashOf hsha (hhash layer) (hsame layer hremoves))
  rcases h with ⟨layer, hremoves, hdiffer, hclear⟩ | ⟨hclear, hunlisted⟩
  · exact absurd (hfiles layer hremoves hclear) hdiffer
  · apply Ci.source_eq _ _ (fun layer hremoves => hfiles layer hremoves (hclear layer hremoves))
      hunlisted
    · intro layer
      obtain ⟨inputs, hinputs, -⟩ := hhash layer
      exact ⟨inputs, hinputs⟩
    · intro layer
      obtain ⟨hash, inputs, hinputs, -⟩ := hhash' layer
      exact ⟨inputs, hinputs⟩

/-! ## Runs -/

/-- An artifact of the target is in the build root. -/
def InPlace (entries : List Path) (target : Target) : Prop :=
  ∃ name ∈ artifacts target, artifact name ∈ entries

def Whole (entries : List Path) (target : Target) : Prop :=
  ∀ name ∈ artifacts target, artifact name ∈ entries

/-- `make` succeeds: it leaves no target half made. -/
structure Rebuilt (t : Tree) (repo configRoot : Path) (board storage : Text) (make : Make κ ο)
    (left root : BuildRoot δ) (products products' : Target → ο) : Prop where
  hashes : root.hashes = left.hashes
  whole : ∀ target, InPlace root.entries target → Whole root.entries target
  remade : (rules make).Remade (source t repo configRoot board storage make)
    (InPlace left.entries) (InPlace root.entries) products products'

/-- Checkouts, the last first, that were built one after the other in an empty build root. -/
inductive Run [DecidableEq δ] (sha256 : Bytes → δ) (repo configRoot : Path)
    (board storage : Text) (make : Make κ ο) :
    List Tree → BuildRoot δ → (Target → ο) → Prop
  | empty (products : Target → ο) :
      Run sha256 repo configRoot board storage make [] ⟨fun _ => none, []⟩ products
  | build {trees : List Tree} {t : Tree} {layers : List Layer} {root left root' : BuildRoot δ}
      {products products' : Target → ο} :
      Run sha256 repo configRoot board storage make trees root products →
      (∀ layer, layer ∈ layers) →
      cacheLayers sha256 t repo configRoot board storage root layers = .ok left →
      Rebuilt t repo configRoot board storage make left root' products products' →
      Run sha256 repo configRoot board storage make (t :: trees) root' products'

/-- The target is the goal, or its product goes into the goal. -/
def GoesInto (make : Make κ ο) (target goal : Target) : Prop :=
  ReflTransGen (rules make).precedes target goal

theorem removes_of_goesInto {goal : Target} (h : GoesInto make target goal)
    (hremoves : removes layer target = true) : removes layer goal = true := by
  induction h with
  | refl => exact hremoves
  | tail _ hused ih => exact removes_of_uses hused ih

section

variable {sha256 : Bytes → δ} {root left root' : BuildRoot δ} {trees : List Tree}
  {layers : List Layer} {products products' : Target → ο} {goal : Target}

/-- After a build of the checkout. -/
structure Settled (sha256 : Bytes → δ) (t : Tree) (repo configRoot : Path) (board storage : Text)
    (make : Make κ ο) (root : BuildRoot δ) (products : Target → ο) (goal : Target) : Prop where
  hashOf : ∀ layer, HashOf sha256 t repo configRoot board storage layer (root.hashes layer)
  whole : ∀ target, InPlace root.entries target → Whole root.entries target
  clean : ∀ target, GoesInto make target goal → InPlace root.entries target →
    products target = (rules make).clean (source t repo configRoot board storage make) target

/-- What is in place was not removed for any layer. -/
theorem Swept.hashes_eq (h : Swept sha256 u repo configRoot board storage root layers left)
    (hlayers : ∀ layer, layer ∈ layers) (hplace : InPlace left.entries goal)
    (hremoves : removes layer goal = true) : left.hashes layer = root.hashes layer := by
  by_contra hne
  obtain ⟨name, hname, hentry⟩ := hplace
  have hspared := h.spared layer (hlayers layer) (Ne.symm hne) _ hentry
  rw [spared_artifact hname, hremoves] at hspared
  exact absurd hspared (by decide)

theorem Swept.whole (h : Swept sha256 u repo configRoot board storage root layers left)
    (hwhole : ∀ target, InPlace root.entries target → Whole root.entries target)
    (hplace : InPlace left.entries goal) : Whole left.entries goal := by
  obtain ⟨name, hname, hentry⟩ := hplace
  have hroot := hwhole goal ⟨name, hname, h.subset _ hentry⟩
  intro other hother
  apply h.together _ hentry _ (hroot other hother)
  intro layer
  rw [spared_artifact hname, spared_artifact hother]

/-- What stays in place would be made again just so. -/
theorem Settled.kept (h : Settled sha256 t repo configRoot board storage make root products goal)
    (hsha : Function.Injective sha256)
    (hswept : Swept sha256 u repo configRoot board storage root layers left)
    (hlayers : ∀ layer, layer ∈ layers)
    (haccounted : ∀ target, GoesInto make target goal →
      Accounted t u repo configRoot board storage make target)
    (htarget : GoesInto make target goal) (hplace : InPlace left.entries target) :
    (∀ used, GoesInto make used target →
        source t repo configRoot board storage make used =
          source u repo configRoot board storage make used) ∧
      products target =
        (rules make).clean (source u repo configRoot board storage make) target := by
  have hsources : ∀ used, GoesInto make used target →
      source t repo configRoot board storage make used =
        source u repo configRoot board storage make used := by
    intro used hused
    apply (haccounted used (hused.trans htarget)).source_eq hsha h.hashOf
    · exact fun layer => ⟨_, hswept.hashOf layer (hlayers layer)⟩
    · intro layer hremoves
      rw [← hswept.hashes_eq hlayers hplace (removes_of_goesInto hused hremoves)]
      exact hswept.hashOf layer (hlayers layer)
  refine ⟨hsources, ?_⟩
  have hroot : InPlace root.entries target := by
    obtain ⟨name, hname, hentry⟩ := hplace
    exact ⟨name, hname, hswept.subset _ hentry⟩
  calc products target
      = (rules make).clean (source t repo configRoot board storage make) target :=
        h.clean target htarget hroot
    _ = _ := Rules.clean_congr hsources

/-- A build settles the checkout if what it finds in place is clean. -/
theorem Rebuilt.settled
    (h : Rebuilt u repo configRoot board storage make left root' products products')
    (hswept : Swept sha256 u repo configRoot board storage root layers left)
    (hlayers : ∀ layer, layer ∈ layers)
    (hkept : ∀ target, GoesInto make target goal → InPlace left.entries target →
      products target =
        (rules make).clean (source u repo configRoot board storage make) target) :
    Settled sha256 u repo configRoot board storage make root' products' goal where
  hashOf := by
    intro layer
    rw [h.hashes]
    exact hswept.hashOf layer (hlayers layer)
  whole := h.whole
  clean := by
    intro target htarget hplace
    apply h.remade.clean _ hplace
    exact fun used hused => hkept used (hused.trans htarget)

/-- Every step to the next checkout is accounted for, for the goal and all that goes into it. -/
def AllAccounted (repo configRoot : Path) (board storage : Text) (make : Make κ ο)
    (goal : Target) (trees : List Tree) : Prop :=
  List.IsChain (fun new old => ∀ target, GoesInto make target goal →
    Accounted old new repo configRoot board storage make target) trees

/-- After the builds of these checkouts, the last first. -/
def SettledFor (sha256 : Bytes → δ) (repo configRoot : Path) (board storage : Text)
    (make : Make κ ο) (root : BuildRoot δ) (products : Target → ο) (goal : Target) :
    List Tree → Prop
  | [] => root.entries = []
  | t :: _ => Settled sha256 t repo configRoot board storage make root products goal

/-- What stays in place is complete, would be made again just so, and is made of what has not
changed since the last checkout. -/
structure Kept (u : Tree) (repo configRoot : Path) (board storage : Text) (make : Make κ ο)
    (trees : List Tree) (left : BuildRoot δ) (products : Target → ο) (target : Target) :
    Prop where
  whole : Whole left.entries target
  clean : products target =
    (rules make).clean (source u repo configRoot board storage make) target
  unchanged : ∀ old ∈ trees.head?, ∀ used, GoesInto make used target →
    source old repo configRoot board storage make used =
      source u repo configRoot board storage make used

theorem SettledFor.kept
    (h : SettledFor sha256 repo configRoot board storage make root products goal trees)
    (hsha : Function.Injective sha256)
    (hswept : Swept sha256 u repo configRoot board storage root layers left)
    (hlayers : ∀ layer, layer ∈ layers)
    (haccounted : AllAccounted repo configRoot board storage make goal (u :: trees))
    (htarget : GoesInto make target goal) (hplace : InPlace left.entries target) :
    Kept u repo configRoot board storage make trees left products target := by
  cases trees with
  | nil =>
      obtain ⟨name, -, hentry⟩ := hplace
      have hroot := hswept.subset _ hentry
      rw [show root.entries = [] from h] at hroot
      exact absurd hroot (by simp)
  | cons old trees =>
      have hsettled : Settled sha256 old repo configRoot board storage make root products goal := h
      obtain ⟨hsources, hclean⟩ := hsettled.kept hsha hswept hlayers
        (List.isChain_cons_cons.mp haccounted).1 htarget hplace
      refine ⟨hswept.whole hsettled.whole hplace, hclean, ?_⟩
      intro other hother
      obtain rfl := Option.some.inj hother
      exact hsources

theorem Run.settledFor [DecidableEq δ] (hsha : Function.Injective sha256)
    (h : Run sha256 repo configRoot board storage make trees root products)
    (haccounted : AllAccounted repo configRoot board storage make goal trees) :
    SettledFor sha256 repo configRoot board storage make root products goal trees := by
  induction h with
  | empty products => rfl
  | build hrun hlayers hcache hbuilt ih =>
      have hswept := swept_of_cacheLayers hcache
      apply hbuilt.settled hswept hlayers
      intro target htarget hplace
      have hbefore := ih haccounted.tail
      exact (hbefore.kept hsha hswept hlayers haccounted htarget hplace).clean

/-- If every step is accounted for, a target that `cache.py` leaves in place is what a clean build
of the checkout makes, and so is every target after the rebuild. -/
theorem cache_sound [DecidableEq δ] (hsha : Function.Injective sha256)
    (hrun : Run sha256 repo configRoot board storage make trees root products)
    (haccounted : AllAccounted repo configRoot board storage make goal (t :: trees))
    (hlayers : ∀ layer, layer ∈ layers)
    (hcache : cacheLayers sha256 t repo configRoot board storage root layers = .ok left) :
    (InPlace left.entries goal →
        Kept t repo configRoot board storage make trees left products goal) ∧
      ∀ root' products', Rebuilt t repo configRoot board storage make left root' products products' →
        InPlace root'.entries goal → products' goal =
          (rules make).clean (source t repo configRoot board storage make) goal := by
  have hswept := swept_of_cacheLayers hcache
  have hbefore := hrun.settledFor hsha haccounted.tail
  have hkept : ∀ target, GoesInto make target goal → InPlace left.entries target →
      Kept t repo configRoot board storage make trees left products target := fun _ =>
    hbefore.kept hsha hswept hlayers haccounted
  refine ⟨hkept goal .refl, ?_⟩
  intro root' products' hbuilt hplace
  have hclean := fun target htarget hleft => (hkept target htarget hleft).clean
  exact (hbuilt.settled hswept hlayers hclean).clean goal .refl hplace

end

/-! ## A sample -/

def sampleInclude : Path := component ["w".toList] ++ ["include".toList]

def sampleHeader : Path := sampleInclude ++ ["sg2002_rtos_shm.h".toList]

def sampleBoard : Path := ["c".toList, "b".toList]

def sampleFiles : List Path :=
  [sampleBoard ++ ["memmap.py".toList], sampleBoard ++ ["linux".toList, "defconfig".toList],
    sampleBoard ++ ["u-boot".toList, "defconfig".toList],
    sampleBoard ++ ["u-boot".toList, "cvitek.h".toList],
    sampleBoard ++ ["u-boot".toList, "cvi_board_init.c".toList]]

def sampleDirs : List Path :=
  [[], ["w".toList], ["w".toList, "components".toList], component ["w".toList], sampleInclude,
    ["c".toList], sampleBoard, sampleBoard ++ ["linux".toList],
    sampleBoard ++ ["u-boot".toList]]

/-- A checkout with one board and this header. -/
def sampleCheckout (header : Bytes) : Tree where
  files := (sampleHeader, header) :: sampleFiles.map fun path => (path, [])
  dirs := sampleDirs
  nodup := show (sampleHeader :: sampleFiles).Nodup by decide +kernel
  root_mem := by decide +kernel
  plain := show ∀ path ∈ sampleDirs ++ sampleHeader :: sampleFiles,
      ∀ name ∈ path, PlainName name by
    decide +kernel
  parent_mem := show ∀ path ∈ sampleDirs ++ sampleHeader :: sampleFiles,
      path ≠ [] → path.dropLast ∈ sampleDirs by
    decide +kernel
  disjoint := show ∀ path ∈ sampleDirs, path ∉ sampleHeader :: sampleFiles by
    decide +kernel

/-- Every target makes what it reads. -/
def sampleMake : Make Unit (List (Path × Bytes)) where
  expand _ _ := ()
  prerequisite _ _ := False
  run _ source _ := source.files

def sampleLayers : List Layer := [.firmware, .linux, .osdrv, .middleware, .boot, .rootfs]

def sampleTargets : List Target :=
  [.sg2002Ipc, .linux, .osdrv, .middleware, .vcodecFirmware, .uboot, .opensbi, .fsbl, .cviPinmux,
    .image]

def sampleSource (t : Tree) (target : Target) : Source Unit :=
  source t ["w".toList] ["c".toList] "b".toList "sd".toList sampleMake target

def sampleCache (t : Tree) (root : BuildRoot Bytes) : Except Raised (BuildRoot Bytes) :=
  cacheLayers id t ["w".toList] ["c".toList] "b".toList "sd".toList root sampleLayers

/-- All artifacts, and what the layers need to be complete. -/
def sampleBuilt (hashes : Layer → Option Bytes) : BuildRoot Bytes where
  hashes := hashes
  entries := (sampleTargets.flatMap artifacts).map artifact ++
    (sampleLayers.flatMap layerCompletionPaths).map fun relative => parts relative.toList

theorem sampleBuilt_whole (hashes : Layer → Option Bytes) (target : Target) :
    Whole (sampleBuilt hashes).entries target := by
  intro name hname
  apply List.mem_append_left
  have htarget : target ∈ sampleTargets := by cases target <;> decide
  exact List.mem_map_of_mem (List.mem_flatMap.mpr ⟨target, htarget, hname⟩)

theorem sampleBuilt_inPlace (hashes : Layer → Option Bytes) (target : Target) :
    InPlace (sampleBuilt hashes).entries target := by
  have hsome : ∃ name, name ∈ artifacts target := by
    cases target <;> exact ⟨_, List.mem_cons_self⟩
  obtain ⟨name, hname⟩ := hsome
  exact ⟨name, hname, sampleBuilt_whole hashes target name hname⟩

theorem mem_sampleLayers (layer : Layer) : layer ∈ sampleLayers := by
  cases layer <;> decide

def sampleLeft (t : Tree) (root : BuildRoot Bytes) : BuildRoot Bytes :=
  (sampleCache t root).toOption.getD root

theorem sampleCache_eq {t : Tree} {root : BuildRoot Bytes}
    (h : (sampleCache t root).toOption.isSome = true) :
    sampleCache t root = .ok (sampleLeft t root) := by
  rw [sampleLeft]
  cases hcache : sampleCache t root with
  | error raised =>
      rw [hcache] at h
      exact nomatch h
  | ok left => rfl

/-- The build root after the first build, which makes everything. -/
def sampleRoot : BuildRoot Bytes :=
  sampleBuilt (sampleLeft (sampleCheckout []) ⟨fun _ => none, []⟩).hashes

/-- The digest of the inputs of a layer. -/
def sampleDigest (t : Tree) (layer : Layer) : Option Bytes :=
  (layerInputs t ["w".toList] ["c".toList] "b".toList "sd".toList layer).toOption.map
    (digestPaths id t ["w".toList])

/-- The kernel and its drivers, and what their layers need to be complete. -/
def sampleKept : List Path :=
  artifact "kernel" :: artifact "osdrv" ::
    ([Layer.linux, .osdrv].flatMap layerCompletionPaths).map fun relative => parts relative.toList

/-- Both runs end.  The header is no input of the kernel or of its drivers, and the other layers
spare what is kept. -/
theorem sample_evaluated :
    (sampleCache (sampleCheckout []) ⟨fun _ => none, []⟩).toOption.isSome = true ∧
      (sampleCache (sampleCheckout [1]) sampleRoot).toOption.isSome = true ∧
      (∀ layer ∈ [Layer.linux, .osdrv],
        sampleDigest (sampleCheckout [1]) layer = sampleDigest (sampleCheckout []) layer) ∧
      ∀ layer ∈ [Layer.firmware, .middleware, .boot, .rootfs], ∀ entry ∈ sampleKept,
        spared layer entry = true := by
  decide +kernel

theorem sampleFirst_eq : sampleCache (sampleCheckout []) ⟨fun _ => none, []⟩ =
    .ok (sampleLeft (sampleCheckout []) ⟨fun _ => none, []⟩) :=
  sampleCache_eq sample_evaluated.1

theorem sample_run :
    Run id ["w".toList] ["c".toList] "b".toList "sd".toList sampleMake [sampleCheckout []]
      sampleRoot ((rules sampleMake).clean (sampleSource (sampleCheckout []))) := by
  have hnothing : ∀ target,
      ¬ InPlace (sampleLeft (sampleCheckout []) ⟨fun _ => none, []⟩).entries target := by
    rintro target ⟨name, -, hentry⟩
    exact absurd ((swept_of_cacheLayers sampleFirst_eq).subset _ hentry) (by simp)
  apply Run.build (.empty fun _ => []) mem_sampleLayers sampleFirst_eq
  refine ⟨rfl, fun target _ => sampleBuilt_whole _ target, ?_, ?_, ?_⟩
  · intro target hplace
    exact absurd hplace (hnothing target)
  · intro target _ _
    exact Rules.clean_eq target
  · intro target used _ _ _
    exact sampleBuilt_inPlace _ used

/-- After an edit of the header, for which neither the kernel nor its drivers are removed. -/
def sampleEdited : BuildRoot Bytes := sampleLeft (sampleCheckout [1]) sampleRoot

theorem sampleEdited_eq : sampleCache (sampleCheckout [1]) sampleRoot = .ok sampleEdited :=
  sampleCache_eq sample_evaluated.2.1

theorem hashOf_sample {t : Tree} {layer : Layer} {hash : Option Bytes} :
    HashOf id t ["w".toList] ["c".toList] "b".toList "sd".toList layer hash ↔
      hash.isSome ∧ sampleDigest t layer = hash := by
  constructor
  · rintro ⟨inputs, hinputs, rfl⟩
    refine ⟨rfl, ?_⟩
    rw [sampleDigest, hinputs]
    rfl
  · rintro ⟨hsome, rfl⟩
    cases hinputs : layerInputs t ["w".toList] ["c".toList] "b".toList "sd".toList layer with
    | error raised =>
        rw [sampleDigest, hinputs] at hsome
        cases hsome
    | ok inputs =>
        refine ⟨inputs, hinputs, ?_⟩
        rw [sampleDigest, hinputs]
        rfl

/-- The kernel and its drivers have the hash that the first build has left. -/
theorem sampleRoot_hashOf {layer : Layer} (hlayer : layer ∈ [Layer.linux, .osdrv]) :
    HashOf id (sampleCheckout [1]) ["w".toList] ["c".toList] "b".toList "sd".toList layer
      (sampleRoot.hashes layer) := by
  have hswept := swept_of_cacheLayers sampleFirst_eq
  obtain ⟨hsome, hdigest⟩ := hashOf_sample.mp (hswept.hashOf layer (mem_sampleLayers layer))
  exact hashOf_sample.mpr ⟨hsome, (sample_evaluated.2.2.1 layer hlayer).trans hdigest⟩

theorem sampleKept_mem : ∀ entry ∈ sampleKept, entry ∈ sampleRoot.entries := by
  intro entry hentry
  rcases List.mem_cons.mp hentry with rfl | hentry
  · exact sampleBuilt_whole _ .linux "kernel" List.mem_cons_self
  rcases List.mem_cons.mp hentry with rfl | hentry
  · exact sampleBuilt_whole _ .osdrv "osdrv" List.mem_cons_self
  · obtain ⟨relative, hrelative, rfl⟩ := List.mem_map.mp hentry
    obtain ⟨layer, -, hlayer⟩ := List.mem_flatMap.mp hrelative
    exact List.mem_append_right _ (List.mem_map_of_mem
      (List.mem_flatMap.mpr ⟨layer, mem_sampleLayers layer, hlayer⟩))

theorem sampleEdited_entries : ∀ entry ∈ sampleKept, entry ∈ sampleEdited.entries := by
  refine kept_of_foldlM sampleEdited_eq sampleKept_mem ?_
  have hpaths : ∀ layer ∈ [Layer.linux, .osdrv], ∀ relative ∈ layerCompletionPaths layer,
      parts relative.toList ∈ sampleKept := fun layer hlayer relative hrelative =>
    List.mem_cons_of_mem _ (List.mem_cons_of_mem _
      (List.mem_map_of_mem (List.mem_flatMap.mpr ⟨layer, hlayer, hrelative⟩)))
  intro layer _
  cases layer with
  | firmware | middleware | boot | rootfs => exact .inl (sample_evaluated.2.2.2 _ (by decide))
  | linux | osdrv =>
      exact .inr ⟨sampleRoot_hashOf (by decide), hpaths _ (by decide)⟩

theorem sampleEdited_inPlace :
    InPlace sampleEdited.entries .linux ∧ InPlace sampleEdited.entries .osdrv :=
  ⟨⟨_, List.mem_cons_self, sampleEdited_entries _ List.mem_cons_self⟩,
    ⟨_, List.mem_cons_self, sampleEdited_entries _ (List.mem_cons_of_mem _ List.mem_cons_self)⟩⟩

/-- The drivers are built with the header, which no layer lists for them. -/
theorem edited_header_leaves_osdrv :
    ∃ (make : Make Unit (List (Path × Bytes))) (repo configRoot : Path) (board storage : Text)
      (layers : List Layer) (old new : Tree) (root left : BuildRoot Bytes)
      (products : Target → List (Path × Bytes)),
      Run id repo configRoot board storage make [old] root products ∧
        (∀ layer, layer ∈ layers) ∧
        cacheLayers id new repo configRoot board storage root layers = .ok left ∧
        InPlace left.entries .osdrv ∧
        products .osdrv ≠
          (rules make).clean (source new repo configRoot board storage make) .osdrv := by
  refine ⟨sampleMake, _, _, _, _, _, _, _, _, _, _, sample_run, mem_sampleLayers, sampleEdited_eq,
    sampleEdited_inPlace.2, ?_⟩
  have hclean : ∀ t, (rules sampleMake).clean (sampleSource t) .osdrv =
      (sampleSource t .osdrv).files := fun t => Rules.clean_eq Target.osdrv
  show (rules sampleMake).clean (sampleSource _) .osdrv ≠
    (rules sampleMake).clean (sampleSource _) .osdrv
  rw [hclean, hclean]
  decide +kernel

/-- Nothing that the kernel is built from has changed. -/
theorem sample_accounted :
    AllAccounted ["w".toList] ["c".toList] "b".toList "sd".toList sampleMake .linux
      [sampleCheckout [1], sampleCheckout []] := by
  rw [AllAccounted, List.isChain_cons_cons]
  refine ⟨?_, List.isChain_singleton _⟩
  intro target htarget
  have hlinux : target = .linux := by
    rcases Relation.ReflTransGen.cases_tail htarget with heq | ⟨used, -, hused⟩
    · exact heq.symm
    · exact nomatch (show used ∈ uses .linux from hused)
  subst hlinux
  right
  constructor
  · intro layer hremoves
    cases layer with
    | linux =>
        have hsame : layerFiles (sampleCheckout []) ["w".toList] ["c".toList] "b".toList
              "sd".toList .linux =
            layerFiles (sampleCheckout [1]) ["w".toList] ["c".toList] "b".toList "sd".toList
              .linux := by
          decide +kernel
        exact not_ambiguousLayer_of_eq hsame
    | _ => exact nomatch hremoves
  · refine ⟨?_, ?_, ?_, Or.inl rfl⟩ <;> decide +kernel

theorem cache_sound_linux :
    Kept (sampleCheckout [1]) ["w".toList] ["c".toList] "b".toList "sd".toList sampleMake
      [sampleCheckout []] sampleEdited ((rules sampleMake).clean (sampleSource (sampleCheckout [])))
      .linux :=
  (cache_sound Function.injective_id sample_run sample_accounted mem_sampleLayers
    sampleEdited_eq).1 sampleEdited_inPlace.1

end Sg200x.Ci
