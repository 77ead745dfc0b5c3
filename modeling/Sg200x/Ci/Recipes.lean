import Sg200x.Ci.Invalidate
import Sg200x.Library.Incremental

/-!
# The recipes

`scripts/Makefile`, `scripts/addons/sg2002-ipc/addon.mk` and what their recipes run: the targets
with the stamps they leave in the build root, the targets whose products they use, and the files
of the checkout that they read.
-/

namespace Sg200x.Ci

open Library.Incremental

inductive Target
  | sg2002Ipc
  | linux
  | osdrv
  | middleware
  | vcodecFirmware
  | uboot
  | opensbi
  | fsbl
  | cviPinmux
  | image
  deriving DecidableEq

def stamps (start : String) (steps : List String) : List String :=
  steps.map fun step => start ++ step ++ "-stamp"

/-- The stamps of a target, and the directory in which it is made. -/
def artifacts : Target → List String
  | .sg2002Ipc => ["sg2002-ipc-build-stamp"]
  | .linux =>
      "kernel" ::
        stamps "linux-" ["prepare-checkout", "prepare-patch", "prepare-configure", "compile"]
  | .osdrv =>
      "osdrv" ::
        stamps "osdrv-"
          ["prepare-checkout", "prepare-patch", "prepare-configure", "compile", "package"]
  | .middleware =>
      "middleware" ::
        stamps "middleware-"
          ["prepare-checkout", "prepare-patch", "prepare-configure", "compile", "package"]
  | .vcodecFirmware =>
      "vcodec-firmware" :: stamps "vcodec-firmware-" ["prepare-checkout", "package"]
  | .uboot =>
      "u-boot" ::
        stamps "uboot-" ["prepare-checkout", "prepare-patch", "prepare-configure", "compile"]
  | .opensbi => "opensbi" :: stamps "opensbi-" ["prepare-checkout", "prepare-patch", "compile"]
  | .fsbl =>
      "fsbl" :: stamps "fsbl-" ["prepare-checkout", "prepare-patch", "compile", "package"]
  | .cviPinmux => ["cvi-pinmux-package-stamp"]
  | .image => "rootfs" :: stamps "image-" ["prepare", "addons", "customize", "compile"]

def artifact (name : String) : Path := [name.toList]

/-- The targets whose products a recipe can use. -/
def uses : Target → List Target
  | .sg2002Ipc | .linux | .vcodecFirmware | .uboot | .cviPinmux => []
  | .osdrv => [.linux]
  | .middleware => [.linux, .osdrv]
  | .opensbi => [.uboot]
  | .fsbl => [.uboot, .opensbi, .sg2002Ipc]
  | .image =>
      [.linux, .osdrv, .middleware, .vcodecFirmware, .fsbl, .cviPinmux, .sg2002Ipc]

/-- The place of a target in an order in which all can be made. -/
def Target.rank : Target → ℕ
  | .sg2002Ipc | .linux | .vcodecFirmware | .uboot | .cviPinmux => 0
  | .osdrv | .opensbi => 1
  | .middleware | .fsbl => 2
  | .image => 3

theorem rank_lt_of_uses {target used : Target} (h : used ∈ uses target) :
    used.rank < target.rank := by
  revert h
  cases target <;> cases used <;> decide

section

variable (t : Tree) (repo configRoot : Path) (board storage : Text)

/-- `$(shell python3 $(PLAN_TOOL) …)`: a failing command prints nothing. -/
def shell (printed : Except Raised (List Path)) : List Path := printed.toOption.getD []

def resolved (relative : String) : List Path :=
  shell <| (resolveFile t configRoot board relative.toList).map fun path => [path]

/-- `BOARD_DTS_DIR` -/
def boardDtsDir : List Path :=
  shell <| (resolveDirectory t configRoot board "dts".toList).map fun path => [path]

def boardPatches (component : String) : List Path :=
  shell (patchFiles t configRoot board component.toList)

/-- `BOARD_PARTITION_FILE`, for settings that `make` and `plan.py` read alike. -/
def boardPartitionFile : List Path :=
  shell do
    let settings ← effectiveAssignments t configRoot board
    partitionInputs t configRoot board (partitionFile settings storage)

def deb (package : String) : Path := (repo.slash "scripts/deb").slash package

/-- What `board-chain` reads: the `board.mk` of all layers but the common one. -/
def boardChainFiles : List Path :=
  repo.slash "scripts/ci/plan.py" ::
    shell ((boardChain t configRoot board).map fun chain => chain.dropLast.map fun name =>
      (join configRoot name).slash "board.mk")

/-- What `make -C components/sg2002-ipc firmware` reads. -/
def firmwareFiles : List Path :=
  [(component repo).slash "Makefile", (component repo).slash "versions.env",
      (component repo).slash "include", (component repo).slash "core",
      (component repo).slash "firmware", (component repo).slash "ports/duo-sdk"] ++
    resolved t configRoot board "memmap.py" ++
    (component repo).slash "tools/check_trace_layout.py" ::
      boardChainFiles t repo configRoot board

/-- What the recipes of a target read from the checkout, directories with all that is below. -/
def recipeFiles : Target → List Path
  | .sg2002Ipc => firmwareFiles t repo configRoot board
  | .linux =>
      boardPatches t configRoot board "linux" ++ resolved t configRoot board "linux/defconfig" ++
        [configRoot.slash "common/dts"] ++ boardDtsDir t configRoot board ++
        [repo.slash "scripts/python/mmap_conv.py"] ++ resolved t configRoot board "memmap.py" ++
        [repo.slash "scripts/ci/validate.py", repo.slash "scripts/ci/plan.py"]
  | .osdrv =>
      boardPatches t configRoot board "osdrv" ++ [(component repo).slash "ports/osdrv"] ++
        resolved t configRoot board "linux/defconfig" ++
        [(component repo).slash "include/sg2002_rtos_shm.h", deb repo "cvitek-osdrv"]
  | .middleware =>
      boardPatches t configRoot board "middleware" ++
        boardPatches t configRoot board "sensorsupportlist" ++
        resolved t configRoot board "linux/defconfig" ++ [deb repo "cvitek-middleware"]
  | .vcodecFirmware => [deb repo "firmware-vcodec-cv181x"]
  | .uboot =>
      boardPatches t configRoot board "u-boot" ++
        resolved t configRoot board "u-boot/defconfig" ++ [configRoot.slash "common/dts"] ++
        boardDtsDir t configRoot board ++ resolved t configRoot board "u-boot/cvitek.h" ++
        resolved t configRoot board "u-boot/cvi_board_init.c" ++
        [repo.slash "scripts/python/mmap_conv.py"] ++ resolved t configRoot board "memmap.py" ++
        [repo.slash "scripts/python/mkcvipart.py", repo.slash "scripts/python/mk_imgHeader.py"] ++
        boardPartitionFile t configRoot board storage ++
        [repo.slash "scripts/python/XmlParser.py"]
  | .opensbi => boardPatches t configRoot board "opensbi"
  | .fsbl =>
      boardPatches t configRoot board "fsbl" ++ [repo.slash "scripts/python/mmap_conv.py"] ++
        resolved t configRoot board "memmap.py" ++ [deb repo "cvitek-fsbl"]
  | .cviPinmux => []
  | .image =>
      [repo.slash "scripts/addons", repo.slash "scripts/deb", repo.slash "scripts/setup_rootfs.sh",
          repo.slash "scripts/genimage_sd.cfg", repo.slash "scripts/genimage_emmc.cfg",
          repo.slash "scripts/python/raw2cimg.py", (component repo).slash "linux",
          (component repo).slash "tools"] ++
        boardPartitionFile t configRoot board storage ++
        firmwareFiles t repo configRoot board ++ [repo.slash "scripts/python/XmlParser.py"]

/-- The files that `include $(wildcard /builder/addons/*/addon.mk)` finds. -/
def addonMakefiles : List Path :=
  let addons := repo.slash "scripts/addons"
  ((t.below addons).map Prod.fst).filter fun path =>
    path.length = addons.length + 2 ∧ path.getLast? = some "addon.mk".toList

/-- The makefiles and settings that `commonInputs` lists. -/
def listedMakefiles : List Path :=
  [repo.slash "scripts/Makefile", repo.slash "versions.env", configRoot.slash "settings.mk"] ++
    shell (boardSettings t configRoot board)

/-- What else is read before the first recipe runs. -/
def otherMakefiles : List Path :=
  addonMakefiles t repo ++ boardChainFiles t repo configRoot board

def makefiles : List Path := listedMakefiles t repo configRoot board ++
  otherMakefiles t repo configRoot board

/-- The files at these paths and below, with their contents. -/
def filesAt (paths : List Path) : List (Path × Bytes) := paths.flatMap (inputFiles t)

/-- What a product depends on besides other products. -/
structure Source (κ : Type) where
  commands : κ
  paths : List Path
  files : List (Path × Bytes)

/-- What is not in the repository: `make` and the programs that the recipes run. -/
structure Make (κ ο : Type) where
  /-- The recipes of a target after expansion. -/
  expand : List (Path × Bytes) → Target → κ
  /-- The targets that the expanded rules name as prerequisites. -/
  prerequisite : κ → Target → Prop
  run : (target : Target) → (source : Source κ) →
    ({used // used ∈ uses target ∧ prerequisite source.commands used} → ο) → ο

variable {κ ο : Type} (make : Make κ ο)

def rules : Rules Target (Source κ) ο where
  precedes used target := used ∈ uses target
  wf := Subrelation.wf rank_lt_of_uses (measure Target.rank).wf
  needs target source used := used ∈ uses target ∧ make.prerequisite source.commands used
  precedes_of_needs h := h.1
  make := make.run

def commands (target : Target) : κ :=
  make.expand (filesAt t (makefiles t repo configRoot board)) target

def source (target : Target) : Source κ where
  commands := commands t repo configRoot board make target
  paths := recipeFiles t repo configRoot board storage target
  files := filesAt t (recipeFiles t repo configRoot board storage target)

end

end Sg200x.Ci
