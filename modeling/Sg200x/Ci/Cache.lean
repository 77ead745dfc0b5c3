import Sg200x.Ci.Plan

/-!
# The inputs of a build layer

`scripts/ci/cache.py` gives SHA-256 the names and the contents of the files below the inputs
of a layer.
-/

namespace Sg200x.Ci

open Library.Listing

inductive Layer
  | firmware
  | linux
  | osdrv
  | middleware
  | boot
  | rootfs
  deriving DecidableEq

/-- `file_path.suffix == ".pyc"` -/
def isPyc (name : Text) : Bool := ".pyc".toList <:+ name && 4 < name.length

def excluded (path : Path) : Bool := "__pycache__".toList ∈ path || isPyc (path.getLastD [])

/-- The files that `add_path` goes through. -/
def inputFiles (t : Tree) (path : Path) : List (Path × Bytes) :=
  match t.content path with
  | some data => [(path, data)]
  | none => sortBy Prod.fst (t.below path)

/-- `str(path.relative_to(root))`, or `str(path)` for a path that is not below the root. -/
def relativeText (root path : Path) : Text :=
  if root <+: path then
    if path.length = root.length then ".".toList
    else ['/'].intercalate (path.drop root.length)
  else pathText path

def hashedName (root path : Path) : Bytes :=
  encodeUtf8 ((relativeText root path).map fun c => if c = '\\' then '/' else c)

/-- The files that `add_path` hashes. -/
def hashedFiles (t : Tree) (path : Path) : List (Path × Bytes) :=
  (inputFiles t path).filter fun file => ! excluded file.1

def addPath (t : Tree) (root path : Path) : Bytes :=
  (hashedFiles t path).flatMap fun file => hashedName root file.1 ++ [0] ++ file.2 ++ [0]

/-- `sorted(set(paths), key=str)` -/
def sortPaths (paths : List Path) : List Path := sortBy pathText paths.dedup

/-- What `digest_paths` feeds to SHA-256. -/
def digestStream (t : Tree) (repo : Path) (paths : List Path) : Bytes :=
  (sortPaths paths).flatMap (addPath t repo)

/-- `str.replace`, after the characters that the last replacement still covers. -/
def replaceFrom (old new : Text) : ℕ → Text → Text
  | _, [] => []
  | covered + 1, _ :: rest => replaceFrom old new covered rest
  | 0, c :: rest =>
      if old <+: c :: rest then new ++ replaceFrom old new (old.length - 1) rest
      else c :: replaceFrom old new 0 rest

def stripQuotes (text : Text) : Text :=
  ((text.dropWhile (· = '"')).reverse.dropWhile (· = '"')).reverse

/-- The partition file that the settings name for a storage. -/
def partitionFile (settings : Assignments) (storage : Text) : Text :=
  stripQuotes
    (replaceFrom "$(STORAGE_TYPE)".toList storage 0 (settings.get "PARTITION_FILE".toList))

def commonInputs (t : Tree) (repo configRoot : Path) (board : Text) :
    Except Raised (List Path) := do
  let settings ← boardSettings t configRoot board
  return [repo.slash "versions.env", repo.slash "toolchain.env", repo.slash "scripts/Makefile",
    configRoot.slash "settings.mk"] ++ settings

def component (repo : Path) : Path := repo.slash "components/sg2002-ipc"

/-- The device trees of the layers before the common one. -/
def layerDeviceTrees (configRoot : Path) (chain : List Text) : List Path :=
  (chain.filter (· ≠ common)).map fun name => (join configRoot name).slash "dts"

def firmwareInputs (t : Tree) (repo configRoot : Path) (board : Text) :
    Except Raised (List Path) := do
  let memmap ← resolveFile t configRoot board "memmap.py".toList
  return [(component repo).slash "Makefile", (component repo).slash "versions.env",
    (component repo).slash "include", (component repo).slash "core",
    (component repo).slash "firmware", (component repo).slash "ports/duo-sdk", memmap]

def linuxInputs (t : Tree) (repo configRoot : Path) (board : Text) :
    Except Raised (List Path) := do
  let defconfig ← resolveFile t configRoot board "linux/defconfig".toList
  let memmap ← resolveFile t configRoot board "memmap.py".toList
  let chain ← boardChain t configRoot board
  let patches ← patchFiles t configRoot board "linux".toList
  return [defconfig, memmap, configRoot.slash "common/dts",
    repo.slash "scripts/python/mmap_conv.py"] ++ layerDeviceTrees configRoot chain ++ patches

def osdrvInputs (t : Tree) (repo configRoot : Path) (board : Text) :
    Except Raised (List Path) := do
  let patches ← patchFiles t configRoot board "osdrv".toList
  return patches ++ [(component repo).slash "ports/osdrv"]

def middlewareInputs (t : Tree) (configRoot : Path) (board : Text) :
    Except Raised (List Path) := do
  let patches ← patchFiles t configRoot board "middleware".toList
  let sensors ← patchFiles t configRoot board "sensorsupportlist".toList
  return patches ++ sensors

/-- The partition file is an input if the settings name one. -/
def partitionInputs (t : Tree) (configRoot : Path) (board partition : Text) :
    Except Raised (List Path) :=
  if partition = [] then .ok []
  else do
    let path ← resolveFile t configRoot board partition
    return [path]

def bootInputs (t : Tree) (repo configRoot : Path) (board storage : Text) :
    Except Raised (List Path) := do
  let settings ← effectiveAssignments t configRoot board
  let memmap ← resolveFile t configRoot board "memmap.py".toList
  let partitions ← partitionInputs t configRoot board (partitionFile settings storage)
  let chain ← boardChain t configRoot board
  let defconfig ← resolveFile t configRoot board "u-boot/defconfig".toList
  let header ← resolveFile t configRoot board "u-boot/cvitek.h".toList
  let init ← resolveFile t configRoot board "u-boot/cvi_board_init.c".toList
  let uboot ← patchFiles t configRoot board "u-boot".toList
  let opensbi ← patchFiles t configRoot board "opensbi".toList
  let fsbl ← patchFiles t configRoot board "fsbl".toList
  return [memmap, configRoot.slash "common/dts", repo.slash "scripts/python/mmap_conv.py",
      repo.slash "scripts/python/mk_imgHeader.py", repo.slash "scripts/python/mkcvipart.py"] ++
    partitions ++ layerDeviceTrees configRoot chain ++ [defconfig, header, init] ++ uboot ++
    opensbi ++ fsbl

def rootfsInputs (repo : Path) : List Path :=
  [repo.slash "scripts/addons", repo.slash "scripts/deb", repo.slash "scripts/genimage_sd.cfg",
    repo.slash "scripts/genimage_emmc.cfg", repo.slash "scripts/python/raw2cimg.py",
    repo.slash "scripts/setup_rootfs.sh", (component repo).slash "Makefile",
    (component repo).slash "include", (component repo).slash "linux",
    (component repo).slash "tools"]

def ownInputs (t : Tree) (repo configRoot : Path) (board storage : Text) :
    Layer → Except Raised (List Path)
  | .firmware => firmwareInputs t repo configRoot board
  | .linux => linuxInputs t repo configRoot board
  | .osdrv => osdrvInputs t repo configRoot board
  | .middleware => middlewareInputs t configRoot board
  | .boot => bootInputs t repo configRoot board storage
  | .rootfs => .ok (rootfsInputs repo)

def layerInputs (t : Tree) (repo configRoot : Path) (board storage : Text) (layer : Layer) :
    Except Raised (List Path) := do
  let shared ← commonInputs t repo configRoot board
  let own ← ownInputs t repo configRoot board storage layer
  return shared ++ own

end Sg200x.Ci
