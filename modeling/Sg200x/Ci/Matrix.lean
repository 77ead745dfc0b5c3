import Sg200x.Ci.Plan

/-!
# The build matrix

`validate` and `affected_matrix` of `scripts/ci/plan.py`: which entries of the matrix a set of
changed files selects.
-/

namespace Sg200x.Ci

/-- What `json.loads` returns; numbers, truth values and `null` are told apart from the rest
and not from each other. -/
inductive Json
  | string (text : Text)
  | array (items : List Json)
  | object (members : List (Text × Json))
  | other

def Json.get (entry : Json) (key : String) : Option Json :=
  match entry with
  | .object members => members.lookup key.toList
  | _ => none

def Json.text? : Json → Option Text
  | .string text => some text
  | _ => none

def Json.textOf (entry : Json) (key : String) : Text :=
  ((entry.get key).bind Json.text?).getD []

/-- `str(entry["board"])`, which is a text in a valid matrix. -/
def entryBoard (entry : Json) : Text := entry.textOf "board"

def entryStorage (entry : Json) : Text := entry.textOf "storage"

/-- `entry.get("components", [])` -/
def entryComponents (entry : Json) : List Text :=
  match entry.get "components" with
  | some (.array items) => items.filterMap Json.text?
  | _ => []

def validComponents (entry : Json) : Bool :=
  match entry.get "components" with
  | none => true
  | some (.array items) => items.all fun item => item.text?.any (· ≠ [])
  | some _ => false

def plan (error : PlanError) : Except Raised α := .error (.planError error)

/-- The text of a field that must be a text and not empty. -/
def requiredText (entry : Json) (key : String) : Option Text :=
  ((entry.get key).bind Json.text?).filter (· ≠ [])

def Json.isObject : Json → Bool
  | .object _ => true
  | _ => false

/-- The checks of one entry, and the pairs that have been seen after it. -/
def validateEntry (t : Tree) (configRoot : Path) (index : ℕ) (seen : List (Text × Text))
    (entry : Json) : Except Raised (List (Text × Text)) :=
  if ! entry.isObject then plan (.notAnObject index)
  else
    match requiredText entry "board", requiredText entry "storage",
      requiredText entry "format" with
    | some board, some storage, some format =>
        if storage ≠ "sd".toList ∧ storage ≠ "emmc".toList then
          plan (.unsupportedStorage index storage)
        else if format ≠ "img".toList ∧ format ≠ "zip".toList then
          plan (.unsupportedFormat index format)
        else if storage = "emmc".toList ∧ format ≠ "zip".toList then plan (.emmcFormat board)
        else if storage = "sd".toList ∧ format ≠ "img".toList then plan (.sdFormat board)
        else if (board, storage) ∈ seen then plan (.duplicateEntry board storage)
        else do
          let _ ← boardChain t configRoot board
          if validComponents entry then return (board, storage) :: seen
          else plan (.invalidComponents index)
    | _, _, _ => plan (.lacksFields index)

def validateEntries (t : Tree) (configRoot : Path) :
    ℕ → List (Text × Text) → List Json → Except Raised Unit
  | _, _, [] => .ok ()
  | index, seen, entry :: entries => do
      let seen ← validateEntry t configRoot index seen entry
      validateEntries t configRoot (index + 1) seen entries

/-- `loads` is `json.loads`, and fails where it raises `JSONDecodeError`. -/
def loadMatrix (loads : Text → Option Json) (t : Tree) (configRoot : Path) :
    Except Raised (List Json) :=
  let path := configRoot.slash "build-matrix.json"
  match t.content path with
  | none => plan (.cannotRead path)
  | some data => do
      let text ← readText data
      match loads text with
      | none => plan (.cannotRead path)
      | some document =>
          match document.get "include" with
          | some (.array entries) => return entries
          | _ => plan .noIncludeArray

def validate (loads : Text → Option Json) (t : Tree) (configRoot : Path) :
    Except Raised (List Json) := do
  let entries ← loadMatrix loads t configRoot
  validateEntries t configRoot 0 [] entries
  return entries

/-- The boards of the entries that inherit from a board. -/
def derivedBoards (t : Tree) (configRoot : Path) (board : Text) :
    List Json → Except Raised (List Text)
  | [] => .ok []
  | entry :: entries => do
      let chain ← boardChain t configRoot (entryBoard entry)
      let rest ← derivedBoards t configRoot board entries
      return if board ∈ chain then entryBoard entry :: rest else rest

/-- The boards of the entries whose image has an addition. -/
def addonBoards (t : Tree) (configRoot : Path) (addon : Text) :
    List Json → Except Raised (List Text)
  | [] => .ok []
  | entry :: entries => do
      let settings ← effectiveAssignments t configRoot (entryBoard entry)
      let rest ← addonBoards t configRoot addon entries
      return if addon ∈ assignmentWords (settings.get "IMAGE_ADDITIONS".toList)
        then entryBoard entry :: rest else rest

def globalPrefixes : List Text :=
  [".github/workflows/".toList, "configs/common/".toList, "scripts/python/".toList]

def globalFiles : List Text :=
  ["scripts/ci/build-board.sh".toList, "scripts/ci/cache.py".toList,
    "scripts/ci/local-build.sh".toList, "scripts/ci/package-board.sh".toList,
    "scripts/ci/plan.py".toList, "scripts/ci/prepare-ccache-toolchains.sh".toList,
    "scripts/ci/toolchain-ref.sh".toList, "scripts/ci/validate.py".toList,
    "scripts/genimage_emmc.cfg".toList, "scripts/genimage_sd.cfg".toList,
    "scripts/Makefile".toList, "scripts/Dockerfile".toList, "scripts/setup_rootfs.sh".toList,
    "configs/settings.mk".toList, "configs/build-matrix.json".toList, "versions.env".toList,
    "toolchain.env".toList, "Makefile".toList]

def isGlobal (path : Text) : Bool :=
  path ∈ globalFiles || globalPrefixes.any fun start => start <+: path

/-- `re.match(r"configs/([^/]+)/", path)` -/
def configLayer (path : Text) : Option Text :=
  match path.splitOn '/' with
  | first :: layer :: _ :: _ => if first = "configs".toList ∧ layer ≠ [] then some layer else none
  | _ => none

/-- The boards that take something from the layer of a path. -/
def boardsOfLayer (t : Tree) (configRoot : Path) (entries : List Json) (path : Text) :
    Except Raised (List Text) :=
  match configLayer path with
  | some layer => derivedBoards t configRoot layer entries
  | none => .ok []

def boardsOfComponent (entries : List Json) (path : Text) : List Text :=
  if "components/".toList <+: path then
    (entries.filter fun entry =>
      (path.splitOn '/').getD 1 [] ∈ entryComponents entry).map entryBoard
  else []

def boardsOfAddon (t : Tree) (configRoot : Path) (entries : List Json) (path : Text) :
    Except Raised (List Text) :=
  if "scripts/addons/".toList <+: path then
    addonBoards t configRoot ((path.splitOn '/').getD 2 []) entries
  else .ok []

/-- The boards that one changed path affects. -/
def affectedBy (t : Tree) (configRoot : Path) (entries : List Json) (path : Text) :
    Except Raised (List Text) := do
  let inheriting ← boardsOfLayer t configRoot entries path
  let adding ← boardsOfAddon t configRoot entries path
  return inheriting ++ boardsOfComponent entries path ++ adding

def affectedLoop (t : Tree) (configRoot : Path) (entries : List Json) :
    List Text → List Text → Except Raised (List Json)
  | affected, [] => .ok (entries.filter fun entry => entryBoard entry ∈ affected)
  | affected, path :: paths => do
      let boards ← affectedBy t configRoot entries path
      if "scripts/deb/".toList <+: path then return entries
      else affectedLoop t configRoot entries (affected ++ boards) paths

/-- `files` are the paths that `changed_files` gets from `git diff --name-only`. -/
def affectedMatrix (loads : Text → Option Json) (t : Tree) (configRoot : Path)
    (files : List Text) : Except Raised (List Json) := do
  let entries ← validate loads t configRoot
  if files = [] then return []
  else if files.any isGlobal then return entries
  else affectedLoop t configRoot entries [] files

end Sg200x.Ci
