import Sg200x.Ci.Tree

/-!
# Board configurations

`scripts/ci/plan.py`: the assignments of a settings file, the inheritance of boards, and the
files, directories and patches that a board takes from its layers.
-/

namespace Sg200x.Ci

open Library.Listing

/-- `str.isspace` -/
def isSpace (c : Char) : Bool :=
  (9 ≤ c.toNat && c.toNat ≤ 13) || (28 ≤ c.toNat && c.toNat ≤ 32) || c.toNat = 0x85 ||
    c.toNat = 0xa0 || c.toNat = 0x1680 || (0x2000 ≤ c.toNat && c.toNat ≤ 0x200a) ||
    c.toNat = 0x2028 || c.toNat = 0x2029 || c.toNat = 0x202f || c.toNat = 0x205f ||
    c.toNat = 0x3000

/-- Where `str.splitlines` cuts. -/
def isLineBreak (c : Char) : Bool :=
  (10 ≤ c.toNat && c.toNat ≤ 13) || (28 ≤ c.toNat && c.toNat ≤ 30) || c.toNat = 0x85 ||
    c.toNat = 0x2028 || c.toNat = 0x2029

def strip (text : Text) : Text := ((text.dropWhile isSpace).reverse.dropWhile isSpace).reverse

/-- The line ends that `read_text` translates. -/
def universalNewlines : Text → Text
  | '\r' :: '\n' :: rest => '\n' :: universalNewlines rest
  | c :: rest => (if c = '\r' then '\n' else c) :: universalNewlines rest
  | [] => []

def splitlines (text : Text) : List Text :=
  let lines := text.splitOnP isLineBreak
  if lines.getLast? = some [] then lines.dropLast else lines

/-- `text.encode("utf-8")` -/
def encodeUtf8 (text : Text) : Bytes := text.flatMap String.utf8EncodeChar

/-- `bytes.decode("utf-8")` -/
def decodeUtf8 (data : Bytes) : Option Text := data.toByteArray.utf8Decode?.map Array.toList

inductive PlanError
  | invalidBoardName (board : Text)
  | inheritanceCycle (chain : List Text)
  | missingBoard (directory : Path)
  | relativePathRequired (relative : Text)
  | notDefined (relative board : Text)
  | directoryNotDefined (relative board : Text)
  | invalidPatchComponent (component : Text)
  | cannotRead (path : Path)
  | noIncludeArray
  | notAnObject (index : ℕ)
  | lacksFields (index : ℕ)
  | unsupportedStorage (index : ℕ) (storage : Text)
  | unsupportedFormat (index : ℕ) (format : Text)
  | emmcFormat (board : Text)
  | sdFormat (board : Text)
  | duplicateEntry (board storage : Text)
  | invalidComponents (index : ℕ)
  deriving DecidableEq

inductive Raised
  | planError (error : PlanError)
  | unicodeDecodeError
  /-- The iterations given to a loop do not suffice. -/
  | unfinished
  deriving DecidableEq

inductive Operator
  | simple
  | colon
  | append
  | conditional
  deriving DecidableEq

/-- `[:+?]?=` and what follows it. -/
def splitOperator : Text → Option (Operator × Text)
  | '=' :: rest => some (.simple, rest)
  | ':' :: '=' :: rest => some (.colon, rest)
  | '+' :: '=' :: rest => some (.append, rest)
  | '?' :: '=' :: rest => some (.conditional, rest)
  | _ => none

def isWord (c : Char) : Bool := c.isAlphanum || c = '_'

/-- `ASSIGNMENT.match(line)`: the key, the operator and the value. -/
def matchAssignment (line : Text) : Option (Text × Operator × Text) :=
  let line := line.dropWhile isSpace
  let key := line.takeWhile isWord
  if key.head?.any fun c => c.isAlpha || c = '_' then
    (splitOperator ((line.dropWhile isWord).dropWhile isSpace)).map fun found =>
      (key, found.1, strip found.2)
  else none

/-- A dictionary; the last assignment of a key comes first. -/
abbrev Assignments := List (Text × Text)

def Assignments.get (values : Assignments) (key : Text) : Text := (values.lookup key).getD []

def applyLine (values : Assignments) (rawLine : Text) : Assignments :=
  let line := strip (rawLine.takeWhile (· ≠ '#'))
  if line = [] then values
  else
    match matchAssignment line with
    | none => values
    | some (key, operator, rawValue) =>
        let value := strip rawValue
        match operator with
        | .append => (key, strip (values.get key ++ ' ' :: value)) :: values
        | .conditional => if (values.lookup key).isSome then values else (key, value) :: values
        | .simple | .colon => (key, value) :: values

def readText (data : Bytes) : Except Raised Text :=
  match decodeUtf8 data with
  | none => .error .unicodeDecodeError
  | some text => .ok (universalNewlines text)

def applyAssignments (t : Tree) (path : Path) (values : Assignments) :
    Except Raised Assignments :=
  match t.content path with
  | none => .ok values
  | some data => do
      let text ← readText data
      return (splitlines text).foldl applyLine values

def readAssignments (t : Tree) (path : Path) : Except Raised Assignments :=
  applyAssignments t path []

def assignmentWords (value : Text) : List Text :=
  ((value.filter (· ≠ '"')).splitOnP isSpace).filter (· ≠ [])

def common : Text := "common".toList

/-- The board that `board.mk` names, empty when it names none. -/
def baseBoard (t : Tree) (configRoot : Path) (board : Text) : Except Raised Text := do
  let values ← readAssignments t ((join configRoot board).slash "board.mk")
  return values.get "BASE_BOARD".toList

/-- The loop of `board_chain`. -/
def chainLoop (t : Tree) (configRoot : Path) : ℕ → List Text → Text → Except Raised (List Text)
  | _, chain, [] => .ok (chain ++ [common])
  | 0, _, _ :: _ => .error .unfinished
  | fuel + 1, chain, c :: rest =>
      let current := c :: rest
      if current ∈ chain then .error (.planError (.inheritanceCycle (chain ++ [current])))
      else if t.isDir (join configRoot current) then do
        let next ← baseBoard t configRoot current
        chainLoop t configRoot fuel (chain ++ [current]) next
      else .error (.planError (.missingBoard (join configRoot current)))

def InvalidBoard (board : Text) : Prop :=
  board = [] ∨ board = common ∨ '/' ∈ board ∨ '\\' ∈ board

instance : DecidablePred InvalidBoard := fun _ => inferInstanceAs (Decidable (_ ∨ _))

/-- As long as the loop goes on, it has met every directory at most once. -/
def boardChain (t : Tree) (configRoot : Path) (board : Text) : Except Raised (List Text) :=
  if InvalidBoard board then .error (.planError (.invalidBoardName board))
  else chainLoop t configRoot (t.dirs.length + 2) [] board

def applicationLayers (t : Tree) (configRoot : Path) (board : Text) :
    Except Raised (List Text) := do
  let chain ← boardChain t configRoot board
  return chain.reverse

def leavesLayer (relative : Text) : Prop :=
  relative.head? = some '/' ∨ parent ∈ parts relative

instance : DecidablePred leavesLayer := fun _ => inferInstanceAs (Decidable (_ ∨ _))

def resolveFile (t : Tree) (configRoot : Path) (board relative : Text) : Except Raised Path := do
  if leavesLayer relative then throw (.planError (.relativePathRequired relative))
  let chain ← boardChain t configRoot board
  match chain.find? fun layer => t.isFile (join (join configRoot layer) relative) with
  | some layer => return join (join configRoot layer) relative
  | none => throw (.planError (.notDefined relative board))

def resolveDirectory (t : Tree) (configRoot : Path) (board relative : Text) :
    Except Raised Path := do
  if leavesLayer relative then throw (.planError (.relativePathRequired relative))
  let chain ← boardChain t configRoot board
  match chain.find? fun layer => t.isDir (join (join configRoot layer) relative) with
  | some layer => return join (join configRoot layer) relative
  | none => throw (.planError (.directoryNotDefined relative board))

/-- `dict.setdefault` -/
def setDefault {ν : Type} (dict : List (Text × ν)) (key : Text) (value : ν) : List (Text × ν) :=
  if (dict.lookup key).isSome then dict else dict ++ [(key, value)]

def patchDir (configRoot : Path) (layer component : Text) : Path :=
  join ((join configRoot layer).slash "patches") component

/-- What a layer selects: a tombstone hides the patch of a later layer. -/
def selectLayer (t : Tree) (configRoot : Path) (component : Text)
    (selected : List (Text × Option Path)) (layer : Text) : List (Text × Option Path) :=
  let dir := patchDir configRoot layer component
  if t.isDir dir then
    let tombstones := (t.glob dir ".patch.skip".toList).foldl (fun selected path =>
      let name := path.getLastD []
      setDefault selected (name.take (name.length - ".skip".length)) none) selected
    (t.glob dir ".patch".toList).foldl (fun selected path =>
      setDefault selected (path.getLastD []) (some path)) tombstones
  else selected

def isComponentName (component : Text) : Bool :=
  component ≠ [] && component.all fun c => c.isAlphanum || c = '_' || c = '.' || c = '-'

def patchFiles (t : Tree) (configRoot : Path) (board component : Text) :
    Except Raised (List Path) := do
  if ! isComponentName component then throw (.planError (.invalidPatchComponent component))
  let chain ← boardChain t configRoot board
  let selected := chain.foldl (selectLayer t configRoot component) []
  return chain.reverse.flatMap fun layer =>
    sortBy id ((selected.filterMap Prod.snd).filter fun path =>
      path.dropLast = patchDir configRoot layer component)

def boardSettings (t : Tree) (configRoot : Path) (board : Text) : Except Raised (List Path) := do
  let layers ← applicationLayers t configRoot board
  return (layers.filter (· ≠ common)).map fun layer =>
    (join configRoot layer).slash "settings.mk"

def effectiveAssignments (t : Tree) (configRoot : Path) (board : Text) :
    Except Raised Assignments := do
  let values ← applyAssignments t (configRoot.slash "settings.mk") []
  let settings ← boardSettings t configRoot board
  settings.foldlM (fun values path => applyAssignments t path values) values

theorem bind_eq_ok {α β : Type} {x : Except Raised α} {f : α → Except Raised β} {b : β} :
    x >>= f = .ok b ↔ ∃ a, x = .ok a ∧ f a = .ok b := by
  cases x with
  | error raised =>
      constructor
      · exact fun h => nomatch h
      · rintro ⟨a, ha, -⟩
        exact nomatch ha
  | ok a =>
      constructor
      · exact fun h => ⟨a, rfl, h⟩
      · rintro ⟨a', ha, h⟩
        rwa [Except.ok.inj ha]

theorem join_plain {path : Path} {name : Text} (h : PlainName name) : join path name = path ++ [name] := by
  obtain ⟨hne, hdot, -, hslash, -⟩ := h
  have hhead : name.head? ≠ some '/' := fun hhead => hslash (List.mem_of_head? hhead)
  rw [join, if_neg hhead, parts, List.splitOn_eq_singleton hslash]
  simp [hne, show name ≠ ['.'] from hdot]

end Sg200x.Ci
