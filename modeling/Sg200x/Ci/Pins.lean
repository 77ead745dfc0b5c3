import Sg200x.Ci.Digest
import Sg200x.Ci.Maintained
import Sg200x.Ci.PinScan
import Sg200x.Library.Checked

/-!
# The pins of a checkout

`validate_pins` of `scripts/ci/validate.py`: every commit that a pin file names has one owner and
stands in no other maintained file.
-/

namespace Sg200x.Ci

open Library.Listing Library.Window Library.Checked

inductive PinFailure
  | osError (path : Path)
  | unicodeDecodeError
  | emptyPin (file : Path)
  | duplicated (value first second : Text)
  | cannotScan (path : Path)
  | misplaced (value source : Text) (locations : List Text)
  deriving DecidableEq

/-- The dictionary `expected`, in the order of insertion: a value and the file that pins it. -/
structure Pins where
  items : List (Text × Text)
  nodup : (items.map Prod.fst).Nodup
  value_ne : ∀ item ∈ items, item.1 ≠ []

def Pins.empty : Pins := ⟨[], List.nodup_nil, by simp⟩

theorem lookup_eq_none_iff {items : List (Text × Text)} {value : Text} :
    items.lookup value = none ↔ value ∉ items.map Prod.fst := by
  induction items with
  | nil => simp
  | cons item items ih =>
      rw [List.lookup_cons, List.map_cons, List.mem_cons, not_or]
      by_cases hvalue : value = item.1
      · simp [hvalue]
      · simp [beq_eq_false_iff_ne.mpr hvalue, hvalue, ih]

def Pins.add (pins : Pins) (value relative : Text) (hnew : pins.items.lookup value = none)
    (hne : value ≠ []) : Pins where
  items := pins.items ++ [(value, relative)]
  nodup := by
    rw [List.map_append, List.nodup_append]
    refine ⟨pins.nodup, by simp, ?_⟩
    intro a ha b hb heq
    obtain rfl : b = value := by simpa using hb
    exact lookup_eq_none_iff.mp hnew (heq ▸ ha)
  value_ne := by
    intro item hitem
    rcases List.mem_append.mp hitem with hold | hnew
    · exact pins.value_ne item hold
    · obtain rfl := List.mem_singleton.mp hnew
      exact hne

def pinFiles (repo : Path) : List Path :=
  [repo.slash "versions.env", repo.slash "toolchain.env",
    repo.slash "components/sg2002-ipc/versions.env"]

/-- `raw_line.split("=", 1)[1].strip()`, when the line has a pin. -/
def pinValue (rawLine : Text) : Option Text :=
  if "_COMMIT=".toList <:+: rawLine then some (strip (rawLine.dropWhile (· ≠ '=')).tail) else none

def pinLine (file : Path) (relative : Text) (pins : Pins) (rawLine : Text) :
    Except PinFailure Pins :=
  match pinValue rawLine with
  | none => .ok pins
  | some value =>
      if hne : value = [] then .error (.emptyPin file)
      else
        match hlookup : pins.items.lookup value with
        | some other =>
            if other = relative then .ok pins else .error (.duplicated value other relative)
        | none => .ok (pins.add value relative hlookup hne)

/-- `pin_file.read_text(encoding="utf-8").splitlines()` -/
def readLines (t : Tree) (file : Path) : Except PinFailure (List Text) :=
  match t.content file with
  | none => .error (.osError file)
  | some data =>
      match readText data with
      | .ok text => .ok (splitlines text)
      | .error _ => .error .unicodeDecodeError

def readPins (t : Tree) (repo : Path) : Except PinFailure Pins :=
  (pinFiles repo).foldlM (fun pins file => do
    let lines ← readLines t file
    lines.foldlM (pinLine file (relativeText repo file)) pins) .empty

def Pins.needles (pins : Pins) (hne : pins.items ≠ []) : Needles where
  items := pins.items.map fun item => (item.1, encodeUtf8 item.1)
  nodup := by simpa [Function.comp_def] using pins.nodup
  nonempty := by simpa using hne
  needle_ne := by
    intro needle hneedle
    obtain ⟨item, hitem, rfl⟩ := List.mem_map.mp hneedle
    exact fun hnil => pins.value_ne item hitem (encodeUtf8_injective hnil)

def scanChunkSize : ℕ := 1024 * 1024

/-- What `stream.read(SCAN_CHUNK_SIZE)` returns until it returns nothing. -/
def readChunks : ℕ → Bytes → List Bytes
  | 0, _ => []
  | left + 1, content =>
      if content = [] then []
      else content.take scanChunkSize :: readChunks left (content.drop scanChunkSize)

/-- The values that `file_occurrences` finds; without needles the file is not opened. -/
def scanFile (t : Tree) (pins : Pins) (path : Path) : Except PinFailure (List Text) :=
  if hne : pins.items ≠ [] then
    match t.content path with
    | none => .error (.cannotScan path)
    | some data => .ok (fileOccurrences (pins.needles hne) (readChunks data.length data))
  else .ok []

/-- The files in which each value is found, sorted. -/
def trackedOccurrences (t : Tree) (repo : Path) (maintained : List Path) (pins : Pins) :
    Except PinFailure (Text → List Text) := do
  let scans ← maintained.mapM fun path => do
    let found ← scanFile t pins path
    return (relativeText repo path, found)
  return fun value =>
    sortBy id ((scans.filter fun scan => value ∈ scan.2).map Prod.fst)

def checkPin (locations : Text → List Text) (item : Text × Text) : Except PinFailure Unit :=
  if locations item.1 = [item.2] then .ok ()
  else .error (.misplaced item.1 item.2 (locations item.1))

def validatePins (t : Tree) (repo : Path) (maintained : List Path) : Except PinFailure Unit := do
  let pins ← readPins t repo
  let locations ← trackedOccurrences t repo maintained pins
  pins.items.forM (checkPin locations)

/-! ## What the check accepts -/

variable {t : Tree} {repo : Path} {maintained : List Path}

/-- A line of the file pins the value. -/
def PinsIn (t : Tree) (file : Path) (value : Text) : Prop :=
  ∃ lines, readLines t file = .ok lines ∧ ∃ line ∈ lines, pinValue line = some value

def holds (t : Tree) (value : Text) (path : Path) : Bool :=
  (t.content path).any fun data => encodeUtf8 value <:+: data

/-- Every pin has a value, one pin file, and no place in another maintained file. -/
structure PinsValid (t : Tree) (repo : Path) (maintained : List Path) : Prop where
  readable : ∀ file ∈ pinFiles repo, ∃ lines, readLines t file = .ok lines
  value_ne : ∀ file ∈ pinFiles repo, ¬ PinsIn t file []
  owner : ∀ file ∈ pinFiles repo, ∀ other ∈ pinFiles repo, ∀ value,
    PinsIn t file value → PinsIn t other value → file = other
  scanned : (∃ file ∈ pinFiles repo, ∃ value, PinsIn t file value) →
    ∀ path ∈ maintained, t.isFile path = true
  sole : ∀ file ∈ pinFiles repo, ∀ value, PinsIn t file value →
    maintained.filter (holds t value) = [file]

/-! ## The pin files -/

/-- What the lines of a file add to the dictionary. -/
def lineEntries (relative : Text) (lines : List Text) : List (Text × Text) :=
  (lines.filterMap pinValue).map fun value => (value, relative)

def linesOf (t : Tree) (file : Path) : List Text :=
  match readLines t file with
  | .ok lines => lines
  | .error _ => []

def fileEntries (t : Tree) (repo : Path) (files : List Path) : List (Text × Text) :=
  files.flatMap fun file => lineEntries (relativeText repo file) (linesOf t file)

/-- No value is empty, and none has two files. -/
def Consistent (entries : List (Text × Text)) : Prop :=
  ∀ entry ∈ entries, entry.1 ≠ [] ∧ ∀ other ∈ entries, other.1 = entry.1 → other.2 = entry.2

/-- The dictionary has the entries that have been met. -/
def Collected (entries : List (Text × Text)) (pins : Pins) : Prop :=
  ∀ entry, entry ∈ pins.items ↔ entry ∈ entries

theorem Consistent.of_append {entries more : List (Text × Text)}
    (h : Consistent (entries ++ more)) : Consistent entries := by
  intro entry hentry
  obtain ⟨hne, hone⟩ := h entry (List.mem_append_left _ hentry)
  exact ⟨hne, fun other hother => hone other (List.mem_append_left _ hother)⟩

theorem Pins.consistent (pins : Pins) : Consistent pins.items := by
  intro entry hentry
  refine ⟨pins.value_ne entry hentry, ?_⟩
  intro other hother hvalue
  exact congrArg Prod.snd (List.inj_on_of_nodup_map pins.nodup hother hentry hvalue)

theorem Collected.consistent {entries : List (Text × Text)} {pins : Pins}
    (h : Collected entries pins) : Consistent entries := by
  intro entry hentry
  obtain ⟨hne, hone⟩ := pins.consistent entry ((h entry).mpr hentry)
  exact ⟨hne, fun other hother => hone other ((h other).mpr hother)⟩

theorem lookup_mem {items : List (Text × Text)} {value relative : Text}
    (h : items.lookup value = some relative) : (value, relative) ∈ items := by
  induction items with
  | nil => cases h
  | cons item items ih =>
      rw [List.lookup_cons] at h
      by_cases hvalue : value = item.1
      · simp only [hvalue, beq_self_eq_true] at h
        obtain rfl := Option.some.inj h
        rw [hvalue]
        exact List.mem_cons_self
      · rw [beq_eq_false_iff_ne.mpr hvalue] at h
        exact List.mem_cons_of_mem _ (ih h)

theorem pinLine_gives {entries : List (Text × Text)} {pins : Pins} (h : Collected entries pins)
    (file : Path) (relative line : Text) :
    Gives (Collected (entries ++ lineEntries relative [line]))
      (Consistent (entries ++ lineEntries relative [line])) (pinLine file relative pins line) := by
  unfold pinLine
  cases hvalue : pinValue line with
  | none =>
      have hentries : lineEntries relative [line] = [] := by simp [lineEntries, hvalue]
      rwa [hentries, List.append_nil]
  | some value =>
      have hentries : lineEntries relative [line] = [(value, relative)] := by
        simp [lineEntries, hvalue]
      rw [hentries]
      dsimp only
      have hmem : (value, relative) ∈ entries ++ [(value, relative)] := by simp
      split_ifs with hne
      · intro hconsistent
        exact (hconsistent _ hmem).1 hne
      · split
        · rename_i other hlookup
          have hold := (h _).mp (lookup_mem hlookup)
          split_ifs with hsame
          · subst hsame
            intro entry
            rw [h, List.mem_append, List.mem_singleton]
            constructor
            · exact Or.inl
            · rintro (hentry | rfl)
              · exact hentry
              · exact hold
          · intro hconsistent
            exact hsame ((hconsistent _ hmem).2 _ (List.mem_append_left _ hold) rfl)
        · intro entry
          rw [Pins.add, List.mem_append, List.mem_append, h]

theorem foldlM_pinLine_gives {entries : List (Text × Text)} {pins : Pins}
    (h : Collected entries pins) (file : Path) (relative : Text) (lines : List Text) :
    Gives (Collected (entries ++ lineEntries relative lines))
      (Consistent (entries ++ lineEntries relative lines))
      (lines.foldlM (pinLine file relative) pins) := by
  have hsplit : ∀ done more, entries ++ lineEntries relative (done ++ more) =
      entries ++ lineEntries relative done ++ lineEntries relative more := by
    intro done more
    simp [lineEntries]
  apply foldlM_gives (fun done => Collected (entries ++ lineEntries relative done))
    fun done => Consistent (entries ++ lineEntries relative done)
  · intro done more hvalid
    rw [hsplit] at hvalid
    exact hvalid.of_append
  · intro done pins line hdone
    rw [hsplit]
    exact pinLine_gives hdone file relative line
  · simpa [lineEntries] using h

theorem readPins_gives (t : Tree) (repo : Path) :
    Gives
      (fun pins => (∀ file ∈ pinFiles repo, ∃ lines, readLines t file = .ok lines) ∧
        Collected (fileEntries t repo (pinFiles repo)) pins)
      ((∀ file ∈ pinFiles repo, ∃ lines, readLines t file = .ok lines) ∧
        Consistent (fileEntries t repo (pinFiles repo)))
      (readPins t repo) := by
  have hsplit : ∀ done more, fileEntries t repo (done ++ more) =
      fileEntries t repo done ++ fileEntries t repo more := by
    intro done more
    exact List.flatMap_append
  apply foldlM_gives
    (fun done pins => (∀ file ∈ done, ∃ lines, readLines t file = .ok lines) ∧
      Collected (fileEntries t repo done) pins)
    fun done => (∀ file ∈ done, ∃ lines, readLines t file = .ok lines) ∧
      Consistent (fileEntries t repo done)
  · rintro done more ⟨hreadable, hvalid⟩
    rw [hsplit] at hvalid
    exact ⟨fun file hfile => hreadable file (List.mem_append_left _ hfile), hvalid.of_append⟩
  · rintro done pins file ⟨hreadable, hdone⟩
    cases hlines : readLines t file with
    | error failure =>
        rintro ⟨hall, -⟩
        obtain ⟨lines, hok⟩ := hall file (by simp)
        rw [hlines] at hok
        cases hok
    | ok lines =>
        have hgives := foldlM_pinLine_gives hdone file (relativeText repo file) lines
        have hentries : fileEntries t repo (done ++ [file]) =
            fileEntries t repo done ++ lineEntries (relativeText repo file) lines := by
          rw [hsplit]
          simp [fileEntries, linesOf, hlines]
        rw [hentries]
        change Gives _ _ (lines.foldlM (pinLine file (relativeText repo file)) pins)
        cases hfold : lines.foldlM (pinLine file (relativeText repo file)) pins with
        | error failure =>
            rw [hfold] at hgives
            exact fun hvalid => hgives hvalid.2
        | ok pins' =>
            rw [hfold] at hgives
            refine ⟨?_, hgives⟩
            intro other hother
            rcases List.mem_append.mp hother with hold | hnew
            · exact hreadable other hold
            · obtain rfl := List.mem_singleton.mp hnew
              exact ⟨lines, hlines⟩
  · exact ⟨by simp, fun _ => Iff.rfl⟩

theorem mem_linesOf {file : Path} {value : Text} :
    value ∈ (linesOf t file).filterMap pinValue ↔ PinsIn t file value := by
  rw [linesOf, PinsIn]
  cases readLines t file with
  | error failure => simp
  | ok lines => simp

theorem mem_fileEntries {files : List Path} {entry : Text × Text} :
    entry ∈ fileEntries t repo files ↔
      ∃ file ∈ files, PinsIn t file entry.1 ∧ relativeText repo file = entry.2 := by
  rw [fileEntries, List.mem_flatMap]
  apply exists_congr
  intro file
  apply and_congr_right
  intro _
  rw [lineEntries, List.mem_map, ← mem_linesOf]
  constructor
  · rintro ⟨value, hvalue, rfl⟩
    exact ⟨hvalue, rfl⟩
  · rintro ⟨hvalue, hrelative⟩
    exact ⟨entry.1, hvalue, Prod.ext rfl hrelative⟩

theorem PinsIn.slashless {file : Path} {value : Text} (h : PinsIn t file value) :
    Slashless file := by
  obtain ⟨lines, hlines, -⟩ := h
  unfold readLines at hlines
  cases hcontent : t.content file with
  | none =>
      rw [hcontent] at hlines
      cases hlines
  | some data => exact slashless_of_content hcontent

theorem consistent_iff :
    Consistent (fileEntries t repo (pinFiles repo)) ↔
      (∀ file ∈ pinFiles repo, ¬ PinsIn t file []) ∧
        ∀ file ∈ pinFiles repo, ∀ other ∈ pinFiles repo, ∀ value,
          PinsIn t file value → PinsIn t other value → file = other := by
  constructor
  · intro h
    constructor
    · intro file hfile hpin
      exact (h ([], relativeText repo file) (mem_fileEntries.mpr ⟨file, hfile, hpin, rfl⟩)).1 rfl
    · intro file hfile other hother value hpin hpin'
      have hentry : (value, relativeText repo file) ∈ fileEntries t repo (pinFiles repo) :=
        mem_fileEntries.mpr ⟨file, hfile, hpin, rfl⟩
      have hentry' : (value, relativeText repo other) ∈ fileEntries t repo (pinFiles repo) :=
        mem_fileEntries.mpr ⟨other, hother, hpin', rfl⟩
      exact relativeText_injective hpin.slashless hpin'.slashless ((h _ hentry').2 _ hentry rfl)
  · rintro ⟨hne, howner⟩ entry hentry
    obtain ⟨file, hfile, hpin, hrelative⟩ := mem_fileEntries.mp hentry
    constructor
    · intro hnil
      exact hne file hfile (hnil ▸ hpin)
    · intro entry' hentry' hvalue
      obtain ⟨other, hother, hpin', hrelative'⟩ := mem_fileEntries.mp hentry'
      rw [hvalue] at hpin'
      rw [← hrelative, ← hrelative', howner file hfile other hother entry.1 hpin hpin']

/-! ## The scan of the maintained files -/

theorem reads_readChunks {left : ℕ} {content : Bytes} (h : content.length ≤ left) :
    Reads scanChunkSize content (readChunks left content) := by
  induction left generalizing content with
  | zero =>
      obtain rfl := List.eq_nil_of_length_eq_zero (Nat.le_zero.mp h)
      exact ⟨rfl, by simp [readChunks], by simp [readChunks]⟩
  | succ left ih =>
      rw [readChunks]
      split_ifs with hnil
      · exact ⟨hnil.symm, by simp, by simp⟩
      · have hpos := List.length_pos_of_ne_nil hnil
        have hdrop : (content.drop scanChunkSize).length ≤ left := by
          rw [List.length_drop, scanChunkSize]
          omega
        obtain ⟨hflatten, hne, hle⟩ := ih hdrop
        refine ⟨?_, ?_, ?_⟩
        · rw [List.flatten_cons, hflatten, List.take_append_drop]
        · apply List.forall_mem_cons.mpr ⟨_, hne⟩
          simpa [scanChunkSize] using hnil
        · exact List.forall_mem_cons.mpr ⟨List.length_take_le _ _, hle⟩

theorem found_fileOccurrences (needles : Needles) {content : Bytes} {size : ℕ}
    {reads : List Bytes} (h : Reads size content reads) :
    Found needles content (fileOccurrences needles reads) := by
  have hstart : Found needles [] [] := by
    refine ⟨List.nodup_nil, fun value => ?_⟩
    constructor
    · intro hmem
      cases hmem
    · rintro ⟨needle, hmem, hin⟩
      exact absurd (List.infix_nil.mp hin) (needles.needle_ne _ hmem)
  have hscan := scanLoop_spec h.chunk_ne hstart
  rwa [List.rtake_nil, List.nil_append, h.flatten] at hscan

theorem Pins.occurs_iff {pins : Pins} {hne : pins.items ≠ []} {content : Bytes}
    {item : Text × Text} (hitem : item ∈ pins.items) :
    Occurs (pins.needles hne) content item.1 ↔ encodeUtf8 item.1 <:+: content := by
  constructor
  · rintro ⟨needle, hmem, hin⟩
    obtain ⟨other, -, heq⟩ := List.mem_map.mp hmem
    obtain ⟨hvalue, rfl⟩ := Prod.mk.inj heq
    rwa [hvalue] at hin
  · intro hin
    exact ⟨_, List.mem_map.mpr ⟨item, hitem, rfl⟩, hin⟩

/-- A file in which its own pins are looked for has been read. -/
theorem scanFile_spec (t : Tree) (pins : Pins) (path : Path) :
    Gives
      (fun found => (pins.items ≠ [] → t.isFile path = true) ∧
        ∀ item ∈ pins.items, (item.1 ∈ found ↔ holds t item.1 path = true))
      (pins.items ≠ [] → t.isFile path = true) (scanFile t pins path) := by
  unfold scanFile Tree.isFile holds
  split_ifs with hne
  · cases hcontent : t.content path with
    | none => exact fun h => nomatch h hne
    | some data =>
        refine ⟨fun _ => rfl, ?_⟩
        intro item hitem
        have hfound := found_fileOccurrences (pins.needles hne)
          (reads_readChunks (Nat.le_refl data.length))
        rw [hfound.mem_iff, Pins.occurs_iff hitem, Option.any_some, decide_eq_true_eq]
  · refine ⟨fun h => absurd h hne, ?_⟩
    intro item hitem
    exact absurd (List.ne_nil_of_mem hitem) hne

theorem trackedOccurrences_gives (t : Tree) (repo : Path) (maintained : List Path) (pins : Pins) :
    Gives
      (fun locations => (pins.items ≠ [] → ∀ path ∈ maintained, t.isFile path = true) ∧
        ∀ item ∈ pins.items, locations item.1 =
          sortBy id ((maintained.filter (holds t item.1)).map (relativeText repo)))
      (pins.items ≠ [] → ∀ path ∈ maintained, t.isFile path = true)
      (trackedOccurrences t repo maintained pins) := by
  unfold trackedOccurrences
  cases hscans : maintained.mapM fun path => do
      let found ← scanFile t pins path
      return (relativeText repo path, found) with
  | error failure =>
      intro hvalid
      have hall : ∀ path ∈ maintained, ∃ scan, (do
          let found ← scanFile t pins path
          return (relativeText repo path, found)) = Except.ok (ε := PinFailure) scan := by
        intro path hpath
        have hspec := scanFile_spec t pins path
        cases hscan : scanFile t pins path with
        | error failure =>
            rw [hscan] at hspec
            exact absurd (fun hne => hvalid hne path hpath) hspec
        | ok found => exact ⟨_, rfl⟩
      obtain ⟨scans, hok⟩ := exists_mapM_ok hall
      rw [hscans] at hok
      cases hok
  | ok scans =>
      have hforall := mapM_eq_ok_iff.mp hscans
      clear hscans
      change (pins.items ≠ [] → ∀ path ∈ maintained, t.isFile path = true) ∧
        ∀ item ∈ pins.items, sortBy id ((scans.filter fun scan => item.1 ∈ scan.2).map Prod.fst) = _
      have hscan : ∀ {path : Path} {scan : Text × List Text}, (do
          let found ← scanFile t pins path
          return (relativeText repo path, found)) = Except.ok (ε := PinFailure) scan →
          scan.1 = relativeText repo path ∧ (pins.items ≠ [] → t.isFile path = true) ∧
            ∀ item ∈ pins.items, (item.1 ∈ scan.2 ↔ holds t item.1 path = true) := by
        intro path scan h
        have hspec := scanFile_spec t pins path
        cases hfound : scanFile t pins path with
        | error failure =>
            rw [hfound] at h
            cases h
        | ok found =>
            rw [hfound] at h hspec
            cases h
            exact ⟨rfl, hspec⟩
      constructor
      · intro hne path hpath
        induction hforall with
        | nil => cases hpath
        | cons hhead _ ih =>
            rcases List.mem_cons.mp hpath with rfl | hrest
            · exact (hscan hhead).2.1 hne
            · exact ih hrest
      · intro item hitem
        apply congrArg
        induction hforall with
        | nil => rfl
        | @cons path scan paths scans hhead _ ih =>
            obtain ⟨hrelative, -, hmem⟩ := hscan hhead
            rw [List.filter_cons, List.filter_cons]
            by_cases hholds : holds t item.1 path = true
            · simp [hholds, (hmem item hitem).mpr hholds, hrelative, ih]
            · have hout : item.1 ∉ scan.2 := fun h => hholds ((hmem item hitem).mp h)
              simp [hholds, hout, ih]

theorem sortBy_eq_singleton {texts : List Text} {text : Text} :
    sortBy id texts = [text] ↔ texts = [text] := by
  constructor
  · intro h
    have hperm := perm_sortBy id texts
    rw [h] at hperm
    exact List.perm_singleton.mp hperm.symm
  · rintro rfl
    rfl

/-! ## The verdict -/

theorem slashless_of_isFile {path : Path} (h : t.isFile path = true) : Slashless path := by
  obtain ⟨data, hdata⟩ := Option.isSome_iff_exists.mp h
  exact slashless_of_content hdata

theorem map_relativeText_eq_singleton (repo : Path) {paths : List Path} {file : Path}
    (hpaths : ∀ path ∈ paths, Slashless path) (hfile : Slashless file) :
    paths.map (relativeText repo) = [relativeText repo file] ↔ paths = [file] := by
  constructor
  · intro h
    obtain ⟨path, rfl, hrelative⟩ := List.map_eq_singleton_iff.mp h
    rw [relativeText_injective (hpaths path (by simp)) hfile hrelative]
  · rintro rfl
    rfl

/-- `validate_pins` accepts a checkout exactly when its pins are valid. -/
theorem validatePins_eq_ok_iff (t : Tree) (repo : Path) (maintained : List Path) :
    validatePins t repo maintained = .ok () ↔ PinsValid t repo maintained := by
  have hread := readPins_gives t repo
  unfold validatePins
  cases hpins : readPins t repo with
  | error failure =>
      rw [hpins] at hread
      constructor
      · exact fun h => nomatch h
      · exact fun h => absurd ⟨h.readable, consistent_iff.mpr ⟨h.value_ne, h.owner⟩⟩ hread
  | ok pins =>
      rw [hpins] at hread
      obtain ⟨hreadable, hcollected⟩ := hread
      obtain ⟨hne, howner⟩ := consistent_iff.mp hcollected.consistent
      have hmem : ∀ {item : Text × Text}, item ∈ pins.items ↔
          ∃ file ∈ pinFiles repo, PinsIn t file item.1 ∧ relativeText repo file = item.2 := by
        intro item
        rw [hcollected, mem_fileEntries]
      have hitems : pins.items ≠ [] ↔ ∃ file ∈ pinFiles repo, ∃ value, PinsIn t file value := by
        constructor
        · intro h
          obtain ⟨item, hitem⟩ := List.exists_mem_of_ne_nil _ h
          obtain ⟨file, hfile, hpin, -⟩ := hmem.mp hitem
          exact ⟨file, hfile, item.1, hpin⟩
        · rintro ⟨file, hfile, value, hpin⟩
          have hitem : (value, relativeText repo file) ∈ pins.items :=
            hmem.mpr ⟨file, hfile, hpin, rfl⟩
          exact List.ne_nil_of_mem hitem
      have htracked := trackedOccurrences_gives t repo maintained pins
      rw [hitems] at htracked
      change (trackedOccurrences t repo maintained pins >>= fun locations =>
        pins.items.forM (checkPin locations)) = .ok () ↔ _
      cases hlocations : trackedOccurrences t repo maintained pins with
      | error failure =>
          rw [hlocations] at htracked
          constructor
          · exact fun h => nomatch h
          · exact fun h => absurd h.scanned htracked
      | ok locations =>
          rw [hlocations] at htracked
          obtain ⟨hscanned, hplaces⟩ := htracked
          have hcheck : ∀ {file value}, file ∈ pinFiles repo → PinsIn t file value →
              (checkPin locations (value, relativeText repo file) = .ok () ↔
                maintained.filter (holds t value) = [file]) := by
            intro file value hfile hpin
            have hall := hscanned ⟨file, hfile, value, hpin⟩
            have hplace := hplaces (value, relativeText repo file)
              (hmem.mpr ⟨file, hfile, hpin, rfl⟩)
            rw [← map_relativeText_eq_singleton repo
              (fun path hpath => slashless_of_isFile (hall path (List.mem_of_mem_filter hpath)))
              hpin.slashless, ← sortBy_eq_singleton, ← hplace, checkPin]
            constructor
            · intro h
              by_contra hmisplaced
              rw [if_neg hmisplaced] at h
              cases h
            · intro h
              rw [if_pos h]
          change pins.items.forM (checkPin locations) = .ok () ↔ _
          rw [forM_eq_ok_iff]
          constructor
          · intro h
            refine ⟨hreadable, hne, howner, hscanned, ?_⟩
            intro file hfile value hpin
            exact (hcheck hfile hpin).mp (h _ (hmem.mpr ⟨file, hfile, hpin, rfl⟩))
          · rintro h ⟨value, relative⟩ hitem
            obtain ⟨file, hfile, hpin, rfl⟩ := hmem.mp hitem
            exact (hcheck hfile hpin).mpr (h.sole file hfile value hpin)

theorem PinsValid.perm {other : List Path} (h : PinsValid t repo maintained)
    (hperm : maintained.Perm other) : PinsValid t repo other where
  readable := h.readable
  value_ne := h.value_ne
  owner := h.owner
  scanned := by
    intro hpins path hpath
    exact h.scanned hpins path (hperm.mem_iff.mpr hpath)
  sole := by
    intro file hfile value hpin
    have hfilter := hperm.filter (holds t value)
    rw [h.sole file hfile value hpin] at hfilter
    exact List.perm_singleton.mp hfilter.symm

/-- Without Git the verdict is about every file of the checkout that is not excluded, although the
walk leaves the excluded directories out. -/
theorem validatePins_fallback (t : Tree) (repo : Path) (excludedRoots : List Path) :
    validatePins t repo (maintainedFiles t repo excludedRoots none) = .ok () ↔
      PinsValid t repo (checkoutFiles t repo excludedRoots) := by
  rw [validatePins_eq_ok_iff]
  constructor
  · exact fun h => h.perm perm_fallbackFiles
  · exact fun h => h.perm perm_fallbackFiles.symm

/-- A pin, and what quotes it in an excluded directory. -/
def pinnedTree : Tree where
  files := [
    (["versions.env".toList], encodeUtf8 "A_COMMIT=ab12\n".toList),
    (["toolchain.env".toList], []),
    (["components".toList, "sg2002-ipc".toList, "versions.env".toList], []),
    (["out".toList, "log".toList], encodeUtf8 "ab12".toList)]
  dirs := [[], ["components".toList], ["components".toList, "sg2002-ipc".toList], ["out".toList]]
  nodup := by decide
  root_mem := by decide
  plain := by decide
  parent_mem := by decide
  disjoint := by decide

example : validatePins pinnedTree [] (maintainedFiles pinnedTree [] [] none) = .ok () := by
  decide +kernel

end Sg200x.Ci
