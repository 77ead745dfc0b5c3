import Mathlib

/-!
# The partition description

`XmlParser.parse`: the partitions of a flash layout with their files and offsets.  The XML comes
as the attributes of its elements, and what `int` of Python reads is a parameter.
-/

namespace Sg200x.Cimg

/-- A string of Python. -/
abbrev Text := List Char

abbrev Bytes := List UInt8

inductive PyError
  | keyError (key : String)
  | valueError
  | overflowError
  | fileNotFoundError
  deriving DecidableEq

/-- The attributes of an element. -/
abbrev Attributes := List (Text × Text)

/-- The root element and its children. -/
structure Description where
  attrib : Attributes
  parts : List Attributes

/-- What surrounds the scripts: the files that can be opened, and `int` of a string. -/
structure World where
  files : Text → Option Bytes
  int : Text → Option ℤ

/-- The entries of a partition but for its offset. -/
structure PartEntry where
  partSize : ℤ
  filePath : Option Text
  fileSize : ℕ
  fileName : Text
  label : Option Text
  mountpoint : Option Text
  type : Text
  options : Option Text
  deriving DecidableEq

structure Part extends PartEntry where
  offset : ℤ
  deriving DecidableEq

def sysMaxsize : ℤ := 2 ^ 63 - 1

/-- `os.path.join` -/
def pathJoin (dir file : Text) : Text :=
  if file.head? = some '/' then file
  else if dir = [] ∨ dir.getLast? = some '/' then dir ++ file
  else dir ++ '/' :: file

/-- `attrib[key]` -/
def getAttrib (attrib : Attributes) (key : String) : Except PyError Text :=
  match attrib.lookup key.toList with
  | some value => .ok value
  | none => .error (.keyError key)

variable (world : World)

def readInt (text : Text) : Except PyError ℤ :=
  match world.int text with
  | some value => .ok value
  | none => .error .valueError

def partSize (attrib : Attributes) : Except PyError ℤ :=
  match attrib.lookup "size_in_kb".toList, attrib.lookup "size_in_b".toList with
  | some text, _ => return (← readInt world text) * 1024
  | none, some text => readInt world text
  | none, none => return sysMaxsize

/-- The path of the file of a partition, where it has one. -/
def partPath (install : Option Text) (file : Text) : Option Text :=
  if file ≠ [] then install.map fun dir => pathJoin dir file else none

/-- The size of a file, 0 where there is none. -/
def statSize (path : Option Text) : ℕ := ((path.bind world.files).map List.length).getD 0

/-- One turn of the `for` loop of `parse`. -/
def parsePart (install : Option Text) (attrib : Attributes) : Except PyError PartEntry := do
  let size ← partSize world attrib
  let file ← getAttrib attrib "file"
  let path := partPath install file
  let fileSize := statSize world path
  if path.isSome ∧ size < fileSize then .error .overflowError
  else do
    let label ← getAttrib attrib "label"
    return {
      partSize := size
      filePath := path
      fileSize := fileSize
      fileName := file
      label := some label
      mountpoint := attrib.lookup "mountpoint".toList
      type := (attrib.lookup "type".toList).getD []
      options := attrib.lookup "options".toList }

/-- `__calEmmcOffset`, `__calNandOffset` and `__calNorOffset`, which are the same. -/
def calOffset (start : ℤ) : List PartEntry → List Part
  | [] => []
  | p :: parts => { p with offset := start } :: calOffset (start + p.partSize) parts

def calEmmcOffset (parts : List PartEntry) : List Part := calOffset 0 parts

def calNandOffset (parts : List PartEntry) : List Part := calOffset 0 parts

def calNorOffset (parts : List PartEntry) : List Part := calOffset 0 parts

def parse (description : Description) (install : Option Text) : Except PyError (List Part) := do
  let storage ← getAttrib description.attrib "type"
  let parts ← description.parts.mapM (parsePart world install)
  if storage = "emmc".toList then return calEmmcOffset parts
  else if storage = "spinor".toList then return calNorOffset parts
  else if storage = "spinand".toList then return calNandOffset parts
  else if storage = "sd".toList then return calNandOffset parts
  else if storage = "none".toList then return calNandOffset parts
  else throw .valueError

/-! ## What `parse` promises -/

variable {world : World}

theorem parsePart_size {install : Option Text} {attrib : Attributes} {entry : PartEntry}
    {path : Text} {content : Bytes} (h : parsePart world install attrib = .ok entry)
    (hpath : entry.filePath = some path) (hfile : world.files path = some content) :
    entry.fileSize = content.length ∧ (content.length : ℤ) ≤ entry.partSize := by
  unfold parsePart at h
  cases hsize : partSize world attrib with
  | error e => rw [hsize] at h; cases h
  | ok size =>
      cases hname : getAttrib attrib "file" with
      | error e => rw [hsize, hname] at h; cases h
      | ok file =>
          rw [hsize, hname] at h
          change (if _ then _ else _) = _ at h
          by_cases hbig : (partPath install file).isSome ∧ size < statSize world (partPath install file)
          · rw [if_pos hbig] at h
            cases h
          rw [if_neg hbig] at h
          cases hlabel : getAttrib attrib "label" with
          | error e => rw [hlabel] at h; cases h
          | ok label =>
              rw [hlabel] at h
              obtain rfl := Except.ok.inj h
              dsimp only at hpath ⊢
              rw [hpath] at hbig ⊢
              have hstat : statSize world (some path) = content.length := by
                simp [statSize, hfile]
              rw [hstat] at hbig ⊢
              exact ⟨rfl, by simpa using hbig⟩

theorem mem_of_mem_calOffset {start : ℤ} {entries : List PartEntry} {part : Part}
    (h : part ∈ calOffset start entries) : part.toPartEntry ∈ entries := by
  induction entries generalizing start with
  | nil => cases h
  | cons p entries ih =>
      rcases List.mem_cons.mp h with rfl | hrest
      · exact List.mem_cons_self
      · exact List.mem_cons_of_mem _ (ih hrest)

theorem exists_of_mapM {α β : Type} {f : α → Except PyError β} {l : List α} {bs : List β} {b : β}
    (h : l.mapM f = .ok bs) (hb : b ∈ bs) : ∃ a ∈ l, f a = .ok b := by
  induction l generalizing bs with
  | nil =>
      obtain rfl := Except.ok.inj h
      cases hb
  | cons a l ih =>
      rw [List.mapM_cons] at h
      cases hfirst : f a with
      | error e => rw [hfirst] at h; cases h
      | ok c =>
          cases hrest : l.mapM f with
          | error e => rw [hfirst, hrest] at h; cases h
          | ok cs =>
              rw [hfirst, hrest] at h
              obtain rfl := Except.ok.inj h
              rcases List.mem_cons.mp hb with rfl | hb
              · exact ⟨a, List.mem_cons_self, hfirst⟩
              · obtain ⟨d, hd, hfd⟩ := ih hrest hb
                exact ⟨d, List.mem_cons_of_mem _ hd, hfd⟩

/-- The offsets are running sums, whatever the storage. -/
theorem parse_eq {description : Description} {install : Option Text} {parts : List Part}
    (h : parse world description install = .ok parts) :
    ∃ entries, description.parts.mapM (parsePart world install) = .ok entries ∧
      calOffset 0 entries = parts := by
  have hite : ∀ {c : Prop} [Decidable c] {x y : Except PyError (List Part)},
      (if c then x else y) = .ok parts → x = .ok parts ∨ y = .ok parts := by
    intro c _ x y hc
    split at hc
    · exact .inl hc
    · exact .inr hc
  unfold parse at h
  cases hstorage : getAttrib description.attrib "type" with
  | error e => rw [hstorage] at h; cases h
  | ok storage =>
      cases hentries : description.parts.mapM (parsePart world install) with
      | error e => rw [hstorage, hentries] at h; cases h
      | ok entries =>
          rw [hstorage, hentries] at h
          refine ⟨entries, rfl, ?_⟩
          rcases hite h with h | h
          · exact Except.ok.inj h
          rcases hite h with h | h
          · exact Except.ok.inj h
          rcases hite h with h | h
          · exact Except.ok.inj h
          rcases hite h with h | h
          · exact Except.ok.inj h
          rcases hite h with h | h
          · exact Except.ok.inj h
          · cases h

/-- The file of a partition that is accepted is no larger than the partition. -/
theorem parse_size {description : Description} {install : Option Text} {parts : List Part}
    {part : Part} {path : Text} {content : Bytes}
    (h : parse world description install = .ok parts) (hpart : part ∈ parts)
    (hpath : part.filePath = some path) (hfile : world.files path = some content) :
    part.fileSize = content.length ∧ (content.length : ℤ) ≤ part.partSize := by
  obtain ⟨entries, hentries, rfl⟩ := parse_eq h
  obtain ⟨attrib, -, hparse⟩ := exists_of_mapM hentries (mem_of_mem_calOffset hpart)
  exact parsePart_size hparse hpath hfile

end Sg200x.Cimg
