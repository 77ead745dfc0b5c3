import Mathlib.Data.Char
import Mathlib.Data.List.Infix
import Mathlib.Data.List.Lex
import Sg200x.Library.Listing

/-!
# The tree of files

A path is the list of its parts below the root, as `pathlib` keeps them: `.` and empty parts
are dropped and `..` stays until the path is opened.
-/

namespace Sg200x.Ci

open Library.Listing

abbrev Text := List Char

abbrev Bytes := List UInt8

abbrev Path := List Text

scoped instance : LawfulBEq Text := List.instLawfulBEq

scoped instance : LawfulBEq Path := List.instLawfulBEq

def parent : Text := "..".toList

/-- What a directory can call an entry. -/
def PlainName (name : Text) : Prop :=
  name ≠ [] ∧ name ≠ ".".toList ∧ name ≠ parent ∧ '/' ∉ name ∧ '\x00' ∉ name

instance : DecidablePred PlainName := fun _ => inferInstanceAs (Decidable (_ ∧ _))

def parts (text : Text) : Path :=
  (text.splitOn '/').filter fun part => part ≠ [] ∧ part ≠ ".".toList

/-- `path / text`: an absolute text replaces the path. -/
def join (path : Path) (text : Text) : Path :=
  if text.head? = some '/' then parts text else path ++ parts text

/-- `path / text` for a text of the source. -/
def Path.slash (path : Path) (text : String) : Path := join path text.toList

/-- `str(path)` -/
def pathText (path : Path) : Text := '/' :: ['/'].intercalate path

structure Tree where
  files : List (Path × Bytes)
  dirs : List Path
  nodup : (files.map Prod.fst).Nodup
  root_mem : [] ∈ dirs
  plain : ∀ path ∈ dirs ++ files.map Prod.fst, ∀ name ∈ path, PlainName name
  parent_mem : ∀ path ∈ dirs ++ files.map Prod.fst, path ≠ [] → path.dropLast ∈ dirs
  disjoint : ∀ path ∈ dirs, path ∉ files.map Prod.fst

namespace Tree

variable (t : Tree)

/-- Where a path leads from a directory.  The place need not exist, what is left on the way must. -/
def walk : Path → Path → Option Path
  | here, [] => some here
  | here, name :: rest =>
      if here ∈ t.dirs then walk (if name = parent then here.dropLast else here ++ [name]) rest
      else none

def locate (path : Path) : Option Path := t.walk [] path

/-- `path.is_dir()` -/
def isDir (path : Path) : Bool := (t.locate path).any fun place => place ∈ t.dirs

/-- `path.read_bytes()`, when `path.is_file()`. -/
def content (path : Path) : Option Bytes := (t.locate path).bind fun place => t.files.lookup place

/-- `path.is_file()` -/
def isFile (path : Path) : Bool := (t.content path).isSome

/-- The files among `path.rglob("*")`. -/
def below (path : Path) : List (Path × Bytes) :=
  match t.locate path with
  | none => []
  | some place =>
      (t.files.filter fun file => place <+: file.1).map fun file =>
        (path ++ file.1.drop place.length, file.2)

/-- `sorted(path.glob("*" + suffix))` -/
def glob (path : Path) (suffix : Text) : List Path :=
  match t.locate path with
  | none => []
  | some place =>
      sortBy id <|
        (((t.dirs ++ t.files.map Prod.fst).filter fun entry =>
          entry ≠ [] ∧ entry.dropLast = place).map fun entry => entry.getLastD []).filterMap
            fun name => if suffix <:+ name then some (path ++ [name]) else none

variable {t}

theorem isDir_iff {path : Path} :
    t.isDir path = true ↔ ∃ place, t.locate path = some place ∧ place ∈ t.dirs := by
  rw [isDir]
  cases t.locate path <;> simp

theorem walk_append (here : Path) (first rest : Path) :
    t.walk here (first ++ rest) = (t.walk here first).bind fun place => t.walk place rest := by
  induction first generalizing here with
  | nil => rfl
  | cons name first ih =>
      rw [List.cons_append, walk, walk]
      by_cases hdir : here ∈ t.dirs
      · rw [if_pos hdir, if_pos hdir]
        exact ih _
      · rw [if_neg hdir, if_neg hdir]
        rfl

/-- Without `..` a path leads down. -/
theorem walk_eq_append {here path place : Path} (hdown : parent ∉ path)
    (h : t.walk here path = some place) : place = here ++ path := by
  induction path generalizing here with
  | nil => simpa [walk] using h.symm
  | cons name path ih =>
      rw [List.mem_cons, not_or] at hdown
      rw [walk, if_neg (Ne.symm hdown.1)] at h
      by_cases hdir : here ∈ t.dirs
      · rw [if_pos hdir] at h
        simpa using ih hdown.2 h
      · simp [if_neg hdir] at h

/-- What is above an entry is a directory. -/
theorem mem_dirs_of_append_cons {here path : Path} {name : Text}
    (h : here ++ name :: path ∈ t.dirs ++ t.files.map Prod.fst) : here ∈ t.dirs := by
  induction path using List.reverseRecOn with
  | nil => simpa using t.parent_mem _ h (by simp)
  | append_singleton path last ih =>
      have hparent := t.parent_mem _ h (by simp)
      rw [← List.cons_append, ← List.append_assoc, List.dropLast_concat] at hparent
      exact ih (List.mem_append_left _ hparent)

theorem walk_of_mem {here path : Path} (hdown : parent ∉ path)
    (h : here ++ path ∈ t.dirs ++ t.files.map Prod.fst) :
    t.walk here path = some (here ++ path) := by
  induction path generalizing here with
  | nil => simp [walk]
  | cons name path ih =>
      rw [List.mem_cons, not_or] at hdown
      rw [walk, if_pos (mem_dirs_of_append_cons h), if_neg (Ne.symm hdown.1),
        ih hdown.2 (by simpa using h)]
      simp

theorem lookup_eq_some_iff {place : Path} {data : Bytes} :
    t.files.lookup place = some data ↔ (place, data) ∈ t.files := by
  have hnodup := t.nodup
  generalize t.files = entries at hnodup ⊢
  induction entries with
  | nil => simp
  | cons file files ih =>
      rw [List.map_cons, List.nodup_cons] at hnodup
      rw [List.lookup_cons, List.mem_cons]
      by_cases hkey : place = file.1
      · have hfresh : (place, data) ∉ files := by
          intro hmem
          exact hnodup.1 (hkey ▸ List.mem_map_of_mem hmem)
        simp [hkey, Prod.ext_iff, eq_comm, hkey ▸ hfresh]
      · have hne : ¬ (place, data) = file := fun h => hkey (h ▸ rfl)
        simpa [beq_eq_false_iff_ne.mpr hkey, hne] using ih hnodup.2

theorem parent_notMem {path : Path} (h : path ∈ t.dirs ++ t.files.map Prod.fst) :
    parent ∉ path :=
  fun hmem => (t.plain path h parent hmem).2.2.1 rfl

theorem mem_entries_of_mem_files {file : Path × Bytes} (h : file ∈ t.files) :
    file.1 ∈ t.dirs ++ t.files.map Prod.fst :=
  List.mem_append_right _ (List.mem_map_of_mem h)

/-- The files below a path: their paths continue it downwards and lead to their contents. -/
theorem mem_below_iff {path : Path} {file : Path × Bytes} :
    file ∈ t.below path ↔
      ∃ rest, file.1 = path ++ rest ∧ parent ∉ rest ∧ t.content file.1 = some file.2 := by
  rw [below]
  cases hplace : t.locate path with
  | none =>
      constructor
      · simp
      · rintro ⟨rest, hfile, -, hcontent⟩
        have hnone : t.locate (path ++ rest) = none := by
          rw [locate, walk_append, ← locate, hplace]
          rfl
        simp [content, hfile, hnone] at hcontent
  | some place =>
      have hlocate : ∀ rest, t.locate (path ++ rest) = t.walk place rest := by
        intro rest
        rw [locate, walk_append, ← locate, hplace]
        rfl
      constructor
      · intro h
        obtain ⟨entry, hentry, rfl⟩ := List.mem_map.mp h
        obtain ⟨hmem, hbelow⟩ := List.mem_filter.mp hentry
        obtain ⟨rest, hrest⟩ := of_decide_eq_true hbelow
        have hdrop : entry.1.drop place.length = rest := by rw [← hrest, List.drop_left]
        have hdown : parent ∉ rest := by
          intro hparent
          apply parent_notMem (mem_entries_of_mem_files hmem)
          exact hrest ▸ List.mem_append_right _ hparent
        refine ⟨rest, by rw [hdrop], hdown, ?_⟩
        have hwalk : t.walk place rest = some entry.1 := by
          rw [walk_of_mem hdown (hrest ▸ mem_entries_of_mem_files hmem), hrest]
        show (t.locate (path ++ entry.1.drop place.length)).bind _ = _
        rw [hdrop, hlocate, hwalk]
        exact lookup_eq_some_iff.mpr hmem
      · rintro ⟨rest, hfile, hdown, hcontent⟩
        rw [content, hfile, hlocate, Option.bind_eq_some_iff] at hcontent
        obtain ⟨target, htarget, hlookup⟩ := hcontent
        obtain rfl := walk_eq_append hdown htarget
        apply List.mem_map.mpr
        refine ⟨(place ++ rest, file.2), ?_, ?_⟩
        · exact List.mem_filter.mpr
            ⟨lookup_eq_some_iff.mp hlookup, decide_eq_true (List.prefix_append place rest)⟩
        · simp [Prod.ext_iff, hfile]

theorem nodup_below (path : Path) : (t.below path).Nodup := by
  rw [below]
  cases t.locate path with
  | none => exact List.nodup_nil
  | some place =>
      apply List.Nodup.map_on
      · intro file hfile other hother heq
        have hfile' := of_decide_eq_true (List.mem_filter.mp hfile).2
        have hother' := of_decide_eq_true (List.mem_filter.mp hother).2
        obtain ⟨rest, hrest⟩ := hfile'
        obtain ⟨rest', hrest'⟩ := hother'
        simp only [← hrest, ← hrest', List.drop_left, Prod.mk.injEq, List.append_cancel_left_eq]
          at heq
        exact Prod.ext (by rw [← hrest, ← hrest', heq.1]) heq.2
      · exact (List.Nodup.of_map _ t.nodup).filter _

variable {path : Path}

theorem mem_dirs_of_walk {here place rest target : Path} {name : Text}
    (hlocate : t.walk here (place ++ name :: rest) = some target) :
    ∃ q, t.walk here place = some q ∧ q ∈ t.dirs := by
  rw [walk_append, Option.bind_eq_some_iff] at hlocate
  obtain ⟨q, hq, hwalk⟩ := hlocate
  refine ⟨q, hq, ?_⟩
  by_contra hdir
  simp [walk, hdir] at hwalk

theorem isFile_mem {data : Bytes} (h : t.content path = some data) :
    ∃ place, t.locate path = some place ∧ (place, data) ∈ t.files := by
  rw [content, Option.bind_eq_some_iff] at h
  obtain ⟨place, hplace, hlookup⟩ := h
  exact ⟨place, hplace, lookup_eq_some_iff.mp hlookup⟩

/-- Below a file there is nothing else. -/
theorem eq_nil_of_content {rest : Path} {data more : Bytes}
    (hfile : t.content path = some data) (hbelow : t.content (path ++ rest) = some more) :
    rest = [] := by
  obtain ⟨place, hplace, hmem⟩ := isFile_mem hfile
  obtain ⟨target, htarget, -⟩ := isFile_mem hbelow
  cases rest with
  | nil => rfl
  | cons name rest =>
      obtain ⟨q, hq, hdir⟩ := mem_dirs_of_walk htarget
      obtain rfl : q = place := Option.some.inj (hq.symm.trans hplace)
      exact absurd (List.mem_map_of_mem (f := Prod.fst) hmem) (t.disjoint q hdir)

/-- The parts of a path that leads to a file are `..` or names in the tree. -/
theorem plain_of_walk {here rest place : Path} (h : t.walk here rest = some place)
    (hplace : place ∈ t.dirs ++ t.files.map Prod.fst) :
    ∀ name ∈ rest, name = parent ∨ PlainName name := by
  induction rest using List.reverseRecOn generalizing place with
  | nil => simp
  | append_singleton rest last ih =>
      rw [walk_append, Option.bind_eq_some_iff] at h
      obtain ⟨q, hq, hlast⟩ := h
      rw [walk] at hlast
      by_cases hdir : q ∈ t.dirs
      · rw [if_pos hdir, walk, Option.some.injEq] at hlast
        intro name hname
        rcases List.mem_append.mp hname with hfirst | hend
        · exact ih hq (List.mem_append_left _ hdir) name hfirst
        · obtain rfl := List.mem_singleton.mp hend
          by_cases hparent : name = parent
          · exact Or.inl hparent
          · rw [if_neg hparent] at hlast
            exact Or.inr (t.plain place hplace name (by simp [← hlast]))
      · simp [if_neg hdir] at hlast

theorem plain_of_content {data : Bytes} (h : t.content path = some data) :
    ∀ name ∈ path, name = parent ∨ PlainName name := by
  obtain ⟨place, hplace, hmem⟩ := isFile_mem h
  exact plain_of_walk hplace (mem_entries_of_mem_files hmem)

theorem content_of_isDir (h : t.isDir path = true) : t.content path = none := by
  obtain ⟨place, hplace, hmem⟩ := Tree.isDir_iff.mp h
  by_contra hsome
  obtain ⟨data, hdata⟩ := Option.ne_none_iff_exists'.mp hsome
  obtain ⟨other, hother, hfile⟩ := Tree.isFile_mem hdata
  obtain rfl : place = other := Option.some.inj (hplace.symm.trans hother)
  exact t.disjoint place hmem (List.mem_map_of_mem hfile)

/-- Below a path that leads to a file at the end, there is a directory. -/
theorem isDir_of_content {name : Text} {rest : Path} {data : Bytes}
    (h : t.content (path ++ name :: rest) = some data) : t.isDir path = true := by
  obtain ⟨place, hplace, -⟩ := Tree.isFile_mem h
  obtain ⟨dir, hdir, hmem⟩ := Tree.mem_dirs_of_walk hplace
  exact Tree.isDir_iff.mpr ⟨dir, hdir, hmem⟩

end Tree

end Sg200x.Ci
