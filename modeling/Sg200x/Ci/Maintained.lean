import Sg200x.Ci.Cache
import Mathlib.Data.List.Dedup

/-!
# The maintained files

`maintained_files` of `scripts/ci/validate.py`: what `git ls-files` lists, or what a walk finds
that does not enter an excluded directory.
-/

namespace Sg200x.Ci

open Library.Listing

/-- `path.resolve(strict=False)` -/
def resolvePath (path : Path) : Path :=
  path.foldl (fun here name => if name = parent then here.dropLast else here ++ [name]) []

def resolvedExclusions (cwd : Path) (paths : List Text) : List Path :=
  paths.map fun text => resolvePath (join cwd text)

def fallbackExcludedDirs : List Text :=
  [".cache", ".git", ".mypy_cache", ".pytest_cache", ".venv", "__pycache__", "build",
    "build-output", "component-output", "dist", "image", "node_modules", "out", "output",
    "package-output"].map String.toList

def isExcluded (repo : Path) (excludedRoots : List Path) (path : Path) : Bool :=
  excludedRoots.any (fun root => root <+: resolvePath path) ||
    (path.drop repo.length).any (fun part => part ∈ fallbackExcludedDirs) ||
    (path.drop repo.length).head?.any fun part => "-output".toList <:+ part

/-- The names of a directory's entries, sorted. -/
def entryNames (entries : List Path) (here : Path) : List Text :=
  sortBy id ((entries.filter fun entry => entry ≠ [] ∧ entry.dropLast = here).map fun entry =>
    entry.getLastD []).dedup

/-- The loop over `os.walk`, to a depth. -/
def walkFiles (t : Tree) (excluded : Path → Bool) : ℕ → Path → List Path
  | 0, _ => []
  | depth + 1, here =>
      ((entryNames (t.files.map Prod.fst) here).map fun name => here ++ [name]).filter
          (fun path => ! excluded path) ++
        (((entryNames t.dirs here).map fun name => here ++ [name]).filter
          fun path => ! excluded path).flatMap (walkFiles t excluded depth)

/-- No directory is deeper than there are directories. -/
def fallbackFiles (t : Tree) (repo : Path) (excludedRoots : List Path) : List Path :=
  walkFiles t (isExcluded repo excludedRoots) (t.dirs.length + 1) repo

/-- `lsFiles` is the output of `git ls-files -z`, when Git has one. -/
def maintainedFiles (t : Tree) (repo : Path) (excludedRoots : List Path) (lsFiles : Option Text) :
    List Path :=
  match lsFiles with
  | none => fallbackFiles t repo excludedRoots
  | some output => ((output.splitOn '\x00').filter (· ≠ [])).map (join repo)

/-! ## The walk -/

variable {t : Tree} {excluded : Path → Bool} {repo : Path} {excludedRoots : List Path}

theorem mem_entryNames {entries : List Path} {here : Path} {name : Text} :
    name ∈ entryNames entries here ↔ here ++ [name] ∈ entries := by
  rw [entryNames, mem_sortBy, List.mem_dedup, List.mem_map]
  constructor
  · rintro ⟨entry, hentry, rfl⟩
    obtain ⟨hmem, hproper⟩ := List.mem_filter.mp hentry
    obtain ⟨hne, rfl⟩ := of_decide_eq_true hproper
    rwa [List.getLastD_eq_getLast?, List.getLast?_eq_some_getLast hne, Option.getD_some,
      List.dropLast_append_getLast]
  · intro h
    refine ⟨here ++ [name], List.mem_filter.mpr ⟨h, ?_⟩, ?_⟩
    · simp
    · simp

theorem nodup_entryNames (entries : List Path) (here : Path) : (entryNames entries here).Nodup :=
  nodup_sortBy (List.nodup_dedup _)

theorem mem_walkFiles {depth : ℕ} {here file : Path} :
    file ∈ walkFiles t excluded depth here ↔
      ∃ rest, rest ≠ [] ∧ file = here ++ rest ∧ rest.length ≤ depth ∧
        file ∈ t.files.map Prod.fst ∧
        ∀ first, first ≠ [] → first <+: rest → excluded (here ++ first) = false := by
  induction depth generalizing here with
  | zero =>
      constructor
      · intro h
        cases h
      · rintro ⟨rest, hne, -, hlength, -⟩
        exact absurd (List.eq_nil_of_length_eq_zero (by omega)) hne
  | succ depth ih =>
      rw [walkFiles, List.mem_append, List.mem_filter, List.mem_map, List.mem_flatMap]
      constructor
      · rintro (⟨⟨name, hname, rfl⟩, hkept⟩ | ⟨dir, hdir, hfile⟩)
        · refine ⟨[name], List.cons_ne_nil _ _, rfl, by simp, mem_entryNames.mp hname, ?_⟩
          intro first hne hfirst
          cases first with
          | nil => exact absurd rfl hne
          | cons other first =>
              obtain ⟨rfl, hnil⟩ := List.cons_prefix_cons.mp hfirst
              rw [List.prefix_nil.mp hnil]
              simpa using hkept
        · obtain ⟨hmem, hkept⟩ := List.mem_filter.mp hdir
          obtain ⟨name, hname, rfl⟩ := List.mem_map.mp hmem
          obtain ⟨rest, hne, rfl, hlength, hfile, hopen⟩ := ih.mp hfile
          refine ⟨name :: rest, List.cons_ne_nil _ _, by simp, by simpa using hlength, hfile, ?_⟩
          intro first hfirst hbefore
          cases first with
          | nil => exact absurd rfl hfirst
          | cons other first =>
              obtain ⟨rfl, hrest⟩ := List.cons_prefix_cons.mp hbefore
              rcases first with - | ⟨next, first⟩
              · simpa using hkept
              · have := hopen (next :: first) (List.cons_ne_nil _ _) hrest
                simpa using this
      · rintro ⟨rest, hne, rfl, hlength, hfile, hopen⟩
        cases rest with
        | nil => exact absurd rfl hne
        | cons name rest =>
            have hname : excluded (here ++ [name]) = false :=
              hopen [name] (List.cons_ne_nil _ _) (by simp)
            cases rest with
            | nil =>
                left
                exact ⟨⟨name, mem_entryNames.mpr hfile, rfl⟩, by simp [hname]⟩
            | cons next rest =>
                right
                have hdir : here ++ [name] ∈ t.dirs := by
                  have hentry : (here ++ [name]) ++ next :: rest ∈
                      t.dirs ++ t.files.map Prod.fst := by
                    apply List.mem_append_right
                    simpa using hfile
                  exact Tree.mem_dirs_of_append_cons hentry
                refine ⟨here ++ [name], ?_, ih.mpr ⟨next :: rest, List.cons_ne_nil _ _, by simp,
                  by simpa using hlength, hfile, ?_⟩⟩
                · exact List.mem_filter.mpr
                    ⟨List.mem_map.mpr ⟨name, mem_entryNames.mpr hdir, rfl⟩, by simp [hname]⟩
                · intro first _ hfirst
                  have := hopen (name :: first) (List.cons_ne_nil _ _)
                    (List.cons_prefix_cons.mpr ⟨rfl, hfirst⟩)
                  simpa using this

theorem nodup_walkFiles {depth : ℕ} {here : Path} : (walkFiles t excluded depth here).Nodup := by
  induction depth generalizing here with
  | zero => exact List.nodup_nil
  | succ depth ih =>
      have hinjective : Function.Injective fun name : Text => here ++ [name] := by
        intro name other heq
        simpa using heq
      have hnodup : ∀ entries, (((entryNames entries here).map fun name => here ++ [name]).filter
          fun path => ! excluded path).Nodup := fun entries =>
        ((nodup_entryNames entries here).map hinjective).filter _
      rw [walkFiles]
      refine List.nodup_append.mpr ⟨hnodup _, List.nodup_flatMap.mpr ⟨fun _ _ => ih, ?_⟩, ?_⟩
      · apply (hnodup t.dirs).imp_of_mem
        intro dir other hdir hother hne file hfile hfile'
        obtain ⟨name, -, rfl⟩ := List.mem_map.mp (List.mem_filter.mp hdir).1
        obtain ⟨name', -, rfl⟩ := List.mem_map.mp (List.mem_filter.mp hother).1
        obtain ⟨rest, -, heq, -⟩ := mem_walkFiles.mp hfile
        obtain ⟨rest', -, heq', -⟩ := mem_walkFiles.mp hfile'
        apply hne
        rw [heq, List.append_assoc, List.append_assoc] at heq'
        obtain ⟨rfl, -⟩ := List.cons.inj (List.append_cancel_left heq')
        rfl
      · intro file hfile other hother heq
        subst heq
        obtain ⟨name, -, rfl⟩ := List.mem_map.mp (List.mem_filter.mp hfile).1
        obtain ⟨dir, hdir, hmem⟩ := List.mem_flatMap.mp hother
        obtain ⟨name', -, rfl⟩ := List.mem_map.mp (List.mem_filter.mp hdir).1
        obtain ⟨rest, hne, heq, -⟩ := mem_walkFiles.mp hmem
        rw [List.append_assoc] at heq
        obtain ⟨-, hnil⟩ := List.cons.inj (List.append_cancel_left heq)
        exact hne hnil.symm

/-! ## The pruned walk and the plain one -/

theorem resolvePath_of_parent_notMem {path : Path} (h : parent ∉ path) : resolvePath path = path := by
  have hfold : ∀ here, path.foldl
      (fun here name => if name = parent then here.dropLast else here ++ [name]) here =
        here ++ path := by
    induction path with
    | nil => simp
    | cons name path ih =>
        intro here
        rw [List.mem_cons, not_or] at h
        rw [List.foldl_cons, if_neg (Ne.symm h.1), ih h.2]
        simp
  exact hfold []

/-- What is below an excluded path is excluded. -/
theorem isExcluded_mono {first rest : Path} (hne : first ≠ []) (hfirst : first <+: rest)
    (hplain : parent ∉ repo ++ rest) (h : isExcluded repo excludedRoots (repo ++ first) = true) :
    isExcluded repo excludedRoots (repo ++ rest) = true := by
  obtain ⟨more, rfl⟩ := hfirst
  have hplain' : parent ∉ repo ++ first := by
    intro hmem
    apply hplain
    rw [← List.append_assoc]
    exact List.mem_append_left _ hmem
  rw [isExcluded, resolvePath_of_parent_notMem hplain', List.drop_left, Bool.or_eq_true,
    Bool.or_eq_true] at h
  rw [isExcluded, resolvePath_of_parent_notMem hplain, List.drop_left, Bool.or_eq_true,
    Bool.or_eq_true]
  rw [List.head?_append_of_ne_nil _ hne]
  refine h.imp_left (Or.imp ?_ ?_)
  · intro hroots
    obtain ⟨root, hroot, hbefore⟩ := List.any_eq_true.mp hroots
    refine List.any_eq_true.mpr ⟨root, hroot, decide_eq_true ?_⟩
    rw [← List.append_assoc]
    exact (of_decide_eq_true hbefore).trans (List.prefix_append _ _)
  · intro hparts
    obtain ⟨part, hpart, hname⟩ := List.any_eq_true.mp hparts
    exact List.any_eq_true.mpr ⟨part, List.mem_append_left _ hpart, hname⟩

/-- The files of the checkout that are not excluded. -/
def checkoutFiles (t : Tree) (repo : Path) (excludedRoots : List Path) : List Path :=
  (t.files.map Prod.fst).filter fun file =>
    repo <+: file ∧ file ≠ repo ∧ isExcluded repo excludedRoots file = false

theorem nodup_inits (path : Path) : path.inits.Nodup := by
  apply List.Nodup.of_map List.length
  have hlengths : path.inits.map List.length = List.range (path.length + 1) := by
    apply List.ext_getElem
    · simp
    · intro i hi hi'
      rw [List.length_range] at hi'
      rw [List.getElem_map, List.getElem_inits, List.length_take, List.getElem_range]
      omega
  rw [hlengths]
  exact List.nodup_range

theorem length_lt_dirs {path : Path} (h : path ∈ t.dirs) : path.length < t.dirs.length := by
  have hsubset : path.inits ⊆ t.dirs := by
    intro first hfirst
    obtain ⟨rest, rfl⟩ := (List.mem_inits first path).mp hfirst
    cases rest with
    | nil => simpa using h
    | cons name rest => exact Tree.mem_dirs_of_append_cons (List.mem_append_left _ h)
  have hle := (List.subperm_of_subset (nodup_inits path) hsubset).length_le
  rw [List.length_inits] at hle
  omega

theorem mem_fallbackFiles {file : Path} :
    file ∈ fallbackFiles t repo excludedRoots ↔ file ∈ checkoutFiles t repo excludedRoots := by
  rw [fallbackFiles, mem_walkFiles, checkoutFiles, List.mem_filter, decide_eq_true_eq]
  constructor
  · rintro ⟨rest, hne, rfl, -, hfile, hopen⟩
    exact ⟨hfile, List.prefix_append _ _, by simpa using hne, hopen rest hne List.prefix_rfl⟩
  · rintro ⟨hfile, ⟨rest, rfl⟩, hproper, hkept⟩
    have hplain : parent ∉ repo ++ rest := Tree.parent_notMem (List.mem_append_right _ hfile)
    have hne : rest ≠ [] := by simpa using hproper
    refine ⟨rest, hne, rfl, ?_, hfile, ?_⟩
    · have hdir := t.parent_mem _ (List.mem_append_right _ hfile) (by simp [hne])
      have hlt := length_lt_dirs hdir
      rw [List.length_dropLast, List.length_append] at hlt
      omega
    · intro first hfirst hbefore
      by_contra hexcluded
      rw [Bool.not_eq_false] at hexcluded
      rw [isExcluded_mono hfirst hbefore hplain hexcluded] at hkept
      cases hkept

/-- Leaving a directory out loses no file that a walk of everything would keep. -/
theorem perm_fallbackFiles :
    (fallbackFiles t repo excludedRoots).Perm (checkoutFiles t repo excludedRoots) :=
  (List.perm_ext_iff_of_nodup nodup_walkFiles (t.nodup.filter _)).mpr fun _ => mem_fallbackFiles

end Sg200x.Ci
