import Sg200x.Ci.Affected

/-!
# The selection is a union

`affected_matrix` selects an entry for a list of changed files exactly if it selects the entry
for one of them.
-/

namespace Sg200x.Ci

open Library.Listing

variable {loads : Text → Option Json} {t : Tree} {configRoot : Path} {entries : List Json}
  {files : List Text} {entry : Json}

/-- What a changed path does to an entry. -/
def Selects (t : Tree) (configRoot : Path) (entries : List Json) (path : Text) (entry : Json) :
    Prop :=
  isGlobal path = true ∨ "scripts/deb/".toList <+: path ∨
    ∃ boards, affectedBy t configRoot entries path = .ok boards ∧ entryBoard entry ∈ boards

theorem affectedMatrix_spec (hvalid : ValidMatrix loads t configRoot entries) (files : List Text) :
    ∃ selected, affectedMatrix loads t configRoot files = .ok selected ∧
      selected.Sublist entries ∧ ∀ entry ∈ entries, entry ∈ selected ↔
        ∃ path ∈ files, Selects t configRoot entries path entry := by
  rw [affectedMatrix, hvalid.valid]
  show ∃ selected, (if files = [] then _ else _) = _ ∧ _
  by_cases hempty : files = []
  · rw [if_pos hempty, hempty]
    exact ⟨[], rfl, List.nil_sublist _, by simp⟩
  · rw [if_neg hempty]
    by_cases hglobal : files.any isGlobal = true
    · rw [if_pos hglobal]
      refine ⟨entries, rfl, List.Sublist.refl _, fun entry hentry => ?_⟩
      obtain ⟨path, hpath, hwhy⟩ := List.any_eq_true.mp hglobal
      exact iff_of_true hentry ⟨path, hpath, Or.inl hwhy⟩
    · rw [if_neg hglobal]
      obtain ⟨selected, hselected, hsublist, hspec⟩ := affectedLoop_spec hvalid.affectedBy_ok [] files
      refine ⟨selected, hselected, hsublist, fun entry hentry => ?_⟩
      rw [hspec entry hentry, or_iff_right (List.not_mem_nil)]
      apply exists_congr
      intro path
      apply and_congr_right
      intro hpath
      have hlocal : ¬ isGlobal path = true :=
        fun h => hglobal (List.any_eq_true.mpr ⟨path, hpath, h⟩)
      rw [Selects, or_iff_right hlocal]

/-- The selection for a list of changed files is the union of what its files select, in the order
of the matrix; neither the order of the files nor a file that occurs twice matters, and more files
select no less. -/
theorem selection_union (hvalid : ValidMatrix loads t configRoot entries) (files : List Text) :
    ∃ selected, affectedMatrix loads t configRoot files = .ok selected ∧
      selected.Sublist entries ∧ selected.Nodup ∧
      (∀ entry, entry ∈ selected ↔ ∃ path ∈ files, ∃ alone,
        affectedMatrix loads t configRoot [path] = .ok alone ∧ entry ∈ alone) ∧
      (∀ others, (∀ path, path ∈ others ↔ path ∈ files) →
        affectedMatrix loads t configRoot others = .ok selected) ∧
      ∀ more, files ⊆ more → ∃ selectedMore,
        affectedMatrix loads t configRoot more = .ok selectedMore ∧
          selected.Sublist selectedMore := by
  have hnodup := hvalid.nodup
  obtain ⟨selected, hselected, hsublist, hspec⟩ := affectedMatrix_spec hvalid files
  refine ⟨selected, hselected, hsublist, hnodup.sublist hsublist, ?_, ?_, ?_⟩
  · intro entry
    constructor
    · intro hmem
      obtain ⟨path, hpath, hwhy⟩ := (hspec entry (hsublist.subset hmem)).mp hmem
      obtain ⟨alone, halone, -, hspecAlone⟩ := affectedMatrix_spec hvalid [path]
      refine ⟨path, hpath, alone, halone, ?_⟩
      rw [hspecAlone entry (hsublist.subset hmem)]
      exact ⟨path, List.mem_singleton.mpr rfl, hwhy⟩
    · intro ⟨path, hpath, alone, halone, hmem⟩
      obtain ⟨alone', halone', hsublist', hspecAlone⟩ := affectedMatrix_spec hvalid [path]
      obtain rfl := Except.ok.inj (halone.symm.trans halone')
      have hentry := hsublist'.subset hmem
      obtain ⟨path', hpath', hwhy⟩ := (hspecAlone entry hentry).mp hmem
      rw [List.mem_singleton.mp hpath'] at hwhy
      exact (hspec entry hentry).mpr ⟨path, hpath, hwhy⟩
  · intro others hsame
    obtain ⟨other, hother, hsublist', hspec'⟩ := affectedMatrix_spec hvalid others
    have heq : other = selected := by
      apply eq_of_sublist hnodup hsublist' hsublist
      intro entry hentry
      rw [hspec' entry hentry, hspec entry hentry]
      simp only [hsame]
    rw [hother, heq]
  · intro more hmore
    obtain ⟨selectedMore, hselectedMore, hsublist', hspec'⟩ := affectedMatrix_spec hvalid more
    refine ⟨selectedMore, hselectedMore, sublist_of_subset hnodup hsublist hsublist' ?_⟩
    intro entry hmem
    have hentry := hsublist.subset hmem
    obtain ⟨path, hpath, hwhy⟩ := (hspec entry hentry).mp hmem
    exact (hspec' entry hentry).mpr ⟨path, hmore hpath, hwhy⟩

theorem selection_union_settings :
    ∃ selected, affectedMatrix sampleLoads sampleTree (sampleRepo.slash "configs")
        ["configs/c/settings.mk".toList, "configs/b/board.mk".toList] = .ok selected ∧
      selected.Sublist sampleEntries ∧ selected.Nodup ∧
      ∀ entry, entry ∈ selected ↔
        ∃ path ∈ ["configs/c/settings.mk".toList, "configs/b/board.mk".toList], ∃ alone,
          affectedMatrix sampleLoads sampleTree (sampleRepo.slash "configs") [path] = .ok alone ∧
            entry ∈ alone := by
  obtain ⟨selected, hselected, hsublist, hnodup, hunion, -⟩ := selection_union sampleTree_valid
    ["configs/c/settings.mk".toList, "configs/b/board.mk".toList]
  exact ⟨selected, hselected, hsublist, hnodup, hunion⟩

end Sg200x.Ci
