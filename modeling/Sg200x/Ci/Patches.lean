import Mathlib.Data.List.Dedup
import Sg200x.Ci.Chain
import Sg200x.Library.Overlay

/-!
# Layers of patches

`patch_files` walks the layers of a board from its own directory to the common one and lists
their patches the other way round.  The listing is the overlay of the layers, unless the common
layer is met twice.
-/

namespace Sg200x.Ci

open Library.Lineage Library.Listing Library.Overlay Relation

/-- `path.name` -/
def fileName (path : Path) : Text := path.getLastD []

/-- `path.name.removesuffix(".skip")` -/
def hiddenName (path : Path) : Text :=
  (fileName path).take ((fileName path).length - ".skip".length)

section
variable (t : Tree) (dir : Path)

/-- The names that the tombstones of a directory hide. -/
def tombstones : List Text :=
  if t.isDir dir then (t.glob dir ".patch.skip".toList).map hiddenName else []

def layerPatches : List Path := if t.isDir dir then t.glob dir ".patch".toList else []

/-- The untombstoned patches of a directory, in the order of their names. -/
def ownPatches : List Path :=
  ((layerPatches t dir).filter fun path => fileName path ∉ tombstones t dir).dedup

/-- The names that occur in a directory as a patch or as a tombstone. -/
def mentioned : List Text := tombstones t dir ++ (layerPatches t dir).map fileName

end

variable {t : Tree} {configRoot : Path} {board component : Text}

/-! ## The patches of one layer -/

theorem glob_eq {path entry : Path} {suffix : Text} (h : entry ∈ t.glob path suffix) :
    entry = path ++ [fileName entry] := by
  rw [Tree.glob] at h
  cases hplace : t.locate path with
  | none => simp [hplace] at h
  | some place =>
      rw [hplace, mem_sortBy, List.mem_filterMap] at h
      obtain ⟨name, -, hname⟩ := h
      by_cases hsuffix : suffix <:+ name
      · rw [if_pos hsuffix, Option.some.injEq] at hname
        rw [← hname]
        simp [fileName]
      · simp [if_neg hsuffix] at hname

theorem pairwise_glob (path : Path) (suffix : Text) :
    (t.glob path suffix).Pairwise (· ≤ ·) := by
  rw [Tree.glob]
  cases t.locate path with
  | none => exact List.Pairwise.nil
  | some place => exact pairwise_sortBy id _

theorem layerPatches_eq {dir path : Path} (h : path ∈ layerPatches t dir) :
    path = dir ++ [fileName path] := by
  rw [layerPatches] at h
  split_ifs at h
  · exact glob_eq h
  · simp at h

theorem mem_ownPatches {dir path : Path} :
    path ∈ ownPatches t dir ↔ path ∈ layerPatches t dir ∧ fileName path ∉ tombstones t dir := by
  rw [ownPatches, List.mem_dedup, List.mem_filter, decide_eq_true_iff]

theorem pairwise_ownPatches (dir : Path) :
    (ownPatches t dir).Pairwise fun a b => id a ≤ id b := by
  have hsorted : (layerPatches t dir).Pairwise fun a b => id a ≤ id b := by
    rw [layerPatches]
    split_ifs
    · exact pairwise_glob _ _
    · exact List.Pairwise.nil
  exact (hsorted.filter _).sublist (List.dedup_sublist _)

theorem dropLast_ownPatches {dir path : Path} (h : path ∈ ownPatches t dir) :
    path.dropLast = dir := by
  rw [layerPatches_eq (mem_ownPatches.mp h).1, List.dropLast_concat]

/-- The layers of a component, as they hide each other. -/
def patchStack (t : Tree) (configRoot : Path) (component : Text) : Stack Text Path Text where
  own layer := ownPatches t (patchDir configRoot layer component)
  name := fileName
  mentions layer := mentioned t (patchDir configRoot layer component)
  own_nodup layer := by
    apply List.Nodup.map_on
    · intro a ha b hb hname
      rw [layerPatches_eq (mem_ownPatches.mp ha).1, layerPatches_eq (mem_ownPatches.mp hb).1, hname]
    · exact List.nodup_dedup _
  own_mentioned layer a ha :=
    List.mem_append_right _ (List.mem_map_of_mem (mem_ownPatches.mp ha).1)

/-! ## The selection -/

/-- What is set first stays. -/
theorem mem_foldl_setDefault {α ν : Type} {entries : List α} {name : α → Text} {value : α → ν}
    {dict : List (Text × ν)} {entry : Text × ν}
    (hvalue : ∀ a ∈ entries, ∀ b ∈ entries, name a = name b → value a = value b) :
    entry ∈ entries.foldl (fun d a => setDefault d (name a) (value a)) dict ↔
      entry ∈ dict ∨ (entry.1 ∉ dict.map Prod.fst ∧ ∃ a ∈ entries, entry = (name a, value a)) := by
  induction entries generalizing dict with
  | nil => simp
  | cons a entries ih =>
      have hrest := fun b hb c hc => hvalue b (List.mem_cons_of_mem a hb) c (List.mem_cons_of_mem a hc)
      have hkey : (dict.lookup (name a)).isSome ↔ name a ∈ dict.map Prod.fst := by
        rw [← not_iff_not, Option.not_isSome_iff_eq_none, List.lookup_eq_none_iff]
        constructor
        · intro hnone hmem
          obtain ⟨entry, hentry, heq⟩ := List.mem_map.mp hmem
          exact absurd (hnone entry hentry) (by simp [heq])
        · intro hfresh entry hentry
          apply bne_iff_ne.mpr
          intro heq
          exact hfresh (heq ▸ List.mem_map_of_mem hentry)
      rw [List.foldl_cons, ih hrest, setDefault]
      by_cases hold : name a ∈ dict.map Prod.fst
      · rw [if_pos (hkey.mpr hold)]
        constructor
        · rintro (hmem | ⟨hfresh, b, hb, heq⟩)
          · exact Or.inl hmem
          · exact Or.inr ⟨hfresh, b, List.mem_cons_of_mem a hb, heq⟩
        · rintro (hmem | ⟨hfresh, b, hb, heq⟩)
          · exact Or.inl hmem
          · rcases List.mem_cons.mp hb with hhead | htail
            · rw [heq, hhead] at hfresh
              exact absurd hold hfresh
            · exact Or.inr ⟨hfresh, b, htail, heq⟩
      · rw [if_neg (hkey.not.mpr hold), List.mem_append, List.mem_singleton, List.map_append,
          List.mem_append]
        constructor
        · rintro ((hmem | heq) | ⟨hfresh, b, hb, heq⟩)
          · exact Or.inl hmem
          · exact Or.inr ⟨by rw [heq]; exact hold, a, by simp, heq⟩
          · exact Or.inr ⟨fun h => hfresh (Or.inl h), b, List.mem_cons_of_mem a hb, heq⟩
        · rintro (hmem | ⟨hfresh, b, hb, heq⟩)
          · exact Or.inl (Or.inl hmem)
          · by_cases hsame : name b = name a
            · left; right
              rw [heq, hsame, hvalue b hb a (by simp) hsame]
            · rcases List.mem_cons.mp hb with hhead | htail
              · exact absurd (congrArg name hhead) hsame
              · right
                refine ⟨?_, b, htail, heq⟩
                rintro (h | h)
                · exact hfresh h
                · rw [heq] at h
                  exact hsame (by simpa using h)

theorem selectLayer_eq (layer : Text) (selected : List (Text × Option Path)) :
    selectLayer t configRoot component selected layer =
      (layerPatches t (patchDir configRoot layer component)).foldl
        (fun d path => setDefault d (fileName path) (some path))
        ((tombstones t (patchDir configRoot layer component)).foldl
          (fun d name => setDefault d name none) selected) := by
  rw [selectLayer, layerPatches, tombstones]
  by_cases hdir : t.isDir (patchDir configRoot layer component) = true
  · simp only [if_pos hdir, List.foldl_map]
    rfl
  · simp only [if_neg hdir, List.foldl_nil]

/-- What a layer adds to the selection, under a name that it does not hold yet. -/
theorem mem_selectLayer {layer : Text} {selected : List (Text × Option Path)}
    {entry : Text × Option Path} :
    entry ∈ selectLayer t configRoot component selected layer ↔
      entry ∈ selected ∨ (entry.1 ∉ selected.map Prod.fst ∧
        ((entry.1 ∈ tombstones t (patchDir configRoot layer component) ∧ entry.2 = none) ∨
          ∃ path ∈ ownPatches t (patchDir configRoot layer component),
            entry = (fileName path, some path))) := by
  let dir := patchDir configRoot layer component
  have hpaths : ∀ a ∈ layerPatches t dir, ∀ b ∈ layerPatches t dir, fileName a = fileName b →
      some a = some b := by
    intro a ha b hb hname
    rw [layerPatches_eq ha, layerPatches_eq hb, hname]
  have htombs : ∀ entry' : Text × Option Path,
      entry' ∈ (tombstones t dir).foldl (fun d name => setDefault d name none) selected ↔
        entry' ∈ selected ∨ (entry'.1 ∉ selected.map Prod.fst ∧
          entry'.1 ∈ tombstones t dir ∧ entry'.2 = none) := by
    intro entry'
    have hfold : entry' ∈ (tombstones t dir).foldl (fun d name => setDefault d name none) selected ↔
        entry' ∈ selected ∨ (entry'.1 ∉ selected.map Prod.fst ∧
          ∃ name ∈ tombstones t dir, entry' = (name, none)) :=
      mem_foldl_setDefault fun _ _ _ _ _ => rfl
    apply hfold.trans
    apply or_congr_right
    apply and_congr_right
    intro _
    constructor
    · rintro ⟨a, ha, rfl⟩
      exact ⟨ha, rfl⟩
    · intro ⟨ha, hnone⟩
      exact ⟨entry'.1, ha, Prod.ext rfl hnone⟩
  have hkeys : ∀ name, name ∈ ((tombstones t dir).foldl (fun d name => setDefault d name none)
      selected).map Prod.fst ↔ name ∈ selected.map Prod.fst ∨ name ∈ tombstones t dir := by
    intro name
    constructor
    · intro h
      obtain ⟨entry', hentry', rfl⟩ := List.mem_map.mp h
      rcases (htombs entry').mp hentry' with hold | ⟨-, hnew, -⟩
      · exact Or.inl (List.mem_map_of_mem hold)
      · exact Or.inr hnew
    · intro h
      by_cases hold : name ∈ selected.map Prod.fst
      · obtain ⟨entry', hentry', rfl⟩ := List.mem_map.mp hold
        exact List.mem_map_of_mem ((htombs entry').mpr (Or.inl hentry'))
      · have hnew := (htombs (name, none)).mpr (Or.inr ⟨hold, h.resolve_left hold, rfl⟩)
        exact List.mem_map_of_mem (f := Prod.fst) hnew
  rw [selectLayer_eq, mem_foldl_setDefault hpaths, htombs, hkeys]
  constructor
  · rintro ((hold | ⟨hfresh, htomb⟩) | ⟨hfresh, path, hpath, heq⟩)
    · exact Or.inl hold
    · exact Or.inr ⟨hfresh, Or.inl htomb⟩
    · rw [not_or, heq] at hfresh
      rw [heq]
      exact Or.inr ⟨hfresh.1, Or.inr ⟨path, mem_ownPatches.mpr ⟨hpath, hfresh.2⟩, rfl⟩⟩
  · rintro (hold | ⟨hfresh, htomb | ⟨path, hpath, heq⟩⟩)
    · exact Or.inl (Or.inl hold)
    · exact Or.inl (Or.inr ⟨hfresh, htomb⟩)
    · rw [mem_ownPatches] at hpath
      right
      refine ⟨?_, path, hpath.1, heq⟩
      rw [not_or]
      exact ⟨hfresh, by rw [heq]; exact hpath.2⟩

/-- The selection holds the names that the layers mention. -/
theorem mem_selected_names {chain : List Text} {name : Text} :
    name ∈ (chain.foldl (selectLayer t configRoot component) []).map Prod.fst ↔
      ∃ layer ∈ chain, name ∈ mentioned t (patchDir configRoot layer component) := by
  induction chain using List.reverseRecOn with
  | nil => simp
  | append_singleton chain last ih =>
      rw [List.foldl_append, List.foldl_cons, List.foldl_nil]
      have hlast : (∃ layer ∈ chain ++ [last],
            name ∈ mentioned t (patchDir configRoot layer component)) ↔
          (∃ layer ∈ chain, name ∈ mentioned t (patchDir configRoot layer component)) ∨
            name ∈ mentioned t (patchDir configRoot last component) := by
        simp only [List.mem_append, List.mem_singleton, or_and_right, exists_or, exists_eq_left]
      rw [hlast, ← ih]
      constructor
      · intro h
        obtain ⟨entry, hentry, rfl⟩ := List.mem_map.mp h
        rcases mem_selectLayer.mp hentry with hold | ⟨-, ⟨htomb, -⟩ | ⟨path, hpath, heq⟩⟩
        · exact Or.inl (List.mem_map_of_mem hold)
        · exact Or.inr (List.mem_append_left _ htomb)
        · rw [heq]
          exact Or.inr ((patchStack t configRoot component).own_mentioned last path hpath)
      · intro h
        by_cases hold : name ∈ (chain.foldl (selectLayer t configRoot component) []).map Prod.fst
        · obtain ⟨entry, hentry, rfl⟩ := List.mem_map.mp hold
          exact List.mem_map_of_mem (mem_selectLayer.mpr (Or.inl hentry))
        · have hnew := h.resolve_left hold
          by_cases htomb : name ∈ tombstones t (patchDir configRoot last component)
          · exact List.mem_map_of_mem (f := Prod.fst)
              (mem_selectLayer.mpr (Or.inr ⟨hold, Or.inl ⟨htomb, rfl⟩⟩) : (name, none) ∈ _)
          · obtain ⟨path, hpath, heq⟩ := List.mem_map.mp
              ((List.mem_append.mp hnew).resolve_left htomb)
            rw [← heq] at htomb hold ⊢
            exact List.mem_map_of_mem (f := Prod.fst)
              (mem_selectLayer.mpr (Or.inr ⟨hold, Or.inr
                ⟨path, mem_ownPatches.mpr ⟨hpath, htomb⟩, rfl⟩⟩) : (fileName path, some path) ∈ _)

/-- The selected patches are the visible ones. -/
theorem mem_selected {chain : List Text} {path : Path} :
    path ∈ (chain.foldl (selectLayer t configRoot component) []).filterMap Prod.snd ↔
      path ∈ (patchStack t configRoot component).overlay chain := by
  induction chain using List.reverseRecOn with
  | nil => simp [Stack.overlay]
  | append_singleton chain last ih =>
      have hnames : fileName path ∈
            (chain.foldl (selectLayer t configRoot component) []).map Prod.fst ↔
          ∃ layer ∈ chain, fileName path ∈ mentioned t (patchDir configRoot layer component) :=
        mem_selected_names
      rw [Stack.mem_overlay_append, Stack.mem_overlay_singleton, ← ih, List.foldl_append,
        List.foldl_cons, List.foldl_nil, List.mem_filterMap, List.mem_filterMap]
      constructor
      · rintro ⟨entry, hentry, heq⟩
        rcases mem_selectLayer.mp hentry with hold | ⟨hfresh, ⟨-, hnone⟩ | ⟨other, hother, rfl⟩⟩
        · exact Or.inr ⟨entry, hold, heq⟩
        · rw [hnone] at heq
          cases heq
        · obtain rfl := Option.some.inj heq
          left
          refine ⟨hother, fun layer hlayer hmem => hfresh ?_⟩
          exact hnames.mpr ⟨layer, hlayer, hmem⟩
      · rintro (⟨hown, hfree⟩ | ⟨entry, hentry, heq⟩)
        · refine ⟨(fileName path, some path), mem_selectLayer.mpr (Or.inr ⟨?_, ?_⟩), rfl⟩
          · intro hmem
            obtain ⟨layer, hlayer, hname⟩ := hnames.mp hmem
            exact hfree layer hlayer hname
          · exact Or.inr ⟨path, hown, rfl⟩
        · exact ⟨entry, mem_selectLayer.mpr (Or.inl hentry), heq⟩

/-- What is applied from a layer. -/
def applied (t : Tree) (configRoot : Path) (component : Text) (chain : List Text) (layer : Text) :
    List Path :=
  sortBy id (((patchStack t configRoot component).overlay chain).filter fun path =>
    path.dropLast = patchDir configRoot layer component)

theorem mem_applied {chain : List Text} {layer : Text} {path : Path} :
    path ∈ applied t configRoot component chain layer ↔
      path ∈ (patchStack t configRoot component).overlay chain ∧
        path.dropLast = patchDir configRoot layer component := by
  rw [applied, mem_sortBy, List.mem_filter, decide_eq_true_iff]

theorem nodup_applied (chain : List Text) (layer : Text) :
    (applied t configRoot component chain layer).Nodup :=
  nodup_sortBy ((Stack.nodup_overlay chain).filter _)

theorem pairwise_applied (chain : List Text) (layer : Text) :
    (applied t configRoot component chain layer).Pairwise fun a b => id a ≤ id b :=
  pairwise_sortBy id _

/-- A listing without repetitions in the order of the names is determined by its patches. -/
theorem eq_applied {chain : List Text} {layer : Text} {paths : List Path}
    (hsorted : paths.Pairwise fun a b => id a ≤ id b) (hnodup : paths.Nodup)
    (h : ∀ path, path ∈ paths ↔ path ∈ (patchStack t configRoot component).overlay chain ∧
      path.dropLast = patchDir configRoot layer component) :
    paths = applied t configRoot component chain layer := by
  apply eq_of_pairwise_of_mem_iff hsorted (pairwise_applied chain layer) hnodup (nodup_applied chain layer)
  · exact fun _ _ _ _ heq => heq
  · intro path
    exact (h path).trans mem_applied.symm

theorem patchFiles_eq {chain : List Text} (hname : isComponentName component = true)
    (hchain : boardChain t configRoot board = .ok chain) :
    patchFiles t configRoot board component =
      .ok (chain.reverse.flatMap (applied t configRoot component chain)) := by
  have hlayers : ∀ layer, sortBy id
      (((chain.foldl (selectLayer t configRoot component) []).filterMap Prod.snd).filter
        fun path => path.dropLast = patchDir configRoot layer component) =
      applied t configRoot component chain layer := by
    intro layer
    apply eq_applied (pairwise_sortBy id _)
    · exact nodup_sortBy ((selection component chain).nodup_paths.filter _)
    · intro path
      rw [mem_sortBy, List.mem_filter, mem_selected, decide_eq_true_iff]
  rw [patchFiles, hname, hchain]
  exact congrArg (fun taken => Except.ok (chain.reverse.flatMap taken)) (funext hlayers)

theorem patchFiles_invalid (h : isComponentName component = false) (board : Text) :
    patchFiles t configRoot board component =
      .error (.planError (.invalidPatchComponent component)) := by
  rw [patchFiles, h]
  rfl

/-! ## The layers of a board and of its base -/

theorem patchDir_injective {layer other : Text} (hname : isComponentName component = true)
    (h : patchDir configRoot layer component = patchDir configRoot other component) :
    join configRoot layer = join configRoot other := by
  rw [patchDir_eq hname, patchDir_eq hname] at h
  exact List.append_cancel_right h

/-- A board with a valid base is followed by the layers of the base. -/
theorem boardChain_cons {base : Text} {chain : List Text} (hvalid : ¬ InvalidBoard board)
    (hdir : t.isDir (join configRoot board) = true) (hbase : Assigns t configRoot board base)
    (hchain : boardChain t configRoot base = .ok chain) :
    boardChain t configRoot board = .ok (board :: chain) := by
  have hvalidBase : ¬ InvalidBoard base := by
    intro hinvalid
    rw [boardChain, if_pos hinvalid] at hchain
    cases hchain
  have hends : ChainEnd t configRoot base (boardChain t configRoot base) :=
    boardChain_ends hvalidBase
  rw [hchain] at hends
  cases hends with
  | inherited boards hwalk =>
      have hne : base ≠ [] := fun h => hvalidBase (Or.inl h)
      have hinherits : Inherits t configRoot board base := ⟨hbase, hne⟩
      have hsplit : ∀ name, Reaches t configRoot board name →
          name = board ∨ Reaches t configRoot base name := by
        intro name hreach
        rcases ReflTransGen.cases_head hreach with heq | ⟨next, hnext, hrest⟩
        · exact Or.inl heq.symm
        · rw [inherits_unique hnext hinherits] at hrest
          exact Or.inr hrest
      have hboardEnds : ChainEnd t configRoot board (boardChain t configRoot board) :=
        boardChain_ends hvalid
      generalize hresult : boardChain t configRoot board = result at hboardEnds
      cases hboardEnds with
      | inherited boards' hwalk' =>
          obtain ⟨rest, rfl⟩ := hwalk'.cons_of_ended hvalid
          have hfollows := hwalk'.follows
          have hnotempty : [] ∉ board :: rest := fun hmem => hwalk'.nonempty [] hmem rfl
          rw [List.mem_cons, not_or] at hnotempty
          have hstarts : (rest ++ [[]]).head? = (boards ++ [[]]).head? := by
            rw [hwalk.starts]
            cases hrest : rest ++ [[]] with
            | nil => simp at hrest
            | cons next rest' =>
                rw [List.cons_append, hrest, List.isChain_cons_cons] at hfollows
                rw [List.head?_cons, assigns_keyed.unique hfollows.1 hbase]
          have heq : rest = boards := by
            apply eq_of_ended (R := Assigns t configRoot) _ hfollows.tail hwalk.follows hstarts
              hnotempty.2
            · exact fun hmem => hwalk.nonempty [] hmem rfl
            · exact fun hb hc => assigns_keyed.unique hb hc
          rw [heq, List.cons_append]
      | cycle chain' current hwalk' hmem =>
          obtain ⟨name, hreach, hcycle⟩ := hwalk'.cyclic hmem
          have hcyclic : CyclicBoard t configRoot base := by
            rcases hsplit name hreach with rfl | hbelow
            · exact ⟨base, .refl, transGen_forward (fun hb hc => inherits_unique hb hc) hcycle
                hinherits⟩
            · exact ⟨name, hbelow, hcycle⟩
          exact absurd hcyclic (hwalk.not_cyclic hvalidBase)
      | missing chain' current hwalk' hne' hmissing =>
          rcases hsplit current (hwalk'.reaches hne' (by simp)) with rfl | hbelow
          · rw [hdir] at hmissing
            cases hmissing
          · exact absurd ⟨current, hbelow, hmissing⟩ (hwalk.not_missing hvalidBase)
      | undecodable chain' current hwalk' hne' hraises =>
          have hreads : ∃ next, Assigns t configRoot current next := by
            rcases hsplit current (hwalk'.reaches hne' (by simp)) with rfl | hbelow
            · exact ⟨base, hbase⟩
            · exact hwalk.readable hvalidBase current hbelow
          obtain ⟨next, hnext⟩ := hreads
          rw [Assigns, hraises] at hnext
          cases hnext

/-- The walk of a board that is resolved. -/
theorem walking_of_ok {chain : List Text} (h : boardChain t configRoot board = .ok chain) :
    ¬ InvalidBoard board ∧ ∃ boards, chain = boards ++ [common] ∧
      Walking t configRoot board boards [] := by
  have hvalid : ¬ InvalidBoard board := by
    intro hinvalid
    rw [boardChain, if_pos hinvalid] at h
    cases h
  have hends : ChainEnd t configRoot board (boardChain t configRoot board) :=
    boardChain_ends hvalid
  rw [h] at hends
  cases hends with
  | inherited boards hwalk => exact ⟨hvalid, boards, rfl, hwalk⟩

theorem Walking.pairwise_join {boards : List Text} (h : Walking t configRoot board boards []) :
    boards.Pairwise fun a b => join configRoot a ≠ join configRoot b := by
  have hdirs := h.dirs_nodup fun hmem => h.nonempty [] hmem rfl
  rw [layerDirs] at hdirs
  apply (List.pairwise_map.mp hdirs).imp
  intro a b hne heq
  exact hne (congrArg t.locate heq)

/-- The directory of a board is not the directory of a layer below it. -/
theorem join_ne_of_mem_base {base : Text} {chain : List Text} {layer : Text}
    (hvalid : ¬ InvalidBoard board) (hdir : t.isDir (join configRoot board) = true)
    (hbase : Assigns t configRoot board base) (hchain : boardChain t configRoot base = .ok chain)
    (hlayer : layer ∈ chain) : join configRoot board ≠ join configRoot layer := by
  obtain ⟨-, boards, hboards, hwalk⟩ :=
    walking_of_ok (boardChain_cons hvalid hdir hbase hchain)
  intro heq
  obtain ⟨rest, rfl⟩ := hwalk.cons_of_ended hvalid
  rw [List.cons_append, List.cons.injEq] at hboards
  rw [hboards.2] at hlayer
  rcases List.mem_append.mp hlayer with hrest | hcommon
  · exact (List.pairwise_cons.mp hwalk.pairwise_join).1 layer hrest heq
  · rw [List.mem_singleton.mp hcommon] at heq
    exact locate_ne_common hvalid hdir (congrArg t.locate heq)

/-- What a layer mentions is taken out of what is applied from the layers below it. -/
theorem applied_cons_below {layer : Text} {chain : List Text} (hname : isComponentName component = true)
    (hne : join configRoot board ≠ join configRoot layer) :
    applied t configRoot component (board :: chain) layer =
      (applied t configRoot component chain layer).filter fun path =>
        fileName path ∉ mentioned t (patchDir configRoot board component) := by
  symm
  apply eq_applied ((pairwise_applied chain layer).filter _) ((nodup_applied chain layer).filter _)
  intro path
  rw [List.mem_filter, mem_applied, decide_eq_true_iff, ← List.singleton_append,
    Stack.mem_overlay_append, Stack.mem_overlay_singleton]
  constructor
  · intro ⟨⟨hmem, hdir⟩, hfree⟩
    refine ⟨Or.inl ⟨hmem, ?_⟩, hdir⟩
    intro other hother
    rw [List.mem_singleton.mp hother]
    exact hfree
  · rintro ⟨⟨hmem, hfree⟩ | hown, hdir⟩
    · exact ⟨⟨hmem, hdir⟩, hfree board (List.mem_singleton.mpr rfl)⟩
    · have hown' := (dropLast_ownPatches hown).symm.trans hdir
      exact absurd (patchDir_injective hname hown') hne

theorem applied_cons_self {chain : List Text} (hname : isComponentName component = true)
    (hne : ∀ layer ∈ chain, join configRoot board ≠ join configRoot layer) :
    applied t configRoot component (board :: chain) board =
      ownPatches t (patchDir configRoot board component) := by
  symm
  apply eq_applied (pairwise_ownPatches _) (List.nodup_dedup _)
  intro path
  rw [← List.singleton_append, Stack.mem_overlay_append, Stack.mem_overlay_singleton]
  constructor
  · exact fun hown => ⟨Or.inr hown, dropLast_ownPatches hown⟩
  · rintro ⟨⟨hmem, -⟩ | hown, hdir⟩
    · obtain ⟨upper, layer, lower, hchain, hown, -⟩ := Stack.mem_overlay_iff.mp hmem
      have hdir' := hdir.symm.trans (dropLast_ownPatches hown)
      exact absurd (patchDir_injective hname hdir') (hne layer (by rw [hchain]; simp))
    · exact hown

/-- A board applies what its base applies, less the names that its own directory mentions, and
its own patches after that. -/
theorem patchFiles_cons {base : Text} {chain : List Text} (hvalid : ¬ InvalidBoard board)
    (hdir : t.isDir (join configRoot board) = true) (hbase : Assigns t configRoot board base)
    (hchain : boardChain t configRoot base = .ok chain) :
    patchFiles t configRoot board component =
      (patchFiles t configRoot base component).map fun paths =>
        (paths.filter fun path => fileName path ∉ mentioned t (patchDir configRoot board component)) ++
          ownPatches t (patchDir configRoot board component) := by
  by_cases hname : isComponentName component = true
  · have hne : ∀ layer ∈ chain, join configRoot board ≠ join configRoot layer :=
      fun layer => join_ne_of_mem_base hvalid hdir hbase hchain
    have hbelow : chain.reverse.flatMap (applied t configRoot component (board :: chain)) =
        (chain.reverse.flatMap (applied t configRoot component chain)).filter fun path =>
          fileName path ∉ mentioned t (patchDir configRoot board component) := by
      rw [List.filter_flatMap]
      apply List.flatMap_congr
      intro layer hlayer
      exact applied_cons_below hname (hne layer (List.mem_reverse.mp hlayer))
    rw [patchFiles_eq hname hchain, patchFiles_eq hname (boardChain_cons hvalid hdir hbase hchain),
      List.reverse_cons, List.flatMap_append, List.flatMap_singleton, hbelow,
      applied_cons_self hname hne]
    rfl
  · rw [Bool.not_eq_true] at hname
    rw [patchFiles_invalid hname, patchFiles_invalid hname]
    rfl

/-! ## What is applied -/

/-- An inherited name leads to the common layer, and a patch of the common layer is mentioned by
no board that inherits the name. -/
def RepeatsCommon (t : Tree) (configRoot : Path) (board component : Text) : Prop :=
  isComponentName component = true ∧ (∃ chain, boardChain t configRoot board = .ok chain) ∧
    ∃ name, Reaches t configRoot board name ∧ join configRoot name = join configRoot common ∧
      ∃ path ∈ ownPatches t (patchDir configRoot common component),
        ∀ upper, Reaches t configRoot board upper → TransGen (Inherits t configRoot) upper name →
          fileName path ∉ mentioned t (patchDir configRoot upper component)

/-- What the layers of a board make of its patches. -/
structure Layered (t : Tree) (configRoot : Path) (board component : Text) : Prop where
  /-- The patches of the base, less the names that the board's own directory mentions, and the
  board's own patches after that. -/
  law : ∀ base chain, ¬ InvalidBoard board → t.isDir (join configRoot board) = true →
    Assigns t configRoot board base → boardChain t configRoot base = .ok chain →
    patchFiles t configRoot board component =
      (patchFiles t configRoot base component).map fun paths =>
        (paths.filter fun path => fileName path ∉ mentioned t (patchDir configRoot board component)) ++
          ownPatches t (patchDir configRoot board component)
  once : ∀ paths, patchFiles t configRoot board component = .ok paths →
    (paths.map fileName).Nodup
  /-- A patch comes from the highest layer that mentions its name, if it is no tombstone there. -/
  source : ∀ chain paths, boardChain t configRoot board = .ok chain →
    patchFiles t configRoot board component = .ok paths → ∀ path, path ∈ paths ↔
      ∃ upper layer lower, chain = upper ++ layer :: lower ∧
        path ∈ ownPatches t (patchDir configRoot layer component) ∧
        ∀ other ∈ upper, fileName path ∉ mentioned t (patchDir configRoot other component)
  /-- The layers follow each other from the common one to the board. -/
  ordered : ∀ chain paths, boardChain t configRoot board = .ok chain →
    patchFiles t configRoot board component = .ok paths → ∃ taken : Text → List Path,
      (∀ layer, (taken layer).Sublist (ownPatches t (patchDir configRoot layer component))) ∧
      paths = chain.reverse.flatMap taken

theorem applied_sublist (chain : List Text) (layer : Text) :
    (applied t configRoot component chain layer).Sublist
      (ownPatches t (patchDir configRoot layer component)) := by
  have hsubset : ∀ path ∈ applied t configRoot component chain layer,
      path ∈ ownPatches t (patchDir configRoot layer component) := by
    intro path hpath
    rw [mem_applied] at hpath
    obtain ⟨upper, other, lower, -, hown, -⟩ := Stack.mem_overlay_iff.mp hpath.1
    rw [← hpath.2, dropLast_ownPatches hown]
    exact hown
  have hfilter : applied t configRoot component chain layer =
      (ownPatches t (patchDir configRoot layer component)).filter
        (· ∈ applied t configRoot component chain layer) := by
    symm
    apply eq_applied ((pairwise_ownPatches _).filter _) ((List.nodup_dedup _).filter _)
    intro path
    rw [List.mem_filter, decide_eq_true_iff, ← mem_applied]
    exact and_iff_right_of_imp (hsubset path)
  rw [hfilter]
  exact List.filter_sublist

theorem patches_ok {paths : List Path} (h : patchFiles t configRoot board component = .ok paths) :
    isComponentName component = true ∧ ∃ chain, boardChain t configRoot board = .ok chain ∧
      paths = chain.reverse.flatMap (applied t configRoot component chain) := by
  by_cases hname : isComponentName component = true
  · refine ⟨hname, ?_⟩
    cases hchain : boardChain t configRoot board with
    | error raised => exact absurd h (patchFiles_error hchain)
    | ok chain =>
        rw [patchFiles_eq hname hchain, Except.ok.injEq] at h
        exact ⟨chain, rfl, h.symm⟩
  · rw [Bool.not_eq_true] at hname
    rw [patchFiles_invalid hname] at h
    cases h

theorem mem_flatMap_applied {chain : List Text} {path : Path} :
    path ∈ chain.reverse.flatMap (applied t configRoot component chain) ↔
      path ∈ (patchStack t configRoot component).overlay chain := by
  rw [List.mem_flatMap]
  constructor
  · intro ⟨layer, _, hpath⟩
    exact (mem_applied.mp hpath).1
  · intro h
    obtain ⟨upper, layer, lower, hchain, hown, -⟩ := Stack.mem_overlay_iff.mp h
    refine ⟨layer, by rw [List.mem_reverse, hchain]; simp, mem_applied.mpr ⟨h, ?_⟩⟩
    exact dropLast_ownPatches hown

/-- The boards before a board of the walk are those that inherit it. -/
theorem Walking.mem_above_iff {above below : List Text} {name upper : Text}
    (h : Walking t configRoot board (above ++ name :: below) []) (hvalid : ¬ InvalidBoard board) :
    upper ∈ above ↔ Reaches t configRoot board upper ∧ TransGen (Inherits t configRoot) upper name := by
  have hinherits := h.inherits
  constructor
  · intro hupper
    refine ⟨(h.reaches_iff hvalid).mpr (List.mem_append_left _ hupper), ?_⟩
    have hsplit : above ++ name :: below = (above ++ [name]) ++ below := by simp
    rw [hsplit] at hinherits
    exact transGen_of_mem hinherits.left_of_append hupper
  · intro ⟨hreach, hleads⟩
    rcases List.mem_append.mp ((h.reaches_iff hvalid).mp hreach) with habove | hbelow
    · exact habove
    · -- The name would be inherited by itself.
      have hback := reflTransGen_of_mem hinherits.right_of_append hbelow
      have hname := (h.reaches_iff hvalid).mpr (List.mem_append_right above List.mem_cons_self)
      exact absurd ⟨name, hname, hleads.trans_right hback⟩ (h.not_cyclic hvalid)

theorem mem_applied_of_split {above below : List Text} {name : Text} {path : Path}
    (hname : isComponentName component = true)
    (h : Walking t configRoot board (above ++ name :: below) []) :
    path ∈ applied t configRoot component (above ++ name :: below ++ [common]) name ↔
      path ∈ ownPatches t (patchDir configRoot name component) ∧
        ∀ upper ∈ above, fileName path ∉ mentioned t (patchDir configRoot upper component) := by
  rw [mem_applied, Stack.mem_overlay_iff]
  constructor
  · intro ⟨⟨upper, layer, lower, hchain, hown, hfree⟩, hdir⟩
    have hsame : patchDir configRoot layer component = patchDir configRoot name component :=
      (dropLast_ownPatches hown).symm.trans hdir
    have hown' : path ∈ ownPatches t (patchDir configRoot layer component) := hown
    rw [hsame] at hown'
    refine ⟨hown', ?_⟩
    rw [List.append_assoc, List.append_eq_append_iff] at hchain
    rcases hchain with ⟨more, hupper, -⟩ | ⟨more, habove, hlayer⟩
    · intro other hother
      exact hfree other (by rw [hupper]; exact List.mem_append_left _ hother)
    · -- The layer does not lie before the name, with the same directory.
      cases more with
      | nil =>
          rw [List.append_nil] at habove
          rw [habove]
          exact hfree
      | cons first more =>
          rw [List.cons_append, List.cons.injEq] at hlayer
          have hmem : layer ∈ above := by rw [habove, hlayer.1]; simp
          have hpairwise := (List.pairwise_append.mp h.pairwise_join).2.2
          exact absurd (patchDir_injective hname hsame)
            (hpairwise layer hmem name List.mem_cons_self)
  · intro ⟨hown, hfree⟩
    exact ⟨⟨above, name, below ++ [common], by simp, hown, hfree⟩, dropLast_ownPatches hown⟩

/-- A name is applied twice only from a layer that is met twice. -/
theorem nodup_names_iff {boards : List Text} (hname : isComponentName component = true)
    (h : Walking t configRoot board boards []) :
    (((boards ++ [common]).reverse.flatMap
      (applied t configRoot component (boards ++ [common]))).map fileName).Nodup ↔
      ∀ name ∈ boards, join configRoot name = join configRoot common →
        applied t configRoot component (boards ++ [common]) name = [] := by
  have hdisjoint : ∀ a b : Text, List.Disjoint (applied t configRoot component (boards ++ [common]) a)
      (applied t configRoot component (boards ++ [common]) b) ↔
      (join configRoot a = join configRoot b →
        applied t configRoot component (boards ++ [common]) a = []) := by
    intro a b
    constructor
    · intro hdisj heq
      have hsame : applied t configRoot component (boards ++ [common]) a =
          applied t configRoot component (boards ++ [common]) b := by
        rw [applied, applied, patchDir_eq hname, patchDir_eq hname, heq]
      rw [← hsame] at hdisj
      exact List.eq_nil_iff_forall_not_mem.mpr fun path hpath => hdisj hpath hpath
    · intro hempty path ha hb
      have hdir := (mem_applied.mp ha).2.symm.trans (mem_applied.mp hb).2
      rw [hempty (patchDir_injective hname hdir)] at ha
      exact absurd ha (by simp)
  have hpaths : (((boards ++ [common]).reverse.flatMap
      (applied t configRoot component (boards ++ [common]))).map fileName).Nodup ↔
      ((boards ++ [common]).reverse.flatMap
        (applied t configRoot component (boards ++ [common]))).Nodup := by
    constructor
    · exact List.Nodup.of_map _
    · intro hnodup
      apply hnodup.map_on
      intro a ha b hb heq
      exact Stack.eq_of_mem_overlay (mem_flatMap_applied.mp ha) (mem_flatMap_applied.mp hb) heq
  rw [hpaths, List.nodup_flatMap, List.pairwise_reverse, List.pairwise_append]
  constructor
  · rintro ⟨-, -, -, hcommon⟩ name hmem heq
    have hdisj := hcommon name hmem common (List.mem_singleton.mpr rfl)
    exact (hdisjoint name common).mp (List.disjoint_symm hdisj) heq
  · intro hempty
    refine ⟨fun layer _ => nodup_applied _ layer, ?_, List.pairwise_singleton _ _, ?_⟩
    · apply h.pairwise_join.imp
      intro a b hne
      exact List.disjoint_symm ((hdisjoint a b).mpr fun heq => absurd heq hne)
    · intro name hmem other hother
      rw [List.mem_singleton.mp hother]
      exact List.disjoint_symm ((hdisjoint name common).mpr (hempty name hmem))

theorem repeatsCommon_iff {boards : List Text} (hname : isComponentName component = true)
    (hchain : boardChain t configRoot board = .ok (boards ++ [common]))
    (hvalid : ¬ InvalidBoard board) (h : Walking t configRoot board boards []) :
    RepeatsCommon t configRoot board component ↔
      ∃ name ∈ boards, join configRoot name = join configRoot common ∧
        applied t configRoot component (boards ++ [common]) name ≠ [] := by
  have hsplit : ∀ name ∈ boards, join configRoot name = join configRoot common →
      ((∃ path ∈ ownPatches t (patchDir configRoot common component), ∀ upper,
        Reaches t configRoot board upper → TransGen (Inherits t configRoot) upper name →
          fileName path ∉ mentioned t (patchDir configRoot upper component)) ↔
        applied t configRoot component (boards ++ [common]) name ≠ []) := by
    intro name hmem heq
    obtain ⟨above, below, rfl⟩ := List.append_of_mem hmem
    have hdir : patchDir configRoot name component = patchDir configRoot common component := by
      rw [patchDir_eq hname, patchDir_eq hname, heq]
    rw [ne_eq, List.eq_nil_iff_forall_not_mem, not_forall_not, ← hdir]
    apply exists_congr
    intro path
    rw [mem_applied_of_split hname h]
    apply and_congr_right
    intro _
    constructor
    · intro hfree upper hupper
      have habove := (h.mem_above_iff hvalid).mp hupper
      exact hfree upper habove.1 habove.2
    · intro hfree upper hreach hleads
      exact hfree upper ((h.mem_above_iff hvalid).mpr ⟨hreach, hleads⟩)
  constructor
  · rintro ⟨-, -, name, hreach, heq, hpath⟩
    have hmem := (h.reaches_iff hvalid).mp hreach
    exact ⟨name, hmem, heq, (hsplit name hmem heq).mp hpath⟩
  · intro ⟨name, hmem, heq, hne⟩
    exact ⟨hname, ⟨_, hchain⟩, name, (h.reaches_iff hvalid).mpr hmem, heq,
      (hsplit name hmem heq).mpr hne⟩

/-- The layers of a board make of its patches what they are for, unless the common layer is
inherited by name and one of its patches is not mentioned above it. -/
theorem patches_layered (t : Tree) (configRoot : Path) (board component : Text) :
    Layered t configRoot board component ↔ ¬ RepeatsCommon t configRoot board component := by
  constructor
  · intro hlayered hrepeats
    obtain ⟨hname, ⟨chain, hchain⟩, -⟩ := id hrepeats
    obtain ⟨hvalid, boards, rfl, hwalk⟩ := walking_of_ok hchain
    have honce := hlayered.once _ (patchFiles_eq hname hchain)
    obtain ⟨name, hmem, heq, hne⟩ := (repeatsCommon_iff hname hchain hvalid hwalk).mp hrepeats
    exact hne ((nodup_names_iff hname hwalk).mp honce name hmem heq)
  · intro hrepeats
    refine ⟨fun base chain hvalid hdir hbase hchain => patchFiles_cons hvalid hdir hbase hchain,
      ?_, ?_, ?_⟩
    · intro paths hpaths
      obtain ⟨hname, chain, hchain, rfl⟩ := patches_ok hpaths
      obtain ⟨hvalid, boards, rfl, hwalk⟩ := walking_of_ok hchain
      rw [repeatsCommon_iff hname hchain hvalid hwalk] at hrepeats
      apply (nodup_names_iff hname hwalk).mpr
      intro name hmem heq
      by_contra hne
      exact hrepeats ⟨name, hmem, heq, hne⟩
    · intro chain paths hchain hpaths path
      obtain ⟨-, chain', hchain', rfl⟩ := patches_ok hpaths
      obtain rfl := Except.ok.inj (hchain.symm.trans hchain')
      rw [mem_flatMap_applied]
      exact Stack.mem_overlay_iff
    · intro chain paths hchain hpaths
      obtain ⟨-, chain', hchain', rfl⟩ := patches_ok hpaths
      obtain rfl := Except.ok.inj (hchain.symm.trans hchain')
      exact ⟨applied t configRoot component chain, applied_sublist chain, rfl⟩

def patchedRoot : Path := ["configs".toList]

def patchedFile : Path := patchedRoot ++ [common, "patches".toList, "linux".toList, "1.patch".toList]

/-- The board `c` inherits from `b`, and `b` from the common layer by its name. -/
def patchedTree : Tree where
  files :=
    [(patchedRoot ++ ["c".toList, "board.mk".toList], encodeUtf8 "BASE_BOARD=b".toList),
      (patchedRoot ++ ["b".toList, "board.mk".toList], encodeUtf8 "BASE_BOARD=common".toList),
      (patchedFile, [])]
  dirs :=
    [[], patchedRoot, patchedRoot ++ ["c".toList], patchedRoot ++ ["b".toList],
      patchedRoot ++ [common], patchedRoot ++ [common, "patches".toList],
      patchedRoot ++ [common, "patches".toList, "linux".toList]]
  nodup := by decide
  root_mem := by decide
  plain := by decide
  parent_mem := by decide
  disjoint := by decide

/-- A board with a valid base applies a patch of the common layer twice. -/
theorem patches_not_layered :
    ∃ (t : Tree) (configRoot : Path) (board base component : Text) (chain : List Text)
      (patch : Path), ¬ InvalidBoard board ∧ t.isDir (join configRoot board) = true ∧
        Assigns t configRoot board base ∧ boardChain t configRoot base = .ok chain ∧
        patchFiles t configRoot board component = .ok [patch, patch] ∧
        ¬ Layered t configRoot board component := by
  have hpatches : patchFiles patchedTree patchedRoot "c".toList "linux".toList =
      .ok [patchedFile, patchedFile] := by decide
  refine ⟨patchedTree, patchedRoot, "c".toList, "b".toList, "linux".toList,
    ["b".toList, common, common], patchedFile, by decide, by decide, ?_, by decide, hpatches, ?_⟩
  · show baseBoard patchedTree patchedRoot "c".toList = .ok "b".toList
    decide
  · intro hlayered
    exact absurd (hlayered.once _ hpatches) (by simp)

end Sg200x.Ci
