import Sg200x.Ci.Plan
import Sg200x.Library.Lineage

/-!
# Board inheritance

`board_chain` compares names and reads directories: what a board inherits depends on its
directory alone, and two names may lead to one directory.
-/

namespace Sg200x.Ci

open Library.Lineage Library.Listing Relation

variable {t : Tree} {configRoot : Path} {board : Text}

/-- What `board.mk` assigns to `BASE_BOARD`, or the empty name. -/
def Assigns (t : Tree) (configRoot : Path) (board base : Text) : Prop :=
  baseBoard t configRoot board = .ok base

def Inherits (t : Tree) (configRoot : Path) (board base : Text) : Prop :=
  Assigns t configRoot board base ∧ base ≠ []

def Reaches (t : Tree) (configRoot : Path) : Text → Text → Prop :=
  ReflTransGen (Inherits t configRoot)

/-- A named directory is missing. -/
def MissingBoard (t : Tree) (configRoot : Path) (board : Text) : Prop :=
  ∃ name, Reaches t configRoot board name ∧ t.isDir (join configRoot name) = false

def CyclicBoard (t : Tree) (configRoot : Path) (board : Text) : Prop :=
  ∃ name, Reaches t configRoot board name ∧ TransGen (Inherits t configRoot) name name

/-- Every `board.mk` on the way is a text. -/
def ReadableBoard (t : Tree) (configRoot : Path) (board : Text) : Prop :=
  ∀ name, Reaches t configRoot board name → ∃ base, Assigns t configRoot name base

/-- An inherited name leads to the directory of the common layer. -/
def InheritsCommon (t : Tree) (configRoot : Path) (board : Text) : Prop :=
  ∃ name base, Reaches t configRoot board name ∧ Inherits t configRoot name base ∧
    t.locate (join configRoot base) = t.locate (join configRoot common)

/-- Each board is followed by its base, and the last one has none. -/
def FollowsBases (t : Tree) (configRoot : Path) (boards : List Text) : Prop :=
  (boards ++ [[]]).IsChain (Assigns t configRoot)

def layerDirs (t : Tree) (configRoot : Path) (layers : List Text) : List (Option Path) :=
  layers.map fun layer => t.locate (join configRoot layer)

/-- `board_chain` does what it is for. -/
structure Resolution (t : Tree) (configRoot : Path) (board : Text) : Prop where
  /-- More iterations change nothing. -/
  terminates : ∀ fuel, t.dirs.length + 2 ≤ fuel → ∃ result,
    chainLoop t configRoot fuel [] board = result ∧ result ≠ .error .unfinished ∧
      (¬ InvalidBoard board → boardChain t configRoot board = result)
  outcome : (∃ error, boardChain t configRoot board = .error (.planError error)) ∨
    ∃ boards, boardChain t configRoot board = .ok (boards ++ [common]) ∧
      boards.head? = some board ∧ FollowsBases t configRoot boards ∧
      (layerDirs t configRoot (boards ++ [common])).Nodup
  raises : (∃ error, boardChain t configRoot board = .error (.planError error)) ↔
    InvalidBoard board ∨ MissingBoard t configRoot board ∨ CyclicBoard t configRoot board
  /-- No settings file is read twice. -/
  settings : ∀ paths, boardSettings t configRoot board = .ok paths → paths.Nodup
  /-- No patch is applied twice. -/
  patches : ∀ component paths, patchFiles t configRoot board component = .ok paths → paths.Nodup

/-! ## Directories -/

theorem boardMk_eq (path : Path) : path.slash "board.mk" = path ++ ["board.mk".toList] := rfl

theorem content_congr {path other : Path} (h : t.locate path = t.locate other) (rest : Path) :
    t.content (path ++ rest) = t.content (other ++ rest) := by
  have hlocate : t.locate (path ++ rest) = t.locate (other ++ rest) := by
    simp only [Tree.locate, Tree.walk_append] at h ⊢
    rw [h]
  rw [Tree.content, Tree.content, hlocate]

/-- What a board inherits is written in its directory. -/
theorem assigns_keyed :
    Keyed (Assigns t configRoot) fun name => t.locate (join configRoot name) := by
  intro a b c d hkey hc hd
  have heq : baseBoard t configRoot a = baseBoard t configRoot b := by
    simp only [baseBoard, readAssignments, applyAssignments, boardMk_eq, content_congr hkey]
  exact Except.ok.inj (hc.symm.trans (heq.trans hd))

theorem inherits_unique {a b c : Text} (hb : Inherits t configRoot a b)
    (hc : Inherits t configRoot a c) : b = c :=
  assigns_keyed.unique hb.1 hc.1

/-! ## The loop -/

/-- The loop has followed the bases from the board to the current name. -/
structure Walking (t : Tree) (configRoot : Path) (board : Text) (chain : List Text)
    (current : Text) : Prop where
  follows : (chain ++ [current]).IsChain (Assigns t configRoot)
  nonempty : ∀ name ∈ chain, name ≠ []
  nodup : chain.Nodup
  isDir : ∀ name ∈ chain, t.isDir (join configRoot name) = true
  starts : (chain ++ [current]).head? = some board

/-- How the loop ends. -/
inductive ChainEnd (t : Tree) (configRoot : Path) (board : Text) :
    Except Raised (List Text) → Prop
  | inherited (chain : List Text) (hwalk : Walking t configRoot board chain []) :
      ChainEnd t configRoot board (.ok (chain ++ [common]))
  | cycle (chain : List Text) (current : Text) (hwalk : Walking t configRoot board chain current)
      (hmem : current ∈ chain) :
      ChainEnd t configRoot board (.error (.planError (.inheritanceCycle (chain ++ [current]))))
  | missing (chain : List Text) (current : Text)
      (hwalk : Walking t configRoot board chain current) (hne : current ≠ [])
      (hmissing : t.isDir (join configRoot current) = false) :
      ChainEnd t configRoot board (.error (.planError (.missingBoard (join configRoot current))))
  | undecodable (chain : List Text) (current : Text)
      (hwalk : Walking t configRoot board chain current) (hne : current ≠ [])
      (hraises : baseBoard t configRoot current = .error .unicodeDecodeError) :
      ChainEnd t configRoot board (.error .unicodeDecodeError)

theorem assigns_or_raises (name : Text) :
    (∃ base, Assigns t configRoot name base) ∨
      baseBoard t configRoot name = .error .unicodeDecodeError := by
  simp only [Assigns, baseBoard, readAssignments, applyAssignments, readText]
  cases t.content ((join configRoot name).slash "board.mk") with
  | none => exact Or.inl ⟨_, rfl⟩
  | some data =>
      cases hdecode : decodeUtf8 data with
      | none =>
          right
          simp only [hdecode]
          rfl
      | some text =>
          left
          simp only [hdecode]
          exact ⟨_, rfl⟩

/-- A missing directory assigns nothing. -/
theorem assigns_of_missing {name : Text} (h : t.isDir (join configRoot name) = false) :
    Assigns t configRoot name [] := by
  have hnone : t.content ((join configRoot name).slash "board.mk") = none := by
    by_contra hsome
    obtain ⟨data, hdata⟩ := Option.ne_none_iff_exists'.mp hsome
    rw [boardMk_eq, Tree.content, Option.bind_eq_some_iff] at hdata
    obtain ⟨place, hplace, -⟩ := hdata
    rw [Tree.locate, Tree.walk_append, Option.bind_eq_some_iff] at hplace
    obtain ⟨dir, hdir, hentry⟩ := hplace
    have hmem : dir ∈ t.dirs := by
      by_contra hout
      simp [Tree.walk, hout] at hentry
    rw [Tree.isDir_iff.mpr ⟨dir, hdir, hmem⟩] at h
    exact absurd h (by simp)
  simp only [Assigns, baseBoard, readAssignments, applyAssignments, hnone]
  rfl

theorem Walking.dirs_nodup {chain : List Text} {current : Text}
    (h : Walking t configRoot board chain current) (hfresh : current ∉ chain) :
    (layerDirs t configRoot chain).Nodup := by
  apply nodup_keys assigns_keyed h.follows
  rw [List.nodup_append]
  refine ⟨h.nodup, by simp, ?_⟩
  intro name hname other hother heq
  exact hfresh (List.mem_singleton.mp hother ▸ heq ▸ hname)

theorem length_le_of_dirs_nodup {chain : List Text}
    (hdir : ∀ name ∈ chain, t.isDir (join configRoot name) = true)
    (hnodup : (layerDirs t configRoot chain).Nodup) : chain.length ≤ t.dirs.length := by
  have hsubset : layerDirs t configRoot chain ⊆ t.dirs.map some := by
    intro place hplace
    obtain ⟨name, hname, rfl⟩ := List.mem_map.mp hplace
    obtain ⟨q, hq, hmem⟩ := Tree.isDir_iff.mp (hdir name hname)
    exact List.mem_map.mpr ⟨q, hmem, hq.symm⟩
  have hlength := (List.subperm_of_subset hnodup hsubset).length_le
  simpa [layerDirs] using hlength

/-- Only the last name can have brought a directory back. -/
theorem Walking.length_le {chain : List Text} {current : Text}
    (h : Walking t configRoot board chain current) : chain.length ≤ t.dirs.length + 1 := by
  cases chain using List.reverseRecOn with
  | nil => simp
  | append_singleton boards last =>
      have hnodup := h.nodup
      have hfollows := h.follows.left_of_append
      have hdirs : (layerDirs t configRoot boards).Nodup :=
        nodup_keys assigns_keyed hfollows hnodup
      have hle := length_le_of_dirs_nodup
        (fun name hname => h.isDir name (List.mem_append_left _ hname)) hdirs
      simpa using hle

theorem Walking.start (board : Text) : Walking t configRoot board [] board where
  follows := List.isChain_singleton _
  nonempty := by simp
  nodup := List.nodup_nil
  isDir := by simp
  starts := rfl

theorem Walking.next {chain : List Text} {current base : Text}
    (h : Walking t configRoot board chain current) (hne : current ≠ [])
    (hfresh : current ∉ chain) (hdir : t.isDir (join configRoot current) = true)
    (hbase : Assigns t configRoot current base) :
    Walking t configRoot board (chain ++ [current]) base where
  follows := by
    rw [List.append_assoc, List.singleton_append, List.isChain_append_cons_cons]
    exact ⟨h.follows, hbase, List.isChain_singleton _⟩
  nonempty name hname := by
    rcases List.mem_append.mp hname with hold | hnew
    · exact h.nonempty name hold
    · rwa [List.mem_singleton.mp hnew]
  nodup := by
    rw [List.nodup_append]
    refine ⟨h.nodup, by simp, ?_⟩
    intro name hname other hother heq
    exact hfresh (List.mem_singleton.mp hother ▸ heq ▸ hname)
  isDir name hname := by
    rcases List.mem_append.mp hname with hold | hnew
    · exact h.isDir name hold
    · rwa [List.mem_singleton.mp hnew]
  starts := by
    have hstarts := h.starts
    cases chain with
    | nil => simpa using hstarts
    | cons first rest => simpa using hstarts

theorem chainLoop_ends {chain : List Text} {current : Text} {fuel : ℕ}
    (h : Walking t configRoot board chain current)
    (hfuel : t.dirs.length + 2 ≤ chain.length + fuel) :
    ChainEnd t configRoot board (chainLoop t configRoot fuel chain current) := by
  induction fuel generalizing chain current with
  | zero =>
      have hlength := h.length_le
      omega
  | succ fuel ih =>
      cases current with
      | nil => exact .inherited chain h
      | cons c rest =>
          rw [chainLoop]
          by_cases hmem : c :: rest ∈ chain
          · rw [if_pos hmem]
            exact .cycle chain (c :: rest) h hmem
          · by_cases hdir : t.isDir (join configRoot (c :: rest)) = true
            · rw [if_neg hmem, if_pos hdir]
              have hread : (∃ base, Assigns t configRoot (c :: rest) base) ∨
                  baseBoard t configRoot (c :: rest) = .error .unicodeDecodeError :=
                assigns_or_raises (c :: rest)
              rcases hread with ⟨base, hbase⟩ | hraises
              · rw [show baseBoard t configRoot (c :: rest) = .ok base from hbase]
                apply ih (h.next (by simp) hmem hdir hbase)
                rw [List.length_append, List.length_singleton]
                omega
              · rw [hraises]
                exact .undecodable chain (c :: rest) h (by simp) hraises
            · rw [if_neg hmem, if_neg hdir]
              exact .missing chain (c :: rest) h (by simp) (by simpa using hdir)

theorem boardChain_ends (h : ¬ InvalidBoard board) :
    ChainEnd t configRoot board (boardChain t configRoot board) := by
  rw [boardChain, if_neg h]
  exact chainLoop_ends (Walking.start board) (by simp)

/-- An iteration that is not needed changes nothing. -/
theorem chainLoop_succ {fuel : ℕ} {chain : List Text} {current : Text}
    (h : chainLoop t configRoot fuel chain current ≠ .error .unfinished) :
    chainLoop t configRoot (fuel + 1) chain current = chainLoop t configRoot fuel chain current := by
  induction fuel generalizing chain current with
  | zero =>
      cases current with
      | nil => rfl
      | cons c rest => exact absurd rfl h
  | succ fuel ih =>
      cases current with
      | nil => rfl
      | cons c rest =>
          rw [chainLoop, chainLoop]
          rw [chainLoop] at h
          by_cases hmem : c :: rest ∈ chain
          · rw [if_pos hmem, if_pos hmem]
          · by_cases hdir : t.isDir (join configRoot (c :: rest)) = true
            · rw [if_neg hmem, if_pos hdir] at h
              rw [if_neg hmem, if_pos hdir, if_neg hmem, if_pos hdir]
              cases hbase : baseBoard t configRoot (c :: rest) with
              | error raised => rfl
              | ok base =>
                  rw [hbase] at h
                  exact ih h
            · rw [if_neg hmem, if_neg hdir, if_neg hmem, if_neg hdir]

theorem ChainEnd.ne_unfinished {result : Except Raised (List Text)}
    (h : ChainEnd t configRoot board result) : result ≠ .error .unfinished := by
  cases h <;> simp

theorem chainLoop_stable {fuel : ℕ} (hfuel : t.dirs.length + 2 ≤ fuel) :
    chainLoop t configRoot fuel [] board =
      chainLoop t configRoot (t.dirs.length + 2) [] board := by
  induction fuel, hfuel using Nat.le_induction with
  | base => rfl
  | succ fuel hle ih =>
      rw [← ih]
      apply chainLoop_succ
      exact (chainLoop_ends (Walking.start board) (by simpa using hle)).ne_unfinished

/-! ## What the board reaches -/

theorem Walking.inherits {chain : List Text} {current : Text}
    (h : Walking t configRoot board chain current) : chain.IsChain (Inherits t configRoot) :=
  h.follows.left_of_append.imp_of_mem_imp fun _ _ _ hbase hassigns =>
    ⟨hassigns, h.nonempty _ hbase⟩

theorem Walking.closed {chain : List Text} {current name base : Text}
    (h : Walking t configRoot board chain current) (hname : name ∈ chain)
    (hbase : Inherits t configRoot name base) : base ∈ chain ++ [current] := by
  obtain ⟨next, hnext, hassigns⟩ := exists_successor h.follows hname
  rwa [assigns_keyed.unique hbase.1 hassigns]

theorem Walking.assigns {chain : List Text} {current name : Text}
    (h : Walking t configRoot board chain current) (hname : name ∈ chain) :
    ∃ base, Assigns t configRoot name base := by
  obtain ⟨base, -, hbase⟩ := exists_successor h.follows hname
  exact ⟨base, hbase⟩

theorem Walking.inherits_current {chain : List Text} {current : Text}
    (h : Walking t configRoot board chain current) (hne : current ≠ []) :
    (chain ++ [current]).IsChain (Inherits t configRoot) := by
  refine h.follows.imp_of_mem_imp fun _ other _ hother hassigns => ⟨hassigns, ?_⟩
  rcases List.mem_append.mp hother with hold | hnew
  · exact h.nonempty other hold
  · rwa [List.mem_singleton.mp hnew]

theorem Walking.reaches {chain : List Text} {current name : Text}
    (h : Walking t configRoot board chain current) (hne : current ≠ [])
    (hname : name ∈ chain ++ [current]) : Reaches t configRoot board name := by
  have hchain := h.inherits_current hne
  have hstarts := h.starts
  cases hlist : chain ++ [current] with
  | nil => simp at hlist
  | cons first rest =>
      rw [hlist] at hchain hname hstarts
      obtain rfl : first = board := by simpa using hstarts
      exact reflTransGen_of_mem hchain hname

theorem Walking.cyclic {chain : List Text} {current : Text}
    (h : Walking t configRoot board chain current) (hmem : current ∈ chain) :
    CyclicBoard t configRoot board := by
  have hne := h.nonempty current hmem
  exact ⟨current, h.reaches hne (by simp), transGen_of_mem (h.inherits_current hne) hmem⟩

/-- A walk that has ended starts with the board. -/
theorem Walking.cons_of_ended {chain : List Text} (h : Walking t configRoot board chain [])
    (hvalid : ¬ InvalidBoard board) : ∃ rest, chain = board :: rest := by
  have hstarts := h.starts
  cases chain with
  | nil =>
      have hempty : board = [] := by simpa using hstarts.symm
      exact absurd (Or.inl hempty) hvalid
  | cons first rest =>
      obtain rfl : first = board := by simpa using hstarts
      exact ⟨rest, rfl⟩

theorem Walking.reaches_iff {chain : List Text} {name : Text}
    (h : Walking t configRoot board chain []) (hvalid : ¬ InvalidBoard board) :
    Reaches t configRoot board name ↔ name ∈ chain := by
  obtain ⟨rest, rfl⟩ := h.cons_of_ended hvalid
  constructor
  · intro hreach
    apply mem_of_reflTransGen (S := fun n => n ∈ board :: rest) (by simp) _ hreach
    intro b c hb hbc
    rcases List.mem_append.mp (h.closed hb hbc) with hmem | hempty
    · exact hmem
    · exact absurd (List.mem_singleton.mp hempty) hbc.2
  · intro hmem
    exact reflTransGen_of_mem h.inherits hmem

theorem Walking.not_missing {chain : List Text} (h : Walking t configRoot board chain [])
    (hvalid : ¬ InvalidBoard board) : ¬ MissingBoard t configRoot board := by
  rintro ⟨name, hreach, hmissing⟩
  rw [h.isDir name ((h.reaches_iff hvalid).mp hreach)] at hmissing
  exact absurd hmissing (by simp)

theorem Walking.readable {chain : List Text} (h : Walking t configRoot board chain [])
    (hvalid : ¬ InvalidBoard board) : ReadableBoard t configRoot board :=
  fun _ hreach => h.assigns ((h.reaches_iff hvalid).mp hreach)

theorem Walking.not_cyclic {chain : List Text} (h : Walking t configRoot board chain [])
    (hvalid : ¬ InvalidBoard board) : ¬ CyclicBoard t configRoot board := by
  rintro ⟨name, hreach, hcycle⟩
  have hname := (h.reaches_iff hvalid).mp hreach
  cases hchain : chain using List.reverseRecOn with
  | nil => simp [hchain] at hname
  | append_singleton boards last =>
      subst hchain
      -- The last board has no base, and every board of the chain leads to it.
      have hlast : Assigns t configRoot last [] := by
        have hfollows := h.follows
        rw [List.append_assoc, List.singleton_append, List.isChain_append_cons_cons] at hfollows
        exact hfollows.2.1
      obtain ⟨s, rest, hsplit⟩ := List.append_of_mem hname
      have hinherits := h.inherits
      rw [hsplit] at hinherits
      have hmem : last ∈ name :: rest := by
        have hlast? := congrArg List.getLast? hsplit
        rw [List.getLast?_append, List.getLast?_append] at hlast?
        exact List.mem_of_getLast? (by simpa using hlast?.symm)
      have hend := reflTransGen_of_mem hinherits.right_of_append hmem
      have hends : ∀ base, ¬ Inherits t configRoot last base :=
        fun base hbase => hbase.2 (assigns_keyed.unique hbase.1 hlast)
      exact not_transGen_of_ends (R := Inherits t configRoot)
        (fun hb hc => inherits_unique hb hc) hends hend hcycle

/-! ## The common layer -/

/-- The first name is checked, and does not lead to the common layer. -/
theorem locate_ne_common (hvalid : ¬ InvalidBoard board)
    (hdir : t.isDir (join configRoot board) = true) :
    t.locate (join configRoot board) ≠ t.locate (join configRoot common) := by
  rw [InvalidBoard, not_or, not_or, not_or] at hvalid
  obtain ⟨hne, hcommon, hslash, -⟩ := hvalid
  have hhead : board.head? ≠ some '/' := by
    intro hhead
    exact hslash (List.mem_of_head? hhead)
  have hparts : parts board = if board = ".".toList then [] else [board] := by
    rw [parts, List.splitOn_eq_singleton hslash]
    by_cases hdot : board = ['.'] <;> simp [hdot, hne]
  have hcommonPath : join configRoot common = configRoot ++ [common] := rfl
  have hcommonName : common ≠ parent := by decide
  intro heq
  obtain ⟨place, hplace, hmem⟩ := Tree.isDir_iff.mp hdir
  rw [join, if_neg hhead, hparts] at heq hplace
  cases hroot : t.locate configRoot with
  | none =>
      rw [Tree.locate, Tree.walk_append, ← Tree.locate, hroot] at hplace
      simp at hplace
  | some root =>
      have hwalk : ∀ rest, t.locate (configRoot ++ rest) = t.walk root rest := by
        intro rest
        rw [Tree.locate, Tree.walk_append, ← Tree.locate, hroot]
        rfl
      rw [hcommonPath, hwalk, hwalk] at heq
      rw [hwalk] at hplace
      rw [hplace] at heq
      by_cases hrootDir : root ∈ t.dirs
      · have hright : t.walk root [common] = some (root ++ [common]) := by
          simp [Tree.walk, hrootDir, hcommonName]
        rw [hright, Option.some.injEq] at heq
        have hlength := congrArg List.length heq
        by_cases hdot : board = ".".toList
        · rw [if_pos hdot, Tree.walk, Option.some.injEq] at hplace
          simp [← hplace] at hlength
        · rw [if_neg hdot, Tree.walk, if_pos hrootDir, Tree.walk, Option.some.injEq] at hplace
          by_cases hparent : board = parent
          · rw [if_pos hparent] at hplace
            rw [← hplace] at hlength
            simp at hlength
          · rw [if_neg hparent, heq, List.append_cancel_left_eq] at hplace
            exact hcommon (by simpa using hplace)
      · simp [Tree.walk, hrootDir] at heq

theorem Walking.layerDirs_nodup_iff {chain : List Text}
    (h : Walking t configRoot board chain []) (hvalid : ¬ InvalidBoard board) :
    (layerDirs t configRoot (chain ++ [common])).Nodup ↔
      ¬ InheritsCommon t configRoot board := by
  have hempty : [] ∉ chain := fun hmem => h.nonempty [] hmem rfl
  have hchain := h.dirs_nodup hempty
  have hsplit : (layerDirs t configRoot (chain ++ [common])).Nodup ↔
      ∀ name ∈ chain, t.locate (join configRoot name) ≠ t.locate (join configRoot common) := by
    rw [layerDirs, List.map_append, List.nodup_append]
    constructor
    · intro hnodup name hname heq
      exact hnodup.2.2 _ (List.mem_map_of_mem hname) _ (by simp) heq
    · intro hclear
      refine ⟨hchain, by simp, ?_⟩
      intro place hplace other hother heq
      obtain ⟨name, hname, rfl⟩ := List.mem_map.mp hplace
      apply hclear name hname
      rw [heq]
      simpa using hother
  rw [hsplit]
  constructor
  · rintro hclear ⟨name, base, hreach, hbase, hcommon⟩
    have hbaseReach := (h.reaches_iff hvalid).mp (hreach.tail hbase)
    exact hclear base hbaseReach hcommon
  · intro hclear name hname hcommon
    obtain ⟨rest, rfl⟩ := h.cons_of_ended hvalid
    rcases List.mem_cons.mp hname with rfl | hrest
    · exact locate_ne_common hvalid (h.isDir name hname) hcommon
    · obtain ⟨before, hbefore, hinherits⟩ := exists_predecessor h.inherits hrest
      exact hclear
        ⟨before, name, (h.reaches_iff hvalid).mpr hbefore, hinherits, hcommon⟩

/-! ## What the functions take from the layers -/

theorem nodup_map_of_layerDirs {α : Type} {layers : List Text} {f : Text → α}
    (h : (layerDirs t configRoot layers).Nodup)
    (hf : ∀ a b, f a = f b → t.locate (join configRoot a) = t.locate (join configRoot b)) :
    (layers.map f).Nodup := by
  induction layers with
  | nil => exact List.nodup_nil
  | cons layer layers ih =>
      rw [layerDirs, List.map_cons, List.nodup_cons] at h
      rw [List.map_cons, List.nodup_cons]
      refine ⟨?_, ih h.2⟩
      intro hmem
      obtain ⟨other, hother, heq⟩ := List.mem_map.mp hmem
      exact h.1 (List.mem_map.mpr ⟨other, hother, hf _ _ heq⟩)

theorem boardSettings_eq {chain : List Text} (h : boardChain t configRoot board = .ok chain) :
    boardSettings t configRoot board = .ok ((chain.reverse.filter (· ≠ common)).map fun layer =>
      (join configRoot layer).slash "settings.mk") := by
  rw [boardSettings, applicationLayers, h]
  rfl

theorem nodup_settings {chain : List Text} {paths : List Path}
    (hchain : boardChain t configRoot board = .ok chain)
    (hnodup : (layerDirs t configRoot chain).Nodup)
    (h : boardSettings t configRoot board = .ok paths) : paths.Nodup := by
  rw [boardSettings_eq hchain, Except.ok.injEq] at h
  subst h
  have hlayers : (layerDirs t configRoot (chain.reverse.filter (· ≠ common))).Nodup := by
    have hreverse : (layerDirs t configRoot chain.reverse).Nodup := by
      rw [layerDirs, List.map_reverse, List.nodup_reverse]
      exact hnodup
    exact hreverse.sublist (List.filter_sublist.map _)
  apply nodup_map_of_layerDirs hlayers
  intro a b heq
  have hdirs : join configRoot a = join configRoot b :=
    List.append_cancel_right (show _ ++ ["settings.mk".toList] = _ from heq)
  exact congrArg t.locate hdirs

/-- A selected patch is found under its own name. -/
structure Selection (selected : List (Text × Option Path)) : Prop where
  keys : (selected.map Prod.fst).Nodup
  names : ∀ entry ∈ selected, ∀ path, entry.2 = some path → path.getLastD [] = entry.1

theorem Selection.setDefault {selected : List (Text × Option Path)} (h : Selection selected)
    {key : Text} {value : Option Path}
    (hvalue : ∀ path, value = some path → path.getLastD [] = key) :
    Selection (setDefault selected key value) := by
  rw [Ci.setDefault]
  by_cases hkey : (selected.lookup key).isSome
  · rwa [if_pos hkey]
  · rw [if_neg hkey]
    have hfresh : key ∉ selected.map Prod.fst := by
      rw [Option.not_isSome_iff_eq_none, List.lookup_eq_none_iff] at hkey
      intro hmem
      obtain ⟨entry, hentry, rfl⟩ := List.mem_map.mp hmem
      exact absurd (hkey entry hentry) (by simp)
    constructor
    · rw [List.map_append, List.nodup_append]
      refine ⟨h.keys, by simp, ?_⟩
      intro a ha b hb heq
      exact hfresh ((by simpa using hb : b = key) ▸ heq ▸ ha)
    · intro entry hentry
      rcases List.mem_append.mp hentry with hold | hnew
      · exact h.names entry hold
      · rw [List.mem_singleton.mp hnew]
        exact hvalue

theorem Selection.foldl {α : Type} {entries : List α} {name : α → Text} {value : α → Option Path}
    {selected : List (Text × Option Path)} (h : Selection selected)
    (hvalue : ∀ a path, value a = some path → path.getLastD [] = name a) :
    Selection (entries.foldl (fun s a => Ci.setDefault s (name a) (value a)) selected) := by
  induction entries generalizing selected with
  | nil => exact h
  | cons a entries ih => exact ih (h.setDefault (hvalue a))

theorem Selection.selectLayer {selected : List (Text × Option Path)} (h : Selection selected)
    (component layer : Text) : Selection (selectLayer t configRoot component selected layer) := by
  rw [Ci.selectLayer]
  by_cases hdir : t.isDir (patchDir configRoot layer component) = true
  · rw [if_pos hdir]
    apply Selection.foldl
    · apply h.foldl
      simp
    · intro path other heq
      rw [Option.some.inj heq]
  · rwa [if_neg hdir]

theorem selection (component : Text) (chain : List Text) :
    Selection (chain.foldl (selectLayer t configRoot component) []) := by
  have hfold : ∀ selected, Selection selected →
      Selection (chain.foldl (selectLayer t configRoot component) selected) := by
    induction chain with
    | nil => exact fun _ h => h
    | cons layer chain ih => exact fun _ h => ih _ (h.selectLayer component layer)
  exact hfold [] ⟨List.nodup_nil, by simp⟩

theorem Selection.nodup_paths {selected : List (Text × Option Path)} (h : Selection selected) :
    (selected.filterMap Prod.snd).Nodup := by
  obtain ⟨hkeys, hnames⟩ := h
  induction selected with
  | nil => exact List.nodup_nil
  | cons entry selected ih =>
      rw [List.map_cons, List.nodup_cons] at hkeys
      have hrest := ih hkeys.2 fun other hother => hnames other (List.mem_cons_of_mem _ hother)
      cases hpath : entry.2 with
      | none => rwa [List.filterMap_cons_none hpath]
      | some path =>
          rw [List.filterMap_cons_some hpath, List.nodup_cons]
          refine ⟨?_, hrest⟩
          intro hmem
          obtain ⟨other, hother, heq⟩ := List.mem_filterMap.mp hmem
          have hname := hnames other (List.mem_cons_of_mem _ hother) path heq
          rw [hnames entry (by simp) path hpath] at hname
          exact hkeys.1 (hname ▸ List.mem_map_of_mem hother)

theorem patchDir_eq {component : Text} (h : isComponentName component = true) (layer : Text) :
    patchDir configRoot layer component =
      join configRoot layer ++ ("patches".toList :: parts component) := by
  have hhead : component.head? ≠ some '/' := by
    intro hhead
    have hall := (Bool.and_eq_true_iff.mp h).2
    have hslash := List.all_eq_true.mp hall '/' (List.mem_of_head? hhead)
    exact absurd hslash (by decide)
  rw [patchDir, join, if_neg hhead]
  show join configRoot layer ++ ["patches".toList] ++ parts component = _
  simp

theorem nodup_patches {chain : List Text} {component : Text} {paths : List Path}
    (hchain : boardChain t configRoot board = .ok chain)
    (hnodup : (layerDirs t configRoot chain).Nodup)
    (h : patchFiles t configRoot board component = .ok paths) : paths.Nodup := by
  rw [patchFiles] at h
  by_cases hname : isComponentName component = true
  · have hpaths : paths = chain.reverse.flatMap fun layer => sortBy id
        (((chain.foldl (selectLayer t configRoot component) []).filterMap Prod.snd).filter
          fun path => path.dropLast = patchDir configRoot layer component) := by
      simp only [hname, hchain] at h
      exact (Except.ok.inj h).symm
    rw [hpaths, List.nodup_flatMap]
    constructor
    · intro layer _
      exact nodup_sortBy ((selection component chain).nodup_paths.filter _)
    · have hdirs : (chain.map fun layer => patchDir configRoot layer component).Nodup := by
        apply nodup_map_of_layerDirs hnodup
        intro a b heq
        simp only [patchDir_eq hname] at heq
        exact congrArg t.locate (List.append_cancel_right heq)
      rw [List.pairwise_reverse]
      apply (List.pairwise_map.mp hdirs).imp
      intro a b hne path ha hb
      rw [mem_sortBy, List.mem_filter] at ha hb
      exact hne ((of_decide_eq_true hb.2).symm.trans (of_decide_eq_true ha.2))
  · simp only [hname] at h
    exact absurd h (by simp [throw, throwThe, MonadExceptOf.throw, bind, Except.bind])

/-- The chain of a board that can be resolved. -/
theorem chain_of_ok {chain : List Text} (h : boardChain t configRoot board = .ok chain) :
    ∃ boards, chain = boards ++ [common] ∧
      ∀ name ∈ boards, t.isDir (join configRoot name) = true := by
  have hvalid : ¬ InvalidBoard board := by
    intro hinvalid
    rw [boardChain, if_pos hinvalid] at h
    exact nomatch h
  have hends : ChainEnd t configRoot board (boardChain t configRoot board) :=
    boardChain_ends hvalid
  rw [h] at hends
  cases hends with
  | inherited boards hwalk => exact ⟨boards, rfl, hwalk.isDir⟩

/-- A resolved file lies in a layer of the chain. -/
theorem resolveFile_spec {chain : List Text} {path : Path} {relative : Text}
    (hchain : boardChain t configRoot board = .ok chain)
    (h : resolveFile t configRoot board relative = .ok path) :
    ∃ layer ∈ chain, path = join configRoot layer ++ parts relative ∧
      t.isFile path = true := by
  rw [resolveFile] at h
  by_cases hleaves : leavesLayer relative
  · simp only [hleaves, if_true] at h
    exact nomatch h
  · simp only [hleaves, if_false, hchain] at h
    have hhead : relative.head? ≠ some '/' := fun hhead => hleaves (Or.inl hhead)
    cases hfind : chain.find? fun layer => t.isFile (join (join configRoot layer) relative) with
    | none =>
        simp only [hfind, bind, Except.bind] at h
        exact nomatch h
    | some layer =>
        simp only [hfind, bind, Except.bind, pure, Except.pure, Except.ok.injEq] at h
        have hfile := List.find?_some hfind
        rw [h] at hfile
        refine ⟨layer, List.mem_of_find?_eq_some hfind, ?_, hfile⟩
        rw [← h, join, if_neg hhead]

theorem resolveDirectory_spec {chain : List Text} {path : Path} {relative : Text}
    (hchain : boardChain t configRoot board = .ok chain)
    (h : resolveDirectory t configRoot board relative = .ok path) :
    ∃ layer ∈ chain, path = join (join configRoot layer) relative := by
  rw [resolveDirectory] at h
  by_cases hleaves : leavesLayer relative
  · simp only [hleaves, if_true] at h
    exact nomatch h
  · simp only [hleaves, if_false, hchain] at h
    cases hfind : chain.find? fun layer => t.isDir (join (join configRoot layer) relative) with
    | none =>
        simp only [hfind, bind, Except.bind] at h
        exact nomatch h
    | some layer =>
        simp only [hfind, bind, Except.bind, pure, Except.pure, Except.ok.injEq] at h
        exact ⟨layer, List.mem_of_find?_eq_some hfind, h.symm⟩

theorem patchFiles_spec {chain : List Text} {component : Text} {paths : List Path}
    (hchain : boardChain t configRoot board = .ok chain)
    (h : patchFiles t configRoot board component = .ok paths) :
    ∀ path ∈ paths, ∃ layer ∈ chain, ∃ name,
      path = join configRoot layer ++ "patches".toList :: (parts component ++ [name]) := by
  rw [patchFiles] at h
  by_cases hname : isComponentName component = true
  · simp only [hname, hchain] at h
    have hpaths := Except.ok.inj h
    intro path hpath
    rw [← hpaths] at hpath
    obtain ⟨layer, hlayer, hmem⟩ := List.mem_flatMap.mp hpath
    rw [mem_sortBy, List.mem_filter] at hmem
    have hdir := of_decide_eq_true hmem.2
    rw [patchDir_eq hname] at hdir
    have hne : path ≠ [] := by
      rintro rfl
      simp at hdir
    refine ⟨layer, List.mem_reverse.mp hlayer, path.getLast hne, ?_⟩
    calc path = path.dropLast ++ [path.getLast hne] := (List.dropLast_append_getLast hne).symm
      _ = _ := by rw [hdir]; simp
  · simp only [hname] at h
    exact nomatch h

theorem boardSettings_error {raised : Raised} {paths : List Path}
    (h : boardChain t configRoot board = .error raised) :
    boardSettings t configRoot board ≠ .ok paths := by
  rw [boardSettings, applicationLayers, h]
  exact fun heq => nomatch heq

theorem patchFiles_error {raised : Raised} {component : Text} {paths : List Path}
    (h : boardChain t configRoot board = .error raised) :
    patchFiles t configRoot board component ≠ .ok paths := by
  rw [patchFiles, h]
  by_cases hname : isComponentName component = true <;> simp only [hname] <;>
    exact fun heq => nomatch heq

/-! ## The resolution -/

theorem chainLoop_terminates (board : Text) (fuel : ℕ) (hfuel : t.dirs.length + 2 ≤ fuel) :
    ∃ result, chainLoop t configRoot fuel [] board = result ∧ result ≠ .error .unfinished ∧
      (¬ InvalidBoard board → boardChain t configRoot board = result) := by
  refine ⟨_, rfl, ?_, ?_⟩
  · exact (chainLoop_ends (Walking.start board) (by simpa using hfuel)).ne_unfinished
  · intro hvalid
    rw [chainLoop_stable hfuel, boardChain, if_neg hvalid]

theorem Resolution.of_planError {error : PlanError}
    (h : boardChain t configRoot board = .error (.planError error))
    (hraises : InvalidBoard board ∨ MissingBoard t configRoot board ∨
      CyclicBoard t configRoot board) : Resolution t configRoot board where
  terminates := chainLoop_terminates board
  outcome := Or.inl ⟨error, h⟩
  raises := iff_of_true ⟨error, h⟩ hraises
  settings _ heq := absurd heq (boardSettings_error h)
  patches _ _ heq := absurd heq (patchFiles_error h)

theorem Walking.resolution {chain : List Text} (h : Walking t configRoot board chain [])
    (hvalid : ¬ InvalidBoard board)
    (hchain : boardChain t configRoot board = .ok (chain ++ [common]))
    (hcommon : ¬ InheritsCommon t configRoot board) : Resolution t configRoot board := by
  have hnodup := (h.layerDirs_nodup_iff hvalid).mpr hcommon
  have hstarts : chain.head? = some board := by
    obtain ⟨rest, rfl⟩ := h.cons_of_ended hvalid
    rfl
  refine ⟨chainLoop_terminates board, Or.inr ⟨chain, hchain, hstarts, h.follows, hnodup⟩, ?_,
    fun _ => nodup_settings hchain hnodup, fun _ _ => nodup_patches hchain hnodup⟩
  apply iff_of_false
  · rintro ⟨error, herror⟩
    rw [hchain] at herror
    exact absurd herror (by simp)
  · rintro (hinvalid | hmissing | hcyclic)
    · exact hvalid hinvalid
    · exact h.not_missing hvalid hmissing
    · exact h.not_cyclic hvalid hcyclic

end Sg200x.Ci
