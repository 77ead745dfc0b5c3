import Mathlib.Algebra.Ring.Nat
import Mathlib.Data.List.Dedup
import Sg200x.Ci.Cache
import Sg200x.Library.Delimited

/-!
# What a digest separates

The stream consists of records: a name and a content, each with a zero byte after it.  Names
have no zero byte and contents may have some.
-/

namespace Sg200x.Ci

open Library.Listing Library.Delimited

/-- The files that the inputs reach, whatever their order. -/
def reached (t : Tree) (paths : List Path) : Set (Path × Bytes) :=
  {file | ∃ path ∈ paths, file ∈ hashedFiles t path}

/-- The files in the order in which they are hashed. -/
def fedFiles (t : Tree) (paths : List Path) : List (Path × Bytes) :=
  (sortPaths paths).flatMap (hashedFiles t)

def record (repo : Path) (file : Path × Bytes) : Bytes × Bytes := (hashedName repo file.1, file.2)

/-- The zero-terminated fields: names, and the pieces of contents between zero bytes. -/
def fields (repo : Path) (files : List (Path × Bytes)) : List Bytes :=
  (files.map (record repo)).flatMap (recordFields 0)

/-- How many fields each file has. -/
def cuts (repo : Path) (files : List (Path × Bytes)) : List ℕ :=
  (files.map (record repo)).map fun r => (recordFields 0 r).length

/-- The same fields make other files: they are cut elsewhere, or two paths are spelled alike
once `\` is replaced. -/
def Ambiguous (repo : Path) (files others : List (Path × Bytes)) : Prop :=
  fields repo files = fields repo others ∧
    (cuts repo files ≠ cuts repo others ∨ files.map Prod.fst ≠ others.map Prod.fst)

variable {t u : Tree} {repo path : Path} {paths : List Path} {file : Path × Bytes}

theorem digestStream_eq_recordStream :
    digestStream t repo paths = recordStream 0 ((fedFiles t paths).map (record repo)) := by
  rw [digestStream, fedFiles, recordStream, List.flatMap_map, List.flatMap_assoc]
  rfl

theorem mem_inputFiles_iff :
    file ∈ inputFiles t path ↔
      ∃ rest, file.1 = path ++ rest ∧ parent ∉ rest ∧ t.content file.1 = some file.2 := by
  rw [inputFiles]
  cases hcontent : t.content path with
  | none => rw [mem_sortBy, Tree.mem_below_iff]
  | some data =>
      rw [List.mem_singleton]
      constructor
      · rintro rfl
        exact ⟨[], by simp, by simp, hcontent⟩
      · rintro ⟨rest, hfile, -, hmore⟩
        obtain rfl := Tree.eq_nil_of_content hcontent (hfile ▸ hmore)
        rw [List.append_nil] at hfile
        rw [hfile, hcontent, Option.some.injEq] at hmore
        exact Prod.ext hfile hmore.symm

theorem mem_hashedFiles_iff :
    file ∈ hashedFiles t path ↔
      (∃ rest, file.1 = path ++ rest ∧ parent ∉ rest) ∧ t.content file.1 = some file.2 ∧
        excluded file.1 = false := by
  rw [hashedFiles, List.mem_filter, mem_inputFiles_iff]
  constructor
  · rintro ⟨⟨rest, hfile, hdown, hcontent⟩, hkept⟩
    exact ⟨⟨rest, hfile, hdown⟩, hcontent, by simpa using hkept⟩
  · rintro ⟨⟨rest, hfile, hdown⟩, hcontent, hkept⟩
    exact ⟨⟨rest, hfile, hdown, hcontent⟩, by simp [hkept]⟩

theorem nodup_inputFiles : (inputFiles t path).Nodup := by
  rw [inputFiles]
  cases t.content path with
  | none => exact nodup_sortBy (Tree.nodup_below path)
  | some data => exact List.nodup_singleton _

theorem pairwise_inputFiles : (inputFiles t path).Pairwise fun a b => a.1 ≤ b.1 := by
  rw [inputFiles]
  cases t.content path with
  | none => exact pairwise_sortBy Prod.fst _
  | some data => exact List.pairwise_singleton _ _

/-- The files of an input that a test selects depend on nothing but which files there are. -/
theorem filter_inputFiles_congr {keep : Path × Bytes → Bool}
    (h : ∀ file, file ∈ (inputFiles t path).filter keep ↔
      file ∈ (inputFiles u path).filter keep) :
    (inputFiles t path).filter keep = (inputFiles u path).filter keep := by
  apply eq_of_pairwise_of_mem_iff (pairwise_inputFiles.filter _) (pairwise_inputFiles.filter _)
    (nodup_inputFiles.filter _) (nodup_inputFiles.filter _) _ h
  intro a ha b hb hkey
  obtain ⟨-, -, -, hcontent⟩ := mem_inputFiles_iff.mp (List.mem_of_mem_filter ha)
  obtain ⟨-, -, -, hcontent'⟩ := mem_inputFiles_iff.mp (List.mem_of_mem_filter hb)
  rw [hkey, hcontent', Option.some.injEq] at hcontent
  exact Prod.ext hkey hcontent.symm

theorem hashedFiles_congr
    (h : ∀ file, file ∈ hashedFiles t path ↔ file ∈ hashedFiles u path) :
    hashedFiles t path = hashedFiles u path :=
  filter_inputFiles_congr h

theorem mem_fedFiles_iff : file ∈ fedFiles t paths ↔ file ∈ reached t paths := by
  simp [fedFiles, reached, sortPaths]

/-- A collection of files has one order. -/
theorem fedFiles_eq_iff : fedFiles t paths = fedFiles u paths ↔ reached t paths = reached u paths := by
  constructor
  · intro h
    ext file
    rw [← mem_fedFiles_iff, ← mem_fedFiles_iff, h]
  · intro h
    apply List.flatMap_congr
    intro path hpath
    have hinput : path ∈ paths := by simpa [sortPaths] using hpath
    apply hashedFiles_congr
    intro file
    have hone : ∀ {v w : Tree}, reached v paths = reached w paths →
        file ∈ hashedFiles v path → file ∈ hashedFiles w path := by
      intro v w heq hfile
      have hreached : file ∈ reached w paths := heq ▸ ⟨path, hinput, hfile⟩
      obtain ⟨other, -, hother⟩ := hreached
      exact mem_hashedFiles_iff.mpr
        ⟨(mem_hashedFiles_iff.mp hfile).1, (mem_hashedFiles_iff.mp hother).2⟩
    exact ⟨hone h, hone h.symm⟩

/-! ## Names -/

theorem zero_notMem_utf8EncodeChar {c : Char} (hc : c ≠ '\x00') :
    0 ∉ String.utf8EncodeChar c := by
  have hpos : 0 < c.val.toNat := by
    rw [Nat.pos_iff_ne_zero]
    intro hzero
    apply hc
    apply Char.ext
    exact UInt32.toNat_inj.mp hzero
  have hbound : c.val.toNat < 0x110000 := by
    have := c.valid
    rcases this with h | h <;> omega
  have hbyte : ∀ n : ℕ, (0 = UInt8.ofNat n) ↔ n % 256 = 0 := by
    intro n
    rw [← UInt8.toNat_inj, UInt8.toNat_ofNat, eq_comm]
    rfl
  fun_cases String.utf8EncodeChar c <;>
    · simp only [List.mem_cons, List.not_mem_nil, or_false, hbyte]
      omega

theorem zero_notMem_encodeUtf8 {text : Text} (h : '\x00' ∉ text) : 0 ∉ encodeUtf8 text := by
  intro hzero
  obtain ⟨c, hc, hmem⟩ := List.mem_flatMap.mp hzero
  exact zero_notMem_utf8EncodeChar (fun heq => h (heq ▸ hc)) hmem

theorem nul_notMem_intercalate {path : Path} (h : ∀ name ∈ path, '\x00' ∉ name) :
    '\x00' ∉ ['/'].intercalate path := by
  induction path with
  | nil => simp
  | cons name path ih =>
      cases path with
      | nil => simpa using h name
      | cons next rest =>
          rw [List.intercalate_cons_cons]
          have hrest := ih fun other hother => h other (List.mem_cons_of_mem _ hother)
          simp [h name (by simp), hrest]

theorem nul_notMem_relativeText (h : ∀ name ∈ path, '\x00' ∉ name) :
    '\x00' ∉ relativeText repo path := by
  rw [relativeText]
  by_cases hbelow : repo <+: path
  · by_cases hroot : path.length = repo.length
    · rw [if_pos hbelow, if_pos hroot]
      decide
    · rw [if_pos hbelow, if_neg hroot]
      exact nul_notMem_intercalate fun name hname => h name (List.mem_of_mem_drop hname)
  · rw [if_neg hbelow, pathText, List.mem_cons, not_or]
    exact ⟨by decide, nul_notMem_intercalate h⟩

theorem zero_notMem_hashedName {data : Bytes} (h : t.content path = some data) :
    0 ∉ hashedName repo path := by
  apply zero_notMem_encodeUtf8
  intro hmem
  obtain ⟨c, hc, hzero⟩ := List.mem_map.mp hmem
  have hnames : ∀ name ∈ path, '\x00' ∉ name := by
    intro name hname
    rcases Tree.plain_of_content h name hname with rfl | hplain
    · decide
    · exact hplain.2.2.2.2
  apply nul_notMem_relativeText hnames
  by_cases hslash : c = '\\'
  · simp [hslash] at hzero
  · rw [if_neg hslash] at hzero
    exact hzero ▸ hc

theorem zero_notMem_record {r : Bytes × Bytes} (h : r ∈ (fedFiles t paths).map (record repo)) :
    0 ∉ r.1 := by
  obtain ⟨file, hfile, rfl⟩ := List.mem_map.mp h
  obtain ⟨path, -, hhashed⟩ := mem_fedFiles_iff.mp hfile
  exact zero_notMem_hashedName (mem_hashedFiles_iff.mp hhashed).2.1

theorem digestStream_eq_iff {others : List Path} :
    digestStream t repo paths = digestStream u repo others ↔
      fields repo (fedFiles t paths) = fields repo (fedFiles u others) := by
  rw [digestStream_eq_recordStream, digestStream_eq_recordStream]
  exact recordStream_eq_iff (fun r => zero_notMem_record) fun r => zero_notMem_record

/-- The same fields, cut alike and under the same paths, come from the same files. -/
theorem files_eq_of_fields {files others : List (Path × Bytes)}
    (hfields : fields repo files = fields repo others)
    (hcuts : cuts repo files = cuts repo others)
    (hpaths : files.map Prod.fst = others.map Prod.fst) : files = others := by
  have hrecords := congrArg (List.map Prod.snd) (eq_of_fields_eq hfields hcuts)
  simp only [List.map_map] at hrecords
  have hzip : ∀ l : List (Path × Bytes), l = (l.map Prod.fst).zip (l.map Prod.snd) := by
    intro l
    rw [List.zip_map', List.map_id']
  calc files = (files.map Prod.fst).zip (files.map Prod.snd) := hzip files
    _ = (others.map Prod.fst).zip (others.map Prod.snd) := by rw [hpaths, show
          files.map Prod.snd = others.map Prod.snd from hrecords]
    _ = others := (hzip others).symm

theorem encodeUtf8_injective : Function.Injective encodeUtf8 := by
  intro text other h
  have hbytes : text.utf8Encode = other.utf8Encode := congrArg List.toByteArray h
  have hdecode := congrArg ByteArray.utf8Decode? hbytes
  rw [List.utf8Decode?_utf8Encode, List.utf8Decode?_utf8Encode, Option.some.injEq] at hdecode
  simpa using congrArg Array.toList hdecode

/-- The parts of a path have no slash. -/
def Slashless (path : Path) : Prop := ∀ name ∈ path, name ≠ [] ∧ name ≠ ".".toList ∧ '/' ∉ name

theorem slashless_of_content {data : Bytes} (h : t.content path = some data) : Slashless path := by
  intro name hname
  rcases Tree.plain_of_content h name hname with rfl | hplain
  · decide
  · exact ⟨hplain.1, hplain.2.1, hplain.2.2.2.1⟩

theorem intercalate_injective_of_slashless {path other : Path} (hpath : Slashless path)
    (hother : Slashless other) (h : ['/'].intercalate path = ['/'].intercalate other) :
    path = other := by
  have hempty : ∀ {p : Path}, Slashless p → ['/'].intercalate p = [] → p = [] := by
    intro p hp heq
    cases p with
    | nil => rfl
    | cons name p =>
        cases p with
        | nil => exact absurd (by simpa using heq) (hp name (by simp)).1
        | cons next rest => simp [List.intercalate_cons_cons] at heq
  by_cases hnil : path = []
  · rw [hnil, List.intercalate_nil] at h
    rw [hnil, hempty hother h.symm]
  · have hne : other ≠ [] := by
      rintro rfl
      exact hnil (hempty hpath h)
    rw [← List.splitOn_intercalate '/' (fun name hn => (hpath name hn).2.2) hnil, h,
      List.splitOn_intercalate '/' (fun name hn => (hother name hn).2.2) hne]

theorem head_intercalate_ne_slash (h : Slashless path) : (['/'].intercalate path).head? ≠ some '/' := by
  cases path with
  | nil => simp
  | cons name path =>
      obtain ⟨hne, -, hslash⟩ := h name (by simp)
      cases name with
      | nil => exact absurd rfl hne
      | cons c rest =>
          rw [List.mem_cons, not_or] at hslash
          cases path with
          | nil => simpa using Ne.symm hslash.1
          | cons next more => simpa [List.intercalate_cons_cons] using Ne.symm hslash.1

theorem intercalate_ne_dot (h : Slashless path) : ['/'].intercalate path ≠ ".".toList := by
  intro hdot
  cases path with
  | nil => simp at hdot
  | cons name path =>
      obtain ⟨hne, hname, -⟩ := h name (by simp)
      cases path with
      | nil => exact hname (by simpa using hdot)
      | cons next rest =>
          rw [List.intercalate_cons_cons] at hdot
          have hlength := congrArg List.length hdot
          have hpos : 0 < name.length := List.length_pos_iff.mpr hne
          simp only [List.length_append, List.length_cons, List.length_nil] at hlength
          have hone : ".".toList.length = 1 := by decide
          omega

theorem relativeText_injective {path other : Path} (hpath : Slashless path)
    (hother : Slashless other) (h : relativeText repo path = relativeText repo other) :
    path = other := by
  have hdrop : ∀ {p : Path}, Slashless p → Slashless (p.drop repo.length) :=
    fun hp name hn => hp name (List.mem_of_mem_drop hn)
  have habsolute : ∀ {p : Path}, Slashless p → repo <+: p → ∀ q : Path,
      relativeText repo p ≠ pathText q := by
    intro p hp hbelow q heq
    have hhead := congrArg List.head? heq
    rw [relativeText, if_pos hbelow, pathText, List.head?_cons] at hhead
    by_cases hroot : p.length = repo.length
    · rw [if_pos hroot] at hhead
      exact absurd hhead (by decide)
    · rw [if_neg hroot] at hhead
      exact head_intercalate_ne_slash (hdrop hp) hhead
  by_cases hp : repo <+: path <;> by_cases ho : repo <+: other
  · obtain ⟨rest, rfl⟩ := hp
    obtain ⟨rest', rfl⟩ := ho
    have hrest := hdrop hpath
    have hrest' := hdrop hother
    simp only [relativeText, List.prefix_append, if_true, List.length_append, List.drop_left,
      Nat.add_eq_left, List.length_eq_zero_iff] at h hrest hrest'
    by_cases hnil : rest = [] <;> by_cases hnil' : rest' = []
    · rw [hnil, hnil']
    · rw [if_pos hnil, if_neg hnil'] at h
      exact absurd h.symm (intercalate_ne_dot hrest')
    · rw [if_neg hnil, if_pos hnil'] at h
      exact absurd h (intercalate_ne_dot hrest)
    · rw [if_neg hnil, if_neg hnil'] at h
      rw [intercalate_injective_of_slashless hrest hrest' h]
  · rw [show relativeText repo other = pathText other from if_neg ho] at h
    exact absurd h (habsolute hpath hp other)
  · rw [show relativeText repo path = pathText path from if_neg hp] at h
    exact absurd h.symm (habsolute hother ho path)
  · rw [show relativeText repo other = pathText other from if_neg ho,
      show relativeText repo path = pathText path from if_neg hp, pathText, pathText,
      List.cons.injEq] at h
    exact intercalate_injective_of_slashless hpath hother h.2

/-- A text under a path without `\`. -/
def IsText (file : Path × Bytes) : Prop := 0 ∉ file.2 ∧ ∀ name ∈ file.1, '\\' ∉ name

theorem backslash_notMem_relativeText (h : ∀ name ∈ path, '\\' ∉ name) :
    '\\' ∉ relativeText repo path := by
  have hjoin : ∀ p : Path, (∀ name ∈ p, '\\' ∉ name) → '\\' ∉ ['/'].intercalate p := by
    intro p hp
    induction p with
    | nil => simp
    | cons name p ih =>
        cases p with
        | nil => simpa using hp name
        | cons next rest =>
            rw [List.intercalate_cons_cons]
            have hrest := ih fun other hother => hp other (List.mem_cons_of_mem _ hother)
            simp [hp name (by simp), hrest]
  rw [relativeText]
  split_ifs with hbelow hroot
  · decide
  · exact hjoin _ fun name hname => h name (List.mem_of_mem_drop hname)
  · rw [pathText, List.mem_cons, not_or]
    exact ⟨by decide, hjoin _ h⟩

theorem hashedName_injective {path other : Path} (hpath : Slashless path)
    (hother : Slashless other) (hclean : ∀ name ∈ path, '\\' ∉ name)
    (hclean' : ∀ name ∈ other, '\\' ∉ name) (h : hashedName repo path = hashedName repo other) :
    path = other := by
  have hid : ∀ text : Text, '\\' ∉ text → (text.map fun c => if c = '\\' then '/' else c) = text := by
    intro text htext
    refine (List.map_congr_left fun c hc => ?_).trans (List.map_id text)
    rw [if_neg fun heq : c = '\\' => htext (heq ▸ hc), id_eq]
  have htexts := encodeUtf8_injective h
  rw [hid _ (backslash_notMem_relativeText hclean),
    hid _ (backslash_notMem_relativeText hclean')] at htexts
  exact relativeText_injective hpath hother htexts

theorem cuts_of_text {files : List (Path × Bytes)} (h : ∀ file ∈ files, IsText file) :
    cuts repo files = List.replicate files.length 2 := by
  rw [cuts, List.map_map, List.eq_replicate_iff]
  refine ⟨by simp, ?_⟩
  intro n hn
  obtain ⟨file, hfile, rfl⟩ := List.mem_map.mp hn
  simp [recordFields, record, List.splitOn_eq_singleton (h file hfile).1]

theorem length_fields (files : List (Path × Bytes)) :
    (fields repo files).length = (cuts repo files).sum := by
  rw [fields, cuts, List.length_flatMap]

/-- Texts are told apart. -/
theorem not_ambiguous_of_text (hone : ∀ file ∈ fedFiles t paths, IsText file)
    (htwo : ∀ file ∈ fedFiles u paths, IsText file) :
    ¬ Ambiguous repo (fedFiles t paths) (fedFiles u paths) := by
  rintro ⟨hfields, hdiffers⟩
  have hcount : (fedFiles t paths).length = (fedFiles u paths).length := by
    have hlength := congrArg List.length hfields
    rw [length_fields, length_fields, cuts_of_text hone, cuts_of_text htwo,
      List.sum_replicate_nat, List.sum_replicate_nat] at hlength
    omega
  have hcuts : cuts repo (fedFiles t paths) = cuts repo (fedFiles u paths) := by
    rw [cuts_of_text hone, cuts_of_text htwo, hcount]
  rcases hdiffers with hcut | hpaths
  · exact hcut hcuts
  · apply hpaths
    have hrecords := eq_of_fields_eq hfields hcuts
    have hslashless : ∀ {v : Tree} {file : Path × Bytes}, file ∈ fedFiles v paths →
        Slashless file.1 := by
      intro v file hfile
      obtain ⟨path, -, hhashed⟩ := mem_fedFiles_iff.mp hfile
      exact slashless_of_content (mem_hashedFiles_iff.mp hhashed).2.1
    apply List.ext_getElem
    · simpa using hcount
    · intro i hi hi'
      rw [List.length_map] at hi hi'
      rw [List.getElem_map, List.getElem_map]
      have hmem := List.getElem_mem hi
      have hmem' := List.getElem_mem hi'
      have hrecord : record repo (fedFiles t paths)[i] = record repo (fedFiles u paths)[i] := by
        have hget := congrArg (fun l => l[i]?) hrecords
        simpa [List.getElem?_map, List.getElem?_eq_getElem hi,
          List.getElem?_eq_getElem hi'] using hget
      exact hashedName_injective (hslashless hmem) (hslashless hmem') (hone _ hmem).2
        (htwo _ hmem').2 (congrArg Prod.fst hrecord)

end Sg200x.Ci
