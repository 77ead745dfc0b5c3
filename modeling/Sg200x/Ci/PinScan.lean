import Sg200x.Ci.Plan
import Sg200x.Library.Window

/-!
# The scan for pins

`file_occurrences` of `scripts/ci/validate.py`: the values whose needle occurs in a file that is
read in chunks.
-/

namespace Sg200x.Ci

open Library.Window

/-- A dictionary of needles; `max` and the overlap need one, and no needle is empty. -/
structure Needles where
  items : List (Text × Bytes)
  nodup : (items.map Prod.fst).Nodup
  nonempty : items ≠ []
  needle_ne : ∀ item ∈ items, item.2 ≠ []

/-- The loop over `needles.items()`. -/
def searchContent (found : List Text) (content : Bytes) (items : List (Text × Bytes)) : List Text :=
  items.foldl (fun found item =>
    if item.1 ∉ found ∧ item.2 <:+: content then found ++ [item.1] else found) found

def Needles.overlap (needles : Needles) : ℕ :=
  (needles.items.map fun item => item.2.length).foldl max 0 - 1

/-- The loop over what `stream.read` returns. -/
def scanLoop (needles : Needles) : List Text → Bytes → List Bytes → List Text
  | found, _, [] => found
  | found, tail, chunk :: reads =>
      if chunk = [] then found
      else
        let content := tail ++ chunk
        let found := searchContent found content needles.items
        if found.length = needles.items.length then found
        else scanLoop needles found
          (if needles.overlap ≠ 0 then content.rtake needles.overlap else []) reads

def fileOccurrences (needles : Needles) (reads : List Bytes) : List Text :=
  scanLoop needles [] [] reads

/-- What `stream.read(size)` returns from the start of a file to its end: at least one byte and at
most `size` bytes each time. -/
structure Reads (size : ℕ) (content : Bytes) (reads : List Bytes) : Prop where
  flatten : reads.flatten = content
  chunk_ne : ∀ chunk ∈ reads, chunk ≠ []
  chunk_le : ∀ chunk ∈ reads, chunk.length ≤ size

/-- The values whose needle occurs. -/
def Occurs (needles : Needles) (content : Bytes) (value : Text) : Prop :=
  ∃ needle, (value, needle) ∈ needles.items ∧ needle <:+: content

/-- The values that have been found in what has been read. -/
structure Found (needles : Needles) (content : Bytes) (found : List Text) : Prop where
  nodup : found.Nodup
  mem_iff : ∀ value, value ∈ found ↔ Occurs needles content value

variable {needles : Needles} {found : List Text} {content read : Bytes}

theorem mem_searchContent {items : List (Text × Bytes)} {value : Text} :
    value ∈ searchContent found content items ↔
      value ∈ found ∨ ∃ needle, (value, needle) ∈ items ∧ needle <:+: content := by
  induction items generalizing found with
  | nil => simp [searchContent]
  | cons item items ih =>
      have hstep : value ∈ (if item.1 ∉ found ∧ item.2 <:+: content then found ++ [item.1] else found) ↔
          value ∈ found ∨ (value = item.1 ∧ item.2 <:+: content) := by
        split_ifs with h
        · rw [List.mem_append, List.mem_singleton, and_iff_left h.2]
        · rw [not_and_or, not_not] at h
          rcases h with hold | hout
          · constructor
            · exact Or.inl
            · rintro (hmem | ⟨heq, -⟩)
              · exact hmem
              · rwa [heq]
          · rw [or_iff_left (fun hboth => hout hboth.2)]
      rw [searchContent, List.foldl_cons, ← searchContent, ih, hstep, or_assoc]
      apply or_congr_right
      constructor
      · rintro (⟨heq, hin⟩ | ⟨needle, hmem, hin⟩)
        · exact ⟨item.2, by rw [heq]; exact List.mem_cons_self, hin⟩
        · exact ⟨needle, List.mem_cons_of_mem _ hmem, hin⟩
      · intro ⟨needle, hmem, hin⟩
        rcases List.mem_cons.mp hmem with heq | hrest
        · rw [← heq]
          exact Or.inl ⟨rfl, hin⟩
        · exact Or.inr ⟨needle, hrest, hin⟩

theorem nodup_searchContent {items : List (Text × Bytes)} (h : found.Nodup) :
    (searchContent found content items).Nodup := by
  induction items generalizing found with
  | nil => exact h
  | cons item items ih =>
      rw [searchContent, List.foldl_cons, ← searchContent]
      apply ih
      split_ifs with hnew
      · exact List.nodup_append.mpr ⟨h, by simp, by
          intro a ha b hb heq
          rw [List.mem_singleton] at hb
          exact hnew.1 (hb ▸ heq ▸ ha)⟩
      · exact h

theorem length_le_overlap {value : Text} {needle : Bytes} (h : (value, needle) ∈ needles.items) :
    needle.length ≤ needles.overlap + 1 := by
  have hmax : ∀ (lengths : List ℕ) (start : ℕ),
      start ≤ lengths.foldl max start ∧ ∀ n ∈ lengths, n ≤ lengths.foldl max start := by
    intro lengths
    induction lengths with
    | nil => simp
    | cons first lengths ih =>
        intro start
        obtain ⟨hstart, hmem⟩ := ih (max start first)
        rw [List.foldl_cons]
        refine ⟨by omega, fun n hn => ?_⟩
        rcases List.mem_cons.mp hn with heq | hrest
        · omega
        · exact hmem n hrest
  have hle := (hmax (needles.items.map fun item => item.2.length) 0).2 needle.length
    (List.mem_map.mpr ⟨(value, needle), h, rfl⟩)
  rw [Needles.overlap]
  omega

/-- The window shows what has come up since the last chunk. -/
theorem occurs_append_iff {chunk : Bytes} {value : Text} :
    Occurs needles (read ++ chunk) value ↔
      Occurs needles read value ∨ Occurs needles (read.rtake needles.overlap ++ chunk) value := by
  rw [Occurs, Occurs, Occurs, ← exists_or]
  apply exists_congr
  intro needle
  rw [← and_or_left]
  apply and_congr_right
  intro hmem
  exact infix_append_iff (length_le_overlap hmem)

theorem Found.search (h : Found needles read found) (chunk : Bytes) :
    Found needles (read ++ chunk)
      (searchContent found (read.rtake needles.overlap ++ chunk) needles.items) where
  nodup := nodup_searchContent h.nodup
  mem_iff value := by
    rw [mem_searchContent, h.mem_iff, occurs_append_iff]
    rfl

/-- Nothing more can be found once every value has been. -/
theorem Found.complete (h : Found needles read found)
    (hall : found.length = needles.items.length) (rest : Bytes) :
    Found needles (read ++ rest) found := by
  have hsubset : found ⊆ needles.items.map Prod.fst := by
    intro value hvalue
    obtain ⟨needle, hmem, -⟩ := (h.mem_iff value).mp hvalue
    exact List.mem_map.mpr ⟨(value, needle), hmem, rfl⟩
  have hperm : found.Perm (needles.items.map Prod.fst) := by
    apply (List.subperm_of_subset h.nodup hsubset).perm_of_length_le
    rw [List.length_map, hall]
  refine ⟨h.nodup, fun value => ?_⟩
  constructor
  · intro hvalue
    exact occurs_append_iff.mpr (Or.inl ((h.mem_iff value).mp hvalue))
  · rintro ⟨needle, hmem, -⟩
    exact hperm.mem_iff.mpr (List.mem_map.mpr ⟨(value, needle), hmem, rfl⟩)

/-- The tail is the end of everything read so far, and what is found is what occurs in it. -/
theorem scanLoop_spec {reads : List Bytes} (hchunks : ∀ chunk ∈ reads, chunk ≠ [])
    (h : Found needles read found) :
    Found needles (read ++ reads.flatten)
      (scanLoop needles found (read.rtake needles.overlap) reads) := by
  induction reads generalizing read found with
  | nil =>
      rw [scanLoop, List.flatten_nil, List.append_nil]
      exact h
  | cons chunk reads ih =>
      have hnext := h.search chunk
      rw [scanLoop, if_neg (hchunks chunk List.mem_cons_self), List.flatten_cons,
        ← List.append_assoc]
      by_cases hall : (searchContent found (read.rtake needles.overlap ++ chunk)
          needles.items).length = needles.items.length
      · rw [if_pos hall]
        exact hnext.complete hall _
      · have htail : (if needles.overlap ≠ 0
            then (read.rtake needles.overlap ++ chunk).rtake needles.overlap else []) =
            (read ++ chunk).rtake needles.overlap := by
          rw [rtake_append]
          split_ifs with hoverlap
          · rfl
          · rw [not_not.mp hoverlap, List.rtake_zero]
        rw [if_neg hall, htail]
        exact ih (fun other hother => hchunks other (List.mem_cons_of_mem _ hother)) hnext

/-- The values found in the chunks are those whose needle occurs in the file. -/
theorem file_occurrences_eq (needles : Needles) {size : ℕ} {content : Bytes} {reads : List Bytes}
    (h : Reads size content reads) :
    (fileOccurrences needles reads).Nodup ∧
      ∀ value, value ∈ fileOccurrences needles reads ↔ Occurs needles content value := by
  have hstart : Found needles [] [] := by
    refine ⟨List.nodup_nil, fun value => ?_⟩
    constructor
    · intro hmem
      exact absurd hmem (by simp)
    · intro ⟨needle, hmem, hin⟩
      exact absurd (List.infix_nil.mp hin) (needles.needle_ne _ hmem)
  have hscan := scanLoop_spec h.chunk_ne hstart
  rw [List.rtake_nil, List.nil_append, h.flatten] at hscan
  exact ⟨hscan.nodup, hscan.mem_iff⟩

def samplePins : Needles where
  items := [("abc123".toList, encodeUtf8 "abc123".toList)]
  nodup := by decide
  nonempty := by decide
  needle_ne := by decide

/-- The pin lies across the two chunks. -/
def sampleReads : List Bytes := [encodeUtf8 "1234567a".toList, encodeUtf8 "bc123\n".toList]

theorem file_occurrences_eq_sample :
    (fileOccurrences samplePins sampleReads).Nodup ∧
      ∀ value, value ∈ fileOccurrences samplePins sampleReads ↔
        Occurs samplePins (encodeUtf8 "1234567abc123\n".toList) value := by
  have hreads : Reads 8 (encodeUtf8 "1234567abc123\n".toList) sampleReads :=
    ⟨by decide, by decide, by decide⟩
  exact file_occurrences_eq samplePins hreads

example : fileOccurrences samplePins sampleReads = ["abc123".toList] := by decide

end Sg200x.Ci
