import Sg200x.Cimg.Layout

/-!
# Where the chunks of an image may be programmed

The size that the header of a chunk allows grows with the chunks before it.  The windows stay
apart and within the partition as long as there is at most one full chunk, or two that are the
whole file.
-/

namespace Sg200x.Cimg

open Library.Words

variable {partSz offset opLen : ℤ} {fd : Bytes}

/-! ## The windows of the loop -/

theorem plan_short (hfd : fd ≠ []) (hlength : fd.length < maxLoadSize) :
    plan partSz fd offset opLen =
      [⟨chunkTypeCrcCheck, fd.length, offset, partSz - opLen, (crc32 fd).toNat, fd⟩] := by
  have htake : fd.take maxLoadSize = fd := List.take_of_length_le (by omega)
  have hdrop : fd.drop maxLoadSize = [] := List.drop_eq_nil_of_le (by omega)
  rw [plan, if_neg hfd]
  dsimp only
  rw [htake, hdrop, plan_nil, if_neg (by omega)]

theorem plan_full (hlength : maxLoadSize ≤ fd.length) :
    plan partSz fd offset opLen =
      ⟨chunkTypeCrcCheck, maxLoadSize, offset, opLen + maxLoadSize,
        (crc32 (fd.take maxLoadSize)).toNat, fd.take maxLoadSize⟩ ::
      plan partSz (fd.drop maxLoadSize) (offset + maxLoadSize) (opLen + maxLoadSize) := by
  have htake : (fd.take maxLoadSize).length = maxLoadSize := by
    rw [List.length_take]
    omega
  have hfd : fd ≠ [] := by
    rintro rfl
    exact absurd hlength (by decide)
  rw [plan, if_neg hfd]
  dsimp only
  rw [htake, if_pos rfl]

/-- The windows are pairwise disjoint and within bounds. -/
structure Apart (start stop : ℤ) (chunks : List Chunk) : Prop where
  disjoint : chunks.Pairwise fun c d => Disjoint c.window d.window
  inside : ∀ c ∈ chunks, c.window ⊆ Set.Ico start stop

theorem Chunk.window_subset_iff {c : Chunk} {start stop : ℤ} (h : 0 < c.partSize) :
    c.window ⊆ Set.Ico start stop ↔ start ≤ c.offset ∧ c.offset + c.partSize ≤ stop := by
  unfold Chunk.window
  exact Set.Ico_subset_Ico_iff (by omega)

theorem apart_singleton {c : Chunk} {start stop : ℤ} (h : 0 < c.partSize) :
    Apart start stop [c] ↔ start ≤ c.offset ∧ c.offset + c.partSize ≤ stop := by
  rw [← Chunk.window_subset_iff h]
  constructor
  · intro hapart
    exact hapart.inside c List.mem_cons_self
  · intro hinside
    exact ⟨List.pairwise_singleton _ _, by simpa using hinside⟩

/-- Two windows, the second where the first one ends. -/
theorem apart_pair {c d : Chunk} {start stop : ℤ} (hc : 0 < c.partSize) (hd : 0 < d.partSize)
    (hnext : d.offset = c.offset + c.partSize) :
    Apart start stop [c, d] ↔ start ≤ c.offset ∧ d.offset + d.partSize ≤ stop := by
  have hdisjoint : Disjoint c.window d.window := by
    unfold Chunk.window
    rw [Set.Ico_disjoint_Ico]
    omega
  constructor
  · intro hapart
    have hcin := (Chunk.window_subset_iff hc).mp (hapart.inside c (by simp))
    have hdin := (Chunk.window_subset_iff hd).mp (hapart.inside d (by simp))
    exact ⟨hcin.1, hdin.2⟩
  · intro hbounds
    refine ⟨by simpa using hdisjoint, ?_⟩
    simp only [List.forall_mem_cons, List.not_mem_nil, false_imp_iff, implies_true, and_true]
    rw [Chunk.window_subset_iff hc, Chunk.window_subset_iff hd]
    omega

/-- A third window that starts within the second one. -/
theorem not_apart {c d e : Chunk} {chunks : List Chunk} {start stop : ℤ} (he : 0 < e.partSize)
    (hstart : d.offset ≤ e.offset) (hend : e.offset < d.offset + d.partSize) :
    ¬ Apart start stop (c :: d :: e :: chunks) := by
  intro hapart
  have hdisjoint := (List.pairwise_cons.mp (List.pairwise_cons.mp hapart.disjoint).2).1 e
    List.mem_cons_self
  have hd : e.offset ∈ d.window := ⟨hstart, hend⟩
  have hself : e.offset ∈ e.window := ⟨le_refl _, by omega⟩
  exact Set.disjoint_left.mp hdisjoint hd hself

/-- The chunk after two full ones starts within what the second one may fill. -/
theorem plan_third (offset : ℤ) (hfd : fd ≠ []) (hopLen : 0 ≤ opLen) (hsize : opLen < partSz) :
    ∃ c chunks, plan partSz fd offset opLen = c :: chunks ∧ c.offset = offset ∧ 0 < c.partSize := by
  by_cases hlength : fd.length < maxLoadSize
  · exact ⟨_, _, plan_short hfd hlength, rfl, by dsimp only; omega⟩
  · have hpos : (0 : ℤ) < maxLoadSize := by decide
    exact ⟨_, _, plan_full (by omega), rfl, by dsimp only; omega⟩

theorem apart_plan_iff (hsize : fd.length ≤ partSz) :
    Apart offset (offset + partSz) (plan partSz fd offset 0) ↔
      fd.length < 2 * maxLoadSize ∨
        (fd.length = 2 * maxLoadSize ∧ 3 * (maxLoadSize : ℤ) ≤ partSz) := by
  have hpos : 0 < maxLoadSize := by decide
  have hdrop : (fd.drop maxLoadSize).length = fd.length - maxLoadSize := List.length_drop
  have hdropTwo : ((fd.drop maxLoadSize).drop maxLoadSize).length =
      fd.length - maxLoadSize - maxLoadSize := by rw [List.length_drop, hdrop]
  rcases Nat.eq_zero_or_pos fd.length with hempty | hnonempty
  · rw [List.length_eq_zero_iff.mp hempty, plan_nil]
    exact iff_of_true ⟨.nil, by simp⟩ (.inl (by simp; omega))
  by_cases hshort : fd.length < maxLoadSize
  · rw [plan_short (List.length_pos_iff.mp hnonempty) hshort, apart_singleton (by dsimp only; omega)]
    dsimp only
    omega
  rw [plan_full (by omega)]
  rcases Nat.eq_zero_or_pos (fd.drop maxLoadSize).length with hempty | hnonempty
  · rw [List.length_eq_zero_iff.mp hempty, plan_nil, apart_singleton (by dsimp only; omega)]
    dsimp only
    omega
  by_cases hshort : (fd.drop maxLoadSize).length < maxLoadSize
  · rw [plan_short (List.length_pos_iff.mp hnonempty) hshort,
      apart_pair (by dsimp only; omega) (by dsimp only; omega) (by dsimp only; omega)]
    dsimp only
    omega
  rw [plan_full (by omega)]
  rcases Nat.eq_zero_or_pos ((fd.drop maxLoadSize).drop maxLoadSize).length with
    hempty | hnonempty
  · rw [List.length_eq_zero_iff.mp hempty, plan_nil,
      apart_pair (by dsimp only; omega) (by dsimp only; omega) (by dsimp only; omega)]
    dsimp only
    omega
  · obtain ⟨c, chunks, hplan, hoffset, hpartSize⟩ :=
      plan_third (offset + maxLoadSize + maxLoadSize) (List.length_pos_iff.mp hnonempty)
        (by omega : (0 : ℤ) ≤ 0 + maxLoadSize + maxLoadSize) (by omega : _ < partSz)
    rw [hplan]
    refine iff_of_false (not_apart hpartSize ?_ ?_) (by omega)
    · dsimp only
      omega
    · dsimp only
      omega

/-! ## The image -/

/-- The image is a header and chunks that partition the file: what it says of itself is so, and
each chunk may be programmed in a window of its own within the partition. -/
structure Faithful (part : Part) (content image : Bytes) (chunks : List Chunk) : Prop where
  starts : image.take 4 = magic
  headerSize : wordAt 4 image 2 = chunkHeaderSize
  read : readChunks (image.drop 64) = some chunks
  totalChunks : wordAt 4 image 3 = chunks.length
  fileSize : wordAt 4 image 4 = (image.drop 64).length
  payload : chunks.flatMap Chunk.payload = content
  sound : ∀ c ∈ chunks, c.Sound
  contiguous : Contiguous part.offset chunks
  apart : Apart part.offset (part.offset + part.partSize) chunks

/-- The file is packed into a faithful image. -/
def PacksFaithfully (world : World) (part : Part) (content : Bytes) : Prop :=
  ∃ image chunks, packHeader world part = .ok (some image) ∧ Faithful part content image chunks

/-- Where the last chunk of a file starts. -/
def lastOffset (size : ℕ) : ℕ := (size - 1) / maxLoadSize * maxLoadSize

/-- The label can be stored and does not reach beyond the image, the offsets can be stored, and
no more than two chunks are full. -/
structure Packable (part : Part) (size : ℕ) : Prop where
  label : ∀ c ∈ labelOf part, c.toNat < 256
  labelLength : (labelOf part).length ≤ 44 + size + chunkCount size * chunkHeaderSize
  offset : 0 < size →
    0 ≤ part.offset ∧ part.offset + lastOffset size < 2 ^ 32
  size : size < 2 * maxLoadSize ∨
    (size = 2 * maxLoadSize ∧ 3 * (maxLoadSize : ℤ) ≤ part.partSize)

theorem lastOffset_one {size : ℕ} (h : size ≤ maxLoadSize) (hpos : 0 < size) :
    lastOffset size = 0 := by
  unfold lastOffset
  rw [Nat.div_eq_of_lt (by omega), Nat.zero_mul]

theorem lastOffset_two {size : ℕ} (h : size ≤ 2 * maxLoadSize) (hmore : maxLoadSize < size) :
    lastOffset size = maxLoadSize := by
  have hone : (size - 1) / maxLoadSize = 1 := Nat.div_eq_of_lt_le (by omega) (by omega)
  unfold lastOffset
  rw [hone, Nat.one_mul]

theorem fits_iff (size : ℕ) (offset partSize : ℤ) (payload : Bytes) :
    (⟨chunkTypeCrcCheck, size, offset, partSize, (crc32 payload).toNat, payload⟩ : Chunk).Fits ↔
      size < 2 ^ 32 ∧ (0 ≤ offset ∧ offset < 2 ^ 32) ∧ 0 ≤ partSize ∧ partSize < 2 ^ 32 := by
  have hcrc : (crc32 payload).toNat < 2 ^ 32 := (crc32 payload).toNat_lt
  unfold Chunk.Fits Chunk.words chunkTypeCrcCheck
  simp only [List.forall_mem_cons, List.not_mem_nil, false_imp_iff, implies_true, and_true]
  omega

/-- The chunks of a file of at most two full chunks can be stored when their offsets can. -/
theorem fits_plan_iff (hsize : fd.length ≤ partSz) (hpart : partSz < 2 ^ 32)
    (hchunks : fd.length ≤ 2 * maxLoadSize) :
    (∀ c ∈ plan partSz fd offset 0, c.Fits) ↔
      (0 < fd.length →
        0 ≤ offset ∧ offset + lastOffset fd.length < 2 ^ 32) := by
  have hdrop : (fd.drop maxLoadSize).length = fd.length - maxLoadSize := List.length_drop
  rcases Nat.eq_zero_or_pos fd.length with hempty | hnonempty
  · rw [List.length_eq_zero_iff.mp hempty, plan_nil]
    exact iff_of_true (by simp) (by simp)
  have hload : maxLoadSize = 16777216 := rfl
  by_cases hshort : fd.length < maxLoadSize
  · rw [plan_short (List.length_pos_iff.mp hnonempty) hshort, List.forall_mem_singleton, fits_iff,
      lastOffset_one hshort.le hnonempty]
    omega
  rw [plan_full (by omega), List.forall_mem_cons, fits_iff]
  rcases Nat.eq_zero_or_pos (fd.drop maxLoadSize).length with hempty | hmore
  · rw [List.length_eq_zero_iff.mp hempty, plan_nil, lastOffset_one (by omega) hnonempty]
    simp only [List.not_mem_nil, false_imp_iff, implies_true, and_true]
    omega
  rw [lastOffset_two hchunks (by omega)]
  by_cases hshort : (fd.drop maxLoadSize).length < maxLoadSize
  · rw [plan_short (List.length_pos_iff.mp hmore) hshort, List.forall_mem_singleton, fits_iff]
    omega
  · have hlast : (fd.drop maxLoadSize).drop maxLoadSize = [] :=
      List.drop_eq_nil_of_le (by omega)
    rw [plan_full (by omega), hlast, plan_nil, List.forall_mem_singleton, fits_iff]
    omega

section

variable {world : World} {part : Part} {path : Text} {content : Bytes}

/-- An image that is written is faithful when the label does not reach beyond it and the windows
are apart. -/
theorem faithful_iff {image : Bytes} (hfileSize : part.fileSize = content.length)
    (hfits : content.length + chunkCount content.length * chunkHeaderSize < 2 ^ 32)
    (hplan : ∀ c ∈ plan part.partSize content part.offset 0, c.Fits)
    (himage : writeAt (headerBytes part) 64
      ((plan part.partSize content part.offset 0).flatMap Chunk.bytes) = image) :
    (∃ chunks, Faithful part content image chunks) ↔
      (labelOf part).length ≤ 44 + content.length + chunkCount content.length * chunkHeaderSize ∧
      Apart part.offset (part.offset + part.partSize)
        (plan part.partSize content part.offset 0) := by
  rw [← hfileSize] at hfits
  have hheader := length_headerBytes hfits
  have hbody := length_flatMap_plan hplan
  have hdrop := drop_writeAt (headerBytes part)
    ((plan part.partSize content part.offset 0).flatMap Chunk.bytes) 64
  have hword : ∀ i (hi : i < 5), wordAt 4 image i = (headerWords part.fileSize)[i] := by
    intro i hi
    rw [← himage]
    exact wordAt_image hfits _ hi
  rw [himage] at hdrop
  have hread : (labelOf part).length ≤
      44 + content.length + chunkCount content.length * chunkHeaderSize →
      image.drop 64 = (plan part.partSize content part.offset 0).flatMap Chunk.bytes := by
    intro hlabel
    rw [hdrop, List.drop_eq_nil_of_le (by rw [hheader, hbody]; omega), List.append_nil]
  have hplanRead := readChunks_flatMap hplan fun c hc => (sound_of_mem_plan hc).size
  constructor
  · rintro ⟨chunks, hfaithful⟩
    have hlabel : (labelOf part).length ≤
        44 + content.length + chunkCount content.length * chunkHeaderSize := by
      have hrecorded : wordAt 4 image 4 =
          part.fileSize + chunkCount part.fileSize * chunkHeaderSize := hword 4 (by omega)
      have hsize := hfaithful.fileSize
      rw [hrecorded, hfileSize, hdrop, List.length_append, List.length_drop, hheader, hbody]
        at hsize
      omega
    have hchunks := hfaithful.read
    rw [hread hlabel, hplanRead] at hchunks
    refine ⟨hlabel, ?_⟩
    rw [Option.some.inj hchunks]
    exact hfaithful.apart
  · rintro ⟨hlabel, hapart⟩
    refine ⟨plan part.partSize content part.offset 0, ?_⟩
    refine ⟨?_, hword 2 (by omega), by rw [hread hlabel, hplanRead], ?_, ?_,
      flatMap_payload_plan _ _ _ _, fun c hc => sound_of_mem_plan hc, contiguous_plan _ _ _ _, hapart⟩
    · rw [← himage, take_writeAt (by omega) (by omega)]
      rfl
    · rw [hword 3 (by omega), length_plan, ← hfileSize]
      rfl
    · rw [hword 4 (by omega), hread hlabel, hbody, ← hfileSize]
      rfl

theorem packsFaithfully_iff (hpath : part.filePath = some path)
    (hfile : world.files path = some content) (hfileSize : part.fileSize = content.length)
    (hmagic : content.take 4 ≠ magic) (hsize : content.length ≤ part.partSize)
    (hpart : part.partSize < 2 ^ 32) :
    PacksFaithfully world part content ↔ Packable part content.length := by
  have hpacks : PacksFaithfully world part content ↔ ∃ image, packHeader world part =
      .ok (some image) ∧ ∃ chunks, Faithful part content image chunks := by
    unfold PacksFaithfully
    simp only [exists_and_left]
  rw [hpacks]
  constructor
  · rintro ⟨image, hpack, hfaithful⟩
    obtain ⟨hfits, hlabel, hplan, himage⟩ :=
      (packHeader_eq_some_iff hpath hfile hfileSize hmagic).mp hpack
    obtain ⟨hlength, hapart⟩ := (faithful_iff hfileSize hfits hplan himage).mp hfaithful
    have hchunks := (apart_plan_iff hsize).mp hapart
    exact ⟨hlabel, hlength, (fits_plan_iff hsize hpart (by omega)).mp hplan, hchunks⟩
  · intro h
    have hchunks : content.length ≤ 2 * maxLoadSize := by
      have := h.size
      omega
    have hcount : chunkCount content.length ≤ 2 := by
      unfold chunkCount
      unfold maxLoadSize at *
      split <;> omega
    have hfits : content.length + chunkCount content.length * chunkHeaderSize < 2 ^ 32 := by
      unfold chunkHeaderSize
      unfold maxLoadSize at *
      omega
    have hplan := (fits_plan_iff hsize hpart hchunks).mpr h.offset
    refine ⟨_, (packHeader_eq_some_iff hpath hfile hfileSize hmagic).mpr
      ⟨hfits, h.label, hplan, rfl⟩, ?_⟩
    exact (faithful_iff hfileSize hfits hplan rfl).mpr 
      ⟨h.labelLength, (apart_plan_iff hsize).mpr h.size⟩

end

/-! ## A card image -/

/-- `int` of a string of digits. -/
def decimalInt (text : Text) : Option ℤ :=
  if text ≠ [] ∧ text.all Char.isDigit then
    some (text.foldl (fun value c => value * 10 + (c.toNat - '0'.toNat)) 0)
  else none

def cardPath : Text := "/build/images/sdcard.img".toList

def cardWorld (content : Bytes) : World where
  files path := if path = cardPath then some content else none
  int := decimalInt

def cardAttributes : Attributes :=
  [("label".toList, "ROOTFS".toList), ("size_in_kb".toList, "940374".toList),
    ("readonly".toList, "false".toList), ("file".toList, "sdcard.img".toList),
    ("type".toList, "ext4".toList)]

/-- `partition_emmc.xml` of the duos. -/
def cardDescription : Description := ⟨[("type".toList, "emmc".toList)], [cardAttributes]⟩

def cardEntry (size : ℕ) : PartEntry where
  partSize := 940374 * 1024
  filePath := some cardPath
  fileSize := size
  fileName := "sdcard.img".toList
  label := some "ROOTFS".toList
  mountpoint := none
  type := "ext4".toList
  options := none

def cardPart (size : ℕ) : Part := { cardEntry size with offset := 0 }

theorem parse_card {content : Bytes} (h : content.length ≤ 940374 * 1024) :
    parse (cardWorld content) cardDescription (some "/build/images".toList) =
      .ok [cardPart content.length] := by
  have hsize : partSize (cardWorld content) cardAttributes = .ok (940374 * 1024) := rfl
  have hstat : statSize (cardWorld content) (some cardPath) = content.length := by
    simp [statSize, cardWorld]
  have hpath : partPath (some "/build/images".toList) "sdcard.img".toList = some cardPath := rfl
  have hpart : parsePart (cardWorld content) (some "/build/images".toList) cardAttributes =
      .ok (cardEntry content.length) := by
    unfold parsePart
    rw [hsize]
    change (if (partPath _ _).isSome ∧ _ < ((statSize _ (partPath _ _) : ℕ) : ℤ) then _ else _) = _
    rw [hpath, hstat, if_neg (by omega)]
    rfl
  unfold parse
  change (do
    let parts ← [cardAttributes].mapM (parsePart (cardWorld content) _)
    if _ then _ else _) = _
  rw [List.mapM_cons, hpart]
  rfl

theorem cardWorld_files (content : Bytes) : (cardWorld content).files cardPath = some content := by
  simp [cardWorld]

end Sg200x.Cimg
