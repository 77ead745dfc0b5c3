import Sg200x.Cimg.Pack

/-!
# What an image says

A reader of images, and what it reads from the image that `packHeader` writes: the chunks that
the `while` loop plans.
-/

namespace Sg200x.Cimg

open Library.Words

/-! ## Chunks -/

structure Chunk where
  chunkType : ℤ
  size : ℤ
  offset : ℤ
  partSize : ℤ
  crc : ℤ
  payload : Bytes

/-- The words of the header of a chunk. -/
def Chunk.words (c : Chunk) : List ℤ :=
  [c.chunkType, c.size, c.offset, c.partSize, c.crc, 0, 0, 0, 0, 0, 0, 0, 0, 0, 0, 0]

@[simp] theorem Chunk.length_words (c : Chunk) : c.words.length = 16 := rfl

def Chunk.bytes (c : Chunk) : Bytes := (c.words.map Int.toNat).flatMap (toBytes 4) ++ c.payload

/-- Every word of the header can be stored. -/
def Chunk.Fits (c : Chunk) : Prop := ∀ word ∈ c.words, 0 ≤ word ∧ word < 2 ^ 32

instance (c : Chunk) : Decidable c.Fits := inferInstanceAs (Decidable (∀ _ ∈ _, _))

/-- Where the chunk may be programmed. -/
def Chunk.window (c : Chunk) : Set ℤ := Set.Ico c.offset (c.offset + c.partSize)

/-- Reads the chunks that follow the header of an image. -/
def readChunks (body : Bytes) : Option (List Chunk) :=
  if body = [] then some []
  else
    let size := wordAt 4 body 1
    if body.length < chunkHeaderSize + size then none
    else
      (readChunks (body.drop (chunkHeaderSize + size))).map
        ({ chunkType := wordAt 4 body 0
           size := size
           offset := wordAt 4 body 2
           partSize := wordAt 4 body 3
           crc := wordAt 4 body 4
           payload := (body.drop chunkHeaderSize).take size } :: ·)
  termination_by body.length
  decreasing_by
    have : 0 < chunkHeaderSize := by decide
    rw [List.length_drop]
    omega

theorem Chunk.Fits.toNat_lt {c : Chunk} (h : c.Fits) :
    ∀ word ∈ c.words.map Int.toNat, word < 256 ^ 4 := by
  intro word hword
  obtain ⟨z, hz, rfl⟩ := List.mem_map.mp hword
  have := h z hz
  omega

theorem Chunk.Fits.length_header {c : Chunk} (h : c.Fits) :
    ((c.words.map Int.toNat).flatMap (toBytes 4)).length = chunkHeaderSize := by
  rw [length_flatMap_toBytes h.toNat_lt]
  rfl

/-- A word of the header, as it is read. -/
theorem Chunk.Fits.wordAt_bytes {c : Chunk} (h : c.Fits) (rest : Bytes) {i : ℕ}
    (hi : i < c.words.length) : (wordAt 4 (c.bytes ++ rest) i : ℤ) = c.words[i] := by
  have hword := wordAt_flatMap h.toNat_lt (c.payload ++ rest) (i := i) (by simpa using hi)
  rw [Chunk.bytes, List.append_assoc, hword, List.getElem_map]
  exact Int.toNat_of_nonneg (h _ (List.getElem_mem hi)).1

/-- The chunks that were written are read back. -/
theorem readChunks_flatMap {chunks : List Chunk} (hfits : ∀ c ∈ chunks, c.Fits)
    (hsize : ∀ c ∈ chunks, c.size = c.payload.length) :
    readChunks (chunks.flatMap Chunk.bytes) = some chunks := by
  induction chunks with
  | nil => rw [readChunks]; rfl
  | cons c chunks ih =>
      have hc := hfits c List.mem_cons_self
      have hrest := ih (fun d hd => hfits d (List.mem_cons_of_mem _ hd))
        fun d hd => hsize d (List.mem_cons_of_mem _ hd)
      generalize hbody : chunks.flatMap Chunk.bytes = rest at hrest
      have hcsize := hsize c List.mem_cons_self
      have hword0 := hc.wordAt_bytes rest (i := 0) (by simp)
      have hword1 := hc.wordAt_bytes rest (i := 1) (by simp)
      have hword2 := hc.wordAt_bytes rest (i := 2) (by simp)
      have hword3 := hc.wordAt_bytes rest (i := 3) (by simp)
      have hword4 := hc.wordAt_bytes rest (i := 4) (by simp)
      have hsizeWord : wordAt 4 (c.bytes ++ rest) 1 = c.payload.length :=
        Int.ofNat.inj (hword1.trans hcsize)
      have hlength : c.bytes.length = chunkHeaderSize + c.payload.length := by
        rw [Chunk.bytes, List.length_append, hc.length_header]
      have hpayload : ((c.bytes ++ rest).drop chunkHeaderSize).take c.payload.length = c.payload := by
        rw [Chunk.bytes, List.append_assoc, List.drop_left' hc.length_header, List.take_left]
      rw [readChunks, List.flatMap_cons, hbody]
      dsimp only
      rw [if_neg, hsizeWord, if_neg, List.drop_left' hlength, hrest, hpayload, hword0, hword2,
        hword3, hword4, ← hcsize]
      · rfl
      · rw [List.length_append, hlength]
        omega
      · intro hnil
        have := congrArg List.length hnil
        rw [List.length_append, hlength] at this
        unfold chunkHeaderSize at this
        simp at this

/-! ## The chunks of the loop -/

/-- The chunks of what is left of a file. -/
def plan (partSz : ℤ) (fd : Bytes) (offset opLen : ℤ) : List Chunk :=
  if fd = [] then []
  else
    let chunk := fd.take maxLoadSize
    let opLen := if chunk.length = maxLoadSize then opLen + chunk.length else partSz - opLen
    ⟨chunkTypeCrcCheck, chunk.length, offset, opLen, (crc32 chunk).toNat, chunk⟩ ::
      plan partSz (fd.drop maxLoadSize) (offset + chunk.length) opLen
  termination_by fd.length
  decreasing_by
    have : 0 < maxLoadSize := by decide
    have := List.length_pos_iff.mpr ‹fd ≠ []›
    rw [List.length_drop]
    omega

variable {partSz offset opLen : ℤ} {fd : Bytes}

@[simp] theorem plan_nil : plan partSz [] offset opLen = [] := by
  rw [plan]
  rfl

theorem getChunkHeader_eq (size offset partSz crc : ℤ) (payload : Bytes) :
    getChunkHeader size offset partSz crc =
      let c : Chunk := ⟨chunkTypeCrcCheck, size, offset, partSz, crc, payload⟩
      if c.Fits then .ok ((c.words.map Int.toNat).flatMap (toBytes 4)) else .error .overflowError :=
  rfl

/-- The loop writes the chunks, or stops at one that cannot be stored. -/
theorem packChunks_eq (partSz : ℤ) (fd : Bytes) (offset opLen : ℤ) :
    packChunks partSz fd fd.length offset opLen =
      if ∀ c ∈ plan partSz fd offset opLen, c.Fits then
        .ok ((plan partSz fd offset opLen).flatMap Chunk.bytes)
      else .error .overflowError := by
  fun_induction plan partSz fd offset opLen with
  | case1 offset opLen =>
      rw [packChunks]
      rfl
  | case2 fd offset opLen hfd chunk opLen' ih =>
      have hsize : min maxLoadSize fd.length = chunk.length := List.length_take.symm
      have htake : fd.take chunk.length = chunk := by
        rw [← hsize, ← List.take_take, List.take_length]
      have hdrop : fd.drop chunk.length = fd.drop maxLoadSize := by
        rw [List.drop_eq_drop_iff, ← hsize]
        omega
      have hrest : fd.length - chunk.length = (fd.drop maxLoadSize).length := by
        rw [List.length_drop, ← hsize]
        omega
      have hopLen : (if chunk.length = maxLoadSize then opLen + (chunk.length : ℤ)
          else partSz - opLen) = opLen' := rfl
      rw [packChunks, if_neg (by simpa using hfd), hsize]
      dsimp only
      rw [htake, hdrop, hrest, hopLen, ih, getChunkHeader_eq _ _ _ _ chunk]
      simp only [List.forall_mem_cons, List.flatMap_cons]
      by_cases hfits : (⟨chunkTypeCrcCheck, chunk.length, offset, opLen', (crc32 chunk).toNat,
          chunk⟩ : Chunk).Fits
      · by_cases hall : ∀ c ∈ plan partSz (fd.drop maxLoadSize) (offset + chunk.length) opLen',
            c.Fits
        · rw [if_pos hfits, if_pos hall, if_pos ⟨hfits, hall⟩]
          rfl
        · rw [if_pos hfits, if_neg hall, if_neg (not_and_of_not_right _ hall)]
          rfl
      · rw [if_neg hfits, if_neg (not_and_of_not_left _ hfits)]
        rfl

theorem flatMap_payload_plan (partSz : ℤ) (fd : Bytes) (offset opLen : ℤ) :
    (plan partSz fd offset opLen).flatMap Chunk.payload = fd := by
  fun_induction plan partSz fd offset opLen with
  | case1 => rfl
  | case2 fd offset opLen hfd chunk opLen' ih =>
      rw [List.flatMap_cons, ih]
      exact List.take_append_drop maxLoadSize fd

/-- What the header of a chunk says of its payload is so. -/
structure Chunk.Sound (c : Chunk) : Prop where
  chunkType : c.chunkType = chunkTypeCrcCheck
  size : c.size = c.payload.length
  crc : c.crc = (crc32 c.payload).toNat

theorem sound_of_mem_plan {c : Chunk} (h : c ∈ plan partSz fd offset opLen) : c.Sound := by
  fun_induction plan partSz fd offset opLen with
  | case1 => cases h
  | case2 fd offset opLen hfd chunk opLen' ih =>
      rcases List.mem_cons.mp h with rfl | hrest
      · exact ⟨rfl, rfl, rfl⟩
      · exact ih hrest

/-- Each chunk starts where the one before it ends. -/
def Contiguous (start : ℤ) : List Chunk → Prop
  | [] => True
  | c :: chunks => c.offset = start ∧ Contiguous (start + c.size) chunks

theorem contiguous_plan (partSz : ℤ) (fd : Bytes) (offset opLen : ℤ) :
    Contiguous offset (plan partSz fd offset opLen) := by
  fun_induction plan partSz fd offset opLen with
  | case1 => trivial
  | case2 fd offset opLen hfd chunk opLen' ih => exact ⟨rfl, ih⟩

theorem chunkCount_of_pos {size : ℕ} (h : 0 < size) :
    chunkCount size = chunkCount (size - maxLoadSize) + 1 := by
  unfold chunkCount maxLoadSize
  split <;> split <;> omega

theorem length_plan (partSz : ℤ) (fd : Bytes) (offset opLen : ℤ) :
    (plan partSz fd offset opLen).length = chunkCount fd.length := by
  fun_induction plan partSz fd offset opLen with
  | case1 => rfl
  | case2 fd offset opLen hfd chunk opLen' ih =>
      rw [List.length_cons, ih, List.length_drop,
        chunkCount_of_pos (List.length_pos_iff.mpr hfd)]

theorem length_flatMap_bytes {chunks : List Chunk} (h : ∀ c ∈ chunks, c.Fits) :
    (chunks.flatMap Chunk.bytes).length =
      (chunks.flatMap Chunk.payload).length + chunks.length * chunkHeaderSize := by
  induction chunks with
  | nil => rfl
  | cons c chunks ih =>
      have hheader := (h c List.mem_cons_self).length_header
      have hrest := ih fun d hd => h d (List.mem_cons_of_mem _ hd)
      rw [List.flatMap_cons, List.length_append, hrest, Chunk.bytes, List.length_append, hheader,
        List.flatMap_cons, List.length_append, List.length_cons, Nat.succ_mul]
      omega

theorem length_flatMap_plan (h : ∀ c ∈ plan partSz fd offset opLen, c.Fits) :
    ((plan partSz fd offset opLen).flatMap Chunk.bytes).length =
      fd.length + chunkCount fd.length * chunkHeaderSize := by
  rw [length_flatMap_bytes h, flatMap_payload_plan, length_plan]

/-! ## The header -/

/-- The header of an image, all that is written before the chunks. -/
def headerBytes (part : Part) : Bytes :=
  magic ++ ([1, chunkHeaderSize, chunkCount part.fileSize,
      part.fileSize + chunkCount part.fileSize * chunkHeaderSize].flatMap (toBytes 4)) ++
    (labelOf part).map (fun c => UInt8.ofNat c.toNat) ++
    List.replicate (32 - (labelOf part).length) 0

theorem arrayI_natCast (value : ℕ) :
    arrayI [(value : ℤ)] =
      if value < 2 ^ 32 then .ok (toBytes 4 value) else .error .overflowError := by
  unfold arrayI
  by_cases hvalue : value < 2 ^ 32
  · rw [if_pos hvalue, if_pos (by simpa using by omega)]
    simp
  · rw [if_neg hvalue, if_neg (by simpa using by omega)]

/-- What `packHeader` writes, and when it does. -/
theorem packHeader_eq_some_iff {world : World} {part : Part} {path : Text} {content image : Bytes}
    (hpath : part.filePath = some path) (hfile : world.files path = some content)
    (hsize : part.fileSize = content.length) (hmagic : content.take 4 ≠ magic) :
    packHeader world part = .ok (some image) ↔
      content.length + chunkCount content.length * chunkHeaderSize < 2 ^ 32 ∧
      (∀ c ∈ labelOf part, c.toNat < 256) ∧
      (∀ c ∈ plan part.partSize content part.offset 0, c.Fits) ∧
      writeAt (headerBytes part) 64
        ((plan part.partSize content part.offset 0).flatMap Chunk.bytes) = image := by
  have hversion : arrayI [1] = .ok (toBytes 4 1) := arrayI_natCast 1
  have hchunkSz : arrayI [(chunkHeaderSize : ℤ)] = .ok (toBytes 4 chunkHeaderSize) :=
    arrayI_natCast chunkHeaderSize
  have hfileSz : arrayI [(content.length : ℤ) + chunkCount content.length * chunkHeaderSize] =
      arrayI [((content.length + chunkCount content.length * chunkHeaderSize : ℕ) : ℤ)] := by
    rw [Nat.cast_add, Nat.cast_mul]
  have hheader : magic ++ toBytes 4 1 ++ toBytes 4 chunkHeaderSize ++
      toBytes 4 (chunkCount content.length) ++
      toBytes 4 (content.length + chunkCount content.length * chunkHeaderSize) ++
      ((labelOf part).map (fun c => UInt8.ofNat c.toNat) ++
        List.replicate (32 - (labelOf part).length) 0) = headerBytes part := by
    simp only [headerBytes, hsize, List.flatMap_cons, List.flatMap_nil, List.append_nil,
      List.append_assoc]
  unfold packHeader
  rw [hpath]
  dsimp only
  rw [hfile]
  dsimp only
  rw [if_neg hmagic, hsize, packChunks_eq, hversion, hchunkSz, hfileSz, arrayI_natCast,
    arrayI_natCast]
  unfold arrayB
  by_cases hfits : content.length + chunkCount content.length * chunkHeaderSize < 2 ^ 32
  · have hcount : chunkCount content.length < 2 ^ 32 := by
      unfold chunkHeaderSize at hfits
      omega
    rw [if_pos hfits, if_pos hcount]
    have hall : (labelOf part).all (fun c => c.toNat < 256) = true ↔
        ∀ c ∈ labelOf part, c.toNat < 256 := by
      simp only [List.all_eq_true, decide_eq_true_eq]
    by_cases hlabel : ∀ c ∈ labelOf part, c.toNat < 256
    · rw [if_pos (hall.mpr hlabel)]
      by_cases hplan : ∀ c ∈ plan part.partSize content part.offset 0, c.Fits
      · rw [if_pos hplan]
        refine ⟨fun h => ⟨hfits, hlabel, hplan, ?_⟩, fun h => ?_⟩
        · rw [← hheader]
          exact Option.some.inj (Except.ok.inj h)
        · rw [← h.2.2.2, ← hheader]
          rfl
      · rw [if_neg hplan]
        refine iff_of_false ?_ fun h => hplan h.2.2.1
        intro h
        cases h
    · rw [if_neg (hlabel ∘ hall.mp)]
      refine iff_of_false ?_ fun h => hlabel h.2.1
      intro h
      cases h
  · rw [if_neg hfits]
    refine iff_of_false ?_ fun h => hfits h.1
    intro h
    split at h
    · cases h
    · cases h

/-! ## The image -/

theorem take_writeAt {file data : Bytes} {position k : ℕ} (hk : k ≤ file.length)
    (hposition : k ≤ position) : (writeAt file position data).take k = file.take k := by
  unfold writeAt
  split
  · rfl
  · rw [List.append_assoc, List.take_append_of_le_length, List.take_take, Nat.min_eq_left hposition,
      List.take_append_of_le_length hk]
    rw [List.length_take, List.length_append, List.length_replicate]
    omega

theorem drop_writeAt (file data : Bytes) (position : ℕ) :
    (writeAt file position data).drop position = data ++ file.drop (position + data.length) := by
  unfold writeAt
  split
  next hnil => rw [hnil]; rfl
  next =>
    rw [List.append_assoc, List.drop_left']
    rw [List.length_take, List.length_append, List.length_replicate]
    omega

/-- The words at the start of the header. -/
def headerWords (size : ℕ) : List ℕ :=
  [0x474d4943, 1, chunkHeaderSize, chunkCount size, size + chunkCount size * chunkHeaderSize]

theorem headerBytes_eq (part : Part) :
    ∃ rest, headerBytes part = (headerWords part.fileSize).flatMap (toBytes 4) ++ rest ∧
      rest.length = max 32 (labelOf part).length := by
  have hmagic : magic = toBytes 4 0x474d4943 := by decide
  refine ⟨(labelOf part).map (fun c => UInt8.ofNat c.toNat) ++
    List.replicate (32 - (labelOf part).length) 0, ?_, ?_⟩
  · simp only [headerBytes, hmagic, headerWords, List.flatMap_cons, List.append_assoc]
  · rw [List.length_append, List.length_map, List.length_replicate]
    omega

theorem headerWords_lt {size : ℕ} (h : size + chunkCount size * chunkHeaderSize < 2 ^ 32) :
    ∀ word ∈ headerWords size, word < 256 ^ 4 := by
  unfold headerWords
  unfold chunkHeaderSize at *
  simp only [List.forall_mem_cons, List.not_mem_nil, false_imp_iff, implies_true, and_true]
  omega

theorem length_headerBytes {part : Part}
    (h : part.fileSize + chunkCount part.fileSize * chunkHeaderSize < 2 ^ 32) :
    (headerBytes part).length = 20 + max 32 (labelOf part).length := by
  obtain ⟨rest, hbytes, hrest⟩ := headerBytes_eq part
  rw [hbytes, List.length_append, hrest, length_flatMap_toBytes (headerWords_lt h)]
  rfl

/-- A word at the start of the image. -/
theorem wordAt_image {part : Part}
    (h : part.fileSize + chunkCount part.fileSize * chunkHeaderSize < 2 ^ 32) (body : Bytes) {i : ℕ}
    (hi : i < 5) : wordAt 4 (writeAt (headerBytes part) 64 body) i =
      (headerWords part.fileSize)[i] := by
  obtain ⟨rest, hbytes, -⟩ := headerBytes_eq part
  have hlength := length_headerBytes h
  calc
    wordAt 4 (writeAt (headerBytes part) 64 body) i
        = wordAt 4 ((writeAt (headerBytes part) 64 body).take 20) i :=
      (wordAt_take _ (by omega)).symm
    _ = wordAt 4 ((headerBytes part).take 20) i := by rw [take_writeAt (by omega) (by omega)]
    _ = wordAt 4 (headerBytes part) i := wordAt_take _ (by omega)
    _ = (headerWords part.fileSize)[i] := by
      rw [hbytes]
      exact wordAt_flatMap (headerWords_lt h) rest hi

end Sg200x.Cimg
