import Sg200x.Library.Words
import Sg200x.Cimg.Partitions

/-!
# Packing an image

`raw2cimg.py`: an image of a partition is a header and, for every 16 MiB of the file, a chunk
with a header of its own.
-/

namespace Sg200x.Cimg

open Library.Words

def maxLoadSize : ℕ := 16 * 1024 * 1024

def chunkTypeCrcCheck : ℤ := 1

def chunkHeaderSize : ℕ := 64

def magic : Bytes := [0x43, 0x49, 0x4d, 0x47]

/-- One byte of the CRC-32 of zlib. -/
def crcStep (crc : UInt32) (byte : UInt8) : UInt32 :=
  (List.range 8).foldl
    (fun crc _ => if crc &&& 1 = 1 then (crc >>> 1) ^^^ 0xedb88320 else crc >>> 1)
    (crc ^^^ byte.toUInt32)

/-- `binascii.crc32` -/
def crc32 (data : Bytes) : UInt32 := data.foldl crcStep 0xffffffff ^^^ 0xffffffff

/-- `array("I", values)` as it is written on a little-endian machine. -/
def arrayI (values : List ℤ) : Except PyError Bytes :=
  if ∀ value ∈ values, 0 ≤ value ∧ value < 2 ^ 32 then
    .ok ((values.map Int.toNat).flatMap (toBytes 4))
  else .error .overflowError

/-- `array("B", [ord(c) for c in text])` -/
def arrayB (text : Text) : Except PyError Bytes :=
  if text.all fun c => c.toNat < 256 then .ok (text.map fun c => UInt8.ofNat c.toNat)
  else .error .overflowError

/-- `_getChunkHeader` -/
def getChunkHeader (size offset partSz crc32 : ℤ) : Except PyError Bytes :=
  arrayI [chunkTypeCrcCheck, size, offset, partSz, crc32, 0, 0, 0, 0, 0, 0, 0, 0, 0, 0, 0]

/-- The `while` loop of `packHeader`: what it writes; `fd` is what is left of the file. -/
def packChunks (partSz : ℤ) (fd : Bytes) (totalSize : ℕ) (offset opLen : ℤ) :
    Except PyError Bytes :=
  if totalSize = 0 then .ok []
  else
    let chunkSz := min maxLoadSize totalSize
    let chunk := fd.take chunkSz
    let opLen := if chunkSz = maxLoadSize then opLen + chunkSz else partSz - opLen
    do
      let chunkHeader ← getChunkHeader chunkSz offset opLen (crc32 chunk).toNat
      let rest ← packChunks partSz (fd.drop chunkSz) (totalSize - chunkSz) (offset + chunkSz) opLen
      return chunkHeader ++ chunk ++ rest
  termination_by totalSize
  decreasing_by
    have : 0 < maxLoadSize := by decide
    omega

/-- The number of chunks of a file. -/
def chunkCount (fileSize : ℕ) : ℕ :=
  if fileSize - maxLoadSize * (fileSize / maxLoadSize) ≠ 0 then fileSize / maxLoadSize + 1
  else fileSize / maxLoadSize

/-- A file after a `seek` to a position and a `write`; nothing happens before something is
written. -/
def writeAt (file : Bytes) (position : ℕ) (data : Bytes) : Bytes :=
  if data = [] then file
  else (file ++ List.replicate (position - file.length) 0).take position ++ data ++
    file.drop (position + data.length)

def labelOf (part : Part) : Text := part.label.getD "gpt".toList

/-- The image that is written, or `none` for a file that is an image already. -/
def packHeader (world : World) (part : Part) : Except PyError (Option Bytes) :=
  match part.filePath with
  | none => .error (.keyError "file_path")
  | some path =>
      match world.files path with
      | none => .error .fileNotFoundError
      | some content =>
          if content.take 4 = magic then .ok none
          else do
            let version ← arrayI [1]
            let chunkSz ← arrayI [chunkHeaderSize]
            let chunkCounts := chunkCount part.fileSize
            let totalChunk ← arrayI [chunkCounts]
            let fileSz ← arrayI [part.fileSize + chunkCounts * chunkHeaderSize]
            let label := labelOf part
            let extraFlags ← arrayB label
            let extraFlags := extraFlags ++ List.replicate (32 - label.length) 0
            let img := magic ++ version ++ chunkSz ++ totalChunk ++ fileSz ++ extraFlags
            let chunks ← packChunks part.partSize content part.fileSize part.offset 0
            return some (writeAt img 64 chunks)

example : crc32 [0x31, 0x32, 0x33, 0x34, 0x35, 0x36, 0x37, 0x38, 0x39] = 0xcbf43926 := by
  decide +kernel

end Sg200x.Cimg
