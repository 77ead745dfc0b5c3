import Mathlib.Data.Nat.Digits.Lemmas

/-!
# Little-endian words

Words of a fixed number of bytes, least significant byte first, and the rows they form.
-/

namespace Sg200x.Library.Words

def toBytes (width value : ℕ) : List UInt8 := (Nat.digitsAppend 256 width value).map UInt8.ofNat

def ofBytes (bytes : List UInt8) : ℕ := Nat.ofDigits 256 (bytes.map UInt8.toNat)

/-- The word at a position of a row of words. -/
def wordAt (width : ℕ) (bytes : List UInt8) (i : ℕ) : ℕ :=
  ofBytes ((bytes.drop (width * i)).take width)

variable {width value : ℕ}

theorem length_toBytes (h : value < 256 ^ width) : (toBytes width value).length = width := by
  rw [toBytes, List.length_map]
  exact Nat.length_digitsAppend (by omega) width h

theorem ofBytes_toBytes (width value : ℕ) : ofBytes (toBytes width value) = value := by
  have hdigit : ∀ digit ∈ Nat.digitsAppend 256 width value,
      (UInt8.toNat ∘ UInt8.ofNat) digit = id digit := by
    intro digit hmem
    have hlt : digit < 256 := Nat.lt_of_mem_digitsAppend (by omega) width digit hmem
    exact UInt8.toNat_ofNat_of_lt' hlt
  calc
    ofBytes (toBytes width value) = Nat.ofDigits 256 (Nat.digitsAppend 256 width value) := by
      rw [ofBytes, toBytes, List.map_map, List.map_congr_left hdigit, List.map_id]
    _ = Nat.ofDigits 256 (Nat.digits 256 value) := by
      rw [Nat.digitsAppend, Nat.ofDigits_append_replicate_zero]
    _ = value := Nat.ofDigits_digits 256 value

theorem length_flatMap_toBytes {values : List ℕ} (h : ∀ value ∈ values, value < 256 ^ width) :
    (values.flatMap (toBytes width)).length = width * values.length := by
  induction values with
  | nil => rfl
  | cons value values ih =>
      rw [List.flatMap_cons, List.length_append, length_toBytes (h value List.mem_cons_self),
        ih fun v hv => h v (List.mem_cons_of_mem _ hv), List.length_cons, Nat.mul_succ,
        Nat.add_comm]

/-- A row of words reads back word by word, whatever follows it. -/
theorem wordAt_flatMap {values : List ℕ} (h : ∀ value ∈ values, value < 256 ^ width)
    (rest : List UInt8) {i : ℕ} (hi : i < values.length) :
    wordAt width (values.flatMap (toBytes width) ++ rest) i = values[i] := by
  induction values generalizing i with
  | nil => cases hi
  | cons value values ih =>
      have hlength := length_toBytes (h value List.mem_cons_self)
      unfold wordAt
      rw [List.flatMap_cons, List.append_assoc]
      cases i with
      | zero =>
          rw [Nat.mul_zero, List.drop_zero, List.take_left' hlength, List.getElem_cons_zero,
            ofBytes_toBytes]
      | succ i =>
          rw [Nat.mul_succ, Nat.add_comm, ← List.drop_drop, List.drop_left' hlength,
            List.getElem_cons_succ]
          exact ih (fun v hv => h v (List.mem_cons_of_mem _ hv)) (by simpa using hi)

theorem wordAt_take (bytes : List UInt8) {i k : ℕ} (hk : width * (i + 1) ≤ k) :
    wordAt width (bytes.take k) i = wordAt width bytes i := by
  have hwidth : min width (k - width * i) = width := by
    rw [Nat.mul_succ] at hk
    omega
  unfold wordAt
  rw [List.drop_take, List.take_take, hwidth]

end Sg200x.Library.Words
