import Mathlib.Data.BitVec
import Mathlib.Data.List.Basic
import Mathlib.Data.List.TakeDrop
import Mathlib.Algebra.Group.Basic
import Mathlib.Data.Nat.ModEq
import Mathlib.Logic.Function.Basic

/-!
# Bounded rings addressed by wrapping counters

A bounded ring keeps two free-running counters of `w` bits and a table of `cap`
cells.  A counter is never reduced: the cell of a counter value is its residue
modulo `cap`, and the occupancy is the wrapped difference of the counters.

This module relates the counters to unbounded positions of a log.  It does not
mention how the counters are read and written, so that every ring protocol over
the same representation can share it.
-/

namespace Sg200x.Library.WrapRing

variable {w cap : ℕ} {α : Type*}

/-! ## Positions and cells -/

/-- The counter value that stands `n` places after `base`. -/
def position (base : BitVec w) (n : ℕ) : BitVec w := base + BitVec.ofNat w n

/-- The cell a counter value addresses. -/
def cell (cap : ℕ) [NeZero cap] (counter : BitVec w) : Fin cap :=
  Fin.ofNat cap counter.toNat

@[simp] theorem position_zero (base : BitVec w) : position base 0 = base := by
  simp [position]

theorem position_add (base : BitVec w) (n k : ℕ) :
    position base n + BitVec.ofNat w k = position base (n + k) := by
  simp only [position, BitVec.ofNat_add, BitVec.add_assoc]

theorem toNat_position (base : BitVec w) (n : ℕ) :
    (position base n).toNat = (base.toNat + n) % 2 ^ w := by
  simp [position, BitVec.toNat_add]

/-- The wrapped difference of two positions is their distance, as long as the
distance fits in a counter. -/
theorem toNat_position_sub (base : BitVec w) {n m : ℕ} (hle : n ≤ m)
    (hfit : m - n < 2 ^ w) :
    (position base m - position base n).toNat = m - n := by
  have hsplit : position base m = position base n + BitVec.ofNat w (m - n) := by
    rw [position_add, Nat.add_sub_cancel' hle]
  rw [hsplit, BitVec.add_comm, BitVec.add_sub_cancel, BitVec.toNat_ofNat,
    Nat.mod_eq_of_lt hfit]

theorem position_injective (base : BitVec w) {n m : ℕ} (hle : n ≤ m)
    (hfit : m - n < 2 ^ w) (heq : position base n = position base m) : n = m := by
  have hdiff := toNat_position_sub base hle hfit
  rw [heq, BitVec.sub_self, BitVec.toNat_zero] at hdiff
  omega

/-- A counter that stands behind the one it is subtracted from wraps to a
difference no ring of fewer than `2 ^ w - gap` cells can have. -/
theorem toNat_position_sub_of_lt (base : BitVec w) {n m : ℕ} (hlt : n < m)
    (hfit : m - n < 2 ^ w) :
    (position base n - position base m).toNat = 2 ^ w - (m - n) := by
  have hsplit : position base m = position base n + BitVec.ofNat w (m - n) := by
    rw [position_add, Nat.add_sub_cancel' hlt.le]
  have hdiff : position base n - position base m = - BitVec.ofNat w (m - n) := by
    rw [hsplit, sub_add_cancel_left]
  rw [hdiff, BitVec.toNat_neg, BitVec.toNat_ofNat, Nat.mod_eq_of_lt hfit,
    Nat.mod_eq_of_lt (by omega)]

section Cells

variable [NeZero cap] (hdvd : cap ∣ 2 ^ w)
include hdvd

theorem val_cell_position (base : BitVec w) (n : ℕ) :
    (cell cap (position base n)).val = (base.toNat + n) % cap := by
  simp only [cell, Fin.ofNat, toNat_position]
  exact Nat.mod_mod_of_dvd _ hdvd

/-- Two positions less than one lap apart address different cells. -/
theorem cell_position_ne (base : BitVec w) {n m : ℕ} (hlt : n < m)
    (hlap : m < n + cap) :
    cell cap (position base n) ≠ cell cap (position base m) := by
  intro heq
  have hval := congrArg Fin.val heq
  rw [val_cell_position hdvd, val_cell_position hdvd] at hval
  have hmod : base.toNat + n ≡ base.toNat + m [MOD cap] := hval
  have hcancel : n ≡ m [MOD cap] := Nat.ModEq.add_left_cancel' _ hmod
  have hdvd' : cap ∣ m - n := (Nat.modEq_iff_dvd' hlt.le).mp hcancel
  have := Nat.le_of_dvd (by omega) hdvd'
  omega

end Cells

/-! ## Logs held in the cells -/

/-- The cells hold the entries of `log` from position `taken` on. -/
def Holds [NeZero cap] (slots : Fin cap → α) (base : BitVec w) (log : List α)
    (taken : ℕ) : Prop :=
  ∀ i (h : i < log.length), taken ≤ i → slots (cell cap (position base i)) = log[i]

/-- The first `count` entries of `batch` have been written from position
`start` on. -/
def Staged [NeZero cap] (slots : Fin cap → α) (base : BitVec w) (start : ℕ)
    (batch : List α) (count : ℕ) : Prop :=
  ∀ i (h : i < batch.length), i < count →
    slots (cell cap (position base (start + i))) = batch[i]

section Logs

variable [NeZero cap] {slots : Fin cap → α} {base : BitVec w} {log batch : List α}
  {taken start count : ℕ}

theorem Holds.mono (h : Holds slots base log taken) {later : ℕ} (hle : taken ≤ later) :
    Holds slots base log later :=
  fun i hi hlater => h i hi (hle.trans hlater)

theorem staged_zero : Staged slots base start batch 0 :=
  fun _ _ h => absurd h (Nat.not_lt_zero _)

/-- Publishing what has been staged extends the log. -/
theorem Holds.publish (h : Holds slots base log taken)
    (hstaged : Staged slots base log.length batch batch.length) :
    Holds slots base (log ++ batch) taken := by
  intro i hi htaken
  by_cases hold : i < log.length
  · rw [List.getElem_append_left hold]
    exact h i hold htaken
  · have hbatch : i - log.length < batch.length := by
      rw [List.length_append] at hi
      omega
    rw [List.getElem_append_right (by omega), ← hstaged _ hbatch hbatch]
    congr 3
    omega

variable (hdvd : cap ∣ 2 ^ w)
include hdvd

/-- A write beyond the end of the log, less than one lap after the oldest entry,
leaves the log alone. -/
theorem Holds.write (h : Holds slots base log taken) {n : ℕ} (hafter : log.length ≤ n)
    (hroom : n < taken + cap) (value : α) :
    Holds (Function.update slots (cell cap (position base n)) value) base log taken := by
  intro i hi htaken
  rw [Function.update_of_ne (cell_position_ne hdvd base (by omega) (by omega))]
  exact h i hi htaken

theorem Staged.write (h : Staged slots base start batch count)
    (hcount : count < batch.length) (hroom : batch.length ≤ cap) :
    Staged (Function.update slots (cell cap (position base (start + count))) batch[count])
      base start batch (count + 1) := by
  intro i hi hlt
  by_cases heq : i = count
  · subst heq
    rw [Function.update_self]
  · rw [Function.update_of_ne (cell_position_ne hdvd base (by omega) (by omega))]
    exact h i hi (by omega)

end Logs

/-! ## Rings -/

/-- The counters and the cells represent a log of which `taken` entries have
been consumed. -/
structure Represents [NeZero cap] (base producer consumer : BitVec w)
    (slots : Fin cap → α) (log : List α) (taken : ℕ) : Prop where
  producer_eq : producer = position base log.length
  consumer_eq : consumer = position base taken
  taken_le : taken ≤ log.length
  bounded : log.length ≤ taken + cap
  holds : Holds slots base log taken

section Rings

variable [NeZero cap] {base producer consumer : BitVec w} {slots : Fin cap → α}
  {log batch : List α} {taken : ℕ}

theorem represents_empty (base : BitVec w) (slots : Fin cap → α) :
    Represents base base base slots [] 0 where
  producer_eq := by simp
  consumer_eq := by simp
  taken_le := Nat.le_refl _
  bounded := by simp
  holds := fun _ h => absurd h (Nat.not_lt_zero _)

theorem Represents.occupancy (h : Represents base producer consumer slots log taken)
    (hfit : cap < 2 ^ w) : (producer - consumer).toNat = log.length - taken := by
  have := h.bounded
  rw [h.producer_eq, h.consumer_eq]
  exact toNat_position_sub base h.taken_le (by omega)

/-- Storing an advanced producer counter publishes the staged batch. -/
theorem Represents.publish (h : Represents base producer consumer slots log taken)
    (hstaged : Staged slots base log.length batch batch.length)
    (hroom : log.length + batch.length ≤ taken + cap) :
    Represents base (producer + BitVec.ofNat w batch.length) consumer slots
      (log ++ batch) taken where
  producer_eq := by rw [h.producer_eq, position_add, List.length_append]
  consumer_eq := h.consumer_eq
  taken_le := by
    have := h.taken_le
    rw [List.length_append]
    omega
  bounded := by rwa [List.length_append]
  holds := h.holds.publish hstaged

/-- Storing an advanced consumer counter returns cells to the producer. -/
theorem Represents.advance (h : Represents base producer consumer slots log taken)
    {k : ℕ} (hk : taken + k ≤ log.length) :
    Represents base producer (consumer + BitVec.ofNat w k) slots log (taken + k) where
  producer_eq := h.producer_eq
  consumer_eq := by rw [h.consumer_eq, position_add]
  taken_le := hk
  bounded := by
    have := h.bounded
    omega
  holds := h.holds.mono (by omega)

theorem Represents.read (h : Represents base producer consumer slots log taken)
    {k : ℕ} (hk : taken + k < log.length) :
    slots (cell cap (consumer + BitVec.ofNat w k)) = log[taken + k] := by
  rw [h.consumer_eq, position_add]
  exact h.holds _ hk (by omega)

theorem Represents.write (h : Represents base producer consumer slots log taken)
    (hdvd : cap ∣ 2 ^ w) {k : ℕ} (hroom : log.length + k < taken + cap) (value : α) :
    Represents base producer consumer
      (Function.update slots (cell cap (producer + BitVec.ofNat w k)) value) log taken where
  producer_eq := h.producer_eq
  consumer_eq := h.consumer_eq
  taken_le := h.taken_le
  bounded := h.bounded
  holds := by
    rw [h.producer_eq, position_add]
    exact h.holds.write hdvd (by omega) hroom value

end Rings

end Sg200x.Library.WrapRing
