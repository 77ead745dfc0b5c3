import Mathlib.Data.List.Sort
import Mathlib.Order.Basic

/-!
# Listings in the order of a key

A set of entries with distinct keys has one listing in the order of the keys, and a selection
from a list without repetitions is determined by its entries.
-/

namespace Sg200x.Library.Listing

variable {α κ : Type*} [LinearOrder κ]

/-- `sorted(entries, key)`. -/
def sortBy (key : α → κ) (entries : List α) : List α :=
  entries.insertionSort fun a b => key a ≤ key b

@[simp] theorem mem_sortBy {key : α → κ} {entries : List α} {a : α} :
    a ∈ sortBy key entries ↔ a ∈ entries := List.mem_insertionSort _

@[simp] theorem sortBy_nil (key : α → κ) : sortBy key ([] : List α) = [] := rfl

theorem perm_sortBy (key : α → κ) (entries : List α) : (sortBy key entries).Perm entries :=
  List.perm_insertionSort _ entries

theorem pairwise_sortBy (key : α → κ) (entries : List α) :
    (sortBy key entries).Pairwise fun a b => key a ≤ key b := by
  have htotal : Std.Total fun a b : α => key a ≤ key b := ⟨fun a b => le_total (key a) (key b)⟩
  have htrans : IsTrans α fun a b => key a ≤ key b := ⟨fun a b c => le_trans⟩
  exact List.pairwise_insertionSort _ entries

theorem nodup_sortBy {key : α → κ} {entries : List α} (h : entries.Nodup) :
    (sortBy key entries).Nodup := (perm_sortBy key entries).nodup_iff.mpr h

theorem eq_of_pairwise_of_mem_iff {key : α → κ} {l m : List α}
    (hl : l.Pairwise fun a b => key a ≤ key b) (hm : m.Pairwise fun a b => key a ≤ key b)
    (hnodup : l.Nodup) (hnodup' : m.Nodup)
    (hkeys : ∀ a ∈ l, ∀ b ∈ l, key a = key b → a = b) (h : ∀ a, a ∈ l ↔ a ∈ m) : l = m := by
  apply List.Perm.eq_of_pairwise _ hl hm ((List.perm_ext_iff_of_nodup hnodup hnodup').mpr h)
  intro a b ha hb hab hba
  exact hkeys a ha b ((h b).mpr hb) (le_antisymm hab hba)

/-! ## Selections -/

section
open Classical

variable {entries selected other : List α}

theorem filter_mem_eq (hnodup : entries.Nodup) (h : selected.Sublist entries) :
    entries.filter (· ∈ selected) = selected := by
  induction h with
  | slnil => rfl
  | @cons selected entries a h ih =>
      rw [List.nodup_cons] at hnodup
      have hout : a ∉ selected := fun hmem => hnodup.1 (h.subset hmem)
      rw [List.filter_cons_of_neg (by simpa using hout), ih hnodup.2]
  | @cons_cons selected entries a h ih =>
      rw [List.nodup_cons] at hnodup
      rw [List.filter_cons_of_pos (by simp)]
      congr 1
      calc entries.filter (· ∈ a :: selected) = entries.filter (· ∈ selected) := by
            apply List.filter_congr
            intro b hb
            have hne : b ≠ a := fun heq => hnodup.1 (heq ▸ hb)
            simp [hne]
        _ = selected := ih hnodup.2

theorem eq_of_sublist (hnodup : entries.Nodup) (hselected : selected.Sublist entries)
    (hother : other.Sublist entries) (h : ∀ a ∈ entries, a ∈ selected ↔ a ∈ other) :
    selected = other := by
  calc selected = entries.filter (· ∈ selected) := (filter_mem_eq hnodup hselected).symm
    _ = entries.filter (· ∈ other) := List.filter_congr fun a ha => by simp [h a ha]
    _ = other := filter_mem_eq hnodup hother

theorem sublist_of_subset (hnodup : entries.Nodup) (hselected : selected.Sublist entries)
    (hother : other.Sublist entries) (h : ∀ a ∈ selected, a ∈ other) :
    selected.Sublist other := by
  rw [← filter_mem_eq hnodup hselected, ← filter_mem_eq hnodup hother]
  apply List.monotone_filter_right
  intro a ha
  exact decide_eq_true (h a (of_decide_eq_true ha))

end

end Sg200x.Library.Listing
