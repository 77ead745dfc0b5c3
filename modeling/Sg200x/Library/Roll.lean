import Mathlib.Data.List.FinRange
import Mathlib.Logic.Function.Basic

/-!
# What the entries of a table hold

A table of `n` entries, each of them empty or holding something.  Filling an empty entry adds to
what the table holds, and clearing an entry takes from it.
-/

namespace Sg200x.Library

variable {α : Type*} {n : ℕ}

def roll (f : Fin n → Option α) : List α := (List.finRange n).filterMap f

theorem mem_roll {f : Fin n → Option α} {a : α} : a ∈ roll f ↔ ∃ i, f i = some a := by
  simp [roll]

theorem roll_update_none {f : Fin n → Option α} {i : Fin n} {a : α} (hi : f i = some a) :
    (roll f).Perm (a :: roll (Function.update f i none)) := by
  obtain ⟨before, after, hsplit⟩ := List.append_of_mem (List.mem_finRange i)
  have hnodup := List.nodup_finRange n
  rw [hsplit, List.nodup_append, List.nodup_cons] at hnodup
  obtain ⟨-, ⟨hafter, -⟩, hbefore⟩ := hnodup
  -- The other entries are what they were.
  have hkept : ∀ l : List (Fin n), i ∉ l →
      l.filterMap (Function.update f i none) = l.filterMap f := by
    intro l hl
    apply List.filterMap_congr
    intro j hj
    exact Function.update_of_ne (ne_of_mem_of_not_mem hj hl) _ _
  have hnot : i ∉ before := fun hmem => hbefore i hmem i List.mem_cons_self rfl
  have hempty : Function.update f i none i = none := Function.update_self ..
  rw [roll, roll, hsplit, List.filterMap_append, List.filterMap_append, hkept before hnot,
    List.filterMap_cons_some hi, List.filterMap_cons_none hempty, hkept after hafter]
  exact List.perm_middle

theorem roll_update_some {f : Fin n → Option α} {i : Fin n} (hi : f i = none) (a : α) :
    (roll (Function.update f i (some a))).Perm (a :: roll f) := by
  have h := roll_update_none (Function.update_self i (some a) f)
  rwa [Function.update_idem, show Function.update f i none = f from by
    rw [← hi, Function.update_eq_self]] at h

theorem roll_none : roll (fun _ : Fin n => (none : Option α)) = [] := by
  simp [roll]

/-- A table with an empty entry left holds fewer than it has entries. -/
theorem exists_none_of_length_lt {f : Fin n → Option α} (h : (roll f).length < n) :
    ∃ i, f i = none := by
  by_contra hfull
  have hsome : ∀ i, (f i).isSome := by
    intro i
    rw [Option.isSome_iff_ne_none]
    exact fun hi => hfull ⟨i, hi⟩
  have hlength : (roll f).length = n := by
    rw [roll, List.length_filterMap_eq_countP, List.countP_eq_length.mpr fun i _ => hsome i,
      List.length_finRange]
  omega

end Sg200x.Library
