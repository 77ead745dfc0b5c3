import Mathlib.Algebra.BigOperators.Group.Finset.Piecewise
import Mathlib.Algebra.Order.BigOperators.Group.Finset
import Mathlib.Data.Fintype.Card

/-!
# How many are in each state

A finite family of members, each in one state.  When one member moves, one state loses a member
and one gains one.
-/

namespace Sg200x.Library.Census

variable {ι σ : Type*} [Fintype ι] [DecidableEq σ]

def census (state : ι → σ) (s : σ) : ℕ := (Finset.univ.filter fun i => state i = s).card

theorem census_eq_zero_iff {state : ι → σ} {s : σ} : census state s = 0 ↔ ∀ i, state i ≠ s := by
  rw [census, Finset.card_eq_zero, Finset.filter_eq_empty_iff]
  simp only [Finset.mem_univ, true_implies, ne_eq]

theorem census_pos {state : ι → σ} {i : ι} {s : σ} (h : state i = s) : 0 < census state s := by
  apply Nat.pos_of_ne_zero
  intro hzero
  exact census_eq_zero_iff.mp hzero i h

/-- The members in some of the states are no more than all of them. -/
theorem sum_census_le (state : ι → σ) (states : Finset σ) :
    ∑ s ∈ states, census state s ≤ Fintype.card ι := by
  calc
    ∑ s ∈ states, census state s
        = ∑ s ∈ states, ((Finset.univ.filter fun i => state i ∈ states).filter
            fun i => state i = s).card := by
      apply Finset.sum_congr rfl
      intro s hs
      rw [census, Finset.filter_filter]
      congr 1
      ext i
      simp only [Finset.mem_filter, Finset.mem_univ, true_and]
      constructor
      · rintro rfl
        exact ⟨hs, rfl⟩
      · exact And.right
    _ = (Finset.univ.filter fun i => state i ∈ states).card :=
      (Finset.card_eq_sum_card_fiberwise fun i hi => (Finset.mem_filter.mp hi).2).symm
    _ ≤ Fintype.card ι := Finset.card_le_univ _

variable [DecidableEq ι]

/-- A sum over the members when one of them changes. -/
theorem sum_update {α : Type*} (f : ι → α) (i : ι) (new : α) (weight : α → ℕ) :
    ∑ j, weight (Function.update f i new j) + weight (f i) = ∑ j, weight (f j) + weight new := by
  have hrest : ∑ j ∈ Finset.univ.erase i, weight (Function.update f i new j) =
      ∑ j ∈ Finset.univ.erase i, weight (f j) := by
    apply Finset.sum_congr rfl
    intro j hj
    rw [Function.update_of_ne (Finset.ne_of_mem_erase hj)]
  have hupdated := Finset.add_sum_erase _ (fun j => weight (Function.update f i new j))
    (Finset.mem_univ i)
  have hsum := Finset.add_sum_erase _ (fun j => weight (f j)) (Finset.mem_univ i)
  rw [Function.update_self] at hupdated
  omega

/-- One member moves. -/
theorem census_update (state : ι → σ) (i : ι) (new s : σ) :
    census (Function.update state i new) s + (if state i = s then 1 else 0) =
      census state s + (if new = s then 1 else 0) := by
  simp only [census, Finset.card_filter]
  exact sum_update state i new fun t => if t = s then 1 else 0

end Sg200x.Library.Census
