import Mathlib.Logic.Function.Basic
import Mathlib.Tactic.TypeStar

/-!
# Custody of resources

Who holds what: every live resource is held by exactly one holder, and nothing else is held.
-/

namespace Sg200x.Library

variable {ι κ : Type*}

structure Custody (live : κ → Prop) (held : ι → Option κ) : Prop where
  sound : ∀ i k, held i = some k → live k
  complete : ∀ k, live k → ∃ i, held i = some k
  one : ∀ i j k, held i = some k → held j = some k → i = j

namespace Custody

variable {live live' : κ → Prop} {held : ι → Option κ} {i : ι} {k : κ}

theorem congr (h : Custody live held) (hlive : ∀ k, live' k ↔ live k) : Custody live' held where
  sound i k hi := (hlive k).mpr (h.sound i k hi)
  complete k hk := h.complete k ((hlive k).mp hk)
  one := h.one

/-- No one else holds it. -/
theorem ne_of_ne (h : Custody live held) {j : ι} (hi : held i = some k) (hne : j ≠ i) :
    held j ≠ some k :=
  fun hj => hne (h.one j i k hj hi)

variable [DecidableEq ι]

theorem acquire (h : Custody live held) (hi : held i = none) (hfree : ¬live k)
    (hlive : ∀ k', live' k' ↔ live k' ∨ k' = k) :
    Custody live' (Function.update held i (some k)) := by
  have hother : ∀ j k', j ≠ i → Function.update held i (some k) j = some k' → held j = some k' := by
    intro j k' hne hj
    rwa [Function.update_of_ne hne] at hj
  have hself : ∀ k', Function.update held i (some k) i = some k' → k' = k := by
    intro k' hk'
    rw [Function.update_self] at hk'
    exact (Option.some.inj hk').symm
  refine ⟨?_, ?_, ?_⟩
  · intro j k' hj
    rw [hlive]
    by_cases hne : j = i
    · subst hne
      exact .inr (hself k' hj)
    · exact .inl (h.sound j k' (hother j k' hne hj))
  · intro k' hk'
    rcases (hlive k').mp hk' with hold | rfl
    · obtain ⟨j, hj⟩ := h.complete k' hold
      refine ⟨j, ?_⟩
      rw [Function.update_of_ne, hj]
      intro heq
      rw [heq, hi] at hj
      cases hj
    · exact ⟨i, Function.update_self _ _ _⟩
  · intro j j' k' hj hj'
    by_cases h1 : j = i <;> by_cases h2 : j' = i
    · rw [h1, h2]
    · subst h1
      rw [hself k' hj] at hj'
      exact absurd (h.sound j' k (hother j' k h2 hj')) hfree
    · subst h2
      rw [hself k' hj'] at hj
      exact absurd (h.sound j k (hother j k h1 hj)) hfree
    · exact h.one j j' k' (hother j k' h1 hj) (hother j' k' h2 hj')

theorem release (h : Custody live held) (hi : held i = some k)
    (hlive : ∀ k', live' k' ↔ live k' ∧ k' ≠ k) : Custody live' (Function.update held i none) := by
  have hother : ∀ j k', Function.update held i none j = some k' → j ≠ i ∧ held j = some k' := by
    intro j k' hj
    by_cases hne : j = i
    · rw [hne, Function.update_self] at hj
      cases hj
    · rw [Function.update_of_ne hne] at hj
      exact ⟨hne, hj⟩
  refine ⟨?_, ?_, ?_⟩
  · intro j k' hj
    obtain ⟨hne, hj'⟩ := hother j k' hj
    refine (hlive k').mpr ⟨h.sound j k' hj', ?_⟩
    intro heq
    exact h.ne_of_ne hi hne (heq ▸ hj')
  · intro k' hk'
    obtain ⟨hold, hne⟩ := (hlive k').mp hk'
    obtain ⟨j, hj⟩ := h.complete k' hold
    refine ⟨j, ?_⟩
    rw [Function.update_of_ne, hj]
    intro heq
    rw [heq, hi] at hj
    exact hne (Option.some.inj hj).symm
  · intro j j' k' hj hj'
    exact h.one j j' k' (hother j k' hj).2 (hother j' k' hj').2

end Custody

end Sg200x.Library
