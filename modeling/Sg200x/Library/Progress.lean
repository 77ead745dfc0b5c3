import Mathlib.Algebra.BigOperators.Group.List.Basic
import Mathlib.Algebra.Ring.Nat
import Mathlib.Tactic.TypeStar
import Sg200x.Library.Transition

/-!
# Runs to the end

A system can always be brought to an end if, from every state that is not one, some step leaves
less to do.  Where what is left is a sum over a list of parties, a step of one of them changes its
own term.
-/

namespace Sg200x.Library.Transition

variable {σ ℓ : Type*} {S : System σ ℓ}

/-- Each state of the invariant is an end or has a run to one that leaves less. -/
theorem exists_exec_of_runs (invariant done : σ → Prop) (left : σ → ℕ)
    (hrun : ∀ s, invariant s → done s ∨
      ∃ labels t, exec S.step labels s = some t ∧ invariant t ∧ left t < left s) {s : σ}
    (h : invariant s) :
    ∃ labels t, exec S.step labels s = some t ∧ invariant t ∧ done t := by
  induction hn : left s using Nat.strongRecOn generalizing s with
  | ind n ih =>
      rcases hrun s h with hdone | ⟨labels, t, ht, hinvariant, hlt⟩
      · exact ⟨[], s, rfl, h, hdone⟩
      · obtain ⟨more, u, hexec, hu⟩ := ih (left t) (hn ▸ hlt) hinvariant rfl
        refine ⟨labels ++ more, u, ?_, hu⟩
        rw [exec_append, ht]
        exact hexec

/-- Each state of the invariant is an end or has a step that leaves less. -/
theorem exists_exec (invariant done : σ → Prop) (left : σ → ℕ)
    (hstep : ∀ s, invariant s → done s ∨
      ∃ label t, S.step label s = some t ∧ invariant t ∧ left t < left s) {s : σ}
    (h : invariant s) :
    ∃ labels t, exec S.step labels s = some t ∧ invariant t ∧ done t := by
  apply exists_exec_of_runs invariant done left _ h
  intro s hs
  refine (hstep s hs).imp_right ?_
  rintro ⟨label, t, ht, hinvariant, hlt⟩
  exact ⟨[label], t, by rw [exec_cons, ht, Option.bind_some, exec_nil], hinvariant, hlt⟩

/-- A system that can always be brought to an end. -/
theorem Reachable.exists_exec {done : σ → Prop} (left : σ → ℕ)
    (hstep : ∀ s, Reachable S s → done s ∨ ∃ label t, S.step label s = some t ∧ left t < left s)
    {s : σ} (h : Reachable S s) :
    ∃ labels t, Transition.exec S.step labels s = some t ∧ Reachable S t ∧ done t := by
  refine Transition.exists_exec (Reachable S) done left (fun s hs => (hstep s hs).imp_right ?_) h
  rintro ⟨label, t, ht, hlt⟩
  exact ⟨label, t, ht, hs.step ht, hlt⟩

end Sg200x.Library.Transition

namespace Sg200x.Library

variable {α : Type*}

/-- The entry `i` becomes what is left of it. -/
def advance (xs : List α) (i : ℕ) : Option α → List α
  | none => xs.eraseIdx i
  | some x => xs.set i x

theorem sum_advance (left : α → ℕ) {xs : List α} {i : ℕ} {x : α} (hx : xs[i]? = some x)
    (x? : Option α) :
    ((advance xs i x?).map left).sum + left x = (xs.map left).sum + x?.elim 0 left := by
  induction xs generalizing i with
  | nil => cases hx
  | cons y ys ih =>
      cases i with
      | zero =>
          obtain rfl : y = x := Option.some.inj hx
          cases x? with
          | none => simp [advance, Nat.add_comm]
          | some x' =>
              simp only [advance, List.set_cons_zero, List.map_cons, List.sum_cons, Option.elim_some]
              omega
      | succ i =>
          have hys := ih hx
          cases x? with
          | none =>
              simp only [advance, List.eraseIdx_cons_succ, List.map_cons, List.sum_cons] at hys ⊢
              omega
          | some x' =>
              simp only [advance, List.set_cons_succ, List.map_cons, List.sum_cons] at hys ⊢
              omega

/-- Less is left where a party has come on. -/
theorem sum_advance_lt (left : α → ℕ) {xs : List α} {i : ℕ} {x : α} (hx : xs[i]? = some x)
    {x? : Option α} (hlt : x?.elim 0 left < left x) :
    ((advance xs i x?).map left).sum < (xs.map left).sum := by
  have hsum := sum_advance left hx x?
  omega

end Sg200x.Library
