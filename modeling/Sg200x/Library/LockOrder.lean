import Mathlib.Logic.Relation
import Mathlib.Order.Basic

/-!
# Lock orders

Threads that wait for a lock only while the locks they hold come earlier in one order
never wait for each other in a circle.
-/

namespace Sg200x.Library.LockOrder

variable {θ ℒ : Type*}

/-- The thread waits for a lock that the other one holds. -/
def Blocks (waits holds : θ → ℒ → Prop) (thread other : θ) : Prop :=
  ∃ lock, waits thread lock ∧ holds other lock

/-- A thread that waits for a lock holds only locks before it. -/
def Ordered [Preorder ℒ] (waits holds : θ → ℒ → Prop) : Prop :=
  ∀ thread lock held, waits thread lock → holds thread held → held < lock

variable [Preorder ℒ] {waits holds : θ → ℒ → Prop}

/-- Along a chain of waiting threads the locks go up. -/
theorem Ordered.chain (h : Ordered waits holds) {thread other : θ}
    (hchain : Relation.TransGen (Blocks waits holds) thread other) :
    ∃ lock held, waits thread lock ∧ holds other held ∧ lock ≤ held := by
  induction hchain with
  | single hblocks =>
      obtain ⟨lock, hwaits, hholds⟩ := hblocks
      exact ⟨lock, lock, hwaits, hholds, le_refl lock⟩
  | tail _ hblocks ih =>
      obtain ⟨lock, held, hwaits, hholds, hle⟩ := ih
      obtain ⟨next, hwaits', hholds'⟩ := hblocks
      have hlt : held < next := h _ next held hwaits' hholds
      exact ⟨lock, next, hwaits, hholds', hle.trans hlt.le⟩

theorem Ordered.acyclic (h : Ordered waits holds) (thread : θ) :
    ¬Relation.TransGen (Blocks waits holds) thread thread := by
  intro hchain
  obtain ⟨lock, held, hwaits, hholds, hle⟩ := h.chain hchain
  exact absurd (h thread lock held hwaits hholds) (not_lt_of_ge hle)

end Sg200x.Library.LockOrder
