import Mathlib.Data.List.Basic
import Mathlib.Data.List.TakeDrop
import Mathlib.Tactic.TypeStar

/-!
# Bounded queues with their history

A queue keeps what it has accepted and how much of it has been taken.  It is in order and within
its capacity by construction.
-/

namespace Sg200x.Library

structure BoundedQueue (α : Type*) (capacity : ℕ) where
  accepted : List α
  taken : ℕ
  taken_le : taken ≤ accepted.length
  length_le : accepted.length ≤ taken + capacity

namespace BoundedQueue

variable {α : Type*} {capacity : ℕ} {q r : BoundedQueue α capacity} {a : α}

def empty : BoundedQueue α capacity := ⟨[], 0, Nat.le_refl _, Nat.zero_le _⟩

/-- What waits. -/
def content (q : BoundedQueue α capacity) : List α := q.accepted.drop q.taken

/-- What has been taken. -/
def consumed (q : BoundedQueue α capacity) : List α := q.accepted.take q.taken

/-- A full queue refuses. -/
def send (q : BoundedQueue α capacity) (a : α) : Option (BoundedQueue α capacity) :=
  if h : q.accepted.length < q.taken + capacity then
    some
      { accepted := q.accepted ++ [a]
        taken := q.taken
        taken_le := by
          rw [List.length_append]
          exact Nat.le_trans q.taken_le (Nat.le_add_right _ _)
        length_le := by
          rw [List.length_append, List.length_singleton]
          omega }
  else none

def receive (q : BoundedQueue α capacity) : Option (α × BoundedQueue α capacity) :=
  if h : q.taken < q.accepted.length then
    some (q.accepted[q.taken],
      { accepted := q.accepted
        taken := q.taken + 1
        taken_le := h
        length_le := Nat.le_trans q.length_le (by omega) })
  else none

theorem consumed_append_content (q : BoundedQueue α capacity) :
    q.consumed ++ q.content = q.accepted := List.take_append_drop _ _

theorem consumed_prefix (q : BoundedQueue α capacity) : q.consumed <+: q.accepted :=
  List.take_prefix _ _

theorem length_content_le (q : BoundedQueue α capacity) : q.content.length ≤ capacity := by
  have hle := q.length_le
  rw [content, List.length_drop]
  omega

theorem send_eq_some (h : q.send a = some r) :
    r.accepted = q.accepted ++ [a] ∧ r.taken = q.taken ∧ r.consumed = q.consumed := by
  unfold send at h
  split_ifs at h
  obtain rfl := Option.some.inj h
  exact ⟨rfl, rfl, List.take_append_of_le_length q.taken_le⟩

theorem send_eq_none (h : q.send a = none) : q.content.length = capacity := by
  unfold send at h
  split_ifs at h with hroom
  have hle := q.length_le
  rw [content, List.length_drop]
  omega

theorem receive_eq_some (h : q.receive = some (a, r)) :
    r.accepted = q.accepted ∧ r.taken = q.taken + 1 ∧ r.consumed = q.consumed ++ [a] := by
  unfold receive at h
  split_ifs at h with hlt
  obtain ⟨rfl, rfl⟩ := Prod.mk.inj (Option.some.inj h)
  exact ⟨rfl, rfl, List.take_succ_eq_append_getElem hlt⟩

end BoundedQueue

end Sg200x.Library
