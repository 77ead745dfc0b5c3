import Mathlib.Data.List.DropRight
import Mathlib.Data.List.Infix

/-!
# Searching through a window

What occurs in a stream occurs in what has been read before, or in the window that puts the end
of it before what is read next.
-/

namespace Sg200x.Library.Window

variable {α : Type*} {needle read next : List α} {n : ℕ}

theorem rtake_append_eq_drop (read next : List α) (n : ℕ) :
    read.rtake n ++ next = (read ++ next).drop (read.length - n) := by
  rw [List.rtake, List.drop_append_of_le_length (by omega)]

/-- The end of the window is the end of all that has been read. -/
theorem rtake_append (read next : List α) (n : ℕ) :
    (read.rtake n ++ next).rtake n = (read ++ next).rtake n := by
  rw [rtake_append_eq_drop, List.rtake, List.rtake, List.drop_drop, List.length_drop]
  congr 1
  rw [List.length_append]
  omega

/-- An overlap of one less than the needle misses no occurrence. -/
theorem infix_append_iff (hlength : needle.length ≤ n + 1) :
    needle <:+: read ++ next ↔ needle <:+: read ∨ needle <:+: read.rtake n ++ next := by
  constructor
  · intro ⟨before, after, hsplit⟩
    have hlengths := congrArg List.length hsplit
    simp only [List.length_append] at hlengths
    by_cases hinside : next.length ≤ after.length
    · left
      -- The occurrence ends before what is read next.
      have hafter : after <:+ read ++ next := ⟨before ++ needle, hsplit⟩
      obtain ⟨more, hmore⟩ :=
        List.suffix_of_suffix_length_le (List.suffix_append read next) hafter hinside
      rw [← hmore, ← List.append_assoc] at hsplit
      exact ⟨before, more, List.append_cancel_right hsplit⟩
    · right
      -- The occurrence starts inside the overlap.
      refine ⟨before.drop (read.length - n), after, ?_⟩
      rw [rtake_append_eq_drop, ← hsplit, List.append_assoc, List.append_assoc,
        List.drop_append_of_le_length (by omega)]
  · rintro (hold | hnew)
    · exact hold.trans List.infix_append_left
    · rw [rtake_append_eq_drop] at hnew
      exact hnew.trans (List.drop_suffix _ _).isInfix

end Sg200x.Library.Window
