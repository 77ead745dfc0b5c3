import Mathlib.Data.List.Forall2

/-!
# Loops that stop at the first failure

What holds of a loop that goes through its list, and what its list violates where it does not.
-/

namespace Sg200x.Library.Checked

variable {ε α β : Type*}

/-- What a computation gives, or why it fails. -/
def Gives (invariant : α → Prop) (valid : Prop) : Except ε α → Prop
  | .ok a => invariant a
  | .error _ => ¬ valid

/-- The loop gives what its steps give; a list that fails has no valid extension. -/
theorem foldlM_gives {f : α → β → Except ε α} (invariant : List β → α → Prop)
    (valid : List β → Prop) (hbefore : ∀ done more, valid (done ++ more) → valid done)
    (hstep : ∀ done a b, invariant done a →
      Gives (invariant (done ++ [b])) (valid (done ++ [b])) (f a b))
    {a : α} (h : invariant [] a) (l : List β) : Gives (invariant l) (valid l) (l.foldlM f a) := by
  suffices ∀ done a, invariant done a →
      Gives (invariant (done ++ l)) (valid (done ++ l)) (l.foldlM f a) from this [] a h
  clear h a
  induction l with
  | nil =>
      intro done a h
      rw [List.append_nil]
      exact h
  | cons b l ih =>
      intro done a h
      have hnext := hstep done a b h
      rw [List.foldlM_cons]
      cases hb : f a b with
      | ok a' =>
          rw [hb] at hnext
          have hrest := ih (done ++ [b]) a' hnext
          rwa [List.append_assoc, List.singleton_append] at hrest
      | error e =>
          rw [hb] at hnext
          intro hvalid
          rw [List.append_cons] at hvalid
          exact hnext (hbefore _ _ hvalid)

theorem mapM_eq_ok_iff {f : α → Except ε β} {l : List α} {bs : List β} :
    l.mapM f = .ok bs ↔ List.Forall₂ (fun a b => f a = .ok b) l bs := by
  induction l generalizing bs with
  | nil =>
      rw [List.mapM_nil, List.forall₂_nil_left_iff]
      exact ⟨fun h => (Except.ok.inj h).symm, fun h => h ▸ rfl⟩
  | cons a l ih =>
      rw [List.mapM_cons, List.forall₂_cons_left_iff]
      cases ha : f a with
      | error e =>
          constructor
          · exact fun h => nomatch h
          · rintro ⟨b, bs', hb, -⟩
            cases hb
      | ok b =>
          cases hl : l.mapM f with
          | error e =>
              constructor
              · exact fun h => nomatch h
              · rintro ⟨b', bs', -, hbs, -⟩
                rw [← ih, hl] at hbs
                cases hbs
          | ok bs' =>
              constructor
              · intro h
                obtain rfl : b :: bs' = bs := Except.ok.inj h
                exact ⟨b, bs', rfl, ih.mp hl, rfl⟩
              · rintro ⟨b', bs'', hb, hbs, rfl⟩
                rw [← ih, hl] at hbs
                cases hb
                cases hbs
                rfl

theorem exists_mapM_ok {f : α → Except ε β} {l : List α} (h : ∀ a ∈ l, ∃ b, f a = .ok b) :
    ∃ bs, l.mapM f = .ok bs := by
  induction l with
  | nil => exact ⟨[], rfl⟩
  | cons a l ih =>
      obtain ⟨b, hb⟩ := h a List.mem_cons_self
      obtain ⟨bs, hbs⟩ := ih fun a ha => h a (List.mem_cons_of_mem _ ha)
      refine ⟨b :: bs, ?_⟩
      rw [List.mapM_cons, hb, hbs]
      rfl

theorem forM_eq_ok_iff {f : α → Except ε Unit} {l : List α} :
    l.forM f = .ok () ↔ ∀ a ∈ l, f a = .ok () := by
  induction l with
  | nil => simp [List.forM, pure, Except.pure]
  | cons a l ih =>
      rw [List.forall_mem_cons, ← ih]
      change (f a >>= fun _ => l.forM f) = .ok () ↔ _
      cases f a with
      | error e =>
          constructor
          · exact fun h => nomatch h
          · rintro ⟨h, -⟩
            cases h
      | ok u =>
          constructor
          · exact fun h => ⟨rfl, h⟩
          · exact fun h => h.2

end Sg200x.Library.Checked
