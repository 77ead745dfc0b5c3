import Mathlib.Data.List.Chain
import Mathlib.Data.List.Nodup
import Mathlib.Logic.Relation

/-!
# Lineages

A lineage lists an entry, its successor, the successor of that, and so on.  Where the
successor depends on a key alone, an entry that brings a key back closes a cycle.
-/

namespace Sg200x.Library.Lineage

open Relation

variable {α κ : Type*} {R : α → α → Prop} {key : α → κ} {l : List α} {a b c last : α}

/-- Entries with the same key have the same successor. -/
def Keyed (R : α → α → Prop) (key : α → κ) : Prop :=
  ∀ ⦃a b c d⦄, key a = key b → R a c → R b d → c = d

theorem Keyed.unique (h : Keyed R key) (hb : R a b) (hc : R a c) : b = c := h rfl hb hc

theorem exists_successor (h : (l ++ [last]).IsChain R) (ha : a ∈ l) : ∃ b ∈ l ++ [last], R a b := by
  induction l with
  | nil => simp at ha
  | cons x l ih =>
      cases hrest : l ++ [last] with
      | nil => simp at hrest
      | cons y rest =>
          rw [List.cons_append, hrest, List.isChain_cons_cons] at h
          rcases List.mem_cons.mp ha with rfl | hl
          · exact ⟨y, by simp [hrest], h.1⟩
          · obtain ⟨b, hb, hR⟩ := ih (hrest ▸ h.2) hl
            exact ⟨b, List.mem_cons_of_mem _ hb, hR⟩

/-- A lineage without repetitions meets every key once. -/
theorem nodup_keys (hkeyed : Keyed R key) (hchain : (l ++ [last]).IsChain R)
    (hnodup : (l ++ [last]).Nodup) : (l.map key).Nodup := by
  induction l with
  | nil => exact List.nodup_nil
  | cons a l ih =>
      rw [List.cons_append] at hchain hnodup
      rw [List.map_cons, List.nodup_cons]
      refine ⟨?_, ih hchain.tail (List.nodup_cons.mp hnodup).2⟩
      intro hkey
      obtain ⟨b, hb, hab⟩ := List.mem_map.mp hkey
      obtain ⟨s, t, rfl⟩ := List.append_of_mem hb
      -- Both successors are the same entry, before and behind `b`.
      have hafter : (b :: (t ++ [last])).IsChain R := by
        have htail := hchain.tail
        simp only [List.tail_cons, List.append_assoc, List.cons_append] at htail
        exact htail.right_of_append
      obtain ⟨y, hy, hRy⟩ : ∃ y ∈ t ++ [last], R b y := by
        cases hmore : t ++ [last] with
        | nil => simp at hmore
        | cons y more =>
            rw [hmore] at hafter
            exact ⟨y, by simp, (List.isChain_cons_cons.mp hafter).1⟩
      obtain ⟨x, hx, hRx⟩ : ∃ x ∈ s ++ [b], R a x := by
        cases s with
        | nil => exact ⟨b, by simp, (List.isChain_cons_cons.mp hchain).1⟩
        | cons x s => exact ⟨x, by simp, (List.isChain_cons_cons.mp hchain).1⟩
      have hxy : x = y := hkeyed hab.symm hRx hRy
      have hrest := (List.nodup_cons.mp hnodup).2
      simp only [List.append_assoc, List.cons_append] at hrest
      rw [show s ++ b :: (t ++ [last]) = (s ++ [b]) ++ (t ++ [last]) by simp,
        List.nodup_append] at hrest
      exact hrest.2.2 x hx y hy hxy

theorem exists_predecessor (h : (a :: l).IsChain R) (hb : b ∈ l) : ∃ c ∈ a :: l, R c b := by
  induction l generalizing a with
  | nil => simp at hb
  | cons x l ih =>
      rw [List.isChain_cons_cons] at h
      rcases List.mem_cons.mp hb with rfl | hl
      · exact ⟨a, by simp, h.1⟩
      · obtain ⟨c, hc, hR⟩ := ih h.2 hl
        exact ⟨c, List.mem_cons_of_mem _ hc, hR⟩

/-- What is closed under successors holds all that can be reached. -/
theorem mem_of_reflTransGen {S : α → Prop} (ha : S a) (hclosed : ∀ b c, S b → R b c → S c)
    (h : ReflTransGen R a b) : S b := by
  induction h with
  | refl => exact ha
  | tail _ hstep ih => exact hclosed _ _ ih hstep

theorem reflTransGen_of_mem (h : (a :: l).IsChain R) (hb : b ∈ a :: l) : ReflTransGen R a b := by
  induction l generalizing a with
  | nil => rw [List.mem_singleton.mp hb]
  | cons x l ih =>
      rw [List.isChain_cons_cons] at h
      rcases List.mem_cons.mp hb with rfl | hrest
      · exact .refl
      · exact .head h.1 (ih h.2 hrest)

/-- An entry leads to all that follow it; one that comes back closes a cycle. -/
theorem transGen_of_mem (h : (l ++ [c]).IsChain R) (ha : a ∈ l) : TransGen R a c := by
  obtain ⟨s, t, rfl⟩ := List.append_of_mem ha
  rw [List.append_assoc, List.cons_append] at h
  have hafter := h.right_of_append
  cases hrest : t ++ [c] with
  | nil => simp at hrest
  | cons x rest =>
      rw [hrest, List.isChain_cons_cons] at hafter
      have hmem : c ∈ x :: rest := by simp [← hrest]
      exact .head' hafter.1 (reflTransGen_of_mem hafter.2 hmem)

/-- Where successors are unique, a lineage is determined by its first entry and its end. -/
theorem eq_of_ended (hunique : ∀ {a b c}, R a b → R a c → b = c) {m : List α}
    (hl : (l ++ [last]).IsChain R) (hm : (m ++ [last]).IsChain R)
    (hhead : (l ++ [last]).head? = (m ++ [last]).head?) (hlast : last ∉ l) (hlast' : last ∉ m) :
    l = m := by
  induction l generalizing m with
  | nil =>
      cases m with
      | nil => rfl
      | cons b m =>
          have heq : last = b := by simpa using hhead
          exact absurd (heq ▸ List.mem_cons_self) hlast'
  | cons a l ih =>
      cases m with
      | nil =>
          have heq : a = last := by simpa using hhead
          exact absurd (heq ▸ List.mem_cons_self) hlast
      | cons b m =>
          obtain rfl : a = b := by simpa using hhead
          rw [List.mem_cons, not_or] at hlast hlast'
          rw [List.cons_append] at hl hm
          have hnext : (l ++ [last]).head? = (m ++ [last]).head? := by
            cases hx : l ++ [last] with
            | nil => simp at hx
            | cons x xs =>
                cases hy : m ++ [last] with
                | nil => simp at hy
                | cons y ys =>
                    rw [hx, List.isChain_cons_cons] at hl
                    rw [hy, List.isChain_cons_cons] at hm
                    rw [List.head?_cons, List.head?_cons, hunique hl.1 hm.1]
          rw [ih hl.tail hm.tail hnext hlast.2 hlast'.2]

theorem transGen_forward (hunique : ∀ {a b c}, R a b → R a c → b = c) (h : TransGen R a a)
    (hb : R a b) : TransGen R b b := by
  obtain ⟨c, hc, hback⟩ := TransGen.head'_iff.mp h
  rw [hunique hb hc]
  exact .tail' hback hc

/-- An entry from which a lineage ends lies on no cycle. -/
theorem not_transGen_of_ends (hunique : ∀ {a b c}, R a b → R a c → b = c)
    (hends : ∀ b, ¬ R last b) (h : ReflTransGen R a last) : ¬ TransGen R a a := by
  intro hcycle
  have hforward : ∀ {c}, ReflTransGen R a c → TransGen R c c := by
    intro c hreach
    induction hreach with
    | refl => exact hcycle
    | tail _ hstep ih => exact transGen_forward hunique ih hstep
  obtain ⟨b, hb, -⟩ := TransGen.head'_iff.mp (hforward h)
  exact hends b hb

end Sg200x.Library.Lineage
