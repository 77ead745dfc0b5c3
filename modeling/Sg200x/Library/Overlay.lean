import Mathlib.Data.List.Nodup

/-!
# Overlays

Layers are listed from the highest to the lowest.  A layer provides entries and mentions names;
it hides what the layers below it provide under a name that it mentions.
-/

namespace Sg200x.Library.Overlay

variable {ι α ν : Type*} [DecidableEq ν]

/-- Layers whose entries have distinct names, all of which the layer mentions. -/
structure Stack (ι α ν : Type*) where
  own : ι → List α
  name : α → ν
  mentions : ι → List ν
  own_nodup : ∀ layer, ((own layer).map name).Nodup
  own_mentioned : ∀ layer, ∀ a ∈ own layer, name a ∈ mentions layer

namespace Stack

variable (s : Stack ι α ν)

/-- What is visible through the layers, from the lowest layer to the highest. -/
def overlay : List ι → List α
  | [] => []
  | layer :: lower => (overlay lower).filter (s.name · ∉ s.mentions layer) ++ s.own layer

variable {s}

theorem overlay_append (upper lower : List ι) :
    s.overlay (upper ++ lower) =
      (s.overlay lower).filter (fun a => ∀ layer ∈ upper, s.name a ∉ s.mentions layer) ++
        s.overlay upper := by
  induction upper with
  | nil => simp [overlay]
  | cons layer upper ih =>
      rw [List.cons_append, overlay, ih, overlay, List.filter_append, List.filter_filter,
        List.append_assoc]
      congr 1
      apply List.filter_congr
      intro a _
      simp

theorem mem_overlay_append {upper lower : List ι} {a : α} :
    a ∈ s.overlay (upper ++ lower) ↔
      (a ∈ s.overlay lower ∧ ∀ layer ∈ upper, s.name a ∉ s.mentions layer) ∨
        a ∈ s.overlay upper := by
  rw [overlay_append, List.mem_append, List.mem_filter, decide_eq_true_iff]

theorem mem_overlay_singleton {layer : ι} {a : α} : a ∈ s.overlay [layer] ↔ a ∈ s.own layer := by
  simp [overlay]

/-- An entry is visible if no layer above the one that provides it mentions its name. -/
theorem mem_overlay_iff {layers : List ι} {a : α} :
    a ∈ s.overlay layers ↔ ∃ upper layer lower, layers = upper ++ layer :: lower ∧
      a ∈ s.own layer ∧ ∀ other ∈ upper, s.name a ∉ s.mentions other := by
  constructor
  · intro h
    induction layers with
    | nil => simp [overlay] at h
    | cons first layers ih =>
        rw [overlay, List.mem_append, List.mem_filter] at h
        rcases h with ⟨hbelow, hhidden⟩ | hown
        · obtain ⟨upper, layer, lower, hlayers, hmem, hfree⟩ := ih hbelow
          refine ⟨first :: upper, layer, lower, by rw [hlayers, List.cons_append], hmem, ?_⟩
          intro other hother
          rcases List.mem_cons.mp hother with heq | hupper
          · rw [heq]
            exact of_decide_eq_true hhidden
          · exact hfree other hupper
        · exact ⟨[], first, layers, rfl, hown, by simp⟩
  · intro ⟨upper, layer, lower, hlayers, hmem, hfree⟩
    rw [hlayers, mem_overlay_append]
    left
    exact ⟨by rw [overlay]; exact List.mem_append_right _ hmem, hfree⟩

/-- Every name is visible at most once. -/
theorem nodup_overlay_names (layers : List ι) : ((s.overlay layers).map s.name).Nodup := by
  induction layers with
  | nil => exact List.nodup_nil
  | cons layer lower ih =>
      rw [overlay, List.map_append]
      apply List.Nodup.append
      · exact ih.sublist (List.filter_sublist.map _)
      · exact s.own_nodup layer
      · intro name hbelow hown
        obtain ⟨a, ha, hname⟩ := List.mem_map.mp hbelow
        obtain ⟨b, hb, hname'⟩ := List.mem_map.mp hown
        have hhidden := of_decide_eq_true (List.mem_filter.mp ha).2
        apply hhidden
        rw [hname, ← hname']
        exact s.own_mentioned layer b hb

theorem nodup_overlay (layers : List ι) : (s.overlay layers).Nodup :=
  (nodup_overlay_names layers).of_map

theorem eq_of_mem_overlay {layers : List ι} {a b : α} (ha : a ∈ s.overlay layers)
    (hb : b ∈ s.overlay layers) (h : s.name a = s.name b) : a = b :=
  List.inj_on_of_nodup_map (nodup_overlay_names layers) ha hb h

end Stack

end Sg200x.Library.Overlay
