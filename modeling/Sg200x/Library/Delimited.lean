import Mathlib.Data.List.Basic

/-!
# Streams of delimited records

A record is a header and a body, and a delimiter follows each of the two.  Headers are free
of the delimiter and bodies are not: the stream determines the sequence of its fields, and
the records only up to where that sequence is cut.
-/

namespace Sg200x.Library.Delimited

variable {α : Type*}

/-- Fields with the delimiter after each. -/
def terminated (d : α) (fields : List (List α)) : List α :=
  fields.flatMap (· ++ [d])

@[simp] theorem terminated_nil (d : α) : terminated d [] = [] := rfl

@[simp] theorem terminated_cons (d : α) (field : List α) (fields : List (List α)) :
    terminated d (field :: fields) = field ++ [d] ++ terminated d fields := rfl

def recordStream (d : α) (records : List (List α × List α)) : List α :=
  records.flatMap fun record => record.1 ++ [d] ++ record.2 ++ [d]

theorem terminated_eq_intercalate (d : α) (fields : List (List α)) (h : fields ≠ []) :
    terminated d fields = [d].intercalate fields ++ [d] := by
  induction fields with
  | nil => exact absurd rfl h
  | cons field fields ih =>
      cases fields with
      | nil => simp
      | cons next rest =>
          rw [terminated_cons, ih (by simp), List.intercalate_cons_cons]
          simp

variable [DecidableEq α]

/-- The fields of a record: the header, and the body cut at the delimiters it contains. -/
def recordFields (d : α) (record : List α × List α) : List (List α) :=
  record.1 :: record.2.splitOn d

theorem terminated_splitOn (d : α) (body : List α) :
    terminated d (body.splitOn d) = body ++ [d] := by
  rw [terminated_eq_intercalate d _ (List.splitOn_ne_nil d body), List.intercalate_splitOn]

/-- Cutting a stream of delimiter-free fields gives the fields back. -/
theorem splitOn_terminated (d : α) (fields : List (List α)) (hfree : ∀ f ∈ fields, d ∉ f) :
    (terminated d fields).splitOn d = fields ++ [[]] := by
  induction fields with
  | nil => rfl
  | cons field fields ih =>
      rw [terminated_cons, List.append_assoc, List.singleton_append,
        List.splitOn_append_cons_self_of_not_mem (hfree field (by simp)),
        ih fun f hf => hfree f (by simp [hf])]
      rfl

theorem terminated_injective_of_free {d : α} {fields others : List (List α)}
    (hfields : ∀ f ∈ fields, d ∉ f) (hothers : ∀ f ∈ others, d ∉ f)
    (h : terminated d fields = terminated d others) : fields = others := by
  have hsplit := congrArg (List.splitOn d) h
  rw [splitOn_terminated d fields hfields, splitOn_terminated d others hothers] at hsplit
  exact List.append_cancel_right hsplit

theorem free_of_mem_splitOn {d : α} {body field : List α} (h : field ∈ body.splitOn d) :
    d ∉ field := by
  induction body generalizing field with
  | nil =>
      rw [List.splitOn_nil, List.mem_singleton] at h
      simp [h]
  | cons x body ih =>
      rw [List.splitOn_cons_eq_if_modifyHead] at h
      cases hrest : body.splitOn d with
      | nil => exact absurd hrest (List.splitOn_ne_nil d body)
      | cons head tail =>
          rw [hrest] at h
          have hhead : d ∉ head := ih (by simp [hrest])
          have htail : ∀ f ∈ tail, d ∉ f := fun f hf => ih (by simp [hrest, hf])
          by_cases hx : x = d
          · rcases (by simpa [hx] using h : field = [] ∨ field = head ∨ field ∈ tail)
              with rfl | rfl | hmem
            · simp
            · exact hhead
            · exact htail field hmem
          · rcases (by simpa [hx] using h : field = x :: head ∨ field ∈ tail) with rfl | hmem
            · simp [hhead, Ne.symm hx]
            · exact htail field hmem

theorem recordFields_injective (d : α) : Function.Injective (recordFields d) := by
  intro record other h
  have hbody := congrArg [d].intercalate (List.tail_eq_of_cons_eq h)
  rw [List.intercalate_splitOn, List.intercalate_splitOn] at hbody
  exact Prod.ext (List.head_eq_of_cons_eq h) hbody

theorem recordStream_eq_terminated (d : α) (records : List (List α × List α)) :
    recordStream d records = terminated d (records.flatMap (recordFields d)) := by
  induction records with
  | nil => rfl
  | cons record records ih =>
      have happend : terminated d (recordFields d record ++ records.flatMap (recordFields d)) =
          terminated d (recordFields d record) ++
            terminated d (records.flatMap (recordFields d)) := List.flatMap_append
      rw [List.flatMap_cons, happend, ← ih, recordFields, terminated_cons, terminated_splitOn]
      simp [recordStream]

/-- The stream determines the sequence of the fields, and nothing else. -/
theorem recordStream_eq_iff {d : α} {records others : List (List α × List α)}
    (hrecords : ∀ r ∈ records, d ∉ r.1) (hothers : ∀ r ∈ others, d ∉ r.1) :
    recordStream d records = recordStream d others ↔
      records.flatMap (recordFields d) = others.flatMap (recordFields d) := by
  have hfree : ∀ rs : List (List α × List α), (∀ r ∈ rs, d ∉ r.1) →
      ∀ f ∈ rs.flatMap (recordFields d), d ∉ f := by
    intro rs hrs f hf
    obtain ⟨r, hr, hmem⟩ := List.mem_flatMap.mp hf
    rcases List.mem_cons.mp hmem with rfl | hbody
    · exact hrs r hr
    · exact free_of_mem_splitOn hbody
  rw [recordStream_eq_terminated, recordStream_eq_terminated]
  constructor
  · exact terminated_injective_of_free (hfree records hrecords) (hfree others hothers)
  · exact congrArg (terminated d)

/-- The same fields, cut into records at the same places, are the same records. -/
theorem eq_of_fields_eq {d : α} {records others : List (List α × List α)}
    (hfields : records.flatMap (recordFields d) = others.flatMap (recordFields d))
    (hcuts : records.map (fun r => (recordFields d r).length) =
      others.map fun r => (recordFields d r).length) : records = others := by
  have hgroups : records.map (recordFields d) = others.map (recordFields d) := by
    apply List.eq_iff_flatten_eq.mpr
    constructor
    · simpa only [List.flatMap_def] using hfields
    · simpa only [List.map_map, Function.comp_def] using hcuts
  exact (List.map_injective_iff.mpr (recordFields_injective d)) hgroups

end Sg200x.Library.Delimited
