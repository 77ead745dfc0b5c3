import Mathlib.Algebra.BigOperators.Fin
import Mathlib.Data.List.Perm.Basic
import Mathlib.Data.List.Nodup

/-!
# Indices shared out in turn

Parties take the indices below a total in turn: the `k`-th index of a party is `k` rounds after
its first one.  A log of what was taken, in which every party has taken an initial part of its
indices, has no index twice, and every index once all shares are taken.
-/

namespace Sg200x.Library.Turns

/-- The `k`-th index of a party. -/
def index (parties party k : ℕ) : ℕ := k * parties + party

/-- How many of the indices below a total a party takes. -/
def share (total parties party : ℕ) : ℕ :=
  total / parties + if party < total % parties then 1 else 0

variable {total parties : ℕ}

theorem index_lt_iff {party k : ℕ} (h : party < parties) :
    index parties party k < total ↔ k < share total parties party := by
  have hdivmod := Nat.div_add_mod total parties
  have hmod := Nat.mod_lt total (by omega : parties > 0)
  unfold index share
  generalize total / parties = q at *
  generalize total % parties = r at *
  rcases Nat.lt_trichotomy k q with hlt | rfl | hgt
  · have hround : k * parties + parties ≤ q * parties := by
      rw [← Nat.succ_mul]
      exact Nat.mul_le_mul_right _ hlt
    rw [Nat.mul_comm] at hdivmod
    split <;> omega
  · rw [Nat.mul_comm] at hdivmod
    split <;> omega
  · have hround : q * parties + parties ≤ k * parties := by
      rw [← Nat.succ_mul]
      exact Nat.mul_le_mul_right _ hgt
    rw [Nat.mul_comm] at hdivmod
    split <;> omega

theorem index_mod {party k : ℕ} (h : party < parties) : index parties party k % parties = party :=
  Nat.mul_add_mod_of_lt h

theorem index_div {party k : ℕ} (h : party < parties) : index parties party k / parties = k := by
  rw [index, Nat.mul_comm, Nat.mul_add_div (by omega), Nat.div_eq_of_lt h, Nat.add_zero]

theorem index_div_mod (i : ℕ) : index parties (i % parties) (i / parties) = i := by
  rw [index, Nat.mul_comm]
  exact Nat.div_add_mod i parties

theorem sum_share (hparties : 0 < parties) : ∑ party : Fin parties, share total parties party = total := by
  have hmod := Nat.mod_lt total hparties
  have hextra : ∑ party : Fin parties, (if (party : ℕ) < total % parties then 1 else 0) =
      total % parties := by
    have hfilter : (Finset.range parties).filter (fun party => party < total % parties) =
        Finset.range (total % parties) := by
      ext party
      simp only [Finset.mem_filter, Finset.mem_range]
      omega
    rw [Fin.sum_univ_eq_sum_range fun party => if party < total % parties then 1 else 0,
      ← Finset.card_filter, hfilter, Finset.card_range]
  unfold share
  rw [Finset.sum_add_distrib, hextra, Finset.sum_const, Finset.card_univ, Fintype.card_fin,
    smul_eq_mul]
  exact Nat.div_add_mod total parties

/-! ## A log of what was taken -/

/-- Every party has taken its first indices, in order. -/
def InTurn (log : List (Fin parties × ℕ)) (taken : Fin parties → ℕ) : Prop :=
  ∀ party, log.filter (fun entry => entry.1 = party) =
    (List.range (taken party)).map fun k => (party, index parties party k)

variable {log : List (Fin parties × ℕ)} {taken : Fin parties → ℕ}

theorem InTurn.nil : InTurn ([] : List (Fin parties × ℕ)) fun _ => 0 := fun _ => rfl

/-- A party takes its next index. -/
theorem InTurn.take (h : InTurn log taken) (party : Fin parties) :
    InTurn (log ++ [(party, index parties party (taken party))])
      (Function.update taken party (taken party + 1)) := by
  intro other
  rw [List.filter_append, h other]
  by_cases hother : party = other
  · subst hother
    rw [Function.update_self, List.range_succ, List.map_append, List.filter_singleton]
    simp
  · rw [Function.update_of_ne (Ne.symm hother), List.filter_singleton]
    simp [hother]

theorem InTurn.mem_iff (h : InTurn log taken) {party : Fin parties} {i : ℕ} :
    (party, i) ∈ log ↔ ∃ k, k < taken party ∧ index parties party k = i := by
  have hfilter : (party, i) ∈ log ↔ (party, i) ∈ log.filter fun entry => entry.1 = party := by
    simp
  rw [hfilter, h party]
  simp

/-- A list has no duplicates when no class of its elements has. -/
theorem nodup_of_filter {α β : Type*} [DecidableEq α] [DecidableEq β] {l : List α} (key : α → β)
    (h : ∀ b, (l.filter fun a => key a = b).Nodup) : l.Nodup := by
  rw [List.nodup_iff_count_le_one]
  intro a
  have hcount := List.nodup_iff_count_le_one.mp (h (key a)) a
  rwa [List.count_filter (by simp)] at hcount

theorem InTurn.nodup (h : InTurn log taken) : (log.map Prod.snd).Nodup := by
  have hparty : ∀ party, (log.filter fun entry => entry.1 = party).Nodup := by
    intro party
    rw [h party]
    apply List.nodup_range.map
    intro k k' hk
    have hindex : index parties party k = index parties party k' := congrArg Prod.snd hk
    rw [← index_div (k := k) party.isLt, hindex, index_div party.isLt]
  have hlog : log.Nodup := nodup_of_filter Prod.fst hparty
  apply hlog.map_on
  rintro ⟨party, i⟩ hi ⟨party', i'⟩ hi' rfl
  obtain ⟨k, -, rfl⟩ := h.mem_iff.mp hi
  obtain ⟨k', -, hk'⟩ := h.mem_iff.mp hi'
  dsimp only at hk'
  have hmod : (party : ℕ) = party' := by
    rw [← index_mod (k := k) party.isLt, ← hk', index_mod party'.isLt]
  rw [Fin.ext hmod]

/-- What is taken stays below the total while no party takes more than its share. -/
theorem InTurn.lt (h : InTurn log taken) (hshare : ∀ party, taken party ≤ share total parties party) :
    ∀ i ∈ log.map Prod.snd, i < total := by
  intro i hi
  obtain ⟨⟨party, _⟩, hmem, rfl⟩ := List.mem_map.mp hi
  obtain ⟨k, hk, rfl⟩ := h.mem_iff.mp hmem
  exact (index_lt_iff party.isLt).mpr (hk.trans_le (hshare party))

/-- Every index is taken once when every party has taken its share. -/
theorem InTurn.perm (h : InTurn log taken) (hparties : 0 < parties)
    (hshare : ∀ party, taken party = share total parties party) :
    (log.map Prod.snd).Perm (List.range total) := by
  rw [List.perm_ext_iff_of_nodup h.nodup List.nodup_range]
  intro i
  rw [List.mem_range]
  constructor
  · exact h.lt (fun party => (hshare party).le) i
  · intro hi
    let party : Fin parties := ⟨i % parties, Nat.mod_lt i hparties⟩
    have hindex : index parties party (i / parties) = i := index_div_mod i
    have hk : i / parties < taken party := by
      rw [hshare, ← index_lt_iff party.isLt, hindex]
      exact hi
    exact List.mem_map.mpr ⟨(party, i), h.mem_iff.mpr ⟨_, hk, hindex⟩, rfl⟩

end Sg200x.Library.Turns
