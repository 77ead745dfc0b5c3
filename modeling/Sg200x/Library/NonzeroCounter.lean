import Mathlib.Data.BitVec
import Mathlib.Logic.Function.Iterate

/-!
# Counters that skip zero

A machine word that is incremented and never takes the value zero runs through the other
values in a cycle.
-/

namespace Sg200x.Library.NonzeroCounter

variable {w : ℕ}

def next (x : BitVec w) : BitVec w := if x + 1#w = 0#w then 1#w else x + 1#w

/-- The number of values the counter takes. -/
abbrev period (w : ℕ) : ℕ := 2 ^ w - 1

theorem toNat_next (hw : 0 < w) (x : BitVec w) : (next x).toNat = x.toNat % period w + 1 := by
  have hpow : 2 ≤ 2 ^ w := by
    calc 2 = 2 ^ 1 := rfl
      _ ≤ 2 ^ w := Nat.pow_le_pow_right (by decide) hw
  have hx := x.isLt
  have hone : (1#w).toNat = 1 := by
    rw [BitVec.toNat_ofNat]
    exact Nat.mod_eq_of_lt (by omega)
  have hadd : (x + 1#w).toNat = (x.toNat + 1) % 2 ^ w := by rw [BitVec.toNat_add, hone]
  unfold next
  by_cases hlast : x.toNat + 1 = 2 ^ w
  · have hzero : x + 1#w = 0#w := by
      apply BitVec.eq_of_toNat_eq
      rw [hadd, hlast, Nat.mod_self]
      rfl
    have hperiod : x.toNat = period w := by
      change x.toNat = 2 ^ w - 1
      omega
    rw [if_pos hzero, hone, hperiod, Nat.mod_self]
  · have hmod : (x.toNat + 1) % 2 ^ w = x.toNat + 1 := Nat.mod_eq_of_lt (by omega)
    have hne : x + 1#w ≠ 0#w := by
      intro heq
      rw [heq, hmod] at hadd
      exact absurd hadd (by simp)
    have hperiod : x.toNat < period w := by
      change x.toNat < 2 ^ w - 1
      omega
    rw [if_neg hne, hadd, hmod, Nat.mod_eq_of_lt hperiod]

theorem next_ne_zero (hw : 0 < w) (x : BitVec w) : next x ≠ 0#w := by
  intro heq
  have hnext := toNat_next hw x
  rw [heq, BitVec.toNat_ofNat, Nat.zero_mod] at hnext
  omega

theorem toNat_iterate (hw : 0 < w) {x : BitVec w} (hx : x ≠ 0#w) (n : ℕ) :
    (next^[n] x).toNat = (x.toNat - 1 + n) % period w + 1 := by
  have hpos : 0 < x.toNat := Nat.pos_of_ne_zero fun h => hx (BitVec.eq_of_toNat_eq h)
  have hlt := x.isLt
  induction n with
  | zero =>
      have hperiod : x.toNat - 1 < period w := by
        change x.toNat - 1 < 2 ^ w - 1
        omega
      rw [Function.iterate_zero_apply, Nat.add_zero (x.toNat - 1), Nat.mod_eq_of_lt hperiod]
      omega
  | succ n ih =>
      rw [Function.iterate_succ_apply', toNat_next hw, ih, Nat.mod_add_mod, Nat.add_assoc]

/-- Within a period no value comes back. -/
theorem iterate_ne (hw : 0 < w) {x : BitVec w} (hx : x ≠ 0#w) {m n : ℕ} (hmn : m < n)
    (hn : n < m + period w) : next^[m] x ≠ next^[n] x := by
  intro heq
  have htoNat := congrArg BitVec.toNat heq
  rw [toNat_iterate hw hx, toNat_iterate hw hx] at htoNat
  have hmod : x.toNat - 1 + m ≡ x.toNat - 1 + n [MOD period w] := Nat.succ.inj htoNat
  have hdvd := (Nat.modEq_iff_dvd' (by omega)).mp hmod
  have hle := Nat.le_of_dvd (by omega) hdvd
  omega

end Sg200x.Library.NonzeroCounter
