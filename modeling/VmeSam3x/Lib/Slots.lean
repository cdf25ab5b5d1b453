import Mathlib.Data.Int.ModEq
import Mathlib.Tactic.Common
import Mathlib.Tactic.Ring

/-! # Rings of slots

A ring of `n` slots is used through positions that only grow; the slot of a position is its
remainder. What a C program computes from two slots is read back as a fact about the positions:
its `%` truncates, so a difference of slots keeps its sign.
-/

namespace Slots

variable {n a b t : Nat}

/-- The slot behind the slot `i`. -/
def next (n i : Nat) : Nat := if i + 1 ≥ n then 0 else i + 1

theorem next_mod (hn : 0 < n) (a : Nat) : next n (a % n) = (a + 1) % n := by
  have hlt : a % n < n := Nat.mod_lt a hn
  unfold next
  split
  · rename_i hge
    have heq : a % n + 1 = n := by omega
    rw [← Nat.mod_add_mod a n 1, heq, Nat.mod_self]
  · rename_i hlt'
    rw [← Nat.mod_add_mod a n 1, Nat.mod_eq_of_lt (Nat.not_le.mp hlt')]

/-- Positions less than one round apart are in different slots. -/
theorem eq_of_mod_eq (hat : t ≤ a) (han : a < t + n) (hbt : t ≤ b) (hbn : b < t + n)
    (h : a % n = b % n) : a = b := by
  have hmod : a ≡ b [MOD n] := h
  rcases Nat.le_total a b with hab | hba
  · have hdvd : n ∣ b - a := (Nat.modEq_iff_dvd' hab).mp hmod
    have hzero : b - a = 0 := Nat.eq_zero_of_dvd_of_lt hdvd (by omega)
    omega
  · have hdvd : n ∣ a - b := (Nat.modEq_iff_dvd' hba).mp hmod.symm
    have hzero : a - b = 0 := Nat.eq_zero_of_dvd_of_lt hdvd (by omega)
    omega

/-- Every slot is the slot of a position of the round that begins at `t`. -/
theorem exists_mod_eq {i : Nat} (hi : i < n) (t : Nat) : ∃ a, t ≤ a ∧ a < t + n ∧ a % n = i := by
  refine ⟨t + (i + (n - t % n)) % n, by omega, ?_, ?_⟩
  · have hlt : (i + (n - t % n)) % n < n := Nat.mod_lt _ (by omega)
    omega
  · have hsplit : t % n + (i + (n - t % n)) = i + n := by
      have hlt : t % n < n := Nat.mod_lt _ (by omega)
      omega
    rw [Nat.add_mod_mod, ← Nat.mod_add_mod, hsplit, Nat.add_mod_right, Nat.mod_eq_of_lt hi]

/-- The number of positions between two slots, by C's `%`. -/
def count (head tail : Int) (n : Nat) : Int := (head - tail).tmod n

/-- It vanishes only when the positions are the same. -/
theorem count_eq_zero {head tail : Nat} (hle : t ≤ a) (hlt : a < t + n)
    (hhead : head % n = a % n) (htail : tail % n = t % n) : count head tail n = 0 ↔ a = t := by
  unfold count
  rw [← Int.dvd_iff_tmod_eq_zero]
  have hmod : (head : Int) - tail ≡ a - t [ZMOD n] := by
    apply Int.ModEq.sub
    · exact Int.natCast_modEq_iff.mpr hhead
    · exact Int.natCast_modEq_iff.mpr htail
  constructor
  · intro hdvd
    have hdvd' : (n : Int) ∣ a - t := hmod.dvd_iff.mp hdvd
    have hzero : (a : Int) - t = 0 := by
      apply Int.eq_zero_of_dvd_of_nonneg_of_lt (by omega) _ hdvd'
      omega
    omega
  · intro heq
    rw [heq, sub_self] at hmod
    exact Int.modEq_zero_iff_dvd.mp hmod

end Slots
