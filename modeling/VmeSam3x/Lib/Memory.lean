import VmeSam3x.Lib.Bytes
import Mathlib.Logic.Function.Basic

/-! # Byte-addressed memory

A memory with `w`-bit addresses that wrap around. Bytes are stored and loaded one
by one at increasing addresses, so longer accesses are sequences of shorter ones.
-/

namespace Bytes

abbrev Memory (w : Nat) := BitVec w → U8

namespace Memory

variable {w : Nat} (m : Memory w) (a : BitVec w)

/-- The address is one of the `n` that start at `a`. -/
def Covers (n : Nat) (x : BitVec w) : Prop := (x - a).toNat < n

/-- Store bytes from address `a` on. -/
def store (m : Memory w) (a : BitVec w) : List U8 → Memory w
  | [] => m
  | b :: bs => store (Function.update m a b) (a + 1#w) bs

/-- Load `n` bytes from address `a` on. -/
def load (m : Memory w) (a : BitVec w) : Nat → List U8
  | 0 => []
  | n + 1 => m a :: load m (a + 1#w) n

@[simp] theorem store_nil : m.store a [] = m := rfl

theorem store_cons (b : U8) (bs : List U8) :
    m.store a (b :: bs) = store (Function.update m a b) (a + 1#w) bs := rfl

theorem store_append (xs ys : List U8) :
    m.store a (xs ++ ys) = (m.store a xs).store (a + BitVec.ofNat w xs.length) ys := by
  induction xs generalizing m a with
  | nil => simp
  | cons x xs ih =>
    rw [List.cons_append, store_cons, ih, store_cons, List.length_cons]
    congr 1
    rw [BitVec.ofNat_add, BitVec.add_assoc, BitVec.add_comm 1#w]

/-- An address at distance at least one from `a` is closer to `a + 1` by one. -/
theorem toNat_sub_succ {a x : BitVec w} (h : x ≠ a) :
    (x - (a + 1#w)).toNat + 1 = (x - a).toNat := by
  have hne : (x - a).toNat ≠ 0 := by
    intro h0
    have : x - a = 0#w := BitVec.eq_of_toNat_eq (by simpa using h0)
    exact h (by rw [← BitVec.sub_add_cancel x a, this, BitVec.zero_add])
  have hsub : x - (a + 1#w) = (x - a) - 1#w := by
    rw [BitVec.sub_sub]
  have hlt := (x - a).isLt
  cases w with
  | zero =>
    exact absurd (Subsingleton.elim x a) h
  | succ w =>
    have h1 : (1#(w + 1)).toNat = 1 := by simp
    rw [hsub, BitVec.toNat_sub, h1]
    have hp : 2 ≤ 2 ^ (w + 1) := by
      have := Nat.one_le_two_pow (n := w)
      omega
    rw [show 2 ^ (w + 1) - 1 + (x - a).toNat = (x - a).toNat - 1 + 2 ^ (w + 1) by omega,
      Nat.add_mod_right, Nat.mod_eq_of_lt (by omega)]
    omega

/-- A store changes nothing outside the bytes it covers. -/
theorem store_of_not_covers {bs : List U8} {x : BitVec w} (h : ¬ Covers a bs.length x) :
    m.store a bs x = m x := by
  induction bs generalizing m a with
  | nil => rfl
  | cons b bs ih =>
    have hx : x ≠ a := by
      rintro rfl
      exact h (by simp [Covers])
    have hn : ¬ Covers (a + 1#w) bs.length x := by
      have := toNat_sub_succ hx
      simp only [Covers, List.length_cons] at h ⊢
      omega
    rw [store_cons, ih _ _ hn, Function.update_of_ne hx]

/-- A load sees only the bytes it covers. -/
theorem load_congr {m m' : Memory w} {n : Nat} (h : ∀ x, Covers a n x → m x = m' x)
    (hn : n ≤ 2 ^ w) : m.load a n = m'.load a n := by
  induction n generalizing a with
  | zero => rfl
  | succ n ih =>
    rw [load, load, h a (by simp [Covers]), ih]
    · intro x hx
      by_cases hxa : x = a
      · rw [hxa]
        exact h a (by simp [Covers])
      · refine h x ?_
        have := toNat_sub_succ hxa
        simp only [Covers] at hx ⊢
        omega
    · omega

/-- What was stored is loaded, as long as it does not wrap onto itself. -/
theorem load_store {bs : List U8} (h : bs.length ≤ 2 ^ w) :
    (m.store a bs).load a bs.length = bs := by
  induction bs generalizing m a with
  | nil => rfl
  | cons b bs ih =>
    rw [List.length_cons] at h
    have hna : ¬ Covers (a + 1#w) bs.length a := by
      have hd : a - (a + 1#w) = BitVec.allOnes w := by
        rw [← BitVec.neg_one_eq_allOnes]
        exact sub_add_cancel_left a 1#w
      rw [Covers, hd, BitVec.toNat_allOnes]
      omega
    rw [store_cons, List.length_cons, load, ih _ _ (by omega), store_of_not_covers _ _ hna,
      Function.update_self]

end Memory
end Bytes
