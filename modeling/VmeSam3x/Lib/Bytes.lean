import Mathlib.Data.BitVec
import Mathlib.Tactic.IntervalCases

/-! # Fixed-width words and their bytes

The unsigned types of C as bit vectors, words built from bytes by shifting and
or-ing, and the bytes of a word taken by shifting and masking. The `@[simp]`
lemmas make building and taking apart cancel, so byte orders are compared by
rewriting.
-/

namespace Bytes

abbrev U8 := BitVec 8
abbrev U16 := BitVec 16
abbrev U32 := BitVec 32

/-- The 16-bit word with the given high and low byte. -/
def word16 (b1 b0 : U8) : U16 := (b1.setWidth 16 <<< 8) ||| b0.setWidth 16

/-- The 32-bit word with the given bytes, the most significant one first. -/
def word32 (b3 b2 b1 b0 : U8) : U32 :=
  (b3.setWidth 32 <<< 24) ||| (b2.setWidth 32 <<< 16) ||| (b1.setWidth 32 <<< 8) |||
    b0.setWidth 32

/-- Byte `k` of a word, counted from the least significant one, as C code takes it:
shift right, mask, truncate. -/
def byteAt {w : Nat} (k : Nat) (x : BitVec w) : U8 := ((x >>> (8 * k)) &&& 0xff#w).setWidth 8

/-! ## Bits

Every fact below about bytes and halves is read off the bits. -/

theorem getLsbD_byte {b : U8} {i : Nat} (h : 8 ≤ i) : b.getLsbD i = false :=
  BitVec.getLsbD_of_ge b i h

theorem getLsbD_word16 (b1 b0 : U8) (i : Nat) :
    (word16 b1 b0).getLsbD i = if i < 8 then b0.getLsbD i else b1.getLsbD (i - 8) := by
  simp only [word16, BitVec.getLsbD_or, BitVec.getLsbD_shiftLeft, BitVec.getLsbD_setWidth]
  split
  · rename_i hi
    have h16 : i < 16 := by omega
    simp [hi, h16]
  · rename_i hi
    by_cases h16 : i < 16
    · have h0 : b0.getLsbD i = false := getLsbD_byte (by omega)
      have h8 : i - 8 < 16 := by omega
      simp [hi, h16, h0, h8]
    · have h1 : b1.getLsbD (i - 8) = false := getLsbD_byte (by omega)
      simp [h16, h1]

/-- A long word is made of its two halves. -/
theorem getLsbD_word32 (b3 b2 b1 b0 : U8) (i : Nat) :
    (word32 b3 b2 b1 b0).getLsbD i =
      if i < 16 then (word16 b1 b0).getLsbD i else (word16 b3 b2).getLsbD (i - 16) := by
  have hzero : ∀ (b : U8) j, 8 ≤ j → b.getLsbD j = false := fun b j => getLsbD_byte
  simp only [word32, getLsbD_word16, BitVec.getLsbD_or, BitVec.getLsbD_shiftLeft,
    BitVec.getLsbD_setWidth]
  grind

/-- The mask is redundant before a truncation to eight bits. -/
theorem getLsbD_byteAt {w : Nat} (k : Nat) (x : BitVec w) (hw : 8 ≤ w) {i : Nat} (hi : i < 8) :
    (byteAt k x).getLsbD i = x.getLsbD (8 * k + i) := by
  have hmask : (255#w).getLsbD i = true := by
    have hbit : (255 : Nat).testBit i = true := by interval_cases i <;> rfl
    simp only [BitVec.getLsbD_ofNat, hbit, Bool.and_true, decide_eq_true_eq]
    omega
  simp only [byteAt, BitVec.getLsbD_setWidth, BitVec.getLsbD_and, BitVec.getLsbD_ushiftRight,
    hmask, hi, Bool.and_true, decide_true, Bool.true_and]

/-! ## Taking a built word apart -/

/-- A byte of a word is known by its bits. -/
theorem byteAt_eq {w : Nat} {k : Nat} {x : BitVec w} {b : U8} (hw : 8 ≤ w)
    (h : ∀ i < 8, x.getLsbD (8 * k + i) = b.getLsbD i) : byteAt k x = b := by
  apply BitVec.eq_of_getLsbD_eq
  intro i hi
  rw [getLsbD_byteAt k x hw hi, h i hi]

@[simp] theorem byteAt_one_word16 (b1 b0 : U8) : byteAt 1 (word16 b1 b0) = b1 := by
  apply byteAt_eq (by omega)
  intro i hi
  rw [getLsbD_word16, if_neg (by omega), Nat.add_sub_cancel_left]

@[simp] theorem byteAt_zero_word16 (b1 b0 : U8) : byteAt 0 (word16 b1 b0) = b0 := by
  apply byteAt_eq (by omega)
  intro i hi
  rw [getLsbD_word16, if_pos (by omega), Nat.zero_add]

/-- The bytes of a long word are those of its halves. -/
theorem byteAt_high_word32 {k : Nat} (hk : k < 2) (b3 b2 b1 b0 : U8) :
    byteAt (2 + k) (word32 b3 b2 b1 b0) = byteAt k (word16 b3 b2) := by
  apply byteAt_eq (by omega)
  intro i hi
  rw [getLsbD_byteAt _ _ (by omega) hi, getLsbD_word32, if_neg (by omega)]
  congr 1
  omega

theorem byteAt_low_word32 {k : Nat} (hk : k < 2) (b3 b2 b1 b0 : U8) :
    byteAt k (word32 b3 b2 b1 b0) = byteAt k (word16 b1 b0) := by
  apply byteAt_eq (by omega)
  intro i hi
  rw [getLsbD_byteAt _ _ (by omega) hi, getLsbD_word32, if_pos (by omega)]

@[simp] theorem byteAt_three_word32 (b3 b2 b1 b0 : U8) : byteAt 3 (word32 b3 b2 b1 b0) = b3 := by
  rw [show 3 = 2 + 1 from rfl, byteAt_high_word32 (by omega), byteAt_one_word16]

@[simp] theorem byteAt_two_word32 (b3 b2 b1 b0 : U8) : byteAt 2 (word32 b3 b2 b1 b0) = b2 := by
  rw [show 2 = 2 + 0 from rfl, byteAt_high_word32 (by omega), byteAt_zero_word16]

@[simp] theorem byteAt_one_word32 (b3 b2 b1 b0 : U8) : byteAt 1 (word32 b3 b2 b1 b0) = b1 := by
  rw [byteAt_low_word32 (by omega), byteAt_one_word16]

@[simp] theorem byteAt_zero_word32 (b3 b2 b1 b0 : U8) : byteAt 0 (word32 b3 b2 b1 b0) = b0 := by
  rw [byteAt_low_word32 (by omega), byteAt_zero_word16]

/-! ## Building a word from its own bytes -/

@[simp] theorem word16_byteAt (x : U16) : word16 (byteAt 1 x) (byteAt 0 x) = x := by
  apply BitVec.eq_of_getLsbD_eq
  intro i hi
  rw [getLsbD_word16]
  split
  · rw [getLsbD_byteAt _ _ (by omega) (by omega), Nat.mul_zero, Nat.zero_add]
  · rw [getLsbD_byteAt _ _ (by omega) (by omega)]
    congr 1
    omega

/-! ## The halves of a long word -/

/-- The high half of a long word is its two high bytes. -/
@[simp] theorem setWidth_ushiftRight_word32 (b3 b2 b1 b0 : U8) :
    (word32 b3 b2 b1 b0 >>> 16).setWidth 16 = word16 b3 b2 := by
  apply BitVec.eq_of_getLsbD_eq
  intro i hi
  rw [BitVec.getLsbD_setWidth, BitVec.getLsbD_ushiftRight, getLsbD_word32, if_neg (by omega),
    Nat.add_sub_cancel_left, decide_eq_true hi, Bool.true_and]

/-- The low half of a long word is its two low bytes. -/
@[simp] theorem low_half_word32 (b3 b2 b1 b0 : U8) :
    (word32 b3 b2 b1 b0).setWidth 16 = word16 b1 b0 := by
  apply BitVec.eq_of_getLsbD_eq
  intro i hi
  rw [BitVec.getLsbD_setWidth, getLsbD_word32, if_pos hi, decide_eq_true hi, Bool.true_and]

/-- The mask is redundant before a truncation to sixteen bits. -/
@[simp] theorem high_half_word32 (b3 b2 b1 b0 : U8) :
    ((word32 b3 b2 b1 b0 >>> 16) &&& 0xffff).setWidth 16 = word16 b3 b2 := by
  rw [BitVec.setWidth_and, setWidth_ushiftRight_word32]
  exact BitVec.and_allOnes

theorem halves_or (b3 b2 b1 b0 : U8) :
    ((word16 b3 b2).setWidth 32 <<< 16) ||| (word16 b1 b0).setWidth 32 = word32 b3 b2 b1 b0 := by
  apply BitVec.eq_of_getLsbD_eq
  intro i hi
  rw [getLsbD_word32, BitVec.getLsbD_or, BitVec.getLsbD_shiftLeft, BitVec.getLsbD_setWidth,
    BitVec.getLsbD_setWidth, decide_eq_true hi]
  split
  · rename_i hlow
    simp [hlow]
  · rename_i hlow
    have hzero : (word16 b1 b0).getLsbD i = false := BitVec.getLsbD_of_ge _ _ (by omega)
    have hi' : i - 16 < 32 := by omega
    simp [hlow, hzero, hi']

/-- Zero extension puts zero bytes in front. -/
@[simp] theorem setWidth_word16 (b1 b0 : U8) : (word16 b1 b0).setWidth 32 = word32 0 0 b1 b0 := by
  rw [← halves_or]
  exact (BitVec.zero_or).symm

@[simp] theorem word32_byteAt (x : U32) :
    word32 (byteAt 3 x) (byteAt 2 x) (byteAt 1 x) (byteAt 0 x) = x := by
  apply BitVec.eq_of_getLsbD_eq
  intro i hi
  rw [getLsbD_word32, getLsbD_word16, getLsbD_word16]
  split <;> split
  · rw [getLsbD_byteAt _ _ (by omega) (by omega), Nat.mul_zero, Nat.zero_add]
  · rw [getLsbD_byteAt _ _ (by omega) (by omega)]
    congr 1
    omega
  · rw [getLsbD_byteAt _ _ (by omega) (by omega)]
    congr 1
    omega
  · rw [getLsbD_byteAt _ _ (by omega) (by omega)]
    congr 1
    omega

/-! ## Filling a word from its low end -/

theorem shiftLeft_zero_byte (k : Nat) : BitVec.setWidth 32 0#8 <<< k = 0#32 := by
  rw [show BitVec.setWidth 32 0#8 = 0#32 from rfl, BitVec.zero_shiftLeft]

theorem word32_zero_or (x : U8) :
    word32 0#8 0#8 0#8 0#8 ||| x.setWidth 32 <<< 0 = word32 0#8 0#8 0#8 x := by
  unfold word32
  rw [shiftLeft_zero_byte, shiftLeft_zero_byte, shiftLeft_zero_byte, BitVec.shiftLeft_zero,
    show BitVec.setWidth 32 0#8 = 0#32 from rfl, BitVec.or_zero]

theorem word32_one_or (b0 x : U8) :
    word32 0#8 0#8 0#8 b0 ||| x.setWidth 32 <<< 8 = word32 0#8 0#8 x b0 := by
  unfold word32
  rw [shiftLeft_zero_byte, shiftLeft_zero_byte, shiftLeft_zero_byte, BitVec.or_zero,
    BitVec.or_zero, BitVec.zero_or, BitVec.zero_or, BitVec.or_comm]

theorem word32_two_or (b1 b0 x : U8) :
    word32 0#8 0#8 b1 b0 ||| x.setWidth 32 <<< 16 = word32 0#8 x b1 b0 := by
  unfold word32
  rw [shiftLeft_zero_byte, shiftLeft_zero_byte, BitVec.or_zero, BitVec.zero_or, BitVec.zero_or,
    BitVec.or_comm, BitVec.or_assoc]

theorem word32_three_or (b2 b1 b0 x : U8) :
    word32 0#8 b2 b1 b0 ||| x.setWidth 32 <<< 24 = word32 x b2 b1 b0 := by
  unfold word32
  rw [shiftLeft_zero_byte, BitVec.zero_or, BitVec.or_comm, BitVec.or_assoc, BitVec.or_assoc,
    BitVec.or_assoc]

/-- The value of a word. -/
theorem toNat_word32 (b3 b2 b1 b0 : U8) :
    (word32 b3 b2 b1 b0).toNat = b0.toNat + 256 * (b1.toNat + 256 * (b2.toNat + 256 * b3.toNat)) := by
  have h₀ := b0.isLt
  have h₁ := b1.isLt
  have h₂ := b2.isLt
  have h₃ := b3.isLt
  have happend : word32 b3 b2 b1 b0 = (b3 ++ b2 ++ b1 ++ b0).cast (by rfl) := by
    ext i hi
    simp only [word32, BitVec.getElem_cast, BitVec.getElem_append]
    simp
    grind
  rw [happend]
  simp only [BitVec.toNat_cast, BitVec.toNat_append]
  rw [← Nat.shiftLeft_add_eq_or_of_lt h₂, ← Nat.shiftLeft_add_eq_or_of_lt h₁,
    ← Nat.shiftLeft_add_eq_or_of_lt h₀, Nat.shiftLeft_eq, Nat.shiftLeft_eq, Nat.shiftLeft_eq]
  omega

end Bytes
