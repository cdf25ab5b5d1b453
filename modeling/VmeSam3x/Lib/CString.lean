import VmeSam3x.Lib.Bytes
import Mathlib.Data.List.OfFn
import Mathlib.Data.List.Infix
import Mathlib.Tactic.Common

/-! # Characters and strings of C

The character classes of the C locale, zero-terminated strings in arrays of a fixed size, and
hexadecimal numerals. An access outside an array is `none`, so that a caller has to say what
becomes of it.
-/

namespace CString

open Bytes

/-! ## Characters -/

def isprint (c : U8) : Bool := 0x20 ≤ c && c ≤ 0x7e

def isalnum (c : U8) : Bool :=
  (0x30 ≤ c && c ≤ 0x39) || (0x61 ≤ c && c ≤ 0x7a) || (0x41 ≤ c && c ≤ 0x5a)

def isxdigit (c : U8) : Bool :=
  (0x30 ≤ c && c ≤ 0x39) || (0x61 ≤ c && c ≤ 0x66) || (0x41 ≤ c && c ≤ 0x46)

def toupper (c : U8) : U8 := if 0x61 ≤ c ∧ c ≤ 0x7a then c - 0x20 else c

theorem isprint_ne_zero {c : U8} (h : isprint c = true) : c ≠ 0 := by
  intro hc
  rw [hc] at h
  exact absurd h (by decide)

/-! ## Numerals -/

/-- The value of a hexadecimal digit. -/
def hexDigit (c : U8) : Nat :=
  if c ≤ 0x39 then c.toNat - 0x30 else if c ≤ 0x46 then c.toNat - 0x37 else c.toNat - 0x57

/-- The number after more digits. -/
def hexFrom (v : Nat) (ds : List U8) : Nat := ds.foldl (fun v c => 16 * v + hexDigit c) v

/-- The number a string of hexadecimal digits stands for. -/
def hexValue (ds : List U8) : Nat := hexFrom 0 ds

/-- The three ranges of the digits. -/
theorem isxdigit_iff {c : U8} :
    isxdigit c = true ↔ 0x30 ≤ c.toNat ∧ c.toNat ≤ 0x39 ∨ 0x61 ≤ c.toNat ∧ c.toNat ≤ 0x66 ∨
      0x41 ≤ c.toNat ∧ c.toNat ≤ 0x46 := by
  simp [isxdigit, BitVec.le_def, or_assoc]

/-- All of them. -/
def hexDigits : List U8 :=
  [0x30, 0x31, 0x32, 0x33, 0x34, 0x35, 0x36, 0x37, 0x38, 0x39, 0x41, 0x42, 0x43, 0x44, 0x45, 0x46,
    0x61, 0x62, 0x63, 0x64, 0x65, 0x66]

theorem mem_hexDigits {c : U8} (h : isxdigit c = true) : c ∈ hexDigits := by
  have hranges := isxdigit_iff.mp h
  have hc : c = BitVec.ofNat 8 c.toNat := by simp
  rw [hc]
  generalize c.toNat = n at hranges
  rcases hranges with ⟨hlo, hhi⟩ | ⟨hlo, hhi⟩ | ⟨hlo, hhi⟩ <;> interval_cases n <;> decide

/-- A digit joins a number in a word of 32 bits. -/
theorem shift_add_digit (v d : Nat) :
    (BitVec.ofNat 32 v <<< 4) + BitVec.ofNat 32 d = BitVec.ofNat 32 (16 * v + d) := by
  apply BitVec.eq_of_toNat_eq
  simp only [BitVec.toNat_add, BitVec.toNat_shiftLeft, BitVec.toNat_ofNat, Nat.shiftLeft_eq]
  omega

/-- The widened value of a digit. -/
theorem setWidth_digit {b c : U8} (h : b.toNat = hexDigit c) :
    b.setWidth 32 = BitVec.ofNat 32 (hexDigit c) := by
  apply BitVec.eq_of_toNat_eq
  have hb := b.isLt
  simp only [BitVec.toNat_setWidth, BitVec.toNat_ofNat]
  omega

/-! ## Arrays -/

/-- `char s[n]`. -/
abbrev Chars (n : Nat) := Fin n → U8

variable {n : Nat} {s : Chars n}

/-- `s[i] = c`. -/
def store (s : Chars n) (i : Int) (c : U8) : Option (Chars n) :=
  if h : 0 ≤ i ∧ i.toNat < n then some (Function.update s ⟨i.toNat, h.2⟩ c) else none

theorem store_of_lt {i : Nat} (h : i < n) (c : U8) :
    store s i c = some (Function.update s ⟨i, h⟩ c) := dif_pos ⟨Int.natCast_nonneg i, h⟩

theorem ofFn_update (s : Chars n) (i : Fin n) (c : U8) :
    List.ofFn (Function.update s i c) = (List.ofFn s).set i c := by
  apply List.ext_getElem
  · simp
  · intro j h₁ h₂
    rw [List.getElem_ofFn, List.getElem_set, List.getElem_ofFn]
    by_cases hij : i.val = j
    · have heq : (⟨j, by simpa using h₁⟩ : Fin n) = i := Fin.ext hij.symm
      rw [if_pos hij, heq, Function.update_self]
    · have hne : (⟨j, by simpa using h₁⟩ : Fin n) ≠ i := fun h => hij (congrArg Fin.val h).symm
      rw [if_neg hij, Function.update_of_ne hne]

/-- A store after the first `i` characters, with the character at `i`. -/
theorem prefix_set {str l : List U8} (h : str <+: l) (hlt : str.length < l.length) (c : U8) :
    str ++ [c] <+: l.set str.length c := by
  rcases h with ⟨t, rfl⟩
  cases t with
  | nil => simp at hlt
  | cons d t =>
    refine ⟨t, ?_⟩
    rw [List.set_append_right _ _ (Nat.le_refl _), Nat.sub_self, List.set_cons_zero,
      List.append_assoc]
    rfl

/-! ## Strings -/

/-- The array holds a string and its terminator. -/
def Holds (s : Chars n) (str : List U8) : Prop := 0 ∉ str ∧ str ++ [0] <+: List.ofFn s

/-- `strlen`. -/
def strlen (s : Chars n) : Option Nat := (List.ofFn s).findIdx? (· = 0)

/-- `strcpy` between arrays of the same size: behind the terminator the target stays. -/
def strcpy (dst src : Chars n) : Option (Chars n) :=
  (strlen src).map fun len i => if i.val ≤ len then src i else dst i

theorem Holds.strlen {str : List U8} (h : Holds s str) : strlen s = some str.length := by
  rcases h with ⟨hne, t, ht⟩
  unfold CString.strlen
  rw [← ht, List.append_assoc, List.findIdx?_append, List.singleton_append,
    List.findIdx?_cons]
  have hnone : str.findIdx? (· = 0) = none := by
    rw [List.findIdx?_eq_none_iff]
    intro c hc
    have : c ≠ 0 := fun h0 => hne (h0 ▸ hc)
    simpa using this
  rw [hnone, Option.none_or]
  simp

theorem Holds.lt {str : List U8} (h : Holds s str) : str.length < n := by
  have := h.2.length_le
  rw [List.length_append, List.length_ofFn] at this
  exact this

/-- A string is read character by character. -/
theorem holds_of_get {str : List U8} (hne : 0 ∉ str) (hlt : str.length < n)
    (hget : ∀ i (h : i < str.length), s ⟨i, Nat.lt_trans h hlt⟩ = str[i])
    (hend : s ⟨str.length, hlt⟩ = 0) : Holds s str := by
  refine ⟨hne, ?_⟩
  rw [List.prefix_iff_getElem]
  refine ⟨by rw [List.length_append, List.length_ofFn]; exact hlt, ?_⟩
  intro i hi
  rw [List.getElem_ofFn]
  by_cases h : i < str.length
  · rw [List.getElem_append_left h, hget i h]
  · have heq : i = str.length := by
      rw [List.length_append, List.length_singleton] at hi
      omega
    subst heq
    simpa using hend.symm

/-- A copy holds the same string. -/
theorem Holds.strcpy {str : List U8} (h : Holds s str) (dst : Chars n) :
    ∃ s', strcpy dst s = some s' ∧ Holds s' str := by
  refine ⟨fun i => if i.val ≤ str.length then s i else dst i, ?_, ?_⟩
  · rw [CString.strcpy, h.strlen]
    rfl
  · have hget := List.prefix_iff_getElem.mp h.2
    rcases hget with ⟨hlen, hget⟩
    refine holds_of_get h.1 h.lt ?_ ?_
    · intro i hi
      rw [if_pos (Nat.le_of_lt hi)]
      have hi' := hget i (by rw [List.length_append]; exact Nat.lt_succ_of_lt hi)
      rw [List.getElem_append_left hi, List.getElem_ofFn] at hi'
      exact hi'.symm
    · rw [if_pos (Nat.le_refl _)]
      have hi' := hget str.length (by rw [List.length_append]; exact Nat.lt_succ_self _)
      rw [List.getElem_ofFn] at hi'
      simpa using hi'.symm

/-- An array that has a terminator holds a string. -/
theorem exists_holds {i : Fin n} (h : s i = 0) : ∃ str, Holds s str := by
  have hmem : (0 : U8) ∈ List.ofFn s := by
    rw [List.mem_ofFn]
    exact ⟨i, h⟩
  rcases List.eq_append_cons_of_mem hmem with ⟨str, t, heq, hne⟩
  exact ⟨str, hne, t, by rw [heq, List.append_assoc, List.singleton_append]⟩

end CString
