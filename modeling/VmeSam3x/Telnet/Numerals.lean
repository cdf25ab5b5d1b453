import VmeSam3x.Telnet.Console
import VmeSam3x.Lib.CString

/-! # Numbers on a line

`linebuf_set_u32` on a line in memory, ended by a zero byte: the digits are the maximal run after
the spaces, and the number is its value in 32 bits. Nothing behind the terminator is looked at.
-/

namespace Telnet

open Interact Bytes CString

/-- `linebuf_set_u32` on any array. -/
def setU32 (chars : List U8) (pos : Nat) : Except Fault (Option Nat × U32) := do
  let (rest, pos) ← skipSpaces (chars.drop pos) pos
  let (pos, data, found) ← scanDigits rest pos 0 false
  return (if found then some pos else none, data)

theorem linebufSetU32_eq (linebuf : Linebuf) (pos : Nat) :
    linebufSetU32 linebuf pos = setU32 (List.ofFn linebuf) pos := rfl

def isBlank (c : U8) : Bool := c = 0x20

/-- The spaces a number may start with. -/
def spaces (text : List U8) : List U8 := text.takeWhile isBlank

/-- The digits after them. -/
def digits (text : List U8) : List U8 := (text.dropWhile isBlank).takeWhile isxdigit

/-- The number in a text that starts at `pos`. -/
def numberAt (pos : Nat) (text : List U8) : Option Nat × U32 :=
  (if digits text = [] then none else some (pos + (spaces text).length + (digits text).length),
    BitVec.ofNat 32 (hexValue (digits text)))

theorem skipSpaces_eq (text tail : List U8) (pos : Nat) :
    skipSpaces (text ++ 0 :: tail) pos =
      .ok (text.dropWhile isBlank ++ 0 :: tail, pos + (spaces text).length) := by
  induction text generalizing pos with
  | nil => rfl
  | cons c rest ih =>
    rw [List.cons_append, skipSpaces]
    by_cases hc : c = 0x20
    · have hblank : isBlank c = true := decide_eq_true hc
      have hpos : pos + 1 + (spaces rest).length = pos + (c :: spaces rest).length := by
        rw [List.length_cons]
        omega
      rw [if_pos hc, ih, List.dropWhile_cons_of_pos hblank, hpos, spaces, spaces,
        List.takeWhile_cons_of_pos hblank]
    · have hblank : ¬ isBlank c = true := fun h => hc (of_decide_eq_true h)
      rw [if_neg hc, List.dropWhile_cons_of_neg hblank, spaces, List.takeWhile_cons_of_neg hblank]
      rfl

/-- Chained subtractions on a `char` give the value of each of the 22 digits. -/
theorem toNat_digit {c : U8} (h : isxdigit c = true) : (digit c).toNat = hexDigit c := by
  have hall : ∀ d ∈ hexDigits, (digit d).toNat = hexDigit d := by decide
  exact hall c (mem_hexDigits h)

theorem scanDigits_eq (text tail : List U8) (pos v : Nat) (found : Bool) :
    scanDigits (text ++ 0 :: tail) pos (BitVec.ofNat 32 v) found =
      .ok (pos + (text.takeWhile isxdigit).length,
        BitVec.ofNat 32 (hexFrom v (text.takeWhile isxdigit)),
        found || !(text.takeWhile isxdigit).isEmpty) := by
  induction text generalizing pos v found with
  | nil =>
    rw [List.nil_append, scanDigits, if_neg (by decide), List.takeWhile_nil, List.isEmpty_nil,
      Bool.not_true, Bool.or_false]
    rfl
  | cons c rest ih =>
    rw [List.cons_append, scanDigits]
    by_cases hc : isxdigit c = true
    · have hdigit : isHexDigit c = true := hc
      have hpos : pos + 1 + (rest.takeWhile isxdigit).length =
          pos + (c :: rest.takeWhile isxdigit).length := by
        rw [List.length_cons]
        omega
      rw [if_pos hdigit, setWidth_digit (toNat_digit hc), shift_add_digit, ih,
        List.takeWhile_cons_of_pos hc, hpos, List.isEmpty_cons, Bool.true_or, Bool.not_false,
        Bool.or_true]
      rfl
    · have hdigit : ¬ isHexDigit c = true := hc
      rw [if_neg hdigit, List.takeWhile_cons_of_neg hc, List.isEmpty_nil, Bool.not_true,
        Bool.or_false]
      rfl

/-- The number at a position of a terminated line. -/
theorem setU32_eq {line : List U8} {pos : Nat} (hpos : pos ≤ line.length) (tail : List U8) :
    setU32 (line ++ 0 :: tail) pos = .ok (numberAt pos (line.drop pos)) := by
  unfold setU32
  rw [List.drop_append_of_le_length hpos, skipSpaces_eq]
  change (scanDigits _ _ (BitVec.ofNat 32 0) false >>= _) = _
  rw [scanDigits_eq]
  change Except.ok _ = Except.ok _
  unfold numberAt digits hexValue
  cases ((line.drop pos).dropWhile isBlank).takeWhile isxdigit with
  | nil => rfl
  | cons c rest => rfl

end Telnet
