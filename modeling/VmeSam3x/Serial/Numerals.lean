import VmeSam3x.Serial.Monitor
import VmeSam3x.Telnet.Numerals
import Mathlib.Data.List.TakeWhile

/-! # The two readers of hexadecimal numbers

`serial_hexread32` takes its digits from a stream of characters, `linebuf_set_u32` from a line in
memory. They decode digits by different arithmetic and stop by different rules, but read the same
number from the same digits.
-/

namespace Serial

open Interact Bytes CString Flash

/-! ## The serial reader -/

/-- The maximal run of at most eight digits. -/
def typedDigits (input : List U8) : List U8 := (input.takeWhile isxdigit).take 8

/-- What is read from a stream: whether the number is accepted, the number, and what is left of
the stream. Nothing, if the stream ends before. A run shorter than eight digits takes the
character behind it along, which has to end the line. -/
def typedNumber (input : List U8) : Option (Bool × U32 × List U8) :=
  if (typedDigits input).length = 8 then
    some (true, BitVec.ofNat 32 (hexValue (typedDigits input)), input.drop 8)
  else
    match input.drop (typedDigits input).length with
    | [] => none
    | c :: rest =>
      some (0 < (typedDigits input).length && (c = 0x0a || c = 0x0d),
        BitVec.ofNat 32 (hexValue (typedDigits input)), rest)

/-- `toupper` and two offsets give the value of each of the 22 digits. -/
theorem toNat_digitValue {c : U8} (h : isxdigit c = true) :
    (digitValue c).toNat = hexDigit c := by
  have hall : ∀ d ∈ hexDigits, (digitValue d).toNat = hexDigit d := by decide
  exact hall c (mem_hexDigits h)

variable {bus : Env Spi} {tr : List (Event Spi)}

/-- The loop reads digits as long as there is room for them. -/
theorem run_hexreadLoop_digits (bus : Env Spi) (tr : List (Event Spi)) {ds : List U8}
    (hds : ∀ c ∈ ds, isxdigit c = true) (v left i : Nat) (rest : List U8) :
    Prog.run (world bus) (hexreadLoop (BitVec.ofNat 32 v) (ds.length + left) i) ⟨ds ++ rest, tr⟩ =
      Prog.run (world bus) (hexreadLoop (BitVec.ofNat 32 (hexFrom v ds)) left (i + ds.length))
        ⟨rest, tr⟩ := by
  induction ds generalizing v i with
  | nil =>
    rw [List.length_nil, Nat.zero_add, Nat.add_zero]
    rfl
  | cons c ds ih =>
    have hc : isxdigit c = true := hds c List.mem_cons_self
    have hrest : ∀ d ∈ ds, isxdigit d = true := fun d hd => hds d (List.mem_cons_of_mem c hd)
    rw [List.length_cons, Nat.add_right_comm, hexreadLoop, List.cons_append, run_getchar_cons,
      run_putchar, if_pos hc, setWidth_digit (toNat_digitValue hc), shift_add_digit, ih hrest,
      Nat.add_right_comm i 1, ← Nat.add_assoc]
    rfl

/-- Any other character ends the loop. -/
theorem run_hexreadLoop_end {c : U8} (hc : isxdigit c = false) (d : U32) (left i : Nat)
    (rest : List U8) :
    Prog.run (world bus) (hexreadLoop d (left + 1) i) ⟨c :: rest, tr⟩ =
      (.ok (0 < i && (c = 0x0a || c = 0x0d), d), ⟨rest, tr⟩) := by
  rw [hexreadLoop, run_getchar_cons, run_putchar, hc]
  rfl

/-- What follows a run of fewer than eight digits is no digit. -/
theorem not_digit_after {input rest : List U8} {c : U8}
    (hrun : (typedDigits input).length ≠ 8)
    (hrest : input.drop (typedDigits input).length = c :: rest) : isxdigit c = false := by
  have hwhole : typedDigits input = input.takeWhile isxdigit := by
    apply List.take_of_length_le
    rw [typedDigits, List.length_take] at hrun
    omega
  have hdrop : input.drop (input.takeWhile isxdigit).length = input.dropWhile isxdigit := by
    have hleft : (input.takeWhile isxdigit ++ input.dropWhile isxdigit).drop
        (input.takeWhile isxdigit).length = input.dropWhile isxdigit := List.drop_left
    rwa [List.takeWhile_append_dropWhile] at hleft
  rw [hwhole, hdrop] at hrest
  have hhead := List.head?_dropWhile_not isxdigit input
  rw [hrest] at hhead
  exact hhead

/-- The serial reader on every stream. -/
theorem run_serialHexread32 (bus : Env Spi) (tr : List (Event Spi)) (input : List U8) :
    Prog.run (world bus) serialHexread32 ⟨input, tr⟩ =
      match typedNumber input with
      | some (accepted, d, rest) => (.ok (accepted, d), ⟨rest, tr⟩)
      | none => (.error .blocked, ⟨[], tr⟩) := by
  -- the run is what the stream starts with
  have height := List.take_prefix 8 (input.takeWhile isxdigit)
  have hmaximal : input.takeWhile isxdigit <+: input := List.takeWhile_prefix isxdigit
  have hstart : typedDigits input <+: input := height.trans hmaximal
  have hdigits : ∀ c ∈ typedDigits input, isxdigit c = true :=
    fun c hc => List.mem_takeWhile_imp (List.mem_of_mem_take hc)
  have hlen : (typedDigits input).length ≤ 8 := List.length_take_le _ _
  have hnext := @not_digit_after input
  have hsplit := List.prefix_iff_eq_append.mp hstart
  unfold typedNumber
  generalize typedDigits input = run at *
  have hloop := run_hexreadLoop_digits bus tr hdigits 0 (8 - run.length) 0
    (input.drop run.length)
  rw [Nat.add_sub_cancel' hlen, hsplit, Nat.zero_add] at hloop
  refine hloop.trans ?_
  by_cases hrun : run.length = 8
  · rw [if_pos hrun, hrun]
    rfl
  · obtain ⟨left, hleft⟩ : ∃ left, 8 - run.length = left + 1 := ⟨7 - run.length, by omega⟩
    rw [if_neg hrun, hleft]
    cases hrest : input.drop run.length with
    | nil => rfl
    | cons c rest =>
      rw [run_hexreadLoop_end (hnext hrun hrest)]
      rfl

theorem typedNumber_value {input rest : List U8} {accepted : Bool} {d : U32}
    (h : typedNumber input = some (accepted, d, rest)) :
    d = BitVec.ofNat 32 (hexValue (typedDigits input)) := by
  unfold typedNumber at h
  split at h
  · cases h
    rfl
  · split at h
    · cases h
    · cases h
      rfl

/-! ## Both readers -/

/-- **The two readers decode the same numerals.** On a line, the number is the maximal run of
digits after the spaces, and there is none exactly when no digit follows them; from a stream, it
is the maximal run of at most eight digits, accepted when it is complete or ends the line. A run
that both accept is the same number to both. -/
theorem hexReaders_agree (bus : Env Spi) (tr : List (Event Spi)) :
    (∀ (line tail : List U8) (pos : Nat), pos ≤ line.length →
      Telnet.setU32 (line ++ 0 :: tail) pos = .ok (Telnet.numberAt pos (line.drop pos))) ∧
    (∀ (linebuf : Telnet.Linebuf) (line tail : List U8) (pos : Nat),
      List.ofFn linebuf = line ++ 0 :: tail → pos ≤ line.length →
      Telnet.linebufSetU32 linebuf pos = .ok (Telnet.numberAt pos (line.drop pos))) ∧
    (∀ input, Prog.run (world bus) serialHexread32 ⟨input, tr⟩ =
      match typedNumber input with
      | some (accepted, d, rest) => (.ok (accepted, d), ⟨rest, tr⟩)
      | none => (.error .blocked, ⟨[], tr⟩)) ∧
    ∀ (pos : Nat) (text input rest : List U8) (next : Nat) (d d' : U32),
      Telnet.digits text = typedDigits input →
      Telnet.numberAt pos text = (some next, d) → typedNumber input = some (true, d', rest) →
      d = d' := by
  refine ⟨fun line tail pos hpos => Telnet.setU32_eq hpos tail, ?_, run_serialHexread32 bus tr, ?_⟩
  · intro linebuf line tail pos hbuf hpos
    rw [Telnet.linebufSetU32_eq, hbuf]
    exact Telnet.setU32_eq hpos tail
  intro pos text input rest next d d' hsame hline hstream
  have hd : d = BitVec.ofNat 32 (hexValue (Telnet.digits text)) := (congrArg Prod.snd hline).symm
  rw [hd, hsame, typedNumber_value hstream]

end Serial
