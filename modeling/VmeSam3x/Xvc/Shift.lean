import VmeSam3x.Xvc.Server
import Mathlib.Data.BitVec
import Mathlib.Data.List.Basic

/-! # Shifting bits through the JTAG chain

`xvc_server_do_shift` clocks out the TDI and TMS vectors held in the connection
buffer and overwrites the TDI vector with the sampled TDO bits as it goes. The
ideal shift has no buffer: it presents bit `i` of each vector on pulse `i` and
collects the samples. `doShift_eq` says that the two do the same to the pins,
and where the samples end up.
-/

namespace Xvc

open Interact Bytes

/-! ## The connection buffer -/

/-- The buffer of `XVC_BUFFER_MAX_LEN` bytes that a connection allocates. -/
abbrev Buffer := Fin 1024 → U8

namespace Buffer

variable (b : Buffer)

def load (i : Nat) : Except Fault U8 := if h : i < 1024 then .ok (b ⟨i, h⟩) else .error .outOfBounds

def store (i : Nat) (x : U8) : Except Fault Buffer :=
  if h : i < 1024 then .ok (Function.update b ⟨i, h⟩ x) else .error .outOfBounds

/-- The byte at position `i`, for reasoning about positions inside the buffer. -/
def byte (i : Nat) : U8 := if h : i < 1024 then b ⟨i, h⟩ else 0

/-- `n` bytes from position `off` on. -/
def slice (off n : Nat) : List U8 := (List.range n).map fun k => byte b (off + k)

theorem load_eq {i : Nat} (h : i < 1024) : load b i = .ok (byte b i) := by
  simp [load, byte, h]

theorem store_eq {i : Nat} (h : i < 1024) (x : U8) :
    store b i x = .ok (Function.update b ⟨i, h⟩ x) := by
  simp [store, h]

theorem byte_update {i j : Nat} (h : i < 1024) (x : U8) :
    byte (Function.update b ⟨i, h⟩ x) j = if j = i then x else byte b j := by
  unfold byte
  by_cases hj : j = i
  · subst hj
    simp [h]
  · by_cases hlt : j < 1024
    · rw [dif_pos hlt, dif_pos hlt, if_neg hj, Function.update_of_ne]
      intro he
      exact hj (congrArg Fin.val he)
    · rw [dif_neg hlt, dif_neg hlt, if_neg hj]

theorem ext_byte {b b' : Buffer} (h : ∀ i < 1024, byte b i = byte b' i) : b = b' := by
  funext i
  have := h i i.isLt
  simpa [byte] using this

@[simp] theorem length_slice (off n : Nat) : (slice b off n).length = n := by
  simp [slice]

end Buffer

/-! ## `xvc_server_do_shift` -/

/-- A single bit at the position of a pin. -/
def pinMask (level : Bool) (pin : Pin) : U32 := if level then 1 <<< pin.bit else 0

def setTckHigh : XvcProg Unit := op (.writeSodr (pinMask true .xiltck))

def setTckLow : XvcProg Unit := op (.writeCodr (pinMask true .xiltck))

def setTdiTms (tdi tms : Bool) : XvcProg Unit := do
  op (.writeCodr (pinMask (!tdi) .xiltdi ||| pinMask (!tms) .xiltms))
  op (.writeSodr (pinMask tdi .xiltdi ||| pinMask tms .xiltms))

/-- `xvc_server_get_tdo`. -/
def getTdo : XvcProg Bool := do
  let w ← op .readPdsr
  return w.getLsbD Pin.mmctdo.bit

/-- `xvc_server_bits_to_bytes`, in 32-bit arithmetic. -/
def bitsToBytes (bits : Nat) : Nat := (bits + 7) % 2 ^ 32 / 8

/-- `assert`. -/
def assert (c : Bool) : XvcProg Unit := if c then return () else .fail .assertion

/-- The locals of the shift that live across an iteration. -/
structure ShiftState where
  buffer : Buffer
  nextBit : Nat
  nextByte : Nat
  tdiNextByte : U8
  tmsNextByte : U8
  nextTdi : Bool
  nextTms : Bool

/-- The computation between the rising edge and the sample: where the next bits come
from. A new TDI byte is fetched before it is cleared for the TDO bits. -/
def advance (tdi tms lastByte : Nat) (s : ShiftState) : Except Fault ShiftState := do
  let s ←
    if s.nextBit = 7 ∧ s.nextByte ≠ lastByte then
      let tdiNextByte ← s.buffer.load (tdi + (s.nextByte + 1))
      let tmsNextByte ← s.buffer.load (tms + (s.nextByte + 1))
      let buffer ← s.buffer.store (tdi + (s.nextByte + 1)) 0
      pure { s with
        buffer := buffer
        nextByte := s.nextByte + 1
        nextBit := 0
        tdiNextByte := tdiNextByte
        tmsNextByte := tmsNextByte }
    else
      pure { s with nextBit := s.nextBit + 1 }
  return { s with
    nextTdi := s.tdiNextByte.getLsbD s.nextBit
    nextTms := s.tmsNextByte.getLsbD s.nextBit }

/-- `tdo << bit_index`. -/
def tdoMask (tdo : Bool) (bit : Nat) : U8 := (BitVec.ofBool tdo).setWidth 8 <<< bit

/-- `tdi_tdo_bytes[byte_index] |= tdo << bit_index`. -/
def storeTdo (b : Buffer) (i bit : Nat) (tdo : Bool) : Except Fault Buffer := do
  let x ← b.load i
  b.store i (x ||| tdoMask tdo bit)

/-- The loop, for the given number of remaining bits. -/
def shiftLoop (tdi tms lastByte : Nat) : Nat → ShiftState → XvcProg Buffer
  | 0, s => return s.buffer
  | n + 1, s => do
    setTdiTms s.nextTdi s.nextTms
    setTckHigh
    let s' ← .ofExcept (advance tdi tms lastByte s)
    let tdo ← getTdo
    let buffer ← .ofExcept (storeTdo s'.buffer (tdi + s.nextByte) s.nextBit tdo)
    setTckLow
    shiftLoop tdi tms lastByte n { s' with buffer := buffer }

/-- `xvc_server_do_shift` on the vectors at positions `tdi` and `tms` of the buffer. -/
def doShift (b : Buffer) (tdi tms length : Nat) : XvcProg (Status × Buffer) := do
  let lengthInBytes := bitsToBytes length
  assert (lengthInBytes ≤ 512)
  if length = 0 then
    return (.ok, b)
  else if (← op .shiftEntry) then
    setTckLow
    let tdiNextByte ← .ofExcept (b.load tdi)
    let tmsNextByte ← .ofExcept (b.load tms)
    let buffer ← .ofExcept (b.store tdi 0)
    let buffer ← shiftLoop tdi tms (lengthInBytes - 1) length
      ⟨buffer, 0, 0, tdiNextByte, tmsNextByte, tdiNextByte.getLsbD 0, tmsNextByte.getLsbD 0⟩
    if (← op .shiftExit) then
      -- the error makes the caller close the connection
      let _ ← disable
      return (.error, buffer)
    else
      return (.ok, buffer)
  else
    return (.error, b)

/-! ## The ideal shift -/

/-- One TCK pulse: present TDI and TMS, raise TCK, sample TDO, lower TCK. -/
def pulse (tdi tms : Bool) : XvcProg Bool := do
  setTdiTms tdi tms
  setTckHigh
  let tdo ← getTdo
  setTckLow
  return tdo

/-- Pulses for the bits `i` to `i + n - 1`, with the samples. -/
def pulses (tdi tms : Nat → Bool) : Nat → Nat → XvcProg (List Bool)
  | 0, _ => return []
  | n + 1, i => do
    let t ← pulse (tdi i) (tms i)
    let ts ← pulses tdi tms n (i + 1)
    return t :: ts

/-- Bit `i` of a vector of bytes, least significant byte and bit first. -/
def vectorBit (bytes : Nat → U8) (i : Nat) : Bool := (bytes (i / 8)).getLsbD (i % 8)

/-- Byte `k` of the vector of the samples `ts`; missing samples are zero bits. -/
def tdoByte (ts : List Bool) (k : Nat) : U8 :=
  (BitVec.ofBoolListLE ((ts.drop (8 * k)).take 8)).setWidth 8

theorem getLsbD_tdoByte (ts : List Bool) (k i : Nat) :
    (tdoByte ts k).getLsbD i = (decide (i < 8) && ts.getD (8 * k + i) false) := by
  by_cases hi : i < 8
  · simp [tdoByte, List.getElem?_drop, hi]
  · simp [tdoByte, hi]

theorem getLsbD_tdoMask (t : Bool) {i : Nat} (bit : Nat) (hi : i < 8) :
    (tdoMask t bit).getLsbD i = (decide (i = bit) && t) := by
  simp only [tdoMask, BitVec.getLsbD_shiftLeft, BitVec.getLsbD_setWidth, hi, decide_true,
    Bool.true_and]
  by_cases hlt : i < bit
  · simp [hlt, show i ≠ bit by omega]
  · by_cases he : i = bit
    · subst he
      cases t <;> simp
    · have : i - bit ≠ 0 := by omega
      cases t <;> simp [he, this]

/-- A new sample is or-ed into its byte, where the bit was still zero. -/
theorem tdoByte_snoc (ts : List Bool) (t : Bool) (k : Nat) :
    tdoByte (ts ++ [t]) k =
      if k = ts.length / 8 then tdoByte ts k ||| tdoMask t (ts.length % 8)
      else tdoByte ts k := by
  apply BitVec.eq_of_getLsbD_eq
  intro i hi
  have hget : (ts ++ [t]).getD (8 * k + i) false =
      if 8 * k + i = ts.length then t else ts.getD (8 * k + i) false := by
    simp only [List.getD_eq_getElem?_getD, List.getElem?_append]
    split
    · rw [if_neg (by omega)]
    · split
      · rename_i h
        simp [h]
      · rename_i h₁ h₂
        have : 8 * k + i - ts.length ≠ 0 := by omega
        simp [this, List.getElem?_eq_none (show ts.length ≤ 8 * k + i by omega)]
  rw [getLsbD_tdoByte, hget]
  by_cases hk : k = ts.length / 8
  · rw [if_pos hk, BitVec.getLsbD_or, getLsbD_tdoByte, getLsbD_tdoMask t _ hi]
    by_cases hit : i = ts.length % 8
    · -- the bit of the new sample, not set before
      have hlast : 8 * k + i = ts.length := by omega
      have hnone : ts.getD (8 * k + i) false = false := by
        rw [List.getD_eq_getElem?_getD, List.getElem?_eq_none (by omega)]
        rfl
      rw [hnone, if_pos hlast, decide_eq_true hit, decide_eq_true hi]
      simp
    · rw [if_neg (by omega)]
      simp [hit]
  · rw [if_neg hk, getLsbD_tdoByte, if_neg (by omega)]

/-! ## The loop -/

/-- The buffer after the samples `ts`: the TDI vector is overwritten up to and
including the byte the next sample goes to. -/
def tdoBuffer (b : Buffer) (tdi bytes : Nat) (ts : List Bool) : Buffer := fun i =>
  if tdi ≤ i.val ∧ i.val < tdi + bytes ∧ i.val - tdi ≤ ts.length / 8 then tdoByte ts (i.val - tdi)
  else b i

theorem byte_tdoBuffer (b : Buffer) (tdi bytes : Nat) (ts : List Bool) {i : Nat} (hi : i < 1024) :
    (tdoBuffer b tdi bytes ts).byte i =
      if tdi ≤ i ∧ i < tdi + bytes ∧ i - tdi ≤ ts.length / 8 then tdoByte ts (i - tdi)
      else b.byte i := by
  simp [tdoBuffer, Buffer.byte, hi]

/-- The vectors of a shift lie in the buffer and do not overlap. -/
structure Layout (tdi tms bytes : Nat) : Prop where
  tdi_le : tdi + bytes ≤ 1024
  tms_le : tms + bytes ≤ 1024
  disjoint : tms + bytes ≤ tdi ∨ tdi + bytes ≤ tms
  pos : 0 < bytes

/-- The state before bit `ts.length`, with the samples `ts` taken. -/
structure ShiftInv (b : Buffer) (tdi tms bytes : Nat) (ts : List Bool) (s : ShiftState) : Prop where
  buffer : s.buffer = tdoBuffer b tdi bytes ts
  nextBit : s.nextBit = ts.length % 8
  nextByte : s.nextByte = ts.length / 8
  tdiNextByte : s.tdiNextByte = b.byte (tdi + ts.length / 8)
  tmsNextByte : s.tmsNextByte = b.byte (tms + ts.length / 8)
  nextTdi : s.nextTdi = vectorBit (fun k => b.byte (tdi + k)) ts.length
  nextTms : s.nextTms = vectorBit (fun k => b.byte (tms + k)) ts.length

variable {b : Buffer} {tdi tms bytes : Nat} {ts : List Bool} {s : ShiftState}

theorem tdoByte_eq_zero {k : Nat} (h : ts.length ≤ 8 * k) : tdoByte ts k = 0 := by
  apply BitVec.eq_of_getLsbD_eq
  intro i hi
  rw [getLsbD_tdoByte, List.getD_eq_getElem?_getD, List.getElem?_eq_none (by omega)]
  simp

/-- What one more sample changes: its own byte and, when that is complete, the next
one, which is cleared. -/
theorem byte_tdoBuffer_snoc (hb : ts.length / 8 < bytes) (t : Bool) {i : Nat} (hi : i < 1024) :
    (tdoBuffer b tdi bytes (ts ++ [t])).byte i =
      if i = tdi + ts.length / 8 then tdoByte ts (ts.length / 8) ||| tdoMask t (ts.length % 8)
      else if ts.length % 8 = 7 ∧ i = tdi + (ts.length / 8 + 1) ∧ ts.length / 8 + 1 < bytes then 0
      else (tdoBuffer b tdi bytes ts).byte i := by
  rw [byte_tdoBuffer _ _ _ _ hi, byte_tdoBuffer _ _ _ _ hi, List.length_append,
    List.length_singleton]
  by_cases h₁ : i = tdi + ts.length / 8
  · rw [if_pos (by omega), if_pos h₁, tdoByte_snoc, if_pos (by omega)]
    congr 2
    omega
  rw [if_neg h₁]
  by_cases h₂ : ts.length % 8 = 7 ∧ i = tdi + (ts.length / 8 + 1) ∧ ts.length / 8 + 1 < bytes
  · rw [if_pos (by omega), if_pos h₂, tdoByte_eq_zero]
    simp only [List.length_append, List.length_singleton]
    omega
  · rw [if_neg h₂]
    by_cases h₃ : tdi ≤ i ∧ i < tdi + bytes ∧ i - tdi ≤ ts.length / 8
    · rw [if_pos (by omega), if_pos h₃, tdoByte_snoc, if_neg (by omega)]
    · rw [if_neg (by omega), if_neg h₃]

theorem storeTdo_eq {b' : Buffer} {i bit : Nat} (hi : i < 1024) (t : Bool) :
    storeTdo b' i bit t = .ok (Function.update b' ⟨i, hi⟩ (b'.byte i ||| tdoMask t bit)) := by
  rw [storeTdo, Buffer.load_eq _ hi]
  exact Buffer.store_eq _ hi _

/-- A completed byte: the next one is fetched and cleared. -/
theorem advance_next (hl : Layout tdi tms bytes) (hs : ShiftInv b tdi tms bytes ts s)
    (h7 : ts.length % 8 = 7) (hnext : ts.length / 8 + 1 < bytes) :
    ∃ h : tdi + (ts.length / 8 + 1) < 1024,
      advance tdi tms (bytes - 1) s = .ok {
        buffer := Function.update (tdoBuffer b tdi bytes ts) ⟨tdi + (ts.length / 8 + 1), h⟩ 0
        nextBit := 0
        nextByte := ts.length / 8 + 1
        tdiNextByte := b.byte (tdi + (ts.length / 8 + 1))
        tmsNextByte := b.byte (tms + (ts.length / 8 + 1))
        nextTdi := (b.byte (tdi + (ts.length / 8 + 1))).getLsbD 0
        nextTms := (b.byte (tms + (ts.length / 8 + 1))).getLsbD 0 } := by
  obtain ⟨htdi, htms, hdis, -⟩ := hl
  have h₁ : tdi + (ts.length / 8 + 1) < 1024 := by omega
  have h₂ : tms + (ts.length / 8 + 1) < 1024 := by omega
  -- the samples so far have not reached the next byte of either vector
  have hload₁ : (tdoBuffer b tdi bytes ts).byte (tdi + (ts.length / 8 + 1)) =
      b.byte (tdi + (ts.length / 8 + 1)) := by
    rw [byte_tdoBuffer _ _ _ _ h₁, if_neg (by omega)]
  have hload₂ : (tdoBuffer b tdi bytes ts).byte (tms + (ts.length / 8 + 1)) =
      b.byte (tms + (ts.length / 8 + 1)) := by
    rw [byte_tdoBuffer _ _ _ _ h₂, if_neg (by omega)]
  refine ⟨h₁, ?_⟩
  have hc : s.nextBit = 7 ∧ s.nextByte ≠ bytes - 1 := by
    rw [hs.nextBit, hs.nextByte]
    omega
  unfold advance
  rw [if_pos hc]
  simp only [hs.buffer, hs.nextByte, Buffer.load_eq _ h₁, Buffer.load_eq _ h₂,
    Buffer.store_eq _ h₁, hload₁, hload₂]
  rfl

/-- Inside a byte, or at the very end, only the bit index moves. -/
theorem advance_same (hs : ShiftInv b tdi tms bytes ts s)
    (h7 : ¬ (ts.length % 8 = 7 ∧ ts.length / 8 ≠ bytes - 1)) :
    advance tdi tms (bytes - 1) s = .ok { s with
      nextBit := ts.length % 8 + 1
      nextTdi := (b.byte (tdi + ts.length / 8)).getLsbD (ts.length % 8 + 1)
      nextTms := (b.byte (tms + ts.length / 8)).getLsbD (ts.length % 8 + 1) } := by
  have hc : ¬ (s.nextBit = 7 ∧ s.nextByte ≠ bytes - 1) := by
    rwa [hs.nextBit, hs.nextByte]
  unfold advance
  rw [if_neg hc]
  simp only [hs.nextBit, ← hs.tdiNextByte, ← hs.tmsNextByte]
  rfl

/-- One iteration keeps the invariant, for any sample. -/
theorem ShiftInv.step (hl : Layout tdi tms bytes) (hb : ts.length < 8 * bytes)
    (hs : ShiftInv b tdi tms bytes ts s) :
    ∃ s', advance tdi tms (bytes - 1) s = .ok s' ∧ ∀ t,
      storeTdo s'.buffer (tdi + s.nextByte) s.nextBit t = .ok (tdoBuffer b tdi bytes (ts ++ [t])) ∧
      (ts.length + 1 < 8 * bytes → ShiftInv b tdi tms bytes (ts ++ [t])
        { s' with buffer := tdoBuffer b tdi bytes (ts ++ [t]) }) := by
  have htdi := hl.tdi_le
  have hbyte : ts.length / 8 < bytes := by omega
  have hi : tdi + ts.length / 8 < 1024 := by omega
  have hcur : (tdoBuffer b tdi bytes ts).byte (tdi + ts.length / 8) =
      tdoByte ts (ts.length / 8) := by
    rw [byte_tdoBuffer _ _ _ _ hi, if_pos (by omega)]
    congr 1
    omega
  by_cases h7 : ts.length % 8 = 7 ∧ ts.length / 8 ≠ bytes - 1
  · -- the look-ahead has cleared the next byte before the sample of this one is stored
    obtain ⟨h₁, hadv⟩ := advance_next hl hs h7.1 (by omega)
    refine ⟨_, hadv, fun t => ⟨?_, fun _ => ?_⟩⟩
    · have hcur' : Buffer.byte (Function.update (tdoBuffer b tdi bytes ts)
          ⟨tdi + (ts.length / 8 + 1), h₁⟩ 0) (tdi + ts.length / 8) = tdoByte ts (ts.length / 8) := by
        rw [Buffer.byte_update, if_neg (by omega), hcur]
      rw [hs.nextByte, hs.nextBit, storeTdo_eq hi, hcur']
      congr 1
      apply Buffer.ext_byte
      intro i hi'
      rw [Buffer.byte_update, Buffer.byte_update, byte_tdoBuffer_snoc hbyte t hi']
      by_cases hix : i = tdi + ts.length / 8
      · rw [if_pos hix, if_pos hix]
      · rw [if_neg hix, if_neg hix]
        by_cases hiy : i = tdi + (ts.length / 8 + 1)
        · rw [if_pos hiy, if_pos ⟨h7.1, hiy, by omega⟩]
        · rw [if_neg hiy, if_neg (by omega)]
    · have hq : (ts.length + 1) / 8 = ts.length / 8 + 1 := by omega
      have hr : (ts.length + 1) % 8 = 0 := by omega
      constructor <;> simp [vectorBit, hq, hr]
  · refine ⟨_, advance_same hs h7, fun t => ⟨?_, fun hmore => ?_⟩⟩
    · rw [hs.nextByte, hs.nextBit, hs.buffer, storeTdo_eq hi]
      congr 1
      apply Buffer.ext_byte
      intro i hi'
      rw [Buffer.byte_update, byte_tdoBuffer_snoc hbyte t hi', hcur]
      by_cases hix : i = tdi + ts.length / 8
      · rw [if_pos hix, if_pos hix]
      · rw [if_neg hix, if_neg hix, if_neg (by omega)]
    · have hq : (ts.length + 1) / 8 = ts.length / 8 := by omega
      have hr : (ts.length + 1) % 8 = ts.length % 8 + 1 := by omega
      constructor <;> simp [vectorBit, hq, hr, hs.nextByte, hs.tdiNextByte, hs.tmsNextByte]

/-- The loop does the remaining pulses of the ideal shift and leaves all samples. -/
theorem shiftLoop_eq (hl : Layout tdi tms bytes) (n : Nat) (hn : ts.length + n ≤ 8 * bytes)
    (hs : 0 < n → ShiftInv b tdi tms bytes ts s) (hb : s.buffer = tdoBuffer b tdi bytes ts) :
    shiftLoop tdi tms (bytes - 1) n s =
      (fun us => tdoBuffer b tdi bytes (ts ++ us)) <$>
        pulses (vectorBit fun k => b.byte (tdi + k)) (vectorBit fun k => b.byte (tms + k)) n
          ts.length := by
  induction n generalizing ts s with
  | zero => simp [shiftLoop, pulses, hb]
  | succ n ih =>
    have hinv := hs (Nat.succ_pos n)
    -- the invariant gives the levels of this pulse, and is kept for whatever sample it yields
    obtain ⟨s', hadv, hstep⟩ := hinv.step hl (by omega)
    simp only [shiftLoop, pulses, pulse, hadv, Prog.ofExcept_ok, Prog.ret_bind, hinv.nextTdi,
      hinv.nextTms, bind_assoc, map_bind, Prog.pure_eq_ret, Prog.map_ret]
    congr 1
    funext _
    congr 1
    funext _
    congr 1
    funext t
    obtain ⟨hstore, hnext⟩ := hstep t
    rw [hstore]
    simp only [Prog.ofExcept_ok, Prog.ret_bind]
    congr 1
    funext _
    have hih := @ih (ts ++ [t]) { s' with buffer := tdoBuffer b tdi bytes (ts ++ [t]) }
      (by simp only [List.length_append, List.length_singleton]; omega)
      (fun hpos => hnext (by omega)) rfl
    rw [hih]
    simp only [List.append_assoc, List.singleton_append, List.length_append, List.length_singleton]
    exact map_eq_pure_bind _ _

/-- The ideal shift of `length` bits: the samples, if the server was enabled. -/
def idealShift (tdi tms : Nat → Bool) (length : Nat) : XvcProg (Status × Option (List Bool)) := do
  if (← op .shiftEntry) then
    setTckLow
    let ts ← pulses tdi tms length 0
    if (← op .shiftExit) then
      let _ ← disable
      return (.error, some ts)
    else
      return (.ok, some ts)
  else
    return (.error, none)

theorem bitsToBytes_eq {length : Nat} (h : length ≤ 4096) : bitsToBytes length = (length + 7) / 8 := by
  rw [bitsToBytes, Nat.mod_eq_of_lt (by omega)]

theorem shiftInv_nil (hl : Layout tdi tms bytes) (h : tdi < 1024) :
    ShiftInv b tdi tms bytes [] ⟨Function.update b ⟨tdi, h⟩ 0, 0, 0, b.byte tdi, b.byte tms,
      (b.byte tdi).getLsbD 0, (b.byte tms).getLsbD 0⟩ := by
  have hpos := hl.pos
  refine ⟨?_, rfl, rfl, rfl, rfl, rfl, rfl⟩
  apply Buffer.ext_byte
  intro i hi
  rw [Buffer.byte_update, byte_tdoBuffer _ _ _ _ hi]
  by_cases hit : i = tdi
  · have hz : tdoByte [] (i - tdi) = 0 := tdoByte_eq_zero (Nat.zero_le _)
    rw [if_pos hit, if_pos (by simp; omega), hz]
  · rw [if_neg hit, if_neg (by simp; omega)]

/-- **The shift.** On vectors that lie in the buffer, `xvc_server_do_shift` is the ideal
shift, and the TDI vector holds the samples afterwards. -/
theorem doShift_eq {length : Nat} (hpos : 0 < length) (hmax : length ≤ 4096)
    (hl : Layout tdi tms (bitsToBytes length)) :
    doShift b tdi tms length =
      (fun r => (r.1, match r.2 with
        | none => b
        | some ts => tdoBuffer b tdi (bitsToBytes length) ts)) <$>
      idealShift (vectorBit fun k => b.byte (tdi + k)) (vectorBit fun k => b.byte (tms + k)) length := by
  have hbytes := bitsToBytes_eq hmax
  have htdi := hl.tdi_le
  have htms := hl.tms_le
  have hb := hl.pos
  have h₁ : tdi < 1024 := by omega
  have h₂ : tms < 1024 := by omega
  have hloop := @shiftLoop_eq b tdi tms (bitsToBytes length) [] _ hl length
    (by simp; omega) (fun _ => shiftInv_nil hl h₁) (shiftInv_nil hl h₁).buffer
  have hassert : assert (bitsToBytes length ≤ 512) = Prog.ret () := by
    rw [assert, if_pos (by simp; omega)]
    rfl
  simp only [doShift, hassert, Prog.ret_bind, if_neg (Nat.pos_iff_ne_zero.mp hpos),
    Buffer.load_eq _ h₁, Buffer.load_eq _ h₂, Buffer.store_eq _ h₁, Prog.ofExcept_ok, hloop]
  -- both sides now make the same operations
  simp only [idealShift, map_bind, bind_map_left]
  congr 1
  funext entered
  cases entered with
  | false => simp
  | true =>
    simp only [if_true, map_bind, List.nil_append]
    congr 1
    funext _
    congr 1
    funext ts
    congr 1
    funext requested
    cases requested <;> simp

end Xvc
