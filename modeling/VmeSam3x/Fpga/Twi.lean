import VmeSam3x.Lib.Bytes
import VmeSam3x.Lib.Prog

/-! # FPGA register access over TWI

The functions of `fpga_twi.c`, as programs whose operations are the calls of the
TWI driver. Each access is two or three separate bus transactions: an address
message (`0x31`), then a data message (`0x03`/`0x13`/`0x33`) for a write, or a
latch command (`0x04`/`0x14`/`0x34`) and a five-byte read for a read.

Output parameters are in/out arguments and uninitialised locals are arguments,
so what a failing call leaves behind is visible in its result.
-/

namespace Fpga

open Interact Bytes

/-- Return codes of the TWI driver (`twi.h`). -/
inductive TwiStatus where
  | success
  | invalidArgument
  | arbitrationLost
  | noChipFound
  | receiveOverrun
  | receiveNack
  | sendOverrun
  | sendNack
  | busy
  | errorTimeout
  | errorTimeoutComp
deriving DecidableEq, Repr

/-- Calls of the TWI driver on the bus of the FPGA. -/
inductive TwiOp where
  | masterWrite (chip : U8) (buffer : List U8)
  | masterRead (chip : U8) (length : Nat)
  | masterInit
deriving DecidableEq

/-- The driver interface: a write returns a status, a read a status and the
contents of the buffer, a re-initialisation nothing. -/
abbrev Twi : Sig where
  Op := TwiOp
  Res
    | .masterWrite _ _ => TwiStatus
    | .masterRead _ n => TwiStatus × (Fin n → U8)
    | .masterInit => Unit

/-- The FPGA's slave address on the bus. -/
def fpgaChip : U8 := 0x30

variable {E : Type}

def twiMasterWrite (buffer : List U8) : Prog Twi E TwiStatus :=
  Prog.perform (S := Twi) (TwiOp.masterWrite fpgaChip buffer)

def twiMasterRead (n : Nat) : Prog Twi E (TwiStatus × (Fin n → U8)) :=
  Prog.perform (S := Twi) (TwiOp.masterRead fpgaChip n)

/-- `fpga_twi_reset`: re-initialise the TWI logic of the microcontroller. -/
def fpgaTwiReset : Prog Twi E Unit :=
  Prog.perform (S := Twi) TwiOp.masterInit

/-- One message to the FPGA; a failure resets the TWI logic. -/
def fpgaSend (buffer : List U8) : Prog Twi E TwiStatus := do
  let status ← twiMasterWrite buffer
  if status = .success then
    return status
  else
    fpgaTwiReset
    return status

def fpgaWriteCommand (command : U8) : Prog Twi E TwiStatus :=
  fpgaSend [command]

/-- The message that sets the address register. -/
def addressMessage (address : U32) : List U8 :=
  [0x31, byteAt 3 address, byteAt 2 address, byteAt 1 address, byteAt 0 address]

def fpgaWriteOpbAddress (address : U32) : Prog Twi E TwiStatus :=
  fpgaSend (addressMessage address)

/-- `fpga_read_data`: the five-byte read. A timeout while waiting for completion
leaves the bytes valid; on any other error `*data` keeps its old value. -/
def fpgaReadData (data : U32) : Prog Twi E (TwiStatus × U32) := do
  let r ← twiMasterRead 5
  let value := word32 (r.2 1) (r.2 2) (r.2 3) (r.2 4)
  if r.1 = .success then
    return (.success, value)
  else
    fpgaTwiReset
    if r.1 = .errorTimeoutComp then
      return (.success, value)
    else
      return (r.1, data)

/-- The common part of the three reads: address, latch command, data. -/
def fpgaReadFull (command : U8) (address : U32) (dataFull : U32) :
    Prog Twi E (TwiStatus × U32) := do
  let status ← fpgaWriteOpbAddress address
  if status = .success then
    let status ← fpgaWriteCommand command
    if status = .success then
      fpgaReadData dataFull
    else
      return (status, dataFull)
  else
    return (status, dataFull)

/-- `fpga_read_byte`; `dataFull` is the initial content of its local `data_full`. -/
def fpgaReadByte (dataFull address : U32) (data : U8) : Prog Twi E (TwiStatus × U8) := do
  let r ← fpgaReadFull 0x04 address dataFull
  if r.1 = .success then
    return (r.1, byteAt 3 r.2)
  else
    return (r.1, data)

/-- `fpga_read_short`; `dataFull` is the initial content of its local `data_full`. -/
def fpgaReadShort (dataFull address : U32) (data : U16) : Prog Twi E (TwiStatus × U16) := do
  let r ← fpgaReadFull 0x14 address dataFull
  if r.1 = .success then
    return (r.1, ((r.2 >>> 16) &&& 0xffff).setWidth 16)
  else
    return (r.1, data)

/-- `fpga_read_long` reads straight into `*data`. -/
def fpgaReadLong (address data : U32) : Prog Twi E (TwiStatus × U32) :=
  fpgaReadFull 0x34 address data

/-- The common part of the three writes: address, then the data message. -/
def fpgaWriteBuffer (address : U32) (buffer : List U8) : Prog Twi E TwiStatus := do
  let status ← fpgaWriteOpbAddress address
  if status = .success then
    fpgaSend buffer
  else
    return status

def fpgaWriteByte (address : U32) (data : U8) : Prog Twi E TwiStatus :=
  fpgaWriteBuffer address [0x03, data]

def fpgaWriteShort (address : U32) (data : U16) : Prog Twi E TwiStatus :=
  fpgaWriteBuffer address [0x13, byteAt 1 data, byteAt 0 data]

def fpgaWriteLong (address data : U32) : Prog Twi E TwiStatus :=
  fpgaWriteBuffer address
    [0x33, byteAt 3 data, byteAt 2 data, byteAt 1 data, byteAt 0 data]

/-! ## The runs of an access

Every way the driver can answer, spelled out once. The rest of the development
argues from these runs and never unfolds the functions above again. -/

/-- A message with the status the driver returned for it. -/
def wrote (buffer : List U8) (status : TwiStatus) : Event Twi :=
  ⟨TwiOp.masterWrite fpgaChip buffer, status⟩

/-- A five-byte read with its status and the bytes in the buffer after it. -/
def got (status : TwiStatus) (bytes : Fin 5 → U8) : Event Twi :=
  ⟨TwiOp.masterRead fpgaChip 5, (status, bytes)⟩

def reset : Event Twi := ⟨TwiOp.masterInit, ()⟩

/-- The runs of a register write that puts `buffer` on the bus at `address`. -/
inductive WriteRun (address : U32) (buffer : List U8) : TwiStatus → List (Event Twi) → Prop
  | done : WriteRun address buffer .success
      [wrote (addressMessage address) .success, wrote buffer .success]
  | addressFailed (st : TwiStatus) (h : st ≠ .success) : WriteRun address buffer st
      [wrote (addressMessage address) st, reset]
  | dataFailed (st : TwiStatus) (h : st ≠ .success) : WriteRun address buffer st
      [wrote (addressMessage address) .success, wrote buffer st, reset]

/-- The big-endian value of the four data bytes of a read. -/
def dataOf (bytes : Fin 5 → U8) : U32 := word32 (bytes 1) (bytes 2) (bytes 3) (bytes 4)

/-- The runs of a register read, with the status and the value they leave. -/
inductive ReadRun (command : U8) (address dataFull : U32) :
    TwiStatus → U32 → List (Event Twi) → Prop
  | done (bytes : Fin 5 → U8) : ReadRun command address dataFull .success (dataOf bytes)
      [wrote (addressMessage address) .success, wrote [command] .success, got .success bytes]
  | doneLate (bytes : Fin 5 → U8) : ReadRun command address dataFull .success (dataOf bytes)
      [wrote (addressMessage address) .success, wrote [command] .success,
        got .errorTimeoutComp bytes, reset]
  | addressFailed (st : TwiStatus) (h : st ≠ .success) :
      ReadRun command address dataFull st dataFull [wrote (addressMessage address) st, reset]
  | commandFailed (st : TwiStatus) (h : st ≠ .success) :
      ReadRun command address dataFull st dataFull
        [wrote (addressMessage address) .success, wrote [command] st, reset]
  | dataFailed (st : TwiStatus) (bytes : Fin 5 → U8) (h : st ≠ .success)
      (hc : st ≠ .errorTimeoutComp) : ReadRun command address dataFull st dataFull
        [wrote (addressMessage address) .success, wrote [command] .success, got st bytes, reset]

theorem path_fpgaSend {buffer : List U8} {evs : List (Event Twi)} {x : Except E TwiStatus}
    (h : Prog.Path (fpgaSend buffer) evs x) :
    ∃ st, x = .ok st ∧ (st = .success ∧ evs = [wrote buffer .success] ∨
      st ≠ .success ∧ evs = [wrote buffer st, reset]) := by
  rw [fpgaSend, twiMasterWrite, Prog.perform_bind, Prog.path_call] at h
  obtain ⟨st, evs', rfl, h⟩ := h
  by_cases hst : st = TwiStatus.success
  · rw [if_pos hst, Prog.pure_eq_ret, Prog.path_ret] at h
    obtain ⟨rfl, rfl⟩ := h
    subst hst
    exact ⟨_, rfl, .inl ⟨rfl, rfl⟩⟩
  · rw [if_neg hst, fpgaTwiReset, Prog.perform_bind, Prog.path_call] at h
    obtain ⟨u, evs'', rfl, h⟩ := h
    rw [Prog.pure_eq_ret, Prog.path_ret] at h
    obtain ⟨rfl, rfl⟩ := h
    exact ⟨st, rfl, .inr ⟨hst, rfl⟩⟩

theorem path_fpgaReadData {data : U32} {evs : List (Event Twi)} {x : Except E (TwiStatus × U32)}
    (h : Prog.Path (fpgaReadData data) evs x) :
    ∃ st bytes,
      st = .success ∧ x = .ok (.success, dataOf bytes) ∧ evs = [got st bytes] ∨
      st = .errorTimeoutComp ∧ x = .ok (.success, dataOf bytes) ∧ evs = [got st bytes, reset] ∨
      st ≠ .success ∧ st ≠ .errorTimeoutComp ∧ x = .ok (st, data) ∧
        evs = [got st bytes, reset] := by
  rw [fpgaReadData, twiMasterRead, Prog.perform_bind, Prog.path_call] at h
  obtain ⟨⟨st, bytes⟩, evs', rfl, h⟩ := h
  refine ⟨st, bytes, ?_⟩
  dsimp only at h
  by_cases hst : st = TwiStatus.success
  · rw [if_pos hst, Prog.pure_eq_ret, Prog.path_ret] at h
    obtain ⟨rfl, rfl⟩ := h
    exact .inl ⟨hst, rfl, rfl⟩
  · rw [if_neg hst, fpgaTwiReset, Prog.perform_bind, Prog.path_call] at h
    obtain ⟨u, evs'', rfl, h⟩ := h
    by_cases hc : st = TwiStatus.errorTimeoutComp
    · rw [if_pos hc, Prog.pure_eq_ret, Prog.path_ret] at h
      obtain ⟨rfl, rfl⟩ := h
      exact .inr (.inl ⟨hc, rfl, rfl⟩)
    · rw [if_neg hc, Prog.pure_eq_ret, Prog.path_ret] at h
      obtain ⟨rfl, rfl⟩ := h
      exact .inr (.inr ⟨hst, hc, rfl, rfl⟩)

/-- A register write runs in one of the ways listed by `WriteRun`. -/
theorem path_fpgaWriteBuffer {address : U32} {buffer : List U8} {evs : List (Event Twi)}
    {x : Except E TwiStatus} (h : Prog.Path (fpgaWriteBuffer address buffer) evs x) :
    ∃ st, x = .ok st ∧ WriteRun address buffer st evs := by
  rcases Prog.path_bind_of_ok (fun _ _ => path_fpgaSend) h with
    ⟨st, evs₁, evs₂, rfl, ⟨rfl, rfl⟩ | ⟨hst, rfl⟩, h₂⟩
  · rw [if_pos rfl] at h₂
    rcases path_fpgaSend h₂ with ⟨st, rfl, ⟨rfl, rfl⟩ | ⟨hst, rfl⟩⟩
    · exact ⟨_, rfl, .done⟩
    · exact ⟨_, rfl, .dataFailed st hst⟩
  · rw [if_neg hst] at h₂
    rcases Prog.path_ret.mp h₂ with ⟨rfl, rfl⟩
    exact ⟨_, rfl, .addressFailed st hst⟩

/-- A register read runs in one of the ways listed by `ReadRun`. -/
theorem path_fpgaReadFull {command : U8} {address dataFull : U32} {evs : List (Event Twi)}
    {x : Except E (TwiStatus × U32)}
    (h : Prog.Path (fpgaReadFull command address dataFull) evs x) :
    ∃ st v, x = .ok (st, v) ∧ ReadRun command address dataFull st v evs := by
  rcases Prog.path_bind_of_ok (fun _ _ => path_fpgaSend) h with
    ⟨st, evs₁, evs₂, rfl, ⟨rfl, rfl⟩ | ⟨hst, rfl⟩, h₂⟩
  swap
  · rw [if_neg hst] at h₂
    rcases Prog.path_ret.mp h₂ with ⟨rfl, rfl⟩
    exact ⟨_, _, rfl, .addressFailed st hst⟩
  -- the address is set; the latch command comes next
  rw [if_pos rfl] at h₂
  rcases Prog.path_bind_of_ok (fun _ _ => path_fpgaSend) h₂ with
    ⟨st, evs₃, evs₄, rfl, ⟨rfl, rfl⟩ | ⟨hst, rfl⟩, h₄⟩
  swap
  · rw [if_neg hst] at h₄
    rcases Prog.path_ret.mp h₄ with ⟨rfl, rfl⟩
    exact ⟨_, _, rfl, .commandFailed st hst⟩
  rw [if_pos rfl] at h₄
  obtain ⟨st, bytes, ⟨rfl, rfl, rfl⟩ | ⟨rfl, rfl, rfl⟩ | ⟨hst, hc, rfl, rfl⟩⟩ :=
    path_fpgaReadData h₄
  · exact ⟨_, _, rfl, .done bytes⟩
  · exact ⟨_, _, rfl, .doneLate bytes⟩
  · exact ⟨_, _, rfl, .dataFailed st bytes hst hc⟩

/-! ## Reading a run -/

/-- The driver call did what it was asked to do. The read counts as successful when
only its completion timed out. -/
def Succeeded : Event Twi → Prop
  | ⟨.masterWrite _ _, st⟩ => st = TwiStatus.success
  | ⟨.masterRead _ _, r⟩ => r.1 = TwiStatus.success ∨ r.1 = TwiStatus.errorTimeoutComp
  | ⟨.masterInit, _⟩ => True

/-- The transactions put on the bus; a re-initialisation is not one. -/
def transactions (tw : List (Event Twi)) : List TwiOp :=
  (tw.map Event.op).filter (· ≠ TwiOp.masterInit)

/-- The bytes a driver call left in the read buffer. -/
def readBuffer : Event Twi → Option (List U8)
  | ⟨.masterRead _ _, r⟩ => some (List.ofFn r.2)
  | _ => none

/-- The value returned by the last five-byte read of a run. -/
def valueRead (tw : List (Event Twi)) : Option U32 :=
  match (tw.filterMap readBuffer).getLast? with
  | some [_, b1, b2, b3, b4] => some (word32 b1 b2 b3 b4)
  | _ => none

@[simp] theorem succeeded_wrote {buffer : List U8} {st : TwiStatus} :
    Succeeded (wrote buffer st) ↔ st = .success := Iff.rfl

@[simp] theorem succeeded_got {st : TwiStatus} {bytes : Fin 5 → U8} :
    Succeeded (got st bytes) ↔ st = .success ∨ st = .errorTimeoutComp := Iff.rfl

@[simp] theorem succeeded_reset : Succeeded reset := trivial

/-- The transactions of a write, and of a read, at `address`. -/
def writeTransactions (address : U32) (buffer : List U8) : List TwiOp :=
  [.masterWrite fpgaChip (addressMessage address), .masterWrite fpgaChip buffer]

def readTransactions (command : U8) (address : U32) : List TwiOp :=
  [.masterWrite fpgaChip (addressMessage address), .masterWrite fpgaChip [command],
    .masterRead fpgaChip 5]

variable {address : U32} {buffer : List U8} {command : U8} {dataFull x : U32} {st : TwiStatus}
  {tw : List (Event Twi)}

theorem WriteRun.success_iff (h : WriteRun address buffer st tw) :
    st = .success ↔ ∀ e ∈ tw, Succeeded e := by
  cases h with
  | done => simp
  | addressFailed st hst => simp
  | dataFailed st hst => simp

theorem WriteRun.transactions (h : WriteRun address buffer .success tw) :
    Fpga.transactions tw = writeTransactions address buffer := by
  cases h with
  | done => rfl
  | addressFailed st hst => exact absurd rfl hst
  | dataFailed st hst => exact absurd rfl hst

theorem ReadRun.success_iff (h : ReadRun command address dataFull st x tw) :
    st = .success ↔ ∀ e ∈ tw, Succeeded e := by
  cases h with
  | done bytes => simp
  | doneLate bytes => simp
  | addressFailed st hst => simp
  | commandFailed st hst => simp
  | dataFailed st bytes hst hc => simp [hst, hc]

theorem ReadRun.transactions (h : ReadRun command address dataFull .success x tw) :
    Fpga.transactions tw = readTransactions command address := by
  cases h with
  | done bytes => rfl
  | doneLate bytes => rfl
  | addressFailed st hst => exact absurd rfl hst
  | commandFailed st hst => exact absurd rfl hst
  | dataFailed st bytes hst hc => exact absurd rfl hst

/-- The value of a successful read is the one its last bus transaction returned,
whatever was on the bus before. -/
theorem ReadRun.valueRead (h : ReadRun command address dataFull .success x tw)
    (tw₀ : List (Event Twi)) : Fpga.valueRead (tw₀ ++ tw) = some x := by
  cases h with
  | done bytes =>
    simp [Fpga.valueRead, List.filterMap_append, List.filterMap_cons, wrote, got, readBuffer,
      List.ofFn_succ, dataOf]
  | doneLate bytes =>
    simp [Fpga.valueRead, List.filterMap_append, List.filterMap_cons, wrote, got, reset, readBuffer,
      List.ofFn_succ, dataOf]
  | addressFailed st hst => exact absurd rfl hst
  | commandFailed st hst => exact absurd rfl hst
  | dataFailed st bytes hst hc => exact absurd rfl hst

end Fpga
