import VmeSam3x.Fpga.Twi
import VmeSam3x.Lib.Memory

/-! # The FPGA behind the TWI bus

The FPGA is not part of the repository. What the access functions rely on is a
party with one address register, one data latch and a big-endian memory:

* `0x31` and four address bytes set the address register;
* `0x03`, `0x13`, `0x33` and one, two or four bytes store them at that address;
* `0x04`, `0x14`, `0x34` latch one, two or four bytes from there, left-aligned;
* a five-byte read returns a status byte and the four latched bytes.

The status byte and the bytes of the latch that a narrow access does not fill are
left open.
-/

namespace Fpga

open Interact Bytes

structure Device where
  addr : U32
  latch : U32
  mem : Memory 32

/-- The parts of the FPGA's behaviour that nothing may depend on. -/
structure Unspecified where
  statusByte : Device → U8
  fill : Device → U32

/-- The latch after loading `n` bytes from the address register. -/
def Device.load (u : Unspecified) (d : Device) (n : Nat) : U32 :=
  match d.mem.load d.addr n with
  | [b3] => word32 b3 (byteAt 2 (u.fill d)) (byteAt 1 (u.fill d)) (byteAt 0 (u.fill d))
  | [b3, b2] => word32 b3 b2 (byteAt 1 (u.fill d)) (byteAt 0 (u.fill d))
  | [b3, b2, b1, b0] => word32 b3 b2 b1 b0
  | _ => u.fill d

/-- A message to the FPGA. -/
def Device.receive (u : Unspecified) (d : Device) : List U8 → Device
  | [c, b3, b2, b1, b0] =>
    if c = 0x31 then { d with addr := word32 b3 b2 b1 b0 }
    else if c = 0x33 then { d with mem := d.mem.store d.addr [b3, b2, b1, b0] }
    else d
  | [c, b1, b0] => if c = 0x13 then { d with mem := d.mem.store d.addr [b1, b0] } else d
  | [c, b] => if c = 0x03 then { d with mem := d.mem.store d.addr [b] } else d
  | [c] =>
    if c = 0x04 then { d with latch := d.load u 1 }
    else if c = 0x14 then { d with latch := d.load u 2 }
    else if c = 0x34 then { d with latch := d.load u 4 }
    else d
  | _ => d

/-- Byte `i` of what the FPGA returns: the status byte, then the latch. -/
def Device.send (u : Unspecified) (d : Device) (i : Nat) : U8 :=
  if i = 0 then u.statusByte d else byteAt (4 - i) d.latch

/-- The bus with the FPGA on it, all transactions succeeding. -/
def Device.handler (u : Unspecified) : Handler Twi Device
  | .masterWrite _ buffer, d => (TwiStatus.success, d.receive u buffer)
  | .masterRead _ _, d => ((TwiStatus.success, fun i => d.send u i), d)
  | .masterInit, d => ((), d)

section

variable (u : Unspecified) (d : Device)

@[simp] theorem Device.receive_address (a : U32) :
    d.receive u (addressMessage a) = { d with addr := a } := by
  simp [addressMessage, receive]

@[simp] theorem Device.dataOf_send : dataOf (fun i => d.send u i) = d.latch :=
  word32_byteAt d.latch

@[simp] theorem Device.receive_latch8 : d.receive u [0x04#8] = { d with latch := d.load u 1 } := by
  simp [receive]

@[simp] theorem Device.receive_latch16 : d.receive u [0x14#8] = { d with latch := d.load u 2 } := by
  simp [receive]

@[simp] theorem Device.receive_latch32 : d.receive u [0x34#8] = { d with latch := d.load u 4 } := by
  simp [receive]

@[simp] theorem Device.receive_store8 (b : U8) :
    d.receive u [0x03#8, b] = { d with mem := d.mem.store d.addr [b] } := by
  simp [receive]

@[simp] theorem Device.receive_store16 (b1 b0 : U8) :
    d.receive u [0x13#8, b1, b0] = { d with mem := d.mem.store d.addr [b1, b0] } := by
  simp [receive]

@[simp] theorem Device.receive_store32 (b3 b2 b1 b0 : U8) :
    d.receive u [0x33#8, b3, b2, b1, b0] = { d with mem := d.mem.store d.addr [b3, b2, b1, b0] } := by
  simp [receive]

end

/-! ## Registers -/

/-- The registers in the memory, by width. -/
def read8 (m : Memory 32) (a : U32) : U8 := m a

def read16 (m : Memory 32) (a : U32) : U16 := word16 (m a) (m (a + 1))

def read32 (m : Memory 32) (a : U32) : U32 := word32 (m a) (m (a + 1)) (m (a + 2)) (m (a + 3))

variable (u : Unspecified) (d : Device)

/-- A latched byte is taken from the top of the latch. -/
theorem byteAt_load_one : byteAt 3 (d.load u 1) = read8 d.mem d.addr := by
  simp [Device.load, Memory.load, read8]

/-- A latched short is taken from the upper half of the latch. -/
theorem high_half_load_two :
    ((d.load u 2 >>> 16) &&& 0xffff).setWidth 16 = read16 d.mem d.addr := by
  simp only [Device.load, Memory.load, high_half_word32, read16]
  rfl

theorem load_four : d.load u 4 = read32 d.mem d.addr := by
  simp only [Device.load, Memory.load, read32, BitVec.add_assoc]
  rfl

/-! ## The access functions on the FPGA -/

variable {E : Type}

theorem run_fpgaWriteBuffer (a : U32) (buffer : List U8) :
    Prog.run (Device.handler u) (fpgaWriteBuffer a buffer : Prog Twi E TwiStatus) d =
      (.ok .success, Device.receive u { d with addr := a } buffer) := by
  have hrun : Prog.run (Device.handler u) (fpgaWriteBuffer a buffer : Prog Twi E TwiStatus) d =
      (.ok .success, Device.receive u (d.receive u (addressMessage a)) buffer) := rfl
  rw [hrun, Device.receive_address]

theorem run_fpgaReadFull (command : U8) (a dataFull : U32) :
    Prog.run (Device.handler u) (fpgaReadFull command a dataFull : Prog Twi E (TwiStatus × U32)) d =
      (.ok (.success, (Device.receive u { d with addr := a } [command]).latch),
        Device.receive u { d with addr := a } [command]) := by
  have hrun : Prog.run (Device.handler u)
      (fpgaReadFull command a dataFull : Prog Twi E (TwiStatus × U32)) d =
      (.ok (.success,
        dataOf fun i => Device.send u (Device.receive u (d.receive u (addressMessage a)) [command]) i),
        Device.receive u (d.receive u (addressMessage a)) [command]) := rfl
  rw [hrun, Device.receive_address, Device.dataOf_send]

/-- `fpga_write_short` stores a big-endian short. -/
theorem run_fpgaWriteShort (a : U32) (x : U16) :
    Prog.run (Device.handler u) (fpgaWriteShort a x : Prog Twi E TwiStatus) d =
      (.ok .success, { d with addr := a, mem := d.mem.store a [byteAt 1 x, byteAt 0 x] }) := by
  rw [fpgaWriteShort, run_fpgaWriteBuffer]
  simp

theorem run_fpgaWriteLong (a x : U32) :
    Prog.run (Device.handler u) (fpgaWriteLong a x : Prog Twi E TwiStatus) d =
      (.ok .success, { d with
        addr := a
        mem := d.mem.store a [byteAt 3 x, byteAt 2 x, byteAt 1 x, byteAt 0 x] }) := by
  rw [fpgaWriteLong, run_fpgaWriteBuffer]
  simp

/-- `fpga_read_short` returns the register and leaves the memory alone. -/
theorem run_fpgaReadShort (dataFull a : U32) (x : U16) :
    Prog.run (Device.handler u) (fpgaReadShort dataFull a x : Prog Twi E (TwiStatus × U16)) d =
      (.ok (.success, read16 d.mem a),
        { d with addr := a, latch := Device.load u { d with addr := a } 2 }) := by
  rw [fpgaReadShort, Prog.run_bind, run_fpgaReadFull]
  simp only [if_true, Prog.pure_eq_ret, Prog.run_ret, ← high_half_load_two u { d with addr := a }]
  simp

theorem run_fpgaReadLong (a x : U32) :
    Prog.run (Device.handler u) (fpgaReadLong a x : Prog Twi E (TwiStatus × U32)) d =
      (.ok (.success, read32 d.mem a),
        { d with addr := a, latch := Device.load u { d with addr := a } 4 }) := by
  rw [fpgaReadLong, run_fpgaReadFull, ← load_four u { d with addr := a }]
  simp

end Fpga
