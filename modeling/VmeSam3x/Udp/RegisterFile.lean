import VmeSam3x.Udp.Reply
import VmeSam3x.Fpga.Device

/-! # The UDP server as a register file

With the FPGA of `Fpga.Device` on the bus and requests served one at a time, the
whole path from packet to packet (byte order on the wire, serialisation on the
bus, alignment in the latch) is a register file in a big-endian memory.
-/

namespace Udp

open Interact Bytes Fpga

/-! ## The register file -/

/-- What an access type asks for. -/
structure Access where
  wide : Bool
  stores : Bool
  reads : Bool
deriving DecidableEq

/-- The table of access types. -/
def accessOf (t : U8) : Access :=
  if t = readAccess16 then ⟨false, false, true⟩
  else if t = writeAccess16 then ⟨false, true, true⟩
  else if t = writeAccess16NoReadback then ⟨false, true, false⟩
  else if t = readAccess32 then ⟨true, false, true⟩
  else if t = writeAccess32 then ⟨true, true, true⟩
  else ⟨true, true, false⟩

/-- The bytes of a register of either width. -/
def registerBytes (wide : Bool) (x : U32) : List U8 :=
  if wide then be32 x else be16 (x.setWidth 16)

/-- The value of a register, zero-extended. -/
def readRegister (wide : Bool) (m : Memory 32) (a : U32) : U32 :=
  if wide then read32 m a else (read16 m a).setWidth 32

def writeRegister (wide : Bool) (m : Memory 32) (a x : U32) : Memory 32 :=
  m.store a (registerBytes wide x)

def Packet.withData (h : Packet) (x : U32) : Version → Packet
  | .v1 => { h with data1 := x.setWidth 16 }
  | .v2 => { h with data2 := x }

/-- The memory after a request. -/
def Packet.storeTo (h : Packet) (v : Version) (m : Memory 32) : Memory 32 :=
  if (accessOf h.accessType).stores then
    writeRegister (accessOf h.accessType).wide m h.addr (h.data v)
  else m

/-- The reply to a request that leaves the memory `m`. -/
def Packet.readFrom (h : Packet) (v : Version) (m : Memory 32) : Packet :=
  if (accessOf h.accessType).reads then
    h.cleared.withData (readRegister (accessOf h.accessType).wide m h.addr) v
  else h.cleared

/-- A request served by a plain register file: store, then read. -/
def registerFile (v : Version) (h : Packet) (m : Memory 32) : Packet × Memory 32 :=
  (h.readFrom v (h.storeTo v m), h.storeTo v m)

/-! ## The server with the FPGA attached -/

/-- The FPGA and the datagrams sent so far. -/
structure World where
  dev : Device
  sent : List (List U8 × U32 × U16)

def World.handler (u : Unspecified) : Handler Net World
  | .twi o, w => ((Device.handler u o w.dev).1, { w with dev := (Device.handler u o w.dev).2 })
  | .sendto payload addr port, w => ((), { w with sent := w.sent ++ [(payload, addr, port)] })
  | .free, w => ((), w)

/-- A request of a type its version documents, with its sender and the contents of
the callback's locals. -/
structure Request where
  version : Version
  packet : Packet
  addr : U32
  port : U16
  loc : Locals
  allowed : version.Allows packet.accessType

def Request.access (r : Request) : Access := accessOf r.packet.accessType

/-- Serve the requests one after the other. -/
def serveAll : List Request → UdpProg Unit
  | [] => return ()
  | r :: rs => do
    udpServerCallback r.loc [r.packet.bytes r.version] r.addr r.port
    serveAll rs

def serveRun (u : Unspecified) (reqs : List Request) (w : World) : Except Fault Unit × World :=
  Prog.run (World.handler u) (serveAll reqs) w

/-- Memory and datagrams after the same requests on the plain register file. -/
def plainRun : List Request → Memory 32 → List (List U8 × U32 × U16) →
    Memory 32 × List (List U8 × U32 × U16)
  | [], m, out => (m, out)
  | r :: rs, m, out =>
    let x := registerFile r.version r.packet m
    plainRun rs x.2 (out ++ [(x.1.bytes r.version, r.addr, r.port)])

/-! ## One request -/

variable (u : Unspecified) (w : World)

/-- A call into `fpga_twi.c` touches nothing but the FPGA. -/
theorem run_fpga {α : Type} (p : Prog Twi Fault α) :
    Prog.run (World.handler u) (fpga p) w =
      ((Prog.run (Device.handler u) p w.dev).1,
        { w with dev := (Prog.run (Device.handler u) p w.dev).2 }) :=
  @Prog.run_embed _ _ _ _ _ _ _ _ _ World.dev (fun w d => { w with dev := d }) (fun _ _ => rfl)
    (fun _ _ _ => rfl) (fun _ => rfl) (fun _ _ => rfl) p w

theorem Packet.withData_setWidth (h : Packet) (x : U16) (v : Version) :
    h.withData (x.setWidth 32) v = h.withData16 x v := by
  cases v with
  | v1 => simp [withData, withData16]
  | v2 => rfl

/-- The 32-bit types belong to version 2. -/
theorem Version.Allows.cases {v : Version} {t : U8} (h : v.Allows t) :
    (t = readAccess16 ∨ t = writeAccess16 ∨ t = writeAccess16NoReadback) ∨
      v = .v2 ∧ (t = readAccess32 ∨ t = writeAccess32 ∨ t = writeAccess32NoReadback) := by
  cases v with
  | v1 =>
    rcases h with h | h
    · exact .inl (.inl h)
    · exact .inl (.inr (.inl h))
  | v2 =>
    rcases h with h | h | h | h | h | h
    · exact .inl (.inl h)
    · exact .inl (.inr (.inl h))
    · exact .inl (.inr (.inr h))
    · exact .inr ⟨rfl, .inl h⟩
    · exact .inr ⟨rfl, .inr (.inl h)⟩
    · exact .inr ⟨rfl, .inr (.inr h)⟩

theorem run_read16 (loc : Locals) (v : Version) (h : Packet) (a : U32) :
    Prog.run (World.handler u) (do
        let r ← fpga (fpgaReadShort loc.dataFull a loc.data16)
        return if r.1 ≠ .success then { h with status := statusTimeout } else h.withData16 r.2 v) w =
      (.ok (h.withData (readRegister false w.dev.mem a) v), { w with
        dev := { w.dev with addr := a, latch := Device.load u { w.dev with addr := a } 2 } }) := by
  rw [Prog.run_bind, run_fpga, run_fpgaReadShort]
  simp [readRegister, Packet.withData_setWidth]

theorem run_read32 (loc : Locals) (h : Packet) (a : U32) :
    Prog.run (World.handler u) (do
        let r ← fpga (fpgaReadLong a loc.data32)
        return if r.1 ≠ .success then { h with status := statusTimeout, data2 := r.2 }
          else { h with data2 := r.2 }) w =
      (.ok (h.withData (readRegister true w.dev.mem a) .v2), { w with
        dev := { w.dev with addr := a, latch := Device.load u { w.dev with addr := a } 4 } }) := by
  rw [Prog.run_bind, run_fpga, run_fpgaReadLong]
  simp [readRegister, Packet.withData]

/-- The read chain of a documented request reads the register if the type asks for
it, and leaves the memory alone. -/
theorem run_serveRead (loc : Locals) (v : Version) (h : Packet) (hok : v.Allows h.accessType) :
    ∃ d', Prog.run (World.handler u) (serveRead loc v h.cleared) w =
      (.ok (h.readFrom v w.dev.mem), { w with dev := d' }) ∧ d'.mem = w.dev.mem := by
  unfold serveRead Packet.readFrom
  rcases hok.cases with (ht | ht | ht) | ⟨rfl, ht | ht | ht⟩
  · rw [if_pos (.inr ht), ht]
    exact ⟨_, run_read16 u w loc v h.cleared h.addr, rfl⟩
  · rw [if_pos (.inl ht), ht]
    exact ⟨_, run_read16 u w loc v h.cleared h.addr, rfl⟩
  · rw [show h.cleared.accessType = _ from ht, ht]
    exact ⟨_, rfl, rfl⟩
  · rw [if_neg (by rw [show h.cleared.accessType = _ from ht]; decide), if_pos (.inr ht), ht]
    exact ⟨_, run_read32 u w loc h.cleared h.addr, rfl⟩
  · rw [if_neg (by rw [show h.cleared.accessType = _ from ht]; decide), if_pos (.inl ht), ht]
    exact ⟨_, run_read32 u w loc h.cleared h.addr, rfl⟩
  · rw [show h.cleared.accessType = _ from ht, ht]
    exact ⟨_, rfl, rfl⟩

theorem run_write16 (v : Version) (h : Packet) (k : Packet → UdpProg Packet) :
    Prog.run (World.handler u) (do
        let status ← fpga (fpgaWriteShort h.addr (h.writeData16 v))
        if status ≠ .success then return { h with status := statusTimeout } else k h) w =
      Prog.run (World.handler u) (k h) { w with
        dev := { w.dev with
          addr := h.addr
          mem := writeRegister false w.dev.mem h.addr (h.data v) } } := by
  have hdata : (h.data v).setWidth 16 = h.writeData16 v := by
    cases v with
    | v1 => simp [Packet.data, Packet.writeData16]
    | v2 => rfl
  rw [Prog.run_bind, run_fpga, run_fpgaWriteShort]
  simp [writeRegister, registerBytes, hdata, be16]

theorem run_write32 (h : Packet) (k : Packet → UdpProg Packet) :
    Prog.run (World.handler u) (do
        let status ← fpga (fpgaWriteLong h.addr h.data2)
        k (if status ≠ .success then { h with status := statusTimeout } else h)) w =
      Prog.run (World.handler u) (k h) { w with
        dev := { w.dev with
          addr := h.addr
          mem := writeRegister true w.dev.mem h.addr (h.data .v2) } } := by
  rw [Prog.run_bind, run_fpga, run_fpgaWriteLong]
  simp [writeRegister, registerBytes, be32, Packet.data]

/-- Whatever a documented request stores, the read chain then runs on the memory
after it. -/
theorem run_serve_eq (loc : Locals) (v : Version) (h : Packet) (hok : v.Allows h.accessType) :
    ∃ d', Prog.run (World.handler u) (serve loc v h) w =
      Prog.run (World.handler u) (serveRead loc v h.cleared) { w with dev := d' } ∧
      d'.mem = h.storeTo v w.dev.mem := by
  unfold serve Packet.storeTo
  dsimp only
  rcases hok.cases with (ht | ht | ht) | ⟨rfl, ht | ht | ht⟩
  · rw [if_neg (by rw [ht]; decide), if_neg (by rw [ht]; decide)]
    refine ⟨w.dev, rfl, ?_⟩
    rw [ht]
    rfl
  · rw [if_pos (.inl ht)]
    have hrun := run_write16 u w v h.cleared (serveRead loc v)
    refine ⟨_, hrun, ?_⟩
    rw [ht]
    rfl
  · rw [if_pos (.inr ht)]
    have hrun := run_write16 u w v h.cleared (serveRead loc v)
    refine ⟨_, hrun, ?_⟩
    rw [ht]
    rfl
  · rw [if_neg (by rw [ht]; decide), if_neg (by rw [ht]; decide)]
    refine ⟨w.dev, rfl, ?_⟩
    rw [ht]
    rfl
  · rw [if_neg (by rw [ht]; decide), if_pos (.inl ht)]
    have hrun := run_write32 u w h.cleared (serveRead loc .v2)
    refine ⟨_, hrun, ?_⟩
    rw [ht]
    rfl
  · rw [if_neg (by rw [ht]; decide), if_pos (.inr ht)]
    have hrun := run_write32 u w h.cleared (serveRead loc .v2)
    refine ⟨_, hrun, ?_⟩
    rw [ht]
    rfl

/-- One request does to memory and packet what the register file does. -/
theorem run_serve (loc : Locals) (v : Version) (h : Packet) (hok : v.Allows h.accessType) :
    ∃ d', Prog.run (World.handler u) (serve loc v h) w =
      (.ok (registerFile v h w.dev.mem).1, { w with dev := d' }) ∧
      d'.mem = (registerFile v h w.dev.mem).2 := by
  obtain ⟨d₁, hrun, hmem⟩ := run_serve_eq u w loc v h hok
  obtain ⟨d₂, hread, hmem₂⟩ := run_serveRead u { w with dev := d₁ } loc v h hok
  refine ⟨d₂, ?_, ?_⟩
  · rw [hrun, hread, hmem]
    rfl
  · rw [hmem₂, hmem]
    rfl

/-- One request from datagram to datagram. -/
theorem run_request (r : Request) :
    ∃ d', Prog.run (World.handler u)
        (udpServerCallback r.loc [r.packet.bytes r.version] r.addr r.port) w =
      (.ok (), ⟨d', w.sent ++
        [((registerFile r.version r.packet w.dev.mem).1.bytes r.version, r.addr, r.port)]⟩) ∧
      d'.mem = (registerFile r.version r.packet w.dev.mem).2 := by
  obtain ⟨d', hrun, hmem⟩ := run_serve u w r.loc r.version r.packet r.allowed
  refine ⟨d', ?_, hmem⟩
  rw [udpServerCallback_bytes, Prog.run_bind, hrun]
  rfl

/-- **Refinement.** Any sequence of documented requests leaves the memory, and sends
the datagrams, of the plain register file. -/
theorem serveRun_eq (reqs : List Request) :
    ∃ d', serveRun u reqs w = (.ok (), ⟨d', (plainRun reqs w.dev.mem w.sent).2⟩) ∧
      d'.mem = (plainRun reqs w.dev.mem w.sent).1 := by
  induction reqs generalizing w with
  | nil => exact ⟨w.dev, rfl, rfl⟩
  | cons r rs ih =>
    obtain ⟨d₁, hrun, hmem⟩ := run_request u w r
    obtain ⟨d', hrest, hmem'⟩ := ih ⟨d₁, w.sent ++
      [((registerFile r.version r.packet w.dev.mem).1.bytes r.version, r.addr, r.port)]⟩
    refine ⟨d', ?_, ?_⟩
    · rw [serveRun, serveAll, Prog.run_bind, hrun]
      refine hrest.trans ?_
      rw [hmem]
      rfl
    · rw [hmem', hmem]
      rfl

/-! ## Registers of both widths -/

/-- The datagram `p` answers `r` with status 0 and the value `x`. -/
def Request.Carries (r : Request) (x : U32) (p : List U8 × U32 × U16) : Prop :=
  ∃ h' : Packet, p = (h'.bytes r.version, r.addr, r.port) ∧ h'.status = statusOk ∧
    h'.data r.version = x

/-- `r` is a 32-bit write, and `r₁`, `r₂` are the pair of 16-bit writes that stands
for it: the high word at its address, then the low word two bytes further. -/
def WritePair (r r₁ r₂ : Request) : Prop :=
  r.access.stores ∧ r.access.wide ∧ r₁.access.stores ∧ ¬ r₁.access.wide ∧ r₂.access.stores ∧
    ¬ r₂.access.wide ∧ r₁.packet.addr = r.packet.addr ∧ r₂.packet.addr = r.packet.addr + 2 ∧
    (r₁.packet.data r₁.version).setWidth 16 = ((r.packet.data r.version) >>> 16).setWidth 16 ∧
    (r₂.packet.data r₂.version).setWidth 16 = (r.packet.data r.version).setWidth 16

/-- `r` is a 32-bit read, and `r₁`, `r₂` are the 16-bit reads of its two words. -/
def ReadPair (r r₁ r₂ : Request) : Prop :=
  r.access = ⟨true, false, true⟩ ∧ r₁.access = ⟨false, false, true⟩ ∧
    r₂.access = ⟨false, false, true⟩ ∧ r₁.packet.addr = r.packet.addr ∧
    r₂.packet.addr = r.packet.addr + 2

/-- The number of bytes of a register. -/
def Access.size (acc : Access) : Nat := if acc.wide then 4 else 2

/-- `r` stores into none of the `n` bytes at `a`. -/
def Request.Avoids (r : Request) (a : U32) (n : Nat) : Prop :=
  r.access.stores → ∀ x, Memory.Covers a n x → ¬ Memory.Covers r.packet.addr r.access.size x

/-- The value a request stores, cut to its width. -/
def Request.value (r : Request) : U32 :=
  if r.access.wide then r.packet.data r.version
  else ((r.packet.data r.version).setWidth 16).setWidth 32

theorem length_registerBytes (wide : Bool) (x : U32) :
    (registerBytes wide x).length = if wide then 4 else 2 := by
  cases wide <;> rfl

theorem be32_eq (x : U32) : be32 x = be16 ((x >>> 16).setWidth 16) ++ be16 (x.setWidth 16) := by
  rw [← word32_byteAt x]
  simp only [be32, be16, setWidth_ushiftRight_word32, low_half_word32, byteAt_three_word32,
    byteAt_two_word32, byteAt_one_word32, byteAt_zero_word32, byteAt_one_word16, byteAt_zero_word16]
  rfl

/-- A 32-bit store is the two 16-bit stores in order. -/
theorem writeRegister_pair (m : Memory 32) (a x hi lo : U32)
    (hhi : hi.setWidth 16 = (x >>> 16).setWidth 16) (hlo : lo.setWidth 16 = x.setWidth 16) :
    writeRegister true m a x = writeRegister false (writeRegister false m a hi) (a + 2) lo := by
  simp only [writeRegister, registerBytes, if_true, be32_eq, Memory.store_append, hhi, hlo]
  rfl

theorem readRegister_pair (m : Memory 32) (a : U32) :
    readRegister true m a = (readRegister false m a <<< 16) ||| readRegister false m (a + 2) := by
  have h3 : a + 2 + 1 = a + 3 := BitVec.add_assoc a 2 1
  simp only [readRegister, if_true, Bool.false_eq_true, if_false, read16, read32, halves_or, h3]

/-- A register is what its bytes say. -/
theorem readRegister_of_load (wide : Bool) (m : Memory 32) (a x : U32)
    (h : m.load a (if wide then 4 else 2) = registerBytes wide x) :
    readRegister wide m a = if wide then x else (x.setWidth 16).setWidth 32 := by
  cases wide with
  | false =>
    simp only [Memory.load, registerBytes, be16, Bool.false_eq_true, if_false, List.cons.injEq,
      and_true] at h ⊢
    rw [readRegister, if_neg (by decide), read16, h.1]
    exact congrArg _ ((congrArg _ h.2).trans (word16_byteAt (x.setWidth 16)))
  | true =>
    simp only [Memory.load, registerBytes, be32, if_true, List.cons.injEq, and_true,
      BitVec.add_assoc] at h ⊢
    obtain ⟨h3, h2, h1, h0⟩ := h
    have hx := word32_byteAt x
    rw [← h3, ← h2, ← h1, ← h0] at hx
    exact hx

/-! ## Sequences of requests -/

theorem plainRun_append (xs ys : List Request) (m : Memory 32)
    (out : List (List U8 × U32 × U16)) :
    plainRun (xs ++ ys) m out = plainRun ys (plainRun xs m out).1 (plainRun xs m out).2 := by
  induction xs generalizing m out with
  | nil => rfl
  | cons r xs ih => exact ih _ _

theorem Request.storeTo_of_stores (r : Request) (m : Memory 32) (h : r.access.stores) :
    r.packet.storeTo r.version m =
      writeRegister r.access.wide m r.packet.addr (r.packet.data r.version) :=
  if_pos h

theorem Request.storeTo_of_not_stores (r : Request) (m : Memory 32) (h : r.access.stores = false) :
    r.packet.storeTo r.version m = m :=
  if_neg (by rw [← Request.access, h]; decide)

theorem Request.readFrom_of_reads (r : Request) (m : Memory 32) (h : r.access.reads) :
    r.packet.readFrom r.version m =
      r.packet.cleared.withData (readRegister r.access.wide m r.packet.addr) r.version :=
  if_pos h

/-- A request that avoids a register leaves its bytes. -/
theorem load_storeTo (r : Request) (m : Memory 32) {a : U32} {n : Nat} (hn : n ≤ 2 ^ 32)
    (h : r.Avoids a n) : (r.packet.storeTo r.version m).load a n = m.load a n := by
  unfold Packet.storeTo
  split
  · rename_i hst
    refine Memory.load_congr a (fun x hx => ?_) hn
    refine Memory.store_of_not_covers m _ ?_
    rw [length_registerBytes]
    exact h hst x hx
  · rfl

theorem load_plainRun (reqs : List Request) (m : Memory 32) (out : List (List U8 × U32 × U16))
    {a : U32} {n : Nat} (hn : n ≤ 2 ^ 32) (h : ∀ r ∈ reqs, r.Avoids a n) :
    (plainRun reqs m out).1.load a n = m.load a n := by
  induction reqs generalizing m out with
  | nil => rfl
  | cons r rs ih =>
    rw [plainRun, ih _ _ fun r' hr' => h r' (List.mem_cons_of_mem r hr')]
    exact load_storeTo r m hn (h r List.mem_cons_self)

/-- A request that stores leaves its own value in the register. -/
theorem load_storeTo_self (r : Request) (m : Memory 32) (hst : r.access.stores) :
    (r.packet.storeTo r.version m).load r.packet.addr r.access.size =
      registerBytes r.access.wide (r.packet.data r.version) := by
  have hlen := length_registerBytes r.access.wide (r.packet.data r.version)
  rw [r.storeTo_of_stores m hst, Access.size, ← hlen]
  refine Memory.load_store m _ ?_
  rw [hlen]
  split <;> decide

/-- Version 1 has only 16-bit registers. -/
theorem Request.wide_v2 (r : Request) (h : r.access.wide) : r.version = .v2 := by
  rcases r.allowed.cases with ht | ⟨hv, -⟩
  · rcases ht with ht | ht | ht <;> rw [Request.access, ht] at h <;> exact absurd h (by decide)
  · exact hv

/-- A reading request is answered with the value of its register. -/
theorem Request.carries_readFrom (r : Request) (m : Memory 32) (hr : r.access.reads) :
    r.Carries (readRegister r.access.wide m r.packet.addr)
      ((r.packet.readFrom r.version m).bytes r.version, r.addr, r.port) := by
  refine ⟨_, rfl, ?_⟩
  rw [r.readFrom_of_reads m hr]
  cases hv : r.version with
  | v1 =>
    have hw : r.access.wide = false := by
      by_contra hw
      exact absurd ((r.wide_v2 (by simpa using hw)).symm.trans hv) (by decide)
    refine ⟨rfl, ?_⟩
    change ((readRegister r.access.wide m r.packet.addr).setWidth 16).setWidth 32 = _
    rw [hw, readRegister, if_neg (by decide)]
    simp
  | v2 => exact ⟨rfl, rfl⟩

/-- A reading request answers with the value of `r` while the register holds it. -/
theorem Request.carries_value (r q : Request) (m : Memory 32) (hr : q.access.reads)
    (hw : q.access.wide = r.access.wide) (ha : q.packet.addr = r.packet.addr)
    (hm : m.load r.packet.addr r.access.size =
      registerBytes r.access.wide (r.packet.data r.version)) :
    q.Carries r.value ((q.packet.readFrom q.version m).bytes q.version, q.addr, q.port) := by
  have hc := q.carries_readFrom m hr
  rwa [hw, ha, readRegister_of_load r.access.wide m _ (r.packet.data r.version) hm] at hc

/-- **Register file.** Any sequence of documented requests of both versions leaves the
memory and sends the replies of the plain register file. A 32-bit write is the pair of
16-bit writes, a 32-bit read the two 16-bit reads combined, and a read returns the last
value written to its register. -/
theorem requests_agree_on_register_file (u : Unspecified) (w : World) :
    (∀ reqs, (serveRun u reqs w).1 = .ok () ∧
      (serveRun u reqs w).2.dev.mem = (plainRun reqs w.dev.mem w.sent).1 ∧
      (serveRun u reqs w).2.sent = (plainRun reqs w.dev.mem w.sent).2) ∧
    (∀ r r₁ r₂, WritePair r r₁ r₂ →
      (serveRun u [r] w).2.dev.mem = (serveRun u [r₁, r₂] w).2.dev.mem) ∧
    (∀ r r₁ r₂, ReadPair r r₁ r₂ → ∃ hi lo p₁ p₂ p,
      (serveRun u [r₁, r₂, r] w).2.sent = w.sent ++ [p₁, p₂, p] ∧
      r₁.Carries hi p₁ ∧ r₂.Carries lo p₂ ∧ r.Carries ((hi <<< 16) ||| lo) p) ∧
    (∀ pre r mid q, r.access.stores → q.access = ⟨r.access.wide, false, true⟩ →
      q.packet.addr = r.packet.addr → (∀ r' ∈ mid, r'.Avoids r.packet.addr r.access.size) →
      ∃ out p, (serveRun u (pre ++ r :: (mid ++ [q])) w).2.sent = out ++ [p] ∧
        q.Carries r.value p) ∧
    (∀ pre r, r.access.stores → r.access.reads →
      ∃ out p, (serveRun u (pre ++ [r]) w).2.sent = out ++ [p] ∧ r.Carries r.value p) := by
  have hall : ∀ reqs, (serveRun u reqs w).1 = .ok () ∧
      (serveRun u reqs w).2.dev.mem = (plainRun reqs w.dev.mem w.sent).1 ∧
      (serveRun u reqs w).2.sent = (plainRun reqs w.dev.mem w.sent).2 := by
    intro reqs
    obtain ⟨d', hrun, hmem⟩ := serveRun_eq u w reqs
    rw [hrun]
    exact ⟨rfl, hmem, rfl⟩
  refine ⟨hall, ?_, ?_, ?_, ?_⟩
  · rintro r r₁ r₂ ⟨hs, hw, hs₁, hw₁, hs₂, hw₂, ha₁, ha₂, hd₁, hd₂⟩
    rw [(hall [r]).2.1, (hall [r₁, r₂]).2.1]
    simp only [plainRun, registerFile, r.storeTo_of_stores _ hs, r₁.storeTo_of_stores _ hs₁,
      r₂.storeTo_of_stores _ hs₂]
    rw [hw, Bool.eq_false_iff.mpr hw₁, Bool.eq_false_iff.mpr hw₂, ha₁, ha₂]
    exact writeRegister_pair _ _ _ _ _ hd₁ hd₂
  · rintro r r₁ r₂ ⟨hr, hr₁, hr₂, ha₁, ha₂⟩
    -- nothing is stored, so the three reads see the same memory
    have hsent := (hall [r₁, r₂, r]).2.2
    simp only [plainRun, registerFile, r.storeTo_of_not_stores _ (by rw [hr]),
      r₁.storeTo_of_not_stores _ (by rw [hr₁]), r₂.storeTo_of_not_stores _ (by rw [hr₂]),
      List.append_assoc, List.cons_append, List.nil_append] at hsent
    have hc := r.carries_readFrom w.dev.mem (by rw [hr])
    have hc₁ := r₁.carries_readFrom w.dev.mem (by rw [hr₁])
    have hc₂ := r₂.carries_readFrom w.dev.mem (by rw [hr₂])
    rw [hr, readRegister_pair] at hc
    rw [hr₁, ha₁] at hc₁
    rw [hr₂, ha₂] at hc₂
    exact ⟨_, _, _, _, _, hsent, hc₁, hc₂, hc⟩
  · intro pre r mid q hs hq ha hmid
    have hsize : r.access.size ≤ 2 ^ 32 := by
      unfold Access.size
      split <;> decide
    -- the register after the write, kept by everything up to the read
    have hsent := (hall (pre ++ r :: (mid ++ [q]))).2.2
    rw [plainRun_append, plainRun, plainRun_append] at hsent
    simp only [plainRun, registerFile, q.storeTo_of_not_stores _ (by rw [hq])] at hsent
    exact ⟨_, _, hsent, r.carries_value q _ (by rw [hq]) (by rw [hq]) ha
      ((load_plainRun mid _ _ hsize hmid).trans (load_storeTo_self r _ hs))⟩
  · intro pre r hs hr
    have hsent := (hall (pre ++ [r])).2.2
    rw [plainRun_append] at hsent
    simp only [plainRun, registerFile] at hsent
    exact ⟨_, _, hsent, r.carries_value r _ hr rfl rfl (load_storeTo_self r _ hs)⟩

end Udp
