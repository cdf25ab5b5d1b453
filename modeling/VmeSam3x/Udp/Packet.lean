import VmeSam3x.Udp.Callback

/-! # Packets of the UDP protocol

The two packet layouts of the protocol, with all fields in network byte order,
and the callback on the level of these fields. `udpRequest_bytes` is the bridge:
on a packet of either version the byte-level code does what `serve` does to the
record, and touches no other byte.
-/

namespace Udp

open Interact Bytes Fpga

/-- The fields of a packet. Version 1 has no `data2`; version 2 does not use
`data1` (the reserved field). -/
@[ext] structure Packet where
  accessType : U8
  status : U8
  data1 : U16
  addr : U32
  ref : U32
  data2 : U32
deriving DecidableEq

/-- A word in network byte order. -/
def be16 (x : U16) : List U8 := [byteAt 1 x, byteAt 0 x]

def be32 (x : U32) : List U8 := [byteAt 3 x, byteAt 2 x, byteAt 1 x, byteAt 0 x]

/-- The packet on the wire. -/
def Packet.bytes (h : Packet) : Version → List U8
  | .v1 => h.accessType :: h.status :: (be16 h.data1 ++ be32 h.addr ++ be32 h.ref)
  | .v2 => h.accessType :: h.status :: (be16 h.data1 ++ be32 h.addr ++ be32 h.ref ++ be32 h.data2)

@[simp] theorem Packet.length_bytes (h : Packet) (v : Version) : (h.bytes v).length = v.length := by
  cases v <;> rfl

/-- Every payload of the right length is a packet. -/
theorem exists_packet (v : Version) (p : List U8) (hp : p.length = v.length) :
    ∃ h : Packet, p = h.bytes v := by
  cases v with
  | v1 =>
    match p, hp with
    | [t, s, d1, d0, a3, a2, a1, a0, r3, r2, r1, r0], _ =>
      refine ⟨⟨t, s, word16 d1 d0, word32 a3 a2 a1 a0, word32 r3 r2 r1 r0, 0⟩, ?_⟩
      simp [Packet.bytes, be16, be32]
  | v2 =>
    match p, hp with
    | [t, s, d1, d0, a3, a2, a1, a0, r3, r2, r1, r0, e3, e2, e1, e0], _ =>
      refine ⟨⟨t, s, word16 d1 d0, word32 a3 a2 a1 a0, word32 r3 r2 r1 r0, word32 e3 e2 e1 e0⟩, ?_⟩
      simp [Packet.bytes, be16, be32]

/-! ## Fields through the overlay structure -/

@[simp] theorem byteAt_one_ntohs (x : U16) : byteAt 1 (ntohs x) = byteAt 0 x := by
  conv_lhs => rw [← word16_byteAt x]
  simp only [ntohs_word16, byteAt_one_word16]

@[simp] theorem byteAt_zero_ntohs (x : U16) : byteAt 0 (ntohs x) = byteAt 1 x := by
  conv_lhs => rw [← word16_byteAt x]
  simp only [ntohs_word16, byteAt_zero_word16]

/-- Storing `htonl(x)` little endian puts the bytes of `x` on the wire big endian. -/
theorem le_ntohl (x : U32) :
    [byteAt 0 (ntohl x), byteAt 1 (ntohl x), byteAt 2 (ntohl x), byteAt 3 (ntohl x)] = be32 x := by
  conv_lhs => rw [← word32_byteAt x]
  simp only [ntohl_word32, byteAt_zero_word32, byteAt_one_word32, byteAt_two_word32,
    byteAt_three_word32, be32]

variable (h : Packet) (v : Version)

@[simp] theorem load_accessType : load8 (h.bytes v) accessTypeOff = .ok h.accessType := by
  cases v <;> rfl

theorem load_addr : load32 (h.bytes v) addrOff = .ok (ntohl h.addr) := by
  have : ntohl h.addr =
      word32 (byteAt 0 h.addr) (byteAt 1 h.addr) (byteAt 2 h.addr) (byteAt 3 h.addr) := by
    conv_lhs => rw [← word32_byteAt h.addr, ntohl_word32]
  rw [this]
  cases v <;> rfl

theorem load_data1 : load16 (h.bytes v) dataV1Off = .ok (ntohs h.data1) := by
  have : ntohs h.data1 = word16 (byteAt 0 h.data1) (byteAt 1 h.data1) := by
    conv_lhs => rw [← word16_byteAt h.data1, ntohs_word16]
  rw [this]
  cases v <;> rfl

theorem load_data2 : load32 (h.bytes .v2) dataV2Off = .ok (ntohl h.data2) := by
  have : ntohl h.data2 =
      word32 (byteAt 0 h.data2) (byteAt 1 h.data2) (byteAt 2 h.data2) (byteAt 3 h.data2) := by
    conv_lhs => rw [← word32_byteAt h.data2, ntohl_word32]
  rw [this]
  rfl

@[simp] theorem ntohl_ntohl (x : U32) : ntohl (ntohl x) = x := by
  conv_lhs => rw [← word32_byteAt x, ntohl_word32, ntohl_word32, word32_byteAt]

@[simp] theorem ntohs_ntohs (x : U16) : ntohs (ntohs x) = x := by
  conv_lhs => rw [← word16_byteAt x, ntohs_word16, ntohs_word16, word16_byteAt]

@[simp] theorem store_status (s : U8) :
    store8 (h.bytes v) statusOff s = .ok ({ h with status := s }.bytes v) := by
  cases v <;> rfl

theorem store_data1 (x : U16) :
    store16 (h.bytes .v1) dataV1Off (ntohs x) = .ok ({ h with data1 := x }.bytes .v1) := by
  simp [store16, dataV1Off, Packet.bytes, be16, be32]

theorem store_data2 (x : U32) :
    store32 (h.bytes .v2) dataV2Off (ntohl x) = .ok ({ h with data2 := x }.bytes .v2) := by
  have hx := le_ntohl x
  simp only [be32, List.cons.injEq, and_true] at hx
  simp [store32, dataV2Off, Packet.bytes, be16, be32, hx]

/-! ## The callback on packets -/

/-- The data a 16-bit write puts into the register. -/
def Packet.writeData16 (h : Packet) : Version → U16
  | .v1 => h.data1
  | .v2 => h.data2.setWidth 16

/-- The reply to a 16-bit read that returned `x`. -/
def Packet.withData16 (h : Packet) (x : U16) : Version → Packet
  | .v1 => { h with data1 := x }
  | .v2 => { h with data2 := x.setWidth 32 }

/-- `udpReadPart` on the fields of the packet. -/
def serveRead (loc : Locals) (v : Version) (h : Packet) : UdpProg Packet :=
  if h.accessType = writeAccess16 ∨ h.accessType = readAccess16 then do
    let r ← fpga (fpgaReadShort loc.dataFull h.addr loc.data16)
    return if r.1 ≠ .success then { h with status := statusTimeout } else h.withData16 r.2 v
  else if h.accessType = writeAccess32 ∨ h.accessType = readAccess32 then
    match v with
    | .v1 => return { h with status := statusInvalidCmd }
    | .v2 => do
      let r ← fpga (fpgaReadLong h.addr loc.data32)
      return if r.1 ≠ .success then { h with status := statusTimeout, data2 := r.2 }
        else { h with data2 := r.2 }
  else if h.accessType = writeAccess16NoReadback ∨ h.accessType = writeAccess32NoReadback then
    return h
  else
    return { h with status := statusInvalidCmd }

/-- `udpRequest` on the fields of the packet. -/
def serve (loc : Locals) (v : Version) (h : Packet) : UdpProg Packet :=
  let h := { h with status := statusOk }
  if h.accessType = writeAccess16 ∨ h.accessType = writeAccess16NoReadback then do
    let status ← fpga (fpgaWriteShort h.addr (h.writeData16 v))
    if status ≠ .success then
      return { h with status := statusTimeout }
    else
      serveRead loc v h
  else if h.accessType = writeAccess32 ∨ h.accessType = writeAccess32NoReadback then
    match v with
    | .v1 => return { h with status := statusInvalidCmd }
    | .v2 => do
      let status ← fpga (fpgaWriteLong h.addr h.data2)
      serveRead loc v (if status ≠ .success then { h with status := statusTimeout } else h)
  else
    serveRead loc v h

theorem udpReadPart_bytes (loc : Locals) :
    udpReadPart loc v (h.bytes v) = (fun h' => h'.bytes v) <$> serveRead loc v h := by
  simp only [udpReadPart, serveRead, load_accessType, Prog.ofExcept_ok, Prog.ret_bind, load_addr,
    ntohl_ntohl]
  split
  · rw [map_bind]
    congr 1
    funext r
    by_cases hr : r.1 = .success
    · cases v
      · simp [hr, store_data1, Packet.withData16]
      · simp [hr, store_data2, Packet.withData16]
    · simp [hr]
  · split
    · cases v
      · simp
      · simp only [map_bind]
        congr 1
        funext r
        by_cases hr : r.1 = .success <;> simp [hr, store_data2]
    · split <;> simp

/-- On a packet the byte-level code is `serve`. -/
theorem udpRequest_bytes (loc : Locals) :
    udpRequest loc v (h.bytes v) = (fun h' => h'.bytes v) <$> serve loc v h := by
  simp only [udpRequest, serve, store_status, load_accessType, Prog.ofExcept_ok, Prog.ret_bind,
    load_addr, ntohl_ntohl]
  split
  · cases v
    · simp only [load_data1, Prog.ofExcept_ok, Prog.map_ret, Prog.ret_bind, ntohs_ntohs, map_bind,
        Packet.writeData16]
      congr 1
      funext r
      by_cases hr : r = .success <;> simp [hr, udpReadPart_bytes]
    · simp only [load_data2, Prog.ofExcept_ok, Prog.map_ret, Prog.ret_bind, ntohl_ntohl, map_bind,
        Packet.writeData16]
      congr 1
      funext r
      by_cases hr : r = .success <;> simp [hr, udpReadPart_bytes]
  · split
    · cases v
      · simp
      · simp only [load_data2, Prog.ofExcept_ok, Prog.ret_bind, map_bind, ntohl_ntohl]
        congr 1
        funext r
        by_cases hr : r = .success <;> simp [hr, udpReadPart_bytes]
    · exact udpReadPart_bytes _ v loc

end Udp
