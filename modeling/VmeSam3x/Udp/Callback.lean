import VmeSam3x.Fpga.Twi

/-! # The UDP server

`udp_server_callback` (`BasicUDP.c`) serves register accesses over UDP: it checks
the framing, performs the access through `fpga_twi.c` and sends the request back
in place, with the status and data fields overwritten. The length of a packet is
its protocol version: 12 bytes are version 1, 16 bytes version 2.

The packet is the byte string of the pbuf; the fields of `struct udphdr` are
loads and stores at fixed offsets, little endian as the processor does them, so
the byte order of the protocol comes from `ntohs` and `ntohl` alone. A load or a
store beyond the end of the payload is a fault.
-/

namespace Udp

open Interact Bytes Fpga

/-! ## Interface -/

/-- What the callback does to its surroundings. -/
inductive UdpOp where
  | twi (o : TwiOp)
  | sendto (payload : List U8) (addr : U32) (port : U16)
  | free
deriving DecidableEq

abbrev Net : Sig where
  Op := UdpOp
  Res
    | .twi o => Twi.Res o
    | .sendto _ _ _ => Unit
    | .free => Unit

/-- An access outside the payload. -/
inductive Fault where
  | outOfBounds
deriving DecidableEq, Repr

abbrev UdpProg := Prog Net Fault

/-- The TWI driver as part of the callback's surroundings. -/
def twiHom : Hom Twi Net := ⟨UdpOp.twi, fun _ => Equiv.refl _⟩

/-- A call into `fpga_twi.c`. -/
def fpga {α : Type} (p : Prog Twi Fault α) : UdpProg α := p.embed twiHom

def udpSendto (payload : List U8) (addr : U32) (port : U16) : UdpProg Unit :=
  Prog.perform (S := Net) (UdpOp.sendto payload addr port)

def pbufFree : UdpProg Unit := Prog.perform (S := Net) UdpOp.free

/-! ## `struct udphdr` -/

def load8 (p : List U8) (off : Nat) : Except Fault U8 :=
  match p[off]? with
  | some b => .ok b
  | none => .error .outOfBounds

def load16 (p : List U8) (off : Nat) : Except Fault U16 :=
  match p[off]?, p[off + 1]? with
  | some b0, some b1 => .ok (word16 b1 b0)
  | _, _ => .error .outOfBounds

def load32 (p : List U8) (off : Nat) : Except Fault U32 :=
  match p[off]?, p[off + 1]?, p[off + 2]?, p[off + 3]? with
  | some b0, some b1, some b2, some b3 => .ok (word32 b3 b2 b1 b0)
  | _, _, _, _ => .error .outOfBounds

def store8 (p : List U8) (off : Nat) (x : U8) : Except Fault (List U8) :=
  if off < p.length then .ok (p.set off x) else .error .outOfBounds

def store16 (p : List U8) (off : Nat) (x : U16) : Except Fault (List U8) :=
  if off + 1 < p.length then .ok ((p.set off (byteAt 0 x)).set (off + 1) (byteAt 1 x))
  else .error .outOfBounds

def store32 (p : List U8) (off : Nat) (x : U32) : Except Fault (List U8) :=
  if off + 3 < p.length then
    .ok ((((p.set off (byteAt 0 x)).set (off + 1) (byteAt 1 x)).set (off + 2) (byteAt 2 x)).set
      (off + 3) (byteAt 3 x))
  else .error .outOfBounds

/-- Offsets of the fields. -/
def accessTypeOff : Nat := 0
def statusOff : Nat := 1
def dataV1Off : Nat := 2
def addrOff : Nat := 4
def dataV2Off : Nat := 12

/-- `lwip_htons`, also `ntohs`. -/
def ntohs (n : U16) : U16 := ((n &&& 0xff) <<< 8) ||| ((n &&& 0xff00) >>> 8)

/-- `lwip_htonl`, also `ntohl`. -/
def ntohl (n : U32) : U32 :=
  ((n &&& 0xff) <<< 24) ||| ((n &&& 0xff00) <<< 8) ||| ((n &&& 0xff0000) >>> 8) |||
    ((n &&& 0xff000000) >>> 24)

@[simp] theorem ntohs_word16 (b1 b0 : U8) : ntohs (word16 b1 b0) = word16 b0 b1 := by
  rw [ntohs, word16, word16]
  ext i hi
  interval_cases i <;> simp

@[simp] theorem ntohl_word32 (b3 b2 b1 b0 : U8) :
    ntohl (word32 b3 b2 b1 b0) = word32 b0 b1 b2 b3 := by
  rw [ntohl, word32, word32]
  ext i hi
  interval_cases i <;> simp

/-! ## The request -/

/-- Access types (`BasicUDP.h`). -/
def readAccess16 : U8 := 0x01
def writeAccess16 : U8 := 0x02
def writeAccess16NoReadback : U8 := 0x03
def readAccess32 : U8 := 0x04
def writeAccess32 : U8 := 0x05
def writeAccess32NoReadback : U8 := 0x06

/-- Values of the status field, an `int8_t`: 0, -2 and -3. -/
def statusOk : U8 := 0x00
def statusTimeout : U8 := 0xfe
def statusInvalidCmd : U8 := 0xfd

/-- `protocol_version`. -/
inductive Version where
  | v1
  | v2
deriving DecidableEq, Repr

def Version.length : Version → Nat
  | .v1 => 12
  | .v2 => 16

/-- Initial contents of the locals that are not assigned on every path: the two
variables `data` of the read arms and `data_full` of `fpga_read_short`. -/
structure Locals where
  data16 : U16
  data32 : U32
  dataFull : U32

/-- The second `if` chain: the read, or the read-back after a write. -/
def udpReadPart (loc : Locals) (version : Version) (p : List U8) : UdpProg (List U8) := do
  let accessType ← .ofExcept (load8 p accessTypeOff)
  if accessType = writeAccess16 ∨ accessType = readAccess16 then
    let addr ← .ofExcept (load32 p addrOff)
    let r ← fpga (fpgaReadShort loc.dataFull (ntohl addr) loc.data16)
    if r.1 ≠ .success then
      .ofExcept (store8 p statusOff statusTimeout)
    else match version with
      | .v1 => .ofExcept (store16 p dataV1Off (ntohs r.2))
      | .v2 => .ofExcept (store32 p dataV2Off (ntohl (r.2.setWidth 32)))
  else if accessType = writeAccess32 ∨ accessType = readAccess32 then
    match version with
    | .v1 => .ofExcept (store8 p statusOff statusInvalidCmd)
    | .v2 =>
      let addr ← .ofExcept (load32 p addrOff)
      let r ← fpga (fpgaReadLong (ntohl addr) loc.data32)
      -- `data` goes into the packet whether or not the read filled it
      let p ← if r.1 ≠ .success then .ofExcept (store8 p statusOff statusTimeout) else pure p
      .ofExcept (store32 p dataV2Off (ntohl r.2))
  else if accessType = writeAccess16NoReadback ∨ accessType = writeAccess32NoReadback then
    return p
  else
    .ofExcept (store8 p statusOff statusInvalidCmd)

/-- From the first store to the label `send_reply`: the reply is the request,
modified in place. -/
def udpRequest (loc : Locals) (version : Version) (p : List U8) : UdpProg (List U8) := do
  let p ← .ofExcept (store8 p statusOff statusOk)
  let accessType ← .ofExcept (load8 p accessTypeOff)
  if accessType = writeAccess16 ∨ accessType = writeAccess16NoReadback then
    let data ← match version with
      | .v1 => ntohs <$> .ofExcept (load16 p dataV1Off)
      | .v2 => (fun x => (ntohl x).setWidth 16) <$> .ofExcept (load32 p dataV2Off)
    let addr ← .ofExcept (load32 p addrOff)
    let status ← fpga (fpgaWriteShort (ntohl addr) data)
    if status ≠ .success then
      .ofExcept (store8 p statusOff statusTimeout)
    else
      udpReadPart loc version p
  else if accessType = writeAccess32 ∨ accessType = writeAccess32NoReadback then
    match version with
    | .v1 => .ofExcept (store8 p statusOff statusInvalidCmd)
    | .v2 =>
      let data ← .ofExcept (load32 p dataV2Off)
      let addr ← .ofExcept (load32 p addrOff)
      let status ← fpga (fpgaWriteLong (ntohl addr) (ntohl data))
      -- no jump to the reply here: a failed write is read back all the same
      let p ← if status ≠ .success then .ofExcept (store8 p statusOff statusTimeout) else pure p
      udpReadPart loc version p
  else
    udpReadPart loc version p

/-- `udp_server_callback` on the pbuf chain `p` received from `addr:port`. -/
def udpServerCallback (loc : Locals) (p : List (List U8)) (addr : U32) (port : U16) :
    UdpProg Unit := do
  match p with
  | [payload] =>
    if payload.length = 12 then
      udpSendto (← udpRequest loc .v1 payload) addr port
      pbufFree
    else if payload.length = 16 then
      udpSendto (← udpRequest loc .v2 payload) addr port
      pbufFree
    else
      pbufFree
  | _ => pbufFree

end Udp
