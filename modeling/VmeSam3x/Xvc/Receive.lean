import VmeSam3x.Xvc.Shift

/-! # Receiving commands

`xvc_server_handle_receive` and the three readers it feeds from the received pbufs.
A reader is resumed with every delivery: what it has read so far is at the start of
the connection buffer, and a counter says how much that is. Only the reader of
command names copies across the boundary of a pbuf; the other two stay inside the
current one.
-/

namespace Xvc

open Interact Bytes

/-! ## pbufs -/

/-- A pbuf is the payload it still has. A chain is a pbuf followed by its `next` ones. -/
abbrev Pbuf := List U8

/-- `pbuf_copy_partial` with offset 0: the copied bytes. -/
def pbufCopyPartial : List Pbuf → Nat → List U8
  | [], _ => []
  | p :: next, len =>
    if len = 0 then [] else p.take len ++ pbufCopyPartial next (len - min p.length len)

/-- `pbuf_header` with a negative increment: hide the first `n` bytes. The check of
`LWIP_ERROR` does not come back when the pbuf is shorter. -/
def pbufHeader (p : Pbuf) (n : Nat) : Except Fault Pbuf :=
  if n = 0 then .ok p else if n ≤ p.length then .ok (p.drop n) else .error .lwipAssert

theorem pbufCopyPartial_eq (chain : List Pbuf) (len : Nat) :
    pbufCopyPartial chain len = chain.flatten.take len := by
  induction chain generalizing len with
  | nil => simp [pbufCopyPartial]
  | cons p next ih =>
    rw [pbufCopyPartial]
    split
    · rename_i h
      simp [h]
    · rw [ih, List.flatten_cons, List.take_append]
      congr 2
      omega

/-! ## The connection -/

/-- `xvc_command_t`. -/
inductive Command where
  | getinfo
  | notSet
  | settck
  | shift
deriving DecidableEq, Repr

/-- `xvc_server_connection_state_t`. -/
structure Conn where
  currentCommand : Command
  buffer : Buffer
  bufferLen : Nat
  shiftLength : U32

/-- `XVC_SHIFT_VECTOR_LENGTH_NOT_SET`. -/
def lengthNotSet : U32 := 0xFFFFFFFF

/-- `xvc_server_connection_state_reset`. -/
def Conn.reset (c : Conn) : Conn :=
  { c with currentCommand := .notSet, bufferLen := 0, shiftLength := lengthNotSet }

namespace Buffer

variable (b : Buffer)

/-- The buffer with `bs` at position `off`. -/
def overwrite (off : Nat) (bs : List U8) : Buffer := fun i =>
  if off ≤ i.val then bs.getD (i.val - off) (b i) else b i

/-- `MEMCPY` to position `off`. -/
def copy (off : Nat) (bs : List U8) : Except Fault Buffer :=
  if off + bs.length ≤ 1024 then .ok (overwrite b off bs) else .error .outOfBounds

/-- `memcmp` with the first `n` bytes of a string literal, which ends in a zero byte:
whether they differ. -/
def memcmp (literal : List U8) (n : Nat) : Except Fault Bool :=
  if n ≤ literal.length + 1 then .ok (slice b 0 n != (literal ++ [0]).take n)
  else .error .outOfBounds

/-- The first four bytes as a `uint32_t` of the (little-endian) processor. -/
def word : U32 := word32 (byte b 3) (byte b 2) (byte b 1) (byte b 0)

def setWord (w : U32) : Buffer := overwrite b 0 [byteAt 0 w, byteAt 1 w, byteAt 2 w, byteAt 3 w]

end Buffer

/-! ## The readers -/

/-- What a reader works on: the current pbuf, the buffer and the counter. -/
structure Reader where
  pbuf : Pbuf
  buffer : Buffer
  received : Nat

/-- `"getinfo:"`. -/
def getinfoName : List U8 := [0x67, 0x65, 0x74, 0x69, 0x6e, 0x66, 0x6f, 0x3a]

/-- `"settck:"`. -/
def settckName : List U8 := [0x73, 0x65, 0x74, 0x74, 0x63, 0x6b, 0x3a]

/-- `"shift:"`. -/
def shiftName : List U8 := [0x73, 0x68, 0x69, 0x66, 0x74, 0x3a]

/-- A difference of two `size_t`, passed on as a `u16_t`. -/
def lengthLeft (total received : Nat) : Nat := (total + 2 ^ 32 - received) % 2 ^ 32 % 2 ^ 16

/-- Copy what is missing of `total` bytes to the buffer, across pbuf boundaries, and hide
as much at the start of the current pbuf. -/
def fetch (next : List Pbuf) (total : Nat) (r : Reader) : Except Fault Reader := do
  let bs := pbufCopyPartial (r.pbuf :: next) (lengthLeft total r.received)
  let buffer ← r.buffer.copy r.received bs
  let pbuf ← pbufHeader r.pbuf bs.length
  return ⟨pbuf, buffer, r.received + bs.length⟩

/-- The arm of `xvc_server_read_command` for one name. -/
def matchName (next : List Pbuf) (name : List U8) (command : Command) (r : Reader) :
    Except Fault (Status × Command × Reader) := do
  let r ← fetch next name.length r
  if ← r.buffer.memcmp name r.received then
    return (.error, .notSet, r)
  else if r.received = name.length then
    return (.ok, command, r)
  else
    return (.moreDataNeeded, .notSet, r)

/-- Read up to the length of the shortest name. -/
def readShortest (next : List Pbuf) (r : Reader) : Except Fault Reader :=
  if r.received < 6 then fetch next 6 r else .ok r

/-- The choice of a name by the first two bytes. -/
def chooseName (next : List Pbuf) (first second : U8) (r : Reader) :
    Except Fault (Status × Command × Reader) :=
  if first = 0x67 then
    matchName next getinfoName .getinfo r
  else if first = 0x73 ∧ r.received < 2 then
    .ok (.moreDataNeeded, .notSet, r)
  else if first = 0x73 ∧ second = 0x65 then
    matchName next settckName .settck r
  else if first = 0x73 ∧ second = 0x68 then
    matchName next shiftName .shift r
  else
    .ok (.error, .notSet, r)

/-- `xvc_server_read_command`. The command is only meaningful with `ok`. -/
def readCommand (next : List Pbuf) (r : Reader) : Except Fault (Status × Command × Reader) := do
  if r.pbuf = [] then
    throw .assertion
  else
    let r ← readShortest next r
    if r.received = 0 then
      throw .assertion
    else
      let first ← r.buffer.load 0
      let second ← r.buffer.load 1
      chooseName next first second r

/-- The loop of `xvc_server_read_uint32`. -/
def readUint32Loop : Pbuf → Buffer → Nat → Reader
  | [], b, n => ⟨[], b, n⟩
  | x :: p, b, n =>
    if n < 4 then readUint32Loop p (b.setWord (b.word ||| x.setWidth 32 <<< (n * 8))) (n + 1)
    else ⟨x :: p, b, n⟩

/-- `xvc_server_read_uint32`. -/
def readUint32 (r : Reader) : Status × Reader :=
  let r := readUint32Loop r.pbuf (if r.received = 0 then r.buffer.setWord 0 else r.buffer) r.received
  if r.received = 4 then (.ok, r) else (.moreDataNeeded, r)

/-- `xvc_server_read_data_shift_vector`. The counter is left alone on success. -/
def readShiftVector (next : List Pbuf) (length : Nat) (r : Reader) :
    Except Fault (Status × Reader) := do
  let bytesRemaining := lengthLeft (bitsToBytes length * 2) r.received
  if 4096 < length then
    throw .assertion
  else if bytesRemaining ≤ r.pbuf.length then
    let buffer ← r.buffer.copy r.received (pbufCopyPartial (r.pbuf :: next) bytesRemaining)
    let pbuf ← pbufHeader r.pbuf bytesRemaining
    return (.ok, ⟨pbuf, buffer, r.received⟩)
  else
    let buffer ← r.buffer.copy r.received (pbufCopyPartial (r.pbuf :: next) r.pbuf.length)
    let pbuf ← pbufHeader r.pbuf r.pbuf.length
    return (.moreDataNeeded, ⟨pbuf, buffer, r.received + r.pbuf.length⟩)

/-! ## `xvc_server_handle_receive` -/

/-- `XVC_INFO_STR`: `"xvcServer_v1.0:1024\n"`. -/
def infoStr : List U8 :=
  [0x78, 0x76, 0x63, 0x53, 0x65, 0x72, 0x76, 0x65, 0x72, 0x5f, 0x76, 0x31, 0x2e, 0x30, 0x3a,
    0x31, 0x30, 0x32, 0x34, 0x0a]

/-- The clock period of 690 ns as it lies in memory. -/
def clockPeriod : List U8 := [0xb2, 0x02, 0x00, 0x00]

def Conn.reader (c : Conn) (p : Pbuf) : Reader := ⟨p, c.buffer, c.bufferLen⟩

/-- The connection after a reader has moved on. -/
def Conn.read (c : Conn) (r : Reader) : Conn := { c with buffer := r.buffer, bufferLen := r.received }

/-- The end of an iteration. `error` returns from the loop, the other two continue it. -/
abbrev Pass := Status × Conn × Pbuf

/-- Send a reply and, if that succeeds, wait for the next command. -/
def reply (payload : List U8) (c : Conn) (p : Pbuf) (done : Pass) : XvcProg Pass := do
  if (← op (.netconnWrite payload)) then
    return done
  else
    return (.error, c, p)

/-- The second half of the `shift` case, with the length known. -/
def handleShift (next : List Pbuf) (c : Conn) (p : Pbuf) : XvcProg Pass := do
  let length := c.shiftLength.toNat
  if 4096 < length then
    return (.error, c, p)
  else
    let (status, r) ← .ofExcept (readShiftVector next length (c.reader p))
    match status with
    | .ok =>
      -- the vectors lie one after the other in the buffer, TMS first
      let bytes := bitsToBytes length
      let (status, buffer) ← doShift r.buffer bytes 0 length
      let c := c.read { r with buffer := buffer }
      if status ≠ .ok then
        return (.error, c, r.pbuf)
      else
        reply (buffer.slice bytes bytes) c r.pbuf
          (.ok, { c with currentCommand := .notSet, bufferLen := 0, shiftLength := lengthNotSet },
            r.pbuf)
    | status => return (status, c.read r, r.pbuf)

/-- The switch over the current command. -/
def handleCommand (next : List Pbuf) (status : Status) (c : Conn) (p : Pbuf) : XvcProg Pass :=
  match c.currentCommand with
  | .getinfo => reply infoStr c p (status, { c with currentCommand := .notSet }, p)
  | .settck =>
    match readUint32 (c.reader p) with
    | (.ok, r) =>
      let c := c.read { r with received := 0 }
      reply clockPeriod c r.pbuf (.ok, { c with currentCommand := .notSet }, r.pbuf)
    | (status, r) => return (status, c.read r, r.pbuf)
  | .shift =>
    if c.shiftLength = lengthNotSet then
      match readUint32 (c.reader p) with
      | (.ok, r) =>
        handleShift next { c.read { r with received := 0 } with shiftLength := r.buffer.word } r.pbuf
      | (status, r) => return (status, c.read r, r.pbuf)
    else
      handleShift next c p
  | .notSet => return (.error, c, p)

/-- One iteration of the loop on a pbuf that is not empty. -/
def iteration (next : List Pbuf) (status : Status) (c : Conn) (p : Pbuf) : XvcProg Pass := do
  if c.currentCommand = .notSet then
    let (status, command, r) ← .ofExcept (readCommand next (c.reader p))
    match status with
    | .ok =>
      handleCommand next status
        { c.read { r with received := 0 } with currentCommand := command } r.pbuf
    | status => return (status, c.read r, r.pbuf)
  else
    handleCommand next status c p

/-- What `xvc_server_handle_receive` returns and leaves behind. -/
structure Received where
  status : Status
  conn : Conn
  chain : List Pbuf

/-- The loop, for at most `fuel` iterations. -/
def receiveLoop : Nat → Status → Conn → Pbuf → List Pbuf → XvcProg Received
  | 0, _, _, _, _ => .fail .diverged
  | _ + 1, status, c, [], [] =>
    return ⟨if status = .moreDataNeeded then .ok else status, c, [[]]⟩
  | fuel + 1, status, c, [], q :: next => receiveLoop fuel status c q next
  | fuel + 1, status, c, x :: p, next => do
    let (status, c, p) ← iteration next status c (x :: p)
    if status = .error then
      return ⟨.error, c, p :: next⟩
    else
      receiveLoop fuel status c p next

/-- `xvc_server_handle_receive` on the chain `p :: next`. Every iteration hides a byte or
goes on to the next pbuf, apart from at most one that only sends a reply. -/
def handleReceive (c : Conn) (p : Pbuf) (next : List Pbuf) : XvcProg Received :=
  receiveLoop ((p :: next).flatten.length + (p :: next).length + 1) .ok c p next

/-! ## The connection loop of `vXvcServer` -/

/-- The answers of `netconn_recv_tcp_pbuf`. -/
inductive Delivery where
  | data (p : Pbuf) (next : List Pbuf)
  | timeout
  | failed

/-- The inner loop, with what will be received. The loop ends with an error of
`netconn_recv_tcp_pbuf` at the latest. -/
def connectionLoop : Conn → List Delivery → XvcProg Conn
  | c, [] => return c
  | c, d :: ds => do
    if (← op .readState) ≠ .enabled then
      return c
    else
      match d with
      | .timeout => connectionLoop c ds
      | .failed => return c
      | .data p next =>
        let r ← handleReceive c p next
        if r.status ≠ .ok then
          return r.conn
        else
          connectionLoop r.conn ds

/-- What `vXvcServer` does with an accepted connection. -/
def serveConnection (c : Conn) (ds : List Delivery) : XvcProg Conn := do
  let c ← connectionLoop c ds
  op .netconnClose
  return c.reset

end Xvc
