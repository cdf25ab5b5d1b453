import VmeSam3x.Lib.Bytes
import VmeSam3x.Fpga.Twi

/-! # The TWI driver

`twi_master_read` and `twi_master_write` (`twi.c`) in the build with FreeRTOS. Both move
all but at most one byte by DMA, in chunks of at most 65535 bytes, and poll the status
register in between; instead of spinning, a loop enables an interrupt and waits for the
handler to notify the task.

A status read names the statement it stands for, since the flag for a missing
acknowledge is cleared by whoever reads the register first. Loops without a counter get a
number of rounds.
-/

namespace TwiDriver

open Interact Bytes Fpga

/-! ## Registers -/

/-- The statements that read the status register. -/
inductive Reader where
  /-- The loop that waits for a DMA transfer. -/
  | dma
  /-- The loop that moves a single byte. -/
  | byte
  /-- The loop before the stop condition of a write. -/
  | ready
  /-- The loop that waits for completion, after the stop condition. -/
  | complete
  /-- The dummy read of `twi_disable_interrupt`. -/
  | dummy
deriving DecidableEq, Repr

/-- Whether the statement looks at `TWI_SR_NACK`. -/
def Reader.tests : Reader → Bool
  | .dma => true
  | .byte => true
  | .ready => true
  | .complete => false
  | .dummy => false

/-- Flags of `TWI_SR`, and of `TWI_IER` and `TWI_IDR`. -/
def srTxcomp : U32 := 0x0001
def srRxrdy : U32 := 0x0002
def srTxrdy : U32 := 0x0004
def srNack : U32 := 0x0100
def srRxbuff : U32 := 0x4000
def srTxbufe : U32 := 0x8000

/-- Bits of `TWI_CR`. -/
def crStart : U32 := 0x1
def crStop : U32 := 0x2

/-- A status word with a flag set. -/
def Has (status flag : U32) : Prop := status &&& flag ≠ 0

instance (status flag : U32) : Decidable (Has status flag) := inferInstanceAs (Decidable (_ ≠ _))

/-- The two directions of a transfer; the DMA phases differ in nothing else. -/
inductive Dir where
  | rx
  | tx
deriving DecidableEq, Repr

/-- The flag for the end of a DMA transfer. -/
def Dir.buffer : Dir → U32
  | .rx => srRxbuff
  | .tx => srTxbufe

/-- `PERIPH_PTCR_RXTEN` and `PERIPH_PTCR_TXTEN`. -/
def Dir.enable : Dir → U32
  | .rx => 0x0001
  | .tx => 0x0100

/-- `PERIPH_PTCR_RXTDIS` and `PERIPH_PTCR_TXTDIS`. -/
def Dir.disable : Dir → U32
  | .rx => 0x0002
  | .tx => 0x0200

/-- The size of the next chunk: a read leaves its last byte for after the stop condition. -/
def Dir.transferSize (dir : Dir) (cnt : Nat) : Nat :=
  if cnt > 0xffff then 0xffff else
    match dir with
    | .rx => cnt - 1
    | .tx => cnt

/-! ## Interface -/

inductive DriverOp where
  | setMmr (value : U32)
  | setIadr (value : U32)
  | setCr (value : U32)
  | readSr (reader : Reader)
  | readRhr
  | setThr (value : U8)
  | setIer (flags : U32)
  | setIdr (flags : U32)
  /-- `PERIPH_RPR` or `PERIPH_TPR`, as an offset into the packet's buffer. -/
  | setPointer (dir : Dir) (offset : Nat)
  /-- `PERIPH_RCR` or `PERIPH_TCR`. -/
  | setCounter (dir : Dir) (value : Nat)
  | readCounter (dir : Dir)
  | setPtcr (value : U32)
  /-- A store into the packet's buffer. -/
  | store (offset : Nat) (value : U8)
  | notifyStateClear
  | notifyWait (ticks : Nat)
deriving DecidableEq

abbrev Registers : Sig where
  Op := DriverOp
  Res
    | .readSr _ => U32
    | .readRhr => U8
    | .readCounter _ => Nat
    | .notifyWait _ => Bool
    | _ => Unit

inductive Fault where
  /-- `Assert(false)` in `twi_get_pdc_base`. -/
  | noPdc
  /-- A loop has not ended within the rounds the run was given. -/
  | stillWaiting
deriving DecidableEq, Repr

abbrev DriverProg := Prog Registers Fault

def perform (o : DriverOp) : DriverProg (Registers.Res o) := Prog.perform (S := Registers) o

/-- `p_twi`. -/
inductive Instance where
  | twi0
  | twi1
  | other
deriving DecidableEq, Repr

/-- `twi_packet_t`. -/
structure Packet where
  addr : Fin 3 → U8
  addrLength : U32
  buffer : Nat → U8
  length : U32
  chip : U8

/-! ## Waiting -/

/-- `twi_set_task_handle`. -/
def twiSetTaskHandle : Instance → TwiStatus
  | .twi0 => .success
  | .twi1 => .success
  | .other => .invalidArgument

def twiEnableInterrupt (flags : U32) : DriverProg Unit := perform (.setIer flags)

def twiDisableInterrupt (flags : U32) : DriverProg Unit := do
  perform (.setIdr flags)
  let _ ← perform (.readSr .dummy)

def twiWaitForInterrupt (pTwi : Instance) (flags : U32) (ticks : Nat) : DriverProg TwiStatus := do
  if twiSetTaskHandle pTwi ≠ .success then
    return twiSetTaskHandle pTwi
  else
    perform .notifyStateClear
    twiEnableInterrupt flags
    if ← perform (.notifyWait ticks) then
      return .success
    else
      twiDisableInterrupt flags
      return .errorTimeout

/-! ## The DMA phase -/

/-- The inner loop, with `rc` from the round before. -/
def dmaWait (pTwi : Instance) (dir : Dir) : Nat → Nat → TwiStatus → DriverProg TwiStatus
  | 0, _, _ => .fail .stillWaiting
  | rounds + 1, remaining, rc => do
    let status ← perform (.readSr .dma)
    if Has status srNack then
      return .receiveNack
    else if Has status dir.buffer then
      -- the loop is left with whatever the last wait returned
      return rc
    else
      let rc ← twiWaitForInterrupt pTwi dir.buffer 20
      if rc = .errorTimeout then
        if (← perform (.readCounter dir)) ≠ remaining then
          let remaining ← perform (.readCounter dir)
          dmaWait pTwi dir rounds remaining rc
        else
          return rc
      else if rc ≠ .success then
        return rc
      else
        dmaWait pTwi dir rounds remaining rc

theorem Dir.transferSize_pos (dir : Dir) {cnt : Nat} (h : 1 < cnt) : 0 < dir.transferSize cnt := by
  unfold Dir.transferSize
  split
  · decide
  · cases dir with
    | rx => exact Nat.sub_pos_of_lt h
    | tx => exact Nat.zero_lt_of_lt h

/-- One chunk: set up the transfer, wait for it, and give it up on an error. -/
def dmaChunk (rounds : Nat) (pTwi : Instance) (dir : Dir) (size offset : Nat) :
    DriverProg TwiStatus := do
  if pTwi = .other then
    .fail .noPdc
  else
    perform (.setPointer dir offset)
    perform (.setCounter dir size)
    perform (.setPtcr dir.enable)
    let rc ← dmaWait pTwi dir rounds size .success
    perform (.setPtcr dir.disable)
    if rc ≠ .success then
      perform (.setCounter dir 0)
    return rc

/-- The loop over the chunks: the status, and the count and offset that are left. -/
def dmaPhase (rounds : Nat) (pTwi : Instance) (dir : Dir) (cnt offset : Nat) :
    DriverProg (TwiStatus × Nat × Nat) :=
  if _h : 1 < cnt then do
    let rc ← dmaChunk rounds pTwi dir (dir.transferSize cnt) offset
    if rc ≠ .success then
      return (rc, cnt, offset)
    else
      dmaPhase rounds pTwi dir (cnt - dir.transferSize cnt) (offset + dir.transferSize cnt)
  else
    return (.success, cnt, offset)
termination_by cnt
decreasing_by
  have := dir.transferSize_pos _h
  omega

/-! ## Reading -/

/-- `TWI_TIMEOUT`. -/
def twiTimeout : Nat := 15000

/-- `twi_mk_addr`. -/
def twiMkAddr (addr : Fin 3 → U8) (len : U32) : U32 :=
  if len = 0 then 0
  else
    let val := (addr 0).setWidth 32
    let val := if 1 < len.toNat then (val <<< 8) ||| (addr 1).setWidth 32 else val
    if 2 < len.toNat then (val <<< 8) ||| (addr 2).setWidth 32 else val

/-- The slave address and the size of the internal address, in `TWI_MMR`. -/
def mmrAddress (packet : Packet) : U32 :=
  (0x7f0000 &&& (packet.chip.setWidth 32 <<< 16)) ||| ((packet.addrLength <<< 8) &&& 0x300)

/-- `TWI_MMR_MREAD`. -/
def mmrMread : U32 := 0x1000

/-- One pass of the loop over the received bytes. `again` is the rest of the loop, unless the
counter `timeout` has run out. -/
def receivePass (pTwi : Instance) (offset : Nat) (again : Option (DriverProg TwiStatus)) :
    DriverProg TwiStatus := do
  let status ← perform (.readSr .byte)
  if Has status srNack then
    return .receiveNack
  else
    match again with
    | none => return .errorTimeout
    | some again =>
      if ¬ Has status srRxrdy then
        let rc ← twiWaitForInterrupt pTwi (srNack ||| srRxrdy) 2
        if rc ≠ .success then
          return rc
        else
          again
      else
        perform (.store offset (← perform .readRhr))
        return .success

/-- The loop over the received bytes, up to one byte. -/
def receiveByte (pTwi : Instance) (offset : Nat) : Nat → DriverProg TwiStatus
  | 0 => receivePass pTwi offset none
  | timeout + 1 => receivePass pTwi offset (some (receiveByte pTwi offset timeout))

/-- The loop over the bytes after the DMA phase. -/
def receiveBytes (pTwi : Instance) : Nat → Nat → DriverProg TwiStatus
  | 0, _ => return .success
  | cnt + 1, offset => do
    let rc ← receiveByte pTwi offset twiTimeout
    if rc ≠ .success then
      return rc
    else
      receiveBytes pTwi cnt (offset + 1)

/-- One pass of the wait for completion of a read. -/
def completeReadPass (pTwi : Instance) (again : Option (DriverProg TwiStatus)) :
    DriverProg TwiStatus := do
  let status ← perform (.readSr .complete)
  if Has status srTxcomp then
    return .success
  else
    let rc ← twiWaitForInterrupt pTwi srTxcomp 1
    if rc = .errorTimeout then
      return .errorTimeoutComp
    else if rc ≠ .success then
      return rc
    else
      match again with
      | none => return .errorTimeoutComp
      | some again => again

/-- The wait for completion of a read. -/
def completeRead (pTwi : Instance) : Nat → DriverProg TwiStatus
  | 0 => completeReadPass pTwi none
  | timeout + 1 => completeReadPass pTwi (some (completeRead pTwi timeout))

/-- The stop condition before the last byte; a packet of one byte got it together with the
start condition. -/
def stopUnlessSent (cnt : Nat) : DriverProg Unit :=
  if cnt ≠ 1 then perform (.setCr crStop) else return ()

/-- `twi_master_read` after the DMA phase, for a packet of `cnt` bytes. -/
def finishRead (pTwi : Instance) (cnt left offset : Nat) : DriverProg TwiStatus := do
  stopUnlessSent cnt
  let rc ← receiveBytes pTwi left offset
  if rc ≠ .success then
    return rc
  else
    completeRead pTwi twiTimeout

/-- `twi_master_read` after the start condition. -/
def readPhases (rounds : Nat) (pTwi : Instance) (cnt : Nat) : DriverProg TwiStatus := do
  let r ← dmaPhase rounds pTwi .rx cnt 0
  if r.1 ≠ .success then
    return r.1
  else
    finishRead pTwi cnt r.2.1 r.2.2

/-- `twi_master_read`. -/
def twiMasterRead (rounds : Nat) (pTwi : Instance) (packet : Packet) : DriverProg TwiStatus := do
  let cnt := packet.length.toNat
  if cnt = 0 then
    return .invalidArgument
  else
    perform (.setMmr 0)
    perform (.setMmr (mmrMread ||| mmrAddress packet))
    perform (.setIadr 0)
    perform (.setIadr (twiMkAddr packet.addr packet.addrLength))
    perform (.setCr (if cnt = 1 then crStart ||| crStop else crStart))
    readPhases rounds pTwi cnt

/-! ## Writing -/

/-- The loop over the bytes left by the DMA phase, up to one byte. -/
def sendByte (pTwi : Instance) (value : U8) : Nat → DriverProg TwiStatus
  | 0 => .fail .stillWaiting
  | rounds + 1 => do
    let status ← perform (.readSr .byte)
    if Has status srNack then
      return .receiveNack
    else if ¬ Has status srTxrdy then
      let rc ← twiWaitForInterrupt pTwi (srNack ||| srTxrdy) 2
      if rc ≠ .success then
        return rc
      else
        sendByte pTwi value rounds
    else
      perform (.setThr value)
      return .success

/-- The loop over the bytes after the DMA phase. -/
def sendBytes (rounds : Nat) (pTwi : Instance) (buffer : Nat → U8) :
    Nat → Nat → DriverProg TwiStatus
  | 0, _ => return .success
  | cnt + 1, offset => do
    let rc ← sendByte pTwi (buffer offset) rounds
    if rc ≠ .success then
      return rc
    else
      sendBytes rounds pTwi buffer cnt (offset + 1)

/-- The loop before the stop condition. -/
def awaitReady (pTwi : Instance) : Nat → DriverProg TwiStatus
  | 0 => .fail .stillWaiting
  | rounds + 1 => do
    let status ← perform (.readSr .ready)
    if Has status srNack then
      return .receiveNack
    else if Has status srTxrdy then
      return .success
    else
      let rc ← twiWaitForInterrupt pTwi (srNack ||| srTxrdy) 2
      if rc ≠ .success then
        return rc
      else
        awaitReady pTwi rounds

/-- One pass of the wait for completion of a write. -/
def completeWritePass (again : Option (DriverProg TwiStatus)) : DriverProg TwiStatus := do
  let status ← perform (.readSr .complete)
  if Has status srTxcomp then
    return .success
  else
    match again with
    | none => return .errorTimeoutComp
    | some again => again

/-- The wait for completion of a write. -/
def completeWrite : Nat → DriverProg TwiStatus
  | 0 => completeWritePass none
  | timeout + 1 => completeWritePass (some (completeWrite timeout))

/-- `twi_master_write` after the DMA phase. -/
def finishWrite (rounds : Nat) (pTwi : Instance) (buffer : Nat → U8) (left offset : Nat) :
    DriverProg TwiStatus := do
  let rc ← sendBytes rounds pTwi buffer left offset
  if rc ≠ .success then
    return rc
  else
    let rc ← awaitReady pTwi rounds
    if rc ≠ .success then
      return rc
    else
      perform (.setCr crStop)
      completeWrite twiTimeout

/-- `twi_master_write` after the set-up of the packet. -/
def writePhases (rounds : Nat) (pTwi : Instance) (buffer : Nat → U8) (cnt : Nat) :
    DriverProg TwiStatus := do
  let r ← dmaPhase rounds pTwi .tx cnt 0
  if r.1 ≠ .success then
    return r.1
  else
    finishWrite rounds pTwi buffer r.2.1 r.2.2

/-- `twi_master_write`. -/
def twiMasterWrite (rounds : Nat) (pTwi : Instance) (packet : Packet) : DriverProg TwiStatus := do
  let cnt := packet.length.toNat
  if cnt = 0 then
    return .invalidArgument
  else
    perform (.setMmr 0)
    perform (.setMmr (mmrAddress packet))
    perform (.setIadr 0)
    perform (.setIadr (twiMkAddr packet.addr packet.addrLength))
    writePhases rounds pTwi packet.buffer cnt

/-- The call of either direction. -/
def transfer (dir : Dir) (rounds : Nat) (pTwi : Instance) (packet : Packet) :
    DriverProg TwiStatus :=
  match dir with
  | .rx => twiMasterRead rounds pTwi packet
  | .tx => twiMasterWrite rounds pTwi packet

/-! ## Waiting for the hardware -/

/-- Operations that neither start anything nor look at the flag for a missing acknowledge. -/
def Waits : DriverOp → Prop
  | .readSr reader => reader.tests = false
  | .setIer _ => True
  | .setIdr _ => True
  | .notifyStateClear => True
  | .notifyWait _ => True
  | _ => False

theorem wait_waits (pTwi : Instance) (flags : U32) (ticks : Nat) :
    (twiWaitForInterrupt pTwi flags ticks).Uses Waits := by
  unfold twiWaitForInterrupt
  refine Prog.Uses.ite trivial ?_
  refine ⟨trivial, fun _ => ⟨trivial, fun _ => ⟨trivial, fun woken => ?_⟩⟩⟩
  exact Prog.Uses.ite trivial ⟨trivial, fun _ => ⟨rfl, fun _ => trivial⟩⟩

theorem completeRead_waits (pTwi : Instance) (timeout : Nat) :
    (completeRead pTwi timeout).Uses Waits := by
  have hwait := wait_waits pTwi srTxcomp 1
  induction timeout with
  | zero =>
    refine Prog.Uses.perform_bind rfl fun status => Prog.Uses.ite trivial ?_
    exact hwait.bind fun rc => Prog.Uses.ite trivial (Prog.Uses.ite trivial trivial)
  | succ timeout ih =>
    refine Prog.Uses.perform_bind rfl fun status => Prog.Uses.ite trivial ?_
    exact hwait.bind fun rc => Prog.Uses.ite trivial (Prog.Uses.ite trivial ih)

theorem completeWrite_waits (timeout : Nat) : (completeWrite timeout).Uses Waits := by
  induction timeout with
  | zero => exact Prog.Uses.perform_bind rfl fun status => Prog.Uses.ite trivial trivial
  | succ timeout ih => exact Prog.Uses.perform_bind rfl fun status => Prog.Uses.ite trivial ih

end TwiDriver
