import VmeSam3x.EmacDriver.Transmit
import VmeSam3x.Ethernet.Input

/-! # The receiver of the EMAC driver

`emac_dev_read` (`emac.c`). The hardware writes a frame into buffers of 128 bytes and sets the
ownership bit of each descriptor; the task gathers the buffers of a frame, copies them, and gives
the descriptors back. A frame may be abandoned by the hardware before its last buffer, so the
task has to drop fragments.
-/

namespace EmacDriver

open Interact Bytes

/-! ## Descriptors -/

/-- `EMAC_RXD_OWNERSHIP`. -/
def emacRxdOwnership : U32 := 1 <<< 0
/-- `EMAC_RXD_WRAP`. -/
def emacRxdWrap : U32 := 1 <<< 1
/-- `EMAC_RXD_ADDR_MASK`. -/
def emacRxdAddrMask : U32 := 0xfffffffc
/-- `EMAC_RXD_SOF`. -/
def emacRxdSof : U32 := 1 <<< 14
/-- `EMAC_RXD_EOF`. -/
def emacRxdEof : U32 := 1 <<< 15
/-- `EMAC_RXD_LEN_MASK`. -/
def emacRxdLenMask : U32 := 0xfff

/-- `EMAC_RX_UNITSIZE`. -/
def emacRxUnitsize : Nat := 128

/-- The parts of `emac_device_t` that the receiver uses. `emac_init_mem` takes a list of two
descriptors at least, and aligns the buffers. -/
structure RxDevice where
  usRxListSize : Nat
  pRxBuffer : Nat
  one_lt : 1 < usRxListSize
  fits : usRxListSize < 2 ^ 16
  aligned : 8 ∣ pRxBuffer
  inside : pRxBuffer + usRxListSize * emacRxUnitsize ≤ 2 ^ 32

/-! ## Interface -/

inductive RxOp where
  | usRxIdx
  | setUsRxIdx (v : Nat)
  | rxAddr (i : Nat)
  | setRxAddr (i : Nat) (v : U32)
  | rxStatus (i : Nat)
  | setRxStatus (i : Nat) (v : U32)
  /-- One byte of a copy from a receive buffer. -/
  | load (a : Nat)
  | enableReceive (enable : Bool)
  | setRxQueue
  | setRxCb (cb : Option Callback)
  /-- `emac_enable_interrupt` and `emac_disable_interrupt` of `RCOMP`. -/
  | rcompInterrupt (enable : Bool)
  | stack (o : Ethernet.StackOp)

abbrev Rx : Sig where
  Op := RxOp
  Res
    | .usRxIdx => Nat
    | .rxAddr _ => U32
    | .rxStatus _ => U32
    | .load _ => U8
    | .stack o => Ethernet.Stack.Res o
    | _ => Unit

variable {E : Type}

abbrev RxProg := Prog Rx

def usRxIdx : RxProg E Nat := Prog.perform (S := Rx) .usRxIdx

def setUsRxIdx (v : Nat) : RxProg E Unit := Prog.perform (S := Rx) (.setUsRxIdx v)

def rxAddr (i : Nat) : RxProg E U32 := Prog.perform (S := Rx) (.rxAddr i)

def setRxAddr (i : Nat) (v : U32) : RxProg E Unit := Prog.perform (S := Rx) (.setRxAddr i v)

def rxStatus (i : Nat) : RxProg E U32 := Prog.perform (S := Rx) (.rxStatus i)

def setRxStatus (i : Nat) (v : U32) : RxProg E Unit := Prog.perform (S := Rx) (.setRxStatus i v)

def load (a : Nat) : RxProg E U8 := Prog.perform (S := Rx) (.load a)

def emacEnableReceive (enable : Bool) : RxProg E Unit :=
  Prog.perform (S := Rx) (.enableReceive enable)

def emacSetRxQueue : RxProg E Unit := Prog.perform (S := Rx) .setRxQueue

def rcompInterrupt (enable : Bool) : RxProg E Unit :=
  Prog.perform (S := Rx) (.rcompInterrupt enable)

/-! ## Initialisation -/

/-- The loop of `emac_reset_rx_mem` over the descriptors. -/
def resetRxDescriptors (pRxBuff : Nat) : List Nat → RxProg E Unit
  | [] => return ()
  | i :: rest => do
    setRxAddr i (BitVec.ofNat 32 (pRxBuff + i * emacRxUnitsize) &&& emacRxdAddrMask)
    setRxStatus i 0
    resetRxDescriptors pRxBuff rest

/-- `emac_reset_rx_mem`. -/
def emacResetRxMem (dev : RxDevice) : RxProg E Unit := do
  emacEnableReceive false
  setUsRxIdx 0
  resetRxDescriptors dev.pRxBuffer (List.range dev.usRxListSize)
  setRxAddr (dev.usRxListSize - 1) ((← rxAddr (dev.usRxListSize - 1)) ||| emacRxdWrap)
  emacSetRxQueue

/-- The receive part of `emac_init_mem`. -/
def emacInitRxMem (dev : RxDevice) : RxProg E Unit := do
  emacResetRxMem dev
  emacEnableReceive true

/-- A 16-bit variable of the function after `circ_inc`. -/
def circNext (size v : Nat) : Nat :=
  let v := (v + 1) % 2 ^ 16
  if v ≥ size then 0 else v

/-- The ownership bit of a descriptor is cleared. -/
def clearOwnership (td : Nat) : RxProg E Unit := do
  setRxAddr td ((← rxAddr td) &&& ~~~emacRxdOwnership)

/-- The body of the loops that give descriptors back; it returns `p_rx_td`. -/
def releaseOne (dev : RxDevice) : RxProg E Nat := do
  let pRxTd ← usRxIdx
  clearOwnership pRxTd
  circInc usRxIdx setUsRxIdx dev.usRxListSize
  return pRxTd

/-- `while (us_tmp_idx != p_emac_dev->us_rx_idx)`. -/
def releaseUntil (dev : RxDevice) (usTmpIdx : Nat) : Nat → Nat → RxProg Ethernet.Fault Nat
  | 0, _ => .fail .stillWaiting
  | fuel + 1, pRxTd => do
    if usTmpIdx = (← usRxIdx) then
      return pRxTd
    else
      releaseUntil dev usTmpIdx fuel (← releaseOne dev)

/-- The copy of `n` bytes. -/
def copyFrom (src : Nat) : Nat → RxProg E (List U8)
  | 0 => return []
  | n + 1 => do
    let b ← load src
    return b :: (← copyFrom (src + 1) n)

/-- The copied bytes in the frame buffer. -/
def putBytes (frame : List U8) (pos : Nat) (bytes : List U8) : Except Ethernet.Fault (List U8) :=
  if pos + bytes.length ≤ frame.length then
    .ok (frame.take pos ++ bytes ++ frame.drop (pos + bytes.length))
  else .error .outOfBounds

/-- The variables of the loop; `p_tmp_frame` is `tmp_ul_frame_size` bytes into the frame buffer. -/
structure Gathering where
  pRxTd : Nat
  usTmpIdx : Nat
  tmpUlFrameSize : Nat
  cIsFrame : Bool
  pFrame : List U8

/-- A start of frame: previous fragments are dropped. -/
def startOfFrame (dev : RxDevice) (g : Gathering) : RxProg Ethernet.Fault Gathering := do
  if (← rxStatus g.pRxTd) &&& emacRxdSof = emacRxdSof then
    let pRxTd ← releaseUntil dev g.usTmpIdx (dev.usRxListSize + 1) g.pRxTd
    return { g with pRxTd, tmpUlFrameSize := 0, cIsFrame := true }
  else
    return g

/-- The copy of a buffer into the frame. -/
def copyBuffer (ulFrameSize : Nat) (g : Gathering) : RxProg Ethernet.Fault Gathering := do
  let usBufferLength :=
    if g.tmpUlFrameSize + emacRxUnitsize > ulFrameSize then ulFrameSize - g.tmpUlFrameSize
    else emacRxUnitsize
  let bytes ← copyFrom ((← rxAddr g.pRxTd) &&& emacRxdAddrMask).toNat usBufferLength
  let pFrame ← .ofExcept (putBytes g.pFrame g.tmpUlFrameSize bytes)
  return { g with pFrame, tmpUlFrameSize := g.tmpUlFrameSize + usBufferLength }

/-- An end of frame. -/
def endOfFrame (dev : RxDevice) (g : Gathering) : RxProg Ethernet.Fault Ethernet.Reading := do
  let pRcvSize := ((← rxStatus g.pRxTd) &&& emacRxdLenMask).toNat
  let _ ← releaseUntil dev g.usTmpIdx (dev.usRxListSize + 1) g.pRxTd
  if g.tmpUlFrameSize < pRcvSize then
    return ⟨.sizeTooSmall, pRcvSize, g.pFrame⟩
  else
    return ⟨.ok, pRcvSize, g.pFrame⟩

/-- All descriptors hold parts of one frame: it is dropped. -/
def dropAll (dev : RxDevice) (g : Gathering) : RxProg Ethernet.Fault Ethernet.Reading := do
  let pRxTd ← releaseOne dev
  let _ ← releaseUntil dev g.usTmpIdx (dev.usRxListSize + 1) pRxTd
  return ⟨.rxNull, 0, g.pFrame⟩

/-- The body of the loop behind the test for a start of frame: the result, or the variables for the
next buffer. -/
def processBuffer (dev : RxDevice) (ulFrameSize : Nat) (g : Gathering) :
    RxProg Ethernet.Fault (Ethernet.Reading ⊕ Gathering) := do
  let g := { g with usTmpIdx := circNext dev.usRxListSize g.usTmpIdx }
  if g.cIsFrame then
    if g.usTmpIdx = (← usRxIdx) then
      return .inl (← dropAll dev g)
    else
      let g ← copyBuffer ulFrameSize g
      if (← rxStatus g.pRxTd) &&& emacRxdEof = emacRxdEof then
        return .inl (← endOfFrame dev g)
      else
        return .inr { g with pRxTd := g.usTmpIdx }
  else
    -- no start of frame yet: skip the fragment
    clearOwnership g.pRxTd
    setUsRxIdx g.usTmpIdx
    return .inr { g with pRxTd := g.usTmpIdx }

/-- The `return` of a round, or the next one. -/
def returnOr (next : Gathering → RxProg Ethernet.Fault Ethernet.Reading) :
    Ethernet.Reading ⊕ Gathering → RxProg Ethernet.Fault Ethernet.Reading
  | .inl r => return r
  | .inr g => next g

/-- The loop over the received descriptors, as many rounds as `fuel`. -/
def readLoop (dev : RxDevice) (ulFrameSize : Nat) :
    Nat → Gathering → RxProg Ethernet.Fault Ethernet.Reading
  | 0, _ => .fail .stillWaiting
  | fuel + 1, g => do
    if (← rxAddr g.pRxTd) &&& emacRxdOwnership = emacRxdOwnership then
      let g ← startOfFrame dev g
      returnOr (readLoop dev ulFrameSize fuel) (← processBuffer dev ulFrameSize g)
    else
      return ⟨.rxNull, 0, g.pFrame⟩

/-- `emac_dev_read`; the loop may take `fuel` rounds. -/
def emacDevRead (dev : RxDevice) (fuel : Nat) (pFrame : Option (List U8))
    (ulFrameSize pRcvSize : Nat) : RxProg Ethernet.Fault Ethernet.Reading := do
  let usTmpIdx ← usRxIdx
  let pRxTd ← usRxIdx
  match pFrame with
  | none => return ⟨.param, pRcvSize, []⟩
  | some pFrame => readLoop dev ulFrameSize fuel ⟨pRxTd, usTmpIdx, 0, false, pFrame⟩

end EmacDriver
