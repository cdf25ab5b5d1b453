import VmeSam3x.Lib.Layers
import VmeSam3x.Lib.Slots
import VmeSam3x.Ethernet.Output

/-! # The transmitter of the EMAC driver

`emac_dev_write` and the transmit half of `emac_handler` (`emac.c`). The task fills a
descriptor and hands it to the hardware by clearing its used bit; the hardware sends the buffer
and sets the bit again; the interrupt handler releases what has been sent. The ring is shared by
all three, and the handler can run between any two accesses of the task.
-/

namespace EmacDriver

open Interact Bytes

/-! ## Descriptors and registers -/

/-- `EMAC_TXD_USED`. -/
def emacTxdUsed : U32 := 1 <<< 31
/-- `EMAC_TXD_WRAP`. -/
def emacTxdWrap : U32 := 1 <<< 30
/-- `EMAC_TXD_LAST`. -/
def emacTxdLast : U32 := 1 <<< 15
/-- `EMAC_TXD_LEN_MASK`. -/
def emacTxdLenMask : U32 := 0x7ff

/-- `EMAC_TX_UNITSIZE`. -/
def emacTxUnitsize : Nat := 1518

/-- `EMAC_TSR_COL`. -/
def emacTsrCol : U32 := 1 <<< 1
/-- `EMAC_TSR_RLES`. -/
def emacTsrRles : U32 := 1 <<< 2
/-- `EMAC_TSR_BEX`. -/
def emacTsrBex : U32 := 1 <<< 4
/-- `EMAC_TSR_COMP`. -/
def emacTsrComp : U32 := 1 <<< 5
/-- `EMAC_TSR_UND`. -/
def emacTsrUnd : U32 := 1 <<< 6
/-- `EMAC_RSR_BNA`. -/
def emacRsrBna : U32 := 1 <<< 0
/-- `EMAC_RSR_REC`. -/
def emacRsrRec : U32 := 1 <<< 1
/-- `EMAC_RSR_OVR`. -/
def emacRsrOvr : U32 := 1 <<< 2
/-- `EMAC_ISR_RCOMP`. -/
def emacIsrRcomp : U32 := 1 <<< 1
/-- `EMAC_ISR_TCOMP`. -/
def emacIsrTcomp : U32 := 1 <<< 7

/-- The address of a callback. -/
abbrev Callback := U32

/-- The parts of `emac_device_t` that stay as `emac_init_mem` leaves them; it refuses a list of
fewer than two descriptors. -/
structure Device where
  usTxListSize : Nat
  pTxBuffer : Nat
  one_lt : 1 < usTxListSize
  fits : usTxListSize < 2 ^ 16

/-! ## Interface -/

inductive TxOp where
  | usTxHead
  | setUsTxHead (v : Nat)
  | usTxTail
  | setUsTxTail (v : Nat)
  | txAddr (i : Nat)
  | setTxAddr (i a : Nat)
  | txStatus (i : Nat)
  | setTxStatus (i : Nat) (v : U32)
  | txCallback (i : Nat)
  | setTxCallback (i : Nat) (cb : Option Callback)
  /-- One byte of a copy into a transmit buffer. -/
  | store (a : Nat) (b : U8)
  | startTransmission
  | enableTransmit (enable : Bool)
  | setTxQueue
  | getInterruptStatus
  | getInterruptMask
  | getRxStatus
  | clearRxStatus (v : U32)
  | getTxStatus
  | clearTxStatus (v : U32)
  | rxCb
  | wakeupCb
  | setWakeupCb (cb : Option Callback)
  | wakeupThreshold
  | setWakeupThreshold (v : U8)
  | callRx (cb : Callback) (flag : U32)
  | callTx (cb : Callback) (flag : U32)
  | callWakeup (cb : Callback)
  /-- `xTaskNotifyStateClear`. -/
  | notifyStateClear
  /-- `xTaskNotifyWait`. -/
  | notifyWait (ticks : Nat)

abbrev Tx : Sig where
  Op := TxOp
  Res
    | .usTxHead => Nat
    | .usTxTail => Nat
    | .txAddr _ => Nat
    | .txStatus _ => U32
    | .txCallback _ => Option Callback
    | .getInterruptStatus => U32
    | .getInterruptMask => U32
    | .getRxStatus => U32
    | .getTxStatus => U32
    | .rxCb => Option Callback
    | .wakeupCb => Option Callback
    | .wakeupThreshold => U8
    | .notifyStateClear => Bool
    | .notifyWait _ => Bool
    | _ => Unit

variable {E : Type}

abbrev TxProg := Prog Tx

def usTxHead : TxProg E Nat := Prog.perform (S := Tx) .usTxHead

def setUsTxHead (v : Nat) : TxProg E Unit := Prog.perform (S := Tx) (.setUsTxHead v)

def usTxTail : TxProg E Nat := Prog.perform (S := Tx) .usTxTail

def setUsTxTail (v : Nat) : TxProg E Unit := Prog.perform (S := Tx) (.setUsTxTail v)

def txAddr (i : Nat) : TxProg E Nat := Prog.perform (S := Tx) (.txAddr i)

def setTxAddr (i a : Nat) : TxProg E Unit := Prog.perform (S := Tx) (.setTxAddr i a)

def txStatus (i : Nat) : TxProg E U32 := Prog.perform (S := Tx) (.txStatus i)

def setTxStatus (i : Nat) (v : U32) : TxProg E Unit := Prog.perform (S := Tx) (.setTxStatus i v)

def txCallback (i : Nat) : TxProg E (Option Callback) := Prog.perform (S := Tx) (.txCallback i)

def setTxCallback (i : Nat) (cb : Option Callback) : TxProg E Unit :=
  Prog.perform (S := Tx) (.setTxCallback i cb)

def store (a : Nat) (b : U8) : TxProg E Unit := Prog.perform (S := Tx) (.store a b)

def emacStartTransmission : TxProg E Unit := Prog.perform (S := Tx) .startTransmission

def emacEnableTransmit (enable : Bool) : TxProg E Unit :=
  Prog.perform (S := Tx) (.enableTransmit enable)

def emacSetTxQueue : TxProg E Unit := Prog.perform (S := Tx) .setTxQueue

def emacGetInterruptStatus : TxProg E U32 := Prog.perform (S := Tx) .getInterruptStatus

def emacGetInterruptMask : TxProg E U32 := Prog.perform (S := Tx) .getInterruptMask

def emacGetRxStatus : TxProg E U32 := Prog.perform (S := Tx) .getRxStatus

def emacClearRxStatus (v : U32) : TxProg E Unit := Prog.perform (S := Tx) (.clearRxStatus v)

def emacGetTxStatus : TxProg E U32 := Prog.perform (S := Tx) .getTxStatus

def emacClearTxStatus (v : U32) : TxProg E Unit := Prog.perform (S := Tx) (.clearTxStatus v)

def funcRxCb : TxProg E (Option Callback) := Prog.perform (S := Tx) .rxCb

def funcWakeupCb : TxProg E (Option Callback) := Prog.perform (S := Tx) .wakeupCb

def setFuncWakeupCb (cb : Option Callback) : TxProg E Unit :=
  Prog.perform (S := Tx) (.setWakeupCb cb)

def ucWakeupThreshold : TxProg E U8 := Prog.perform (S := Tx) .wakeupThreshold

def setUcWakeupThreshold (v : U8) : TxProg E Unit :=
  Prog.perform (S := Tx) (.setWakeupThreshold v)

def callRx (cb : Callback) (flag : U32) : TxProg E Unit := Prog.perform (S := Tx) (.callRx cb flag)

def callTx (cb : Callback) (flag : U32) : TxProg E Unit := Prog.perform (S := Tx) (.callTx cb flag)

def callWakeup (cb : Callback) : TxProg E Unit := Prog.perform (S := Tx) (.callWakeup cb)

/-! ## The ring -/

/-- `CIRC_CNT`. -/
def circCnt (head tail : Int) (size : Nat) : Int := Slots.count head tail size

/-- `CIRC_SPACE`. -/
def circSpace (head tail : Int) (size : Nat) : Int := circCnt tail (head + 1) size

/-- `circ_inc`, on a 16-bit variable of the device. -/
def circInc {S : Sig} (get : Prog S E Nat) (put : Nat → Prog S E Unit) (size : Nat) :
    Prog S E Unit := do
  put (((← get) + 1) % 2 ^ 16)
  if (← get) ≥ size then put 0 else return ()

/-- The loop of `emac_reset_tx_mem` over the descriptors. -/
def resetDescriptors (pTxBuff : Nat) : List Nat → TxProg E Unit
  | [] => return ()
  | i :: rest => do
    setTxAddr i (pTxBuff + i * emacTxUnitsize)
    setTxStatus i emacTxdUsed
    resetDescriptors pTxBuff rest

/-- `emac_reset_tx_mem`. -/
def emacResetTxMem (dev : Device) : TxProg E Unit := do
  emacEnableTransmit false
  setUsTxTail 0
  setUsTxHead 0
  resetDescriptors dev.pTxBuffer (List.range dev.usTxListSize)
  setTxStatus (dev.usTxListSize - 1) (emacTxdUsed ||| emacTxdWrap)
  emacSetTxQueue

/-! ## Writing -/

def memcpy (dest : Nat) : List U8 → TxProg E Unit
  | [] => return ()
  | b :: rest => do
    store dest b
    memcpy (dest + 1) rest

/-- The copy into the buffer of the descriptor `td`. -/
def fillBuffer (td : Nat) (buffer : Option (List U8)) (ulSize : Nat) :
    TxProg Ethernet.Fault Unit := do
  match buffer with
  | none => return ()
  | some bytes =>
    if ulSize = 0 then return ()
    else if bytes.length < ulSize then .fail .outOfBounds
    else memcpy (← txAddr td) (bytes.take ulSize)

/-- The status word that hands a buffer to the hardware. -/
def txdReady (ulSize : Nat) (wrap : Bool) : U32 :=
  let v := (BitVec.ofNat 32 ulSize &&& emacTxdLenMask) ||| emacTxdLast
  if wrap then v ||| emacTxdWrap else v

/-- `emac_dev_write`. -/
def emacDevWrite (dev : Device) (buffer : Option (List U8)) (ulSize : Nat)
    (funcTxCb : Option Callback) : TxProg Ethernet.Fault Ethernet.EmacStatus := do
  if ulSize > emacTxUnitsize then
    return .param
  else
    let pTxTd ← usTxHead
    if circSpace (← usTxHead) (← usTxTail) dev.usTxListSize = 0 then
      return .txBusy
    else
      let pFuncTxCb ← usTxHead
      fillBuffer pTxTd buffer ulSize
      setTxCallback pFuncTxCb funcTxCb
      let last := (← usTxHead) == dev.usTxListSize - 1
      setTxStatus pTxTd (txdReady ulSize last)
      circInc usTxHead setUsTxHead dev.usTxListSize
      emacStartTransmission
      return .ok

/-- `emac_dev_set_tx_wakeup_callback`; the threshold is read with a callback only. -/
def emacDevSetTxWakeupCallback (dev : Device) (funcWakeupCb : Option Callback)
    (ucThreshold : U8) : TxProg E Ethernet.EmacStatus := do
  match funcWakeupCb with
  | none =>
    setFuncWakeupCb none
    return .ok
  | some cb =>
    if ucThreshold.toNat ≤ dev.usTxListSize then
      setFuncWakeupCb (some cb)
      setUcWakeupThreshold ucThreshold
      return .ok
    else
      return .param

/-! ## The interrupt handler -/

inductive Fault where
  /-- The loop over the ring has gone round once without an end. -/
  | endless
deriving DecidableEq, Repr

/-- The part of `emac_handler` for received frames. -/
def rxPacket (ulIsr ulRsr : U32) : TxProg Fault Unit := do
  if ulIsr &&& emacIsrRcomp ≠ 0 ∨ ulRsr &&& emacRsrRec ≠ 0 then
    let flag := emacRsrRec
    let flag := if ulRsr &&& emacRsrOvr ≠ 0 then flag ||| emacRsrOvr else flag
    let flag := if ulRsr &&& emacRsrBna ≠ 0 then flag ||| emacRsrBna else flag
    emacClearRxStatus flag
    match ← funcRxCb with
    | some cb => callRx cb flag
    | none => return ()
  else return ()

/-- The call through a slot of the callback list. -/
def notifySent (pTxCb : Nat) (flag : U32) : TxProg Fault Unit := do
  match ← txCallback pTxCb with
  | some cb => callTx cb flag
  | none => return ()

/-- The loop over the buffers, as many rounds as `fuel`; it returns `p_tx_cb`. -/
def releaseSent (dev : Device) (flag : U32) : Nat → TxProg Fault Nat
  | 0 => .fail .endless
  | fuel + 1 => do
    let pTxTd ← usTxTail
    let pTxCb ← usTxTail
    if (← txStatus pTxTd) &&& emacTxdUsed = 0 then
      return pTxCb
    else
      notifySent pTxCb flag
      circInc usTxTail setUsTxTail dev.usTxListSize
      if circCnt (← usTxHead) (← usTxTail) dev.usTxListSize ≠ 0 then
        releaseSent dev flag fuel
      else
        return pTxCb

/-- The check for a retry limit exceeded: it gives up all frames of the ring. It returns the flag
and `p_tx_cb`. -/
def checkRetryLimit (dev : Device) (ulTsr : U32) : TxProg Fault (U32 × Nat) := do
  if ulTsr &&& emacTsrRles ≠ 0 then
    let flag := emacTsrRles |||
      BitVec.ofInt 32 (circCnt (← usTxHead) (← usTxTail) dev.usTxListSize)
    let pTxCb ← usTxTail
    emacResetTxMem dev
    emacEnableTransmit true
    return (flag, pTxCb)
  else
    return (emacTsrComp, 0)

/-- The status flags that are passed on as they are. -/
def txStatusFlag (ulTsr flag : U32) : U32 :=
  let flag := if ulTsr &&& emacTsrCol ≠ 0 then flag ||| emacTsrCol else flag
  let flag := if ulTsr &&& emacTsrBex ≠ 0 then flag ||| emacTsrBex else flag
  if ulTsr &&& emacTsrUnd ≠ 0 then flag ||| emacTsrUnd else flag

/-- The loop over the buffers is skipped when the ring is empty (`CIRC_EMPTY`). -/
def checkBuffers (dev : Device) (flag : U32) (pTxCb : Nat) : TxProg Fault Nat := do
  if (← usTxHead) ≠ (← usTxTail) then releaseSent dev flag dev.usTxListSize else return pTxCb

/-- After a retry limit, the call through `p_tx_cb`. -/
def notifyRetryLimit (ulTsr flag : U32) (pTxCb : Nat) : TxProg Fault Unit :=
  if ulTsr &&& emacTsrRles ≠ 0 then notifySent pTxCb flag else return ()

/-- The end of the transmit part: wake the task that waits for a descriptor. -/
def notifyWakeup (dev : Device) : TxProg Fault Unit := do
  if circSpace (← usTxHead) (← usTxTail) dev.usTxListSize ≥ (← ucWakeupThreshold).toNat then
    match ← funcWakeupCb with
    | some cb => callWakeup cb
    | none => return ()
  else return ()

/-- The part of `emac_handler` for sent frames. -/
def txPacket (dev : Device) (ulIsr ulTsr : U32) : TxProg Fault Unit := do
  if ulIsr &&& emacIsrTcomp ≠ 0 ∨ ulTsr &&& emacTsrComp ≠ 0 then
    let (flag, pTxCb) ← checkRetryLimit dev ulTsr
    let flag := txStatusFlag ulTsr flag
    emacClearTxStatus flag
    let pTxCb ← checkBuffers dev flag pTxCb
    notifyRetryLimit ulTsr flag pTxCb
    notifyWakeup dev
  else return ()

/-- `emac_handler`. -/
def emacHandler (dev : Device) : TxProg Fault Unit := do
  let ulIsr ← emacGetInterruptStatus
  let ulRsr ← emacGetRxStatus
  let ulTsr ← emacGetTxStatus
  let ulIsr := ulIsr &&& ~~~((← emacGetInterruptMask) ||| 0xffc300)
  rxPacket ulIsr ulRsr
  txPacket dev ulIsr ulTsr

end EmacDriver
