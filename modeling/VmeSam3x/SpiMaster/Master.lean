import VmeSam3x.Flash.ExtFlash

/-! # The SPI master

What the flash driver calls of `spi_master.c` and `spi.c`, over the registers of the SPI. The
packet functions poll the status register up to `SPI_TIMEOUT` times and give up then; the wait
before a deselect has no limit, and gets a number of rounds.
-/

namespace SpiMaster

open Interact Bytes Flash

/-! ## Registers -/

/-- Bits of `SPI_CR`. -/
def crSpien : U32 := 0x00000001
def crSwrst : U32 := 0x00000080
def crLastxfer : U32 := 0x01000000

/-- Bits of `SPI_MR`. -/
def mrMstr : U32 := 0x00000001
def mrPs : U32 := 0x00000002
def mrPcsdec : U32 := 0x00000004
def mrModfdis : U32 := 0x00000010
def mrWdrbt : U32 := 0x00000020
def mrLlb : U32 := 0x00000080
def mrPcsMsk : U32 := 0x000f0000
def mrDlybcsMsk : U32 := 0xff000000

/-- `SPI_MR_PCS`. -/
def mrPcs (value : U32) : U32 := mrPcsMsk &&& value <<< 16

/-- `SPI_MR_DLYBCS`. -/
def mrDlybcs (value : U32) : U32 := mrDlybcsMsk &&& value <<< 24

/-- Bits of `SPI_SR`. -/
def srRdrf : U32 := 0x00000001
def srTdre : U32 := 0x00000002
def srTxempty : U32 := 0x00000200

/-- Bits of `SPI_CSR`. -/
def csrCpol : U32 := 0x00000001
def csrNcpha : U32 := 0x00000002
def csrCsaat : U32 := 0x00000008
def csrBitsMsk : U32 := 0x000000f0
def csrScbrMsk : U32 := 0x0000ff00
def csrDlybsMsk : U32 := 0x00ff0000
def csrDlybctMsk : U32 := 0xff000000

/-- `SPI_CSR_SCBR`, `SPI_CSR_DLYBS` and `SPI_CSR_DLYBCT`. -/
def csrScbr (value : U32) : U32 := csrScbrMsk &&& value <<< 8
def csrDlybs (value : U32) : U32 := csrDlybsMsk &&& value <<< 16
def csrDlybct (value : U32) : U32 := csrDlybctMsk &&& value <<< 24

inductive RegisterOp where
  | writeCr (value : U32)
  | readMr
  | writeMr (value : U32)
  | readSr
  | readRdr
  | writeTdr (value : U32)
  | readCsr (channel : Fin 4)
  | writeCsr (channel : Fin 4) (value : U32)
deriving DecidableEq

abbrev Registers : Sig where
  Op := RegisterOp
  Res
    | .readMr => U32
    | .readSr => U32
    | .readRdr => U32
    | .readCsr _ => U32
    | _ => Unit

inductive Fault where
  /-- The task stays in a loop. -/
  | stillShifting
  /-- `Assert(0)`. -/
  | assertion
deriving DecidableEq, Repr

abbrev SpiProg := Prog Registers Fault

def reg (o : RegisterOp) : SpiProg (Registers.Res o) := Prog.perform (S := Registers) o

/-- `SPI_MR |= …` and `SPI_MR &= …`. -/
def updateMr (f : U32 → U32) : SpiProg Unit := do
  let v ← reg .readMr
  reg (.writeMr (f v))

/-- `SPI_CSR[…] |= …` and `SPI_CSR[…] &= …`. -/
def updateCsr (channel : Fin 4) (f : U32 → U32) : SpiProg Unit := do
  let v ← reg (.readCsr channel)
  reg (.writeCsr channel (f v))

/-! ## Set-up -/

def spiReset : SpiProg Unit := reg (.writeCr crSwrst)

def spiEnable : SpiProg Unit := reg (.writeCr crSpien)

def spiSetLastxfer : SpiProg Unit := reg (.writeCr crLastxfer)

def spiSetMasterMode : SpiProg Unit := updateMr (· ||| mrMstr)

def spiDisableModeFaultDetect : SpiProg Unit := updateMr (· ||| mrModfdis)

def spiDisableLoopback : SpiProg Unit := updateMr (· &&& ~~~mrLlb)

def spiSetFixedPeripheralSelect : SpiProg Unit := updateMr (· &&& ~~~mrPs)

def spiDisablePeripheralSelectDecode : SpiProg Unit := updateMr (· &&& ~~~mrPcsdec)

def spiGetPeripheralSelectDecodeSetting : SpiProg Bool := do
  let v ← reg .readMr
  return v &&& mrPcsdec ≠ 0

def spiSetPeripheralChipSelectValue (ulValue : U32) : SpiProg Unit := do
  updateMr (· &&& ~~~mrPcsMsk)
  updateMr (· ||| mrPcs ulValue)

def spiSetDelayBetweenChipSelect (ulDelay : U32) : SpiProg Unit := do
  updateMr (· &&& ~~~mrDlybcsMsk)
  updateMr (· ||| mrDlybcs ulDelay)

/-- `spi_master_init` without the clock of the peripheral. -/
def spiMasterInit : SpiProg Unit := do
  spiReset
  spiSetMasterMode
  spiDisableModeFaultDetect
  spiDisableLoopback
  spiSetPeripheralChipSelectValue 0
  spiSetFixedPeripheralSelect
  spiDisablePeripheralSelectDecode
  spiSetDelayBetweenChipSelect 0

/-- `spi_calc_baudrate_div`, with `div_ceil` on unsigned words. -/
def spiCalcBaudrateDiv (baudrate mck : U32) : Int :=
  let baudDiv := ((mck + baudrate - 1) / baudrate).toInt
  if baudDiv ≤ 0 ∨ 255 < baudDiv then -1 else baudDiv

def spiSetTransferDelay (ch : Fin 4) (ucDlybs ucDlybct : U32) : SpiProg Unit := do
  updateCsr ch (· &&& ~~~(csrDlybsMsk ||| csrDlybctMsk))
  updateCsr ch (· ||| (csrDlybs ucDlybs ||| csrDlybct ucDlybct))

def spiSetBitsPerTransfer (ch : Fin 4) (ulBits : U32) : SpiProg Unit := do
  updateCsr ch (· &&& ~~~csrBitsMsk)
  updateCsr ch (· ||| ulBits)

def spiSetBaudrateDiv (ch : Fin 4) (ucBaudrateDivider : U8) : SpiProg Unit := do
  updateCsr ch (· &&& ~~~csrScbrMsk)
  updateCsr ch (· ||| csrScbr (ucBaudrateDivider.setWidth 32))

/-- `spi_configure_cs_behavior` with `SPI_CS_KEEP_LOW`. -/
def spiKeepCsLow (ch : Fin 4) : SpiProg Unit := updateCsr ch (· ||| csrCsaat)

def spiSetClockPolarity (ch : Fin 4) (ulPolarity : U32) : SpiProg Unit :=
  if ulPolarity ≠ 0 then updateCsr ch (· ||| csrCpol) else updateCsr ch (· &&& ~~~csrCpol)

def spiSetClockPhase (ch : Fin 4) (ulPhase : U32) : SpiProg Unit :=
  if ulPhase ≠ 0 then updateCsr ch (· ||| csrNcpha) else updateCsr ch (· &&& ~~~csrNcpha)

/-- `SPI_CSR_BITS_8_BIT`. -/
def csrBits8 : U32 := 0

def spiMasterSetupDevice (id : Fin 4) (flags baudRate mck : U32) : SpiProg Unit := do
  let baudDiv := spiCalcBaudrateDiv baudRate mck
  if baudDiv = -1 then .fail .assertion else
    spiSetTransferDelay id 0 0
    spiSetBitsPerTransfer id csrBits8
    spiSetBaudrateDiv id (BitVec.ofInt 8 baudDiv)
    spiKeepCsLow id
    spiSetClockPolarity id (flags >>> 1)
    spiSetClockPhase id ((flags &&& 1) ^^^ 1)

/-- `m25p_spi_init` without the pins: mode 0 and 12 MHz, from a clock of `mck` Hz. -/
def m25pSpiInit (mck : U32) : SpiProg Unit := do
  spiMasterInit
  spiMasterSetupDevice 0 0 12000000 mck
  spiEnable

/-! ## Selection -/

/-- `MAX_NUM_WITH_DECODER` and `MAX_NUM_WITHOUT_DECODER`. -/
def maxNumWithDecoder : Nat := 0x10
def maxNumWithoutDecoder : Nat := 0x04

/-- `NONE_CHIP_SELECT_ID`. -/
def noneChipSelectId : U32 := 0x0f

def spiSelectDevice (id : Nat) : SpiProg Unit := do
  if ← spiGetPeripheralSelectDecodeSetting then
    if id < maxNumWithDecoder then spiSetPeripheralChipSelectValue (BitVec.ofNat 32 id)
    else return ()
  else
    if id < maxNumWithoutDecoder then spiSetPeripheralChipSelectValue (~~~(1 <<< id))
    else return ()

def isTxEmpty (sr : U32) : Bool := sr &&& srTxempty ≠ 0

def isTxReady (sr : U32) : Bool := sr &&& srTdre ≠ 0

def isRxReady (sr : U32) : Bool := sr &&& (srRdrf ||| srTxempty) = srRdrf ||| srTxempty

/-- `while (!spi_is_tx_empty(p_spi))`. -/
def waitTxEmpty : Nat → SpiProg Unit
  | 0 => .fail .stillShifting
  | rounds + 1 => do
    let sr ← reg .readSr
    if isTxEmpty sr then return () else waitTxEmpty rounds

def spiDeselectDevice (rounds : Nat) : SpiProg Unit := do
  waitTxEmpty rounds
  spiSetPeripheralChipSelectValue noneChipSelectId
  spiSetLastxfer

/-! ## Packets -/

/-- `SPI_TIMEOUT`. -/
def spiTimeout : Nat := 15000

/-- `ERR_TIMEOUT`. -/
def errTimeout : Status := -3

/-- `CONFIG_SPI_MASTER_DUMMY`. -/
def dummy : U8 := 0xff

/-- `while (!ready) { if (!timeout--) return ERR_TIMEOUT; }`: whether it got ready. -/
def poll (ready : U32 → Bool) : Nat → SpiProg Bool
  | 0 => do
    let sr ← reg .readSr
    return ready sr
  | timeout + 1 => do
    let sr ← reg .readSr
    if ready sr then return true else poll ready timeout

def spiWriteSingle (data : U8) : SpiProg Unit := reg (.writeTdr (data.setWidth 32))

def spiReadSingle : SpiProg U8 := do
  let v ← reg .readRdr
  return v.setWidth 8

def spiWritePacket : List U8 → SpiProg Status
  | [] => return success
  | val :: rest => do
    if ← poll isTxReady spiTimeout then
      spiWriteSingle val
      spiWritePacket rest
    else return errTimeout

theorem errTimeout_ne : errTimeout ≠ success := by decide

/-- A byte in front of what the rest of a read stores. -/
def readCons {len : Nat} (val : U8) (r : ReadResult len) : ReadResult (len + 1) where
  code := r.code
  data := val :: r.data
  complete h := congrArg (· + 1) (r.complete h)

def spiReadPacket : (len : Nat) → SpiProg (ReadResult len)
  | 0 => return ⟨success, [], fun _ => rfl⟩
  | len + 1 => do
    if ← poll isTxReady spiTimeout then
      spiWriteSingle dummy
      if ← poll isRxReady spiTimeout then
        let val ← spiReadSingle
        let r ← spiReadPacket len
        return readCons val r
      else return .failed (len + 1) errTimeout errTimeout_ne
    else return .failed (len + 1) errTimeout errTimeout_ne

/-- The functions behind the operations of the flash driver; the flash is device 0. -/
def spiMaster (rounds : Nat) : (o : SpiOp) → SpiProg (Flash.Spi.Res o)
  | .select => spiSelectDevice 0
  | .deselect => spiDeselectDevice rounds
  | .writePacket data => spiWritePacket data
  | .readPacket len => spiReadPacket len

end SpiMaster
