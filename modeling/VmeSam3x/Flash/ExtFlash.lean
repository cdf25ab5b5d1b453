import VmeSam3x.Lib.CString
import VmeSam3x.Lib.Prog

/-! # The configuration flash

`m25p128_spi.c` sends one command to the flash in each selection of the SPI device;
`ext_flash.c` keeps the MAC address and the serial number in its last sector.
-/

namespace Flash

open Interact Bytes CString

/-! ## Interface -/

/-- `m25p_status_t`. The functions return it straight from the SPI driver, so it may also be one
of the negative codes of that driver. -/
abbrev Status := Int

/-- `M25P_SUCCESS`. -/
def success : Status := 0

/-- `M25P_ERROR`. -/
def error : Status := 9

/-- What `spi_read_packet` returns and has stored when it returns. -/
structure ReadResult (len : Nat) where
  code : Status
  data : List U8
  complete : code = success → data.length = len

/-- A read that has not taken place. -/
def ReadResult.failed (len : Nat) (code : Status) (h : code ≠ success) : ReadResult len :=
  ⟨code, [], fun hc => absurd hc h⟩

inductive SpiOp where
  | select
  | deselect
  | writePacket (data : List U8)
  | readPacket (len : Nat)
deriving DecidableEq, Repr

abbrev Spi : Sig where
  Op := SpiOp
  Res
    | .writePacket _ => Status
    | .readPacket len => ReadResult len
    | _ => Unit

variable {E : Type}

def spi (o : SpiOp) : Prog Spi E (Spi.Res o) := Prog.perform (S := Spi) o

/-! ## Commands -/

def m25pWren : U8 := 0x06
def m25pWrdi : U8 := 0x04
def m25pRdid : U8 := 0x9f
def m25pRdsr : U8 := 0x05
def m25pRead : U8 := 0x03
def m25pPp : U8 := 0x02
def m25pSe : U8 := 0xd8
def m25pBe : U8 := 0xc7

/-- `M25P_SR_WIP`. -/
def m25pSrWip : U8 := 0x01

/-- A command with its address. -/
def addressed (command : U8) (address : U32) : List U8 :=
  [command, byteAt 2 address, byteAt 1 address, byteAt 0 address]

/-- The functions that send a command and nothing else. -/
def m25pCommand (command : List U8) : Prog Spi E Status := do
  spi .select
  let stat ← spi (.writePacket command)
  spi .deselect
  return stat

def m25pWriteEnable : Prog Spi E Status := m25pCommand [m25pWren]

def m25pWriteDisable : Prog Spi E Status := m25pCommand [m25pWrdi]

def m25pSectorErase (address : U32) : Prog Spi E Status := m25pCommand (addressed m25pSe address)

def m25pBulkErase : Prog Spi E Status := m25pCommand [m25pBe]

/-- The read after a command, unless the command failed. -/
def readAfter (stat : Status) (len : Nat) : Prog Spi E (ReadResult len) :=
  if h : stat = success then spi (.readPacket len) else return .failed len stat h

/-- The functions that send a command and read the answer. -/
def m25pQuery (command : List U8) (len : Nat) : Prog Spi E (ReadResult len) := do
  spi .select
  let stat ← spi (.writePacket command)
  let r ← readAfter stat len
  spi .deselect
  return r

/-- `m25p_read_dev_id`, up to the order of the bytes in the word it is printed from. -/
def m25pReadDevId : Prog Spi E (ReadResult 3) := m25pQuery [m25pRdid] 3

def m25pReadStatusRegister : Prog Spi E (ReadResult 1) := m25pQuery [m25pRdsr] 1

def m25pReadData (address : U32) (len : Nat) : Prog Spi E (ReadResult len) :=
  m25pQuery (addressed m25pRead address) len

/-- The data after the command, unless the command failed. -/
def writeAfter (stat : Status) (data : List U8) : Prog Spi E Status :=
  if stat = success then spi (.writePacket data) else return stat

def m25pPageProgram (address : U32) (data : List U8) : Prog Spi E Status := do
  spi .select
  let stat ← spi (.writePacket (addressed m25pPp address))
  let stat ← writeAfter stat data
  spi .deselect
  return stat

/-! ## The fields -/

/-- `MAC_ADDRESS_OFFSET`. -/
def macAddressOffset : U32 := 0x00fc0000

/-- `SN_ASCII_OFFSET`. -/
def snAsciiOffset : U32 := 0x00fc0006

/-- `SN_ASCII_MAXLEN`. -/
abbrev snAsciiMaxlen : Nat := 26

/-- The status register shows no write in progress. -/
def ReadResult.isReady (r : ReadResult 1) : Bool :=
  r.code = success && r.data.headD 0 &&& m25pSrWip = 0

/-- The polls of `ext_flash_wait_for_ready`. -/
def pollReady : Nat → Prog Spi E Status
  | 0 => return error
  | timeout + 1 => do
    let r ← m25pReadStatusRegister
    if r.isReady then
      return success
    else
      pollReady timeout

def extFlashWaitForReady : Prog Spi E Status := pollReady 100000

def extFlashReadMacAddress : Prog Spi E (ReadResult 6) := m25pReadData macAddressOffset 6

def extFlashReadSn (snLen : Nat) : Prog Spi E (ReadResult snLen) :=
  m25pReadData snAsciiOffset snLen

/-- The step between write-enable and write-disable, unless write-enable failed. -/
def whenEnabled (status : Status) (write : Prog Spi E Status) : Prog Spi E Status :=
  if status = success then write else return status

/-- The functions that change the flash. -/
def enabledWrite (write : Prog Spi E Status) : Prog Spi E Status := do
  let status ← m25pWriteEnable
  let status ← whenEnabled status write
  let _ ← m25pWriteDisable
  return status

def extFlashWriteMacAddress (mac : Fin 6 → U8) : Prog Spi E Status :=
  enabledWrite (m25pPageProgram macAddressOffset (List.ofFn mac))

/-- `ext_flash_write_sn`, with the bytes that start at its pointer. -/
def extFlashWriteSn (sn : Nat → U8) (snLen : Nat) : Prog Spi E Status :=
  enabledWrite (m25pPageProgram snAsciiOffset
    ((List.range (if snLen > snAsciiMaxlen then snAsciiMaxlen else snLen)).map sn))

def extFlashErase : Prog Spi E Status := enabledWrite m25pBulkErase

/-! ## Start-up -/

/-- `ETHERNET_CONF_ETHADDR0` to `ETHERNET_CONF_ETHADDR5`. -/
def ethernetConfEthaddr : Fin 6 → U8
  | 0 => 0x00
  | 1 => 0x0e
  | 2 => 0xb2
  | 3 => 0x00
  | 4 => 0x00
  | 5 => 0x00

/-- `gs_uc_mac_address` and `serial_number`, which `main` terminates. -/
structure Settings where
  mac : Fin 6 → U8
  serialNumber : Chars snAsciiMaxlen
  terminated : serialNumber 25 = 0

/-- The array after a read: the bytes behind the received ones stay. -/
def ReadResult.fill {len : Nat} (r : ReadResult len) (s : Chars len) : Chars len :=
  fun i => r.data.getD i (s i)

/-- `if (!isalnum(serial_number[0])) serial_number[0] = 0`, and the last byte. -/
def checkSn (sn : Chars snAsciiMaxlen) : Chars snAsciiMaxlen :=
  let sn := if ¬ isalnum (sn 0) then Function.update sn 0 0 else sn
  Function.update sn 25 0

/-- The test of the first three bytes of the MAC address. -/
def checkMac (mac : Fin 6 → U8) : Fin 6 → U8 :=
  if mac 0 ≠ ethernetConfEthaddr 0 ∨ mac 1 ≠ ethernetConfEthaddr 1 ∨
      mac 2 ≠ ethernetConfEthaddr 2 then
    ethernetConfEthaddr
  else mac

theorem checkSn_last (sn : Chars snAsciiMaxlen) : checkSn sn 25 = 0 := by
  rw [checkSn, Function.update_self]

/-- The part of `main` that loads the settings. Both arrays are static and start as zeros. -/
def loadSettings : Prog Spi E Settings := do
  let sn ← extFlashReadSn snAsciiMaxlen
  let _ ← m25pReadDevId
  let mac ← extFlashReadMacAddress
  return ⟨checkMac (mac.fill fun _ => 0), checkSn (sn.fill fun _ => 0), checkSn_last _⟩

end Flash
