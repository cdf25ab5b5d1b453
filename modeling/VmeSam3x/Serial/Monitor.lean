import VmeSam3x.Flash.ExtFlash

/-! # The serial monitor

The line editor, the confirmation and the number reader of `serial_monitor.c`, and the two
commands of `task_serial` that change the configuration flash. The monitor blocks in `getchar`
until something is typed; when nothing more is typed it stays there, which ends a run with a
fault. The line editor, whose loop has no counter, gets a number of rounds.
-/

namespace Serial

open Interact Bytes CString Flash

/-! ## Interface -/

inductive MonitorOp where
  | getchar
  | putchar (c : U8)
  | print (text : String)
  | spi (o : SpiOp)
deriving DecidableEq

/-- `getchar` has no answer once nothing more is typed. -/
abbrev Monitor : Sig where
  Op := MonitorOp
  Res
    | .getchar => Option U8
    | .spi o => Spi.Res o
    | _ => Unit

inductive Fault where
  | outOfBounds
  /-- The task stays in `getchar`. -/
  | blocked
  /-- A loop has not ended within the rounds the run was given. -/
  | stillReading
deriving DecidableEq, Repr

abbrev MonitorProg := Prog Monitor Fault

def perform (o : MonitorOp) : MonitorProg (Monitor.Res o) := Prog.perform (S := Monitor) o

/-- The next character, if there is one. -/
def received : Option U8 → MonitorProg U8
  | some c => return c
  | none => .fail .blocked

def getchar : MonitorProg U8 := perform .getchar >>= received

def putchar (c : U8) : MonitorProg Unit := perform (.putchar c)

def print (text : String) : MonitorProg Unit := perform (.print text)

/-- The flash operations among those of the monitor. -/
abbrev onSpi : Hom Spi Monitor where
  op := .spi
  res _ := Equiv.refl _

/-- A call into the flash driver. -/
def flash {α : Type} (p : Prog Spi Fault α) : MonitorProg α := p.embed onSpi

/-- An access to an array. -/
def inArray {α : Type} : Option α → MonitorProg α
  | some a => return a
  | none => .fail .outOfBounds

/-! ## The line editor -/

/-- `for (i = 0; s[i]; i++) putchar(s[i])`. -/
def echo : List U8 → Nat → MonitorProg Nat
  | [], _ => .fail .outOfBounds
  | c :: rest, i =>
    if c = 0 then return i
    else do
      putchar c
      echo rest (i + 1)

/-- The insertion of a character, unless the line is full. -/
def insertChar {len : Nat} (c : U8) (i : Int) (s : Chars len) : MonitorProg (Int × Chars len) :=
  if i < (len : Int) - 1 then
    if isprint c then do
      putchar c
      let s ← inArray (store s i c)
      return (i + 1, s)
    else return (i, s)
  else return (i, s)

/-- The backspace, unless the line is empty. -/
def eraseChar (c : U8) (i : Int) : MonitorProg Int :=
  if c = 0x08 then
    if i > 0 then do
      putchar 0x08
      putchar 0x20
      putchar 0x08
      return i - 1
    else return i
  else return i

/-- The body of the loop, after `getchar`. -/
def editPass {len : Nat} (c : U8) (i : Int) (s : Chars len) : MonitorProg (Int × Chars len) := do
  let (i, s) ← insertChar c i s
  let i ← eraseChar c i
  return (i, s)

/-- Ctrl-C, carriage return and line feed. -/
def stops (c : U8) : Bool := c = 0x03 || c = 0x0d || c = 0x0a

/-- The loop, with the character that ended it. -/
def editLoop {len : Nat} : Nat → Int → Chars len → MonitorProg (U8 × Int × Chars len)
  | 0, _, _ => .fail .stillReading
  | rounds + 1, i, s => do
    let c ← getchar
    let (i, s) ← editPass c i s
    if stops c then return (c, i, s) else editLoop rounds i s

/-- `serial_editline`: the result, and the array it leaves. -/
def serialEditline {len : Nat} (rounds : Nat) (s : Chars len) : MonitorProg (Int × Chars len) := do
  let i ← echo (List.ofFn s) 0
  let (c, i, s) ← editLoop rounds i s
  let s ← inArray (store s i 0)
  if c = 0x03 then return (-1, s) else return (i, s)

/-! ## Confirmation -/

/-- The letters that are still expected, each in either case. -/
def expectLetters : List U8 → MonitorProg Bool
  | [] => return true
  | letter :: rest => do
    let c ← getchar
    if toupper c = letter then do
      putchar c
      expectLetters rest
    else return false

/-- `serial_yes`. -/
def serialYes : MonitorProg Bool := do
  print "(yes/no) ? "
  expectLetters [0x59, 0x45, 0x53]

/-! ## Numbers -/

/-- The value of a digit, in `char` arithmetic. -/
def digitValue (c : U8) : U8 :=
  let c := toupper c
  if 0x39 < c then c - (0x41 - 10) else c - 0x30

/-- `serial_hexread32` from its loop on, with `left` digits to go: the result and the number. -/
def hexreadLoop (d : U32) : Nat → Nat → MonitorProg (Bool × U32)
  | 0, _ => return (true, d)
  | left + 1, i => do
    let c ← getchar
    putchar c
    if isxdigit c then
      hexreadLoop ((d <<< 4) + (digitValue c).setWidth 32) left (i + 1)
    else
      return (0 < i && (c = 0x0a || c = 0x0d), d)

/-- `serial_hexread32`: the result, and what it stores. -/
def serialHexread32 : MonitorProg (Bool × U32) := hexreadLoop 0 8 0

/-! ## Erasing -/

/-- The wait of the erase command: the value of its counter at the end. -/
def eraseWait : Nat → MonitorProg Nat
  | 0 => return 0
  | i + 1 => do
    let status ← flash extFlashWaitForReady
    if status = success then return i + 1 else eraseWait i

/-- The `E` command once it is confirmed. -/
def eraseConfirmed : MonitorProg Unit := do
  let _ ← flash (enabledWrite (m25pSectorErase macAddressOffset))
  let i ← eraseWait 100
  if i = 0 then
    print " READY\r\n"
  else
    print " TIMEOUT\r\n"

/-- The `E` command. -/
def eraseCommand : MonitorProg Unit := do
  print "Erase Setup Flash "
  if ← serialYes then eraseConfirmed else return ()

/-! ## Setup -/

/-- What the uninitialised locals of the `S` command hold. -/
structure Stack where
  newMacAddress : Fin 6 → U8
  newSerialNumber : Chars snAsciiMaxlen

/-- `MRF_OUI_0` to `MRF_OUI_2` and the low bytes of the number. -/
def mrfAddress (d : U32) : Fin 6 → U8
  | 0 => 0x00
  | 1 => 0x0e
  | 2 => 0xb2
  | 3 => byteAt 2 d
  | 4 => byteAt 1 d
  | 5 => byteAt 0 d

/-- `%02X`. -/
def hexByte (b : U8) : String :=
  String.ofList ((Nat.toDigits 16 b.toNat).map Char.toUpper |>.leftpad 2 '0')

/-- `%02X:%02X:%02X:%02X:%02X:%02X`. -/
def macText (mac : Fin 6 → U8) : String :=
  String.intercalate ":" ((List.ofFn mac).map hexByte)

/-- `%s`. -/
def text (s : Chars snAsciiMaxlen) : String :=
  String.ofList (((List.ofFn s).takeWhile (· ≠ 0)).map fun c => Char.ofNat c.toNat)

/-- `ext_flash_print_status`. -/
def statusText (status : Status) : String :=
  ["SUCCESS", "SECTOR_PROTECTED", "SECTOR_UNPROTECTED", "ERROR_INIT", "ERROR_NOT_FOUND",
    "ERROR_WRITE", "ERROR_BUSY", "ERROR_PROTECTED", "ERROR_SPI"].getD
      (if status < 0 then 9 else status.toNat) "ERROR"

/-- The status of a write, the wait, and its outcome. -/
def reportWrite (status : Status) : MonitorProg Unit := do
  print (statusText status)
  let wait ← flash extFlashWaitForReady
  if wait = success then print " READY\r\n" else print " TIMEOUT\r\n"

/-- The serial number after the editor: `strcpy` again if the edit was cancelled. -/
def keepUnlessCancelled (result : Int) (edited current : Chars snAsciiMaxlen) :
    MonitorProg (Chars snAsciiMaxlen) :=
  if result < 0 then inArray (strcpy edited current) else return edited

/-- The `S` command from its confirmation on. -/
def programSettings (newMac : Fin 6 → U8) (newSn : Chars snAsciiMaxlen) : MonitorProg Unit := do
  print "Writing MAC address, "
  let status ← flash (extFlashWriteMacAddress newMac)
  reportWrite status
  print "Writing serial number, "
  let len ← inArray (strlen newSn)
  let status ← flash (extFlashWriteSn (fun i => if h : i < snAsciiMaxlen then newSn ⟨i, h⟩ else 0)
    (len + 1))
  reportWrite status

/-- The `S` command. The address is assigned only when a number was accepted. -/
def setupCommand (rounds : Nat) (settings : Settings) (stack : Stack) : MonitorProg Unit := do
  print ("\r\nMAC address " ++ macText settings.mac ++ ", (enter 3 LSB) ? ")
  let (accepted, d) ← serialHexread32
  let newMac := if accepted then mrfAddress d else stack.newMacAddress
  print "\r\nSerial number: "
  let newSn ← inArray (strcpy stack.newSerialNumber settings.serialNumber)
  let (result, newSn) ← serialEditline rounds newSn
  let newSn ← keepUnlessCancelled result newSn settings.serialNumber
  print "\r\n"
  print ("New MAC address: " ++ macText newMac ++ "\r\n")
  print ("New serial number: " ++ text newSn ++ "\r\n")
  print "Write to flash "
  if ← serialYes then programSettings newMac newSn else return ()

/-! ## The surroundings -/

/-- What is still to be typed, and the history of the SPI bus. -/
structure World where
  input : List U8
  spi : List (Event Spi)

/-- The bus answers from its own history. -/
def world (bus : Env Spi) : Handler Monitor World
  | .getchar, w => (w.input.head?, { w with input := w.input.tail })
  | .putchar _, w => ((), w)
  | .print _, w => ((), w)
  | .spi o, w => (bus w.spi o, { w with spi := w.spi ++ [⟨o, bus w.spi o⟩] })

variable {bus : Env Spi} {w : World} {α : Type}

/-- A character is typed. -/
theorem run_getchar_cons (f : U8 → MonitorProg α) (c : U8) (rest : List U8)
    (tr : List (Event Spi)) :
    Prog.run (world bus) (getchar >>= f) ⟨c :: rest, tr⟩ =
      Prog.run (world bus) (f c) ⟨rest, tr⟩ := rfl

theorem run_putchar (f : Unit → MonitorProg α) (c : U8) :
    Prog.run (world bus) (putchar c >>= f) w = Prog.run (world bus) (f ()) w := rfl

/-- A bus on which everything is successful, and reads return zeros. -/
def quietBus : Env Spi
  | _, .select => ()
  | _, .deselect => ()
  | _, .writePacket _ => success
  | _, .readPacket len => ⟨success, List.replicate len 0, fun _ => List.length_replicate⟩

theorem run_print (f : Unit → MonitorProg α) (text : String) :
    Prog.run (world bus) (print text >>= f) w = Prog.run (world bus) (f ()) w := rfl

end Serial
