import VmeSam3x.Fpga.Interleaving
import VmeSam3x.Serial.Monitor

/-! # The commands of the monitor

`task_serial` reads one character after the other and does what it stands for. The commands
share the address `x` and the access size; they reach the FPGA over the TWI bus, the memory of
the microcontroller, the LEDs, and the configuration flash.
-/

namespace Serial

open Interact Bytes CString Flash Fpga

/-! ## Interface -/

/-- The LEDs that the `#` command switches. -/
inductive Led where
  | red1On
  | red2On
  | green1Off
  | green2Off
  | blue1Off
  | blue2Off
deriving DecidableEq, Repr

inductive ConsoleOp where
  | monitor (o : MonitorOp)
  | twi (o : TwiOp)
  /-- `twi_master_write` with an internal address. -/
  | twiAddressed (address : List U8) (addressLength : Nat) (buffer : List U8)
  /-- A read and a write of the microcontroller's memory. -/
  | peek (p : U32)
  | poke (p d : U32)
  | setPinLevel (led : Led) (level : Bool)
  | delay (ticks : Nat)
deriving DecidableEq

abbrev Console : Sig where
  Op := ConsoleOp
  Res
    | .monitor o => Monitor.Res o
    | .twi o => Twi.Res o
    | .twiAddressed _ _ _ => TwiStatus
    | .peek _ => U32
    | _ => Unit

abbrev ConsoleProg := Prog Console Fault

abbrev onMonitor : Hom Monitor Console where
  op := .monitor
  res _ := Equiv.refl _

abbrev onTwi : Hom Twi Console where
  op := .twi
  res _ := Equiv.refl _

def serial {α : Type} (p : MonitorProg α) : ConsoleProg α := p.embed onMonitor

/-- A call into the FPGA driver. -/
def fpga {α : Type} (p : Prog Twi Fault α) : ConsoleProg α := p.embed onTwi

def operate (o : ConsoleOp) : ConsoleProg (Console.Res o) := Prog.perform (S := Console) o

/-! ## The state of the task -/

/-- The values that `size` takes. -/
inductive Size where
  | byte
  | short
  | long
deriving DecidableEq, Repr

def Size.bytes : Size → Nat
  | .byte => 1
  | .short => 2
  | .long => 4

/-- The locals of `task_serial` that live from one command to the next. -/
structure Regs where
  x : U32
  size : Size

/-- `int size = 4; uint32_t x = 0`. -/
def Regs.init : Regs := ⟨0, .long⟩

/-- `x & (-size)`. -/
def Regs.aligned (r : Regs) : U32 := r.x &&& -(BitVec.ofNat 32 r.size.bytes)

/-- What the uninitialised locals of the commands hold. -/
structure Locals where
  dataFull : U32
  data : U32
  stack : Stack

/-- `%02X`, `%04hX` and `%08lX`. -/
def hexNumber (digits n : Nat) : String :=
  String.ofList ((Nat.toDigits 16 n).map Char.toUpper |>.leftpad digits '0')

/-! ## The FPGA -/

/-- Two digits for each byte. -/
def showCell (size : Size) (n : Nat) : ConsoleProg Unit :=
  serial (print (" " ++ hexNumber (2 * size.bytes) n))

/-- The text after a call of the FPGA driver. -/
def failed (text : String) (status : TwiStatus) : ConsoleProg Unit :=
  if status = .success then return () else serial (print text)

/-- One access of the `D` and `M` commands: what was read, or `failed`. -/
def printCell (l : Locals) (x : U32) : Size → ConsoleProg Unit
  | .byte => do
    let r ← fpga (fpgaReadByte l.dataFull x (byteAt 0 l.data))
    if r.1 = .success then showCell .byte r.2.toNat else serial (print " failed")
  | .short => do
    let r ← fpga (fpgaReadShort l.dataFull x (l.data.setWidth 16))
    if r.1 = .success then showCell .short r.2.toNat else serial (print " failed")
  | .long => do
    let r ← fpga (fpgaReadLong x l.data)
    if r.1 = .success then showCell .long r.2.toNat else serial (print " failed")

/-- The loop of the `D` command with `left` cells to go: the address it ends at. -/
def dumpLoop (l : Locals) (size : Size) : Nat → U32 → ConsoleProg U32
  | 0, x => return x
  | left + 1, x => do
    printCell l x size
    dumpLoop l size left (x + BitVec.ofNat 32 size.bytes)

/-- `for (i = 0; i < 16; i+=size)`. -/
def Size.cells (size : Size) : Nat := 16 / size.bytes

/-- The `D` command. -/
def dumpCommand (l : Locals) (r : Regs) : ConsoleProg Regs := do
  serial (print ("\r\n" ++ hexNumber 8 r.aligned.toNat ++ ":"))
  let x ← dumpLoop l r.size r.size.cells r.aligned
  return { r with x := x }

def writeCell (x d : U32) : Size → ConsoleProg TwiStatus
  | .byte => fpga (fpgaWriteByte x (byteAt 0 d))
  | .short => fpga (fpgaWriteShort x (d.setWidth 16))
  | .long => fpga (fpgaWriteLong x d)

/-- The `M` command. The status of the write is not looked at. -/
def modifyCommand (l : Locals) (r : Regs) : ConsoleProg Regs := do
  serial (print ("\r\n" ++ hexNumber 8 r.aligned.toNat ++ ": "))
  printCell l r.aligned r.size
  serial (print " ? ")
  let (accepted, d) ← serial serialHexread32
  if accepted then do
    let _ ← writeCell r.aligned d r.size
    return { r with x := r.aligned }
  else return { r with x := r.aligned }

/-- The `C` command. -/
def commandCommand : ConsoleProg Unit := do
  serial (putchar 0x20)
  let (accepted, cmd) ← serial serialHexread32
  if accepted then do
    serial (print ("\r\nCommand " ++ hexNumber 2 cmd.toNat))
    let status ← fpga (fpgaWriteCommand (byteAt 0 cmd))
    failed "...failed" status
  else return ()

/-- The `W` command. -/
def addressCommand (r : Regs) : ConsoleProg Unit := do
  serial (print "\r\nWrite OPB Address")
  let status ← fpga (fpgaWriteOpbAddress r.x)
  failed "...failed" status

/-- The `R` command, which shows nothing. -/
def readCommand (l : Locals) : ConsoleProg Unit := do
  let _ ← fpga (fpgaReadData l.data)
  return ()

/-- `fpga_test_write`. -/
def fpgaTestWrite : ConsoleProg TwiStatus := do
  let status ← operate (.twiAddressed [0x55, 0xaa, 0x48] 24 [0x31, 0x00, 0xaa, 0x55, 0x48])
  if status = TwiStatus.success then return status
  else do
    fpga fpgaTwiReset
    return status

/-- The `T` command. -/
def testCommand : ConsoleProg Unit := do
  serial (print " Test write TWI")
  let status ← fpgaTestWrite
  failed "...failed" status

/-! ## The microcontroller -/

/-- The loop of the `H` command: long words, whatever the size is. -/
def peekLoop : Nat → U32 → ConsoleProg U32
  | 0, x => return x
  | left + 1, x => do
    let d ← operate (.peek x)
    serial (print (" " ++ hexNumber 8 (BitVec.toNat d)))
    -- the cells are counted by the size, the address goes on by long words
    peekLoop left (x + 4)

/-- The `H` command. -/
def peekCommand (r : Regs) : ConsoleProg Regs := do
  serial (print ("\r\n" ++ hexNumber 8 r.aligned.toNat ++ ":"))
  let x ← peekLoop r.size.cells r.aligned
  return { r with x := x }

/-- The `N` command. The pointer is taken before `x` is aligned. -/
def pokeCommand (r : Regs) : ConsoleProg Regs := do
  -- the text shows the aligned address, the accesses are at `p`
  let p := r.x
  let old ← operate (.peek p)
  serial (print ("\r\n" ++ hexNumber 8 r.aligned.toNat ++ ": " ++
    hexNumber 8 (BitVec.toNat old) ++ " ? "))
  let (accepted, d) ← serial serialHexread32
  if accepted then do
    operate (.poke p d)
    return { r with x := r.aligned }
  else return { r with x := r.aligned }

def setLevels : List (Led × Bool) → ConsoleProg Unit
  | [] => return ()
  | (led, level) :: rest => do
    operate (.setPinLevel led level)
    setLevels rest

/-- The `#` command, with `i` rounds to go. -/
def ledLoop : Nat → ConsoleProg Unit
  | 0 => return ()
  | i + 1 => do
    setLevels [(.red1On, true), (.red2On, true), (.green1Off, false), (.green2Off, false),
      (.blue1Off, false), (.blue2Off, false)]
    operate (.delay 20)
    ledLoop i

/-! ## The loop -/

/-- The `1`, `2` and `4` commands. -/
def sizeCommand (text : String) (size : Size) (r : Regs) : ConsoleProg Regs := do
  serial (print ("\r\nAccess size " ++ text ++ "."))
  return { r with size := size }

/-- The `X` command stores the number even when it is not accepted. -/
def xCommand (r : Regs) : ConsoleProg Regs := do
  serial (putchar 0x20)
  let (_, d) ← serial serialHexread32
  return { r with x := d }

/-- A command that leaves the address and the size as they are. -/
def keeping (p : ConsoleProg Unit) (r : Regs) : ConsoleProg Regs := do
  p
  return r

/-- The `switch` of `task_serial`. -/
def command (rounds : Nat) (settings : Settings) (l : Locals) (c : U8) (r : Regs) :
    ConsoleProg Regs :=
  -- `c` is upper case; every other character is ignored
  if c = 0x23 then keeping (ledLoop 100) r
  else if c = 0x31 then sizeCommand "byte" .byte r
  else if c = 0x32 then sizeCommand "short" .short r
  else if c = 0x34 then sizeCommand "long word" .long r
  else if c = 0x58 then xCommand r
  else if c = 0x43 then keeping commandCommand r
  else if c = 0x57 then keeping (addressCommand r) r
  else if c = 0x52 then keeping (readCommand l) r
  else if c = 0x44 then dumpCommand l r
  else if c = 0x48 then peekCommand r
  else if c = 0x4d then modifyCommand l r
  else if c = 0x4e then pokeCommand r
  else if c = 0x54 then keeping testCommand r
  else if c = 0x45 then keeping (serial eraseCommand) r
  else if c = 0x53 then keeping (serial (setupCommand rounds settings l.stack)) r
  else return r

/-- `task_serial` for a number of commands; the locals of each one are its own. -/
def taskSerial (rounds : Nat) (settings : Settings) (locals : Nat → Locals) :
    Nat → Regs → ConsoleProg Regs
  | 0, r => return r
  | left + 1, r => do
    serial (print ("\r\n" ++ hexNumber 8 r.x.toNat ++ "> "))
    let c ← serial getchar
    serial (putchar c)
    let r ← command rounds settings (locals left) (toupper c) r
    taskSerial rounds settings locals left r

end Serial
