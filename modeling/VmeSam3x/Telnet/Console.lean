import VmeSam3x.Lib.Prog
import VmeSam3x.Lib.Bytes

/-! # The telnet console

`prvtelnet_Connection` (`BasicTelnet.c`) assembles lines from what `netconn_recv` delivers
and executes one command for each. A line is stored in a buffer of 80 bytes on the stack and
ends with a zero byte, which takes the place of the newline. The session ends when a delivery
starts with an `x`.

The buffer and the pointer of the dump command are not initialised: their first contents are
arguments. A load or a store outside the buffer is a fault. Loops without a counter get a
number of rounds.
-/

namespace Telnet

open Interact Bytes

/-! ## Interface -/

/-- The calls into the rest of the firmware: register accesses and the XVC server. -/
inductive DevOp where
  | readShort (addr : U32)
  | writeShort (addr : U32) (data : U16)
  | xvcIsEnabled
  | xvcDisable
  | xvcEnable
deriving DecidableEq

/-- A read returns the register or fails; the XVC calls return whether they were successful. -/
abbrev Dev : Sig where
  Op := DevOp
  Res
    | .readShort _ => Option U16
    | .writeShort _ _ => Bool
    | .xvcIsEnabled => Bool
    | .xvcDisable => Bool
    | .xvcEnable => Bool

/-- `err_t`, except `ERR_OK`. -/
inductive Err where
  | mem
  | buf
  | timeout
  | rte
  | inprogress
  | val
  | wouldblock
  | use
  | isconn
  | abrt
  | rst
  | clsd
  | conn
  | arg
  | netif
deriving DecidableEq, Repr

/-- The value of an error code. -/
def Err.code : Err → Int
  | .mem => -1
  | .buf => -2
  | .timeout => -3
  | .rte => -4
  | .inprogress => -5
  | .val => -6
  | .wouldblock => -7
  | .use => -8
  | .isconn => -9
  | .abrt => -10
  | .rst => -11
  | .clsd => -12
  | .conn => -13
  | .arg => -14
  | .netif => -15

/-- `ERR_IS_FATAL`. -/
def Err.Fatal (e : Err) : Prop := e.code < Err.isconn.code

instance (e : Err) : Decidable e.Fatal := inferInstanceAs (Decidable (_ < _))

/-- A received netbuf: the payload of its first pbuf and those of the pbufs behind it. The
payload pointer of an empty pbuf still points to some byte. -/
structure Netbuf where
  payload : List U8
  next : List (List U8)
  stale : U8

/-- All data of the netbuf. -/
def Netbuf.bytes (nb : Netbuf) : List U8 := nb.payload ++ nb.next.flatten

/-- `pcRxString[0]`, after `netbuf_data`. -/
def Netbuf.head (nb : Netbuf) : U8 := nb.payload.headD nb.stale

/-- `LINEBUF_LENGTH`. -/
abbrev linebufLength : Nat := 80

abbrev Linebuf := Fin linebufLength → U8

inductive ConsoleOp where
  | recv
  | write (text : String)
  | delay (ticks : Nat)
  | netbufDelete
  | close
  | delete
  | accept
  | dev (o : DevOp)
  /-- The `switch` on the first byte of the buffer. -/
  | dispatch (linebuf : Linebuf)

abbrev Console : Sig where
  Op := ConsoleOp
  Res
    | .recv => Except Err Netbuf
    | .accept => Bool
    | .dev o => Dev.Res o
    | _ => Unit

inductive Fault where
  | outOfBounds
  /-- A loop has not ended within the rounds the run was given. -/
  | stillWaiting
deriving DecidableEq, Repr

abbrev ConsoleProg := Prog Console Fault

def perform (o : ConsoleOp) : ConsoleProg (Console.Res o) := Prog.perform (S := Console) o

def device (o : DevOp) : ConsoleProg (Dev.Res o) := perform (.dev o)

/-! ## Numbers -/

/-- `linebuf[pos]` for the positions from `pos` on, up to one that is not a space. -/
def skipSpaces : List U8 → Nat → Except Fault (List U8 × Nat)
  | [], _ => .error .outOfBounds
  | c :: rest, pos => if c = 0x20 then skipSpaces rest (pos + 1) else .ok (c :: rest, pos)

/-- The test of the second loop. -/
def isHexDigit (c : U8) : Bool :=
  (0x30 ≤ c && c ≤ 0x39) || (0x61 ≤ c && c ≤ 0x66) || (0x41 ≤ c && c ≤ 0x46)

/-- The value of a digit, in `char` arithmetic. -/
def digit (c : U8) : U8 :=
  let ch := c - 0x30
  -- the gap between `9` and `A`, then the one between the cases
  let ch := if 9 < ch then ch - 7 else ch
  if 15 < ch then ch - 32 else ch

/-- The second loop: the position after the digits, the number, and whether there was a digit. -/
def scanDigits : List U8 → Nat → U32 → Bool → Except Fault (Nat × U32 × Bool)
  | [], _, _, _ => .error .outOfBounds
  | c :: rest, pos, data, found =>
    if isHexDigit c then
      scanDigits rest (pos + 1) ((data <<< 4) + (digit c).setWidth 32) true
    else .ok (pos, data, found)

/-- `linebuf_set_u32`: the position after the number, if there is one (the source returns -1
otherwise), and the number. -/
def linebufSetU32 (linebuf : Linebuf) (pos : Nat) : Except Fault (Option Nat × U32) := do
  let (rest, pos) ← skipSpaces ((List.ofFn linebuf).drop pos) pos
  let (pos, data, found) ← scanDigits rest pos 0 false
  return (if found then some pos else none, data)

/-! ## Texts -/

/-- `%0wx`. -/
def hex (width n : Nat) : String := String.ofList ((Nat.toDigits 16 n).leftpad width '0')

def helpText : String :=
  "Help\r\n====\r\n" ++
  "d <address>                " ++ "Dump registers\r\n" ++
  "j                          " ++ "Toggle XVC server enable\r\n" ++
  "m <address>                " ++ "Read register (short)\r\n" ++
  "m <address> <short data>   " ++ "Write register (short)\r\n" ++
  "x                          Exit\r\n\r\n" ++
  "Address and data in hexadecimal format\r\n" ++
  "Base address for EVR/EVM function is 80000000.\r\n"

/-! ## Commands

Each command returns the page it leaves for output. -/

/-- The eight reads of the dump. -/
def dumpWords : Nat → U32 → String → ConsoleProg (String × U32)
  | 0, lptr, page => return (page, lptr)
  | n + 1, lptr, page => do
    let text := match ← device (.readShort lptr) with
      | none => " failed"
      | some test => " " ++ hex 4 test.toNat
    dumpWords n (lptr + 2) (page ++ text)

/-- The `d` command, with the pointer it leaves. -/
def dumpCommand (linebuf : Linebuf) (lptr : U32) : ConsoleProg (String × U32) := do
  let (st, addr) ← .ofExcept (linebufSetU32 linebuf 1)
  -- without an address the dump goes on where the last one stopped
  let lptr := if st.isSome then addr else lptr
  let (page, lptr) ← dumpWords 8 lptr ("Addr " ++ hex 8 lptr.toNat ++ ": ")
  return (page ++ "\r\n", lptr)

/-- The `j` command. -/
def toggleCommand : ConsoleProg String := do
  if ← device .xvcIsEnabled then
    if ← device .xvcDisable then
      return "XVC server has been disabled.\r\n"
    else
      return "XVC server could not be disabled.\r\n" ++
        "Please ensure that there is no active XVC connection.\r\n"
  else if ← device .xvcEnable then
    return "XVC server has been enabled.\r\n" ++
      "XVC connections are accepted on TCP port 2542.\r\n"
  else
    return "XVC server could not be enabled.\r\n" ++
      "Typically, this happens when a JTAG cable or USB cable is connected.\r\n"

/-- The read at the end of the `m` command. -/
def modifyRead (addr : U32) (page : String) : ConsoleProg String := do
  match ← device (.readShort addr) with
  | none => return page ++ " failed\r\n"
  | some test => return page ++ " " ++ hex 4 test.toNat ++ "\r\n"

/-- The `m` command. -/
def modifyCommand (linebuf : Linebuf) : ConsoleProg String := do
  let (st, addr) ← .ofExcept (linebufSetU32 linebuf 1)
  match st with
  | none => return ""
  | some st =>
    let page := "Addr " ++ hex 8 addr.toNat ++ ": " ++ "st " ++ toString st ++ " "
    let (st, data32) ← .ofExcept (linebufSetU32 linebuf st)
    if st.isSome then
      perform (.write (page ++ " write " ++ hex 4 data32.toNat ++ ", read"))
      let _ ← device (.writeShort addr (data32.setWidth 16))
      modifyRead addr ""
    else
      modifyRead addr page

/-- The `switch`. -/
def runCommand (linebuf : Linebuf) (lptr : U32) : ConsoleProg (String × U32) :=
  let c := linebuf 0
  if c = 0x64 then
    dumpCommand linebuf lptr
  else if c = 0x68 ∨ c = 0x48 ∨ c = 0x3f then
    return (helpText, lptr)
  else if c = 0x6a ∨ c = 0x4a then do
    return (← toggleCommand, lptr)
  else if c = 0x6d ∨ c = 0x4d then do
    return (← modifyCommand linebuf, lptr)
  else
    return ("", lptr)

/-- The commands that scan the line. -/
def ScansOnce (linebuf : Linebuf) : Prop := linebuf 0 = 0x64

def ScansTwice (linebuf : Linebuf) : Prop := linebuf 0 = 0x6d ∨ linebuf 0 = 0x4d

/-! ## Lines -/

/-- The locals that live through a session. -/
structure Line where
  linebuf : Linebuf
  linebufpos : Nat
  lptr : U32

/-- `linebuf[pos] = ch`. -/
def storeChar (linebuf : Linebuf) (pos : Nat) (ch : U8) : Except Fault Linebuf :=
  if h : pos < linebufLength then .ok (Function.update linebuf ⟨pos, h⟩ ch)
  else .error .outOfBounds

/-- `if (linebufpos < LINEBUF_LENGTH) linebuf[linebufpos++] = ch`. -/
def Line.put (l : Line) (ch : U8) : Except Fault Line :=
  if l.linebufpos < linebufLength then do
    let linebuf ← storeChar l.linebuf l.linebufpos ch
    return { l with linebuf, linebufpos := l.linebufpos + 1 }
  else return l

/-- `if (ch == '\n') ch = 0`. -/
def terminate (ch : U8) : U8 := if ch = 0x0a then 0 else ch

/-- Execute the line in the buffer. -/
def dispatch (l : Line) : ConsoleProg Line := do
  perform (.dispatch l.linebuf)
  let (page, lptr) ← runCommand l.linebuf l.lptr
  if page ≠ "" then
    perform (.write page)
    return ⟨l.linebuf, 0, lptr⟩
  else
    return ⟨l.linebuf, 0, lptr⟩

/-- One byte. -/
def feedByte (l : Line) (c : U8) : ConsoleProg Line := do
  let l ← .ofExcept (l.put (terminate c))
  if terminate c = 0 then dispatch l else return l

/-- The bytes of one delivery. -/
def feedBytes (l : Line) : List U8 → ConsoleProg Line
  | [] => return l
  | c :: rest => do feedBytes (← feedByte l c) rest

/-! ## Sessions -/

/-- `telnetSHORT_DELAY`. -/
def shortDelay : Nat := 10

/-- The receive loop: a netbuf, or none when the session is to be left. -/
def receive : Nat → ConsoleProg (Option Netbuf)
  | 0 => .fail .stillWaiting
  | retries + 1 => do
    match ← perform .recv with
    | .ok nb => return some nb
    | .error e =>
      -- the codes that end the loop and then the session
      if e = .clsd ∨ e = .mem then
        return none
      else
        perform (.delay shortDelay)
        receive retries

/-- The loop over the deliveries; it returns `telnet_exit`. -/
def sessionLoop (retries : Nat) : Nat → Line → ConsoleProg Bool
  | 0, _ => .fail .stillWaiting
  | rounds + 1, l => do
    perform (.write "> ")
    match ← receive retries with
    | none => return false
    | some nb =>
      let l ← feedBytes l nb.payload
      perform .netbufDelete
      -- the test is on the delivery, not on the line
      if nb.head = 0x78 then
        return true
      else
        sessionLoop retries rounds l

/-- What the uninitialised locals hold at the start of a session. -/
structure Locals where
  linebuf : Linebuf
  lptr : U32

def Locals.start (init : Locals) : Line := ⟨init.linebuf, 0, init.lptr⟩

/-- `prvtelnet_Connection`. -/
def prvtelnetConnection (retries rounds : Nat) (init : Locals) : ConsoleProg Unit := do
  let _ ← sessionLoop retries rounds init.start
  perform .close
  perform .delete

/-- The wait for a client. -/
def acceptClient : Nat → ConsoleProg Unit
  | 0 => .fail .stillWaiting
  | retries + 1 => do
    if ← perform .accept then
      return ()
    else
      perform (.delay shortDelay)
      acceptClient retries

/-- `vBasicTelnetServer` for its next clients. -/
def vBasicTelnetServer (retries rounds : Nat) : List Locals → ConsoleProg Unit
  | [] => return ()
  | init :: clients => do
    acceptClient retries
    prvtelnetConnection retries rounds init
    vBasicTelnetServer retries rounds clients

end Telnet
