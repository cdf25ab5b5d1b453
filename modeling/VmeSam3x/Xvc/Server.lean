import VmeSam3x.Lib.Prog
import VmeSam3x.Lib.Bytes

/-! # The XVC server: state, pins and the operations that change them

The part of `xvc_server.c` that several tasks call: enabling and disabling the
server and following the cables. The state variable is only ever tested and set
in critical sections, apart from the reads in `xvc_server_update_jtagsel` and the
last store of `xvc_server_update_gpio_config`; each critical section is one
operation here, with the branch it takes as its answer, and so is each single
access to a pin.
-/

namespace Xvc

open Interact Bytes

/-! ## Interface -/

/-- `xvc_server_state_t`. -/
inductive ServerState where
  | configInProgress
  | disableRequested
  | disabled
  | disabling
  | enabled
  | enabling
  | ioInProgress
deriving DecidableEq, Repr

/-- `xvc_status_t`. -/
inductive Status where
  | ok
  | error
  | moreDataNeeded
deriving DecidableEq, Repr

/-- The pins the server uses (`evm300.h`). -/
inductive Pin where
  | xiltms
  | xiltck
  | jtagsel
  | mmctdo
  | xiltdi
  | nxiljtag
  | usbpower
deriving DecidableEq, Repr

/-- The position of a pin in the registers of its port (`PIN & 0x1F`). -/
def Pin.bit : Pin → Nat
  | .xiltms => 0
  | .xiltck => 1
  | .jtagsel => 2
  | .mmctdo => 3
  | .xiltdi => 4
  | .nxiljtag => 5
  | .usbpower => 4

/-- All pins but `USBPOWER` are on the port whose registers the shift writes. -/
def Pin.onPort : Pin → Bool
  | .usbpower => false
  | _ => true

/-- The two pin types the server configures: `PIO_TYPE_PIO_INPUT` and
`PIO_TYPE_PIO_OUTPUT_0`. -/
inductive Direction where
  | input
  | output
deriving DecidableEq, Repr

/-- The branches of the first critical section of `xvc_server_disable`. -/
inductive DisableEntry where
  | alreadyDisabled
  | requested
  | refused
  | proceed
deriving DecidableEq, Repr

/-- The branches of the first critical section of `xvc_server_enable`. -/
inductive EnableEntry where
  | alreadyEnabled
  | refused
  | proceed
deriving DecidableEq, Repr

/-- The atomic steps of the server's functions. -/
inductive XvcOp where
  | disableEntry
  | disableExit
  | enableEntry
  | enableExit (status : Status)
  | configEntry (expected : ServerState)
  | shiftEntry
  | shiftExit
  | readState
  | writeState (s : ServerState)
  | getPinValue (pin : Pin)
  | configurePin (pin : Pin) (dir : Direction)
  | setPin (pin : Pin) (level : Bool)
  | writeCodr (mask : U32)
  | writeSodr (mask : U32)
  | readPdsr
  | netconnWrite (payload : List U8)
  | netconnClose
deriving DecidableEq

/-- `configEntry` and `shiftEntry` answer whether the state was the expected one,
`shiftExit` whether a disable had been requested, `netconnWrite` whether it
returned `ERR_OK`. -/
abbrev XvcSig : Sig where
  Op := XvcOp
  Res
    | .disableEntry => DisableEntry
    | .disableExit => Unit
    | .enableEntry => EnableEntry
    | .enableExit _ => Unit
    | .configEntry _ => Bool
    | .shiftEntry => Bool
    | .shiftExit => Bool
    | .readState => ServerState
    | .writeState _ => Unit
    | .getPinValue _ => Bool
    | .configurePin _ _ => Unit
    | .setPin _ _ => Unit
    | .writeCodr _ => Unit
    | .writeSodr _ => Unit
    | .readPdsr => U32
    | .netconnWrite _ => Bool
    | .netconnClose => Unit

/-- What the C code does not come back from: a failed `assert`, an access outside a
buffer, lwIP's platform assertion, and a loop that makes no progress. -/
inductive Fault where
  | assertion
  | outOfBounds
  | lwipAssert
  | diverged
deriving DecidableEq, Repr

abbrev XvcProg := Prog XvcSig Fault

def op (o : XvcOp) : XvcProg (XvcSig.Res o) := Prog.perform (S := XvcSig) o

/-- Surroundings in which the server stays enabled and every write succeeds. The samples come
from a device that sees the whole history. -/
def cooperativeEnv (pdsr : List (Event XvcSig) → U32) : Env XvcSig := fun tr o =>
  match o with
  | .disableEntry => .refused
  | .disableExit => ()
  | .enableEntry => .alreadyEnabled
  | .enableExit _ => ()
  | .configEntry _ => false
  | .shiftEntry => true
  | .shiftExit => false
  | .readState => .enabled
  | .writeState _ => ()
  | .getPinValue _ => false
  | .configurePin _ _ => ()
  | .setPin _ _ => ()
  | .writeCodr _ => ()
  | .writeSodr _ => ()
  | .readPdsr => pdsr tr
  | .netconnWrite _ => true
  | .netconnClose => ()

/-! ## The critical sections -/

def disableSection : ServerState → DisableEntry × ServerState
  | .disabled => (.alreadyDisabled, .disabled)
  | .ioInProgress => (.requested, .disableRequested)
  | .enabled => (.proceed, .disabling)
  | s => (.refused, s)

def enableSection : ServerState → EnableEntry × ServerState
  | .enabled => (.alreadyEnabled, .enabled)
  | .disabled => (.proceed, .enabling)
  | s => (.refused, s)

/-- The last critical section of `xvc_server_enable`. -/
def enableExitSection : Status → ServerState
  | .ok => .enabled
  | _ => .disabled

def configSection (expected s : ServerState) : Bool × ServerState :=
  if s = expected then (true, .configInProgress) else (false, s)

def shiftEntrySection : ServerState → Bool × ServerState
  | .enabled => (true, .ioInProgress)
  | s => (false, s)

def shiftExitSection (s : ServerState) : Bool × ServerState := (s == .disableRequested, .enabled)

/-! ## Following the cables -/

/-- A connected cable pulls `NXILJTAG` low. -/
def jtagCableConnected : XvcProg Bool := do
  let v ← op (.getPinValue .nxiljtag)
  return !v

def usbCableConnected : XvcProg Bool := op (.getPinValue .usbpower)

/-- Configure the three JTAG pins. -/
def configureJtagPins (dir : Direction) : XvcProg Unit := do
  op (.configurePin .xiltck dir)
  op (.configurePin .xiltdi dir)
  op (.configurePin .xiltms dir)

/-- `xvc_server_update_gpio_config`. The error return after the cables were found
connected leaves the state at `configInProgress`. -/
def updateGpioConfig (expected : ServerState) : XvcProg Status := do
  if (← op (.configEntry expected)) then
    let jtag ← jtagCableConnected
    let usb ← usbCableConnected
    if expected = .disabled ∨ expected = .disabling ∨ jtag ∨ usb then
      configureJtagPins .input
    if (expected = .enabled ∨ expected = .enabling) ∧ (jtag ∨ usb) then
      return .error
    else
      if expected = .enabled ∨ expected = .enabling then
        op (.setPin .jtagsel true)
        configureJtagPins .output
      if jtag then
        op (.setPin .jtagsel true)
      else if usb then
        op (.setPin .jtagsel false)
      op (.writeState expected)
      return .ok
  else
    return .error

/-- `xvc_server_disable`. -/
def disable : XvcProg Status := do
  match ← op .disableEntry with
  | .alreadyDisabled => return .ok
  | .requested => return .error
  | .refused => return .error
  | .proceed =>
    let _ ← updateGpioConfig .disabling
    op .disableExit
    return .ok

/-- `xvc_server_enable`. -/
def enable : XvcProg Status := do
  match ← op .enableEntry with
  | .alreadyEnabled => return .ok
  | .refused => return .error
  | .proceed =>
    let status ← updateGpioConfig .enabling
    op (.enableExit status)
    return status

/-- `xvc_server_is_enabled`. -/
def isEnabled : XvcProg Bool := do
  match ← op .readState with
  | .enabled => return true
  | .ioInProgress => return true
  | _ => return false

/-- The common part of the two arms of `xvc_server_update_jtagsel`: disable the server,
or, when it is disabled, set `JTAGSEL` if it is not at the wanted level. -/
def updateJtagselTo (level : Bool) : XvcProg Unit := do
  if (← op .readState) ≠ .disabled then
    let _ ← disable
  else if (← op (.getPinValue .jtagsel)) ≠ level then
    let _ ← updateGpioConfig .disabled

/-- `xvc_server_update_jtagsel`. -/
def updateJtagsel : XvcProg Unit := do
  if (← jtagCableConnected) then
    updateJtagselTo true
  else if (← op (.getPinValue .usbpower)) then
    updateJtagselTo false

/-! ## None of these fails -/

theorem op_post (o : XvcOp) : Prog.Post (fun _ => True) (fun _ => False) (op o) := fun _ => trivial

theorem updateGpioConfig_post (expected : ServerState) :
    Prog.Post (fun _ => True) (fun _ => False) (updateGpioConfig expected) := by
  refine (op_post _).bind fun entered _ => ?_
  cases entered with
  | false => trivial
  | true =>
    have hjtag : Prog.Post (fun _ => True) (fun _ => False) jtagCableConnected := fun _ => trivial
    refine hjtag.bind fun jtag _ => ?_
    refine (op_post (.getPinValue .usbpower)).bind fun usb _ => ?_
    -- every choice of branches is a sequence of single operations
    cases expected <;> cases jtag <;> cases usb <;>
      simp [Prog.Post, op, Prog.perform, configureJtagPins]

theorem disable_post : Prog.Post (fun _ => True) (fun _ => False) disable := by
  refine (op_post .disableEntry).bind fun entry _ => ?_
  cases entry with
  | alreadyDisabled => trivial
  | requested => trivial
  | refused => trivial
  | proceed =>
    refine (updateGpioConfig_post _).bind fun _ _ => ?_
    exact (op_post _).bind fun _ _ => trivial

end Xvc
