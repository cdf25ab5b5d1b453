import VmeSam3x.Lib.Tasks
import VmeSam3x.Xvc.Receive

/-! # Who may configure the JTAG pins

Several tasks enable and disable the server and follow the cables while one task
serves connections and shifts bits. The value of the state variable is the lock that
keeps them apart: whoever has moved it away from enabled or disabled owns the pins
until it is moved back. `Own` lists the ways of owning them, `Move` what an owner does
next, and `owning` is the exclusive ownership that follows.
-/

namespace Xvc

open Interact Bytes

/-! ## The system -/

/-- What the tasks share: the state variable, the directions of the pins and the level of
`JTAGSEL`. -/
structure Board where
  state : ServerState
  dir : Pin → Direction
  jtagsel : Bool

/-- The effect of configuring a pin or setting its level. -/
def Board.apply (s : Board) : XvcOp → Board
  | .configurePin pin dir => { s with dir := Function.update s.dir pin dir }
  | .setPin .jtagsel level => { s with jtagsel := level }
  | _ => s

/-- The answers of the board and the cables. A cable may be plugged or unplugged at any time.
The registers that a shift writes belong to the port of `JTAGSEL` too. -/
def Board.step (s : Board) (ev : Event XvcSig) (s' : Board) : Prop :=
  match ev with
  | ⟨.disableEntry, r⟩ =>
    r = (disableSection s.state).1 ∧ s' = { s with state := (disableSection s.state).2 }
  | ⟨.disableExit, _⟩ => s' = { s with state := .disabled }
  | ⟨.enableEntry, r⟩ =>
    r = (enableSection s.state).1 ∧ s' = { s with state := (enableSection s.state).2 }
  | ⟨.enableExit status, _⟩ => s' = { s with state := enableExitSection status }
  | ⟨.configEntry e, r⟩ =>
    r = (configSection e s.state).1 ∧ s' = { s with state := (configSection e s.state).2 }
  | ⟨.shiftEntry, r⟩ =>
    r = (shiftEntrySection s.state).1 ∧ s' = { s with state := (shiftEntrySection s.state).2 }
  | ⟨.shiftExit, r⟩ =>
    r = (shiftExitSection s.state).1 ∧ s' = { s with state := (shiftExitSection s.state).2 }
  | ⟨.readState, r⟩ => r = s.state ∧ s' = s
  | ⟨.writeState state, _⟩ => s' = { s with state := state }
  | ⟨.getPinValue pin, r⟩ => (pin = .jtagsel → r = s.jtagsel) ∧ s' = s
  | ⟨.configurePin pin dir, _⟩ => s' = s.apply (.configurePin pin dir)
  | ⟨.setPin pin level, _⟩ => s' = s.apply (.setPin pin level)
  | ⟨.writeCodr mask, _⟩ =>
    s' = if mask.getLsbD Pin.jtagsel.bit then { s with jtagsel := false } else s
  | ⟨.writeSodr mask, _⟩ =>
    s' = if mask.getLsbD Pin.jtagsel.bit then { s with jtagsel := true } else s
  | ⟨.readPdsr, _⟩ => s' = s
  | ⟨.netconnWrite _, _⟩ => s' = s
  | ⟨.netconnClose, _⟩ => s' = s

/-- All three JTAG pins are inputs. -/
def Board.Inputs (s : Board) : Prop :=
  s.dir .xiltck = .input ∧ s.dir .xiltdi = .input ∧ s.dir .xiltms = .input

/-- All three JTAG pins are outputs and `JTAGSEL` is high. -/
def Board.Outputs (s : Board) : Prop :=
  s.dir .xiltck = .output ∧ s.dir .xiltdi = .output ∧ s.dir .xiltms = .output ∧ s.jtagsel = true

/-- Arguments of `xvc_server_do_shift`: the vectors lie in the buffer, as its comment
demands. -/
structure ShiftArgs where
  buffer : Buffer
  tdi : Nat
  tms : Nat
  length : Nat
  le : length ≤ 4096
  layout : 0 < length → Layout tdi tms (bitsToBytes length)

/-- What a task may call. -/
inductive Call where
  | enable
  | disable
  | updateJtagsel
  | shift (args : ShiftArgs)
  | connection (c : Conn) (ds : List Delivery)

def Call.body : Call → XvcProg Status
  | .enable => Xvc.enable
  | .disable => Xvc.disable
  | .updateJtagsel => do
    Xvc.updateJtagsel
    return .ok
  | .shift args => do
    let r ← doShift args.buffer args.tdi args.tms args.length
    return r.1
  | .connection c ds => do
    let _ ← serveConnection c.reset ds
    return .ok

/-- The calls that shift. -/
def Call.serves : Call → Bool
  | .shift _ => true
  | .connection _ _ => true
  | _ => false

abbrev xvcSystem : System where
  S := XvcSig
  E := Fault
  Out := Status
  Call := Call
  Shared := Board
  body := Call.body
  step := Board.step

/-! ## Phases -/

/-- The pin operations of a configuration, after both cables were sampled. -/
def pinWrites (e : ServerState) (jtag usb : Bool) : List XvcOp :=
  (if e = .disabled ∨ e = .disabling ∨ jtag ∨ usb then
    [.configurePin .xiltck .input, .configurePin .xiltdi .input, .configurePin .xiltms .input]
  else []) ++
  (if (e = .enabled ∨ e = .enabling) ∧ ¬ (jtag ∨ usb) then
    [.setPin .jtagsel true, .configurePin .xiltck .output, .configurePin .xiltdi .output,
      .configurePin .xiltms .output]
  else []) ++
  (if e = .enabled ∨ e = .enabling then []
  else if jtag then [.setPin .jtagsel true]
  else if usb then [.setPin .jtagsel false]
  else [])

/-- How far a configuration has got. -/
inductive Stage where
  | entered
  | sampled (jtag : Bool)
  | writing (jtag usb : Bool) (ws : List XvcOp)
deriving DecidableEq

/-- What a task has of the pins: nothing, or the right to disable or enable the server,
before and after the configuration, a configuration, or a shift. -/
inductive Own where
  | nothing
  | disabling
  | closing
  | enabling
  | opening (status : Status)
  | config (e : ServerState) (stage : Stage)
  | shifting
deriving DecidableEq

/-- One operation of a task, with its answer. -/
inductive Move : Own → Event XvcSig → Own → Prop
  | disableStays {r : DisableEntry} (hr : r ≠ .proceed) :
      Move .nothing ⟨.disableEntry, r⟩ .nothing
  | disable : Move .nothing ⟨.disableEntry, .proceed⟩ .disabling
  | enableStays {r : EnableEntry} (hr : r ≠ .proceed) : Move .nothing ⟨.enableEntry, r⟩ .nothing
  | enable : Move .nothing ⟨.enableEntry, .proceed⟩ .enabling
  | configDisabled : Move .nothing ⟨.configEntry .disabled, true⟩ (.config .disabled .entered)
  | configDisabledStays : Move .nothing ⟨.configEntry .disabled, false⟩ .nothing
  | configDisabling : Move .disabling ⟨.configEntry .disabling, true⟩ (.config .disabling .entered)
  | configDisablingFails : Move .disabling ⟨.configEntry .disabling, false⟩ .closing
  | configEnabling : Move .enabling ⟨.configEntry .enabling, true⟩ (.config .enabling .entered)
  | configEnablingFails : Move .enabling ⟨.configEntry .enabling, false⟩ (.opening .error)
  | sampleJtag {e : ServerState} (v : Bool) :
      Move (.config e .entered) ⟨.getPinValue .nxiljtag, v⟩ (.config e (.sampled !v))
  | sampleUsb {e : ServerState} {jtag : Bool} (v : Bool) :
      Move (.config e (.sampled jtag)) ⟨.getPinValue .usbpower, v⟩
        (.config e (.writing jtag v (pinWrites e jtag v)))
  | write {e : ServerState} {jtag usb : Bool} {ws : List XvcOp} (ev : Event XvcSig) :
      Move (.config e (.writing jtag usb (ev.op :: ws))) ev (.config e (.writing jtag usb ws))
  | disabledDone {jtag usb : Bool} :
      Move (.config .disabled (.writing jtag usb [])) ⟨.writeState .disabled, ()⟩ .nothing
  | disablingDone {jtag usb : Bool} :
      Move (.config .disabling (.writing jtag usb [])) ⟨.writeState .disabling, ()⟩ .closing
  | enablingDone : Move (.config .enabling (.writing false false [])) ⟨.writeState .enabling, ()⟩
      (.opening .ok)
  /-- The configuration found a cable and returned early. -/
  | enablingAborted {jtag usb : Bool} (h : jtag ∨ usb) :
      Move (.config .enabling (.writing jtag usb [])) ⟨.enableExit .error, ()⟩ .nothing
  | disableExit : Move .closing ⟨.disableExit, ()⟩ .nothing
  | enableExit {status : Status} : Move (.opening status) ⟨.enableExit status, ()⟩ .nothing
  | shiftStays : Move .nothing ⟨.shiftEntry, false⟩ .nothing
  | shift : Move .nothing ⟨.shiftEntry, true⟩ .shifting
  | clearPins {mask : U32} (h : mask.getLsbD Pin.jtagsel.bit = false) :
      Move .shifting ⟨.writeCodr mask, ()⟩ .shifting
  | setPins {mask : U32} (h : mask.getLsbD Pin.jtagsel.bit = false) :
      Move .shifting ⟨.writeSodr mask, ()⟩ .shifting
  | samplePins {w : U32} : Move .shifting ⟨.readPdsr, w⟩ .shifting
  | shiftExit {r : Bool} : Move .shifting ⟨.shiftExit, r⟩ .nothing
  | readState {s : ServerState} : Move .nothing ⟨.readState, s⟩ .nothing
  | readPin {pin : Pin} {v : Bool} : Move .nothing ⟨.getPinValue pin, v⟩ .nothing
  | netconnWrite {payload : List U8} {r : Bool} :
      Move .nothing ⟨.netconnWrite payload, r⟩ .nothing
  | netconnClose : Move .nothing ⟨.netconnClose, ()⟩ .nothing

/-- What a task owes after a shift during which the server was asked to disable itself:
first the disabling, then the end of the connection or of the call. -/
inductive Duty where
  | normal
  | mustDisable
  | mustClose
deriving DecidableEq

/-- What follows for the duty of a task from an operation; `none` where the duty forbids it. -/
def Duty.next : Duty → Event XvcSig → Option Duty
  | .normal, ⟨.shiftExit, true⟩ => some .mustDisable
  | .normal, _ => some .normal
  | .mustDisable, ⟨.disableEntry, _⟩ => some .mustClose
  | .mustDisable, _ => none
  | .mustClose, ⟨.shiftEntry, _⟩ => none
  | .mustClose, ⟨.netconnWrite _, _⟩ => none
  | .mustClose, ⟨.netconnClose, _⟩ => some .normal
  | .mustClose, _ => some .mustClose

/-- The protocol of the tasks. Only some calls shift. A shift with an open duty has to return an
error, a connection must have been closed. -/
abbrev xvcProtocol : Protocol xvcSystem where
  Phase := Own × Duty
  enter _ := (.nothing, .normal)
  possible _ := True
  trans call x ev x' := Move x.1 ev x'.1 ∧ x.2.next ev = some x'.2 ∧
    (ev.op = .shiftEntry → call.serves = true)
  leave call x out := x.1 = .nothing ∧
    (x.2 = .normal ∨ x.2 = .mustClose ∧ (∃ args, call = .shift args) ∧ out = .ok .error)

/-! ## Every call follows the protocol -/

/-- The operations that no duty forbids or ends. -/
def XvcOp.plain : XvcOp → Bool
  | .shiftEntry => false
  | .shiftExit => false
  | .netconnWrite _ => false
  | .netconnClose => false
  | _ => true

/-- The operations that configure a pin or set its level. -/
def XvcOp.configures : XvcOp → Bool
  | .configurePin _ _ => true
  | .setPin _ _ => true
  | _ => false

theorem Duty.next_plain {d : Duty} {ev : Event XvcSig} (hd : d ≠ .mustDisable)
    (hev : ev.op.plain = true) : d.next ev = some d := by
  obtain ⟨o, r⟩ := ev
  cases d <;> cases o <;> first | rfl | contradiction

theorem Duty.next_normal {ev : Event XvcSig} (hev : ev.op ≠ .shiftExit) :
    Duty.normal.next ev = some .normal := by
  obtain ⟨o, r⟩ := ev
  cases o <;> first | rfl | contradiction

section Follows

variable {α : Type} {call : Call} {Q : Own × Duty → Except Fault α → Prop} {x : Own × Duty} {d : Duty}

/-- One operation, then the rest. -/
theorem follows_op {o : XvcOp} {k : XvcSig.Res o → XvcProg α}
    (ho : o = .shiftEntry → call.serves = true)
    (h : ∀ r, ∃ x' : Own × Duty, Move x.1 ⟨o, r⟩ x'.1 ∧ x.2.next ⟨o, r⟩ = some x'.2 ∧
      xvcProtocol.Follows call Q x' (k r)) : xvcProtocol.Follows call Q x (op o >>= k) := by
  intro r _
  obtain ⟨x', hm, hd, hk⟩ := h r
  exact ⟨x', ⟨hm, hd, ho⟩, hk⟩

/-- The same for an operation that leaves the duty alone. -/
theorem follows_plain {o : XvcOp} {k : XvcSig.Res o → XvcProg α} {own : Own}
    (hd : d ≠ .mustDisable) (ho : o.plain = true)
    (h : ∀ r, ∃ own', Move own ⟨o, r⟩ own' ∧ xvcProtocol.Follows call Q (own', d) (k r)) :
    xvcProtocol.Follows call Q (own, d) (op o >>= k) := by
  have hserve : o = .shiftEntry → call.serves = true := by
    rintro rfl
    cases ho
  refine follows_op hserve fun r => ?_
  obtain ⟨own', hm, hk⟩ := h r
  exact ⟨(own', d), hm, Duty.next_plain hd ho, hk⟩

/-! ### Configurations -/

/-- The pin operations of a configuration, one after the other. -/
def performWrites : List XvcOp → XvcProg Unit
  | [] => return ()
  | o :: ws => do
    let _ ← op o
    performWrites ws

/-- The configurations that occur, with the pin operations as a list. -/
theorem updateGpioConfig_eq {e : ServerState} (he : e = .disabled ∨ e = .disabling ∨ e = .enabling) :
    updateGpioConfig e = do
      if (← op (.configEntry e)) then
        let v ← op (.getPinValue .nxiljtag)
        let usb ← op (.getPinValue .usbpower)
        performWrites (pinWrites e (!v) usb)
        if e = .enabling ∧ ((!v) = true ∨ usb = true) then
          return .error
        else
          op (.writeState e)
          return .ok
      else
        return .error := by
  unfold updateGpioConfig
  congr 1
  funext entered
  cases entered with
  | false => rfl
  | true =>
    simp only [if_true, jtagCableConnected, usbCableConnected, bind_assoc, pure_bind]
    congr 1
    funext v
    congr 1
    funext usb
    rcases he with rfl | rfl | rfl <;> cases v <;> cases usb <;> rfl

theorem configures_of_mem_pinWrites (e : ServerState) (jtag usb : Bool) :
    ∀ o ∈ pinWrites e jtag usb, o.configures = true := by
  cases e <;> cases jtag <;> cases usb <;> decide

theorem plain_of_configures {o : XvcOp} (h : o.configures = true) : o.plain = true := by
  cases o <;> first | rfl | cases h

theorem performWrites_follows {e : ServerState} {jtag usb : Bool} {ws : List XvcOp}
    (hd : d ≠ .mustDisable) (hws : ∀ o ∈ ws, o.configures = true) :
    xvcProtocol.Follows call
      (fun x r => x = (.config e (.writing jtag usb []), d) ∧ r = .ok ())
      (.config e (.writing jtag usb ws), d) (performWrites ws) := by
  induction ws with
  | nil => exact ⟨rfl, rfl⟩
  | cons o ws ih =>
    refine follows_plain hd (plain_of_configures (hws o (by simp))) fun r => ?_
    exact ⟨_, .write ⟨o, r⟩, ih fun o' ho' => hws o' (by simp [ho'])⟩

/-- What a configuration leads to: nothing left, for the cables of a disabled server; the end
of a disabling; the end of an enabling, or its abortion with an error. -/
def configured (e : ServerState) (status : Status) (own : Own) : Prop :=
  match e with
  | .disabled => own = .nothing
  | .disabling => own = .closing
  | .enabling => own = .opening status ∨
      status = .error ∧ ∃ jtag usb : Bool, (jtag ∨ usb) ∧ own = .config .enabling (.writing jtag usb [])
  | _ => False

/-- What a task has when it starts a configuration. -/
def beforeConfig : ServerState → Own
  | .disabling => .disabling
  | .enabling => .enabling
  | _ => .nothing

theorem updateGpioConfig_follows {e : ServerState}
    (he : e = .disabled ∨ e = .disabling ∨ e = .enabling) (hd : d ≠ .mustDisable) :
    xvcProtocol.Follows call (fun x r => ∃ status, r = .ok status ∧ configured e status x.1 ∧ x.2 = d)
      (beforeConfig e, d) (updateGpioConfig e) := by
  rw [updateGpioConfig_eq he]
  refine follows_plain hd rfl fun entered => ?_
  cases entered with
  | false =>
    rcases he with rfl | rfl | rfl
    · exact ⟨_, .configDisabledStays, .error, rfl, rfl, rfl⟩
    · exact ⟨_, .configDisablingFails, .error, rfl, rfl, rfl⟩
    · exact ⟨_, .configEnablingFails, .error, rfl, .inl rfl, rfl⟩
  | true =>
    have hentry : Move (beforeConfig e) ⟨.configEntry e, true⟩ (.config e .entered) := by
      rcases he with rfl | rfl | rfl
      · exact .configDisabled
      · exact .configDisabling
      · exact .configEnabling
    refine ⟨_, hentry, ?_⟩
    refine follows_plain hd rfl fun v => ⟨_, .sampleJtag v, ?_⟩
    refine follows_plain hd rfl fun usb => ⟨_, .sampleUsb usb, ?_⟩
    refine (performWrites_follows hd (configures_of_mem_pinWrites e (!v) usb)).bind ?_ ?_
    · rintro x ⟨⟩ ⟨rfl, -⟩
      -- an enabling is given up when a cable was found
      split
      · rename_i hcable
        obtain ⟨rfl, hcable⟩ := hcable
        exact ⟨.error, rfl, .inr ⟨rfl, _, _, hcable, rfl⟩, rfl⟩
      · rename_i hcable
        refine follows_plain hd rfl fun _ => ?_
        rcases he with rfl | rfl | rfl
        · exact ⟨_, .disabledDone, .ok, rfl, rfl, rfl⟩
        · exact ⟨_, .disablingDone, .ok, rfl, rfl, rfl⟩
        · obtain ⟨hv, hu⟩ : (!v) = false ∧ usb = false := by simpa using hcable
          rw [hv, hu]
          exact ⟨_, .enablingDone, .ok, rfl, .inl rfl, rfl⟩
    · rintro x e ⟨-, he⟩
      cases he

/-! ### The operations of the server -/

theorem disable_follows {d' : Duty} (hd : ∀ r, d.next ⟨.disableEntry, r⟩ = some d')
    (hd' : d' ≠ .mustDisable) :
    xvcProtocol.Follows call (fun x r => x = (.nothing, d') ∧ ∃ status, r = .ok status)
      (.nothing, d) disable := by
  refine follows_op nofun fun entry => ?_
  cases entry with
  | alreadyDisabled => exact ⟨(.nothing, d'), .disableStays (by simp), hd _, rfl, _, rfl⟩
  | requested => exact ⟨(.nothing, d'), .disableStays (by simp), hd _, rfl, _, rfl⟩
  | refused => exact ⟨(.nothing, d'), .disableStays (by simp), hd _, rfl, _, rfl⟩
  | proceed =>
    refine ⟨(.disabling, d'), .disable, hd _, ?_⟩
    refine (updateGpioConfig_follows (.inr (.inl rfl)) hd').bind ?_ ?_
    · rintro ⟨own, d''⟩ status ⟨_, -, hown, hduty⟩
      obtain rfl : own = .closing := hown
      obtain rfl : d'' = d' := hduty
      exact follows_plain hd' rfl fun _ => ⟨_, .disableExit, rfl, _, rfl⟩
    · rintro x e ⟨status, he, -⟩
      cases he

theorem enable_follows (hd : d ≠ .mustDisable) :
    xvcProtocol.Follows call (fun x r => x = (.nothing, d) ∧ ∃ status, r = .ok status)
      (.nothing, d) enable := by
  refine follows_plain hd rfl fun entry => ?_
  cases entry with
  | alreadyEnabled => exact ⟨_, .enableStays (by simp), rfl, _, rfl⟩
  | refused => exact ⟨_, .enableStays (by simp), rfl, _, rfl⟩
  | proceed =>
    refine ⟨_, .enable, ?_⟩
    refine (updateGpioConfig_follows (.inr (.inr rfl)) hd).bind ?_ ?_
    · rintro ⟨own, d'⟩ status ⟨_, ⟨⟩, hown, hduty⟩
      obtain rfl : d' = d := hduty
      refine follows_plain hd rfl fun _ => ?_
      -- the last critical section publishes the result of the configuration
      rcases hown with hown | ⟨hst, jtag, usb, hcable, hown⟩
      · obtain rfl : own = .opening status := hown
        exact ⟨_, .enableExit, rfl, _, rfl⟩
      · obtain rfl : own = .config .enabling (.writing jtag usb []) := hown
        obtain rfl : status = .error := hst
        exact ⟨_, .enablingAborted hcable, rfl, _, rfl⟩
    · rintro x e ⟨status, he, -⟩
      cases he

theorem updateJtagselTo_follows (level : Bool) :
    xvcProtocol.Follows call (fun x r => x = (.nothing, .normal) ∧ r = .ok ())
      (.nothing, .normal) (updateJtagselTo level) := by
  refine follows_plain (by simp) rfl fun state => ⟨_, .readState, ?_⟩
  -- the state is read outside of a critical section; what follows does not rely on it
  split
  · refine (disable_follows (fun _ => rfl) (by simp)).bind ?_ ?_
    · rintro x status ⟨rfl, -⟩
      exact ⟨rfl, rfl⟩
    · rintro x e ⟨-, status, he⟩
      cases he
  · refine follows_plain (by simp) rfl fun v => ⟨_, .readPin, ?_⟩
    split
    · refine (updateGpioConfig_follows (.inl rfl) (by simp)).bind ?_ ?_
      · rintro ⟨own, d⟩ status ⟨_, -, hown, hduty⟩
        obtain rfl : own = .nothing := hown
        obtain rfl : d = .normal := hduty
        exact ⟨rfl, rfl⟩
      · rintro x e ⟨status, he, -⟩
        cases he
    · exact ⟨rfl, rfl⟩

theorem updateJtagsel_follows :
    xvcProtocol.Follows call (fun x r => x = (.nothing, .normal) ∧ r = .ok ())
      (.nothing, .normal) updateJtagsel := by
  simp only [updateJtagsel, jtagCableConnected, bind_assoc, pure_bind]
  refine follows_plain (by simp) rfl fun v => ⟨_, .readPin, ?_⟩
  split
  · exact updateJtagselTo_follows true
  · refine follows_plain (by simp) rfl fun usb => ⟨_, .readPin, ?_⟩
    split
    · exact updateJtagselTo_follows false
    · exact ⟨rfl, rfl⟩

/-! ### Shifts -/

theorem pulse_follows (tdi tms : Bool) :
    xvcProtocol.Follows call (fun x r => x = (.shifting, .normal) ∧ ∃ t, r = .ok t)
      (.shifting, .normal) (pulse tdi tms) := by
  simp only [pulse, setTdiTms, setTckHigh, setTckLow, getTdo, bind_assoc, pure_bind]
  refine follows_plain (by simp) rfl fun _ => ⟨_, .clearPins ?_, ?_⟩
  · cases tdi <;> cases tms <;> decide
  refine follows_plain (by simp) rfl fun _ => ⟨_, .setPins ?_, ?_⟩
  · cases tdi <;> cases tms <;> decide
  refine follows_plain (by simp) rfl fun _ => ⟨_, .setPins (by decide), ?_⟩
  refine follows_plain (by simp) rfl fun _ => ⟨_, .samplePins, ?_⟩
  exact follows_plain (by simp) rfl fun _ => ⟨_, .clearPins (by decide), rfl, _, rfl⟩

theorem pulses_follows (tdi tms : Nat → Bool) (n i : Nat) :
    xvcProtocol.Follows call (fun x r => x = (.shifting, .normal) ∧ ∃ ts, r = .ok ts)
      (.shifting, .normal) (pulses tdi tms n i) := by
  induction n generalizing i with
  | zero => exact ⟨rfl, _, rfl⟩
  | succ n ih =>
    refine (pulse_follows _ _).bind ?_ ?_
    · rintro x t ⟨rfl, -⟩
      refine (ih (i + 1)).bind ?_ ?_
      · rintro x ts ⟨rfl, -⟩
        exact ⟨rfl, _, rfl⟩
      · rintro x e ⟨-, ts, he⟩
        cases he
    · rintro x e ⟨-, t, he⟩
      cases he

/-- The end of something that may contain a shift: as it began, or with an error and the duty
to close. -/
def Ends (isError : α → Prop) (x : Own × Duty) (r : Except Fault α) : Prop :=
  x = (.nothing, .normal) ∨ x = (.nothing, .mustClose) ∧ ∃ a, r = .ok a ∧ isError a

theorem idealShift_follows (hcall : call.serves = true) (tdi tms : Nat → Bool) (n : Nat) :
    xvcProtocol.Follows call (Ends fun z => z.1 = .error) (.nothing, .normal)
      (idealShift tdi tms n) := by
  refine follows_op (fun _ => hcall) fun entered => ?_
  cases entered with
  | false => exact ⟨(.nothing, .normal), .shiftStays, rfl, .inl rfl⟩
  | true =>
    refine ⟨(.shifting, .normal), .shift, rfl, ?_⟩
    refine follows_plain (by simp) rfl fun _ => ⟨_, .clearPins (by decide), ?_⟩
    refine (pulses_follows tdi tms n 0).bind ?_ ?_
    · rintro x ts ⟨rfl, -⟩
      refine follows_op nofun fun requested => ?_
      cases requested with
      | false => exact ⟨(.nothing, .normal), .shiftExit, rfl, .inl rfl⟩
      | true =>
        refine ⟨(.nothing, .mustDisable), .shiftExit, rfl, ?_⟩
        refine (disable_follows (fun _ => rfl) (by simp)).bind ?_ ?_
        · rintro x status ⟨rfl, -⟩
          exact .inr ⟨rfl, _, rfl, rfl⟩
        · rintro x e ⟨-, status, he⟩
          cases he
    · rintro x e ⟨-, ts, he⟩
      cases he

/-- Sequencing: only a part that ended normally is continued with more than its result. -/
theorem Ends.bind {β : Type} {isError : α → Prop} {isError' : β → Prop} {p : XvcProg α}
    {f : α → XvcProg β} (h : xvcProtocol.Follows call (Ends isError) x p)
    (hf : ∀ a, xvcProtocol.Follows call (Ends isError') (.nothing, .normal) (f a))
    (he : ∀ a, isError a → ∃ b, f a = .ret b ∧ isError' b) :
    xvcProtocol.Follows call (Ends isError') x (p >>= f) := by
  refine h.bind ?_ ?_
  · rintro x' a (rfl | ⟨rfl, _, ⟨⟩, ha⟩)
    · exact hf a
    · obtain ⟨b, hb, hb'⟩ := he a ha
      rw [hb]
      exact .inr ⟨rfl, b, rfl, hb'⟩
  · rintro x' e (rfl | ⟨rfl, _, he', -⟩)
    · exact .inl rfl
    · cases he'

theorem doShift_follows (hcall : call.serves = true) {b : Buffer} {tdi tms length : Nat} (hmax : length ≤ 4096)
    (hl : 0 < length → Layout tdi tms (bitsToBytes length)) :
    xvcProtocol.Follows call (Ends fun z => z.1 = .error) (.nothing, .normal)
      (doShift b tdi tms length) := by
  rcases Nat.eq_zero_or_pos length with rfl | hpos
  · have hshift : doShift b tdi tms 0 = .ret (.ok, b) := rfl
    rw [hshift]
    exact .inl rfl
  · rw [doShift_eq hpos hmax (hl hpos), ← bind_pure_comp]
    exact Ends.bind (idealShift_follows hcall _ _ _) (fun _ => .inl rfl) fun z hz => ⟨_, rfl, hz⟩

/-! ### Connections -/

theorem reply_follows {payload : List U8} {c : Conn} {p : Pbuf} {done : Pass} :
    xvcProtocol.Follows call (Ends fun z => z.1 = .error) (.nothing, .normal)
      (reply payload c p done) := by
  refine follows_op nofun fun sent => ⟨(.nothing, .normal), .netconnWrite, rfl, ?_⟩
  cases sent <;> exact .inl rfl

/-- A computation without operations. -/
theorem ofExcept_follows {isError : α → Prop} (r : Except Fault α) :
    xvcProtocol.Follows call (Ends isError) (.nothing, .normal) (.ofExcept r) := by
  cases r <;> exact .inl rfl

/-- The same in front of something else. -/
theorem noOps_follows (r : Except Fault α) :
    xvcProtocol.Follows call (Ends fun _ => False) (.nothing, .normal) (.ofExcept r) :=
  ofExcept_follows r

theorem handleShift_follows (hcall : call.serves = true) {next : List Pbuf} {c : Conn} {p : Pbuf} :
    xvcProtocol.Follows call (Ends fun z => z.1 = .error) (.nothing, .normal)
      (handleShift next c p) := by
  unfold handleShift
  simp only
  split
  · exact .inl rfl
  rename_i hmax
  refine Ends.bind (noOps_follows _) ?_ fun _ h => h.elim
  rintro ⟨status, r⟩
  cases status with
  | error => exact .inl rfl
  | moreDataNeeded => exact .inl rfl
  | ok =>
    refine Ends.bind (doShift_follows hcall (by omega) fun hpos => ?_) ?_ ?_
    · rw [bitsToBytes_eq (by omega)]
      constructor <;> omega
    · rintro ⟨status, buffer⟩
      simp only
      split
      · exact .inl rfl
      · exact reply_follows
    · rintro ⟨status, buffer⟩ rfl
      exact ⟨_, rfl, rfl⟩

theorem handleCommand_follows (hcall : call.serves = true) {next : List Pbuf} {status : Status} {c : Conn} {p : Pbuf} :
    xvcProtocol.Follows call (Ends fun z => z.1 = .error) (.nothing, .normal)
      (handleCommand next status c p) := by
  unfold handleCommand
  split
  · exact reply_follows
  · split
    · exact reply_follows
    · exact .inl rfl
  · split
    · split
      · exact handleShift_follows hcall
      · exact .inl rfl
    · exact handleShift_follows hcall
  · exact .inl rfl

theorem iteration_follows (hcall : call.serves = true) {next : List Pbuf} {status : Status} {c : Conn} {p : Pbuf} :
    xvcProtocol.Follows call (Ends fun z => z.1 = .error) (.nothing, .normal)
      (iteration next status c p) := by
  unfold iteration
  split
  · refine Ends.bind (noOps_follows _) ?_ fun _ h => h.elim
    rintro ⟨status, command, r⟩
    cases status with
    | ok => exact handleCommand_follows hcall
    | error => exact .inl rfl
    | moreDataNeeded => exact .inl rfl
  · exact handleCommand_follows hcall

theorem receiveLoop_follows (hcall : call.serves = true) {fuel : Nat} {status : Status} {c : Conn} {p : Pbuf}
    {next : List Pbuf} :
    xvcProtocol.Follows call (Ends fun r => r.status = .error) (.nothing, .normal)
      (receiveLoop fuel status c p next) := by
  induction fuel generalizing status c p next with
  | zero => exact .inl rfl
  | succ fuel ih =>
    rcases p with - | ⟨y, p⟩
    · rcases next with - | ⟨q, next⟩
      · exact .inl rfl
      · exact ih
    · rw [receiveLoop]
      refine Ends.bind (iteration_follows hcall) ?_ ?_
      · rintro ⟨status, c, p⟩
        simp only
        split
        · exact .inl rfl
        · exact ih
      · rintro ⟨status, c, p⟩ rfl
        exact ⟨_, rfl, rfl⟩

theorem connectionLoop_follows (hcall : call.serves = true) {c : Conn} {ds : List Delivery} :
    xvcProtocol.Follows call (Ends fun _ => True) (.nothing, .normal) (connectionLoop c ds) := by
  induction ds generalizing c with
  | nil => exact .inl rfl
  | cons d ds ih =>
    unfold connectionLoop
    refine follows_plain (by simp) rfl fun state => ⟨_, .readState, ?_⟩
    split
    · exact .inl rfl
    cases d with
    | timeout => exact ih
    | failed => exact .inl rfl
    | data p next =>
      refine Ends.bind (receiveLoop_follows hcall) ?_ ?_
      · intro r
        split
        · exact .inl rfl
        · exact ih
      · intro r hr
        rw [if_pos (by simp [hr])]
        exact ⟨_, rfl, trivial⟩

/-- A connection is closed whatever happened on it, unless the server ran into a fault. -/
theorem serveConnection_follows (hcall : call.serves = true) {c : Conn} {ds : List Delivery} :
    xvcProtocol.Follows call (fun x _ => x = (.nothing, .normal)) (.nothing, .normal)
      (serveConnection c ds) := by
  refine (connectionLoop_follows hcall).bind ?_ ?_
  · rintro x c' (rfl | ⟨rfl, -⟩)
    · exact follows_op nofun fun _ => ⟨(.nothing, .normal), .netconnClose, rfl, rfl⟩
    · exact follows_op nofun fun _ => ⟨(.nothing, .normal), .netconnClose, rfl, rfl⟩
  · rintro x e (rfl | ⟨-, _, he, -⟩)
    · rfl
    · cases he

end Follows

/-- Every call follows the protocol. -/
theorem xvcProtocol_conforms : xvcProtocol.Conforms := by
  intro call
  cases call with
  | enable =>
    refine Protocol.Follows.mono (enable_follows (by simp)) ?_
    rintro x r ⟨rfl, -⟩
    exact ⟨rfl, .inl rfl⟩
  | disable =>
    refine Protocol.Follows.mono (disable_follows (fun _ => rfl) (by simp)) ?_
    rintro x r ⟨rfl, -⟩
    exact ⟨rfl, .inl rfl⟩
  | updateJtagsel =>
    refine Protocol.Follows.bind updateJtagsel_follows ?_ ?_
    · rintro x _ ⟨rfl, -⟩
      exact ⟨rfl, .inl rfl⟩
    · rintro x e ⟨-, he⟩
      cases he
  | shift args =>
    refine Protocol.Follows.bind (doShift_follows rfl args.le args.layout) ?_ ?_
    · rintro x z (rfl | ⟨rfl, _, ⟨⟩, hz⟩)
      · exact ⟨rfl, .inl rfl⟩
      · exact ⟨rfl, .inr ⟨rfl, ⟨args, rfl⟩, congrArg Except.ok hz⟩⟩
    · rintro x e (rfl | ⟨-, _, he, -⟩)
      · exact ⟨rfl, .inl rfl⟩
      · cases he
  | connection c ds =>
    refine Protocol.Follows.bind (serveConnection_follows rfl) ?_ ?_
    · rintro x c' rfl
      exact ⟨rfl, .inl rfl⟩
    · rintro x e rfl
      exact ⟨rfl, .inl rfl⟩

/-! ## Ownership -/

/-- What the pins will be after a configuration. -/
def Aim (e : ServerState) (jtag usb : Bool) (s : Board) : Prop :=
  if e = .enabling ∧ ¬ (jtag ∨ usb) then s.Outputs else s.Inputs

/-- The board while a task owns the pins. -/
def Own.OnBoard (s : Board) : Own → Prop
  | .nothing => False
  | .disabling => s.state = .disabling
  | .closing => s.state = .disabling ∧ s.Inputs
  | .enabling => s.state = .enabling
  | .opening status => s.state = .enabling ∧ s.Outputs ∧ status = .ok
  | .config e stage => s.state = .configInProgress ∧
      (e = .disabled ∨ e = .disabling ∨ e = .enabling) ∧
      match stage with
      | .writing jtag usb ws => (∀ o ∈ ws, o.configures = true) ∧ Aim e jtag usb (ws.foldl Board.apply s)
      | _ => True
  | .shifting => (s.state = .ioInProgress ∨ s.state = .disableRequested) ∧ s.Outputs

/-- The board while nobody owns the pins. -/
def Board.AtRest (s : Board) : Prop :=
  s.state = .disabled ∧ s.Inputs ∨ s.state = .enabled ∧ s.Outputs

/-- An owner has moved the state away from the two states of rest. -/
theorem Own.OnBoard.state {s : Board} {own : Own} (h : own.OnBoard s) :
    s.state ≠ .disabled ∧ s.state ≠ .enabled := by
  cases own with
  | nothing => exact h.elim
  | disabling =>
    rw [show s.state = .disabling from h]
    simp
  | closing => simp [h.1]
  | enabling =>
    rw [show s.state = .enabling from h]
    simp
  | opening status => simp [h.1]
  | config e stage => simp [h.1]
  | shifting => rcases h.1 with h | h <;> simp [h]

theorem aim_pinWrites {e : ServerState} (he : e = .disabled ∨ e = .disabling ∨ e = .enabling)
    (jtag usb : Bool) (s : Board) : Aim e jtag usb ((pinWrites e jtag usb).foldl Board.apply s) := by
  rcases he with rfl | rfl | rfl <;> cases jtag <;> cases usb <;>
    simp [Aim, pinWrites, Board.apply, Board.Inputs, Board.Outputs]

theorem step_configures {s s' : Board} {ev : Event XvcSig} (h : ev.op.configures = true)
    (hs : s.step ev s') : s' = s.apply ev.op := by
  obtain ⟨o, r⟩ := ev
  cases o <;> first | exact hs | cases h

theorem Board.apply_state (s : Board) (o : XvcOp) : (s.apply o).state = s.state := by
  cases o with
  | setPin pin level => cases pin <;> rfl
  | _ => rfl

/-- What a step of a task leads to: that task owns the pins, or they are at rest. -/
def Settles (own : Own) (s : Board) : Prop :=
  own ≠ .nothing ∧ own.OnBoard s ∨ ¬ own ≠ .nothing ∧ s.AtRest

theorem settles_rest {s s' : Board} (h : s.AtRest) (hs : s' = s) : Settles .nothing s' := by
  subst hs
  exact .inr ⟨by simp, h⟩

/-- At rest a task may take the pins. -/
theorem Move.onBoard_rest {own' : Own} {ev : Event XvcSig} {s s' : Board}
    (hm : Move .nothing ev own') (hs : s.step ev s') (h : s.AtRest) : Settles own' s' := by
  cases hm with
  | disableStays hr =>
    obtain ⟨rfl, rfl⟩ := hs
    rcases h with ⟨hst, hpins⟩ | ⟨hst, hpins⟩
    · exact .inr ⟨by simp, .inl ⟨by simp [disableSection, hst], hpins⟩⟩
    · simp [disableSection, hst] at hr
  | disable =>
    obtain ⟨hr, rfl⟩ := hs
    rcases h with ⟨hst, hpins⟩ | ⟨hst, hpins⟩
    · simp [disableSection, hst] at hr
    · exact .inl ⟨by simp, by simp [Own.OnBoard, disableSection, hst]⟩
  | enableStays hr =>
    obtain ⟨rfl, rfl⟩ := hs
    rcases h with ⟨hst, hpins⟩ | ⟨hst, hpins⟩
    · simp [enableSection, hst] at hr
    · exact .inr ⟨by simp, .inr ⟨by simp [enableSection, hst], hpins⟩⟩
  | enable =>
    obtain ⟨hr, rfl⟩ := hs
    rcases h with ⟨hst, hpins⟩ | ⟨hst, hpins⟩
    · exact .inl ⟨by simp, by simp [Own.OnBoard, enableSection, hst]⟩
    · simp [enableSection, hst] at hr
  | configDisabled =>
    obtain ⟨hr, rfl⟩ := hs
    rcases h with ⟨hst, hpins⟩ | ⟨hst, hpins⟩
    · exact .inl ⟨by simp, by simp [Own.OnBoard, configSection, hst]⟩
    · simp [configSection, hst] at hr
  | configDisabledStays =>
    obtain ⟨hr, rfl⟩ := hs
    rcases h with ⟨hst, hpins⟩ | ⟨hst, hpins⟩
    · simp [configSection, hst] at hr
    · exact .inr ⟨by simp, .inr ⟨by simp [configSection, hst], hpins⟩⟩
  | shiftStays =>
    obtain ⟨hr, rfl⟩ := hs
    rcases h with ⟨hst, hpins⟩ | ⟨hst, hpins⟩
    · exact .inr ⟨by simp, .inl ⟨by simp [shiftEntrySection, hst], hpins⟩⟩
    · simp [shiftEntrySection, hst] at hr
  | shift =>
    obtain ⟨hr, rfl⟩ := hs
    rcases h with ⟨hst, hpins⟩ | ⟨hst, hpins⟩
    · simp [shiftEntrySection, hst] at hr
    · exact .inl ⟨by simp, .inl (by simp [shiftEntrySection, hst]), hpins⟩
  | readState => exact settles_rest h hs.2
  | readPin => exact settles_rest h hs.2
  | netconnWrite => exact settles_rest h hs
  | netconnClose => exact settles_rest h hs

/-- The owner goes on, or gives the pins back. -/
theorem Move.onBoard_owner {own own' : Own} {ev : Event XvcSig} {s s' : Board}
    (hm : Move own ev own') (hs : s.step ev s') (h : own.OnBoard s) : Settles own' s' := by
  cases hm with
  | configDisabling =>
    obtain ⟨-, rfl⟩ := hs
    exact .inl ⟨by simp, by simp [configSection, show s.state = .disabling from h], by simp, trivial⟩
  | configDisablingFails =>
    obtain ⟨hr, -⟩ := hs
    simp [configSection, show s.state = .disabling from h] at hr
  | configEnabling =>
    obtain ⟨-, rfl⟩ := hs
    exact .inl ⟨by simp, by simp [configSection, show s.state = .enabling from h], by simp, trivial⟩
  | configEnablingFails =>
    obtain ⟨hr, -⟩ := hs
    simp [configSection, show s.state = .enabling from h] at hr
  | sampleJtag v =>
    obtain ⟨-, rfl⟩ := hs
    exact .inl ⟨by simp, h.1, h.2.1, trivial⟩
  | sampleUsb v =>
    obtain ⟨-, rfl⟩ := hs
    exact .inl ⟨by simp, h.1, h.2.1, configures_of_mem_pinWrites _ _ _, aim_pinWrites h.2.1 _ _ _⟩
  | write ev =>
    obtain ⟨hst, he, hws, haim⟩ := h
    obtain rfl := step_configures (hws _ (by simp)) hs
    exact .inl ⟨by simp, (s.apply_state _).trans hst, he, fun o ho => hws o (by simp [ho]), haim⟩
  | disabledDone =>
    have hpins : s.Inputs := by simpa [Aim] using h.2.2.2
    obtain rfl : s' = { s with state := .disabled } := hs
    exact .inr ⟨by simp, .inl ⟨rfl, hpins⟩⟩
  | disablingDone =>
    have hpins : s.Inputs := by simpa [Aim] using h.2.2.2
    obtain rfl : s' = { s with state := .disabling } := hs
    exact .inl ⟨by simp, rfl, hpins⟩
  | enablingDone =>
    have hpins : s.Outputs := by simpa [Aim] using h.2.2.2
    obtain rfl : s' = { s with state := .enabling } := hs
    exact .inl ⟨by simp, rfl, hpins, rfl⟩
  | enablingAborted hcable =>
    obtain rfl : s' = { s with state := .disabled } := hs
    have haim := h.2.2.2
    rw [Aim, if_neg (fun hc => hc.2 hcable)] at haim
    exact .inr ⟨by simp, .inl ⟨rfl, haim⟩⟩
  | disableExit =>
    obtain rfl : s' = { s with state := .disabled } := hs
    exact .inr ⟨by simp, .inl ⟨rfl, h.2⟩⟩
  | enableExit =>
    obtain ⟨-, hout, rfl⟩ := h
    obtain rfl : s' = { s with state := .enabled } := hs
    exact .inr ⟨by simp, .inr ⟨rfl, hout⟩⟩
  | clearPins hmask =>
    obtain rfl : s' = s := by simpa [Board.step, hmask] using hs
    exact .inl ⟨by simp, h⟩
  | setPins hmask =>
    obtain rfl : s' = s := by simpa [Board.step, hmask] using hs
    exact .inl ⟨by simp, h⟩
  | samplePins =>
    obtain rfl : s' = s := hs
    exact .inl ⟨by simp, h⟩
  | shiftExit =>
    obtain ⟨-, rfl⟩ := hs
    exact .inr ⟨by simp, .inr ⟨rfl, h.2⟩⟩
  | _ => exact h.elim

theorem Move.onBoard {own own' : Own} {ev : Event XvcSig} {s s' : Board} (hm : Move own ev own')
    (hs : s.step ev s') (h : Settles own s) : Settles own' s' := by
  rcases h with ⟨-, h⟩ | ⟨hown, h⟩
  · exact hm.onBoard_owner hs h
  · obtain rfl := not_not.mp hown
    exact hm.onBoard_rest hs h

theorem disableSection_of_ne {st : ServerState} (h : st ≠ .disabled ∧ st ≠ .enabled)
    (hio : st ≠ .ioInProgress) : disableSection st = (.refused, st) := by
  cases st <;> first | rfl | simp at h hio

theorem enableSection_of_ne {st : ServerState} (h : st ≠ .disabled ∧ st ≠ .enabled) :
    enableSection st = (.refused, st) := by
  cases st <;> first | rfl | simp at h

theorem shiftEntrySection_of_ne {st : ServerState} (h : st ≠ .enabled) :
    shiftEntrySection st = (false, st) := by
  cases st <;> first | rfl | simp at h

/-- A request to disable leaves the owner in place. -/
theorem Own.OnBoard.requestDisable {s : Board} {y : Own} (h : y.OnBoard s) :
    (disableSection s.state).1 ≠ .proceed ∧
      y.OnBoard { s with state := (disableSection s.state).2 } := by
  by_cases hio : s.state = .ioInProgress
  · rw [hio]
    cases y with
    | shifting => exact ⟨by simp [disableSection], .inr rfl, h.2⟩
    | disabling => exact absurd (hio.symm.trans h) (by simp)
    | enabling => exact absurd (hio.symm.trans h) (by simp)
    | closing => exact absurd (hio.symm.trans h.1) (by simp)
    | opening status => exact absurd (hio.symm.trans h.1) (by simp)
    | config e stage => exact absurd (hio.symm.trans h.1) (by simp)
    | nothing => exact h.elim
  · rw [disableSection_of_ne h.state hio]
    exact ⟨by simp, h⟩

/-- A step of another task leaves the owner in place. -/
theorem Move.beside {own own' y : Own} {ev : Event XvcSig} {s s' : Board} (hm : Move own ev own')
    (hs : s.step ev s') (hown : ¬ own ≠ .nothing) (hy : y.OnBoard s) :
    ¬ own' ≠ .nothing ∧ y.OnBoard s' := by
  obtain rfl := not_not.mp hown
  obtain ⟨hdisabled, henabled⟩ := hy.state
  cases hm with
  | disableStays hr =>
    obtain ⟨-, rfl⟩ := hs
    exact ⟨hown, hy.requestDisable.2⟩
  | disable => exact absurd hs.1.symm hy.requestDisable.1
  | enableStays hr =>
    obtain ⟨-, rfl⟩ := hs
    rw [enableSection_of_ne hy.state]
    exact ⟨hown, hy⟩
  | enable =>
    have hr := hs.1
    rw [enableSection_of_ne hy.state] at hr
    cases hr
  | configDisabled =>
    have hr := hs.1
    rw [configSection, if_neg hdisabled] at hr
    cases hr
  | configDisabledStays =>
    obtain ⟨-, rfl⟩ := hs
    rw [configSection, if_neg hdisabled]
    exact ⟨hown, hy⟩
  | shiftStays =>
    obtain ⟨-, rfl⟩ := hs
    rw [shiftEntrySection_of_ne henabled]
    exact ⟨hown, hy⟩
  | shift =>
    have hr := hs.1
    rw [shiftEntrySection_of_ne henabled] at hr
    cases hr
  | readState =>
    obtain rfl : s' = s := hs.2
    exact ⟨hown, hy⟩
  | readPin =>
    obtain rfl : s' = s := hs.2
    exact ⟨hown, hy⟩
  | netconnWrite =>
    obtain rfl : s' = s := hs
    exact ⟨hown, hy⟩
  | netconnClose =>
    obtain rfl : s' = s := hs
    exact ⟨hown, hy⟩

/-- The exclusive ownership of the pins. -/
def owning : xvcProtocol.Exclusive where
  holds x := x.1 ≠ .nothing
  free s := s.AtRest
  owned x s := x.1.OnBoard s
  enter _ := by simp
  leave h := by simp [h.1]
  step hm hs h := hm.1.onBoard hs h
  other hm hs hx _ hy := hm.1.beside hs hx hy

end Xvc
