import VmeSam3x.Xvc.Shift

/-! # What a shift looks like on the JTAG lines

The port registers of the microcontroller drive TCK, TDI and TMS. A `Probe` watches the
driven levels and collects the pulses of TCK, with the levels of TDI and TMS at the rising
edge and the samples of TDO taken before the falling one.
-/

namespace Xvc

open Interact Interact.Prog Bytes

/-! ## Watching the port -/

/-- The level of a pin of the port. -/
def level (port : U32) (pin : Pin) : Bool := port.getLsbD pin.bit

/-- The levels driven after an operation: `PIO_CODR` clears, `PIO_SODR` sets. -/
def drive (port : U32) (ev : Event XvcSig) : U32 :=
  match ev.op with
  | .writeCodr mask => port &&& ~~~mask
  | .writeSodr mask => port ||| mask
  | _ => port

/-- The samples of TDO that an operation takes. -/
def sampled : Event XvcSig → List Bool
  | ⟨.readPdsr, w⟩ => [w.getLsbD Pin.mmctdo.bit]
  | _ => []

/-- One pulse of TCK. -/
structure Pulse where
  tdi : Bool
  tms : Bool
  tdo : List Bool
deriving DecidableEq

structure Probe where
  port : U32
  /-- The pulse in progress, if TCK has risen. -/
  current : Option Pulse
  pulses : List Pulse
  /-- TDI and TMS have never changed while TCK was high. -/
  steady : Bool

/-- The probe after one more operation. -/
def Probe.observe (p : Probe) (ev : Event XvcSig) : Probe where
  port := drive p.port ev
  current :=
    if level (drive p.port ev) .xiltck then
      if level p.port .xiltck then
        p.current.map fun pulse => { pulse with tdo := pulse.tdo ++ sampled ev }
      else
        some ⟨level (drive p.port ev) .xiltdi, level (drive p.port ev) .xiltms, []⟩
    else none
  pulses :=
    if level p.port .xiltck && !level (drive p.port ev) .xiltck then p.pulses ++ p.current.toList
    else p.pulses
  steady := p.steady && (!level p.port .xiltck ||
    level (drive p.port ev) .xiltdi == level p.port .xiltdi &&
      level (drive p.port ev) .xiltms == level p.port .xiltms)

/-- A probe attached while the port drives any levels. -/
def Probe.attach (port : U32) : Probe := ⟨port, none, [], true⟩

/-- The operation writes to no other pin than TCK, TDI and TMS. -/
def OnlyJtagPins (ev : Event XvcSig) : Prop :=
  match ev.op with
  | .writeCodr mask => ∀ i, mask.getLsbD i = true → i ∈ [Pin.xiltck.bit, Pin.xiltdi.bit, Pin.xiltms.bit]
  | .writeSodr mask => ∀ i, mask.getLsbD i = true → i ∈ [Pin.xiltck.bit, Pin.xiltdi.bit, Pin.xiltms.bit]
  | .configurePin _ _ => False
  | .setPin _ _ => False
  | _ => True

/-! ## The operations of a shift -/

/-- The accesses of one pulse, with the word that was sampled. -/
def pulseEvents (tdi tms : Bool) (w : U32) : List (Event XvcSig) :=
  [⟨.writeCodr (pinMask (!tdi) .xiltdi ||| pinMask (!tms) .xiltms), ()⟩,
    ⟨.writeSodr (pinMask tdi .xiltdi ||| pinMask tms .xiltms), ()⟩,
    ⟨.writeSodr (pinMask true .xiltck), ()⟩,
    ⟨.readPdsr, w⟩,
    ⟨.writeCodr (pinMask true .xiltck), ()⟩]

/-- The accesses of the pulses from bit `i` on, one for each sampled word. -/
def waveform (tdi tms : Nat → Bool) : Nat → List U32 → List (Event XvcSig)
  | _, [] => []
  | i, w :: ws => pulseEvents (tdi i) (tms i) w ++ waveform tdi tms (i + 1) ws

/-- The level of TDO in a sampled word. -/
def tdoOf (w : U32) : Bool := w.getLsbD Pin.mmctdo.bit

theorem path_op_bind {α : Type} {o : XvcOp} {k : XvcSig.Res o → XvcProg α}
    {evs : List (Event XvcSig)} {x : Except Fault α} :
    Path (op o >>= k) evs x ↔ ∃ r evs', evs = ⟨o, r⟩ :: evs' ∧ Path (k r) evs' x :=
  path_call

theorem path_pulse {tdi tms : Bool} {evs : List (Event XvcSig)} {x : Except Fault Bool}
    (h : Path (pulse tdi tms) evs x) : ∃ w, evs = pulseEvents tdi tms w ∧ x = .ok (tdoOf w) := by
  rw [pulse, setTdiTms, bind_assoc] at h
  rcases path_op_bind.mp h with ⟨_, evs₁, rfl, h₁⟩
  rcases path_op_bind.mp h₁ with ⟨_, evs₂, rfl, h₂⟩
  rcases path_op_bind.mp h₂ with ⟨_, evs₃, rfl, h₃⟩
  rw [getTdo, bind_assoc] at h₃
  rcases path_op_bind.mp h₃ with ⟨w, evs₄, rfl, h₄⟩
  rcases path_op_bind.mp h₄ with ⟨_, evs₅, rfl, h₅⟩
  rcases path_ret.mp h₅ with ⟨rfl, rfl⟩
  exact ⟨w, rfl, rfl⟩

theorem path_pulses {tdi tms : Nat → Bool} {n i : Nat} {evs : List (Event XvcSig)}
    {x : Except Fault (List Bool)} (h : Path (pulses tdi tms n i) evs x) :
    ∃ ws, ws.length = n ∧ evs = waveform tdi tms i ws ∧ x = .ok (ws.map tdoOf) := by
  induction n generalizing i evs x with
  | zero =>
    rcases path_ret.mp h with ⟨rfl, rfl⟩
    exact ⟨[], rfl, rfl, rfl⟩
  | succ n ih =>
    rcases path_bind.mp h with ⟨t, evs₁, evs₂, rfl, h₁, h₂⟩ | ⟨e, rfl, h₁⟩
    · rcases path_pulse h₁ with ⟨w, rfl, ht⟩
      rcases path_bind.mp h₂ with ⟨ts, evs₃, evs₄, rfl, h₃, h₄⟩ | ⟨e, rfl, h₃⟩
      · rcases ih h₃ with ⟨ws, hlen, rfl, hts⟩
        rcases path_ret.mp h₄ with ⟨rfl, rfl⟩
        cases ht
        cases hts
        exact ⟨w :: ws, by rw [List.length_cons, hlen], by simp [waveform], rfl⟩
      · rcases ih h₃ with ⟨ws, -, -, hts⟩
        cases hts
    · rcases path_pulse h₁ with ⟨w, -, ht⟩
      cases ht

/-- The ways a shift can go. -/
inductive ShiftRun (tdi tms : Nat → Bool) (n : Nat) :
    List (Event XvcSig) → Except Fault (Status × Option (List Bool)) → Prop
  | refused : ShiftRun tdi tms n [⟨.shiftEntry, false⟩] (.ok (.error, none))
  | done {ws : List U32} (hws : ws.length = n) :
      ShiftRun tdi tms n (⟨.shiftEntry, true⟩ :: ⟨.writeCodr (pinMask true .xiltck), ()⟩ ::
        (waveform tdi tms 0 ws ++ [⟨.shiftExit, false⟩])) (.ok (.ok, some (ws.map tdoOf)))
  | disabled {ws : List U32} {evs : List (Event XvcSig)} (hws : ws.length = n) :
      ShiftRun tdi tms n (⟨.shiftEntry, true⟩ :: ⟨.writeCodr (pinMask true .xiltck), ()⟩ ::
        (waveform tdi tms 0 ws ++ ⟨.shiftExit, true⟩ :: evs)) (.ok (.error, some (ws.map tdoOf)))

theorem path_idealShift {tdi tms : Nat → Bool} {n : Nat} {evs : List (Event XvcSig)}
    {x : Except Fault (Status × Option (List Bool))} (h : Path (idealShift tdi tms n) evs x) :
    ShiftRun tdi tms n evs x := by
  rcases path_op_bind.mp h with ⟨entered, evs', rfl, h'⟩
  cases entered with
  | false =>
    rcases path_ret.mp h' with ⟨rfl, rfl⟩
    exact .refused
  | true =>
    rw [if_pos rfl] at h'
    rcases path_op_bind.mp h' with ⟨_, evs, rfl, h''⟩
    rcases path_bind.mp h'' with ⟨ts, evs₁, evs₂, rfl, h₁, h₂⟩ | ⟨e, rfl, h₁⟩
    · rcases path_pulses h₁ with ⟨ws, hlen, rfl, hts⟩
      cases hts
      rcases path_op_bind.mp h₂ with ⟨requested, evs₃, rfl, h₃⟩
      cases requested with
      | false =>
        rcases path_ret.mp h₃ with ⟨rfl, rfl⟩
        exact .done hlen
      | true =>
        rcases disable_post.path_bind h₃ with ⟨_, evs₄, evs₅, rfl, -, -, h₅⟩
        rcases path_ret.mp h₅ with ⟨rfl, rfl⟩
        exact .disabled hlen
    · rcases path_pulses h₁ with ⟨ws, -, -, hts⟩
      cases hts

theorem ne_exit_of_mem_waveform {tdi tms : Nat → Bool} {i : Nat} {ws : List U32} {ev : Event XvcSig}
    (h : ev ∈ waveform tdi tms i ws) : ev.op ≠ .shiftExit := by
  induction ws generalizing i with
  | nil => cases h
  | cons w ws ih =>
    rw [waveform, List.mem_append] at h
    rcases h with h | h
    · simp only [pulseEvents, List.mem_cons, List.not_mem_nil, or_false] at h
      rcases h with rfl | rfl | rfl | rfl | rfl <;> simp
    · exact ih h

/-- A shift that finds a request to disable the server returns an error. -/
theorem doShift_error {b : Buffer} {tdi tms n : Nat} (hmax : n ≤ 4096)
    (hl : 0 < n → Layout tdi tms (bitsToBytes n)) {evs : List (Event XvcSig)}
    {out : Except Fault (Status × Buffer)} (h : Path (doShift b tdi tms n) evs out)
    (hexit : ⟨.shiftExit, true⟩ ∈ evs) : ∃ b', out = .ok (.error, b') := by
  rcases Nat.eq_zero_or_pos n with rfl | hpos
  · have hshift : doShift b tdi tms 0 = .ret (.ok, b) := rfl
    rw [hshift] at h
    rcases path_ret.mp h with ⟨rfl, -⟩
    cases hexit
  · rw [doShift_eq hpos hmax (hl hpos), ← bind_pure_comp] at h
    rcases path_bind.mp h with ⟨z, evs₁, evs₂, rfl, h₁, h₂⟩ | ⟨e, rfl, h₁⟩
    · rcases path_ret.mp h₂ with ⟨rfl, rfl⟩
      rw [List.append_nil] at hexit
      cases path_idealShift h₁ with
      | refused => simp at hexit
      | done =>
        simp only [List.mem_cons, List.mem_append, List.not_mem_nil, or_false] at hexit
        rcases hexit with h | h | h | h
        · cases h
        · cases h
        · exact absurd rfl (ne_exit_of_mem_waveform h)
        · cases h
      | disabled => exact ⟨_, rfl⟩
    · cases path_idealShift h₁

/-! ## What the probe sees -/

theorem Pin.bit_lt (pin : Pin) : pin.bit < 32 := by
  cases pin <;> decide

@[simp] theorem level_clear (port mask : U32) (pin : Pin) :
    level (port &&& ~~~mask) pin = (level port pin && !mask.getLsbD pin.bit) := by
  simp [level, pin.bit_lt]

@[simp] theorem level_set (port mask : U32) (pin : Pin) :
    level (port ||| mask) pin = (level port pin || mask.getLsbD pin.bit) := by
  simp [level]

@[simp] theorem getLsbD_tckMask (pin : Pin) :
    (pinMask true .xiltck).getLsbD pin.bit = decide (pin = .xiltck) := by
  cases pin <;> rfl

theorem getLsbD_dataMask (tdi tms : Bool) :
    (pinMask tdi .xiltdi ||| pinMask tms .xiltms).getLsbD Pin.xiltck.bit = false ∧
    (pinMask tdi .xiltdi ||| pinMask tms .xiltms).getLsbD Pin.xiltdi.bit = tdi ∧
    (pinMask tdi .xiltdi ||| pinMask tms .xiltms).getLsbD Pin.xiltms.bit = tms := by
  cases tdi <;> cases tms <;> decide

/-- One pulse, from TCK low to TCK low. -/
theorem observe_pulse {p : Probe} (hlow : level p.port .xiltck = false) (hcur : p.current = none)
    (tdi tms : Bool) (w : U32) :
    let p' := (pulseEvents tdi tms w).foldl Probe.observe p
    level p'.port .xiltck = false ∧ p'.current = none ∧
      p'.pulses = p.pulses ++ [⟨tdi, tms, [tdoOf w]⟩] ∧ p'.steady = p.steady := by
  rcases p with ⟨port, current, pulses, steady⟩
  rcases getLsbD_dataMask tdi tms with ⟨hset₁, hset₂, hset₃⟩
  rcases getLsbD_dataMask (!tdi) (!tms) with ⟨hclear₁, hclear₂, hclear₃⟩
  simp only at hlow hcur
  subst hcur
  unfold pulseEvents
  generalize pinMask tdi .xiltdi ||| pinMask tms .xiltms = set at *
  generalize pinMask (!tdi) .xiltdi ||| pinMask (!tms) .xiltms = clear at *
  simp [Probe.observe, drive, sampled, tdoOf, *]

/-- The pulses of a waveform. -/
theorem observe_waveform {p : Probe} (hlow : level p.port .xiltck = false) (hcur : p.current = none)
    (tdi tms : Nat → Bool) (i : Nat) (ws : List U32) :
    let p' := (waveform tdi tms i ws).foldl Probe.observe p
    level p'.port .xiltck = false ∧ p'.current = none ∧ p'.steady = p.steady ∧
      p'.pulses = p.pulses ++ (List.range ws.length).map fun k =>
        ⟨tdi (i + k), tms (i + k), [(ws.map tdoOf).getD k false]⟩ := by
  induction ws generalizing p i with
  | nil => simp [waveform, hlow, hcur]
  | cons w ws ih =>
    have hpulse := observe_pulse hlow hcur (tdi i) (tms i) w
    rw [waveform, List.foldl_append]
    generalize (pulseEvents (tdi i) (tms i) w).foldl Probe.observe p = p₁ at hpulse ⊢
    rcases hpulse with ⟨hlow₁, hcur₁, hpulses₁, hsteady₁⟩
    rcases ih hlow₁ hcur₁ (i + 1) with ⟨hlow₂, hcur₂, hsteady₂, hpulses₂⟩
    refine ⟨hlow₂, hcur₂, hsteady₂.trans hsteady₁, ?_⟩
    rw [hpulses₂, hpulses₁, List.length_cons, List.range_succ_eq_map, List.append_assoc]
    simp [Nat.add_assoc, Nat.add_comm 1]

theorem eq_bit_of_pinMask {v : Bool} {pin : Pin} {i : Nat} (h : (pinMask v pin).getLsbD i = true) :
    i = pin.bit := by
  cases v with
  | false => simp [pinMask] at h
  | true =>
    have hall : ∀ i < 32, (pinMask true pin).getLsbD i = true → i = pin.bit := by
      cases pin <;> decide
    by_cases hi : i < 32
    · exact hall i hi h
    · rw [BitVec.getLsbD_of_ge _ _ (by omega)] at h
      cases h

theorem onlyJtagPins_waveform {tdi tms : Nat → Bool} {i : Nat} {ws : List U32} :
    ∀ ev ∈ waveform tdi tms i ws, OnlyJtagPins ev := by
  have hdata : ∀ a b j, (pinMask a .xiltdi ||| pinMask b .xiltms).getLsbD j = true →
      j ∈ [Pin.xiltck.bit, Pin.xiltdi.bit, Pin.xiltms.bit] := by
    intro a b j h
    rw [BitVec.getLsbD_or, Bool.or_eq_true] at h
    rcases h with h | h
    · simp [eq_bit_of_pinMask h]
    · simp [eq_bit_of_pinMask h]
  have hclock : ∀ j, (pinMask true .xiltck).getLsbD j = true →
      j ∈ [Pin.xiltck.bit, Pin.xiltdi.bit, Pin.xiltms.bit] := by
    intro j h
    simp [eq_bit_of_pinMask h]
  induction ws generalizing i with
  | nil => simp [waveform]
  | cons w ws ih =>
    intro ev hev
    rw [waveform, List.mem_append] at hev
    rcases hev with hev | hev
    · simp only [pulseEvents, List.mem_cons, List.not_mem_nil, or_false] at hev
      rcases hev with rfl | rfl | rfl | rfl | rfl
      · exact hdata _ _
      · exact hdata _ _
      · exact hclock
      · trivial
      · exact hclock
    · exact ih ev hev

/-! ## The vector of the samples -/

theorem vectorBit_tdoBuffer (b : Buffer) {tdi bytes i : Nat} (ts : List Bool)
    (hfit : tdi + bytes ≤ 1024) (hbytes : bytes ≤ ts.length / 8 + 1) (hi : i < 8 * bytes) :
    vectorBit (fun k => (tdoBuffer b tdi bytes ts).byte (tdi + k)) i = ts.getD i false := by
  have hbyte := byte_tdoBuffer b tdi bytes ts (show tdi + i / 8 < 1024 by omega)
  rw [if_pos (by omega)] at hbyte
  rw [vectorBit, hbyte, getLsbD_tdoByte, decide_eq_true (by omega), Bool.true_and]
  congr 1
  omega

/-- What a shift of `n` bits, from the vectors in `b`, leaves on the lines and in the buffer:
the TMS vector lies at `tms`, the TDI vector right after it. -/
structure ShiftDone (b : Buffer) (tms n : Nat) (port : U32) (b' : Buffer)
    (evs : List (Event XvcSig)) : Prop where
  /-- TCK is driven low first. -/
  starts : ∃ rest, evs = ⟨.shiftEntry, true⟩ :: ⟨.writeCodr (pinMask true .xiltck), ()⟩ :: rest
  /-- Pulse `i` presents bit `i` of both vectors, and its one sample becomes bit `i` of the
  vector that replaces the TDI vector. -/
  pulses : (evs.foldl Probe.observe (.attach port)).pulses = (List.range n).map fun i =>
    ⟨vectorBit (fun k => b.byte (tms + (n + 7) / 8 + k)) i, vectorBit (fun k => b.byte (tms + k)) i,
      [vectorBit (fun k => b'.byte (tms + (n + 7) / 8 + k)) i]⟩
  ends : level (evs.foldl Probe.observe (.attach port)).port .xiltck = false
  steady : (evs.foldl Probe.observe (.attach port)).steady = true
  others : ∀ ev ∈ evs, OnlyJtagPins ev
  /-- The bits of the last byte that no pulse belongs to. -/
  padding : ∀ i, n ≤ i → i < 8 * ((n + 7) / 8) →
    vectorBit (fun k => b'.byte (tms + (n + 7) / 8 + k)) i = false
  frame : ∀ j, ¬ (tms + (n + 7) / 8 ≤ j ∧ j < tms + (n + 7) / 8 + (n + 7) / 8) → b'.byte j = b.byte j

/-- A shift that sampled the words `ws`. -/
theorem shiftDone_of_samples (b : Buffer) {tms n : Nat} {ws : List U32} (hws : ws.length = n)
    (hfit : tms + 2 * ((n + 7) / 8) ≤ 1024) (port : U32) :
    ShiftDone b tms n port (tdoBuffer b (tms + (n + 7) / 8) ((n + 7) / 8) (ws.map tdoOf))
      (⟨.shiftEntry, true⟩ :: ⟨.writeCodr (pinMask true .xiltck), ()⟩ ::
        (waveform (vectorBit fun k => b.byte (tms + (n + 7) / 8 + k))
          (vectorBit fun k => b.byte (tms + k)) 0 ws ++ [⟨.shiftExit, false⟩])) := by
  have hlen : (ws.map tdoOf).length = n := by rw [List.length_map, hws]
  -- the probe after TCK was driven low, then after the pulses
  have hlow : level ((Probe.attach port).observe ⟨.shiftEntry, true⟩ |>.observe
      ⟨.writeCodr (pinMask true .xiltck), ()⟩).port .xiltck = false := by
    simp [Probe.observe, drive]
  have hfirst : ((Probe.attach port).observe ⟨.shiftEntry, true⟩ |>.observe
      ⟨.writeCodr (pinMask true .xiltck), ()⟩) =
        ⟨port &&& ~~~pinMask true .xiltck, none, [], true⟩ := by
    cases hport : level port .xiltck <;> simp [Probe.observe, drive, Probe.attach, hport]
  have hwave := observe_waveform hlow (by rw [hfirst])
    (vectorBit fun k => b.byte (tms + (n + 7) / 8 + k)) (vectorBit fun k => b.byte (tms + k)) 0 ws
  have hlast : ∀ p : Probe, level p.port .xiltck = false →
      p.observe ⟨.shiftExit, false⟩ = { p with current := none } := by
    intro p hp
    simp [Probe.observe, drive, hp]
  have hprobe := hlast _ hwave.1
  have hbit : ∀ i, i < 8 * ((n + 7) / 8) → vectorBit (fun k => (tdoBuffer b (tms + (n + 7) / 8)
      ((n + 7) / 8) (ws.map tdoOf)).byte (tms + (n + 7) / 8 + k)) i = (ws.map tdoOf).getD i false := by
    intro i hi
    exact vectorBit_tdoBuffer b _ (by omega) (by rw [hlen]; omega) hi
  refine ⟨⟨_, rfl⟩, ?_, ?_, ?_, ?_, ?_, ?_⟩
  · rw [List.foldl_cons, List.foldl_cons, List.foldl_append, List.foldl_cons, List.foldl_nil, hprobe]
    refine hwave.2.2.2.trans ?_
    rw [hfirst, List.nil_append, hws]
    refine List.map_congr_left fun i hi => ?_
    have hi := List.mem_range.mp hi
    rw [hbit i (by omega), Nat.zero_add]
  · rw [List.foldl_cons, List.foldl_cons, List.foldl_append, List.foldl_cons, List.foldl_nil, hprobe]
    exact hwave.1
  · rw [List.foldl_cons, List.foldl_cons, List.foldl_append, List.foldl_cons, List.foldl_nil, hprobe]
    refine hwave.2.2.1.trans ?_
    rw [hfirst]
  · intro ev hev
    simp only [List.mem_cons, List.mem_append, List.not_mem_nil, or_false] at hev
    rcases hev with rfl | rfl | hev | rfl
    · trivial
    · intro j hj
      simp [eq_bit_of_pinMask hj]
    · exact onlyJtagPins_waveform ev hev
    · trivial
  · intro i hni hi
    rw [hbit i hi, List.getD_eq_getElem?_getD, List.getElem?_eq_none (by omega)]
    rfl
  · intro j hj
    by_cases hlt : j < 1024
    · rw [byte_tdoBuffer _ _ _ _ hlt, if_neg (by omega)]
    · simp [Buffer.byte, hlt]

/-- **The waveform of a shift.** Whatever the device answers, `xvc_server_do_shift` clocks out
the two vectors and captures the samples in the place of the TDI vector. -/
theorem shift_waveform {env : Env XvcSig} (henabled : ∀ tr, env tr .shiftEntry = true)
    (hrequest : ∀ tr, env tr .shiftExit = false) (b : Buffer) {tms n : Nat} (hpos : 1 ≤ n)
    (hmax : n ≤ 4096) (hfit : tms + 2 * ((n + 7) / 8) ≤ 1024) (port : U32) :
    ∃ b' evs, exec env (doShift b (tms + (n + 7) / 8) tms n) [] = (.ok (.ok, b'), evs) ∧
      ShiftDone b tms n port b' evs := by
  have hbytes := bitsToBytes_eq hmax
  have hlayout : Layout (tms + (n + 7) / 8) tms (bitsToBytes n) := by
    rw [hbytes]
    constructor <;> omega
  have hpath := path_exec env (doShift b (tms + (n + 7) / 8) tms n)
  rw [doShift_eq hpos hmax hlayout, hbytes] at hpath ⊢
  generalize hideal : idealShift _ _ n = ideal at hpath ⊢
  rw [exec_map] at hpath ⊢
  have hrun := path_exec env ideal
  generalize exec env ideal [] = out at hpath hrun ⊢
  rcases out with ⟨x, evs⟩
  rcases hrun with ⟨hrun, hans⟩
  rw [← hideal] at hrun
  cases path_idealShift hrun with
  | refused =>
    have hentry := (answered_cons.mp hans).1
    rw [henabled] at hentry
    cases hentry
  | @disabled ws evs' hws =>
    -- the environment never reports a request
    have hexit := (answered_cons.mp (answered_append.mp
      (answered_cons.mp (answered_cons.mp hans).2).2).2).1
    rw [hrequest] at hexit
    cases hexit
  | @done ws hws =>
    exact ⟨_, _, rfl, shiftDone_of_samples b hws hfit port⟩

/-- A device that holds TDO high, and a shift of three bits. -/
theorem shift_waveform_three_bits :
    ∃ b' evs, exec (cooperativeEnv fun _ => 8#32) (doShift (fun _ => 5) 1 0 3) [] =
        (.ok (.ok, b'), evs) ∧ ShiftDone (fun _ => 5) 0 3 0 b' evs :=
  shift_waveform (fun _ => rfl) (fun _ => rfl) _ (by decide) (by decide) (by decide) 0

end Xvc
