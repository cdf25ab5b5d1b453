import VmeSam3x.EmacDriver.Queue

/-! # Initialisation and the retry limit

`emac_reset_tx_mem` empties the ring, once when the driver is initialised, and again in the
handler when the hardware has given up on a half-duplex link. All frames of the ring are lost
then, and only the oldest one's callback is told.
-/

namespace EmacDriver

open Interact Machine Bytes

variable {dev : Device} {enabled : State → Prop} {s t u : State} {halfDuplex : Bool}
  {E α : Type} {x : Except E α} {ulIsr ulTsr : U32}

/-! ## A transmitter that has stopped -/

theorem eq_of_stopped (hs : s.going = false) (hm : (emac halfDuplex).Moves s t) : t = s := by
  rcases Relation.ReflTransGen.cases_head hm with heq | ⟨s', hstep, -⟩
  · exact heq.symm
  · exfalso
    cases hstep with
    | send _ hgoing => exact Bool.noConfusion (hs.symm.trans hgoing)
    | stop hgoing => exact Bool.noConfusion (hs.symm.trans hgoing)
    | giveUp _ hgoing => exact Bool.noConfusion (hs.symm.trans hgoing)

theorem runs_op_stopped {o : TxOp} {f : Tx.Res o → TxProg E α} (hs : s.going = false)
    (hruns : (emac halfDuplex).Runs (Prog.perform (S := Tx) o >>= f) s x t) :
    ∃ r s', s.Answers o r s' ∧ (emac halfDuplex).Runs (f r) s' x t := by
  rcases runs_perform_bind.mp hruns with ⟨s₁, r, s₂, hm, ha, h₁⟩
  rw [eq_of_stopped hs hm] at ha
  exact ⟨r, s₂, ha, h₁⟩

/-! ## The reset -/

/-- The descriptors of the slots in `slots`, set up. -/
def State.resetSlots (s : State) (pTxBuff : Nat) (slots : List Nat) : State :=
  { s with
    addr := fun i => if i ∈ slots then pTxBuff + i * emacTxUnitsize else s.addr i
    status := fun i => if i ∈ slots then emacTxdUsed else s.status i }

/-- The driver after `emac_reset_tx_mem`. -/
def State.reset (dev : Device) (s : State) : State :=
  { s with
    enabled := false
    going := false
    usTxHead := 0
    usTxTail := 0
    addr := fun i =>
      if i < dev.usTxListSize then dev.pTxBuffer + i * emacTxUnitsize else s.addr i
    status := fun i =>
      if i = dev.usTxListSize - 1 then emacTxdUsed ||| emacTxdWrap
      else if i < dev.usTxListSize then emacTxdUsed else s.status i
    queue := 0 }

/-- The driver after its initialisation, and after the handler has given up the ring. -/
def State.restart (dev : Device) (s : State) : State :=
  { s.reset dev with enabled := true, retryLimit := false }

theorem runs_resetDescriptors {pTxBuff : Nat} {slots : List Nat} {y : Except E Unit}
    (hs : s.going = false)
    (hruns : (emac halfDuplex).Runs (resetDescriptors pTxBuff slots) s y t) :
    y = .ok () ∧ t = s.resetSlots pTxBuff slots := by
  induction slots generalizing s with
  | nil =>
    rcases runs_ret.mp hruns with ⟨rfl, rfl⟩
    refine ⟨rfl, ?_⟩
    simp [State.resetSlots]
  | cons i rest ih =>
    rcases runs_op_stopped hs hruns with ⟨_, s₁, rfl, h₁⟩
    rcases runs_op_stopped (by exact hs) h₁ with ⟨_, s₂, rfl, h₂⟩
    rcases ih (by exact hs) h₂ with ⟨rfl, rfl⟩
    refine ⟨rfl, ?_⟩
    simp only [State.resetSlots, State.mk.injEq, true_and, and_true]
    constructor
    · funext j
      by_cases hj : j = i <;> by_cases hr : j ∈ rest <;> simp [hj, hr]
    · funext j
      by_cases hj : j = i <;> by_cases hr : j ∈ rest <;> simp [hj, hr]

theorem runs_emacResetTxMem {y : Except E Unit} (hs : s.going = false)
    (hruns : (emac halfDuplex).Runs (emacResetTxMem dev) s y t) : y = .ok () ∧ t = s.reset dev := by
  have hpos := dev.pos
  rcases runs_op_stopped hs hruns with ⟨_, s₁, rfl, h₁⟩
  rw [Bool.and_false] at h₁
  rcases runs_op_stopped rfl h₁ with ⟨_, s₂, rfl, h₂⟩
  rcases runs_op_stopped rfl h₂ with ⟨_, s₃, rfl, h₃⟩
  rcases Runs.of_bind_value (fun _ _ h => runs_resetDescriptors rfl h) h₃ with ⟨s₄, rfl, h₄⟩
  rcases runs_op_stopped (by exact rfl) h₄ with ⟨_, s₅, rfl, h₅⟩
  rcases runs_call.mp h₅ with ⟨s₆, _, s₇, hm, rfl, h₆⟩
  rcases runs_ret.mp h₆ with ⟨rfl, rfl⟩
  have hsame := eq_of_stopped (by rfl) hm
  rw [hsame]
  refine ⟨rfl, ?_⟩
  simp only [State.reset, State.resetSlots, State.mk.injEq, List.mem_range, true_and, and_true]
  funext i
  by_cases hi : i = dev.usTxListSize - 1
  · rw [hi, Function.update_self, if_pos rfl]
  · rw [Function.update_of_ne hi, if_neg hi]

/-- An empty ring, with nothing on the wire yet. -/
theorem idle_restart (hwire : s.wire = []) (hcalls : s.txCalls = []) :
    Idle dev enabled [] 0 (s.restart dev) := by
  have hone := dev.one_lt
  have hlen : s.wire.length = 0 := by rw [hwire, List.length_nil]
  have hused : isUsed emacTxdUsed = true ∧ isUsed (emacTxdUsed ||| emacTxdWrap) = true := by
    decide
  have hwrap : isWrap emacTxdUsed = false ∧ isWrap (emacTxdUsed ||| emacTxdWrap) = true := by
    decide
  refine ⟨⟨⟨⟨rfl, rfl, ?_, Nat.zero_le _, ?_, ?_, ?_, ?_, ?_, ?_, ?_, ?_⟩, ?_, rfl, Nat.zero_le _,
    fun _ => rfl, le_refl _, le_refl _⟩, ?_⟩, ?_, .inr hlen⟩
  · rw [List.take_nil, List.map_nil]
    exact hwire
  · rw [List.length_nil]
    omega
  · change 0 = s.wire.length % _
    rw [hlen, Nat.zero_mod]
  · intro i hi
    exact if_pos hi
  · intro i hi
    change isWrap (if i = dev.usTxListSize - 1 then _ else if i < dev.usTxListSize then _ else _) = _
    by_cases hlast : i = dev.usTxListSize - 1
    · rw [if_pos hlast, hwrap.2, hlast, beq_self_eq_true]
    · rw [if_neg hlast, if_pos hi, hwrap.1, beq_eq_false_iff_ne.mpr hlast]
  · intro j _ _
    change isUsed (if _ = dev.usTxListSize - 1 then _ else if _ < dev.usTxListSize then _ else _)
      = false ↔ _
    rw [if_pos (dev.slot_lt j)]
    have hall : isUsed (if j % dev.usTxListSize = dev.usTxListSize - 1 then
        emacTxdUsed ||| emacTxdWrap else emacTxdUsed) = true := by
      split
      · exact hused.2
      · exact hused.1
    rw [hall]
    simp
  · intro j e he
    simp at he
  · intro j e he
    simp at he
  · intro e he
    simp at he
  · rfl
  · intro
    change s.txCalls.map Prod.fst = _
    rw [hcalls]
    rfl
  · rfl

/-! ## Initialisation -/

/-- The transmit part of `emac_init_mem`. -/
def emacInitTxMem (dev : Device) : TxProg E Unit := do
  emacResetTxMem dev
  emacEnableTransmit true

/-- The transmitter as `emac_dev_init` finds it: it has cleared the control register and the
status registers. -/
structure Quiet (s : State) : Prop where
  stopped : s.going = false
  retryLimit : s.retryLimit = false
  wire : s.wire = []
  txCalls : s.txCalls = []

theorem Quiet.runs_emacInitTxMem {y : Except E Unit} (hs : Quiet s)
    (hruns : (emac halfDuplex).Runs (emacInitTxMem dev) s y t) :
    y = .ok () ∧ Idle dev enabled [] 0 t := by
  rcases Runs.of_bind_value (fun _ _ h => runs_emacResetTxMem hs.stopped h) hruns with
    ⟨s₁, rfl, h₁⟩
  rcases runs_call.mp h₁ with ⟨s₂, _, s₃, hm, rfl, h₂⟩
  rcases runs_ret.mp h₂ with ⟨rfl, rfl⟩
  have hrestart : ({ s.reset dev with enabled := true } : State) = s.restart dev := by
    simp only [State.restart, State.mk.injEq, true_and, and_true]
    exact hs.retryLimit
  rw [eq_of_stopped rfl hm]
  change _ ∧ Idle dev enabled [] 0 ({ s.reset dev with enabled := true } : State)
  rw [hrestart]
  exact ⟨rfl, idle_restart hs.wire hs.txCalls⟩

/-- The transmitter of the firmware: eight descriptors. -/
def eight : Device := ⟨8, 0x20070000, by decide, by decide⟩

/-- The memory of a driver that has not run yet. -/
def cleared : State :=
  ⟨0, 0, fun _ => 0, fun _ => 0, fun _ => none, fun _ => 0, none, none, 0, false, false, 0, false,
    [], [], 0⟩

theorem quiet_cleared : Quiet cleared := ⟨rfl, rfl, rfl, rfl⟩

/-- The driver after its initialisation. -/
def initialised (dev : Device) : State :=
  (Prog.run State.respond (emacInitTxMem dev : TxProg Fault Unit) cleared).2

theorem runs_initialised (dev : Device) :
    (emac false).Runs (emacInitTxMem dev : TxProg Fault Unit) cleared
      (Prog.run State.respond (emacInitTxMem dev : TxProg Fault Unit) cleared).1 (initialised dev) :=
  runs_respond_alone false _ cleared

theorem idle_initialised (dev : Device) (enabled : State → Prop) :
    Idle dev enabled [] 0 (initialised dev) :=
  (quiet_cleared.runs_emacInitTxMem (runs_initialised dev)).2

end EmacDriver
