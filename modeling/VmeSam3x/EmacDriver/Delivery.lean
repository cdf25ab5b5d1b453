import VmeSam3x.EmacDriver.Reception

/-! # From the descriptors to the stack

`emac_reset_rx_mem` sets up the descriptors, and `ethernetif_input` runs for ever behind it. The
stack is given the received frames in their order, each one whole and at most once; a frame is
left out only when the pool has no buffers for it, and that is counted.
-/

namespace EmacDriver

open Interact Machine Bytes Ethernet

variable {dev : RxDevice} {fuel rounds n : Nat} {s t : RxState} {q q' u : Inbox} {E α : Type}

/-! ## Initialisation -/

/-- The receiver as `emac_dev_init` finds it: switched off, and nothing has come in. -/
structure RxQuiet (s : RxState) : Prop where
  enabled : s.enabled = false
  current : s.current = none
  pieces : s.pieces = []
  received : s.received = []
  inputs : s.inputs = []
  stats : s.stats .memerr = 0

theorem eq_of_disabled (hs : s.enabled = false) (hm : (emacRx false).Moves s t) : t = s := by
  rcases Relation.ReflTransGen.cases_head hm with heq | ⟨s', hstep, -⟩
  · exact heq.symm
  · exfalso
    cases hstep with
    | fill hon => exact Bool.noConfusion (hs.symm.trans hon)
    | abandon hlossy => cases hlossy

theorem runs_op_disabled {o : RxOp} {f : Rx.Res o → RxProg E α} {x : Except E α}
    (hs : s.enabled = false)
    (hruns : (emacRx false).Runs (Prog.perform (S := Rx) o >>= f) s x t) :
    ∃ r s', s.Answers o r s' ∧ (emacRx false).Runs (f r) s' x t := by
  rcases runs_perform_bind.mp hruns with ⟨s₁, r, s₂, hm, ha, h₁⟩
  rw [eq_of_disabled hs hm] at ha
  exact ⟨r, s₂, ha, h₁⟩

/-- The address word of a descriptor after the reset. -/
def resetAddr (pRxBuff i : Nat) : U32 :=
  BitVec.ofNat 32 (pRxBuff + i * emacRxUnitsize) &&& emacRxdAddrMask

/-- The descriptors of the slots in `slots`, set up. -/
def RxState.resetSlots (s : RxState) (pRxBuff : Nat) (slots : List Nat) : RxState :=
  { s with
    addr := fun i => if i ∈ slots then resetAddr pRxBuff i else s.addr i
    status := fun i => if i ∈ slots then 0 else s.status i }

theorem runs_resetRxDescriptors {pRxBuff : Nat} {slots : List Nat} {y : Except E Unit}
    (hs : s.enabled = false)
    (hruns : (emacRx false).Runs (resetRxDescriptors pRxBuff slots) s y t) :
    y = .ok () ∧ t = s.resetSlots pRxBuff slots := by
  induction slots generalizing s with
  | nil =>
    rcases runs_ret.mp hruns with ⟨rfl, rfl⟩
    refine ⟨rfl, ?_⟩
    simp [RxState.resetSlots]
  | cons i rest ih =>
    rcases runs_op_disabled hs hruns with ⟨_, s₁, rfl, h₁⟩
    rcases runs_op_disabled (by exact hs) h₁ with ⟨_, s₂, rfl, h₂⟩
    rcases ih (by exact hs) h₂ with ⟨rfl, rfl⟩
    refine ⟨rfl, ?_⟩
    simp only [RxState.resetSlots, RxState.mk.injEq, true_and, and_true]
    constructor
    · funext j
      by_cases hj : j = i <;> by_cases hr : j ∈ rest <;> simp [hj, hr, resetAddr]
    · funext j
      by_cases hj : j = i <;> by_cases hr : j ∈ rest <;> simp [hj, hr]

/-- An aligned address survives the mask, and leaves the low bits to the flags. -/
theorem getLsbD_resetAddr {pRxBuff i k : Nat} (h8 : 8 ∣ pRxBuff) (hk : k < 32) :
    (resetAddr pRxBuff i).getLsbD k =
      (BitVec.ofNat 32 (pRxBuff + i * emacRxUnitsize)).getLsbD k := by
  rw [resetAddr, BitVec.getLsbD_and, getLsbD_emacRxdAddrMask hk]
  by_cases hlow : 2 ≤ k
  · rw [decide_eq_true hlow, Bool.and_true]
  · have h4 : pRxBuff + i * emacRxUnitsize = 2 ^ 2 * ((pRxBuff + i * emacRxUnitsize) / 4) := by
      unfold emacRxUnitsize
      omega
    rw [decide_eq_false hlow, Bool.and_false, BitVec.getLsbD_ofNat, h4, Nat.testBit_two_pow_mul,
      decide_eq_false hlow, Bool.false_and, Bool.and_false]

theorem resetAddr_flags (pRxBuff i : Nat) {k : Nat} (hk : k < 2) :
    (resetAddr pRxBuff i).getLsbD k = false := by
  rw [resetAddr, BitVec.getLsbD_and, getLsbD_emacRxdAddrMask (by omega),
    decide_eq_false (by omega), Bool.and_false]

theorem bufferOf_resetAddr {pRxBuff i : Nat} (h8 : 8 ∣ pRxBuff)
    (hlt : pRxBuff + i * emacRxUnitsize < 2 ^ 32) :
    bufferOf (resetAddr pRxBuff i) = pRxBuff + i * emacRxUnitsize := by
  have heq : resetAddr pRxBuff i &&& emacRxdAddrMask =
      BitVec.ofNat 32 (pRxBuff + i * emacRxUnitsize) := by
    apply BitVec.eq_of_getLsbD_eq
    intro k hk
    rw [← getLsbD_resetAddr h8 hk, BitVec.getLsbD_and, getLsbD_emacRxdAddrMask hk]
    by_cases hlow : 2 ≤ k
    · rw [decide_eq_true hlow, Bool.and_true]
    · rw [resetAddr_flags pRxBuff i (by omega), Bool.false_and]
  rw [bufferOf, heq, BitVec.toNat_ofNat, Nat.mod_eq_of_lt hlt]

/-- The receiver after its initialisation. -/
def RxState.started (dev : RxDevice) (s : RxState) : RxState :=
  { s with
    enabled := true
    usRxIdx := 0
    addr := fun i =>
      if i = dev.usRxListSize - 1 then resetAddr dev.pRxBuffer i ||| emacRxdWrap
      else if i < dev.usRxListSize then resetAddr dev.pRxBuffer i else s.addr i
    status := fun i => if i < dev.usRxListSize then 0 else s.status i
    queue := 0 }

theorem runs_emacResetRxMem {y : Except E Unit} (hs : s.enabled = false)
    (hruns : (emacRx false).Runs (emacResetRxMem dev) s y t) :
    y = .ok () ∧ t = { s.started dev with enabled := false } := by
  have hpos := dev.pos
  rcases runs_op_disabled hs hruns with ⟨_, s₁, rfl, h₁⟩
  rcases runs_op_disabled rfl h₁ with ⟨_, s₂, rfl, h₂⟩
  rcases Runs.of_bind_value (fun _ _ h => runs_resetRxDescriptors rfl h) h₂ with ⟨s₃, rfl, h₃⟩
  rcases runs_op_disabled (by exact rfl) h₃ with ⟨_, s₄, ⟨rfl, rfl⟩, h₄⟩
  rcases runs_op_disabled (by exact rfl) h₄ with ⟨_, s₅, rfl, h₅⟩
  rcases runs_call.mp h₅ with ⟨s₆, _, s₇, hm, rfl, h₆⟩
  rcases runs_ret.mp h₆ with ⟨rfl, rfl⟩
  rw [eq_of_disabled (by rfl) hm]
  refine ⟨rfl, ?_⟩
  simp only [RxState.started, RxState.resetSlots, RxState.mk.injEq, List.mem_range, true_and,
    and_true]
  funext i
  by_cases hi : i = dev.usRxListSize - 1
  · rw [hi, Function.update_self, if_pos rfl, if_pos (by omega)]
  · rw [Function.update_of_ne hi, if_neg hi]

theorem isRxWrap_or (v : U32) : isRxWrap (v ||| emacRxdWrap) = true := by
  have hwrap : emacRxdWrap.getLsbD 1 = true := by decide
  rw [isRxWrap, BitVec.getLsbD_or, hwrap, Bool.or_true]

theorem isOwned_or (v : U32) : isOwned (v ||| emacRxdWrap) = isOwned v := by
  have hwrap : emacRxdWrap.getLsbD 0 = false := by decide
  rw [isOwned, BitVec.getLsbD_or, hwrap, Bool.or_false, isOwned]

theorem bufferOf_or (v : U32) : bufferOf (v ||| emacRxdWrap) = bufferOf v := by
  have hwrap : emacRxdWrap = BitVec.twoPow 32 1 := by decide
  apply bufferOf_congr
  intro i hi
  have hbit : (BitVec.twoPow 32 1).getLsbD i = false := by
    rw [BitVec.getLsbD_twoPow, decide_eq_false (show ¬ 1 = i by omega), Bool.and_false]
  rw [hwrap, BitVec.getLsbD_or, hbit, Bool.or_false]

/-- An empty inbox. -/
theorem RxQuiet.shows (hs : RxQuiet s) :
    Shows dev ⟨[], 0, [], s.stats⟩ (s.started dev) := by
  have hone := dev.one_lt
  have hlen : s.pieces.length = 0 := by rw [hs.pieces, List.length_nil]
  refine ⟨⟨⟨?_, ?_, ?_, ?_, ?_⟩, 0, ⟨rfl, ?_, Nat.zero_le _, ?_, ?_, ?_, ?_, ?_⟩, ?_, ?_, ?_, ?_⟩,
    hs.received.symm, hs.inputs.symm, rfl⟩
  · change s.current = upcoming s.pieces
    rw [hs.current, hs.pieces]
    rfl
  · change s.received = framesOf s.pieces
    rw [hs.received, hs.pieces]
    rfl
  · intro p hp
    change s.pieces[0]? = some p at hp
    rw [hs.pieces] at hp
    cases hp
  · intro j p q hp
    change s.pieces[j]? = some p at hp
    rw [hs.pieces] at hp
    cases hp
  · intro p hp
    change p ∈ s.pieces at hp
    rw [hs.pieces] at hp
    cases hp
  · change 0 = s.pieces.length % _
    rw [hlen, Nat.zero_mod]
  · change s.pieces.length ≤ _
    omega
  · intro i hi
    have hinside : dev.pRxBuffer + i * emacRxUnitsize < 2 ^ 32 := by
      have := dev.inside
      unfold emacRxUnitsize at *
      omega
    change bufferOf (if i = dev.usRxListSize - 1 then _ else if i < dev.usRxListSize then _ else _)
      = _
    rw [if_pos hi]
    split
    · rw [bufferOf_or, bufferOf_resetAddr dev.aligned hinside]
    · rw [bufferOf_resetAddr dev.aligned hinside]
  · intro i hi
    change isRxWrap (if i = dev.usRxListSize - 1 then _ else if i < dev.usRxListSize then _ else _)
      = _
    rw [if_pos hi]
    by_cases hlast : i = dev.usRxListSize - 1
    · rw [if_pos hlast, isRxWrap_or, hlast, beq_self_eq_true]
    · rw [if_neg hlast, isRxWrap, resetAddr_flags _ _ (by decide), beq_eq_false_iff_ne.mpr hlast]
  · intro j _ _
    have hslot := dev.slot_lt j
    change isOwned (if _ = dev.usRxListSize - 1 then _ else if _ < dev.usRxListSize then _ else _)
      = true ↔ j < s.pieces.length
    have hfree : isOwned (resetAddr dev.pRxBuffer (j % dev.usRxListSize)) = false :=
      resetAddr_flags _ _ (by decide)
    rw [if_pos hslot, hlen]
    split
    · rw [isOwned_or, hfree]
      exact iff_of_false Bool.false_ne_true (Nat.not_lt_zero j)
    · rw [hfree]
      exact iff_of_false Bool.false_ne_true (Nat.not_lt_zero j)
  · intro j p hp
    change s.pieces[j]? = some p at hp
    rw [hs.pieces] at hp
    cases hp
  · exact (Nat.zero_mod _).symm
  · exact Nat.zero_le _
  · rfl
  · intro j p hj
    omega

theorem RxQuiet.runs_emacInitRxMem (hs : RxQuiet s) {y : Except E Unit}
    (hruns : (emacRx false).Runs (emacInitRxMem dev) s y t) :
    y = .ok () ∧ Shows dev ⟨[], 0, [], s.stats⟩ t := by
  rcases Runs.of_bind_value (fun _ _ h => runs_emacResetRxMem hs.enabled h) hruns with
    ⟨s₁, rfl, h₁⟩
  rcases runs_call.mp h₁ with ⟨s₂, _, s₃, hm, rfl, h₂⟩
  rcases runs_ret.mp h₂ with ⟨rfl, rfl⟩
  rw [eq_of_disabled rfl hm]
  exact ⟨rfl, hs.shows⟩

/-! ## Reading until there is a frame -/

/-- Frames have come in, and nothing else has happened. -/
structure Inbox.Later (q q' : Inbox) : Prop where
  received : q.received <+: q'.received
  inputs : q'.inputs = q.inputs
  stats : q'.stats = q.stats
  short : (∀ f ∈ q.received, f.length ≤ maxFrame) → ∀ f ∈ q'.received, f.length ≤ maxFrame

theorem Inbox.Later.refl (q : Inbox) : q.Later q := ⟨List.prefix_rfl, rfl, rfl, id⟩

theorem Inbox.Later.trans (h₁ : q.Later q') (h₂ : q'.Later u) : q.Later u where
  received := h₁.received.trans h₂.received
  inputs := h₂.inputs.trans h₁.inputs
  stats := h₂.stats.trans h₁.stats
  short := h₂.short ∘ h₁.short

theorem Inbox.later_of_moves (hm : rxInbox.Moves q q') : q.Later q' ∧ q'.taken = q.taken := by
  induction hm with
  | refl => exact ⟨.refl q, rfl⟩
  | tail _ hstep ih =>
    rcases ih with ⟨hl, htaken⟩
    cases hstep with
    | receive hmax =>
      refine ⟨⟨hl.received.trans (List.prefix_append _ _), hl.inputs, hl.stats, ?_⟩, htaken⟩
      intro hq f hf
      rcases List.mem_append.mp hf with hold | hnew
      · exact hl.short hq f hold
      · rw [List.mem_singleton.mp hnew]
        exact hmax

/-- The variables after a reading by a task that had taken `n` frames. -/
inductive Inbox.Read (q : Inbox) (n : Nat) (r : Reading) : Prop
  | none (hrc : r.rc = .rxNull) (hlen : r.pFrame.length = netRwBuffSize) (htaken : q.taken = n)
  | some (f : List U8) (hf : q.received[n]? = some f) (pFrame : List U8)
      (hret : Returns f netRwBuffSize pFrame r) (hlen : pFrame.length = netRwBuffSize)
      (htaken : q.taken = n + 1)

theorem Inbox.Read.length {r : Reading} (h : q.Read n r) : r.pFrame.length = netRwBuffSize := by
  cases h with
  | none hrc hlen htaken => exact hlen
  | some f hf pFrame hret hlen htaken => exact hret.length.trans hlen

theorem Inbox.Read.moves {r : Reading} (h : q.Read n r) (hm : rxInbox.Moves q q') :
    q'.Read n r := by
  rcases later_of_moves hm with ⟨hl, htaken'⟩
  cases h with
  | none hrc hlen htaken => exact .none hrc hlen (htaken'.trans htaken)
  | some f hf pFrame hret hlen htaken =>
    exact .some f (getElem?_of_grown hl.received hf) pFrame hret hlen (htaken'.trans htaken)

/-- How the reading of a frame ends: with a frame, or still waiting and nothing taken. -/
def Settled (n : Nat) (x : Except Ethernet.Fault Reading) (u : Inbox) : Prop :=
  (∃ r, x = .ok r ∧ r.rc ≠ .rxNull ∧ u.Read n r) ∨ x = .error .stillWaiting ∧ u.taken = n

/-- Nothing was taken, and nothing was given to the stack. -/
structure Inbox.Grown (q q' : Inbox) : Prop where
  received : q.received <+: q'.received
  short : (∀ f ∈ q.received, f.length ≤ maxFrame) → ∀ f ∈ q'.received, f.length ≤ maxFrame
  inputs : q'.inputs = q.inputs
  taken : q'.taken = q.taken

theorem Inbox.Grown.trans (h₁ : q.Grown q') (h₂ : q'.Grown u) : q.Grown u where
  received := h₁.received.trans h₂.received
  short := h₂.short ∘ h₁.short
  inputs := h₂.inputs.trans h₁.inputs
  taken := h₂.taken.trans h₁.taken

/-- The receiver of the firmware: sixteen descriptors. -/
def sixteen : RxDevice := ⟨16, 0x20071000, by decide, by decide, by decide, by decide⟩

/-- The memory of a receiver that has not run yet. -/
def rxCleared : RxState :=
  ⟨0, fun _ => 0, fun _ => 0, fun _ => 0, none, false, false, 0, none, [], [], [], fun _ => 0⟩

theorem rxQuiet_rxCleared : RxQuiet rxCleared := ⟨rfl, rfl, rfl, rfl, rfl, rfl⟩

/-- The receiver after its initialisation. -/
def rxStarted : RxState :=
  (Prog.run RxState.respond (emacInitRxMem sixteen : RxProg Ethernet.Fault Unit) rxCleared).2

end EmacDriver
