import VmeSam3x.SpiMaster.Shifter

/-! # Waiting for the serializer

What holds while the slave is selected and bytes are on their way: the bus is ahead of the
registers by these bytes. A poll ends when the status shows what it waits for, and otherwise not
before the SPI has been slow for `SPI_TIMEOUT` reads.
-/

namespace SpiMaster

open Interact Bytes Flash

variable {P : Slave} {latency : Nat} {q q' : Bus P} {s t : State P} {α : Type}

/-! ## Status words -/

theorem isTxReady_eq (sr : U32) : isTxReady sr = sr.getLsbD 1 := by
  have htdre : srTdre = BitVec.twoPow 32 1 := by decide
  rw [isTxReady, htdre, BitVec.and_twoPow]
  cases sr.getLsbD 1 <;> decide

theorem isTxEmpty_eq (sr : U32) : isTxEmpty sr = sr.getLsbD 9 := by
  have htxempty : srTxempty = BitVec.twoPow 32 9 := by decide
  rw [isTxEmpty, htxempty, BitVec.and_twoPow]
  cases sr.getLsbD 9 <;> decide

theorem isRxReady_eq (sr : U32) : isRxReady sr = (sr.getLsbD 0 && sr.getLsbD 9) := by
  have hrdrf : srRdrf = BitVec.twoPow 32 0 := by decide
  have htxempty : srTxempty = BitVec.twoPow 32 9 := by decide
  rw [isRxReady, BitVec.and_or_distrib_left, hrdrf, htxempty, BitVec.and_twoPow,
    BitVec.and_twoPow]
  cases sr.getLsbD 0 <;> cases sr.getLsbD 9 <;> decide

theorem State.idle_iff : s.idle = true ↔ s.tdr = none ∧ s.shifter = none := by
  rw [idle, Bool.and_eq_true, Option.isNone_iff_eq_none, Option.isNone_iff_eq_none]

theorem State.pending_of_idle (h : s.idle = true) : s.pending = [] := by
  rcases State.idle_iff.mp h with ⟨htdr, hshifter⟩
  rw [pending, htdr, hshifter]
  rfl

/-! ## A unit in operation -/

/-- The SPI is enabled, and set up for the slave. -/
structure Operates (s : State P) : Prop where
  enabled : s.enabled = true
  configured : s.Configured

/-- The slave is selected, and its line is low during a transfer. -/
structure Ready (s : State P) : Prop extends Operates s where
  selected : s.selected = true
  shifting : s.shifter.isSome = true → s.line = true

theorem Operates.configured_of (h : Operates s) (hmr : t.mr = s.mr) (hcsr : t.csr = s.csr) :
    t.Configured := by
  constructor
  · rw [hmr]
    exact h.configured.mode
  · rw [hcsr]
    exact h.configured.channel
  · rw [hcsr]
    exact h.configured.clock

/-- What the steps of the unit keep. -/
structure Keeps (s t : State P) : Prop where
  waited : t.waited = s.waited
  tdr : s.tdr = none → t.tdr = none

/-- The serializer of a unit in operation that has nothing to send rests. -/
theorem Operates.shifts (h : Operates s) (hidle : s.idle = true) (hstep : Shifts P s t) :
    ∃ u, P.move s.slave u ∧ t = { s with slave := u } := by
  rcases State.idle_iff.mp hidle with ⟨htdr, hshifter⟩
  cases hstep with
  | load _ hload _ =>
    rw [htdr] at hload
    cases hload
  | finish _ hfinish _ =>
    rw [hshifter] at hfinish
    cases hfinish
  | slave hu => exact ⟨_, hu, rfl⟩
  | undefined _ hnot => exact absurd h.configured hnot

/-- The steps of a unit with a selected slave. -/
theorem Ready.shifts (h : Ready s) (hstep : Shifts P s t) :
    Ready t ∧ Keeps s t ∧
      ((∃ b, s.tdr = some b ∧ s.shifter = none ∧ t.tdr = none ∧ t.shifter = some b ∧
          t.slave = s.slave ∧ t.line = true) ∨
        (∃ b r, s.shifter = some b ∧ P.sends s.slave r ∧ t.shifter = none ∧ t.tdr = s.tdr ∧
          t.slave = P.receive s.slave b ∧ t.line = true ∧ t.rdr = r ∧ t.rdrf = true) ∨
        ∃ u, P.move s.slave u ∧ t = { s with slave := u }) := by
  cases hstep with
  | @load b _ htdr hshifter =>
    have hload : s.load b = { s with line := true, tdr := none, shifter := some b } := by
      rw [State.load, if_pos h.selected]
    rw [hload]
    refine ⟨⟨⟨h.enabled, h.configured_of rfl rfl⟩, h.selected, fun _ => rfl⟩,
      ⟨rfl, fun _ => rfl⟩, .inl ⟨b, htdr, hshifter, rfl, rfl, rfl, rfl⟩⟩
  | @finish b r _ hshifter hr =>
    have hline : s.line = true := h.shifting (by rw [hshifter]; rfl)
    refine ⟨⟨⟨h.enabled, h.configured_of rfl rfl⟩, h.selected, fun hsome => nomatch hsome⟩,
      ⟨rfl, fun htdr => htdr⟩,
      .inr (.inl ⟨b, r, hshifter, hr hline, rfl, rfl, ?_, hline, rfl, rfl⟩)⟩
    change (if s.line then P.receive s.slave b else s.slave) = _
    rw [if_pos hline]
  | slave hu =>
    exact ⟨⟨⟨h.enabled, h.configured_of rfl rfl⟩, h.selected, h.shifting⟩, ⟨rfl, fun htdr => htdr⟩,
      .inr (.inr ⟨_, hu, rfl⟩)⟩
  | undefined _ hnot => exact absurd h.configured hnot

/-! ## Between packets -/

/-- Nothing is being sent: the bus is as the slave is. -/
structure Resting (q : Bus P) (s : State P) : Prop extends Operates s where
  idle : s.idle = true
  bus : q = ⟨s.slave, s.line⟩

/-- The slave is selected: on the bus it already has what is pending. -/
structure During (q : Bus P) (s : State P) : Prop extends Ready s where
  slave : q.slave = P.receiveAll s.slave s.pending
  line : q.line = (s.line || !s.pending.isEmpty)

theorem bus_moves {u : P.State} (h : P.Moves q.slave u) :
    (spiBus P latency).Moves q { q with slave := u } := by
  induction h with
  | refl => exact .refl
  | tail _ hstep ih => exact ih.tail (.slave hstep)

theorem slave_moves (h : (spiBus P latency).Moves q q') :
    P.Moves q.slave q'.slave ∧ q'.line = q.line := by
  induction h with
  | refl => exact ⟨.refl, rfl⟩
  | tail _ hstep ih =>
    cases hstep with
    | slave hu => exact ⟨ih.1.tail hu, ih.2⟩

theorem Resting.moves (h : Resting q s) (hm : (spiUnit P latency).Moves s t) :
    ∃ q', (spiBus P latency).Moves q q' ∧ Resting q' t ∧ t.line = s.line ∧ t.mr = s.mr := by
  induction hm with
  | refl => exact ⟨q, .refl, h, rfl, rfl⟩
  | @tail s₁ _ _ hstep ih =>
    rcases ih with ⟨q₁, hq₁, h₁, hline, hmr⟩
    rcases h₁.toOperates.shifts h₁.idle hstep with ⟨u, hu, rfl⟩
    refine ⟨⟨u, s₁.line⟩, hq₁.trans ?_, ?_, hline, hmr⟩
    · rw [h₁.bus]
      exact .single (.slave hu)
    · exact ⟨⟨h₁.enabled, h₁.toOperates.configured_of rfl rfl⟩, h₁.idle, rfl⟩

theorem During.shifts (latency : Nat) (h : During q s) (hstep : Shifts P s t) :
    ∃ q', (spiBus P latency).Moves q q' ∧ During q' t ∧ Keeps s t := by
  rcases h.toReady.shifts hstep with ⟨ht, hkeeps, hstep⟩
  rcases hstep with ⟨b, htdr, hshifter, htdr', hshifter', hslave, hline⟩ |
    ⟨b, r, hshifter, -, hshifter', htdr', hslave, hline, -, -⟩ | ⟨u, hu, rfl⟩
  · have hpending : t.pending = s.pending := by
      rw [State.pending, State.pending, htdr, hshifter, htdr', hshifter']
      rfl
    refine ⟨q, .refl, ⟨ht, ?_, ?_⟩, hkeeps⟩
    · rw [h.slave, hslave, hpending]
    · rw [h.line, hline, hpending, State.pending, htdr, hshifter]
      cases s.line <;> rfl
  · have hpending : s.pending = b :: t.pending := by
      rw [State.pending, State.pending, hshifter, htdr', hshifter']
      rfl
    refine ⟨q, .refl, ⟨ht, ?_, ?_⟩, hkeeps⟩
    · rw [h.slave, hslave, hpending]
      rfl
    · rw [h.line, hline, hpending]
      cases s.line <;> rfl
  · refine ⟨{ q with slave := P.receiveAll u s.pending }, bus_moves ?_, ⟨ht, rfl, h.line⟩, hkeeps⟩
    rw [h.slave]
    exact Slave.moves_receiveAll (.single hu) _

theorem During.moves (h : During q s) (hm : (spiUnit P latency).Moves s t) :
    ∃ q', (spiBus P latency).Moves q q' ∧ During q' t ∧ Keeps s t := by
  induction hm with
  | refl => exact ⟨q, .refl, h, rfl, fun htdr => htdr⟩
  | tail _ hstep ih =>
    rcases ih with ⟨q₁, hq₁, h₁, hk₁⟩
    rcases h₁.shifts latency hstep with ⟨q₂, hq₂, h₂, hk₂⟩
    exact ⟨q₂, hq₁.trans hq₂, h₂, hk₂.waited.trans hk₁.waited, fun htdr => hk₂.tdr (hk₁.tdr htdr)⟩

/-! ## A dummy on its way -/

/-- A dummy was put into the transmit register. Either it is the last of the pending bytes, or it
was exchanged and the receive register holds the answer. The bus has not seen it yet. -/
structure Awaiting (q : Bus P) (s : State P) : Prop extends Ready s where
  underWay : (∃ bytes, s.pending = bytes ++ [dummy] ∧ q.slave = P.receiveAll s.slave bytes) ∨
    s.idle = true ∧ s.rdrf = true ∧ s.line = true ∧
      ∃ u, P.Moves q.slave u ∧ P.sends u s.rdr ∧ P.Moves (P.receive u dummy) s.slave

theorem Awaiting.shifts (latency : Nat) (h : Awaiting q s) (hstep : Shifts P s t) :
    ∃ q', (spiBus P latency).Moves q q' ∧ Awaiting q' t ∧ t.waited = s.waited := by
  rcases h.underWay with ⟨bytes, hbytes, hslave⟩ | ⟨hidle, hrdrf, hline, u, hu, hsends, hlater⟩
  · rcases h.toReady.shifts hstep with ⟨ht, hkeeps, hstep⟩
    rcases hstep with ⟨b, htdr, hshifter, htdr', hshifter', hsame, -⟩ |
      ⟨b, r, hshifter, hr, hshifter', htdr', hreceive, hline, hrdr, hrdrf⟩ | ⟨v, hv, rfl⟩
    · refine ⟨q, .refl, ⟨ht, .inl ⟨bytes, ?_, ?_⟩⟩, hkeeps.waited⟩
      · rw [← hbytes, State.pending, State.pending, htdr, hshifter, htdr', hshifter']
        rfl
      · rw [hslave, hsame]
    · have hpending : b :: t.pending = bytes ++ [dummy] := by
        rw [← hbytes, State.pending, State.pending, hshifter, htdr', hshifter']
        rfl
      cases bytes with
      | nil =>
        -- the dummy itself has been exchanged
        injection hpending with hb hrest
        subst hb
        have htdr : t.tdr = none := by
          rw [State.pending, hshifter'] at hrest
          exact Option.toList_eq_nil_iff.mp hrest
        refine ⟨q, .refl, ⟨ht, .inr ⟨State.idle_iff.mpr ⟨htdr, hshifter'⟩, hrdrf, hline, s.slave,
          ?_, ?_, ?_⟩⟩, hkeeps.waited⟩
        · rw [hslave]
          exact .refl
        · rw [hrdr]
          exact hr
        · rw [hreceive]
      | cons b' bytes =>
        injection hpending with hb hrest
        subst hb
        refine ⟨q, .refl, ⟨ht, .inl ⟨bytes, hrest, ?_⟩⟩, hkeeps.waited⟩
        rw [hslave, hreceive]
        rfl
    · refine ⟨{ q with slave := P.receiveAll v bytes }, bus_moves ?_,
        ⟨ht, .inl ⟨bytes, hbytes, rfl⟩⟩, hkeeps.waited⟩
      rw [hslave]
      exact Slave.moves_receiveAll (.single hv) _
  · rcases h.toOperates.shifts hidle hstep with ⟨v, hv, rfl⟩
    exact ⟨q, .refl, ⟨⟨⟨h.enabled, h.configured_of rfl rfl⟩, h.selected, h.shifting⟩,
      .inr ⟨hidle, hrdrf, hline, u, hu, hsends, hlater.tail hv⟩⟩, rfl⟩

theorem Awaiting.moves (h : Awaiting q s) (hm : (spiUnit P latency).Moves s t) :
    ∃ q', (spiBus P latency).Moves q q' ∧ Awaiting q' t ∧ t.waited = s.waited := by
  induction hm with
  | refl => exact ⟨q, .refl, h, rfl⟩
  | tail _ hstep ih =>
    rcases ih with ⟨q₁, hq₁, h₁, hw₁⟩
    rcases h₁.shifts latency hstep with ⟨q₂, hq₂, h₂, hw₂⟩
    exact ⟨q₂, hq₁.trans hq₂, h₂, hw₂.trans hw₁⟩

/-! ## Polls -/

/-- A poll of the status, under an invariant of the unit and the bus: it ends with a status word
that is as wanted, or the SPI is slow. -/
theorem runs_poll {I : Bus P → State P → Prop} {ready : U32 → Bool}
    (hmoves : ∀ q s s', I q s → (spiUnit P latency).Moves s s' →
      ∃ q', (spiBus P latency).Moves q q' ∧ I q' s' ∧ s'.waited = s.waited)
    (hread : ∀ q s sr s', I q s → StatusRead latency s sr s' →
      I q s' ∧ (ready sr = false → s.waited < latency))
    {timeout : Nat} {x : Except Fault Bool} (h : I q s)
    (hruns : (spiUnit P latency).Runs (poll ready timeout) s x t) :
    ∃ b q', x = .ok b ∧ (spiBus P latency).Moves q q' ∧ I q' t ∧
      (b = true → ∃ s' sr, I q' s' ∧ StatusRead latency s' sr t ∧ ready sr = true) ∧
      (b = false → timeout + s.waited < latency) := by
  induction timeout generalizing q s with
  | zero =>
    rcases Machine.runs_perform_bind.mp hruns with ⟨s₁, sr, s₂, hm, ha, h₁⟩
    rcases Machine.runs_ret.mp h₁ with ⟨rfl, rfl⟩
    rcases hmoves q s s₁ h hm with ⟨q', hq, hI, hw⟩
    rcases hread q' s₁ sr t hI ha with ⟨hI', hlate⟩
    refine ⟨_, q', rfl, hq, hI', fun hb => ⟨s₁, sr, hI, ha, hb⟩, fun hb => ?_⟩
    rw [Nat.zero_add, ← hw]
    exact hlate hb
  | succ timeout ih =>
    rcases Machine.runs_perform_bind.mp hruns with ⟨s₁, sr, s₂, hm, ha, h₁⟩
    rcases hmoves q s s₁ h hm with ⟨q₁, hq, hI, hw⟩
    rcases hread q₁ s₁ sr s₂ hI ha with ⟨hI', hlate⟩
    cases hready : ready sr with
    | true =>
      rw [if_pos hready] at h₁
      rcases Machine.runs_ret.mp h₁ with ⟨rfl, rfl⟩
      exact ⟨true, q₁, rfl, hq, hI', fun _ => ⟨s₁, sr, hI, ha, hready⟩, fun hb => nomatch hb⟩
    | false =>
      rw [if_neg (by rw [hready]; exact Bool.false_ne_true)] at h₁
      rcases ih hI' h₁ with ⟨b, q', hx, hq', hIt, htrue, hfalse⟩
      refine ⟨b, q', hx, hq.trans hq', hIt, htrue, fun hb => ?_⟩
      have hcount := hfalse hb
      rw [ha.next] at hcount
      change timeout + (s₁.waited + 1) < latency at hcount
      omega

theorem StatusRead.late' {sr : U32} (hr : StatusRead latency s sr t) (h : Operates s) :
    s.idle = false → s.waited < latency := by
  intro hidle
  rcases hr.late h.enabled h.configured with hlate | hidle'
  · exact hlate
  · rw [hidle] at hidle'
    cases hidle'

theorem Ready.waited (h : Ready s) (n : Nat) : Ready { s with waited := n } :=
  ⟨⟨h.enabled, h.configured_of rfl rfl⟩, h.selected, h.shifting⟩

/-- The wait for the transmit register. -/
theorem During.runs_pollTx {x : Except Fault Bool} (h : During q s)
    (hruns : (spiUnit P latency).Runs (poll isTxReady spiTimeout) s x t) :
    ∃ b q', x = .ok b ∧ (spiBus P latency).Moves q q' ∧ During q' t ∧
      (b = true → t.tdr = none) ∧ (b = false → spiTimeout < latency) := by
  have hmoves : ∀ (q : Bus P) s s', During q s → (spiUnit P latency).Moves s s' →
      ∃ q', (spiBus P latency).Moves q q' ∧ During q' s' ∧ s'.waited = s.waited := by
    intro q s s' h hm
    rcases h.moves hm with ⟨q', hq, h', hk⟩
    exact ⟨q', hq, h', hk.waited⟩
  have hread : ∀ (q : Bus P) s sr s', During q s → StatusRead latency s sr s' →
      During q s' ∧ (isTxReady sr = false → s.waited < latency) := by
    intro q s sr s' h hr
    constructor
    · rw [hr.next]
      exact ⟨h.toReady.waited _, h.slave, h.line⟩
    · intro hnot
      apply hr.late' h.toOperates
      rw [isTxReady_eq, hr.tdre] at hnot
      rw [State.idle, hnot, Bool.false_and]
  rcases runs_poll hmoves hread h hruns with ⟨b, q', hx, hq, h', htrue, hfalse⟩
  refine ⟨b, q', hx, hq, h', fun hb => ?_, fun hb => (Nat.le_add_right _ _).trans_lt (hfalse hb)⟩
  rcases htrue hb with ⟨s', sr, -, hr, hready⟩
  rw [isTxReady_eq, hr.tdre] at hready
  rw [hr.next]
  exact Option.isNone_iff_eq_none.mp hready

/-- The wait for the answer to a dummy. -/
theorem Awaiting.runs_pollRx {x : Except Fault Bool} (h : Awaiting q s)
    (hruns : (spiUnit P latency).Runs (poll isRxReady spiTimeout) s x t) :
    ∃ b q', x = .ok b ∧ (spiBus P latency).Moves q q' ∧ Awaiting q' t ∧
      (b = true → t.idle = true) ∧ (b = false → spiTimeout < latency) := by
  have hread : ∀ (q : Bus P) s sr s', Awaiting q s → StatusRead latency s sr s' →
      Awaiting q s' ∧ (isRxReady sr = false → s.waited < latency) := by
    intro q s sr s' h hr
    constructor
    · rw [hr.next]
      exact ⟨h.toReady.waited _, h.underWay⟩
    · intro hnot
      apply hr.late' h.toOperates
      rw [isRxReady_eq, hr.rdrf, hr.txempty] at hnot
      rcases h.underWay with ⟨bytes, hbytes, -⟩ | ⟨hidle, hrdrf, -⟩
      · -- something is pending
        cases hidle : s.idle with
        | false => rfl
        | true =>
          rw [State.pending_of_idle hidle] at hbytes
          exact absurd hbytes (List.append_ne_nil_of_right_ne_nil _ (List.cons_ne_nil _ _)).symm
      · rw [hidle, hrdrf] at hnot
        cases hnot
  rcases runs_poll (fun _ _ _ h hm => h.moves hm) hread h hruns with
    ⟨b, q', hx, hq, h', htrue, hfalse⟩
  refine ⟨b, q', hx, hq, h', fun hb => ?_, fun hb => (Nat.le_add_right _ _).trans_lt (hfalse hb)⟩
  rcases htrue hb with ⟨s', sr, -, hr, hready⟩
  rw [isRxReady_eq, Bool.and_eq_true, hr.txempty] at hready
  rw [hr.next]
  exact hready.2

/-- The wait before a deselect, with rounds enough: everything has been sent then. -/
theorem During.runs_waitTxEmpty {rounds : Nat} {x : Except Fault Unit} (h : During q s)
    (hpos : 0 < rounds) (hrounds : latency < rounds + s.waited)
    (hruns : (spiUnit P latency).Runs (waitTxEmpty rounds) s x t) :
    ∃ q', x = .ok () ∧ (spiBus P latency).Moves q q' ∧ During q' t ∧ t.idle = true := by
  induction rounds generalizing q s with
  | zero => exact absurd hpos (Nat.lt_irrefl 0)
  | succ rounds ih =>
    rcases Machine.runs_perform_bind.mp hruns with ⟨s₁, sr, s₂, hm, hr, h₁⟩
    rcases h.moves hm with ⟨q₁, hq, hI, hk⟩
    have h₂ : During q₁ s₂ := by
      rw [hr.next]
      exact ⟨hI.toReady.waited _, hI.slave, hI.line⟩
    cases hready : isTxEmpty sr with
    | true =>
      rw [if_pos hready] at h₁
      rcases Machine.runs_ret.mp h₁ with ⟨rfl, rfl⟩
      refine ⟨q₁, rfl, hq, h₂, ?_⟩
      rw [isTxEmpty_eq, hr.txempty] at hready
      rw [hr.next]
      exact hready
    | false =>
      rw [if_neg (by rw [hready]; exact Bool.false_ne_true)] at h₁
      rw [isTxEmpty_eq, hr.txempty] at hready
      have hlate := hr.late' hI.toOperates hready
      have hw := hk.waited
      have hnext : s₂.waited = s₁.waited + 1 := by rw [hr.next]
      rcases ih h₂ (by omega) (by omega) h₁ with ⟨q', hx, hq', h', hidle⟩
      exact ⟨q', hx, hq.trans hq', h', hidle⟩

end SpiMaster
