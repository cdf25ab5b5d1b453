import VmeSam3x.SpiMaster.Waiting

/-! # The packets of the driver

A packet that is written leaves the receive register full and may still be on its way when the
driver returns. Reading waits until the serializer is empty as well, so that what it takes from the
register is the answer to its own dummy; and the line is not raised before everything has been
sent. So the driver makes the bus out of the registers, whatever the slave is and however it is
interleaved with the serializer.
-/

namespace SpiMaster

open Interact Bytes Flash

variable {P : Slave} {latency rounds : Nat} {q q' : Bus P} {s t : State P} {α : Type}

/-! ## The bus -/

@[simp] theorem Bus.send_nil (q : Bus P) : q.send [] = q := by
  rw [send, List.isEmpty_nil, Bool.not_true, Bool.or_false]
  rfl

theorem Bus.send_append (q : Bus P) (xs ys : List U8) :
    (q.send xs).send ys = q.send (xs ++ ys) := by
  unfold send Slave.receiveAll
  rw [List.foldl_append]
  congr 1
  cases xs <;> cases ys <;> simp

theorem Bus.send_moves (h : (spiBus P latency).Moves q q') (bytes : List U8) :
    (spiBus P latency).Moves (q.send bytes) (q'.send bytes) := by
  rcases slave_moves h with ⟨hslave, hline⟩
  have hm : (spiBus P latency).Moves (q.send bytes) _ :=
    bus_moves (Slave.moves_receiveAll hslave bytes)
  have heq : q'.send bytes = { q.send bytes with slave := P.receiveAll q'.slave bytes } := by
    rw [Bus.send, Bus.send, hline]
  rw [heq]
  exact hm

/-- A byte in front of a packet, with moves of the slave before it. -/
theorem Bus.Wrote.cons {b : U8} {rest : List U8} {r : Status} {q₁ q₂ : Bus P}
    (hm : (spiBus P latency).Moves q q₁) (h : (q₁.send [b]).Wrote latency rest r q₂) :
    ∃ q', q.Wrote latency (b :: rest) r q' ∧ (spiBus P latency).Moves q' q₂ := by
  rcases h with ⟨hr, rfl⟩ | ⟨hslow, hr, n, hn, rfl⟩
  · refine ⟨q.send (b :: rest), .inl ⟨hr, rfl⟩, ?_⟩
    rw [Bus.send_append]
    exact Bus.send_moves hm _
  · refine ⟨q.send (b :: rest.take n), .inr ⟨hslow, hr, n + 1, ?_, rfl⟩, ?_⟩
    · exact Nat.succ_lt_succ hn
    · rw [Bus.send_append]
      exact Bus.send_moves hm _

/-- An answer in front of those of a packet. -/
theorem Bus.Read.cons {len : Nat} {r : ReadResult len} {val : U8} {u v : P.State} {q₂ : Bus P}
    (hu : P.Moves q.slave u) (hval : P.sends u val) (hv : P.Moves (P.receive u dummy) v)
    (h : Bus.Read latency ⟨v, true⟩ len r q₂) :
    q.Read latency (len + 1) (readCons val r) q₂ := by
  rcases h with ⟨hr, hreads, hline⟩ | ⟨hslow, hr, hlen, w, hreads, hq₂⟩
  · refine .inl ⟨hr, .cons hu hval (hreads.head hv), ?_⟩
    rw [hline]
    simp
  · refine .inr ⟨hslow, hr, Nat.succ_lt_succ hlen, w, .cons hu hval (hreads.head hv), ?_⟩
    rcases hq₂ with rfl | rfl
    · left
      change (⟨w, true⟩ : Bus P) = ⟨w, q.line || true⟩
      rw [Bool.or_true]
    · exact .inr rfl

/-! ## Writing -/

/-- A byte goes into the transmit register. -/
theorem During.put (h : During q s) (htdr : s.tdr = none) (b : U8) :
    During (q.send [b]) { s with tdr := some ((b.setWidth 32).setWidth 8), waited := 0 } := by
  have hb : (b.setWidth 32).setWidth 8 = b := by
    rw [BitVec.setWidth_setWidth_of_le _ (by decide), BitVec.setWidth_eq]
  have hpending : s.pending = s.shifter.toList := by
    rw [State.pending, htdr]
    exact List.append_nil _
  rw [hb]
  refine ⟨⟨⟨h.enabled, h.configured_of rfl rfl⟩, h.selected, h.shifting⟩, ?_, ?_⟩
  · change P.receive q.slave b = P.receiveAll s.slave (s.shifter.toList ++ [b])
    rw [h.slave, hpending, Slave.receiveAll, Slave.receiveAll, List.foldl_append]
    rfl
  · change (q.line || true) = (s.line || !(s.shifter.toList ++ [b]).isEmpty)
    simp

/-- A program that begins with the wait for the transmit register. -/
theorem During.pollTx_bind {f : Bool → SpiProg α} {x : Except Fault α} (h : During q s)
    (hruns : (spiUnit P latency).Runs (poll isTxReady spiTimeout >>= f) s x t) :
    ∃ b q' s', (spiBus P latency).Moves q q' ∧ During q' s' ∧ (b = true → s'.tdr = none) ∧
      (b = false → spiTimeout < latency) ∧ (spiUnit P latency).Runs (f b) s' x t := by
  rcases hruns.of_bind with ⟨b, s', h₁, h₂⟩ | ⟨e, -, h₁⟩
  · rcases h.runs_pollTx h₁ with ⟨b', q', heq, hq, h', htdr, hslow⟩
    cases heq
    exact ⟨b, q', s', hq, h', htdr, hslow, h₂⟩
  · rcases h.runs_pollTx h₁ with ⟨b', q', heq, -⟩
    cases heq

/-- A program that begins with the wait for an answer. -/
theorem Awaiting.pollRx_bind {f : Bool → SpiProg α} {x : Except Fault α} (h : Awaiting q s)
    (hruns : (spiUnit P latency).Runs (poll isRxReady spiTimeout >>= f) s x t) :
    ∃ b q' s', (spiBus P latency).Moves q q' ∧ Awaiting q' s' ∧ (b = true → s'.idle = true) ∧
      (b = false → spiTimeout < latency) ∧ (spiUnit P latency).Runs (f b) s' x t := by
  rcases hruns.of_bind with ⟨b, s', h₁, h₂⟩ | ⟨e, -, h₁⟩
  · rcases h.runs_pollRx h₁ with ⟨b', q', heq, hq, h', hidle, hslow⟩
    cases heq
    exact ⟨b, q', s', hq, h', hidle, hslow, h₂⟩
  · rcases h.runs_pollRx h₁ with ⟨b', q', heq, -⟩
    cases heq

theorem During.runs_writePacket {data : List U8} {x : Except Fault Status} (h : During q s)
    (hruns : (spiUnit P latency).Runs (spiWritePacket data) s x t) :
    ∃ r q₁ q', x = .ok r ∧ q.Wrote latency data r q₁ ∧ (spiBus P latency).Moves q₁ q' ∧
      During q' t := by
  induction data generalizing q s with
  | nil =>
    rcases Machine.runs_ret.mp hruns with ⟨rfl, rfl⟩
    exact ⟨success, q, q, rfl, .inl ⟨rfl, q.send_nil.symm⟩, .refl, h⟩
  | cons b rest ih =>
    rcases h.pollTx_bind hruns with ⟨b', q₁, s₁, hq₁, h₁, htdr, hslow, hr₁⟩
    cases b' with
    | false =>
      rcases Machine.runs_ret.mp hr₁ with ⟨rfl, rfl⟩
      refine ⟨errTimeout, q, q₁, rfl, .inr ⟨hslow rfl, rfl, 0, Nat.succ_pos _, ?_⟩, hq₁, h₁⟩
      exact q.send_nil.symm
    | true =>
      rcases Machine.runs_perform_bind.mp hr₁ with ⟨s₂, _, s₃, hm, rfl, hr₂⟩
      rcases h₁.moves hm with ⟨q₂, hq₂, h₂, hk⟩
      rcases ih (h₂.put (hk.tdr (htdr rfl)) b) hr₂ with ⟨r, q₃, q', hx, hw, hq', h'⟩
      rcases hw.cons (hq₁.trans hq₂) with ⟨q₄, hw', hq₄⟩
      exact ⟨r, q₄, q', hx, hw', hq₄.trans hq', h'⟩

/-! ## Reading -/

/-- A dummy goes into the transmit register. -/
theorem During.putDummy (h : During q s) (htdr : s.tdr = none) :
    Awaiting q { s with tdr := some ((dummy.setWidth 32).setWidth 8), waited := 0 } := by
  have hpending : s.pending = s.shifter.toList := by
    rw [State.pending, htdr]
    exact List.append_nil _
  refine ⟨⟨⟨h.enabled, h.configured_of rfl rfl⟩, h.selected, h.shifting⟩,
    .inl ⟨s.shifter.toList, rfl, ?_⟩⟩
  rw [h.slave, hpending]

/-- A poll has given up on the answer: the dummy is on its way, or was exchanged. -/
theorem Awaiting.during (latency : Nat) (h : Awaiting q s) :
    ∃ u q', P.Moves q.slave u ∧ (spiBus P latency).Moves ⟨P.receive u dummy, true⟩ q' ∧
      During q' s := by
  rcases h.underWay with ⟨bytes, hbytes, hslave⟩ | ⟨hidle, -, hline, u, hu, -, hlater⟩
  · refine ⟨q.slave, _, .refl, .refl, h.toReady, ?_, ?_⟩
    · rw [hbytes, hslave, Slave.receiveAll, Slave.receiveAll, List.foldl_append]
      rfl
    · rw [hbytes]
      simp
  · have hpending := State.pending_of_idle hidle
    refine ⟨u, ⟨s.slave, true⟩, hu, bus_moves hlater, h.toReady, ?_, ?_⟩
    · rw [hpending]
      rfl
    · rw [hpending, hline]
      rfl

/-- What is in the receive register once the serializer is empty. -/
theorem Awaiting.answered (h : Awaiting q s) (hidle : s.idle = true) :
    (∃ u, P.Moves q.slave u ∧ P.sends u s.rdr ∧ P.Moves (P.receive u dummy) s.slave) ∧
      During ⟨s.slave, true⟩ { s with rdrf := false } := by
  have hpending := State.pending_of_idle hidle
  rcases h.underWay with ⟨bytes, hbytes, -⟩ | ⟨-, -, hline, u, hu, hsends, hlater⟩
  · rw [hpending] at hbytes
    exact absurd hbytes (List.append_ne_nil_of_right_ne_nil _ (List.cons_ne_nil _ _)).symm
  · refine ⟨⟨u, hu, hsends, hlater⟩, ⟨⟨h.enabled, h.configured_of rfl rfl⟩, h.selected,
      h.shifting⟩, ?_, ?_⟩
    · change s.slave = P.receiveAll s.slave s.pending
      rw [hpending]
      rfl
    · change true = (s.line || !s.pending.isEmpty)
      rw [hline]
      rfl

theorem Operates.idle_moves (h : Operates s) (hidle : s.idle = true)
    (hm : (spiUnit P latency).Moves s t) : t.idle = true := by
  have hboth : Operates t ∧ t.idle = true := by
    refine Machine.Moves.invariant (I := fun u : State P => Operates u ∧ u.idle = true) ?_ hm
      ⟨h, hidle⟩
    intro u u' hstep hu
    rcases hu.1.shifts hu.2 hstep with ⟨v, -, rfl⟩
    exact ⟨⟨hu.1.enabled, hu.1.configured_of rfl rfl⟩, hu.2⟩
  exact hboth.2

theorem During.runs_readPacket {len : Nat} {x : Except Fault (ReadResult len)} (h : During q s)
    (hruns : (spiUnit P latency).Runs (spiReadPacket len) s x t) :
    ∃ r q₁ q', x = .ok r ∧ q.Read latency len r q₁ ∧ (spiBus P latency).Moves q₁ q' ∧
      During q' t := by
  induction len generalizing q s t with
  | zero =>
    rcases Machine.runs_ret.mp hruns with ⟨rfl, rfl⟩
    exact ⟨_, q, q, rfl, .inl ⟨rfl, .nil .refl, (Bool.or_false _).symm⟩, .refl, h⟩
  | succ len ih =>
    rcases h.pollTx_bind hruns with ⟨b', q₁, s₁, hq₁, h₁, htdr, hslow, hr₁⟩
    have hslave := slave_moves hq₁
    cases b' with
    | false =>
      rcases Machine.runs_ret.mp hr₁ with ⟨rfl, rfl⟩
      refine ⟨_, q₁, q₁, rfl, .inr ⟨hslow rfl, rfl, Nat.succ_pos _, q₁.slave,
        .nil hslave.1, .inl ?_⟩, .refl, h₁⟩
      change q₁ = ⟨q₁.slave, q.line || false⟩
      rw [Bool.or_false, ← hslave.2]
    | true =>
      rcases Machine.runs_perform_bind.mp hr₁ with ⟨s₂, _, s₃, hm, rfl, hr₂⟩
      rcases h₁.moves hm with ⟨q₂, hq₂, h₂, hk⟩
      rcases (h₂.putDummy (hk.tdr (htdr rfl))).pollRx_bind hr₂ with
        ⟨b', q₃, s₄, hq₃, h₃, hidle, hslow', hr₃⟩
      have hbefore : P.Moves q.slave q₃.slave := (slave_moves (hq₁.trans (hq₂.trans hq₃))).1
      cases b' with
      | false =>
        rcases Machine.runs_ret.mp hr₃ with ⟨rfl, rfl⟩
        rcases h₃.during latency with ⟨u, q', hu, hq', h'⟩
        exact ⟨_, ⟨P.receive u dummy, true⟩, q', rfl, .inr ⟨hslow' rfl, rfl, Nat.succ_pos _, u,
          .nil (hbefore.trans hu), .inr rfl⟩, hq', h'⟩
      | true =>
        rcases Machine.runs_perform_bind.mp hr₃ with ⟨s₅, v, s₆, hm', ⟨hv, rfl⟩, hr₄⟩
        rcases h₃.moves hm' with ⟨q₄, hq₄, h₄, -⟩
        rcases h₄.answered (h₃.toOperates.idle_moves (hidle rfl) hm') with
          ⟨⟨u, hu, hsends, hlater⟩, hduring⟩
        rw [hv] at hr₄
        rcases hr₄.of_bind with ⟨r, s₇, h₇, hr₅⟩ | ⟨e, -, h₇⟩
        · rcases ih hduring h₇ with ⟨r', q₅, q', heq, hread, hq', h'⟩
          cases heq
          rcases Machine.runs_ret.mp hr₅ with ⟨rfl, rfl⟩
          have hfirst : P.Moves q.slave u :=
            hbefore.trans ((slave_moves hq₄).1.trans hu)
          exact ⟨_, q₅, q', rfl, .cons hfirst hsends hlater hread, hq', h'⟩
        · rcases ih hduring h₇ with ⟨r', q₅, q', heq, -⟩
          cases heq

/-! ## Selecting -/

/-- A change of the mode register that leaves the configuration alone. -/
theorem Resting.runs_updateMr {f : U32 → U32} {g : Unit → SpiProg α} {x : Except Fault α}
    (h : Resting q s) (hf : ∀ v, f v &&& mrConfig = v &&& mrConfig)
    (hruns : (spiUnit P latency).Runs (updateMr f >>= g) s x t) :
    ∃ q' s', (spiBus P latency).Moves q q' ∧ Resting q' s' ∧ s'.line = s.line ∧
      s'.mr = f s.mr ∧ (spiUnit P latency).Runs (g ()) s' x t := by
  rcases Machine.runs_perform_bind.mp hruns with ⟨s₁, v, s₂, hm, ⟨rfl, rfl⟩, h₁⟩
  rcases h.moves hm with ⟨q₁, hq₁, hr₁, hline₁, hmr₁⟩
  rcases Machine.runs_perform_bind.mp h₁ with ⟨s₃, _, s₄, hm', rfl, h₂⟩
  rcases hr₁.moves hm' with ⟨q₂, hq₂, hr₂, hline₂, hmr₂⟩
  refine ⟨q₂, { s₃ with mr := f s₂.mr }, hq₁.trans hq₂, ⟨⟨hr₂.enabled, ⟨?_, ?_, ?_⟩⟩, hr₂.idle, hr₂.bus⟩,
    hline₂.trans hline₁, ?_, h₂⟩
  · change f s₂.mr &&& mrConfig = _
    rw [hf, ← hmr₂]
    exact hr₂.configured.mode
  · exact hr₂.configured.channel
  · exact hr₂.configured.clock
  · change f s₂.mr = f s.mr
    rw [hmr₁]

theorem clear_mrConfig (v : U32) : (v &&& ~~~mrPcsMsk) &&& mrConfig = v &&& mrConfig := by
  have hmask : ~~~mrPcsMsk &&& mrConfig = mrConfig := by decide
  rw [BitVec.and_assoc, hmask]

theorem set_mrConfig (v value : U32) : (v ||| mrPcs value) &&& mrConfig = v &&& mrConfig := by
  have hmask : mrPcsMsk &&& mrConfig = 0 := by decide
  have hpcs : mrPcs value &&& mrConfig = 0 := by
    rw [mrPcs, BitVec.and_assoc, BitVec.and_comm _ mrConfig, ← BitVec.and_assoc, hmask]
    exact BitVec.zero_and
  rw [BitVec.and_comm, BitVec.and_or_distrib_left, BitVec.and_comm mrConfig (mrPcs value), hpcs,
    BitVec.and_comm mrConfig v]
  exact BitVec.or_zero

theorem Resting.runs_setPeripheralChipSelectValue {value : U32} {g : Unit → SpiProg α}
    {x : Except Fault α} (h : Resting q s)
    (hruns : (spiUnit P latency).Runs (spiSetPeripheralChipSelectValue value >>= g) s x t) :
    ∃ q' s', (spiBus P latency).Moves q q' ∧ Resting q' s' ∧ s'.line = s.line ∧
      s'.mr = (s.mr &&& ~~~mrPcsMsk) ||| mrPcs value ∧
      (spiUnit P latency).Runs (g ()) s' x t := by
  rw [spiSetPeripheralChipSelectValue, Prog.bind_assoc'] at hruns
  rcases h.runs_updateMr clear_mrConfig hruns with ⟨q₁, s₁, hq₁, h₁, hline₁, hmr₁, hr₁⟩
  rcases h₁.runs_updateMr (fun v => set_mrConfig v value) hr₁ with
    ⟨q₂, s₂, hq₂, h₂, hline₂, hmr₂, hr₂⟩
  exact ⟨q₂, s₂, hq₁.trans hq₂, h₂, hline₂.trans hline₁, by rw [hmr₂, hmr₁], hr₂⟩

/-- The value that `spi_select_device` writes for the flash. -/
theorem selected_of_mr (hmr : s.mr = (v &&& ~~~mrPcsMsk) ||| mrPcs (~~~(1 <<< 0))) :
    s.selected = true := by
  have hmask : (~~~mrPcsMsk).getLsbD 16 = false := by decide
  have hpcs : (mrPcs (~~~(1 <<< 0))).getLsbD 16 = false := by decide
  rw [State.selected, hmr, BitVec.getLsbD_or, BitVec.getLsbD_and, hmask, hpcs, Bool.and_false]
  rfl

theorem Operates.noDecoder (h : Operates s) : s.mr &&& mrPcsdec = 0 := by
  have hmask : mrConfig &&& mrPcsdec = mrPcsdec := by decide
  have hvalue : (mrMstr ||| mrModfdis) &&& mrPcsdec = 0 := by decide
  rw [← hmask, ← BitVec.and_assoc, h.configured.mode, hvalue]

theorem Resting.runs_selectDevice {x : Except Fault Unit} (h : Resting q s)
    (hruns : (spiUnit P latency).Runs (spiSelectDevice 0) s x t) :
    ∃ q', x = .ok () ∧ (spiBus P latency).Moves q q' ∧ During q' t := by
  rcases Machine.runs_perform_bind.mp hruns with ⟨s₁, v, s₂, hm, ⟨rfl, rfl⟩, h₁⟩
  rcases h.moves hm with ⟨q₁, hq₁, hr₁, hline₁, -⟩
  have hnot : (decide (s₂.mr &&& mrPcsdec ≠ 0)) ≠ true := by
    rw [hr₁.noDecoder]
    decide
  change (spiUnit P latency).Runs (if decide (s₂.mr &&& mrPcsdec ≠ 0) = true then _ else
    spiSetPeripheralChipSelectValue (~~~(1 <<< 0))) s₂ x t at h₁
  rw [if_neg hnot, ← Prog.bind_ret (spiSetPeripheralChipSelectValue _)] at h₁
  rcases hr₁.runs_setPeripheralChipSelectValue h₁ with ⟨q₂, s₃, hq₂, hr₂, hline₂, hmr, h₂⟩
  rcases Machine.runs_ret.mp h₂ with ⟨rfl, rfl⟩
  have hpending := State.pending_of_idle hr₂.idle
  have hshifter := (State.idle_iff.mp hr₂.idle).2
  refine ⟨q₂, rfl, hq₁.trans hq₂, ⟨⟨hr₂.toOperates, selected_of_mr hmr, ?_⟩, ?_, ?_⟩⟩
  · rw [hshifter]
    exact fun hsome => absurd hsome Bool.false_ne_true
  · rw [hr₂.bus, hpending]
    rfl
  · rw [hr₂.bus, hpending]
    exact (Bool.or_false _).symm

theorem During.resting (h : During q s) (hidle : s.idle = true) : Resting q s := by
  have hpending := State.pending_of_idle hidle
  refine ⟨h.toOperates, hidle, ?_⟩
  have hslave := h.slave
  have hline := h.line
  rw [hpending] at hslave hline
  rw [List.isEmpty_nil, Bool.not_true, Bool.or_false] at hline
  rw [← hline, ← show q.slave = s.slave from hslave]

theorem During.runs_deselectDevice {x : Except Fault Unit} (h : During q s)
    (hrounds : latency < rounds)
    (hruns : (spiUnit P latency).Runs (spiDeselectDevice rounds) s x t) :
    ∃ q₁, x = .ok () ∧ (spiBus P latency).Moves q q₁ ∧ Resting q₁.raise t := by
  have hwait : ∀ y u, (spiUnit P latency).Runs (waitTxEmpty rounds) s y u → y = .ok () ∧
      ∃ q', (spiBus P latency).Moves q q' ∧ During q' u ∧ u.idle = true := by
    intro y u hy
    rcases h.runs_waitTxEmpty (by omega) (by omega) hy with ⟨q', hx, hq, h', hidle⟩
    exact ⟨hx, q', hq, h', hidle⟩
  rcases Machine.Runs.of_bind_value hwait hruns with ⟨s₁, ⟨q₁, hq₁, h₁, hidle⟩, hr₁⟩
  rcases (h₁.resting hidle).runs_setPeripheralChipSelectValue hr₁ with
    ⟨q₂, s₂, hq₂, h₂, -, -, hr₂⟩
  rcases Machine.runs_call.mp hr₂ with ⟨s₃, r, s₄, hm, hwritten, hr₃⟩
  rcases Machine.runs_ret.mp hr₃ with ⟨rfl, rfl⟩
  rcases h₂.moves hm with ⟨q₃, hq₃, h₃, -, -⟩
  -- everything has been sent, so the line is raised at once
  have hraised : t = s₃.raiseLine := by
    have hlast : s₃.idle = true → t = s₃.raiseLine := hwritten
    exact hlast h₃.idle
  subst hraised
  refine ⟨q₃, rfl, hq₁.trans (hq₂.trans hq₃), ⟨h₃.enabled, h₃.toOperates.configured_of rfl rfl⟩,
    h₃.idle, ?_⟩
  rw [h₃.bus]
  rfl

/-! ## The driver makes the bus -/

/-- The state of the bus and of the registers, while the slave is selected and while it is not. -/
def Talks : Bool → Bus P → State P → Prop
  | true, q, s => During q s
  | false, q, s => Resting q s

/-- **The driver implements the bus**, for any slave: what the registers do under a function of
the driver is a step of the bus. -/
theorem implements_bus (P : Slave) (hrounds : latency < rounds) :
    Machine.Implements (spiUnit P latency) (spiBus P latency) selection (spiMaster rounds)
      (Talks (P := P)) where
  answers := by
    intro φ o q s x t hallowed h hruns
    cases φ with
    | false =>
      cases hallowed
      rcases h.runs_selectDevice hruns with ⟨q', rfl, hq, h'⟩
      exact ⟨(), q', q', q', rfl, trivial, hq, rfl, .refl, h'⟩
    | true =>
      cases o with
      | select => exact absurd rfl hallowed
      | deselect =>
        rcases h.runs_deselectDevice hrounds hruns with ⟨q₁, rfl, hq, h'⟩
        exact ⟨(), q₁, q₁.raise, q₁.raise, rfl, trivial, hq, rfl, .refl, h'⟩
      | writePacket data =>
        rcases h.runs_writePacket hruns with ⟨r, q₁, q', rfl, hw, hq, h'⟩
        exact ⟨r, q, q₁, q', rfl, trivial, .refl, hw, hq, h'⟩
      | readPacket len =>
        rcases h.runs_readPacket hruns with ⟨r, q₁, q', rfl, hr, hq, h'⟩
        exact ⟨r, q, q₁, q', rfl, trivial, .refl, hr, hq, h'⟩

end SpiMaster
