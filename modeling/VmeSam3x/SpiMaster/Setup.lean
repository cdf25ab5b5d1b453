import VmeSam3x.SpiMaster.Packets

/-! # From the set-up on

`m25p_spi_init` brings the SPI into the configuration that the packets need. A program that sends
packets only while it has selected the slave then runs on the registers as it runs on the bus.
-/

namespace SpiMaster

open Interact Bytes Flash

variable {P : Slave} {latency rounds : Nat} {q q' : Bus P} {s t : State P} {α : Type}

/-! ## Set-up -/

/-- The SPI is disabled, and nothing is being sent. -/
structure Off (s : State P) : Prop where
  enabled : s.enabled = false
  idle : s.idle = true
  line : s.line = false

theorem Off.moves (h : Off s) (hm : (spiUnit P latency).Moves s t) :
    Off t ∧ P.Moves s.slave t.slave ∧ t.mr = s.mr ∧ t.csr = s.csr := by
  induction hm with
  | refl => exact ⟨h, .refl, rfl, rfl⟩
  | tail _ hstep ih =>
    rcases ih with ⟨h₁, hslave, hmr, hcsr⟩
    cases hstep with
    | slave hu => exact ⟨⟨h₁.enabled, h₁.idle, h₁.line⟩, hslave.tail hu, hmr, hcsr⟩
    | load henabled _ _ =>
      rw [h₁.enabled] at henabled
      cases henabled
    | finish henabled _ _ =>
      rw [h₁.enabled] at henabled
      cases henabled
    | undefined henabled _ =>
      rw [h₁.enabled] at henabled
      cases henabled

/-- A run that begins with a change of the mode register. -/
theorem Off.runs_updateMr {f : U32 → U32} {g : Unit → SpiProg α} {x : Except Fault α} (h : Off s)
    (hruns : (spiUnit P latency).Runs (updateMr f >>= g) s x t) :
    ∃ s', Off s' ∧ P.Moves s.slave s'.slave ∧ s'.mr = f s.mr ∧ s'.csr = s.csr ∧
      (spiUnit P latency).Runs (g ()) s' x t := by
  rcases Machine.runs_perform_bind.mp hruns with ⟨s₁, v, s₂, hm, ⟨rfl, rfl⟩, h₁⟩
  rcases h.moves hm with ⟨ho₁, hs₁, hmr₁, hcsr₁⟩
  rcases Machine.runs_perform_bind.mp h₁ with ⟨s₃, _, s₄, hm', rfl, h₂⟩
  rcases ho₁.moves hm' with ⟨ho₂, hs₂, hmr₂, hcsr₂⟩
  refine ⟨{ s₃ with mr := f s₂.mr }, ⟨ho₂.enabled, ho₂.idle, ho₂.line⟩, hs₁.trans hs₂, ?_,
    hcsr₂.trans hcsr₁, h₂⟩
  change f s₂.mr = f s.mr
  rw [hmr₁]

/-- A run that begins with a change of the first select register. -/
theorem Off.runs_updateCsr {f : U32 → U32} {g : Unit → SpiProg α} {x : Except Fault α} (h : Off s)
    (hruns : (spiUnit P latency).Runs (updateCsr 0 f >>= g) s x t) :
    ∃ s', Off s' ∧ P.Moves s.slave s'.slave ∧ s'.mr = s.mr ∧ s'.csr 0 = f (s.csr 0) ∧
      (spiUnit P latency).Runs (g ()) s' x t := by
  rcases Machine.runs_perform_bind.mp hruns with ⟨s₁, v, s₂, hm, ⟨rfl, rfl⟩, h₁⟩
  rcases h.moves hm with ⟨ho₁, hs₁, hmr₁, hcsr₁⟩
  rcases Machine.runs_perform_bind.mp h₁ with ⟨s₃, _, s₄, hm', rfl, h₂⟩
  rcases ho₁.moves hm' with ⟨ho₂, hs₂, hmr₂, hcsr₂⟩
  refine ⟨{ s₃ with csr := Function.update s₃.csr 0 (f (s₂.csr 0)) },
    ⟨ho₂.enabled, ho₂.idle, ho₂.line⟩, hs₁.trans hs₂, hmr₂.trans hmr₁, ?_, h₂⟩
  change Function.update s₃.csr 0 (f (s₂.csr 0)) 0 = f (s.csr 0)
  rw [Function.update_self, hcsr₁]

theorem Off.runs_reset {g : Unit → SpiProg α} {x : Except Fault α} (h : Off s)
    (hruns : (spiUnit P latency).Runs (spiReset >>= g) s x t) :
    ∃ s', Off s' ∧ P.Moves s.slave s'.slave ∧ s'.mr = 0 ∧ s'.csr 0 = 0 ∧
      (spiUnit P latency).Runs (g ()) s' x t := by
  rcases Machine.runs_perform_bind.mp hruns with ⟨s₁, _, s₂, hm, hwritten, h₁⟩
  rcases h.moves hm with ⟨ho₁, hs₁, -, -⟩
  have hreset : s₂ = s₁.reset := hwritten
  subst hreset
  refine ⟨s₁.reset, ⟨rfl, rfl, rfl⟩, ?_, rfl, rfl, h₁⟩
  have hslave : s₁.reset.slave = s₁.slave := by
    change (if s₁.line then P.raise s₁.slave else s₁.slave) = s₁.slave
    rw [ho₁.line]
    rfl
  rw [hslave]
  exact hs₁

/-- The registers after `spi_master_init`. -/
theorem Off.runs_masterInit {g : Unit → SpiProg α} {x : Except Fault α} (h : Off s)
    (hruns : (spiUnit P latency).Runs (spiMasterInit >>= g) s x t) :
    ∃ s', Off s' ∧ P.Moves s.slave s'.slave ∧ s'.mr &&& mrConfig = mrMstr ||| mrModfdis ∧
      s'.csr 0 = 0 ∧ (spiUnit P latency).Runs (g ()) s' x t := by
  simp only [spiMasterInit, spiSetMasterMode, spiDisableModeFaultDetect, spiDisableLoopback,
    spiSetPeripheralChipSelectValue, spiSetFixedPeripheralSelect,
    spiDisablePeripheralSelectDecode, spiSetDelayBetweenChipSelect, Prog.bind_assoc'] at hruns
  rcases h.runs_reset hruns with ⟨s₀, o₀, h₀, hmr₀, hc₀, r₀⟩
  rcases o₀.runs_updateMr r₀ with ⟨s₁, o₁, h₁, hmr₁, hc₁, r₁⟩
  rcases o₁.runs_updateMr r₁ with ⟨s₂, o₂, h₂, hmr₂, hc₂, r₂⟩
  rcases o₂.runs_updateMr r₂ with ⟨s₃, o₃, h₃, hmr₃, hc₃, r₃⟩
  rcases o₃.runs_updateMr r₃ with ⟨s₄, o₄, h₄, hmr₄, hc₄, r₄⟩
  rcases o₄.runs_updateMr r₄ with ⟨s₅, o₅, h₅, hmr₅, hc₅, r₅⟩
  rcases o₅.runs_updateMr r₅ with ⟨s₆, o₆, h₆, hmr₆, hc₆, r₆⟩
  rcases o₆.runs_updateMr r₆ with ⟨s₇, o₇, h₇, hmr₇, hc₇, r₇⟩
  rcases o₇.runs_updateMr r₇ with ⟨s₈, o₈, h₈, hmr₈, hc₈, r₈⟩
  rcases o₈.runs_updateMr r₈ with ⟨s₉, o₉, h₉, hmr₉, hc₉, r₉⟩
  refine ⟨s₉, o₉, ?_, ?_, ?_, r₉⟩
  · exact h₀.trans (h₁.trans (h₂.trans (h₃.trans (h₄.trans (h₅.trans (h₆.trans (h₇.trans
      (h₈.trans h₉))))))))
  · rw [hmr₉, hmr₈, hmr₇, hmr₆, hmr₅, hmr₄, hmr₃, hmr₂, hmr₁, hmr₀]
    decide
  · rw [hc₉, hc₈, hc₇, hc₆, hc₅, hc₄, hc₃, hc₂, hc₁, hc₀]

/-- The select register that `spi_master_setup_device` leaves after a reset. -/
def channelValue (ucBaudrateDivider : U8) : U32 :=
  ((((((((0 &&& ~~~(csrDlybsMsk ||| csrDlybctMsk)) ||| (csrDlybs 0 ||| csrDlybct 0)) &&&
    ~~~csrBitsMsk) ||| csrBits8) &&& ~~~csrScbrMsk) |||
      csrScbr (ucBaudrateDivider.setWidth 32)) ||| csrCsaat) &&& ~~~csrCpol) ||| csrNcpha

theorem channelValue_config :
    ∀ d, channelValue d &&& csrConfig = csrNcpha ||| csrCsaat := by decide +kernel

theorem channelValue_clock : ∀ d, d ≠ 0 → channelValue d &&& csrScbrMsk ≠ 0 := by decide +kernel

theorem divider_ne_zero {baudrate mck : U32} (h : spiCalcBaudrateDiv baudrate mck ≠ -1) :
    BitVec.ofInt 8 (spiCalcBaudrateDiv baudrate mck) ≠ 0 := by
  have hrange : ∀ k : Int, (if k ≤ 0 ∨ 255 < k then -1 else k) ≠ -1 →
      0 < (if k ≤ 0 ∨ 255 < k then -1 else k) ∧ (if k ≤ 0 ∨ 255 < k then -1 else k) ≤ 255 := by
    intro k hk
    split at hk
    · exact absurd rfl hk
    · rename_i hin
      rw [if_neg hin]
      omega
  have hin : 0 < spiCalcBaudrateDiv baudrate mck ∧ spiCalcBaudrateDiv baudrate mck ≤ 255 :=
    hrange _ h
  intro hzero
  have hmod := congrArg BitVec.toInt hzero
  rw [BitVec.toInt_ofInt] at hmod
  change Int.bmod _ (2 ^ 8) = 0 at hmod
  have hdvd := Int.dvd_of_bmod_eq_zero hmod
  omega

theorem Off.runs_setupDevice {mck : U32} {g : Unit → SpiProg α} {a : α} (h : Off s)
    (hzero : s.csr 0 = 0)
    (hruns : (spiUnit P latency).Runs (spiMasterSetupDevice 0 0 12000000 mck >>= g) s (.ok a) t) :
    ∃ s', Off s' ∧ P.Moves s.slave s'.slave ∧ s'.mr = s.mr ∧
      s'.csr 0 &&& csrConfig = csrNcpha ||| csrCsaat ∧ s'.csr 0 &&& csrScbrMsk ≠ 0 ∧
      (spiUnit P latency).Runs (g ()) s' (.ok a) t := by
  unfold spiMasterSetupDevice at hruns
  by_cases hdiv : spiCalcBaudrateDiv 12000000 mck = -1
  · rw [if_pos hdiv] at hruns
    rcases Machine.runs_fail.mp hruns with ⟨heq, -⟩
    cases heq
  · rw [if_neg hdiv] at hruns
    have hpolarity : ¬ (0 : U32) >>> 1 ≠ 0 := by decide
    have hphase : ((0 : U32) &&& 1) ^^^ 1 ≠ 0 := by decide
    simp only [spiSetTransferDelay, spiSetBitsPerTransfer, spiSetBaudrateDiv, spiKeepCsLow,
      spiSetClockPolarity, spiSetClockPhase, if_neg hpolarity, if_pos hphase,
      Prog.bind_assoc'] at hruns
    rcases h.runs_updateCsr hruns with ⟨s₁, o₁, h₁, hmr₁, hc₁, r₁⟩
    rcases o₁.runs_updateCsr r₁ with ⟨s₂, o₂, h₂, hmr₂, hc₂, r₂⟩
    rcases o₂.runs_updateCsr r₂ with ⟨s₃, o₃, h₃, hmr₃, hc₃, r₃⟩
    rcases o₃.runs_updateCsr r₃ with ⟨s₄, o₄, h₄, hmr₄, hc₄, r₄⟩
    rcases o₄.runs_updateCsr r₄ with ⟨s₅, o₅, h₅, hmr₅, hc₅, r₅⟩
    rcases o₅.runs_updateCsr r₅ with ⟨s₆, o₆, h₆, hmr₆, hc₆, r₆⟩
    rcases o₆.runs_updateCsr r₆ with ⟨s₇, o₇, h₇, hmr₇, hc₇, r₇⟩
    rcases o₇.runs_updateCsr r₇ with ⟨s₈, o₈, h₈, hmr₈, hc₈, r₈⟩
    rcases o₈.runs_updateCsr r₈ with ⟨s₉, o₉, h₉, hmr₉, hc₉, r₉⟩
    have hvalue : s₉.csr 0 = channelValue
        (BitVec.ofInt 8 (spiCalcBaudrateDiv 12000000 mck)) := by
      rw [hc₉, hc₈, hc₇, hc₆, hc₅, hc₄, hc₃, hc₂, hc₁, hzero]
      rfl
    refine ⟨s₉, o₉, ?_, ?_, ?_, ?_, r₉⟩
    · exact h₁.trans (h₂.trans (h₃.trans (h₄.trans (h₅.trans (h₆.trans (h₇.trans
        (h₈.trans h₉)))))))
    · rw [hmr₉, hmr₈, hmr₇, hmr₆, hmr₅, hmr₄, hmr₃, hmr₂, hmr₁]
    · rw [hvalue]
      exact channelValue_config _
    · rw [hvalue]
      exact channelValue_clock _ (divider_ne_zero hdiv)

/-- After the set-up the SPI is in operation. -/
theorem Off.runs_m25pSpiInit {mck : U32} (h : Off s)
    (hruns : (spiUnit P latency).Runs (m25pSpiInit mck) s (.ok ()) t) :
    ∃ q, (spiBus P latency).Moves ⟨s.slave, false⟩ q ∧ Resting q t := by
  rcases h.runs_masterInit hruns with ⟨s₁, o₁, h₁, hmr₁, hzero, r₁⟩
  rcases o₁.runs_setupDevice hzero r₁ with ⟨s₂, o₂, h₂, hmr₂, hchannel, hclock, r₂⟩
  rcases Machine.runs_call.mp r₂ with ⟨s₃, _, s₄, hm, hwritten, r₃⟩
  rcases Machine.runs_ret.mp r₃ with ⟨-, rfl⟩
  rcases o₂.moves hm with ⟨o₃, h₃, hmr₃, hcsr₃⟩
  have henabled : t = { s₃ with enabled := true } := hwritten
  subst henabled
  refine ⟨⟨s₃.slave, false⟩, ?_, ⟨rfl, ⟨?_, ?_, ?_⟩⟩, o₃.idle, ?_⟩
  · exact bus_moves (q := ⟨s.slave, false⟩) (h₁.trans (h₂.trans h₃))
  · rw [← hmr₁, ← hmr₂, ← hmr₃]
  · rw [← hchannel, ← hcsr₃]
  · rw [← hcsr₃] at hclock
    exact hclock
  · change (⟨s₃.slave, false⟩ : Bus P) = ⟨s₃.slave, s₃.line⟩
    rw [o₃.line]

/-! ## Programs -/

end SpiMaster
