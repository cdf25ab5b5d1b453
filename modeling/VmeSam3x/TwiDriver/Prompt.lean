import VmeSam3x.TwiDriver.Chunks

/-! # Hardware without delays

The hardware on which, whenever the status is read, everything that can happen has happened. It
shows that the parts of a call can be successful, for every packet and in both directions.
-/

namespace TwiDriver

open Interact Machine Bytes Fpga

/-! ## The hardware -/

/-- An enabled channel is through, and the holding registers are ready. -/
structure Twi.Through (t : Twi) : Prop where
  counter : ∀ d, t.enabled d = true → t.counter d = 0
  thr : t.thr = none
  rhr : t.rhr.isSome

/-- The status word, with every flag that is true. -/
def Twi.status (t : Twi) : U32 :=
  srTxcomp ||| srRxrdy ||| srTxrdy ||| (if t.counter .rx = 0 then srRxbuff else 0) |||
    (if t.counter .tx = 0 then srTxbufe else 0)

theorem Twi.status_flags (t : Twi) :
    ¬ Has t.status srNack ∧ Has t.status srRxrdy ∧ Has t.status srTxrdy ∧
      ∀ d : Dir, Has t.status d.buffer ↔ t.counter d = 0 := by
  unfold Twi.status
  by_cases hrx : t.counter .rx = 0 <;> by_cases htx : t.counter .tx = 0
  all_goals
    simp only [hrx, htx, if_true, if_false]
    refine ⟨by decide, by decide, by decide, ?_⟩
    intro d
    cases d <;> simp only [hrx, htx] <;> decide

/-- An answer without delay. -/
def Twi.Prompt (t : Twi) : (o : DriverOp) → Registers.Res o → Prop
  | .readSr _, status => t.Through ∧ status = t.status
  | _, _ => True

abbrev promptTwi : Machine Registers where
  State := Twi
  move := Step
  answer t o r t' := t.answer o r t' ∧ t.Prompt o r

/-- It is hardware of the general kind. -/
def promptView : Simulation promptTwi twiPdc where
  view t := t
  moves _ _ hstep := .single hstep
  answers t _ _ _ ha := ⟨t, .refl, ha.1⟩

/-- A channel runs until its counter is zero. -/
theorem rx_through (c : Nat) (t : Twi) (hon : t.enabled .rx = true) (hc : t.counter .rx = c) :
    ∃ t', twiPdc.Moves t t' ∧ t'.counter .rx = 0 ∧ t'.enabled = t.enabled := by
  induction c generalizing t with
  | zero => exact ⟨t, .refl, hc, rfl⟩
  | succ c ih =>
    have hcount : 0 < t.counter .rx := by omega
    have hcnt : ((t.arrive 0).receive 0).counter .rx = t.counter .rx - 1 := t.advance_counter .rx
    have hnext : ((t.arrive 0).receive 0).counter .rx = c := by omega
    rcases ih ((t.arrive 0).receive 0) hon hnext with ⟨t', hm, hzero, hen⟩
    refine ⟨t', ?_, hzero, hen⟩
    refine .head (.arrive t 0) (.head ?_ hm)
    exact .receive _ 0 ⟨hon, hcount⟩ rfl

/-- The transmit holding register empties. -/
theorem thr_through (t : Twi) :
    ∃ t', twiPdc.Moves t t' ∧ t'.thr = none ∧ t'.counter = t.counter ∧ t'.enabled = t.enabled := by
  cases h : t.thr with
  | none => exact ⟨t, .refl, h, rfl, rfl⟩
  | some b => exact ⟨t.shift b, .single (.shift t b h), rfl, rfl, rfl⟩

theorem tx_through (c : Nat) (t : Twi) (hon : t.enabled .tx = true) (hc : t.counter .tx = c) :
    ∃ t', twiPdc.Moves t t' ∧ t'.counter .tx = 0 ∧ t'.counter .rx = t.counter .rx ∧
      t'.enabled = t.enabled := by
  induction c generalizing t with
  | zero => exact ⟨t, .refl, hc, rfl, rfl⟩
  | succ c ih =>
    rcases thr_through t with ⟨t₁, hm₁, hthr, hcnt, hen₁⟩
    have hon₁ : t₁.enabled .tx = true := by rw [hen₁, hon]
    have hcount : 0 < t₁.counter .tx := by
      rw [hcnt, hc]
      omega
    have hnext : t₁.load.counter .tx = c := by
      have hload : t₁.load.counter .tx = t₁.counter .tx - 1 := t₁.advance_counter .tx
      rw [hload, hcnt, hc]
      rfl
    rcases ih t₁.load hon₁ hnext with ⟨t', hm, hzero, hrx, hen⟩
    refine ⟨t', ?_, hzero, ?_, hen.trans hen₁⟩
    · exact hm₁.trans (.head (.load t₁ ⟨hon₁, hcount⟩ hthr) hm)
    · have hne : Dir.rx ≠ Dir.tx := by decide
      have hother : t₁.load.counter .rx = t₁.counter .rx :=
        Function.update_of_ne hne (t₁.counter .tx - 1) t₁.counter
      rw [hrx, hother, hcnt]

/-- From every state the hardware gets through. -/
theorem exists_through (t : Twi) : ∃ t', twiPdc.Moves t t' ∧ t'.Through := by
  -- first the receiving channel, then the other one, which leaves the first as it is
  have hrx : ∃ t', twiPdc.Moves t t' ∧ (t'.enabled .rx = true → t'.counter .rx = 0) := by
    cases hon : t.enabled .rx with
    | false => exact ⟨t, .refl, fun h => absurd (hon.symm.trans h) (by decide)⟩
    | true =>
      rcases rx_through _ t hon rfl with ⟨t', hm, hzero, -⟩
      exact ⟨t', hm, fun _ => hzero⟩
  rcases hrx with ⟨t₁, hm₁, hrx₁⟩
  have htx : ∃ t', twiPdc.Moves t₁ t' ∧ ∀ d, t'.enabled d = true → t'.counter d = 0 := by
    cases hon : t₁.enabled .tx with
    | false =>
      refine ⟨t₁, .refl, ?_⟩
      intro d hd
      cases d with
      | rx => exact hrx₁ hd
      | tx => exact absurd (hon.symm.trans hd) (by decide)
    | true =>
      rcases tx_through _ t₁ hon rfl with ⟨t', hm, hzero, hrx, hen⟩
      refine ⟨t', hm, ?_⟩
      intro d hd
      cases d with
      | rx =>
        rw [hen] at hd
        rw [hrx]
        exact hrx₁ hd
      | tx => exact hzero
  rcases htx with ⟨t₂, hm₂, htx₂⟩
  -- last the holding registers: a byte goes out, and one comes in
  rcases thr_through t₂ with ⟨t₃, hm₃, hthr, hcnt, hen⟩
  refine ⟨t₃.arrive 0, ?_, ?_, hthr, rfl⟩
  · exact ((hm₁.trans hm₂).trans hm₃).tail (.arrive t₃ 0)
  · intro d hd
    change t₃.counter d = 0
    rw [hcnt]
    apply htx₂ d
    rw [← hen]
    exact hd

theorem Twi.Through.shows {t : Twi} (h : t.Through) : t.Shows t.status := by
  rcases t.status_flags with ⟨-, -, -, hbuffer⟩
  exact ⟨fun d => (hbuffer d).mp, fun _ => h.rhr, fun _ _ => h.thr⟩

theorem promptTwi_responsive : promptTwi.Responsive := by
  intro t o
  cases o with
  | readSr reader =>
    rcases exists_through t with ⟨t', hm, hthrough⟩
    exact ⟨t', t'.status, t', hm, ⟨rfl, hthrough.shows⟩, hthrough, rfl⟩
  | readRhr =>
    cases h : t.rhr with
    | none =>
      refine ⟨t, (0 : U8), t, .refl, ⟨?_, fun _ => rfl⟩, trivial⟩
      intro c hc
      rw [h] at hc
      cases hc
    | some c =>
      refine ⟨t, c, t.take c, .refl, ⟨?_, ?_⟩, trivial⟩
      · intro c' hc
        rw [h] at hc
        cases hc
        exact ⟨rfl, rfl⟩
      · intro hnone
        rw [h] at hnone
        cases hnone
  | readCounter dir => exact ⟨t, t.counter dir, t, .refl, ⟨rfl, rfl⟩, trivial⟩
  | notifyWait ticks => exact ⟨t, true, t, .refl, rfl, trivial⟩
  | _ => exact ⟨t, (), _, .refl, rfl, trivial⟩

/-- A status read finds everything ready. -/
theorem runs_readSr_prompt {α : Type} {reader : Reader} {f : U32 → DriverProg α}
    {s t : Twi} {x : Except Fault α}
    (h : promptTwi.Runs (perform (.readSr reader) >>= f) s x t) :
    ∃ s', promptTwi.Moves s s' ∧ s'.Through ∧ promptTwi.Runs (f s'.status) s' x t := by
  rcases runs_perform_bind.mp h with ⟨s₁, status, s₂, hm, ⟨⟨rfl, -⟩, hthrough, hstatus⟩, h₁⟩
  subst hstatus
  exact ⟨s₂, hm, hthrough, h₁⟩

theorem moves_enabled {s t : Twi} (h : promptTwi.Moves s t) : t.enabled = s.enabled := by
  refine Moves.invariant (I := fun t : Twi => t.enabled = s.enabled) ?_ h rfl
  intro t₁ t₂ hstep hen
  cases hstep <;> exact hen

/-- Every part of a call is successful on it. -/
theorem promptTwi_complete (p : DriverProg TwiStatus) (s : Twi) :
    PartsComplete promptTwi 1 .twi0 p s := by
  intro part k s' x t hpart _ hr
  cases hpart with
  | chunk dir size offset =>
    rw [dmaChunk, if_neg (by decide)] at hr
    rcases runs_perform_bind.mp hr with ⟨s₁, _, s₂, -, -, h₁⟩
    rcases runs_perform_bind.mp h₁ with ⟨s₃, _, s₄, -, -, h₂⟩
    rcases runs_perform_bind.mp h₂ with ⟨s₅, _, s₆, -, ⟨hset, -⟩, h₃⟩
    have hon : s₆.enabled dir = true := by
      rw [hset]
      change (if Has dir.enable dir.disable then false else _) = true
      rw [if_neg (not_has_disable _ _), if_pos (has_self dir).1]
    -- the first status word shows the end of the transfer
    have hwait : ∀ y u, promptTwi.Runs (dmaWait .twi0 dir 1 size .success) s₆ y u →
        y = .ok .success ∧ True := by
      intro y u h
      rw [dmaWait] at h
      rcases runs_readSr_prompt h with ⟨s₇, hm, hthrough, h'⟩
      rcases s₇.status_flags with ⟨hnack, -, -, hbuffer⟩
      have hon₇ : s₇.enabled dir = true := by rw [moves_enabled hm, hon]
      rw [if_neg hnack, if_pos ((hbuffer dir).mpr (hthrough.counter dir hon₇))] at h'
      exact ⟨(runs_ret.mp h').1, trivial⟩
    rcases h₃.of_bind_value hwait with ⟨s₇, -, h₄⟩
    rcases runs_perform_bind.mp h₄ with ⟨_, _, _, -, -, h₅⟩
    exact (runs_ret.mp h₅).1
  | receive offset =>
    have htimeout : twiTimeout = 14999 + 1 := rfl
    rw [htimeout, receiveByte, receivePass] at hr
    rcases runs_readSr_prompt hr with ⟨s₁, -, -, h₁⟩
    rcases s₁.status_flags with ⟨hnack, hrxrdy, -, -⟩
    rw [if_neg hnack] at h₁
    change promptTwi.Runs (if ¬ Has s₁.status srRxrdy then _ else _) _ _ _ at h₁
    rw [if_neg (not_not.mpr hrxrdy)] at h₁
    rcases runs_perform_bind.mp h₁ with ⟨_, _, _, -, -, h₂⟩
    rcases runs_perform_bind.mp h₂ with ⟨_, _, _, -, -, h₃⟩
    exact (runs_ret.mp h₃).1
  | send value =>
    rw [sendByte] at hr
    rcases runs_readSr_prompt hr with ⟨s₁, -, -, h₁⟩
    rcases s₁.status_flags with ⟨hnack, -, htxrdy, -⟩
    rw [if_neg hnack, if_neg (not_not.mpr htxrdy)] at h₁
    rcases runs_perform_bind.mp h₁ with ⟨_, _, _, -, -, h₂⟩
    exact (runs_ret.mp h₂).1
  | ready =>
    rw [awaitReady] at hr
    rcases runs_readSr_prompt hr with ⟨s₁, -, -, h₁⟩
    rcases s₁.status_flags with ⟨hnack, -, htxrdy, -⟩
    rw [if_neg hnack, if_pos htxrdy] at h₁
    exact (runs_ret.mp h₁).1

end TwiDriver
