import VmeSam3x.TwiDriver.Pdc

/-! # Transfers in chunks

A read leaves its last byte for after the stop condition, a write leaves at most one byte for the
loop over single bytes, and no chunk is longer than the counter of a channel. When every chunk
and every step for a single byte is successful, the packet passes exactly once.
-/

namespace TwiDriver

open Interact Machine Bytes Fpga

variable {s t t' : Twi} {pTwi : Instance} {rounds : Nat} {dir : Dir} {n k size : Nat}
  {buffer : Nat → U8} {head w : List Wire} {bytes taken kept : List U8}

/-! ## A chunk -/

/-- A channel that is off or has nothing left stays as it is. -/
theorem Progress.idle (h : Progress dir n buffer head k t) (hidle : ¬ t.Active dir)
    (hm : twiPdc.Moves t t') :
    Progress dir n buffer head k t' ∧ t'.pointer = t.pointer ∧ t'.counter = t.counter ∧
      t'.enabled = t.enabled := by
  refine Moves.invariant (I := fun t' : Twi => Progress dir n buffer head k t' ∧ t'.pointer = t.pointer ∧
    t'.counter = t.counter ∧ t'.enabled = t.enabled) ?_ hm ⟨h, rfl, rfl, rfl⟩
  intro t₁ t₂ hstep ⟨hp, hptr, hcnt, hon⟩
  have hidle₁ : ¬ t₁.Active dir := by
    unfold Twi.Active
    rw [hon, hcnt]
    exact hidle
  rcases hp.step hstep (fun hact => absurd hact hidle₁) with ⟨hp', hptr', hcnt', hon'⟩ | ⟨hact, _⟩
  · exact ⟨hp', hptr'.trans hptr, hcnt'.trans hcnt, hon'.trans hon⟩
  · exact absurd hact hidle₁

/-- A channel that is to get to `e` bytes. -/
def Running (dir : Dir) (n : Nat) (buffer : Nat → U8) (head : List Wire) (e : Nat) (t : Twi) :
    Prop :=
  ∃ k, Progress dir n buffer head k t ∧ t.pointer dir = k ∧ t.counter dir + k = e

theorem Running.step {e : Nat} (h : Running dir n buffer head e t) (hstep : Step t t') :
    Running dir n buffer head e t' := by
  rcases h with ⟨k, hp, hptr, hcnt⟩
  rcases hp.step hstep (fun _ => hptr) with ⟨hp', hptr', hcnt', -⟩ | ⟨-, hp', hptr', hcnt', -⟩
  · refine ⟨k, hp', ?_, ?_⟩
    · rw [hptr', hptr]
    · rw [hcnt', hcnt]
  · refine ⟨k + 1, hp', hptr', ?_⟩
    omega

/-- A wait that is successful ends with the counter at zero. -/
theorem runs_dmaWait {I : Twi → Prop} (hstep : ∀ t t', Step t t' → I t → I t') {remaining : Nat}
    {rc : TwiStatus}
    (h : twiPdc.Runs (dmaWait pTwi dir rounds remaining rc) s (.ok .success) t) (hs : I s) :
    I t ∧ t.counter dir = 0 := by
  induction rounds generalizing s remaining rc with
  | zero =>
    rcases runs_fail.mp h with ⟨heq, -⟩
    cases heq
  | succ rounds ih =>
    rw [dmaWait] at h
    rcases runs_perform_bind.mp h with ⟨s₁, status, s₂, hm, ⟨rfl, hshows⟩, h₁⟩
    have h₁s := Moves.invariant hstep hm hs
    split at h₁
    · rcases runs_ret.mp h₁ with ⟨heq, -⟩
      cases heq
    · split at h₁
      · rename_i hdone
        rcases runs_ret.mp h₁ with ⟨-, rfl⟩
        exact ⟨h₁s, hshows.buffer dir hdone⟩
      · rcases h₁.of_bind_ok with ⟨rc', s₃, h₂, h₃⟩
        have h₃s := runs_passive hstep (wait_passive _ _) h₂ h₁s
        split at h₃
        · -- the wait has timed out: the loop goes on if the counter has moved
          rcases runs_perform_bind.mp h₃ with ⟨s₄, counter, s₅, hm₄, ⟨rfl, -⟩, h₄⟩
          have h₄s := Moves.invariant hstep hm₄ h₃s
          split at h₄
          · rcases runs_perform_bind.mp h₄ with ⟨s₆, counter', s₇, hm₆, ⟨rfl, -⟩, h₅⟩
            exact ih h₅ (Moves.invariant hstep hm₆ h₄s)
          · rename_i htimeout _
            rcases runs_ret.mp h₄ with ⟨heq, -⟩
            cases heq
            cases htimeout
        · split at h₃
          · rename_i hne
            rcases runs_ret.mp h₃ with ⟨heq, -⟩
            cases heq
            exact absurd rfl hne
          · exact ih h₃ h₃s

/-- Between two chunks. -/
structure Between (dir : Dir) (n : Nat) (buffer : Nat → U8) (head : List Wire) (k : Nat)
    (t : Twi) : Prop where
  progress : Progress dir n buffer head k t
  off : t.enabled dir = false

theorem Between.inactive (h : Between dir n buffer head k t) : ¬ t.Active dir := by
  intro hact
  have hon := hact.1
  rw [h.off] at hon
  cases hon

theorem Between.moves (h : Between dir n buffer head k t) (hm : twiPdc.Moves t t') :
    Between dir n buffer head k t' ∧ t'.pointer = t.pointer ∧ t'.counter = t.counter := by
  rcases h.progress.idle h.inactive hm with ⟨hp, hptr, hcnt, hon⟩
  refine ⟨⟨hp, ?_⟩, hptr, hcnt⟩
  rw [hon]
  exact h.off

/-- The moved bytes do not depend on the registers of the channels. -/
theorem Moved.congr (h : Moved buffer head k t dir) (pointer counter : Dir → Nat)
    (enabled : Dir → Bool) (programmed : List (Nat × Nat)) :
    Moved buffer head k { t with pointer, counter, enabled, programmed } dir := by
  cases dir with
  | rx =>
    rcases h with ⟨bytes, hlen, hrec⟩
    exact ⟨bytes, hlen, hrec.wire, hrec.arrived, hrec.stored, hrec.memory, hrec.thr⟩
  | tx => exact ⟨h.wire, h.stored, h.memory⟩

theorem not_has_disable (dir d : Dir) : ¬ Has dir.enable d.disable := by
  cases dir <;> cases d <;> decide

theorem not_has_enable_other (dir : Dir) : ¬ Has dir.enable dir.other.enable := by
  cases dir <;> decide

theorem has_self (dir : Dir) : Has dir.enable dir.enable ∧ Has dir.disable dir.disable := by
  cases dir <;> decide

/-- The pointer is programmed with the channel off. -/
theorem Between.setPointer (h : Between dir n buffer head k t)
    (ha : t.answer (.setPointer dir k) () t') :
    Between dir n buffer head k t' ∧ t'.pointer dir = k := by
  cases ha
  refine ⟨⟨⟨h.progress.off, h.progress.fits, ?_⟩, h.off⟩, Function.update_self _ _ _⟩
  exact h.progress.moved.congr _ _ _ _

/-- The counter is programmed with a size that fits into its 16 bits. -/
theorem Between.setCounter (h : Between dir n buffer head k t)
    (hptr : t.pointer dir = k) (hpos : 1 ≤ size) (hcap : size ≤ 0xffff) (hfit : k + size ≤ n)
    (ha : t.answer (.setCounter dir size) () t') :
    Between dir n buffer head k t' ∧ t'.pointer dir = k ∧ t'.counter dir = size := by
  cases ha
  refine ⟨⟨⟨h.progress.off, ?_, h.progress.moved.congr _ _ _ _⟩, h.off⟩, hptr, ?_⟩
  · intro r hr
    rcases List.mem_append.mp hr with hr | hr
    · exact h.progress.fits r hr
    · rw [List.mem_singleton.mp hr, hptr]
      exact ⟨hpos, hcap, hfit⟩
  · change Function.update t.counter dir (size % 0x10000) dir = size
    rw [Function.update_self]
    exact Nat.mod_eq_of_lt (Nat.lt_succ_of_le hcap)

/-- Enabling a channel leaves the other one off. -/
theorem Between.enable (h : Between dir n buffer head k t) (hptr : t.pointer dir = k)
    (hcnt : t.counter dir = size) (ha : t.answer (.setPtcr dir.enable) () t') :
    Running dir n buffer head (k + size) t' := by
  cases ha
  refine ⟨k, ⟨?_, h.progress.fits, h.progress.moved.congr _ _ _ _⟩, hptr, ?_⟩
  · change (if Has dir.enable dir.other.disable then _ else _) = false
    rw [if_neg (not_has_disable _ _), if_neg (not_has_enable_other _)]
    exact h.progress.off
  · change t.counter dir + k = k + size
    rw [hcnt, Nat.add_comm]

/-- Disabling it leaves both off. -/
theorem Progress.disable (h : Progress dir n buffer head k t)
    (ha : t.answer (.setPtcr dir.disable) () t') : Between dir n buffer head k t' := by
  cases ha
  refine ⟨⟨?_, h.fits, h.moved.congr _ _ _ _⟩, ?_⟩
  · change (if Has dir.disable dir.other.disable then false else _) = false
    split
    · rfl
    · split
      · rename_i hon
        exact absurd hon (by cases dir <;> decide)
      · exact h.off
  · change (if Has dir.disable dir.disable then false else _) = false
    rw [if_pos (has_self dir).2]

/-- A channel with nothing left has moved all its bytes. -/
theorem Running.finished {e : Nat} (h : Running dir n buffer head e t)
    (hzero : t.counter dir = 0) : Progress dir n buffer head e t ∧ ¬ t.Active dir := by
  rcases h with ⟨k', hp, -, hend⟩
  rw [hzero, Nat.zero_add] at hend
  subst hend
  refine ⟨hp, ?_⟩
  intro hact
  have hcount := hact.2
  omega

/-- A successful chunk moves its bytes. -/
theorem runs_dmaChunk (hpos : 1 ≤ size) (hcap : size ≤ 0xffff) (hfit : k + size ≤ n)
    (hs : Between dir n buffer head k s)
    (h : twiPdc.Runs (dmaChunk rounds pTwi dir size k) s (.ok .success) t) :
    Between dir n buffer head (k + size) t := by
  unfold dmaChunk at h
  split at h
  · rcases runs_fail.mp h with ⟨heq, -⟩
    cases heq
  · rcases runs_perform_bind.mp h with ⟨s₁, _, s₂, hm₁, ha₁, h₁⟩
    rcases runs_perform_bind.mp h₁ with ⟨s₃, _, s₄, hm₃, ha₃, h₂⟩
    rcases runs_perform_bind.mp h₂ with ⟨s₅, _, s₆, hm₅, ha₅, h₃⟩
    rcases h₃.of_bind_ok with ⟨rc, s₇, h₄, h₅⟩
    rcases runs_perform_bind.mp h₅ with ⟨s₈, _, s₉, hm₈, ha₈, h₆⟩
    -- with the channel off, nothing moves between the writes of its registers
    rcases (hs.moves hm₁).1.setPointer ha₁ with ⟨hs₂, hptr₂⟩
    rcases hs₂.moves hm₃ with ⟨hs₃, hptr₃, -⟩
    rcases hs₃.setCounter ((congrFun hptr₃ dir).trans hptr₂) hpos hcap hfit ha₃ with
      ⟨hs₄, hptr₄, hcnt₄⟩
    rcases hs₄.moves hm₅ with ⟨hs₅, hptr₅, hcnt₅⟩
    have hs₆ : Running dir n buffer head (k + size) s₆ :=
      hs₅.enable ((congrFun hptr₅ dir).trans hptr₄) ((congrFun hcnt₅ dir).trans hcnt₄) ha₅
    have hrc : rc = .success := by
      split at h₆
      · rcases runs_perform_bind.mp h₆ with ⟨_, _, _, _, _, h₇⟩
        rcases runs_ret.mp h₇ with ⟨heq, -⟩
        cases heq
        rfl
      · rename_i hne
        exact Decidable.not_not.mp hne
    subst hrc
    -- it works until the status shows the end, and is switched off
    rcases runs_dmaWait (fun _ _ hstep hrun => hrun.step hstep) h₄ hs₆ with ⟨hs₇, hzero⟩
    rcases hs₇.finished hzero with ⟨hp₇, hdone⟩
    have hp₈ := (hp₇.idle hdone hm₈).1
    rcases runs_ret.mp h₆ with ⟨-, rfl⟩
    exact hp₈.disable ha₈

/-! ## Single bytes -/

/-- Both channels are off. -/
structure Parked (n : Nat) (t : Twi) : Prop where
  off : ∀ d, t.enabled d = false
  fits : Fits n t

theorem Between.parked (h : Between dir n buffer head k t) : Parked n t := by
  refine ⟨?_, h.progress.fits⟩
  intro d
  have hoff := h.progress.off
  have hoff' := h.off
  cases d <;> cases dir <;> assumption

/-- With the channels off, bytes come in, and the transmit holding register empties. -/
theorem Parked.step (h : Parked n t) (hstep : Step t t') :
    Parked n t' ∧ ((∃ b, t' = t.arrive b) ∨ ∃ b, t.thr = some b ∧ t' = t.shift b) := by
  have hoff : ∀ d, ¬ t.Active d := by
    intro d hact
    have hon := hact.1
    rw [h.off d] at hon
    cases hon
  cases hstep with
  | arrive b => exact ⟨⟨h.off, h.fits⟩, .inl ⟨b, rfl⟩⟩
  | shift b hthr => exact ⟨⟨h.off, h.fits⟩, .inr ⟨b, hthr, rfl⟩⟩
  | receive b hon hrhr => exact absurd hon (hoff _)
  | load hon hthr => exact absurd hon (hoff _)

/-- The state of a read while single bytes are received. -/
structure Receiving (n : Nat) (buffer : Nat → U8) (w : List Wire) (taken kept : List U8) (t : Twi) :
    Prop where
  parked : Parked n t
  received : Received buffer w taken kept t

theorem Receiving.step (h : Receiving n buffer w taken kept t) (hstep : Step t t') :
    Receiving n buffer w taken kept t' ∧ (t.rhr.isSome → t'.rhr.isSome) := by
  rcases h.parked.step hstep with ⟨hs, ⟨b, rfl⟩ | ⟨b, hthr, rfl⟩⟩
  · exact ⟨⟨hs, h.received.arrive b⟩, fun _ => rfl⟩
  · rw [h.received.thr] at hthr
    cases hthr

theorem Receiving.moves (h : Receiving n buffer w taken kept t) (hm : twiPdc.Moves t t') :
    Receiving n buffer w taken kept t' :=
  Moves.invariant (fun _ _ hstep hi => (hi.step hstep).1) hm h

theorem Receiving.moves_ready (h : Receiving n buffer w taken kept t) (hrhr : t.rhr.isSome)
    (hm : twiPdc.Moves t t') : Receiving n buffer w taken kept t' ∧ t'.rhr.isSome :=
  Moves.invariant (I := fun t' : Twi => Receiving n buffer w taken kept t' ∧ t'.rhr.isSome)
    (fun _ _ hstep hi => ⟨(hi.1.step hstep).1, (hi.1.step hstep).2 hi.2⟩) hm ⟨h, hrhr⟩

theorem Receiving.wait {flags : U32} {ticks : Nat} {x : Except Fault TwiStatus}
    (h : Receiving n buffer w taken kept s)
    (hr : twiPdc.Runs (twiWaitForInterrupt pTwi flags ticks) s x t) :
    Receiving n buffer w taken kept t :=
  runs_passive (fun _ _ hstep hi => (hi.step hstep).1) (wait_passive flags ticks) hr h

/-- A byte is taken from the holding register and stored. -/
theorem runs_takeByte (hs : Receiving n buffer w bytes bytes s) (hrhr : s.rhr.isSome)
    {rc : TwiStatus} (h : twiPdc.Runs (do
      perform (.store bytes.length (← perform .readRhr))
      return .success) s (.ok rc) t) :
    ∃ b, Receiving n buffer (w ++ [.take b]) (bytes ++ [b]) (bytes ++ [b]) t := by
  rcases runs_perform_bind.mp h with ⟨s₁, b, s₂, hm₁, ha, h₁⟩
  rcases runs_perform_bind.mp h₁ with ⟨s₃, _, s₄, hm₃, rfl, h₂⟩
  rcases runs_ret.mp h₂ with ⟨-, rfl⟩
  have hs₁ := hs.moves_ready hrhr hm₁
  rcases Option.isSome_iff_exists.mp hs₁.2 with ⟨c, hc⟩
  have hrec := hs₁.1.received
  rcases ha.1 c hc with ⟨rfl, rfl⟩
  -- taken, but not yet stored
  have hs₂ : Receiving n buffer (w ++ [.take b]) (bytes ++ [b]) bytes (s₁.take b) := by
    refine ⟨⟨hs₁.1.parked.off, hs₁.1.parked.fits⟩, ?_, ?_, hrec.stored, hrec.memory, hrec.thr⟩
    · change s₁.wire ++ [.take b] = _
      rw [hrec.wire]
    · intro hover
      have harrived := hrec.arrived hover
      rw [hc] at harrived
      change s₁.arrived = (bytes ++ [b]) ++ []
      rw [harrived]
      simp
  have hs₃ := hs₂.moves hm₃
  have hrec₃ := hs₃.received
  refine ⟨b, ⟨hs₃.parked.off, hs₃.parked.fits⟩, hrec₃.wire, hrec₃.arrived, ?_, ?_, hrec₃.thr⟩
  · change s₃.stored ++ [(bytes.length, b)] = _
    rw [hrec₃.stored, positions_append]
  · change Function.update s₃.memory bytes.length b = _
    rw [hrec₃.memory, patched_append]

/-- A successful pass of the loop has received a byte, or the loop goes on. -/
theorem runs_receivePass {again : Option (DriverProg TwiStatus)}
    (hs : Receiving n buffer w bytes bytes s)
    (h : twiPdc.Runs (receivePass pTwi bytes.length again) s (.ok .success) t) :
    (∃ b, Receiving n buffer (w ++ [.take b]) (bytes ++ [b]) (bytes ++ [b]) t) ∨
      ∃ rest s', again = some rest ∧ Receiving n buffer w bytes bytes s' ∧
        twiPdc.Runs rest s' (.ok .success) t := by
  rcases runs_perform_bind.mp h with ⟨s₁, status, s₂, hm, ⟨rfl, hshows⟩, h₁⟩
  have h₁s := hs.moves hm
  split at h₁
  · rcases runs_ret.mp h₁ with ⟨heq, -⟩
    cases heq
  · cases again with
    | none =>
      rcases runs_ret.mp h₁ with ⟨heq, -⟩
      cases heq
    | some rest =>
      change twiPdc.Runs (if ¬ Has status srRxrdy then _ else _) _ _ _ at h₁
      split at h₁
      · right
        rcases h₁.of_unless with ⟨rc, s₃, h₂, -, h₃⟩
        exact ⟨rest, s₃, rfl, h₁s.wait h₂, h₃⟩
      · rename_i hready
        left
        exact runs_takeByte h₁s (hshows.rxrdy (Decidable.not_not.mp hready)) h₁

theorem runs_receiveByte {timeout : Nat} (hs : Receiving n buffer w bytes bytes s)
    (h : twiPdc.Runs (receiveByte pTwi bytes.length timeout) s (.ok .success) t) :
    ∃ b, Receiving n buffer (w ++ [.take b]) (bytes ++ [b]) (bytes ++ [b]) t := by
  induction timeout generalizing s with
  | zero =>
    rcases runs_receivePass hs h with hb | ⟨_, _, hnone, -⟩
    · exact hb
    · cases hnone
  | succ timeout ih =>
    rcases runs_receivePass hs h with hb | ⟨_, s', hrest, hs', h'⟩
    · exact hb
    · cases hrest
      exact ih hs' h'

/-- The state of a write while single bytes are sent. -/
structure Sending (n : Nat) (buffer : Nat → U8) (w : List Wire) (t : Twi) : Prop where
  parked : Parked n t
  sent : Sent buffer w t

theorem Sending.step (h : Sending n buffer w t) (hstep : Step t t') :
    Sending n buffer w t' ∧ (t.thr = none → t'.thr = none) := by
  rcases h.parked.step hstep with ⟨hs, ⟨b, rfl⟩ | ⟨b, hthr, rfl⟩⟩
  · exact ⟨⟨hs, h.sent.wire, h.sent.stored, h.sent.memory⟩, fun hnone => hnone⟩
  · exact ⟨⟨hs, h.sent.shift hthr⟩, fun _ => rfl⟩

theorem Sending.moves (h : Sending n buffer w t) (hm : twiPdc.Moves t t') :
    Sending n buffer w t' :=
  Moves.invariant (fun _ _ hstep hi => (hi.step hstep).1) hm h

theorem Sending.wait {flags : U32} {ticks : Nat} {x : Except Fault TwiStatus}
    (h : Sending n buffer w s) (hr : twiPdc.Runs (twiWaitForInterrupt pTwi flags ticks) s x t) :
    Sending n buffer w t :=
  runs_passive (fun _ _ hstep hi => (hi.step hstep).1) (wait_passive flags ticks) hr h

theorem Sending.moves_ready (h : Sending n buffer w t) (hthr : t.thr = none)
    (hm : twiPdc.Moves t t') : Sending n buffer w t' ∧ t'.thr = none :=
  Moves.invariant (I := fun t' : Twi => Sending n buffer w t' ∧ t'.thr = none)
    (fun _ _ hstep hi => ⟨(hi.1.step hstep).1, (hi.1.step hstep).2 hi.2⟩) hm ⟨h, hthr⟩

/-- A byte is put into the empty holding register. -/
theorem Sending.setThr {value : U8} (h : Sending n buffer w t) (hthr : t.thr = none)
    (ha : t.answer (.setThr value) () t') : Sending n buffer (w ++ [.put value]) t' := by
  cases ha
  refine ⟨⟨h.parked.off, h.parked.fits⟩, ?_, h.sent.stored, h.sent.memory⟩
  change t.wire ++ [.put value] = _
  rw [h.sent.wire_of_none hthr]

/-- A successful loop has found the holding register empty and put the byte into it. -/
theorem runs_sendByte {value : U8} (hs : Sending n buffer w s)
    (h : twiPdc.Runs (sendByte pTwi value rounds) s (.ok .success) t) :
    Sending n buffer (w ++ [.put value]) t := by
  induction rounds generalizing s with
  | zero =>
    rcases runs_fail.mp h with ⟨heq, -⟩
    cases heq
  | succ rounds ih =>
    rw [sendByte] at h
    rcases runs_perform_bind.mp h with ⟨s₁, status, s₂, hm, ⟨rfl, hshows⟩, h₁⟩
    have h₁s := hs.moves hm
    split at h₁
    · rcases runs_ret.mp h₁ with ⟨heq, -⟩
      cases heq
    · rename_i hnack
      split at h₁
      · rcases h₁.of_unless with ⟨rc, s₃, h₂, -, h₃⟩
        exact ih (h₁s.wait h₂) h₃
      · rename_i hready
        have hthr := hshows.txrdy hnack (Decidable.not_not.mp hready)
        rcases runs_perform_bind.mp h₁ with ⟨s₃, _, s₄, hm₃, ha₃, h₂⟩
        rcases runs_ret.mp h₂ with ⟨-, rfl⟩
        -- the register stays empty until the byte is written
        rcases h₁s.moves_ready hthr hm₃ with ⟨hs₃, hthr₃⟩
        exact hs₃.setThr hthr₃ ha₃

/-- A successful wait ends with the holding register empty. -/
theorem runs_awaitReady (hs : Sending n buffer w s)
    (h : twiPdc.Runs (awaitReady pTwi rounds) s (.ok .success) t) :
    Sending n buffer w t ∧ t.thr = none := by
  induction rounds generalizing s with
  | zero =>
    rcases runs_fail.mp h with ⟨heq, -⟩
    cases heq
  | succ rounds ih =>
    rw [awaitReady] at h
    rcases runs_perform_bind.mp h with ⟨s₁, status, s₂, hm, ⟨rfl, hshows⟩, h₁⟩
    have h₁s := hs.moves hm
    split at h₁
    · rcases runs_ret.mp h₁ with ⟨heq, -⟩
      cases heq
    · rename_i hnack
      split at h₁
      · rename_i hready
        rcases runs_ret.mp h₁ with ⟨-, rfl⟩
        exact ⟨h₁s, hshows.txrdy hnack hready⟩
      · rcases h₁.of_unless with ⟨rc, s₃, h₂, -, h₃⟩
        exact ih (h₁s.wait h₂) h₃

/-! ## The parts of a call -/

/-- A chunk, or a step for a single byte. The last byte of a write is only through when its
holding register is empty. -/
inductive Part (rounds : Nat) (pTwi : Instance) : DriverProg TwiStatus → Prop
  | chunk (dir : Dir) (size offset : Nat) : Part rounds pTwi (dmaChunk rounds pTwi dir size offset)
  | receive (offset : Nat) : Part rounds pTwi (receiveByte pTwi offset twiTimeout)
  | send (value : U8) : Part rounds pTwi (sendByte pTwi value rounds)
  | ready : Part rounds pTwi (awaitReady pTwi rounds)

/-- Whatever part the program gets to, every run of it from there is successful. -/
def PartsComplete (M : Machine Registers) (rounds : Nat) (pTwi : Instance)
    (p : DriverProg TwiStatus) (s : M.State) : Prop :=
  ∀ part k s' x t, Part rounds pTwi part → M.Reaches p s (part >>= k) s' → M.Runs part s' x t →
    x = .ok .success

variable {M : Machine Registers} {s t : M.State} {x : Except Fault TwiStatus}

theorem PartsComplete.reached {p q : DriverProg TwiStatus}
    (h : PartsComplete M rounds pTwi p s) (hr : M.Reaches p s q t) :
    PartsComplete M rounds pTwi q t := by
  intro part k s' x t' hpart hreach hrun
  exact h part k s' x t' hpart (hr.trans hreach) hrun

/-- A run gets behind a part, and its continuation is complete as well. -/
theorem PartsComplete.next {part : DriverProg TwiStatus} {k : TwiStatus → DriverProg TwiStatus}
    (h : PartsComplete M rounds pTwi (part >>= k) s) (hpart : Part rounds pTwi part)
    (hr : M.Runs (part >>= k) s x t) :
    ∃ s', M.Runs part s (.ok .success) s' ∧ PartsComplete M rounds pTwi (k .success) s' ∧
      M.Runs (k .success) s' x t := by
  have hsuccess : ∀ y s', M.Runs part s y s' →
      y = .ok .success ∧ M.Runs part s (.ok .success) s' := by
    intro y s' h₁
    have hy := h part k s _ _ hpart (.refl _ _) h₁
    exact ⟨hy, hy ▸ h₁⟩
  rcases hr.of_bind_value hsuccess with ⟨s', h₁, h₂⟩
  exact ⟨s', h₁, h.reached h₁.reaches, h₂⟩

/-- The same behind an operation. -/
theorem PartsComplete.perform {o : DriverOp} {k : Registers.Res o → DriverProg TwiStatus}
    (h : PartsComplete M rounds pTwi (TwiDriver.perform o >>= k) s)
    (hr : M.Runs (TwiDriver.perform o >>= k) s x t) :
    ∃ r s', M.Runs (TwiDriver.perform o) s (.ok r) s' ∧ PartsComplete M rounds pTwi (k r) s' ∧
      M.Runs (k r) s' x t := by
  rcases runs_perform_bind.mp hr with ⟨s₁, r, s₂, hm, ha, h₁⟩
  have hop : M.Runs (TwiDriver.perform o) s (.ok r) s₂ := .call hm ha (.ret r s₂)
  exact ⟨r, s₂, hop, h.reached hop.reaches, h₁⟩

end TwiDriver
