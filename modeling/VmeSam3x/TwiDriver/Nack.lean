import VmeSam3x.Lib.Machine
import VmeSam3x.TwiDriver.Driver

/-! # A missing acknowledge

When the slave does not acknowledge a byte the controller latches a flag in the status
register, and the next read of the register clears it. The loops of the driver read the
register and look at the flag; the wait for completion reads it and does not look; and
`twi_disable_interrupt` reads it for nothing, from the interrupt handler and after a wait
that timed out. Here the driver runs on a controller that moves between its operations.
-/

namespace TwiDriver

open Interact Bytes Fpga

/-! ## The controller -/

/-- What happens at the status register. -/
inductive SrEvent where
  /-- The slave did not acknowledge. -/
  | latched
  /-- The stop condition was requested. -/
  | stop
  | read (reader : Reader)
deriving DecidableEq

structure Hw where
  nack : Bool
  /-- The flags of `TWI_SR` other than `NACK`. -/
  flags : U32
  /-- The interrupt mask. -/
  imr : U32
  /-- Whether a notification of the task is pending. -/
  notified : Bool
  log : List SrEvent

namespace Hw

/-- `TWI_SR`. -/
def sr (s : Hw) : U32 := if s.nack then s.flags ||| srNack else s.flags &&& ~~~srNack

/-- A read of `TWI_SR` clears the flag. -/
def read (s : Hw) (reader : Reader) : Hw :=
  { s with nack := false, log := s.log ++ [.read reader] }

/-- The flag is raised together with `TXRDY` and `TXCOMP`. -/
def latch (s : Hw) : Hw :=
  { s with nack := true, flags := s.flags ||| srTxrdy ||| srTxcomp, log := s.log ++ [.latched] }

/-- `twi_interrupt_handler`. -/
def interrupt (s : Hw) : Hw :=
  { { s with imr := s.imr &&& ~~~0x0000ff77 }.read .dummy with notified := true }

def setCr (s : Hw) (value : U32) : Hw :=
  if Has value crStop then { s with log := s.log ++ [.stop] } else s

end Hw

/-- What the controller does on its own. -/
inductive Move : Hw → Hw → Prop
  | latch (s : Hw) : Move s s.latch
  /-- The flags that are set and reset automatically. -/
  | change (s : Hw) (flags : U32) : Move s { s with flags := flags }
  | interrupt (s : Hw) (h : Has s.sr s.imr) : Move s s.interrupt
  /-- A notification from elsewhere. -/
  | notify (s : Hw) : Move s { s with notified := true }

/-- How the controller, and the scheduler, answer the driver. -/
inductive Answer : Hw → (o : DriverOp) → Registers.Res o → Hw → Prop
  | readSr (s : Hw) (reader : Reader) : Answer s (.readSr reader) s.sr (s.read reader)
  | readRhr (s : Hw) (value : U8) : Answer s .readRhr value s
  | readCounter (s : Hw) (dir : Dir) (value : Nat) : Answer s (.readCounter dir) value s
  | setMmr (s : Hw) (value : U32) : Answer s (.setMmr value) () s
  | setIadr (s : Hw) (value : U32) : Answer s (.setIadr value) () s
  | setCr (s : Hw) (value : U32) : Answer s (.setCr value) () (s.setCr value)
  | setThr (s : Hw) (value : U8) : Answer s (.setThr value) () s
  | setIer (s : Hw) (flags : U32) : Answer s (.setIer flags) () { s with imr := s.imr ||| flags }
  | setIdr (s : Hw) (flags : U32) :
      Answer s (.setIdr flags) () { s with imr := s.imr &&& ~~~flags }
  | setPointer (s : Hw) (dir : Dir) (offset : Nat) : Answer s (.setPointer dir offset) () s
  | setCounter (s : Hw) (dir : Dir) (value : Nat) : Answer s (.setCounter dir value) () s
  | setPtcr (s : Hw) (value : U32) : Answer s (.setPtcr value) () s
  | store (s : Hw) (offset : Nat) (value : U8) : Answer s (.store offset value) () s
  | notifyStateClear (s : Hw) : Answer s .notifyStateClear () { s with notified := false }
  | woken (s : Hw) (ticks : Nat) (h : s.notified = true) :
      Answer s (.notifyWait ticks) true { s with notified := false }
  | timeout (s : Hw) (ticks : Nat) (h : s.notified = false) : Answer s (.notifyWait ticks) false s

abbrev controller : Machine Registers := ⟨Hw, Move, Answer⟩

/-! ## Who reads the flag -/

/-- A NACK was latched before the stop condition was requested. -/
def EarlyNack (log : List SrEvent) : Prop :=
  ∃ before after, log = before ++ .latched :: after ∧ .stop ∉ before

/-- The first to read the register after each of these looks at the flag. -/
def NackKept (log : List SrEvent) : Prop :=
  ∀ before between reader after, log = before ++ .latched :: (between ++ .read reader :: after) →
    .stop ∉ before → (∀ r, .read r ∉ between) → reader.tests = true

/-- Such a NACK that nobody has read since. -/
def Unread (log : List SrEvent) : Prop :=
  ∃ before after, log = before ++ .latched :: after ∧ .stop ∉ before ∧ ∀ r, .read r ∉ after

variable {log log' : List SrEvent}

theorem NackKept.of_append (h : NackKept (log ++ log')) : NackKept log := by
  intro before between reader after hlog hstop hbetween
  refine h before between reader (after ++ log') ?_ hstop hbetween
  rw [hlog]
  simp

/-- An event that is no NACK, or comes after the stop condition, adds none. -/
theorem EarlyNack.of_append {e : SrEvent} (h : EarlyNack (log ++ [e]))
    (he : e = .latched → .stop ∈ log) : EarlyNack log := by
  rcases h with ⟨before, after, hlog, hstop⟩
  rcases List.eq_nil_or_concat after with rfl | ⟨after', e', rfl⟩
  · rcases List.append_inj' hlog rfl with ⟨rfl, hlast⟩
    exact absurd (he (List.cons.inj hlast).1) hstop
  · have hsplit : log ++ [e] = (before ++ .latched :: after') ++ [e'] := by
      rw [hlog]
      simp
    exact ⟨before, after', (List.append_inj' hsplit rfl).1, hstop⟩

theorem Unread.append {e : SrEvent} (h : Unread log) (he : ∀ r, e ≠ .read r) :
    Unread (log ++ [e]) := by
  rcases h with ⟨before, after, rfl, hstop, hread⟩
  refine ⟨before, after ++ [e], by simp, hstop, ?_⟩
  intro r hr
  rcases List.mem_append.mp hr with hr | hr
  · exact hread r hr
  · exact he r (List.mem_singleton.mp hr).symm

theorem NackKept.not_unread {reader : Reader} (h : NackKept (log ++ [.read reader]))
    (hreader : reader.tests = false) : ¬ Unread log := by
  intro ⟨before, after, hlog, hstop, hread⟩
  have htests := h before after reader [] (by rw [hlog]; simp) hstop hread
  rw [hreader] at htests
  cases htests

/-! ## The invariant -/

/-- No NACK is outstanding. -/
def Settled (s : Hw) : Prop := NackKept s.log → ¬ EarlyNack s.log

/-- A NACK from before the stop condition is still latched, and nobody has read it. -/
def Outstanding (s : Hw) : Prop :=
  NackKept s.log → EarlyNack s.log → s.nack = true ∧ Unread s.log

theorem Settled.outstanding {s : Hw} (h : Settled s) : Outstanding s :=
  fun hk he => absurd he (h hk)

@[simp] theorem has_sr_nack (s : Hw) : Has s.sr srNack ↔ s.nack = true := by
  unfold Has Hw.sr
  cases s.nack with
  | true =>
    have hset : (s.flags ||| srNack) &&& srNack = srNack := by
      ext i
      cases hi : s.flags[i] <;> simp [hi]
    simp only [if_true, hset]
    decide
  | false =>
    have hclear : s.flags &&& ~~~srNack &&& srNack = 0 := by
      ext i
      simp
    simp [hclear]

/-- A read settles, unless it looks at the flag and finds it set. -/
theorem Outstanding.read {s : Hw} {reader : Reader} (h : Outstanding s)
    (hclear : reader.tests = true → ¬ Has s.sr srNack) : Settled (s.read reader) := by
  intro hkept hearly
  rcases h hkept.of_append (hearly.of_append nofun) with ⟨hnack, hunread⟩
  cases hreader : reader.tests with
  | true => exact hclear hreader ((has_sr_nack s).mpr hnack)
  | false => exact hkept.not_unread hreader hunread

theorem Outstanding.latch {s : Hw} (h : Outstanding s) : Outstanding s.latch := by
  intro hkept hearly
  refine ⟨rfl, ?_⟩
  by_cases hstop : .stop ∈ s.log
  · -- too late to count: the one that counts is in the log already
    have hbefore : EarlyNack s.log := hearly.of_append fun _ => hstop
    exact (h hkept.of_append hbefore).2.append nofun
  · exact ⟨s.log, [], rfl, hstop, nofun⟩

/-- The moves of the controller keep the invariant. -/
theorem Outstanding.move {s s' : Hw} (hm : Move s s') (h : Outstanding s) : Outstanding s' := by
  cases hm with
  | latch => exact h.latch
  | change => exact h
  | interrupt =>
    -- the dummy read of the handler; a run that keeps its NACKs has none unread by then
    have hset : Settled (s.read .dummy) := h.read nofun
    exact Settled.outstanding hset
  | notify => exact h

/-- The operations that do not look at the flag. -/
def Untested : DriverOp → Prop
  | .readSr reader => reader.tests = false
  | _ => True

theorem Outstanding.answer {s s' : Hw} {o : DriverOp} {r : Registers.Res o} (ho : Untested o)
    (ha : Answer s o r s') (h : Outstanding s) : Outstanding s' := by
  cases ha with
  | readSr reader =>
    refine (h.read ?_).outstanding
    intro htests
    cases htests.symm.trans ho
  | setCr value =>
    unfold Hw.setCr
    split
    · -- the request of the stop condition is logged
      intro hkept hearly
      rcases h hkept.of_append (hearly.of_append nofun) with ⟨hnack, hunread⟩
      exact ⟨hnack, hunread.append nofun⟩
    · exact h
  | _ => exact h

/-! ## The driver on the controller -/

variable {α : Type} {s t : Hw} {pTwi : Instance} {rounds : Nat}

/-- A part of the driver that never looks at the flag. -/
theorem runs_untested {p : DriverProg α} {x : Except Fault α} (h : controller.Runs p s x t)
    (huses : p.Uses Untested) (hs : Outstanding s) : Outstanding t :=
  h.invariant (I := Outstanding) (fun _ _ hm hs => hs.move hm)
    (fun _ _ _ _ ho ha hs => hs.answer ho ha) huses hs

/-- A status read settles, unless it looks at the flag and finds it set. -/
theorem runs_readSr {reader : Reader} {f : U32 → DriverProg α} {x : Except Fault α}
    (h : controller.Runs (perform (.readSr reader) >>= f) s x t) (hs : Outstanding s) :
    ∃ status s', controller.Runs (f status) s' x t ∧
      ((reader.tests = true → ¬ Has status srNack) → Settled s') := by
  rcases Machine.runs_perform_bind.mp h with ⟨s₁, status, s₂, hm, ha, hr⟩
  have hs₁ : Outstanding s₁ := hm.invariant (I := Outstanding) (fun _ _ hm hs => hs.move hm) hs
  cases ha
  exact ⟨_, _, hr, hs₁.read⟩

/-- Any other operation. -/
theorem runs_perform {o : DriverOp} {f : Registers.Res o → DriverProg α} {x : Except Fault α}
    (h : controller.Runs (perform o >>= f) s x t) (ho : Untested o) (hs : Outstanding s) :
    ∃ r s', controller.Runs (f r) s' x t ∧ Outstanding s' := by
  rcases Machine.runs_perform_bind.mp h with ⟨s₁, r, s₂, hm, ha, hr⟩
  have hs₁ : Outstanding s₁ := hm.invariant (I := Outstanding) (fun _ _ hm hs => hs.move hm) hs
  exact ⟨r, s₂, hr, hs₁.answer ho ha⟩

theorem Waits.untested {o : DriverOp} (h : Waits o) : Untested o := by
  cases o with
  | readSr reader => exact h
  | _ => trivial

theorem wait_untested (flags : U32) (ticks : Nat) :
    (twiWaitForInterrupt pTwi flags ticks).Uses Untested :=
  (wait_waits pTwi flags ticks).mono fun _ h => h.untested

/-- A part of the driver keeps the invariant when it is successful. -/
def Keeps (p : DriverProg TwiStatus) : Prop :=
  ∀ s t, controller.Runs p s (.ok .success) t → Outstanding s → Outstanding t

theorem keeps_ret (rc : TwiStatus) : Keeps (.ret rc) := by
  intro s t h hs
  rcases Machine.runs_ret.mp h with ⟨-, rfl⟩
  exact hs

/-- A pass of a loop that looks at the flag: it ends with the flag set, or goes on settled. -/
theorem keeps_readSr {reader : Reader} {f : U32 → DriverProg TwiStatus}
    (hf : ∀ status, ¬ Has status srNack → Keeps (f status)) :
    Keeps (perform (.readSr reader) >>= fun status =>
      if Has status srNack then .ret .receiveNack else f status) := by
  intro s t h hs
  rcases runs_readSr h hs with ⟨status, s', hr, hset⟩
  split at hr
  · rcases Machine.runs_ret.mp hr with ⟨hx, -⟩
    cases hx
  · rename_i hnack
    exact hf status hnack s' t hr (hset fun _ => hnack).outstanding

/-- A wait, followed by a part that keeps the invariant. -/
theorem keeps_wait {flags : U32} {ticks : Nat} {f : TwiStatus → DriverProg TwiStatus}
    (hf : ∀ rc, Keeps (f rc)) : Keeps (twiWaitForInterrupt pTwi flags ticks >>= f) := by
  intro s t h hs
  rcases h.of_bind_ok with ⟨rc, s', h₁, h₂⟩
  exact hf rc s' t h₂ (runs_untested h₁ (wait_untested _ _) hs)

theorem keeps_perform {o : DriverOp} {f : Registers.Res o → DriverProg TwiStatus} (ho : Untested o)
    (hf : ∀ r, Keeps (f r)) : Keeps (perform o >>= f) := by
  intro s t h hs
  rcases runs_perform h ho hs with ⟨r, s', hr, hs'⟩
  exact hf r s' t hr hs'

theorem keeps_ite {c : Prop} [Decidable c] {p q : DriverProg TwiStatus} (hp : Keeps p)
    (hq : Keeps q) : Keeps (if c then p else q) := by
  split
  · exact hp
  · exact hq

/-- A part that is left with the error of its first part. -/
theorem keeps_seq {p q : DriverProg TwiStatus} (hp : Keeps p) (hq : Keeps q) :
    Keeps (p >>= fun rc => if rc ≠ .success then .ret rc else q) := by
  intro s t h hs
  rcases h.of_unless with ⟨rc, s', h₁, rfl, h₂⟩
  exact hq s' t h₂ (hp s s' h₁ hs)

/-! ## The loops -/

theorem keeps_dmaWait (dir : Dir) (remaining : Nat) (rc : TwiStatus) :
    Keeps (dmaWait pTwi dir rounds remaining rc) := by
  induction rounds generalizing remaining rc with
  | zero =>
    intro s t h
    cases h
  | succ rounds ih =>
    rw [dmaWait]
    refine keeps_readSr fun status hnack => keeps_ite (keeps_ret rc) (keeps_wait fun rc => ?_)
    refine keeps_ite ?_ (keeps_ite (keeps_ret rc) (ih _ _))
    refine keeps_perform trivial fun counter => keeps_ite ?_ (keeps_ret rc)
    exact keeps_perform trivial fun _ => ih _ _

theorem keeps_receiveByte (offset timeout : Nat) : Keeps (receiveByte pTwi offset timeout) := by
  induction timeout with
  | zero => exact keeps_readSr fun _ _ => keeps_ret _
  | succ timeout ih =>
    refine keeps_readSr fun _ _ => keeps_ite (keeps_wait fun rc => keeps_ite (keeps_ret rc) ih) ?_
    exact keeps_perform trivial fun b => keeps_perform trivial fun _ => keeps_ret _

theorem keeps_receiveBytes (cnt offset : Nat) : Keeps (receiveBytes pTwi cnt offset) := by
  induction cnt generalizing offset with
  | zero => exact keeps_ret _
  | succ cnt ih => exact keeps_seq (keeps_receiveByte _ _) (ih _)

theorem keeps_sendByte (value : U8) : Keeps (sendByte pTwi value rounds) := by
  induction rounds with
  | zero =>
    intro s t h
    cases h
  | succ rounds ih =>
    refine keeps_readSr fun _ _ => keeps_ite (keeps_wait fun rc => keeps_ite (keeps_ret rc) ih) ?_
    exact keeps_perform trivial fun _ => keeps_ret _

theorem keeps_sendBytes (buffer : Nat → U8) (cnt offset : Nat) :
    Keeps (sendBytes rounds pTwi buffer cnt offset) := by
  induction cnt generalizing offset with
  | zero => exact keeps_ret _
  | succ cnt ih => exact keeps_seq (keeps_sendByte _) (ih _)

theorem keeps_awaitReady : Keeps (awaitReady pTwi rounds) := by
  induction rounds with
  | zero =>
    intro s t h
    cases h
  | succ rounds ih =>
    refine keeps_readSr fun _ _ => keeps_ite (keeps_ret _) (keeps_wait fun rc => ?_)
    exact keeps_ite (keeps_ret rc) ih

theorem keeps_dmaChunk (dir : Dir) (size offset : Nat) :
    Keeps (dmaChunk rounds pTwi dir size offset) := by
  unfold dmaChunk
  refine keeps_ite ?_ ?_
  · intro s t h
    cases h
  · refine keeps_perform trivial fun _ => keeps_perform trivial fun _ =>
      keeps_perform trivial fun _ => ?_
    intro s t h hs
    rcases h.of_bind_ok with ⟨rc, s', h₁, h₂⟩
    by_cases hrc : rc = .success
    · -- disabling the DMA does not touch the status register
      rw [hrc] at h₁
      have hs' : Outstanding s' := keeps_dmaWait dir size .success s s' h₁ hs
      rcases runs_perform h₂ trivial hs' with ⟨_, s₂, h₃, hs₂⟩
      rw [if_neg (not_not.mpr hrc)] at h₃
      exact keeps_ret .success s₂ t (hrc ▸ h₃) hs₂
    · -- an error of the wait is the error of the chunk
      rcases Machine.runs_perform_bind.mp h₂ with ⟨s₁, _, s₂, -, -, h₃⟩
      rw [if_pos hrc] at h₃
      rcases Machine.runs_perform_bind.mp h₃ with ⟨s₃, _, s₄, -, -, h₄⟩
      rcases Machine.runs_ret.mp h₄ with ⟨hx, -⟩
      exact absurd (Except.ok.inj hx).symm hrc

/-- The DMA phase keeps the invariant when it is successful. -/
theorem runs_dmaPhase {dir : Dir} {cnt offset : Nat} {r : TwiStatus × Nat × Nat}
    (h : controller.Runs (dmaPhase rounds pTwi dir cnt offset) s (.ok r) t)
    (hr : r.1 = .success) (hs : Outstanding s) : Outstanding t := by
  induction cnt using Nat.strong_induction_on generalizing offset s with
  | _ cnt ih =>
    rw [dmaPhase] at h
    split at h
    · rename_i hcnt
      rcases h.of_bind_ok with ⟨rc, s', h₁, h₂⟩
      split at h₂
      · rename_i hrc
        rcases Machine.runs_ret.mp h₂ with ⟨hx, -⟩
        rw [Except.ok.inj hx] at hr
        exact absurd hr hrc
      · rename_i hrc
        rw [not_not.mp hrc] at h₁
        have hless : cnt - dir.transferSize cnt < cnt := by
          have := dir.transferSize_pos hcnt
          omega
        exact ih _ hless h₂ (keeps_dmaChunk dir _ _ s s' h₁ hs)
    · rcases Machine.runs_ret.mp h with ⟨-, rfl⟩
      exact hs

/-! ## Success -/

/-- No NACK is outstanding when this part of the driver is successful. -/
def Settles (p : DriverProg TwiStatus) : Prop :=
  ∀ s t, controller.Runs p s (.ok .success) t → Outstanding s → Settled t

theorem settles_seq {p q : DriverProg TwiStatus} (hp : Keeps p) (hq : Settles q) :
    Settles (p >>= fun rc => if rc ≠ .success then .ret rc else q) := by
  intro s t h hs
  rcases h.of_unless with ⟨rc, s', h₁, rfl, h₂⟩
  exact hq s' t h₂ (hp s s' h₁ hs)

theorem settles_perform {o : DriverOp} {f : Registers.Res o → DriverProg TwiStatus}
    (ho : Untested o) (hf : ∀ r, Settles (f r)) : Settles (perform o >>= f) := by
  intro s t h hs
  rcases runs_perform h ho hs with ⟨r, s', hr, hs'⟩
  exact hf r s' t hr hs'

/-- An error settles anything. -/
theorem settles_error {rc : TwiStatus} (hrc : rc ≠ .success) : Settles (.ret rc) := by
  intro s t h
  rcases Machine.runs_ret.mp h with ⟨hx, -⟩
  exact absurd (Except.ok.inj hx).symm hrc

/-- A pass of the wait for completion. -/
theorem settles_complete {q : DriverProg TwiStatus} (hq : Settles q) :
    Settles (perform (.readSr .complete) >>= fun status =>
      if Has status srTxcomp then .ret .success else q) := by
  intro s t h hs
  rcases runs_readSr h hs with ⟨status, s', hr, hset⟩
  -- this read does not look at the flag, so there was no NACK for it to clear
  have hs' : Settled s' := hset nofun
  split at hr
  · rcases Machine.runs_ret.mp hr with ⟨-, rfl⟩
    exact hs'
  · exact hq s' t hr hs'.outstanding

theorem settles_completeWrite (timeout : Nat) : Settles (completeWrite timeout) := by
  induction timeout with
  | zero => exact settles_complete (settles_error nofun)
  | succ timeout ih => exact settles_complete ih

theorem settles_completeRead (timeout : Nat) : Settles (completeRead pTwi timeout) := by
  have hpass : ∀ again : DriverProg TwiStatus, Settles again →
      Settles (twiWaitForInterrupt pTwi srTxcomp 1 >>= fun rc =>
        if rc = .errorTimeout then .ret .errorTimeoutComp
        else if rc ≠ .success then .ret rc else again) := by
    intro again hagain s t h hs
    rcases h.of_bind_ok with ⟨rc, s', h₁, h₂⟩
    have hs' : Outstanding s' := runs_untested h₁ (wait_untested _ _) hs
    split at h₂
    · have hne : TwiStatus.errorTimeoutComp ≠ .success := nofun
      exact settles_error hne s' t h₂ hs'
    · split at h₂
      · rename_i hrc
        exact settles_error hrc s' t h₂ hs'
      · exact hagain s' t h₂ hs'
  induction timeout with
  | zero => exact settles_complete (hpass _ (settles_error nofun))
  | succ timeout ih => exact settles_complete (hpass _ ih)

/-- A DMA phase followed by a final phase. -/
theorem settles_phases {dir : Dir} {cnt : Nat} {finish : Nat → Nat → DriverProg TwiStatus}
    (hfinish : ∀ left offset, Settles (finish left offset)) :
    Settles (dmaPhase rounds pTwi dir cnt 0 >>= fun r =>
      if r.1 ≠ .success then .ret r.1 else finish r.2.1 r.2.2) := by
  intro s t h hs
  rcases h.of_unless with ⟨r, s', h₁, hcode, h₂⟩
  exact hfinish _ _ s' t h₂ (runs_dmaPhase h₁ hcode hs)

theorem settles_finishRead (cnt left offset : Nat) : Settles (finishRead pTwi cnt left offset) := by
  intro s t h hs
  rcases h.of_bind_ok with ⟨_, s', h₁, h₂⟩
  have hstop : (stopUnlessSent cnt).Uses Untested :=
    Prog.Uses.ite ⟨trivial, fun _ => trivial⟩ trivial
  exact settles_seq (keeps_receiveBytes _ _) (settles_completeRead _) s' t h₂
    (runs_untested h₁ hstop hs)

theorem settles_finishWrite (buffer : Nat → U8) (left offset : Nat) :
    Settles (finishWrite rounds pTwi buffer left offset) := by
  refine settles_seq (keeps_sendBytes _ _ _) (settles_seq keeps_awaitReady ?_)
  exact settles_perform trivial fun _ => settles_completeWrite _

/-- A call that is successful leaves no NACK outstanding. -/
theorem settles_transfer (dir : Dir) (packet : Packet) :
    Settles (transfer dir rounds pTwi packet) := by
  cases dir with
  | rx =>
    rw [transfer, twiMasterRead]
    split
    · exact settles_error nofun
    · refine settles_perform trivial fun _ => settles_perform trivial fun _ =>
        settles_perform trivial fun _ => settles_perform trivial fun _ =>
        settles_perform trivial fun _ => settles_phases ?_
      exact settles_finishRead _
  | tx =>
    rw [transfer, twiMasterWrite]
    split
    · exact settles_error nofun
    · refine settles_perform trivial fun _ => settles_perform trivial fun _ =>
        settles_perform trivial fun _ => settles_perform trivial fun _ => settles_phases ?_
      exact settles_finishWrite _

/-- **A NACK is not swallowed** in any run in which the first to read the status register
after it looks at the flag: if a NACK was latched before the stop condition was requested,
the call is not successful. -/
theorem nack_reported (dir : Dir) (rounds : Nat) (pTwi : Instance) (packet : Packet) (s t : Hw)
    (x : Except Fault TwiStatus) (hs : s.log = [])
    (h : controller.Runs (transfer dir rounds pTwi packet) s x t) (hkept : NackKept t.log)
    (hearly : EarlyNack t.log) : x ≠ .ok .success := by
  intro hx
  subst hx
  have hinit : Settled s := by
    intro _ ⟨before, after, hlog, _⟩
    rw [hs] at hlog
    exact absurd hlog.symm (List.append_ne_nil_of_right_ne_nil before (List.cons_ne_nil _ _))
  exact settles_transfer dir packet s t h hinit.outstanding hkept hearly

/-! ## Runs on a packet of one byte -/

/-- A write of one byte to the chip at `0x30`. -/
def oneByte : Packet := ⟨fun _ => 0, 0, fun _ => 0x31, 1, 0x30⟩

/-- An idle controller. -/
def idle : Hw := ⟨false, srTxrdy ||| srTxcomp, 0, false, []⟩

theorem transfer_oneByte :
    transfer .tx 2 .twi1 oneByte = (do
      perform (.setMmr 0)
      perform (.setMmr (mmrAddress oneByte))
      perform (.setIadr 0)
      perform (.setIadr 0)
      finishWrite 2 .twi1 oneByte.buffer 1 0) := by
  have hcall : transfer .tx 2 .twi1 oneByte = (do
      perform (.setMmr 0)
      perform (.setMmr (mmrAddress oneByte))
      perform (.setIadr 0)
      perform (.setIadr 0)
      let r ← dmaPhase 2 .twi1 .tx 1 0
      if r.1 ≠ .success then return r.1 else finishWrite 2 .twi1 oneByte.buffer r.2.1 r.2.2) := rfl
  rw [hcall, dmaPhase]
  rfl

/-- The byte is not acknowledged while the driver waits for `TXRDY`: the interrupt handler
clears the flag, and the write is successful. -/
theorem nack_swallowed_by_interrupt :
    ∃ t, controller.Runs (transfer .tx 2 .twi1 oneByte) idle (.ok .success) t ∧
      EarlyNack t.log := by
  refine ⟨⟨false, 0 ||| srTxrdy ||| srTxcomp, (0 ||| (srNack ||| srTxrdy)) &&& ~~~0x0000ff77, false,
    [.read .byte, .read .ready, .latched, .read .dummy, .read .ready, .stop, .read .complete]⟩, ?_,
    [.read .byte, .read .ready], _, rfl, by decide⟩
  rw [transfer_oneByte]
  refine .call .refl (.setMmr _ _) ?_
  refine .call .refl (.setMmr _ _) ?_
  refine .call .refl (.setIadr _ _) ?_
  refine .call .refl (.setIadr _ _) ?_
  refine .call .refl (.readSr _ _) ?_
  refine .call .refl (.setThr _ _) ?_
  -- the byte is in the shifter
  refine .call (.single (.change _ 0)) (.readSr _ _) ?_
  refine .call .refl (.notifyStateClear _) ?_
  refine .call .refl (.setIer _ _) ?_
  refine .call (.tail (.single (.latch _)) (.interrupt _ (by decide))) (.woken _ _ rfl) ?_
  refine .call .refl (.readSr _ _) ?_
  refine .call .refl (.setCr _ _) ?_
  refine .call .refl (.readSr _ _) ?_
  exact .ret _ _

/-- The chip does not acknowledge, and the loop for the byte is the first to read the
register. -/
theorem nack_reported_oneByte :
    ∃ t, controller.Runs (transfer .tx 2 .twi1 oneByte) idle (.ok .receiveNack) t ∧
      EarlyNack t.log ∧ (.ok .receiveNack : Except Fault TwiStatus) ≠ .ok .success := by
  have hrun : controller.Runs (transfer .tx 2 .twi1 oneByte) idle (.ok .receiveNack)
      (idle.latch.read .byte) := by
    rw [transfer_oneByte]
    refine .call .refl (.setMmr _ _) ?_
    refine .call .refl (.setMmr _ _) ?_
    refine .call .refl (.setIadr _ _) ?_
    refine .call .refl (.setIadr _ _) ?_
    refine .call (.single (.latch _)) (.readSr _ _) ?_
    exact .ret _ _
  have hearly : EarlyNack (idle.latch.read .byte).log := ⟨[], _, rfl, nofun⟩
  have hkept : NackKept (idle.latch.read .byte).log := by
    intro before between reader after hlog _ _
    have hmem : .read reader ∈ [SrEvent.latched, .read .byte] := by
      change .read reader ∈ (idle.latch.read .byte).log
      rw [hlog]
      simp
    have hreader : reader = .byte := by simpa using hmem
    rw [hreader]
    rfl
  exact ⟨_, hrun, hearly, nack_reported .tx 2 .twi1 oneByte idle _ _ rfl hrun hkept hearly⟩

end TwiDriver
