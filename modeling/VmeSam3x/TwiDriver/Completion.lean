import VmeSam3x.TwiDriver.Driver

/-! # Completed DMA transfers

The loop that waits for a DMA transfer keeps its result code from one round to the next. A
wait that times out while the counter still moves continues the loop with the code for a
timeout, and when the next status word shows the end of the transfer, that code is what the
loop leaves.
-/

namespace TwiDriver

open Interact Bytes Fpga

/-! ## What a run reports -/

/-- A status word of the DMA loop that shows the end of the transfer. -/
def Completed (dir : Dir) : Event Registers → Prop
  | ⟨.readSr .dma, status⟩ => ¬ Has status srNack ∧ Has status dir.buffer
  | _ => False

/-- The first operation of the next chunk or of the final phase. -/
def Dir.Continues (dir : Dir) : DriverOp → Prop
  | .setPointer dir' _ => dir' = dir
  | .setCr value => dir = .rx ∧ value = crStop
  | .readSr reader => dir = .tx ∧ (reader = .byte ∨ reader = .ready)
  | _ => False

/-- After the end of a transfer: the DMA is switched off, and the call goes on. -/
def GoesOn (dir : Dir) : List (Event Registers) → Prop
  | off :: next :: _ => off.op = .setPtcr dir.disable ∧ dir.Continues next.op
  | _ => False

/-- Every transfer that completes is treated as successful. -/
def Reported (dir : Dir) : List (Event Registers) → Prop
  | [] => True
  | e :: rest => (Completed dir e → GoesOn dir rest) ∧ Reported dir rest

/-- Whether the last wait of the current chunk timed out. -/
def timedOut (before : Bool) : Event Registers → Bool
  | ⟨.notifyWait _, woken⟩ => !woken
  | ⟨.setPtcr _, _⟩ => false
  | _ => before

/-- No transfer completes right after a wait that timed out. -/
def Punctual (dir : Dir) : Bool → List (Event Registers) → Prop
  | _, [] => True
  | late, e :: rest => (Completed dir e → late = false) ∧ Punctual dir (timedOut late e) rest

variable {dir : Dir} {evs rest : List (Event Registers)} {late : Bool} {pTwi : Instance}
  {rounds : Nat}

/-- Events that complete no transfer. -/
abbrev Quiet (dir : Dir) (evs : List (Event Registers)) : Prop := ∀ e ∈ evs, ¬ Completed dir e

theorem reported_append (h : Quiet dir evs) : Reported dir (evs ++ rest) ↔ Reported dir rest := by
  induction evs with
  | nil => rfl
  | cons e evs ih =>
    have he : ¬ Completed dir e := h e List.mem_cons_self
    have hevs : Quiet dir evs := fun e' he' => h e' (List.mem_cons_of_mem e he')
    rw [List.cons_append, Reported, ih hevs]
    exact ⟨fun hr => hr.2, fun hr => ⟨fun hc => absurd hc he, hr⟩⟩

theorem punctual_append (h : Quiet dir evs) :
    Punctual dir late (evs ++ rest) ↔ Punctual dir (evs.foldl timedOut late) rest := by
  induction evs generalizing late with
  | nil => rfl
  | cons e evs ih =>
    have he : ¬ Completed dir e := h e List.mem_cons_self
    have hevs : Quiet dir evs := fun e' he' => h e' (List.mem_cons_of_mem e he')
    rw [List.cons_append, Punctual, ih hevs, List.foldl_cons]
    exact ⟨fun hr => hr.2, fun hr => ⟨fun hc => absurd hc he, hr⟩⟩

theorem Quiet.append (h : Quiet dir evs) (h' : Quiet dir rest) : Quiet dir (evs ++ rest) := by
  intro e he
  rcases List.mem_append.mp he with he | he
  · exact h e he
  · exact h' e he

theorem Quiet.cons {e : Event Registers} (h : Quiet dir evs) (he : ¬ Completed dir e) :
    Quiet dir (e :: evs) := by
  intro e' he'
  rcases List.mem_cons.mp he' with rfl | he'
  · exact he
  · exact h e' he'

/-! ## The wait -/

/-- Everything but the status reads of the DMA loop. -/
def OutsideDma (o : DriverOp) : Prop := o ≠ .readSr .dma

theorem quiet_of_outsideDma (h : ∀ e ∈ evs, OutsideDma e.op) : Quiet dir evs := by
  intro e he hc
  have ho := h e he
  rcases e with ⟨o, r⟩
  cases o with
  | readSr reader =>
    cases reader with
    | dma => exact ho rfl
    | _ => exact hc
  | _ => exact hc

theorem Waits.outsideDma {o : DriverOp} (h : Waits o) : OutsideDma o := by
  intro hdma
  rw [hdma] at h
  cases h

theorem wait_outsideDma (flags : U32) (ticks : Nat) :
    (twiWaitForInterrupt pTwi flags ticks).Uses OutsideDma :=
  (wait_waits pTwi flags ticks).mono fun _ h => h.outsideDma

/-- The code the loop carries is the one of the last wait. -/
def Carries (rc : TwiStatus) (late : Bool) : Prop :=
  rc = .success ∧ late = false ∨ rc = .errorTimeout ∧ late = true

/-- The wait of the DMA loop: it times out exactly when the task is not notified. -/
theorem path_wait (dir : Dir) (late : Bool) {flags : U32} {ticks : Nat} {x : Except Fault TwiStatus}
    (hp : Prog.Path (twiWaitForInterrupt pTwi flags ticks) evs x) :
    ∃ rc, x = .ok rc ∧ Quiet dir evs ∧
      (Carries rc (evs.foldl timedOut late) ∨ rc ≠ .success ∧ rc ≠ .errorTimeout) := by
  have hquiet : Quiet dir evs := quiet_of_outsideDma (hp.uses (wait_outsideDma flags ticks))
  unfold twiWaitForInterrupt at hp
  split at hp
  · rename_i hother
    rcases Prog.path_ret.mp hp with ⟨rfl, rfl⟩
    cases pTwi with
    | twi0 => exact absurd rfl hother
    | twi1 => exact absurd rfl hother
    | other => exact ⟨_, rfl, hquiet, .inr ⟨nofun, nofun⟩⟩
  · rcases Prog.path_perform_bind.mp hp with ⟨_, evs₁, rfl, h₁⟩
    rcases Prog.path_perform_bind.mp h₁ with ⟨_, evs₂, rfl, h₂⟩
    rcases Prog.path_perform_bind.mp h₂ with ⟨woken, evs₃, rfl, h₃⟩
    cases woken with
    | true =>
      rcases Prog.path_ret.mp h₃ with ⟨rfl, rfl⟩
      exact ⟨_, rfl, hquiet, .inl (.inl ⟨rfl, rfl⟩)⟩
    | false =>
      rcases Prog.path_perform_bind.mp h₃ with ⟨_, evs₄, rfl, h₄⟩
      rcases Prog.path_perform_bind.mp h₄ with ⟨_, evs₅, rfl, h₅⟩
      rcases Prog.path_ret.mp h₅ with ⟨rfl, rfl⟩
      exact ⟨_, rfl, hquiet, .inl (.inr ⟨rfl, rfl⟩)⟩

/-! ## The loop -/

/-- How a run ends in the status word that shows the end of the transfer: with the code for
a timeout exactly when the last wait timed out. -/
def EndsComplete (dir : Dir) (late : Bool) (evs : List (Event Registers))
    (x : Except Fault TwiStatus) : Prop :=
  ∃ init status, evs = init ++ [⟨.readSr .dma, status⟩] ∧ Quiet dir init ∧
    Completed dir ⟨.readSr .dma, status⟩ ∧
    (x = .ok .success ∧ init.foldl timedOut late = false ∨
      x = .ok .errorTimeout ∧ init.foldl timedOut late = true)

theorem EndsComplete.cons {x : Except Fault TwiStatus} {before : List (Event Registers)}
    (hq : Quiet dir before) (h : EndsComplete dir (before.foldl timedOut late) evs x) :
    EndsComplete dir late (before ++ evs) x := by
  rcases h with ⟨init, status, rfl, hinit, hc, hx⟩
  refine ⟨before ++ init, status, by rw [List.append_assoc], hq.append hinit, hc, ?_⟩
  rw [List.foldl_append]
  exact hx

/-- One round of the loop. It ends the loop with an error, it finds the transfer complete, or the
loop goes on with the code of this round's wait. -/
theorem path_dmaRound {remaining : Nat} {rc : TwiStatus} {x : Except Fault TwiStatus}
    (hp : Prog.Path (dmaWait pTwi dir (rounds + 1) remaining rc) evs x) (late : Bool) :
    Quiet dir evs ∧ x ≠ .ok .success ∨
      (∃ status, evs = [⟨.readSr .dma, status⟩] ∧ Completed dir ⟨.readSr .dma, status⟩ ∧
        x = .ok rc) ∨
      ∃ before evs' remaining' rc', evs = before ++ evs' ∧ Quiet dir before ∧
        Carries rc' (before.foldl timedOut late) ∧
        Prog.Path (dmaWait pTwi dir rounds remaining' rc') evs' x := by
  rw [dmaWait] at hp
  rcases Prog.path_perform_bind.mp hp with ⟨status, evs₁, rfl, h₁⟩
  split at h₁
  · -- a NACK ends the loop before the transfer is looked at
    rename_i hnack
    rcases Prog.path_ret.mp h₁ with ⟨rfl, rfl⟩
    have hread : ¬ Completed dir ⟨.readSr .dma, status⟩ := fun hc => hc.1 hnack
    exact .inl ⟨Quiet.cons nofun hread, nofun⟩
  · rename_i hnack
    split at h₁
    · -- completed: the loop is left with the code it carries
      rename_i hdone
      rcases Prog.path_ret.mp h₁ with ⟨rfl, rfl⟩
      exact .inr (.inl ⟨status, rfl, ⟨hnack, hdone⟩, rfl⟩)
    · rename_i hdone
      have hread : ¬ Completed dir ⟨.readSr .dma, status⟩ := fun hc => hdone hc.2
      rcases Prog.path_bind_of_ok (fun _ _ h => path_wait dir late h) h₁ with
        ⟨rc', evs₂, evs₃, rfl, ⟨hquiet, hout⟩, h₃⟩
      have hstart : Quiet dir (⟨.readSr .dma, status⟩ :: evs₂) := hquiet.cons hread
      rcases hout with (⟨rfl, hlate⟩ | ⟨rfl, hlate⟩) | ⟨hne, hne'⟩
      · -- notified: the next round starts with the code for success
        exact .inr (.inr ⟨_, evs₃, remaining, .success, rfl, hstart, .inl ⟨rfl, hlate⟩, h₃⟩)
      · rcases Prog.path_perform_bind.mp h₃ with ⟨counter, evs₄, rfl, h₄⟩
        split at h₄
        · -- progress: the next round starts with the code for a timeout
          rcases Prog.path_perform_bind.mp h₄ with ⟨counter', evs₅, rfl, h₅⟩
          have hbefore : Quiet dir (⟨.readSr .dma, status⟩ :: evs₂ ++
              [⟨.readCounter dir, counter⟩, ⟨.readCounter dir, counter'⟩]) :=
            hstart.append (Quiet.cons (Quiet.cons nofun nofun) nofun)
          have htimeout : List.foldl timedOut late (⟨.readSr .dma, status⟩ :: evs₂ ++
              [⟨.readCounter dir, counter⟩, ⟨.readCounter dir, counter'⟩]) = true := by
            rw [List.foldl_append, List.foldl_cons]
            exact hlate
          refine .inr (.inr ⟨_, evs₅, _, _, ?_, hbefore, .inr ⟨rfl, htimeout⟩, h₅⟩)
          rw [List.append_assoc]
          rfl
        · -- no progress
          rcases Prog.path_ret.mp h₄ with ⟨rfl, rfl⟩
          exact .inl ⟨hstart.append (Quiet.cons nofun nofun), nofun⟩
      · -- the wait itself failed
        rw [if_neg hne', if_pos hne] at h₃
        rcases Prog.path_ret.mp h₃ with ⟨rfl, rfl⟩
        refine .inl ⟨by simpa using hstart, ?_⟩
        intro hok
        exact hne (Except.ok.inj hok)

/-- A run of the loop ends in a completed transfer, or completes none and reports an error. -/
theorem path_dmaWait {remaining : Nat} {rc : TwiStatus} {x : Except Fault TwiStatus}
    (hp : Prog.Path (dmaWait pTwi dir rounds remaining rc) evs x) (hrc : Carries rc late) :
    Quiet dir evs ∧ x ≠ .ok .success ∨ EndsComplete dir late evs x := by
  induction rounds generalizing evs remaining rc late with
  | zero =>
    rcases Prog.path_fail.mp hp with ⟨rfl, rfl⟩
    exact .inl ⟨nofun, nofun⟩
  | succ rounds ih =>
    rcases path_dmaRound hp late with
      hstop | ⟨status, rfl, hc, rfl⟩ | ⟨before, evs', _, rc', rfl, hbefore, hrc', h⟩
    · exact .inl hstop
    · refine .inr ⟨[], status, rfl, nofun, hc, ?_⟩
      rcases hrc with ⟨rfl, rfl⟩ | ⟨rfl, rfl⟩
      · exact .inl ⟨rfl, rfl⟩
      · exact .inr ⟨rfl, rfl⟩
    · -- the round's wait decides which code the rest of the loop carries
      rcases ih h hrc' with ⟨hq, hx⟩ | hends
      · exact .inl ⟨hbefore.append hq, hx⟩
      · exact .inr (EndsComplete.cons hbefore hends)

/-! ## The chunks -/

/-- The set-up of a chunk. -/
def chunkStart (dir : Dir) (size offset : Nat) : List (Event Registers) :=
  [⟨.setPointer dir offset, ()⟩, ⟨.setCounter dir size, ()⟩, ⟨.setPtcr dir.enable, ()⟩]

/-- The runs of a chunk. It completes no transfer and reports an error; or the transfer
completes and the chunk is successful; or the transfer completes and, since the last wait
timed out, it is given up. -/
theorem path_dmaChunk {size offset : Nat} {x : Except Fault TwiStatus}
    (hp : Prog.Path (dmaChunk rounds pTwi dir size offset) evs x) :
    Quiet dir evs ∧ x ≠ .ok .success ∨
      ∃ init e, Quiet dir init ∧ Completed dir e ∧
        (x = .ok .success ∧ (∀ late, init.foldl timedOut late = false) ∧
            evs = init ++ [e, ⟨.setPtcr dir.disable, ()⟩] ∨
          x = .ok .errorTimeout ∧ (∀ late, init.foldl timedOut late = true) ∧
            evs = init ++ [e, ⟨.setPtcr dir.disable, ()⟩, ⟨.setCounter dir 0, ()⟩]) := by
  unfold dmaChunk at hp
  split at hp
  · rcases Prog.path_fail.mp hp with ⟨rfl, rfl⟩
    exact .inl ⟨nofun, nofun⟩
  · rcases Prog.path_perform_bind.mp hp with ⟨_, evs₁, rfl, h₁⟩
    rcases Prog.path_perform_bind.mp h₁ with ⟨_, evs₂, rfl, h₂⟩
    rcases Prog.path_perform_bind.mp h₂ with ⟨_, evs₃, rfl, h₃⟩
    change Quiet dir (chunkStart dir size offset ++ evs₃) ∧ _ ∨
      ∃ init e, _ ∧ _ ∧ (_ ∧ _ ∧ chunkStart dir size offset ++ evs₃ = _ ∨
        _ ∧ _ ∧ chunkStart dir size offset ++ evs₃ = _)
    have hstart : Quiet dir (chunkStart dir size offset) :=
      Quiet.cons (Quiet.cons (Quiet.cons nofun nofun) nofun) nofun
    have hlate : ∀ late, (chunkStart dir size offset).foldl timedOut late = false := fun _ => rfl
    rcases Prog.path_bind.mp h₃ with ⟨rc, evs₄, evs₅, rfl, h₄, h₅⟩ | ⟨e, rfl, h₄⟩
    · rcases Prog.path_perform_bind.mp h₅ with ⟨_, evs₆, rfl, h₆⟩
      rcases path_dmaWait h₄ (.inl ⟨rfl, rfl⟩) with ⟨hq, hx⟩ | ⟨init, status, rfl, hq, hc, hx⟩
      · -- the transfer has not completed, and the counter is cleared
        have hrc : rc ≠ .success := fun h => hx (congrArg Except.ok h)
        rw [if_pos hrc] at h₆
        rcases Prog.path_perform_bind.mp h₆ with ⟨_, evs₇, rfl, h₇⟩
        rcases Prog.path_ret.mp h₇ with ⟨rfl, rfl⟩
        exact .inl ⟨hstart.append (hq.append (Quiet.cons (Quiet.cons nofun nofun) nofun)), hx⟩
      · right
        refine ⟨chunkStart dir size offset ++ init, _, hstart.append hq, hc, ?_⟩
        rcases hx with ⟨hx, hinit⟩ | ⟨hx, hinit⟩
        · cases hx
          rcases Prog.path_ret.mp h₆ with ⟨rfl, rfl⟩
          refine .inl ⟨rfl, ?_, by simp⟩
          intro late
          rw [List.foldl_append, hlate, hinit]
        · cases hx
          rcases Prog.path_perform_bind.mp h₆ with ⟨_, evs₇, rfl, h₇⟩
          rcases Prog.path_ret.mp h₇ with ⟨rfl, rfl⟩
          refine .inr ⟨rfl, ?_, by simp⟩
          intro late
          rw [List.foldl_append, hlate, hinit]
    · rcases path_dmaWait h₄ (.inl ⟨rfl, rfl⟩) with ⟨hq, -⟩ | ⟨_, _, _, _, _, hx⟩
      · exact .inl ⟨hstart.append hq, nofun⟩
      · rcases hx with ⟨hx, -⟩ | ⟨hx, -⟩ <;> cases hx

/-- A chunk starts with the pointer of its transfer. -/
theorem starts_dmaPhase {cnt offset : Nat} {x : Except Fault (TwiStatus × Nat × Nat)}
    (hp : Prog.Path (dmaPhase rounds pTwi dir cnt offset) evs x) (hcnt : 1 < cnt)
    (hpdc : pTwi ≠ .other) : ∃ evs', evs = ⟨.setPointer dir offset, ()⟩ :: evs' := by
  rw [dmaPhase, dif_pos hcnt, dmaChunk, if_neg hpdc] at hp
  rcases Prog.path_call.mp hp with ⟨_, evs', rfl, -⟩
  exact ⟨evs', rfl⟩

theorem pdc_of_chunk {size offset : Nat} {rc : TwiStatus}
    (hp : Prog.Path (dmaChunk rounds pTwi dir size offset) evs (.ok rc)) : pTwi ≠ .other := by
  intro hother
  rw [dmaChunk, if_pos hother] at hp
  cases hp

/-- The events after the DMA phase: none after an error, and otherwise the final phase,
which goes on from a completed transfer. -/
def Follows (dir : Dir) (cnt : Nat) (x : Except Fault (TwiStatus × Nat × Nat))
    (rest : List (Event Registers)) : Prop :=
  Quiet dir rest ∧
    ((∃ left offset, x = .ok (.success, left, offset) ∧
        (1 < cnt → ∃ next rest', rest = next :: rest' ∧ dir.Continues next.op)) ∨
      (∀ left offset, x ≠ .ok (.success, left, offset)) ∧ rest = [])

theorem Follows.next {cnt : Nat} {x : Except Fault (TwiStatus × Nat × Nat)}
    (h : Follows dir cnt x rest) (hcnt : 1 < cnt) (cnt' : Nat) : Follows dir cnt' x rest := by
  rcases h with ⟨hq, ⟨left, offset, hx, hgoes⟩ | hstop⟩
  · exact ⟨hq, .inl ⟨left, offset, hx, fun _ => hgoes hcnt⟩⟩
  · exact ⟨hq, .inr hstop⟩

/-- What comes after a completed transfer: another chunk or the final phase. -/
theorem goesOn_dmaPhase {cnt cnt' offset : Nat} {x : Except Fault (TwiStatus × Nat × Nat)}
    (hp : Prog.Path (dmaPhase rounds pTwi dir cnt' offset) evs x) (hpdc : pTwi ≠ .other)
    (hcnt : 1 < cnt) (hrest : Follows dir cnt x rest) :
    GoesOn dir (⟨.setPtcr dir.disable, ()⟩ :: (evs ++ rest)) := by
  by_cases hcnt' : 1 < cnt'
  · rcases starts_dmaPhase hp hcnt' hpdc with ⟨evs', rfl⟩
    exact ⟨rfl, rfl⟩
  · rw [dmaPhase, dif_neg hcnt'] at hp
    rcases Prog.path_ret.mp hp with ⟨rfl, rfl⟩
    rcases hrest.2 with ⟨_, _, -, hgoes⟩ | ⟨hstop, -⟩
    · rcases hgoes hcnt with ⟨next, rest', rfl, hnext⟩
      exact ⟨rfl, hnext⟩
    · exact absurd rfl (hstop _ _)

theorem reported_iff_of_quiet (h : Quiet dir evs) (late : Bool) :
    Reported dir evs ↔ Punctual dir late evs := by
  have hr := @reported_append dir evs [] h
  have hp := @punctual_append dir evs [] late h
  rw [List.append_nil] at hr hp
  exact ⟨fun _ => hp.mpr trivial, fun _ => hr.mpr trivial⟩

/-- A transfer that completes after a wait that timed out is given up. -/
theorem not_reported_abandoned {init : List (Event Registers)} {e : Event Registers}
    (hq : Quiet dir init) (hc : Completed dir e) :
    ¬ Reported dir (init ++ [e, ⟨.setPtcr dir.disable, ()⟩, ⟨.setCounter dir 0, ()⟩]) := by
  intro hr
  exact (((reported_append hq).mp hr).1 hc).2

/-- Over the chunks, completed transfers are reported exactly when they are punctual. -/
theorem path_dmaPhase {cnt offset : Nat} {x : Except Fault (TwiStatus × Nat × Nat)}
    (hp : Prog.Path (dmaPhase rounds pTwi dir cnt offset) evs x) (hrest : Follows dir cnt x rest)
    (late : Bool) : Reported dir (evs ++ rest) ↔ Punctual dir late (evs ++ rest) := by
  induction cnt using Nat.strong_induction_on generalizing offset evs late with
  | _ cnt ih =>
    rw [dmaPhase] at hp
    split at hp
    · rename_i hcnt
      rcases Prog.path_bind.mp hp with ⟨rc, evs₁, evs₂, rfl, h₁, h₂⟩ | ⟨e, rfl, h₁⟩
      · rcases path_dmaChunk h₁ with ⟨hq, hx⟩ | ⟨init, e, hq, hc, ⟨hx, hlate, rfl⟩ | ⟨hx, hlate, rfl⟩⟩
        · -- no transfer has completed, so there is nothing to report
          have hrc : rc ≠ .success := fun h => hx (congrArg Except.ok h)
          rw [if_pos hrc] at h₂
          rcases Prog.path_ret.mp h₂ with ⟨rfl, rfl⟩
          rw [List.append_nil]
          exact reported_iff_of_quiet (hq.append hrest.1) late
        · cases hx
          -- the next chunk, or the final phase, follows
          have hgoes : GoesOn dir (⟨.setPtcr dir.disable, ()⟩ :: (evs₂ ++ rest)) :=
            goesOn_dmaPhase h₂ (pdc_of_chunk h₁) hcnt hrest
          have hless : cnt - dir.transferSize cnt < cnt := by
            have := dir.transferSize_pos hcnt
            omega
          have hnext := ih _ hless h₂ (hrest.next hcnt _) false
          rw [List.append_assoc, List.append_assoc, reported_append hq, punctual_append hq, hlate]
          constructor
          · intro ⟨_, _, hr⟩
            exact ⟨fun _ => rfl, nofun, hnext.mp hr⟩
          · intro ⟨_, _, hpu⟩
            exact ⟨fun _ => hgoes, nofun, hnext.mpr hpu⟩
        · -- given up: the call returns, and nothing follows
          cases hx
          rcases Prog.path_ret.mp h₂ with ⟨rfl, rfl⟩
          have hend : rest = [] := by
            rcases hrest.2 with ⟨_, _, hx, -⟩ | ⟨-, hend⟩
            · cases hx
            · exact hend
          rw [hend, List.append_nil, List.append_nil]
          constructor
          · intro hr
            exact absurd hr (not_reported_abandoned hq hc)
          · intro hpu
            rw [punctual_append hq, hlate] at hpu
            cases hpu.1 hc
      · rcases path_dmaChunk h₁ with ⟨hq, -⟩ | ⟨_, _, _, _, ⟨hx, _⟩ | ⟨hx, _⟩⟩
        · exact reported_iff_of_quiet (hq.append hrest.1) late
        · cases hx
        · cases hx
    · rename_i hcnt
      rcases Prog.path_ret.mp hp with ⟨rfl, rfl⟩
      exact reported_iff_of_quiet hrest.1 late

/-! ## The final phases -/

theorem receiveByte_outsideDma (offset timeout : Nat) :
    (receiveByte pTwi offset timeout).Uses OutsideDma := by
  have hpass : ∀ again : DriverProg TwiStatus, again.Uses OutsideDma →
      (receivePass pTwi offset (some again)).Uses OutsideDma := by
    intro again hagain
    refine Prog.Uses.perform_bind nofun fun status => Prog.Uses.ite trivial (Prog.Uses.ite ?_ ?_)
    · exact (wait_outsideDma _ _).bind fun rc => Prog.Uses.ite trivial hagain
    · exact Prog.Uses.perform_bind nofun fun b => Prog.Uses.perform_bind nofun fun _ => trivial
  induction timeout with
  | zero => exact Prog.Uses.perform_bind nofun fun status => Prog.Uses.ite trivial trivial
  | succ timeout ih => exact hpass _ ih

theorem receiveBytes_outsideDma (cnt offset : Nat) :
    (receiveBytes pTwi cnt offset).Uses OutsideDma := by
  induction cnt generalizing offset with
  | zero => trivial
  | succ cnt ih =>
    exact (receiveByte_outsideDma _ _).bind fun rc => Prog.Uses.ite trivial (ih _)

theorem sendByte_outsideDma (value : U8) (rounds : Nat) :
    (sendByte pTwi value rounds).Uses OutsideDma := by
  induction rounds with
  | zero => trivial
  | succ rounds ih =>
    refine Prog.Uses.perform_bind nofun fun status => Prog.Uses.ite trivial (Prog.Uses.ite ?_ ?_)
    · exact (wait_outsideDma _ _).bind fun rc => Prog.Uses.ite trivial ih
    · exact Prog.Uses.perform_bind nofun fun _ => trivial

theorem sendBytes_outsideDma (buffer : Nat → U8) (cnt offset : Nat) :
    (sendBytes rounds pTwi buffer cnt offset).Uses OutsideDma := by
  induction cnt generalizing offset with
  | zero => trivial
  | succ cnt ih => exact (sendByte_outsideDma _ _).bind fun rc => Prog.Uses.ite trivial (ih _)

theorem awaitReady_outsideDma (rounds : Nat) : (awaitReady pTwi rounds).Uses OutsideDma := by
  induction rounds with
  | zero => trivial
  | succ rounds ih =>
    refine Prog.Uses.perform_bind nofun fun status =>
      Prog.Uses.ite trivial (Prog.Uses.ite trivial ?_)
    exact (wait_outsideDma _ _).bind fun rc => Prog.Uses.ite trivial ih

/-- A transfer is not over before its status was read. -/
theorem rounds_pos {cnt offset : Nat} {r : TwiStatus × Nat × Nat}
    (hp : Prog.Path (dmaPhase rounds pTwi dir cnt offset) evs (.ok r)) (hcnt : 1 < cnt) :
    0 < rounds := by
  rw [dmaPhase, dif_pos hcnt] at hp
  rcases Prog.path_bind.mp hp with ⟨rc, evs₁, _, -, h₁, -⟩ | ⟨e, he, -⟩
  · rw [dmaChunk, if_neg (pdc_of_chunk h₁)] at h₁
    rcases Prog.path_perform_bind.mp h₁ with ⟨_, _, -, h₂⟩
    rcases Prog.path_perform_bind.mp h₂ with ⟨_, _, -, h₃⟩
    rcases Prog.path_perform_bind.mp h₃ with ⟨_, _, -, h₄⟩
    rcases Prog.path_bind.mp h₄ with ⟨rc', _, _, -, h₅, -⟩ | ⟨e, he, -⟩
    · cases rounds with
      | zero => cases h₅
      | succ rounds => exact Nat.succ_pos rounds
    · cases he
  · cases he

/-- A DMA phase followed by a final phase. -/
theorem path_phases {cnt : Nat} {finish : Nat → Nat → DriverProg TwiStatus}
    {x : Except Fault TwiStatus}
    (hp : Prog.Path (dmaPhase rounds pTwi dir cnt 0 >>= fun r =>
      if r.1 ≠ .success then .ret r.1 else finish r.2.1 r.2.2) evs x)
    (huses : ∀ left offset, (finish left offset).Uses OutsideDma)
    (hstarts : 0 < rounds → 1 < cnt → ∀ left offset evs x, Prog.Path (finish left offset) evs x →
      ∃ next rest, evs = next :: rest ∧ dir.Continues next.op) (late : Bool) :
    Reported dir evs ↔ Punctual dir late evs := by
  rcases Prog.path_bind.mp hp with ⟨⟨rc, left, offset⟩, evs₁, evs₂, rfl, h₁, h₂⟩ | ⟨e, rfl, h₁⟩
  · refine path_dmaPhase h₁ ?_ late
    by_cases hrc : rc = .success
    · rw [if_neg (not_not.mpr hrc)] at h₂
      refine ⟨quiet_of_outsideDma (h₂.uses (huses _ _)), .inl ⟨left, offset, by rw [hrc], ?_⟩⟩
      intro hcnt
      exact hstarts (rounds_pos h₁ hcnt) hcnt _ _ _ _ h₂
    · rw [if_pos hrc] at h₂
      rcases Prog.path_ret.mp h₂ with ⟨rfl, rfl⟩
      refine ⟨nofun, .inr ⟨?_, rfl⟩⟩
      intro left offset hx
      cases hx
      exact hrc rfl
  · have hfollows : Follows dir cnt (.error e) [] := ⟨nofun, .inr ⟨nofun, rfl⟩⟩
    have hiff := path_dmaPhase h₁ hfollows late
    rwa [List.append_nil] at hiff

theorem path_readPhases {cnt : Nat} {x : Except Fault TwiStatus}
    (hp : Prog.Path (readPhases rounds pTwi cnt) evs x) (late : Bool) :
    Reported .rx evs ↔ Punctual .rx late evs := by
  refine path_phases hp ?_ ?_ late
  · intro left offset
    unfold finishRead
    refine Prog.Uses.bind ?_ fun _ => ?_
    · exact Prog.Uses.ite ⟨nofun, fun _ => trivial⟩ trivial
    · exact (receiveBytes_outsideDma _ _).bind fun rc =>
        Prog.Uses.ite trivial ((completeRead_waits _ _).mono fun _ h => h.outsideDma)
  · intro _ hcnt left offset evs x hfin
    have hne : cnt ≠ 1 := Nat.ne_of_gt hcnt
    rw [finishRead, stopUnlessSent, if_pos hne] at hfin
    rcases Prog.path_perform_bind.mp hfin with ⟨_, rest, rfl, -⟩
    exact ⟨_, rest, rfl, rfl, rfl⟩

theorem path_writePhases {buffer : Nat → U8} {cnt : Nat} {x : Except Fault TwiStatus}
    (hp : Prog.Path (writePhases rounds pTwi buffer cnt) evs x) (late : Bool) :
    Reported .tx evs ↔ Punctual .tx late evs := by
  refine path_phases hp ?_ ?_ late
  · intro left offset
    unfold finishWrite
    refine (sendBytes_outsideDma _ _ _).bind fun rc => Prog.Uses.ite trivial ?_
    refine (awaitReady_outsideDma _).bind fun rc => Prog.Uses.ite trivial ?_
    exact Prog.Uses.perform_bind nofun fun _ =>
      (completeWrite_waits _).mono fun _ h => h.outsideDma
  · intro hrounds _ left offset evs x hfin
    rcases Nat.exists_eq_succ_of_ne_zero (Nat.ne_of_gt hrounds) with ⟨n, rfl⟩
    unfold finishWrite at hfin
    cases left with
    | zero =>
      rcases Prog.path_call.mp hfin with ⟨_, rest, rfl, -⟩
      exact ⟨_, rest, rfl, rfl, .inr rfl⟩
    | succ left =>
      rcases Prog.path_call.mp hfin with ⟨_, rest, rfl, -⟩
      exact ⟨_, rest, rfl, rfl, .inl rfl⟩

theorem path_transfer {packet : Packet} {x : Except Fault TwiStatus}
    (hp : Prog.Path (transfer dir rounds pTwi packet) evs x) (late : Bool) :
    Reported dir evs ↔ Punctual dir late evs := by
  have hsetup : ∀ {e : Event Registers} {evs : List (Event Registers)}, ¬ Completed dir e →
      (∀ late, Reported dir evs ↔ Punctual dir late evs) →
        ∀ late, Reported dir (e :: evs) ↔ Punctual dir late (e :: evs) := by
    intro e evs he hevs late
    have hq : Quiet dir [e] := Quiet.cons nofun he
    exact (reported_append hq).trans ((hevs _).trans (punctual_append hq).symm)
  cases dir with
  | rx =>
    rw [transfer, twiMasterRead] at hp
    split at hp
    · rcases Prog.path_ret.mp hp with ⟨rfl, rfl⟩
      exact ⟨fun _ => trivial, fun _ => trivial⟩
    · rcases Prog.path_perform_bind.mp hp with ⟨_, _, rfl, h₁⟩
      rcases Prog.path_perform_bind.mp h₁ with ⟨_, _, rfl, h₂⟩
      rcases Prog.path_perform_bind.mp h₂ with ⟨_, _, rfl, h₃⟩
      rcases Prog.path_perform_bind.mp h₃ with ⟨_, _, rfl, h₄⟩
      rcases Prog.path_perform_bind.mp h₄ with ⟨_, _, rfl, h₅⟩
      refine hsetup ?_ (hsetup ?_ (hsetup ?_ (hsetup ?_ (hsetup ?_ (path_readPhases h₅))))) late
      all_goals exact fun hc => hc
  | tx =>
    rw [transfer, twiMasterWrite] at hp
    split at hp
    · rcases Prog.path_ret.mp hp with ⟨rfl, rfl⟩
      exact ⟨fun _ => trivial, fun _ => trivial⟩
    · rcases Prog.path_perform_bind.mp hp with ⟨_, _, rfl, h₁⟩
      rcases Prog.path_perform_bind.mp h₁ with ⟨_, _, rfl, h₂⟩
      rcases Prog.path_perform_bind.mp h₂ with ⟨_, _, rfl, h₃⟩
      rcases Prog.path_perform_bind.mp h₃ with ⟨_, _, rfl, h₄⟩
      refine hsetup ?_ (hsetup ?_ (hsetup ?_ (hsetup ?_ (path_writePhases h₄)))) late
      all_goals exact fun hc => hc

/-- **A completed DMA transfer is reported as complete**, in either direction and for every
sequence of status words, wait results and counter values, exactly when no transfer
completes right after a wait that timed out. -/
theorem reported_iff_punctual (dir : Dir) (rounds : Nat) (pTwi : Instance) (packet : Packet)
    (env : Env Registers) :
    Reported dir (Prog.exec env (transfer dir rounds pTwi packet) []).2 ↔
      Punctual dir false (Prog.exec env (transfer dir rounds pTwi packet) []).2 :=
  path_transfer (Prog.path_exec env _).1 false

/-- The surroundings of a read of two bytes that takes long: the first wait times out, the
counter has gone from one to zero by then, and the next status word has `RXBUFF` set. -/
def slowEnv : Env Registers
  | tr, .readSr _ => if 16 ≤ tr.length then srRxbuff else 0
  | _, .readRhr => (0 : U8)
  | _, .readCounter _ => (0 : Nat)
  | _, .notifyWait _ => false
  | _, .setMmr _ => ()
  | _, .setIadr _ => ()
  | _, .setCr _ => ()
  | _, .setThr _ => ()
  | _, .setIer _ => ()
  | _, .setIdr _ => ()
  | _, .setPointer _ _ => ()
  | _, .setCounter _ _ => ()
  | _, .setPtcr _ => ()
  | _, .store _ _ => ()
  | _, .notifyStateClear => ()

/-- A read of two bytes from the chip at `0x30`. -/
def twoBytes : Packet := ⟨fun _ => 0, 0, fun _ => 0, 2, 0x30⟩

theorem dmaPhase_twoBytes :
    dmaPhase 2 .twi1 .rx 2 0 = dmaChunk 2 .twi1 .rx 1 0 >>= fun rc =>
      if rc ≠ .success then .ret (rc, 2, 0) else .ret (.success, 1, 1) := by
  rw [dmaPhase, dif_pos (by decide)]
  congr 1
  funext rc
  split
  · rfl
  · rw [dmaPhase]
    rfl

/-- A slow read of two bytes: the DMA transfer completes and is given up. -/
theorem not_reported_slow_read :
    ¬ Reported .rx (Prog.exec slowEnv (transfer .rx 2 .twi1 twoBytes) []).2 := by
  have hcall : transfer .rx 2 .twi1 twoBytes = (do
      perform (.setMmr 0)
      perform (.setMmr (mmrMread ||| mmrAddress twoBytes))
      perform (.setIadr 0)
      perform (.setIadr 0)
      perform (.setCr crStart)
      let r ← dmaPhase 2 .twi1 .rx 2 0
      if r.1 ≠ .success then return r.1 else finishRead .twi1 2 r.2.1 r.2.2) := rfl
  rw [hcall, dmaPhase_twoBytes]
  intro hr
  -- the seventeenth event is the status word that shows the end of the transfer
  have hgoes := hr.2.2.2.2.2.2.2.2.2.2.2.2.2.2.2.2.1 ⟨by decide, by decide⟩
  exact hgoes.2

end TwiDriver
