import VmeSam3x.Lib.Prog
import VmeSam3x.Lib.Bytes

/-! # Sending an Ethernet frame

`low_level_output` (`ethernetif.c`) copies a pbuf chain into one buffer and hands it to the
driver. When all transmit descriptors are busy it registers a wake-up callback and waits
for a notification before it tries again. One variable, `uc_rc`, holds the result of the
first write, of the registration and of the later writes.
-/

namespace Ethernet

open Interact Bytes

/-! ## Interface -/

/-- `emac_status_t`. -/
inductive EmacStatus where
  | ok
  | timeout
  | txBusy
  | rxNull
  | sizeTooSmall
  | param
  | invalid
deriving DecidableEq, Repr

/-- The `err_t` values that `low_level_output` returns. -/
inductive Err where
  | ok
  | buf
deriving DecidableEq, Repr

inductive EmacOp where
  /-- `emac_dev_write` of the first `size` bytes of a buffer. -/
  | devWrite (buffer : List U8) (size : Nat)
  /-- `emac_dev_set_tx_wakeup_callback`, with the threshold of a callback. -/
  | setTxWakeupCallback (callback : Option U8)
  /-- `xTaskNotifyStateClear`: whether a notification was pending. -/
  | notifyStateClear
  /-- `xTaskNotifyWait`: whether a notification came in time. -/
  | notifyWait (ticks : Nat)
deriving DecidableEq

abbrev Emac : Sig where
  Op := EmacOp
  Res
    | .devWrite _ _ => EmacStatus
    | .setTxWakeupCallback _ => EmacStatus
    | .notifyStateClear => Bool
    | .notifyWait _ => Bool

inductive Fault where
  /-- A copy beyond the end of the output buffer. -/
  | outOfBounds
  /-- The wait has not ended within the rounds the run was given. -/
  | stillWaiting
deriving DecidableEq, Repr

abbrev EmacProg := Prog Emac Fault

def emacDevWrite (buffer : List U8) (size : Nat) : EmacProg EmacStatus :=
  Prog.perform (S := Emac) (.devWrite buffer size)

def emacDevSetTxWakeupCallback (callback : Option U8) : EmacProg EmacStatus :=
  Prog.perform (S := Emac) (.setTxWakeupCallback callback)

def xTaskNotifyStateClear : EmacProg Bool := Prog.perform (S := Emac) .notifyStateClear

def xTaskNotifyWait (ticks : Nat) : EmacProg Bool := Prog.perform (S := Emac) (.notifyWait ticks)

/-! ## `low_level_output` -/

/-- `NET_RW_BUFF_SIZE`. -/
def netRwBuffSize : Nat := 1536

/-- The loop over the chain: copy each pbuf behind the one before it. -/
def copyChain (buffer : List U8) (pos : Nat) : List (List U8) → Except Fault (List U8)
  | [] => .ok buffer
  | q :: next =>
    if pos + q.length ≤ buffer.length then
      copyChain (buffer.take pos ++ q ++ buffer.drop (pos + q.length)) (pos + q.length) next
    else .error .outOfBounds

/-- The loop that waits while the driver is busy. -/
def retryWrite (buffer : List U8) (size : Nat) : Nat → EmacStatus → EmacProg EmacStatus
  | rounds, rc =>
    if rc = .txBusy then
      match rounds with
      | 0 => .fail .stillWaiting
      | rounds + 1 => do
        let _ ← xTaskNotifyWait 100
        let rc ← emacDevWrite buffer size
        retryWrite buffer size rounds rc
    else return rc

/-- From the retry loop to the end, with `rc` in the variable. -/
def finishWaiting (rounds : Nat) (buffer : List U8) (size : Nat) (rc : EmacStatus) :
    EmacProg Err := do
  let rc ← retryWrite buffer size rounds rc
  let _ ← emacDevSetTxWakeupCallback none
  return if rc ≠ .ok then .buf else .ok

/-- The part for a driver without a free descriptor. -/
def waitForDescriptor (rounds : Nat) (buffer : List U8) (size : Nat) : EmacProg Err := do
  let rc ← emacDevSetTxWakeupCallback (some 1)
  if rc ≠ .ok then
    return .buf
  else if ← xTaskNotifyStateClear then
    finishWaiting rounds buffer size (← emacDevWrite buffer size)
  else
    -- without a pending notification the result of the registration stays in the variable
    finishWaiting rounds buffer size rc

/-- `low_level_output` on the chain `p`; the wait may take `rounds` rounds. -/
def lowLevelOutput (rounds : Nat) (p : List (List U8)) : EmacProg Err := do
  let totLen := p.flatten.length
  if totLen > netRwBuffSize then
    return .buf
  else
    let pcBuf ← .ofExcept (copyChain (List.replicate netRwBuffSize 0) 0 p)
    let rc ← emacDevWrite pcBuf totLen
    if rc = .txBusy then
      waitForDescriptor rounds pcBuf totLen
    else
      return if rc ≠ .ok then .buf else .ok

/-- The chain ends up in the buffer as one run of bytes. -/
theorem copyChain_append (front rest : List U8) (p : List (List U8))
    (hfits : p.flatten.length ≤ rest.length) :
    copyChain (front ++ rest) front.length p =
      .ok (front ++ p.flatten ++ rest.drop p.flatten.length) := by
  induction p generalizing front rest with
  | nil => simp [copyChain]
  | cons q next ih =>
    rw [List.flatten_cons, List.length_append] at hfits
    rw [copyChain, if_pos (by rw [List.length_append]; omega), List.take_left, List.drop_append,
      List.drop_of_length_le (by omega), Nat.add_sub_cancel_left, List.nil_append,
      ← List.length_append, ih _ _ (by rw [List.length_drop]; omega), List.drop_drop,
      List.flatten_cons, List.length_append, List.append_assoc front]

/-! ## The frame reaches the driver -/

/-- Everything the surroundings of one call decide: the result of the `n`-th write, whether
a notification is pending when the task looks, whether the `n`-th wait was woken, and the
size of the descriptor ring. -/
structure Schedule where
  writes : Nat → EmacStatus
  pending : Bool
  woken : Nat → Bool
  txListSize : U16

/-- The result of `emac_dev_set_tx_wakeup_callback`. -/
def registration (txListSize : U16) : Option U8 → EmacStatus
  | none => .ok
  | some threshold => if threshold.toNat ≤ txListSize.toNat then .ok else .param

def isWrite : EmacOp → Bool
  | .devWrite _ _ => true
  | _ => false

def isWait : EmacOp → Bool
  | .notifyWait _ => true
  | _ => false

/-- How often an operation of a kind is in the history. -/
def count (kind : EmacOp → Bool) (tr : List (Event Emac)) : Nat := tr.countP fun e => kind e.op

/-- The surroundings that follow a schedule. -/
def Schedule.env (sched : Schedule) : Env Emac
  | tr, .devWrite _ _ => sched.writes (count isWrite tr)
  | _, .setTxWakeupCallback callback => registration sched.txListSize callback
  | _, .notifyStateClear => sched.pending
  | tr, .notifyWait _ => sched.woken (count isWait tr)

/-- What was given to the calls of `emac_dev_write` that returned `EMAC_OK`. -/
def accepted (tr : List (Event Emac)) : List (List U8) :=
  tr.filterMap fun
    | ⟨.devWrite buffer size, .ok⟩ => some (buffer.take size)
    | _ => none

/-- No silently dropped frame: if the call returns `ERR_OK` the driver has accepted the
frame once, and otherwise not at all. -/
def Delivers (sched : Schedule) (p : List (List U8)) : Prop :=
  ∀ rounds rc tr, Prog.exec sched.env (lowLevelOutput rounds p) [] = (.ok rc, tr) →
    accepted tr = if rc = .ok then [p.flatten] else []

variable {buffer : List U8} {size rounds : Nat} {sched : Schedule} {p : List (List U8)}

@[simp] theorem accepted_append (tr tr' : List (Event Emac)) :
    accepted (tr ++ tr') = accepted tr ++ accepted tr' := List.filterMap_append

/-- What a write that returned `rc` adds to the accepted frames. -/
@[simp] theorem accepted_write (rc : EmacStatus) (tr : List (Event Emac)) :
    accepted (⟨EmacOp.devWrite buffer size, rc⟩ :: tr) =
      (if rc = .ok then [buffer.take size] else []) ++ accepted tr := by
  cases rc <;> rfl

/-- The loop ends with a write that is not refused as busy; no write before it was accepted. -/
theorem path_retryWrite {rc rc' : EmacStatus} {evs : List (Event Emac)}
    (hp : Prog.Path (retryWrite buffer size rounds rc) evs (.ok rc')) :
    rc ≠ .txBusy ∧ evs = [] ∧ rc' = rc ∨
      rc = .txBusy ∧ accepted evs = if rc' = .ok then [buffer.take size] else [] := by
  induction rounds generalizing rc evs with
  | zero =>
    rw [retryWrite] at hp
    split at hp
    · -- still busy, and out of rounds: no path returns
      cases hp
    · rename_i hrc
      rcases Prog.path_ret.mp hp with ⟨hevs, heq⟩
      exact .inl ⟨hrc, hevs, Except.ok.inj heq⟩
  | succ rounds ih =>
    rw [retryWrite] at hp
    split at hp
    · rename_i hrc
      right
      refine ⟨hrc, ?_⟩
      rcases Prog.path_call.mp hp with ⟨woken, evs₁, rfl, h₁⟩
      rcases Prog.path_call.mp h₁ with ⟨rc₁, evs₂, rfl, h₂⟩
      change accepted (⟨EmacOp.devWrite buffer size, rc₁⟩ :: evs₂) = _
      rw [accepted_write]
      rcases ih h₂ with ⟨hrc₁, rfl, rfl⟩ | ⟨rfl, hacc⟩
      · simp [accepted]
      · rw [hacc]
        rfl
    · rename_i hrc
      rcases Prog.path_ret.mp hp with ⟨hevs, heq⟩
      exact .inl ⟨hrc, hevs, Except.ok.inj heq⟩

/-- The end of the wait: after a busy write the loop decides, otherwise the variable. -/
theorem path_finishWaiting {rc : EmacStatus} {err : Err} {evs : List (Event Emac)}
    (hp : Prog.Path (finishWaiting rounds buffer size rc) evs (.ok err)) :
    rc ≠ .txBusy ∧ accepted evs = [] ∧ err = (if rc ≠ .ok then .buf else .ok) ∨
      rc = .txBusy ∧ accepted evs = if err = .ok then [buffer.take size] else [] := by
  rcases Prog.path_bind.mp hp with ⟨rc', evs₁, evs₂, rfl, h₁, h₂⟩ | ⟨e, he, -⟩
  · rcases Prog.path_perform_bind.mp h₂ with ⟨r, evs₃, rfl, h₃⟩
    rcases Prog.path_ret.mp h₃ with ⟨rfl, herr⟩
    have herr : err = if rc' ≠ .ok then .buf else .ok := Except.ok.inj herr
    have hend : accepted [⟨EmacOp.setTxWakeupCallback none, r⟩] = [] := rfl
    rw [accepted_append, hend, List.append_nil]
    rcases path_retryWrite h₁ with ⟨hrc, rfl, rfl⟩ | ⟨hrc, hacc⟩
    · exact .inl ⟨hrc, rfl, herr⟩
    · right
      refine ⟨hrc, ?_⟩
      rw [hacc, herr]
      by_cases hok : rc' = .ok <;> simp [hok]
  · cases he

/-- The wait: it gives up when the callback cannot be registered, it tries again when a
notification is pending, and with none pending it returns `ERR_OK` without another write. -/
theorem path_waitForDescriptor {err : Err} {evs : List (Event Emac)}
    (hp : Prog.Path (waitForDescriptor rounds buffer size) evs (.ok err)) :
    ∃ reg evs', evs = ⟨EmacOp.setTxWakeupCallback (some 1), reg⟩ :: evs' ∧
      (reg ≠ .ok ∧ accepted evs' = [] ∧ err = .buf ∨
        reg = .ok ∧ ∃ pending evs'', evs' = ⟨EmacOp.notifyStateClear, pending⟩ :: evs'' ∧
          (pending = true ∧ accepted evs'' = (if err = .ok then [buffer.take size] else []) ∨
            pending = false ∧ accepted evs'' = [] ∧ err = .ok)) := by
  rcases Prog.path_perform_bind.mp hp with ⟨reg, evs', rfl, h₁⟩
  refine ⟨reg, evs', rfl, ?_⟩
  by_cases hreg : reg = .ok
  · right
    refine ⟨hreg, ?_⟩
    rw [if_neg (not_not.mpr hreg)] at h₁
    rcases Prog.path_perform_bind.mp h₁ with ⟨pending, evs'', rfl, h₂⟩
    refine ⟨pending, evs'', rfl, ?_⟩
    cases pending with
    | true =>
      -- `uc_rc` is the result of the second write
      left
      refine ⟨rfl, ?_⟩
      rcases Prog.path_perform_bind.mp h₂ with ⟨rc, evs₃, rfl, h₃⟩
      rw [accepted_write]
      rcases path_finishWaiting h₃ with ⟨-, hacc, herr⟩ | ⟨hrc, hacc⟩
      · rw [hacc, herr, List.append_nil]
        by_cases hok : rc = .ok <;> simp [hok]
      · rw [hacc, hrc]
        rfl
    | false =>
      -- `uc_rc` is still the result of the registration
      right
      rcases path_finishWaiting h₂ with ⟨-, hacc, herr⟩ | ⟨hrc, -⟩
      · exact ⟨rfl, hacc, by simpa [hreg] using herr⟩
      · exact absurd (hreg.symm.trans hrc) (by decide)
  · -- without a callback nothing would wake the task
    left
    rw [if_pos hreg] at h₁
    rcases Prog.path_ret.mp h₁ with ⟨rfl, herr⟩
    exact ⟨hreg, rfl, Except.ok.inj herr⟩

/-- The ring is full, the callback is registered, and no notification is pending: the one
order of events in which `uc_rc` holds the result of the registration at the end. -/
def Schedule.Forgets (sched : Schedule) : Prop :=
  sched.writes 0 = .txBusy ∧ 0 < sched.txListSize.toNat ∧ sched.pending = false

theorem registration_eq_ok (txListSize : U16) :
    registration txListSize (some 1) = .ok ↔ 0 < txListSize.toNat := by
  rw [registration]
  split
  · rename_i h
    exact ⟨fun _ => h, fun _ => rfl⟩
  · rename_i h
    exact ⟨nofun, fun h' => absurd h' h⟩

/-- A chain that fits, as the write sees it. -/
theorem lowLevelOutput_eq (rounds : Nat) (hfits : p.flatten.length ≤ netRwBuffSize) :
    ∃ pcBuf : List U8, pcBuf.take p.flatten.length = p.flatten ∧
      lowLevelOutput rounds p = emacDevWrite pcBuf p.flatten.length >>= fun rc =>
        if rc = .txBusy then waitForDescriptor rounds pcBuf p.flatten.length
        else return if rc ≠ .ok then .buf else .ok := by
  have hcopy := copyChain_append [] (List.replicate netRwBuffSize 0) p (by simpa using hfits)
  rw [List.nil_append, List.nil_append, List.length_nil] at hcopy
  refine ⟨p.flatten ++ (List.replicate netRwBuffSize 0).drop p.flatten.length,
    List.take_left, ?_⟩
  rw [lowLevelOutput, if_neg (Nat.not_lt.mpr hfits), hcopy]
  rfl

/-- The frame is lost in that order of events: the call returns `ERR_OK` after a single,
refused, write. -/
theorem not_delivers (hfits : p.flatten.length ≤ netRwBuffSize) (hforgets : sched.Forgets) :
    ¬ Delivers sched p := by
  rcases hforgets with ⟨hbusy, hsize, hpending⟩
  intro hdelivers
  rcases lowLevelOutput_eq 0 hfits with ⟨pcBuf, -, heq⟩
  have hreg : registration sched.txListSize (some 1#8) = .ok :=
    (registration_eq_ok sched.txListSize).mpr hsize
  have hexec : Prog.exec sched.env (lowLevelOutput 0 p) [] =
      (.ok .ok, [⟨EmacOp.devWrite pcBuf p.flatten.length, EmacStatus.txBusy⟩,
        ⟨EmacOp.setTxWakeupCallback (some 1), EmacStatus.ok⟩, ⟨EmacOp.notifyStateClear, false⟩,
        ⟨EmacOp.setTxWakeupCallback none, EmacStatus.ok⟩]) := by
    rw [heq]
    simp [emacDevWrite, waitForDescriptor, emacDevSetTxWakeupCallback, xTaskNotifyStateClear,
      finishWaiting, retryWrite, Prog.perform, Schedule.env, count, hbusy, hreg, hpending]
    rfl
  have hacc := hdelivers 0 .ok _ hexec
  simp [accepted] at hacc

/-- A chain in any other order of events. -/
theorem delivers_of_not_forgets (hforgets : ¬ sched.Forgets)
    (hfits : p.flatten.length ≤ netRwBuffSize) : Delivers sched p := by
  intro rounds rc tr hexec
  have hrun := Prog.path_exec sched.env (lowLevelOutput rounds p)
  rw [hexec] at hrun
  rcases hrun with ⟨hp, ha⟩
  rcases lowLevelOutput_eq rounds hfits with ⟨pcBuf, htake, heq⟩
  rw [heq] at hp
  rcases Prog.path_perform_bind.mp hp with ⟨rc₀, evs, rfl, h₁⟩
  rcases Prog.answered_cons.mp ha with ⟨hrc₀, ha⟩
  rw [accepted_write, htake]
  split at h₁
  · -- the first write was refused, so all depends on the wait
    rename_i hbusy
    have hnone : ¬ rc₀ = .ok := by
      intro hok
      cases hbusy.symm.trans hok
    rw [if_neg hnone, List.nil_append, ← htake]
    rcases path_waitForDescriptor h₁ with ⟨reg, evs', rfl, hreg⟩
    rcases Prog.answered_cons.mp ha with ⟨hreg', ha⟩
    rcases hreg with ⟨-, hacc, rfl⟩ | ⟨hok, pending, evs'', rfl, hpending⟩
    · exact hacc
    · rcases Prog.answered_cons.mp ha with ⟨hpending', -⟩
      rcases hpending with ⟨-, hacc⟩ | ⟨hno, -, -⟩
      · exact hacc
      · -- the order of events that is excluded
        refine absurd ⟨hrc₀.symm.trans hbusy, ?_, hpending'.symm.trans hno⟩ hforgets
        exact (registration_eq_ok sched.txListSize).mp (hreg'.symm.trans hok)
  · rcases Prog.path_ret.mp h₁ with ⟨rfl, herr⟩
    have herr : rc = if rc₀ ≠ .ok then .buf else .ok := Except.ok.inj herr
    rw [herr]
    by_cases hok : rc₀ = .ok <;> simp [hok, accepted]

/-- **No silently dropped frame**, but for one order of events: the ring is full, the
callback is registered, and no notification is pending. -/
theorem delivers_iff (sched : Schedule) (p : List (List U8))
    (hfits : p.flatten.length ≤ netRwBuffSize) : Delivers sched p ↔ ¬ sched.Forgets := by
  constructor
  · intro hdelivers hforgets
    exact not_delivers hfits hforgets hdelivers
  · intro hforgets
    exact delivers_of_not_forgets hforgets hfits

/-- A frame of three bytes in two pbufs, sent through a ring with a free descriptor. -/
theorem delivers_iff_two_pbufs :
    Delivers ⟨fun _ => .ok, false, fun _ => false, 8⟩ [[1, 2], [3]] ↔
      ¬ Schedule.Forgets ⟨fun _ => .ok, false, fun _ => false, 8⟩ :=
  delivers_iff _ _ (by decide)

/-- The same frame while the ring of eight descriptors is full. -/
theorem not_delivers_full_ring :
    ¬ Delivers ⟨fun n => if n = 0 then .txBusy else .ok, false, fun _ => true, 8⟩ [[1, 2], [3]] :=
  not_delivers (by decide) ⟨rfl, by decide, rfl⟩

end Ethernet
