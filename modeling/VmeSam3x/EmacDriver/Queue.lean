import VmeSam3x.EmacDriver.Write

/-! # The driver as a queue

To its caller the driver is a queue of frames: a write appends a frame unless one slot less than
the ring has are taken, frames leave in order, and slots are released later. The ring refines the
queue for every program that writes through `emac_dev_write`, whatever the hardware and the
handler do in between.
-/

namespace EmacDriver

open Interact Machine Bytes Ethernet

/-! ## The queue -/

structure Queue where
  accepted : List (List U8)
  sent : Nat
  released : Nat

inductive Queue.Step : Queue → Queue → Prop
  | send {q : Queue} (h : q.sent < q.accepted.length) : Step q { q with sent := q.sent + 1 }
  | release {q : Queue} (h : q.released < q.sent) : Step q { q with released := q.released + 1 }

/-- What a write returns. -/
def Queue.status (dev : Device) (q : Queue) (size : Nat) : EmacStatus :=
  if emacTxUnitsize < size then .param
  else if q.accepted.length + 1 = q.released + dev.usTxListSize then .txBusy
  else .ok

def Queue.Answers (dev : Device) (q : Queue) : (o : EmacOp) → Ethernet.Emac.Res o → Queue → Prop
  | .devWrite buffer size, r, q' =>
    r = q.status dev size ∧
      q' = if r = .ok then { q with accepted := q.accepted ++ [buffer.take size] } else q
  | .setTxWakeupCallback _, _, q' => q' = q
  | .notifyStateClear, _, q' => q' = q
  | .notifyWait _, _, q' => q' = q

abbrev txQueue (dev : Device) : Machine Ethernet.Emac where
  State := Queue
  move := Queue.Step
  answer := Queue.Answers dev

variable {dev : Device} {enabled : State → Prop} {q q' : Queue}

theorem Queue.moves_send {accepted : List (List U8)} {i i' j : Nat} (hi : i ≤ i')
    (hi' : i' ≤ accepted.length) :
    (txQueue dev).Moves ⟨accepted, i, j⟩ ⟨accepted, i', j⟩ := by
  induction i', hi using Nat.le_induction with
  | base => exact .refl
  | succ k _ ih => exact (ih (by omega)).tail (.send hi')

theorem Queue.moves_release {accepted : List (List U8)} {i j j' : Nat} (hj : j ≤ j')
    (hj' : j' ≤ i) : (txQueue dev).Moves ⟨accepted, i, j⟩ ⟨accepted, i, j'⟩ := by
  induction j', hj using Nat.le_induction with
  | base => exact .refl
  | succ k _ ih => exact (ih (by omega)).tail (.release hj')

/-- The queue gets from its counters to later ones. -/
theorem Queue.moves_to {accepted : List (List U8)} {i i' j j' : Nat} (hi : i ≤ i')
    (hi' : i' ≤ accepted.length) (hj : j ≤ j') (hj' : j' ≤ i') :
    (txQueue dev).Moves ⟨accepted, i, j⟩ ⟨accepted, i', j'⟩ :=
  (moves_send hi hi').trans (moves_release hj hj')

/-! ## The driver implements the queue -/

/-- `ethernetif_tx_cb`. -/
def ethernetifTxCb : Callback := 1

/-- The functions that the operations stand for. -/
def driver (dev : Device) : (o : EmacOp) → TxProg Ethernet.Fault (Ethernet.Emac.Res o)
  | .devWrite buffer size => emacDevWrite dev (some buffer) size none
  | .setTxWakeupCallback none => emacDevSetTxWakeupCallback dev none 0
  | .setTxWakeupCallback (some threshold) =>
    emacDevSetTxWakeupCallback dev (some ethernetifTxCb) threshold
  | .notifyStateClear => Prog.perform (S := Tx) .notifyStateClear
  | .notifyWait ticks => Prog.perform (S := Tx) (.notifyWait ticks)

/-- The caller's buffer holds what it says. -/
def Holds : EmacOp → Prop
  | .devWrite buffer size => size ≤ buffer.length
  | _ => True

/-- The ring as a queue. -/
def Represents (dev : Device) (enabled : State → Prop) (q : Queue) (s : State) : Prop :=
  ∃ queued, Idle dev enabled queued q.released s ∧ q.accepted = queued.map Entry.frame ∧
    q.sent = s.wire.length

variable {s t : State} {queued : List Entry} {released : Nat}

theorem Idle.moves (hi : Idle dev enabled queued released s)
    (hm : (emacWithHandler dev false enabled).Moves s t) :
    ∃ released', released ≤ released' ∧ Idle dev enabled queued released' t ∧
      s.wire.length ≤ t.wire.length := by
  rcases hi.toShared.moves hm with ⟨released', hle, hi', hk⟩
  exact ⟨released', hle, ⟨hi', hk.head.trans hi.slot, hk.live hi.live⟩, hk.sent_le⟩

/-- What happens on its own is a step of the queue. -/
theorem Represents.moves (h : Represents dev enabled q s)
    (hm : (emacWithHandler dev false enabled).Moves s t) :
    ∃ q', (txQueue dev).Moves q q' ∧ Represents dev enabled q' t := by
  rcases h with ⟨queued, hi, hacc, hsent⟩
  rcases hi.moves hm with ⟨released', hle, hi', hlen⟩
  have hin := hi'.ring.sent_le
  refine ⟨⟨q.accepted, t.wire.length, released'⟩, ?_, queued, hi', hacc, rfl⟩
  apply Queue.moves_to
  · omega
  · rw [hacc, List.length_map]
    exact hin
  · exact hle
  · exact hi'.ring.released_le

/-- The wake-up callback is not part of the queue. -/
theorem Represents.set (h : Represents dev enabled q s) (cb : Option Callback) (threshold : U8) :
    Represents dev enabled q { s with wakeupCb := cb, threshold } := by
  rcases h with ⟨queued, hi, hacc, hsent⟩
  refine ⟨queued, ⟨⟨⟨hi.ring.set _ _ _ _ _ _ _, hi.tail, hi.usTxHead, hi.usTxHead_le, hi.counted,
    hi.le_head, hi.head_le⟩, hi.called⟩, hi.slot, hi.live⟩, hacc, hsent⟩

theorem Represents.runs_setTxWakeupCallback (h : Represents dev enabled q s) {cb : Option Callback}
    {threshold : U8} {x : Except Ethernet.Fault EmacStatus}
    (hruns : (emacWithHandler dev false enabled).Runs
      (emacDevSetTxWakeupCallback dev cb threshold) s x t) :
    ∃ r q', x = .ok r ∧ (txQueue dev).Moves q q' ∧ Represents dev enabled q' t := by
  cases cb with
  | none =>
    rcases runs_perform_bind.mp hruns with ⟨s₁, _, _, hm₁, rfl, h₁⟩
    rcases runs_ret.mp h₁ with ⟨rfl, rfl⟩
    rcases h.moves hm₁ with ⟨q₁, hq₁, hrep₁⟩
    exact ⟨_, q₁, rfl, hq₁, hrep₁.set _ _⟩
  | some cb =>
    simp only [emacDevSetTxWakeupCallback] at hruns
    split at hruns
    · rcases runs_perform_bind.mp hruns with ⟨s₁, _, _, hm₁, rfl, h₁⟩
      rcases h.moves hm₁ with ⟨q₁, hq₁, hrep₁⟩
      rcases runs_perform_bind.mp h₁ with ⟨s₂, _, _, hm₂, rfl, h₂⟩
      rcases runs_ret.mp h₂ with ⟨rfl, rfl⟩
      rcases (hrep₁.set (some cb) s₁.threshold).moves hm₂ with ⟨q₂, hq₂, hrep₂⟩
      exact ⟨_, q₂, rfl, hq₁.trans hq₂, hrep₂.set _ _⟩
    · rcases runs_ret.mp hruns with ⟨rfl, rfl⟩
      exact ⟨_, q, rfl, .refl, h⟩

/-- A write is a write to the queue. -/
theorem Represents.runs_emacDevWrite (h : Represents dev enabled q s) {buffer : List U8}
    {size : Nat} (hbytes : size ≤ buffer.length) {x : Except Ethernet.Fault EmacStatus}
    (hruns : (emacWithHandler dev false enabled).Runs (emacDevWrite dev (some buffer) size none)
      s x t) :
    ∃ r q₁ q₂ q', x = .ok r ∧ (txQueue dev).Moves q q₁ ∧
      q₁.Answers dev (.devWrite buffer size) r q₂ ∧ (txQueue dev).Moves q₂ q' ∧
      Represents dev enabled q' t := by
  rcases h with ⟨queued, hi, hacc, hsent⟩
  have hlen : q.accepted.length = queued.length := by rw [hacc, List.length_map]
  have hwire := (wire_grows hruns).length_le
  have hle := hi.ring.sent_le
  rcases hi.runs_emacDevWrite hbytes hruns with ⟨hlong, rfl, rfl⟩ | ⟨hshort, released', hrel, h'⟩
  · refine ⟨.param, q, q, q, rfl, .refl, ⟨?_, ?_⟩, .refl, queued, hi, hacc, hsent⟩
    · rw [Queue.status, if_pos hlong]
    · have hne : EmacStatus.param ≠ .ok := by decide
      exact (if_neg hne).symm
  · rcases h' with ⟨rfl, hfull, hi'⟩ | ⟨rfl, hroom, hi'⟩
    · have hin := hi'.ring.sent_le
      refine ⟨.txBusy, ⟨q.accepted, t.wire.length, released'⟩, ⟨q.accepted, t.wire.length, released'⟩,
        _, rfl, ?_, ⟨?_, ?_⟩, .refl, queued, hi', hacc, rfl⟩
      · exact Queue.moves_to (by omega) (by omega) hrel hi'.ring.released_le
      · rw [Queue.status, if_neg (Nat.not_lt.mpr hshort)]
        exact (if_pos (by rw [hlen]; exact hfull)).symm
      · have hne : EmacStatus.txBusy ≠ .ok := by decide
        exact (if_neg hne).symm
    · -- the frame may have been sent and released before the write returns
      have hin := hi'.ring.sent_le
      have hbehind := hi'.ring.released_le
      have hone := dev.one_lt
      rw [List.length_append, List.length_singleton] at hin
      refine ⟨.ok, ⟨q.accepted, min t.wire.length queued.length, min released' queued.length⟩,
        ⟨q.accepted ++ [buffer.take size], min t.wire.length queued.length,
          min released' queued.length⟩,
        ⟨q.accepted ++ [buffer.take size], t.wire.length, released'⟩, rfl, ?_, ⟨?_, ?_⟩, ?_,
        _, hi', ?_, rfl⟩
      · apply Queue.moves_to
        · omega
        · omega
        · have hold := hi.ring.released_le
          omega
        · omega
      · rw [Queue.status, if_neg (Nat.not_lt.mpr hshort)]
        refine (if_neg ?_).symm
        change ¬ q.accepted.length + 1 = min released' queued.length + dev.usTxListSize
        omega
      · rw [if_pos rfl]
      · apply Queue.moves_to
        · omega
        · rw [List.length_append, List.length_singleton]
          omega
        · omega
        · exact hbehind
      · rw [List.map_append, hacc]
        rfl

/-- The ring refines the queue. -/
theorem implements (dev : Device) (enabled : State → Prop) :
    (emacWithHandler dev false enabled).Implements (txQueue dev) (.plain Holds fun _ _ => True)
      (driver dev) (fun _ => Represents dev enabled) where
  answers := by
    intro _ o q s x t hK hrep hruns
    cases o with
    | devWrite buffer size =>
      rcases hrep.runs_emacDevWrite hK hruns with ⟨r, q₁, q₂, q', hx, hm, ha, hm', hrep'⟩
      exact ⟨r, q₁, q₂, q', hx, trivial, hm, ha, hm', hrep'⟩
    | setTxWakeupCallback cb =>
      cases cb with
      | none =>
        change (emacWithHandler dev false enabled).Runs
          (emacDevSetTxWakeupCallback dev none 0) s x t at hruns
        rcases hrep.runs_setTxWakeupCallback hruns with ⟨r, q', hx, hq, hrep'⟩
        exact ⟨r, q', q', q', hx, trivial, hq, rfl, .refl, hrep'⟩
      | some threshold =>
        change (emacWithHandler dev false enabled).Runs
          (emacDevSetTxWakeupCallback dev (some ethernetifTxCb) threshold) s x t at hruns
        rcases hrep.runs_setTxWakeupCallback hruns with ⟨r, q', hx, hq, hrep'⟩
        exact ⟨r, q', q', q', hx, trivial, hq, rfl, .refl, hrep'⟩
    | notifyStateClear =>
      rcases runs_call.mp hruns with ⟨_, r, s₁, hm, rfl, h₁⟩
      rcases runs_ret.mp h₁ with ⟨rfl, rfl⟩
      rcases hrep.moves hm with ⟨q', hq, hrep'⟩
      exact ⟨r, q', q', q', rfl, trivial, hq, rfl, .refl, hrep'⟩
    | notifyWait ticks =>
      rcases runs_call.mp hruns with ⟨_, r, s₁, hm, rfl, h₁⟩
      rcases runs_ret.mp h₁ with ⟨rfl, rfl⟩
      rcases hrep.moves hm with ⟨q', hq, hrep'⟩
      exact ⟨r, q', q', q', rfl, trivial, hq, rfl, .refl, hrep'⟩

end EmacDriver
