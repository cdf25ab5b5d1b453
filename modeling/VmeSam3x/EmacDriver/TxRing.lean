import VmeSam3x.EmacDriver.Hardware

/-! # The descriptor ring

Frames are numbered as they are written. The first `released` ones have been released by the
handler, the frames on the wire are sent, and the others wait in the slots of their numbers. The
hardware and the handler keep this for the list of frames that the task has handed over, on a
full-duplex link and at any moment of a write.
-/

namespace EmacDriver

open Interact Machine Bytes

/-- A frame and the callback that was given with it. -/
structure Entry where
  frame : List U8
  callback : Option Callback

/-- The descriptors hold the frames `queued`, of which `released` are released. -/
structure Ring (dev : Device) (queued : List Entry) (released : Nat) (s : State) : Prop where
  enabled : s.enabled = true
  retryLimit : s.retryLimit = false
  sent : s.wire = (queued.take s.wire.length).map Entry.frame
  released_le : released ≤ s.wire.length
  bounded : queued.length < released + dev.usTxListSize
  queue : s.queue = s.wire.length % dev.usTxListSize
  addr : ∀ i < dev.usTxListSize, s.addr i = dev.pTxBuffer + i * emacTxUnitsize
  wrap : ∀ i < dev.usTxListSize, isWrap (s.status i) = (i == dev.usTxListSize - 1)
  waiting : ∀ j, released ≤ j → j < released + dev.usTxListSize →
    (isUsed (s.status (j % dev.usTxListSize)) = false ↔ s.wire.length ≤ j ∧ j < queued.length)
  ready : ∀ j e, queued[j]? = some e → s.wire.length ≤ j →
    isLast (s.status (j % dev.usTxListSize)) = true ∧
      s.frameAt (j % dev.usTxListSize) = e.frame
  callbacks : ∀ j e, queued[j]? = some e → released ≤ j →
    s.callbacks (j % dev.usTxListSize) = e.callback
  short : ∀ e ∈ queued, e.frame.length ≤ emacTxUnitsize

/-- Frames that wait are going to be sent. -/
def Live (queued : List Entry) (s : State) : Prop :=
  s.going = true ∨ s.wire.length = queued.length

/-- What neither the hardware nor the handler touches, and how they get on. -/
structure Keeps (queued : List Entry) (s t : State) : Prop where
  head : t.usTxHead = s.usTxHead
  mem : t.mem = s.mem
  callbacks : t.callbacks = s.callbacks
  wakeupCb : t.wakeupCb = s.wakeupCb
  threshold : t.threshold = s.threshold
  sent_le : s.wire.length ≤ t.wire.length
  live : Live queued s → Live queued t

/-- The hardware on its own leaves the handler's part as it is. -/
structure Drift (queued : List Entry) (s t : State) : Prop extends Keeps queued s t where
  tail : t.usTxTail = s.usTxTail
  txCalls : t.txCalls = s.txCalls
  wakeups : t.wakeups = s.wakeups

variable {dev : Device} {queued : List Entry} {released h : Nat} {s t u : State}

theorem Keeps.refl (queued : List Entry) (s : State) : Keeps queued s s :=
  ⟨rfl, rfl, rfl, rfl, rfl, le_refl _, id⟩

theorem Keeps.trans (h₁ : Keeps queued s t) (h₂ : Keeps queued t u) : Keeps queued s u where
  head := h₂.head.trans h₁.head
  mem := h₂.mem.trans h₁.mem
  callbacks := h₂.callbacks.trans h₁.callbacks
  wakeupCb := h₂.wakeupCb.trans h₁.wakeupCb
  threshold := h₂.threshold.trans h₁.threshold
  sent_le := h₁.sent_le.trans h₂.sent_le
  live := h₂.live ∘ h₁.live

theorem Drift.refl (queued : List Entry) (s : State) : Drift queued s s :=
  ⟨.refl queued s, rfl, rfl, rfl⟩

theorem Drift.trans (h₁ : Drift queued s t) (h₂ : Drift queued t u) : Drift queued s u where
  toKeeps := h₁.toKeeps.trans h₂.toKeeps
  tail := h₂.tail.trans h₁.tail
  txCalls := h₂.txCalls.trans h₁.txCalls
  wakeups := h₂.wakeups.trans h₁.wakeups

theorem Device.pos (dev : Device) : 0 < dev.usTxListSize := Nat.lt_of_succ_lt dev.one_lt

theorem Device.slot_lt (dev : Device) (j : Nat) : j % dev.usTxListSize < dev.usTxListSize :=
  Nat.mod_lt j dev.pos

theorem Ring.sent_le (hr : Ring dev queued released s) : s.wire.length ≤ queued.length := by
  have hlen := congrArg List.length hr.sent
  rw [List.length_map, List.length_take] at hlen
  omega

theorem Ring.sent_lt (hr : Ring dev queued released s) :
    s.wire.length < released + dev.usTxListSize :=
  lt_of_le_of_lt hr.sent_le hr.bounded

/-- The hardware meets a descriptor to send when a frame is waiting, and then only. -/
theorem Ring.waiting_queue (hr : Ring dev queued released s) :
    isUsed (s.status s.queue) = false ↔ s.wire.length < queued.length := by
  rw [hr.queue, hr.waiting _ hr.released_le hr.sent_lt]
  exact and_iff_right (le_refl _)

/-- The descriptor behind the one of the frame number `j` is the next one's. -/
theorem Ring.following (hr : Ring dev queued released s) :
    s.following = (s.wire.length + 1) % dev.usTxListSize := by
  have hlt : s.queue < dev.usTxListSize := by
    rw [hr.queue]
    exact dev.slot_lt _
  have hpos := dev.pos
  rw [State.following, hr.wrap _ hlt, ← Slots.next_mod hpos, ← hr.queue, Slots.next]
  by_cases hlast : s.queue = dev.usTxListSize - 1
  · rw [if_pos (beq_iff_eq.mpr hlast), if_pos (by omega)]
  · rw [if_neg (fun hb => hlast (beq_iff_eq.mp hb)), if_neg (by omega)]

/-- A frame is sent: the first one that waits. -/
theorem Ring.send (hr : Ring dev queued released s) {v : U32}
    (hready : isUsed (s.status s.queue) = false) (hused : isUsed v = true)
    (hwrap : isWrap v = isWrap (s.status s.queue)) :
    Ring dev queued released
      { s with
        wire := s.wire ++ [s.frameAt s.queue]
        status := Function.update s.status s.queue v
        queue := s.following } := by
  have hlt : s.wire.length < queued.length := hr.waiting_queue.mp hready
  have hbounded := hr.bounded
  have hreleased := hr.released_le
  have hslot : s.queue < dev.usTxListSize := by
    rw [hr.queue]
    exact dev.slot_lt _
  rcases hr.ready _ _ (List.getElem?_eq_getElem hlt) (le_refl _) with ⟨-, hframe⟩
  -- other numbers of the round are in other slots
  have hother : ∀ j, released ≤ j → j < released + dev.usTxListSize → j ≠ s.wire.length →
      j % dev.usTxListSize ≠ s.queue := by
    intro j hj hj' hne heq
    rw [hr.queue] at heq
    exact hne (Slots.eq_of_mod_eq hj hj' hreleased hr.sent_lt heq)
  constructor
  · exact hr.enabled
  · exact hr.retryLimit
  · change s.wire ++ [s.frameAt s.queue] = _
    rw [List.length_append, List.length_singleton, List.take_add_one, List.map_append,
      ← hr.sent, List.getElem?_eq_getElem hlt, hr.queue, hframe]
    rfl
  · change released ≤ (s.wire ++ [s.frameAt s.queue]).length
    rw [List.length_append]
    omega
  · exact hbounded
  · change s.following = (s.wire ++ [s.frameAt s.queue]).length % _
    rw [hr.following, List.length_append, List.length_singleton]
  · exact hr.addr
  · intro i hi
    change isWrap (Function.update s.status s.queue v i) = _
    by_cases heq : i = s.queue
    · rw [heq, Function.update_self, hwrap, hr.wrap _ hslot]
    · rw [Function.update_of_ne heq, hr.wrap i hi]
  · intro j hj hj'
    change isUsed (Function.update s.status s.queue v _) = false ↔
      (s.wire ++ [s.frameAt s.queue]).length ≤ j ∧ _
    rw [List.length_append, List.length_singleton]
    by_cases heq : j = s.wire.length
    · rw [heq, ← hr.queue, Function.update_self, hused]
      simp
    · rw [Function.update_of_ne (hother j hj hj' heq), hr.waiting j hj hj']
      omega
  · intro j e hj hsent
    change (s.wire ++ [s.frameAt s.queue]).length ≤ j at hsent
    rw [List.length_append, List.length_singleton] at hsent
    have hjlt : j < queued.length := (List.getElem?_eq_some_iff.mp hj).1
    have hne := hother j (by omega) (by omega) (by omega)
    rcases hr.ready j e hj (by omega) with ⟨hlast, hframe'⟩
    change isLast (Function.update s.status s.queue v _) = true ∧
      s.bytesAt _ (lengthOf (Function.update s.status s.queue v _)) = _
    rw [Function.update_of_ne hne]
    exact ⟨hlast, hframe'⟩
  · exact hr.callbacks
  · exact hr.short

/-- The ring does not depend on the rest of the state. -/
theorem Ring.set (hr : Ring dev queued released s) (usTxHead usTxTail : Nat)
    (wakeupCb : Option Callback) (threshold : U8) (going : Bool) (txCalls : List (Callback × U32))
    (wakeups : Nat) :
    Ring dev queued released
      { s with usTxHead, usTxTail, wakeupCb, threshold, going, txCalls, wakeups } :=
  ⟨hr.enabled, hr.retryLimit, hr.sent, hr.released_le, hr.bounded, hr.queue, hr.addr, hr.wrap,
    hr.waiting, hr.ready, hr.callbacks, hr.short⟩

/-- A sent frame is released. -/
theorem Ring.release (hr : Ring dev queued released s) (hlt : released < s.wire.length) :
    Ring dev queued (released + 1) s := by
  have hbounded := hr.bounded
  refine ⟨hr.enabled, hr.retryLimit, hr.sent, hlt, by omega, hr.queue, hr.addr, hr.wrap, ?_,
    hr.ready, fun j e hj hle => hr.callbacks j e hj (by omega), hr.short⟩
  intro j hj hj'
  by_cases hnew : j = released + dev.usTxListSize
  · -- the number that the round has won is in the slot that was released
    have hslot := hr.waiting released (le_refl _) (by omega)
    rw [hnew, Nat.add_mod_right, hslot]
    omega
  · exact hr.waiting j (by omega) (by omega)

/-- The hardware on its own, on a full-duplex link. -/
theorem Ring.transmits (hr : Ring dev queued released s) (hm : Transmits false s t) :
    Ring dev queued released t ∧ Drift queued s t := by
  cases hm with
  | send hon hgoing hready hlast hused hwrap =>
    refine ⟨hr.send hready hused hwrap, ⟨rfl, rfl, rfl, rfl, rfl, ?_, ?_⟩, rfl, rfl, rfl⟩
    · simp
    · intro
      exact .inl hgoing
  | stop hgoing hused =>
    refine ⟨hr.set _ _ _ _ _ _ _, ⟨rfl, rfl, rfl, rfl, rfl, le_refl _, ?_⟩, rfl, rfl, rfl⟩
    -- it stops at a used descriptor, so nothing waits
    intro
    right
    have hle := hr.sent_le
    have hwait := hr.waiting_queue
    rw [hused] at hwait
    have hnot : ¬ s.wire.length < queued.length := fun hlt => Bool.noConfusion (hwait.mpr hlt)
    exact le_antisymm hle (Nat.le_of_not_lt hnot)
  | giveUp hduplex => cases hduplex

theorem Ring.moves (hr : Ring dev queued released s) (hm : (emac false).Moves s t) :
    Ring dev queued released t ∧ Drift queued s t := by
  induction hm with
  | refl => exact ⟨hr, .refl queued s⟩
  | tail _ hstep ih =>
    rcases ih with ⟨hr₁, hd₁⟩
    rcases hr₁.transmits hstep with ⟨hr₂, hd₂⟩
    exact ⟨hr₂, hd₁.trans hd₂⟩

/-- A program on the transmitter begins with an operation. -/
theorem Ring.runs_op {E α : Type} {o : TxOp} {f : Tx.Res o → TxProg E α} {x : Except E α}
    (hr : Ring dev queued released s)
    (hruns : (emac false).Runs (Prog.perform (S := Tx) o >>= f) s x t) :
    ∃ s₁ r s₂, Ring dev queued released s₁ ∧ Drift queued s s₁ ∧ s₁.Answers o r s₂ ∧
      (emac false).Runs (f r) s₂ x t := by
  rcases runs_perform_bind.mp hruns with ⟨s₁, r, s₂, hm, ha, h₁⟩
  rcases hr.moves hm with ⟨hr₁, hd₁⟩
  exact ⟨s₁, r, s₂, hr₁, hd₁, ha, h₁⟩

end EmacDriver
