import VmeSam3x.EmacDriver.Read

/-! # Frames in order

On a link that abandons no frame behind its first piece, the calls of `emac_dev_read` return the
received frames one after the other, each one whole and once, whatever comes in meanwhile.
-/

namespace EmacDriver

open Interact Machine Bytes

variable {dev : RxDevice} {released taken size fuel i : Nat} {s t u : RxState} {f : List U8}
  {E α : Type}

/-! ## The pieces of a frame -/

theorem covers_self (f : List U8) (i : Nat) : Covers ⟨f, i⟩ i f := by
  intro k hk
  rw [Piece.bytes, List.getElem?_take_of_lt hk, List.getElem?_drop]
  rfl

/-- From its first piece on there is nothing but the frame. -/
theorem Whole.frame_at (hw : Whole s) (hfirst : s.pieces[released]? = some ⟨f, 0⟩)
    (hi : i * emacRxUnitsize < f.length) {q : Piece} (hq : s.pieces[released + i]? = some q) :
    q = ⟨f, i⟩ := by
  induction i generalizing q with
  | zero =>
    rw [Nat.add_zero, hfirst] at hq
    cases hq
    rfl
  | succ i ih =>
    have hlt := (List.getElem?_eq_some_iff.mp hq).1
    have hstep : (i + 1) * emacRxUnitsize = i * emacRxUnitsize + emacRxUnitsize := Nat.succ_mul _ _
    have hbefore : s.pieces[released + i]? = some ⟨f, i⟩ := by
      have hget := List.getElem?_eq_getElem (l := s.pieces) (show released + i < _ by omega)
      rw [hget, ih (by omega) hget]
    have hnot : ¬ (⟨f, i⟩ : Piece).isLast = true := by
      rw [Piece.isLast_iff]
      omega
    have hfollows := hw.next _ _ _ hbefore hq
    rw [Piece.Follows, if_neg hnot] at hfollows
    exact hfollows

/-- Before its last piece it does not count. -/
theorem Whole.framesOf_take (hw : Whole s) (hfirst : s.pieces[released]? = some ⟨f, 0⟩)
    (hi : i * emacRxUnitsize < f.length) :
    framesOf (s.pieces.take (released + i)) = framesOf (s.pieces.take released) := by
  induction i with
  | zero => rw [Nat.add_zero]
  | succ i ih =>
    have hstep : (i + 1) * emacRxUnitsize = i * emacRxUnitsize + emacRxUnitsize := Nat.succ_mul _ _
    rw [← Nat.add_assoc, List.take_add_one, framesOf_append, ih (by omega)]
    cases hq : s.pieces[released + i]? with
    | none => exact List.append_nil _
    | some q =>
      have hnot : ¬ (⟨f, i⟩ : Piece).isLast = true := by
        rw [Piece.isLast_iff]
        omega
      rw [hw.frame_at hfirst (by omega) hq, Option.toList_some, framesOf_singleton, if_neg hnot,
        List.append_nil]

/-- With its last piece it counts. -/
theorem Whole.framesOf_take_last (hw : Whole s) (hfirst : s.pieces[released]? = some ⟨f, 0⟩)
    (hi : i * emacRxUnitsize < f.length) (hq : s.pieces[released + i]? = some ⟨f, i⟩)
    (hlast : (⟨f, i⟩ : Piece).isLast = true) :
    framesOf (s.pieces.take (released + i + 1)) = framesOf (s.pieces.take released) ++ [f] := by
  rw [List.take_add_one, framesOf_append, hw.framesOf_take hfirst hi, hq, Option.toList_some,
    framesOf_singleton, if_pos hlast]

/-! ## Reading one frame -/

/-- Behind `released` pieces, which are those of `taken` frames, a new frame begins. -/
structure Boundary (s : RxState) (released taken : Nat) : Prop where
  le : released ≤ s.pieces.length
  count : (framesOf (s.pieces.take released)).length = taken
  ended : ∀ j p, j + 1 = released → s.pieces[j]? = some p → p.isLast = true

theorem Boundary.later (h : Boundary s released taken) (hpre : s.pieces <+: t.pieces) :
    Boundary t released taken := by
  rcases hpre with ⟨rest, hrest⟩
  refine ⟨h.le.trans (by rw [← hrest, List.length_append]; omega), ?_, ?_⟩
  · rw [← hrest, List.take_append_of_le_length h.le, h.count]
  · intro j p hj hp
    have hle := h.le
    rw [← hrest, List.getElem?_append_left (by omega)] at hp
    exact h.ended j p hj hp

theorem Boundary.first (h : Boundary s released taken) (hw : Whole s) {p : Piece}
    (hp : s.pieces[released]? = some p) : p.index = 0 := by
  cases released with
  | zero => exact hw.head p hp
  | succ j =>
    have hle := h.le
    have hget := List.getElem?_eq_getElem (l := s.pieces) (show j < _ by omega)
    have hfollows := hw.next j _ p hget hp
    rw [Piece.Follows, if_pos (h.ended j _ rfl hget)] at hfollows
    exact hfollows

/-- The next boundary is behind the last piece of the frame. -/
theorem Boundary.next (h : Boundary s released taken) (hw : Whole s)
    (hfirst : s.pieces[released]? = some ⟨f, 0⟩) (hi : i * emacRxUnitsize < f.length)
    (hq : s.pieces[released + i]? = some ⟨f, i⟩) (hlast : (⟨f, i⟩ : Piece).isLast = true) :
    Boundary s (released + i + 1) (taken + 1) ∧ s.received[taken]? = some f := by
  have htake := hw.framesOf_take_last hfirst hi hq hlast
  refine ⟨⟨(List.getElem?_eq_some_iff.mp hq).1, ?_, ?_⟩, ?_⟩
  · rw [htake, List.length_append, h.count, List.length_singleton]
  · intro j p hj hp
    rw [Nat.succ.inj hj, hq] at hp
    cases hp
    exact hlast
  · have hsplit := framesOf_append (s.pieces.take (released + i + 1))
      (s.pieces.drop (released + i + 1))
    rw [List.take_append_drop, htake] at hsplit
    rw [hw.received, hsplit, List.append_assoc, List.getElem?_append_right h.count.le, h.count,
      Nat.sub_self]
    rfl

/-- The task has taken `taken` frames, and its index is at the beginning of the next one. -/
structure AtFrame (dev : RxDevice) (taken : Nat) (s : RxState) : Prop where
  whole : Whole s
  ring : ∃ released, RxRing dev released s ∧ s.usRxIdx = released % dev.usRxListSize ∧
    Boundary s released taken

/-- What the driver is for: the frames that came in, of which the task has taken the first ones. -/
structure Inbox where
  received : List (List U8)
  taken : Nat
  inputs : List (List (List U8))
  stats : Ethernet.LinkStat → Nat

/-- A frame comes in. -/
inductive Inbox.Receives : Inbox → Inbox → Prop
  | receive {q : Inbox} {f : List U8} (hmax : f.length ≤ maxFrame) :
      Inbox.Receives q { q with received := q.received ++ [f] }

/-- The result of a reading that returns the frame `f`. -/
structure Returns (f : List U8) (size : Nat) (pFrame : List U8) (r : Ethernet.Reading) : Prop where
  rc : r.rc = if size < f.length then .sizeTooSmall else .ok
  pRcvSize : r.pRcvSize = f.length
  length : r.pFrame.length = pFrame.length
  filled : Filled r.pFrame size f

def Inbox.Answers (q : Inbox) : (o : Ethernet.InputOp) → Ethernet.Input.Res o → Inbox → Prop
  | .devRead pFrame size _, r, q' =>
    r.rc = .rxNull ∧ r.pFrame.length = pFrame.length ∧ q.received.length = q.taken ∧ q' = q ∨
      ∃ f, q.received[q.taken]? = some f ∧ Returns f size pFrame r ∧
        q' = { q with taken := q.taken + 1 }
  | .setRxCallback _, _, q' => q' = q
  | .stack .notifyStateClear, _, q' => q' = q
  | .stack (.notifyWait _), _, q' => q' = q
  | .stack (.taskDelay _), _, q' => q' = q
  | .stack (.pbufAlloc length), r, q' =>
    (r = none ∨ r = some (Ethernet.poolLengths length)) ∧ q' = q
  | .stack (.linkStatsInc stat), _, q' =>
    q' = { q with stats := Function.update q.stats stat (q.stats stat + 1) }
  | .stack (.netifInput p), _, q' => q' = { q with inputs := q.inputs ++ [p] }
  | .stack (.pbufFree _), _, q' => q' = q

abbrev rxInbox : Machine Ethernet.Input where
  State := Inbox
  move := Inbox.Receives
  answer := Inbox.Answers

/-- The caller's buffer is as large as it says. -/
def Fits : Ethernet.InputOp → Prop
  | .devRead pFrame ulFrameSize _ => ulFrameSize ≤ pFrame.length
  | _ => True

/-- The descriptors as an inbox. -/
structure Shows (dev : RxDevice) (q : Inbox) (s : RxState) : Prop where
  atFrame : AtFrame dev q.taken s
  received : q.received = s.received
  inputs : q.inputs = s.inputs
  stats : q.stats = s.stats

theorem Whole.received_le (hw : Whole s) (hf : f ∈ s.received) : f.length ≤ maxFrame := by
  rw [hw.received, framesOf] at hf
  rcases List.mem_map.mp hf with ⟨p, hp, rfl⟩
  exact (hw.sized p (List.mem_of_mem_filter hp)).2

/-- More frames have come in. -/
theorem Inbox.moves_received {q : Inbox} {received : List (List U8)}
    (hpre : q.received <+: received) (hmax : ∀ f ∈ received, f.length ≤ maxFrame) :
    rxInbox.Moves q { q with received } := by
  rcases hpre with ⟨rest, rfl⟩
  induction rest generalizing q with
  | nil =>
    rw [List.append_nil]
  | cons f rest ih =>
    have hf : f.length ≤ maxFrame := hmax f (by simp)
    have hstep : Inbox.Receives q { q with received := q.received ++ [f] } := .receive hf
    have hsplit : q.received ++ f :: rest = (q.received ++ [f]) ++ rest := by
      rw [List.append_assoc, List.singleton_append]
    rw [hsplit] at hmax ⊢
    exact .head hstep (ih (q := { q with received := q.received ++ [f] }) hmax)

/-- The hardware on its own. -/
theorem Shows.moves {q : Inbox} (h : Shows dev q s) (hm : (emacRx false).Moves s t) :
    ∃ q', rxInbox.Moves q q' ∧ Shows dev q' t := by
  have hw := h.atFrame.whole.moves hm
  rcases h.atFrame.ring with ⟨released, hr, hidx, hb⟩
  rcases hr.moves hm with ⟨hr', hd⟩
  refine ⟨{ q with received := t.received }, ?_, ⟨hw, released, hr', hd.idx.trans hidx,
    hb.later hd.pieces⟩, rfl, h.inputs.trans hd.inputs.symm, h.stats.trans hd.stats.symm⟩
  apply Inbox.moves_received
  · rw [h.received]
    exact hd.received
  · exact fun f hf => hw.received_le hf

/-- The variables of the task and of the stack are not part of the inbox's frames. -/
theorem Shows.set {q : Inbox} (h : Shows dev q s) (rxCb : Option Callback) (rcomp : Bool)
    (inputs : List (List (List U8))) (stats : Ethernet.LinkStat → Nat) :
    Shows dev { q with inputs, stats } { s with rxCb, rcomp, inputs, stats } := by
  rcases h.atFrame.ring with ⟨released, hr, hidx, hb⟩
  exact ⟨⟨⟨h.atFrame.whole.current, h.atFrame.whole.received, h.atFrame.whole.head,
    h.atFrame.whole.next, h.atFrame.whole.sized⟩, released, hr.set _ _ _ _ _ _, hidx,
    hb.le, hb.count, hb.ended⟩, h.received, rfl, rfl⟩

/-- One operation that the ring does not see. -/
theorem Shows.runs_call {q : Inbox} {o : RxOp} {k : Rx.Res o → RxProg E α} {x : Except E α}
    (h : Shows dev q s) (hruns : (emacRx false).Runs (.call o k) s x t)
    (hset : ∀ u r v, RxState.Answers u o r v →
      v = { u with rxCb := v.rxCb, rcomp := v.rcomp, inputs := v.inputs, stats := v.stats }) :
    ∃ q₁ u r v, rxInbox.Moves q q₁ ∧ Shows dev q₁ u ∧ RxState.Answers u o r v ∧
      Shows dev { q₁ with inputs := v.inputs, stats := v.stats } v ∧
      (emacRx false).Runs (k r) v x t := by
  rcases Machine.runs_call.mp hruns with ⟨u, r, v, hm, ha, h₁⟩
  rcases h.moves hm with ⟨q₁, hmoves, h'⟩
  refine ⟨q₁, u, r, v, hmoves, h', ha, ?_, h₁⟩
  rw [hset u r v ha]
  exact h'.set _ _ _ _

theorem Shows.same {q : Inbox} (h : Shows dev q s) :
    ({ q with inputs := s.inputs, stats := s.stats } : Inbox) = q := by
  rw [← h.inputs, ← h.stats]

end EmacDriver
