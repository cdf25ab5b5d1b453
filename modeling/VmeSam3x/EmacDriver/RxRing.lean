import VmeSam3x.EmacDriver.Receiver

/-! # The receive descriptors

Pieces are numbered as they are written. The first `released` ones have been given back; the
others are in the slots of their numbers, owned by the task. On a link that loses nothing behind
the beginning of a frame, the pieces are those of the received frames, one frame after the other,
and at the end those of a frame that is on its way.
-/

namespace EmacDriver

open Interact Machine Bytes

variable {dev : RxDevice} {released k : Nat} {s t u : RxState} {lossy : Bool} {p q : Piece}

/-! ## The ring -/

/-- The piece is in the slot. -/
structure RxState.Holds (s : RxState) (i : Nat) (p : Piece) : Prop where
  sof : isSof (s.status i) = p.isFirst
  eof : isEof (s.status i) = p.isLast
  length : p.isLast = true → frameLength (s.status i) = p.frame.length
  bytes : ∀ k b, p.bytes[k]? = some b → s.mem (bufferOf (s.addr i) + k) = b

/-- The descriptors hold the pieces that are not released; a piece stays in its buffer until the
hardware comes round. -/
structure RxRing (dev : RxDevice) (released : Nat) (s : RxState) : Prop where
  enabled : s.enabled = true
  queue : s.queue = s.pieces.length % dev.usRxListSize
  released_le : released ≤ s.pieces.length
  bounded : s.pieces.length ≤ released + dev.usRxListSize
  buffer : ∀ i < dev.usRxListSize, bufferOf (s.addr i) = dev.pRxBuffer + i * emacRxUnitsize
  wrap : ∀ i < dev.usRxListSize, isRxWrap (s.addr i) = (i == dev.usRxListSize - 1)
  owned : ∀ j, released ≤ j → j < released + dev.usRxListSize →
    (isOwned (s.addr (j % dev.usRxListSize)) = true ↔ j < s.pieces.length)
  holds : ∀ j p, s.pieces[j]? = some p → s.pieces.length ≤ j + dev.usRxListSize →
    s.Holds (j % dev.usRxListSize) p

theorem RxDevice.pos (dev : RxDevice) : 0 < dev.usRxListSize := Nat.lt_of_succ_lt dev.one_lt

theorem RxDevice.slot_lt (dev : RxDevice) (j : Nat) : j % dev.usRxListSize < dev.usRxListSize :=
  Nat.mod_lt j dev.pos

/-- What has come in stays, and the stack is not touched. -/
structure RxLater (s t : RxState) : Prop where
  inputs : t.inputs = s.inputs
  stats : t.stats = s.stats
  pieces : s.pieces <+: t.pieces
  received : s.received <+: t.received

/-- The index of the task stays as well. -/
structure RxDrift (s t : RxState) : Prop extends RxLater s t where
  idx : t.usRxIdx = s.usRxIdx

theorem RxLater.refl (s : RxState) : RxLater s s :=
  ⟨rfl, rfl, List.prefix_rfl, List.prefix_rfl⟩

theorem RxLater.trans (h₁ : RxLater s t) (h₂ : RxLater t u) : RxLater s u where
  inputs := h₂.inputs.trans h₁.inputs
  stats := h₂.stats.trans h₁.stats
  pieces := h₁.pieces.trans h₂.pieces
  received := h₁.received.trans h₂.received

theorem RxDrift.refl (s : RxState) : RxDrift s s := ⟨.refl s, rfl⟩

theorem RxDrift.trans (h₁ : RxDrift s t) (h₂ : RxDrift t u) : RxDrift s u where
  toRxLater := h₁.toRxLater.trans h₂.toRxLater
  idx := h₂.idx.trans h₁.idx

/-- What was there stays. -/
theorem getElem?_of_grown {α : Type} {xs ys : List α} {x : α} {j : Nat} (h : xs <+: ys)
    (hx : xs[j]? = some x) : ys[j]? = some x := by
  rcases h with ⟨rest, hrest⟩
  rw [← hrest, List.getElem?_append_left (List.getElem?_eq_some_iff.mp hx).1]
  exact hx

theorem RxLater.getElem? {j : Nat} (h : RxLater s t) (hp : s.pieces[j]? = some p) :
    t.pieces[j]? = some p := getElem?_of_grown h.pieces hp

/-- The buffers of different slots do not overlap. -/
theorem RxDevice.apart (dev : RxDevice) {i j : Nat} (h : i ≠ j) {k : Nat} (hk : k < emacRxUnitsize) :
    dev.pRxBuffer + i * emacRxUnitsize + k < dev.pRxBuffer + j * emacRxUnitsize ∨
      dev.pRxBuffer + j * emacRxUnitsize + emacRxUnitsize ≤
        dev.pRxBuffer + i * emacRxUnitsize + k := by
  unfold emacRxUnitsize at *
  omega

theorem Piece.length_bytes_le (p : Piece) : p.bytes.length ≤ emacRxUnitsize :=
  List.length_take_le _ _

/-- The descriptor behind the one of the queue pointer is the next number's. -/
theorem RxRing.following (hr : RxRing dev released s) :
    s.following = (s.pieces.length + 1) % dev.usRxListSize := by
  have hpos := dev.pos
  have hlt : s.queue < dev.usRxListSize := by
    rw [hr.queue]
    exact dev.slot_lt _
  rw [RxState.following, hr.wrap _ hlt, ← Slots.next_mod hpos, ← hr.queue, Slots.next]
  by_cases hlast : s.queue = dev.usRxListSize - 1
  · rw [if_pos (beq_iff_eq.mpr hlast), if_pos (by omega)]
  · rw [if_neg (fun hb => hlast (beq_iff_eq.mp hb)), if_neg (by omega)]

/-- The hardware writes a piece when a slot is free, and then only. -/
theorem RxRing.not_full (hr : RxRing dev released s) (hfree : isOwned (s.addr s.queue) = false) :
    s.pieces.length < released + dev.usRxListSize := by
  rcases Nat.lt_or_ge s.pieces.length (released + dev.usRxListSize) with hlt | hge
  · exact hlt
  · have hpos := dev.pos
    have hfull : s.pieces.length = released + dev.usRxListSize := Nat.le_antisymm hr.bounded hge
    have howned := hr.owned released (le_refl _) (by omega)
    rw [hr.queue, hfull, Nat.add_mod_right] at hfree
    rw [hfree] at howned
    exact absurd (howned.mpr (by omega)) Bool.false_ne_true

/-- A piece is written. -/
theorem RxRing.fill (hr : RxRing dev released s) {v : U32} {mem : Nat → U8}
    (hfree : isOwned (s.addr s.queue) = false) (hsof : isSof v = p.isFirst)
    (heof : isEof v = p.isLast) (hlength : p.isLast = true → frameLength v = p.frame.length)
    (hbytes : ∀ k b, p.bytes[k]? = some b → mem (bufferOf (s.addr s.queue) + k) = b)
    (hrest : ∀ a, a < bufferOf (s.addr s.queue) ∨
      bufferOf (s.addr s.queue) + emacRxUnitsize ≤ a → mem a = s.mem a)
    (received : List (List U8)) (current : Option Piece) :
    RxRing dev released
      { s with
        mem
        status := Function.update s.status s.queue v
        addr := Function.update s.addr s.queue (s.addr s.queue ||| emacRxdOwnership)
        queue := s.following
        pieces := s.pieces ++ [p]
        received
        current } := by
  have hroom := hr.not_full hfree
  have hle := hr.released_le
  have hqueue : s.queue < dev.usRxListSize := by
    rw [hr.queue]
    exact dev.slot_lt _
  have hgrow : (s.pieces ++ [p]).length = s.pieces.length + 1 := by simp
  refine ⟨hr.enabled, ?_, ?_, ?_, ?_, ?_, ?_, ?_⟩
  · change s.following = _
    rw [hgrow]
    exact hr.following
  · change _ ≤ (s.pieces ++ [p]).length
    omega
  · change (s.pieces ++ [p]).length ≤ _
    omega
  · intro i hi
    change bufferOf (Function.update s.addr s.queue _ i) = _
    by_cases h : i = s.queue
    · rw [h, Function.update_self, bufferOf_set]
      exact hr.buffer _ hqueue
    · rw [Function.update_of_ne h]
      exact hr.buffer i hi
  · intro i hi
    change isRxWrap (Function.update s.addr s.queue _ i) = _
    by_cases h : i = s.queue
    · rw [h, Function.update_self, isRxWrap_set]
      exact hr.wrap _ hqueue
    · rw [Function.update_of_ne h]
      exact hr.wrap i hi
  · intro j hj hj'
    change isOwned (Function.update s.addr s.queue _ _) = true ↔ j < (s.pieces ++ [p]).length
    rw [hgrow]
    by_cases h : j % dev.usRxListSize = s.queue
    · have hnumber : j = s.pieces.length := by
        rw [hr.queue] at h
        exact Slots.eq_of_mod_eq hj hj' hle hroom h
      rw [h, Function.update_self, isOwned_set]
      exact iff_of_true rfl (by omega)
    · rw [Function.update_of_ne h, hr.owned j hj hj']
      have hne : j ≠ s.pieces.length := by
        intro heq
        rw [heq, ← hr.queue] at h
        exact h rfl
      omega
  · intro j q hq hj
    change (s.pieces ++ [p])[j]? = some q at hq
    change (s.pieces ++ [p]).length ≤ _ at hj
    by_cases h : j = s.pieces.length
    · rw [h, List.getElem?_concat_length] at hq
      cases hq
      rw [h, ← hr.queue]
      refine ⟨?_, ?_, ?_, ?_⟩
      · change isSof (Function.update s.status s.queue v s.queue) = _
        rw [Function.update_self, hsof]
      · change isEof (Function.update s.status s.queue v s.queue) = _
        rw [Function.update_self, heof]
      · change _ → frameLength (Function.update s.status s.queue v s.queue) = _
        rw [Function.update_self]
        exact hlength
      · intro k b hb
        change mem (bufferOf (Function.update s.addr s.queue _ s.queue) + k) = b
        rw [Function.update_self, bufferOf_set]
        exact hbytes k b hb
    · have hlt : j < s.pieces.length := by
        have := (List.getElem?_eq_some_iff.mp hq).1
        omega
      rw [List.getElem?_append_left hlt] at hq
      have hne : j % dev.usRxListSize ≠ s.queue := by
        rw [hr.queue]
        intro heq
        have := Slots.eq_of_mod_eq (t := j) (le_refl _) (by omega) hlt.le (by omega) heq
        omega
      have hold := hr.holds j q hq (by omega)
      refine ⟨?_, ?_, ?_, ?_⟩
      · change isSof (Function.update s.status s.queue v _) = _
        rw [Function.update_of_ne hne]
        exact hold.sof
      · change isEof (Function.update s.status s.queue v _) = _
        rw [Function.update_of_ne hne]
        exact hold.eof
      · change _ → frameLength (Function.update s.status s.queue v _) = _
        rw [Function.update_of_ne hne]
        exact hold.length
      · intro k b hb
        change mem (bufferOf (Function.update s.addr s.queue _ _) + k) = b
        have hk : k < emacRxUnitsize :=
          (List.getElem?_eq_some_iff.mp hb).1.trans_le q.length_bytes_le
        rw [Function.update_of_ne hne, hrest]
        · exact hold.bytes k b hb
        · rw [hr.buffer _ (dev.slot_lt j), hr.buffer _ hqueue]
          exact dev.apart hne hk

/-- The variables of the task are not part of the ring. -/
theorem RxRing.set (hr : RxRing dev released s) (usRxIdx : Nat) (rxCb : Option Callback)
    (rcomp : Bool) (current : Option Piece) (inputs : List (List (List U8)))
    (stats : Ethernet.LinkStat → Nat) :
    RxRing dev released { s with usRxIdx, rxCb, rcomp, current, inputs, stats } :=
  ⟨hr.enabled, hr.queue, hr.released_le, hr.bounded, hr.buffer, hr.wrap, hr.owned, fun j p hp hj =>
    ⟨(hr.holds j p hp hj).sof, (hr.holds j p hp hj).eof, (hr.holds j p hp hj).length,
      (hr.holds j p hp hj).bytes⟩⟩

/-- The oldest descriptor is given back. -/
theorem RxRing.release (hr : RxRing dev released s) (hlt : released < s.pieces.length) {v : U32}
    (howned : isOwned v = false)
    (hbuffer : bufferOf v = dev.pRxBuffer + released % dev.usRxListSize * emacRxUnitsize)
    (hwrap : isRxWrap v = (released % dev.usRxListSize == dev.usRxListSize - 1)) :
    RxRing dev (released + 1)
      { s with addr := Function.update s.addr (released % dev.usRxListSize) v } := by
  have hbounded := hr.bounded
  have hslot := dev.slot_lt released
  refine ⟨hr.enabled, hr.queue, hlt, ?_, ?_, ?_, ?_, ?_⟩
  · change s.pieces.length ≤ _
    omega
  · intro i hi
    change bufferOf (Function.update s.addr _ _ i) = _
    by_cases h : i = released % dev.usRxListSize
    · rw [h, Function.update_self, hbuffer]
    · rw [Function.update_of_ne h]
      exact hr.buffer i hi
  · intro i hi
    change isRxWrap (Function.update s.addr _ _ i) = _
    by_cases h : i = released % dev.usRxListSize
    · rw [h, Function.update_self, hwrap]
    · rw [Function.update_of_ne h]
      exact hr.wrap i hi
  · intro j hj hj'
    change isOwned (Function.update s.addr _ _ _) = true ↔ j < s.pieces.length
    by_cases hnew : j = released + dev.usRxListSize
    · -- the round that the release has won
      rw [hnew, Nat.add_mod_right, Function.update_self, howned]
      exact iff_of_false Bool.false_ne_true (by omega)
    · have hne : j % dev.usRxListSize ≠ released % dev.usRxListSize := by
        intro heq
        have := Slots.eq_of_mod_eq (t := released) (by omega) (by omega) (le_refl _) (by omega) heq
        omega
      rw [Function.update_of_ne hne]
      exact hr.owned j (by omega) (by omega)
  · intro j q hq hj
    have hold := hr.holds j q hq hj
    refine ⟨hold.sof, hold.eof, hold.length, ?_⟩
    intro k b hb
    change s.mem (bufferOf (Function.update s.addr _ _ _) + k) = b
    by_cases h : j % dev.usRxListSize = released % dev.usRxListSize
    · rw [h, Function.update_self, hbuffer, ← hr.buffer _ hslot, ← h]
      exact hold.bytes k b hb
    · rw [Function.update_of_ne h]
      exact hold.bytes k b hb

/-- The hardware on its own. -/
theorem RxRing.receives (hr : RxRing dev released s) (hstep : Receives lossy s t) :
    RxRing dev released t ∧ RxDrift s t := by
  cases hstep with
  | fill _ _ hfree hsof heof hlength hbytes hrest =>
    exact ⟨hr.fill hfree hsof heof hlength hbytes hrest _ _,
      ⟨rfl, rfl, List.prefix_append _ _, List.prefix_append _ _⟩, rfl⟩
  | abandon => exact ⟨hr.set _ _ _ _ _ _, ⟨rfl, rfl, List.prefix_rfl, List.prefix_rfl⟩, rfl⟩

theorem RxRing.moves (hr : RxRing dev released s) (hm : (emacRx lossy).Moves s t) :
    RxRing dev released t ∧ RxDrift s t := by
  induction hm with
  | refl => exact ⟨hr, .refl s⟩
  | tail _ hstep ih =>
    rcases ih with ⟨hr', hd⟩
    rcases hr'.receives hstep with ⟨hr'', hd'⟩
    exact ⟨hr'', hd.trans hd'⟩

/-- No operation of the task is seen by the one who sends. -/
theorem incoming_of_answers {o : RxOp} {r : Rx.Res o} (ha : s.Answers o r t) :
    t.pieces = s.pieces ∧ t.received = s.received ∧ t.current = s.current := by
  have hsame : ∀ v : RxState, t = v → v.pieces = s.pieces → v.received = s.received →
      v.current = s.current → t.pieces = s.pieces ∧ t.received = s.received ∧
        t.current = s.current := by
    rintro v rfl h₁ h₂ h₃
    exact ⟨h₁, h₂, h₃⟩
  cases o with
  | stack o =>
    cases o
    all_goals first | exact hsame _ ha rfl rfl rfl | exact hsame _ ha.2 rfl rfl rfl
  | _ => first | exact hsame _ ha rfl rfl rfl | exact hsame _ ha.2 rfl rfl rfl

/-- The pieces only get more. -/
theorem pieces_grow {E α : Type} {p : RxProg E α} {x : Except E α}
    (hruns : (emacRx lossy).Runs p s x t) : s.pieces <+: t.pieces := by
  refine Runs.invariant (I := fun u : RxState => s.pieces <+: u.pieces) ?_ ?_ p.uses_true hruns
    List.prefix_rfl
  · intro s₁ s₂ hm h
    cases hm with
    | fill => exact h.trans (List.prefix_append _ _)
    | abandon => exact h
  · intro s₁ o r s₂ _ ha h
    rw [(incoming_of_answers ha).1]
    exact h

/-! ## Whole frames -/

/-- What may follow a piece. -/
def Piece.Follows (p q : Piece) : Prop := if p.isLast then q.index = 0 else q = p.following

/-- The piece that has to come next. -/
def upcoming (pieces : List Piece) : Option Piece :=
  match pieces.getLast? with
  | none => none
  | some p => if p.isLast then none else some p.following

/-- The frames that end in a list of pieces. -/
def framesOf (pieces : List Piece) : List (List U8) := (pieces.filter Piece.isLast).map Piece.frame

/-- No frame was abandoned behind its first piece. -/
structure Whole (s : RxState) : Prop where
  current : s.current = upcoming s.pieces
  received : s.received = framesOf s.pieces
  head : ∀ p, s.pieces[0]? = some p → p.index = 0
  next : ∀ j p q, s.pieces[j]? = some p → s.pieces[j + 1]? = some q → p.Follows q
  sized : ∀ p ∈ s.pieces, p.start < p.frame.length ∧ p.frame.length ≤ maxFrame

theorem framesOf_append (xs ys : List Piece) : framesOf (xs ++ ys) = framesOf xs ++ framesOf ys := by
  rw [framesOf, List.filter_append, List.map_append, framesOf, framesOf]

theorem framesOf_singleton (p : Piece) : framesOf [p] = if p.isLast then [p.frame] else [] := by
  cases h : p.isLast <;> simp [framesOf, h]

theorem upcoming_concat (xs : List Piece) (p : Piece) :
    upcoming (xs ++ [p]) = if p.isLast then none else some p.following := by
  rw [upcoming, List.getLast?_concat]

/-- What follows the last piece is what has to come next, or a new frame. -/
theorem Whole.follows (hw : Whole s) (hnext : s.Next q) {j : Nat} (hp : s.pieces[j]? = some p)
    (hj : j + 1 = s.pieces.length) : p.Follows q := by
  have hlast : s.pieces.getLast? = some p := by
    rw [List.getLast?_eq_getElem?, ← hj, Nat.add_sub_cancel]
    exact hp
  have hcurrent := hw.current
  rw [upcoming, hlast] at hcurrent
  unfold Piece.Follows
  by_cases h : p.isLast = true
  · rw [if_pos h]
    change s.current = if p.isLast then none else some p.following at hcurrent
    rw [if_pos h] at hcurrent
    rcases hnext with hq | ⟨-, hq, -⟩
    · rw [hq] at hcurrent
      cases hcurrent
    · exact hq
  · rw [if_neg h]
    change s.current = if p.isLast then none else some p.following at hcurrent
    rw [if_neg h] at hcurrent
    rcases hnext with hq | ⟨hq, -⟩
    · rw [hq] at hcurrent
      cases hcurrent
      rfl
    · rw [hq] at hcurrent
      cases hcurrent

/-- The piece that comes next lies in its frame. -/
theorem Whole.sized_next (hw : Whole s) (hnext : s.Next q) :
    q.start < q.frame.length ∧ q.frame.length ≤ maxFrame := by
  rcases hnext with hq | ⟨-, hindex, hpos, hle⟩
  · have hcurrent := hw.current
    rw [hq, upcoming] at hcurrent
    cases hlast : s.pieces.getLast? with
    | none =>
      rw [hlast] at hcurrent
      cases hcurrent
    | some p =>
      rw [hlast] at hcurrent
      change some q = if p.isLast then none else some p.following at hcurrent
      by_cases h : p.isLast = true
      · rw [if_pos h] at hcurrent
        cases hcurrent
      · rw [if_neg h] at hcurrent
        cases hcurrent
        have hnot : p.start + emacRxUnitsize < p.frame.length := by
          rw [Piece.isLast, decide_eq_true_eq] at h
          omega
        have hstart : p.following.start = p.start + emacRxUnitsize := Nat.succ_mul _ _
        rw [hstart]
        exact ⟨hnot, (hw.sized p (List.mem_of_getLast? hlast)).2⟩
  · rw [Piece.start, hindex, Nat.zero_mul]
    exact ⟨hpos, hle⟩

/-- A link that loses nothing. -/
theorem Whole.receives (hw : Whole s) (hstep : Receives false s t) : Whole t := by
  cases hstep with
  | @fill p _ _ _ hnext =>
    refine ⟨(upcoming_concat s.pieces p).symm, ?_, ?_, ?_, ?_⟩
    · change s.received ++ _ = framesOf (s.pieces ++ [p])
      rw [framesOf_append, framesOf_singleton, ← hw.received]
    · intro q hq
      change (s.pieces ++ [p])[0]? = some q at hq
      by_cases hempty : s.pieces = []
      · rw [hempty] at hq
        cases hq
        have hcurrent := hw.current
        rw [hempty] at hcurrent
        rcases hnext with hp | ⟨-, hp, -⟩
        · rw [hp] at hcurrent
          cases hcurrent
        · exact hp
      · rw [List.getElem?_append_left (List.length_pos_of_ne_nil hempty)] at hq
        exact hw.head q hq
    · intro j q r hq hr
      change (s.pieces ++ [p])[j]? = some q at hq
      change (s.pieces ++ [p])[j + 1]? = some r at hr
      have hlt := (List.getElem?_eq_some_iff.mp hr).1
      rw [List.length_append, List.length_singleton] at hlt
      rw [List.getElem?_append_left (by omega)] at hq
      by_cases hend : j + 1 = s.pieces.length
      · rw [hend, List.getElem?_concat_length] at hr
        cases hr
        exact hw.follows hnext hq hend
      · rw [List.getElem?_append_left (by omega)] at hr
        exact hw.next j q r hq hr
    · intro q hq
      rcases List.mem_append.mp hq with hold | hnew
      · exact hw.sized q hold
      · rw [List.mem_singleton.mp hnew]
        exact hw.sized_next hnext
  | abandon hlossy => cases hlossy

theorem Whole.moves (hw : Whole s) (hm : (emacRx false).Moves s t) : Whole t :=
  Moves.invariant (fun _ _ hstep h => h.receives hstep) hm hw

/-- Whatever the task does. -/
theorem Whole.runs {E α : Type} {p : RxProg E α} {x : Except E α} (hw : Whole s)
    (hruns : (emacRx false).Runs p s x t) : Whole t := by
  refine Runs.invariant (fun _ _ hstep h => h.receives hstep) ?_ p.uses_true hruns hw
  intro s₁ o r s₂ _ ha h
  rcases incoming_of_answers ha with ⟨hpieces, hreceived, hcurrent⟩
  refine ⟨?_, ?_, ?_, ?_, ?_⟩
  · rw [hcurrent, hpieces]
    exact h.current
  · rw [hreceived, hpieces]
    exact h.received
  · rw [hpieces]
    exact h.head
  · rw [hpieces]
    exact h.next
  · rw [hpieces]
    exact h.sized

end EmacDriver
