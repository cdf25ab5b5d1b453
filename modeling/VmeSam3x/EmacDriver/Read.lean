import VmeSam3x.EmacDriver.RxRing

/-! # Reading a frame

What the parts of `emac_dev_read` do on the ring, while the hardware goes on. The task looks at
the descriptors from the first one that is not released on, and gives them back in order.
-/

namespace EmacDriver

open Interact Machine Bytes

variable {dev : RxDevice} {released j k n size fuel : Nat} {s t u : RxState} {lossy : Bool}
  {p q : Piece} {g : Gathering} {w : List U8}

/-! ## Operations -/

/-- A program begins with an operation. -/
theorem RxRing.runs_op {E α : Type} {o : RxOp} {f : Rx.Res o → RxProg E α} {x : Except E α}
    (hr : RxRing dev released s)
    (hruns : (emacRx lossy).Runs (Prog.perform (S := Rx) o >>= f) s x t) :
    ∃ s₁ r s₂, RxRing dev released s₁ ∧ RxDrift s s₁ ∧ s₁.Answers o r s₂ ∧
      (emacRx lossy).Runs (f r) s₂ x t := by
  rcases runs_perform_bind.mp hruns with ⟨s₁, r, s₂, hm, ha, h₁⟩
  rcases hr.moves hm with ⟨hr₁, hd⟩
  exact ⟨s₁, r, s₂, hr₁, hd, ha, h₁⟩

/-- The ownership bit shows whether there is a piece. -/
theorem RxRing.ownership (hr : RxRing dev released s) (hk : k < dev.usRxListSize) :
    s.addr ((released + k) % dev.usRxListSize) &&& emacRxdOwnership = emacRxdOwnership ↔
      released + k < s.pieces.length := by
  rw [and_emacRxdOwnership]
  exact hr.owned _ (by omega) (by omega)

/-! ## Giving back -/

theorem RxRing.runs_clearOwnership {E : Type} (hr : RxRing dev released s)
    (hlt : released < s.pieces.length) {x : Except E Unit}
    (hruns : (emacRx lossy).Runs (clearOwnership (released % dev.usRxListSize)) s x t) :
    x = .ok () ∧ RxRing dev (released + 1) t ∧ RxDrift s t := by
  rcases hr.runs_op hruns with ⟨_, _, s₁, hr₁, hd₁, ⟨rfl, rfl⟩, h₁⟩
  rcases runs_call.mp h₁ with ⟨s₂, _, _, hm, rfl, h₂⟩
  rcases runs_ret.mp h₂ with ⟨rfl, rfl⟩
  rcases hr₁.moves hm with ⟨hr₂, hd₂⟩
  have hd := hd₁.trans hd₂
  have hslot := dev.slot_lt released
  refine ⟨rfl, hr₂.release ?_ (isOwned_clear _) ?_ ?_, ⟨hd.inputs, hd.stats, hd.pieces,
    hd.received⟩, hd.idx⟩
  · exact hlt.trans_le hd.pieces.length_le
  · rw [bufferOf_clear, hr₁.buffer _ hslot]
  · rw [isRxWrap_clear, hr₁.wrap _ hslot]

/-- The index goes on to the next slot. -/
theorem RxRing.runs_circInc {E : Type} (hr : RxRing dev released s)
    (hidx : s.usRxIdx = j % dev.usRxListSize) {x : Except E Unit}
    (hruns : (emacRx lossy).Runs (circInc usRxIdx setUsRxIdx dev.usRxListSize) s x t) :
    x = .ok () ∧ RxRing dev released t ∧ RxLater s t ∧
      t.usRxIdx = (j + 1) % dev.usRxListSize := by
  have hslot := dev.slot_lt j
  have hfits := dev.fits
  have hnext := Slots.next_mod dev.pos j
  rcases hr.runs_op hruns with ⟨_, _, s₁, hr₁, hd₁, ⟨rfl, rfl⟩, h₁⟩
  rcases hr₁.runs_op h₁ with ⟨s₂, _, _, hr₂, hd₂, rfl, h₂⟩
  have hr₂' := hr₂.set ((s₁.usRxIdx + 1) % 2 ^ 16) s₂.rxCb s₂.rcomp s₂.current s₂.inputs s₂.stats
  rcases hr₂'.runs_op h₂ with ⟨_, _, s₃, hr₃, hd₃, ⟨rfl, rfl⟩, h₃⟩
  have hvalue : s₃.usRxIdx = j % dev.usRxListSize + 1 := by
    rw [hd₃.idx]
    change (s₁.usRxIdx + 1) % 2 ^ 16 = _
    rw [hd₁.idx, hidx, Nat.mod_eq_of_lt (by omega)]
  have hlater : RxLater s s₃ :=
    (hd₁.trans hd₂).toRxLater.trans ⟨hd₃.inputs, hd₃.stats, hd₃.pieces, hd₃.received⟩
  rw [hvalue] at h₃
  rw [Slots.next] at hnext
  split at h₃
  · rename_i hge
    rw [if_pos hge] at hnext
    rcases runs_call.mp h₃ with ⟨s₄, _, _, hm, rfl, h₄⟩
    rcases runs_ret.mp h₄ with ⟨rfl, rfl⟩
    rcases hr₃.moves hm with ⟨hr₄, hd₄⟩
    have hl := hlater.trans hd₄.toRxLater
    exact ⟨rfl, hr₄.set _ _ _ _ _ _, ⟨hl.inputs, hl.stats, hl.pieces, hl.received⟩, hnext⟩
  · rename_i hlt
    rw [if_neg hlt] at hnext
    rcases runs_ret.mp h₃ with ⟨rfl, rfl⟩
    exact ⟨rfl, hr₃, hlater, hvalue.trans hnext⟩

theorem RxRing.runs_releaseOne (hr : RxRing dev released s)
    (hidx : s.usRxIdx = released % dev.usRxListSize) (hlt : released < s.pieces.length)
    {x : Except Ethernet.Fault Nat} (hruns : (emacRx lossy).Runs (releaseOne dev) s x t) :
    x = .ok (released % dev.usRxListSize) ∧ RxRing dev (released + 1) t ∧ RxLater s t ∧
      t.usRxIdx = (released + 1) % dev.usRxListSize := by
  rcases hr.runs_op hruns with ⟨_, _, s₁, hr₁, hd₁, ⟨rfl, rfl⟩, h₁⟩
  have hidx₁ := hd₁.idx.trans hidx
  rw [hidx₁] at h₁
  have hlt₁ := hlt.trans_le hd₁.pieces.length_le
  rcases Runs.of_bind_value (fun _ _ h => hr₁.runs_clearOwnership hlt₁ h) h₁ with
    ⟨s₂, ⟨hr₂, hd₂⟩, h₂⟩
  rcases Runs.of_bind_value (fun _ _ h => hr₂.runs_circInc (hd₂.idx.trans hidx₁) h) h₂ with
    ⟨s₃, ⟨hr₃, hl₃, hidx₃⟩, h₃⟩
  rcases runs_ret.mp h₃ with ⟨rfl, rfl⟩
  exact ⟨rfl, hr₃, (hd₁.trans hd₂).toRxLater.trans hl₃, hidx₃⟩

/-- The descriptors up to the piece number `j` are given back. -/
theorem RxRing.runs_releaseUntil (hr : RxRing dev released s)
    (hidx : s.usRxIdx = released % dev.usRxListSize) (hle : released ≤ j)
    (hround : j < released + dev.usRxListSize) (hin : j ≤ s.pieces.length)
    (hfuel : j - released < fuel) {pRxTd : Nat} {x : Except Ethernet.Fault Nat}
    (hruns : (emacRx lossy).Runs (releaseUntil dev (j % dev.usRxListSize) fuel pRxTd) s x t) :
    x = .ok (if released = j then pRxTd else (j - 1) % dev.usRxListSize) ∧ RxRing dev j t ∧
      RxLater s t ∧ t.usRxIdx = j % dev.usRxListSize := by
  induction fuel generalizing released s pRxTd with
  | zero => omega
  | succ fuel ih =>
    rcases hr.runs_op hruns with ⟨_, _, s₁, hr₁, hd₁, ⟨rfl, rfl⟩, h₁⟩
    have hidx₁ := hd₁.idx.trans hidx
    rw [hidx₁] at h₁
    by_cases hend : released = j
    · subst hend
      rw [if_pos rfl] at h₁
      rcases runs_ret.mp h₁ with ⟨rfl, rfl⟩
      rw [if_pos rfl]
      exact ⟨rfl, hr₁, hd₁.toRxLater, hidx₁⟩
    · have hne : ¬ j % dev.usRxListSize = released % dev.usRxListSize := by
        intro heq
        exact hend (Slots.eq_of_mod_eq hle hround (le_refl _) (by omega) heq).symm
      rw [if_neg hne] at h₁
      have hlt₁ : released < s₁.pieces.length := by
        have := hd₁.pieces.length_le
        omega
      rcases Runs.of_bind_value (fun _ _ h => hr₁.runs_releaseOne hidx₁ hlt₁ h) h₁ with
        ⟨s₂, ⟨hr₂, hl₂, hidx₂⟩, h₂⟩
      have hin₂ : j ≤ s₂.pieces.length :=
        (hin.trans hd₁.pieces.length_le).trans hl₂.pieces.length_le
      rcases ih hr₂ hidx₂ (by omega) (by omega) hin₂ (by omega) h₂ with ⟨rfl, hr₃, hl₃, hidx₃⟩
      refine ⟨?_, hr₃, (hd₁.toRxLater.trans hl₂).trans hl₃, hidx₃⟩
      rw [if_neg hend]
      by_cases hone : released + 1 = j
      · rw [if_pos hone, ← hone, Nat.add_sub_cancel]
      · rw [if_neg hone]

/-! ## Copying -/

/-- The bytes of a piece are copied while the hardware has not come round to its buffer. -/
theorem RxRing.runs_copyFrom {E : Type} (hr : RxRing dev released s) (hp : s.pieces[j]? = some p)
    {src : Nat} (hsrc : src = dev.pRxBuffer + j % dev.usRxListSize * emacRxUnitsize + k)
    {x : Except E (List U8)} (hruns : (emacRx lossy).Runs (copyFrom src n) s x t) :
    ∃ bytes, x = .ok bytes ∧ bytes.length = n ∧ RxRing dev released t ∧ RxDrift s t ∧
      (t.pieces.length ≤ j + dev.usRxListSize →
        ∀ i b, i < n → p.bytes[k + i]? = some b → bytes[i]? = some b) := by
  induction n generalizing k src s t x with
  | zero =>
    rcases runs_ret.mp hruns with ⟨rfl, rfl⟩
    refine ⟨[], rfl, rfl, hr, .refl _, ?_⟩
    intro _ i b hi
    omega
  | succ n ih =>
    rcases hr.runs_op hruns with ⟨s₀, _, s₁, hr₁, hd₁, ⟨rfl, rfl⟩, h₁⟩
    have hrest : ∀ (y : Except E (List U8)) u, (emacRx lossy).Runs (copyFrom (src + 1) n) s₁ y u →
        ∃ bytes, y = .ok bytes ∧ (bytes.length = n ∧ RxRing dev released u ∧ RxDrift s₁ u ∧
          (u.pieces.length ≤ j + dev.usRxListSize →
            ∀ i b, i < n → p.bytes[k + 1 + i]? = some b → bytes[i]? = some b)) := by
      intro y u hy
      rcases ih hr₁ (hd₁.getElem? hp) (k := k + 1) (by rw [hsrc, Nat.add_assoc]) hy with
        ⟨bytes, hy, hlen, hru, hdu, hbytes⟩
      exact ⟨bytes, hy, hlen, hru, hdu, hbytes⟩
    rcases Runs.of_bind_of_ok hrest h₁ with ⟨bytes, s₂, ⟨hlen, hr₂, hd₂, hbytes⟩, h₂⟩
    rcases runs_ret.mp h₂ with ⟨rfl, rfl⟩
    refine ⟨_, rfl, by rw [List.length_cons, hlen], hr₂, hd₁.trans hd₂, ?_⟩
    intro hround i b hi hb
    cases i with
    | zero =>
      have hhold := hr₁.holds j p (hd₁.getElem? hp) (hd₂.pieces.length_le.trans hround)
      rw [List.getElem?_cons_zero, hsrc, ← hr₁.buffer _ (dev.slot_lt j)]
      exact congrArg some (hhold.bytes k b hb)
    | succ i =>
      rw [List.getElem?_cons_succ]
      exact hbytes hround i b (by omega) (by rw [← hb]; congr 1; omega)

/-- The first `len` bytes of the frame buffer are those of `w`, as far as these go. -/
def Filled (pFrame : List U8) (len : Nat) (w : List U8) : Prop :=
  ∀ i b, i < len → w[i]? = some b → pFrame[i]? = some b

theorem Filled.take_eq {pFrame : List U8} {len : Nat} (h : Filled pFrame len w)
    (hlen : w.length ≤ len) : pFrame.take w.length = w := by
  apply List.ext_getElem?
  intro i
  rcases Nat.lt_or_ge i w.length with hi | hi
  · rw [List.getElem?_take_of_lt hi, List.getElem?_eq_getElem hi]
    exact h i _ (by omega) (List.getElem?_eq_getElem hi)
  · rw [List.getElem?_eq_none hi, List.getElem?_eq_none]
    rw [List.length_take]
    omega

/-- The copied bytes are behind what was there. -/
theorem putBytes_of_le {frame bytes : List U8} {pos : Nat} (h : pos + bytes.length ≤ frame.length) :
    ∃ frame', putBytes frame pos bytes = .ok frame' ∧ frame'.length = frame.length ∧
      (∀ i < pos, frame'[i]? = frame[i]?) ∧
      ∀ i, i < bytes.length → frame'[pos + i]? = bytes[i]? := by
  have hpos : (frame.take pos).length = pos := List.length_take_of_le (by omega)
  refine ⟨_, if_pos h, ?_, ?_, ?_⟩
  · rw [List.length_append, List.length_append, hpos, List.length_drop]
    omega
  · intro i hi
    rw [List.append_assoc, List.getElem?_append_left (by omega), List.getElem?_take_of_lt hi]
  · intro i hi
    rw [List.append_assoc, List.getElem?_append_right (by omega), hpos, Nat.add_sub_cancel_left,
      List.getElem?_append_left hi]

/-- The part of `w` that a piece covers. -/
def Covers (p : Piece) (k : Nat) (w : List U8) : Prop :=
  ∀ i, i < emacRxUnitsize → w[k * emacRxUnitsize + i]? = p.bytes[i]?

theorem RxRing.runs_copyBuffer (hr : RxRing dev released s) (hp : s.pieces[j]? = some p)
    (htd : g.pRxTd = j % dev.usRxListSize) (hbuf : size ≤ g.pFrame.length)
    (hsize : g.tmpUlFrameSize = min (k * emacRxUnitsize) size) (hw : Covers p k w)
    {x : Except Ethernet.Fault Gathering} (hruns : (emacRx lossy).Runs (copyBuffer size g) s x t) :
    ∃ frame, x = .ok { g with
        pFrame := frame, tmpUlFrameSize := min ((k + 1) * emacRxUnitsize) size } ∧
      frame.length = g.pFrame.length ∧ RxRing dev released t ∧ RxDrift s t ∧
      (t.pieces.length ≤ j + dev.usRxListSize →
        Filled g.pFrame (min (k * emacRxUnitsize) size) w →
          Filled frame (min ((k + 1) * emacRxUnitsize) size) w) := by
  rcases hr.runs_op hruns with ⟨_, _, s₁, hr₁, hd₁, ⟨rfl, rfl⟩, h₁⟩
  have hsrc : ((s₁.addr g.pRxTd) &&& emacRxdAddrMask).toNat =
      dev.pRxBuffer + j % dev.usRxListSize * emacRxUnitsize + 0 := by
    rw [htd, Nat.add_zero]
    exact hr₁.buffer _ (dev.slot_lt j)
  have hcopy : ∀ (y : Except Ethernet.Fault (List U8)) u, (emacRx lossy).Runs
      (copyFrom ((s₁.addr g.pRxTd) &&& emacRxdAddrMask).toNat
        (if g.tmpUlFrameSize + emacRxUnitsize > size then size - g.tmpUlFrameSize
          else emacRxUnitsize)) s₁ y u → _ :=
    fun y u hy => hr₁.runs_copyFrom (hd₁.getElem? hp) hsrc hy
  rcases Runs.of_bind_of_ok hcopy h₁ with ⟨bytes, s₂, ⟨hlen, hr₂, hd₂, hbytes⟩, h₂⟩
  have hnext : g.tmpUlFrameSize + bytes.length = min ((k + 1) * emacRxUnitsize) size := by
    rw [hlen, hsize]
    unfold emacRxUnitsize
    split <;> omega
  have hfit : g.tmpUlFrameSize + bytes.length ≤ g.pFrame.length := by omega
  rcases putBytes_of_le hfit with ⟨frame, hput, hframe, hold, hnew⟩
  rw [hput] at h₂
  rcases runs_ret.mp h₂ with ⟨rfl, rfl⟩
  refine ⟨frame, ?_, hframe, hr₂, hd₁.trans hd₂, ?_⟩
  · rw [← hnext, hlen]
  · intro hround hfilled i b hi hb
    rcases Nat.lt_or_ge i g.tmpUlFrameSize with hlt | hge
    · rw [hold i hlt]
      exact hfilled i b (by omega) hb
    · -- a byte of this piece
      have hin : i - g.tmpUlFrameSize < bytes.length := by omega
      have hfull : g.tmpUlFrameSize = k * emacRxUnitsize := by
        have hle := Nat.min_le_left (k * emacRxUnitsize) size
        by_cases h : k * emacRxUnitsize ≤ size
        · rw [hsize, Nat.min_eq_left h]
        · omega
      have hshort : i - g.tmpUlFrameSize < emacRxUnitsize := by
        have hle := Nat.min_le_left ((k + 1) * emacRxUnitsize) size
        have hmul : (k + 1) * emacRxUnitsize = k * emacRxUnitsize + emacRxUnitsize :=
          Nat.succ_mul _ _
        omega
      have hpiece := hw _ hshort
      rw [← hfull, Nat.add_sub_of_le hge, hb] at hpiece
      have hcopied := hbytes hround (i - g.tmpUlFrameSize) b (by omega)
        (by rw [Nat.zero_add]; exact hpiece.symm)
      have hsplit := hnew _ hin
      rw [Nat.add_sub_of_le hge] at hsplit
      rw [hsplit, hcopied]

/-! ## One round of the loop -/

/-- A piece that does not begin a frame. -/
theorem RxRing.runs_startOfFrame_skip (hr : RxRing dev released s) (hp : s.pieces[j]? = some p)
    (hj : released ≤ j) (htd : g.pRxTd = j % dev.usRxListSize) (hfirst : p.isFirst = false)
    {x : Except Ethernet.Fault Gathering} (hruns : (emacRx lossy).Runs (startOfFrame dev g) s x t) :
    x = .ok g ∧ RxRing dev released t ∧ RxDrift s t := by
  rcases hr.runs_op hruns with ⟨_, _, s₁, hr₁, hd₁, ⟨rfl, rfl⟩, h₁⟩
  have hhold := hr₁.holds j p (hd₁.getElem? hp) (by have := hr₁.bounded; omega)
  have hnot : ¬ s₁.status g.pRxTd &&& emacRxdSof = emacRxdSof := by
    rw [and_emacRxdSof, htd, hhold.sof, hfirst]
    exact Bool.false_ne_true
  rw [if_neg hnot] at h₁
  rcases runs_ret.mp h₁ with ⟨rfl, rfl⟩
  exact ⟨rfl, hr₁, hd₁⟩

/-- A piece that begins a frame: what was gathered before is given back, and the pointer stays at
the last of it. -/
theorem RxRing.runs_startOfFrame (hr : RxRing dev released s)
    (hidx : s.usRxIdx = released % dev.usRxListSize) (hk : k < dev.usRxListSize)
    (hp : s.pieces[released + k]? = some p) (hfirst : p.isFirst = true)
    (htd : g.pRxTd = (released + k) % dev.usRxListSize)
    (htmp : g.usTmpIdx = (released + k) % dev.usRxListSize)
    {x : Except Ethernet.Fault Gathering} (hruns : (emacRx lossy).Runs (startOfFrame dev g) s x t) :
    x = .ok { g with
        pRxTd := if k = 0 then g.pRxTd else (released + k - 1) % dev.usRxListSize
        tmpUlFrameSize := 0
        cIsFrame := true } ∧
      RxRing dev (released + k) t ∧ RxLater s t ∧
      t.usRxIdx = (released + k) % dev.usRxListSize := by
  rcases hr.runs_op hruns with ⟨_, _, s₁, hr₁, hd₁, ⟨rfl, rfl⟩, h₁⟩
  have hlt : released + k < s.pieces.length := (List.getElem?_eq_some_iff.mp hp).1
  have hhold := hr₁.holds _ p (hd₁.getElem? hp) (by have := hr₁.bounded; omega)
  have hsof : s₁.status g.pRxTd &&& emacRxdSof = emacRxdSof := by
    rw [and_emacRxdSof, htd, hhold.sof, hfirst]
  rw [if_pos hsof, htmp] at h₁
  have hlen := hd₁.pieces.length_le
  have hrelease : ∀ (y : Except Ethernet.Fault Nat) u, (emacRx lossy).Runs
      (releaseUntil dev ((released + k) % dev.usRxListSize) (dev.usRxListSize + 1) g.pRxTd) s₁ y u →
        _ :=
    fun y u hy => hr₁.runs_releaseUntil (hd₁.idx.trans hidx) (Nat.le_add_right released k)
      (by omega) (by omega) (by omega) hy
  rcases Runs.of_bind_value hrelease h₁ with ⟨s₂, ⟨hr₂, hl₂, hidx₂⟩, h₂⟩
  rcases runs_ret.mp h₂ with ⟨rfl, rfl⟩
  refine ⟨?_, hr₂, hd₁.toRxLater.trans hl₂, hidx₂⟩
  rw [htmp]
  by_cases hzero : k = 0
  · subst hzero
    rw [if_pos rfl, if_pos (Nat.add_zero released).symm]
  · rw [if_neg hzero, if_neg (by omega)]

theorem circNext_mod (dev : RxDevice) (j : Nat) :
    circNext dev.usRxListSize (j % dev.usRxListSize) = (j + 1) % dev.usRxListSize := by
  have hslot := dev.slot_lt j
  have hfits := dev.fits
  rw [← Slots.next_mod dev.pos j, circNext, Slots.next, Nat.mod_eq_of_lt (by omega)]

/-- The result of the last piece. -/
def finished (p : Piece) (len : Nat) (frame : List U8) : Ethernet.Reading :=
  ⟨if len < p.frame.length then .sizeTooSmall else .ok, p.frame.length, frame⟩

/-- A piece is still in its buffer when the task has not released it, or the hardware does not come
round to it before the run ends. -/
theorem in_time {E α : Type} {m : RxProg E α} {x : Except E α} (hr : RxRing dev released s)
    (hruns : (emacRx lossy).Runs m s x t)
    (hround : released ≤ j ∨ t.pieces.length ≤ j + dev.usRxListSize) :
    s.pieces.length ≤ j + dev.usRxListSize := by
  rcases hround with hle | hle
  · have := hr.bounded
    omega
  · exact (pieces_grow hruns).length_le.trans hle

/-- The end of a frame: all its pieces are given back. -/
theorem RxRing.runs_endOfFrame (hr : RxRing dev released s)
    (hidx : s.usRxIdx = released % dev.usRxListSize) (hp : s.pieces[j]? = some p)
    (htd : g.pRxTd = j % dev.usRxListSize)
    (htmp : g.usTmpIdx = (released + k + 1) % dev.usRxListSize) (hk : k + 1 < dev.usRxListSize)
    (hin : released + k < s.pieces.length) (hlast : p.isLast = true)
    (hround : released ≤ j ∨ t.pieces.length ≤ j + dev.usRxListSize)
    {x : Except Ethernet.Fault Ethernet.Reading}
    (hruns : (emacRx lossy).Runs (endOfFrame dev g) s x t) :
    x = .ok (finished p g.tmpUlFrameSize g.pFrame) ∧ RxRing dev (released + k + 1) t ∧
      RxLater s t ∧ t.usRxIdx = (released + k + 1) % dev.usRxListSize := by
  rcases hr.runs_op hruns with ⟨_, _, s₁, hr₁, hd₁, ⟨rfl, rfl⟩, h₁⟩
  have hlen := hd₁.pieces.length_le
  rw [htmp] at h₁
  have hrelease : ∀ (y : Except Ethernet.Fault Nat) u, (emacRx lossy).Runs
      (releaseUntil dev ((released + k + 1) % dev.usRxListSize) (dev.usRxListSize + 1) g.pRxTd)
        s₁ y u → _ :=
    fun y u hy => hr₁.runs_releaseUntil (hd₁.idx.trans hidx) (by omega) (by omega) (by omega)
      (by omega) hy
  have hhold := hr₁.holds j p (hd₁.getElem? hp) (in_time hr₁ h₁ hround)
  have hlength : ((s₁.status g.pRxTd) &&& emacRxdLenMask).toNat = p.frame.length := by
    rw [htd]
    exact hhold.length hlast
  rcases Runs.of_bind_value hrelease h₁ with ⟨s₂, ⟨hr₂, hl₂, hidx₂⟩, h₂⟩
  have hend : x = .ok (finished p g.tmpUlFrameSize g.pFrame) ∧ t = s₂ := by
    rw [hlength] at h₂
    split at h₂
    · rename_i hsmall
      rw [finished, if_pos hsmall]
      exact runs_ret.mp h₂
    · rename_i hlarge
      rw [finished, if_neg hlarge]
      exact runs_ret.mp h₂
  rcases hend with ⟨hx, rfl⟩
  exact ⟨hx, hr₂, hd₁.toRxLater.trans hl₂, hidx₂⟩

/-- What a round makes of a piece. The descriptor that it looks at may be an older one, as long as
the hardware has not come round to it. -/
structure Processed (dev : RxDevice) (released k size : Nat) (w : List U8) (p : Piece)
    (g : Gathering) (t : RxState) (y : Ethernet.Reading ⊕ Gathering) (frame : List U8) : Prop where
  length : frame.length = g.pFrame.length
  filled : Filled g.pFrame (min (k * emacRxUnitsize) size) w →
    Filled frame (min ((k + 1) * emacRxUnitsize) size) w
  last : p.isLast = true →
    y = .inl (finished p (min ((k + 1) * emacRxUnitsize) size) frame) ∧
      RxRing dev (released + k + 1) t ∧ t.usRxIdx = (released + k + 1) % dev.usRxListSize
  notLast : p.isLast = false →
    y = .inr ⟨(released + k + 1) % dev.usRxListSize, (released + k + 1) % dev.usRxListSize,
        min ((k + 1) * emacRxUnitsize) size, true, frame⟩ ∧
      RxRing dev released t ∧ t.usRxIdx = released % dev.usRxListSize

theorem RxRing.runs_processBuffer (hr : RxRing dev released s)
    (hidx : s.usRxIdx = released % dev.usRxListSize) (hp : s.pieces[j]? = some p)
    (hframe : g.cIsFrame = true) (htd : g.pRxTd = j % dev.usRxListSize)
    (htmp : g.usTmpIdx = (released + k) % dev.usRxListSize) (hk : k + 1 < dev.usRxListSize)
    (hin : released + k < s.pieces.length) (hbuf : size ≤ g.pFrame.length)
    (hsize : g.tmpUlFrameSize = min (k * emacRxUnitsize) size) (hw : Covers p k w)
    (hround : released ≤ j ∨ t.pieces.length ≤ j + dev.usRxListSize)
    {x : Except Ethernet.Fault (Ethernet.Reading ⊕ Gathering)}
    (hruns : (emacRx lossy).Runs (processBuffer dev size g) s x t) :
    ∃ y frame, x = .ok y ∧ RxLater s t ∧ Processed dev released k size w p g t y frame := by
  rw [processBuffer, htmp, circNext_mod, if_pos hframe] at hruns
  rcases hr.runs_op hruns with ⟨_, _, s₁, hr₁, hd₁, ⟨rfl, rfl⟩, h₁⟩
  have hidx₁ := hd₁.idx.trans hidx
  -- the ring is larger than what was gathered
  have hne : ¬ (released + k + 1) % dev.usRxListSize = released % dev.usRxListSize := by
    intro heq
    have := Slots.eq_of_mod_eq (t := released) (by omega) (by omega) (le_refl _) (by omega) heq
    omega
  rw [hidx₁, if_neg hne] at h₁
  let g₁ : Gathering := { g with usTmpIdx := (released + k + 1) % dev.usRxListSize }
  have hcopy : ∀ (y : Except Ethernet.Fault Gathering) u,
      (emacRx lossy).Runs (copyBuffer size g₁) s₁ y u →
      ∃ g', y = .ok g' ∧ ∃ frame, g' = ⟨g.pRxTd, (released + k + 1) % dev.usRxListSize,
          min ((k + 1) * emacRxUnitsize) size, g.cIsFrame, frame⟩ ∧
        frame.length = g.pFrame.length ∧ RxRing dev released u ∧ RxDrift s₁ u ∧
        (u.pieces.length ≤ j + dev.usRxListSize →
          Filled g.pFrame (min (k * emacRxUnitsize) size) w →
            Filled frame (min ((k + 1) * emacRxUnitsize) size) w) := by
    intro y u hy
    rcases hr₁.runs_copyBuffer (g := g₁) (hd₁.getElem? hp) htd hbuf hsize hw hy with
      ⟨frame, hy, hframe⟩
    exact ⟨_, hy, frame, rfl, hframe⟩
  rcases Runs.of_bind_of_ok hcopy h₁ with ⟨_, s₂, ⟨frame, rfl, hlen, hr₂, hd₂, hfill⟩, h₂⟩
  have hfilled := hfill (in_time hr₂ h₂ hround)
  rcases hr₂.runs_op h₂ with ⟨_, _, s₃, hr₃, hd₃, ⟨rfl, rfl⟩, h₃⟩
  have hd := (hd₁.trans hd₂).trans hd₃
  have hp₃ := hd.getElem? hp
  have hin₃ := hin.trans_le hd.pieces.length_le
  have hidx₃ := hd.idx.trans hidx
  have heof : s₃.status g.pRxTd &&& emacRxdEof = emacRxdEof ↔ p.isLast = true := by
    rw [and_emacRxdEof, htd, (hr₃.holds j p hp₃ (in_time hr₃ h₃ hround)).eof]
  by_cases hlast : p.isLast = true
  · rw [if_pos (heof.mpr hlast)] at h₃
    let last : Gathering := ⟨g.pRxTd, (released + k + 1) % dev.usRxListSize,
      min ((k + 1) * emacRxUnitsize) size, g.cIsFrame, frame⟩
    have hend := fun y u (hy : (emacRx lossy).Runs (endOfFrame dev last) s₃ y u) hround' =>
      hr₃.runs_endOfFrame (g := last) hidx₃ hp₃ htd rfl hk hin₃ hlast hround' hy
    rcases h₃.of_bind with ⟨r, s₄, h₄, h₅⟩ | ⟨e, -, h₄⟩
    · rcases runs_ret.mp h₅ with ⟨rfl, rfl⟩
      rcases hend _ _ h₄ hround with ⟨heq, hr₄, hl₄, hidx₄⟩
      cases heq
      refine ⟨_, frame, rfl, hd.toRxLater.trans hl₄, hlen, hfilled, fun _ => ⟨rfl, hr₄, hidx₄⟩, ?_⟩
      intro hnot
      rw [hlast] at hnot
      cases hnot
    · rcases hend _ _ h₄ hround with ⟨heq, -⟩
      cases heq
  · rw [if_neg (mt heof.mp hlast)] at h₃
    rcases runs_ret.mp h₃ with ⟨rfl, rfl⟩
    refine ⟨_, frame, rfl, hd.toRxLater, hlen, hfilled, fun h => absurd h hlast, fun _ => ?_⟩
    rw [← hframe]
    exact ⟨rfl, hr₃, hidx₃⟩

/-! ## The rest of a frame -/

/-- How a reading ends whose first piece has the number `released`: without a frame, since some
piece of it was missing at the beginning, or with the contents `w`. -/
inductive Ends (dev : RxDevice) (released size : Nat) (f w : List U8) (s t : RxState)
    (r : Ethernet.Reading) : Prop
  | missing (i : Nat) (hrc : r.rc = .rxNull) (hsize : r.pRcvSize = 0)
      (hin : i * emacRxUnitsize < f.length) (hmissing : s.pieces.length ≤ released + i)
      (hr : RxRing dev released t) (hidx : t.usRxIdx = released % dev.usRxListSize)
  | complete (i : Nat) (hrc : r.rc = if size < f.length then .sizeTooSmall else .ok)
      (hsize : r.pRcvSize = f.length) (hin : i * emacRxUnitsize < f.length)
      (hlast : (⟨f, i⟩ : Piece).isLast = true) (hp : t.pieces[released + i]? = some ⟨f, i⟩)
      (hfilled : Filled r.pFrame size w)
      (hr : RxRing dev (released + i + 1) t)
      (hidx : t.usRxIdx = (released + i + 1) % dev.usRxListSize)

theorem Ends.later {f : List U8} {r : Ethernet.Reading} (h : Ends dev released size f w u t r)
    (hl : RxLater s u) : Ends dev released size f w s t r := by
  cases h with
  | missing i hrc hsize hin hmissing hr hidx =>
    exact .missing i hrc hsize hin (hl.pieces.length_le.trans hmissing) hr hidx
  | complete i hrc hsize hin hlast hp hfilled hr hidx =>
    exact .complete i hrc hsize hin hlast hp hfilled hr hidx

/-- The variables after `k` pieces of a frame. -/
structure Gathered (dev : RxDevice) (released k size : Nat) (w : List U8) (g : Gathering) :
    Prop where
  td : g.pRxTd = (released + k) % dev.usRxListSize
  tmp : g.usTmpIdx = (released + k) % dev.usRxListSize
  isFrame : g.cIsFrame = true
  count : g.tmpUlFrameSize = min (k * emacRxUnitsize) size
  fits : size ≤ g.pFrame.length
  filled : Filled g.pFrame (min (k * emacRxUnitsize) size) w

theorem Piece.isLast_iff {f : List U8} {i : Nat} :
    (⟨f, i⟩ : Piece).isLast = true ↔ f.length ≤ (i + 1) * emacRxUnitsize := by
  rw [Piece.isLast, decide_eq_true_eq, Piece.start, Nat.succ_mul]

/-- The round that meets the last piece. -/
theorem Processed.ends {f : List U8} {y : Ethernet.Reading ⊕ Gathering} {frame : List U8}
    (h : Processed dev released k size w ⟨f, k⟩ g t y frame)
    (hlast : (⟨f, k⟩ : Piece).isLast = true) (hp : t.pieces[released + k]? = some ⟨f, k⟩)
    (hfilled : Filled g.pFrame (min (k * emacRxUnitsize) size) w) (hw : w.length = f.length)
    (hin : k * emacRxUnitsize < f.length) :
    ∃ r, y = .inl r ∧ r.pFrame.length = g.pFrame.length ∧ Ends dev released size f w s t r := by
  rcases h.last hlast with ⟨rfl, hr, hidx⟩
  have hlen := Piece.isLast_iff.mp hlast
  refine ⟨_, rfl, h.length, .complete k ?_ rfl hin hlast hp ?_ hr hidx⟩
  · have hiff : min ((k + 1) * emacRxUnitsize) size < f.length ↔ size < f.length := by omega
    rw [finished]
    by_cases hsmall : size < f.length
    · rw [if_pos hsmall, if_pos (hiff.mpr hsmall)]
    · rw [if_neg hsmall, if_neg (mt hiff.mp hsmall)]
  · intro i b hi hb
    have hlt := (List.getElem?_eq_some_iff.mp hb).1
    exact h.filled hfilled i b (by omega) hb

/-- A round that has another one after it. -/
structure Continues (dev : RxDevice) (released k size fuel : Nat) (w : List U8) (g : Gathering)
    (lossy : Bool) (s t : RxState) (x : Except Ethernet.Fault Ethernet.Reading) (g' : Gathering)
    (s' : RxState) : Prop where
  later : RxLater s s'
  ring : RxRing dev released s'
  idx : s'.usRxIdx = released % dev.usRxListSize
  gathered : Gathered dev released (k + 1) size w g'
  length : g'.pFrame.length = g.pFrame.length
  runs : (emacRx lossy).Runs (readLoop dev size fuel g') s' x t

/-- From the copy of a piece on. The first piece of a frame may come from an older descriptor. -/
theorem RxRing.runs_afterStart {f : List U8} (hr : RxRing dev released s)
    (hidx : s.usRxIdx = released % dev.usRxListSize) (hp : s.pieces[j]? = some p)
    (hframe : g.cIsFrame = true) (htd : g.pRxTd = j % dev.usRxListSize)
    (htmp : g.usTmpIdx = (released + k) % dev.usRxListSize) (hk : k + 1 < dev.usRxListSize)
    (hthere : s.pieces[released + k]? = some ⟨f, k⟩) (hbuf : size ≤ g.pFrame.length)
    (hcount : g.tmpUlFrameSize = min (k * emacRxUnitsize) size) (hcovers : Covers p k w)
    (hfilled : Filled g.pFrame (min (k * emacRxUnitsize) size) w) (hw : w.length = f.length)
    (hpos : k * emacRxUnitsize < f.length)
    (hround : released ≤ j ∨ t.pieces.length ≤ j + dev.usRxListSize)
    (hsame : p.isLast = true → p = ⟨f, k⟩) {x : Except Ethernet.Fault Ethernet.Reading}
    (hruns : (emacRx lossy).Runs
      (processBuffer dev size g >>= returnOr (readLoop dev size fuel)) s x t) :
    (p.isLast = true → ∃ r, x = .ok r ∧ RxLater s t ∧ r.pFrame.length = g.pFrame.length ∧
      Ends dev released size f w s t r) ∧
    (p.isLast = false → ∃ g' s', Continues dev released k size fuel w g lossy s t x g' s') := by
  have hin := (List.getElem?_eq_some_iff.mp hthere).1
  rcases hruns.of_bind with ⟨y, s₁, h₁, h₂⟩ | ⟨e, -, h₁⟩
  · have hround₁ := hround.imp_right (pieces_grow h₂).length_le.trans
    rcases hr.runs_processBuffer hidx hp hframe htd htmp hk hin hbuf hcount hcovers hround₁ h₁ with
      ⟨y', frame, heq, hl, hproc⟩
    cases heq
    constructor
    · intro hlast
      cases hsame hlast
      rcases hproc.ends (s := s) hlast (hl.getElem? hthere) hfilled hw hpos with
        ⟨r, rfl, hlen, hends⟩
      rcases runs_ret.mp h₂ with ⟨rfl, rfl⟩
      exact ⟨r, rfl, hl, hlen, hends⟩
    · intro hlast
      rcases hproc.notLast hlast with ⟨rfl, hr₁, hidx₁⟩
      exact ⟨_, s₁, hl, hr₁, hidx₁, ⟨rfl, rfl, rfl, rfl, hbuf.trans hproc.length.symm.le,
        hproc.filled hfilled⟩, hproc.length, h₂⟩
  · have hround₁ : released ≤ j ∨ t.pieces.length ≤ j + dev.usRxListSize := hround
    rcases hr.runs_processBuffer hidx hp hframe htd htmp hk hin hbuf hcount hcovers hround₁ h₁ with
      ⟨y', frame, heq, -⟩
    cases heq

/-- The test of the loop. -/
theorem RxRing.runs_test (hr : RxRing dev released s) (hk : k < dev.usRxListSize)
    (htd : g.pRxTd = (released + k) % dev.usRxListSize) {x : Except Ethernet.Fault Ethernet.Reading}
    (hruns : (emacRx lossy).Runs (readLoop dev size (fuel + 1) g) s x t) :
    (∃ u, RxDrift s u ∧ RxRing dev released u ∧ released + k < u.pieces.length ∧
      (emacRx lossy).Runs (startOfFrame dev g >>= fun g =>
        processBuffer dev size g >>= returnOr (readLoop dev size fuel)) u x t) ∨
    x = .ok ⟨.rxNull, 0, g.pFrame⟩ ∧ s.pieces.length ≤ released + k ∧ RxRing dev released t ∧
      RxDrift s t := by
  rcases hr.runs_op hruns with ⟨_, _, s₁, hr₁, hd₁, ⟨rfl, rfl⟩, h₁⟩
  rw [htd] at h₁
  by_cases hthere : released + k < s₁.pieces.length
  · rw [if_pos ((hr₁.ownership hk).mpr hthere)] at h₁
    exact .inl ⟨s₁, hd₁, hr₁, hthere, h₁⟩
  · rw [if_neg (mt (hr₁.ownership hk).mp hthere)] at h₁
    rcases runs_ret.mp h₁ with ⟨rfl, rfl⟩
    have hlen := hd₁.pieces.length_le
    exact .inr ⟨rfl, by omega, hr₁, hd₁⟩

/-- A round on a piece in the middle of a frame. -/
theorem RxRing.runs_middle {f : List U8} (hr : RxRing dev released s)
    (hidx : s.usRxIdx = released % dev.usRxListSize) (hg : Gathered dev released k size w g)
    (hpos : 0 < k) (hk : k + 1 < dev.usRxListSize)
    (hthere : s.pieces[released + k]? = some ⟨f, k⟩) (hcovers : Covers ⟨f, k⟩ k w)
    (hw : w.length = f.length) (hin : k * emacRxUnitsize < f.length)
    {x : Except Ethernet.Fault Ethernet.Reading}
    (hruns : (emacRx lossy).Runs (startOfFrame dev g >>= fun g =>
      processBuffer dev size g >>= returnOr (readLoop dev size fuel)) s x t) :
    ((⟨f, k⟩ : Piece).isLast = true → ∃ r, x = .ok r ∧ RxLater s t ∧
      r.pFrame.length = g.pFrame.length ∧ Ends dev released size f w s t r) ∧
    ((⟨f, k⟩ : Piece).isLast = false →
      ∃ g' s', Continues dev released k size fuel w g lossy s t x g' s') := by
  have hfirst : (⟨f, k⟩ : Piece).isFirst = false := beq_eq_false_iff_ne.mpr hpos.ne'
  rcases Runs.of_bind_value (fun _ _ h => hr.runs_startOfFrame_skip hthere (by omega) hg.td
    hfirst h) hruns with ⟨s₁, ⟨hr₁, hd⟩, h₁⟩
  have hthere₁ := hd.getElem? hthere
  rcases hr₁.runs_afterStart (hd.idx.trans hidx) hthere₁ hg.isFrame hg.td hg.tmp hk hthere₁ hg.fits
    hg.count hcovers hg.filled hw hin (.inl (by omega)) (fun _ => rfl) h₁ with ⟨hlast, hmore⟩
  constructor
  · intro h
    rcases hlast h with ⟨r, hx, hl, hlen, hends⟩
    exact ⟨r, hx, hd.toRxLater.trans hl, hlen, hends.later hd.toRxLater⟩
  · intro h
    rcases hmore h with ⟨g', s', hnext⟩
    exact ⟨g', s', hd.toRxLater.trans hnext.later, hnext.ring, hnext.idx, hnext.gathered,
      hnext.length, hnext.runs⟩

/-- The pieces of a frame from the second one on. -/
theorem RxRing.runs_readLoop {f : List U8} (hr : RxRing dev released s)
    (hidx : s.usRxIdx = released % dev.usRxListSize) (hg : Gathered dev released k size w g)
    (hpos : 0 < k) (hin : k * emacRxUnitsize < f.length)
    (hshort : f.length ≤ (dev.usRxListSize - 1) * emacRxUnitsize)
    (hfuel : f.length ≤ (k + fuel) * emacRxUnitsize) (hw : w.length = f.length)
    (hcovers : ∀ i, k ≤ i → Covers ⟨f, i⟩ i w)
    (hpieces : ∀ i, k ≤ i → i * emacRxUnitsize < f.length → ∀ q,
      t.pieces[released + i]? = some q → q = ⟨f, i⟩)
    {x : Except Ethernet.Fault Ethernet.Reading}
    (hruns : (emacRx lossy).Runs (readLoop dev size fuel g) s x t) :
    ∃ r, x = .ok r ∧ RxLater s t ∧ r.pFrame.length = g.pFrame.length ∧
      Ends dev released size f w s t r := by
  induction fuel generalizing k s g with
  | zero =>
    rw [Nat.add_zero] at hfuel
    omega
  | succ fuel ih =>
    have hk : k + 1 < dev.usRxListSize := by
      unfold emacRxUnitsize at hin hshort
      omega
    rcases hr.runs_test (by omega) hg.td hruns with
      ⟨s₁, hd₁, hr₁, hthere, h₁⟩ | ⟨rfl, hmissing, hr₁, hd₁⟩
    · have hidx₁ := hd₁.idx.trans hidx
      have hp : s₁.pieces[released + k]? = some ⟨f, k⟩ := by
        have hget := List.getElem?_eq_getElem hthere
        rw [hget, hpieces k (le_refl _) hin _ (getElem?_of_grown (pieces_grow h₁) hget)]
      rcases hr₁.runs_middle hidx₁ hg hpos hk hp (hcovers k (le_refl _)) hw hin h₁ with
        ⟨hlast, hmore⟩
      cases h : (⟨f, k⟩ : Piece).isLast with
      | true =>
        rcases hlast h with ⟨r, hx, hl, hlen, hends⟩
        exact ⟨r, hx, hd₁.toRxLater.trans hl, hlen, hends.later hd₁.toRxLater⟩
      | false =>
        rcases hmore h with ⟨g', s', hnext⟩
        have hin' : (k + 1) * emacRxUnitsize < f.length := by
          have hnot : ¬ (⟨f, k⟩ : Piece).isLast = true := by
            rw [h]
            exact Bool.false_ne_true
          rw [Piece.isLast_iff] at hnot
          omega
        have hfuel' : f.length ≤ (k + 1 + fuel) * emacRxUnitsize := by
          rw [Nat.add_right_comm]
          exact hfuel
        rcases ih hnext.ring hnext.idx hnext.gathered (by omega) hin' hfuel'
          (fun i hi => hcovers i (by omega)) (fun i hi => hpieces i (by omega)) hnext.runs with
          ⟨r, hx, hl, hlen, hends⟩
        have hl' := hd₁.toRxLater.trans hnext.later
        exact ⟨r, hx, hl'.trans hl, hlen.trans hnext.length, hends.later hl'⟩
    · exact ⟨_, rfl, hd₁.toRxLater, rfl,
        .missing k rfl rfl hin hmissing hr₁ (hd₁.idx.trans hidx)⟩

/-! ## The first piece -/

/-- The first piece of a frame, after `k` pieces of one that was abandoned: these are given back,
and the copy is made from the last of them. -/
theorem RxRing.runs_first {f : List U8} (hr : RxRing dev released s)
    (hidx : s.usRxIdx = released % dev.usRxListSize) (hk : k < dev.usRxListSize)
    (hthere : s.pieces[released + k]? = some ⟨f, 0⟩)
    (hp : s.pieces[j]? = some p) (hj : j = if k = 0 then released else released + k - 1)
    (htd : g.pRxTd = (released + k) % dev.usRxListSize)
    (htmp : g.usTmpIdx = (released + k) % dev.usRxListSize) (hbuf : size ≤ g.pFrame.length)
    (hcovers : Covers p 0 w) (hw : w.length = f.length) (hpos : 0 < f.length)
    (hround : k = 0 ∨ t.pieces.length ≤ j + dev.usRxListSize)
    (hsame : p.isLast = true → p = ⟨f, 0⟩) {x : Except Ethernet.Fault Ethernet.Reading}
    (hruns : (emacRx lossy).Runs (startOfFrame dev g >>= fun g =>
      processBuffer dev size g >>= returnOr (readLoop dev size fuel)) s x t) :
    (p.isLast = true → ∃ r, x = .ok r ∧ RxLater s t ∧ r.pFrame.length = g.pFrame.length ∧
      Ends dev (released + k) size f w s t r) ∧
    (p.isLast = false →
      ∃ g' s', Continues dev (released + k) 0 size fuel w g lossy s t x g' s') := by
  rcases Runs.of_bind_value (fun _ _ h => hr.runs_startOfFrame hidx hk hthere rfl htd htmp h) hruns
    with ⟨s₁, ⟨hr₁, hl, hidx₁⟩, h₁⟩
  have htd₁ : (if k = 0 then g.pRxTd else (released + k - 1) % dev.usRxListSize) =
      j % dev.usRxListSize := by
    rw [hj]
    by_cases hzero : k = 0
    · rw [if_pos hzero, if_pos hzero, htd, hzero, Nat.add_zero]
    · rw [if_neg hzero, if_neg hzero]
  have hround₁ : released + k ≤ j ∨ t.pieces.length ≤ j + dev.usRxListSize := by
    rcases hround with hzero | hle
    · rw [if_pos hzero] at hj
      exact .inl (by omega)
    · exact .inr hle
  have hnone : Filled g.pFrame (min (0 * emacRxUnitsize) size) w := by
    intro i b hi
    omega
  rcases hr₁.runs_afterStart (g := { g with
        pRxTd := if k = 0 then g.pRxTd else (released + k - 1) % dev.usRxListSize
        tmpUlFrameSize := 0
        cIsFrame := true }) hidx₁ (hl.getElem? hp) rfl htd₁ htmp dev.one_lt (hl.getElem? hthere)
    hbuf (by change 0 = _; omega) hcovers hnone hw (by omega) hround₁ hsame h₁ with ⟨hlast, hmore⟩
  constructor
  · intro h
    rcases hlast h with ⟨r, hx, hl', hlen, hends⟩
    exact ⟨r, hx, hl.trans hl', hlen, hends.later hl⟩
  · intro h
    rcases hmore h with ⟨g', s', hnext⟩
    exact ⟨g', s', hl.trans hnext.later, hnext.ring, hnext.idx, hnext.gathered, hnext.length,
      hnext.runs⟩

/-- From the first piece to the end. -/
theorem RxRing.runs_frame {f : List U8} (hr : RxRing dev released s)
    (hidx : s.usRxIdx = released % dev.usRxListSize) (hk : k < dev.usRxListSize)
    (hthere : s.pieces[released + k]? = some ⟨f, 0⟩)
    (hp : s.pieces[j]? = some p) (hj : j = if k = 0 then released else released + k - 1)
    (htd : g.pRxTd = (released + k) % dev.usRxListSize)
    (htmp : g.usTmpIdx = (released + k) % dev.usRxListSize) (hbuf : size ≤ g.pFrame.length)
    (hw : w.length = f.length) (hpos : 0 < f.length) (hfirst : Covers p 0 w)
    (hrest : ∀ i, 1 ≤ i → Covers ⟨f, i⟩ i w)
    (hround : k = 0 ∨ t.pieces.length ≤ j + dev.usRxListSize)
    (hsame : p.isLast = true → p = ⟨f, 0⟩) (hmore : p.isLast = false → emacRxUnitsize < f.length)
    (hshort : f.length ≤ (dev.usRxListSize - 1) * emacRxUnitsize)
    (hfuel : f.length ≤ (1 + fuel) * emacRxUnitsize)
    (hpieces : ∀ i, 1 ≤ i → i * emacRxUnitsize < f.length → ∀ q,
      t.pieces[released + k + i]? = some q → q = ⟨f, i⟩)
    {x : Except Ethernet.Fault Ethernet.Reading}
    (hruns : (emacRx lossy).Runs (startOfFrame dev g >>= fun g =>
      processBuffer dev size g >>= returnOr (readLoop dev size fuel)) s x t) :
    ∃ r, x = .ok r ∧ RxLater s t ∧ r.pFrame.length = g.pFrame.length ∧
      Ends dev (released + k) size f w s t r := by
  rcases hr.runs_first hidx hk hthere hp hj htd htmp hbuf hfirst hw hpos hround hsame hruns with
    ⟨hlast, hnotLast⟩
  cases h : p.isLast with
  | true => exact hlast h
  | false =>
    rcases hnotLast h with ⟨g', s', hnext⟩
    rcases hnext.ring.runs_readLoop hnext.idx hnext.gathered (by decide)
      (by rw [Nat.zero_add, Nat.one_mul]; exact hmore h) hshort hfuel hw hrest hpieces hnext.runs
      with ⟨r, hx, hl, hlen, hends⟩
    exact ⟨r, hx, hnext.later.trans hl, hlen.trans hnext.length, hends.later hnext.later⟩

end EmacDriver
