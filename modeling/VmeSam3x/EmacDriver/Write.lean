import VmeSam3x.EmacDriver.Handler

/-! # Writing a frame

A write fills the slot of the next number while the hardware and the handler go on with the
others. The frame is handed over with its status word, before the head counts it.
-/

namespace EmacDriver

open Interact Machine Bytes

/-- The handler does not run while the head is behind the last slot. -/
def NeverBehind (dev : Device) (enabled : State → Prop) : Prop :=
  ∀ s, enabled s → s.usTxHead < dev.usTxListSize

/-- The ring as the task meets it. When the handler never sees the head behind the last slot, the
callbacks of the released frames have been called, once and in order. -/
structure Shared (dev : Device) (enabled : State → Prop) (queued : List Entry)
    (head released : Nat) (s : State) : Prop extends Inv dev queued head released s where
  called : NeverBehind dev enabled → s.calls = callbacksBetween queued 0 released

/-- The ring between two writes. -/
structure Idle (dev : Device) (enabled : State → Prop) (queued : List Entry) (released : Nat)
    (s : State) : Prop extends Shared dev enabled queued queued.length released s where
  slot : s.usTxHead = queued.length % dev.usTxListSize
  live : Live queued s

variable {dev : Device} {queued : List Entry} {head released size : Nat} {s t : State}
  {enabled : State → Prop} {bytes : List U8} {cb : Option Callback}

theorem callbacksBetween_append {i j k : Nat} (hij : i ≤ j) (hjk : j ≤ k) :
    callbacksBetween queued i j ++ callbacksBetween queued j k = callbacksBetween queued i k := by
  have hsplit : (queued.take k).drop i = (queued.take j).drop i ++ (queued.take k).drop j := by
    rcases Nat.le_total j queued.length with hle | hle
    · have htake : queued.take k = queued.take j ++ (queued.take k).drop j := by
        have hj : queued.take j = (queued.take k).take j := by
          rw [List.take_take, Nat.min_eq_left hjk]
        rw [hj, List.take_append_drop]
      have hlen : i ≤ (queued.take j).length := by
        rw [List.length_take]
        omega
      conv_lhs => rw [htake]
      exact List.drop_append_of_le_length hlen
    · rw [List.take_of_length_le hle, List.take_of_length_le (hle.trans hjk),
        List.drop_eq_nil_of_le hle, List.append_nil]
  rw [callbacksBetween, callbacksBetween, callbacksBetween, hsplit, List.filterMap_append]

/-- What was released is not changed by a later write. -/
theorem callbacksBetween_write {e : Entry} {i j : Nat} (hj : j ≤ queued.length) :
    callbacksBetween (queued ++ [e]) i j = callbacksBetween queued i j := by
  rw [callbacksBetween, List.take_append_of_le_length hj, callbacksBetween]

/-- Between two operations of the task. -/
theorem Shared.moves (hi : Shared dev enabled queued head released s)
    (hm : (emacWithHandler dev false enabled).Moves s t) :
    ∃ released', released ≤ released' ∧ Shared dev enabled queued head released' t ∧
      Keeps queued s t := by
  induction hm with
  | refl => exact ⟨released, le_refl _, hi, .refl queued s⟩
  | tail _ hstep ih =>
    rcases ih with ⟨r₁, hle₁, hi₁, hk₁⟩
    rcases hstep with hstep | ⟨hon, x, hruns⟩
    · rcases hi₁.ring.transmits hstep with ⟨hr₂, hd₂⟩
      refine ⟨r₁, hle₁, ⟨hi₁.drift hr₂ hd₂, fun h => ?_⟩, hk₁.trans hd₂.toKeeps⟩
      rw [hd₂.calls, hi₁.called h]
    · rcases hi₁.runs_emacHandler hruns with ⟨-, r₂, _, _, hh⟩
      refine ⟨r₂, hle₁.trans hh.le, ⟨hh.inv, fun h => ?_⟩, hk₁.trans hh.keeps⟩
      rw [hh.calls (.inl (h _ hon)), hi₁.called h]
      exact callbacksBetween_append (Nat.zero_le _) hh.le

/-- A program of the task begins with an operation. -/
theorem Shared.runs_op {E α : Type} {o : TxOp} {f : Tx.Res o → TxProg E α} {x : Except E α}
    (hi : Shared dev enabled queued head released s)
    (hruns : (emacWithHandler dev false enabled).Runs (Prog.perform (S := Tx) o >>= f) s x t) :
    ∃ s₁ r s₂ released', released ≤ released' ∧ Shared dev enabled queued head released' s₁ ∧
      Keeps queued s s₁ ∧ s₁.Answers o r s₂ ∧
      (emacWithHandler dev false enabled).Runs (f r) s₂ x t := by
  rcases runs_perform_bind.mp hruns with ⟨s₁, r, s₂, hm, ha, h₁⟩
  rcases hi.moves hm with ⟨released', hle, hi₁, hk₁⟩
  exact ⟨s₁, r, s₂, released', hle, hi₁, hk₁, ha, h₁⟩

/-! ## The copy -/

/-- The slot that the next frame goes to holds no frame that waits. -/
theorem Ring.other_slot (hr : Ring dev queued released s) {j : Nat} (hj : released ≤ j)
    (hlt : j < queued.length) :
    j % dev.usTxListSize ≠ queued.length % dev.usTxListSize := by
  intro heq
  have hbounded := hr.bounded
  have hsame := Slots.eq_of_mod_eq hj (by omega) (by omega) hbounded heq
  omega

/-- Buffers of different slots do not overlap. -/
theorem Ring.store (hr : Ring dev queued released s) {a : Nat} (b : U8)
    (hle : dev.pTxBuffer + queued.length % dev.usTxListSize * emacTxUnitsize ≤ a)
    (hlt : a < dev.pTxBuffer + (queued.length % dev.usTxListSize + 1) * emacTxUnitsize) :
    Ring dev queued released { s with mem := Function.update s.mem a b } := by
  refine ⟨hr.enabled, hr.retryLimit, hr.sent, hr.released_le, hr.bounded, hr.queue, hr.addr,
    hr.wrap, hr.waiting, ?_, hr.callbacks, hr.short⟩
  intro j e hj hsent
  rcases hr.ready j e hj hsent with ⟨hlast, hframe⟩
  have hjlt : j < queued.length := (List.getElem?_eq_some_iff.mp hj).1
  have hother := hr.other_slot (hr.released_le.trans hsent) hjlt
  have hlen : lengthOf (s.status (j % dev.usTxListSize)) ≤ emacTxUnitsize := by
    have hshort := hr.short e (List.mem_of_getElem? hj)
    rw [← hframe, State.frameAt, State.length_bytesAt] at hshort
    exact hshort
  refine ⟨hlast, ?_⟩
  rw [← hframe]
  apply List.map_congr_left
  intro k hk
  have hk : k < lengthOf (s.status (j % dev.usTxListSize)) := List.mem_range.mp hk
  apply Function.update_of_ne
  change s.addr (j % dev.usTxListSize) + k ≠ a
  rw [hr.addr _ (dev.slot_lt j)]
  intro heq
  -- the address is in the buffer of one slot only
  rcases Nat.lt_or_gt_of_ne hother with hbefore | hbehind
  · have hmul : (j % dev.usTxListSize + 1) * emacTxUnitsize ≤
        queued.length % dev.usTxListSize * emacTxUnitsize := Nat.mul_le_mul_right _ hbefore
    rw [Nat.add_mul] at hmul
    omega
  · have hmul : (queued.length % dev.usTxListSize + 1) * emacTxUnitsize ≤
        j % dev.usTxListSize * emacTxUnitsize := Nat.mul_le_mul_right _ hbehind
    omega

/-- The buffer of the slot that the next frame goes to. -/
def Device.nextBuffer (dev : Device) (queued : List Entry) : Nat :=
  dev.pTxBuffer + queued.length % dev.usTxListSize * emacTxUnitsize

theorem State.bytesAt_store (s : State) (a k : Nat) (b : U8) :
    ({ s with mem := Function.update s.mem (a + k) b } : State).bytesAt a (k + 1) =
      s.bytesAt a k ++ [b] := by
  rw [bytesAt, bytesAt, List.range_succ, List.map_append, List.map_singleton]
  congr 1
  · apply List.map_congr_left
    intro i hi
    have hlt : i < k := List.mem_range.mp hi
    exact Function.update_of_ne (by omega) _ _
  · exact congrArg (fun b => [b]) (Function.update_self _ _ _)

/-- The copy fills the buffer of the next slot, from byte `k` on. -/
theorem Shared.runs_memcpy {k : Nat} (hi : Shared dev enabled queued head released s)
    (hfits : k + bytes.length ≤ emacTxUnitsize) {x : Except Ethernet.Fault Unit}
    (hruns : (emacWithHandler dev false enabled).Runs (memcpy (dev.nextBuffer queued + k) bytes)
      s x t) :
    x = .ok () ∧ ∃ released', released ≤ released' ∧ Shared dev enabled queued head released' t ∧
      t.usTxHead = s.usTxHead ∧
      t.bytesAt (dev.nextBuffer queued) (k + bytes.length) =
        s.bytesAt (dev.nextBuffer queued) k ++ bytes := by
  induction bytes generalizing k s released with
  | nil =>
    rcases runs_ret.mp hruns with ⟨rfl, rfl⟩
    exact ⟨rfl, released, le_refl _, hi, rfl, by simp⟩
  | cons b rest ih =>
    rw [List.length_cons] at hfits
    rcases hi.runs_op hruns with ⟨s₁, _, _, r₁, hle₁, hi₁, hk₁, rfl, h₁⟩
    have hr : Ring dev queued r₁
        { s₁ with mem := Function.update s₁.mem (dev.nextBuffer queued + k) b } := by
      apply hi₁.ring.store
      · exact Nat.le_add_right _ _
      · rw [Nat.add_mul, Device.nextBuffer]
        omega
    rw [Nat.add_assoc] at h₁
    rcases ih (k := k + 1) ⟨⟨hr, hi₁.tail, hi₁.usTxHead, hi₁.usTxHead_le, hi₁.counted, hi₁.le_head,
      hi₁.head_le⟩, hi₁.called⟩ (by omega) h₁ with ⟨hx, r₂, hle₂, hi₂, hhead₂, hmem₂⟩
    refine ⟨hx, r₂, hle₁.trans hle₂, hi₂, hhead₂.trans hk₁.head, ?_⟩
    have hlen : k + (b :: rest).length = k + 1 + rest.length := by
      rw [List.length_cons]
      omega
    rw [hlen, hmem₂, State.bytesAt_store, State.bytesAt_congr hk₁.mem, List.append_assoc]
    rfl

/-! ## Handing over -/

/-- The callback goes to a slot that holds no frame. -/
theorem Ring.setCallback (hr : Ring dev queued released s) (cb : Option Callback) :
    Ring dev queued released
      { s with
        callbacks := Function.update s.callbacks (queued.length % dev.usTxListSize) cb } := by
  refine ⟨hr.enabled, hr.retryLimit, hr.sent, hr.released_le, hr.bounded, hr.queue, hr.addr,
    hr.wrap, hr.waiting, hr.ready, ?_, hr.short⟩
  intro j e hj hle
  have hjlt : j < queued.length := (List.getElem?_eq_some_iff.mp hj).1
  rw [← hr.callbacks j e hj hle]
  exact Function.update_of_ne (hr.other_slot hle hjlt) _ _

/-- With its status word, the frame in the next buffer is handed over. -/
theorem Ring.handOver (hr : Ring dev queued released s) {e : Entry}
    (hroom : queued.length + 1 < released + dev.usTxListSize)
    (hshort : e.frame.length ≤ emacTxUnitsize)
    (hcb : s.callbacks (queued.length % dev.usTxListSize) = e.callback)
    (hmem : s.bytesAt (dev.nextBuffer queued) e.frame.length = e.frame) :
    Ring dev (queued ++ [e]) released
      { s with
        status := Function.update s.status (queued.length % dev.usTxListSize)
          (txdReady e.frame.length
            (queued.length % dev.usTxListSize == dev.usTxListSize - 1)) } := by
  have hsent := hr.sent_le
  have hreleased := hr.released_le
  have hslot := dev.slot_lt queued.length
  have hlen : (queued ++ [e]).length = queued.length + 1 := by simp
  have hother : ∀ j, released ≤ j → j < released + dev.usTxListSize → j ≠ queued.length →
      j % dev.usTxListSize ≠ queued.length % dev.usTxListSize := by
    intro j hj hj' hne heq
    exact hne (Slots.eq_of_mod_eq hj hj' (by omega) (by omega) heq)
  -- the frames are the old ones and the new one
  have hcase : ∀ j e', (queued ++ [e])[j]? = some e' →
      queued[j]? = some e' ∧ j < queued.length ∨ j = queued.length ∧ e' = e := by
    intro j e' hj
    rcases Nat.lt_or_ge j queued.length with hlt | hge
    · rw [List.getElem?_append_left hlt] at hj
      exact .inl ⟨hj, hlt⟩
    · right
      have hjlt := (List.getElem?_eq_some_iff.mp hj).1
      have heq : j = queued.length := by omega
      rw [heq, List.getElem?_concat_length] at hj
      exact ⟨heq, (Option.some.inj hj).symm⟩
  constructor
  · exact hr.enabled
  · exact hr.retryLimit
  · rw [List.take_append_of_le_length hsent]
    exact hr.sent
  · exact hreleased
  · rw [hlen]
    exact hroom
  · exact hr.queue
  · exact hr.addr
  · intro i hi
    change isWrap (Function.update s.status _ _ i) = _
    by_cases heq : i = queued.length % dev.usTxListSize
    · rw [heq, Function.update_self, isWrap_txdReady]
    · rw [Function.update_of_ne heq, hr.wrap i hi]
  · intro j hj hj'
    change isUsed (Function.update s.status _ _ _) = false ↔ s.wire.length ≤ j ∧ _
    rw [hlen]
    by_cases heq : j = queued.length
    · rw [heq, Function.update_self, isUsed_txdReady]
      exact iff_of_true rfl ⟨hsent, Nat.lt_succ_self _⟩
    · rw [Function.update_of_ne (hother j hj hj' heq), hr.waiting j hj hj']
      omega
  · intro j e' hj hle
    change isLast (Function.update s.status _ _ _) = true ∧
      s.bytesAt (s.addr _) (lengthOf (Function.update s.status _ _ _)) = _
    have hle : s.wire.length ≤ j := hle
    rcases hcase j e' hj with ⟨hold, hlt⟩ | ⟨rfl, rfl⟩
    · rw [Function.update_of_ne (hother j (by omega) (by omega) (by omega))]
      exact hr.ready j e' hold hle
    · rw [Function.update_self, isLast_txdReady, lengthOf_txdReady hshort, hr.addr _ hslot]
      exact ⟨rfl, hmem⟩
  · intro j e' hj hle
    rcases hcase j e' hj with ⟨hold, hlt⟩ | ⟨rfl, rfl⟩
    · exact hr.callbacks j e' hold hle
    · exact hcb
  · intro e' he
    rcases List.mem_append.mp he with hold | hnew
    · exact hr.short e' hold
    · rw [List.mem_singleton.mp hnew]
      exact hshort

/-- The head counts the frame. For a moment it may be behind the last slot. -/
theorem Shared.runs_circIncHead (hi : Shared dev enabled queued head released s)
    (hslot : s.usTxHead = head % dev.usTxListSize) (hnext : head + 1 = queued.length)
    {x : Except Ethernet.Fault Unit}
    (hruns : (emacWithHandler dev false enabled).Runs
      (circInc usTxHead setUsTxHead dev.usTxListSize) s x t) :
    x = .ok () ∧ ∃ released', released ≤ released' ∧
      Shared dev enabled queued queued.length released' t ∧
      t.usTxHead = queued.length % dev.usTxListSize := by
  have hfits := dev.fits
  have hlt := dev.slot_lt head
  rcases hi.runs_op hruns with ⟨_, _, s₁, r₁, hle₁, hi₁, hk₁, ⟨rfl, rfl⟩, h₁⟩
  rcases hi₁.runs_op h₁ with ⟨s₂, _, _, r₂, hle₂, hi₂, hk₂, rfl, h₂⟩
  have hvalue : (s₁.usTxHead + 1) % 2 ^ 16 = head % dev.usTxListSize + 1 := by
    rw [hk₁.head, hslot, Nat.mod_eq_of_lt (by omega)]
  have hmod : (head % dev.usTxListSize + 1) % dev.usTxListSize =
      queued.length % dev.usTxListSize := by
    rw [Nat.mod_add_mod, hnext]
  rw [hvalue] at h₂
  have hi₂' : Shared dev enabled queued queued.length r₂
      { s₂ with usTxHead := head % dev.usTxListSize + 1 } := by
    refine ⟨⟨hi₂.ring.set _ _ _ _ _ _ _, hi₂.tail, hmod, ?_, fun _ => rfl, ?_, le_refl _⟩,
      hi₂.called⟩
    · exact hlt
    · have hle := hi₂.le_head
      omega
  rcases hi₂'.runs_op h₂ with ⟨_, _, s₃, r₃, hle₃, hi₃, hk₃, ⟨rfl, rfl⟩, h₃⟩
  have hhead₃ : s₃.usTxHead = head % dev.usTxListSize + 1 := hk₃.head
  have hle := (hle₁.trans hle₂).trans hle₃
  rw [hhead₃] at h₃
  split at h₃
  · rename_i hge
    have hzero : queued.length % dev.usTxListSize = 0 := by
      have heq : head % dev.usTxListSize + 1 = dev.usTxListSize := by omega
      rw [← hmod, heq, Nat.mod_self]
    rcases runs_call.mp h₃ with ⟨s₄, _, _, hm, rfl, h₄⟩
    rcases runs_ret.mp h₄ with ⟨rfl, rfl⟩
    rcases hi₃.moves hm with ⟨r₄, hle₄, hi₄, hk₄⟩
    refine ⟨rfl, r₄, hle.trans hle₄, ⟨⟨hi₄.ring.set _ _ _ _ _ _ _, hi₄.tail, ?_, Nat.zero_le _,
      fun _ => rfl, hi₄.le_head, le_refl _⟩, hi₄.called⟩, hzero.symm⟩
    rw [Nat.zero_mod, hzero]
  · rename_i hlt'
    rcases runs_ret.mp h₃ with ⟨rfl, rfl⟩
    have hbelow : head % dev.usTxListSize + 1 < dev.usTxListSize := by omega
    refine ⟨rfl, r₃, hle, hi₃, ?_⟩
    rw [hhead₃, ← hmod, Nat.mod_eq_of_lt hbelow]

/-! ## The write -/

/-- No operation of a program puts anything on the wire. -/
theorem wire_of_answers {o : TxOp} {r : Tx.Res o} (ha : s.Answers o r t) : t.wire = s.wire := by
  cases o
  all_goals first
    | have hwire := congrArg State.wire ha
      exact hwire
    | have hwire := congrArg State.wire ha.2
      exact hwire

/-- The wire only gets longer. -/
theorem wire_grows {E α : Type} {p : TxProg E α} {x : Except E α}
    (hruns : (emacWithHandler dev false enabled).Runs p s x t) : s.wire <+: t.wire := by
  have hmove : ∀ s₁ s₂, Transmits false s₁ s₂ → s.wire <+: s₁.wire → s.wire <+: s₂.wire := by
    intro s₁ s₂ hm h
    cases hm with
    | send => exact h.trans (List.prefix_append _ _)
    | stop => exact h
    | giveUp hduplex => cases hduplex
  have hanswer : ∀ s₁ (o : TxOp) r s₂, True → State.Answers s₁ o r s₂ → s.wire <+: s₁.wire →
      s.wire <+: s₂.wire := by
    intro s₁ o r s₂ _ ha h
    rw [wire_of_answers ha]
    exact h
  refine Runs.invariant (I := fun u : State => s.wire <+: u.wire) ?_ hanswer p.uses_true hruns
    List.prefix_rfl
  rintro s₁ s₂ (hm | ⟨-, y, hh⟩) h₁
  · exact hmove s₁ s₂ hm h₁
  · exact Runs.invariant (I := fun u : State => s.wire <+: u.wire) hmove hanswer
      (emacHandler dev).uses_true hh h₁

theorem Shared.runs_fillBuffer (hi : Shared dev enabled queued head released s)
    (hsize : size ≤ emacTxUnitsize) (hbytes : size ≤ bytes.length) {x : Except Ethernet.Fault Unit}
    (hruns : (emacWithHandler dev false enabled).Runs
      (fillBuffer (queued.length % dev.usTxListSize) (some bytes) size) s x t) :
    x = .ok () ∧ ∃ released', released ≤ released' ∧ Shared dev enabled queued head released' t ∧
      t.usTxHead = s.usTxHead ∧ t.bytesAt (dev.nextBuffer queued) size = bytes.take size := by
  have hlen : (bytes.take size).length = size := by
    rw [List.length_take]
    omega
  simp only [fillBuffer] at hruns
  split at hruns
  · rename_i hzero
    rcases runs_ret.mp hruns with ⟨rfl, rfl⟩
    refine ⟨rfl, released, le_refl _, hi, rfl, ?_⟩
    rw [hzero]
    rfl
  · rw [if_neg (by omega)] at hruns
    rcases hi.runs_op hruns with ⟨_, _, s₁, r₁, hle₁, hi₁, hk₁, ⟨rfl, rfl⟩, h₁⟩
    rw [hi₁.ring.addr _ (dev.slot_lt _)] at h₁
    rcases hi₁.runs_memcpy (k := 0) (by omega) h₁ with ⟨hx, r₂, hle₂, hi₂, hhead₂, hmem₂⟩
    refine ⟨hx, r₂, hle₁.trans hle₂, hi₂, hhead₂.trans hk₁.head, ?_⟩
    rw [hlen, Nat.zero_add] at hmem₂
    exact hmem₂

/-- **A write**: a frame that is too long is refused, and otherwise the ring decides. Without a
free slot it stays as it is; else the frame is the next one of the ring. -/
theorem Idle.runs_emacDevWrite (hi : Idle dev enabled queued released s)
    (hbytes : size ≤ bytes.length) {x : Except Ethernet.Fault Ethernet.EmacStatus}
    (hruns : (emacWithHandler dev false enabled).Runs (emacDevWrite dev (some bytes) size cb)
      s x t) :
    emacTxUnitsize < size ∧ x = .ok .param ∧ t = s ∨
      size ≤ emacTxUnitsize ∧ ∃ released', released ≤ released' ∧
        (x = .ok .txBusy ∧ queued.length + 1 = released' + dev.usTxListSize ∧
            Idle dev enabled queued released' t ∨
          x = .ok .ok ∧ queued.length + 1 < released' + dev.usTxListSize ∧
            Idle dev enabled (queued ++ [⟨bytes.take size, cb⟩]) released' t) := by
  unfold emacDevWrite at hruns
  split at hruns
  · rename_i hlong
    rcases runs_ret.mp hruns with ⟨rfl, rfl⟩
    exact .inl ⟨hlong, rfl, rfl⟩
  rename_i hsize
  have hsize : size ≤ emacTxUnitsize := Nat.le_of_not_lt hsize
  refine .inr ⟨hsize, ?_⟩
  rcases hi.toShared.runs_op hruns with ⟨_, _, s₁, r₁, hle₁, hi₁, hk₁, ⟨rfl, rfl⟩, h₁⟩
  rcases hi₁.runs_op h₁ with ⟨_, _, s₂, r₂, hle₂, hi₂, hk₂, ⟨rfl, rfl⟩, h₂⟩
  rcases hi₂.runs_op h₂ with ⟨_, _, s₃, r₃, hle₃, hi₃, hk₃, ⟨rfl, rfl⟩, h₃⟩
  have hk := (hk₁.trans hk₂).trans hk₃
  have hle := (hle₁.trans hle₂).trans hle₃
  have hslot₁ : s₁.usTxHead = queued.length % dev.usTxListSize := hk₁.head.trans hi.slot
  rw [hslot₁, ← hk₃.head] at h₃
  split at h₃
  · -- one slot is always left free
    rename_i hfull
    rcases runs_ret.mp h₃ with ⟨rfl, rfl⟩
    have hcount := hi₃.circSpace_eq_zero.mp hfull
    exact ⟨r₃, hle, .inl ⟨rfl, hcount, hi₃, hk.head.trans hi.slot, hk.live hi.live⟩⟩
  · rename_i hfree
    have hbounded := hi₃.ring.bounded
    have hne : queued.length + 1 ≠ r₃ + dev.usTxListSize :=
      fun heq => hfree (hi₃.circSpace_eq_zero.mpr heq)
    have hroom : queued.length + 1 < r₃ + dev.usTxListSize := by omega
    rcases hi₃.runs_op h₃ with ⟨_, _, s₄, r₄, hle₄, hi₄, hk₄, ⟨rfl, rfl⟩, h₄⟩
    have hslot₄ : s₄.usTxHead = queued.length % dev.usTxListSize :=
      hk₄.head.trans (hk.head.trans hi.slot)
    rw [hslot₄] at h₄
    rcases Runs.of_bind_value (fun _ _ h => hi₄.runs_fillBuffer hsize hbytes h) h₄ with
      ⟨s₅, ⟨r₅, hle₅, hi₅, hhead₅, hmem₅⟩, h₅⟩
    rcases hi₅.runs_op h₅ with ⟨s₆, _, _, r₆, hle₆, hi₆, hk₆, rfl, h₆⟩
    have hhead₆ := hk₆.head.trans (hhead₅.trans hslot₄)
    -- the callback is in its slot
    have hi₆' : Shared dev enabled queued queued.length r₆
        { s₆ with callbacks := Function.update s₆.callbacks (queued.length % dev.usTxListSize) cb } :=
      ⟨⟨hi₆.ring.setCallback cb, hi₆.tail, hi₆.usTxHead, hi₆.usTxHead_le, hi₆.counted, hi₆.le_head,
        hi₆.head_le⟩, hi₆.called⟩
    rcases hi₆'.runs_op h₆ with ⟨_, _, s₇, r₇, hle₇, hi₇, hk₇, ⟨rfl, rfl⟩, h₇⟩
    have hhead₇ : s₇.usTxHead = queued.length % dev.usTxListSize := hk₇.head.trans hhead₆
    rw [hhead₇] at h₇
    rcases runs_perform_bind.mp h₇ with ⟨s₈, _, _, hm₈, rfl, h₈⟩
    rcases hi₇.moves hm₈ with ⟨r₈, hle₈, hi₈, hk₈⟩
    have hhead₈ : s₈.usTxHead = queued.length % dev.usTxListSize := hk₈.head.trans hhead₇
    -- and the bytes are in its buffer
    let e : Entry := ⟨bytes.take size, cb⟩
    have hlen : e.frame.length = size := by
      change (bytes.take size).length = size
      rw [List.length_take]
      omega
    have hmem : s₈.bytesAt (dev.nextBuffer queued) e.frame.length = e.frame := by
      rw [hlen]
      have hsame : s₈.mem = s₅.mem := hk₈.mem.trans (hk₇.mem.trans hk₆.mem)
      exact (State.bytesAt_congr hsame _ _).trans hmem₅
    have hcb : s₈.callbacks (queued.length % dev.usTxListSize) = e.callback := by
      rw [hk₈.callbacks, hk₇.callbacks]
      exact Function.update_self _ _ _
    have hover := hi₈.ring.handOver (e := e) (by omega) (by omega) hcb hmem
    rw [hlen] at hover
    have hgrow : (queued ++ [e]).length = queued.length + 1 := by simp
    have hi₈' : Shared dev enabled (queued ++ [e]) queued.length r₈ _ :=
      ⟨⟨hover, hi₈.tail, hi₈.usTxHead, hi₈.usTxHead_le, ?_, hi₈.le_head, by omega⟩, fun h => ?_⟩
    · rcases Runs.of_bind_value (fun _ _ h => hi₈'.runs_circIncHead hhead₈ hgrow.symm h) h₈ with
        ⟨s₉, ⟨r₉, hle₉, hi₉, hhead₉⟩, h₉⟩
      rcases hi₉.runs_op h₉ with ⟨s₁₀, _, _, r₁₀, hle₁₀, hi₁₀, hk₁₀, rfl, h₁₀⟩
      rcases runs_ret.mp h₁₀ with ⟨rfl, rfl⟩
      refine ⟨r₁₀, by omega, .inr ⟨rfl, by omega, ?_⟩⟩
      exact ⟨⟨⟨hi₁₀.ring.set _ _ _ _ _ _ _, hi₁₀.tail, hi₁₀.usTxHead, hi₁₀.usTxHead_le,
        hi₁₀.counted, hi₁₀.le_head, hi₁₀.head_le⟩, hi₁₀.called⟩, hk₁₀.head.trans hhead₉, .inl rfl⟩
    · intro hsize'
      have hlt := dev.slot_lt queued.length
      rw [← hhead₈] at hlt
      exact absurd hsize' (Nat.ne_of_lt hlt)
    · rw [callbacksBetween_write (hi₈.le_head)]
      exact hi₈.called h

end EmacDriver
