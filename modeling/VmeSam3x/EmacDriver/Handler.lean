import VmeSam3x.EmacDriver.TxRing

/-! # The handler and the ring

The handler releases the frames that are on the wire, in order, and calls their callbacks. It runs
between two accesses of the task, so the task may have handed over a frame that is not counted in
its head yet, or its head may be one behind the last slot for a moment. In that moment an empty
ring does not look empty.
-/

namespace EmacDriver

open Interact Machine Bytes

/-- The ring with the variables of both sides: `head` frames are counted in the task's head, and
`released` ones are behind the handler's tail. -/
structure Inv (dev : Device) (queued : List Entry) (head released : Nat) (s : State) : Prop where
  ring : Ring dev queued released s
  tail : s.usTxTail = released % dev.usTxListSize
  usTxHead : s.usTxHead % dev.usTxListSize = head % dev.usTxListSize
  usTxHead_le : s.usTxHead ≤ dev.usTxListSize
  counted : s.usTxHead = dev.usTxListSize → head = queued.length
  le_head : released ≤ head
  head_le : head ≤ queued.length

variable {dev : Device} {queued : List Entry} {head released k fuel : Nat} {s t u : State}
  {flag ulIsr ulRsr ulTsr : U32}

theorem Inv.drift (hi : Inv dev queued head released s) (hr : Ring dev queued released t)
    (hd : Drift queued s t) : Inv dev queued head released t where
  ring := hr
  tail := hd.tail.trans hi.tail
  usTxHead := by rw [hd.head, hi.usTxHead]
  usTxHead_le := by
    rw [hd.head]
    exact hi.usTxHead_le
  counted := by
    rw [hd.head]
    exact hi.counted
  le_head := hi.le_head
  head_le := hi.head_le

theorem Drift.calls (hd : Drift queued s t) : t.calls = s.calls := by
  rw [State.calls, hd.txCalls]
  rfl

/-- A program of the handler begins with an operation. -/
theorem Inv.runs_op {E α : Type} {o : TxOp} {f : Tx.Res o → TxProg E α} {x : Except E α}
    (hi : Inv dev queued head released s)
    (hruns : (emac false).Runs (Prog.perform (S := Tx) o >>= f) s x t) :
    ∃ s₁ r s₂, Inv dev queued head released s₁ ∧ Drift queued s s₁ ∧ s₁.Answers o r s₂ ∧
      (emac false).Runs (f r) s₂ x t := by
  rcases hi.ring.runs_op hruns with ⟨s₁, r, s₂, hr, hd, ha, h₁⟩
  exact ⟨s₁, r, s₂, hi.drift hr hd, hd, ha, h₁⟩

theorem Inv.bounded (hi : Inv dev queued head released s) :
    head < released + dev.usTxListSize :=
  lt_of_le_of_lt hi.head_le hi.ring.bounded

/-- The two tests of the ring, on the numbers of the frames. -/
theorem Inv.circCnt_eq_zero (hi : Inv dev queued head released s) :
    circCnt s.usTxHead s.usTxTail dev.usTxListSize = 0 ↔ head = released := by
  have htail : s.usTxTail % dev.usTxListSize = released % dev.usTxListSize := by
    rw [hi.tail, Nat.mod_mod]
  exact Slots.count_eq_zero hi.le_head hi.bounded hi.usTxHead htail

theorem Inv.circSpace_eq_zero (hi : Inv dev queued head released s) :
    circSpace s.usTxHead s.usTxTail dev.usTxListSize = 0 ↔
      head + 1 = released + dev.usTxListSize := by
  have hbounded := hi.bounded
  have hle := hi.le_head
  have hhead : (s.usTxHead + 1) % dev.usTxListSize = (head + 1) % dev.usTxListSize := by
    rw [Nat.add_mod, hi.usTxHead, ← Nat.add_mod]
  have htail : s.usTxTail % dev.usTxListSize = (released + dev.usTxListSize) % dev.usTxListSize := by
    rw [hi.tail, Nat.mod_mod, Nat.add_mod_right]
  have hcount := Slots.count_eq_zero (a := released + dev.usTxListSize) (t := head + 1)
    (n := dev.usTxListSize) (by omega) (by omega) htail hhead
  unfold circSpace circCnt
  push_cast at hcount
  rw [hcount]
  exact eq_comm

/-- An empty ring that does not look empty: the head is behind the last slot. -/
theorem Inv.eq_size_of_ne (hi : Inv dev queued head released s) (heq : head = released)
    (hne : s.usTxHead ≠ s.usTxTail) : s.usTxHead = dev.usTxListSize ∧ s.usTxTail = 0 := by
  have htail : s.usTxTail = s.usTxHead % dev.usTxListSize := by
    rw [hi.usTxHead, heq, hi.tail]
  have hsize : s.usTxHead = dev.usTxListSize := by
    by_contra hnot
    have hlt : s.usTxHead < dev.usTxListSize := lt_of_le_of_ne hi.usTxHead_le hnot
    rw [Nat.mod_eq_of_lt hlt] at htail
    exact hne htail.symm
  refine ⟨hsize, ?_⟩
  rw [htail, hsize, Nat.mod_self]

/-- The callbacks of the frames from number `i` to before number `j`. -/
def callbacksBetween (queued : List Entry) (i j : Nat) : List Callback :=
  ((queued.take j).drop i).filterMap Entry.callback

@[simp] theorem callbacksBetween_self (queued : List Entry) (i : Nat) :
    callbacksBetween queued i i = [] := by
  rw [callbacksBetween, List.drop_eq_nil_of_le (List.length_take_le i queued)]
  rfl

theorem callbacksBetween_cons {e : Entry} {i j : Nat} (he : queued[i]? = some e) (hij : i < j) :
    callbacksBetween queued i j = e.callback.toList ++ callbacksBetween queued (i + 1) j := by
  have hget : (queued.take j)[i]? = some e := by
    rw [List.getElem?_take_of_lt hij, he]
  rcases List.getElem?_eq_some_iff.mp hget with ⟨hlt, hval⟩
  rw [callbacksBetween, List.drop_eq_getElem_cons hlt, hval, callbacksBetween]
  cases hcase : e.callback <;> simp [hcase]

/-! ## Releasing -/

/-- A call through a slot of the callback list. -/
theorem Ring.runs_notifySent (hr : Ring dev queued released s) {x : Except Fault Unit}
    (hruns : (emac false).Runs (notifySent k flag) s x t) :
    x = .ok () ∧ Ring dev queued released t ∧ Keeps queued s t ∧ t.usTxTail = s.usTxTail ∧
      t.wakeups = s.wakeups ∧ t.calls = s.calls ++ (s.callbacks k).toList := by
  rcases hr.runs_op hruns with ⟨_, cb, s₁, hr₁, hd₁, ⟨hcb, rfl⟩, h₁⟩
  rw [hd₁.callbacks] at hcb
  rw [← hcb]
  cases cb with
  | none =>
    rcases runs_ret.mp h₁ with ⟨rfl, rfl⟩
    refine ⟨rfl, hr₁, hd₁.toKeeps, hd₁.tail, hd₁.wakeups, ?_⟩
    rw [State.calls, hd₁.txCalls, Option.toList_none, List.append_nil]
    rfl
  | some cb =>
    rcases runs_call.mp h₁ with ⟨s₂, _, _, hm, rfl, h₂⟩
    rcases runs_ret.mp h₂ with ⟨rfl, rfl⟩
    rcases hr₁.moves hm with ⟨hr₂, hd₂⟩
    have hd := hd₁.trans hd₂
    refine ⟨rfl, hr₂.set _ _ _ _ _ _ _, ⟨hd.head, hd.mem, hd.callbacks, hd.wakeupCb, hd.threshold,
      hd.sent_le, hd.live⟩, hd.tail, hd.wakeups, ?_⟩
    change (s₂.txCalls ++ [(cb, flag)]).map Prod.fst = _
    rw [List.map_append, hd.txCalls]
    rfl

/-- The tail goes on to the next slot. -/
theorem Ring.runs_circIncTail (hr : Ring dev queued released s)
    (htail : s.usTxTail = k % dev.usTxListSize) {x : Except Fault Unit}
    (hruns : (emac false).Runs (circInc usTxTail setUsTxTail dev.usTxListSize) s x t) :
    x = .ok () ∧ Ring dev queued released t ∧ Keeps queued s t ∧
      t.usTxTail = (k + 1) % dev.usTxListSize ∧ t.wakeups = s.wakeups ∧ t.txCalls = s.txCalls := by
  have hfits := dev.fits
  have hslot := dev.slot_lt k
  rcases hr.runs_op hruns with ⟨_, _, s₁, hr₁, hd₁, ⟨rfl, rfl⟩, h₁⟩
  rcases hr₁.runs_op h₁ with ⟨s₂, _, _, hr₂, hd₂, rfl, h₂⟩
  have hvalue : (s₁.usTxTail + 1) % 2 ^ 16 = k % dev.usTxListSize + 1 := by
    rw [hd₁.tail, htail, Nat.mod_eq_of_lt (by omega)]
  rw [hvalue] at h₂
  have hd := hd₁.trans hd₂
  have hr₂' := hr₂.set s₂.usTxHead (k % dev.usTxListSize + 1) s₂.wakeupCb s₂.threshold s₂.going
    s₂.txCalls s₂.wakeups
  rcases hr₂'.runs_op h₂ with ⟨_, _, s₃, hr₃, hd₃, ⟨rfl, rfl⟩, h₃⟩
  have hnext := Slots.next_mod dev.pos k
  rw [Slots.next] at hnext
  have hkeeps : Keeps queued s s₃ := ⟨hd₃.head.trans hd.head, hd₃.mem.trans hd.mem,
    hd₃.callbacks.trans hd.callbacks, hd₃.wakeupCb.trans hd.wakeupCb,
    hd₃.threshold.trans hd.threshold, hd.sent_le.trans hd₃.sent_le, fun hl => hd₃.live (hd.live hl)⟩
  have htail₃ : s₃.usTxTail = k % dev.usTxListSize + 1 := hd₃.tail
  rw [htail₃] at h₃
  split at h₃
  · rename_i hge
    rw [if_pos hge] at hnext
    rcases runs_call.mp h₃ with ⟨s₄, _, _, hm, rfl, h₄⟩
    rcases runs_ret.mp h₄ with ⟨rfl, rfl⟩
    rcases hr₃.moves hm with ⟨hr₄, hd₄⟩
    have hkeeps' := hkeeps.trans hd₄.toKeeps
    refine ⟨rfl, hr₄.set _ _ _ _ _ _ _, ⟨hkeeps'.head, hkeeps'.mem, hkeeps'.callbacks,
      hkeeps'.wakeupCb, hkeeps'.threshold, hkeeps'.sent_le, hkeeps'.live⟩, hnext,
      hd₄.wakeups.trans (hd₃.wakeups.trans hd.wakeups),
      hd₄.txCalls.trans (hd₃.txCalls.trans hd.txCalls)⟩
  · rename_i hlt
    rw [if_neg hlt] at hnext
    rcases runs_ret.mp h₃ with ⟨rfl, rfl⟩
    exact ⟨rfl, hr₃, hkeeps, htail₃.trans hnext, hd₃.wakeups.trans hd.wakeups,
      hd₃.txCalls.trans hd.txCalls⟩

/-- A frame that has been handed over is on the wire when its descriptor is used. -/
theorem Inv.sent_of_used (hi : Inv dev queued head released s) (hlt : released < head)
    (hused : isUsed (s.status (released % dev.usTxListSize)) = true) :
    released < s.wire.length := by
  have hwait := hi.ring.waiting released (le_refl _) (Nat.lt_add_of_pos_right dev.pos)
  have hhead := hi.head_le
  by_contra hnot
  have hfree := hwait.mpr ⟨by omega, by omega⟩
  rw [hused] at hfree
  cases hfree

/-- The rest of a round of the loop: the callback of the slot, and on to the next slot. -/
theorem Ring.runs_round {α : Type} {f : Unit → TxProg Fault α} {x : Except Fault α}
    (hr : Ring dev queued released s) (htail : s.usTxTail = k % dev.usTxListSize)
    (hruns : (emac false).Runs (notifySent (k % dev.usTxListSize) flag >>= fun _ =>
      circInc usTxTail setUsTxTail dev.usTxListSize >>= f) s x t) :
    ∃ s', Ring dev queued released s' ∧ Keeps queued s s' ∧
      s'.usTxTail = (k + 1) % dev.usTxListSize ∧ s'.wakeups = s.wakeups ∧
      s'.calls = s.calls ++ (s.callbacks (k % dev.usTxListSize)).toList ∧
      (emac false).Runs (f ()) s' x t := by
  rcases Runs.of_bind_value (fun _ _ h => hr.runs_notifySent h) hruns with
    ⟨s₁, ⟨hr₁, hk₁, htail₁, hw₁, hcalls₁⟩, h₁⟩
  have htail' : s₁.usTxTail = k % dev.usTxListSize := htail₁.trans htail
  rcases Runs.of_bind_value (fun _ _ h => hr₁.runs_circIncTail htail' h) h₁ with
    ⟨s₂, ⟨hr₂, hk₂, htail₂, hw₂, hcalls₂⟩, h₂⟩
  refine ⟨s₂, hr₂, hk₁.trans hk₂, htail₂, hw₂.trans hw₁, ?_, h₂⟩
  rw [State.calls, hcalls₂]
  exact hcalls₁

/-- What the handler does to the ring, with the frames up to `head`. In an empty ring with the head
behind the last slot it calls the whole list. -/
structure Releases (dev : Device) (queued : List Entry) (head released released' : Nat)
    (s t : State) : Prop where
  le : released ≤ released'
  inv : Inv dev queued head released' t
  keeps : Keeps queued s t
  all_sent : min head s.wire.length ≤ released'
  wakeups : t.wakeups = s.wakeups
  calls : s.usTxHead < dev.usTxListSize ∨ released < head →
    t.calls = s.calls ++ callbacksBetween queued released released'
  calls_again : head = released → s.usTxHead = dev.usTxListSize →
    t.calls = s.calls ++ (List.range dev.usTxListSize).filterMap s.callbacks

/-- The loop: it releases what was on the wire at its beginning at least, in order, and ends
within one round of the ring. -/
theorem Inv.runs_releaseSent (hi : Inv dev queued head released s) (hlt : released < head)
    (hfuel : head ≤ released + fuel) {x : Except Fault Nat}
    (hruns : (emac false).Runs (releaseSent dev flag fuel) s x t) :
    ∃ slot, x = .ok slot ∧ ∃ released', Releases dev queued head released released' s t := by
  induction fuel generalizing s released with
  | zero => omega
  | succ fuel ih =>
    rcases hi.runs_op hruns with ⟨_, _, s₁, hi₁, hd₁, ⟨rfl, rfl⟩, h₁⟩
    rcases hi₁.runs_op h₁ with ⟨_, _, s₂, hi₂, hd₂, ⟨rfl, rfl⟩, h₂⟩
    rcases hi₂.runs_op h₂ with ⟨_, _, s₃, hi₃, hd₃, ⟨rfl, rfl⟩, h₃⟩
    have hd := (hd₁.trans hd₂).trans hd₃
    have hcalls : s₃.calls = s.calls := hd.calls
    rw [hi₁.tail, hi₂.tail] at h₃
    split at h₃
    · -- the next frame has not been sent yet
      rename_i hzero
      have hunused := (and_emacTxdUsed _).mp hzero
      rcases runs_ret.mp h₃ with ⟨rfl, rfl⟩
      have hwait := (hi₃.ring.waiting released (le_refl _)
        (Nat.lt_add_of_pos_right dev.pos)).mp hunused
      have hsent := hd.sent_le
      refine ⟨_, rfl, released, le_refl _, hi₃, hd.toKeeps, by omega, hd.wakeups, fun _ => ?_,
        by omega⟩
      rw [hcalls, callbacksBetween_self, List.append_nil]
    · rename_i hnonzero
      have hused := Bool.eq_true_of_not_eq_false (mt (and_emacTxdUsed _).mpr hnonzero)
      have hsent := hi₃.sent_of_used hlt hused
      obtain ⟨e, hentry⟩ : ∃ e, queued[released]? = some e :=
        ⟨_, List.getElem?_eq_getElem (hsent.trans_le hi₃.ring.sent_le)⟩
      have hcb := hi₃.ring.callbacks released e hentry (le_refl _)
      rcases (hi₃.ring.release hsent).runs_round hi₃.tail h₃ with
        ⟨s₄, hr₄, hk₄, htail₄, hw₄, hcalls₄, h₄⟩
      have hi₄ : Inv dev queued head (released + 1) s₄ := by
        refine ⟨hr₄, htail₄, ?_, ?_, ?_, hlt, hi.head_le⟩
        · rw [hk₄.head, hi₃.usTxHead]
        · rw [hk₄.head]
          exact hi₃.usTxHead_le
        · rw [hk₄.head]
          exact hi₃.counted
      rcases hi₄.runs_op h₄ with ⟨_, _, s₅, hi₅, hd₅, ⟨rfl, rfl⟩, h₅⟩
      rcases hi₅.runs_op h₅ with ⟨_, _, s₆, hi₆, hd₆, ⟨rfl, rfl⟩, h₆⟩
      have hd' := hd₅.trans hd₆
      have hk := (hd.toKeeps.trans hk₄).trans hd'.toKeeps
      have hw : s₆.wakeups = s.wakeups := hd'.wakeups.trans (hw₄.trans hd.wakeups)
      have hcalls₆ : s₆.calls = s.calls ++ e.callback.toList := by
        rw [hd'.calls, hcalls₄, hcalls, hcb]
      have hend := hi₆.circCnt_eq_zero
      rw [hd₆.head] at hend
      split at h₆
      · rename_i hne
        have hlt' : released + 1 < head := by
          have hneq := fun heq => hne (hend.mpr heq)
          omega
        rcases ih hi₆ hlt' (by omega) h₆ with ⟨slot, hx, released', hrest⟩
        have hle := hrest.le
        have hall := hrest.all_sent
        have hsent' := hk.sent_le
        refine ⟨slot, hx, released', by omega, hrest.inv, hk.trans hrest.keeps, by omega,
          hrest.wakeups.trans hw, fun _ => ?_, by omega⟩
        rw [hrest.calls (.inr hlt'), hcalls₆, callbacksBetween_cons hentry hle, List.append_assoc]
      · rename_i heq
        rcases runs_ret.mp h₆ with ⟨rfl, rfl⟩
        have hlast : head = released + 1 := hend.mp (not_not.mp heq)
        refine ⟨_, rfl, released + 1, by omega, hi₆, hk, by omega, hw, fun _ => ?_, by omega⟩
        rw [hcalls₆, callbacksBetween_cons hentry (Nat.lt_succ_self _), callbacksBetween_self,
          List.append_nil]

/-- Every descriptor of an empty ring is used. -/
theorem Ring.all_used (hr : Ring dev queued released s) (hempty : queued.length = released) {i : Nat}
    (hi : i < dev.usTxListSize) : isUsed (s.status i) = true := by
  rcases Slots.exists_mod_eq hi released with ⟨j, hj, hj', rfl⟩
  apply Bool.eq_true_of_not_eq_false
  intro hunused
  have hwait := (hr.waiting j hj hj').mp hunused
  omega

/-- The loop over an empty ring with the head behind the last slot: nothing stops it before the
end of the list, and it calls whatever the callback list holds. -/
theorem Ring.runs_releaseSent_empty (hr : Ring dev queued released s)
    (hempty : queued.length = released) (hhead : s.usTxHead = dev.usTxListSize)
    (htail : s.usTxTail = k) (hk : k < dev.usTxListSize) (hfuel : dev.usTxListSize ≤ k + fuel)
    {x : Except Fault Nat} (hruns : (emac false).Runs (releaseSent dev flag fuel) s x t) :
    ∃ slot, x = .ok slot ∧ Ring dev queued released t ∧ Keeps queued s t ∧ t.usTxTail = 0 ∧
      t.wakeups = s.wakeups ∧
      t.calls = s.calls ++ ((List.range dev.usTxListSize).drop k).filterMap s.callbacks := by
  induction fuel generalizing s k with
  | zero => omega
  | succ fuel ih =>
    rcases hr.runs_op hruns with ⟨_, _, s₁, hr₁, hd₁, ⟨rfl, rfl⟩, h₁⟩
    rcases hr₁.runs_op h₁ with ⟨_, _, s₂, hr₂, hd₂, ⟨rfl, rfl⟩, h₂⟩
    rcases hr₂.runs_op h₂ with ⟨_, _, s₃, hr₃, hd₃, ⟨rfl, rfl⟩, h₃⟩
    have hd := (hd₁.trans hd₂).trans hd₃
    have hcalls : s₃.calls = s.calls := hd.calls
    have htail₁ : s₁.usTxTail = k := hd₁.tail.trans htail
    have htail₂ : s₂.usTxTail = k := hd₂.tail.trans htail₁
    rw [htail₁, htail₂] at h₃
    split at h₃
    · rename_i hzero
      have hused := hr₃.all_used hempty hk
      rw [(and_emacTxdUsed _).mp hzero] at hused
      cases hused
    · have hmod : k = k % dev.usTxListSize := (Nat.mod_eq_of_lt hk).symm
      rw [hmod] at h₃
      rcases hr₃.runs_round (hd₃.tail.trans (htail₂.trans hmod)) h₃ with
        ⟨s₄, hr₄, hk₄, htail₄, hw₄, hcalls₄, h₄⟩
      rcases hr₄.runs_op h₄ with ⟨_, _, s₅, hr₅, hd₅, ⟨rfl, rfl⟩, h₅⟩
      rcases hr₅.runs_op h₅ with ⟨_, _, s₆, hr₆, hd₆, ⟨rfl, rfl⟩, h₆⟩
      have hd' := hd₅.trans hd₆
      have hk' := (hd.toKeeps.trans hk₄).trans hd'.toKeeps
      have hw : s₆.wakeups = s.wakeups := hd'.wakeups.trans (hw₄.trans hd.wakeups)
      have hcalls₆ : s₆.calls = s.calls ++ (s.callbacks k).toList := by
        rw [hd'.calls, hcalls₄, hcalls, hd.callbacks, ← hmod]
      have hdrop : (List.range dev.usTxListSize).drop k =
          k :: (List.range dev.usTxListSize).drop (k + 1) := by
        rw [List.drop_eq_getElem_cons (by rw [List.length_range]; exact hk), List.getElem_range]
      have hone : ((List.range dev.usTxListSize).drop k).filterMap s.callbacks =
          (s.callbacks k).toList ++
            ((List.range dev.usTxListSize).drop (k + 1)).filterMap s.callbacks := by
        rw [hdrop]
        cases hcase : s.callbacks k <;> simp [hcase]
      have hhead₅ : s₅.usTxHead = dev.usTxListSize :=
        hd₅.head.trans (hk₄.head.trans (hd.head.trans hhead))
      have htail₆ : s₆.usTxTail = (k + 1) % dev.usTxListSize := hd'.tail.trans htail₄
      have hcnt : circCnt s₅.usTxHead s₆.usTxTail dev.usTxListSize = 0 ↔
          k + 1 = dev.usTxListSize := by
        rw [hhead₅, htail₆]
        have hcount : circCnt dev.usTxListSize ((k + 1) % dev.usTxListSize : Nat)
            dev.usTxListSize = 0 ↔ dev.usTxListSize = k + 1 :=
          Slots.count_eq_zero (by omega) (by omega) rfl (Nat.mod_mod _ _)
        rw [hcount]
        exact eq_comm
      split at h₆
      · rename_i hne
        have hlt : k + 1 < dev.usTxListSize := by
          have hneq := fun heq => hne (hcnt.mpr heq)
          omega
        rw [Nat.mod_eq_of_lt hlt] at htail₆
        rcases ih hr₆ (hd₆.head.trans hhead₅) htail₆ hlt (by omega) h₆ with
          ⟨slot, hx, hr', hk'', htail', hw', hcalls'⟩
        refine ⟨slot, hx, hr', hk'.trans hk'', htail', hw'.trans hw, ?_⟩
        rw [hcalls', hcalls₆, hone, hk'.callbacks, List.append_assoc]
      · rename_i heq
        rcases runs_ret.mp h₆ with ⟨rfl, rfl⟩
        have hlast : k + 1 = dev.usTxListSize := hcnt.mp (not_not.mp heq)
        refine ⟨_, rfl, hr₆, hk', ?_, hw, ?_⟩
        · rw [htail₆, hlast, Nat.mod_self]
        · rw [hcalls₆, hone, hlast, List.drop_eq_nil_of_le (by rw [List.length_range]),
            List.filterMap_nil, List.append_nil]

/-- The test for an empty ring, and the loop. -/
theorem Inv.runs_checkBuffers (hi : Inv dev queued head released s) {slot : Nat}
    {x : Except Fault Nat} (hruns : (emac false).Runs (checkBuffers dev flag slot) s x t) :
    ∃ slot', x = .ok slot' ∧ ∃ released', Releases dev queued head released released' s t := by
  rcases hi.runs_op hruns with ⟨_, _, s₁, hi₁, hd₁, ⟨rfl, rfl⟩, h₁⟩
  rcases hi₁.runs_op h₁ with ⟨_, _, s₂, hi₂, hd₂, ⟨rfl, rfl⟩, h₂⟩
  have hd := hd₁.trans hd₂
  have hbounded := hi₂.bounded
  rw [← hd₂.head] at h₂
  -- what the loop does is told for the state at its beginning
  have hback : ∀ {released' u}, Releases dev queued head released released' s₂ u →
      Releases dev queued head released released' s u := by
    intro released' u hrel
    have hsent := hd.sent_le
    have hall := hrel.all_sent
    refine ⟨hrel.le, hrel.inv, hd.toKeeps.trans hrel.keeps, by omega,
      hrel.wakeups.trans hd.wakeups, ?_, ?_⟩
    · intro h
      rw [hrel.calls (by rw [hd.head]; exact h), hd.calls]
    · intro heq hsize
      rw [hrel.calls_again heq (hd.head.trans hsize), hd.calls, hd.callbacks]
  have hle := hi.le_head
  split at h₂
  · rename_i hne
    by_cases hlt : released < head
    · rcases hi₂.runs_releaseSent hlt (by omega) h₂ with ⟨slot', hx, released', hrel⟩
      exact ⟨slot', hx, released', hback hrel⟩
    · -- nothing is left to release, but the head is behind the last slot
      have heq : head = released := by omega
      rcases hi₂.eq_size_of_ne heq hne with ⟨hsize, hzero⟩
      have hqueued := hi₂.counted hsize
      rcases hi₂.ring.runs_releaseSent_empty (by omega) hsize hzero dev.pos (by omega) h₂ with
        ⟨slot', hx, hr₃, hk₃, htail₃, hw₃, hcalls₃⟩
      refine ⟨slot', hx, released, hback ⟨le_refl _, ?_, hk₃, by omega, hw₃, ?_, fun _ _ => hcalls₃⟩⟩
      · refine ⟨hr₃, ?_, ?_, ?_, fun _ => hqueued, hle, hi.head_le⟩
        · rw [htail₃, ← hzero, hi₂.tail]
        · rw [hk₃.head, hi₂.usTxHead]
        · rw [hk₃.head]
          exact hi₂.usTxHead_le
      · omega
  · -- the ring is empty
    rename_i heq
    rcases runs_ret.mp h₂ with ⟨rfl, rfl⟩
    have hempty : head = released := by
      have hcnt := hi₂.circCnt_eq_zero
      have hself : circCnt t.usTxTail t.usTxTail dev.usTxListSize = 0 := by
        simp [circCnt, Slots.count]
      rw [not_not.mp heq] at hcnt
      exact hcnt.mp hself
    refine ⟨slot, rfl, released, hback ⟨le_refl _, hi₂, .refl queued _, by omega, rfl, ?_, ?_⟩⟩
    · intro
      rw [callbacksBetween_self, List.append_nil]
    · intro _ hsize
      have htail := dev.slot_lt released
      rw [← hi₂.tail, ← not_not.mp heq] at htail
      omega

/-! ## The handler -/

/-- The condition for the wake-up callback, as the handler computes it. -/
def WakesUp (dev : Device) (s : State) : Prop :=
  (s.threshold.toNat : Int) ≤ circSpace s.usTxHead s.usTxTail dev.usTxListSize ∧
    s.wakeupCb.isSome = true

instance (dev : Device) (s : State) : Decidable (WakesUp dev s) := inferInstanceAs (Decidable (_ ∧ _))

theorem Inv.runs_notifyWakeup (hi : Inv dev queued head released s) {x : Except Fault Unit}
    (hruns : (emac false).Runs (notifyWakeup dev) s x t) :
    x = .ok () ∧ Inv dev queued head released t ∧ Keeps queued s t ∧ t.calls = s.calls ∧
      t.wakeups = s.wakeups + if WakesUp dev t then 1 else 0 := by
  rcases hi.runs_op hruns with ⟨_, _, s₁, hi₁, hd₁, ⟨rfl, rfl⟩, h₁⟩
  rcases hi₁.runs_op h₁ with ⟨_, _, s₂, hi₂, hd₂, ⟨rfl, rfl⟩, h₂⟩
  rcases hi₂.runs_op h₂ with ⟨_, _, s₃, hi₃, hd₃, ⟨rfl, rfl⟩, h₃⟩
  have hd := (hd₁.trans hd₂).trans hd₃
  have hspace : circSpace s₁.usTxHead s₂.usTxTail dev.usTxListSize =
      circSpace s₃.usTxHead s₃.usTxTail dev.usTxListSize := by
    rw [hd₃.head, hd₂.head, hd₃.tail]
  rw [hspace] at h₃
  split at h₃
  · rename_i hge
    rcases hi₃.runs_op h₃ with ⟨_, _, s₄, hi₄, hd₄, ⟨rfl, rfl⟩, h₄⟩
    have hd' := hd.trans hd₄
    have hspace₄ : (s₄.threshold.toNat : Int) ≤
        circSpace s₄.usTxHead s₄.usTxTail dev.usTxListSize := by
      rw [hd₄.head, hd₄.tail, hd₄.threshold]
      exact hge
    cases hcb : s₄.wakeupCb with
    | none =>
      rw [hcb] at h₄
      rcases runs_ret.mp h₄ with ⟨rfl, rfl⟩
      refine ⟨rfl, hi₄, hd'.toKeeps, hd'.calls, ?_⟩
      rw [if_neg (by simp [WakesUp, hcb]), Nat.add_zero]
      exact hd'.wakeups
    | some cb =>
      rw [hcb] at h₄
      rcases runs_call.mp h₄ with ⟨s₅, _, _, hm, rfl, h₅⟩
      rcases runs_ret.mp h₅ with ⟨rfl, rfl⟩
      rcases hi₄.ring.moves hm with ⟨hr₅, hd₅⟩
      have hi₅ := hi₄.drift hr₅ hd₅
      have hk := (hd'.trans hd₅).toKeeps
      refine ⟨rfl, ⟨hr₅.set _ _ _ _ _ _ _, hi₅.tail, hi₅.usTxHead, hi₅.usTxHead_le, hi₅.counted,
        hi₅.le_head, hi₅.head_le⟩, ⟨hk.head, hk.mem, hk.callbacks, hk.wakeupCb, hk.threshold,
        hk.sent_le, hk.live⟩, (hd'.trans hd₅).calls, ?_⟩
      have hwakes : WakesUp dev { s₅ with wakeups := s₅.wakeups + 1 } := by
        constructor
        · change (s₅.threshold.toNat : Int) ≤ circSpace s₅.usTxHead s₅.usTxTail dev.usTxListSize
          rw [hd₅.head, hd₅.tail, hd₅.threshold]
          exact hspace₄
        · change s₅.wakeupCb.isSome = true
          rw [hd₅.wakeupCb, hcb]
          rfl
      rw [if_pos hwakes, ← (hd'.trans hd₅).wakeups]
  · rename_i hlt
    rcases runs_ret.mp h₃ with ⟨rfl, rfl⟩
    refine ⟨rfl, hi₃, hd.toKeeps, hd.calls, ?_⟩
    rw [if_neg (fun hw => hlt hw.1), Nat.add_zero]
    exact hd.wakeups

/-- The part for received frames leaves the transmitter alone. -/
theorem Inv.runs_rxPacket (hi : Inv dev queued head released s) {x : Except Fault Unit}
    (hruns : (emac false).Runs (rxPacket ulIsr ulRsr) s x t) :
    x = .ok () ∧ Inv dev queued head released t ∧ Drift queued s t := by
  unfold rxPacket at hruns
  split at hruns
  · rcases hi.runs_op hruns with ⟨_, _, s₁, hi₁, hd₁, rfl, h₁⟩
    rcases hi₁.runs_op h₁ with ⟨_, cb, s₂, hi₂, hd₂, ⟨-, rfl⟩, h₂⟩
    cases cb with
    | none =>
      rcases runs_ret.mp h₂ with ⟨rfl, rfl⟩
      exact ⟨rfl, hi₂, hd₁.trans hd₂⟩
    | some cb =>
      rcases runs_call.mp h₂ with ⟨_, _, s₃, hm, rfl, h₃⟩
      rcases runs_ret.mp h₃ with ⟨rfl, rfl⟩
      rcases hi₂.ring.moves hm with ⟨hr₃, hd₃⟩
      exact ⟨rfl, hi₂.drift hr₃ hd₃, (hd₁.trans hd₂).trans hd₃⟩
  · rcases runs_ret.mp hruns with ⟨rfl, rfl⟩
    exact ⟨rfl, hi, .refl queued _⟩

/-- Clearing the status, without a retry limit in it. -/
theorem Inv.runs_clearTxStatus {α : Type} {v : U32} {f : Unit → TxProg Fault α}
    {x : Except Fault α} (hi : Inv dev queued head released s)
    (hruns : (emac false).Runs (emacClearTxStatus v >>= f) s x t) :
    ∃ s', Inv dev queued head released s' ∧ Drift queued s s' ∧
      (emac false).Runs (f ()) s' x t := by
  rcases hi.runs_op hruns with ⟨s₁, _, _, hi₁, hd₁, rfl, h₁⟩
  have hr := hi₁.ring
  have hoff : (s₁.retryLimit && v &&& emacTsrRles == 0) = s₁.retryLimit := by
    rw [hr.retryLimit, Bool.false_and]
  have hkeep : ({ s₁ with retryLimit := s₁.retryLimit && v &&& emacTsrRles == 0 } : State) = s₁ := by
    rw [hoff]
  rw [hkeep] at h₁
  exact ⟨s₁, hi₁, hd₁, h₁⟩

/-- Whether the handler looks at the ring. -/
def SeesComplete (ulIsr ulTsr : U32) : Prop :=
  ulIsr &&& emacIsrTcomp ≠ 0 ∨ ulTsr &&& emacTsrComp ≠ 0

instance (ulIsr ulTsr : U32) : Decidable (SeesComplete ulIsr ulTsr) :=
  inferInstanceAs (Decidable (_ ∨ _))

/-- What a run of the handler does with the frames up to `head`, of which `released` are released
when it begins and `released'` when it ends. `sees` tells whether it looks at the ring. -/
structure Handles (dev : Device) (queued : List Entry) (head released released' : Nat) (sees : Prop)
    (s t : State) : Prop where
  le : released ≤ released'
  inv : Inv dev queued head released' t
  keeps : Keeps queued s t
  all_sent : sees → min head s.wire.length ≤ released'
  wakeups : sees → t.wakeups = s.wakeups + if WakesUp dev t then 1 else 0
  calls : s.usTxHead < dev.usTxListSize ∨ released < head →
    t.calls = s.calls ++ callbacksBetween queued released released'
  calls_again : sees → head = released → s.usTxHead = dev.usTxListSize →
    t.calls = s.calls ++ (List.range dev.usTxListSize).filterMap s.callbacks
  unseen : ¬ sees → t.calls = s.calls ∧ t.wakeups = s.wakeups

variable {released' : Nat} {sees : Prop}

/-- The handler does not look at the ring. -/
theorem Handles.of_drift (hi : Inv dev queued head released t) (hd : Drift queued s t)
    (hsees : ¬ sees) : Handles dev queued head released released sees s t where
  le := le_refl _
  inv := hi
  keeps := hd.toKeeps
  all_sent := fun h => absurd h hsees
  wakeups := fun h => absurd h hsees
  calls := fun _ => by rw [hd.calls, callbacksBetween_self, List.append_nil]
  calls_again := fun h => absurd h hsees
  unseen := fun _ => ⟨hd.calls, hd.wakeups⟩

/-- Before the handler looks at the ring, the hardware goes on. -/
theorem Handles.after_drift (hd : Drift queued s t)
    (hh : Handles dev queued head released released' sees t u) :
    Handles dev queued head released released' sees s u where
  le := hh.le
  inv := hh.inv
  keeps := hd.toKeeps.trans hh.keeps
  all_sent := fun h => by
    have hle := hd.sent_le
    have hall := hh.all_sent h
    omega
  wakeups := fun h => by rw [hh.wakeups h, hd.wakeups]
  calls := fun h => by rw [hh.calls (by rw [hd.head]; exact h), hd.calls]
  calls_again := fun h heq hsize => by
    rw [hh.calls_again h heq (hd.head.trans hsize), hd.calls, hd.callbacks]
  unseen := fun h => ⟨(hh.unseen h).1.trans hd.calls, (hh.unseen h).2.trans hd.wakeups⟩

/-- After the loop, the task is woken. -/
theorem Releases.wakeup (hrel : Releases dev queued head released released' s t) (hsees : sees)
    {x : Except Fault Unit}
    (hruns : (emac false).Runs (notifyWakeup dev) t x u) :
    x = .ok () ∧ Handles dev queued head released released' sees s u := by
  rcases hrel.inv.runs_notifyWakeup hruns with ⟨hx, hi, hk, hcalls, hwakeups⟩
  refine ⟨hx, hrel.le, hi, hrel.keeps.trans hk, fun _ => hrel.all_sent, fun _ => ?_, fun h => ?_,
    fun _ heq hsize => ?_, fun h => absurd hsees h⟩
  · rw [hwakeups, hrel.wakeups]
  · rw [hcalls, hrel.calls h]
  · rw [hcalls, hrel.calls_again heq hsize]

/-- The part for sent frames. -/
theorem Inv.runs_txPacket (hi : Inv dev queued head released s) (hrles : ulTsr &&& emacTsrRles = 0)
    {x : Except Fault Unit} (hruns : (emac false).Runs (txPacket dev ulIsr ulTsr) s x t) :
    x = .ok () ∧
      ∃ released', Handles dev queued head released released' (SeesComplete ulIsr ulTsr) s t := by
  unfold txPacket at hruns
  split at hruns
  · rename_i hsees
    rw [checkRetryLimit, if_neg (not_not.mpr hrles)] at hruns
    rcases hi.runs_clearTxStatus hruns with ⟨s₁, hi₁, hd₁, h₁⟩
    rcases Runs.of_bind_of_ok (fun _ _ h => hi₁.runs_checkBuffers h) h₁ with
      ⟨slot, s₂, ⟨released', hrel⟩, h₂⟩
    rw [notifyRetryLimit, if_neg (not_not.mpr hrles)] at h₂
    rcases hrel.wakeup hsees h₂ with ⟨hx, hh⟩
    exact ⟨hx, released', hh.after_drift hd₁⟩
  · rename_i hblind
    rcases runs_ret.mp hruns with ⟨rfl, rfl⟩
    exact ⟨rfl, released, .of_drift hi (.refl queued _) hblind⟩

/-- The handler, with what it reads from the status registers. -/
theorem Inv.runs_emacHandler (hi : Inv dev queued head released s) {x : Except Fault Unit}
    (hruns : (emac false).Runs (emacHandler dev) s x t) :
    x = .ok () ∧ ∃ released' ulIsr ulTsr,
      Handles dev queued head released released' (SeesComplete ulIsr ulTsr) s t := by
  rcases hi.runs_op hruns with ⟨_, ulIsr, s₁, hi₁, hd₁, rfl, h₁⟩
  rcases hi₁.runs_op h₁ with ⟨_, ulRsr, s₂, hi₂, hd₂, rfl, h₂⟩
  rcases hi₂.runs_op h₂ with ⟨_, ulTsr, s₃, hi₃, hd₃, ⟨hlimit, rfl⟩, h₃⟩
  rcases hi₃.runs_op h₃ with ⟨_, ulImr, s₄, hi₄, hd₄, rfl, h₄⟩
  rcases Runs.of_bind_value (fun _ _ h => hi₄.runs_rxPacket h) h₄ with ⟨s₅, ⟨hi₅, hd₅⟩, h₅⟩
  have hrles : ulTsr &&& emacTsrRles = 0 := by
    by_contra hne
    have hset := hlimit.mp hne
    rw [hi₃.ring.retryLimit] at hset
    cases hset
  rcases hi₅.runs_txPacket hrles h₅ with ⟨hx, released', hh⟩
  have hd := (((hd₁.trans hd₂).trans hd₃).trans hd₄).trans hd₅
  exact ⟨hx, released', _, ulTsr, hh.after_drift hd⟩

/-- Any number of steps of the hardware and runs of the handler. -/
theorem Inv.moves {enabled : State → Prop} (hi : Inv dev queued head released s)
    (hm : (emacWithHandler dev false enabled).Moves s t) :
    ∃ released', released ≤ released' ∧ Inv dev queued head released' t ∧ Keeps queued s t := by
  induction hm with
  | refl => exact ⟨released, le_refl _, hi, .refl queued s⟩
  | tail _ hstep ih =>
    rcases ih with ⟨r₁, hle₁, hi₁, hk₁⟩
    rcases hstep with hstep | ⟨-, x, hruns⟩
    · rcases hi₁.ring.transmits hstep with ⟨hr₂, hd₂⟩
      exact ⟨r₁, hle₁, hi₁.drift hr₂ hd₂, hk₁.trans hd₂.toKeeps⟩
    · rcases hi₁.runs_emacHandler hruns with ⟨-, r₂, _, _, hh⟩
      exact ⟨r₂, hle₁.trans hh.le, hh.inv, hk₁.trans hh.keeps⟩

end EmacDriver
