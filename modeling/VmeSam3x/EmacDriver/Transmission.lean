import VmeSam3x.EmacDriver.Reset

/-! # What arrives on the wire

The frames that the driver accepted, in their order, nothing else, and sooner or later all of
them: for every program that writes through the driver, and every order in which the hardware and
the handler run.
-/

namespace EmacDriver

open Interact Machine Bytes Ethernet

variable {dev : Device} {enabled : State → Prop} {queued : List Entry} {released released' : Nat}
  {s t : State} {E α : Type}

/-! ## Sending what waits -/

theorem isUsed_or (v : U32) : isUsed (v ||| emacTxdUsed) = true := by
  have hused : emacTxdUsed.getLsbD 31 = true := by decide
  rw [isUsed, BitVec.getLsbD_or, hused, Bool.or_true]

theorem isWrap_or (v : U32) : isWrap (v ||| emacTxdUsed) = isWrap v := by
  have hused : emacTxdUsed.getLsbD 30 = false := by decide
  rw [isWrap, BitVec.getLsbD_or, hused, Bool.or_false, isWrap]

/-- The hardware can send all that waits. -/
theorem Idle.drain (hi : Idle dev enabled queued released s) :
    ∃ u, (emac false).Moves s u ∧ u.wire = queued.map Entry.frame := by
  obtain ⟨k, hk⟩ : ∃ k, s.wire.length + k = queued.length :=
    ⟨queued.length - s.wire.length, by have := hi.ring.sent_le; omega⟩
  induction k generalizing s with
  | zero =>
    refine ⟨s, .refl, ?_⟩
    rw [hi.ring.sent, List.take_of_length_le (by omega)]
  | succ k ih =>
    have hwaits : s.wire.length < queued.length := by omega
    have hready := hi.ring.waiting_queue.mpr hwaits
    rcases hi.ring.ready _ _ (List.getElem?_eq_getElem hwaits) (le_refl _) with ⟨hlast, -⟩
    rw [← hi.ring.queue] at hlast
    have hgoing : s.going = true := by
      rcases hi.live with hgoing | hall
      · exact hgoing
      · omega
    have hstep : Transmits false s _ :=
      .send hi.ring.enabled hgoing hready hlast (isUsed_or (s.status s.queue)) (isWrap_or _)
    rcases hi.ring.transmits hstep with ⟨hr, hd⟩
    have hi' : Idle dev enabled queued released _ :=
      ⟨⟨hi.toInv.drift hr hd, fun h => hd.calls.trans (hi.called h)⟩, hd.head.trans hi.slot,
        hd.live hi.live⟩
    rcases ih hi' (by simp; omega) with ⟨u, hm, hwire⟩
    exact ⟨u, .head hstep hm, hwire⟩

/-! ## Every program on the driver -/

/-- What an answered operation adds to the accepted frames. -/
def acceptedBy (e : Event Ethernet.Emac) : List (List U8) := accepted [e]

theorem accepted_eq_flatMap (evs : List (Event Ethernet.Emac)) :
    accepted evs = evs.flatMap acceptedBy := by
  induction evs with
  | nil => rfl
  | cons e evs ih =>
    rw [List.flatMap_cons, ← ih, acceptedBy, ← accepted_append]
    rfl

/-- The queue logs what it accepts. -/
theorem accepted_of_answers {q q' : Queue} {o : EmacOp} {r : Ethernet.Emac.Res o}
    (ha : q.Answers dev o r q') : q'.accepted = q.accepted ++ acceptedBy ⟨o, r⟩ := by
  cases o with
  | devWrite buffer size =>
    rcases ha with ⟨-, rfl⟩
    rw [acceptedBy, accepted_write]
    split
    · rename_i hok
      simp [accepted]
    · simp [accepted]
  | setTxWakeupCallback cb =>
    rcases ha with rfl
    exact (List.append_nil _).symm
  | notifyStateClear =>
    rcases ha with rfl
    exact (List.append_nil _).symm
  | notifyWait ticks =>
    rcases ha with rfl
    exact (List.append_nil _).symm

/-- **Frames arrive in order**: after the initialisation, whatever a program does with the driver
and whatever happens in between, the wire holds a beginning of the accepted frames, and the
hardware can send the rest. -/
theorem frames_in_order {p : EmacProg α} {s₀ : State} {x₀ : Except E Unit}
    {x : Except Ethernet.Fault α} (hp : p.Uses Holds) (hs₀ : Quiet s₀)
    (hinit : (emac false).Runs (emacInitTxMem dev) s₀ x₀ s)
    (hruns : (emacWithHandler dev false enabled).Runs (p.implement (driver dev)) s x t) :
    ∃ evs, Prog.Path p evs x ∧ t.wire <+: accepted evs ∧
      ∃ u, (emacWithHandler dev false enabled).Moves t u ∧ u.wire = accepted evs := by
  have hidle : Idle dev enabled [] 0 s := (hs₀.runs_emacInitTxMem hinit).2
  have hwire : s.wire.length = 0 := Nat.le_zero.mp hidle.ring.sent_le
  have hrep : Represents dev enabled ⟨[], 0, 0⟩ s := ⟨[], hidle, rfl, hwire.symm⟩
  rcases (implements dev enabled).runs hp.usesWhen .refl hrep hruns with
    ⟨q, q', -, hq, hm, ⟨queued, hi, hacc, -⟩, -⟩
  rcases Runs.path_log Queue.accepted acceptedBy
    (fun _ _ hstep => by cases hstep <;> rfl) (fun _ _ _ _ ha => accepted_of_answers ha) hq with
    ⟨evs, hpath, hlog⟩
  have hsame : q'.accepted = q.accepted := by
    refine Moves.invariant (I := fun q' : Queue => q'.accepted = q.accepted) ?_ hm rfl
    intro q₁ q₂ hstep h
    cases hstep <;> exact h
  have haccepted : accepted evs = queued.map Entry.frame := by
    rw [accepted_eq_flatMap, ← hacc, hsame, hlog, List.nil_append]
  refine ⟨evs, hpath, ?_, ?_⟩
  · rw [haccepted, hi.ring.sent, List.map_take]
    exact List.take_prefix _ _
  · rcases hi.drain with ⟨u, hmoves, hall⟩
    exact ⟨u, hmoves.interruptedBy, hall.trans haccepted.symm⟩

theorem frames_in_order_three_bytes :
    ∃ evs, Prog.Path (Ethernet.emacDevWrite [1, 2, 3] 3) evs
        (Prog.run State.respond ((Ethernet.emacDevWrite [1, 2, 3] 3).implement (driver eight))
          (initialised eight)).1 ∧
      (Prog.run State.respond ((Ethernet.emacDevWrite [1, 2, 3] 3).implement (driver eight))
        (initialised eight)).2.wire <+: accepted evs ∧
      ∃ u, (emacWithHandler eight false fun _ => True).Moves
          (Prog.run State.respond ((Ethernet.emacDevWrite [1, 2, 3] 3).implement (driver eight))
            (initialised eight)).2 u ∧ u.wire = accepted evs :=
  frames_in_order ⟨show 3 ≤ [1, 2, 3].length by decide, fun _ => trivial⟩ quiet_cleared
    (runs_initialised eight) (runs_respond eight false (fun _ => True) _ _)

/-! ## The calls of `low_level_output` -/

end EmacDriver
