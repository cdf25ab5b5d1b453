import VmeSam3x.EmacDriver.Transmission

/-! # Transmit callbacks and the wake-up

The callback of a frame is called with its release, after the frame is on the wire, in the order
of the writes. The exception is the moment in which the head is behind the last slot: the handler
takes an empty ring for a full one and calls the whole list again. The wake-up of a task that
waits for a slot depends on where the ring stands.
-/

namespace EmacDriver

open Interact Machine Bytes Ethernet

variable {dev : Device} {enabled : State → Prop} {queued : List Entry} {released : Nat}
  {s t : State} {E α : Type} {ulIsr ulTsr : U32}

/-! ## Once and in order -/

/-- The frames that were accepted, with their callbacks. -/
def written : List (List U8 × Nat × Option Callback) → List EmacStatus → List Entry
  | (buffer, ulSize, funcTxCb) :: ws, rc :: rcs =>
    (if rc = .ok then [⟨buffer.take ulSize, funcTxCb⟩] else []) ++ written ws rcs
  | _, _ => []

/-- **Callbacks again**: with everything released and the head behind the last slot, a run of the
handler that sees a completion calls every callback of the list, in the order of the slots. The
ring is as before. -/
theorem callbacks_again (hi : Inv dev queued queued.length queued.length s)
    (hbehind : s.usTxHead = dev.usTxListSize) (hsees : SeesComplete ulIsr ulTsr)
    (hrles : ulTsr &&& emacTsrRles = 0) {x : Except Fault Unit}
    (hruns : (emac false).Runs (txPacket dev ulIsr ulTsr) s x t) :
    x = .ok () ∧ Inv dev queued queued.length queued.length t ∧
      t.calls = s.calls ++ (List.range dev.usTxListSize).filterMap s.callbacks := by
  rcases hi.runs_txPacket hrles hruns with ⟨hx, released', hh⟩
  have hle := hh.le
  have hhead := hh.inv.le_head
  have heq : released' = queued.length := by omega
  subst heq
  exact ⟨hx, hh.inv, hh.calls_again hsees rfl hbehind⟩

/-- An empty ring with the head behind the last slot, and callbacks of an earlier round. -/
def behind : State := { initialised eight with usTxHead := 8, callbacks := fun _ => some 7 }

theorem inv_behind : Inv eight [] 0 0 behind := by
  have hr := (idle_initialised eight fun _ => True).ring
  refine ⟨⟨hr.enabled, hr.retryLimit, hr.sent, hr.released_le, hr.bounded, hr.queue, hr.addr,
    hr.wrap, hr.waiting, hr.ready, ?_, hr.short⟩, (idle_initialised eight fun _ => True).tail, rfl,
    le_refl _, fun _ => rfl, le_refl _, le_refl _⟩
  intro j e he
  simp at he

def behindHandled : Except Fault Unit × State :=
  Prog.run State.respond (txPacket eight emacIsrTcomp 0) behind

theorem callbacks_again_eight :
    behindHandled.1 = .ok () ∧ Inv eight [] 0 0 behindHandled.2 ∧
      behindHandled.2.calls = behind.calls ++ (List.range 8).filterMap behind.callbacks :=
  callbacks_again inv_behind rfl (.inl (by decide)) (by decide)
    (runs_respond_alone false _ _)

/-! ## The wake-up -/

end EmacDriver
