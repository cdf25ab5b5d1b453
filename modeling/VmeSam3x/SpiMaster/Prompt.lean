import VmeSam3x.SpiMaster.Setup

/-! # A prompt SPI

The serializer finishes before every access to a register, and the slave has one reply to give. On
such an SPI programs can be evaluated.
-/

namespace SpiMaster

open Interact Bytes Flash

variable {P : Slave} {latency : Nat} {α : Type}

/-- A slave that can be evaluated: a reply, and moves that it makes before anything else. -/
structure Prompt (P : Slave) where
  reply : P.State → U8
  sends : ∀ u, P.sends u (reply u)
  settle : P.State → P.State
  moves : ∀ u, P.Moves u (settle u)

namespace State

variable (d : Prompt P)

/-- The end of a transfer. -/
def finishShift (s : State P) : State P :=
  match s.shifter with
  | some b => s.finish b (d.reply s.slave)
  | none => s

/-- The transfer of the byte in the transmit register. -/
def sendTdr (s : State P) : State P :=
  match s.tdr with
  | some b => (s.load b).finish b (d.reply (s.load b).slave)
  | none => s

/-- Everything is sent, and the slave makes its moves. -/
def settle (s : State P) : State P :=
  let s := if s.enabled then (s.finishShift d).sendTdr d else s
  { s with slave := d.settle s.slave }

/-- The status register. -/
def statusWord (s : State P) : U32 :=
  (if s.rdrf then srRdrf else 0) ||| (if s.tdr.isNone then srTdre else 0) |||
    (if s.idle then srTxempty else 0)

def writeControl (s : State P) (value : U32) : State P :=
  if value = crSwrst then s.reset
  else if value = crSpien then { s with enabled := true }
  else if value = crLastxfer then s.raiseLine
  else s

def answer (s : State P) : (o : RegisterOp) → Registers.Res o × State P
  | .writeCr value => ((), s.writeControl value)
  | .readMr => (s.mr, s)
  | .writeMr value => ((), { s with mr := value })
  | .readSr => (s.statusWord, { s with waited := s.waited + 1 })
  | .readRdr => (s.rdr.setWidth 32, { s with rdrf := false })
  | .writeTdr value => ((), { s with tdr := some (value.setWidth 8), waited := 0 })
  | .readCsr channel => (s.csr channel, s)
  | .writeCsr channel value => ((), { s with csr := Function.update s.csr channel value })

def respond : Handler Registers (State P) := fun o s => (s.settle d).answer o

variable {s : State P} {d}

theorem moves_finishShift (latency : Nat) (h : s.enabled = true) :
    (spiUnit P latency).Moves s (s.finishShift d) ∧ (s.finishShift d).shifter = none ∧
      (s.finishShift d).enabled = true := by
  unfold finishShift
  cases hshifter : s.shifter with
  | none => exact ⟨.refl, hshifter, h⟩
  | some b => exact ⟨.single (.finish h hshifter fun _ => d.sends _), rfl, h⟩

theorem enabled_load (s : State P) (b : U8) : (s.load b).enabled = s.enabled := by
  unfold load raiseLine
  split <;> rfl

theorem moves_sendTdr (latency : Nat) (h : s.enabled = true) (hshifter : s.shifter = none) :
    (spiUnit P latency).Moves s (s.sendTdr d) ∧ (s.sendTdr d).idle = true := by
  unfold sendTdr
  cases htdr : s.tdr with
  | none => exact ⟨.refl, idle_iff.mpr ⟨htdr, hshifter⟩⟩
  | some b =>
    have hload : (spiUnit P latency).Moves s (s.load b) := .single (.load h htdr hshifter)
    exact ⟨hload.tail (.finish ((enabled_load s b).trans h) rfl fun _ => d.sends _), rfl⟩

theorem moves_settle (latency : Nat) (s : State P) :
    (spiUnit P latency).Moves s (s.settle d) ∧
      ((s.settle d).enabled = true → (s.settle d).idle = true) := by
  have hslave : ∀ s : State P, (spiUnit P latency).Moves s { s with slave := d.settle s.slave } := by
    intro s
    have hmoves : ∀ u, P.Moves s.slave u →
        (spiUnit P latency).Moves s { s with slave := u } := by
      intro u hu
      induction hu with
      | refl => exact .refl
      | tail _ hstep ih => exact ih.tail (.slave hstep)
    exact hmoves _ (d.moves _)
  unfold settle
  by_cases h : s.enabled = true
  · rw [if_pos h]
    rcases moves_finishShift latency (d := d) h with ⟨h₁, hshifter, henabled⟩
    rcases moves_sendTdr latency (d := d) henabled hshifter with ⟨h₂, hidle⟩
    exact ⟨(h₁.trans h₂).trans (hslave _), fun _ => hidle⟩
  · rw [if_neg h]
    exact ⟨hslave s, fun henabled => absurd henabled h⟩

theorem statusRead_statusWord (h : s.enabled = true → s.idle = true) :
    StatusRead latency s s.statusWord { s with waited := s.waited + 1 } := by
  refine ⟨?_, ?_, ?_, fun henabled _ => .inr (h henabled), rfl⟩
  · unfold statusWord
    cases s.rdrf <;> cases s.tdr.isNone <;> cases s.idle <;> rfl
  · unfold statusWord
    cases s.rdrf <;> cases s.tdr.isNone <;> cases s.idle <;> rfl
  · unfold statusWord
    cases s.rdrf <;> cases s.tdr.isNone <;> cases s.idle <;> rfl

end State

theorem runs_respond (d : Prompt P) (p : SpiProg α) (s : State P) :
    (spiUnit P latency).Runs p s (Prog.run (State.respond d) p s).1
      (Prog.run (State.respond d) p s).2 := by
  refine Machine.Runs.of_handler (M := spiUnit P latency) ?_ p s
  intro s o
  rcases State.moves_settle latency s (d := d) with ⟨hm, hidle⟩
  refine ⟨s.settle d, hm, ?_⟩
  cases o with
  | writeCr value =>
    change ControlWritten _ value (State.writeControl _ value)
    unfold ControlWritten State.writeControl
    split_ifs
    · rfl
    · rfl
    · exact fun _ => rfl
  | readSr => exact State.statusRead_statusWord hidle
  | readRdr => exact ⟨BitVec.setWidth_setWidth_of_le _ (by decide), rfl⟩
  | readMr => exact ⟨rfl, rfl⟩
  | readCsr channel => exact ⟨rfl, rfl⟩
  | writeMr value => rfl
  | writeTdr value => rfl
  | writeCsr channel value => rfl

/-! ## An example -/

/-- The registers after power-up. -/
def poweredUp (P : Slave) (u : P.State) : State P :=
  ⟨false, 0, fun _ => 0, none, none, 0, false, false, 0, u⟩

theorem off_poweredUp (P : Slave) (u : P.State) : Off (poweredUp P u) := ⟨rfl, rfl, rfl⟩

end SpiMaster
