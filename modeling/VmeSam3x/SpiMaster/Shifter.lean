import VmeSam3x.SpiMaster.Master
import VmeSam3x.Lib.Layers

/-! # The serializer and the bus

A byte goes from the transmit register to the serializer, and while it is shifted out another one
is shifted in, into the receive register, whether that has been read or not. The select line goes
low with a transfer and stays low until the last one is announced. At the other end there is any
slave; a bus without registers, on which packets are exchanged as a whole, is what the driver is
to make of it.
-/

namespace SpiMaster

open Interact Bytes Flash

/-! ## Slaves -/

/-- A slave does something of its own accord, receives a byte for each one it sends, and notices
when its select line is raised. What it does does not depend on the bytes that are under way. -/
structure Slave where
  State : Type
  move : State → State → Prop
  sends : State → U8 → Prop
  receive : State → U8 → State
  raise : State → State
  move_receive : ∀ u u' b, move u u' →
    Relation.ReflTransGen move (receive u b) (receive u' b)

namespace Slave

variable {P : Slave}

abbrev Moves (P : Slave) : P.State → P.State → Prop := Relation.ReflTransGen P.move

/-- The bytes of a packet, one after the other. -/
def receiveAll (P : Slave) (u : P.State) (bytes : List U8) : P.State := bytes.foldl P.receive u

theorem moves_receiveAll {u u' : P.State} (h : P.Moves u u') (bytes : List U8) :
    P.Moves (P.receiveAll u bytes) (P.receiveAll u' bytes) := by
  induction bytes generalizing u u' with
  | nil => exact h
  | cons b rest ih =>
    apply ih
    induction h with
    | refl => exact .refl
    | tail _ hstep hprev => exact hprev.trans (P.move_receive _ _ b hstep)

/-- The slave's answers to dummies, with its own moves before, between and after them. -/
inductive Reads (P : Slave) : P.State → List U8 → P.State → Prop
  | nil {u t : P.State} (hm : P.Moves u t) : Reads P u [] t
  | cons {u v t : P.State} {r : U8} {rest : List U8} (hm : P.Moves u v) (hr : P.sends v r)
      (hrest : Reads P (P.receive v dummy) rest t) : Reads P u (r :: rest) t

theorem Reads.head {u v t : P.State} {bytes : List U8} (h : P.Reads v bytes t)
    (hm : P.Moves u v) : P.Reads u bytes t := by
  cases h with
  | nil hm' => exact .nil (hm.trans hm')
  | cons hm' hr hrest => exact .cons (hm.trans hm') hr hrest

theorem Reads.moves {u t : P.State} (h : P.Reads u [] t) : P.Moves u t := by
  cases h with
  | nil hm => exact hm

theorem Reads.tail {u t : P.State} {r : U8} {rest : List U8} (h : P.Reads u (r :: rest) t) :
    ∃ v, P.Moves u v ∧ P.sends v r ∧ P.Reads (P.receive v dummy) rest t := by
  cases h with
  | cons hm hr hrest => exact ⟨_, hm, hr, hrest⟩

end Slave

/-! ## The registers -/

structure State (P : Slave) where
  enabled : Bool
  mr : U32
  csr : Fin 4 → U32
  /-- The transmit register, until the serializer takes the byte. -/
  tdr : Option U8
  /-- The serializer, while it shifts. -/
  shifter : Option U8
  rdr : U8
  rdrf : Bool
  /-- The select line of the slave is low. -/
  line : Bool
  /-- How often the status has been read since the last write to the transmit register. -/
  waited : Nat
  slave : P.State

variable {P : Slave}

/-- The bits of the mode register and of `SPI_CSR[0]` that matter. -/
def mrConfig : U32 := mrMstr ||| mrPs ||| mrPcsdec ||| mrModfdis ||| mrWdrbt ||| mrLlb

def csrConfig : U32 := csrCpol ||| csrNcpha ||| csrCsaat ||| csrBitsMsk

namespace State

/-- A master with fixed selection, no decoder, no mode faults and no loop-back; eight bits in mode
0, some clock, and a select line that stays low between transfers. -/
structure Configured (s : State P) : Prop where
  mode : s.mr &&& mrConfig = mrMstr ||| mrModfdis
  channel : s.csr 0 &&& csrConfig = csrNcpha ||| csrCsaat
  clock : s.csr 0 &&& csrScbrMsk ≠ 0

/-- The mode register selects the slave, at the lowest line. -/
def selected (s : State P) : Bool := !s.mr.getLsbD 16

/-- Nothing is being sent. -/
def idle (s : State P) : Bool := s.tdr.isNone && s.shifter.isNone

/-- The bytes on their way to the slave. -/
def pending (s : State P) : List U8 := s.shifter.toList ++ s.tdr.toList

/-- The select line goes up, if it is low. -/
def raiseLine (s : State P) : State P :=
  { s with line := false, slave := if s.line then P.raise s.slave else s.slave }

/-- The serializer takes a byte. -/
def load (s : State P) (b : U8) : State P :=
  { (if s.selected then { s with line := true } else s.raiseLine) with
    tdr := none, shifter := some b }

/-- A byte `r` has been shifted in for the byte `b`. -/
def finish (s : State P) (b r : U8) : State P :=
  { s with
    shifter := none, rdr := r, rdrf := true
    slave := if s.line then P.receive s.slave b else s.slave }

/-- After a software reset. -/
def reset (s : State P) : State P :=
  { s.raiseLine with
    enabled := false, mr := 0, csr := fun _ => 0, tdr := none, shifter := none, rdrf := false
    waited := 0 }

end State

/-- A unit that is enabled shifts. What it does in another configuration is left open. -/
inductive Shifts (P : Slave) (s : State P) : State P → Prop
  | load {b : U8} (henabled : s.enabled = true) (htdr : s.tdr = some b)
      (hshifter : s.shifter = none) : Shifts P s (s.load b)
  | finish {b r : U8} (henabled : s.enabled = true) (hshifter : s.shifter = some b)
      (hr : s.line = true → P.sends s.slave r) : Shifts P s (s.finish b r)
  | slave {u : P.State} (h : P.move s.slave u) : Shifts P s { s with slave := u }
  | undefined {t : State P} (henabled : s.enabled = true) (h : ¬ s.Configured) : Shifts P s t

/-- A write to the control register. -/
def ControlWritten (s : State P) (value : U32) (t : State P) : Prop :=
  if value = crSwrst then t = s.reset
  else if value = crSpien then t = { s with enabled := true }
  else if value = crLastxfer then s.idle = true → t = s.raiseLine
  else True

/-- The status register: its three bits, and no more than `latency` of its reads find a
transmission unfinished. -/
structure StatusRead (latency : Nat) (s : State P) (sr : U32) (t : State P) : Prop where
  rdrf : sr.getLsbD 0 = s.rdrf
  tdre : sr.getLsbD 1 = s.tdr.isNone
  txempty : sr.getLsbD 9 = s.idle
  late : s.enabled = true → s.Configured → s.waited < latency ∨ s.idle = true
  next : t = { s with waited := s.waited + 1 }

def State.Answers (latency : Nat) (s : State P) : (o : RegisterOp) → Registers.Res o → State P → Prop
  | .writeCr value, _, t => ControlWritten s value t
  | .readMr, v, t => v = s.mr ∧ t = s
  | .writeMr value, _, t => t = { s with mr := value }
  | .readSr, sr, t => StatusRead latency s sr t
  | .readRdr, v, t => v.setWidth 8 = s.rdr ∧ t = { s with rdrf := false }
  | .writeTdr value, _, t => t = { s with tdr := some (value.setWidth 8), waited := 0 }
  | .readCsr channel, v, t => v = s.csr channel ∧ t = s
  | .writeCsr channel value, _, t => t = { s with csr := Function.update s.csr channel value }

/-- The SPI with a slave at its lowest line. -/
abbrev spiUnit (P : Slave) (latency : Nat) : Machine Registers where
  State := State P
  move := Shifts P
  answer := State.Answers latency

/-! ## The bus -/

/-- The slave, and whether anything has been sent to it since it was selected. -/
structure Bus (P : Slave) where
  slave : P.State
  line : Bool

namespace Bus

def send (q : Bus P) (bytes : List U8) : Bus P :=
  ⟨P.receiveAll q.slave bytes, q.line || !bytes.isEmpty⟩

def raise (q : Bus P) : Bus P := ⟨if q.line then P.raise q.slave else q.slave, false⟩

/-- A packet arrives as a whole, or the SPI is too slow and it breaks off. -/
def Wrote (latency : Nat) (q : Bus P) (data : List U8) (r : Status) (t : Bus P) : Prop :=
  r = success ∧ t = q.send data ∨
    spiTimeout < latency ∧ r = errTimeout ∧ ∃ n, n < data.length ∧ t = q.send (data.take n)

/-- What is stored are the slave's answers to the dummies of the packet itself; a packet that
breaks off may have cost the slave one dummy more. -/
def Read (latency : Nat) (q : Bus P) (len : Nat) (r : ReadResult len) (t : Bus P) : Prop :=
  r.code = success ∧ P.Reads q.slave r.data t.slave ∧ t.line = (q.line || len != 0) ∨
    spiTimeout < latency ∧ r.code = errTimeout ∧ r.data.length < len ∧
      ∃ u, P.Reads q.slave r.data u ∧
        (t = ⟨u, q.line || !r.data.isEmpty⟩ ∨ t = ⟨P.receive u dummy, true⟩)

def Answers (latency : Nat) (q : Bus P) : (o : SpiOp) → Flash.Spi.Res o → Bus P → Prop
  | .select, _, t => t = q
  | .deselect, _, t => t = q.raise
  | .writePacket data, r, t => q.Wrote latency data r t
  | .readPacket len, r, t => q.Read latency len r t

inductive Moves (P : Slave) (q : Bus P) : Bus P → Prop
  | slave {u : P.State} (h : P.move q.slave u) : Moves P q { q with slave := u }

end Bus

/-- Packets are exchanged on it. -/
abbrev spiBus (P : Slave) (latency : Nat) : Machine Flash.Spi where
  State := Bus P
  move := Bus.Moves P
  answer := Bus.Answers latency

/-- Packets only while the slave is selected. -/
def selection : Prog.Discipline Flash.Spi where
  Phase := Bool
  allows
    | false, o => o = .select
    | true, o => o ≠ .select
  answers _ _ := True
  next
    | _, .select => true
    | _, .deselect => false
    | φ, _ => φ

end SpiMaster
