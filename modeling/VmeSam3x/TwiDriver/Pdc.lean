import VmeSam3x.TwiDriver.Driver
import VmeSam3x.Lib.Machine

/-! # The DMA channels

Each channel of the PDC has a pointer and a counter of 16 bits. An enabled channel works on its
own, between any two operations of the driver: it takes bytes from the receive holding register
to memory, or loads them from memory into the transmit holding register.

Memory is the part from the packet's buffer on. The log fields record what a transfer is judged
by, in the order in which it happens.
-/

namespace TwiDriver

open Interact Machine Bytes

/-! ## The hardware -/

/-- What happens on the bus side. -/
inductive Wire where
  /-- A write of `TWI_CR`. -/
  | request (value : U32)
  /-- A byte leaves the transmit holding register. -/
  | put (b : U8)
  /-- A byte is taken from the receive holding register. -/
  | take (b : U8)
deriving DecidableEq

/-- The TWI, its channels and the memory. -/
structure Twi where
  pointer : Dir → Nat
  counter : Dir → Nat
  enabled : Dir → Bool
  /-- The holding registers, when there is a byte in them. -/
  rhr : Option U8
  thr : Option U8
  memory : Nat → U8
  /-- The bytes that have come in. -/
  arrived : List U8
  /-- A byte has come in before the last one was taken. -/
  overrun : Bool
  wire : List Wire
  /-- The stores. -/
  stored : List (Nat × U8)
  /-- The counts, each with the pointer it was programmed for. -/
  programmed : List (Nat × Nat)

def Twi.arrive (t : Twi) (b : U8) : Twi :=
  { t with rhr := some b, arrived := t.arrived ++ [b], overrun := t.overrun || t.rhr.isSome }

def Twi.shift (t : Twi) (b : U8) : Twi := { t with thr := none, wire := t.wire ++ [.put b] }

def Twi.take (t : Twi) (b : U8) : Twi := { t with rhr := none, wire := t.wire ++ [.take b] }

def Twi.store (t : Twi) (pos : Nat) (b : U8) : Twi :=
  { t with memory := Function.update t.memory pos b, stored := t.stored ++ [(pos, b)] }

/-- A channel has moved a byte. -/
def Twi.advance (t : Twi) (dir : Dir) : Twi :=
  { t with
    pointer := Function.update t.pointer dir (t.pointer dir + 1)
    counter := Function.update t.counter dir (t.counter dir - 1) }

/-- A channel that can move a byte. -/
def Twi.Active (t : Twi) (dir : Dir) : Prop := t.enabled dir = true ∧ 0 < t.counter dir

/-- The transfer to memory. -/
def Twi.receive (t : Twi) (b : U8) : Twi := ((t.take b).store (t.pointer .rx) b).advance .rx

/-- The transfer from memory. -/
def Twi.load (t : Twi) : Twi := { t.advance .tx with thr := some (t.memory (t.pointer .tx)) }

/-- What the hardware does on its own. -/
inductive Step : Twi → Twi → Prop
  | arrive (t : Twi) (b : U8) : Step t (t.arrive b)
  | shift (t : Twi) (b : U8) (hthr : t.thr = some b) : Step t (t.shift b)
  | receive (t : Twi) (b : U8) (hon : t.Active .rx) (hrhr : t.rhr = some b) : Step t (t.receive b)
  | load (t : Twi) (hon : t.Active .tx) (hthr : t.thr = none) : Step t t.load

/-- A status word whose flags are true. A missing acknowledge sets `TWI_SR_TXRDY` as well. -/
structure Twi.Shows (t : Twi) (status : U32) : Prop where
  buffer : ∀ dir : Dir, Has status dir.buffer → t.counter dir = 0
  rxrdy : Has status srRxrdy → t.rhr.isSome
  txrdy : ¬ Has status srNack → Has status srTxrdy → t.thr = none

/-- What an operation finds and does. -/
def Twi.answer (t : Twi) : (o : DriverOp) → Registers.Res o → Twi → Prop
  | .setCr value, _, t' => t' = { t with wire := t.wire ++ [.request value] }
  | .readSr _, status, t' => t' = t ∧ t.Shows status
  | .readRhr, b, t' =>
    (∀ c, t.rhr = some c → b = c ∧ t' = t.take c) ∧ (t.rhr = none → t' = t)
  | .setThr value, _, t' => t' = { t with thr := some value }
  | .setPointer dir offset, _, t' =>
    t' = { t with pointer := Function.update t.pointer dir offset }
  | .setCounter dir value, _, t' =>
    t' = { t with
      counter := Function.update t.counter dir (value % 0x10000)
      programmed := t.programmed ++ [(t.pointer dir, value)] }
  | .readCounter dir, value, t' => t' = t ∧ value = t.counter dir
  | .setPtcr value, _, t' =>
    t' = { t with
      enabled := fun dir =>
        if Has value dir.disable then false
        else if Has value dir.enable then true else t.enabled dir }
  | .store offset value, _, t' => t' = t.store offset value
  | _, _, t' => t' = t

abbrev twiPdc : Machine Registers where
  State := Twi
  move := Step
  answer := Twi.answer

/-! ## Invariants -/

/-- Operations that change nothing. -/
def Passive : DriverOp → Prop
  | .setMmr _ => True
  | .setIadr _ => True
  | .readSr _ => True
  | .readCounter _ => True
  | .setIer _ => True
  | .setIdr _ => True
  | .notifyStateClear => True
  | .notifyWait _ => True
  | _ => False

variable {s t t' : Twi} {α : Type} {p : DriverProg α} {x : Except Fault α} {pTwi : Instance}
  {dir : Dir} {n k : Nat} {buffer : Nat → U8} {head w : List Wire} {taken kept : List U8}

theorem Twi.answer.passive {o : DriverOp} {r : Registers.Res o} (h : t.answer o r t')
    (ho : Passive o) : t' = t := by
  cases o with
  | readSr reader => exact h.1
  | readCounter dir => exact h.1
  | setMmr value => exact h
  | setIadr value => exact h
  | setIer flags => exact h
  | setIdr flags => exact h
  | notifyStateClear => exact h
  | notifyWait ticks => exact h
  | _ => exact ho.elim

/-- What the hardware keeps, a passive program keeps. -/
theorem runs_passive {I : Twi → Prop} (hstep : ∀ t t', Step t t' → I t → I t')
    (huses : p.Uses Passive) (h : twiPdc.Runs p s x t) (hs : I s) : I t := by
  refine h.invariant hstep ?_ huses hs
  intro t₁ o r t₂ ho ha h₁
  rw [Twi.answer.passive ha ho]
  exact h₁

theorem Waits.passive {o : DriverOp} (h : Waits o) : Passive o := by
  cases o <;> trivial

theorem wait_passive (flags : U32) (ticks : Nat) :
    (twiWaitForInterrupt pTwi flags ticks).Uses Passive :=
  (wait_waits pTwi flags ticks).mono fun _ h => h.passive

/-- The stores of bytes at consecutive positions. -/
def positions (bytes : List U8) : List (Nat × U8) := bytes.zipIdx.map Prod.swap

theorem positions_append (bytes : List U8) (b : U8) :
    positions (bytes ++ [b]) = positions bytes ++ [(bytes.length, b)] := by
  unfold positions
  rw [List.zipIdx_append, List.map_append, Nat.zero_add]
  rfl

/-- The memory with bytes at its beginning. -/
def patched (buffer : Nat → U8) (bytes : List U8) (i : Nat) : U8 := bytes.getD i (buffer i)

theorem patched_append (buffer : Nat → U8) (bytes : List U8) (b : U8) :
    Function.update (patched buffer bytes) bytes.length b = patched buffer (bytes ++ [b]) := by
  funext i
  unfold patched
  rw [Function.update_apply, List.getD_eq_getElem?_getD, List.getD_eq_getElem?_getD,
    List.getElem?_append]
  split
  · rename_i hi
    rw [hi, if_neg (Nat.lt_irrefl _), Nat.sub_self]
    rfl
  · rename_i hi
    split
    · rfl
    · rename_i hlen
      rw [List.getElem?_eq_none (Nat.le_of_not_lt hlen), List.getElem?_eq_none]
      change 1 ≤ i - bytes.length
      omega

/-- The bytes `taken` have been taken in, the bytes `kept` are in memory. -/
structure Received (buffer : Nat → U8) (w : List Wire) (taken kept : List U8) (t : Twi) :
    Prop where
  wire : t.wire = w
  arrived : t.overrun = false → t.arrived = taken ++ t.rhr.toList
  stored : t.stored = positions kept
  memory : t.memory = patched buffer kept
  thr : t.thr = none

/-- The events `w` have taken place, but for the byte in the holding register. -/
structure Sent (buffer : Nat → U8) (w : List Wire) (t : Twi) : Prop where
  wire : t.wire ++ t.thr.toList.map .put = w
  stored : t.stored = []
  memory : t.memory = buffer

/-- The bytes a write puts on the bus. -/
def puts (buffer : Nat → U8) (k : Nat) : List Wire := (List.range k).map fun i => .put (buffer i)

theorem puts_succ (buffer : Nat → U8) (k : Nat) :
    puts buffer (k + 1) = puts buffer k ++ [.put (buffer k)] := by
  unfold puts
  rw [List.range_succ, List.map_append]
  rfl

/-- `k` bytes have been moved. -/
def Moved (buffer : Nat → U8) (head : List Wire) (k : Nat) (t : Twi) : Dir → Prop
  | .rx => ∃ bytes : List U8, bytes.length = k ∧
      Received buffer (head ++ bytes.map .take) bytes bytes t
  | .tx => Sent buffer (head ++ puts buffer k) t

/-- Counts for the channels, within a buffer of `n` bytes. -/
def Fits (n : Nat) (t : Twi) : Prop :=
  ∀ r ∈ t.programmed, 1 ≤ r.2 ∧ r.2 ≤ 0xffff ∧ r.1 + r.2 ≤ n

def Dir.other : Dir → Dir
  | .rx => .tx
  | .tx => .rx

/-- A channel has moved `k` bytes, and the other one is off. -/
structure Progress (dir : Dir) (n : Nat) (buffer : Nat → U8) (head : List Wire) (k : Nat)
    (t : Twi) : Prop where
  off : t.enabled dir.other = false
  fits : Fits n t
  moved : Moved buffer head k t dir

theorem Received.arrive (h : Received buffer w taken kept t) (b : U8) :
    Received buffer w taken kept (t.arrive b) := by
  refine ⟨h.wire, ?_, h.stored, h.memory, h.thr⟩
  intro hover
  have hflags : t.overrun = false ∧ t.rhr.isSome = false := Bool.or_eq_false_iff.mp hover
  have hnone : t.rhr = none := Option.isNone_iff_eq_none.mp (by simpa using hflags.2)
  have harrived := h.arrived hflags.1
  rw [hnone] at harrived
  change t.arrived ++ [b] = taken ++ [b]
  rw [harrived]
  simp

theorem Sent.shift {b : U8} (h : Sent buffer w t) (hthr : t.thr = some b) :
    Sent buffer w (t.shift b) := by
  have hwire := h.wire
  rw [hthr] at hwire
  refine ⟨?_, h.stored, h.memory⟩
  change (t.wire ++ [.put b]) ++ [] = w
  rw [List.append_nil]
  exact hwire

/-- With the holding register empty, everything is on the bus. -/
theorem Sent.wire_of_none (h : Sent buffer w t) (hthr : t.thr = none) : t.wire = w := by
  have hwire := h.wire
  rw [hthr] at hwire
  change t.wire ++ [] = w at hwire
  rw [List.append_nil] at hwire
  exact hwire

theorem Twi.advance_pointer (t : Twi) (dir : Dir) :
    (t.advance dir).pointer dir = t.pointer dir + 1 := Function.update_self _ _ _

theorem Twi.advance_counter (t : Twi) (dir : Dir) :
    (t.advance dir).counter dir = t.counter dir - 1 := Function.update_self _ _ _

/-- The channel takes the next byte to its place in memory. -/
theorem Received.receive {bytes : List U8} {b : U8}
    (h : Received buffer (head ++ bytes.map .take) bytes bytes t) (hrhr : t.rhr = some b)
    (hptr : t.pointer .rx = bytes.length) :
    Received buffer (head ++ (bytes ++ [b]).map .take) (bytes ++ [b]) (bytes ++ [b])
      (t.receive b) := by
  constructor
  · change t.wire ++ [.take b] = _
    rw [h.wire, List.map_append, List.append_assoc]
    rfl
  · intro hover
    have harrived := h.arrived hover
    rw [hrhr] at harrived
    change t.arrived = (bytes ++ [b]) ++ []
    rw [harrived]
    simp
  · change t.stored ++ [(t.pointer .rx, b)] = _
    rw [h.stored, hptr, positions_append]
  · change Function.update t.memory (t.pointer .rx) b = _
    rw [h.memory, hptr, patched_append]
  · exact h.thr

/-- The channel loads the next byte of the buffer. -/
theorem Sent.load (h : Sent buffer (head ++ puts buffer k) t) (hthr : t.thr = none)
    (hptr : t.pointer .tx = k) : Sent buffer (head ++ puts buffer (k + 1)) t.load := by
  constructor
  · change t.wire ++ [.put (t.memory (t.pointer .tx))] = _
    rw [h.wire_of_none hthr, hptr, h.memory, puts_succ, List.append_assoc]
  · exact h.stored
  · exact h.memory

/-- Only the channel of the transfer can move a byte. -/
theorem Progress.active (h : Progress dir n buffer head k t) {d : Dir} (hd : t.Active d) :
    d = dir := by
  by_contra hne
  have hother : d = dir.other := by
    cases d <;> cases dir <;> first | rfl | exact absurd rfl hne
  have hon := hd.1
  rw [hother, h.off] at hon
  cases hon

/-- What a step of the hardware does to a transfer: the channel moves its next byte, or
everything stays. -/
theorem Progress.step (h : Progress dir n buffer head k t) (hstep : Step t t')
    (hptr : t.Active dir → t.pointer dir = k) :
    (Progress dir n buffer head k t' ∧ t'.pointer = t.pointer ∧ t'.counter = t.counter ∧
        t'.enabled = t.enabled) ∨
      (t.Active dir ∧ Progress dir n buffer head (k + 1) t' ∧ t'.pointer dir = k + 1 ∧
        t'.counter dir + 1 = t.counter dir ∧ t'.enabled = t.enabled) := by
  have hmoved := h.moved
  cases hstep with
  | arrive b =>
    -- no concern of a write, and a read has not taken it yet
    refine .inl ⟨⟨h.off, h.fits, ?_⟩, rfl, rfl, rfl⟩
    cases dir with
    | rx =>
      rcases hmoved with ⟨bytes, hlen, hrec⟩
      exact ⟨bytes, hlen, hrec.arrive b⟩
    | tx => exact ⟨hmoved.wire, hmoved.stored, hmoved.memory⟩
  | shift b hthr =>
    -- the byte was counted when it was loaded
    refine .inl ⟨⟨h.off, h.fits, ?_⟩, rfl, rfl, rfl⟩
    cases dir with
    | rx =>
      rcases hmoved with ⟨bytes, hlen, hrec⟩
      rw [hrec.thr] at hthr
      cases hthr
    | tx => exact hmoved.shift hthr
  | receive b hon hrhr =>
    have hdir := h.active hon
    subst hdir
    rcases hmoved with ⟨bytes, hlen, hrec⟩
    have hnext := hrec.receive hrhr ((hptr hon).trans hlen.symm)
    have hcount : (t.receive b).counter .rx = t.counter .rx - 1 := Twi.advance_counter _ _
    refine .inr ⟨hon, ⟨h.off, h.fits, bytes ++ [b], ?_, hnext⟩, ?_, ?_, rfl⟩
    · rw [List.length_append, hlen]
      rfl
    · rw [← hptr hon]
      exact Twi.advance_pointer _ _
    · have := hon.2
      omega
  | load hon hthr =>
    have hdir := h.active hon
    subst hdir
    have hcount : t.load.counter .tx = t.counter .tx - 1 := t.advance_counter .tx
    refine .inr ⟨hon, ⟨h.off, h.fits, ?_⟩, ?_, ?_, rfl⟩
    · exact Sent.load hmoved hthr (hptr hon)
    · rw [← hptr hon]
      exact t.advance_pointer .tx
    · have := hon.2
      omega

end TwiDriver
