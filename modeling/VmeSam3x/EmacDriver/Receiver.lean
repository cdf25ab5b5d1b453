import VmeSam3x.EmacDriver.Receive

/-! # The receiver

The hardware follows the descriptors by its queue pointer. A frame is written piece by piece into
buffers whose ownership bit is clear; without such a buffer, or when a frame turns out to be bad,
the rest of it is dropped and the pieces stay behind.
-/

namespace EmacDriver

open Interact Bytes

/-! ## Descriptor words -/

def isOwned (v : U32) : Bool := v.getLsbD 0

def isRxWrap (v : U32) : Bool := v.getLsbD 1

/-- The address of the buffer. -/
def bufferOf (v : U32) : Nat := (v &&& emacRxdAddrMask).toNat

def isSof (v : U32) : Bool := v.getLsbD 14

def isEof (v : U32) : Bool := v.getLsbD 15

/-- The length of the frame. -/
def frameLength (v : U32) : Nat := (v &&& emacRxdLenMask).toNat

/-- The tests of the driver against a mask of one bit. -/
theorem and_twoPow_eq_self (v : U32) {i : Nat} (hi : i < 32) :
    v &&& BitVec.twoPow 32 i = BitVec.twoPow 32 i ↔ v.getLsbD i = true := by
  have hpos : 2 ^ i % 2 ^ 32 ≠ 0 := by
    rw [Nat.mod_eq_of_lt (Nat.pow_lt_pow_right (by decide) hi)]
    exact (Nat.two_pow_pos i).ne'
  have hne : ¬ 0#32 = BitVec.twoPow 32 i := by
    intro h
    have htoNat := congrArg BitVec.toNat h
    rw [BitVec.toNat_twoPow] at htoNat
    exact hpos htoNat.symm
  rw [BitVec.and_twoPow]
  cases v.getLsbD i with
  | false => simp [hne]
  | true => simp

theorem and_emacRxdOwnership (v : U32) :
    v &&& emacRxdOwnership = emacRxdOwnership ↔ isOwned v = true :=
  and_twoPow_eq_self v (i := 0) (by decide)

theorem and_emacRxdSof (v : U32) : v &&& emacRxdSof = emacRxdSof ↔ isSof v = true :=
  and_twoPow_eq_self v (i := 14) (by decide)

theorem and_emacRxdEof (v : U32) : v &&& emacRxdEof = emacRxdEof ↔ isEof v = true :=
  and_twoPow_eq_self v (i := 15) (by decide)

theorem getLsbD_emacRxdAddrMask {i : Nat} (hi : i < 32) :
    emacRxdAddrMask.getLsbD i = decide (2 ≤ i) := by
  interval_cases i <;> rfl

theorem getLsbD_emacRxdOwnership (i : Nat) : emacRxdOwnership.getLsbD i = (i == 0) := by
  have howned : emacRxdOwnership = BitVec.twoPow 32 0 := by decide
  rw [howned, BitVec.getLsbD_twoPow]
  cases i <;> simp

/-- Clearing and setting the ownership bit. -/
theorem getLsbD_clear (v : U32) {i : Nat} (hi : i < 32) :
    (v &&& ~~~emacRxdOwnership).getLsbD i = (v.getLsbD i && !(i == 0)) := by
  rw [BitVec.getLsbD_and, BitVec.getLsbD_not, getLsbD_emacRxdOwnership, decide_eq_true hi,
    Bool.true_and]

theorem getLsbD_set (v : U32) (i : Nat) :
    (v ||| emacRxdOwnership).getLsbD i = (v.getLsbD i || i == 0) := by
  rw [BitVec.getLsbD_or, getLsbD_emacRxdOwnership]

@[simp] theorem isOwned_clear (v : U32) : isOwned (v &&& ~~~emacRxdOwnership) = false := by
  rw [isOwned, getLsbD_clear v (by decide), beq_self_eq_true, Bool.not_true, Bool.and_false]

@[simp] theorem isOwned_set (v : U32) : isOwned (v ||| emacRxdOwnership) = true := by
  rw [isOwned, getLsbD_set, beq_self_eq_true, Bool.or_true]

@[simp] theorem isRxWrap_clear (v : U32) : isRxWrap (v &&& ~~~emacRxdOwnership) = isRxWrap v := by
  rw [isRxWrap, getLsbD_clear v (by decide)]
  exact Bool.and_true _

@[simp] theorem isRxWrap_set (v : U32) : isRxWrap (v ||| emacRxdOwnership) = isRxWrap v := by
  rw [isRxWrap, getLsbD_set]
  exact Bool.or_false _

/-- The low two bits are not part of the address. -/
theorem bufferOf_congr {v w : U32} (h : ∀ i, 2 ≤ i → v.getLsbD i = w.getLsbD i) :
    bufferOf v = bufferOf w := by
  unfold bufferOf
  congr 1
  apply BitVec.eq_of_getLsbD_eq
  intro i hi
  rw [BitVec.getLsbD_and, BitVec.getLsbD_and, getLsbD_emacRxdAddrMask hi]
  by_cases hlow : 2 ≤ i
  · rw [h i hlow]
  · simp [hlow]

@[simp] theorem bufferOf_clear (v : U32) : bufferOf (v &&& ~~~emacRxdOwnership) = bufferOf v := by
  apply bufferOf_congr
  intro i hi
  by_cases hlt : i < 32
  · rw [getLsbD_clear v hlt, beq_eq_false_iff_ne.mpr (by omega), Bool.not_false, Bool.and_true]
  · rw [BitVec.getLsbD_of_ge _ _ (by omega), BitVec.getLsbD_of_ge _ _ (by omega)]

@[simp] theorem bufferOf_set (v : U32) : bufferOf (v ||| emacRxdOwnership) = bufferOf v := by
  apply bufferOf_congr
  intro i hi
  rw [getLsbD_set, beq_eq_false_iff_ne.mpr (by omega), Bool.or_false]

/-! ## Pieces of frames -/

/-- A part of a frame, of the size of a buffer except at its end. -/
structure Piece where
  frame : List U8
  index : Nat

namespace Piece

def start (p : Piece) : Nat := p.index * emacRxUnitsize

def bytes (p : Piece) : List U8 := (p.frame.drop p.start).take emacRxUnitsize

def isFirst (p : Piece) : Bool := p.index == 0

def isLast (p : Piece) : Bool := decide (p.frame.length ≤ p.start + emacRxUnitsize)

def following (p : Piece) : Piece := ⟨p.frame, p.index + 1⟩

end Piece

/-- The longest frame of an Ethernet. -/
def maxFrame : Nat := 1518

/-! ## State -/

structure RxState where
  usRxIdx : Nat
  addr : Nat → U32
  status : Nat → U32
  mem : Nat → U8
  rxCb : Option Callback
  rcomp : Bool
  /-- Reception is enabled. -/
  enabled : Bool
  /-- The descriptor that the queue pointer shows. -/
  queue : Nat
  /-- The piece that comes next, of a frame that has begun. -/
  current : Option Piece
  /-- The pieces that were written. -/
  pieces : List Piece
  /-- The frames that were received to their ends. -/
  received : List (List U8)
  /-- The packets that the stack was given. -/
  inputs : List (List (List U8))
  stats : Ethernet.LinkStat → Nat

def RxState.bytesAt (s : RxState) (a len : Nat) : List U8 :=
  (List.range len).map fun k => s.mem (a + k)

/-- The descriptor behind the one the queue pointer shows. -/
def RxState.following (s : RxState) : Nat :=
  if isRxWrap (s.addr s.queue) then 0 else s.queue + 1

/-- The piece that may be written next. -/
def RxState.Next (s : RxState) (p : Piece) : Prop :=
  s.current = some p ∨
    s.current = none ∧ p.index = 0 ∧ 0 < p.frame.length ∧ p.frame.length ≤ maxFrame

/-- What the hardware does on its own. Behind the end of a piece its buffer may hold anything. -/
inductive Receives (lossy : Bool) : RxState → RxState → Prop
  | fill {s : RxState} {p : Piece} {v : U32} {mem : Nat → U8} (hon : s.enabled = true)
      (hnext : s.Next p) (hfree : isOwned (s.addr s.queue) = false)
      (hsof : isSof v = p.isFirst) (heof : isEof v = p.isLast)
      (hlength : p.isLast = true → frameLength v = p.frame.length)
      (hbytes : ∀ k b, p.bytes[k]? = some b → mem (bufferOf (s.addr s.queue) + k) = b)
      (hrest : ∀ a, a < bufferOf (s.addr s.queue) ∨
        bufferOf (s.addr s.queue) + emacRxUnitsize ≤ a → mem a = s.mem a) :
      Receives lossy s
        { s with
          mem
          status := Function.update s.status s.queue v
          addr := Function.update s.addr s.queue (s.addr s.queue ||| emacRxdOwnership)
          queue := s.following
          pieces := s.pieces ++ [p]
          received := s.received ++ if p.isLast then [p.frame] else []
          current := if p.isLast then none else some p.following }
  | abandon {s : RxState} {p : Piece} (hlossy : lossy = true) (hcurrent : s.current = some p) :
      Receives lossy s { s with current := none }

/-- The status word of a piece. -/
def statusWord (p : Piece) : U32 :=
  (if p.isFirst then emacRxdSof else 0) |||
    if p.isLast then emacRxdEof ||| BitVec.ofNat 32 p.frame.length else 0

/-- A piece in its buffer, with nothing behind its end. -/
def RxState.fill (s : RxState) (p : Piece) : RxState :=
  { s with
    mem := fun a =>
      if bufferOf (s.addr s.queue) ≤ a then (p.bytes[a - bufferOf (s.addr s.queue)]?).getD (s.mem a)
      else s.mem a
    status := Function.update s.status s.queue (statusWord p)
    addr := Function.update s.addr s.queue (s.addr s.queue ||| emacRxdOwnership)
    queue := s.following
    pieces := s.pieces ++ [p]
    received := s.received ++ if p.isLast then [p.frame] else []
    current := if p.isLast then none else some p.following }

theorem getLsbD_emacRxdSof (i : Nat) : emacRxdSof.getLsbD i = (i == 14) := by
  have hsof : emacRxdSof = BitVec.twoPow 32 14 := by decide
  rw [hsof, BitVec.getLsbD_twoPow]
  by_cases h : i = 14
  · rw [h]
    rfl
  · rw [beq_eq_false_iff_ne.mpr h, decide_eq_false (Ne.symm h), Bool.and_false]

theorem getLsbD_emacRxdEof (i : Nat) : emacRxdEof.getLsbD i = (i == 15) := by
  have heof : emacRxdEof = BitVec.twoPow 32 15 := by decide
  rw [heof, BitVec.getLsbD_twoPow]
  by_cases h : i = 15
  · rw [h]
    rfl
  · rw [beq_eq_false_iff_ne.mpr h, decide_eq_false (Ne.symm h), Bool.and_false]

/-- The flags are above the length. -/
theorem getLsbD_statusWord {p : Piece} (h : p.frame.length ≤ maxFrame) {i : Nat} (hi : 12 ≤ i) :
    (statusWord p).getLsbD i = (p.isFirst && i == 14 || p.isLast && i == 15) := by
  have hlt : p.frame.length < 2 ^ i :=
    (lt_of_le_of_lt h (by decide)).trans_le (Nat.pow_le_pow_right (by decide) hi)
  have hlen : (BitVec.ofNat 32 p.frame.length).getLsbD i = false := by
    rw [BitVec.getLsbD_ofNat, Nat.testBit_lt_two_pow hlt, Bool.and_false]
  have hzero : (0 : U32).getLsbD i = false := BitVec.getLsbD_zero
  rw [statusWord, BitVec.getLsbD_or]
  cases p.isFirst <;> cases p.isLast <;>
    simp only [if_true, if_false, Bool.false_eq_true, BitVec.getLsbD_or, getLsbD_emacRxdSof,
      getLsbD_emacRxdEof, hlen, hzero, Bool.true_and, Bool.false_and, Bool.or_false, Bool.false_or]

theorem statusWord_flags {p : Piece} (h : p.frame.length ≤ maxFrame) :
    isSof (statusWord p) = p.isFirst ∧ isEof (statusWord p) = p.isLast ∧
      (p.isLast = true → frameLength (statusWord p) = p.frame.length) := by
  refine ⟨?_, ?_, ?_⟩
  · rw [isSof, getLsbD_statusWord h (by decide)]
    cases p.isFirst <;> cases p.isLast <;> rfl
  · rw [isEof, getLsbD_statusWord h (by decide)]
    cases p.isFirst <;> cases p.isLast <;> rfl
  · intro hlast
    have hmask : statusWord p &&& emacRxdLenMask = BitVec.ofNat 32 p.frame.length := by
      have hlen : emacRxdLenMask.toNat = 2 ^ 12 - 1 := by decide
      apply BitVec.eq_of_getLsbD_eq
      intro i hi
      have hlow : emacRxdLenMask.getLsbD i = decide (i < 12) := by
        rw [BitVec.getLsbD, hlen, Nat.testBit_two_pow_sub_one]
      rw [BitVec.getLsbD_and, hlow, statusWord, hlast, if_pos rfl]
      by_cases hi' : i < 12
      · have hsof : emacRxdSof.getLsbD i = false := by
          rw [getLsbD_emacRxdSof, beq_eq_false_iff_ne.mpr (by omega)]
        have heof : emacRxdEof.getLsbD i = false := by
          rw [getLsbD_emacRxdEof, beq_eq_false_iff_ne.mpr (by omega)]
        have hzero : (0 : U32).getLsbD i = false := BitVec.getLsbD_zero
        rw [decide_eq_true hi', Bool.and_true, BitVec.getLsbD_or, BitVec.getLsbD_or, heof,
          Bool.false_or]
        cases p.isFirst <;>
          simp only [if_true, if_false, Bool.false_eq_true, hsof, hzero, Bool.false_or]
      · have hhigh : (BitVec.ofNat 32 p.frame.length).getLsbD i = false := by
          have hlt : p.frame.length < 2 ^ i :=
            (lt_of_le_of_lt h (by decide)).trans_le
              (Nat.pow_le_pow_right (by decide) (show 12 ≤ i by omega))
          rw [BitVec.getLsbD_ofNat, Nat.testBit_lt_two_pow hlt, Bool.and_false]
        rw [decide_eq_false hi', Bool.and_false, hhigh]
    rw [frameLength, hmask, BitVec.toNat_ofNat,
      Nat.mod_eq_of_lt (lt_of_le_of_lt h (by decide))]

/-- The hardware may write it. -/
theorem receives_fill {lossy : Bool} {s : RxState} {p : Piece} (hon : s.enabled = true)
    (hnext : s.Next p) (hfree : isOwned (s.addr s.queue) = false)
    (hmax : p.frame.length ≤ maxFrame) : Receives lossy s (s.fill p) := by
  rcases statusWord_flags hmax with ⟨hsof, heof, hlength⟩
  refine .fill hon hnext hfree hsof heof hlength ?_ ?_
  · intro k b hb
    rw [if_pos (Nat.le_add_right _ k), Nat.add_sub_cancel_left, hb, Option.getD_some]
  · intro a ha
    split
    · rename_i hle
      have hnone : p.bytes[a - bufferOf (s.addr s.queue)]? = none := by
        have hlen : p.bytes.length ≤ emacRxUnitsize := List.length_take_le _ _
        exact List.getElem?_eq_none (by omega)
      rw [hnone, Option.getD_none]
    · rfl

/-- The answers. -/
def RxState.Answers (s : RxState) : (o : RxOp) → Rx.Res o → RxState → Prop
  | .usRxIdx, r, t => r = s.usRxIdx ∧ t = s
  | .setUsRxIdx v, _, t => t = { s with usRxIdx := v }
  | .rxAddr i, r, t => r = s.addr i ∧ t = s
  | .setRxAddr i v, _, t => t = { s with addr := Function.update s.addr i v }
  | .rxStatus i, r, t => r = s.status i ∧ t = s
  | .setRxStatus i v, _, t => t = { s with status := Function.update s.status i v }
  | .load a, r, t => r = s.mem a ∧ t = s
  | .enableReceive enable, _, t => t = { s with enabled := enable }
  | .setRxQueue, _, t => t = { s with queue := 0 }
  | .setRxCb cb, _, t => t = { s with rxCb := cb }
  | .rcompInterrupt enable, _, t => t = { s with rcomp := enable }
  | .stack .notifyStateClear, _, t => t = s
  | .stack (.notifyWait _), _, t => t = s
  | .stack (.taskDelay _), _, t => t = s
  | .stack (.pbufAlloc length), r, t => (r = none ∨ r = some (Ethernet.poolLengths length)) ∧ t = s
  | .stack (.linkStatsInc stat), _, t =>
    t = { s with stats := Function.update s.stats stat (s.stats stat + 1) }
  | .stack (.netifInput p), _, t => t = { s with inputs := s.inputs ++ [p] }
  | .stack (.pbufFree _), _, t => t = s

abbrev emacRx (lossy : Bool) : Machine Rx where
  State := RxState
  move := Receives lossy
  answer := RxState.Answers

/-- A receiver with nothing coming in, and a stack that takes all packets. -/
def RxState.respond : Handler Rx RxState
  | .usRxIdx, s => (s.usRxIdx, s)
  | .setUsRxIdx v, s => ((), { s with usRxIdx := v })
  | .rxAddr i, s => (s.addr i, s)
  | .setRxAddr i v, s => ((), { s with addr := Function.update s.addr i v })
  | .rxStatus i, s => (s.status i, s)
  | .setRxStatus i v, s => ((), { s with status := Function.update s.status i v })
  | .load a, s => (s.mem a, s)
  | .enableReceive enable, s => ((), { s with enabled := enable })
  | .setRxQueue, s => ((), { s with queue := 0 })
  | .setRxCb cb, s => ((), { s with rxCb := cb })
  | .rcompInterrupt enable, s => ((), { s with rcomp := enable })
  | .stack .notifyStateClear, s => (false, s)
  | .stack (.notifyWait _), s => (false, s)
  | .stack (.taskDelay _), s => ((), s)
  | .stack (.pbufAlloc length), s => (some (Ethernet.poolLengths length), s)
  | .stack (.linkStatsInc stat), s =>
    ((), { s with stats := Function.update s.stats stat (s.stats stat + 1) })
  | .stack (.netifInput p), s => (true, { s with inputs := s.inputs ++ [p] })
  | .stack (.pbufFree _), s => ((), s)

theorem RxState.respond_answers (s : RxState) (o : RxOp) :
    s.Answers o (RxState.respond o s).1 (RxState.respond o s).2 := by
  cases o with
  | stack o =>
    cases o
    all_goals first | exact rfl | exact ⟨.inr rfl, rfl⟩
  | _ => first | exact rfl | exact ⟨rfl, rfl⟩

theorem runs_rx_respond {E α : Type} (lossy : Bool) (p : RxProg E α) (s : RxState) :
    (emacRx lossy).Runs p s (Prog.run RxState.respond p s).1 (Prog.run RxState.respond p s).2 :=
  Machine.Runs.of_handler (M := emacRx lossy) (h := RxState.respond)
    (fun s o => ⟨s, .refl, RxState.respond_answers s o⟩) p s

end EmacDriver
