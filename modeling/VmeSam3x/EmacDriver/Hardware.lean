import VmeSam3x.EmacDriver.Transmit

/-! # The transmitter

The hardware follows the descriptors by its queue pointer. A descriptor whose used bit is clear
is sent, and its used bit is set; at the first used one the hardware stops until the next start.
On a half-duplex link it may also give up. What it sends is on the wire from then on.
-/

namespace EmacDriver

open Interact Bytes

/-! ## Status words -/

def isUsed (v : U32) : Bool := v.getLsbD 31

def isWrap (v : U32) : Bool := v.getLsbD 30

def isLast (v : U32) : Bool := v.getLsbD 15

/-- The length of the buffer. -/
def lengthOf (v : U32) : Nat := (v &&& emacTxdLenMask).toNat

theorem and_emacTxdUsed (v : U32) : v &&& emacTxdUsed = 0 ↔ isUsed v = false := by
  have hused : emacTxdUsed = BitVec.twoPow 32 31 := by decide
  rw [hused, BitVec.and_twoPow, isUsed]
  cases v.getLsbD 31 <;> decide

theorem getLsbD_txdReady (ulSize : Nat) (wrap : Bool) {i : Nat} (hi : 11 ≤ i) :
    (txdReady ulSize wrap).getLsbD i = (i == 15 || wrap && i == 30) := by
  have hlen : (BitVec.ofNat 32 ulSize &&& emacTxdLenMask).getLsbD i = false := by
    have hmask : emacTxdLenMask.toNat < 2 ^ 11 := by decide
    have hbit : emacTxdLenMask.getLsbD i = false := by
      rw [BitVec.getLsbD]
      exact Nat.testBit_lt_two_pow (hmask.trans_le (Nat.pow_le_pow_right (by decide) hi))
    rw [BitVec.getLsbD_and, hbit, Bool.and_false]
  have hlast : emacTxdLast = BitVec.twoPow 32 15 := by decide
  have hwrap : emacTxdWrap = BitVec.twoPow 32 30 := by decide
  unfold txdReady
  cases wrap with
  | false =>
    simp only [Bool.false_eq_true, if_false, BitVec.getLsbD_or, hlen, hlast, BitVec.getLsbD_twoPow]
    grind
  | true =>
    simp only [if_true, BitVec.getLsbD_or, hlen, hlast, hwrap, BitVec.getLsbD_twoPow]
    grind

@[simp] theorem isUsed_txdReady (ulSize : Nat) (wrap : Bool) :
    isUsed (txdReady ulSize wrap) = false := by
  rw [isUsed, getLsbD_txdReady ulSize wrap (by decide)]
  cases wrap <;> rfl

@[simp] theorem isLast_txdReady (ulSize : Nat) (wrap : Bool) :
    isLast (txdReady ulSize wrap) = true := by
  rw [isLast, getLsbD_txdReady ulSize wrap (by decide)]
  rfl

@[simp] theorem isWrap_txdReady (ulSize : Nat) (wrap : Bool) :
    isWrap (txdReady ulSize wrap) = wrap := by
  rw [isWrap, getLsbD_txdReady ulSize wrap (by decide)]
  cases wrap <;> rfl

/-- The eleven bits hold every length that passes the check. -/
theorem lengthOf_txdReady {ulSize : Nat} (h : ulSize ≤ emacTxUnitsize) (wrap : Bool) :
    lengthOf (txdReady ulSize wrap) = ulSize := by
  have hlt : ulSize < 2 ^ 11 := lt_of_le_of_lt h (by decide)
  have hmask : emacTxdLenMask.toNat = 2 ^ 11 - 1 := by decide
  have hand : txdReady ulSize wrap &&& emacTxdLenMask = BitVec.ofNat 32 ulSize := by
    apply BitVec.eq_of_getLsbD_eq
    intro i hi
    rw [BitVec.getLsbD_and]
    have hbit : emacTxdLenMask.getLsbD i = decide (i < 11) := by
      rw [BitVec.getLsbD, hmask, Nat.testBit_two_pow_sub_one]
    rw [hbit]
    by_cases hlow : i < 11
    · have h15 : emacTxdLast.getLsbD i = false := by interval_cases i <;> rfl
      have h30 : emacTxdWrap.getLsbD i = false := by interval_cases i <;> rfl
      unfold txdReady
      cases wrap <;>
        simp only [if_true, if_false, Bool.false_eq_true, BitVec.getLsbD_or, BitVec.getLsbD_and,
          hbit, h15, h30, hlow, decide_true, Bool.and_true, Bool.or_false]
    · have hzero : (BitVec.ofNat 32 ulSize).getLsbD i = false := by
        rw [BitVec.getLsbD_ofNat, Nat.testBit_lt_two_pow
          (hlt.trans_le (Nat.pow_le_pow_right (by decide) (by omega))), Bool.and_false]
      rw [hzero, decide_eq_false hlow, Bool.and_false]
  rw [lengthOf, hand, BitVec.toNat_ofNat, Nat.mod_eq_of_lt (hlt.trans (by decide))]

/-! ## State -/

structure State where
  usTxHead : Nat
  usTxTail : Nat
  addr : Nat → Nat
  status : Nat → U32
  callbacks : Nat → Option Callback
  mem : Nat → U8
  rxCb : Option Callback
  wakeupCb : Option Callback
  threshold : U8
  /-- Transmission is enabled. -/
  enabled : Bool
  /-- A transmission has been started and no used descriptor was met since. -/
  going : Bool
  /-- The descriptor that the queue pointer shows. -/
  queue : Nat
  /-- The retry limit has been exceeded. -/
  retryLimit : Bool
  /-- The frames that were sent. -/
  wire : List (List U8)
  /-- The calls of transmit callbacks. -/
  txCalls : List (Callback × U32)
  /-- The number of calls of the wake-up callback. -/
  wakeups : Nat

def State.bytesAt (s : State) (a len : Nat) : List U8 := (List.range len).map fun k => s.mem (a + k)

/-- The buffer of a descriptor, as long as its status says. -/
def State.frameAt (s : State) (i : Nat) : List U8 := s.bytesAt (s.addr i) (lengthOf (s.status i))

@[simp] theorem State.length_bytesAt (s : State) (a len : Nat) : (s.bytesAt a len).length = len := by
  rw [bytesAt, List.length_map, List.length_range]

theorem State.bytesAt_congr {s t : State} (h : t.mem = s.mem) (a len : Nat) :
    t.bytesAt a len = s.bytesAt a len := by
  rw [bytesAt, h, bytesAt]

/-- The descriptor behind the one the queue pointer shows. -/
def State.following (s : State) : Nat :=
  if isWrap (s.status s.queue) then 0 else s.queue + 1

/-- What the hardware does on its own. The status word it writes back may carry error bits. -/
inductive Transmits (halfDuplex : Bool) : State → State → Prop
  | send {s : State} {v : U32} (hon : s.enabled = true) (hgoing : s.going = true)
      (hready : isUsed (s.status s.queue) = false) (hlast : isLast (s.status s.queue) = true)
      (hused : isUsed v = true) (hwrap : isWrap v = isWrap (s.status s.queue)) :
      Transmits halfDuplex s
        { s with
          wire := s.wire ++ [s.frameAt s.queue]
          status := Function.update s.status s.queue v
          queue := s.following }
  | stop {s : State} (hgoing : s.going = true) (hused : isUsed (s.status s.queue) = true) :
      Transmits halfDuplex s { s with going := false }
  | giveUp {s : State} (hduplex : halfDuplex = true) (hgoing : s.going = true) :
      Transmits halfDuplex s { s with going := false, retryLimit := true }

/-- The answers. The status registers hold anything, but the retry limit shows when it has been
exceeded, and then only. -/
def State.Answers (s : State) : (o : TxOp) → Tx.Res o → State → Prop
  | .usTxHead, r, t => r = s.usTxHead ∧ t = s
  | .setUsTxHead v, _, t => t = { s with usTxHead := v }
  | .usTxTail, r, t => r = s.usTxTail ∧ t = s
  | .setUsTxTail v, _, t => t = { s with usTxTail := v }
  | .txAddr i, r, t => r = s.addr i ∧ t = s
  | .setTxAddr i a, _, t => t = { s with addr := Function.update s.addr i a }
  | .txStatus i, r, t => r = s.status i ∧ t = s
  | .setTxStatus i v, _, t => t = { s with status := Function.update s.status i v }
  | .txCallback i, r, t => r = s.callbacks i ∧ t = s
  | .setTxCallback i cb, _, t => t = { s with callbacks := Function.update s.callbacks i cb }
  | .store a b, _, t => t = { s with mem := Function.update s.mem a b }
  | .startTransmission, _, t => t = { s with going := true }
  | .enableTransmit enable, _, t => t = { s with enabled := enable, going := s.going && enable }
  | .setTxQueue, _, t => t = { s with queue := 0 }
  | .getInterruptStatus, _, t => t = s
  | .getInterruptMask, _, t => t = s
  | .getRxStatus, _, t => t = s
  | .clearRxStatus _, _, t => t = s
  | .getTxStatus, r, t => (r &&& emacTsrRles ≠ 0 ↔ s.retryLimit = true) ∧ t = s
  | .clearTxStatus v, _, t =>
    t = { s with retryLimit := s.retryLimit && v &&& emacTsrRles == 0 }
  | .rxCb, r, t => r = s.rxCb ∧ t = s
  | .wakeupCb, r, t => r = s.wakeupCb ∧ t = s
  | .setWakeupCb cb, _, t => t = { s with wakeupCb := cb }
  | .wakeupThreshold, r, t => r = s.threshold ∧ t = s
  | .setWakeupThreshold v, _, t => t = { s with threshold := v }
  | .callRx _ _, _, t => t = s
  | .callTx cb flag, _, t => t = { s with txCalls := s.txCalls ++ [(cb, flag)] }
  | .callWakeup _, _, t => t = { s with wakeups := s.wakeups + 1 }
  | .notifyStateClear, _, t => t = s
  | .notifyWait _, _, t => t = s

abbrev emac (halfDuplex : Bool) : Machine Tx where
  State := State
  move := Transmits halfDuplex
  answer := State.Answers

/-- A transmitter that sends nothing for now, with a completion in its interrupt status. -/
def State.respond : Handler Tx State
  | .usTxHead, s => (s.usTxHead, s)
  | .setUsTxHead v, s => ((), { s with usTxHead := v })
  | .usTxTail, s => (s.usTxTail, s)
  | .setUsTxTail v, s => ((), { s with usTxTail := v })
  | .txAddr i, s => (s.addr i, s)
  | .setTxAddr i a, s => ((), { s with addr := Function.update s.addr i a })
  | .txStatus i, s => (s.status i, s)
  | .setTxStatus i v, s => ((), { s with status := Function.update s.status i v })
  | .txCallback i, s => (s.callbacks i, s)
  | .setTxCallback i cb, s => ((), { s with callbacks := Function.update s.callbacks i cb })
  | .store a b, s => ((), { s with mem := Function.update s.mem a b })
  | .startTransmission, s => ((), { s with going := true })
  | .enableTransmit enable, s => ((), { s with enabled := enable, going := s.going && enable })
  | .setTxQueue, s => ((), { s with queue := 0 })
  | .getInterruptStatus, s => (emacIsrTcomp, s)
  | .getInterruptMask, s => (0#32, s)
  | .getRxStatus, s => (0#32, s)
  | .clearRxStatus _, s => ((), s)
  | .getTxStatus, s => (if s.retryLimit then emacTsrRles else 0#32, s)
  | .clearTxStatus v, s => ((), { s with retryLimit := s.retryLimit && v &&& emacTsrRles == 0 })
  | .rxCb, s => (s.rxCb, s)
  | .wakeupCb, s => (s.wakeupCb, s)
  | .setWakeupCb cb, s => ((), { s with wakeupCb := cb })
  | .wakeupThreshold, s => (s.threshold, s)
  | .setWakeupThreshold v, s => ((), { s with threshold := v })
  | .callRx _ _, s => ((), s)
  | .callTx cb flag, s => ((), { s with txCalls := s.txCalls ++ [(cb, flag)] })
  | .callWakeup _, s => ((), { s with wakeups := s.wakeups + 1 })
  | .notifyStateClear, s => (false, s)
  | .notifyWait _, s => (false, s)

theorem State.respond_answers (s : State) (o : TxOp) :
    s.Answers o (State.respond o s).1 (State.respond o s).2 := by
  cases o
  all_goals first | exact rfl | exact ⟨rfl, rfl⟩ | skip
  refine ⟨?_, rfl⟩
  change (if s.retryLimit then emacTsrRles else 0#32) &&& emacTsrRles ≠ 0 ↔ _
  cases s.retryLimit <;> decide

/-- The transmitter and the handler, as the task meets them; `enabled` says where the handler may
run. -/
abbrev emacWithHandler (dev : Device) (halfDuplex : Bool) (enabled : State → Prop) : Machine Tx :=
  (emac halfDuplex).interruptedBy enabled (emacHandler dev)

/-- The runs of that transmitter are runs of every one. -/
theorem runs_respond {E α : Type} (dev : Device) (halfDuplex : Bool) (enabled : State → Prop)
    (p : TxProg E α) (s : State) :
    (emacWithHandler dev halfDuplex enabled).Runs p s (Prog.run State.respond p s).1
      (Prog.run State.respond p s).2 :=
  Machine.Runs.of_handler (M := emacWithHandler dev halfDuplex enabled) (h := State.respond)
    (fun s o => ⟨s, .refl, State.respond_answers s o⟩) p s

theorem runs_respond_alone {E α : Type} (halfDuplex : Bool) (p : TxProg E α) (s : State) :
    (emac halfDuplex).Runs p s (Prog.run State.respond p s).1 (Prog.run State.respond p s).2 :=
  Machine.Runs.of_handler (M := emac halfDuplex) (h := State.respond)
    (fun s o => ⟨s, .refl, State.respond_answers s o⟩) p s

/-- The callbacks that were called, in order. -/
def State.calls (s : State) : List Callback := s.txCalls.map Prod.fst

end EmacDriver
