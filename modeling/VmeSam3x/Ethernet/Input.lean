import VmeSam3x.Ethernet.Output

/-! # Receiving Ethernet frames

`low_level_input` (`ethernetif.c`) reads a frame into a buffer on the stack and copies it into a
chain from the pbuf pool; while there is no frame it waits for a notification of the receive
callback, and looks again after 100 ticks without one. `ethernetif_input` hands the packets to the
stack, one after the other.
-/

namespace Ethernet

open Interact Bytes

/-! ## Interface -/

/-- The counters of `lwip_stats.link` that are used. -/
inductive LinkStat where
  | recv
  | memerr
  | drop
deriving DecidableEq, Repr

/-- What the task asks of the system and of the stack. -/
inductive StackOp where
  /-- `xTaskNotifyStateClear`: whether a notification was pending. -/
  | notifyStateClear
  /-- `xTaskNotifyWait`: whether a notification came in time. -/
  | notifyWait (ticks : Nat)
  | taskDelay (ticks : Nat)
  /-- `pbuf_alloc` of a raw chain from the pool: the lengths of its parts. -/
  | pbufAlloc (length : Nat)
  | linkStatsInc (stat : LinkStat)
  /-- `netif->input`: whether it returns `ERR_OK`. -/
  | netifInput (p : List (List U8))
  | pbufFree (p : List (List U8))
deriving DecidableEq

abbrev Stack : Sig where
  Op := StackOp
  Res
    | .notifyStateClear => Bool
    | .notifyWait _ => Bool
    | .taskDelay _ => Unit
    | .pbufAlloc _ => Option (List Nat)
    | .linkStatsInc _ => Unit
    | .netifInput _ => Bool
    | .pbufFree _ => Unit

/-- What a call of `emac_dev_read` leaves: its result, the size, and the frame buffer. -/
structure Reading where
  rc : EmacStatus
  pRcvSize : Nat
  pFrame : List U8
deriving DecidableEq, Repr

inductive InputOp where
  /-- `emac_dev_read`, with the contents of the buffer and of the size before the call. -/
  | devRead (pFrame : List U8) (ulFrameSize pRcvSize : Nat)
  /-- `emac_dev_set_rx_callback`, with `ethernetif_rx_cb` or with `NULL`. -/
  | setRxCallback (registered : Bool)
  | stack (o : StackOp)
deriving DecidableEq

abbrev Input : Sig where
  Op := InputOp
  Res
    | .devRead _ _ _ => Reading
    | .setRxCallback _ => Unit
    | .stack o => Stack.Res o

abbrev InputProg := Prog Input Fault

def emacDevRead (pFrame : List U8) (ulFrameSize pRcvSize : Nat) : InputProg Reading :=
  Prog.perform (S := Input) (.devRead pFrame ulFrameSize pRcvSize)

def stack (o : StackOp) : InputProg (Stack.Res o) := Prog.perform (S := Input) (.stack o)

/-! ## `low_level_input` -/

/-- The loop over the chain, from `bufptr` on. -/
def copyToChain (bufptr : List U8) : List Nat → Except Fault (List (List U8))
  | [] => .ok []
  | len :: next => do
    if len ≤ bufptr.length then
      return bufptr.take len :: (← copyToChain (bufptr.drop len) next)
    else .error .outOfBounds

/-- From the end of the reading on. -/
def deliver (r : Reading) : InputProg (Option (List (List U8))) := do
  if r.rc ≠ .ok then
    return none
  else
    match ← stack (.pbufAlloc (r.pRcvSize % 2 ^ 16)) with
    | some lens =>
      let p ← .ofExcept (copyToChain r.pFrame lens)
      stack (.linkStatsInc .recv)
      return some p
    | none =>
      stack (.linkStatsInc .memerr)
      stack (.linkStatsInc .drop)
      return none

/-- `PBUF_POOL_BUFSIZE`. -/
def pbufPoolBufsize : Nat := 500

/-- The lengths of a chain from the pool. -/
def poolLengths (length : Nat) : List Nat :=
  if length ≤ pbufPoolBufsize then [length]
  else pbufPoolBufsize :: poolLengths (length - pbufPoolBufsize)
termination_by length
decreasing_by
  rename_i h
  have hpos : 0 < pbufPoolBufsize := by decide
  omega

end Ethernet
