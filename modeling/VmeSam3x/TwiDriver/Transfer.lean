import VmeSam3x.TwiDriver.Prompt

/-! # Transfers of a packet

The calls on any hardware that behaves like the one of the DMA channels. A call is split into the
chunks and the steps for single bytes; what they do is known when they are successful, so the
packet has passed when all of them are.
-/

namespace TwiDriver

open Interact Machine Bytes Fpga

variable {M : Machine Registers} {rounds : Nat} {pTwi : Instance} {s t : M.State}
  {x : Except Fault TwiStatus}

/-! ## The DMA phase -/

theorem dmaPhase_succ {dir : Dir} {cnt offset : Nat} (h : 1 < cnt) :
    dmaPhase rounds pTwi dir cnt offset =
      dmaChunk rounds pTwi dir (dir.transferSize cnt) offset >>= fun rc =>
        if rc ≠ .success then return (rc, cnt, offset)
        else dmaPhase rounds pTwi dir (cnt - dir.transferSize cnt)
          (offset + dir.transferSize cnt) := by
  rw [dmaPhase, dif_pos h]

/-- The size of a chunk fits into the counter and into what is left of the packet. -/
theorem transferSize_le (dir : Dir) (cnt : Nat) :
    dir.transferSize cnt ≤ 0xffff ∧ dir.transferSize cnt ≤ cnt := by
  unfold Dir.transferSize
  split
  · omega
  · cases dir with
    | rx =>
      change cnt - 1 ≤ _ ∧ cnt - 1 ≤ _
      omega
    | tx =>
      change cnt ≤ _ ∧ cnt ≤ _
      omega

/-- A read keeps a byte back. -/
theorem transferSize_rx {cnt : Nat} (h : 0 < cnt) : Dir.rx.transferSize cnt < cnt := by
  unfold Dir.transferSize
  split
  · omega
  · change cnt - 1 < cnt
    omega

variable {dir : Dir} {n : Nat} {buffer : Nat → U8} {head w : List Wire} {bytes : List U8}

/-- The DMA phase moves everything but what is left for single bytes: one byte of a read, at
most one of a write. -/
theorem runs_chunks (φ : Simulation M twiPdc) {cnt k : Nat}
    {cont : TwiStatus × Nat × Nat → DriverProg TwiStatus} (hcnt : k + cnt = n)
    (hpos : dir = .rx → 0 < cnt)
    (hparts : PartsComplete M rounds pTwi (dmaPhase rounds pTwi dir cnt k >>= cont) s)
    (hs : Between dir n buffer head k (φ.view s))
    (hr : M.Runs (dmaPhase rounds pTwi dir cnt k >>= cont) s x t) :
    ∃ left s', left ≤ 1 ∧ (dir = .rx → left = 1) ∧ left ≤ n ∧
      Between dir n buffer head (n - left) (φ.view s') ∧
      PartsComplete M rounds pTwi (cont (.success, left, n - left)) s' ∧
      M.Runs (cont (.success, left, n - left)) s' x t := by
  -- the sum of the bytes moved and the bytes left stays at the length of the packet
  induction cnt using Nat.strong_induction_on generalizing k s with
  | _ cnt ih =>
    by_cases h : 1 < cnt
    · rw [dmaPhase_succ h, bind_assoc] at hparts hr
      rcases hparts.next (.chunk _ _ _) hr with ⟨s₁, h₁, hparts₁, hr₁⟩
      have hsize := dir.transferSize_pos h
      rcases transferSize_le dir cnt with ⟨hcap, hle⟩
      have hs₁ := runs_dmaChunk hsize hcap (by omega) hs (φ.runs h₁)
      rw [if_neg (by decide)] at hparts₁ hr₁
      refine ih (cnt - dir.transferSize cnt) (by omega) (by omega) ?_ hparts₁ hs₁ hr₁
      -- a chunk of a read never takes the last byte
      intro hrx
      subst hrx
      have := transferSize_rx (hpos rfl)
      omega
    · rw [dmaPhase, dif_neg h] at hparts hr
      have hk : k = n - cnt := by omega
      subst hk
      refine ⟨cnt, s, by omega, ?_, by omega, hs, hparts, hr⟩
      intro hrx
      have := hpos hrx
      omega

/-! ## Reads -/

/-- The bus side of a read: all bytes but the last, the stop condition, the last byte. The stop
condition of a single byte goes with the start condition. -/
def readWire (bytes : List U8) (last : U8) : List Wire :=
  if bytes = [] then [.request (crStart ||| crStop), .take last]
  else .request crStart :: bytes.map .take ++ [.request crStop, .take last]

/-- The received bytes are in the buffer, and nothing else has been stored. -/
def ReadIn (packet : Packet) (t : Twi) : Prop :=
  ∃ bytes last, bytes.length + 1 = packet.length.toNat ∧ t.wire = readWire bytes last ∧
    t.stored = positions (bytes ++ [last]) ∧ t.memory = patched packet.buffer (bytes ++ [last]) ∧
    (t.overrun = false → bytes ++ [last] <+: t.arrived)

/-- The driver returns, whatever the hardware answers. -/
abbrev Returns {α : Type} (p : DriverProg α) : Prop :=
  Prog.Post (fun _ => True) (fun _ => False) p

theorem wait_returns (flags : U32) (ticks : Nat) :
    Returns (twiWaitForInterrupt pTwi flags ticks) := by
  unfold twiWaitForInterrupt
  split
  · trivial
  · intro _ _ woken
    cases woken with
    | true => trivial
    | false => exact fun _ _ => trivial

theorem completeRead_returns (timeout : Nat) : Returns (completeRead pTwi timeout) := by
  have hpass : ∀ again : DriverProg TwiStatus, Returns again →
      Returns (twiWaitForInterrupt pTwi srTxcomp 1 >>= fun rc =>
        if rc = .errorTimeout then .ret .errorTimeoutComp
        else if rc ≠ .success then .ret rc else again) := by
    intro again hagain
    refine Prog.Post.bind (wait_returns _ _) ?_
    intro rc _
    split
    · trivial
    · split
      · trivial
      · exact hagain
  induction timeout with
  | zero =>
    intro status
    change Returns (if Has status srTxcomp then _ else _)
    split
    · trivial
    · exact hpass (.ret .errorTimeoutComp) trivial
  | succ timeout ih =>
    intro status
    change Returns (if Has status srTxcomp then _ else _)
    split
    · trivial
    · exact hpass _ ih

theorem completeRead_passive (timeout : Nat) : (completeRead pTwi timeout).Uses Passive :=
  (completeRead_waits pTwi timeout).mono fun _ h => h.passive

/-- The last byte, and the wait for completion. -/
theorem runs_lastByte (φ : Simulation M twiPdc)
    (hparts : PartsComplete M rounds pTwi (receiveBytes pTwi 1 bytes.length >>= fun rc =>
      if rc ≠ .success then return rc else completeRead pTwi twiTimeout) s)
    (hs : Receiving n buffer w bytes bytes (φ.view s))
    (hr : M.Runs (receiveBytes pTwi 1 bytes.length >>= fun rc =>
      if rc ≠ .success then return rc else completeRead pTwi twiTimeout) s x t) :
    (∃ rc, x = .ok rc) ∧ ∃ b, Receiving n buffer (w ++ [.take b]) (bytes ++ [b]) (bytes ++ [b])
      (φ.view t) := by
  rw [receiveBytes, bind_assoc] at hparts hr
  rcases hparts.next (.receive _) hr with ⟨s₁, h₁, -, hr₁⟩
  rcases runs_receiveByte hs (φ.runs h₁) with ⟨b, hs₁⟩
  rw [if_neg (by decide)] at hr₁
  change M.Runs (completeRead pTwi twiTimeout) s₁ x t at hr₁
  constructor
  · rcases hr₁.of_post (completeRead_returns _) with ⟨rc, hrc, -⟩
    exact ⟨rc, hrc⟩
  · refine ⟨b, ?_⟩
    exact runs_passive (fun _ _ hstep hi => (hi.step hstep).1) (completeRead_passive _)
      (φ.runs hr₁) hs₁

theorem runs_setCr {value : U32} {r : Unit} {u v : Twi}
    (hs : Receiving n buffer w bytes bytes u)
    (h : twiPdc.Runs (perform (.setCr value)) u (.ok r) v) :
    Receiving n buffer (w ++ [.request value]) bytes bytes v := by
  rcases runs_call.mp h with ⟨u₁, _, u₂, hm, rfl, h₁⟩
  rcases runs_ret.mp h₁ with ⟨-, rfl⟩
  have hs₁ := hs.moves hm
  have hrec := hs₁.received
  refine ⟨⟨hs₁.parked.off, hs₁.parked.fits⟩, ?_, hrec.arrived, hrec.stored, hrec.memory, hrec.thr⟩
  change u₁.wire ++ [.request value] = _
  rw [hrec.wire]

/-- What a read has received before a chunk, and what the first chunk starts from. -/
theorem between_rx {k : Nat} {u : Twi} : Between .rx n buffer head k u ↔
    ∃ bytes : List U8, bytes.length = k ∧
      Receiving n buffer (head ++ bytes.map .take) bytes bytes u := by
  constructor
  · intro h
    rcases h.progress.moved with ⟨bytes, hlen, hrec⟩
    exact ⟨bytes, hlen, h.parked, hrec⟩
  · intro ⟨bytes, hlen, hs⟩
    exact ⟨⟨hs.parked.off _, hs.parked.fits, bytes, hlen, hs.received⟩, hs.parked.off _⟩

/-- The stop condition of a read, when it has not been sent yet. -/
theorem runs_stopUnlessSent (φ : Simulation M twiPdc) {k : Unit → DriverProg TwiStatus}
    (hn : bytes.length + 1 = n)
    (hparts : PartsComplete M rounds pTwi (stopUnlessSent n >>= k) s)
    (hs : Receiving n buffer
      ([.request (if n = 1 then crStart ||| crStop else crStart)] ++ bytes.map .take) bytes bytes
      (φ.view s))
    (hr : M.Runs (stopUnlessSent n >>= k) s x t) :
    ∃ s' w, (∀ b, w ++ [.take b] = readWire bytes b) ∧
      Receiving n buffer w bytes bytes (φ.view s') ∧ PartsComplete M rounds pTwi (k ()) s' ∧
      M.Runs (k ()) s' x t := by
  unfold stopUnlessSent at hparts hr
  by_cases h1 : n = 1
  · -- both conditions went out together
    rw [if_neg (not_not.mpr h1)] at hparts hr
    have hnil : bytes = [] := List.length_eq_zero_iff.mp (by omega)
    rw [if_pos h1, hnil] at hs
    subst hnil
    exact ⟨s, _, fun b => rfl, hs, hparts, hr⟩
  · rw [if_pos h1] at hparts hr
    rw [if_neg h1] at hs
    have hne : bytes ≠ [] := by
      intro hnil
      rw [hnil] at hn
      exact h1 hn.symm
    rcases hparts.perform hr with ⟨_, s₁, hop, hparts₁, hr₁⟩
    refine ⟨s₁, _, ?_, runs_setCr hs (φ.runs hop), hparts₁, hr₁⟩
    intro b
    rw [readWire, if_neg hne]
    simp

/-- A read from the start condition on. -/
theorem runs_readPhases (φ : Simulation M twiPdc) (hpos : 0 < n)
    (hparts : PartsComplete M rounds pTwi (readPhases rounds pTwi n) s)
    (hs : Receiving n buffer [.request (if n = 1 then crStart ||| crStop else crStart)] [] []
      (φ.view s))
    (hr : M.Runs (readPhases rounds pTwi n) s x t) :
    (∃ rc, x = .ok rc) ∧ ∃ bytes b, bytes.length + 1 = n ∧
      Receiving n buffer (readWire bytes b) (bytes ++ [b]) (bytes ++ [b]) (φ.view t) := by
  unfold readPhases at hparts hr
  have hstart : Between .rx n buffer [.request (if n = 1 then crStart ||| crStop else crStart)] 0
      (φ.view s) := between_rx.mpr ⟨[], rfl, hs⟩
  rcases runs_chunks φ (Nat.zero_add n) (fun _ => hpos) hparts hstart hr with
    ⟨left, s₁, -, hleft, -, hs₁, hparts₁, hr₁⟩
  rw [hleft rfl] at hs₁ hparts₁ hr₁
  rcases between_rx.mp hs₁ with ⟨bytes, hlen, hs₁⟩
  have hn : bytes.length + 1 = n := by omega
  rw [if_neg (not_not.mpr rfl), ← hlen] at hparts₁ hr₁
  rcases runs_stopUnlessSent φ hn hparts₁ hs₁ hr₁ with ⟨s₂, w, hw, hs₂, hparts₂, hr₂⟩
  rcases runs_lastByte φ hparts₂ hs₂ hr₂ with ⟨hret, b, ht⟩
  rw [hw b] at ht
  exact ⟨hret, bytes, b, hn, ht⟩

/-! ## Writes -/

/-- The bytes of the packet, in order, then the stop condition; nothing has been stored. -/
def Written (packet : Packet) (t : Twi) : Prop :=
  t.wire = puts packet.buffer packet.length.toNat ++ [.request crStop] ∧ t.stored = []

theorem completeWrite_returns (timeout : Nat) : Returns (completeWrite timeout) := by
  induction timeout with
  | zero =>
    intro status
    change Returns (if Has status srTxcomp then _ else _)
    split <;> trivial
  | succ timeout ih =>
    intro status
    change Returns (if Has status srTxcomp then _ else _)
    split
    · trivial
    · exact ih

theorem completeWrite_passive (timeout : Nat) : (completeWrite timeout).Uses Passive :=
  (completeWrite_waits timeout).mono fun _ h => h.passive

theorem between_tx {k : Nat} {u : Twi} :
    Between .tx n buffer head k u ↔ Sending n buffer (head ++ puts buffer k) u := by
  constructor
  · intro h
    exact ⟨h.parked, h.progress.moved⟩
  · intro h
    exact ⟨⟨h.parked.off _, h.parked.fits, h.sent⟩, h.parked.off _⟩

/-- The byte that the DMA phase may have left. -/
theorem runs_sendBytes (φ : Simulation M twiPdc) {left : Nat}
    {k : TwiStatus → DriverProg TwiStatus} (hleft : left ≤ 1) (hle : left ≤ n)
    (hparts : PartsComplete M rounds pTwi
      (sendBytes rounds pTwi buffer left (n - left) >>= k) s)
    (hs : Sending n buffer (puts buffer (n - left)) (φ.view s))
    (hr : M.Runs (sendBytes rounds pTwi buffer left (n - left) >>= k) s x t) :
    ∃ s', Sending n buffer (puts buffer n) (φ.view s') ∧
      PartsComplete M rounds pTwi (k .success) s' ∧ M.Runs (k .success) s' x t := by
  cases left with
  | zero => exact ⟨s, hs, hparts, hr⟩
  | succ left =>
    have hzero : left = 0 := by omega
    subst hzero
    rw [sendBytes, bind_assoc] at hparts hr
    rcases hparts.next (.send _) hr with ⟨s₁, h₁, hparts₁, hr₁⟩
    rw [if_neg (by decide)] at hparts₁ hr₁
    have hs₁ := runs_sendByte hs (φ.runs h₁)
    rw [← puts_succ, Nat.sub_add_cancel hle] at hs₁
    exact ⟨s₁, hs₁, hparts₁, hr₁⟩

/-- After the stop condition of a write. -/
structure Stopped (n : Nat) (w : List Wire) (u : Twi) : Prop where
  parked : Parked n u
  thr : u.thr = none
  wire : u.wire = w
  stored : u.stored = []

theorem Stopped.step {u v : Twi} (h : Stopped n w u) (hstep : Step u v) : Stopped n w v := by
  rcases h.parked.step hstep with ⟨hp, ⟨b, rfl⟩ | ⟨b, hthr, rfl⟩⟩
  · exact ⟨hp, h.thr, h.wire, h.stored⟩
  · rw [h.thr] at hthr
    cases hthr

theorem runs_stop {r : Unit} {u v : Twi} (hs : Sending n buffer w u) (hthr : u.thr = none)
    (h : twiPdc.Runs (perform (.setCr crStop)) u (.ok r) v) :
    Stopped n (w ++ [.request crStop]) v := by
  rcases runs_call.mp h with ⟨u₁, _, u₂, hm, rfl, h₁⟩
  rcases runs_ret.mp h₁ with ⟨-, rfl⟩
  rcases hs.moves_ready hthr hm with ⟨hs₁, hthr₁⟩
  refine ⟨⟨hs₁.parked.off, hs₁.parked.fits⟩, hthr₁, ?_, hs₁.sent.stored⟩
  change u₁.wire ++ [.request crStop] = _
  rw [hs₁.sent.wire_of_none hthr₁]

/-- A write after the set-up. -/
theorem runs_writePhases (φ : Simulation M twiPdc)
    (hparts : PartsComplete M rounds pTwi (writePhases rounds pTwi buffer n) s)
    (hs : Sending n buffer [] (φ.view s))
    (hr : M.Runs (writePhases rounds pTwi buffer n) s x t) :
    (∃ rc, x = .ok rc) ∧ Stopped n (puts buffer n ++ [.request crStop]) (φ.view t) := by
  unfold writePhases at hparts hr
  have hstart : Between .tx n buffer [] 0 (φ.view s) := between_tx.mpr hs
  rcases runs_chunks φ (Nat.zero_add n) (by nofun) hparts hstart hr with
    ⟨left, s₁, hleft, -, hle, hs₁, hparts₁, hr₁⟩
  rw [if_neg (not_not.mpr rfl)] at hparts₁ hr₁
  rcases runs_sendBytes φ hleft hle hparts₁ (between_tx.mp hs₁) hr₁ with ⟨s₂, hs₂, hparts₂, hr₂⟩
  rw [if_neg (by decide)] at hparts₂ hr₂
  rcases hparts₂.next .ready hr₂ with ⟨s₃, h₃, hparts₃, hr₃⟩
  rcases runs_awaitReady hs₂ (φ.runs h₃) with ⟨hs₃, hthr⟩
  rw [if_neg (by decide)] at hparts₃ hr₃
  rcases hparts₃.perform hr₃ with ⟨_, s₄, hop, -, hr₄⟩
  have hs₄ := runs_stop hs₃ hthr (φ.runs hop)
  constructor
  · rcases hr₄.of_post (completeWrite_returns _) with ⟨rc, hrc, -⟩
    exact ⟨rc, hrc⟩
  · exact runs_passive (fun _ _ hstep hi => hi.step hstep) (completeWrite_passive _) (φ.runs hr₄)
      hs₄

/-! ## The buffer of a write -/

/-- The DMA phase keeps the count and the offset together. -/
theorem dmaPhase_keeps (dir : Dir) (cnt offset : Nat) :
    Prog.Post (fun r => r.2.1 + r.2.2 = cnt + offset) (fun _ => True)
      (dmaPhase rounds pTwi dir cnt offset) := by
  induction cnt using Nat.strong_induction_on generalizing offset with
  | _ cnt ih =>
    by_cases h : 1 < cnt
    · rw [dmaPhase_succ h]
      refine (Prog.Post.true _).bind fun rc _ => ?_
      split
      · rfl
      · have hsize := dir.transferSize_pos h
        rcases transferSize_le dir cnt with ⟨-, hle⟩
        refine (ih (cnt - dir.transferSize cnt) (by omega) _).mono ?_ (fun _ hf => hf)
        intro r hr
        omega
    · rw [dmaPhase, dif_neg h]
      rfl

theorem sendBytes_congr {buffer' : Nat → U8} {cnt offset : Nat}
    (h : ∀ i < cnt + offset, buffer' i = buffer i) :
    sendBytes rounds pTwi buffer' cnt offset = sendBytes rounds pTwi buffer cnt offset := by
  induction cnt generalizing offset with
  | zero => rfl
  | succ cnt ih =>
    have hrest : sendBytes rounds pTwi buffer' cnt (offset + 1) =
        sendBytes rounds pTwi buffer cnt (offset + 1) := by
      apply ih
      intro i hi
      exact h i (by omega)
    rw [sendBytes, sendBytes, h offset (by omega), hrest]

/-- The single bytes of a write are looked up within the packet. -/
theorem writePhases_congr {buffer' : Nat → U8} (h : ∀ i < n, buffer' i = buffer i) :
    writePhases rounds pTwi buffer' n = writePhases rounds pTwi buffer n := by
  unfold writePhases
  refine (dmaPhase_keeps .tx n 0).bind_congr ?_
  intro r hr
  have hsend : sendBytes rounds pTwi buffer' r.2.1 r.2.2 =
      sendBytes rounds pTwi buffer r.2.1 r.2.2 := by
    apply sendBytes_congr
    intro i hi
    exact h i (by omega)
  unfold finishWrite
  rw [hsend]

/-! ## Calls -/

/-- Before a call: no transfer under way, and nothing logged. -/
structure Idle (buffer : Nat → U8) (t : Twi) : Prop where
  off : ∀ d, t.enabled d = false
  rhr : t.rhr = none
  thr : t.thr = none
  memory : t.memory = buffer
  arrived : t.arrived = []
  wire : t.wire = []
  stored : t.stored = []
  programmed : t.programmed = []

theorem Idle.parked {u : Twi} (h : Idle buffer u) : Parked n u := by
  refine ⟨h.off, ?_⟩
  intro r hr
  rw [h.programmed] at hr
  cases hr

theorem Idle.receiving {u : Twi} (h : Idle buffer u) : Receiving n buffer [] [] [] u := by
  refine ⟨h.parked, h.wire, ?_, h.stored, h.memory, h.thr⟩
  intro _
  rw [h.arrived, h.rhr]
  rfl

theorem Idle.sending {u : Twi} (h : Idle buffer u) : Sending n buffer [] u := by
  refine ⟨h.parked, ?_, h.stored, h.memory⟩
  rw [h.wire, h.thr]
  rfl

/-- The packet has passed: its counts are within the buffer, and its bytes are where they
belong. -/
structure Passed (dir : Dir) (packet : Packet) (t : Twi) : Prop where
  fits : Fits packet.length.toNat t
  exact :
    match dir with
    | .rx => ReadIn packet t
    | .tx => Written packet t

/-- A register that has nothing to do with the bytes is written. -/
theorem PartsComplete.passive (φ : Simulation M twiPdc) {I : Twi → Prop}
    (hstep : ∀ t t', Step t t' → I t → I t') {o : DriverOp}
    {k : Registers.Res o → DriverProg TwiStatus} (ho : Passive o)
    (h : PartsComplete M rounds pTwi (TwiDriver.perform o >>= k) s) (hs : I (φ.view s))
    (hr : M.Runs (TwiDriver.perform o >>= k) s x t) :
    ∃ r s', I (φ.view s') ∧ PartsComplete M rounds pTwi (k r) s' ∧ M.Runs (k r) s' x t := by
  rcases h.perform hr with ⟨r, s', hop, hparts, hr'⟩
  have huses : (TwiDriver.perform o).Uses Passive := ⟨ho, fun _ => trivial⟩
  exact ⟨r, s', runs_passive hstep huses (φ.runs hop) hs, hparts, hr'⟩

/-- The mode and the internal address. -/
theorem runs_setup (φ : Simulation M twiPdc) {I : Twi → Prop}
    (hstep : ∀ t t', Step t t' → I t → I t') {mode iadr : U32} {p : DriverProg TwiStatus}
    (hparts : PartsComplete M rounds pTwi (do
      perform (.setMmr 0)
      perform (.setMmr mode)
      perform (.setIadr 0)
      perform (.setIadr iadr)
      p) s) (hs : I (φ.view s))
    (hr : M.Runs (do
      perform (.setMmr 0)
      perform (.setMmr mode)
      perform (.setIadr 0)
      perform (.setIadr iadr)
      p) s x t) :
    ∃ s', I (φ.view s') ∧ PartsComplete M rounds pTwi p s' ∧ M.Runs p s' x t := by
  rcases hparts.passive φ hstep (by trivial) hs hr with ⟨_, s₁, hs₁, hparts₁, hr₁⟩
  rcases hparts₁.passive φ hstep (by trivial) hs₁ hr₁ with ⟨_, s₂, hs₂, hparts₂, hr₂⟩
  rcases hparts₂.passive φ hstep (by trivial) hs₂ hr₂ with ⟨_, s₃, hs₃, hparts₃, hr₃⟩
  rcases hparts₃.passive φ hstep (by trivial) hs₃ hr₃ with ⟨_, s₄, hs₄, hparts₄, hr₄⟩
  exact ⟨s₄, hs₄, hparts₄, hr₄⟩

theorem runs_twiMasterRead (φ : Simulation M twiPdc) {packet : Packet}
    (hlen : packet.length.toNat ≠ 0) (hidle : Idle packet.buffer (φ.view s))
    (hparts : PartsComplete M rounds pTwi (twiMasterRead rounds pTwi packet) s)
    (hr : M.Runs (twiMasterRead rounds pTwi packet) s x t) :
    (∃ rc, x = .ok rc) ∧ Passed .rx packet (φ.view t) := by
  unfold twiMasterRead at hparts hr
  rw [if_neg hlen] at hparts hr
  have hstart : Receiving packet.length.toNat packet.buffer [] [] [] (φ.view s) := hidle.receiving
  rcases runs_setup φ (fun _ _ hstep hi => (Receiving.step hi hstep).1) hparts hstart hr with
    ⟨s₁, hs₁, hparts₁, hr₁⟩
  rcases hparts₁.perform hr₁ with ⟨_, s₂, hop, hparts₂, hr₂⟩
  have hs₂ := runs_setCr hs₁ (φ.runs hop)
  rcases runs_readPhases φ (Nat.pos_of_ne_zero hlen) hparts₂ hs₂ hr₂ with
    ⟨hret, bytes, b, hn, ht⟩
  have hrec := ht.received
  refine ⟨hret, ht.parked.fits, bytes, b, hn, hrec.wire, hrec.stored, hrec.memory, ?_⟩
  intro hover
  rw [hrec.arrived hover]
  exact List.prefix_append _ _

theorem runs_twiMasterWrite (φ : Simulation M twiPdc) {packet : Packet}
    (hlen : packet.length.toNat ≠ 0) (hidle : Idle packet.buffer (φ.view s))
    (hparts : PartsComplete M rounds pTwi (twiMasterWrite rounds pTwi packet) s)
    (hr : M.Runs (twiMasterWrite rounds pTwi packet) s x t) :
    (∃ rc, x = .ok rc) ∧ Passed .tx packet (φ.view t) := by
  unfold twiMasterWrite at hparts hr
  rw [if_neg hlen] at hparts hr
  have hstart : Sending packet.length.toNat packet.buffer [] (φ.view s) := hidle.sending
  rcases runs_setup φ (fun _ _ hstep hi => (Sending.step hi hstep).1) hparts hstart hr with
    ⟨s₁, hs₁, hparts₁, hr₁⟩
  rcases runs_writePhases φ hparts₁ hs₁ hr₁ with ⟨hret, ht⟩
  exact ⟨hret, ht.parked.fits, ht.wire, ht.stored⟩

/-- **A packet passes exactly once**, in both directions, whatever its length: on hardware on
which the chunks and the steps for single bytes are successful, a call returns, and when it does
the packet has passed. Nothing outside the packet is looked at. -/
theorem transfer_exact (φ : Simulation M twiPdc) (hM : M.Responsive) (dir : Dir) (rounds : Nat)
    (pTwi : Instance) (packet : Packet) (s : M.State) (hlen : packet.length ≠ 0)
    (hidle : Idle packet.buffer (φ.view s))
    (hparts : PartsComplete M rounds pTwi (transfer dir rounds pTwi packet) s) :
    (∃ x t, M.Runs (transfer dir rounds pTwi packet) s x t) ∧
      (∀ x t, M.Runs (transfer dir rounds pTwi packet) s x t →
        (∃ rc, x = .ok rc) ∧ Passed dir packet (φ.view t)) ∧
      ∀ buffer, (∀ i < packet.length.toNat, buffer i = packet.buffer i) →
        transfer dir rounds pTwi { packet with buffer } = transfer dir rounds pTwi packet := by
  have hne : packet.length.toNat ≠ 0 := by
    intro hzero
    exact hlen (BitVec.eq_of_toNat_eq hzero)
  refine ⟨hM.exists_runs _ s, ?_, ?_⟩
  · intro x t hr
    cases dir with
    | rx => exact runs_twiMasterRead φ hne hidle hparts hr
    | tx => exact runs_twiMasterWrite φ hne hidle hparts hr
  · intro buffer hbuffer
    cases dir with
    | rx => rfl
    | tx =>
      simp only [transfer, twiMasterWrite, writePhases_congr hbuffer]
      rfl

/-- Three bytes: two by DMA, and the last one of a read by itself. -/
def threeBytes : Packet := ⟨fun _ => 0, 0, fun i => BitVec.ofNat 8 (0x31 + i), 3, 0x30⟩

def idleTwi (buffer : Nat → U8) : Twi :=
  ⟨fun _ => 0, fun _ => 0, fun _ => false, none, none, buffer, [], false, [], [], []⟩

theorem transfer_exact_threeBytes :
    (∃ x t, promptTwi.Runs (transfer .rx 1 .twi0 threeBytes) (idleTwi threeBytes.buffer) x t) ∧
      (∀ x t, promptTwi.Runs (transfer .rx 1 .twi0 threeBytes) (idleTwi threeBytes.buffer) x t →
        (∃ rc, x = .ok rc) ∧ Passed .rx threeBytes t) ∧
      ∀ buffer, (∀ i < threeBytes.length.toNat, buffer i = threeBytes.buffer i) →
        transfer .rx 1 .twi0 { threeBytes with buffer } = transfer .rx 1 .twi0 threeBytes := by
  have hidle : Idle threeBytes.buffer (promptView.view (idleTwi threeBytes.buffer)) :=
    ⟨fun _ => rfl, rfl, rfl, rfl, rfl, rfl, rfl, rfl⟩
  exact transfer_exact promptView promptTwi_responsive .rx 1 .twi0 threeBytes
    (idleTwi threeBytes.buffer) (by decide) hidle (promptTwi_complete _ _)

end TwiDriver
