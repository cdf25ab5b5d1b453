import VmeSam3x.Fpga.Device
import VmeSam3x.Lib.Tasks

/-! # Register accesses from several tasks

The UDP callback, the telnet task and the serial monitor call the access functions
of `fpga_twi.c` without a lock. Each access is two or three bus transactions
around one shared address register and one shared latch, and other tasks run
between them. This module says which interleavings are harmless.
-/

namespace Fpga

open Interact Bytes

/-! ## The accesses as procedures -/

/-- The calls of a client task, with the initial contents of the locals and output
parameters involved. -/
inductive FpgaCall where
  | readByte (dataFull address : U32) (data : U8)
  | readShort (dataFull address : U32) (data : U16)
  | readLong (address data : U32)
  | writeByte (address : U32) (data : U8)
  | writeShort (address : U32) (data : U16)
  | writeLong (address data : U32)

/-- What a call returns: the status and, for a read, the value. -/
inductive Outcome where
  | byte (status : TwiStatus) (data : U8)
  | short (status : TwiStatus) (data : U16)
  | long (status : TwiStatus) (data : U32)
  | written (status : TwiStatus)
deriving DecidableEq

namespace FpgaCall

def body : FpgaCall → Prog Twi Empty Outcome
  | readByte df a x => do
    let r ← fpgaReadByte df a x
    return .byte r.1 r.2
  | readShort df a x => do
    let r ← fpgaReadShort df a x
    return .short r.1 r.2
  | readLong a x => do
    let r ← fpgaReadLong a x
    return .long r.1 r.2
  | writeByte a x => .written <$> fpgaWriteByte a x
  | writeShort a x => .written <$> fpgaWriteShort a x
  | writeLong a x => .written <$> fpgaWriteLong a x

def address : FpgaCall → U32
  | readByte _ a _ => a
  | readShort _ a _ => a
  | readLong a _ => a
  | writeByte a _ => a
  | writeShort a _ => a
  | writeLong a _ => a

/-- The bytes of the register that is accessed. -/
def size : FpgaCall → Nat
  | readByte _ _ _ => 1
  | readShort _ _ _ => 2
  | readLong _ _ => 4
  | writeByte _ _ => 1
  | writeShort _ _ => 2
  | writeLong _ _ => 4

def Reads : FpgaCall → Prop
  | readByte _ _ _ => True
  | readShort _ _ _ => True
  | readLong _ _ => True
  | _ => False

/-- The bytes a call stores. -/
def stored : FpgaCall → List U8
  | writeByte _ x => [x]
  | writeShort _ x => [byteAt 1 x, byteAt 0 x]
  | writeLong _ x => [byteAt 3 x, byteAt 2 x, byteAt 1 x, byteAt 0 x]
  | _ => []

/-- The message that follows the address: the latch command or the data. -/
def message : FpgaCall → List U8
  | readByte _ _ _ => [0x04]
  | readShort _ _ _ => [0x14]
  | readLong _ _ => [0x34]
  | writeByte _ x => [0x03, x]
  | writeShort _ x => [0x13, byteAt 1 x, byteAt 0 x]
  | writeLong _ x => [0x33, byteAt 3 x, byteAt 2 x, byteAt 1 x, byteAt 0 x]

/-- The result of a call that finds `x` in the latch. -/
def outcome : FpgaCall → U32 → Outcome
  | readByte _ _ _, x => .byte .success (byteAt 3 x)
  | readShort _ _ _, x => .short .success (((x >>> 16) &&& 0xffff).setWidth 16)
  | readLong _ _, x => .long .success x
  | _, _ => .written .success

/-- The result the caller is entitled to: for a read, the content of the register at
the address it passed. -/
def content : FpgaCall → Memory 32 → Outcome
  | readByte _ a _, m => .byte .success (read8 m a)
  | readShort _ a _, m => .short .success (read16 m a)
  | readLong a _, m => .long .success (read32 m a)
  | _, _ => .written .success

end FpgaCall

/-- The client tasks around one FPGA. -/
abbrev clients (u : Unspecified) : System where
  S := Twi
  E := Empty
  Out := Outcome
  Call := FpgaCall
  Shared := Device
  body := FpgaCall.body
  step d ev d' := Device.handler u ev.op d = (ev.res, d')

/-- The FPGA after the steps of a run. -/
def deviceAfter {u : Unspecified} {T : Type} (d₀ : Device) (tr : List ((clients u).Label T)) : Device :=
  tr.foldl (fun d l => match l with
    | .exec _ _ ev => (Device.handler u ev.op d).2
    | _ => d) d₀

/-! ## The phases of an access -/

inductive Phase where
  | called
  | addressed
  | latched
  | done (out : Outcome)

/-- An access sets the address, then stores, or latches and fetches. -/
inductive Trans (c : FpgaCall) : Phase → Event Twi → Phase → Prop
  | address : Trans c .called (wrote (addressMessage c.address) .success) .addressed
  | latch (h : c.Reads) : Trans c .addressed (wrote c.message .success) .latched
  | store (h : ¬ c.Reads) : Trans c .addressed (wrote c.message .success) (.done (.written .success))
  | fetch (bytes : Fin 5 → U8) :
      Trans c .latched (got .success bytes) (.done (c.outcome (dataOf bytes)))

/-- The answers of a bus on which every transaction succeeds. -/
def Succeeds : Event Twi → Prop
  | ⟨.masterWrite _ _, st⟩ => st = TwiStatus.success
  | ⟨.masterRead _ _, r⟩ => r.1 = TwiStatus.success
  | ⟨.masterInit, _⟩ => True

abbrev accessProtocol (u : Unspecified) : Protocol (clients u) where
  Phase := Phase
  enter _ := .called
  possible := Succeeds
  trans := Trans
  leave _ φ x := ∃ out, φ = .done out ∧ x = .ok out

variable {u : Unspecified}

theorem follows_fpgaReadFull (c : FpgaCall) (command : U8) (df : U32) (hr : c.Reads)
    (hm : c.message = [command]) :
    (accessProtocol u).Follows c
      (fun φ (x : Except Empty (TwiStatus × U32)) => ∃ bytes, φ = .done (c.outcome (dataOf bytes)) ∧
        x = .ok (.success, dataOf bytes))
      .called (fpgaReadFull command c.address df) := by
  rintro st (rfl : st = .success)
  refine ⟨_, .address, ?_⟩
  rintro st (rfl : st = .success)
  refine ⟨.latched, hm ▸ .latch hr, ?_⟩
  rintro ⟨st, bytes⟩ (rfl : st = .success)
  exact ⟨_, .fetch bytes, bytes, rfl, rfl⟩

theorem follows_fpgaWriteBuffer (c : FpgaCall) (hr : ¬ c.Reads) :
    (accessProtocol u).Follows c
      (fun φ (x : Except Empty TwiStatus) => φ = .done (.written .success) ∧ x = .ok .success)
      .called (fpgaWriteBuffer c.address c.message) := by
  rintro st (rfl : st = .success)
  refine ⟨_, .address, ?_⟩
  rintro st (rfl : st = .success)
  exact ⟨_, .store hr, rfl, rfl⟩

/-- Every access function follows the phases. -/
theorem accessProtocol_conforms : (accessProtocol u).Conforms := by
  intro c
  cases c with
  | readByte df a x =>
    change (accessProtocol u).Follows _ _ _ (fpgaReadFull 0x04 a df >>= _ >>= _)
    rw [bind_assoc]
    refine (follows_fpgaReadFull (.readByte df a x) 0x04 df trivial rfl).bind ?_ fun _ e => e.elim
    rintro φ r ⟨bytes, rfl, hr⟩
    cases hr
    exact ⟨_, rfl, rfl⟩
  | readShort df a x =>
    change (accessProtocol u).Follows _ _ _ (fpgaReadFull 0x14 a df >>= _ >>= _)
    rw [bind_assoc]
    refine (follows_fpgaReadFull (.readShort df a x) 0x14 df trivial rfl).bind ?_ fun _ e => e.elim
    rintro φ r ⟨bytes, rfl, hr⟩
    cases hr
    exact ⟨_, rfl, rfl⟩
  | readLong a x =>
    refine (follows_fpgaReadFull (.readLong a x) 0x34 x trivial rfl).bind ?_ fun _ e => e.elim
    rintro φ r ⟨bytes, rfl, hr⟩
    cases hr
    exact ⟨_, rfl, rfl⟩
  | writeByte a x =>
    refine (follows_fpgaWriteBuffer (.writeByte a x) id).bind ?_ fun _ e => e.elim
    rintro φ r ⟨rfl, hr⟩
    cases hr
    exact ⟨_, rfl, rfl⟩
  | writeShort a x =>
    refine (follows_fpgaWriteBuffer (.writeShort a x) id).bind ?_ fun _ e => e.elim
    rintro φ r ⟨rfl, hr⟩
    cases hr
    exact ⟨_, rfl, rfl⟩
  | writeLong a x =>
    refine (follows_fpgaWriteBuffer (.writeLong a x) id).bind ?_ fun _ e => e.elim
    rintro φ r ⟨rfl, hr⟩
    cases hr
    exact ⟨_, rfl, rfl⟩

/-! ## Which steps disturb which -/

/-- The kinds of bus transactions. -/
inductive Kind where
  | address
  | latch
  | store
  | fetch
  | other
deriving DecidableEq

def kind : TwiOp → Kind
  | .masterWrite _ (b :: _) =>
    if b = 0x31 then .address
    else if b = 0x04 ∨ b = 0x14 ∨ b = 0x34 then .latch
    else if b = 0x03 ∨ b = 0x13 ∨ b = 0x33 then .store
    else .other
  | .masterWrite _ [] => .other
  | .masterRead _ _ => .fetch
  | .masterInit => .other

/-- The transaction `o` of the call `c` comes between two transactions of another
task's call `c'`, whose next one is `o'`: it moves the address register before `c'`
has used it, or reloads the latch, with something else, before `c'` has fetched it. -/
def Disturbs (c : FpgaCall) (o : TwiOp) (c' : FpgaCall) (o' : TwiOp) : Prop :=
  kind o = .address ∧ (kind o' = .latch ∨ kind o' = .store) ∧ c'.address ≠ c.address ∨
    kind o = .latch ∧ kind o' = .fetch ∧ (c'.address ≠ c.address ∨ c.size < c'.size)

variable {T : Type}

/-- The step disturbs no other task. -/
def Calm (cfg : (clients u).Config T) : (clients u).Label T → Prop
  | .exec t c ⟨o, _⟩ => ∀ (t' : T) (c' : FpgaCall) (o' : TwiOp)
      (k' : Twi.Res o' → Prog Twi Empty Outcome),
      t' ≠ t → cfg.tasks t' = .running c' (.call o' k') → ¬ Disturbs c o c' o'
  | _ => True

/-- Every operation has an answer on a bus that works. -/
theorem exists_succeeds (o : TwiOp) : ∃ r, Succeeds ⟨o, r⟩ := by
  cases o with
  | masterWrite chip buffer => exact ⟨TwiStatus.success, rfl⟩
  | masterRead chip n => exact ⟨(TwiStatus.success, fun _ => 0), rfl⟩
  | masterInit => exact ⟨(), trivial⟩

/-- A task that has set the address register is about to use it. -/
theorem next_of_addressed {c : FpgaCall} {p : Prog Twi Empty Outcome}
    (h : (accessProtocol u).Follows c ((accessProtocol u).leave c) Phase.addressed p) :
    ∃ k, p = .call (TwiOp.masterWrite fpgaChip c.message) k := by
  have hstay : ∀ out, ¬ (accessProtocol u).leave c Phase.addressed out := by
    intro out hleave
    rcases hleave with ⟨_, hd, -⟩
    cases hd
  rcases Protocol.Follows.exists_call h hstay exists_succeeds with ⟨o, k, r, φ', rfl, ht⟩
  cases ht with
  | latch _ => exact ⟨k, rfl⟩
  | store _ => exact ⟨k, rfl⟩

/-- A task that has loaded the latch is about to fetch it. -/
theorem next_of_latched {c : FpgaCall} {p : Prog Twi Empty Outcome}
    (h : (accessProtocol u).Follows c ((accessProtocol u).leave c) Phase.latched p) :
    ∃ k, p = .call (TwiOp.masterRead fpgaChip 5) k := by
  have hstay : ∀ out, ¬ (accessProtocol u).leave c Phase.latched out := by
    intro out hleave
    rcases hleave with ⟨_, hd, -⟩
    cases hd
  rcases Protocol.Follows.exists_call h hstay exists_succeeds with ⟨o, k, r, φ', rfl, ht⟩
  cases ht with
  | fetch bytes => exact ⟨k, rfl⟩

theorem kind_message (c : FpgaCall) :
    kind (.masterWrite fpgaChip c.message) = if c.stored = [] then .latch else .store := by
  cases c <;> rfl

/-! ## The invariant -/

/-- A latch loaded with at least as many bytes as the call reads, from its address,
gives the call its content. -/
theorem outcome_load {c c' : FpgaCall} (hr : c.Reads) (d : Device) (ha : d.addr = c.address)
    (hs : c.size ≤ c'.size) : c.outcome (d.load u c'.size) = c.content d.mem := by
  have h2 : byteAt 3 (d.load u 2) = read8 d.mem d.addr := by simp [Device.load, Memory.load, read8]
  have h4 : byteAt 3 (d.load u 4) = read8 d.mem d.addr := by simp [Device.load, Memory.load, read8]
  have h42 : ((d.load u 4 >>> 16) &&& 0xffff).setWidth 16 = read16 d.mem d.addr := by
    simp only [Device.load, Memory.load, high_half_word32, read16]
    rfl
  cases c with
  | readByte df a x =>
    obtain rfl : d.addr = a := ha
    cases c' <;> simp [FpgaCall.outcome, FpgaCall.content, FpgaCall.size, h2, h4, byteAt_load_one]
  | readShort df a x =>
    obtain rfl : d.addr = a := ha
    cases c' <;> simp [FpgaCall.size] at hs <;>
      simp only [FpgaCall.outcome, FpgaCall.content, FpgaCall.size, h42, high_half_load_two]
  | readLong a x =>
    obtain rfl : d.addr = a := ha
    cases c' <;> simp [FpgaCall.size] at hs <;>
      simp only [FpgaCall.outcome, FpgaCall.content, FpgaCall.size, load_four]
  | writeByte a x => exact hr.elim
  | writeShort a x => exact hr.elim
  | writeLong a x => exact hr.elim

/-- A latch command loads the latch with the bytes of the call. -/
theorem receive_latch {c : FpgaCall} (hr : c.Reads) (d : Device) :
    d.receive u c.message = { d with latch := d.load u c.size } := by
  cases c with
  | readByte df a x => exact Device.receive_latch8 u d
  | readShort df a x => exact Device.receive_latch16 u d
  | readLong a x => exact Device.receive_latch32 u d
  | writeByte a x => exact hr.elim
  | writeShort a x => exact hr.elim
  | writeLong a x => exact hr.elim

/-- A data message stores the bytes of the call. -/
theorem receive_store {c : FpgaCall} (hr : ¬ c.Reads) (d : Device) :
    d.receive u c.message = { d with mem := d.mem.store d.addr c.stored } := by
  cases c with
  | readByte df a x => exact absurd trivial hr
  | readShort df a x => exact absurd trivial hr
  | readLong a x => exact absurd trivial hr
  | writeByte a x => exact Device.receive_store8 u d x
  | writeShort a x => exact Device.receive_store16 u d _ _
  | writeLong a x => exact Device.receive_store32 u d _ _ _ _

theorem content_of_not_reads {c : FpgaCall} (hr : ¬ c.Reads) (m : Memory 32) :
    c.content m = .written .success := by
  cases c with
  | readByte df a x => exact absurd trivial hr
  | readShort df a x => exact absurd trivial hr
  | readLong a x => exact absurd trivial hr
  | writeByte a x => rfl
  | writeShort a x => rfl
  | writeLong a x => rfl

theorem kind_of_reads {c : FpgaCall} (hr : c.Reads) :
    kind (.masterWrite fpgaChip c.message) = .latch := by
  cases c with
  | readByte df a x => rfl
  | readShort df a x => rfl
  | readLong a x => rfl
  | writeByte a x => exact hr.elim
  | writeShort a x => exact hr.elim
  | writeLong a x => exact hr.elim

/-- What a task in each phase relies on. -/
def PhaseOk (d₀ : Device) (tr : List ((clients u).Label T)) (d : Device) (t : T) (c : FpgaCall) :
    Phase → Prop
  | .called => ∃ tr₁, System.During tr t c tr₁
  | .addressed => (∃ tr₁, System.During tr t c tr₁) ∧ d.addr = c.address
  | .latched => c.Reads ∧ ∃ tr₁, System.During tr t c tr₁ ∧
      c.outcome d.latch = c.content (deviceAfter d₀ tr₁).mem
  | .done out => ∃ tr₁, System.During tr t c tr₁ ∧ out = c.content (deviceAfter d₀ tr₁).mem

/-- The FPGA is what the steps made of it, and every task finds in it what its phase
relies on. -/
def AccessInv (d₀ : Device) (tr : List ((clients u).Label T)) (d : Device)
    (φ : T → Option (FpgaCall × Phase)) : Prop :=
  d = deviceAfter d₀ tr ∧ ∀ t c x, φ t = some (c, x) → PhaseOk d₀ tr d t c x

theorem deviceAfter_snoc (d₀ : Device) (tr : List ((clients u).Label T)) (l : (clients u).Label T) :
    deviceAfter d₀ (tr ++ [l]) = match l with
      | .exec _ _ ev => (Device.handler u ev.op (deviceAfter d₀ tr)).2
      | _ => deviceAfter d₀ tr := by
  simp [deviceAfter]

/-- A step of another task that leaves address and latch alone, as far as this task
needs them, keeps what its phase relies on. -/
theorem PhaseOk.snoc {d₀ d d' : Device} {tr : List ((clients u).Label T)}
    {l : (clients u).Label T} {t : T} {c : FpgaCall} {x : Phase} (h : PhaseOk d₀ tr d t c x)
    (hl : ¬ l.Bounds t) (haddr : x = .addressed → d.addr = c.address → d'.addr = c.address)
    (hlatch : x = .latched → c.Reads → d'.latch = d.latch ∨
      c.outcome d'.latch = c.content (deviceAfter d₀ (tr ++ [l])).mem) :
    PhaseOk d₀ (tr ++ [l]) d' t c x := by
  cases x with
  | called =>
    obtain ⟨tr₁, hd⟩ := h
    exact ⟨tr₁, hd.snoc hl⟩
  | addressed =>
    obtain ⟨⟨tr₁, hd⟩, ha⟩ := h
    exact ⟨⟨tr₁, hd.snoc hl⟩, haddr rfl ha⟩
  | latched =>
    obtain ⟨hr, tr₁, hd, ho⟩ := h
    rcases hlatch rfl hr with he | he
    · exact ⟨hr, tr₁, hd.snoc hl, he ▸ ho⟩
    · exact ⟨hr, _, (hd.snoc hl).now, he⟩
  | done out =>
    obtain ⟨tr₁, hd, ho⟩ := h
    exact ⟨tr₁, hd.snoc hl, ho⟩

variable [DecidableEq T]

/-- Assemble the invariant after a transaction of `t` from its own new phase and the
phases of the other tasks. -/
theorem AccessInv.exec {d₀ d d' : Device} {tr : List ((clients u).Label T)} {t : T} {c : FpgaCall}
    {ev : Event Twi} {x' : Phase} {φ : T → Option (FpgaCall × Phase)} (h : AccessInv d₀ tr d φ)
    (hd' : d' = (Device.handler u ev.op d).2)
    (hself : PhaseOk d₀ (tr ++ [.exec t c ev]) d' t c x')
    (haddr : ∀ t' c', t' ≠ t → φ t' = some (c', .addressed) → d.addr = c'.address →
      d'.addr = c'.address)
    (hlatch : ∀ t' c', t' ≠ t → φ t' = some (c', .latched) → c'.Reads → d'.latch = d.latch ∨
      c'.outcome d'.latch = c'.content d'.mem) :
    AccessInv d₀ (tr ++ [.exec t c ev]) d' (Function.update φ t (some (c, x'))) := by
  have hdev : d' = deviceAfter d₀ (tr ++ [.exec t c ev]) := by
    rw [deviceAfter_snoc, hd', h.1]
  refine ⟨hdev, fun t' c' y hy => ?_⟩
  by_cases ht : t' = t
  · subst ht
    rw [Function.update_self] at hy
    cases hy
    exact hself
  · rw [Function.update_of_ne ht] at hy
    refine (h.2 t' c' y hy).snoc id ?_ ?_
    · rintro rfl
      exact haddr t' c' ht hy
    · rintro rfl hr
      rw [← hdev]
      exact hlatch t' c' ht hy hr

theorem accessInv_keeps (d₀ : Device) :
    (accessProtocol u).Keeps (T := T) Calm d₀ (AccessInv d₀) where
  nil := ⟨rfl, fun t c x h => by cases h⟩
  start := by
    intro tr cfg φ t c hinv hp hφ hg
    refine ⟨by rw [deviceAfter_snoc]; exact hinv.1, fun t' c' y hy => ?_⟩
    by_cases ht : t' = t
    · subst ht
      rw [Function.update_self] at hy
      cases hy
      exact ⟨_, .start⟩
    · rw [Function.update_of_ne ht] at hy
      exact (hinv.2 t' c' y hy).snoc (fun hb => ht hb.symm) (fun _ ha => ha) fun _ _ => .inl rfl
  finish := by
    intro tr cfg φ t c x out hinv hp hφ hg hleave
    refine ⟨by rw [deviceAfter_snoc]; exact hinv.1, fun t' c' y hy => ?_⟩
    by_cases ht : t' = t
    · subst ht
      rw [Function.update_self] at hy
      cases hy
    · rw [Function.update_of_ne ht] at hy
      exact (hinv.2 t' c' y hy).snoc (fun hb => ht hb.symm) (fun _ ha => ha) fun _ _ => .inl rfl
  exec := by
    intro tr cfg φ t c o k r d' x x' hinv hp hrun hφ hg hstep htrans
    have hok := hinv.2 t c x hφ
    have hd' : d' = (Device.handler u o cfg.shared).2 := (congrArg Prod.snd hstep).symm
    cases htrans with
    | address =>
      -- the others do not wait to use another address
      obtain ⟨tr₁, hd⟩ := hok
      have hrec : d' = { cfg.shared with addr := c.address } := by
        rw [hd']
        exact Device.receive_address u cfg.shared c.address
      refine hinv.exec hd' ⟨⟨tr₁, hd.snoc id⟩, by rw [hrec]⟩ ?_ ?_
      · intro t' c' ht hφ' _
        obtain ⟨p, hp', hf⟩ := hp.of_phase hφ'
        obtain ⟨k', rfl⟩ := next_of_addressed hf
        have hno := hg t' c' _ k' ht hp'
        rw [hrec]
        by_contra hne
        -- a task between its address and its use of it is disturbed
        refine hno (.inl ⟨rfl, ?_, fun he => hne he.symm⟩)
        rw [kind_message]
        split
        · exact .inl rfl
        · exact .inr rfl
      · intro t' c' ht hφ' hr
        exact .inl (by rw [hrec])
    | latch hr =>
      obtain ⟨⟨tr₁, hd⟩, ha⟩ := hok
      have hrec : d' = { cfg.shared with latch := cfg.shared.load u c.size } := by
        rw [hd']
        exact receive_latch hr cfg.shared
      refine hinv.exec hd' ⟨hr, _, (hd.snoc id).now, ?_⟩ ?_ ?_
      · rw [deviceAfter_snoc, ← hinv.1]
        change c.outcome d'.latch = c.content (cfg.shared.receive u c.message).mem
        rw [hrec, receive_latch hr]
        exact outcome_load hr cfg.shared ha le_rfl
      · intro t' c' ht hφ' ha'
        rw [hrec]
        exact ha'
      · -- whoever waits for the latch waits for the same bytes, or for fewer
        intro t' c' ht hφ' hr'
        obtain ⟨p, hp', hf⟩ := hp.of_phase hφ'
        obtain ⟨k', rfl⟩ := next_of_latched hf
        have hno := hg t' c' _ k' ht hp'
        have hsame : c'.address = c.address ∧ c'.size ≤ c.size := by
          by_contra hne
          refine hno (.inr ⟨kind_of_reads hr, rfl, ?_⟩)
          rw [not_and_or, Nat.not_le] at hne
          exact hne
        rw [hrec]
        exact .inr (outcome_load hr' cfg.shared (ha.trans hsame.1.symm) hsame.2)
    | store hr =>
      obtain ⟨⟨tr₁, hd⟩, -⟩ := hok
      have hrec : d' = { cfg.shared with mem := cfg.shared.mem.store cfg.shared.addr c.stored } := by
        rw [hd']
        exact receive_store hr cfg.shared
      refine hinv.exec hd' ⟨tr₁, hd.snoc id, (content_of_not_reads hr _).symm⟩ ?_ ?_
      · intro t' c' ht hφ' ha'
        rw [hrec]
        exact ha'
      · -- a store leaves the latch alone, loaded or not
        intro t' c' ht hφ' hr'
        exact .inl (by rw [hrec])
    | fetch bytes =>
      obtain ⟨hr, tr₁, hd, ho⟩ := hok
      have hbytes : bytes = fun i : Fin 5 => cfg.shared.send u i :=
        (congrArg (fun x => x.1.2) hstep).symm
      have hrec : d' = cfg.shared := hd'
      refine hinv.exec hd' ⟨tr₁, hd.snoc id, ?_⟩ ?_ ?_
      · rw [hbytes, Device.dataOf_send]
        exact ho
      · intro t' c' ht hφ' ha'
        rw [hrec]
        exact ha'
      · intro t' c' ht hφ' hr'
        exact .inl (by rw [hrec])

/-! ## Accesses do not mix -/

/-- Every call that finished returned the content of the register at the address its
own caller passed, as of some moment during the call. -/
def ReturnsOwn (d₀ : Device) (tr : List ((clients u).Label T)) : Prop :=
  ∀ pre t c mid out post, tr = pre ++ .start t c :: (mid ++ .finish t c out :: post) →
    (∀ l ∈ mid, ¬ l.Bounds t) →
    ∃ mid₁, mid₁ <+: mid ∧ out = .ok (c.content (deviceAfter d₀ (pre ++ .start t c :: mid₁)).mem)

/-- Every transaction changed at most the bytes its own caller's write covers. -/
def ChangesOwn (d₀ : Device) (tr : List ((clients u).Label T)) : Prop :=
  ∀ pre t c ev post, tr = pre ++ .exec t c ev :: post →
    ∀ x, (deviceAfter d₀ (pre ++ [.exec t c ev])).mem x ≠ (deviceAfter d₀ pre).mem x →
      Memory.Covers c.address c.stored.length x

theorem succeeds_of_step {d d' : Device} {ev : Event Twi} (h : (clients u).step d ev d') :
    Succeeds ev := by
  obtain ⟨o, r⟩ := ev
  have hr : (Device.handler u o d).1 = r := congrArg Prod.fst h
  subst hr
  cases o with
  | masterWrite chip buffer => rfl
  | masterRead chip n => rfl
  | masterInit => trivial

/-- The invariant at every point of a calm run. -/
theorem accessInv_of_run {d₀ : Device} {tr : List ((clients u).Label T)}
    {cfg : (clients u).Config T} (h : System.Run Calm d₀ tr cfg) :
    ∃ φ, AccessInv d₀ tr cfg.shared φ ∧ (accessProtocol u).Paced cfg φ :=
  (accessInv_keeps d₀).run accessProtocol_conforms (fun _ _ _ hs => succeeds_of_step hs) h

theorem returnsOwn_of_calm {d₀ : Device} {tr : List ((clients u).Label T)}
    {cfg : (clients u).Config T} (h : System.Run Calm d₀ tr cfg) : ReturnsOwn d₀ tr := by
  intro pre t c mid out post htr hmid
  have hsplit : tr = (pre ++ .start t c :: mid ++ [.finish t c out]) ++ post := by simp [htr]
  rw [hsplit] at h
  obtain ⟨cfg₁, h₁⟩ := h.of_append
  obtain ⟨cfg₀, h₀, -, hstep⟩ := h₁.last
  obtain ⟨φ, hinv, hp⟩ := accessInv_of_run h₀
  cases hstep with
  | finish ht hpath =>
    obtain ⟨x, hx, hf⟩ := hp.running ht
    obtain ⟨out', rfl, rfl⟩ := hf.of_path hpath
    obtain ⟨tr₁, hd, rfl⟩ := hinv.2 t c _ hx
    -- the moment the latch was loaded lies in this call, not in an earlier one of the task
    obtain ⟨-, mid₁, hpre, rfl⟩ := hd.eq_of_start hmid
    exact ⟨mid₁, hpre, rfl⟩

theorem changesOwn_of_calm {d₀ : Device} {tr : List ((clients u).Label T)}
    {cfg : (clients u).Config T} (h : System.Run Calm d₀ tr cfg) : ChangesOwn d₀ tr := by
  intro pre t c ev post htr x
  have hsplit : tr = (pre ++ [.exec t c ev]) ++ post := by simp [htr]
  rw [hsplit] at h
  obtain ⟨cfg₁, h₁⟩ := h.of_append
  obtain ⟨cfg₀, h₀, -, hstep⟩ := h₁.last
  obtain ⟨φ, hinv, hp⟩ := accessInv_of_run h₀
  rw [deviceAfter_snoc, ← hinv.1]
  cases hstep with
  | exec ht hs =>
    obtain ⟨y, hy, hf⟩ := hp.running ht
    obtain ⟨y', htrans, -⟩ := hf _ (succeeds_of_step hs)
    have hok := hinv.2 t c y hy
    cases htrans with
    | address =>
      -- only a store changes the memory
      intro hne
      refine absurd ?_ hne
      exact congrArg (fun d => d.mem x) (Device.receive_address u cfg₀.shared c.address)
    | latch hr =>
      intro hne
      refine absurd ?_ hne
      exact congrArg (fun d => d.mem x) (receive_latch hr cfg₀.shared)
    | store hr =>
      intro hne
      have hmem : (Device.handler u (.masterWrite fpgaChip c.message) cfg₀.shared).2.mem =
          cfg₀.shared.mem.store c.address c.stored := by
        rw [← hok.2]
        exact congrArg Device.mem (receive_store hr cfg₀.shared)
      by_contra hcov
      exact hne ((congrFun hmem x).trans (Memory.store_of_not_covers _ _ hcov))
    | fetch bytes => exact fun hne => absurd rfl hne

/-- **Isolation.** In every run in which no transaction falls between another task's
setting and using the address register, or loading and fetching the latch, each access
is served as if it were alone. -/
theorem calm_accesses_do_not_mix (d₀ : Device) (tr : List ((clients u).Label T))
    (cfg : (clients u).Config T) (h : System.Run Calm d₀ tr cfg) :
    ReturnsOwn d₀ tr ∧ ChangesOwn d₀ tr :=
  ⟨returnsOwn_of_calm h, changesOwn_of_calm h⟩

/-! ### Two tasks -/

omit [DecidableEq T] in
/-- Tasks that access one register with one width are calm. -/
theorem calm_of_same {cfg : (clients u).Config T} {t : T} {c : FpgaCall} {ev : Event Twi}
    (h : ∀ t' c' p, cfg.tasks t' = .running c' p → c'.address = c.address ∧ c'.size = c.size) :
    Calm cfg (.exec t c ev) := by
  rintro t' c' o' k' - ht' (⟨-, -, hne⟩ | ⟨-, -, hne | hlt⟩)
  · exact hne (h t' c' _ ht').1
  · exact hne (h t' c' _ ht').1
  · exact absurd (h t' c' _ ht').2 (by omega)

section TwoTasks

open System

/-- An FPGA whose memory holds at every address the low byte of the address. -/
def quiet : Unspecified := ⟨fun _ => 0, fun _ => 0⟩
def countingDevice : Device := ⟨0, 0, fun a => a.setWidth 8⟩

/-- One task reads a register while another one stores to it. -/
def calmTrace : List ((clients quiet).Label Bool) :=
  [.start false (.readShort 0 0 0), .start true (.writeShort 0 0x1234),
    .exec false (.readShort 0 0 0) (wrote (addressMessage 0) .success),
    .exec true (.writeShort 0 0x1234) (wrote (addressMessage 0) .success),
    .exec true (.writeShort 0 0x1234) (wrote [0x13, 0x12, 0x34] .success),
    .exec false (.readShort 0 0 0) (wrote [0x14] .success),
    .exec false (.readShort 0 0 0) (got .success fun i => Device.send quiet ⟨0, 0x12340000, 0⟩ i),
    .finish false (.readShort 0 0 0) (.ok (.short .success 0x1234)),
    .finish true (.writeShort 0 0x1234) (.ok (.written .success))]

theorem calm_accesses_do_not_mix_calmTrace :
    ∃ cfg, Run Calm countingDevice calmTrace cfg ∧ ReturnsOwn countingDevice calmTrace ∧
      ChangesOwn countingDevice calmTrace := by
  have hrun : ∃ cfg, Run Calm countingDevice calmTrace cfg := by
    refine ⟨_, Run.nil.append (.cons trivial (.start rfl) <| .cons trivial (.start rfl) <|
      .cons (calm_of_same ?_) (.exec rfl rfl) <| .cons (calm_of_same ?_) (.exec rfl rfl) <|
      .cons (calm_of_same ?_) (.exec rfl rfl) <| .cons (calm_of_same ?_) (.exec rfl rfl) <|
      .cons (calm_of_same ?_) (.exec rfl rfl) <| .cons trivial (.finish rfl (.ret _)) <|
      .cons trivial (.finish rfl (.ret _)) .nil)⟩
    all_goals
      intro t' c' p h
      cases t' <;> cases h <;> exact ⟨rfl, rfl⟩
  obtain ⟨cfg, hrun⟩ := hrun
  exact ⟨cfg, hrun, calm_accesses_do_not_mix _ _ _ hrun⟩

/-- Two reads at different addresses: the second address message arrives before the
first task has used its own. -/
def mixedCall : List ((clients quiet).Label Bool) :=
  [.start true (.readShort 0 2 0),
    .exec false (.readShort 0 0 0) (wrote (addressMessage 0) .success),
    .exec true (.readShort 0 2 0) (wrote (addressMessage 2) .success),
    .exec false (.readShort 0 0 0) (wrote [0x14] .success),
    .exec false (.readShort 0 0 0) (got .success fun i => Device.send quiet ⟨2, 0x02030000, 0⟩ i)]

def mixedTrace : List ((clients quiet).Label Bool) :=
  .start false (.readShort 0 0 0) :: (mixedCall ++
    [.finish false (.readShort 0 0 0) (.ok (.short .success 0x0203))])

theorem run_mixedTrace : ∃ cfg, Run (fun _ _ => True) countingDevice mixedTrace cfg :=
  ⟨_, Run.nil.append (.cons trivial (.start rfl) <| .cons trivial (.start rfl) <|
    .cons trivial (.exec rfl rfl) <| .cons trivial (.exec rfl rfl) <|
    .cons trivial (.exec rfl rfl) <| .cons trivial (.exec rfl rfl) <|
    .cons trivial (.finish rfl (.ret _)) .nil)⟩

/-- The first task is handed the register at address 2. -/
theorem accesses_mix :
    ¬ ∀ (d₀ : Device) (tr : List ((clients quiet).Label Bool)) (cfg : (clients quiet).Config Bool),
      Run (fun _ _ => True) d₀ tr cfg → ReturnsOwn d₀ tr ∧ ChangesOwn d₀ tr := by
  intro hall
  obtain ⟨cfg, hrun⟩ := run_mixedTrace
  obtain ⟨mid₁, hpre, hout⟩ := (hall _ _ _ hrun).1 [] false (.readShort 0 0 0) mixedCall _ [] rfl
    (by simp [mixedCall, Label.Bounds])
  have hmem : (deviceAfter countingDevice
      ([] ++ .start false (.readShort 0 0 0) :: mid₁)).mem = countingDevice.mem := by
    rw [← List.mem_inits] at hpre
    simp only [mixedCall, List.inits, List.map, List.mem_cons, List.not_mem_nil, or_false] at hpre
    rcases hpre with rfl | rfl | rfl | rfl | rfl | rfl <;> rfl
  rw [hmem] at hout
  have hne : Outcome.short .success 0x0203 ≠
      FpgaCall.content (.readShort 0 0 0) countingDevice.mem := by decide
  exact hne (Except.ok.inj hout)

end TwoTasks

end Fpga
