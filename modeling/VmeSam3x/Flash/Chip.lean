import VmeSam3x.Flash.ExtFlash
import VmeSam3x.Lib.Machine

/-! # The flash chip

The behaviour of the M25P128 that the firmware relies on. A command is what is written between
select and deselect, and takes effect with the deselect. Programming and erasing need the write
enable latch; they keep the chip busy for some time, and the chip ignores every command but the
read of its status register until then.
-/

namespace Flash

open Interact Bytes CString

variable {E : Type}

/-! ## The chip -/

structure Chip where
  memory : Nat → U8
  latch : Bool
  busy : Bool
  /-- The bytes written since the chip was selected. -/
  frame : List U8

/-- The 24-bit address of a command. -/
def addressOf (a₂ a₁ a₀ : U8) : Nat := (word32 0 a₂ a₁ a₀).toNat

/-- Programming stays in its page of 256 bytes. -/
def nextInPage (a : Nat) : Nat := a / 256 * 256 + (a + 1) % 256

/-- Programming clears bits. -/
def programPage (memory : Nat → U8) (a : Nat) : List U8 → Nat → U8
  | [] => memory
  | b :: rest => programPage (Function.update memory a (memory a &&& b)) (nextInPage a) rest

/-- The sector of an address. -/
def sectorSize : Nat := 0x40000

def eraseSector (memory : Nat → U8) (a : Nat) : Nat → U8 :=
  fun x => if x / sectorSize = a / sectorSize then 0xff else memory x

/-- What a command does to a chip that is not busy. -/
def Chip.execute (s : Chip) : Chip :=
  match s.frame with
  | [] => s
  | command :: rest =>
    if command = m25pWren then { s with latch := true }
    else if command = m25pWrdi then { s with latch := false }
    else if s.latch then
      match rest with
      | [] =>
        if command = m25pBe then { s with memory := fun _ => 0xff, busy := true } else s
      | [a₂, a₁, a₀] =>
        if command = m25pSe then
          { s with memory := eraseSector s.memory (addressOf a₂ a₁ a₀), busy := true }
        else s
      | a₂ :: a₁ :: a₀ :: data =>
        if command = m25pPp then
          { s with memory := programPage s.memory (addressOf a₂ a₁ a₀) data, busy := true }
        else s
      | _ => s
    else s

/-- The end of a selection. -/
def Chip.release (s : Chip) : Chip :=
  { (if s.busy then s else s.execute) with frame := [] }

/-- The bytes at an address, as a read returns them. -/
def Chip.bytesAt (s : Chip) (a len : Nat) : List U8 :=
  (List.range len).map fun i => s.memory ((a + i) % 2 ^ 24)

/-- What the chip sends after a command. Other commands send something. -/
def Chip.Sends (s : Chip) (data : List U8) : Prop :=
  match s.frame with
  | [command] => command = m25pRdsr → ∀ b ∈ data, b &&& m25pSrWip = 0 ↔ s.busy = false
  | [command, a₂, a₁, a₀] =>
    command = m25pRead → s.busy = false → data = s.bytesAt (addressOf a₂ a₁ a₀) data.length
  | _ => True

/-- The end of programming or erasing, which resets the latch. -/
inductive Chip.Finishes : Chip → Chip → Prop
  | finish {s : Chip} (h : s.busy = true) : Finishes s { s with busy := false, latch := false }

/-- The transfers are successful, and carry the bytes. -/
def Chip.Answers (s : Chip) : (o : SpiOp) → Spi.Res o → Chip → Prop
  | .select, _, t => t = { s with frame := [] }
  | .deselect, _, t => t = s.release
  | .writePacket data, r, t => r = success ∧ t = { s with frame := s.frame ++ data }
  | .readPacket _, r, t => r.code = success ∧ s.Sends r.data ∧ t = s

abbrev m25p128 : Machine Spi where
  State := Chip
  move := Chip.Finishes
  answer := Chip.Answers

/-- A power cycle. -/
def Chip.powerUp (s : Chip) : Chip := { s with latch := false, busy := false, frame := [] }

/-! ## Programming -/

theorem programPage_eq {data : List U8} (memory : Nat → U8) {a : Nat}
    (h : a % 256 + data.length ≤ 256) (x : Nat) :
    programPage memory a data x =
      if hx : a ≤ x ∧ x < a + data.length then memory x &&& data[x - a] else memory x := by
  induction data generalizing memory a with
  | nil =>
    rw [programPage, dif_neg (by simp)]
  | cons b rest ih =>
    rw [List.length_cons] at h
    rw [programPage]
    cases rest with
    | nil =>
      rw [programPage]
      by_cases hx : x = a
      · subst hx
        rw [Function.update_self, dif_pos (by simp)]
        simp
      · rw [Function.update_of_ne hx, dif_neg]
        simp only [List.length_cons, List.length_nil]
        omega
    | cons b' rest' =>
      -- there is another byte, so the page does not end here
      rw [List.length_cons] at h
      have hnext : nextInPage a = a + 1 := by
        unfold nextInPage
        omega
      rw [hnext, ih _ (by rw [List.length_cons]; omega)]
      by_cases hx : x = a
      · subst hx
        rw [dif_neg (by omega), Function.update_self, dif_pos (by simp)]
        simp
      · rw [Function.update_of_ne hx]
        by_cases hin : a + 1 ≤ x ∧ x < a + 1 + (b' :: rest').length
        · have hin' : a ≤ x ∧ x < a + (b :: b' :: rest').length := by
            simp only [List.length_cons] at hin ⊢
            omega
          rw [dif_pos hin, dif_pos hin']
          congr 1
          have hsub : x - a = x - (a + 1) + 1 := by omega
          simp [hsub]
        · rw [dif_neg hin, dif_neg]
          simp only [List.length_cons] at hin ⊢
          omega

/-! ## Runs -/

variable {s t : Chip} {x : Except E Status}

/-- A chip that is not busy makes no moves. -/
theorem eq_of_moves (hs : s.busy = false) (h : m25p128.Moves s t) : t = s := by
  rcases Relation.ReflTransGen.cases_head h with heq | ⟨s', hstep, -⟩
  · exact heq.symm
  · cases hstep with
    | finish hbusy =>
      rw [hs] at hbusy
      cases hbusy

/-- What no move changes, and none undoes. -/
structure Chip.Later (s t : Chip) : Prop where
  memory : t.memory = s.memory
  frame : t.frame = s.frame
  ready : s.busy = false → t = s

theorem later_of_moves (h : m25p128.Moves s t) : s.Later t := by
  rcases Relation.ReflTransGen.cases_head h with heq | ⟨s', hstep, hrest⟩
  · subst heq
    exact ⟨rfl, rfl, fun _ => rfl⟩
  · cases hstep with
    | finish hbusy =>
      have ht := eq_of_moves rfl hrest
      subst ht
      refine ⟨rfl, rfl, fun hready => ?_⟩
      rw [hready] at hbusy
      cases hbusy

variable {α : Type} {y : Except E α}

/-- A run that begins with an operation. -/
theorem runs_spi {o : SpiOp} {f : Spi.Res o → Prog Spi E α}
    (h : m25p128.Runs (spi o >>= f) s y t) :
    ∃ s₁ r s₂, s.Later s₁ ∧ s₁.Answers o r s₂ ∧ m25p128.Runs (f r) s₂ y t := by
  rcases Machine.runs_perform_bind.mp h with ⟨s₁, r, s₂, hm, ha, hr⟩
  exact ⟨s₁, r, s₂, later_of_moves hm, ha, hr⟩

/-- The same from a chip that is not busy. -/
theorem runs_spi_ready {o : SpiOp} {f : Spi.Res o → Prog Spi E α} (hs : s.busy = false)
    (h : m25p128.Runs (spi o >>= f) s y t) :
    ∃ r s₂, s.Answers o r s₂ ∧ m25p128.Runs (f r) s₂ y t := by
  rcases runs_spi h with ⟨s₁, r, s₂, hlater, ha, hr⟩
  rw [hlater.ready hs] at ha
  exact ⟨r, s₂, ha, hr⟩

/-- A command to a chip that is not busy. -/
theorem runs_command {command : List U8} (hs : s.busy = false)
    (h : m25p128.Runs (m25pCommand command) s x t) :
    x = .ok success ∧ t = { ({ s with frame := command } : Chip).execute with frame := [] } := by
  rcases runs_spi_ready hs h with ⟨_, s₁, rfl, h₁⟩
  rcases runs_spi_ready (by exact hs) h₁ with ⟨stat, s₂, ⟨rfl, rfl⟩, h₂⟩
  rcases runs_spi_ready (by exact hs) h₂ with ⟨_, s₃, rfl, h₃⟩
  rcases Machine.runs_ret.mp h₃ with ⟨rfl, rfl⟩
  refine ⟨rfl, ?_⟩
  rw [Chip.release, if_neg (by simp [hs]), List.nil_append]

/-- Select and the command, whether the chip is busy or not. -/
theorem runs_select_write {data : List U8} {f : Status → Prog Spi E α}
    (h : m25p128.Runs (spi .select >>= fun _ => spi (.writePacket data) >>= f) s y t) :
    ∃ s', s'.memory = s.memory ∧ s'.frame = data ∧ m25p128.Runs (f success) s' y t := by
  rcases runs_spi h with ⟨s₁, _, t₁, hl₁, rfl, h₁⟩
  rcases runs_spi h₁ with ⟨s₂, stat, t₂, hl₂, ⟨rfl, rfl⟩, h₂⟩
  have hframe : s₂.frame = [] := hl₂.frame
  refine ⟨{ s₂ with frame := s₂.frame ++ data }, hl₂.memory.trans hl₁.memory, ?_, h₂⟩
  change s₂.frame ++ data = data
  rw [hframe, List.nil_append]

/-- The commands that program or erase. -/
def Changes (command : U8) : Prop := command = m25pPp ∨ command = m25pSe ∨ command = m25pBe

instance (command : U8) : Decidable (Changes command) := inferInstanceAs (Decidable (_ ∨ _ ∨ _))

/-- The deselect after any other command. -/
theorem release_keeps {command : U8} {rest : List U8} (hframe : s.frame = command :: rest)
    (hcommand : ¬ Changes command) :
    s.release.memory = s.memory ∧ s.release.busy = s.busy := by
  have hpp : command ≠ m25pPp := fun h => hcommand (.inl h)
  have hse : command ≠ m25pSe := fun h => hcommand (.inr (.inl h))
  have hbe : command ≠ m25pBe := fun h => hcommand (.inr (.inr h))
  rw [Chip.release]
  split
  · exact ⟨rfl, rfl⟩
  · simp only [Chip.execute, hframe, if_neg hpp, if_neg hse, if_neg hbe]
    split
    · exact ⟨rfl, rfl⟩
    · split
      · exact ⟨rfl, rfl⟩
      · split
        · split <;> exact ⟨rfl, rfl⟩
        · exact ⟨rfl, rfl⟩

/-- Write-disable, whether the chip is busy or not. -/
theorem runs_writeDisable (h : m25p128.Runs m25pWriteDisable s x t) :
    x = .ok success ∧ t.memory = s.memory := by
  rcases runs_select_write h with ⟨s₁, hmem, hframe, h₁⟩
  rcases runs_spi h₁ with ⟨s₂, _, t₂, hl₂, rfl, h₂⟩
  rcases Machine.runs_ret.mp h₂ with ⟨rfl, rfl⟩
  have hkeep := release_keeps (hl₂.frame.trans hframe) (by decide)
  exact ⟨rfl, hkeep.1.trans (hl₂.memory.trans hmem)⟩

theorem readAfter_success (len : Nat) :
    (readAfter success len : Prog Spi E (ReadResult len)) = spi (.readPacket len) := dif_pos rfl

/-- A poll: it changes nothing, and a chip that shows no write in progress is not busy. -/
theorem runs_readStatus {x : Except E (ReadResult 1)}
    (h : m25p128.Runs m25pReadStatusRegister s x t) :
    ∃ r, x = .ok r ∧ t.memory = s.memory ∧ (r.isReady = true → t.busy = false) := by
  rcases runs_select_write h with ⟨s₁, hmem, hframe, h₁⟩
  rw [readAfter_success] at h₁
  rcases runs_spi h₁ with ⟨s₂, r, t₂, hl₂, ⟨hcode, hsends, rfl⟩, h₂⟩
  rcases runs_spi h₂ with ⟨s₃, _, t₃, hl₃, rfl, h₃⟩
  rcases Machine.runs_ret.mp h₃ with ⟨rfl, rfl⟩
  have hstatus : t₂.frame = [m25pRdsr] := hl₂.frame.trans hframe
  have hkeep := release_keeps (hl₃.frame.trans hstatus) (by decide)
  refine ⟨r, rfl, hkeep.1.trans (hl₃.memory.trans (hl₂.memory.trans hmem)), ?_⟩
  intro hready
  -- the bit was read while the chip was already idle, and it stays idle
  have hbusy : t₂.busy = false := by
    rw [ReadResult.isReady, Bool.and_eq_true, decide_eq_true_eq, decide_eq_true_eq] at hready
    have hlen : r.data.length = 1 := r.complete hready.1
    rw [Chip.Sends, hstatus] at hsends
    rcases List.length_eq_one_iff.mp hlen with ⟨b, hb⟩
    have hwip := hready.2
    rw [hb] at hwip
    exact (hsends rfl b (by simp [hb])).mp hwip
  rw [hkeep.2, hl₃.ready hbusy, hbusy]

theorem runs_pollReady {timeout : Nat} (h : m25p128.Runs (pollReady timeout) s x t) :
    t.memory = s.memory ∧ (x = .ok success → t.busy = false) := by
  induction timeout generalizing s with
  | zero =>
    rcases Machine.runs_ret.mp h with ⟨rfl, rfl⟩
    exact ⟨rfl, nofun⟩
  | succ timeout ih =>
    rcases Machine.Runs.of_bind_of_ok (fun _ _ hr => runs_readStatus hr) h with
      ⟨r, s', ⟨hmem, hready⟩, h₂⟩
    split at h₂
    · rename_i hr
      rcases Machine.runs_ret.mp h₂ with ⟨rfl, rfl⟩
      exact ⟨hmem, fun _ => hready hr⟩
    · rcases ih h₂ with ⟨hmem', hbusy⟩
      exact ⟨hmem'.trans hmem, hbusy⟩

/-- Programming an enabled chip. -/
theorem runs_pageProgram {address : U32} {data : List U8} (hs : s.busy = false)
    (hlatch : s.latch = true) (hdata : data ≠ [])
    (h : m25p128.Runs (m25pPageProgram address data) s x t) :
    x = .ok success ∧
      t.memory = programPage s.memory
        (addressOf (byteAt 2 address) (byteAt 1 address) (byteAt 0 address)) data := by
  rcases runs_spi_ready hs h with ⟨_, s₁, rfl, h₁⟩
  rcases runs_spi_ready (by exact hs) h₁ with ⟨stat, s₂, ⟨rfl, rfl⟩, h₂⟩
  rw [writeAfter, if_pos rfl] at h₂
  rcases runs_spi_ready (by exact hs) h₂ with ⟨stat, s₃, ⟨rfl, rfl⟩, h₃⟩
  rcases runs_spi_ready (by exact hs) h₃ with ⟨_, s₄, rfl, h₄⟩
  rcases Machine.runs_ret.mp h₄ with ⟨rfl, rfl⟩
  refine ⟨rfl, ?_⟩
  rcases List.exists_cons_of_ne_nil hdata with ⟨b, rest, rfl⟩
  rw [Chip.release, if_neg (by simp [hs])]
  change (Chip.execute ⟨s.memory, s.latch, s.busy,
    m25pPp :: byteAt 2 address :: byteAt 1 address :: byteAt 0 address :: b :: rest⟩).memory = _
  rw [hlatch]
  rfl

/-- Writing to a chip that is not busy: enable, program, disable. -/
theorem runs_enabledWrite {address : U32} {data : List U8} (hs : s.busy = false)
    (hdata : data ≠ [])
    (h : m25p128.Runs (enabledWrite (m25pPageProgram address data)) s x t) :
    x = .ok success ∧
      t.memory = programPage s.memory
        (addressOf (byteAt 2 address) (byteAt 1 address) (byteAt 0 address)) data := by
  rcases Machine.Runs.of_bind_value (fun _ _ hr => runs_command hs hr) h with ⟨s₁, rfl, h₁⟩
  rw [whenEnabled, if_pos rfl] at h₁
  rcases Machine.Runs.of_bind_value
    (fun _ _ hr => runs_pageProgram (by exact hs) rfl hdata hr) h₁ with ⟨s₂, hmem, h₂⟩
  -- the chip may be busy with the page when write-disable arrives
  rcases Machine.Runs.of_bind_value (fun _ _ hr => runs_writeDisable hr) h₂ with ⟨s₃, hmem', h₃⟩
  rcases Machine.runs_ret.mp h₃ with ⟨rfl, rfl⟩
  exact ⟨rfl, hmem'.trans hmem⟩

/-- A query to a chip that is not busy. -/
theorem runs_query {command : U8} {rest : List U8} {len : Nat} {x : Except E (ReadResult len)}
    (hs : s.busy = false) (hcommand : ¬ Changes command)
    (h : m25p128.Runs (m25pQuery (command :: rest) len) s x t) :
    ∃ r, x = .ok r ∧ r.data.length = len ∧
      ({ s with frame := command :: rest } : Chip).Sends r.data ∧
      t.memory = s.memory ∧ t.busy = false := by
  rcases runs_spi_ready hs h with ⟨_, s₁, rfl, h₁⟩
  rcases runs_spi_ready (by exact hs) h₁ with ⟨stat, s₂, ⟨rfl, rfl⟩, h₂⟩
  rw [readAfter_success] at h₂
  rcases runs_spi_ready (by exact hs) h₂ with ⟨r, s₃, ⟨hcode, hsends, rfl⟩, h₃⟩
  rcases runs_spi_ready (by exact hs) h₃ with ⟨_, s₄, rfl, h₄⟩
  rcases Machine.runs_ret.mp h₄ with ⟨rfl, rfl⟩
  have hkeep : (Chip.release ⟨s.memory, s.latch, s.busy, command :: rest⟩).memory = s.memory ∧ _ :=
    release_keeps rfl hcommand
  exact ⟨r, rfl, r.complete hcode, hsends, hkeep.1, hkeep.2.trans hs⟩

/-- Reading from a chip that is not busy. -/
theorem runs_readData {address : U32} {len : Nat} {x : Except E (ReadResult len)}
    (hs : s.busy = false) (h : m25p128.Runs (m25pReadData address len) s x t) :
    ∃ r, x = .ok r ∧
      r.data = s.bytesAt (addressOf (byteAt 2 address) (byteAt 1 address) (byteAt 0 address)) len ∧
      t.memory = s.memory ∧ t.busy = false := by
  rcases runs_query hs (by decide) h with ⟨r, hr, hlen, hsends, hkeep⟩
  have hdata := hsends rfl hs
  rw [hlen] at hdata
  exact ⟨r, hr, hdata, hkeep⟩

end Flash
