import VmeSam3x.Flash.PowerCycle
import VmeSam3x.Flash.Wire
import VmeSam3x.SpiMaster.Prompt

/-! # The settings over the life of the flash

The monitor erases the setup sector, writes the MAC address or writes the serial number, in any
order and any number of times, and waits after each. Programming only clears bits, so what the boot
code finds after the next power cycle depends on the whole history of the sector.
-/

namespace Flash

open Interact Bytes CString SpiMaster

variable {E : Type} {c : Chip}

/-! ## The history of a sector -/

/-- What the monitor does to the setup sector; a serial number goes with `len + 1` bytes. -/
inductive Upkeep where
  | erase
  | writeMac (mac : Fin 6 → U8)
  | writeSn (sn : Nat → U8) (len : Nat)

/-- Bytes that are and-ed into a memory. -/
def clearBits (memory : Nat → U8) (address : Nat) (data : List U8) : Nat → U8 := fun a =>
  if h : address ≤ a ∧ a < address + data.length then memory a &&& data[a - address] else memory a

/-- The bytes of a serial number that are written. -/
def snBytes (sn : Nat → U8) (len : Nat) : List U8 :=
  (List.range (if len + 1 > snAsciiMaxlen then snAsciiMaxlen else len + 1)).map sn

def Upkeep.apply (memory : Nat → U8) : Upkeep → Nat → U8
  | .erase => fun a => if 0xfc0000 ≤ a ∧ a < 0x1000000 then 0xff else memory a
  | .writeMac mac => clearBits memory 0xfc0000 (List.ofFn mac)
  | .writeSn sn len => clearBits memory 0xfc0006 (snBytes sn len)

def history (us : List Upkeep) (memory : Nat → U8) : Nat → U8 := us.foldl Upkeep.apply memory

/-! ## Programs -/

def Upkeep.command : Upkeep → Prog Spi E Status
  | .erase => enabledWrite (m25pSectorErase macAddressOffset)
  | .writeMac mac => extFlashWriteMacAddress mac
  | .writeSn sn len => extFlashWriteSn sn (len + 1)

/-- The command and the wait after it. -/
def Upkeep.perform (u : Upkeep) : Prog Spi E Status := do
  let _ ← u.command
  extFlashWaitForReady

/-- One after the other, until a wait has not been successful. -/
def upkeep : List Upkeep → Prog Spi E Bool
  | [] => return true
  | u :: rest => do
    let status ← u.perform
    if status = success then upkeep rest else return false

theorem sends_upkeep_command (u : Upkeep) :
    Sends (· = success) (u.command : Prog Spi E Status) := by
  cases u with
  | erase => exact sends_enabledWrite (sends_command _)
  | writeMac mac => exact sends_enabledWrite (sends_pageProgram _ _)
  | writeSn sn len => exact sends_enabledWrite (sends_pageProgram _ _)

theorem sends_upkeep (us : List Upkeep) :
    Sends (fun _ => True) (upkeep us : Prog Spi E Bool) := by
  induction us with
  | nil => exact .ret trivial
  | cons u rest ih =>
    have hperform : Sends (fun _ => True) (u.perform : Prog Spi E Status) :=
      (sends_upkeep_command u).bind fun _ _ => sends_pollReady _
    refine hperform.bind fun status _ => ?_
    split
    · exact ih
    · exact .ret trivial

/-! ## The chip -/

theorem programPage_eq_clearBits {data : List U8} (memory : Nat → U8) {a : Nat}
    (h : a % 256 + data.length ≤ 256) : programPage memory a data = clearBits memory a data := by
  funext x
  exact programPage_eq memory h x

theorem eraseSector_setup (memory : Nat → U8) :
    eraseSector memory 0xfc0000 = Upkeep.apply memory .erase := by
  funext a
  have hsector : a / sectorSize = 0xfc0000 / sectorSize ↔ 0xfc0000 ≤ a ∧ a < 0x1000000 := by
    unfold sectorSize
    omega
  unfold eraseSector Upkeep.apply
  exact if_congr hsector rfl rfl

theorem length_snBytes (sn : Nat → U8) (len : Nat) :
    0 < (snBytes sn len).length ∧ (snBytes sn len).length ≤ snAsciiMaxlen := by
  rw [snBytes, List.length_map, List.length_range]
  split
  · exact ⟨by decide, le_refl _⟩
  · omega

/-- Erasing the setup sector of a chip that is not busy. -/
theorem runs_eraseSetup {t : Chip} {x : Except E Status} (hc : c.busy = false)
    (h : m25p128.Runs (Upkeep.command .erase) c x t) :
    x = .ok success ∧ t.memory = Upkeep.apply c.memory .erase := by
  rcases Machine.Runs.of_bind_value (fun _ _ hr => runs_command hc hr) h with ⟨c₁, rfl, h₁⟩
  rw [whenEnabled, if_pos rfl] at h₁
  rcases Machine.Runs.of_bind_value (fun _ _ hr => runs_command (by exact hc) hr) h₁ with
    ⟨c₂, rfl, h₂⟩
  rcases Machine.Runs.of_bind_value (fun _ _ hr => runs_writeDisable hr) h₂ with ⟨c₃, hmem, h₃⟩
  rcases Machine.runs_ret.mp h₃ with ⟨rfl, rfl⟩
  refine ⟨rfl, ?_⟩
  rw [hmem, ← eraseSector_setup, ← address_mac]
  rfl

/-- The memory after a command, whether it has ended or not. -/
theorem runs_upkeep_command {u : Upkeep} {t : Chip} {x : Except E Status} (hc : c.busy = false)
    (h : m25p128.Runs u.command c x t) :
    x = .ok success ∧ t.memory = u.apply c.memory := by
  cases u with
  | erase => exact runs_eraseSetup hc h
  | writeMac mac =>
    have hlen : (List.ofFn mac).length = 6 := List.length_ofFn
    have hne : List.ofFn mac ≠ [] := List.ne_nil_of_length_pos (by omega)
    have hrun := runs_enabledWrite hc hne h
    rw [address_mac, programPage_eq_clearBits _ (by rw [hlen]; decide)] at hrun
    exact hrun
  | writeSn sn len =>
    rcases length_snBytes sn len with ⟨hpos, hle⟩
    have hne : snBytes sn len ≠ [] := List.ne_nil_of_length_pos hpos
    have hrun := runs_enabledWrite hc hne h
    have hpage : 0xfc0006 % 256 + (snBytes sn len).length ≤ 256 :=
      (Nat.add_le_add_left hle _).trans (by decide)
    rw [address_sn, programPage_eq_clearBits _ hpage] at hrun
    exact hrun

/-- The memory after a history whose waits were all successful. -/
theorem runs_upkeep {us : List Upkeep} {t : Chip} (hc : c.busy = false)
    (h : m25p128.Runs (upkeep us : Prog Spi E Bool) c (.ok true) t) :
    t.memory = history us c.memory ∧ t.busy = false := by
  induction us generalizing c with
  | nil =>
    rcases Machine.runs_ret.mp h with ⟨-, rfl⟩
    exact ⟨rfl, hc⟩
  | cons u rest ih =>
    rcases h.of_bind_ok with ⟨status, c₁, h₁, h₂⟩
    rcases Machine.Runs.of_bind_value (fun _ _ hr => runs_upkeep_command hc hr) h₁ with
      ⟨c₂, hmem, h₃⟩
    rcases runs_pollReady h₃ with ⟨hkeep, hready⟩
    split at h₂
    · rename_i hstatus
      subst hstatus
      rcases ih (hready rfl) h₂ with ⟨hmem', hbusy⟩
      refine ⟨?_, hbusy⟩
      rw [hmem', hkeep, hmem]
      rfl
    · rcases Machine.runs_ret.mp h₂ with ⟨heq, -⟩
      cases heq

/-! ## On the registers -/

variable {α : Type} {latency rounds : Nat} {mck : U32}

/-- From power-up on, a program that sends one command in a selection runs on the registers as on
the chip. -/
theorem runs_on_registers {p : Prog Spi SpiMaster.Fault α} {good : α → Prop}
    {s₀ s t : State chipSlave} {x : Except SpiMaster.Fault α} (hfast : latency ≤ spiTimeout)
    (hrounds : latency < rounds) (hp : Sends good p) (hoff : Off s₀)
    (hframe : Chip.frame s₀.slave = [])
    (hinit : (spiUnit chipSlave latency).Runs (m25pSpiInit mck) s₀ (.ok ()) s)
    (hruns : (spiUnit chipSlave latency).Runs (p.implement (spiMaster rounds)) s x t) :
    ∃ c, m25p128.Runs p s₀.slave x c ∧ ∀ a, x = .ok a → m25p128.Moves c t.slave := by
  rcases hoff.runs_m25pSpiInit hinit with ⟨q, hq, hrest⟩
  have hstart : OnRegisters latency .outside s₀.slave s :=
    ⟨⟨s₀.slave, false⟩, q, ⟨rfl, hframe⟩, hq, hrest⟩
  rcases (implements_commands hfast hrounds).runs hp .refl hstart hruns with
    ⟨c, c', φ, hc, hm, hend, hgood⟩
  refine ⟨c, hc, ?_⟩
  intro a ha
  rcases hgood a ha with ⟨rfl, -⟩
  rcases hend with ⟨q₁, q₂, ⟨rfl, -⟩, hmoves, hresting⟩
  have hlast : Resting q₂ t := hresting
  have hslave := (slave_moves hmoves).1
  rw [hlast.bus] at hslave
  exact hm.trans hslave

theorem mrfPrefix_checkMac (mac : Fin 6 → U8) : MrfPrefix (checkMac mac) := by
  unfold checkMac
  split
  · rfl
  · rename_i hnot
    simp only [not_or, ne_eq, not_not] at hnot
    rcases hnot with ⟨h₀, h₁, h₂⟩
    change [mac 0, mac 1, mac 2] = _
    rw [h₀, h₁, h₂]
    rfl

/-- **The settings after any history**: on an SPI that was set up, the monitor changes the setup
sector any number of times, each time with a wait that is successful; after a power cycle the boot
code finds what the history has left of the sector, byte for byte, whatever that is, and its MAC
address always has the manufacturer's prefix. -/
theorem settings_of_history {us : List Upkeep} {s₀ s s₁ s₂ s₃ t : State chipSlave}
    {x : Except SpiMaster.Fault Settings} (hfast : latency ≤ spiTimeout)
    (hrounds : latency < rounds) (hoff : Off s₀) (hframe : Chip.frame s₀.slave = [])
    (hidle : Chip.busy s₀.slave = false)
    (hinit : (spiUnit chipSlave latency).Runs (m25pSpiInit mck) s₀ (.ok ()) s)
    (hupkeep : (spiUnit chipSlave latency).Runs ((upkeep us).implement (spiMaster rounds)) s
      (.ok true) s₁)
    (hoff' : Off s₂) (hpower : s₂.slave = Chip.powerUp s₁.slave)
    (hinit' : (spiUnit chipSlave latency).Runs (m25pSpiInit mck) s₂ (.ok ()) s₃)
    (hboot : (spiUnit chipSlave latency).Runs (loadSettings.implement (spiMaster rounds)) s₃ x t) :
    ∃ settings, x = .ok settings ∧
      settings.mac = checkMac (fun i : Fin 6 => history us (Chip.memory s₀.slave) (0xfc0000 + i)) ∧
      settings.serialNumber = checkSn (fun i : Fin snAsciiMaxlen =>
        history us (Chip.memory s₀.slave) (0xfc0006 + i)) ∧
      MrfPrefix settings.mac := by
  rcases runs_on_registers hfast hrounds (sends_upkeep us) hoff hframe hinit hupkeep with
    ⟨c, hc, hlater⟩
  rcases runs_upkeep hidle hc with ⟨hmem, hbusy⟩
  have hsame : s₁.slave = c := eq_of_moves hbusy (hlater true rfl)
  have hmemory : Chip.memory s₂.slave = history us (Chip.memory s₀.slave) := by
    rw [hpower, hsame]
    exact hmem
  have hframe' : Chip.frame s₂.slave = [] := by
    rw [hpower]
    rfl
  have hidle' : Chip.busy s₂.slave = false := by
    rw [hpower]
    rfl
  rcases runs_on_registers hfast hrounds sends_loadSettings hoff' hframe' hinit' hboot with
    ⟨d, hd, -⟩
  rcases runs_loadSettings hidle' hd with ⟨settings, hx, hmac, hsn⟩
  rw [hmemory] at hmac hsn
  refine ⟨settings, hx, hmac, hsn, ?_⟩
  rw [hmac]
  exact mrfPrefix_checkMac _

/-! ## An example -/

/-- What a chip sends that answers with zeros where nothing is asked of it. -/
def Chip.replyByte (c : Chip) : U8 :=
  match c.frame with
  | [] => 0
  | command :: rest =>
    if command = m25pRdsr then if c.busy then m25pSrWip else 0
    else
      match rest with
      | a₂ :: a₁ :: a₀ :: dummies => c.memory ((addressOf a₂ a₁ a₀ + dummies.length) % 2 ^ 24)
      | _ => 0

theorem sendsByte_replyByte (c : Chip) : c.SendsByte c.replyByte := by
  cases hframe : c.frame with
  | nil =>
    unfold Chip.SendsByte
    rw [hframe]
    trivial
  | cons command rest =>
    unfold Chip.SendsByte Chip.replyByte
    rw [hframe]
    constructor
    · intro hcommand
      change (if command = m25pRdsr then if c.busy then m25pSrWip else 0 else _) &&& _ = _ ↔ _
      rw [if_pos hcommand]
      cases c.busy <;> decide
    · rintro a₂ a₁ a₀ dummies rfl rfl -
      rfl

def chipPrompt : Prompt chipSlave where
  reply := Chip.replyByte
  sends := sendsByte_replyByte
  settle := Chip.settle
  moves c := (moves_settle c).1

/-- A run on the SPI with the chip. -/
def onChip {α : Type} (p : SpiProg α) (s : State chipSlave) :
    Except SpiMaster.Fault α × State chipSlave := Prog.run (State.respond chipPrompt) p s

/-- The SPI after power-up and its set-up. -/
def started (c : Chip) : State chipSlave :=
  (onChip (m25pSpiInit 84000000) (poweredUp chipSlave c)).2

/-- The setup sector is erased and both fields are written. -/
def sampleHistory : List Upkeep := [.erase, .writeSn sampleSn 2, .writeMac sampleMac]

def sampleKept : State chipSlave :=
  (onChip ((upkeep sampleHistory).implement (spiMaster 2)) (started blank)).2

def sampleBoot : Except SpiMaster.Fault Settings :=
  (onChip (loadSettings.implement (spiMaster 2)) (started (Chip.powerUp sampleKept.slave))).1

theorem settings_of_history_sample :
    ∃ settings, sampleBoot = .ok settings ∧
      settings.mac =
        checkMac (fun i : Fin 6 => history sampleHistory blank.memory (0xfc0000 + i)) ∧
      settings.serialNumber = checkSn (fun i : Fin snAsciiMaxlen =>
        history sampleHistory blank.memory (0xfc0006 + i)) ∧
      MrfPrefix settings.mac := by
  have hinit : ∀ c : Chip, (spiUnit chipSlave 1).Runs (m25pSpiInit 84000000)
      (poweredUp chipSlave c) (.ok ()) (started c) := fun c => runs_respond chipPrompt _ _
  have hsuccess : (onChip ((upkeep sampleHistory).implement (spiMaster 2)) (started blank)).1 =
      .ok true := by decide +kernel
  have hkept : (spiUnit chipSlave 1).Runs ((upkeep sampleHistory).implement (spiMaster 2))
      (started blank) (.ok true) sampleKept := by
    rw [← hsuccess]
    exact runs_respond chipPrompt _ _
  exact settings_of_history (by decide) (by decide) (off_poweredUp _ _) rfl rfl (hinit blank)
    hkept (off_poweredUp _ _) rfl (hinit _) (runs_respond chipPrompt _ _)

end Flash
