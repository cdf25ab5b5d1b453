import VmeSam3x.Flash.Chip
import Mathlib.Data.List.GetD

/-! # The settings across a power cycle

The MAC address and the serial number are neighbours in one page of the erased setup sector.
Each is written with its own enable, program, disable; the boot code reads fixed lengths and
applies its own checks.
-/

namespace Flash

open Interact Bytes CString

/-! ## The fields -/

inductive Field where
  | mac
  | sn
deriving DecidableEq, Repr

def Field.address : Field → Nat
  | .mac => 0xfc0000
  | .sn => 0xfc0006

def Field.size : Field → Nat
  | .mac => 6
  | .sn => snAsciiMaxlen

/-- The bytes of a field. -/
def Field.Covers (f : Field) (a : Nat) : Prop := f.address ≤ a ∧ a < f.address + f.size

/-- The setup sector is erased. -/
def Erased (s : Chip) : Prop := ∀ a, 0xfc0000 ≤ a → a < 0x1000000 → s.memory a = 0xff

variable {E : Type} {mac : Fin 6 → U8} {sn : Nat → U8} {str : List U8} {f g : Field}
  {s t : Chip} {x : Except E Status}

/-- Writing a field: a serial number goes with its terminator. -/
def writeField (mac : Fin 6 → U8) (sn : Nat → U8) (len : Nat) : Field → Prog Spi E Status
  | .mac => extFlashWriteMacAddress mac
  | .sn => extFlashWriteSn sn (len + 1)

/-- Writing a field and waiting for the flash. -/
def writeAndWait (mac : Fin 6 → U8) (sn : Nat → U8) (len : Nat) (f : Field) :
    Prog Spi E Status := do
  let _ ← writeField mac sn len f
  extFlashWaitForReady

/-- A serial number at a pointer: at most 25 characters, the first one alphanumeric. -/
structure SerialNumber (sn : Nat → U8) (str : List U8) : Prop where
  bytes : (List.range (str.length + 1)).map sn = str ++ [0]
  short : str.length < snAsciiMaxlen
  nonzero : 0 ∉ str
  alnum : isalnum (sn 0) = true

/-- The prefix of the manufacturer. -/
def MrfPrefix (mac : Fin 6 → U8) : Prop := (List.ofFn mac).take 3 = [0x00, 0x0e, 0xb2]

/-- What is written into a field. -/
def Field.data (mac : Fin 6 → U8) (str : List U8) : Field → List U8
  | .mac => List.ofFn mac
  | .sn => str ++ [0]

theorem length_data (mac : Fin 6 → U8) (hsn : SerialNumber sn str) (f : Field) :
    (f.data mac str).length ≤ f.size ∧ f.data mac str ≠ [] := by
  have hshort := hsn.short
  cases f with
  | mac => exact ⟨by simp [Field.data, Field.size], by simp [Field.data]⟩
  | sn =>
    refine ⟨?_, by simp [Field.data]⟩
    rw [Field.data, List.length_append]
    exact hshort

/-- The address the flash takes from the commands. -/
theorem address_mac :
    addressOf (byteAt 2 macAddressOffset) (byteAt 1 macAddressOffset)
      (byteAt 0 macAddressOffset) = 0xfc0000 := by decide

theorem address_sn :
    addressOf (byteAt 2 snAsciiOffset) (byteAt 1 snAsciiOffset) (byteAt 0 snAsciiOffset) =
      0xfc0006 := by decide

/-- The write of a field programs its data at its address. -/
theorem runs_writeField (hsn : SerialNumber sn str) (hs : s.busy = false)
    (h : m25p128.Runs (writeField mac sn str.length f) s x t) :
    x = .ok success ∧ t.memory = programPage s.memory f.address (f.data mac str) := by
  have hne := (length_data mac hsn f).2
  cases f with
  | mac =>
    have hrun := runs_enabledWrite hs hne h
    rw [address_mac] at hrun
    exact hrun
  | sn =>
    have hshort : ¬ str.length + 1 > snAsciiMaxlen := Nat.not_lt.mpr hsn.short
    change m25p128.Runs (extFlashWriteSn sn (str.length + 1)) s x t at h
    rw [extFlashWriteSn, if_neg hshort, hsn.bytes] at h
    have hrun := runs_enabledWrite hs hne h
    rw [address_sn] at hrun
    exact hrun

/-- The flash after a field was written: its data, and-ed into the bytes from its address. -/
structure Written (mac : Fin 6 → U8) (str : List U8) (f : Field) (s t : Chip) : Prop where
  inside : ∀ i (h : i < (f.data mac str).length),
    t.memory (f.address + i) = s.memory (f.address + i) &&& (f.data mac str)[i]
  outside : ∀ a, (a < f.address ∨ f.address + (f.data mac str).length ≤ a) →
    t.memory a = s.memory a

theorem runs_writeAndWait (hsn : SerialNumber sn str) (hs : s.busy = false)
    (h : m25p128.Runs (writeAndWait mac sn str.length f) s x t) :
    Written mac str f s t ∧ (x = .ok success → t.busy = false) := by
  rcases Machine.Runs.of_bind_value (fun _ _ hr => runs_writeField hsn hs hr) h with
    ⟨s', hmem, h₁⟩
  rcases runs_pollReady h₁ with ⟨hkeep, hready⟩
  rw [hmem] at hkeep
  have hlen := (length_data mac hsn f).1
  -- both fields lie in one page
  have hpage : f.address % 256 + (f.data mac str).length ≤ 256 := by
    cases f with
    | mac => exact Nat.le_trans (Nat.add_le_add_left hlen _) (by decide)
    | sn => exact Nat.le_trans (Nat.add_le_add_left hlen _) (by decide)
  refine ⟨⟨?_, ?_⟩, hready⟩
  · intro i hi
    rw [hkeep, programPage_eq _ hpage, dif_pos ⟨Nat.le_add_right _ _, Nat.add_lt_add_left hi _⟩]
    congr 1
    simp
  · intro a ha
    rw [hkeep, programPage_eq _ hpage, dif_neg (by omega)]

/-- The fields do not overlap. -/
theorem disjoint (hsn : SerialNumber sn str) (hfg : f ≠ g) {i : Nat}
    (hi : i < (f.data mac str).length) :
    f.address + i < g.address ∨ g.address + (g.data mac str).length ≤ f.address + i := by
  have hf := (length_data mac hsn f).1
  have hg := (length_data mac hsn g).1
  cases f with
  | mac =>
    cases g with
    | mac => exact absurd rfl hfg
    | sn =>
      simp only [Field.address, Field.size] at *
      omega
  | sn =>
    cases g with
    | mac =>
      simp only [Field.address, Field.size] at *
      omega
    | sn => exact absurd rfl hfg

theorem erased_field (h : Erased s) {i : Nat} (hi : i < f.size) :
    s.memory (f.address + i) = 0xff := by
  cases f with
  | mac =>
    simp only [Field.size, Field.address] at *
    exact h _ (by omega) (by omega)
  | sn =>
    simp only [Field.size, Field.address, snAsciiMaxlen] at *
    exact h _ (by omega) (by omega)

/-- Programming an erased byte stores it. -/
theorem erased_and (b : U8) : 0xff &&& b = b := by
  rw [BitVec.and_comm]
  exact BitVec.and_allOnes

/-- After both writes, in either order, both fields hold their data. -/
theorem stored (hsn : SerialNumber sn str) (hfg : f ≠ g) (herased : Erased s) {s₁ s₂ : Chip}
    (h₁ : Written mac str f s s₁) (h₂ : Written mac str g s₁ s₂) (k : Field) {i : Nat}
    (hi : i < (k.data mac str).length) : s₂.memory (k.address + i) = (k.data mac str)[i] := by
  have hsize : i < k.size := Nat.lt_of_lt_of_le hi (length_data _ hsn k).1
  have hk : k = f ∨ k = g := by
    cases f <;> cases g <;> cases k <;> first | exact .inl rfl | exact .inr rfl | exact absurd rfl hfg
  rcases hk with rfl | rfl
  · rw [h₂.outside _ (disjoint hsn hfg hi), h₁.inside i hi, erased_field herased hsize, erased_and]
  · rw [h₂.inside i hi, h₁.outside _ (disjoint hsn hfg.symm hi), erased_field herased hsize,
      erased_and]

/-! ## The boot code -/

theorem checkMac_of_prefix (h : MrfPrefix mac) : checkMac mac = mac := by
  have hbytes : [mac 0, mac 1, mac 2] = [0x00, 0x0e, 0xb2] := h
  injection hbytes with h₀ hbytes
  injection hbytes with h₁ hbytes
  injection hbytes with h₂ _
  unfold checkMac
  rw [if_neg]
  rw [h₀, h₁, h₂]
  decide

/-- The checks leave a serial number as it is. -/
theorem checkSn_holds (hsn : SerialNumber sn str) {A : Chars snAsciiMaxlen}
    (hA : ∀ i (h : i < (str ++ [0]).length) (h' : i < snAsciiMaxlen), A ⟨i, h'⟩ = (str ++ [0])[i]) :
    Holds (checkSn A) str := by
  have hlen : (str ++ [0]).length = str.length + 1 := by simp
  have hbytes : ∀ i (h : i < (str ++ [0]).length), sn i = (str ++ [0])[i] := by
    intro i hi
    have hget := List.getElem_of_eq hsn.bytes (i := i) (by simpa using hi)
    rwa [List.getElem_map, List.getElem_range] at hget
  -- the first character is read back, and passes
  have hfirst : isalnum (A 0) = true := by
    have h0 : 0 < (str ++ [0]).length := by omega
    rw [show A 0 = (str ++ [0])[0] from hA 0 h0 (by decide), ← hbytes 0 h0]
    exact hsn.alnum
  have hcheck : checkSn A = Function.update A 25 0 := by
    unfold checkSn
    rw [if_neg (by simp [hfirst])]
  have hlast : (25 : Fin snAsciiMaxlen).val = 25 := rfl
  have hshort := hsn.short
  refine holds_of_get hsn.nonzero hshort ?_ ?_
  · intro i hi
    have hne : (⟨i, Nat.lt_trans hi hshort⟩ : Fin snAsciiMaxlen) ≠ 25 := by
      intro heq
      have hval : i = 25 := congrArg Fin.val heq
      simp only [snAsciiMaxlen] at hshort
      omega
    rw [hcheck, Function.update_of_ne hne, hA i (by omega), List.getElem_append_left hi]
  · rw [hcheck]
    by_cases heq : (⟨str.length, hshort⟩ : Fin snAsciiMaxlen) = 25
    · rw [heq, Function.update_self]
    · rw [Function.update_of_ne heq, hA str.length (by omega)]
      simp

/-- The array after a read of `len` bytes. -/
theorem fill_bytesAt {len a : Nat} {r : ReadResult len} (hdata : r.data = s.bytesAt a len)
    (ha : a + len ≤ 2 ^ 24) (A : Chars len) : r.fill A = fun i : Fin len => s.memory (a + i) := by
  funext i
  have hi : (a + i) % 2 ^ 24 = a + i := Nat.mod_eq_of_lt (by omega)
  rw [ReadResult.fill, hdata, List.getD_eq_getElem _ _ (by simp [Chip.bytesAt])]
  simp only [Chip.bytesAt, List.getElem_map, List.getElem_range, hi]

/-- The boot code on a chip that is not busy. -/
theorem runs_loadSettings {x : Except E Settings} (hs : s.busy = false)
    (h : m25p128.Runs loadSettings s x t) :
    ∃ settings, x = .ok settings ∧
      settings.mac = checkMac (fun i : Fin 6 => s.memory (0xfc0000 + i)) ∧
      settings.serialNumber = checkSn (fun i : Fin snAsciiMaxlen => s.memory (0xfc0006 + i)) := by
  rcases Machine.Runs.of_bind_of_ok (fun _ _ hr => runs_readData hs hr) h with
    ⟨r, s₁, ⟨hsn, hmem₁, hs₁⟩, h₁⟩
  -- the identification lies between the two reads and changes nothing
  rcases Machine.Runs.of_bind_of_ok (fun _ _ hr => runs_query hs₁ (by decide) hr) h₁ with
    ⟨_, s₂, ⟨-, -, hmem₂, hs₂⟩, h₂⟩
  rcases Machine.Runs.of_bind_of_ok (fun _ _ hr => runs_readData hs₂ hr) h₂ with
    ⟨r', s₃, ⟨hmac, -, -⟩, h₃⟩
  rcases Machine.runs_ret.mp h₃ with ⟨rfl, rfl⟩
  rw [address_sn] at hsn
  rw [address_mac] at hmac
  refine ⟨_, rfl, ?_, ?_⟩
  · change checkMac (r'.fill _) = _
    rw [fill_bytesAt hmac (by decide), hmem₂, hmem₁]
  · change checkSn (r.fill _) = _
    rw [fill_bytesAt hsn (by decide)]

/-! ## A chip that is never seen busy -/

/-- The end of programming or erasing. -/
def Chip.settle (s : Chip) : Chip :=
  if s.busy then { s with busy := false, latch := false } else s

/-- What an idle chip sends. -/
def Chip.sends (s : Chip) (len : Nat) : List U8 :=
  match s.frame with
  | [_, a₂, a₁, a₀] => s.bytesAt (addressOf a₂ a₁ a₀) len
  | _ => List.replicate len 0

theorem length_sends (s : Chip) (len : Nat) : (s.sends len).length = len := by
  unfold Chip.sends
  split <;> simp [Chip.bytesAt]

/-- A chip that settles before each operation. -/
def promptChip : Handler Spi Chip
  | .select, s => ((), { s.settle with frame := [] })
  | .deselect, s => ((), s.settle.release)
  | .writePacket data, s => (success, { s.settle with frame := s.settle.frame ++ data })
  | .readPacket len, s => (⟨success, s.settle.sends len, fun _ => length_sends _ len⟩, s.settle)

theorem moves_settle (s : Chip) : m25p128.Moves s s.settle ∧ s.settle.busy = false := by
  unfold Chip.settle
  split
  · rename_i hbusy
    exact ⟨.single (.finish hbusy), rfl⟩
  · rename_i hbusy
    exact ⟨.refl, by simpa using hbusy⟩

theorem sends_of_idle (hs : s.busy = false) (len : Nat) : s.Sends (s.sends len) := by
  unfold Chip.Sends Chip.sends
  split
  · rename_i hframe
    intro _ b hb
    rw [hframe] at hb
    rw [List.eq_of_mem_replicate hb, hs]
    decide
  · rename_i hframe
    intro _ _
    rw [hframe]
    simp [Chip.bytesAt]
  · trivial

theorem runs_promptChip {α : Type} (p : Prog Spi E α) (s : Chip) :
    m25p128.Runs p s (Prog.run promptChip p s).1 (Prog.run promptChip p s).2 := by
  refine Machine.Runs.of_handler (M := m25p128) ?_ p s
  intro s o
  rcases moves_settle s with ⟨hmoves, hidle⟩
  refine ⟨s.settle, hmoves, ?_⟩
  cases o with
  | select => rfl
  | deselect => rfl
  | writePacket data => exact ⟨rfl, rfl⟩
  | readPacket len => exact ⟨rfl, sends_of_idle hidle len, rfl⟩

/-! ## Writing, switching off and booting -/

/-- **The settings survive a power cycle.** Both fields are written to the erased sector of an
idle chip, in either order, each with a wait that is successful; the boot code then runs, and always
finds the MAC address and the serial number; and neither write has changed a byte outside its
field. -/
theorem settings_survive_powerCycle {s₁ s₂ : Chip}
    (hmac : MrfPrefix mac) (hsn : SerialNumber sn str) (hfg : f ≠ g) (hs : s.busy = false)
    (herased : Erased s)
    (h₁ : m25p128.Runs (E := E) (writeAndWait mac sn str.length f) s (.ok success) s₁)
    (h₂ : m25p128.Runs (E := E) (writeAndWait mac sn str.length g) s₁ (.ok success) s₂) :
    (∃ x t, m25p128.Runs (E := E) loadSettings s₂.powerUp x t) ∧
      (∀ x t, m25p128.Runs (E := E) loadSettings s₂.powerUp x t →
        ∃ settings, x = .ok settings ∧ settings.mac = mac ∧ Holds settings.serialNumber str) ∧
      (∀ a, ¬ f.Covers a → s₁.memory a = s.memory a) ∧
      (∀ a, ¬ g.Covers a → s₂.memory a = s₁.memory a) := by
  rcases runs_writeAndWait hsn hs h₁ with ⟨hw₁, hready₁⟩
  rcases runs_writeAndWait hsn (hready₁ rfl) h₂ with ⟨hw₂, -⟩
  have hstored := stored hsn hfg herased hw₁ hw₂
  have houtside : ∀ (k : Field) (s s' : Chip), Written mac str k s s' →
      ∀ a, ¬ k.Covers a → s'.memory a = s.memory a := by
    intro k s s' hw a ha
    have hlen := (length_data mac hsn k).1
    refine hw.outside a ?_
    unfold Field.Covers at ha
    omega
  refine ⟨⟨_, _, runs_promptChip _ _⟩, ?_, houtside f s s₁ hw₁, houtside g s₁ s₂ hw₂⟩
  intro x t h
  -- the boot code only sees what the two writes have left in the memory
  rcases runs_loadSettings rfl h with ⟨settings, hx, hsmac, hssn⟩
  refine ⟨settings, hx, ?_, ?_⟩
  · have hread : (fun i : Fin 6 => s₂.powerUp.memory (0xfc0000 + i)) = mac := by
      funext i
      have hget : s₂.memory (0xfc0000 + i) = (List.ofFn mac)[i.val] :=
        hstored .mac (by simp [Field.data])
      rw [List.getElem_ofFn] at hget
      exact hget
    rw [hsmac, hread, checkMac_of_prefix hmac]
  · rw [hssn]
    refine checkSn_holds hsn ?_
    intro i hi hi'
    exact hstored .sn hi

/-- An erased flash. -/
def blank : Chip := ⟨fun _ => 0xff, false, false, []⟩

/-- The address 00:0E:B2:01:02:03. -/
def sampleMac : Fin 6 → U8
  | 0 => 0x00
  | 1 => 0x0e
  | 2 => 0xb2
  | 3 => 0x01
  | 4 => 0x02
  | 5 => 0x03

/-- The string `A7` at a pointer. -/
def sampleSn (i : Nat) : U8 := [0x41, 0x37].getD i 0

def sampleWrite (f : Field) : Prog Spi Unit Status := writeAndWait sampleMac sampleSn 2 f

/-- The serial number is written first. -/
theorem settings_survive_powerCycle_blank :
    ∃ settings,
      (Prog.run promptChip (loadSettings (E := Unit))
        (Prog.run promptChip (sampleWrite .mac)
          (Prog.run promptChip (sampleWrite .sn) blank).2).2.powerUp).1 = .ok settings ∧
      settings.mac = sampleMac ∧ Holds settings.serialNumber [0x41, 0x37] := by
  have h₁ := runs_promptChip (sampleWrite .sn) blank
  have h₂ := runs_promptChip (sampleWrite .mac) (Prog.run promptChip (sampleWrite .sn) blank).2
  have hsn : SerialNumber sampleSn [0x41, 0x37] := ⟨by decide, by decide, by decide, by decide⟩
  have hmac : MrfPrefix sampleMac := rfl
  exact (settings_survive_powerCycle hmac hsn (f := .sn) (g := .mac) nofun rfl
    (fun _ _ _ => rfl) h₁ h₂).2.1 _ _ (runs_promptChip _ _)

end Flash
