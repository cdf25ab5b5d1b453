import VmeSam3x.Fpga.Device
import VmeSam3x.Serial.Numerals
import VmeSam3x.Serial.Session

/-! # What the monitor shows

On an FPGA that answers, the `D` command shows what is in the memory, and the `M` command leaves
there what was typed.
-/

namespace Serial

open Interact Bytes CString Flash Fpga

/-- The operator and the flash, the FPGA, and what the monitor has printed. -/
structure Desk where
  world : World
  dev : Device
  out : List String

/-- The texts of an operation. -/
def printed : MonitorOp → List String
  | .print text => [text]
  | _ => []

/-- The FPGA answers, and everything else is successful. -/
def desk (u : Unspecified) (bus : Env Spi) : Handler Console Desk
  | .twi o, s => ((Device.handler u o s.dev).1, { s with dev := (Device.handler u o s.dev).2 })
  | .monitor o, s =>
    ((world bus o s.world).1, ⟨(world bus o s.world).2, s.dev, s.out ++ printed o⟩)
  | .twiAddressed _ _ _, s => (TwiStatus.success, s)
  | .peek _, s => ((0 : U32), s)
  | .poke _ _, s => ((), s)
  | .setPinLevel _ _, s => ((), s)
  | .delay _, s => ((), s)

variable {u : Unspecified} {bus : Env Spi} {s : Desk} {α : Type} {l l' : Locals} {r : Regs}

theorem run_fpga (p : Prog Twi Fault α) :
    Prog.run (desk u bus) (fpga p) s =
      ((Prog.run (Device.handler u) p s.dev).1,
        { s with dev := (Prog.run (Device.handler u) p s.dev).2 }) :=
  @Prog.run_embed _ _ _ _ _ _ _ _ _ Desk.dev (fun s d => { s with dev := d }) (fun _ _ => rfl)
    (fun _ _ _ => rfl) (fun _ => rfl) (fun _ _ => rfl) p s

/-- The number reader prints nothing. -/
theorem run_hexread {accepted : Bool} {d : U32} {rest : List U8}
    (h : typedNumber s.world.input = some (accepted, d, rest)) :
    Prog.run (desk u bus) (serial serialHexread32) s =
      (.ok (accepted, d), { s with world := ⟨rest, s.world.spi⟩ }) := by
  have hread := run_serialHexread32 bus s.world.spi s.world.input
  rw [h] at hread
  have hquiet : serialHexread32.Uses (fun o => printed o = []) :=
    hexreadLoop_uses (K := fun o => printed o = []) rfl (fun _ => rfl) 8 0 0
  have hrun : Prog.run (desk u bus) (serial serialHexread32) s = _ :=
    Prog.run_embed_of_uses Desk.world (fun s w => { s with world := w }) (h := world bus)
      (fun _ _ => rfl) (fun _ _ _ => rfl) (fun _ => rfl)
      (fun o s ho => by
        change (_, Desk.mk _ _ (s.out ++ printed o)) = _
        rw [ho, List.append_nil]
        rfl) hquiet s
  rw [hrun, hread]

theorem run_show (text : String) :
    Prog.run (desk u bus) (serial (print text)) s =
      (.ok (), { s with out := s.out ++ [text] }) := rfl

/-- The cell of a size at an address, as a number. -/
def cell (m : Memory 32) (a : U32) : Size → Nat
  | .byte => (read8 m a).toNat
  | .short => (read16 m a).toNat
  | .long => (read32 m a).toNat

/-- The text of a cell. -/
def cellText (m : Memory 32) (size : Size) (a : U32) : String :=
  " " ++ hexNumber (2 * size.bytes) (cell m a size)

theorem run_fpgaReadByte {E : Type} (dataFull a : U32) (x : U8) (d : Device) :
    Prog.run (Device.handler u) (fpgaReadByte dataFull a x : Prog Twi E (TwiStatus × U8)) d =
      (.ok (.success, read8 d.mem a),
        { d with addr := a, latch := Device.load u { d with addr := a } 1 }) := by
  rw [fpgaReadByte, Prog.run_bind, run_fpgaReadFull]
  simp only [if_true, Prog.pure_eq_ret, Prog.run_ret, ← byteAt_load_one u { d with addr := a }]
  simp

/-- An access shows the cell and leaves the memory alone. -/
theorem run_printCell (x : U32) (size : Size) :
    ∃ d, d.mem = s.dev.mem ∧ Prog.run (desk u bus) (printCell l x size) s =
      (.ok (), ⟨s.world, d, s.out ++ [cellText s.dev.mem size x]⟩) := by
  cases size with
  | byte =>
    refine ⟨⟨x, Device.load u ⟨x, s.dev.latch, s.dev.mem⟩ 1, s.dev.mem⟩, rfl, ?_⟩
    rw [printCell, Prog.run_bind, run_fpga, run_fpgaReadByte]
    rfl
  | short =>
    refine ⟨⟨x, Device.load u ⟨x, s.dev.latch, s.dev.mem⟩ 2, s.dev.mem⟩, rfl, ?_⟩
    rw [printCell, Prog.run_bind, run_fpga, run_fpgaReadShort]
    rfl
  | long =>
    refine ⟨⟨x, Device.load u ⟨x, s.dev.latch, s.dev.mem⟩ 4, s.dev.mem⟩, rfl, ?_⟩
    rw [printCell, Prog.run_bind, run_fpga, run_fpgaReadLong]
    rfl

/-- The texts of the cells from an address on. -/
def cellTexts (m : Memory 32) (size : Size) : Nat → U32 → List String
  | 0, _ => []
  | left + 1, x => cellText m size x :: cellTexts m size left (x + BitVec.ofNat 32 size.bytes)

theorem run_dumpLoop (size : Size) (left : Nat) (x : U32) :
    ∃ d, d.mem = s.dev.mem ∧ Prog.run (desk u bus) (dumpLoop l size left x) s =
      (.ok (x + BitVec.ofNat 32 (left * size.bytes)),
        ⟨s.world, d, s.out ++ cellTexts s.dev.mem size left x⟩) := by
  induction left generalizing s x with
  | zero =>
    refine ⟨s.dev, rfl, ?_⟩
    rw [dumpLoop, cellTexts, Nat.zero_mul, BitVec.add_zero, List.append_nil]
    rfl
  | succ left ih =>
    rcases @run_printCell u bus s l x size with ⟨d, hd, hcell⟩
    rcases ih (s := ⟨s.world, d, s.out ++ [cellText s.dev.mem size x]⟩)
      (x + BitVec.ofNat 32 size.bytes) with ⟨d', hd', hrest⟩
    refine ⟨d', hd'.trans hd, ?_⟩
    rw [dumpLoop, Prog.run_bind, hcell]
    have hx : x + BitVec.ofNat 32 size.bytes + BitVec.ofNat 32 (left * size.bytes) =
        x + BitVec.ofNat 32 ((left + 1) * size.bytes) := by
      rw [BitVec.add_assoc, ← BitVec.ofNat_add, Nat.succ_mul, Nat.add_comm (left * size.bytes)]
    have hout : s.out ++ [cellText s.dev.mem size x] ++
        cellTexts d.mem size left (x + BitVec.ofNat 32 size.bytes) =
          s.out ++ cellTexts s.dev.mem size (left + 1) x := by
      rw [hd, List.append_assoc]
      rfl
    rw [← hx, ← hout]
    exact hrest

/-- What follows a part that returns. -/
theorem run_then {β : Type} {p : ConsoleProg α} {f : α → ConsoleProg β} {a : α} {t : Desk}
    (h : Prog.run (desk u bus) p s = (.ok a, t)) :
    Prog.run (desk u bus) (p >>= f) s = Prog.run (desk u bus) (f a) t := by
  rw [Prog.run_bind, h]

/-- The text in front of the cells. -/
def heading (r : Regs) (mark : String) : String := "\r\n" ++ hexNumber 8 r.aligned.toNat ++ mark

/-- **The dump is the memory.** -/
theorem run_dumpCommand :
    ∃ d, d.mem = s.dev.mem ∧ Prog.run (desk u bus) (dumpCommand l r) s =
      (.ok { r with x := r.aligned + 16 }, ⟨s.world, d, s.out ++ heading r ":" ::
        cellTexts s.dev.mem r.size r.size.cells r.aligned⟩) := by
  rcases @run_dumpLoop u bus ⟨s.world, s.dev, s.out ++ [heading r ":"]⟩ l r.size r.size.cells
    r.aligned with ⟨d, hd, hloop⟩
  refine ⟨d, hd, ?_⟩
  have hcells : r.size.cells * r.size.bytes = 16 := by
    cases r.size <;> rfl
  have hshow : Prog.run (desk u bus) (serial (print (heading r ":"))) s =
      (.ok (), ⟨s.world, s.dev, s.out ++ [heading r ":"]⟩) := rfl
  rw [hcells, List.append_assoc] at hloop
  rw [dumpCommand]
  exact (run_then hshow).trans (run_then hloop)

/-! ## Writing -/

/-- The bytes of a store. -/
def lowBytes (d : U32) : Size → List U8
  | .byte => [byteAt 0 d]
  | .short => [byteAt 1 (d.setWidth 16), byteAt 0 (d.setWidth 16)]
  | .long => [byteAt 3 d, byteAt 2 d, byteAt 1 d, byteAt 0 d]

theorem run_fpgaWriteByte {E : Type} (a : U32) (x : U8) (d : Device) :
    Prog.run (Device.handler u) (fpgaWriteByte a x : Prog Twi E TwiStatus) d =
      (.ok .success, { d with addr := a, mem := d.mem.store a [x] }) := by
  rw [fpgaWriteByte, run_fpgaWriteBuffer]
  simp

theorem run_writeCell (x d : U32) (size : Size) :
    Prog.run (desk u bus) (writeCell x d size) s =
      (.ok .success,
        ⟨s.world, ⟨x, s.dev.latch, s.dev.mem.store x (lowBytes d size)⟩, s.out⟩) := by
  cases size with
  | byte =>
    rw [writeCell, run_fpga, run_fpgaWriteByte]
    rfl
  | short =>
    rw [writeCell, run_fpga, run_fpgaWriteShort]
    rfl
  | long =>
    rw [writeCell, run_fpga, run_fpgaWriteLong]
    rfl

/-- A cell holds what was stored, as far as it fits. -/
theorem cell_store (m : Memory 32) (x d : U32) (size : Size) :
    cell (m.store x (lowBytes d size)) x size = d.toNat % 2 ^ (8 * size.bytes) := by
  have hlen : (lowBytes d size).length ≤ 2 ^ 32 := by
    have hbytes : (lowBytes d size).length = size.bytes := by
      cases size <;> rfl
    rw [hbytes]
    cases size <;> decide
  have hload := Memory.load_store m x hlen
  -- what is loaded from there is what was stored, byte by byte
  generalize m.store x (lowBytes d size) = m' at hload ⊢
  cases size with
  | byte =>
    rcases List.cons.inj hload with ⟨h₀, -⟩
    have hlow : byteAt 0 d = d.setWidth 8 := by
      refine byteAt_eq (by decide) fun i hi => ?_
      rw [BitVec.getLsbD_setWidth, decide_eq_true hi, Bool.true_and, Nat.mul_zero, Nat.zero_add]
    rw [cell, read8, h₀, hlow]
    exact BitVec.toNat_setWidth _ _
  | short =>
    rcases List.cons.inj hload with ⟨h₁, hrest⟩
    rcases List.cons.inj hrest with ⟨h₀, -⟩
    have hlow : m' (x + 1) = byteAt 0 (d.setWidth 16) := h₀
    rw [cell, read16, h₁, hlow, word16_byteAt]
    exact BitVec.toNat_setWidth _ _
  | long =>
    rcases List.cons.inj hload with ⟨h₃, hrest⟩
    rcases List.cons.inj hrest with ⟨h₂, hrest⟩
    rcases List.cons.inj hrest with ⟨h₁, hrest⟩
    rcases List.cons.inj hrest with ⟨h₀, -⟩
    rw [BitVec.add_assoc] at h₁ h₀
    rw [BitVec.add_assoc] at h₀
    have hone : m' (x + 1) = byteAt 2 d := h₂
    have htwo : m' (x + 2) = byteAt 1 d := h₁
    have hthree : m' (x + 3) = byteAt 0 d := h₀
    have hword : read32 m' x = d := by
      rw [read32, h₃, hone, htwo, hthree, word32_byteAt]
    rw [cell, hword]
    exact (Nat.mod_eq_of_lt d.isLt).symm

/-- **The command stores what was typed.** -/
theorem run_modifyCommand {d : U32} {rest : List U8}
    (h : typedNumber s.world.input = some (true, d, rest)) :
    ∃ dev, dev.mem = s.dev.mem.store r.aligned (lowBytes d r.size) ∧
      Prog.run (desk u bus) (modifyCommand l r) s =
        (.ok { r with x := r.aligned }, ⟨⟨rest, s.world.spi⟩, dev,
          s.out ++ [heading r ": ", cellText s.dev.mem r.size r.aligned, " ? "]⟩) := by
  rcases @run_printCell u bus ⟨s.world, s.dev, s.out ++ [heading r ": "]⟩ l r.aligned r.size
    with ⟨dev, hdev, hcell⟩
  have hread := @run_hexread u bus
    ⟨s.world, dev, s.out ++ [heading r ": "] ++ [cellText s.dev.mem r.size r.aligned] ++ [" ? "]⟩
    _ _ _ h
  refine ⟨⟨r.aligned, dev.latch, dev.mem.store r.aligned (lowBytes d r.size)⟩, by rw [hdev], ?_⟩
  have hshow : Prog.run (desk u bus) (serial (print (heading r ": "))) s =
      (.ok (), ⟨s.world, s.dev, s.out ++ [heading r ": "]⟩) := rfl
  rw [modifyCommand]
  refine (run_then hshow).trans ((run_then hcell).trans ((run_then (run_show _)).trans ?_))
  refine (run_then hread).trans ((run_then (run_writeCell _ _ _)).trans ?_)
  rw [List.append_assoc, List.append_assoc]
  rfl

/-- **What is typed is shown.** On an FPGA that answers, whatever it holds, whatever the size and
the address: after `M` with an accepted number, `D` shows the number first, as far as it fits into
the cell, then the other cells as they are. -/
theorem dump_after_modify {d : U32} {rest : List U8}
    (h : typedNumber s.world.input = some (true, d, rest)) :
    ∃ dev, dev.mem = s.dev.mem.store r.aligned (lowBytes d r.size) ∧
      Prog.run (desk u bus) (modifyCommand l r >>= dumpCommand l') s =
        (.ok ⟨r.aligned + 16, r.size⟩, ⟨⟨rest, s.world.spi⟩, dev, s.out ++
          [heading r ": ", cellText s.dev.mem r.size r.aligned, " ? ", heading r ":",
            " " ++ hexNumber (2 * r.size.bytes) (d.toNat % 2 ^ (8 * r.size.bytes))] ++
          cellTexts dev.mem r.size (r.size.cells - 1)
            (r.aligned + BitVec.ofNat 32 r.size.bytes)⟩) := by
  rcases run_modifyCommand (u := u) (r := r) (s := s) (l := l) h with ⟨dev, hdev, hmodify⟩
  rcases @run_dumpCommand u bus ⟨⟨rest, s.world.spi⟩, dev, s.out ++
    [heading r ": ", cellText s.dev.mem r.size r.aligned, " ? "]⟩ l' ⟨r.aligned, r.size⟩
    with ⟨dev', hdev', hdump⟩
  -- `M` leaves `x` aligned, and aligning it again changes nothing
  have hsame : Regs.aligned ⟨r.aligned, r.size⟩ = r.aligned := by
    unfold Regs.aligned
    rw [BitVec.and_assoc, BitVec.and_self]
  have hcells : r.size.cells = r.size.cells - 1 + 1 := by
    cases r.size <;> rfl
  have hfirst : cellTexts dev.mem r.size r.size.cells r.aligned =
      (" " ++ hexNumber (2 * r.size.bytes) (d.toNat % 2 ^ (8 * r.size.bytes))) ::
        cellTexts dev.mem r.size (r.size.cells - 1)
          (r.aligned + BitVec.ofNat 32 r.size.bytes) := by
    rw [hcells, cellTexts, cellText, hdev, cell_store]
    rfl
  have hheading : heading ⟨r.aligned, r.size⟩ ":" = heading r ":" := by
    unfold heading
    rw [hsame]
  refine ⟨dev', hdev'.trans hdev, (run_then hmodify).trans (hdump.trans ?_)⟩
  simp only [hsame, hheading, hfirst, hdev', List.append_assoc, List.cons_append, List.nil_append]

/-- A short at an odd address: the cell below it. -/
theorem dump_after_modify_short :
    ∃ dev, dev.mem = Memory.store (fun _ => 0) 2 [0, 5] ∧
      Prog.run (desk ⟨fun _ => 0, fun _ => 0⟩ quietBus)
        (modifyCommand zeroLocals ⟨3, .short⟩ >>= dumpCommand zeroLocals)
        ⟨⟨[0x35, 0x0d], []⟩, blankDevice, []⟩ =
        (.ok ⟨18, .short⟩, ⟨⟨[], []⟩, dev,
          ["\r\n00000002: ", " 0000", " ? ", "\r\n00000002:", " 0005"] ++
          cellTexts dev.mem .short 7 4⟩) :=
  @dump_after_modify ⟨fun _ => 0, fun _ => 0⟩ quietBus ⟨⟨[0x35, 0x0d], []⟩, blankDevice, []⟩
    zeroLocals zeroLocals ⟨3, .short⟩ 5 [] rfl

end Serial
