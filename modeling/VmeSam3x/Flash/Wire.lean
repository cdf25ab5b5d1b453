import VmeSam3x.Flash.Chip
import VmeSam3x.SpiMaster.Setup

/-! # The flash chip on the wire

On the wire the chip gets one byte after the other, the dummies of a read among them, and sends one
for each. The functions of the flash driver send one command in a selection and read at most once,
after a command that has an answer; for such programs the registers, the wire and the chip together
are what `Chip.lean` says of packets.
-/

namespace Flash

open Interact Bytes SpiMaster

variable {E : Type} {c c' : Chip} {latency rounds : Nat} {α : Type}

/-! ## The chip as a slave -/

/-- What the chip sends next: its status again and again, or the byte whose turn it is. -/
def Chip.SendsByte (c : Chip) (b : U8) : Prop :=
  match c.frame with
  | [] => True
  | command :: rest =>
    (command = m25pRdsr → (b &&& m25pSrWip = 0 ↔ c.busy = false)) ∧
    ∀ a₂ a₁ a₀ dummies, command = m25pRead → rest = a₂ :: a₁ :: a₀ :: dummies →
      c.busy = false → b = c.memory ((addressOf a₂ a₁ a₀ + dummies.length) % 2 ^ 24)

/-- The chip with another frame. -/
def Chip.withFrame (c : Chip) (frame : List U8) : Chip := { c with frame := frame }

/-- The end of programming or erasing does not depend on the bytes under way. -/
theorem finishes_withFrame (h : c.Finishes c') (frame : List U8) :
    (c.withFrame frame).Finishes (c'.withFrame frame) := by
  cases h with
  | finish hbusy => exact .finish hbusy

theorem moves_withFrame (h : m25p128.Moves c c') (frame : List U8) :
    m25p128.Moves (c.withFrame frame) (c'.withFrame frame) := by
  induction h with
  | refl => exact .refl
  | tail _ hstep ih => exact ih.tail (finishes_withFrame hstep frame)

abbrev chipSlave : Slave where
  State := Chip
  move := Chip.Finishes
  sends := Chip.SendsByte
  receive c b := c.withFrame (c.frame ++ [b])
  raise := Chip.release
  move_receive := by
    intro u u' b h
    have hframe : u'.frame = u.frame := by
      cases h
      rfl
    rw [hframe]
    exact .single (finishes_withFrame h _)

theorem receiveAll_chip (c : Chip) (bytes : List U8) :
    chipSlave.receiveAll c bytes = c.withFrame (c.frame ++ bytes) := by
  induction bytes generalizing c with
  | nil =>
    rw [List.append_nil]
    rfl
  | cons b rest ih =>
    change chipSlave.receiveAll (c.withFrame (c.frame ++ [b])) rest = _
    rw [ih]
    change c.withFrame (c.frame ++ [b] ++ rest) = _
    rw [List.append_assoc]
    rfl

/-- A chip whose frame is `frame`, seen with another one, moves as it does with its own. -/
theorem moves_of_withFrame {frame : List U8} {d : Chip}
    (h : m25p128.Moves (c.withFrame frame) d) :
    ∃ c', m25p128.Moves c c' ∧ d = c'.withFrame frame := by
  have hback := moves_withFrame h c.frame
  refine ⟨d.withFrame c.frame, hback, ?_⟩
  have hlater := (later_of_moves h).frame
  change d = d.withFrame frame
  have hframe : d.frame = frame := hlater
  rw [← hframe]
  rfl

/-- A whole read from a chip that is not busy: every byte is the one whose turn it is. -/
theorem reads_ready {data : List U8} {t : Chip} (h : chipSlave.Reads c data t)
    (hready : c.busy = false) :
    t = c.withFrame (c.frame ++ List.replicate data.length dummy) ∧
      ∀ i (hi : i < data.length),
        (c.withFrame (c.frame ++ List.replicate i dummy)).SendsByte data[i] := by
  induction data generalizing c with
  | nil =>
    have hm : m25p128.Moves c t := h.moves
    refine ⟨?_, fun i hi => absurd hi (Nat.not_lt_zero i)⟩
    rw [eq_of_moves hready hm]
    change c = c.withFrame (c.frame ++ [])
    rw [List.append_nil]
    rfl
  | cons r rest ih =>
    rcases h.tail with ⟨v, hm, hr, hrest⟩
    have hv : v = c := eq_of_moves hready hm
    subst hv
    rcases ih hrest hready with ⟨ht, hsends⟩
    constructor
    · rw [ht]
      change v.withFrame (v.frame ++ [dummy] ++ List.replicate rest.length dummy) = _
      rw [List.append_assoc]
      rfl
    · intro i hi
      cases i with
      | zero =>
        change (v.withFrame (v.frame ++ [])).SendsByte r
        rw [List.append_nil]
        exact hr
      | succ i =>
        have hsend := hsends i (Nat.lt_of_succ_lt_succ hi)
        change (v.withFrame (v.frame ++ [dummy] ++ List.replicate i dummy)).SendsByte _ at hsend
        rw [List.append_assoc] at hsend
        exact hsend

/-- What a read leaves, whether the chip is busy or not. -/
theorem reads_moves {data : List U8} {t : Chip} (h : chipSlave.Reads c data t) :
    ∃ c', m25p128.Moves c c' ∧
      t = c'.withFrame (c.frame ++ List.replicate data.length dummy) := by
  induction data generalizing c with
  | nil =>
    have hm : m25p128.Moves c t := h.moves
    refine ⟨t, hm, ?_⟩
    change t = t.withFrame (c.frame ++ [])
    rw [List.append_nil, ← (later_of_moves hm).frame]
    rfl
  | cons r rest ih =>
    rcases h.tail with ⟨v, hv, -, hrest⟩
    have hm : m25p128.Moves c v := hv
    rcases ih hrest with ⟨d, hd, ht⟩
    have hd' : m25p128.Moves (v.withFrame (v.frame ++ [dummy])) d := hd
    rcases moves_of_withFrame hd' with ⟨c', hc', rfl⟩
    refine ⟨c', hm.trans hc', ?_⟩
    rw [ht]
    change c'.withFrame (v.frame ++ [dummy] ++ List.replicate rest.length dummy) = _
    rw [List.append_assoc, (later_of_moves hm).frame]
    rfl

/-! ## One command in a selection -/

/-- The commands that have an answer, and its length where it matters. -/
def Query (frame : List U8) (len : Nat) : Prop :=
  frame = [m25pRdsr] ∧ len = 1 ∨ frame = [m25pRdid] ∨
    ∃ a₂ a₁ a₀, frame = [m25pRead, a₂, a₁, a₀]

/-- Such a command changes nothing, whatever follows it in the selection. -/
theorem release_query (c : Chip) {frame : List U8} (dummies : List U8) {len : Nat}
    (h : Query frame len) :
    (c.withFrame (frame ++ dummies)).release = c.withFrame [] := by
  have hchange : ∀ command rest, command ≠ m25pWren → command ≠ m25pWrdi →
      ¬ Changes command → (c.withFrame (command :: rest)).release = c.withFrame [] := by
    intro command rest hwren hwrdi hnot
    have hpp : command ≠ m25pPp := fun h => hnot (.inl h)
    have hse : command ≠ m25pSe := fun h => hnot (.inr (.inl h))
    have hbe : command ≠ m25pBe := fun h => hnot (.inr (.inr h))
    rw [Chip.release]
    split
    · rfl
    · simp only [Chip.execute, Chip.withFrame, if_neg hwren, if_neg hwrdi, if_neg hpp, if_neg hse,
        if_neg hbe]
      split
      · split <;> rfl
      · rfl
  rcases h with ⟨rfl, -⟩ | rfl | ⟨a₂, a₁, a₀, rfl⟩
  · exact hchange _ _ (by decide) (by decide) (by decide)
  · exact hchange _ _ (by decide) (by decide) (by decide)
  · exact hchange _ _ (by decide) (by decide) (by decide)

/-- What an answer on the wire says about the packet. -/
theorem sends_of_reads {data : List U8} {len : Nat} {t : Chip} (hquery : Query c.frame len)
    (hlen : data.length = len) (h : chipSlave.Reads c data t) :
    ∃ v c', m25p128.Moves c v ∧ v.Sends data ∧ m25p128.Moves v c' ∧
      t = c'.withFrame (c.frame ++ List.replicate data.length dummy) := by
  rcases reads_moves h with ⟨c', hc', ht⟩
  rcases hquery with ⟨hframe, hone⟩ | hframe | ⟨a₂, a₁, a₀, hframe⟩
  · -- the status is the one of the moment the byte is sent
    rcases List.length_eq_one_iff.mp (hlen.trans hone) with ⟨r, rfl⟩
    rcases h.tail with ⟨v, hmoves, hr, hrest⟩
    have hm : m25p128.Moves c v := hmoves
    have hv : v.frame = [m25pRdsr] := (later_of_moves hm).frame.trans hframe
    rcases reads_moves hrest with ⟨d, hd, ht'⟩
    have hd' : m25p128.Moves (v.withFrame (v.frame ++ [dummy])) d := hd
    rcases moves_of_withFrame hd' with ⟨c'', hc'', rfl⟩
    refine ⟨v, c'', hm, ?_, hc'', ?_⟩
    · have hbyte : v.SendsByte r := hr
      unfold Chip.SendsByte at hbyte
      rw [hv] at hbyte
      unfold Chip.Sends
      rw [hv]
      intro _ b hb
      rw [List.mem_singleton.mp hb]
      exact hbyte.1 rfl
    · rw [ht']
      change c''.withFrame (v.frame ++ [dummy] ++ []) = _
      rw [List.append_nil, (later_of_moves hm).frame]
      rfl
  · refine ⟨c, c', .refl, ?_, hc', ht⟩
    rw [Chip.Sends, hframe]
    intro hnot
    exact absurd hnot (by decide)
  · refine ⟨c, c', .refl, ?_, hc', ht⟩
    rw [Chip.Sends, hframe]
    intro _ hready
    rcases reads_ready h hready with ⟨-, hsends⟩
    refine List.ext_getElem (by simp [Chip.bytesAt]) ?_
    intro i hi _
    have hsend := hsends i hi
    rw [Chip.withFrame, Chip.SendsByte, hframe] at hsend
    have hbyte := hsend.2 a₂ a₁ a₀ (List.replicate i dummy) rfl rfl hready
    rw [List.length_replicate] at hbyte
    simp only [Chip.bytesAt, List.getElem_map, List.getElem_range]
    exact hbyte

/-- Where a program is in a selection: before it, in its command, or behind an answer. -/
inductive Phase where
  | outside
  | sending (frame : List U8)
  | answered

/-- A selection holds one command, and one read if the command has an answer. The SPI is fast
enough for its packets. -/
abbrev commands : Prog.Discipline Spi where
  Phase := Phase
  allows
    | .outside, o => o = .select
    | .sending _, .writePacket _ => True
    | .sending frame, .readPacket len => Query frame len
    | .sending _, o => o = .deselect
    | .answered, o => o = .deselect
  answers
    | .writePacket _, r => r = success
    | .readPacket _, r => r.code = success
    | _, _ => True
  next
    | _, .select => .sending []
    | .sending frame, .writePacket data => .sending (frame ++ data)
    | .sending _, .readPacket _ => .answered
    | _, .deselect => .outside
    | φ, _ => φ

/-- The chip, and the chip on the wire. -/
def SameChip : Phase → Chip → Bus chipSlave → Prop
  | .outside, c, q => q = ⟨c, false⟩ ∧ c.frame = []
  | .sending frame, c, q => q = ⟨c, !frame.isEmpty⟩ ∧ c.frame = frame
  | .answered, c, q => ∃ dummies len, Query c.frame len ∧
      q = ⟨c.withFrame (c.frame ++ dummies), true⟩

theorem Query.ne_nil {frame : List U8} {len : Nat} (h : Query frame len) :
    frame.isEmpty = false := by
  rcases h with ⟨rfl, -⟩ | rfl | ⟨a₂, a₁, a₀, rfl⟩
  · rfl
  · rfl
  · rfl

theorem release_nil (h : c.frame = []) : c.release = c := by
  have hexecute : c.execute = c := by
    rw [Chip.execute, h]
  rw [Chip.release, hexecute, ite_self, ← h]

/-- The chip's moves before an operation. -/
theorem bus_chip {q q₁ : Bus chipSlave} (h : (spiBus chipSlave latency).Moves q q₁) :
    m25p128.Moves q.slave q₁.slave ∧ q₁ = ⟨q₁.slave, q.line⟩ := by
  rcases slave_moves h with ⟨hslave, hline⟩
  refine ⟨hslave, ?_⟩
  rw [← hline]

/-- The wire carries what `Chip.lean` says of packets. -/
theorem implements_chip (hfast : latency ≤ spiTimeout) :
    Machine.Implements (spiBus chipSlave latency) m25p128 commands
      (fun o => (Prog.perform o : Prog Spi E (Spi.Res o))) SameChip where
  answers := by
    intro φ o c q x t hallowed h hruns
    rcases Machine.runs_call.mp hruns with ⟨q₁, r, q₂, hm, ha, hret⟩
    rcases Machine.runs_ret.mp hret with ⟨rfl, rfl⟩
    rcases bus_chip hm with ⟨hslave, hq₁⟩
    cases φ with
    | outside =>
      rcases h with ⟨rfl, hframe⟩
      cases hallowed
      have hframe₁ : Chip.frame q₁.slave = [] := (later_of_moves hslave).frame.trans hframe
      refine ⟨(), q₁.slave, q₁.slave, q₁.slave, rfl, trivial, hslave, ?_, .refl, ?_, hframe₁⟩
      · change q₁.slave = Chip.withFrame q₁.slave []
        rw [← hframe₁]
        rfl
      · exact Eq.trans ha hq₁
    | sending frame =>
      rcases h with ⟨rfl, hframe⟩
      have hframe₁ : Chip.frame q₁.slave = frame := (later_of_moves hslave).frame.trans hframe
      cases o with
      | select => cases hallowed
      | deselect =>
        refine ⟨(), q₁.slave, Chip.release q₁.slave, Chip.release q₁.slave, rfl, trivial, hslave,
          rfl, .refl, ?_, rfl⟩
        rw [show t = q₁.raise from ha, hq₁]
        cases frame with
        | nil =>
          rw [release_nil hframe₁]
          rfl
        | cons b rest => rfl
      | writePacket data =>
        rcases ha with ⟨rfl, rfl⟩ | ⟨hslow, -⟩
        · refine ⟨success, q₁.slave, Chip.withFrame q₁.slave (frame ++ data), _, rfl, rfl, hslave,
            ⟨rfl, ?_⟩, .refl, ?_, rfl⟩
          · rw [← hframe₁]
            rfl
          · rw [hq₁]
            change (⟨chipSlave.receiveAll q₁.slave data, !frame.isEmpty || !data.isEmpty⟩ :
              Bus chipSlave) = _
            rw [receiveAll_chip, hframe₁]
            cases frame <;> cases data <;> rfl
        · exact absurd hslow (Nat.not_lt.mpr hfast)
      | readPacket len =>
        rcases ha with ⟨hcode, hreads, hline⟩ | ⟨hslow, -⟩
        · have hquery : Query (Chip.frame q₁.slave) len := by
            rw [hframe₁]
            exact hallowed
          rcases sends_of_reads hquery (r.complete hcode) hreads with ⟨v, c', hv, hsends, hc', ht⟩
          refine ⟨r, v, v, c', rfl, hcode, hslave.trans hv, ⟨hcode, hsends, rfl⟩, hc',
            List.replicate r.data.length dummy, len, ?_, ?_⟩
          · rw [(later_of_moves hc').frame, (later_of_moves hv).frame]
            exact hquery
          · have hline' : t.line = true := by
              rw [hline, hq₁]
              change ((!frame.isEmpty) || _) = true
              rw [Query.ne_nil hallowed]
              rfl
            rw [(later_of_moves hc').frame, (later_of_moves hv).frame, ← ht, ← hline']
        · exact absurd hslow (Nat.not_lt.mpr hfast)
    | answered =>
      rcases h with ⟨dummies, len, hquery, rfl⟩
      cases hallowed
      rcases moves_of_withFrame hslave with ⟨c', hc', heq⟩
      have hframe : c'.frame = c.frame := (later_of_moves hc').frame
      have hrelease := release_query c' dummies hquery
      refine ⟨(), c', c'.release, c'.release, rfl, trivial, hc', rfl, .refl, ?_, rfl⟩
      have hown : c'.release = c'.withFrame [] := by
        have hnone := release_query c' [] hquery
        rw [List.append_nil, ← hframe] at hnone
        exact hnone
      rw [show t = q₁.raise from ha, hq₁, heq, hown, ← hrelease]
      rfl

/-- The selection of a phase. -/
def Phase.selected : Phase → Bool
  | .outside => false
  | _ => true

/-- The chip, the wire and the registers. -/
def OnRegisters (latency : Nat) (φ : Phase) (c : Chip) (s : State chipSlave) : Prop :=
  ∃ q q', SameChip φ c q ∧ (spiBus chipSlave latency).Moves q q' ∧ Talks φ.selected q' s

/-- **The registers carry the commands**: under a program that sends one command in a selection,
the SPI driver, its registers and the chip on the wire do what the chip does with packets. -/
theorem implements_commands (hfast : latency ≤ spiTimeout) (hrounds : latency < rounds) :
    Machine.Implements (spiUnit chipSlave latency) m25p128 commands (spiMaster rounds)
      (OnRegisters latency) := by
  apply (implements_bus chipSlave hrounds).comp Phase.selected _ _ (implements_chip hfast)
  · intro φ o hallowed
    cases φ with
    | outside => exact hallowed
    | sending frame =>
      cases o with
      | select => cases hallowed
      | _ => exact SpiOp.noConfusion
    | answered =>
      cases hallowed
      exact SpiOp.noConfusion
  · intro φ o
    cases φ <;> cases o <;> rfl

/-! ## The functions of the driver -/

/-- From outside a selection back to outside, with an answer of some kind. -/
def Sends (good : α → Prop) (p : Prog Spi E α) : Prop :=
  p.Follows commands (fun a φ => φ = .outside ∧ good a) .outside

variable {β : Type}

theorem Sends.bind {good : α → Prop} {good' : β → Prop} {p : Prog Spi E α}
    {f : α → Prog Spi E β} (hp : Sends good p) (hf : ∀ a, good a → Sends good' (f a)) :
    Sends good' (p >>= f) := by
  refine Prog.Follows.bind hp ?_
  rintro a φ ⟨rfl, ha⟩
  exact hf a ha

theorem Sends.ret {good : α → Prop} {a : α} (h : good a) : Sends good (.ret a : Prog Spi E α) :=
  ⟨rfl, h⟩

theorem sends_command (command : List U8) :
    Sends (· = success) (m25pCommand command : Prog Spi E Status) :=
  ⟨rfl, fun _ _ => ⟨trivial, fun _ hstat => ⟨rfl, fun _ _ => ⟨rfl, hstat⟩⟩⟩⟩

theorem sends_query {command : List U8} {len : Nat} (h : Query command len) :
    Sends (fun r => r.code = success) (m25pQuery command len : Prog Spi E (ReadResult len)) := by
  refine ⟨rfl, fun _ _ => ⟨trivial, fun stat hstat => ?_⟩⟩
  have hsuccess : stat = success := hstat
  subst hsuccess
  change (readAfter success len >>= fun r => spi .deselect >>= fun _ => Prog.ret r :
    Prog Spi E (ReadResult len)).Follows commands _ _
  rw [readAfter_success]
  exact ⟨h, fun r hr => ⟨rfl, fun _ _ => ⟨rfl, hr⟩⟩⟩

theorem sends_pageProgram (address : U32) (data : List U8) :
    Sends (· = success) (m25pPageProgram address data : Prog Spi E Status) := by
  refine ⟨rfl, fun _ _ => ⟨trivial, fun stat hstat => ?_⟩⟩
  have hsuccess : stat = success := hstat
  subst hsuccess
  change (writeAfter success data >>= fun stat => spi .deselect >>= fun _ => Prog.ret stat :
    Prog Spi E Status).Follows commands _ _
  rw [writeAfter, if_pos rfl]
  exact ⟨trivial, fun _ hstat' => ⟨rfl, fun _ _ => ⟨rfl, hstat'⟩⟩⟩

theorem sends_enabledWrite {write : Prog Spi E Status} (h : Sends (· = success) write) :
    Sends (· = success) (enabledWrite write) := by
  refine (sends_command [m25pWren]).bind ?_
  rintro status rfl
  rw [whenEnabled, if_pos rfl]
  refine h.bind fun status hstatus => ?_
  exact (sends_command [m25pWrdi]).bind fun _ _ => .ret hstatus

theorem sends_readStatus :
    Sends (fun r => r.code = success) (m25pReadStatusRegister : Prog Spi E (ReadResult 1)) :=
  sends_query (.inl ⟨rfl, rfl⟩)

theorem sends_readData (address : U32) (len : Nat) :
    Sends (fun r => r.code = success) (m25pReadData address len : Prog Spi E (ReadResult len)) :=
  sends_query (.inr (.inr ⟨_, _, _, rfl⟩))

theorem sends_pollReady (timeout : Nat) :
    Sends (fun _ => True) (pollReady timeout : Prog Spi E Status) := by
  induction timeout with
  | zero => exact .ret trivial
  | succ timeout ih =>
    refine sends_readStatus.bind fun r _ => ?_
    split
    · exact .ret trivial
    · exact ih

theorem sends_loadSettings : Sends (fun _ => True) (loadSettings : Prog Spi E Settings) := by
  refine (sends_readData snAsciiOffset snAsciiMaxlen).bind fun sn _ => ?_
  refine (sends_query (.inr (.inl rfl))).bind fun _ _ => ?_
  exact (sends_readData macAddressOffset 6).bind fun mac _ => .ret trivial

end Flash
