import VmeSam3x.Lib.Traces
import VmeSam3x.Serial.Console
import VmeSam3x.Serial.Erase
import VmeSam3x.Serial.Setup

/-! # Whole sessions

What holds of the monitor from its start on, whatever is typed and however the flash, the FPGA
and the memory answer: the flash is touched only right after a yes, and the FPGA gets data only
at an address that was just set and is a multiple of the width.
-/

namespace Serial

open Interact Bytes CString Flash Fpga

variable {E α : Type} {rounds : Nat} {settings : Settings} {l : Locals} {r : Regs}

/-! ## A yes before the flash -/

/-- The answer that `serial_yes` waits for. -/
def yes : List U8 := [0x59, 0x45, 0x53]

theorem typed_append (evs evs' : List (Event Monitor)) :
    typed (evs ++ evs') = typed evs ++ typed evs' :=
  List.filterMap_append

/-- The flash is touched only when the last three characters are a yes. -/
def yesRule : Rule Monitor where
  allows pre e := IsSpi e.op → yes <:+ (typed pre).map toupper
  extend past pre e h he := by
    rw [typed_append, List.map_append]
    exact (h he).trans (List.suffix_append _ _)

def NoSpi (o : MonitorOp) : Prop := ¬ IsSpi o

def Quiet (o : MonitorOp) : Prop := o ≠ .getchar

theorem guarded_noSpi {p : MonitorProg α} (hp : p.Uses NoSpi) : Prog.Guarded yesRule p :=
  Prog.guarded_of_uses hp fun _ _ hno he => absurd he hno

theorem inArray_uses {K : MonitorOp → Prop} (a : Option α) : (inArray a).Uses K := by
  cases a <;> trivial

theorem getchar_uses : getchar.Uses NoSpi :=
  Prog.Uses.perform_bind id fun c => by cases c <;> trivial

theorem putchar_uses (c : U8) : (putchar c).Uses NoSpi := ⟨id, fun _ => trivial⟩

theorem print_uses (text : String) : (print text).Uses NoSpi := ⟨id, fun _ => trivial⟩

theorem hexreadLoop_uses {K : MonitorOp → Prop} (hget : K .getchar) (hput : ∀ c, K (.putchar c))
    (left : Nat) (d : U32) (i : Nat) : (hexreadLoop d left i).Uses K := by
  induction left generalizing d i with
  | zero => trivial
  | succ left ih =>
    have hchar : getchar.Uses K := Prog.Uses.perform_bind hget fun c => by cases c <;> trivial
    exact hchar.bind fun c => Prog.Uses.perform_bind (hput c) fun _ =>
      Prog.Uses.ite (ih _ _) trivial

theorem echo_uses (s : List U8) (i : Nat) : (echo s i).Uses NoSpi := by
  induction s generalizing i with
  | nil => trivial
  | cons c rest ih => exact Prog.Uses.ite trivial ((putchar_uses c).bind fun _ => ih _)

theorem editPass_uses {len : Nat} (c : U8) (i : Int) (s : Chars len) :
    (editPass c i s).Uses NoSpi := by
  refine Prog.Uses.bind (Prog.Uses.ite (Prog.Uses.ite ?_ trivial) trivial) fun is => ?_
  · exact (putchar_uses c).bind fun _ => (inArray_uses _).bind fun _ => trivial
  · refine Prog.Uses.bind (Prog.Uses.ite (Prog.Uses.ite ?_ trivial) trivial) fun _ => trivial
    exact (putchar_uses _).bind fun _ => (putchar_uses _).bind fun _ =>
      (putchar_uses _).bind fun _ => trivial

theorem editLoop_uses {len : Nat} (rounds : Nat) (i : Int) (s : Chars len) :
    (editLoop rounds i s).Uses NoSpi := by
  induction rounds generalizing i s with
  | zero => trivial
  | succ rounds ih =>
    refine getchar_uses.bind fun c => (editPass_uses c i s).bind fun is => ?_
    exact Prog.Uses.ite trivial (ih _ _)

theorem serialEditline_uses {len : Nat} (s : Chars len) :
    (serialEditline rounds s).Uses NoSpi := by
  refine (echo_uses _ _).bind fun i => (editLoop_uses _ _ _).bind fun cis => ?_
  refine (inArray_uses _).bind fun s => ?_
  exact Prog.Uses.ite trivial trivial

theorem keepUnlessCancelled_uses (result : Int) (edited current : Chars snAsciiMaxlen) :
    (keepUnlessCancelled result edited current).Uses NoSpi := by
  unfold keepUnlessCancelled
  split
  · exact inArray_uses _
  · trivial

theorem serialYes_uses : serialYes.Uses NoSpi :=
  serialYes_asks.mono fun o h => by
    cases o with
    | spi o => exact h.elim
    | _ => exact id

/-- What happens after a yes, and types nothing, may touch the flash. -/
theorem guarded_confirmed {p : MonitorProg Unit} (hp : p.Uses Quiet) :
    Prog.Guarded yesRule (serialYes >>= fun b => if b then p else return ()) := by
  refine (guarded_noSpi serialYes_uses).bind_path ?_
  intro past b hyes evs x h
  cases b with
  | false =>
    rcases Prog.path_ret.mp h with ⟨rfl, -⟩
    trivial
  | true =>
    -- nothing is typed after the yes, so it stays at the end
    have hpast : (typed past).map toupper = yes := (path_serialYes hyes).mpr rfl
    have hquiet : ∀ e ∈ evs, Quiet e.op := h.uses hp
    rw [Rule.keeps_iff]
    rintro pre e post rfl -
    have hpre : typed pre = [] := by
      unfold typed
      rw [List.filterMap_eq_nil_iff]
      intro e' he'
      have hne := hquiet e' (List.mem_append_left _ he')
      rcases e' with ⟨o, res⟩
      cases o <;> first | rfl | exact absurd rfl hne
    rw [typed_append, hpre, List.append_nil, hpast]

theorem flash_uses (p : Prog Spi Fault α) : (flash p).Uses Quiet :=
  (flash_isSpi p).mono fun o h heq => by
    cases heq
    exact h

theorem print_quiet (text : String) : (print text).Uses Quiet :=
  ⟨nofun, fun _ => trivial⟩

theorem eraseWait_uses (i : Nat) : (eraseWait i).Uses Quiet := by
  induction i with
  | zero => trivial
  | succ i ih => exact (flash_uses _).bind fun _ => Prog.Uses.ite trivial ih

theorem eraseConfirmed_uses : eraseConfirmed.Uses Quiet :=
  (flash_uses _).bind fun _ => (eraseWait_uses _).bind fun _ =>
    Prog.Uses.ite (print_quiet _) (print_quiet _)

theorem reportWrite_uses (status : Status) : (reportWrite status).Uses Quiet :=
  (print_quiet _).bind fun _ => (flash_uses _).bind fun _ =>
    Prog.Uses.ite (print_quiet _) (print_quiet _)

theorem programSettings_uses (mac : Fin 6 → U8) (sn : Chars snAsciiMaxlen) :
    (programSettings mac sn).Uses Quiet :=
  (print_quiet _).bind fun _ => (flash_uses _).bind fun _ => (reportWrite_uses _).bind fun _ =>
    (print_quiet _).bind fun _ => (inArray_uses _).bind fun _ => (flash_uses _).bind fun _ =>
      reportWrite_uses _

theorem guarded_eraseCommand : Prog.Guarded yesRule eraseCommand :=
  (guarded_noSpi (print_uses _)).bind fun _ => guarded_confirmed eraseConfirmed_uses

theorem guarded_setupCommand (stack : Stack) :
    Prog.Guarded yesRule (setupCommand rounds settings stack) := by
  refine (guarded_noSpi (print_uses _)).bind fun _ => ?_
  refine (guarded_noSpi (hexreadLoop_uses id (fun _ => id) _ _ _)).bind fun d => ?_
  refine (guarded_noSpi (print_uses _)).bind fun _ => ?_
  refine (guarded_noSpi (inArray_uses _)).bind fun sn => ?_
  refine (guarded_noSpi (serialEditline_uses _)).bind fun line => ?_
  refine (guarded_noSpi (keepUnlessCancelled_uses _ _ _)).bind fun sn => ?_
  refine (guarded_noSpi (print_uses _)).bind fun _ => ?_
  refine (guarded_noSpi (print_uses _)).bind fun _ => ?_
  refine (guarded_noSpi (print_uses _)).bind fun _ => ?_
  refine (guarded_noSpi (print_uses _)).bind fun _ => ?_
  -- everything before the confirmation leaves the flash alone
  exact guarded_confirmed (programSettings_uses _ _)

/-! ## The address before the data -/

/-- An access of `n` bytes that does not cross the border of a long word. -/
def Fits (a : U32) (n : Nat) : Prop := a.toNat % n = 0 ∧ n ∣ 4

theorem Fits.word {a b : U32} {n : Nat} (h : Fits a n) (hb : Memory.Covers a n b) :
    b.toNat / 4 = a.toNat / 4 := by
  rcases h with ⟨hmod, hdvd⟩
  have hn : n = 1 ∨ n = 2 ∨ n = 4 := by
    have hle := Nat.le_of_dvd (by decide) hdvd
    interval_cases n <;> omega
  have ha := a.isLt
  have hb' := b.isLt
  rw [Memory.Covers, BitVec.toNat_sub] at hb
  rcases hn with rfl | rfl | rfl <;> omega

/-- A message that carries data, and is no address. -/
def Carries (o : TwiOp) (data : List U8) : Prop :=
  ∃ c, o = .masterWrite fpgaChip (c :: data) ∧ c ≠ 0x31 ∧ data ≠ []

theorem not_carries_address (a : U32) (data : List U8) :
    ¬ Carries (.masterWrite fpgaChip (addressMessage a)) data := by
  rintro ⟨c, heq, hc, -⟩
  cases heq
  exact hc rfl

theorem not_carries_command (c : U8) (data : List U8) :
    ¬ Carries (.masterWrite fpgaChip [c]) data := by
  rintro ⟨c', heq, -, hdata⟩
  cases heq
  exact hdata rfl

/-- Data goes to the address that was just set, a multiple of its width. -/
def addressRule : Rule Twi where
  allows pre e := ∀ data, Carries e.op data → ∃ before a,
    pre = before ++ [wrote (addressMessage a) .success] ∧ Fits a data.length
  extend past pre e h data hdata := by
    rcases h data hdata with ⟨before, a, rfl, ha⟩
    exact ⟨past ++ before, a, (List.append_assoc _ _ _).symm, ha⟩

def NoData (o : TwiOp) : Prop := ∀ data, ¬ Carries o data

theorem guarded_noData {p : Prog Twi E α} (hp : p.Uses NoData) : Prog.Guarded addressRule p :=
  Prog.guarded_of_uses hp fun _ _ hno data hdata => absurd hdata (hno data)

theorem fpgaTwiReset_uses : (fpgaTwiReset : Prog Twi E Unit).Uses NoData :=
  ⟨fun _ => nofun, fun _ => trivial⟩

theorem fpgaSend_uses {buffer : List U8} (h : NoData (.masterWrite fpgaChip buffer)) :
    (fpgaSend buffer : Prog Twi E TwiStatus).Uses NoData :=
  Prog.Uses.perform_bind h fun _ => Prog.Uses.ite trivial (fpgaTwiReset_uses.bind fun _ => trivial)

theorem fpgaWriteCommand_uses (c : U8) : (fpgaWriteCommand c : Prog Twi E TwiStatus).Uses NoData :=
  fpgaSend_uses (not_carries_command c)

theorem fpgaWriteOpbAddress_uses (a : U32) :
    (fpgaWriteOpbAddress a : Prog Twi E TwiStatus).Uses NoData :=
  fpgaSend_uses (not_carries_address a)

theorem fpgaReadData_uses (data : U32) :
    (fpgaReadData data : Prog Twi E (TwiStatus × U32)).Uses NoData := by
  refine Prog.Uses.perform_bind (fun _ => nofun) fun r => ?_
  refine Prog.Uses.ite trivial (fpgaTwiReset_uses.bind fun _ => ?_)
  exact Prog.Uses.ite trivial trivial

theorem fpgaReadFull_uses (c : U8) (a dataFull : U32) :
    (fpgaReadFull c a dataFull : Prog Twi E (TwiStatus × U32)).Uses NoData := by
  refine (fpgaWriteOpbAddress_uses a).bind fun _ => Prog.Uses.ite ?_ trivial
  refine (fpgaWriteCommand_uses c).bind fun _ => Prog.Uses.ite ?_ trivial
  exact fpgaReadData_uses _

/-- The data of a write comes right after its address. -/
theorem guarded_fpgaWriteBuffer {a : U32} {c : U8} {data : List U8}
    (ha : Fits a data.length) :
    Prog.Guarded addressRule (fpgaWriteBuffer a (c :: data) : Prog Twi E TwiStatus) := by
  intro evs x h
  rcases path_fpgaWriteBuffer h with ⟨st, rfl, hrun⟩
  have haddress : ∀ st, addressRule.allows [] (wrote (addressMessage a) st) :=
    fun _ data hdata => absurd hdata (not_carries_address a data)
  have hdata : ∀ st,
      addressRule.allows [wrote (addressMessage a) .success] (wrote (c :: data) st) := by
    rintro st data' ⟨c', heq, -, -⟩
    cases heq
    exact ⟨[], a, rfl, ha⟩
  have hreset : ∀ past, addressRule.allows past reset := fun _ _ h => nomatch h
  -- the data message is only sent after the driver accepted the address
  cases hrun with
  | done => exact ⟨haddress _, hdata _, trivial⟩
  | addressFailed st _ => exact ⟨haddress _, hreset _, trivial⟩
  | dataFailed st _ => exact ⟨haddress _, hdata _, hreset _, trivial⟩

/-- `x & (-size)` is a multiple of the size. -/
theorem fits_aligned (r : Regs) : Fits r.aligned r.size.bytes := by
  have hmask : ∀ k : Nat, BitVec.setWidth k (-(BitVec.ofNat 32 r.size.bytes)) = 0 →
      r.aligned.toNat % 2 ^ k = 0 := by
    intro k hk
    rw [← BitVec.toNat_setWidth, Regs.aligned, BitVec.setWidth_and, hk]
    simp
  rcases hsize : r.size with _ | _ | _
  · exact ⟨Nat.mod_one _, by decide⟩
  · exact ⟨hmask 1 (by rw [hsize]; decide), by decide⟩
  · exact ⟨hmask 2 (by rw [hsize]; decide), by decide⟩

/-! ## The session -/

/-- What has been typed in a session. -/
def typedAt (evs : List (Event Console)) : List U8 :=
  evs.filterMap fun
    | ⟨.monitor .getchar, c⟩ => c
    | _ => none

theorem typedAt_append (evs evs' : List (Event Console)) :
    typedAt (evs ++ evs') = typedAt evs ++ typedAt evs' :=
  List.filterMap_append

theorem typedAt_map (evs : List (Event Monitor)) :
    typedAt (evs.map onMonitor.event) = typed evs := by
  unfold typedAt typed
  rw [List.filterMap_map]
  congr 1
  funext e
  rcases e with ⟨o, res⟩
  cases o <;> rfl

/-- Operations on the flash. -/
def ConsoleOp.IsFlash : ConsoleOp → Prop
  | .monitor o => IsSpi o
  | _ => False

/-- The event that sets the address of the FPGA. -/
def addressSet (a : U32) : Event Console := onTwi.event (wrote (addressMessage a) .success)

/-- Both rules, for the whole session. -/
def sessionRule : Rule Console where
  allows pre e :=
    (e.op.IsFlash → yes <:+ (typedAt pre).map toupper) ∧
    ∀ o data, e.op = .twi o → Carries o data →
      ∃ before a, pre = before ++ [addressSet a] ∧ Fits a data.length
  extend past pre e h := by
    refine ⟨fun he => ?_, fun o data ho hdata => ?_⟩
    · rw [typedAt_append, List.map_append]
      exact (h.1 he).trans (List.suffix_append _ _)
    · rcases h.2 o data ho hdata with ⟨before, a, rfl, ha⟩
      exact ⟨past ++ before, a, (List.append_assoc _ _ _).symm, ha⟩

theorem guarded_serial {p : MonitorProg α} (hp : Prog.Guarded yesRule p) :
    Prog.Guarded sessionRule (serial p) := by
  refine hp.embed fun past e h => ⟨fun he => ?_, nofun⟩
  rw [typedAt_map]
  exact h he

theorem guarded_fpga {p : Prog Twi Fault α} (hp : Prog.Guarded addressRule p) :
    Prog.Guarded sessionRule (fpga p) := by
  refine hp.embed fun past e h => ⟨nofun, fun o data ho hdata => ?_⟩
  cases ho
  rcases h data hdata with ⟨before, a, rfl, ha⟩
  exact ⟨before.map onTwi.event, a, List.map_append, ha⟩

theorem guarded_print (text : String) : Prog.Guarded sessionRule (serial (print text)) :=
  guarded_serial (guarded_noSpi (print_uses text))

theorem guarded_hexread : Prog.Guarded sessionRule (serial serialHexread32) :=
  guarded_serial (guarded_noSpi (hexreadLoop_uses id (fun _ => id) _ _ _))

theorem guarded_putchar (c : U8) : Prog.Guarded sessionRule (serial (putchar c)) :=
  guarded_serial (guarded_noSpi (putchar_uses c))

/-- Operations on the microcontroller, and the test of the TWI logic. -/
def ConsoleOp.IsLocal : ConsoleOp → Prop
  | .monitor _ => False
  | .twi _ => False
  | _ => True

theorem guarded_operate (o : ConsoleOp) (ho : o.IsLocal) :
    Prog.Guarded sessionRule (operate o) := by
  refine Prog.guarded_of_uses (K := ConsoleOp.IsLocal) ⟨ho, fun _ => trivial⟩ ?_
  rintro past ⟨o, res⟩ hlocal
  refine ⟨fun he => ?_, fun o' data heq _ => ?_⟩
  · cases o <;> first | exact hlocal.elim | exact he.elim
  · cases heq
    exact hlocal.elim

theorem guarded_keeping {p : ConsoleProg Unit} (hp : Prog.Guarded sessionRule p) :
    Prog.Guarded sessionRule (keeping p r) :=
  hp.bind fun _ => Prog.guarded_ret _

theorem guarded_failed (text : String) (status : TwiStatus) :
    Prog.Guarded sessionRule (failed text status) :=
  (Prog.guarded_ret _).ite (guarded_print _)

theorem guarded_setLevels (levels : List (Led × Bool)) :
    Prog.Guarded sessionRule (setLevels levels) := by
  induction levels with
  | nil => exact Prog.guarded_ret _
  | cons level rest ih => exact (guarded_operate (.setPinLevel _ _) trivial).bind fun _ => ih

theorem guarded_ledLoop (i : Nat) : Prog.Guarded sessionRule (ledLoop i) := by
  induction i with
  | zero => exact Prog.guarded_ret _
  | succ i ih =>
    exact (guarded_setLevels _).bind fun _ => (guarded_operate (.delay 20) trivial).bind fun _ => ih

theorem guarded_printCell (x : U32) (size : Size) :
    Prog.Guarded sessionRule (printCell l x size) := by
  cases size with
  | byte =>
    have hread : (fpgaReadByte l.dataFull x (byteAt 0 l.data) :
        Prog Twi Fault (TwiStatus × U8)).Uses NoData :=
      (fpgaReadFull_uses _ _ _).bind fun _ => Prog.Uses.ite trivial trivial
    exact (guarded_fpga (guarded_noData hread)).bind fun _ =>
      (guarded_print _).ite (guarded_print _)
  | short =>
    have hread : (fpgaReadShort l.dataFull x (l.data.setWidth 16) :
        Prog Twi Fault (TwiStatus × U16)).Uses NoData :=
      (fpgaReadFull_uses _ _ _).bind fun _ => Prog.Uses.ite trivial trivial
    exact (guarded_fpga (guarded_noData hread)).bind fun _ =>
      (guarded_print _).ite (guarded_print _)
  | long =>
    exact (guarded_fpga (guarded_noData (fpgaReadFull_uses _ _ _))).bind fun _ =>
      (guarded_print _).ite (guarded_print _)

theorem guarded_dumpLoop (size : Size) (left : Nat) (x : U32) :
    Prog.Guarded sessionRule (dumpLoop l size left x) := by
  induction left generalizing x with
  | zero => exact Prog.guarded_ret _
  | succ left ih => exact (guarded_printCell x size).bind fun _ => ih _

theorem guarded_peekLoop (left : Nat) (x : U32) :
    Prog.Guarded sessionRule (peekLoop left x) := by
  induction left generalizing x with
  | zero => exact Prog.guarded_ret _
  | succ left ih =>
    exact (guarded_operate (.peek x) trivial).bind fun _ => (guarded_print _).bind fun _ => ih _

/-- The one place where data goes to the FPGA: `x` has just been aligned. -/
theorem guarded_writeCell (d : U32) : Prog.Guarded sessionRule (writeCell r.aligned d r.size) := by
  have ha := fits_aligned r
  rcases hsize : r.size with _ | _ | _ <;> rw [hsize] at ha
  · exact guarded_fpga (guarded_fpgaWriteBuffer ha)
  · exact guarded_fpga (guarded_fpgaWriteBuffer ha)
  · exact guarded_fpga (guarded_fpgaWriteBuffer ha)

theorem guarded_modifyCommand : Prog.Guarded sessionRule (modifyCommand l r) := by
  refine (guarded_print _).bind fun _ => (guarded_printCell _ _).bind fun _ => ?_
  refine (guarded_print _).bind fun _ => guarded_hexread.bind fun d => ?_
  exact ((guarded_writeCell _).bind fun _ => Prog.guarded_ret _).ite (Prog.guarded_ret _)

theorem guarded_pokeCommand : Prog.Guarded sessionRule (pokeCommand r) := by
  refine (guarded_operate (.peek _) trivial).bind fun _ => (guarded_print _).bind fun _ => ?_
  refine guarded_hexread.bind fun d => Prog.Guarded.ite ?_ (Prog.guarded_ret _)
  exact (guarded_operate (.poke _ _) trivial).bind fun _ => Prog.guarded_ret _

theorem guarded_commandCommand : Prog.Guarded sessionRule commandCommand := by
  refine (guarded_putchar _).bind fun _ => guarded_hexread.bind fun cmd => ?_
  refine Prog.Guarded.ite ((guarded_print _).bind fun _ => ?_) (Prog.guarded_ret _)
  refine (guarded_fpga (guarded_noData (fpgaWriteCommand_uses _))).bind fun status => ?_
  exact guarded_failed _ _

theorem guarded_testCommand : Prog.Guarded sessionRule testCommand := by
  have hreset : Prog.Guarded sessionRule (fpga fpgaTwiReset) :=
    guarded_fpga (guarded_noData fpgaTwiReset_uses)
  refine (guarded_print _).bind fun _ => Prog.Guarded.bind ?_ fun _ => guarded_failed _ _
  exact (guarded_operate (.twiAddressed _ _ _) trivial).bind fun _ =>
    (Prog.guarded_ret _).ite (hreset.bind fun _ => Prog.guarded_ret _)

/-- One command, whichever it is. -/
theorem guarded_command (c : U8) : Prog.Guarded sessionRule (command rounds settings l c r) := by
  unfold command
  refine Prog.Guarded.ite (guarded_keeping (guarded_ledLoop _)) ?_
  refine Prog.Guarded.ite ((guarded_print _).bind fun _ => Prog.guarded_ret _) ?_
  refine Prog.Guarded.ite ((guarded_print _).bind fun _ => Prog.guarded_ret _) ?_
  refine Prog.Guarded.ite ((guarded_print _).bind fun _ => Prog.guarded_ret _) ?_
  refine Prog.Guarded.ite ?_ ?_
  · exact (guarded_putchar _).bind fun _ => guarded_hexread.bind fun _ => Prog.guarded_ret _
  refine Prog.Guarded.ite (guarded_keeping guarded_commandCommand) ?_
  refine Prog.Guarded.ite (guarded_keeping ((guarded_print _).bind fun _ => ?_)) ?_
  · exact (guarded_fpga (guarded_noData (fpgaWriteOpbAddress_uses _))).bind fun _ =>
      guarded_failed _ _
  refine Prog.Guarded.ite (guarded_keeping ?_) ?_
  · exact (guarded_fpga (guarded_noData (fpgaReadData_uses _))).bind fun _ => Prog.guarded_ret _
  refine Prog.Guarded.ite ?_ ?_
  · exact (guarded_print _).bind fun _ => (guarded_dumpLoop _ _ _).bind fun _ => Prog.guarded_ret _
  refine Prog.Guarded.ite ?_ ?_
  · exact (guarded_print _).bind fun _ => (guarded_peekLoop _ _).bind fun _ => Prog.guarded_ret _
  refine Prog.Guarded.ite guarded_modifyCommand ?_
  refine Prog.Guarded.ite guarded_pokeCommand ?_
  refine Prog.Guarded.ite (guarded_keeping guarded_testCommand) ?_
  refine Prog.Guarded.ite (guarded_keeping (guarded_serial guarded_eraseCommand)) ?_
  refine Prog.Guarded.ite (guarded_keeping (guarded_serial (guarded_setupCommand _))) ?_
  exact Prog.guarded_ret r

/-- The loop, by the commands that are left. -/
theorem guarded_taskSerial (locals : Nat → Locals) (left : Nat) (r : Regs) :
    Prog.Guarded sessionRule (taskSerial rounds settings locals left r) := by
  induction left generalizing r with
  | zero => exact Prog.guarded_ret r
  | succ left ih =>
    refine (guarded_print _).bind fun _ => ?_
    refine (guarded_serial (guarded_noSpi getchar_uses)).bind fun c => ?_
    exact (guarded_putchar c).bind fun _ => (guarded_command _).bind fun r' => ih r'

/-- **No flash without a yes.** In a session of any length, whatever is typed and however the
peripherals answer: when the flash is touched, the last three characters typed are a yes. -/
theorem flash_after_yes (rounds : Nat) (settings : Settings) (env : Env Console)
    (locals : Nat → Locals) (left : Nat)
    {pre post : List (Event Console)} {e : Event Console}
    (h : (Prog.exec env (taskSerial rounds settings locals left Regs.init) []).2 = pre ++ e :: post)
    (he : e.op.IsFlash) : yes <:+ (typedAt pre).map toupper :=
  ((guarded_taskSerial locals left Regs.init).exec env h).1 he

/-- Everything is successful, reads return zeros, and `input` is typed. -/
def typingEnv (input : List U8) : Env Console
  | tr, .monitor .getchar => input[(typedAt tr).length]?
  | _, .monitor (.spi o) => quietBus [] o
  | _, .monitor (.putchar _) => ()
  | _, .monitor (.print _) => ()
  | _, .twi (.masterWrite _ _) => TwiStatus.success
  | _, .twi (.masterRead _ _) => (TwiStatus.success, fun _ => 0)
  | _, .twi .masterInit => ()
  | _, .twiAddressed _ _ _ => TwiStatus.success
  | _, .peek _ => (0 : U32)
  | _, .poke _ _ => ()
  | _, .setPinLevel _ _ => ()
  | _, .delay _ => ()

def zeroLocals : Locals := ⟨0, 0, ⟨fun _ => 0, fun _ => 0⟩⟩

/-- A session with one command. -/
def oneCommand (input : List U8) : List (Event Console) :=
  (Prog.exec (typingEnv input) (taskSerial 0 defaultSettings (fun _ => zeroLocals) 1 Regs.init) []).2

/-- `E` and a yes. -/
theorem flash_after_yes_erase :
    yes <:+ (typedAt ((oneCommand [0x45, 0x79, 0x65, 0x73]).take 11)).map toupper :=
  flash_after_yes 0 defaultSettings (typingEnv [0x45, 0x79, 0x65, 0x73]) (fun _ => zeroLocals) 1
    (rfl : oneCommand [0x45, 0x79, 0x65, 0x73] = (oneCommand [0x45, 0x79, 0x65, 0x73]).take 11 ++
      ⟨.monitor (.spi .select), ()⟩ :: (oneCommand [0x45, 0x79, 0x65, 0x73]).drop 12) trivial

/-! ## The memory of the FPGA -/

variable {u : Unspecified} {d d' : Device}

/-- What the FPGA makes of an event: a message that failed may have arrived or not, and the test
message leaves any address and latch. -/
inductive Hears (u : Unspecified) : Device → Event Console → Device → Prop
  | arrived (d : Device) (buffer : List U8) (st : TwiStatus) :
    Hears u d (onTwi.event (wrote buffer st)) (d.receive u buffer)
  | lost (d : Device) (buffer : List U8) {st : TwiStatus} (h : st ≠ .success) :
    Hears u d (onTwi.event (wrote buffer st)) d
  | test (d : Device) (address : List U8) (len : Nat) (buffer : List U8) (st : TwiStatus)
      (a latch : U32) :
    Hears u d ⟨.twiAddressed address len buffer, st⟩ { d with addr := a, latch := latch }
  | other (d : Device) {e : Event Console}
      (htwi : ∀ buffer, e.op ≠ .twi (.masterWrite fpgaChip buffer)) : Hears u d e d

/-- The FPGA when everything arrives. -/
def listen (u : Unspecified) (d : Device) (e : Event Console) : Device :=
  match e.op with
  | .twi (.masterWrite c buffer) => if c = fpgaChip then d.receive u buffer else d
  | _ => d

theorem hears_listen (e : Event Console) : Hears u d e (listen u d e) := by
  rcases e with ⟨o, res⟩
  unfold listen
  split
  · rename_i c buffer hop
    cases hop
    split
    · rename_i hc
      subst hc
      exact .arrived d buffer res
    · rename_i hc
      refine .other d fun buffer' heq => hc ?_
      cases heq
      rfl
  · rename_i hop
    exact .other d fun buffer' heq => hop _ _ heq

/-- What a history has left of the FPGA. -/
inductive Heard (u : Unspecified) : Device → List (Event Console) → Device → Prop
  | nil (d : Device) : Heard u d [] d
  | snoc {d d₁ d₂ : Device} {evs : List (Event Console)} {e : Event Console} :
    Heard u d evs d₁ → Hears u d₁ e d₂ → Heard u d (evs ++ [e]) d₂

theorem heard_listen (evs : List (Event Console)) : Heard u d evs (evs.foldl (listen u) d) := by
  induction evs using List.reverseRecOn with
  | nil => exact .nil d
  | append_singleton evs e ih =>
    rw [List.foldl_append]
    exact .snoc ih (hears_listen e)

/-- After an address was set, the FPGA has it. -/
theorem Heard.addr {evs : List (Event Console)} {a : U32}
    (h : Heard u d (evs ++ [addressSet a]) d') : d'.addr = a := by
  generalize heq : evs ++ [addressSet a] = trace at h
  cases h with
  | nil => exact absurd heq (by simp)
  | snoc _ hlast =>
    rcases List.append_inj' heq rfl with ⟨-, hsame⟩
    cases hsame
    generalize hevent : addressSet a = e at hlast
    cases hlast with
    | arrived buffer st =>
      cases hevent
      rw [Device.receive_address]
    | lost buffer hst =>
      -- the driver reported success, so the message is not lost
      cases hevent
      exact absurd rfl hst
    | test => cases hevent
    | other htwi =>
      cases hevent
      exact absurd rfl (htwi _)

/-- A message changes the memory only where it stores its data. -/
theorem receive_changes {buffer : List U8} {b : U32}
    (h : (d.receive u buffer).mem b ≠ d.mem b) :
    ∃ c data, buffer = c :: data ∧ c ≠ 0x31 ∧ data ≠ [] ∧ Memory.Covers d.addr data.length b := by
  have hstore : ∀ bs, d.mem.store d.addr bs b ≠ d.mem b → Memory.Covers d.addr bs.length b := by
    intro bs hne
    by_contra hcovers
    exact hne (Memory.store_of_not_covers _ _ hcovers)
  unfold Device.receive at h
  split at h
  · -- five bytes: an address or a long word
    rename_i c b3 b2 b1 b0
    by_cases hc : c = 0x31
    · rw [if_pos hc] at h
      exact absurd rfl h
    · rw [if_neg hc] at h
      refine ⟨c, _, rfl, hc, nofun, hstore _ ?_⟩
      split at h
      · exact h
      · exact absurd rfl h
  · rename_i c b1 b0
    split at h
    · rename_i hc
      exact ⟨c, _, rfl, by rw [hc]; decide, nofun, hstore _ h⟩
    · exact absurd rfl h
  · rename_i c b0
    split at h
    · rename_i hc
      exact ⟨c, _, rfl, by rw [hc]; decide, nofun, hstore _ h⟩
    · exact absurd rfl h
  · -- a bare command only loads the latch
    repeat' split at h
    all_goals exact absurd rfl h
  · exact absurd rfl h

/-- **Stores stay inside their long word.** In a session of any length, whatever is typed, whatever
the drivers report and whether or not failed messages arrive: a cell of the FPGA's memory changes
only right after an address in its long word was set. -/
theorem store_after_address (rounds : Nat) (settings : Settings) (env : Env Console)
    (locals : Nat → Locals) (left : Nat)
    {pre post : List (Event Console)} {e : Event Console} {d₀ d₁ d₂ : Device} {b : U32}
    (h : (Prog.exec env (taskSerial rounds settings locals left Regs.init) []).2 = pre ++ e :: post)
    (hpre : Heard u d₀ pre d₁) (he : Hears u d₁ e d₂) (hb : d₂.mem b ≠ d₁.mem b) :
    ∃ before a, pre = before ++ [addressSet a] ∧ b.toNat / 4 = a.toNat / 4 := by
  have hrule := ((guarded_taskSerial locals left Regs.init).exec env h).2
  cases he with
  | arrived buffer st =>
    -- only data changes the memory, and the rule says what came before it
    rcases receive_changes hb with ⟨c, data, rfl, hc, hdata, hcovers⟩
    rcases hrule _ data rfl ⟨c, rfl, hc, hdata⟩ with ⟨before, a, rfl, hfits⟩
    rw [hpre.addr] at hcovers
    exact ⟨before, a, rfl, hfits.word hcovers⟩
  | lost => exact absurd rfl hb
  | test => exact absurd rfl hb
  | other => exact absurd rfl hb

def blankDevice : Device := ⟨0, 0, fun _ => 0⟩

/-- `M` and a number at the beginning: the last byte of the long word changes. -/
theorem store_after_address_modify :
    ∃ before a, (oneCommand [0x4d, 0x35, 0x0d]).take 14 = before ++ [addressSet a] ∧
      (3 : U32).toNat / 4 = a.toNat / 4 :=
  store_after_address 0 defaultSettings (typingEnv [0x4d, 0x35, 0x0d]) (fun _ => zeroLocals) 1
    (rfl : oneCommand [0x4d, 0x35, 0x0d] = (oneCommand [0x4d, 0x35, 0x0d]).take 14 ++
      onTwi.event (wrote [0x33, 0, 0, 0, 5] .success) :: (oneCommand [0x4d, 0x35, 0x0d]).drop 15)
    (heard_listen (u := ⟨fun _ => 0, fun _ => 0⟩) (d := blankDevice) _)
    (.arrived _ [0x33, 0, 0, 0, 5] .success) (by decide)

end Serial
