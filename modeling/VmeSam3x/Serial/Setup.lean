import VmeSam3x.Serial.LineEditor
import VmeSam3x.Serial.Numerals
import Mathlib.Data.List.GetD

/-! # What the setup command programs

The `S` command asks for the low half of a MAC address and for a serial number, and programs both
when the operator confirms. The new address is a local that is assigned only when a number was
accepted, but it is shown and programmed on every path.
-/

namespace Serial

open Interact Bytes CString Flash

/-! ## What is typed -/

/-- The line that is edited, and what is typed after it: the line as it was after Ctrl-C. Nothing,
if the line is never ended. -/
def typedLine (current input : List U8) : Option (List U8 × List U8) :=
  match input.dropWhile fun c => !stops c with
  | [] => none
  | c :: rest =>
    some (if c = 0x03 then current
      else typeChars (snAsciiMaxlen - 1) current (input.takeWhile fun c => !stops c), rest)

/-- The three letters, each in either case. -/
def typedYes (input : List U8) : Bool := (input.take 3).map toupper = [0x59, 0x45, 0x53]

/-- The number is accepted. -/
def AcceptsNumber (input : List U8) : Prop :=
  ∃ d rest, typedNumber input = some (true, d, rest)

/-- The operator comes to the confirmation, and confirms. -/
def Confirms (input : List U8) : Prop :=
  ∃ accepted d rest line rest', typedNumber input = some (accepted, d, rest) ∧
    typedLine [] rest = some (line, rest') ∧ typedYes rest' = true

/-- The current serial number. -/
def currentSn (settings : Settings) : List U8 :=
  (List.ofFn settings.serialNumber).takeWhile (· ≠ 0)

/-- The values to be programmed, with a fallback for the address when no number was accepted. -/
def typedValues (fallback : Fin 6 → U8) (current input : List U8) :
    Option ((Fin 6 → U8) × List U8) :=
  match typedNumber input with
  | none => none
  | some (accepted, d, rest) =>
    match typedLine current rest with
    | none => none
    | some (line, rest') =>
      if typedYes rest' then some (if accepted then mrfAddress d else fallback, line) else none

/-- The values the operator means to program: without a number, the current address. -/
def meant (settings : Settings) (input : List U8) : Option ((Fin 6 → U8) × List U8) :=
  typedValues settings.mac (currentSn settings) input

/-- Both fields with given values. -/
def writeSettings (mac : Fin 6 → U8) (line : List U8) : Prog Spi Fault Status := do
  let _ ← extFlashWriteMacAddress mac
  let _ ← extFlashWaitForReady
  let _ ← extFlashWriteSn (fun i => (line ++ [0]).getD i 0) (line.length + 1)
  extFlashWaitForReady

/-- What that does on the bus. -/
def programs (bus : Env Spi) : Option ((Fin 6 → U8) × List U8) → List (Event Spi)
  | some (mac, line) => (Prog.exec bus (writeSettings mac line) []).2
  | none => []

/-- What the command does on the bus. -/
def onBus (bus : Env Spi) (rounds : Nat) (settings : Settings) (stack : Stack) (input : List U8) :
    List (Event Spi) :=
  (Prog.run (world bus) (setupCommand rounds settings stack) ⟨input, []⟩).2.spi

/-- The command programs what is meant, whatever the stack holds. -/
structure ProgramsMeant (settings : Settings) (input : List U8) : Prop where
  same : ∀ bus rounds stack stack', input.length < rounds →
    onBus bus rounds settings stack input = onBus bus rounds settings stack' input
  values : ∀ bus rounds stack, input.length < rounds →
    onBus bus rounds settings stack input = programs bus (meant settings input)

/-! ## Runs -/

variable {bus : Env Spi} {tr : List (Event Spi)} {w : World} {α β : Type}

/-- A call into the flash driver runs on the bus alone. -/
theorem run_flash (p : Prog Spi Fault α) (f : α → MonitorProg β) :
    Prog.run (world bus) (flash p >>= f) w =
      match Prog.exec bus p w.spi with
      | (.ok a, tr) => Prog.run (world bus) (f a) { w with spi := tr }
      | (.error e, tr) => (.error e, { w with spi := tr }) := by
  have hembed : Prog.run (world bus) (flash p) w =
      ((Prog.exec bus p w.spi).1, { w with spi := (Prog.exec bus p w.spi).2 }) :=
    @Prog.run_embed _ _ _ _ _ _ _ _ _ World.spi (fun w tr => { w with spi := tr })
      (fun _ _ => rfl) (fun _ _ _ => rfl) (fun _ => rfl) (fun _ _ => rfl) p w
  rw [Prog.run_bind, hembed]
  rcases Prog.exec bus p w.spi with ⟨_ | _, _⟩ <;> rfl

/-- The confirmation: yes exactly for the letters, and nothing on the bus. -/
theorem run_expectLetters (bus : Env Spi) (tr : List (Event Spi)) (letters input : List U8) :
    ∃ x rest, Prog.run (world bus) (expectLetters letters) ⟨input, tr⟩ = (x, ⟨rest, tr⟩) ∧
      (x = .ok true ↔ (input.take letters.length).map toupper = letters) := by
  induction letters generalizing input with
  | nil => exact ⟨_, _, rfl, iff_of_true rfl rfl⟩
  | cons letter letters ih =>
    cases input with
    | nil => exact ⟨_, _, rfl, iff_of_false nofun nofun⟩
    | cons c rest =>
      rw [List.length_cons, List.take_succ_cons, List.map_cons, List.cons.injEq, expectLetters,
        run_getchar_cons]
      by_cases hc : toupper c = letter
      · rw [if_pos hc, run_putchar]
        rcases ih rest with ⟨x, rest', hrun, hx⟩
        exact ⟨x, rest', hrun, hx.trans (and_iff_right hc).symm⟩
      · rw [if_neg hc]
        exact ⟨_, _, rfl, iff_of_false nofun fun h => hc h.1⟩

/-- The bytes of a string and its terminator, at a pointer to its array. -/
theorem map_pointer {line : List U8} {s : Chars snAsciiMaxlen} (h : Holds s line) :
    (List.range (line.length + 1)).map
        (fun i => if hi : i < snAsciiMaxlen then s ⟨i, hi⟩ else 0) = line ++ [0] := by
  rcases List.prefix_iff_getElem.mp h.2 with ⟨hlen, hget⟩
  apply List.ext_getElem
  · simp
  · intro i hi hi'
    have hlt : i < snAsciiMaxlen := by
      rw [List.length_ofFn] at hlen
      omega
    rw [List.getElem_map, List.getElem_range, dif_pos hlt, hget i hi', List.getElem_ofFn]

theorem map_getD (l : List U8) : (List.range l.length).map (fun i => l.getD i 0) = l := by
  apply List.ext_getElem
  · simp
  · intro i hi hi'
    rw [List.getElem_map, List.getElem_range, List.getD_eq_getElem _ _ hi']

/-- The write of a serial number depends on the string only. -/
theorem extFlashWriteSn_eq {line : List U8} {s : Chars snAsciiMaxlen} (h : Holds s line) :
    (extFlashWriteSn (fun i => if hi : i < snAsciiMaxlen then s ⟨i, hi⟩ else 0)
        (line.length + 1) : Prog Spi Fault Status) =
      extFlashWriteSn (fun i => (line ++ [0]).getD i 0) (line.length + 1) := by
  have hshort : ¬ line.length + 1 > snAsciiMaxlen := Nat.not_lt.mpr h.lt
  have hlen : line.length + 1 = (line ++ [0]).length := by simp
  unfold extFlashWriteSn
  rw [if_neg hshort, map_pointer h]
  conv_rhs => rw [hlen, map_getD]

/-- The report of a write waits for the flash. -/
theorem run_reportWrite (status : Status) (f : Unit → MonitorProg α) :
    Prog.run (world bus) (reportWrite status >>= f) w =
      match Prog.exec bus extFlashWaitForReady w.spi with
      | (.ok _, tr) => Prog.run (world bus) (f ()) { w with spi := tr }
      | (.error e, tr) => (.error e, { w with spi := tr }) := by
  unfold reportWrite
  rw [bind_assoc, run_print, bind_assoc, run_flash]
  rcases Prog.exec bus extFlashWaitForReady w.spi with ⟨_ | wait, tr⟩
  · rfl
  · change Prog.run (world bus) ((if wait = success then _ else _) >>= f) _ = _
    split <;> rfl

/-- From the confirmation on, the command is the writes of both fields. -/
theorem run_programSettings {newMac : Fin 6 → U8} {line : List U8} {s : Chars snAsciiMaxlen}
    (h : Holds s line) :
    (Prog.run (world bus) (programSettings newMac s) w).2.spi =
      (Prog.exec bus (writeSettings newMac line) w.spi).2 := by
  unfold programSettings writeSettings
  rw [run_print, run_flash, Prog.exec_bind]
  rcases Prog.exec bus (extFlashWriteMacAddress newMac) w.spi with ⟨_ | status, tr⟩
  · rfl
  · change (Prog.run (world bus) (reportWrite status >>= _) _).2.spi = (Prog.exec bus (_ >>= _) tr).2
    rw [run_reportWrite, Prog.exec_bind]
    rcases Prog.exec bus extFlashWaitForReady tr with ⟨_ | wait, tr⟩
    · rfl
    · change (Prog.run (world bus) (print _ >>= fun _ => inArray (strlen s) >>= _) _).2.spi =
        (Prog.exec bus (_ >>= _) tr).2
      rw [run_print, h.strlen]
      change (Prog.run (world bus) (flash (extFlashWriteSn _ (line.length + 1)) >>= _) _).2.spi = _
      rw [run_flash, extFlashWriteSn_eq h, Prog.exec_bind]
      rcases Prog.exec bus (extFlashWriteSn _ (line.length + 1)) tr with ⟨_ | status, tr⟩
      · rfl
      · change (Prog.run (world bus) (reportWrite status) _).2.spi = (Prog.exec bus _ tr).2
        rw [← bind_pure (reportWrite status), run_reportWrite]
        rcases Prog.exec bus extFlashWaitForReady tr with ⟨_ | wait, tr⟩ <;> rfl

/-! ## The whole command -/

variable {s : Chars snAsciiMaxlen} {str input line rest : List U8} {rounds : Nat}

/-- A line that is never ended holds no character that would stop the editor. -/
theorem stops_of_typedLine_none {current : List U8} (h : typedLine current input = none) :
    ∀ d ∈ input, stops d = false := by
  intro d hd
  unfold typedLine at h
  split at h
  · rename_i hnil
    have hall := List.dropWhile_eq_nil_iff.mp hnil d hd
    simpa using hall
  · cases h

/-- A line that is ended: what was typed, and the character that ended it. -/
theorem typedLine_some {current : List U8} (h : typedLine current input = some (line, rest)) :
    ∃ pre c, input = pre ++ c :: rest ∧ (∀ d ∈ pre, stops d = false) ∧ stops c = true ∧
      line = if c = 0x03 then current else typeChars (snAsciiMaxlen - 1) current pre := by
  unfold typedLine at h
  split at h
  · cases h
  · rename_i c rest' hdrop
    cases h
    refine ⟨input.takeWhile fun c => !stops c, c, ?_, ?_, ?_, rfl⟩
    · rw [← hdrop, List.takeWhile_append_dropWhile]
    · intro d hd
      simpa using List.mem_takeWhile_imp hd
    · have hhead := List.head?_dropWhile_not (fun c => !stops c) input
      rw [hdrop] at hhead
      simpa using hhead

/-- A line that is never ended. -/
theorem run_editline_none (hs : Holds s str) (hline : typedLine str input = none)
    (hrounds : input.length < rounds) (f : Int × Chars snAsciiMaxlen → MonitorProg α) :
    Prog.run (world bus) (serialEditline rounds s >>= f) ⟨input, tr⟩ =
      (.error .blocked, ⟨[], tr⟩) := by
  rw [Prog.run_bind, run_serialEditline_blocked bus tr hs (stops_of_typedLine_none hline) hrounds]

/-- A line that is ended; after Ctrl-C the current one is kept. -/
theorem run_editline_some (bus : Env Spi) (tr : List (Event Spi))
    {current : Chars snAsciiMaxlen} (hs : Holds s str) (hcurrent : Holds current str)
    (hline : typedLine str input = some (line, rest)) (hrounds : input.length < rounds) :
    ∃ s', Holds s' line ∧ ∀ f : Chars snAsciiMaxlen → MonitorProg α,
      Prog.run (world bus)
          (serialEditline rounds s >>= fun r => keepUnlessCancelled r.1 r.2 current >>= f)
          ⟨input, tr⟩ =
        Prog.run (world bus) (f s') ⟨rest, tr⟩ := by
  rcases typedLine_some hline with ⟨pre, c, rfl, hpre, hc, rfl⟩
  have hlen : pre.length < rounds := by
    rw [List.length_append] at hrounds
    omega
  rcases run_serialEditline bus tr hs hpre hc rest hlen with ⟨s', hrun, hs'⟩
  by_cases hcancel : c = 0x03
  · -- the editor returned -1, and the current line is copied over what it left
    rcases hcurrent.strcpy s' with ⟨s'', hcopy, hs''⟩
    rw [if_pos hcancel] at hrun ⊢
    refine ⟨s'', hs'', fun f => ?_⟩
    rw [Prog.run_bind, hrun]
    change Prog.run (world bus) (keepUnlessCancelled (-1) s' current >>= f) _ = _
    rw [keepUnlessCancelled, if_pos (by decide), hcopy]
    rfl
  · rw [if_neg hcancel] at hrun ⊢
    refine ⟨s', hs', fun f => ?_⟩
    rw [Prog.run_bind, hrun]
    change Prog.run (world bus) (keepUnlessCancelled (List.length _ : Int) s' current >>= f) _ = _
    rw [keepUnlessCancelled, if_neg (by omega)]
    rfl

theorem typedNumber_length {accepted : Bool} {d : U32}
    (h : typedNumber input = some (accepted, d, rest)) : rest.length ≤ input.length := by
  unfold typedNumber at h
  split at h
  · cases h
    rw [List.length_drop]
    exact Nat.sub_le _ _
  · split at h
    · cases h
    · rename_i hdrop
      cases h
      have hlen := congrArg List.length hdrop
      rw [List.length_drop, List.length_cons] at hlen
      omega

theorem holds_currentSn (settings : Settings) :
    Holds settings.serialNumber (currentSn settings) := by
  rcases exists_holds settings.terminated with ⟨str, hstr⟩
  have heq : currentSn settings = str := by
    rcases hstr with ⟨hne, t, ht⟩
    unfold currentSn
    rw [← ht, List.append_assoc, List.singleton_append, List.takeWhile_append_of_pos]
    · simp
    · intro c hc
      exact decide_eq_true fun h0 => hne (h0 ▸ hc)
  rw [heq]
  exact hstr

/-- The command programs what is typed, with the stack's address for a missing number. -/
theorem onBus_eq (settings : Settings) (stack : Stack) (hrounds : input.length < rounds) :
    onBus bus rounds settings stack input =
      programs bus (typedValues stack.newMacAddress (currentSn settings) input) := by
  have hsn := holds_currentSn settings
  unfold onBus setupCommand typedValues
  rw [run_print, Prog.run_bind, run_serialHexread32]
  cases hnumber : typedNumber input with
  | none => rfl
  | some r =>
    -- accepted or not, the command goes on to the serial number
    rcases r with ⟨accepted, d, rest⟩
    have hlen := Nat.lt_of_le_of_lt (typedNumber_length hnumber) hrounds
    rcases hsn.strcpy stack.newSerialNumber with ⟨s, hcopy, hs⟩
    change (Prog.run (world bus) (print _ >>= fun _ => inArray (strcpy _ _) >>= _) _).2.spi = _
    rw [run_print, hcopy]
    change (Prog.run (world bus) (serialEditline rounds s >>= _) _).2.spi = _
    cases hline : typedLine (currentSn settings) rest with
    | none =>
      rw [run_editline_none hs hline hlen]
      simp only [hline]
      rfl
    | some r =>
      rcases r with ⟨line, rest'⟩
      rcases run_editline_some (α := Unit) bus [] hs hsn hline hlen
        with ⟨s', hs', hrun⟩
      refine (congrArg (fun r => r.2.spi) (hrun _)).trans ?_
      rcases run_expectLetters bus [] [0x59, 0x45, 0x53] rest'
        with ⟨x, rest'', hletters, hx⟩
      rw [run_print, run_print, run_print, run_print, serialYes, bind_assoc, run_print,
        Prog.run_bind, hletters]
      simp only [hline]
      by_cases hyes : typedYes rest' = true
      · have htrue : x = .ok true := hx.mpr (of_decide_eq_true hyes)
        rw [if_pos hyes, htrue]
        exact run_programSettings hs'
      · -- no, or nothing more is typed
        have hfalse : x ≠ .ok true := fun h => hyes (decide_eq_true (hx.mp h))
        rw [if_neg hyes]
        cases x with
        | error e => rfl
        | ok b =>
          cases b with
          | false => rfl
          | true => exact absurd rfl hfalse

/-! ## When it is what is meant -/

/-- What follows a line does not depend on the line. -/
theorem typedLine_rest {current : List U8} (current' : List U8)
    (h : typedLine current input = some (line, rest)) :
    ∃ line', typedLine current' input = some (line', rest) := by
  unfold typedLine at h ⊢
  split at h
  · cases h
  · cases h
    exact ⟨_, rfl⟩

/-- The fallback is programmed when the operator confirms without a number. -/
theorem typedValues_cases (current input : List U8) :
    (AcceptsNumber input ∨ ¬ Confirms input) ∧
        (∀ mac mac', typedValues mac current input = typedValues mac' current input) ∨
      ¬ AcceptsNumber input ∧ Confirms input ∧
        ∃ line, ∀ mac, typedValues mac current input = some (mac, line) := by
  unfold typedValues
  cases hnumber : typedNumber input with
  | none =>
    refine .inl ⟨.inr ?_, fun _ _ => rfl⟩
    intro ⟨_, _, _, _, _, h, _⟩
    rw [hnumber] at h
    cases h
  | some r =>
    rcases r with ⟨accepted, d, rest⟩
    cases hline : typedLine current rest with
    | none =>
      refine .inl ⟨.inr ?_, fun _ _ => by simp only [hline]⟩
      intro ⟨_, _, _, _, _, h, h', _⟩
      rw [hnumber] at h
      cases h
      rcases typedLine_rest current h' with ⟨_, h''⟩
      rw [hline] at h''
      cases h''
    | some r =>
      rcases r with ⟨line, rest'⟩
      rcases typedLine_rest [] hline with ⟨line', hline'⟩
      by_cases hyes : typedYes rest' = true
      · have hconfirms : Confirms input := ⟨_, _, _, _, _, hnumber, hline', hyes⟩
        cases accepted with
        | true =>
          exact .inl ⟨.inl ⟨d, rest, hnumber⟩, fun _ _ => by simp only [hline, if_pos]⟩
        | false =>
          -- the one case in which the fallback shows
          refine .inr ⟨?_, hconfirms, line, fun mac => by simp [hline, hyes]⟩
          intro ⟨_, _, h⟩
          rw [hnumber] at h
          cases h
      · refine .inl ⟨.inr ?_, fun _ _ => by simp only [hline, if_neg hyes]⟩
        intro ⟨_, _, _, _, _, h, h', hyes'⟩
        rw [hnumber] at h
        cases h
        rw [hline'] at h'
        cases h'
        exact hyes hyes'

/-- The address on a bus where everything is successful. -/
theorem programs_address (mac : Fin 6 → U8) (line : List U8) :
    (programs quietBus (some (mac, line)))[5]? =
      some ⟨.writePacket (List.ofFn mac), success⟩ := by
  have haddress : Prog.exec quietBus (extFlashWriteMacAddress mac : Prog Spi Fault Status) [] =
      (.ok success, [⟨.select, ()⟩, ⟨.writePacket [m25pWren], success⟩, ⟨.deselect, ()⟩,
        ⟨.select, ()⟩, ⟨.writePacket (addressed m25pPp macAddressOffset), success⟩,
        ⟨.writePacket (List.ofFn mac), success⟩, ⟨.deselect, ()⟩,
        ⟨.select, ()⟩, ⟨.writePacket [m25pWrdi], success⟩, ⟨.deselect, ()⟩]) := rfl
  change (Prog.exec quietBus (writeSettings mac line) []).2[5]? = _
  unfold writeSettings
  rw [Prog.exec_bind, haddress]
  -- what comes after only extends the history
  rcases Prog.exec_path quietBus _ _ with ⟨evs, hevs, -⟩
  rw [hevs]
  rfl

/-- Confirmed without a number, the command programs what the stack holds. -/
theorem not_programsMeant (settings : Settings) (hnumber : ¬ AcceptsNumber input)
    (hconfirms : Confirms input) : ¬ ProgramsMeant settings input := by
  intro hmeant
  rcases typedValues_cases (currentSn settings) input with ⟨hor, -⟩ | ⟨-, -, line, hline⟩
  · exact hor.elim hnumber fun h => h hconfirms
  · let stack : Stack := ⟨fun i => settings.mac i + 1, fun _ => 0⟩
    have hvalues := hmeant.values quietBus (input.length + 1) stack (Nat.lt_succ_self _)
    rw [onBus_eq settings stack (Nat.lt_succ_self _), meant, hline, hline] at hvalues
    have haddress := programs_address settings.mac line
    rw [← hvalues, programs_address] at haddress
    have hwritten : List.ofFn stack.newMacAddress = List.ofFn settings.mac :=
      SpiOp.writePacket.inj (congrArg Event.op (Option.some.inj haddress))
    have hfirst : settings.mac 0 + 1 = settings.mac 0 := congrFun (List.ofFn_injective hwritten) 0
    exact absurd hfirst (by simp)

/-- **The setup command programs what is meant** exactly when a number is accepted or the
operator does not confirm: otherwise the address comes from the stack. -/
theorem programsMeant_iff (settings : Settings) (input : List U8) :
    ProgramsMeant settings input ↔ AcceptsNumber input ∨ ¬ Confirms input := by
  constructor
  · intro hmeant
    by_cases hnumber : AcceptsNumber input
    · exact .inl hnumber
    · exact .inr fun hconfirms => not_programsMeant settings hnumber hconfirms hmeant
  · intro hor
    rcases typedValues_cases (currentSn settings) input with ⟨-, hsame⟩ | ⟨hnumber, hconfirms, -⟩
    · refine ⟨?_, ?_⟩
      · intro bus rounds stack stack' hrounds
        rw [onBus_eq settings stack hrounds, onBus_eq settings stack' hrounds,
          hsame stack.newMacAddress stack'.newMacAddress]
      · intro bus rounds stack hrounds
        rw [onBus_eq settings stack hrounds, meant, hsame stack.newMacAddress settings.mac]
    · exact (hor.elim hnumber fun h => h hconfirms).elim

/-- The settings of an empty flash. -/
def defaultSettings : Settings := ⟨ethernetConfEthaddr, fun _ => 0, rfl⟩

/-- The operator leaves the address as it is, and the serial number too, and types yes. -/
theorem not_programsMeant_return :
    ¬ ProgramsMeant defaultSettings [0x0d, 0x0d, 0x79, 0x65, 0x73] := by
  refine not_programsMeant defaultSettings ?_ ?_
  · intro ⟨_, _, h⟩
    cases h
  · exact ⟨false, 0, [0x0d, 0x79, 0x65, 0x73], [], [0x79, 0x65, 0x73], rfl, rfl, rfl⟩

end Serial
