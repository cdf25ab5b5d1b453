import VmeSam3x.Telnet.Console

/-! # The line buffer of the console

The byte that ends a line goes through the same guarded store as the others, so a line of 80
bytes or more leaves no room for it; the loops of `linebuf_set_u32` rely on it. What the
buffer holds is described by the bytes since the last terminator.
-/

namespace Telnet

open Interact Bytes

/-! ## Scanning a terminated buffer -/

variable {l : List U8} {linebuf : Linebuf}

theorem skipSpaces_ok (h : 0 ∈ l) (pos : Nat) :
    ∃ k, skipSpaces l pos = .ok (l.drop k, pos + k) ∧ 0 ∈ l.drop k := by
  induction l generalizing pos with
  | nil => cases h
  | cons c rest ih =>
    rw [skipSpaces]
    split
    · rename_i hc
      have hrest : 0 ∈ rest := by
        rcases List.mem_cons.mp h with h0 | hrest
        · rw [hc] at h0
          cases h0
        · exact hrest
      rcases ih hrest (pos + 1) with ⟨k, hk, hmem⟩
      refine ⟨k + 1, ?_, hmem⟩
      rw [hk, List.drop_succ_cons, Nat.add_right_comm]
      rfl
    · exact ⟨0, rfl, h⟩

theorem scanDigits_ok (h : 0 ∈ l) (pos : Nat) (data : U32) (found : Bool) :
    ∃ k data' found', scanDigits l pos data found = .ok (pos + k, data', found') ∧
      0 ∈ l.drop k := by
  induction l generalizing pos data found with
  | nil => cases h
  | cons c rest ih =>
    rw [scanDigits]
    split
    · rename_i hc
      have hrest : 0 ∈ rest := by
        rcases List.mem_cons.mp h with h0 | hrest
        · rw [← h0] at hc
          cases hc
        · exact hrest
      rcases ih hrest (pos + 1) _ true with ⟨k, data', found', hk, hmem⟩
      refine ⟨k + 1, data', found', ?_, hmem⟩
      rw [hk, Nat.add_right_comm]
      rfl
    · exact ⟨0, data, found, rfl, h⟩

/-- With a zero byte ahead the function stays inside the buffer, and before that byte. -/
theorem linebufSetU32_ok {pos : Nat} (h : 0 ∈ (List.ofFn linebuf).drop pos) :
    ∃ st data, linebufSetU32 linebuf pos = .ok (st, data) ∧
      ∀ pos', st = some pos' → 0 ∈ (List.ofFn linebuf).drop pos' := by
  rcases skipSpaces_ok h pos with ⟨k, hk, hmem⟩
  rcases scanDigits_ok hmem (pos + k) 0 false with ⟨k', data, found, hk', hmem'⟩
  refine ⟨if found then some (pos + k + k') else none, data, ?_, ?_⟩
  · rw [linebufSetU32, hk]
    change (scanDigits _ _ _ _ >>= _) = _
    rw [hk']
    rfl
  · intro pos' hpos
    rw [List.drop_drop, List.drop_drop, ← Nat.add_assoc] at hmem'
    cases found with
    | true =>
      cases hpos
      exact hmem'
    | false => cases hpos

/-! ## Commands -/

/-- The operations of a command. -/
def OfCommand : ConsoleOp → Prop
  | .dev _ => True
  | .write _ => True
  | _ => False

theorem dumpWords_uses (n : Nat) (lptr : U32) (page : String) :
    (dumpWords n lptr page).Uses OfCommand := by
  induction n generalizing lptr page with
  | zero => trivial
  | succ n ih => exact Prog.Uses.perform_bind trivial fun test => ih _ _

theorem modifyRead_uses (addr : U32) (page : String) : (modifyRead addr page).Uses OfCommand := by
  refine Prog.Uses.perform_bind trivial fun test => ?_
  cases test <;> trivial

theorem runCommand_uses (linebuf : Linebuf) (lptr : U32) :
    (runCommand linebuf lptr).Uses OfCommand := by
  unfold runCommand
  refine Prog.Uses.ite ?_ (Prog.Uses.ite trivial (Prog.Uses.ite ?_ (Prog.Uses.ite ?_ trivial)))
  · refine (Prog.uses_ofExcept _).bind fun r => ?_
    exact (dumpWords_uses _ _ _).bind fun r' => trivial
  · refine Prog.Uses.bind ?_ fun page => trivial
    refine Prog.Uses.perform_bind trivial fun enabled => Prog.Uses.ite ?_ ?_
    · exact Prog.Uses.perform_bind trivial fun ok => Prog.Uses.ite trivial trivial
    · exact Prog.Uses.perform_bind trivial fun ok => Prog.Uses.ite trivial trivial
  · refine Prog.Uses.bind ?_ fun page => trivial
    refine (Prog.uses_ofExcept _).bind fun r => ?_
    rcases r with ⟨_ | st, addr⟩
    · trivial
    · refine (Prog.uses_ofExcept _).bind fun r => Prog.Uses.ite ?_ (modifyRead_uses _ _)
      refine Prog.Uses.perform_bind trivial fun _ => Prog.Uses.perform_bind trivial fun _ => ?_
      exact modifyRead_uses _ _

/-- A scan of the command runs over the end of the buffer. -/
def Overruns (linebuf : Linebuf) : Prop :=
  (ScansOnce linebuf ∨ ScansTwice linebuf) ∧ linebufSetU32 linebuf 1 = .error .outOfBounds ∨
    ScansTwice linebuf ∧ ∃ st addr, linebufSetU32 linebuf 1 = .ok (some st, addr) ∧
      linebufSetU32 linebuf st = .error .outOfBounds

/-- The program returns, whatever the answers are. -/
abbrev Returns {α : Type} (p : ConsoleProg α) : Prop :=
  Prog.Post (fun _ => True) (fun _ => False) p

theorem Returns.bind {α β : Type} {p : ConsoleProg α} {f : α → ConsoleProg β} (hp : Returns p)
    (hf : ∀ a, Returns (f a)) : Returns (p >>= f) :=
  Prog.Post.bind hp fun a _ => hf a

theorem dumpWords_returns (n : Nat) (lptr : U32) (page : String) :
    Returns (dumpWords n lptr page) := by
  induction n generalizing lptr page with
  | zero => trivial
  | succ n ih => exact fun test => ih _ _

theorem modifyRead_returns (addr : U32) (page : String) : Returns (modifyRead addr page) := by
  intro test
  cases test <;> trivial

theorem skipSpaces_error {pos : Nat} {e : Fault} (h : skipSpaces l pos = .error e) :
    e = .outOfBounds := by
  induction l generalizing pos with
  | nil =>
    cases h
    rfl
  | cons c rest ih =>
    rw [skipSpaces] at h
    split at h
    · exact ih h
    · cases h

theorem scanDigits_error {pos : Nat} {data : U32} {found : Bool} {e : Fault}
    (h : scanDigits l pos data found = .error e) : e = .outOfBounds := by
  induction l generalizing pos data found with
  | nil =>
    cases h
    rfl
  | cons c rest ih =>
    rw [scanDigits] at h
    split at h
    · exact ih h
    · cases h

theorem linebufSetU32_error {pos : Nat} {e : Fault} (h : linebufSetU32 linebuf pos = .error e) :
    e = .outOfBounds := by
  unfold linebufSetU32 at h
  cases hs : skipSpaces ((List.ofFn linebuf).drop pos) pos with
  | error e' =>
    rw [hs] at h
    cases h
    exact skipSpaces_error hs
  | ok r =>
    rw [hs] at h
    change (scanDigits r.1 r.2 0 false >>= _) = _ at h
    cases hd : scanDigits r.1 r.2 0 false with
    | error e' =>
      rw [hd] at h
      cases h
      exact scanDigits_error hd
    | ok r' =>
      rw [hd] at h
      cases h

theorem dumpCommand_cases (linebuf : Linebuf) (lptr : U32) :
    linebufSetU32 linebuf 1 = .error .outOfBounds ∧
        dumpCommand linebuf lptr = .fail .outOfBounds ∨
      linebufSetU32 linebuf 1 ≠ .error .outOfBounds ∧ Returns (dumpCommand linebuf lptr) := by
  unfold dumpCommand
  cases h : linebufSetU32 linebuf 1 with
  | error e =>
    left
    rw [linebufSetU32_error h]
    exact ⟨rfl, rfl⟩
  | ok r =>
    right
    refine ⟨nofun, ?_⟩
    exact (dumpWords_returns _ _ _).bind fun _ => trivial

theorem modifyCommand_cases (linebuf : Linebuf) :
    (linebufSetU32 linebuf 1 = .error .outOfBounds ∨
        ∃ st addr, linebufSetU32 linebuf 1 = .ok (some st, addr) ∧
          linebufSetU32 linebuf st = .error .outOfBounds) ∧
        modifyCommand linebuf = .fail .outOfBounds ∨
      linebufSetU32 linebuf 1 ≠ .error .outOfBounds ∧
        (∀ st addr, linebufSetU32 linebuf 1 = .ok (some st, addr) →
          linebufSetU32 linebuf st ≠ .error .outOfBounds) ∧ Returns (modifyCommand linebuf) := by
  unfold modifyCommand
  cases h : linebufSetU32 linebuf 1 with
  | error e =>
    left
    rw [linebufSetU32_error h]
    exact ⟨.inl rfl, rfl⟩
  | ok r =>
    rcases r with ⟨_ | st, addr⟩
    · exact .inr ⟨nofun, nofun, trivial⟩
    · -- the second scan starts where the first one ended
      cases h' : linebufSetU32 linebuf st with
      | error e =>
        left
        rw [linebufSetU32_error h'] at h' ⊢
        refine ⟨.inr ⟨st, addr, rfl, h'⟩, ?_⟩
        change (Prog.ofExcept (linebufSetU32 linebuf st) >>= _) = _
        rw [h']
        rfl
      | ok r' =>
        right
        refine ⟨nofun, ?_, ?_⟩
        · intro st' addr' heq
          cases heq
          rw [h']
          nofun
        · change Returns (Prog.ofExcept (linebufSetU32 linebuf st) >>= _)
          rw [h']
          change Returns (if r'.1.isSome then _ else _)
          split
          · exact fun _ _ => modifyRead_returns _ _
          · exact modifyRead_returns _ _

theorem toggleCommand_returns : Returns toggleCommand := by
  intro enabled
  cases enabled with
  | true =>
    intro ok
    cases ok <;> trivial
  | false =>
    intro ok
    cases ok <;> trivial

theorem runCommand_modify (lptr : U32) (h : ScansTwice linebuf) :
    runCommand linebuf lptr = modifyCommand linebuf >>= fun page => .ret (page, lptr) := by
  unfold runCommand
  rcases h with h | h <;> simp [h]

/-- A command faults exactly when one of its scans runs over the end. -/
theorem runCommand_cases (linebuf : Linebuf) (lptr : U32) :
    Overruns linebuf ∧ runCommand linebuf lptr = .fail .outOfBounds ∨
      ¬ Overruns linebuf ∧ Returns (runCommand linebuf lptr) := by
  by_cases hm : ScansTwice linebuf
  · rw [runCommand_modify lptr hm]
    rcases modifyCommand_cases linebuf with ⟨he, hfail⟩ | ⟨he, he', hret⟩
    · left
      rw [hfail]
      rcases he with he | he
      · exact ⟨.inl ⟨.inr hm, he⟩, rfl⟩
      · exact ⟨.inr ⟨hm, he⟩, rfl⟩
    · right
      refine ⟨?_, hret.bind fun _ => trivial⟩
      intro hover
      rcases hover with ⟨-, h⟩ | ⟨-, st, addr, h, h'⟩
      · exact he h
      · exact he' st addr h h'
  · by_cases hd : ScansOnce linebuf
    · have heq : runCommand linebuf lptr = dumpCommand linebuf lptr := if_pos hd
      rw [heq]
      rcases dumpCommand_cases linebuf lptr with ⟨he, hfail⟩ | ⟨he, hret⟩
      · exact .inl ⟨.inl ⟨.inl hd, he⟩, hfail⟩
      · right
        refine ⟨?_, hret⟩
        intro hover
        rcases hover with ⟨-, h⟩ | ⟨hm', -⟩
        · exact he h
        · exact hm hm'
    · right
      refine ⟨?_, ?_⟩
      · intro hover
        rcases hover with ⟨hscan, -⟩ | ⟨hm', -⟩
        · exact hscan.elim hd hm
        · exact hm hm'
      · have hd' : ¬ linebuf 0 = 0x64 := hd
        have hm' : ¬ (linebuf 0 = 0x6d ∨ linebuf 0 = 0x4d) := hm
        unfold runCommand
        simp only [if_neg hd', if_neg hm']
        split
        · trivial
        · split
          · exact toggleCommand_returns.bind fun _ => trivial
          · trivial

/-- A terminated line does not overrun. -/
theorem not_overruns (h : ∃ i, linebuf i = 0) : ¬ Overruns linebuf := by
  intro hover
  -- the first byte is a command letter, so the zero byte comes after it
  have hscan : ScansOnce linebuf ∨ ScansTwice linebuf := by
    rcases hover with ⟨hscan, -⟩ | ⟨hscan, -⟩
    · exact hscan
    · exact .inr hscan
  have hfirst : linebuf 0 ≠ 0 := by
    rcases hscan with h | h | h <;> rw [h] <;> decide
  have hmem : 0 ∈ (List.ofFn linebuf).drop 1 := by
    rcases h with ⟨i, hi⟩
    rw [List.ofFn_succ, List.drop_succ_cons, List.drop_zero, List.mem_ofFn]
    rcases Fin.eq_zero_or_eq_succ i with rfl | ⟨j, rfl⟩
    · exact absurd hi hfirst
    · exact ⟨j, hi⟩
  rcases linebufSetU32_ok hmem with ⟨st, data, hok, hnext⟩
  rcases hover with ⟨-, he⟩ | ⟨-, st', addr, hok', he⟩
  · rw [hok] at he
    cases he
  · rw [hok] at hok'
    cases hok'
    rcases linebufSetU32_ok (hnext st' rfl) with ⟨_, _, hok, -⟩
    rw [hok] at he
    cases he

/-! ## What the buffer holds -/

/-- The lines that end in a byte string, when `cur` are the bytes of the line so far. -/
def linesFrom : List U8 → List U8 → List (List U8)
  | _, [] => []
  | cur, c :: rest =>
    if terminate c = 0 then cur :: linesFrom [] rest else linesFrom (cur ++ [c]) rest

/-- The bytes after the last terminator. -/
def restFrom : List U8 → List U8 → List U8
  | cur, [] => cur
  | cur, c :: rest => if terminate c = 0 then restFrom [] rest else restFrom (cur ++ [c]) rest

/-- Lines are ended by a newline or a zero byte. -/
def lines (bs : List U8) : List (List U8) := linesFrom [] bs

theorem linesFrom_append (cur bs bs' : List U8) :
    linesFrom cur (bs ++ bs') = linesFrom cur bs ++ linesFrom (restFrom cur bs) bs' := by
  induction bs generalizing cur with
  | nil => rfl
  | cons c rest ih =>
    rw [List.cons_append, linesFrom, linesFrom, restFrom]
    split
    · rw [ih, List.cons_append]
    · exact ih _

/-- The buffer after the bytes `cur` of a line. -/
structure Holds (cur : List U8) (l : Line) : Prop where
  pos : l.linebufpos = min cur.length linebufLength
  stored : ∀ i : Fin linebufLength, ∀ h : i.val < cur.length, l.linebuf i = cur[i.val]
  nonzero : 0 ∉ cur

theorem terminate_of_ne {c : U8} (h : terminate c ≠ 0) : terminate c = c := by
  unfold terminate at h ⊢
  split at h
  · exact absurd rfl h
  · rename_i hc
    exact if_neg hc

/-- The store never leaves the buffer. -/
theorem put_ok (l : Line) (ch : U8) : ∃ l', l.put ch = .ok l' ∧ l'.lptr = l.lptr := by
  unfold Line.put
  split
  · rename_i h
    rw [storeChar, dif_pos h]
    exact ⟨_, rfl, rfl⟩
  · exact ⟨l, rfl, rfl⟩

variable {line line' : Line} {cur : List U8}

theorem Holds.start (linebuf : Linebuf) (lptr : U32) : Holds [] ⟨linebuf, 0, lptr⟩ :=
  ⟨rfl, nofun, nofun⟩

theorem Holds.put {ch : U8} (h : Holds cur line) (hput : line.put ch = .ok line')
    (hch : ch ≠ 0) : Holds (cur ++ [ch]) line' := by
  have hzero : 0 ∉ cur ++ [ch] := by
    intro hmem
    rcases List.mem_append.mp hmem with hmem | hmem
    · exact h.nonzero hmem
    · exact hch (List.mem_singleton.mp hmem).symm
  unfold Line.put at hput
  split at hput
  · rename_i hpos
    rw [storeChar, dif_pos hpos] at hput
    cases hput
    have hlen : line.linebufpos = cur.length := by
      have := h.pos
      omega
    refine ⟨?_, ?_, hzero⟩
    · rw [List.length_append, List.length_singleton]
      change line.linebufpos + 1 = _
      omega
    · intro i hi
      change Function.update line.linebuf _ ch i = _
      -- the new byte is behind the others, which the update leaves alone
      by_cases heq : i.val = cur.length
      · have hi' : i = ⟨line.linebufpos, hpos⟩ := Fin.ext (heq.trans hlen.symm)
        have hget : (cur ++ [ch])[i.val] = ch := by simp [heq]
        rw [hget, hi', Function.update_self]
      · have hne : i ≠ ⟨line.linebufpos, hpos⟩ := by
          intro hi'
          exact heq ((congrArg Fin.val hi').trans hlen)
        have hlt : i.val < cur.length := by
          rw [List.length_append, List.length_singleton] at hi
          omega
        rw [Function.update_of_ne hne, h.stored i hlt, List.getElem_append_left hlt]
  · -- the buffer is full
    rename_i hpos
    cases hput
    have hlen : linebufLength ≤ cur.length := by
      have := h.pos
      omega
    refine ⟨?_, ?_, hzero⟩
    · rw [h.pos, List.length_append]
      omega
    · intro i hi
      have hlt : i.val < cur.length := Nat.lt_of_lt_of_le i.isLt hlen
      rw [h.stored i hlt, List.getElem_append_left hlt]

/-- The terminator of a line that is short enough is stored. -/
theorem Holds.terminated (h : Holds cur line) (hput : line.put 0 = .ok line')
    (hshort : cur.length < linebufLength) : ∃ i, line'.linebuf i = 0 := by
  have hpos : line.linebufpos < linebufLength := by
    rw [h.pos]
    omega
  rw [Line.put, if_pos hpos, storeChar, dif_pos hpos] at hput
  cases hput
  exact ⟨⟨line.linebufpos, hpos⟩, Function.update_self _ _ _⟩

/-- The terminator of a longer line is lost, and nothing else in the buffer is zero. -/
theorem Holds.unterminated (h : Holds cur line) (hput : line.put 0 = .ok line')
    (hlong : linebufLength ≤ cur.length) (i : Fin linebufLength) : line'.linebuf i ≠ 0 := by
  have hpos : ¬ line.linebufpos < linebufLength := by
    rw [h.pos]
    omega
  rw [Line.put, if_neg hpos] at hput
  cases hput
  have hi : i.val < cur.length := by omega
  rw [h.stored i hi]
  intro hzero
  exact h.nonzero (hzero ▸ List.getElem_mem hi)

/-! ## Feeding bytes -/

/-- The operations while a delivery is processed. -/
def InDelivery : ConsoleOp → Prop
  | .dispatch _ => True
  | o => OfCommand o

/-- A dispatch finds a zero byte in the buffer. -/
def Terminated : ConsoleOp → Prop
  | .dispatch linebuf => ∃ i, linebuf i = 0
  | _ => True

theorem OfCommand.inDelivery {o : ConsoleOp} (h : OfCommand o) : InDelivery o := by
  cases o <;> trivial

theorem OfCommand.terminated {o : ConsoleOp} (h : OfCommand o) : Terminated o := by
  cases o <;> trivial

/-- The operations of a dispatch are those of its command and the dispatch itself. -/
theorem dispatch_uses {K : ConsoleOp → Prop} (hK : ∀ o, OfCommand o → K o)
    (hd : K (.dispatch line.linebuf)) : (dispatch line).Uses K := by
  refine Prog.Uses.perform_bind hd fun _ => ?_
  refine ((runCommand_uses _ _).mono hK).bind fun r => Prog.Uses.ite ?_ trivial
  exact Prog.Uses.perform_bind (hK _ trivial) fun _ => trivial

/-- A dispatch that does not overrun starts a new line in the same buffer. -/
theorem dispatch_keeps (h : ¬ Overruns line.linebuf) :
    Prog.Post (fun line' => line'.linebuf = line.linebuf ∧ line'.linebufpos = 0) (fun _ => False)
      (dispatch line) := by
  intro _
  have hret : Returns (runCommand line.linebuf line.lptr) := by
    rcases runCommand_cases line.linebuf line.lptr with ⟨hover, -⟩ | ⟨-, hret⟩
    · exact absurd hover h
    · exact hret
  change Prog.Post _ _ (runCommand line.linebuf line.lptr >>= _)
  refine Prog.Post.bind hret ?_
  intro r _
  change Prog.Post _ _ (if r.1 ≠ "" then _ else _)
  split
  · exact fun _ => ⟨rfl, rfl⟩
  · exact ⟨rfl, rfl⟩

theorem dispatch_returns (h : ¬ Overruns line.linebuf) :
    Prog.Post (fun line' => Holds [] line') (fun _ => False) (dispatch line) := by
  refine (dispatch_keeps h).mono ?_ (fun _ hf => hf)
  intro line' hkeep
  exact ⟨hkeep.2, nofun, nofun⟩

/-- What one byte does. -/
theorem feedByte_eq (line : Line) (c : U8) :
    ∃ line', line.put (terminate c) = .ok line' ∧
      feedByte line c = if terminate c = 0 then dispatch line' else .ret line' := by
  rcases put_ok line (terminate c) with ⟨line', hput, -⟩
  refine ⟨line', hput, ?_⟩
  rw [feedByte, hput]
  rfl

theorem feedBytes_inDelivery (line : Line) (bs : List U8) :
    (feedBytes line bs).Uses InDelivery := by
  induction bs generalizing line with
  | nil => trivial
  | cons c rest ih =>
    refine Prog.Uses.bind ?_ fun line' => ih line'
    rcases feedByte_eq line c with ⟨line', -, heq⟩
    rw [heq]
    exact Prog.Uses.ite (dispatch_uses (fun _ => OfCommand.inDelivery) trivial) trivial

/-- Short lines: every dispatch finds a terminated line, and nothing faults. -/
theorem feedBytes_short (bs : List U8) (h : Holds cur line)
    (hshort : ∀ ln ∈ linesFrom cur bs, ln.length < linebufLength) :
    (feedBytes line bs).Uses Terminated ∧
      Prog.Post (Holds (restFrom cur bs)) (fun _ => False) (feedBytes line bs) := by
  induction bs generalizing line cur with
  | nil => exact ⟨trivial, h⟩
  | cons c rest ih =>
    rw [linesFrom] at hshort
    rw [restFrom]
    rcases feedByte_eq line c with ⟨line', hput, heq⟩
    change (feedByte line c >>= _).Uses Terminated ∧ Prog.Post _ _ (feedByte line c >>= _)
    rw [heq]
    by_cases hc : terminate c = 0
    · -- the line ends: it is dispatched, and the next one starts empty
      rw [if_pos hc] at hshort ⊢
      rw [hc] at hput
      have hterm := h.terminated hput (hshort cur List.mem_cons_self)
      have huses : (dispatch line').Uses Terminated :=
        dispatch_uses (fun _ => OfCommand.terminated) hterm
      have hpost := dispatch_returns (not_overruns hterm)
      have hrest : ∀ ln ∈ linesFrom [] rest, ln.length < linebufLength :=
        fun ln hln => hshort ln (List.mem_cons_of_mem cur hln)
      rw [if_pos hc]
      constructor
      · exact huses.bind_post hpost fun line'' hh => (ih hh hrest).1
      · exact hpost.bind fun line'' hh => (ih hh hrest).2
    · rw [if_neg hc] at hshort ⊢
      have hh := h.put hput hc
      rw [terminate_of_ne hc] at hh
      rw [if_neg hc]
      exact ih hh hshort

/-- A long line is dispatched without a terminator. -/
theorem feedBytes_long (bs : List U8) (h : Holds cur line)
    (hlong : ∃ ln ∈ linesFrom cur bs, linebufLength ≤ ln.length) {evs : List (Event Console)}
    {x : Except Fault Line} (hp : Prog.Path (feedBytes line bs) evs x) :
    ∃ linebuf, ⟨.dispatch linebuf, ()⟩ ∈ evs ∧ ∀ i, linebuf i ≠ 0 := by
  induction bs generalizing line cur evs with
  | nil =>
    rcases hlong with ⟨_, hln, _⟩
    cases hln
  | cons c rest ih =>
    rw [linesFrom] at hlong
    rcases feedByte_eq line c with ⟨line', hput, heq⟩
    change Prog.Path (feedByte line c >>= _) _ _ at hp
    rw [heq] at hp
    by_cases hc : terminate c = 0
    · -- a line ends here, and only its dispatch shows how long it was
      rw [if_pos hc] at hlong hp
      rw [hc] at hput
      by_cases hcur : cur.length < linebufLength
      · -- this line is short, so the long one comes later
        have hpost := dispatch_returns (not_overruns (h.terminated hput hcur))
        have hlater : ∃ ln ∈ linesFrom [] rest, linebufLength ≤ ln.length := by
          rcases hlong with ⟨ln, hln, hlen⟩
          rcases List.mem_cons.mp hln with rfl | hln
          · omega
          · exact ⟨ln, hln, hlen⟩
        rcases hpost.path_bind hp with ⟨line'', evs₁, evs₂, rfl, -, hh, h₂⟩
        rcases ih hh hlater h₂ with ⟨linebuf, hmem, hne⟩
        exact ⟨linebuf, List.mem_append_right _ hmem, hne⟩
      · -- this is the long one: no byte of the buffer is zero
        rcases Prog.path_call.mp hp with ⟨_, evs', rfl, -⟩
        exact ⟨line'.linebuf, List.mem_cons_self, h.unterminated hput (by omega)⟩
    · rw [if_neg hc] at hlong hp
      have hh := h.put hput hc
      rw [terminate_of_ne hc] at hh
      exact ih hh hlong hp

/-! ## Sessions -/

/-- The bytes that a session takes from its deliveries: the first pbuf of each netbuf. -/
def received (evs : List (Event Console)) : List U8 :=
  evs.flatMap fun
    | ⟨.recv, .ok nb⟩ => nb.payload
    | _ => []

variable {evs evs' : List (Event Console)}

@[simp] theorem received_append : received (evs ++ evs') = received evs ++ received evs' :=
  List.flatMap_append

theorem received_of_inDelivery (h : ∀ e ∈ evs, InDelivery e.op) : received evs = [] := by
  rw [received, List.flatMap_eq_nil_iff]
  intro e he
  have ho := h e he
  rcases e with ⟨o, r⟩
  cases o <;> first | rfl | exact ho.elim

theorem receive_terminated (retries : Nat) : (receive retries).Uses Terminated := by
  induction retries with
  | zero => trivial
  | succ retries ih =>
    refine Prog.Uses.perform_bind trivial fun r => ?_
    cases r with
    | ok nb => trivial
    | error e => exact Prog.Uses.ite trivial (Prog.Uses.perform_bind trivial fun _ => ih)

/-- The receive loop takes what it returns. -/
theorem path_receive {retries : Nat} {x : Except Fault (Option Netbuf)}
    (hp : Prog.Path (receive retries) evs x) :
    (∃ nb, x = .ok (some nb) ∧ received evs = nb.payload) ∨
      (x = .ok none ∨ x = .error .stillWaiting) ∧ received evs = [] := by
  induction retries generalizing evs with
  | zero =>
    rcases Prog.path_fail.mp hp with ⟨rfl, rfl⟩
    exact .inr ⟨.inr rfl, rfl⟩
  | succ retries ih =>
    rcases Prog.path_perform_bind.mp hp with ⟨r, evs₁, rfl, h₁⟩
    cases r with
    | ok nb =>
      rcases Prog.path_ret.mp h₁ with ⟨rfl, rfl⟩
      exact .inl ⟨nb, rfl, List.append_nil _⟩
    | error e =>
      change Prog.Path (if e = .clsd ∨ e = .mem then _ else _) _ _ at h₁
      split at h₁
      · rcases Prog.path_ret.mp h₁ with ⟨rfl, rfl⟩
        exact .inr ⟨.inl rfl, rfl⟩
      · rcases Prog.path_perform_bind.mp h₁ with ⟨_, evs₂, rfl, h₂⟩
        have hrest := ih h₂
        exact hrest

/-- No dispatch without a zero byte, and no access outside the buffer. -/
def LineSafe {α : Type} (evs : List (Event Console)) (x : Except Fault α) : Prop :=
  (∀ e ∈ evs, Terminated e.op) ∧ x ≠ .error .outOfBounds

/-- All lines are shorter than the buffer. -/
def Short (lns : List (List U8)) : Prop := ∀ ln ∈ lns, ln.length < linebufLength

theorem short_append {lns lns' : List (List U8)} : Short (lns ++ lns') ↔ Short lns ∧ Short lns' :=
  List.forall_mem_append

theorem LineSafe.append {α : Type} {x : Except Fault α} (h : ∀ e ∈ evs, Terminated e.op) :
    LineSafe (evs ++ evs') x ↔ LineSafe evs' x := by
  unfold LineSafe
  rw [List.forall_mem_append]
  exact ⟨fun hs => ⟨hs.1.2, hs.2⟩, fun hs => ⟨⟨h, hs.1⟩, hs.2⟩⟩

theorem LineSafe.cons {α : Type} {x : Except Fault α} {e : Event Console} (h : Terminated e.op) :
    LineSafe (e :: evs) x ↔ LineSafe evs x := by
  unfold LineSafe
  rw [List.forall_mem_cons]
  exact ⟨fun hs => ⟨hs.1.2, hs.2⟩, fun hs => ⟨⟨h, hs.1⟩, hs.2⟩⟩

/-- One delivery, and what follows it: either the lines that end in the delivery are short and
it passes safely, or they are not. -/
theorem path_delivery {α : Type} {bs : List U8} {rest : Line → ConsoleProg α} {x : Except Fault α}
    (h : Holds cur line) (hp : Prog.Path (feedBytes line bs >>= rest) evs x) :
    (Short (linesFrom cur bs) ∧ ∃ line' evs₁ evs₂, evs = evs₁ ++ evs₂ ∧ received evs₁ = [] ∧
        (∀ e ∈ evs₁, Terminated e.op) ∧ Holds (restFrom cur bs) line' ∧
        Prog.Path (rest line') evs₂ x) ∨
      ¬ Short (linesFrom cur bs) ∧ ¬ LineSafe evs x := by
  by_cases hshort : Short (linesFrom cur bs)
  · left
    rcases feedBytes_short bs h hshort with ⟨huses, hpost⟩
    rcases hpost.path_bind hp with ⟨line', evs₁, evs₂, rfl, h₁, hh, h₂⟩
    exact ⟨hshort, line', evs₁, evs₂, rfl,
      received_of_inDelivery (h₁.uses (feedBytes_inDelivery _ _)), h₁.uses huses, hh, h₂⟩
  · right
    refine ⟨hshort, ?_⟩
    intro hsafe
    have hlong : ∃ ln ∈ linesFrom cur bs, linebufLength ≤ ln.length := by
      unfold Short at hshort
      push Not at hshort
      exact hshort
    have hfound : ∃ linebuf, ⟨.dispatch linebuf, ()⟩ ∈ evs ∧ ∀ i, linebuf i ≠ 0 := by
      rcases Prog.path_bind.mp hp with ⟨line', evs₁, evs₂, rfl, h₁, -⟩ | ⟨e, rfl, h₁⟩
      · rcases feedBytes_long bs h hlong h₁ with ⟨linebuf, hmem, hne⟩
        exact ⟨linebuf, List.mem_append_left _ hmem, hne⟩
      · exact feedBytes_long bs h hlong h₁
    rcases hfound with ⟨linebuf, hmem, hne⟩
    rcases hsafe.1 _ hmem with ⟨i, hi⟩
    exact hne i hi

/-- A session is safe exactly when the lines it receives are short. -/
theorem path_sessionLoop {retries rounds : Nat} {x : Except Fault Bool} (h : Holds cur line)
    (hp : Prog.Path (sessionLoop retries rounds line) evs x) :
    LineSafe evs x ↔ Short (linesFrom cur (received evs)) := by
  induction rounds generalizing line cur evs with
  | zero =>
    rcases Prog.path_fail.mp hp with ⟨rfl, rfl⟩
    exact ⟨fun _ => nofun, fun _ => ⟨nofun, nofun⟩⟩
  | succ rounds ih =>
    rcases Prog.path_perform_bind.mp hp with ⟨_, evs₁, rfl, h₁⟩
    refine (LineSafe.cons (by trivial)).trans ?_
    change LineSafe evs₁ x ↔ Short (linesFrom cur (received evs₁))
    rcases Prog.path_bind.mp h₁ with ⟨nb?, evs₂, evs₃, rfl, h₂, h₃⟩ | ⟨e, rfl, h₂⟩
    · rw [LineSafe.append (h₂.uses (receive_terminated retries)), received_append]
      rcases path_receive h₂ with ⟨nb, hx, hrec⟩ | ⟨hx | hx, hrec⟩
      · -- a delivery: its lines are short and the loop goes on, or the run has overrun
        cases hx
        change Prog.Path (feedBytes line nb.payload >>= _) evs₃ x at h₃
        rw [hrec, linesFrom_append, short_append]
        rcases path_delivery h h₃ with ⟨hshort, line', evs₄, evs₅, rfl, hrec', hterm, hh, h₄⟩ |
          ⟨hshort, hsafe⟩
        · rw [LineSafe.append hterm, received_append, hrec', List.nil_append]
          rcases Prog.path_perform_bind.mp h₄ with ⟨_, evs₆, rfl, h₅⟩
          refine (LineSafe.cons (by trivial)).trans ?_
          change _ ↔ _ ∧ Short (linesFrom _ (received evs₆))
          split at h₅
          · rcases Prog.path_ret.mp h₅ with ⟨rfl, rfl⟩
            exact ⟨fun _ => ⟨hshort, nofun⟩, fun _ => ⟨nofun, nofun⟩⟩
          · rw [ih hh h₅]
            exact ⟨fun hs => ⟨hshort, hs⟩, fun hs => hs.2⟩
        · exact ⟨fun hs => absurd hs hsafe, fun hs => absurd hs.1 hshort⟩
      · cases hx
        rcases Prog.path_ret.mp h₃ with ⟨rfl, rfl⟩
        rw [hrec]
        exact ⟨fun _ => nofun, fun _ => ⟨nofun, nofun⟩⟩
      · cases hx
    · rcases path_receive h₂ with ⟨nb, hx, -⟩ | ⟨hx | hx, hrec⟩
      · cases hx
      · cases hx
      · cases hx
        rw [hrec]
        exact ⟨fun _ => nofun, fun _ => ⟨h₂.uses (receive_terminated retries), nofun⟩⟩

theorem path_connection {retries rounds : Nat} {init : Locals} {x : Except Fault Unit}
    (hp : Prog.Path (prvtelnetConnection retries rounds init) evs x) :
    LineSafe evs x ↔ Short (lines (received evs)) := by
  have hstart : Holds [] init.start := Holds.start _ _
  rcases Prog.path_bind.mp hp with ⟨exit, evs₁, evs₂, rfl, h₁, h₂⟩ | ⟨e, rfl, h₁⟩
  · rcases Prog.path_perform_bind.mp h₂ with ⟨_, evs₃, rfl, h₃⟩
    rcases Prog.path_perform.mp h₃ with ⟨_, rfl, rfl⟩
    have hloop := path_sessionLoop hstart h₁
    rw [received_append]
    change _ ↔ Short (linesFrom [] (received evs₁ ++ []))
    rw [List.append_nil, ← hloop]
    constructor
    · intro hs
      exact ⟨fun e he => hs.1 e (List.mem_append_left _ he), nofun⟩
    · intro hs
      refine ⟨?_, nofun⟩
      rw [List.forall_mem_append]
      refine ⟨hs.1, ?_⟩
      simp [Terminated]
  · have hloop := path_sessionLoop hstart h₁
    change _ ↔ Short (linesFrom [] (received evs))
    rw [← hloop]
    constructor
    · intro hs
      refine ⟨hs.1, ?_⟩
      intro he
      cases he
      exact hs.2 rfl
    · intro hs
      refine ⟨hs.1, ?_⟩
      intro he
      cases he
      exact hs.2 rfl

/-- **The line buffer is terminated**, and no access leaves it, in exactly those sessions that
receive lines shorter than 80 bytes. -/
theorem lineSafe_iff_short (env : Env Console) (retries rounds : Nat) (init : Locals) :
    LineSafe (Prog.exec env (prvtelnetConnection retries rounds init) []).2
        (Prog.exec env (prvtelnetConnection retries rounds init) []).1 ↔
      Short (lines (received (Prog.exec env (prvtelnetConnection retries rounds init) []).2)) :=
  path_connection (Prog.path_exec env _).1

/-- A `d` and 79 spaces, and the newline. -/
def fullLine : Netbuf := ⟨0x64 :: List.replicate 79 0x20 ++ [0x0a], [], 0⟩

/-- A client that sends this line again and again. -/
def fullLineEnv : Env Console
  | _, .recv => .ok fullLine
  | _, .accept => true
  | _, .dev (.readShort _) => none
  | _, .dev (.writeShort _ _) => false
  | _, .dev .xvcIsEnabled => false
  | _, .dev .xvcDisable => false
  | _, .dev .xvcEnable => false
  | _, .write _ => ()
  | _, .delay _ => ()
  | _, .netbufDelete => ()
  | _, .close => ()
  | _, .delete => ()
  | _, .dispatch _ => ()

/-- A line of exactly 80 bytes. -/
theorem not_lineSafe_full_line :
    ¬ LineSafe (Prog.exec fullLineEnv (prvtelnetConnection 1 1 ⟨fun _ => 0, 0⟩) []).2
      (Prog.exec fullLineEnv (prvtelnetConnection 1 1 ⟨fun _ => 0, 0⟩) []).1 := by
  rcases Prog.path_exec fullLineEnv (prvtelnetConnection 1 1 ⟨fun _ => 0, 0⟩) with ⟨hp, ha⟩
  rw [path_connection hp]
  -- the run starts with the prompt and the delivery
  rcases Prog.path_call.mp hp with ⟨_, evs₁, htr₁, h₁⟩
  rcases Prog.path_call.mp h₁ with ⟨r, evs₂, htr₂, -⟩
  rw [htr₁, htr₂] at ha ⊢
  rcases Prog.answered_cons.mp ha with ⟨-, ha⟩
  rcases Prog.answered_cons.mp ha with ⟨hr, -⟩
  change r = .ok fullLine at hr
  subst hr
  change ¬ Short (linesFrom [] (fullLine.payload ++ received evs₂))
  rw [linesFrom_append, short_append]
  intro ⟨hshort, _⟩
  have hmem : 0x64 :: List.replicate 79 0x20 ∈ linesFrom [] fullLine.payload := by decide
  exact absurd (hshort _ hmem) (by decide)

end Telnet
