import VmeSam3x.Telnet.Session
import VmeSam3x.Telnet.Numerals
import Mathlib.Data.List.GetD

/-! # The dump pointer

A `d` command without an address goes on where the last one stopped. The pointer lives through
the session but is not initialised, so the first `d` command has to set it. The line buffer is
not initialised either, and behind the terminator of a line lies the tail of an earlier one; no
command gets to see that.
-/

namespace Telnet

open Interact Bytes CString

/-! ## What the lines of a session say -/

/-- A `d` command. -/
def IsDump (ln : List U8) : Prop := ln.head? = some 0x64

instance (ln : List U8) : Decidable (IsDump ln) := inferInstanceAs (Decidable (_ = _))

/-- The address on a line. -/
def address (ln : List U8) : Option U32 :=
  let (st, addr) := numberAt 1 (ln.drop 1)
  st.map fun _ => addr

/-- Where the dump stops that starts at `p`. -/
def dumpEnd (p : U32) : U32 := p + 16

/-- Where the last `d` command stopped, when an address is known for it. -/
def stopAfter (p : Option U32) (ln : List U8) : Option U32 :=
  if IsDump ln then ((address ln).or p).map dumpEnd else p

/-- Where the last `d` command of a session stopped. -/
def stopped (lns : List (List U8)) : Option U32 := lns.foldl stopAfter none

/-- The first `d` command, if there is one, has an address. -/
def Supplied (lns : List (List U8)) : Prop :=
  ∀ ln ∈ lns.find? (fun ln => decide (IsDump ln)), (address ln).isSome

instance (lns : List (List U8)) : Decidable (Supplied lns) :=
  inferInstanceAs (Decidable (∀ ln ∈ lns.find? _, _))

/-- The reads of a dump. -/
def dumpReads (p : U32) : Nat → List DevOp
  | 0 => []
  | n + 1 => .readShort p :: dumpReads (p + 2) n

/-! ## The buffer of a line -/

variable {linebuf linebuf' : Linebuf} {ln : List U8} {dev : Env Dev}

/-- The terminated line stands in the buffer, in front of older characters. -/
theorem Holds.string {line line' : Line} {cur : List U8} (h : Holds cur line)
    (hput : line.put 0 = .ok line') (hshort : cur.length < linebufLength) :
    CString.Holds line'.linebuf cur := by
  have hpos : line.linebufpos = cur.length := by
    rw [h.pos]
    omega
  have hlt : line.linebufpos < linebufLength := by
    rw [hpos]
    exact hshort
  rw [Line.put, if_pos hlt, storeChar, dif_pos hlt] at hput
  cases hput
  have hend : (⟨line.linebufpos, hlt⟩ : Fin linebufLength) = ⟨cur.length, hshort⟩ := Fin.ext hpos
  change CString.Holds (Function.update line.linebuf ⟨line.linebufpos, hlt⟩ 0) cur
  rw [hend]
  apply holds_of_get h.nonzero hshort
  · intro i hi
    have hne : (⟨i, Nat.lt_trans hi hshort⟩ : Fin linebufLength) ≠ ⟨cur.length, hshort⟩ := by
      intro heq
      exact Nat.ne_of_lt hi (congrArg Fin.val heq)
    rw [Function.update_of_ne hne, h.stored _ hi]
  · exact Function.update_self _ _ _

/-- A number is read from the line alone. -/
theorem linebufSetU32_holds (h : CString.Holds linebuf ln) {pos : Nat} (hpos : pos ≤ ln.length) :
    linebufSetU32 linebuf pos = .ok (numberAt pos (ln.drop pos)) := by
  rcases h.2 with ⟨tail, htail⟩
  rw [linebufSetU32_eq, ← htail, List.append_assoc, List.singleton_append]
  exact setU32_eq hpos tail

theorem head_holds (h : CString.Holds linebuf ln) : linebuf 0 = ln.headD 0 := by
  rcases h.2 with ⟨tail, htail⟩
  have hhead : (List.ofFn linebuf).headD 0 = linebuf 0 := by
    rw [List.ofFn_succ]
    rfl
  rw [← hhead, ← htail]
  cases ln with
  | nil => rfl
  | cons c rest => rfl

/-- A number ends within the line. -/
theorem numberAt_le {pos st : Nat} {addr : U32} (hpos : pos ≤ ln.length)
    (h : numberAt pos (ln.drop pos) = (some st, addr)) : st ≤ ln.length := by
  unfold numberAt at h
  split at h
  · cases h
  · have hst := congrArg Prod.fst h
    have hsplit := congrArg List.length
      (List.takeWhile_append_dropWhile (p := isBlank) (l := ln.drop pos))
    have hdigits := (List.takeWhile_sublist isxdigit
      (l := (ln.drop pos).dropWhile isBlank)).length_le
    rw [List.length_append, List.length_drop] at hsplit
    unfold spaces digits at hst
    injection hst with hst
    omega

/-- The command of a line does not depend on what lies behind it in the buffer. -/
theorem runCommand_holds (h : CString.Holds linebuf ln) (h' : CString.Holds linebuf' ln)
    (lptr : U32) : runCommand linebuf lptr = runCommand linebuf' lptr := by
  have hhead : linebuf 0 = linebuf' 0 := by rw [head_holds h, head_holds h']
  cases ln with
  | nil =>
    have hzero : linebuf 0 = 0 := head_holds h
    have hzero' : linebuf' 0 = 0 := head_holds h'
    unfold runCommand
    rw [hzero, hzero']
    rfl
  | cons c rest =>
    have hone : 1 ≤ (c :: rest).length := by simp
    have hfirst := linebufSetU32_holds h hone
    have hfirst' := linebufSetU32_holds h' hone
    have hdump : dumpCommand linebuf lptr = dumpCommand linebuf' lptr := by
      unfold dumpCommand
      rw [hfirst, hfirst']
    have hmodify : modifyCommand linebuf = modifyCommand linebuf' := by
      unfold modifyCommand
      rw [hfirst, hfirst']
      rcases hnum : numberAt 1 ((c :: rest).drop 1) with ⟨_ | st, addr⟩
      · rfl
      · -- the second scan starts inside the line as well
        have hst := numberAt_le hone hnum
        change (Prog.ofExcept (linebufSetU32 linebuf st) >>= _) =
          (Prog.ofExcept (linebufSetU32 linebuf' st) >>= _)
        rw [linebufSetU32_holds h hst, linebufSetU32_holds h' hst]
    unfold runCommand
    rw [hhead, hdump, hmodify]

/-! ## Obeying a line -/

/-- Operations on the device, one after the other. -/
def ask (dev : Env Dev) (ops : List DevOp) (acc : List (Event Dev)) : List (Event Dev) :=
  ops.foldl (fun acc o => acc ++ [⟨o, dev acc o⟩]) acc

/-- A buffer that holds nothing but the line. -/
def padded (ln : List U8) : Linebuf := fun i => ln.getD i.val 0

/-- What a line does to the dump pointer and to the device. -/
def obey (dev : Env Dev) (s : U32 × List (Event Dev)) (ln : List U8) : U32 × List (Event Dev) :=
  if IsDump ln then
    let p := (address ln).getD s.1
    (dumpEnd p, ask dev (dumpReads p 8) s.2)
  else (s.1, (Prog.run (devices dev) (runCommand (padded ln) 0) s.2).2)

def obeyAll (dev : Env Dev) (s : U32 × List (Event Dev)) (lns : List (List U8)) :
    U32 × List (Event Dev) := lns.foldl (obey dev) s

theorem padded_holds (hne : 0 ∉ ln) (hshort : ln.length < linebufLength) :
    CString.Holds (padded ln) ln := by
  apply holds_of_get hne hshort
  · intro i hi
    exact (List.getD_eq_getElem ln 0 hi)
  · exact List.getD_eq_default ln 0 (Nat.le_refl _)

/-- The device's history only grows. -/
theorem run_extends {α : Type} (p : ConsoleProg α) (acc : List (Event Dev)) :
    acc <+: (Prog.run (devices dev) p acc).2 := by
  induction p generalizing acc with
  | ret a => exact List.prefix_rfl
  | fail e => exact List.prefix_rfl
  | call o k ih =>
    rw [Prog.run_call]
    refine List.IsPrefix.trans ?_ (ih _ _)
    cases o <;> first | exact List.prefix_rfl | exact List.prefix_append _ _

theorem ask_ops (ops : List DevOp) (acc : List (Event Dev)) :
    (ask dev ops acc).map Event.op = acc.map Event.op ++ ops := by
  induction ops generalizing acc with
  | nil => exact (List.append_nil _).symm
  | cons o rest ih =>
    change (ask dev rest _).map Event.op = _
    rw [ih, List.map_append, List.append_assoc]
    rfl

theorem ask_extends (ops : List DevOp) (acc : List (Event Dev)) : acc <+: ask dev ops acc := by
  induction ops generalizing acc with
  | nil => exact List.prefix_rfl
  | cons o rest ih => exact (List.prefix_append _ _).trans (ih _)

theorem obey_extends (s : U32 × List (Event Dev)) (ln : List U8) : s.2 <+: (obey dev s ln).2 := by
  unfold obey
  split
  · exact ask_extends _ _
  · exact run_extends _ _

theorem obeyAll_extends (dev : Env Dev) (s : U32 × List (Event Dev)) (lns : List (List U8)) :
    s.2 <+: (obeyAll dev s lns).2 := by
  induction lns generalizing s with
  | nil => exact List.prefix_rfl
  | cons ln rest ih => exact (obey_extends s ln).trans (ih _)

/-- The dump reads eight words and leaves the pointer behind them. -/
theorem run_dumpWords (dev : Env Dev) (n : Nat) (lptr : U32) (page : String) (acc : List (Event Dev)) :
    ∃ page', Prog.run (devices dev) (dumpWords n lptr page) acc =
      (.ok (page', lptr + BitVec.ofNat 32 (2 * n)), ask dev (dumpReads lptr n) acc) := by
  induction n generalizing lptr page acc with
  | zero =>
    have hsum : lptr + BitVec.ofNat 32 (2 * 0) = lptr := BitVec.add_zero lptr
    refine ⟨page, ?_⟩
    rw [hsum]
    rfl
  | succ n ih =>
    have hsum : lptr + BitVec.ofNat 32 (2 * (n + 1)) = lptr + 2 + BitVec.ofNat 32 (2 * n) := by
      rw [Nat.mul_succ, Nat.add_comm, BitVec.ofNat_add, BitVec.add_assoc]
      rfl
    rw [hsum]
    exact ih _ _ _

/-- A line that is no `d` command passes the pointer on and does not look at it. -/
theorem runCommand_other (h : linebuf 0 ≠ 0x64) :
    ∃ p : ConsoleProg String, ∀ lptr,
      runCommand linebuf lptr = p >>= fun page => .ret (page, lptr) := by
  unfold runCommand
  simp only [if_neg h]
  split
  · exact ⟨.ret helpText, fun _ => rfl⟩
  · split
    · exact ⟨toggleCommand, fun _ => rfl⟩
    · split
      · exact ⟨modifyCommand linebuf, fun _ => rfl⟩
      · exact ⟨.ret "", fun _ => rfl⟩

theorem isDump_holds (h : CString.Holds linebuf ln) : IsDump ln ↔ linebuf 0 = 0x64 := by
  rw [head_holds h, IsDump]
  cases ln with
  | nil =>
    constructor
    · intro heq
      cases heq
    · intro heq
      exact absurd heq (by decide)
  | cons c rest => exact Option.some_inj

theorem has_terminator (h : CString.Holds linebuf ln) : ∃ i, linebuf i = 0 := by
  have hmem : (0 : U8) ∈ List.ofFn linebuf := h.2.subset (by simp)
  exact List.mem_ofFn.mp hmem

/-- A `d` command starts at its address, or where the pointer is. -/
theorem dumpCommand_holds (h : CString.Holds linebuf ln) (hone : 1 ≤ ln.length) (lptr : U32) :
    ∃ page, dumpCommand linebuf lptr = dumpWords 8 ((address ln).getD lptr) page >>= fun r =>
      .ret (r.1 ++ "\r\n", r.2) := by
  unfold dumpCommand
  rw [linebufSetU32_holds h hone]
  unfold address
  rcases numberAt 1 (ln.drop 1) with ⟨_ | st, addr⟩
  · exact ⟨_, rfl⟩
  · exact ⟨_, rfl⟩

/-- The command of a line, run on the device. -/
theorem run_runCommand (dev : Env Dev) (h : CString.Holds linebuf ln) (lptr : U32) (acc : List (Event Dev)) :
    ∃ page, Prog.run (devices dev) (runCommand linebuf lptr) acc =
      (.ok (page, (obey dev (lptr, acc) ln).1), (obey dev (lptr, acc) ln).2) := by
  by_cases hd : IsDump ln
  · rw [obey, if_pos hd]
    have hletter := (isDump_holds h).mp hd
    have hone : 1 ≤ ln.length := by
      cases ln with
      | nil => cases hd
      | cons c rest => simp
    have hcommand : runCommand linebuf lptr = dumpCommand linebuf lptr := if_pos hletter
    rcases dumpCommand_holds h hone lptr with ⟨page, hdump⟩
    rcases run_dumpWords dev 8 ((address ln).getD lptr) page acc with ⟨page', hrun⟩
    rw [hcommand, hdump, Prog.run_bind, hrun]
    exact ⟨page' ++ "\r\n", rfl⟩
  · rw [obey, if_neg hd]
    have hletter : linebuf 0 ≠ 0x64 := fun heq => hd ((isDump_holds h).mpr heq)
    have hreturns : Returns (runCommand linebuf lptr) := by
      rcases runCommand_cases linebuf lptr with ⟨hover, -⟩ | ⟨-, hret⟩
      · exact absurd hover (not_overruns (has_terminator h))
      · exact hret
    rcases hreturns.run (devices dev) acc with ⟨r, acc', hrun, -⟩
    -- what lies behind the terminator does not matter, and neither does the pointer
    have hpad : runCommand (padded ln) 0 = runCommand linebuf 0 :=
      runCommand_holds (padded_holds h.1 h.lt) h 0
    rcases runCommand_other hletter with ⟨p, hp⟩
    rw [hpad, hp 0, Prog.run_bind]
    rw [hp lptr, Prog.run_bind] at hrun ⊢
    rcases hp' : Prog.run (devices dev) p acc with ⟨e | page, acc''⟩
    · rw [hp'] at hrun
      cases hrun
    · exact ⟨page, rfl⟩

/-- The dispatch of a line obeys it and starts a new one. -/
theorem run_dispatch_line {line : Line} (h : CString.Holds line.linebuf ln) (acc : List (Event Dev)) :
    Prog.run (devices dev) (dispatch line) acc =
      (.ok ⟨line.linebuf, 0, (obey dev (line.lptr, acc) ln).1⟩,
        (obey dev (line.lptr, acc) ln).2) := by
  rcases run_runCommand dev h line.lptr acc with ⟨page, hrun⟩
  unfold dispatch
  change Prog.run (devices dev) (runCommand line.linebuf line.lptr >>= _) acc = _
  rw [Prog.run_bind, hrun]
  change Prog.run (devices dev) (if page ≠ "" then _ else _) _ = _
  split
  · rfl
  · rfl

/-- **Lines and nothing else.** A stream of short lines is obeyed line by line. -/
theorem feed_lines (dev : Env Dev) {line : Line} {cur bs : List U8} (h : Holds cur line)
    (hshort : Short (linesFrom cur bs)) (acc : List (Event Dev)) :
    ∃ line', feed dev line bs acc =
        (.ok line', (obeyAll dev (line.lptr, acc) (linesFrom cur bs)).2) ∧
      Holds (restFrom cur bs) line' ∧
      line'.lptr = (obeyAll dev (line.lptr, acc) (linesFrom cur bs)).1 := by
  induction bs generalizing line cur acc with
  | nil => exact ⟨line, rfl, h, rfl⟩
  | cons c rest ih =>
    rw [linesFrom] at hshort ⊢
    rw [restFrom]
    rcases feedByte_eq line c with ⟨line₁, hput, heq⟩
    rcases put_ok line (terminate c) with ⟨line₂, hput', hptr⟩
    rw [hput] at hput'
    cases hput'
    have hfeed : feed dev line (c :: rest) acc =
        Prog.run (devices dev) (feedByte line c >>= fun l => feedBytes l rest) acc := rfl
    rw [hfeed, Prog.run_bind, heq]
    by_cases hc : terminate c = 0
    · -- the line is complete
      rw [if_pos hc] at hshort ⊢
      rw [hc] at hput
      have hcur : cur.length < linebufLength := hshort cur List.mem_cons_self
      have hrest : Short (linesFrom [] rest) := fun ln hln =>
        hshort ln (List.mem_cons_of_mem cur hln)
      rw [if_pos hc, run_dispatch_line (h.string hput hcur), if_pos hc, hptr]
      exact ih (Holds.start _ _) hrest _
    · rw [if_neg hc] at hshort ⊢
      -- the line goes on
      rw [if_neg hc, if_neg hc]
      have hnext := h.put hput hc
      rw [terminate_of_ne hc] at hnext
      rw [← hptr]
      exact ih hnext hshort acc

/-! ## What the pointer depends on -/

/-- The pointer is where the last `d` command stopped. -/
theorem obeyAll_stopped {p : Option U32} {s : U32 × List (Event Dev)} (lns : List (List U8))
    (hp : ∀ a, p = some a → s.1 = a) :
    ∀ a, lns.foldl stopAfter p = some a → (obeyAll dev s lns).1 = a := by
  induction lns generalizing p s with
  | nil => exact hp
  | cons ln rest ih =>
    refine ih ?_
    intro a ha
    unfold stopAfter at ha
    unfold obey
    by_cases hd : IsDump ln
    · rw [if_pos hd] at ha ⊢
      cases haddr : address ln with
      | some b =>
        rw [haddr] at ha
        cases ha
        rfl
      | none =>
        rw [haddr, Option.none_or, Option.map_eq_some_iff] at ha
        rcases ha with ⟨b, hb, rfl⟩
        exact congrArg dumpEnd (hp b hb)
    · rw [if_neg hd] at ha ⊢
      exact hp a ha

theorem supplied_cons_dump (hd : IsDump ln) {rest : List (List U8)} :
    Supplied (ln :: rest) ↔ (address ln).isSome := by
  have hfind : (ln :: rest).find? (fun ln => decide (IsDump ln)) = some ln :=
    List.find?_cons_of_pos (by simpa using hd)
  rw [Supplied, hfind]
  simp

theorem supplied_cons_other (hd : ¬ IsDump ln) {rest : List (List U8)} :
    Supplied (ln :: rest) ↔ Supplied rest := by
  have hfind : (ln :: rest).find? (fun ln => decide (IsDump ln)) =
      rest.find? fun ln => decide (IsDump ln) :=
    List.find?_cons_of_neg (by simpa using hd)
  rw [Supplied, hfind, Supplied]

/-- When the first `d` command sets the pointer, its first contents do not matter. -/
theorem obeyAll_supplied {lns : List (List U8)} (h : Supplied lns) (lptr lptr' : U32)
    (acc : List (Event Dev)) :
    (obeyAll dev (lptr, acc) lns).2 = (obeyAll dev (lptr', acc) lns).2 := by
  induction lns generalizing acc with
  | nil => rfl
  | cons ln rest ih =>
    change (obeyAll dev (obey dev (lptr, acc) ln) rest).2 =
      (obeyAll dev (obey dev (lptr', acc) ln) rest).2
    by_cases hd : IsDump ln
    · -- from here on the two pointers are the same
      rcases Option.isSome_iff_exists.mp ((supplied_cons_dump hd).mp h) with ⟨a, ha⟩
      have hstep : ∀ p, obey dev (p, acc) ln = (dumpEnd a, ask dev (dumpReads a 8) acc) := by
        intro p
        rw [obey, if_pos hd, ha]
        rfl
      rw [hstep, hstep]
    · have hstep : ∀ p, obey dev (p, acc) ln =
          (p, (Prog.run (devices dev) (runCommand (padded ln) 0) acc).2) := by
        intro p
        rw [obey, if_neg hd]
      rw [hstep, hstep]
      exact ih ((supplied_cons_other hd).mp h) _

/-- When it does not, it reads at them. -/
theorem obeyAll_unsupplied {lns : List (List U8)} (h : ¬ Supplied lns) {lptr lptr' : U32}
    (hne : lptr ≠ lptr') (acc : List (Event Dev)) :
    (obeyAll dev (lptr, acc) lns).2 ≠ (obeyAll dev (lptr', acc) lns).2 := by
  induction lns generalizing acc with
  | nil => exact absurd nofun h
  | cons ln rest ih =>
    change (obeyAll dev (obey dev (lptr, acc) ln) rest).2 ≠
      (obeyAll dev (obey dev (lptr', acc) ln) rest).2
    by_cases hd : IsDump ln
    · have hnone : address ln = none := by
        rw [supplied_cons_dump hd, Option.not_isSome_iff_eq_none] at h
        exact h
      -- the next operation of either run is a read at its own pointer
      have hread : ∀ p, acc.map Event.op ++ [.readShort p] <+:
          (obeyAll dev (obey dev (p, acc) ln) rest).2.map Event.op := by
        intro p
        have hgrow := (obeyAll_extends dev (obey dev (p, acc) ln) rest).map Event.op
        rw [obey, if_pos hd, hnone] at hgrow
        change (ask dev (dumpReads p 8) acc).map Event.op <+: _ at hgrow
        rw [ask_ops] at hgrow
        rw [obey, if_pos hd, hnone]
        exact List.IsPrefix.trans (List.prefix_append_right_inj _ |>.mpr ⟨_, rfl⟩) hgrow
      intro heq
      have hleft := hread lptr
      rw [heq] at hleft
      have hsame := List.prefix_or_prefix_of_prefix hleft (hread lptr')
      have hlength : (acc.map Event.op ++ [DevOp.readShort lptr]).length =
          (acc.map Event.op ++ [DevOp.readShort lptr']).length := by simp
      have hops : acc.map Event.op ++ [DevOp.readShort lptr] =
          acc.map Event.op ++ [DevOp.readShort lptr'] := by
        rcases hsame with hsame | hsame
        · exact hsame.eq_of_length hlength
        · exact (hsame.eq_of_length hlength.symm).symm
      have hlast := List.append_cancel_left hops
      injection hlast with hlast
      injection hlast with hptr
      exact hne hptr
    · have hstep : ∀ p, obey dev (p, acc) ln =
          (p, (Prog.run (devices dev) (runCommand (padded ln) 0) acc).2) := by
        intro p
        rw [obey, if_neg hd]
      rw [hstep, hstep]
      refine ih ?_ _
      rw [supplied_cons_other hd] at h
      exact h

/-- Once the pointer is known it stays known. -/
theorem isSome_foldl_stopAfter (lns : List (List U8)) {p : Option U32} (hp : p.isSome) :
    (lns.foldl stopAfter p).isSome := by
  induction lns generalizing p with
  | nil => exact hp
  | cons l rest ih =>
    apply ih
    unfold stopAfter
    split
    · rw [Option.isSome_map, Option.isSome_or, hp, Bool.or_true]
    · exact hp

/-- A `d` command without an address has one before it. -/
theorem stopped_of_supplied {pre post : List (List U8)} (h : Supplied (pre ++ ln :: post))
    (hd : IsDump ln) (hbare : address ln = none) : (stopped pre).isSome := by
  induction pre with
  | nil =>
    have hsome := (supplied_cons_dump hd).mp h
    rw [hbare] at hsome
    cases hsome
  | cons l rest ih =>
    rw [List.cons_append] at h
    by_cases hl : IsDump l
    · change (rest.foldl stopAfter (stopAfter none l)).isSome
      apply isSome_foldl_stopAfter
      have haddr := (supplied_cons_dump hl).mp h
      have hset : stopAfter none l = (address l).map dumpEnd := by
        rw [stopAfter, if_pos hl, Option.or_none]
      rw [hset, Option.isSome_map]
      exact haddr
    · have hskip : stopped (l :: rest) = stopped rest := by
        rw [stopped, List.foldl_cons, stopAfter, if_neg hl]
        rfl
      rw [hskip]
      exact ih ((supplied_cons_other hl).mp h)

/-! ## Two runs of a session -/

/-- The register accesses of a session are determined by its input. -/
structure DeterminedByInput (dev : Env Dev) (A : List Netbuf) : Prop where
  /-- What the locals hold at first makes no difference. -/
  same : ∀ init init', accessesOf dev init A = accessesOf dev init' A
  /-- A `d` command without an address reads on where the last one stopped, and that one goes
  back to an address of the session. -/
  continues : ∀ (init : Locals) bs ln c rest, effective A = bs ++ (ln ++ c :: rest) → restFrom [] bs = [] →
    (∀ b ∈ ln, terminate b ≠ 0) → terminate c = 0 → IsDump ln → address ln = none →
    ∃ p, stopped (lines bs) = some p ∧
      (feed dev init.start (bs ++ (ln ++ [c])) []).2.map Event.op =
        (feed dev init.start bs []).2.map Event.op ++ dumpReads p 8

theorem linesFrom_line {cur ln : List U8} {c : U8} (hln : ∀ b ∈ ln, terminate b ≠ 0)
    (hc : terminate c = 0) (rest : List U8) :
    linesFrom cur (ln ++ c :: rest) = (cur ++ ln) :: linesFrom [] rest := by
  induction ln generalizing cur with
  | nil => rw [List.nil_append, linesFrom, if_pos hc, List.append_nil]
  | cons b ln ih =>
    rw [List.forall_mem_cons] at hln
    rw [List.cons_append, linesFrom, if_neg hln.1, ih hln.2, List.append_assoc]
    rfl

theorem accessesOf_eq (dev : Env Dev) (init : Locals) {A : List Netbuf}
    (hshort : Short (lines (effective A))) :
    accessesOf dev init A = (obeyAll dev (init.lptr, []) (lines (effective A))).2 := by
  rcases feed_lines dev (Holds.start init.linebuf init.lptr) hshort [] with
    ⟨l', hfeed, -, -⟩
  have hsession : session dev init A = _ := session_eq hfeed
  rw [accessesOf, hsession]
  rfl

/-- **The accesses are determined by the input** in exactly those sessions whose first `d`
command has an address. -/
theorem determinedByInput_iff (dev : Env Dev) (A : List Netbuf)
    (hshort : Short (lines (effective A))) :
    DeterminedByInput dev A ↔ Supplied (lines (effective A)) := by
  constructor
  · intro h
    by_contra hunsupplied
    have hsame := h.same ⟨fun _ => 0, 0⟩ ⟨fun _ => 0, 1⟩
    rw [accessesOf_eq _ _ hshort, accessesOf_eq _ _ hshort] at hsame
    exact obeyAll_unsupplied hunsupplied (by decide) [] hsame
  · intro hsupplied
    constructor
    · intro init init'
      rw [accessesOf_eq _ _ hshort, accessesOf_eq _ _ hshort]
      exact obeyAll_supplied hsupplied _ _ []
    · intro init bs ln c rest hsplit hboundary hln hc hd hbare
      -- the lines up to this one, and this one
      have hlines : ∀ rest', lines (bs ++ (ln ++ c :: rest')) =
          lines bs ++ ln :: linesFrom [] rest' := by
        intro rest'
        rw [lines, linesFrom_append, hboundary, linesFrom_line hln hc]
        rfl
      rw [hsplit, hlines] at hshort hsupplied
      rcases Option.isSome_iff_exists.mp (stopped_of_supplied hsupplied hd hbare) with ⟨p, hp⟩
      refine ⟨p, hp, ?_⟩
      have hbefore : Short (lines bs) := (short_append.mp hshort).1
      have hupto : Short (lines (bs ++ (ln ++ [c]))) := by
        rw [hlines]
        intro l hl
        apply hshort l
        rcases List.mem_append.mp hl with hl | hl
        · exact List.mem_append_left _ hl
        · rw [List.mem_singleton.mp hl]
          exact List.mem_append_right _ List.mem_cons_self
      have hstart := Holds.start init.linebuf init.lptr
      rcases feed_lines dev hstart hbefore [] with ⟨l₁, hfeed₁, -, -⟩
      rcases feed_lines dev hstart hupto [] with ⟨l₂, hfeed₂, -, -⟩
      have hptr : (obeyAll dev (init.lptr, []) (lines bs)).1 = p :=
        obeyAll_stopped (p := none) (lines bs) (fun a ha => by cases ha) p hp
      have hfeed₁' : feed dev init.start bs [] = _ := hfeed₁
      have hfeed₂' : feed dev init.start (bs ++ (ln ++ [c])) [] = _ := hfeed₂
      rw [hfeed₁', hfeed₂']
      change (obeyAll dev (init.lptr, []) (lines (bs ++ (ln ++ [c])))).2.map Event.op =
        (obeyAll dev (init.lptr, []) (lines bs)).2.map Event.op ++ _
      rw [hlines, obeyAll, List.foldl_append]
      change (obey dev (obeyAll dev (init.lptr, []) (lines bs)) ln).2.map Event.op = _
      rw [obey, if_pos hd, hbare, Option.getD_none, hptr]
      exact ask_ops _ _

/-- The lines `d 10` and `d`, cut within the first. -/
def dumpTwice : List Netbuf := [.single [0x64, 0x20, 0x31], .single [0x30, 0x0a, 0x64, 0x0a]]

theorem determinedByInput_dumpTwice : DeterminedByInput idleDevice dumpTwice := by
  have hshort : Short (lines (effective dumpTwice)) := by
    unfold Short
    decide
  exact (determinedByInput_iff idleDevice dumpTwice hshort).mpr (by decide)

/-- A session that begins with a `d` and nothing behind it reads wherever the stack points. -/
theorem not_determinedByInput_bare :
    Short (lines (stream [.single [0x64, 0x0a]])) ∧
      ¬ DeterminedByInput idleDevice [.single [0x64, 0x0a]] := by
  constructor
  · unfold Short
    decide
  · intro h
    have hzero : (accessesOf idleDevice ⟨fun _ => 0, 0⟩ [.single [0x64, 0x0a]]).head?.map Event.op =
      some (.readShort 0) := rfl
    rw [h.same _ ⟨fun _ => 0, 1⟩] at hzero
    have hone : (accessesOf idleDevice ⟨fun _ => 0, 1⟩ [.single [0x64, 0x0a]]).head?.map Event.op =
      some (.readShort 1) := rfl
    rw [hone] at hzero
    exact absurd hzero (by decide)

end Telnet
