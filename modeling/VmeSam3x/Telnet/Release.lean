import VmeSam3x.Telnet.Session

/-! # Releasing a connection

A session is left for two error codes only: `ERR_CLSD` and `ERR_MEM`. Every other one is tried
again, also the fatal ones, which lwIP returns for as long as the connection exists. So a
connection that failed with one of those is never closed, unless a delivery or an error before
the failure has ended the session.
-/

namespace Telnet

open Interact Bytes

/-! ## The buffers that are dispatched -/

/-- The buffer and the position in it. -/
abbrev Buffer := Linebuf × Nat

def Line.buffer (l : Line) : Buffer := (l.linebuf, l.linebufpos)

/-- The guarded store. -/
def store (b : Buffer) (ch : U8) : Buffer :=
  if h : b.2 < linebufLength then (Function.update b.1 ⟨b.2, h⟩ ch, b.2 + 1) else b

def afterByte (b : Buffer) (c : U8) : Buffer :=
  if terminate c = 0 then ((store b 0).1, 0) else store b (terminate c)

def afterBytes (b : Buffer) (bs : List U8) : Buffer := bs.foldl afterByte b

/-- The buffers that are dispatched while the bytes are processed. -/
def dispatched (b : Buffer) : List U8 → List Linebuf
  | [] => []
  | c :: rest =>
    if terminate c = 0 then (store b 0).1 :: dispatched (afterByte b c) rest
    else dispatched (afterByte b c) rest

theorem dispatched_append (b : Buffer) (bs bs' : List U8) :
    dispatched b (bs ++ bs') = dispatched b bs ++ dispatched (afterBytes b bs) bs' := by
  induction bs generalizing b with
  | nil => rfl
  | cons c rest ih =>
    rw [List.cons_append, dispatched, dispatched, ih]
    split
    · rfl
    · rfl

theorem forall_dispatched_cons {P : Linebuf → Prop} {b : Buffer} {c : U8} {rest : List U8} :
    (∀ linebuf ∈ dispatched b (c :: rest), P linebuf) ↔
      (terminate c = 0 → P (store b 0).1) ∧ ∀ linebuf ∈ dispatched (afterByte b c) rest, P linebuf := by
  rw [dispatched]
  by_cases hc : terminate c = 0
  · rw [if_pos hc, List.forall_mem_cons]
    exact ⟨fun h => ⟨fun _ => h.1, h.2⟩, fun h => ⟨h.1 hc, h.2⟩⟩
  · rw [if_neg hc]
    exact ⟨fun h => ⟨fun h0 => absurd h0 hc, h⟩, fun h => h.2⟩

theorem put_eq (l : Line) (ch : U8) :
    l.put ch = .ok ⟨(store l.buffer ch).1, (store l.buffer ch).2, l.lptr⟩ := by
  by_cases h : l.linebufpos < linebufLength
  · have hstore : store l.buffer ch = _ := dif_pos h
    rw [Line.put, if_pos h, storeChar, dif_pos h, hstore]
    rfl
  · have hstore : store l.buffer ch = _ := dif_neg h
    rw [Line.put, if_neg h, hstore]
    rfl

variable {dev : Env Dev} {l : Line} {acc : List (Event Dev)}

theorem run_dispatch (dev : Env Dev) (l : Line) (acc : List (Event Dev)) :
    Overruns l.linebuf ∧ Prog.run (devices dev) (dispatch l) acc = (.error .outOfBounds, acc) ∨
      ¬ Overruns l.linebuf ∧ ∃ l' acc', Prog.run (devices dev) (dispatch l) acc = (.ok l', acc') ∧
        l'.buffer = (l.linebuf, 0) := by
  by_cases hover : Overruns l.linebuf
  · left
    refine ⟨hover, ?_⟩
    rcases runCommand_cases l.linebuf l.lptr with ⟨-, hfail⟩ | ⟨hno, -⟩
    · -- the fault comes before the first access
      change Prog.run _ (runCommand l.linebuf l.lptr >>= _) acc = _
      rw [hfail]
      rfl
    · exact absurd hover hno
  · right
    rcases (dispatch_keeps hover).run (devices dev) acc with ⟨l', acc', hrun, hbuf, hpos⟩
    exact ⟨hover, l', acc', hrun, Prod.ext hbuf hpos⟩

/-- One byte faults when it dispatches a buffer that overruns. -/
theorem run_feedByte (dev : Env Dev) (l : Line) (c : U8) (acc : List (Event Dev)) :
    (terminate c = 0 ∧ Overruns (store l.buffer 0).1) ∧
        Prog.run (devices dev) (feedByte l c) acc = (.error .outOfBounds, acc) ∨
      (terminate c = 0 → ¬ Overruns (store l.buffer 0).1) ∧
        ∃ l' acc', Prog.run (devices dev) (feedByte l c) acc = (.ok l', acc') ∧
          l'.buffer = afterByte l.buffer c := by
  rcases feedByte_eq l c with ⟨l₁, hput, heq⟩
  rw [put_eq] at hput
  cases hput
  rw [heq, afterByte]
  by_cases hc : terminate c = 0
  · rw [if_pos hc, if_pos hc, hc]
    rcases run_dispatch dev ⟨(store l.buffer 0).1, (store l.buffer 0).2, l.lptr⟩ acc with
      ⟨hover, hrun⟩ | ⟨hover, l', acc', hrun, hbuf⟩
    · exact .inl ⟨⟨rfl, hover⟩, hrun⟩
    · exact .inr ⟨fun _ => hover, l', acc', hrun, hbuf⟩
  · right
    rw [if_neg hc, if_neg hc]
    exact ⟨fun h0 => absurd h0 hc, _, acc, rfl, rfl⟩

/-- No buffer that the bytes dispatch overruns. -/
def StaysInside (b : Buffer) (bs : List U8) : Prop := ∀ linebuf ∈ dispatched b bs, ¬ Overruns linebuf

theorem staysInside_append {b : Buffer} {bs bs' : List U8} :
    StaysInside b (bs ++ bs') ↔ StaysInside b bs ∧ StaysInside (afterBytes b bs) bs' := by
  unfold StaysInside
  rw [dispatched_append, List.forall_mem_append]

theorem run_feed (dev : Env Dev) (l : Line) (bs : List U8) (acc : List (Event Dev)) :
    (¬ StaysInside l.buffer bs ∧ ∃ acc', feed dev l bs acc = (.error .outOfBounds, acc')) ∨
      StaysInside l.buffer bs ∧
        ∃ l' acc', feed dev l bs acc = (.ok l', acc') ∧ l'.buffer = afterBytes l.buffer bs := by
  induction bs generalizing l acc with
  | nil => exact .inr ⟨nofun, l, acc, rfl, rfl⟩
  | cons c rest ih =>
    rw [StaysInside, forall_dispatched_cons]
    change ¬ _ ∧ (∃ acc', Prog.run _ (feedByte l c >>= _) acc = _) ∨
      _ ∧ ∃ l' acc', Prog.run _ (feedByte l c >>= _) acc = _ ∧ _
    rw [Prog.run_bind]
    rcases run_feedByte dev l c acc with ⟨⟨hc, hover⟩, hrun⟩ | ⟨hover, l', acc', hrun, hbuf⟩
    · rw [hrun]
      exact .inl ⟨fun h => h.1 hc hover, acc, rfl⟩
    · rw [hrun, ← hbuf]
      rcases ih l' acc' with ⟨hrest, hfail⟩ | ⟨hrest, hok⟩
      · exact .inl ⟨fun h => hrest h.2, hfail⟩
      · refine .inr ⟨⟨hover, hrest⟩, ?_⟩
        rw [afterBytes, List.foldl_cons, ← hbuf]
        exact hok

/-! ## Results of `netconn_recv` -/

/-- The results that end the session. -/
def Leaves : Except Err Netbuf → Prop
  | .error e => e = .clsd ∨ e = .mem
  | .ok nb => nb.head = 0x78

instance (r : Except Err Netbuf) : Decidable (Leaves r) :=
  match r with
  | .error e => inferInstanceAs (Decidable (e = .clsd ∨ e = .mem))
  | .ok nb => inferInstanceAs (Decidable (nb.head = 0x78))

def payloadOf : Except Err Netbuf → List U8
  | .error _ => []
  | .ok nb => nb.payload

/-- The bytes a session takes from its results. -/
def takes : List (Except Err Netbuf) → List U8
  | [] => []
  | r :: rs => if Leaves r then payloadOf r else payloadOf r ++ takes rs

/-- When the results `rs` and from then on the error `e` end a session. -/
def Departs (e : Err) (rs : List (Except Err Netbuf)) (b : Buffer) : Prop :=
  (e = .clsd ∨ ∃ r ∈ rs, Leaves r) ∧ StaysInside b (takes rs)

variable {e : Err} {r : Except Err Netbuf} {rs : List (Except Err Netbuf)} {b : Buffer}

theorem departs_nil : Departs e [] b ↔ e = .clsd := by
  constructor
  · intro h
    rcases h.1 with h | ⟨r, hr, -⟩
    · exact h
    · cases hr
  · intro h
    exact ⟨.inl h, nofun⟩

theorem departs_leaves (h : Leaves r) : Departs e (r :: rs) b ↔ StaysInside b (payloadOf r) := by
  rw [Departs, takes, if_pos h]
  constructor
  · intro hd
    exact hd.2
  · intro hd
    exact ⟨.inr ⟨r, List.mem_cons_self, h⟩, hd⟩

theorem departs_stays (h : ¬ Leaves r) :
    Departs e (r :: rs) b ↔
      StaysInside b (payloadOf r) ∧ Departs e rs (afterBytes b (payloadOf r)) := by
  have hexists : (∃ r' ∈ r :: rs, Leaves r') ↔ ∃ r' ∈ rs, Leaves r' := by
    constructor
    · intro hl
      rcases hl with ⟨r', hr', hl⟩
      rcases List.mem_cons.mp hr' with rfl | hr'
      · exact absurd hl h
      · exact ⟨r', hr', hl⟩
    · intro hl
      rcases hl with ⟨r', hr', hl⟩
      exact ⟨r', List.mem_cons_of_mem _ hr', hl⟩
  rw [Departs, Departs, takes, if_neg h, staysInside_append, hexists]
  exact and_left_comm

/-! ## The loops -/

variable {recvs : Nat → Nat → Except Err Netbuf} {w : World} {tries retries rounds : Nat}

/-- The results from now on are `rs`, and then the error `e` for ever. -/
def Coming (recvs : Nat → Nat → Except Err Netbuf) (w : World) (rs : List (Except Err Netbuf))
    (e : Err) : Prop :=
  ∀ n, recvs w.clients (w.received + n) = rs.getD n (.error e)

theorem Coming.head (h : Coming recvs w (r :: rs) e) : recvs w.clients w.received = r := h 0

theorem Coming.tail (h : Coming recvs w (r :: rs) e) (acc : List (Event Dev)) :
    Coming recvs { w.next with accesses := acc } rs e := by
  intro n
  change recvs w.clients (w.received + 1 + n) = _
  rw [Nat.add_assoc, Nat.add_comm 1]
  exact h (n + 1)

theorem Coming.dead (h : Coming recvs w [] e) : recvs w.clients w.received = .error e := h 0

theorem Coming.dead_next (h : Coming recvs w [] e) : Coming recvs w.next [] e := by
  intro n
  change recvs w.clients (w.received + 1 + n) = _
  rw [Nat.add_assoc]
  exact h (1 + n)

/-- A session on a dead connection whose error is not `ERR_CLSD` goes on trying. -/
theorem run_awaiting_dead (hfatal : e.Fatal) (hne : e ≠ .clsd) (h : Coming recvs w [] e) :
    ∃ w', Prog.run (world recvs dev) (awaiting tries retries rounds l) w =
      (.error .stillWaiting, w') := by
  induction tries generalizing w with
  | zero => exact ⟨w, run_awaiting_zero⟩
  | succ tries ih =>
    have hstay : ¬ (e = .clsd ∨ e = .mem) := by
      intro he
      rcases he with he | rfl
      · exact hne he
      · exact absurd hfatal (by decide)
    rw [run_awaiting_error h.dead, if_neg hstay]
    exact ih h.dead_next

/-- A loop that has been left was given a reason. -/
theorem departs_of_run (hfatal : e.Fatal) (h : Coming recvs w rs e) {exit : Bool} {w' : World}
    (hrun : Prog.run (world recvs dev) (awaiting tries retries rounds l) w = (.ok exit, w')) :
    Departs e rs l.buffer := by
  -- induction on the results before the failure; each one is a step of the receive loop or
  -- of the session loop, so both counters of rounds are arbitrary
  induction rs generalizing tries rounds l w with
  | nil =>
    rw [departs_nil]
    by_contra hne
    rcases run_awaiting_dead hfatal hne h with ⟨w'', hdead⟩
    rw [hdead] at hrun
    cases hrun
  | cons r rs ih =>
    cases tries with
    | zero =>
      rw [run_awaiting_zero] at hrun
      cases hrun
    | succ tries =>
      cases r with
      | error e' =>
        rw [run_awaiting_error h.head] at hrun
        split at hrun
        · rename_i hleave
          exact (departs_leaves (r := .error e') hleave).mpr nofun
        · rename_i hstay
          exact (departs_stays (r := .error e') hstay).mpr ⟨nofun, ih (h.tail w.accesses) hrun⟩
      | ok nb =>
        rcases run_feed dev l nb.payload w.accesses with ⟨-, acc, hfeed⟩ | ⟨hin, l', acc, hfeed, hbuf⟩
        · rw [run_awaiting_fault h.head hfeed] at hrun
          cases hrun
        · rw [run_awaiting_ok h.head hfeed] at hrun
          split at hrun
          · rename_i hx
            exact (departs_leaves (r := .ok nb) hx).mpr hin
          · -- the session goes on with the buffer this delivery has left
            rename_i hx
            refine (departs_stays (r := .ok nb) hx).mpr ⟨hin, ?_⟩
            cases rounds with
            | zero =>
              rw [run_sessionLoop_zero] at hrun
              cases hrun
            | succ rounds =>
              rw [run_sessionLoop_succ] at hrun
              have hrest := ih (h.tail acc) hrun
              rw [hbuf] at hrest
              exact hrest

/-- With a reason, a loop is left once it had rounds enough. -/
theorem run_of_departs (dev : Env Dev) (h : Coming recvs w rs e) (hd : Departs e rs l.buffer)
    (htries : rs.length < tries) (hretries : rs.length < retries) (hrounds : rs.length ≤ rounds) :
    ∃ exit w', Prog.run (world recvs dev) (awaiting tries retries rounds l) w = (.ok exit, w') ∧
      w'.life = w.life := by
  induction rs generalizing tries rounds l w with
  | nil =>
    -- the connection is dead, and its error is one the loop knows
    rcases departs_nil.mp hd with rfl
    rcases Nat.exists_eq_add_of_lt htries with ⟨k, rfl⟩
    rw [run_awaiting_error h.dead, if_pos (.inl rfl)]
    exact ⟨false, w.next, rfl, rfl⟩
  | cons r rs ih =>
    rw [List.length_cons] at htries hretries hrounds
    rcases Nat.exists_eq_add_one_of_ne_zero (Nat.ne_zero_of_lt htries) with ⟨tries', rfl⟩
    rcases Nat.exists_eq_add_one_of_ne_zero (Nat.ne_zero_of_lt hrounds) with ⟨rounds', rfl⟩
    cases r with
    | error e' =>
      rw [run_awaiting_error h.head]
      split
      · exact ⟨false, w.next, rfl, rfl⟩
      · -- a transient error costs one try and no round
        rename_i hstay
        have hd' := (departs_stays (r := .error e') hstay).mp hd
        exact ih (h.tail w.accesses) hd'.2 (by omega) (by omega) (by omega)
    | ok nb =>
      have hin : StaysInside l.buffer nb.payload := by
        by_cases hx : Leaves (.ok nb)
        · exact (departs_leaves hx).mp hd
        · exact ((departs_stays hx).mp hd).1
      rcases run_feed dev l nb.payload w.accesses with ⟨hout, -⟩ | ⟨-, l', acc, hfeed, hbuf⟩
      · exact absurd hin hout
      · rw [run_awaiting_ok h.head hfeed]
        split
        · exact ⟨true, _, rfl, rfl⟩
        · rename_i hx
          have hd' := ((departs_stays (r := .ok nb) hx).mp hd).2
          rw [run_sessionLoop_succ]
          refine ih (h.tail acc) ?_ (by omega) (by omega) (by omega)
          rw [hbuf]
          exact hd'

/-! ## The server -/

/-- The connection of the next client is closed and deleted after finitely many steps, and the
server goes on to the clients after it. -/
def Released (recvs : Nat → Nat → Except Err Netbuf) (dev : Env Dev) (init : Locals) (w : World) :
    Prop :=
  ∃ retries rounds w', w'.life = w.life ++ [.accepted, .closed, .deleted] ∧
    ∀ clients,
      Prog.run (world recvs dev) (vBasicTelnetServer retries rounds (init :: clients)) w =
        Prog.run (world recvs dev) (vBasicTelnetServer retries rounds clients) w'

/-- The state after `netconn_accept`. -/
def World.accepted (w : World) : World :=
  { w with clients := w.clients + 1, received := 0, life := w.life ++ [.accepted] }

theorem run_server_cons {init : Locals} {clients : List Locals} :
    Prog.run (world recvs dev) (vBasicTelnetServer (retries + 1) (rounds + 1) (init :: clients)) w =
      match Prog.run (world recvs dev)
        (awaiting (retries + 1) (retries + 1) rounds init.start) w.accepted with
      | (.ok _, w') => Prog.run (world recvs dev)
          (vBasicTelnetServer (retries + 1) (rounds + 1) clients)
          { w' with life := w'.life ++ [.closed] ++ [.deleted] }
      | (.error f, w') => (.error f, w') := by
  change Prog.run _ (prvtelnetConnection _ _ init >>= _) w.accepted = _
  rw [prvtelnetConnection, bind_assoc, Prog.run_bind, run_sessionLoop_succ]
  rcases Prog.run (world recvs dev) (awaiting _ _ _ _) w.accepted with ⟨_ | _, _⟩ <;> rfl

/-- A connection is released exactly when its session has a reason to end. -/
theorem released_iff_departs {init : Locals} (hfatal : e.Fatal)
    (h : Coming recvs w.accepted rs e) :
    Released recvs dev init w ↔ Departs e rs init.start.buffer := by
  constructor
  · intro hrel
    rcases hrel with ⟨retries, rounds, w', -, hrun⟩
    have hrun' := hrun []
    -- the server has returned, so it had a try and a round at least
    cases retries with
    | zero => cases hrun'
    | succ retries =>
      cases rounds with
      | zero => cases hrun'
      | succ rounds =>
        rw [run_server_cons] at hrun'
        split at hrun'
        · rename_i hok
          exact departs_of_run hfatal h hok
        · cases hrun'
  · intro hd
    rcases run_of_departs dev h hd (Nat.lt_succ_self _) (Nat.lt_succ_self _) (Nat.le_refl _) with
      ⟨exit, w', hrun, hlife⟩
    refine ⟨rs.length + 1, rs.length + 1, { w' with life := w'.life ++ [.closed] ++ [.deleted] },
      ?_, ?_⟩
    · change w'.life ++ [.closed] ++ [.deleted] = _
      rw [hlife]
      simp [World.accepted]
    · intro clients
      rw [run_server_cons, hrun]

/-- **A dead connection is released** exactly when its error is `ERR_CLSD`, or a result before
the failure has ended the session; and no command of the session runs out of the line buffer. -/
theorem released_iff (recvs : Nat → Nat → Except Err Netbuf) (dev : Env Dev) (init : Locals)
    (w : World) (e : Err) (rs : List (Except Err Netbuf)) (hfatal : e.Fatal)
    (hrecvs : ∀ n, recvs (w.clients + 1) n = rs.getD n (.error e)) :
    Released recvs dev init w ↔
      (e = .clsd ∨ ∃ r ∈ rs, Leaves r) ∧
        ∀ linebuf ∈ dispatched (init.linebuf, 0) (takes rs), ¬ Overruns linebuf := by
  refine released_iff_departs hfatal ?_
  intro n
  change recvs (w.clients + 1) (0 + n) = _
  rw [Nat.zero_add]
  exact hrecvs n

/-- The surroundings of a client that sends an empty line and whose connection then fails. -/
def emptyLineThen (e : Err) (_ n : Nat) : Except Err Netbuf :=
  [.ok (.single [0x0a])].getD n (.error e)

/-- When the client closes, the connection is released. -/
theorem released_closed : Released (emptyLineThen .clsd) idleDevice zeroLocals ⟨0, 0, [], []⟩ := by
  refine (released_iff (emptyLineThen .clsd) idleDevice zeroLocals ⟨0, 0, [], []⟩ .clsd
    [.ok (.single [0x0a])] (by decide) (fun _ => rfl)).mpr ⟨.inl rfl, ?_⟩
  intro linebuf hmem
  rcases List.mem_singleton.mp hmem with rfl
  exact not_overruns ⟨0, rfl⟩

/-- When it resets the connection while the console is busy, the connection is not released. -/
theorem not_released_reset :
    Err.rst.Fatal ∧ (∀ n, 1 ≤ n → emptyLineThen .rst 1 n = .error .rst) ∧
      ¬ Released (emptyLineThen .rst) idleDevice zeroLocals ⟨0, 0, [], []⟩ := by
  refine ⟨by decide, ?_, ?_⟩
  · intro n hn
    cases n with
    | zero => cases hn
    | succ n => rfl
  · have hcoming : Coming (emptyLineThen .rst) (World.accepted ⟨0, 0, [], []⟩)
        [.ok (.single [0x0a])] .rst := by
      intro n
      exact congrArg (emptyLineThen .rst 1) (Nat.zero_add n)
    rw [released_iff_departs (by decide) hcoming, departs_stays (by decide), departs_nil]
    intro hd
    cases hd.2

end Telnet
