import VmeSam3x.Telnet.LineBuffer

/-! # Sessions of the console

One byte stream can arrive in many ways: TCP cuts it into deliveries, and a delivery is a chain
of pbufs. The lines are assembled across deliveries, so their commands depend on the bytes only.
But the test for the `x` command looks at the first byte of a delivery, and `netbuf_data` gives
the session the first pbuf of a chain.
-/

namespace Telnet

open Interact Bytes

/-! ## The surroundings -/

/-- What becomes of the connections. -/
inductive Life where
  | accepted
  | closed
  | deleted
deriving DecidableEq, Repr

structure World where
  /-- The connections accepted so far. -/
  clients : Nat
  /-- The receives on the present connection. -/
  received : Nat
  /-- The history of the device. -/
  accesses : List (Event Dev)
  life : List Life

/-- `recvs c n` is what receive `n` on connection `c` returns. The device answers from its own
history. -/
def world (recvs : Nat → Nat → Except Err Netbuf) (dev : Env Dev) : Handler Console World
  | .recv, w => (recvs w.clients w.received, { w with received := w.received + 1 })
  | .write _, w => ((), w)
  | .delay _, w => ((), w)
  | .netbufDelete, w => ((), w)
  | .close, w => ((), { w with life := w.life ++ [.closed] })
  | .delete, w => ((), { w with life := w.life ++ [.deleted] })
  | .accept, w =>
    (true, { w with clients := w.clients + 1, received := 0, life := w.life ++ [.accepted] })
  | .dev o, w =>
    (dev w.accesses o, { w with accesses := w.accesses ++ [⟨o, dev w.accesses o⟩] })
  | .dispatch _, w => ((), w)

/-- The device alone. -/
def devices (dev : Env Dev) : Handler Console (List (Event Dev))
  | .recv, acc => (.error .clsd, acc)
  | .write _, acc => ((), acc)
  | .delay _, acc => ((), acc)
  | .netbufDelete, acc => ((), acc)
  | .close, acc => ((), acc)
  | .delete, acc => ((), acc)
  | .accept, acc => (false, acc)
  | .dev o, acc => (dev acc o, acc ++ [⟨o, dev acc o⟩])
  | .dispatch _, acc => ((), acc)

variable {recvs : Nat → Nat → Except Err Netbuf} {dev : Env Dev} {w : World}

/-- A delivery is processed by the device alone. -/
theorem run_inDelivery {α : Type} {p : ConsoleProg α} (hp : p.Uses InDelivery) (w : World) :
    Prog.run (world recvs dev) p w =
      ((Prog.run (devices dev) p w.accesses).1,
        { w with accesses := (Prog.run (devices dev) p w.accesses).2 }) := by
  induction p generalizing w with
  | ret a => rfl
  | fail e => rfl
  | call o k ih =>
    rcases hp with ⟨ho, hk⟩
    rw [Prog.run_call, Prog.run_call, ih _ (hk _)]
    -- the operations of a delivery are those the two machines answer alike
    cases o <;> first | rfl | exact ho.elim

/-- Processing a delivery: the line it leaves, or a fault, and the device's history. -/
def feed (dev : Env Dev) (l : Line) (bs : List U8) (acc : List (Event Dev)) :
    Except Fault Line × List (Event Dev) :=
  Prog.run (devices dev) (feedBytes l bs) acc

theorem run_feedBytes {l : Line} {bs : List U8} {x : Except Fault Line} {acc : List (Event Dev)}
    (hfeed : feed dev l bs w.accesses = (x, acc)) :
    Prog.run (world recvs dev) (feedBytes l bs) w = (x, { w with accesses := acc }) := by
  have hrun : Prog.run (devices dev) (feedBytes l bs) w.accesses = (x, acc) := hfeed
  rw [run_inDelivery (feedBytes_inDelivery _ _), hrun]

theorem feedBytes_append (l : Line) (bs bs' : List U8) :
    feedBytes l (bs ++ bs') = feedBytes l bs >>= fun l' => feedBytes l' bs' := by
  induction bs generalizing l with
  | nil => rfl
  | cons c rest ih =>
    change feedByte l c >>= (fun l' => feedBytes l' (rest ++ bs')) =
      feedByte l c >>= (fun l' => feedBytes l' rest) >>= _
    rw [bind_assoc]
    congr 1
    funext l'
    exact ih l'

/-- Where a stream is cut makes no difference to its bytes. -/
theorem feed_append (dev : Env Dev) (l : Line) (bs bs' : List U8) (acc : List (Event Dev)) :
    feed dev l (bs ++ bs') acc =
      match feed dev l bs acc with
      | (.ok l', acc') => feed dev l' bs' acc'
      | (.error e, acc') => (.error e, acc') := by
  unfold feed
  rw [feedBytes_append, Prog.run_bind]
  rcases Prog.run (devices dev) (feedBytes l bs) acc with ⟨_ | _, _⟩ <;> rfl

/-! ## The loop, result by result -/

def World.next (w : World) : World := { w with received := w.received + 1 }

/-- The loop from within the receive loop. -/
def awaiting (tries retries rounds : Nat) (l : Line) : ConsoleProg Bool := do
  match ← receive tries with
  | none => return false
  | some nb =>
    let l ← feedBytes l nb.payload
    perform .netbufDelete
    if nb.head = 0x78 then
      return true
    else
      sessionLoop retries rounds l

variable {tries retries rounds : Nat} {l : Line}

theorem run_sessionLoop_zero :
    Prog.run (world recvs dev) (sessionLoop retries 0 l) w = (.error .stillWaiting, w) := rfl

theorem run_sessionLoop_succ :
    Prog.run (world recvs dev) (sessionLoop retries (rounds + 1) l) w =
      Prog.run (world recvs dev) (awaiting retries retries rounds l) w := rfl

theorem run_awaiting_zero :
    Prog.run (world recvs dev) (awaiting 0 retries rounds l) w = (.error .stillWaiting, w) := rfl

theorem run_receive_ok {nb : Netbuf} (h : recvs w.clients w.received = .ok nb) :
    Prog.run (world recvs dev) (receive (tries + 1)) w = (.ok (some nb), w.next) := by
  change Prog.run _ (match recvs w.clients w.received with | .ok nb => _ | .error e => _) w.next = _
  rw [h]
  rfl

theorem run_receive_error {e : Err} (h : recvs w.clients w.received = .error e) :
    Prog.run (world recvs dev) (receive (tries + 1)) w =
      if e = .clsd ∨ e = .mem then (.ok none, w.next)
      else Prog.run (world recvs dev) (receive tries) w.next := by
  change Prog.run _ (match recvs w.clients w.received with | .ok nb => _ | .error e => _) w.next = _
  rw [h]
  change Prog.run _ (if e = .clsd ∨ e = .mem then _ else _) w.next = _
  split
  · rfl
  · rfl

/-- The receive loop ends for two error codes. -/
theorem run_awaiting_error {e : Err} (h : recvs w.clients w.received = .error e) :
    Prog.run (world recvs dev) (awaiting (tries + 1) retries rounds l) w =
      if e = .clsd ∨ e = .mem then (.ok false, w.next)
      else Prog.run (world recvs dev) (awaiting tries retries rounds l) w.next := by
  unfold awaiting
  rw [Prog.run_bind, run_receive_error h]
  by_cases he : e = .clsd ∨ e = .mem
  · rw [if_pos he, if_pos he]
    rfl
  · rw [if_neg he, if_neg he, Prog.run_bind]

variable {l' : Line} {acc : List (Event Dev)}

/-- A netbuf is processed before its first byte is looked at. -/
theorem run_awaiting_ok {nb : Netbuf} (h : recvs w.clients w.received = .ok nb)
    (hfeed : feed dev l nb.payload w.accesses = (.ok l', acc)) :
    Prog.run (world recvs dev) (awaiting (tries + 1) retries rounds l) w =
      if nb.head = 0x78 then (.ok true, { w.next with accesses := acc })
      else Prog.run (world recvs dev) (sessionLoop retries rounds l')
        { w.next with accesses := acc } := by
  unfold awaiting
  rw [Prog.run_bind, run_receive_ok h]
  change Prog.run _ (feedBytes l nb.payload >>= _) w.next = _
  rw [Prog.run_bind, run_feedBytes (w := w.next) hfeed]
  change Prog.run _ (if nb.head = 0x78 then _ else _) _ = _
  split
  · rfl
  · rfl

theorem run_awaiting_fault {nb : Netbuf} {f : Fault} (h : recvs w.clients w.received = .ok nb)
    (hfeed : feed dev l nb.payload w.accesses = (.error f, acc)) :
    Prog.run (world recvs dev) (awaiting (tries + 1) retries rounds l) w =
      (.error f, { w.next with accesses := acc }) := by
  unfold awaiting
  rw [Prog.run_bind, run_receive_ok h]
  change Prog.run _ (feedBytes l nb.payload >>= _) w.next = _
  rw [Prog.run_bind, run_feedBytes (w := w.next) hfeed]

/-! ## Cuttings of a stream -/

/-- What receive `n` returns when the netbufs `A` arrive and the client then closes. -/
def deliver (A : List Netbuf) (n : Nat) : Except Err Netbuf :=
  match A[n]? with
  | some nb => .ok nb
  | none => .error .clsd

/-- The bytes the client sent. -/
def stream (A : List Netbuf) : List U8 := A.flatMap Netbuf.bytes

/-- The session of a client whose bytes arrive as the netbufs `A`. -/
def session (dev : Env Dev) (init : Locals) (A : List Netbuf) : Except Fault Unit × World :=
  Prog.run (world (fun _ => deliver A) dev) (prvtelnetConnection 1 (A.length + 1) init)
    ⟨0, 0, [], []⟩

/-- The register accesses and XVC calls of the session. -/
def accessesOf (dev : Env Dev) (init : Locals) (A : List Netbuf) : List (Event Dev) :=
  (session dev init A).2.accesses

/-- The number of bytes that had arrived when the `x` command ended the session. -/
def exitAfter (dev : Env Dev) (init : Locals) (A : List Netbuf) : Option Nat :=
  match session dev init A with
  | (.ok (), w) =>
    if w.received ≤ A.length then some (stream (A.take w.received)).length else none
  | (.error _, _) => none

/-- The two sessions do the same. -/
def SameSession (dev : Env Dev) (init : Locals) (A B : List Netbuf) : Prop :=
  accessesOf dev init A = accessesOf dev init B ∧ exitAfter dev init A = exitAfter dev init B

/-- The number of bytes up to the end of the first netbuf that starts with an `x`. -/
def exits : List Netbuf → Option Nat
  | [] => none
  | nb :: rest =>
    if nb.head = 0x78 then some nb.bytes.length
    else (exits rest).map fun n => nb.bytes.length + n

/-- Up to that netbuf there is no data behind a first pbuf. -/
def WholeUntilExit : List Netbuf → Prop
  | [] => True
  | nb :: rest => nb.next.flatten = [] ∧ (nb.head ≠ 0x78 → WholeUntilExit rest)

/-- The bytes a session processes. -/
def effective : List Netbuf → List U8
  | [] => []
  | nb :: rest => if nb.head = 0x78 then nb.payload else nb.payload ++ effective rest

/-- The receives of a session. -/
def receives : List Netbuf → Nat
  | [] => 1
  | nb :: rest => if nb.head = 0x78 then 1 else receives rest + 1

variable {A B : List Netbuf}

/-- The loop processes the effective bytes. -/
theorem run_sessionLoop (hrecv : ∀ i, recvs w.clients (w.received + i) = deliver A i)
    (hfeed : feed dev l (effective A) w.accesses = (.ok l', acc)) :
    Prog.run (world recvs dev) (sessionLoop 1 (A.length + 1) l) w =
      (.ok (exits A).isSome,
        { w with received := w.received + receives A, accesses := acc }) := by
  induction A generalizing l w with
  | nil =>
    have hend : recvs w.clients w.received = .error .clsd := hrecv 0
    rw [List.length_nil, run_sessionLoop_succ, run_awaiting_error hend, if_pos (.inl rfl)]
    cases hfeed
    rfl
  | cons nb rest ih =>
    have hfirst : recvs w.clients w.received = .ok nb := hrecv 0
    rw [List.length_cons, run_sessionLoop_succ]
    rw [effective] at hfeed
    rw [exits, receives]
    by_cases hx : nb.head = 0x78
    · -- the netbuf that ends the session is still processed
      rw [if_pos hx] at hfeed
      rw [run_awaiting_ok hfirst hfeed, if_pos hx, if_pos hx, if_pos hx]
      rfl
    · rw [if_neg hx, feed_append] at hfeed
      rw [if_neg hx, if_neg hx]
      rcases hnb : feed dev l nb.payload w.accesses with ⟨e | l'', acc'⟩
      · -- a fault here would be one of the whole run
        rw [hnb] at hfeed
        cases hfeed
      · rw [hnb] at hfeed
        have hnext : ∀ i, recvs w.clients (w.received + 1 + i) = deliver rest i := by
          intro i
          rw [Nat.add_assoc, Nat.add_comm 1 i]
          exact hrecv (i + 1)
        have hrest := ih (w := { w.next with accesses := acc' }) hnext hfeed
        rw [run_awaiting_ok hfirst hnb, if_neg hx, hrest, Option.isSome_map]
        change (_, World.mk w.clients (w.received + 1 + receives rest) acc w.life) = _
        rw [Nat.add_assoc, Nat.add_comm 1]

theorem session_eq {init : Locals} (hfeed : feed dev init.start (effective A) [] = (.ok l', acc)) :
    session dev init A = (.ok (), ⟨0, receives A, acc, [.closed, .deleted]⟩) := by
  have hloop : Prog.run (world (fun _ => deliver A) dev) (sessionLoop 1 (A.length + 1) init.start)
      ⟨0, 0, [], []⟩ = _ :=
    run_sessionLoop (fun i => congrArg (deliver A) (Nat.zero_add i)) hfeed
  unfold session prvtelnetConnection
  rw [Prog.run_bind, hloop, Nat.zero_add]
  rfl

/-- The receives tell where the session ended. -/
theorem exits_eq (A : List Netbuf) :
    exits A =
      if receives A ≤ A.length then some (stream (A.take (receives A))).length else none := by
  induction A with
  | nil => rfl
  | cons nb rest ih =>
    rw [exits, receives]
    split
    · rw [if_pos (by simp), List.take_succ_cons, List.take_zero]
      simp [stream]
    · rw [ih, List.length_cons, List.take_succ_cons]
      by_cases h : receives rest ≤ rest.length
      · rw [if_pos h, if_pos (Nat.succ_le_succ h)]
        simp [stream]
      · rw [if_neg h, if_neg (by omega)]
        rfl

theorem exitAfter_eq {init : Locals}
    (hfeed : feed dev init.start (effective A) [] = (.ok l', acc)) :
    exitAfter dev init A = exits A := by
  rw [exitAfter, session_eq hfeed, exits_eq]

/-- Without data behind first pbufs, the effective bytes are those up to the exit. -/
theorem effective_eq_take (h : WholeUntilExit A) :
    effective A = (stream A).take ((exits A).getD (stream A).length) := by
  induction A with
  | nil => rfl
  | cons nb rest ih =>
    rcases h with ⟨hnext, hrest⟩
    have hbytes : nb.bytes = nb.payload := by
      rw [Netbuf.bytes, hnext, List.append_nil]
    have hstream : stream (nb :: rest) = nb.payload ++ stream rest := by
      rw [stream, List.flatMap_cons, hbytes]
      rfl
    rw [effective, exits, hstream, hbytes]
    by_cases hx : nb.head = 0x78
    · rw [if_pos hx, if_pos hx, Option.getD_some, List.take_left]
    · rw [if_neg hx, if_neg hx, ih (hrest hx)]
      cases hexit : exits rest with
      | none => simp
      | some n => simp [List.take_length_add_append]

theorem short_of_append {bs bs' : List U8} (h : Short (lines (bs ++ bs'))) : Short (lines bs) := by
  rw [lines, linesFrom_append] at h
  exact (short_append.mp h).1

/-- Short lines are processed without a fault. -/
theorem feed_of_short (dev : Env Dev) (init : Locals) {bs : List U8} (h : Short (lines bs)) :
    ∃ l' acc, feed dev init.start bs [] = (.ok l', acc) := by
  rcases feedBytes_short bs (Holds.start _ _) h with ⟨-, hpost⟩
  rcases hpost.run (devices dev) [] with ⟨l', acc, hrun, -⟩
  exact ⟨l', acc, hrun⟩

/-- **Same bytes, same session.** For a stream of short lines that reaches the session whole,
two cuttings give the same session exactly when the `x` test stops both at the same byte. -/
theorem sameSession_iff_exits (dev : Env Dev) (init : Locals) (hstream : stream A = stream B)
    (hshort : Short (lines (stream A))) (hA : WholeUntilExit A) (hB : WholeUntilExit B) :
    SameSession dev init A B ↔ exits A = exits B := by
  -- what a session processes is a part of the stream, so its lines are short as well
  have hshort' : ∀ n, Short (lines ((stream A).take n)) := by
    intro n
    rw [← List.take_append_drop n (stream A)] at hshort
    exact short_of_append hshort
  have heffA := effective_eq_take hA
  have heffB := effective_eq_take hB
  rw [← hstream] at heffB
  rcases feed_of_short dev init (hshort' _) with ⟨lA, accA, hfeedA⟩
  rcases feed_of_short dev init (hshort' _) with ⟨lB, accB, hfeedB⟩
  rw [← heffA] at hfeedA
  rw [← heffB] at hfeedB
  constructor
  · intro hsame
    have hexit := hsame.2
    rwa [exitAfter_eq hfeedA, exitAfter_eq hfeedB] at hexit
  · intro hexits
    -- the bytes up to the same exit are the same bytes
    have heff : effective A = effective B := by rw [heffA, heffB, hexits]
    rw [heff] at hfeedA
    constructor
    · rw [accessesOf, accessesOf, session_eq (heff ▸ hfeedA), session_eq hfeedB]
      rw [hfeedA] at hfeedB
      cases hfeedB
      rfl
    · rw [exitAfter_eq (heff ▸ hfeedA), exitAfter_eq hfeedB, hexits]

/-- A netbuf of one pbuf. -/
def Netbuf.single (bs : List U8) : Netbuf := ⟨bs, [], 0⟩

/-- A device on which every call is successful, with the XVC server off. -/
def idleDevice : Env Dev := fun _ o =>
  match o with
  | .readShort _ => some 0
  | .writeShort _ _ => true
  | .xvcIsEnabled => false
  | .xvcDisable => true
  | .xvcEnable => true

def zeroLocals : Locals := ⟨fun _ => 0, 0⟩

/-- Cut in the middle of its line, `j` toggles the XVC server once as well. -/
theorem sameSession_toggle_cut :
    SameSession idleDevice zeroLocals [.single [0x6a, 0x0a]]
      [.single [0x6a], .single [0x0a]] := by
  have hshort : Short (lines (stream [.single [0x6a, 0x0a]])) := by
    unfold Short
    decide
  refine (sameSession_iff_exits (A := [.single [0x6a, 0x0a]])
    (B := [.single [0x6a], .single [0x0a]]) idleDevice zeroLocals rfl hshort ?_ ?_).mpr rfl
  · exact ⟨rfl, fun _ => trivial⟩
  · exact ⟨rfl, fun _ => ⟨rfl, fun _ => trivial⟩⟩

/-- The lines `j` and `x`, merged into one delivery, do not end the session; in a chain of two
pbufs they do nothing at all. -/
theorem not_sameSession_merged_chained :
    stream [.single [0x6a, 0x0a], .single [0x78, 0x0a]] =
        stream [.single [0x6a, 0x0a, 0x78, 0x0a]] ∧
      stream [.single [0x6a, 0x0a, 0x78, 0x0a]] = stream [⟨[0x6a], [[0x0a, 0x78, 0x0a]], 0⟩] ∧
      Short (lines (stream [.single [0x6a, 0x0a, 0x78, 0x0a]])) ∧
      ¬ SameSession idleDevice zeroLocals [.single [0x6a, 0x0a], .single [0x78, 0x0a]]
        [.single [0x6a, 0x0a, 0x78, 0x0a]] ∧
      ¬ SameSession idleDevice zeroLocals [.single [0x6a, 0x0a, 0x78, 0x0a]]
        [⟨[0x6a], [[0x0a, 0x78, 0x0a]], 0⟩] := by
  refine ⟨rfl, rfl, ?_, ?_, ?_⟩
  · unfold Short
    decide
  · intro hsame
    have htyped : exitAfter idleDevice zeroLocals
      [.single [0x6a, 0x0a], .single [0x78, 0x0a]] = some 4 := rfl
    have hmerged : exitAfter idleDevice zeroLocals
      [.single [0x6a, 0x0a, 0x78, 0x0a]] = none := rfl
    have hexit := hsame.2
    rw [htyped, hmerged] at hexit
    cases hexit
  · intro hsame
    have hmerged : (accessesOf idleDevice zeroLocals
      [.single [0x6a, 0x0a, 0x78, 0x0a]]).length = 2 := rfl
    have hchained : accessesOf idleDevice zeroLocals
      [⟨[0x6a], [[0x0a, 0x78, 0x0a]], 0⟩] = [] := rfl
    rw [hsame.1, hchained] at hmerged
    cases hmerged

end Telnet
