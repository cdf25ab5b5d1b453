import VmeSam3x.Xvc.Chain

/-! # What the connection buffer holds

The buffer and its counter are shared by the reader of names, the reader of numbers and
the reader of vectors. `Represents` says what they hold between two iterations of the
receive loop, for every sequence of deliveries; the arithmetic on the counter and the
assertions of the readers are safe because of it.
-/

namespace Xvc

open Interact Interact.Prog Bytes Framing

/-! ## The invariant -/

/-- The names of the commands. -/
def names : List (List U8) := [getinfoName, settckName, shiftName]

/-- What the buffer and the counter hold between two iterations. -/
def Conn.Represents (c : Conn) : Prop :=
  match c.currentCommand with
  | .notSet => c.bufferLen < 8 ∧
      ∃ name ∈ names, c.buffer.slice 0 c.bufferLen <+: name ∧ c.bufferLen < name.length
  | .settck => c.bufferLen < 4
  | .shift =>
    if c.shiftLength = lengthNotSet then c.bufferLen < 4
    else c.shiftLength.toNat ≤ 4096 ∧ c.bufferLen < 2 * ((c.shiftLength.toNat + 7) / 8) ∧
      2 * ((c.shiftLength.toNat + 7) / 8) ≤ 1024
  | .getinfo => False

/-- `Subtracts next c x total received`: the iteration on `x` computes `total - received`, as a
`size_t` passed on as a `u16_t`. -/
inductive Subtracts (next : List Pbuf) (c : Conn) (x : Pbuf) : Nat → Nat → Prop
  /-- The shortest name, in `xvc_server_read_command`. -/
  | shortest (hc : c.currentCommand = .notSet) (hlt : c.bufferLen < 6) :
      Subtracts next c x 6 c.bufferLen
  | getinfo {r : Reader} (hc : c.currentCommand = .notSet)
      (hr : readShortest next (c.reader x) = .ok r) (hfirst : r.buffer.byte 0 = 0x67) :
      Subtracts next c x getinfoName.length r.received
  | settck {r : Reader} (hc : c.currentCommand = .notSet)
      (hr : readShortest next (c.reader x) = .ok r) (hfirst : r.buffer.byte 0 = 0x73)
      (hsecond : r.buffer.byte 1 = 0x65) : Subtracts next c x settckName.length r.received
  | shift {r : Reader} (hc : c.currentCommand = .notSet)
      (hr : readShortest next (c.reader x) = .ok r) (hfirst : r.buffer.byte 0 = 0x73)
      (hsecond : r.buffer.byte 1 = 0x68) : Subtracts next c x shiftName.length r.received
  /-- The vectors, in `xvc_server_read_data_shift_vector`, with the length known before. -/
  | vectors (hc : c.currentCommand = .shift) (hset : c.shiftLength ≠ lengthNotSet)
      (hmax : ¬ 4096 < c.shiftLength.toNat) :
      Subtracts next c x (bitsToBytes c.shiftLength.toNat * 2) c.bufferLen
  /-- The same, with the length read in this iteration and the counter reset. -/
  | fresh {n : Nat} (hmax : ¬ 4096 < n) : Subtracts next c x (bitsToBytes n * 2) 0

/-- What makes an iteration safe. -/
structure StepSafe (next : List Pbuf) (c : Conn) (x : Pbuf) : Prop where
  /-- No subtraction wraps or is truncated. -/
  subtracts : ∀ total received, Subtracts next c x total received →
    received ≤ total ∧ lengthLeft total received = total - received
  /-- Nor does `xvc_server_bits_to_bytes`. -/
  bits : c.currentCommand = .shift → c.shiftLength ≠ lengthNotSet →
    bitsToBytes c.shiftLength.toNat = (c.shiftLength.toNat + 7) / 8
  /-- The switch never sees a command that is not set. -/
  switch : ∀ command r, readCommand next (c.reader x) = .ok (.ok, command, r) → command ≠ .notSet

/-- The states in which the loop of a call is about to handle a pbuf. -/
inductive Visits (c₀ : Conn) (p₀ : Pbuf) (next₀ : List Pbuf) : Conn → Pbuf → List Pbuf → Prop
  | start : Visits c₀ p₀ next₀ c₀ p₀ next₀
  | advance {c : Conn} {q : Pbuf} {next : List Pbuf} (h : Visits c₀ p₀ next₀ c [] (q :: next)) :
      Visits c₀ p₀ next₀ c q next
  | iterate {c c' : Conn} {x x' : Pbuf} {next : List Pbuf} {status status' : Status}
      {evs : List (Event XvcSig)} (h : Visits c₀ p₀ next₀ c x next) (hx : x ≠ [])
      (hpath : Path (iteration next status c x) evs (.ok (status', c', x'))) (hok : status' ≠ .error) :
      Visits c₀ p₀ next₀ c' x' next

/-! ## Part of a request represents itself -/

variable {b : Buffer} {s x : List U8} {k fuel : Nat} {status : Status} {next : List Pbuf}

theorem represents_settck {u : List U8} (h : settckHead u = .more) : (afterSettck b u).Represents := by
  unfold settckHead at h
  split at h
  · assumption
  · cases h

theorem represents_shift {u : List U8} (h : shiftHead u = .more) : (afterShift b u).Represents := by
  unfold shiftHead at h
  unfold afterShift
  split at h
  · rename_i hu
    rw [if_pos hu]
    simpa [Conn.Represents] using hu
  · rename_i hu
    rw [if_neg hu]
    split at h
    · cases h
    rename_i hmax
    have hn : (numberWord u).toNat = leNat (u.take 4) := toNat_numberWord (by omega)
    -- an accepted number is not the mark for a missing one
    have hset : numberWord u ≠ lengthNotSet := by
      intro heq
      rw [← hn, heq] at hmax
      simp [lengthNotSet] at hmax
    unfold vectorsHead at h
    simp only at h
    split at h
    · rename_i hv
      simp only [Conn.Represents, if_neg hset]
      rw [hn]
      rw [List.length_drop] at hv
      omega
    · cases h

theorem represents_name (hs : BeginsName s)
    (hname : ¬ getinfoName <+: s ∧ ¬ settckName <+: s ∧ ¬ shiftName <+: s) :
    (Conn.mk .notSet (b.overwrite 0 s) s.length lengthNotSet).Represents := by
  -- a prefix of a name that does not begin with it is shorter
  have hshort : ∀ {name : List U8}, s <+: name → ¬ name <+: s → s.length < name.length := by
    intro name hp hn
    rcases Nat.lt_or_ge s.length name.length with hlt | hge
    · exact hlt
    · rw [hp.eq_of_length_le hge] at hn
      exact absurd (List.prefix_refl name) hn
  have hrep : ∀ name ∈ names, s <+: name → s.length < name.length →
      (Conn.mk .notSet (b.overwrite 0 s) s.length lengthNotSet).Represents := by
    intro name hmem hp hlt
    have hlen : name.length ≤ 8 := by
      simp only [names, List.mem_cons, List.not_mem_nil, or_false] at hmem
      rcases hmem with rfl | rfl | rfl <;> decide
    refine ⟨show s.length < 8 by omega, name, hmem, ?_, hlt⟩
    have hslice := @Buffer.slice_overwrite b s 0 s.length (by omega) (by omega)
    simp only [List.drop_zero, List.take_length] at hslice
    simpa only [hslice] using hp
  rcases hs with h | h | h
  · exact hrep _ (by simp [names]) h (hshort h hname.1)
  · exact hrep _ (by simp [names]) h (hshort h hname.2.1)
  · exact hrep _ (by simp [names]) h (hshort h hname.2.2)

/-- The state after part of a request is well represented. -/
theorem represents_after (hs : requestHead s = .more) : (after b s).Represents := by
  rcases name_cases s with ⟨u, rfl⟩ | ⟨u, rfl⟩ | ⟨u, rfl⟩ | hname
  · simp at hs
  · rw [requestHead_settck] at hs
    rw [after_settck]
    exact represents_settck hs
  · rw [requestHead_shift] at hs
    rw [after_shift]
    exact represents_shift hs
  · rw [after_other b hname.2.1 hname.2.2]
    exact represents_name (beginsName_of_more hs hname) hname

/-! ## Safe steps -/

/-- A computation that returned had a first part that returned. -/
theorem ok_of_bind {ε α β : Type} {y : Except ε α} {f : α → Except ε β} {z : β}
    (h : y >>= f = .ok z) : ∃ a, y = .ok a ∧ f a = .ok z := by
  cases y with
  | error e => cases h
  | ok a => exact ⟨a, rfl, h⟩

theorem received_le_of_readShortest {c : Conn} {r : Reader}
    (hr : readShortest next (c.reader x) = .ok r) (hlen : c.bufferLen < 8) :
    r.received ≤ 6 ∨ c.bufferLen = 7 ∧ r = c.reader x := by
  have hrec : (c.reader x).received = c.bufferLen := rfl
  unfold readShortest at hr
  split at hr
  · rename_i hlt
    left
    -- neither the copy nor `pbuf_header` touches the counter
    rcases ok_of_bind hr with ⟨buffer, -, hr⟩
    rcases ok_of_bind hr with ⟨pbuf, -, hr⟩
    cases hr
    rw [pbufCopyPartial_eq, lengthLeft_eq (by omega) (by omega)]
    have htake := List.length_take_le (6 - (c.reader x).received) ((c.reader x).pbuf :: next).flatten
    show (c.reader x).received + (List.take _ _).length ≤ 6
    omega
  · cases hr
    by_cases h7 : c.bufferLen = 7
    · exact .inr ⟨h7, rfl⟩
    · left
      omega

/-- Seven bytes of a name are seven bytes of `getinfo:`. -/
theorem Conn.Represents.first {c : Conn} (h : c.Represents) (hc : c.currentCommand = .notSet)
    (h7 : c.bufferLen = 7) : c.buffer.byte 0 = 0x67 := by
  unfold Conn.Represents at h
  rw [hc] at h
  rcases h with ⟨-, name, hmem, hprefix, hlt⟩
  rw [h7] at hprefix hlt
  simp only [names, List.mem_cons, List.not_mem_nil, or_false] at hmem
  rcases hmem with rfl | rfl | rfl
  · rcases hprefix with ⟨t, ht⟩
    have hhead := congrArg (fun l => l.getD 0 0) ht
    simpa [Buffer.slice, List.range_succ_eq_map, getinfoName] using hhead
  · simp [settckName] at hlt
  · simp [shiftName] at hlt

theorem Conn.Represents.bufferLen_lt {c : Conn} (h : c.Represents)
    (hc : c.currentCommand = .notSet) : c.bufferLen < 8 := by
  unfold Conn.Represents at h
  rw [hc] at h
  exact h.1

theorem ne_notSet_of_matchName {name : List U8} {command command' : Command} {r r' : Reader}
    (hne : command ≠ .notSet) (h : matchName next name command r = .ok (.ok, command', r')) :
    command' ≠ .notSet := by
  rcases ok_of_bind h with ⟨r₁, -, h⟩
  rcases ok_of_bind h with ⟨differs, -, h⟩
  split at h
  · cases h
  · split at h
    · cases h
      exact hne
    · cases h

theorem ne_notSet_of_chooseName {first second : U8} {command : Command} {r r' : Reader}
    (h : chooseName next first second r = .ok (.ok, command, r')) : command ≠ .notSet := by
  unfold chooseName at h
  split at h
  · exact ne_notSet_of_matchName (by simp) h
  · split at h
    · cases h
    · split at h
      · exact ne_notSet_of_matchName (by simp) h
      · split at h
        · exact ne_notSet_of_matchName (by simp) h
        · cases h

theorem ne_notSet_of_readCommand {command : Command} {r r' : Reader}
    (h : readCommand next r = .ok (.ok, command, r')) : command ≠ .notSet := by
  unfold readCommand at h
  split at h
  · cases h
  · rcases ok_of_bind h with ⟨r₁, -, h⟩
    split at h
    · cases h
    · rcases ok_of_bind h with ⟨first, -, h⟩
      rcases ok_of_bind h with ⟨second, -, h⟩
      exact ne_notSet_of_chooseName h

/-- **Safe steps.** The invariant makes the arithmetic of an iteration exact. -/
theorem Conn.Represents.stepSafe {c : Conn} (h : c.Represents) : StepSafe next c x where
  subtracts := by
    have hexact : ∀ {total received}, received ≤ total → total < 2 ^ 16 →
        received ≤ total ∧ lengthLeft total received = total - received := by
      intro total received hle hlt
      exact ⟨hle, lengthLeft_eq hle hlt⟩
    intro total received hsub
    cases hsub with
    | shortest hc hlt => exact hexact (by omega) (by omega)
    | getinfo hc hr hfirst =>
      have hlen : getinfoName.length = 8 := rfl
      rcases received_le_of_readShortest hr (h.bufferLen_lt hc) with hle | ⟨h7, rfl⟩
      · exact hexact (by omega) (by omega)
      · exact hexact (by rw [hlen]; exact show c.bufferLen ≤ 8 by omega) (by omega)
    | settck hc hr hfirst hsecond =>
      have hlen : settckName.length = 7 := rfl
      rcases received_le_of_readShortest hr (h.bufferLen_lt hc) with hle | ⟨h7, rfl⟩
      · exact hexact (by omega) (by omega)
      · exact hexact (by rw [hlen]; exact show c.bufferLen ≤ 7 by omega) (by omega)
    | shift hc hr hfirst hsecond =>
      have hlen : shiftName.length = 6 := rfl
      rcases received_le_of_readShortest hr (h.bufferLen_lt hc) with hle | ⟨h7, rfl⟩
      · exact hexact (by omega) (by omega)
      · -- the first byte would be a `g`
        have hg : c.buffer.byte 0 = 0x67 := h.first hc h7
        rw [show (c.reader x).buffer = c.buffer from rfl, hg] at hfirst
        cases hfirst
    | vectors hc hset hmax =>
      unfold Conn.Represents at h
      simp only [hc, if_neg hset] at h
      rw [bitsToBytes_eq h.1]
      exact hexact (by omega) (by omega)
    | @fresh n hmax =>
      rw [bitsToBytes_eq (by omega)]
      exact hexact (by omega) (by omega)
  bits := by
    intro hc hset
    unfold Conn.Represents at h
    simp only [hc, if_neg hset] at h
    exact bitsToBytes_eq h.1
  switch := by
    intro command r hr
    exact ne_notSet_of_readCommand hr

/-! ## Every state of the loop -/

/-- An iteration consumes something and leaves part of a request, or ends the connection. -/
def Continues (x : Pbuf) (z : Pass) : Prop :=
  z.1 = .error ∨ z.2.2.length < x.length ∧ ∃ b t, requestHead t = .more ∧ z.2.1 = after b t

theorem pass_continues (hs : requestHead s = .more) (hx : x ≠ []) :
    Post (Continues x) (fun _ => False) (pass b k (s ++ x)) := by
  cases hhead : requestHead (s ++ x) with
  | more =>
    rw [pass_more hhead]
    exact .inr ⟨List.length_pos_of_ne_nil hx, b, s ++ x, hhead, rfl⟩
  | bad =>
    rcases @pass_bad b k _ hhead with ⟨c, p, hpass⟩
    rw [hpass]
    exact .inl rfl
  | item q rest =>
    have hrest := requests.length_lt_of_more hs hhead
    refine ((pass_item hhead).post (serve_post q)).mono ?_ (fun _ h => h)
    rintro z ⟨status, ⟨hz, hok | herr⟩, -⟩
    · rcases hok with ⟨-, hp, b', hc⟩
      refine .inr ⟨by rwa [hp], b', [], rfl, hc⟩
    · exact .inl (hz.trans herr)

theorem iteration_continues (hs : requestHead s = .more) (hx : x ≠ []) :
    Post (Continues x) (fun e => e = .lwipAssert) (iteration next status (after b s) x) := by
  rcases @iteration_chain b s next status x hs hx with ⟨hit, -, -⟩ | ⟨hit, -⟩
  · rw [hit]
    rfl
  · rw [hit]
    exact (pass_continues hs hx).mono (fun _ h => h) (fun _ h => h.elim)

/-- The loop ends, and the only fault it can run into is the assertion of `pbuf_header`. -/
theorem receiveLoop_faults (hs : requestHead s = .more)
    (hfuel : x.length + next.flatten.length + next.length < fuel) :
    Post (fun _ => True) (fun e => e = .lwipAssert) (receiveLoop fuel status (after b s) x next) := by
  induction fuel generalizing b s status x next with
  | zero => omega
  | succ fuel ih =>
    by_cases hx : x = []
    · subst hx
      cases next with
      | nil => trivial
      | cons p next =>
        -- the chain gets shorter here, and the bytes that are left do below
        refine ih hs ?_
        simp only [List.flatten_cons, List.length_append, List.length_cons] at hfuel
        omega
    · rw [receiveLoop_succ hx]
      refine (iteration_continues hs hx).bind ?_
      rintro ⟨status, c, p⟩ hz
      unfold proceed
      split
      · trivial
      · rename_i hok
        rcases hz with herr | ⟨hlt, b', t, ht, hc⟩
        · exact absurd herr hok
        · rcases (hc : c = after b' t) with rfl
          refine ih ht ?_
          have hlt : p.length < x.length := hlt
          simp only
          omega

/-- In every state of the loop, part of a request has been received. -/
theorem Visits.after {c₀ c : Conn} {p₀ x : Pbuf} {next₀ next : List Pbuf}
    (h : Visits c₀ p₀ next₀ c x next) (h₀ : ∃ b s, requestHead s = .more ∧ c₀ = after b s) :
    ∃ b s, requestHead s = .more ∧ c = after b s := by
  induction h with
  | start => exact h₀
  | advance _ ih => exact ih
  | iterate _ hx hpath hok ih =>
    rcases ih with ⟨b, s, hs, rfl⟩
    rcases (iteration_continues hs hx).of_path hpath with herr | ⟨-, b', t, ht, hc⟩
    · exact absurd herr hok
    · exact ⟨b', t, ht, hc⟩

/-- **The buffer of a connection.** After any deliveries that were handled without an error, and
in every step of the next call, the buffer and its counter are as the readers need them; no
call fails, but for the assertion of `pbuf_header` itself. -/
theorem connection_represents {c : Conn} {stream : List U8} (h : Reached c stream) :
    c.Represents ∧ ∀ p next,
      (∀ c' x next', Visits c p next c' x next' → c'.Represents ∧ StepSafe next' c' x) ∧
      ∀ env tr e tr', exec env (handleReceive c p next) tr = (.error e, tr') → e = .lwipAssert := by
  rcases h.after with ⟨b, s, htail, rfl⟩
  have hs : requestHead s = .more := Format.head_tail htail
  refine ⟨represents_after hs, fun p next => ⟨?_, ?_⟩⟩
  · intro c' x next' hvisit
    rcases hvisit.after ⟨b, s, hs, rfl⟩ with ⟨b', t, ht, rfl⟩
    exact ⟨represents_after ht, (represents_after ht).stepSafe⟩
  · intro env tr e tr' hrun
    rcases exec_path env (handleReceive (Xvc.after b s) p next) tr with ⟨evs, -, hpath, -⟩
    rw [hrun] at hpath
    refine (receiveLoop_faults hs ?_).of_path_error hpath
    simp only [List.flatten_cons, List.length_append, List.length_cons]
    omega

/-- A connection that has received `shift:`, a length of eight bits and one byte of the vectors. -/
theorem connection_represents_shift :
    ∃ c, Reached c (shiftName ++ [8, 0, 0, 0, 0xff]) ∧ c.bufferLen = 1 ∧ c.Represents := by
  have hrun : ∃ r tr, exec (cooperativeEnv fun _ => 0)
      (handleReceive fresh (shiftName ++ [8, 0, 0, 0, 0xff]) []) [] = (.ok r, tr) ∧
      r.status ≠ .error ∧ r.conn.bufferLen = 1 := ⟨_, _, rfl, by decide, rfl⟩
  rcases hrun with ⟨r, tr, hrun, hok, hlen⟩
  have hreached := (Reached.reset ⟨.notSet, fun _ => 0, 0, lengthNotSet⟩).receive hrun hok
  simp only [List.flatten_cons, List.flatten_nil, List.append_nil, List.nil_append] at hreached
  exact ⟨r.conn, hreached, hlen, (connection_represents hreached).1⟩

end Xvc
