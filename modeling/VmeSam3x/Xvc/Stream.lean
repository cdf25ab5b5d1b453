import VmeSam3x.Xvc.Resume

/-! # A connection serves the requests of its stream

Whatever lengths the received pieces have, the server does what serving the requests
of the whole stream one after the other does (`receiveAll_rel`). In surroundings that
let every request succeed this gives the reference behaviour of a connection,
`stream_served`.
-/

namespace Xvc

open Interact Bytes Framing Prog

variable {b : Buffer} {k : Nat} {s : List U8} {q : Request} {rest : List U8}

/-! ## An iteration and the first request -/

theorem pass_more (h : requestHead s = .more) :
    pass b k s = .ret (.moreDataNeeded, after b s, []) := by
  rcases name_cases s with ⟨u, rfl⟩ | ⟨u, rfl⟩ | ⟨u, rfl⟩ | hs
  · simp at h
  · rw [requestHead_settck, settckHead] at h
    rw [pass_settck, after_settck]
    split at h
    · rename_i hu
      exact if_pos hu
    · cases h
  · rw [requestHead_shift, shiftHead] at h
    rw [pass_shift, after_shift]
    unfold passShift
    split at h
    · rename_i hu
      rw [if_pos hu]
      rfl
    rename_i hu
    rw [if_neg hu, toNat_numberWord (by omega)]
    split at h
    · cases h
    rename_i hmax
    unfold vectorsHead at h
    simp only at h
    split at h
    · -- the part of the vectors that has come in is kept
      rename_i hv
      rw [if_neg hmax, passVectors, toNat_numberWord (by omega), if_pos hv, afterShift, if_neg hu,
        List.length_drop]
      rfl
    · cases h
  · have hb := beginsName_of_more h hs
    rw [pass_other hs, if_pos hb]

theorem pass_bad (h : requestHead s = .bad) : ∃ c p, pass b k s = .ret (.error, c, p) := by
  rcases name_cases s with ⟨u, rfl⟩ | ⟨u, rfl⟩ | ⟨u, rfl⟩ | hs
  · simp at h
  · rw [requestHead_settck, settckHead] at h
    split at h <;> cases h
  · rw [requestHead_shift, shiftHead] at h
    rw [pass_shift]
    unfold passShift
    split at h
    · cases h
    rename_i hu
    rw [if_neg hu, toNat_numberWord (by omega)]
    split at h
    · -- more bits than the buffer has room for
      rename_i hmax
      rw [if_pos hmax]
      exact ⟨_, _, rfl⟩
    · unfold vectorsHead at h
      simp only at h
      split at h <;> cases h
  · rw [requestHead_other hs] at h
    split at h
    · cases h
    · rename_i hb
      rw [pass_other hs, if_neg hb]
      exact ⟨_, _, rfl⟩

/-- A complete request was handled as serving it would: on success the server waits for
the next one, with the bytes after this one left. -/
def Handled (rest : List U8) (x : Pass) (status : Status) : Prop :=
  x.1 = status ∧ (status = .ok ∧ x.2.2 = rest ∧ (∃ b, x.2.1 = after b []) ∨ status = .error)

theorem after_nil (b : Buffer) : after b [] = ⟨.notSet, b, 0, lengthNotSet⟩ := by
  rw [after_other b (by simp [settckName]) (by simp [shiftName])]
  simp

theorem reply_rel (payload : List U8) (c : Conn) (b : Buffer) (rest : List U8) :
    Rel (Handled rest) (reply payload c rest (.ok, ⟨.notSet, b, 0, lengthNotSet⟩, rest))
      (sendReply payload) := by
  refine Rel.call fun sent => ?_
  cases sent with
  | true => exact ⟨rfl, .inl ⟨rfl, rfl, b, (after_nil b).symm⟩⟩
  | false => exact ⟨rfl, .inr rfl⟩

/-! ## The vectors of a shift -/

/-- Pulses depend on their own bits only. -/
theorem pulses_congr {tdi tms tdi' tms' : Nat → Bool} {n i : Nat}
    (h : ∀ j, i ≤ j → j < i + n → tdi j = tdi' j ∧ tms j = tms' j) :
    pulses tdi tms n i = pulses tdi' tms' n i := by
  induction n generalizing i with
  | zero => rfl
  | succ n ih =>
    obtain ⟨h₁, h₂⟩ := h i (le_refl i) (by omega)
    rw [pulses, pulses, h₁, h₂, ih fun j hj hj' => h j (by omega) (by omega)]

theorem idealShift_congr {tdi tms tdi' tms' : Nat → Bool} {n : Nat}
    (h : ∀ j < n, tdi j = tdi' j ∧ tms j = tms' j) :
    idealShift tdi tms n = idealShift tdi' tms' n := by
  rw [idealShift, idealShift, pulses_congr fun j _ hj => h j (by omega)]

theorem pulses_post (tdi tms : Nat → Bool) (n i : Nat) :
    Post (fun ts => ts.length = n) (fun _ => False) (pulses tdi tms n i) := by
  induction n generalizing i with
  | zero => rfl
  | succ n ih =>
    have hpulse : Post (fun _ => True) (fun _ => False) (pulse (tdi i) (tms i)) :=
      fun _ _ _ _ _ => trivial
    refine Post.bind hpulse fun _ _ => ?_
    refine Post.bind (ih (i + 1)) fun ts hts => ?_
    simpa [Post] using hts

/-- A shift that succeeds took one sample for each bit. -/
theorem idealShift_post (tdi tms : Nat → Bool) (n : Nat) :
    Post (fun r => r.1 = .ok ∧ (∃ ts, r.2 = some ts ∧ ts.length = n) ∨ r.1 = .error)
      (fun _ => False) (idealShift tdi tms n) := by
  refine Post.bind (op_post .shiftEntry) fun entered _ => ?_
  cases entered with
  | false => exact .inr rfl
  | true =>
    refine Post.bind (op_post _) fun _ _ => ?_
    refine Post.bind (pulses_post tdi tms n 0) fun ts hts => ?_
    refine Post.bind (op_post .shiftExit) fun requested _ => ?_
    cases requested with
    | false => exact .inl ⟨rfl, ts, rfl, hts⟩
    | true => exact Post.bind disable_post fun _ _ => .inr rfl

/-- The two vectors lie one after the other at the start of the buffer. -/
theorem layout_vectors {n : Nat} (hpos : 0 < n) (hmax : n ≤ 4096) :
    Layout ((n + 7) / 8) 0 (bitsToBytes n) := by
  rw [bitsToBytes_eq hmax]
  constructor
  · omega
  · omega
  · omega
  · omega

theorem vectorBit_tdi (b : Buffer) {v : List U8} {n i : Nat} (hi : i < n) (hmax : n ≤ 4096)
    (hv : 2 * ((n + 7) / 8) ≤ v.length) :
    vectorBit (fun k => (b.overwrite 0 (v.take (2 * ((n + 7) / 8)))).byte ((n + 7) / 8 + k)) i =
      vectorBit (fun k => ((v.drop ((n + 7) / 8)).take ((n + 7) / 8)).getD k 0) i := by
  unfold vectorBit
  congr 1
  dsimp only
  rw [Buffer.byte_overwrite _ _ _ (by omega), if_pos (Nat.zero_le _)]
  simp [show (n + 7) / 8 + i / 8 < 2 * ((n + 7) / 8) by omega, show i / 8 < (n + 7) / 8 by omega,
    show (n + 7) / 8 + i / 8 < v.length by omega]

theorem vectorBit_tms (b : Buffer) {v : List U8} {n i : Nat} (hi : i < n) (hmax : n ≤ 4096)
    (hv : 2 * ((n + 7) / 8) ≤ v.length) :
    vectorBit (fun k => (b.overwrite 0 (v.take (2 * ((n + 7) / 8)))).byte (0 + k)) i =
      vectorBit (fun k => (v.take ((n + 7) / 8)).getD k 0) i := by
  unfold vectorBit
  congr 1
  dsimp only
  rw [Buffer.byte_overwrite _ _ _ (by omega), if_pos (Nat.zero_le _)]
  simp [show i / 8 < 2 * ((n + 7) / 8) by omega, show i / 8 < (n + 7) / 8 by omega,
    show i / 8 < v.length by omega]

/-- The reply to a shift is what it left in the place of the TDI vector. -/
theorem slice_tdoBuffer (b : Buffer) {n : Nat} (hmax : n ≤ 4096) {ts : List Bool}
    (hts : ts.length = n) :
    (tdoBuffer b ((n + 7) / 8) (bitsToBytes n) ts).slice ((n + 7) / 8) ((n + 7) / 8) =
      tdoBytes n ts := by
  unfold Buffer.slice tdoBytes
  refine List.map_congr_left fun k hk => ?_
  rw [List.mem_range] at hk
  rw [byte_tdoBuffer _ _ _ _ (by omega), bitsToBytes_eq hmax, if_pos (by omega)]
  congr 1
  omega

/-- **The vectors.** With both vectors received, the rest of the iteration serves the shift. -/
theorem passVectors_rel {length : U32} {v : List U8} (hmax : length.toNat ≤ 4096)
    (hv : ¬ v.length < 2 * ((length.toNat + 7) / 8)) :
    Rel (Handled (v.drop (2 * ((length.toNat + 7) / 8)))) (passVectors b length k v)
      (Request.shift length.toNat (v.take ((length.toNat + 7) / 8))
        ((v.drop ((length.toNat + 7) / 8)).take ((length.toNat + 7) / 8))).serve := by
  unfold passVectors
  simp only [if_neg hv]
  generalize hn : length.toNat = n at hmax hv ⊢
  cases n with
  | zero =>
    have hshift : ∀ b', doShift b' ((0 + 7) / 8) 0 0 = .ret (.ok, b') := fun _ => rfl
    rw [hshift]
    exact reply_rel [] _ _ _
  | succ n =>
    rw [Request.serve, doShift_eq (Nat.succ_pos n) hmax (layout_vectors (Nat.succ_pos n) hmax),
      idealShift_congr fun i hi => ⟨vectorBit_tdi b hi hmax (by omega),
        vectorBit_tms b hi hmax (by omega)⟩, bind_map_left]
    refine Rel.bind (Rel.of_post (idealShift_post _ _ _)) ?_
    rintro ⟨st, samples⟩ _ ⟨rfl, ⟨rfl, ts, rfl, hts⟩ | rfl⟩
    · simp only [ne_eq, not_true_eq_false, if_false, slice_tdoBuffer _ hmax hts]
      exact reply_rel _ _ _ _
    · exact ⟨rfl, .inr rfl⟩
    · simp

/-- **A complete request.** An iteration serves the request its bytes begin with. -/
theorem pass_item (h : requestHead s = .item q rest) : Rel (Handled rest) (pass b k s) q.serve := by
  rcases name_cases s with ⟨u, rfl⟩ | ⟨u, rfl⟩ | ⟨u, rfl⟩ | hs
  · rw [requestHead_getinfo] at h
    cases h
    rw [pass_getinfo]
    exact reply_rel _ _ _ _
  · rw [requestHead_settck, settckHead] at h
    rw [pass_settck]
    split at h
    · cases h
    · rename_i hu
      cases h
      rw [passSettck, if_neg hu]
      exact reply_rel _ _ _ _
  · rw [requestHead_shift, shiftHead] at h
    rw [pass_shift]
    split at h
    · cases h
    rename_i hu
    rw [← toNat_numberWord (by omega)] at h
    split at h
    · cases h
    rename_i hmax
    rw [passShift, if_neg hu, if_neg hmax]
    unfold vectorsHead at h
    simp only at h
    split at h
    · cases h
    · rename_i hv
      cases h
      exact passVectors_rel (by omega) hv
  · rw [requestHead_other hs] at h
    split at h <;> cases h

theorem serve_post (q : Request) :
    Post (fun status => status = .ok ∨ status = .error) (fun _ => False) q.serve := by
  have hsend : ∀ payload, Post (fun status => status = .ok ∨ status = .error) (fun _ => False)
      (sendReply payload) := by
    intro payload sent
    cases sent
    · exact .inr rfl
    · exact .inl rfl
  match q with
  | .getinfo => exact hsend _
  | .settck _ => exact hsend _
  | .shift 0 _ _ => exact hsend _
  | .shift (n + 1) tms tdi =>
    rw [Request.serve]
    · refine (idealShift_post _ _ _).bind ?_
      rintro ⟨status, samples⟩ (⟨rfl, -⟩ | rfl)
      · exact hsend _
      · exact .inr rfl
    · simp

theorem serveAll_post (qs : List Request) :
    Post (fun _ => True) (fun _ => False) (serveAll qs) := by
  induction qs with
  | nil => trivial
  | cons q qs ih =>
    refine (serve_post q).bind ?_
    rintro status (rfl | rfl)
    · exact ih
    · trivial

/-! ## One call -/

/-- What a call leaves after the stream `s`, if serving its requests ended with `status`. -/
def Ended (s : List U8) (r : Received) (status : Status) : Prop :=
  match status, requests.tail s with
  | .ok, some p => r.status = .ok ∧ r.chain.flatten = [] ∧ ∃ b, r.conn = after b p
  | _, _ => r.status = .error

/-- The loop serves the requests that the received bytes complete. -/
theorem receiveLoop_rel {fuel : Nat} {status : Status} {x : List U8} (hs : requestHead s = .more)
    (hstatus : status ≠ .error) (hfuel : x.length < fuel) :
    Rel (Ended (s ++ x)) (receiveLoop fuel status (after b s) x [])
      (serveAll (requests.items (s ++ x))) := by
  induction fuel generalizing b s status x with
  | zero => omega
  | succ fuel ih =>
    rcases x with - | ⟨y, x⟩
    · have htail := Format.tail_more (F := requests) hs
      rw [List.append_nil, Format.items_more hs]
      simp only [receiveLoop, serveAll, Prog.pure_eq_ret, rel_ret, Ended, htail]
      refine ⟨?_, rfl, b, rfl⟩
      cases status with
      | ok => rfl
      | error => exact absurd rfl hstatus
      | moreDataNeeded => rfl
    · rw [receiveLoop, iteration_eq hs (by simp) (fun _ => .inr rfl)]
      cases hhead : requestHead (s ++ y :: x) with
      | more =>
        -- the pbuf is used up, and the state stands for all that came in so far
        rw [pass_more hhead, Format.items_more hhead]
        have := @ih b (s ++ y :: x) .moreDataNeeded [] hhead (by simp) (by simp at hfuel ⊢; omega)
        rw [List.append_nil, Format.items_more hhead] at this
        exact this
      | bad =>
        obtain ⟨c, p, hpass⟩ := @pass_bad b s.length _ hhead
        have htail := Format.tail_bad (F := requests) hhead
        rw [hpass, Format.items_bad hhead]
        simp only [Prog.ret_bind, if_true, serveAll, Prog.pure_eq_ret, rel_ret, Ended, htail]
      | item q rest =>
        have hrest := requests.length_lt_of_more hs hhead
        have htail := Format.tail_item (F := requests) hhead
        rw [Format.items_item hhead, serveAll]
        refine Rel.bind (pass_item hhead) ?_
        rintro ⟨st, c, p⟩ _ ⟨rfl, ⟨rfl, rfl, b', rfl⟩ | rfl⟩
        · -- served: the loop goes on with what follows the request
          have := @ih b' [] .ok p rfl (by simp) (by simp at hfuel hrest ⊢; omega)
          have hended : Ended (s ++ y :: x) = Ended p := by
            funext r status
            simp only [Ended, htail]
          rw [hended]
          simpa using this
        · simp [Ended]

theorem handleReceive_rel {x : List U8} (hs : requestHead s = .more) :
    Rel (Ended (s ++ x)) (handleReceive (after b s) x []) (serveAll (requests.items (s ++ x))) := by
  have hfuel : x.length < [x].flatten.length + [x].length + 1 := by
    rw [List.flatten_singleton]
    omega
  exact receiveLoop_rel hs (by simp) hfuel

/-! ## A whole connection -/

/-- Successive calls of `xvc_server_handle_receive` on one connection, each with a single
pbuf. The caller closes the connection on an error. -/
def receiveAll : Conn → List Pbuf → XvcProg (List Received)
  | _, [] => return []
  | c, p :: ps => do
    let r ← handleReceive c p []
    if r.status = .error then
      return [r]
    else
      let rs ← receiveAll r.conn ps
      return r :: rs

/-- The results `rs` of calls with the pieces `ps`, after a stream `s` was received: each
call consumes its piece, until one ends in an error because what was received so far goes
on with something that begins no request. -/
inductive Outcome : List U8 → List Pbuf → List Received → Prop
  | nil (s : List U8) : Outcome s [] []
  | error {s : List U8} {p : Pbuf} {ps : List Pbuf} {r : Received} (hr : r.status = .error)
      (ht : requests.tail (s ++ p) = none) : Outcome s (p :: ps) [r]
  | ok {s : List U8} {p : Pbuf} {ps : List Pbuf} {r : Received} {rs : List Received}
      (hr : r.status = .ok) (hc : r.chain.flatten = []) (ht : requests.tail (s ++ p) ≠ none)
      (h : Outcome (s ++ p) ps rs) : Outcome s (p :: ps) (r :: rs)

/-- Serving more requests after those already served. -/
theorem serveAll_append (qs qs' : List Request) :
    serveAll (qs ++ qs') = do
      match ← serveAll qs with
      | .ok => serveAll qs'
      | status => return status := by
  induction qs with
  | nil => rfl
  | cons q qs ih =>
    simp only [List.cons_append, serveAll, ih, bind_assoc]
    congr 1
    funext status
    cases status <;> rfl

/-- The calls serve the requests of the stream, in any surroundings. -/
theorem receiveAll_rel {done : List U8} {ps : List Pbuf} (hs : requests.tail done = some s) :
    Rel (fun rs status => status = .ok → Outcome done ps rs) (receiveAll (after b s) ps)
      (serveAll (requests.items (s ++ ps.flatten))) := by
  induction ps generalizing b s done with
  | nil =>
    rw [List.flatten_nil, List.append_nil, Format.items_more (Format.head_tail hs)]
    exact fun _ => .nil done
  | cons p ps ih =>
    have hhead : requestHead s = .more := Format.head_tail hs
    have htail := Format.tail_append (F := requests) hs p
    rw [receiveAll, List.flatten_cons, ← List.append_assoc]
    cases hp : requests.tail (s ++ p) with
    | none =>
      -- the calls after this one are never made
      rw [Format.items_append_of_tail_none hp, ← bind_pure (serveAll _)]
      refine Rel.bind (handleReceive_rel hhead) fun r status hr => ?_
      have hr' : r.status = .error := by
        cases status <;> simpa [Ended, hp] using hr
      rw [if_pos hr']
      exact fun _ => .error hr' (htail.trans hp)
    | some t =>
      rw [Format.items_append hp, serveAll_append]
      refine Rel.bind (handleReceive_rel hhead) fun r status hr => ?_
      cases status with
      | ok =>
        obtain ⟨hr', hc, b', hconn⟩ : r.status = .ok ∧ r.chain.flatten = [] ∧
            ∃ b, r.conn = after b t := by simpa [Ended, hp] using hr
        rw [if_neg (by simp [hr']), hconn, ← bind_pure (serveAll _)]
        refine Rel.bind (ih (htail.trans hp)) fun rs status hrs hstatus => ?_
        exact .ok hr' hc (by rw [htail, hp]; simp) (hrs hstatus)
      | error =>
        have hr' : r.status = .error := by simpa [Ended] using hr
        rw [if_pos hr']
        intro h
        cases h
      | moreDataNeeded =>
        have hr' : r.status = .error := by simpa [Ended] using hr
        rw [if_pos hr']
        intro h
        cases h

/-! ## Surroundings in which every request succeeds -/

/-- The server stays enabled and every write to the connection succeeds. What is sampled
from the device is left open. -/
structure Cooperative (env : Env XvcSig) : Prop where
  shiftEntry : ∀ tr, env tr .shiftEntry = true
  shiftExit : ∀ tr, env tr .shiftExit = false
  netconnWrite : ∀ tr payload, env tr (.netconnWrite payload) = true

theorem cooperative_cooperativeEnv (pdsr : List (Event XvcSig) → U32) :
    Cooperative (cooperativeEnv pdsr) :=
  ⟨fun _ => rfl, fun _ => rfl, fun _ _ => rfl⟩

variable {env : Env XvcSig}

theorem Cooperative.sendReply (henv : Cooperative env) (payload : List U8) (tr : List (Event XvcSig)) :
    ∃ tr', exec env (sendReply payload) tr = (.ok .ok, tr') := by
  refine ⟨tr ++ [⟨.netconnWrite payload, true⟩], ?_⟩
  rw [Xvc.sendReply, exec_bind]
  simp [op, perform, henv.netconnWrite]

theorem Cooperative.idealShift (henv : Cooperative env) (tdi tms : Nat → Bool) (n : Nat)
    (tr : List (Event XvcSig)) :
    ∃ ts tr', exec env (idealShift tdi tms n) tr = (.ok (.ok, some ts), tr') := by
  obtain ⟨ts, tr', hts, -⟩ := (pulses_post tdi tms n 0).exec env
    (tr ++ [⟨.shiftEntry, true⟩] ++ [⟨.writeCodr (pinMask true .xiltck), ()⟩])
  refine ⟨ts, tr' ++ [⟨.shiftExit, false⟩], ?_⟩
  rw [Xvc.idealShift, exec_bind]
  simp only [op, perform, exec_call, exec_ret, henv.shiftEntry, if_true]
  rw [setTckLow, exec_bind]
  simp only [op, perform, exec_call, exec_ret]
  rw [exec_bind, hts]
  change exec env (if env tr' .shiftExit then _ else _)
    (tr' ++ [⟨.shiftExit, env tr' .shiftExit⟩]) = _
  simp only [henv.shiftExit]
  rfl

theorem Cooperative.serve (henv : Cooperative env) (q : Request) (tr : List (Event XvcSig)) :
    ∃ tr', exec env q.serve tr = (.ok .ok, tr') := by
  match q with
  | .getinfo => exact henv.sendReply _ tr
  | .settck _ => exact henv.sendReply _ tr
  | .shift 0 _ _ => exact henv.sendReply _ tr
  | .shift (n + 1) tms tdi =>
    obtain ⟨ts, tr', hts⟩ := henv.idealShift (vectorBit fun k => tdi.getD k 0)
      (vectorBit fun k => tms.getD k 0) (n + 1) tr
    rw [Request.serve, exec_bind, hts]
    · exact henv.sendReply _ tr'
    · simp

theorem Cooperative.serveAll (henv : Cooperative env) (qs : List Request)
    (tr : List (Event XvcSig)) : ∃ tr', exec env (serveAll qs) tr = (.ok .ok, tr') := by
  induction qs generalizing tr with
  | nil => exact ⟨tr, rfl⟩
  | cons q qs ih =>
    obtain ⟨tr', hq⟩ := henv.serve q tr
    rw [Xvc.serveAll, exec_bind, hq]
    exact ih tr'

theorem Outcome.length {ps : List Pbuf} {rs : List Received} (h : Outcome s ps rs) :
    rs.length ≤ ps.length ∧
      (rs.length = ps.length ∨ ∃ r, rs.getLast? = some r ∧ r.status = .error) := by
  induction h with
  | nil s => exact ⟨le_refl _, .inl rfl⟩
  | error hr ht => exact ⟨by simp, .inr ⟨_, rfl, hr⟩⟩
  | @ok s p ps r rs hr hc ht h ih =>
    refine ⟨by simpa using ih.1, ?_⟩
    rcases ih.2 with hlen | ⟨r', hlast, hr'⟩
    · exact .inl (by simp [hlen])
    · exact .inr ⟨r', by rw [List.getLast?_cons, hlast]; rfl, hr'⟩

/-- What each of the calls did. -/
theorem Outcome.get {ps : List Pbuf} {rs : List Received} (h : Outcome s ps rs) {i : Nat}
    {r : Received} (hi : rs[i]? = some r) :
    (r.status = .error ↔ requests.tail (s ++ (ps.take (i + 1)).flatten) = none) ∧
      (r.status ≠ .error → r.status = .ok ∧ r.chain.flatten = []) := by
  induction h generalizing i with
  | nil s => simp at hi
  | @error s p ps r' hr ht =>
    cases i with
    | zero =>
      obtain rfl : r' = r := by simpa using hi
      simp [hr, ht]
    | succ i => simp at hi
  | @ok s p ps r' rs hr hc ht h ih =>
    cases i with
    | zero =>
      obtain rfl : r' = r := by simpa using hi
      simp [hr, hc, ht]
    | succ i =>
      have := ih (by simpa using hi)
      rwa [List.append_assoc, ← List.flatten_cons, ← List.take_succ_cons] at this

/-- **The stream of a connection is served.** The stream is cut into `pieces` in any way
and each piece is received by one call. The calls return, and together they do to the
connection and to the pins exactly what serving the requests of the whole stream, one
after the other, does. A call ends in an error exactly when what was received so far goes
on, after its complete requests, with something that begins none; every other call consumes
its piece, and no call is left out unless one ended in an error. -/
theorem stream_served (henv : Cooperative env) (c : Conn) (pieces : List Pbuf) :
    ∃ results,
      exec env (receiveAll c.reset pieces) [] =
        (.ok results, (exec env (serveAll (requests.items pieces.flatten)) []).2) ∧
      (∀ i r, results[i]? = some r →
        (r.status = .error ↔ requests.tail (pieces.take (i + 1)).flatten = none) ∧
        (r.status ≠ .error → r.status = .ok ∧ r.chain.flatten = [])) ∧
      results.length ≤ pieces.length ∧
      (results.length = pieces.length ∨ ∃ r, results.getLast? = some r ∧ r.status = .error) := by
  have htail : requests.tail [] = some [] := Format.tail_more (F := requests) rfl
  have hreset : c.reset = after c.buffer [] := (after_nil c.buffer).symm
  have hrel := @receiveAll_rel c.buffer [] [] pieces htail
  rw [List.nil_append, ← hreset] at hrel
  obtain ⟨tr, hserve⟩ := henv.serveAll (requests.items pieces.flatten) []
  obtain ⟨results, hrun, hout⟩ := hrel.exec env hserve
  have hout := hout rfl
  exact ⟨results, by rw [hrun, hserve], fun i r hi => hout.get hi, hout.length.1, hout.length.2⟩

/-- A shift of one bit and a `getinfo:`, received in three pieces. -/
theorem stream_served_three_pieces :
    Cooperative (cooperativeEnv fun _ => 8#32) ∧
    ∃ results,
      exec (cooperativeEnv fun _ => 8#32)
        (receiveAll (Conn.reset ⟨.shift, fun _ => 0, 3, 0⟩)
          [[0x73, 0x68], [0x69, 0x66, 0x74, 0x3a, 1, 0, 0, 0, 1], 1 :: getinfoName]) [] =
        (.ok results, (exec (cooperativeEnv fun _ => 8#32)
          (serveAll (requests.items (shiftName ++ [1, 0, 0, 0, 1, 1] ++ getinfoName))) []).2) ∧
      results.length ≤ 3 := by
  obtain ⟨results, hrun, -, hlen, -⟩ := stream_served (cooperative_cooperativeEnv fun _ => 8#32)
    ⟨.shift, fun _ => 0, 3, 0⟩ [[0x73, 0x68], [0x69, 0x66, 0x74, 0x3a, 1, 0, 0, 0, 1],
      1 :: getinfoName]
  exact ⟨cooperative_cooperativeEnv _, results, hrun, hlen⟩

end Xvc
