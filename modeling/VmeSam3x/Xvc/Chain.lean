import VmeSam3x.Xvc.Stream

/-! # Chains of pbufs

A delivery may be a chain of pbufs. It is handled like one pbuf with the same bytes
unless the end of a pbuf falls inside the name of a request, where the server runs into
an assertion of lwIP, or inside the vectors of a shift, where a shift that fails leaves
another count behind. `transparent_iff` says that these are the only exceptions.
-/

namespace Xvc

open Interact Bytes Framing Prog

variable {b : Buffer} {k : Nat} {s r y w rest : List U8} {q : Request} {next : List Pbuf}

/-! ## Bytes that follow what is handled -/

theorem window_append (hr : 2 ≤ r.length) (y : List U8) : window (r ++ y) = window r := by
  match r, hr with
  | x₀ :: x₁ :: r, _ => simp [window]

/-- Whether the name reaches past its first bytes does not depend on the rest. -/
theorem lt_window_append (r y : List U8) :
    r.length < window (r ++ y) ↔ r.length < window r := by
  by_cases h : 2 ≤ r.length
  · rw [window_append h]
  · have h₁ := six_le_window r
    have h₂ := six_le_window (r ++ y)
    omega

theorem window_le_of_not_atName (h : ¬ AtName s) : window s ≤ s.length := by
  rcases name_cases s with ⟨u, rfl⟩ | ⟨u, rfl⟩ | ⟨u, rfl⟩ | hs
  · simp [window, getinfoName]
  · simp [window, settckName]
  · simp [window, shiftName]
  · exact absurd hs.2 h

/-- The name of a request is a part of it. -/
theorem window_le_of_item (h : requestHead s = .item q rest) : window s + rest.length ≤ s.length := by
  rcases name_cases s with ⟨u, rfl⟩ | ⟨u, rfl⟩ | ⟨u, rfl⟩ | hs
  · rw [requestHead_getinfo] at h
    cases h
    simp [window, getinfoName]
    omega
  · rw [requestHead_settck] at h
    obtain ⟨w, rfl, -⟩ := lawful_settckHead.split h
    simp [window, settckName]
    omega
  · rw [requestHead_shift] at h
    obtain ⟨w, rfl, -⟩ := lawful_shiftHead.split h
    simp [window, shiftName]
    omega
  · rw [requestHead_other hs] at h
    split at h <;> cases h

/-- The end of an iteration with more bytes behind it. -/
def Pass.followedBy (y : List U8) (x : Pass) : Pass := (x.1, x.2.1, x.2.2 ++ y)

theorem reply_followedBy (payload : List U8) (c c' : Conn) (p y : List U8) :
    reply payload c (p ++ y) (.ok, c', p ++ y) =
      Pass.followedBy y <$> reply payload c p (.ok, c', p) := by
  simp only [reply, map_bind]
  congr 1
  funext sent
  cases sent <;> rfl

theorem passVectors_append {length : U32} {v : List U8}
    (hv : ¬ v.length < 2 * ((length.toNat + 7) / 8)) (y : List U8) :
    passVectors b length k (v ++ y) = Pass.followedBy y <$> passVectors b length k v := by
  have hv' : ¬ (v ++ y).length < 2 * ((length.toNat + 7) / 8) := by
    rw [List.length_append]
    omega
  unfold passVectors
  simp only [if_neg hv, if_neg hv', List.take_append_of_le_length (Nat.le_of_not_lt hv),
    List.drop_append_of_le_length (Nat.le_of_not_lt hv), map_bind]
  congr 1
  funext x
  obtain ⟨status, b'⟩ := x
  by_cases hst : status = .ok
  · simp only [hst, ne_eq, not_true_eq_false, if_false]
    exact reply_followedBy _ _ _ _ _
  · simp only [ne_eq, hst, not_false_eq_true, if_true]
    rfl

/-- An iteration that completes a request or finds none does not look at what follows. -/
theorem pass_append (h : requestHead r ≠ .more) (hw : window r ≤ r.length) (y : List U8) :
    pass b k (r ++ y) = Pass.followedBy y <$> pass b k r := by
  rcases name_cases r with ⟨u, rfl⟩ | ⟨u, rfl⟩ | ⟨u, rfl⟩ | hr
  · rw [List.append_assoc, pass_getinfo, pass_getinfo]
    exact reply_followedBy _ _ _ _ _
  · rw [List.append_assoc, pass_settck, pass_settck]
    rw [requestHead_settck, settckHead] at h
    have hu : ¬ u.length < 4 := by
      intro hu
      rw [if_pos hu] at h
      exact h rfl
    rw [passSettck, passSettck, if_neg hu, if_neg (by rw [List.length_append]; omega),
      List.take_append_of_le_length (by omega), List.drop_append_of_le_length (by omega)]
    exact reply_followedBy _ _ _ _ _
  · rw [List.append_assoc, pass_shift, pass_shift]
    rw [requestHead_shift, shiftHead] at h
    have hu : ¬ u.length < 4 := by
      intro hu
      rw [if_pos hu] at h
      exact h rfl
    rw [if_neg hu, ← toNat_numberWord (by omega)] at h
    rw [passShift, passShift, numberWord_append (by omega) y, if_neg hu,
      if_neg (by rw [List.length_append]; omega), List.take_append_of_le_length (by omega),
      List.drop_append_of_le_length (by omega)]
    split
    · rfl
    · -- complete vectors are not looked for behind the pbuf
      rename_i hmax
      refine passVectors_append (fun hv => ?_) y
      rw [if_neg hmax] at h
      unfold vectorsHead at h
      rw [if_pos hv] at h
      exact h rfl
  · have hb : ¬ BeginsName r := by
      intro hb
      rw [requestHead_other hr, if_pos hb] at h
      exact h rfl
    obtain ⟨hr', hb'⟩ := not_name_append hr hb y
    have h6 := six_le_window r
    rw [pass_other hr, pass_other hr', if_neg hb, if_neg hb', window_append (by omega),
      List.take_append_of_le_length hw, List.drop_append_of_le_length hw, List.length_append,
      min_eq_left (by omega), min_eq_left hw]
    rfl

/-! ## Positions at which a stream must not be cut -/

/-- `Splits stream c`: position `c` lies inside the name of a request of the stream, or of
what stands in its place, or inside the vectors of a complete shift. -/
inductive Splits : List U8 → Nat → Prop
  | name {stream : List U8} {c : Nat} (hpos : 0 < c) (hname : c < window stream)
      (hlen : c < stream.length) : Splits stream c
  | vectors {stream : List U8} {c n : Nat} {tms tdi rest : List U8}
      (hhead : requestHead stream = .item (.shift n tms tdi) rest) (hpos : 10 < c)
      (hlen : c + rest.length < stream.length) : Splits stream c
  | later {w rest : List U8} {q : Request} {c : Nat} (hhead : requestHead (w ++ rest) = .item q rest)
      (h : Splits rest c) : Splits (w ++ rest) (w.length + c)

theorem Splits.pos {stream : List U8} {c : Nat} (h : Splits stream c) : 0 < c := by
  induction h with
  | name hpos => exact hpos
  | vectors _ hpos => omega
  | later _ _ ih => omega

/-- From the end of a request on, only what follows matters. -/
theorem splits_append {c : Nat} (h : requestHead (w ++ rest) = .item q rest) :
    Splits (w ++ rest) (w.length + c) ↔ Splits rest c := by
  constructor
  · intro hs
    generalize hstream : w ++ rest = stream at h hs
    generalize hc : w.length + c = c' at hs
    have hlen : stream.length = w.length + rest.length := by
      rw [← hstream, List.length_append]
    cases hs with
    | name _ hname =>
      have := window_le_of_item h
      omega
    | vectors hhead _ hlen' =>
      rw [h] at hhead
      cases hhead
      omega
    | @later w' rest' q' c'' hhead hs =>
      rw [h] at hhead
      cases hhead
      obtain ⟨rfl, -⟩ := List.append_inj' hstream rfl
      obtain rfl : c = c'' := by omega
      exact hs
  · exact .later h

/-- Where an incomplete request ends, the stream is only cut inside this request. -/
theorem splits_of_more (h : requestHead r = .more) (hs : Splits (r ++ y) r.length) :
    (r.length < window r ∧ y ≠ []) ∨
      10 < r.length ∧ ∃ n tms tdi rest, requestHead (r ++ y) = .item (.shift n tms tdi) rest := by
  generalize hstream : r ++ y = stream at hs
  generalize hc : r.length = c at hs
  cases hs with
  | name _ hname hlen =>
    refine .inl ⟨?_, ?_⟩
    · rw [← hstream, ← hc, lt_window_append] at hname
      omega
    · rintro rfl
      rw [← hstream, List.append_nil] at hlen
      omega
  | vectors hhead hpos => exact .inr ⟨hpos, _, _, _, _, hhead⟩
  | @later w rest q c hhead hs =>
    -- the complete request would lie in what has arrived
    obtain ⟨w', -, hw', hitem⟩ := requests.split hhead
    obtain rfl : w = w' := List.append_cancel_right hw'
    rcases List.append_eq_append_iff.mp hstream with ⟨u, hw, -⟩ | ⟨u, rfl, -⟩
    · have hu : u.length = 0 := by
        have := congrArg List.length hw
        have := hs.pos
        rw [List.length_append] at *
        omega
      obtain rfl := List.eq_nil_of_length_eq_zero hu
      rw [List.append_nil] at hw
      rw [hw] at hitem
      exact absurd (h.symm.trans hitem) (by simp)
    · have := requests.item_append u hitem
      exact absurd (h.symm.trans this) (by simp)

theorem splits_name_of_lt (hr : r ≠ []) (hw : r.length < window r) (hy : y ≠ []) :
    Splits (r ++ y) r.length := by
  have hpos := List.length_pos_of_ne_nil hy
  refine .name (List.length_pos_of_ne_nil hr) ((lt_window_append r y).mpr hw) ?_
  rw [List.length_append]
  omega

/-- `Cut s chain`: after the bytes `s`, the end of a pbuf of the chain falls on a position at
which the stream must not be cut. -/
def Cut (s : List U8) (chain : List Pbuf) : Prop :=
  ∃ i, 0 < (chain.take i).flatten.length ∧
    Splits (s ++ chain.flatten) (s.length + (chain.take i).flatten.length)

theorem cut_nil_cons {p : Pbuf} : Cut s ([] :: p :: next) ↔ Cut s (p :: next) := by
  constructor
  · rintro ⟨i, hi, hs⟩
    cases i with
    | zero => simp at hi
    | succ i => exact ⟨i, by simpa using hi, by simpa using hs⟩
  · rintro ⟨i, hi, hs⟩
    exact ⟨i + 1, by simpa using hi, by simpa using hs⟩

theorem not_cut_nil : ¬ Cut s [[]] := by
  rintro ⟨i, hi, -⟩
  cases i <;> simp at hi

/-- The ends of pbufs from that of the first one on. -/
theorem cut_cons {x : Pbuf} (hx : x ≠ []) :
    Cut s (x :: next) ↔ ∃ j, Splits (s ++ x ++ next.flatten)
      ((s ++ x).length + (next.take j).flatten.length) := by
  have hpos := List.length_pos_of_ne_nil hx
  constructor
  · rintro ⟨i, hi, hs⟩
    cases i with
    | zero => simp at hi
    | succ i => exact ⟨i, by simpa [Nat.add_assoc] using hs⟩
  · rintro ⟨j, hs⟩
    exact ⟨j + 1, by simp; omega, by simpa [Nat.add_assoc] using hs⟩

/-- A first request that is complete in the first pbuf is not cut. -/
theorem cut_item {x : Pbuf} (hx : x ≠ []) (h : requestHead (s ++ x) = .item q rest) :
    Cut s (x :: next) ↔ Cut [] (rest :: next) := by
  obtain ⟨w, -, hw, -⟩ := requests.split h
  have happ := requests.item_append next.flatten h
  rw [cut_cons hx, hw]
  simp only [List.append_assoc, List.length_append, Nat.add_assoc]
  have hhead : requestHead (w ++ (rest ++ next.flatten)) = .item q (rest ++ next.flatten) := by
    rw [← List.append_assoc, ← hw]
    exact happ
  constructor
  · rintro ⟨j, hs⟩
    rw [splits_append hhead] at hs
    exact ⟨j + 1, by simpa using hs.pos, by simpa using hs⟩
  · rintro ⟨i, hi, hs⟩
    cases i with
    | zero => simp at hi
    | succ j => exact ⟨j, (splits_append hhead).mpr (by simpa using hs)⟩

/-- An incomplete request at the end of the first pbuf: it is cut there or further on. -/
theorem cut_more {x : Pbuf} (hx : x ≠ []) :
    Cut s (x :: next) ↔
      Splits (s ++ x ++ next.flatten) (s ++ x).length ∨ Cut (s ++ x) ([] :: next) := by
  rw [cut_cons hx]
  constructor
  · rintro ⟨j, hs⟩
    by_cases hj : (next.take j).flatten.length = 0
    · rw [hj] at hs
      exact .inl hs
    · exact .inr ⟨j + 1, by simpa using Nat.pos_of_ne_zero hj, by simpa using hs⟩
  · rintro (hs | ⟨i, hi, hs⟩)
    · exact ⟨0, by simpa using hs⟩
    · cases i with
      | zero => simp at hi
      | succ j => exact ⟨j, by simpa using hs⟩

/-- Where no request begins, nothing after it is looked at. -/
theorem not_cut_bad {x : Pbuf} (hx : x ≠ []) (h : requestHead (s ++ x) = .bad)
    (hw : window (s ++ x) ≤ (s ++ x).length ∨ next.flatten = []) : ¬ Cut s (x :: next) := by
  rw [cut_cons hx]
  rintro ⟨j, hs⟩
  have hbad : requestHead (s ++ x ++ next.flatten) = .bad := requests.bad_append next.flatten h
  generalize hstream : s ++ x ++ next.flatten = stream at hs hbad
  generalize hc : (s ++ x).length + (next.take j).flatten.length = c at hs
  cases hs with
  | name _ hname hlen =>
    rcases hw with hw | hw
    · have h6 := six_le_window (s ++ x)
      rw [← hstream, window_append (by omega)] at hname
      omega
    · rw [← hstream, hw, List.append_nil] at hlen
      omega
  | vectors hhead =>
    rw [hbad] at hhead
    cases hhead
  | later hhead =>
    rw [hbad] at hhead
    cases hhead

/-! ## A shift that is refused -/

/-- The parts of a complete shift. -/
theorem shift_of_item {n : Nat} {tms tdi : List U8}
    (h : requestHead s = .item (.shift n tms tdi) rest) :
    ∃ u, s = shiftName ++ u ∧ 4 ≤ u.length ∧ (numberWord u).toNat = n ∧ n ≤ 4096 ∧
      2 * ((n + 7) / 8) ≤ (u.drop 4).length ∧ rest = (u.drop 4).drop (2 * ((n + 7) / 8)) := by
  rcases name_cases s with ⟨u, rfl⟩ | ⟨u, rfl⟩ | ⟨u, rfl⟩ | hs
  · rw [requestHead_getinfo] at h
    cases h
  · rw [requestHead_settck, settckHead] at h
    split at h <;> cases h
  · rw [requestHead_shift, shiftHead] at h
    split at h
    · cases h
    rename_i hu
    split at h
    · cases h
    rename_i hmax
    unfold vectorsHead at h
    simp only at h
    split at h
    · cases h
    rename_i hv
    cases h
    exact ⟨u, rfl, by omega, toNat_numberWord (by omega), by omega, by omega, rfl⟩
  · rw [requestHead_other hs] at h
    split at h <;> cases h

theorem length_of_shift {n : Nat} {tms tdi : List U8}
    (h : requestHead s = .item (.shift n tms tdi) rest) :
    s.length = 10 + 2 * ((n + 7) / 8) + rest.length := by
  obtain ⟨u, rfl, hu, -, -, hv, rfl⟩ := shift_of_item h
  simp only [shiftName, List.length_append, List.length_cons, List.length_nil, List.length_drop] at *
  omega

/-- A shift of which more than the length had arrived has bits. -/
theorem shift_pos {n : Nat} {tms tdi : List U8} (hs : requestHead s = .more) (h10 : 10 < s.length)
    (h : requestHead (s ++ y) = .item (.shift n tms tdi) rest) : 0 < n := by
  have h₁ := length_of_shift h
  have h₂ := requests.length_lt_of_more hs h
  rw [List.length_append] at h₁
  omega

/-- With both vectors there and the server not enabled, an iteration ends in an error and
leaves the count of what had arrived before. -/
theorem pass_refused {n : Nat} {tms tdi : List U8}
    (h : requestHead s = .item (.shift n tms tdi) rest) (hn : 0 < n) :
    ∃ c : Conn, Path (pass b k s) [⟨.shiftEntry, false⟩] (.ok (.error, c, rest)) ∧
      c.bufferLen = k - 10 := by
  obtain ⟨u, rfl, hu, hnum, hmax, hv, rfl⟩ := shift_of_item h
  rw [pass_shift, passShift, if_neg (by omega), if_neg (by omega), passVectors]
  simp only [hnum]
  rw [if_neg (by omega)]
  have hshift : ∀ b' : Buffer, ∀ tdi, Path (doShift b' tdi 0 n) [⟨.shiftEntry, false⟩]
      (.ok (.error, b')) := by
    intro b' tdi
    have hassert : assert (bitsToBytes n ≤ 512) = .ret () := by
      rw [assert, if_pos (by rw [bitsToBytes_eq hmax]; simp; omega)]
      rfl
    rw [doShift, hassert, Prog.ret_bind, if_neg (by omega)]
    exact Path.call (S := XvcSig) (o := .shiftEntry) false (Path.ret _)
  exact ⟨_, (hshift _ _).bind (Path.ret _), rfl⟩

/-! ## The loop on a chain -/

/-- What can be told from outside after a call: the result, the connection and the bytes not
consumed. -/
def Received.summary (r : Received) : Status × Conn × List U8 := (r.status, r.conn, r.chain.flatten)

variable {fuel : Nat} {status : Status} {x : Pbuf}

/-- An iteration on a pbuf of a chain is one on all bytes of the request so far, unless it
runs into the assertion. -/
theorem iteration_chain (hs : requestHead s = .more) (hx : x ≠ []) :
    (iteration next status (after b s) x = .fail .lwipAssert ∧ (s ++ x).length < window (s ++ x) ∧
      next.flatten ≠ []) ∨
    (iteration next status (after b s) x = pass b s.length (s ++ x) ∧
      (window (s ++ x) ≤ (s ++ x).length ∨ next.flatten = [])) := by
  by_cases hn : window (s ++ x) ≤ (s ++ x).length ∨ next.flatten = []
  · exact .inr ⟨iteration_eq hs hx fun _ => hn, hn⟩
  push Not at hn
  by_cases hname : AtName s
  · exact .inl ⟨iteration_fault hname hx hn.1 hn.2, hn⟩
  · have h₁ := window_le_of_not_atName hname
    have h₂ := six_le_window s
    rw [window_append (by omega), List.length_append] at hn
    omega

/-- What a loop that starts in the vectors of a shift leaves if the shift is refused. -/
theorem receiveLoop_refused {n : Nat} {tms tdi : List U8} (hs : requestHead s = .more)
    (h10 : 10 < s.length)
    (h : requestHead (s ++ x ++ next.flatten) = .item (.shift n tms tdi) rest)
    (hfuel : x.length + next.flatten.length + next.length < fuel) (hst : status ≠ .error) :
    ∃ r, Path (receiveLoop fuel status (after b s) x next) [⟨.shiftEntry, false⟩] (.ok r) ∧
      s.length - 10 ≤ r.conn.bufferLen := by
  induction fuel generalizing s status x next with
  | zero => omega
  | succ fuel ih =>
    have hlt := requests.length_lt_of_more hs (by rwa [List.append_assoc] at h)
    rcases x with - | ⟨y₀, x⟩
    · rcases next with - | ⟨p, next⟩
      · simp at hlt
      · rw [List.append_nil] at h
        simp only [List.flatten_cons, List.length_append, List.length_nil, List.length_cons,
          ← List.append_assoc] at h hfuel
        exact ih hs h10 h (by omega) hst
    · have hname : (s ++ y₀ :: x).length ≥ window (s ++ y₀ :: x) := by
        have := window_le (s ++ y₀ :: x)
        rw [List.length_append]
        omega
      rcases @iteration_chain b s next status _ hs (show y₀ :: x ≠ [] by simp) with
        ⟨-, hw, -⟩ | ⟨hit, -⟩
      · omega
      rw [receiveLoop, hit]
      cases hhead : requestHead (s ++ y₀ :: x) with
      | more =>
        -- all of this pbuf belongs to the vectors
        rw [pass_more hhead]
        obtain ⟨r, hr, hlen⟩ := @ih (s ++ y₀ :: x) next .moreDataNeeded [] hhead
          (by rw [List.length_append]; omega) (by rwa [List.append_nil])
          (by simp at hfuel ⊢; omega) (by simp)
        rw [List.length_append] at hlen
        exact ⟨r, hr, by omega⟩
      | bad =>
        have := requests.bad_append next.flatten hhead
        exact absurd (this.symm.trans h) (by simp)
      | item q rest' =>
        have := requests.item_append next.flatten hhead
        cases this.symm.trans h
        have hpos := shift_pos hs h10 hhead
        obtain ⟨c, hc, hlen⟩ := @pass_refused b s.length _ _ _ _ _ hhead hpos
        exact ⟨_, hc.bind (Path.ret _), hlen.ge⟩

/-- How the loop goes on after an iteration. -/
def proceed (fuel : Nat) (next : List Pbuf) (z : Pass) : XvcProg Received :=
  if z.1 = .error then .ret ⟨.error, z.2.1, z.2.2 :: next⟩ else receiveLoop fuel z.1 z.2.1 z.2.2 next

theorem receiveLoop_succ {c : Conn} (hx : x ≠ []) :
    receiveLoop (fuel + 1) status c x next = iteration next status c x >>= proceed fuel next := by
  cases x with
  | nil => exact absurd rfl hx
  | cons y₀ x => rfl

/-- On a single pbuf the whole request so far is handled at once. -/
theorem receiveLoop_single (hs : requestHead s = .more) (hx : x ≠ []) :
    receiveLoop (fuel + 1) status (after b s) x [] =
      pass b s.length (s ++ x) >>= proceed fuel [] := by
  rw [receiveLoop_succ hx, iteration_eq hs hx fun _ => .inr rfl]

/-- A single pbuf never runs into an assertion. -/
theorem receiveLoop_single_ne_fail (hs : requestHead s = .more) (hst : status ≠ .error)
    (hfuel : x.length < fuel) (e : Fault) :
    receiveLoop fuel status (after b s) x [] ≠ .fail e := by
  intro h
  have hpost := (@receiveLoop_rel b s fuel status x hs hst hfuel).post
    (serveAll_post (requests.items (s ++ x)))
  rw [h] at hpost
  exact hpost

/-- How many bytes had arrived before matters only inside the vectors of a shift. -/
theorem pass_earlier {k k' : Nat}
    (h : k ≤ 10 ∧ k' ≤ 10 ∨ ¬ ∃ n tms tdi rest, requestHead s = .item (.shift n tms tdi) rest) :
    pass b k s = pass b k' s := by
  rcases name_cases s with ⟨u, rfl⟩ | ⟨u, rfl⟩ | ⟨u, rfl⟩ | hs
  · rw [pass_getinfo, pass_getinfo]
  · rw [pass_settck, pass_settck]
  · rw [pass_shift, pass_shift]
    rcases h with ⟨h₁, h₂⟩ | h
    · rw [show k - 10 = 0 by omega, show k' - 10 = 0 by omega]
    · rw [passShift, passShift]
      split
      · rfl
      rename_i hu
      split
      · rfl
      rename_i hmax
      rw [passVectors, passVectors]
      have hv : (u.drop 4).length < 2 * (((numberWord u).toNat + 7) / 8) := by
        by_contra hv
        have hhead : requestHead (shiftName ++ u) = vectorsHead (numberWord u).toNat (u.drop 4) := by
          rw [requestHead_shift, shiftHead, if_neg hu, ← toNat_numberWord (by omega), if_neg hmax]
        rw [vectorsHead, if_neg hv] at hhead
        exact h ⟨_, _, _, _, hhead⟩
      simp only [if_pos hv]
  · rw [pass_other hs, pass_other hs]

/-- **Chains.** The loop on a chain does what it does on one pbuf with the same bytes, if and
only if no pbuf ends where the stream must not be cut. -/
theorem receiveLoop_iff {fuel' : Nat} {status' : Status} (hs : requestHead s = .more)
    (hst : status ≠ .error) (hst' : status' ≠ .error)
    (hfuel : x.length + next.flatten.length + next.length < fuel)
    (hfuel' : x.length + next.flatten.length < fuel') :
    Received.summary <$> receiveLoop fuel status (after b s) x next =
      Received.summary <$> receiveLoop fuel' status' (after b s) (x ++ next.flatten) [] ↔
    ¬ Cut s (x :: next) := by
  induction fuel generalizing b s status x next fuel' status' with
  | zero => omega
  | succ fuel ih =>
    by_cases hx : x = []
    · subst hx
      rcases next with - | ⟨p, next⟩
      · obtain ⟨f', rfl⟩ := Nat.exists_eq_succ_of_ne_zero (show fuel' ≠ 0 by omega)
        refine iff_of_true ?_ not_cut_nil
        cases status <;> cases status' <;> first | rfl | contradiction
      · rw [cut_nil_cons]
        simp only [List.flatten_cons, List.length_append, List.length_nil, List.length_cons]
          at hfuel hfuel'
        exact ih hs hst hst' (by omega) (by omega)
    have hpos := List.length_pos_of_ne_nil hx
    have hxy : x ++ next.flatten ≠ [] := by simp [hx]
    rcases @iteration_chain b s next status _ hs hx with ⟨hit, hw, hy⟩ | ⟨hit, hw⟩
    · -- the assertion: a single pbuf does not fail
      refine iff_of_false ?_ (not_not.mpr ((cut_more hx).mpr (.inl ?_)))
      · intro heq
        rw [receiveLoop_succ hx, hit] at heq
        exact receiveLoop_single_ne_fail hs hst' (by rw [List.length_append]; omega) _
          (map_eq_fail heq.symm)
      · exact splits_name_of_lt (by simp [hx]) hw hy
    obtain ⟨f', rfl⟩ := Nat.exists_eq_succ_of_ne_zero (show fuel' ≠ 0 by omega)
    rw [receiveLoop_succ hx, hit, receiveLoop_single hs hxy, ← List.append_assoc]
    cases hhead : requestHead (s ++ x) with
    | more =>
      rw [pass_more hhead, Prog.ret_bind]
      change _ <$> receiveLoop fuel .moreDataNeeded (after b (s ++ x)) [] next = _ ↔ _
      rw [cut_more hx, not_or]
      have hfuel'' : next.flatten.length + next.length < fuel := by omega
      by_cases hy : next.flatten = []
      · have hnot : ¬ Splits (s ++ x ++ next.flatten) (s ++ x).length := by
          intro hsplit
          rcases splits_of_more hhead hsplit with ⟨-, hne⟩ | ⟨-, n, tms, tdi, rest, hitem⟩
          · exact hne hy
          · rw [hy, List.append_nil, hhead] at hitem
            cases hitem
        have hih : Received.summary <$> receiveLoop fuel .moreDataNeeded (after b (s ++ x)) [] next =
            Received.summary <$>
              receiveLoop f' .moreDataNeeded (after b (s ++ x)) ([] ++ next.flatten) [] ↔
            ¬ Cut (s ++ x) ([] :: next) :=
          ih hhead (by simp) (by simp) (by simpa using hfuel'') (by rw [List.length_nil]; omega)
        rw [and_iff_right hnot, ← hih, hy, List.append_nil, pass_more hhead]
        rfl
      have hih : Received.summary <$> receiveLoop fuel .moreDataNeeded (after b (s ++ x)) [] next =
          Received.summary <$>
            receiveLoop (f' + 1) .moreDataNeeded (after b (s ++ x)) ([] ++ next.flatten) [] ↔
          ¬ Cut (s ++ x) ([] :: next) :=
        ih hhead (by simp) (by simp) (by simpa using hfuel'') (by rw [List.length_nil]; omega)
      rw [List.nil_append, receiveLoop_single hhead hy] at hih
      by_cases hv : 10 < (s ++ x).length ∧
          ∃ n tms tdi rest, requestHead (s ++ x ++ next.flatten) = .item (.shift n tms tdi) rest
      · -- the count left by a refused shift differs
        obtain ⟨h10, n, tms, tdi, rest, hitem⟩ := hv
        have hlt := requests.length_lt_of_more hhead hitem
        refine iff_of_false (fun heq => ?_) fun hnot => hnot.1 (.vectors hitem h10 ?_)
        · obtain ⟨r, hr, hlen⟩ := @receiveLoop_refused b (s ++ x) rest next fuel .moreDataNeeded []
            n tms tdi hhead h10 (by rwa [List.append_nil]) (by simpa using hfuel'') (by simp)
          obtain ⟨c, hc, hlen'⟩ := @pass_refused b s.length _ _ _ _ _ hitem
            (shift_pos hhead h10 hitem)
          have hpath := (hc.bind (Path.ret (S := XvcSig) (E := Fault) _) :
            Path (pass b s.length (s ++ x ++ next.flatten) >>= proceed f' []) _ _).map
              Received.summary
          rw [← heq] at hpath
          have hsum := Path.unique (hr.map Received.summary) hpath
          have hconn : r.conn = c := by
            have := Except.ok.inj hsum
            exact congrArg (fun z => z.2.1) this
          rw [hconn, hlen', List.length_append] at hlen
          rw [List.length_append] at h10
          omega
        · rw [@List.length_append _ (s ++ x) next.flatten]
          omega
      · have hnot : ¬ Splits (s ++ x ++ next.flatten) (s ++ x).length := by
          intro hsplit
          rcases splits_of_more hhead hsplit with ⟨hlt, -⟩ | hitem
          · rcases hw with hw | hw
            · omega
            · exact hy hw
          · exact hv hitem
        have hk : pass b s.length (s ++ x ++ next.flatten) =
            pass b (s ++ x).length (s ++ x ++ next.flatten) := by
          apply pass_earlier
          by_cases h10 : 10 < (s ++ x).length
          · exact .inr fun hitem => hv ⟨h10, hitem⟩
          · rw [List.length_append] at h10 ⊢
            omega
        rw [and_iff_right hnot, ← hih, hk]
    | bad =>
      refine iff_of_true ?_ (not_cut_bad hx hhead hw)
      obtain ⟨c, p, hbad⟩ := @pass_bad b s.length _ hhead
      rcases hw with hw | hw
      · rw [pass_append (r := s ++ x) (by simp [hhead]) hw, hbad]
        simp [proceed, Received.summary, Pass.followedBy]
      · rw [hw, List.append_nil, hbad]
        simp [proceed, Received.summary, hw]
    | item q rest =>
      have hrest := requests.length_lt_of_more hs hhead
      have hloop : ∀ b', Received.summary <$> receiveLoop fuel .ok (after b' []) rest next =
          Received.summary <$> receiveLoop f' .ok (after b' []) (rest ++ next.flatten) [] ↔
          ¬ Cut [] (rest :: next) := fun b' =>
        ih rfl (by simp) (by simp) (by omega) (by omega)
      have hwin := window_le_of_item hhead
      rw [cut_item hx hhead, pass_append (r := s ++ x) (by simp [hhead]) (by omega), map_bind,
        bind_map_left, map_bind]
      constructor
      · intro heq
        -- the request may succeed, and then the rest decides
        obtain ⟨tr, hserve⟩ := (cooperative_cooperativeEnv fun _ => 0).serve q []
        obtain ⟨⟨st, c, p⟩, hexec, hst, ⟨-, hp, b', hc⟩ | hst'⟩ :=
          (@pass_item b s.length _ _ _ hhead).exec _ hserve
        · obtain ⟨evs, -, hpath, -⟩ := exec_path (cooperativeEnv fun _ => 0)
            (pass b s.length (s ++ x)) []
          rw [hexec] at hpath
          obtain rfl : st = .ok := hst
          obtain rfl : c = after b' [] := hc
          obtain rfl : p = rest := hp
          have := bind_left_cancel hpath heq
          exact (hloop b').mp this
        · cases hst'
      · intro hcut
        refine ((pass_item hhead).post (serve_post q)).bind_congr ?_
        rintro ⟨st, c, p⟩ ⟨_, ⟨rfl, ⟨rfl, hp, b', hc⟩ | rfl⟩, -⟩
        · obtain rfl : c = after b' [] := hc
          obtain rfl : p = rest := hp
          exact (hloop b').mpr hcut
        · simp [proceed, Received.summary, Pass.followedBy]

/-! ## Every reachable connection -/

/-- `Reached c stream`: the connection is in state `c` after the bytes `stream` were received,
by calls on chains of any shape and in any surroundings, none of which ended in an error. -/
inductive Reached : Conn → List U8 → Prop
  | reset (c : Conn) : Reached c.reset []
  | receive {c : Conn} {stream : List U8} {p : Pbuf} {next : List Pbuf} {env : Env XvcSig}
      {tr tr' : List (Event XvcSig)} {r : Received} (h : Reached c stream)
      (hrun : exec env (handleReceive c p next) tr = (.ok r, tr')) (hok : r.status ≠ .error) :
      Reached r.conn (stream ++ (p :: next).flatten)

/-- The loop keeps the connection in a state that part of a request explains. -/
theorem receiveLoop_post (hs : requestHead s = .more) :
    Post (fun r => r.status = .error ∨
        ∃ b t, requests.tail (s ++ x ++ next.flatten) = some t ∧ r.conn = after b t)
      (fun _ => True) (receiveLoop fuel status (after b s) x next) := by
  induction fuel generalizing b s status x next with
  | zero => trivial
  | succ fuel ih =>
    by_cases hx : x = []
    · subst hx
      rcases next with - | ⟨p, next⟩
      · refine .inr ⟨b, s, ?_, rfl⟩
        simpa using Format.tail_more (F := requests) hs
      · have := @ih b s next status p hs
        simpa [receiveLoop, List.append_assoc] using this
    · rw [receiveLoop_succ hx]
      rcases @iteration_chain b s next status _ hs hx with ⟨hit, -, -⟩ | ⟨hit, -⟩
      · rw [hit]
        trivial
      rw [hit]
      cases hhead : requestHead (s ++ x) with
      | more =>
        rw [pass_more hhead]
        have := @ih b (s ++ x) next .moreDataNeeded [] hhead
        rwa [List.append_nil] at this
      | bad =>
        obtain ⟨c, p, hbad⟩ := @pass_bad b s.length _ hhead
        rw [hbad]
        exact .inl rfl
      | item q rest =>
        refine ((pass_item hhead).post (serve_post q)).mono (fun _ h => h) (fun _ _ => trivial)
          |>.bind ?_
        rintro ⟨st, c, p⟩ ⟨_, ⟨rfl, ⟨rfl, hp, b', hc⟩ | rfl⟩, -⟩
        · obtain rfl : c = after b' [] := hc
          obtain rfl : p = rest := hp
          have := @ih b' [] next .ok p rfl
          rwa [List.nil_append, ← Format.tail_item (F := requests)
            (requests.item_append next.flatten hhead)] at this
        · exact .inl rfl

/-- **Reachable connections.** The state is determined by the bytes of the request that is not
complete yet and the buffer at its start. -/
theorem Reached.after {c : Conn} {stream : List U8} (h : Reached c stream) :
    ∃ b s, requests.tail stream = some s ∧ c = after b s := by
  induction h with
  | reset c => exact ⟨c.buffer, [], Format.tail_more (F := requests) rfl, (after_nil c.buffer).symm⟩
  | @receive c stream p next env tr tr' r _ hrun hok ih =>
    obtain ⟨b, s, hs, rfl⟩ := ih
    obtain ⟨evs, -, hpath, -⟩ := exec_path env (handleReceive (Xvc.after b s) p next) tr
    rw [hrun] at hpath
    rcases (receiveLoop_post (Format.head_tail hs)).of_path hpath with herr | ⟨b', t, ht, hc⟩
    · exact absurd herr hok
    · refine ⟨b', t, ?_, hc⟩
      rw [Format.tail_append hs, List.flatten_cons, ← List.append_assoc, ht]

/-- Complete requests at the start of a stream do not matter for where it is cut. -/
theorem splits_tail {stream : List U8} {c : Nat} (h : requests.tail stream = some s) (y : List U8) :
    Splits (stream ++ y) (stream.length + c) ↔ Splits (s ++ y) (s.length + c) := by
  induction stream using requests.drain_induction with
  | more stream hs =>
    rw [Format.tail_more hs] at h
    cases h
    rfl
  | bad stream hs =>
    rw [Format.tail_bad hs] at h
    cases h
  | item stream q rest hs ih =>
    rw [Format.tail_item hs] at h
    obtain ⟨w, -, rfl, -⟩ := requests.split hs
    have hhead : requestHead (w ++ (rest ++ y)) = .item q (rest ++ y) := by
      rw [← List.append_assoc]
      exact requests.item_append y hs
    rw [List.append_assoc, List.length_append, Nat.add_assoc, splits_append hhead, ih h]

theorem cut_tail {stream : List U8} {chain : List Pbuf} (h : requests.tail stream = some s) :
    Cut stream chain ↔ Cut s chain := by
  unfold Cut
  simp only [splits_tail h]

/-- A chain is handled like one pbuf with all its bytes: the calls return, and in all
surroundings they do and leave the same. -/
structure Transparent (c : Conn) (p : Pbuf) (next : List Pbuf) : Prop where
  returns : ∀ env, ∃ r tr, exec env (handleReceive c p next) [] = (.ok r, tr)
  same : ∀ env, exec env (Received.summary <$> handleReceive c p next) [] =
    exec env (Received.summary <$> handleReceive c (p :: next).flatten []) []

/-- **Transparency of chains.** In every reachable state of a connection, a chain is handled like
one pbuf with all its bytes, exactly if none of its pbufs ends inside the name of a request or
inside the vectors of a shift that the chain completes. -/
theorem transparent_iff {c : Conn} {stream : List U8} {p : Pbuf} {next : List Pbuf}
    (h : Reached c stream) : Transparent c p next ↔ ¬ Cut stream (p :: next) := by
  obtain ⟨b, s, hs, rfl⟩ := h.after
  have hhead : requestHead s = .more := Format.head_tail hs
  have hiff := @receiveLoop_iff b s next ((p :: next).flatten.length + (p :: next).length + 1) .ok p
    ((p :: next).flatten.length + 1 + 1) .ok hhead (by simp) (by simp)
    (by simp only [List.flatten_cons, List.length_append, List.length_cons]; omega)
    (by simp only [List.flatten_cons, List.length_append]; omega)
  have hsingle : receiveLoop ((p :: next).flatten.length + 1 + 1) .ok (after b s)
      (p ++ next.flatten) [] = handleReceive (after b s) (p :: next).flatten [] := by
    simp [handleReceive]
  rw [cut_tail hs, ← hiff, hsingle]
  change _ ↔ Received.summary <$> handleReceive (after b s) p next = _
  constructor
  · intro ht
    have : Nonempty (Env XvcSig) := ⟨cooperativeEnv fun _ => 0⟩
    exact eq_of_exec ht.same
  · intro heq
    refine ⟨fun env => ?_, fun env => by rw [heq]⟩
    have hpost := (@handleReceive_rel b s (p :: next).flatten hhead).post (serveAll_post _)
    obtain ⟨r, tr, hr, -⟩ := hpost.exec env []
    have hmap := exec_map env Received.summary (handleReceive (after b s) p next) []
    rw [heq, exec_map, hr] at hmap
    cases hrun : exec env (handleReceive (after b s) p next) [] with
    | mk res tr' =>
      rw [hrun] at hmap
      cases res with
      | ok r' => exact ⟨r', tr', rfl⟩
      | error e => cases hmap

/-- A connection that has just been accepted. -/
def fresh : Conn := Conn.reset ⟨.notSet, fun _ => 0, 0, lengthNotSet⟩

/-- Two requests, the second of which starts in the middle of the first pbuf. -/
theorem transparent_iff_two_requests :
    Reached fresh [] ∧
    (Transparent fresh (getinfoName ++ settckName) [[1, 2], [3, 4]] ↔
      ¬ Cut [] [getinfoName ++ settckName, [1, 2], [3, 4]]) :=
  ⟨.reset _, transparent_iff (.reset _)⟩

/-- `getinfo:` in two pbufs, with two bytes in the first one: the server runs into the
assertion, where one pbuf is answered. -/
theorem not_transparent_getinfo :
    Reached fresh [] ∧
    (exec (cooperativeEnv fun _ => 0)
      (handleReceive fresh [0x67, 0x65] [[0x74, 0x69, 0x6e, 0x66, 0x6f, 0x3a]]) []).1 =
        .error .lwipAssert ∧
    (exec (cooperativeEnv fun _ => 0) (handleReceive fresh getinfoName []) []).2 =
      [⟨.netconnWrite infoStr, true⟩] ∧
    ¬ Transparent fresh [0x67, 0x65] [[0x74, 0x69, 0x6e, 0x66, 0x6f, 0x3a]] := by
  have hfault : (exec (cooperativeEnv fun _ => 0)
      (handleReceive fresh [0x67, 0x65] [[0x74, 0x69, 0x6e, 0x66, 0x6f, 0x3a]]) []).1 =
        .error .lwipAssert := rfl
  refine ⟨.reset _, hfault, rfl, fun h => ?_⟩
  obtain ⟨r, tr, hr⟩ := h.returns (cooperativeEnv fun _ => 0)
  rw [hr] at hfault
  cases hfault

end Xvc
