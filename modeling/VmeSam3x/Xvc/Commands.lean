import VmeSam3x.Lib.Framing
import VmeSam3x.Xvc.Receive

/-! # The commands of a stream

What the bytes of a connection mean, without buffers, counters and deliveries: a
stream is a sequence of requests, each with its parameters, and every request is
answered by one reply. This is what the server of `Xvc.Receive` is compared with.
-/

namespace Xvc

open Interact Bytes Framing

/-- A request with its parameters. -/
inductive Request where
  | getinfo
  | settck (period : List U8)
  | shift (length : Nat) (tms tdi : List U8)
deriving DecidableEq

/-- The number with the given bytes, the least significant one first. -/
def leNat : List U8 → Nat
  | [] => 0
  | x :: xs => x.toNat + 256 * leNat xs

/-! ## The format of a stream -/

/-- The parameter of `settck:`. -/
def settckHead (u : List U8) : Head U8 Request :=
  if u.length < 4 then .more else .item (.settck (u.take 4)) (u.drop 4)

/-- The two vectors of a shift of `n` bits. -/
def vectorsHead (n : Nat) (v : List U8) : Head U8 Request :=
  let m := (n + 7) / 8
  if v.length < 2 * m then .more
  else .item (.shift n (v.take m) ((v.drop m).take m)) (v.drop (2 * m))

/-- The parameters of `shift:`. -/
def shiftHead (u : List U8) : Head U8 Request :=
  if u.length < 4 then .more
  else if 4096 < leNat (u.take 4) then .bad
  else vectorsHead (leNat (u.take 4)) (u.drop 4)

/-- The stream is the beginning of the name of a command. -/
def BeginsName (s : List U8) : Prop := s <+: getinfoName ∨ s <+: settckName ∨ s <+: shiftName

instance : DecidablePred BeginsName := fun s =>
  inferInstanceAs (Decidable (s <+: getinfoName ∨ s <+: settckName ∨ s <+: shiftName))

/-- The first request of a stream. -/
def requestHead (s : List U8) : Head U8 Request :=
  if getinfoName <+: s then .item .getinfo (s.drop 8)
  else if settckName <+: s then settckHead (s.drop 7)
  else if shiftName <+: s then shiftHead (s.drop 6)
  else if BeginsName s then .more
  else .bad

/-- A stream that begins with a name is that name and what follows. -/
theorem eq_append_of_prefix {name s : List U8} (h : name <+: s) : s = name ++ s.drop name.length := by
  obtain ⟨t, rfl⟩ := h
  simp

@[simp] theorem requestHead_getinfo (u : List U8) :
    requestHead (getinfoName ++ u) = .item .getinfo u := by
  rw [requestHead, if_pos (List.prefix_append _ _)]
  rfl

@[simp] theorem requestHead_settck (u : List U8) : requestHead (settckName ++ u) = settckHead u := by
  rw [requestHead, if_neg (by simp [getinfoName, settckName]), if_pos (List.prefix_append _ _)]
  rfl

@[simp] theorem requestHead_shift (u : List U8) : requestHead (shiftName ++ u) = shiftHead u := by
  rw [requestHead, if_neg (by simp [getinfoName, shiftName]),
    if_neg (by simp [settckName, shiftName]), if_pos (List.prefix_append _ _)]
  rfl

/-- A stream begins with one of the three names, is the beginning of one, or neither. -/
theorem name_cases (s : List U8) :
    (∃ u, s = getinfoName ++ u) ∨ (∃ u, s = settckName ++ u) ∨ (∃ u, s = shiftName ++ u) ∨
    (¬ getinfoName <+: s ∧ ¬ settckName <+: s ∧ ¬ shiftName <+: s) := by
  by_cases h₁ : getinfoName <+: s
  · exact .inl ⟨_, eq_append_of_prefix h₁⟩
  by_cases h₂ : settckName <+: s
  · exact .inr (.inl ⟨_, eq_append_of_prefix h₂⟩)
  by_cases h₃ : shiftName <+: s
  · exact .inr (.inr (.inl ⟨_, eq_append_of_prefix h₃⟩))
  · exact .inr (.inr (.inr ⟨h₁, h₂, h₃⟩))

theorem requestHead_other {s : List U8}
    (h : ¬ getinfoName <+: s ∧ ¬ settckName <+: s ∧ ¬ shiftName <+: s) :
    requestHead s = if BeginsName s then .more else .bad := by
  rw [requestHead, if_neg h.1, if_neg h.2.1, if_neg h.2.2]

/-- The laws of a format, for a part of it. -/
structure Lawful (head : List U8 → Head U8 Request) : Prop where
  split : ∀ {s a rest}, head s = .item a rest → ∃ w, s = w ++ rest ∧ head w = .item a []
  item_append : ∀ {s a rest} (t), head s = .item a rest → head (s ++ t) = .item a (rest ++ t)
  bad_append : ∀ {s} (t), head s = .bad → head (s ++ t) = .bad

theorem lawful_settckHead : Lawful settckHead where
  split := by
    intro s a rest h
    unfold settckHead at h
    split at h
    · cases h
    · rename_i hlen
      cases h
      refine ⟨s.take 4, (List.take_append_drop 4 s).symm, ?_⟩
      rw [settckHead, if_neg (by rw [List.length_take]; omega)]
      simp
  item_append := by
    intro s a rest t h
    unfold settckHead at h ⊢
    split at h
    · cases h
    · rename_i hlen
      cases h
      rw [if_neg (by simp; omega), List.take_append_of_le_length (by omega),
        List.drop_append_of_le_length (by omega)]
  bad_append := by
    intro s t h
    unfold settckHead at h
    split at h <;> cases h

theorem lawful_vectorsHead (n : Nat) : Lawful (vectorsHead n) where
  split := by
    intro s a rest h
    unfold vectorsHead at h
    simp only at h
    split at h
    · cases h
    · rename_i hlen
      cases h
      refine ⟨s.take (2 * ((n + 7) / 8)), (List.take_append_drop _ s).symm, ?_⟩
      have hnil : (s.take (2 * ((n + 7) / 8))).drop (2 * ((n + 7) / 8)) = [] :=
        List.drop_eq_nil_of_le (by simp)
      unfold vectorsHead
      simp only
      rw [if_neg (by rw [List.length_take]; omega), hnil, List.take_take, List.drop_take,
        List.take_take, min_eq_left (by omega), min_eq_left (by omega)]
  item_append := by
    intro s a rest t h
    unfold vectorsHead at h ⊢
    simp only at h ⊢
    split at h
    · cases h
    · rename_i hlen
      cases h
      rw [if_neg (by simp; omega), List.take_append_of_le_length (by omega),
        List.drop_append_of_le_length (by omega), List.drop_append_of_le_length (by omega),
        List.take_append_of_le_length (by simp; omega)]
  bad_append := by
    intro s t h
    unfold vectorsHead at h
    simp only at h
    split at h <;> cases h

theorem lawful_shiftHead : Lawful shiftHead where
  split := by
    intro s a rest h
    unfold shiftHead at h
    split at h
    · cases h
    · rename_i hlen
      split at h
      · cases h
      · rename_i hn
        obtain ⟨w, hw, hhead⟩ := (lawful_vectorsHead _).split h
        refine ⟨s.take 4 ++ w, by rw [List.append_assoc, ← hw, List.take_append_drop], ?_⟩
        have hlen' : (s.take 4).length = 4 := by
          rw [List.length_take]
          omega
        rw [shiftHead, if_neg (by rw [List.length_append]; omega),
          List.take_append_of_le_length hlen'.ge, List.drop_append_of_le_length hlen'.ge,
          List.take_of_length_le hlen'.le, List.drop_eq_nil_of_le hlen'.le, if_neg hn]
        exact hhead
  item_append := by
    intro s a rest t h
    unfold shiftHead at h ⊢
    split at h
    · cases h
    · rename_i hlen
      rw [if_neg (by simp; omega), List.take_append_of_le_length (by omega),
        List.drop_append_of_le_length (by omega)]
      split at h
      · cases h
      · rename_i hn
        rw [if_neg hn]
        exact (lawful_vectorsHead _).item_append t h
  bad_append := by
    intro s t h
    unfold shiftHead at h ⊢
    split at h
    · cases h
    · rename_i hlen
      rw [if_neg (by simp; omega), List.take_append_of_le_length (by omega),
        List.drop_append_of_le_length (by omega)]
      split at h
      · rename_i hn
        rw [if_pos hn]
      · rename_i hn
        rw [if_neg hn]
        exact (lawful_vectorsHead _).bad_append t h

/-- What does not begin a name does not come to begin or be one by growing. -/
theorem not_name_append {s : List U8}
    (h : ¬ getinfoName <+: s ∧ ¬ settckName <+: s ∧ ¬ shiftName <+: s) (hb : ¬ BeginsName s)
    (t : List U8) :
    (¬ getinfoName <+: s ++ t ∧ ¬ settckName <+: s ++ t ∧ ¬ shiftName <+: s ++ t) ∧
      ¬ BeginsName (s ++ t) := by
  have hname : ∀ name, ¬ name <+: s → ¬ s <+: name → ¬ name <+: s ++ t := by
    intro name h₁ h₂ h₃
    rcases List.prefix_or_prefix_of_prefix h₃ (List.prefix_append s t) with h | h
    · exact h₁ h
    · exact h₂ h
  unfold BeginsName at hb
  push Not at hb
  obtain ⟨h₁, h₂, h₃⟩ := h
  refine ⟨⟨hname _ h₁ hb.1, hname _ h₂ hb.2.1, hname _ h₃ hb.2.2⟩, ?_⟩
  have hs := List.prefix_append s t
  rintro (h | h | h)
  · exact hb.1 (hs.trans h)
  · exact hb.2.1 (hs.trans h)
  · exact hb.2.2 (hs.trans h)

/-- The format of the stream of a connection. -/
def requests : Format U8 Request where
  head := requestHead
  split := by
    intro s a rest h
    rcases name_cases s with ⟨u, rfl⟩ | ⟨u, rfl⟩ | ⟨u, rfl⟩ | hs
    · rw [requestHead_getinfo] at h
      cases h
      exact ⟨getinfoName, by simp [getinfoName], rfl, by simpa using requestHead_getinfo []⟩
    · rw [requestHead_settck] at h
      obtain ⟨w, rfl, hw⟩ := lawful_settckHead.split h
      exact ⟨settckName ++ w, by simp [settckName], by simp, by rw [requestHead_settck, hw]⟩
    · rw [requestHead_shift] at h
      obtain ⟨w, rfl, hw⟩ := lawful_shiftHead.split h
      exact ⟨shiftName ++ w, by simp [shiftName], by simp, by rw [requestHead_shift, hw]⟩
    · rw [requestHead_other hs] at h
      split at h <;> cases h
  item_append := by
    intro s a rest t h
    rcases name_cases s with ⟨u, rfl⟩ | ⟨u, rfl⟩ | ⟨u, rfl⟩ | hs
    · rw [requestHead_getinfo] at h
      cases h
      rw [List.append_assoc, requestHead_getinfo]
    · rw [requestHead_settck] at h
      rw [List.append_assoc, requestHead_settck, lawful_settckHead.item_append t h]
    · rw [requestHead_shift] at h
      rw [List.append_assoc, requestHead_shift, lawful_shiftHead.item_append t h]
    · rw [requestHead_other hs] at h
      split at h <;> cases h
  bad_append := by
    intro s t h
    rcases name_cases s with ⟨u, rfl⟩ | ⟨u, rfl⟩ | ⟨u, rfl⟩ | hs
    · simp at h
    · rw [requestHead_settck] at h
      rw [List.append_assoc, requestHead_settck, lawful_settckHead.bad_append t h]
    · rw [requestHead_shift] at h
      rw [List.append_assoc, requestHead_shift, lawful_shiftHead.bad_append t h]
    · rw [requestHead_other hs] at h
      split at h
      · cases h
      · rename_i hb
        obtain ⟨hs', hb'⟩ := not_name_append hs hb t
        rw [requestHead_other hs', if_neg hb']

/-! ## Serving a request -/

/-- The bytes of the TDO vector of `n` samples. -/
def tdoBytes (n : Nat) (ts : List Bool) : List U8 := (List.range ((n + 7) / 8)).map (tdoByte ts)

def sendReply (payload : List U8) : XvcProg Status := do
  if (← op (.netconnWrite payload)) then return .ok else return .error

/-- Serve one request: a shift of `n` bits is the ideal shift of its vectors, answered by
the samples; with no bits there is no shift and the reply is empty. -/
def Request.serve : Request → XvcProg Status
  | .getinfo => sendReply infoStr
  | .settck _ => sendReply clockPeriod
  | .shift 0 _ _ => sendReply []
  | .shift n tms tdi => do
    let (status, samples) ← idealShift (vectorBit fun k => tdi.getD k 0)
      (vectorBit fun k => tms.getD k 0) n
    match status with
    | .ok => sendReply (tdoBytes n (samples.getD []))
    | _ => return .error

/-- Serve requests one after the other until one fails. -/
def serveAll : List Request → XvcProg Status
  | [] => return .ok
  | q :: qs => do
    match ← q.serve with
    | .ok => serveAll qs
    | status => return status

end Xvc
