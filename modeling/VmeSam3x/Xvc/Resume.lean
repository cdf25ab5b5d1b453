import VmeSam3x.Xvc.Commands
import Mathlib.Data.List.GetD

/-! # Resuming the readers

The connection state after part of a request has arrived is a function of the bytes
of that part (`after`), and an iteration that continues from it does what one
iteration on all the bytes would have done (`iteration_eq`). So nothing depends on
where a request was cut, with two exceptions that `pass` and `iteration_fault` make
explicit: the counter a failed shift leaves behind, and a name that continues in the
next pbuf of a chain.
-/

namespace Xvc

open Interact Bytes Framing

/-! ## Writing to the buffer -/

namespace Buffer

variable (b : Buffer)

theorem byte_overwrite (off : Nat) (xs : List U8) {i : Nat} (hi : i < 1024) :
    byte (overwrite b off xs) i = if off ≤ i then xs.getD (i - off) (byte b i) else byte b i := by
  simp [byte, overwrite, hi]

@[simp] theorem overwrite_nil (off : Nat) : overwrite b off [] = b := by
  funext i
  simp [overwrite]

/-- Two writes one after the other are one write. -/
theorem overwrite_append (off : Nat) (xs ys : List U8) :
    overwrite (overwrite b off xs) (off + xs.length) ys = overwrite b off (xs ++ ys) := by
  funext i
  simp only [overwrite, List.getD_eq_getElem?_getD, List.getElem?_append]
  by_cases h₁ : off ≤ i.val
  · by_cases h₂ : off + xs.length ≤ i.val
    · have h₃ : ¬ i.val - off < xs.length := by omega
      have h₄ : i.val - (off + xs.length) = i.val - off - xs.length := by omega
      simp [h₁, h₂, h₃, h₄]
    · have h₃ : i.val - off < xs.length := by omega
      simp [h₁, h₂, h₃]
  · have h₂ : ¬ off + xs.length ≤ i.val := by omega
    simp [h₁, h₂]

/-- A write that covers an earlier one replaces it. -/
theorem overwrite_overwrite (off : Nat) {xs ys : List U8} (h : xs.length ≤ ys.length) :
    overwrite (overwrite b off xs) off ys = overwrite b off ys := by
  funext i
  simp only [overwrite, List.getD_eq_getElem?_getD]
  by_cases h₁ : off ≤ i.val
  · simp only [h₁, if_true]
    by_cases h₂ : i.val - off < ys.length
    · simp [h₂]
    · have h₃ : xs.length ≤ i.val - off := by omega
      simp [h₃, List.getElem?_eq_none (show ys.length ≤ i.val - off by omega)]
  · simp [h₁]

theorem copy_eq {off : Nat} {bs : List U8} (h : off + bs.length ≤ 1024) :
    copy b off bs = .ok (overwrite b off bs) := by
  rw [copy, if_pos h]

/-- Reading back what was written. -/
theorem slice_overwrite {xs : List U8} (off n : Nat) (h : off + n ≤ xs.length)
    (hx : xs.length ≤ 1024) : slice (overwrite b 0 xs) off n = (xs.drop off).take n := by
  apply List.ext_getElem
  · simp
    omega
  · intro i h₁ h₂
    simp only [length_slice] at h₁
    have h₃ : off + i < xs.length := by omega
    simp [slice, byte_overwrite b 0 xs (show off + i < 1024 by omega), h₃]

end Buffer

/-! ## Names -/

/-- How many bytes the reader of names takes of a stream, from what it begins with. -/
def window (s : List U8) : Nat :=
  if [0x67] <+: s then 8 else if [0x73, 0x65] <+: s then 7 else 6

theorem six_le_window (s : List U8) : 6 ≤ window s := by
  unfold window
  split
  · omega
  · split <;> omega

theorem window_le (s : List U8) : window s ≤ 8 := by
  unfold window
  split
  · omega
  · split <;> omega

/-- The reader with the first `t` bytes of the stream `s` in the buffer. -/
def readerAt (b : Buffer) (s : List U8) (t : Nat) : Reader :=
  ⟨s.drop t, b.overwrite 0 (s.take t), min t s.length⟩

theorem lengthLeft_eq {total received : Nat} (h : received ≤ total) (ht : total < 2 ^ 16) :
    lengthLeft total received = total - received := by
  unfold lengthLeft
  rw [show total + 2 ^ 32 - received = (total - received) + 2 ^ 32 by omega, Nat.add_mod_right,
    Nat.mod_eq_of_lt (by omega), Nat.mod_eq_of_lt (by omega)]

variable {b : Buffer} {s : List U8} {k t total : Nat} {next : List Pbuf}

/-- What a fetch copies. -/
theorem fetch_copies (hk : k ≤ total) (ht : total ≤ 8) :
    pbufCopyPartial ((readerAt b s k).pbuf :: next) (lengthLeft total (readerAt b s k).received) =
      (s.drop k ++ next.flatten).take (total - min k s.length) := by
  rw [lengthLeft_eq (by simp only [readerAt]; omega) (by omega), pbufCopyPartial_eq]
  rfl

theorem fetch_eq (hk : k ≤ total) (ht : total ≤ 8)
    (hn : total ≤ s.length ∨ next.flatten = []) :
    fetch next total (readerAt b s k) = .ok (readerAt b s total) := by
  -- nothing is taken from the next pbuf
  have hbs : (s.drop k ++ next.flatten).take (total - min k s.length) = (s.take total).drop k := by
    rcases hn with hn | hn
    · rw [List.take_append_of_le_length (by simp; omega), List.drop_take]
      congr 1
      omega
    · rw [hn, List.append_nil, List.drop_take]
      by_cases hks : k ≤ s.length
      · congr 1
        omega
      · simp [List.drop_eq_nil_of_le (show s.length ≤ k by omega)]
  have hlen : ((s.take total).drop k).length = min total s.length - k := by simp
  unfold fetch
  rw [fetch_copies hk ht, hbs]
  simp only [readerAt]
  rw [Buffer.copy_eq _ (by omega)]
  -- the bytes of two calls stand next to each other in the buffer
  have hbuf : (b.overwrite 0 (s.take k)).overwrite (min k s.length) ((s.take total).drop k) =
      b.overwrite 0 (s.take total) := by
    have h := Buffer.overwrite_append b 0 (s.take k) ((s.take total).drop k)
    rw [Nat.zero_add, List.length_take] at h
    rw [h]
    congr 1
    conv_rhs => rw [← List.take_append_drop k (s.take total)]
    rw [List.take_take, min_eq_left hk]
  -- what was copied is hidden from the pbuf
  have hhead : pbufHeader (s.drop k) ((s.take total).drop k).length = .ok (s.drop total) := by
    unfold pbufHeader
    rw [hlen, List.length_drop]
    split
    · rename_i h0
      congr 1
      by_cases hks : s.length ≤ k
      · rw [List.drop_eq_nil_of_le hks, List.drop_eq_nil_of_le (by omega)]
      · rw [show total = k by omega]
    · rw [if_pos (by omega), List.drop_drop]
      congr 1
      by_cases hts : total ≤ s.length
      · congr 1
        omega
      · rw [List.drop_eq_nil_of_le (by omega), List.drop_eq_nil_of_le (by omega)]
  have hrec : min k s.length + ((s.take total).drop k).length = min total s.length := by
    rw [hlen]
    omega
  rw [hbuf, hhead, hrec]
  rfl

/-- A fetch that reaches into the next pbuf hides more than the current one holds. -/
theorem fetch_fault (hk : k ≤ total) (ht : total ≤ 8) (hs : s.length < total)
    (hn : next.flatten ≠ []) : fetch next total (readerAt b s k) = .error .lwipAssert := by
  have hpos : 0 < next.flatten.length := List.length_pos_of_ne_nil hn
  unfold fetch
  rw [fetch_copies hk ht]
  simp only [readerAt]
  -- at least one byte comes from the next pbuf, and `pbuf_header` is told to hide it as well
  have hlen : s.length - k < ((s.drop k ++ next.flatten).take (total - min k s.length)).length := by
    simp only [List.length_take, List.length_append, List.length_drop]
    omega
  have hle : ((s.drop k ++ next.flatten).take (total - min k s.length)).length ≤ 8 := by
    simp only [List.length_take]
    omega
  rw [Buffer.copy_eq _ (by omega)]
  generalize (s.drop k ++ next.flatten).take (total - min k s.length) = bs at hlen
  have hhead : pbufHeader (s.drop k) bs.length = .error .lwipAssert := by
    rw [pbufHeader, if_neg (by omega), if_neg (by rw [List.length_drop]; omega)]
  rw [hhead]
  rfl

/-- The bytes read so far agree with a name if one is the beginning of the other. -/
theorem memcmp_readerAt (name : List U8) (hname : name.length ≤ 8) :
    (readerAt b s name.length).buffer.memcmp name (readerAt b s name.length).received =
      .ok !(decide (name <+: s ∨ s <+: name)) := by
  simp only [readerAt]
  have hle : min name.length s.length ≤ name.length := Nat.min_le_left _ _
  rw [Buffer.memcmp, if_pos (by omega)]
  have hslice : (b.overwrite 0 (s.take name.length)).slice 0 (min name.length s.length) =
      s.take name.length := by
    rw [Buffer.slice_overwrite _ _ _ (by simp) (by simp; omega), List.drop_zero,
      List.take_of_length_le (by simp)]
  rw [hslice, List.take_append_of_le_length hle]
  congr 1
  -- over the bytes that are there, equal means that one is the beginning of the other
  have hiff : s.take name.length = name.take (min name.length s.length) ↔
      name <+: s ∨ s <+: name := by
    rcases Nat.le_total name.length s.length with h | h
    · rw [min_eq_left h, List.take_length]
      constructor
      · intro he
        exact .inl (he ▸ List.take_prefix _ _)
      · rintro (hp | hp)
        · exact (List.prefix_iff_eq_take.mp hp).symm
        · rw [List.take_of_length_le (hp.length_le), hp.eq_of_length (by have := hp.length_le; omega)]
    · rw [min_eq_right h, List.take_of_length_le h]
      constructor
      · intro he
        exact .inr (he ▸ List.take_prefix _ _)
      · rintro (hp | hp)
        · rw [← hp.eq_of_length (by have := hp.length_le; omega), List.take_length]
        · exact List.prefix_iff_eq_take.mp hp
  rw [Bool.eq_iff_iff]
  simp [hiff]

/-- The arm for one name. -/
theorem matchName_eq (name : List U8) (command : Command) (hname : name.length ≤ 8)
    (ht : t ≤ name.length) (hn : name.length ≤ s.length ∨ next.flatten = []) :
    matchName next name command (readerAt b s t) = .ok (
      if name <+: s then (.ok, command, readerAt b s name.length)
      else if s <+: name then (.moreDataNeeded, .notSet, readerAt b s name.length)
      else (.error, .notSet, readerAt b s name.length)) := by
  unfold matchName
  rw [fetch_eq ht hname hn]
  simp only [bind, Except.bind, memcmp_readerAt name hname]
  by_cases h₁ : name <+: s
  · have hlen : (readerAt b s name.length).received = name.length := by
      simpa [readerAt] using h₁.length_le
    simp [h₁, hlen, pure, Except.pure]
  · by_cases h₂ : s <+: name
    · have hlen : (readerAt b s name.length).received ≠ name.length := by
        intro he
        have hle : name.length ≤ s.length := by simpa [readerAt] using he
        exact h₁ (h₂.eq_of_length (by have := h₂.length_le; omega) ▸ List.prefix_rfl)
      simp [h₁, h₂, hlen, pure, Except.pure]
    · simp [h₁, h₂, pure, Except.pure]

theorem matchName_fault (name : List U8) (command : Command) (hname : name.length ≤ 8)
    (ht : t ≤ name.length) (hs : s.length < name.length) (hn : next.flatten ≠ []) :
    matchName next name command (readerAt b s t) = .error .lwipAssert := by
  unfold matchName
  rw [fetch_fault ht hname hs hn]
  rfl

/-- What the reader of names makes of a stream. -/
def nameStatus (s : List U8) : Status × Command :=
  if getinfoName <+: s then (.ok, .getinfo)
  else if settckName <+: s then (.ok, .settck)
  else if shiftName <+: s then (.ok, .shift)
  else if BeginsName s then (.moreDataNeeded, .notSet)
  else (.error, .notSet)

theorem readShortest_eq (hk : k < s.length) (hn : 6 ≤ s.length ∨ next.flatten = []) :
    readShortest next (readerAt b s k) = .ok (readerAt b s (max k 6)) := by
  have hrec : (readerAt b s k).received = k := by
    simp only [readerAt]
    omega
  unfold readShortest
  rw [hrec]
  split
  · rw [fetch_eq (by omega) (by omega) hn, Nat.max_eq_right (by omega)]
  · rw [Nat.max_eq_left (by omega)]

theorem load_readerAt {i : Nat} (hi : i < t) (ht : t ≤ 8) :
    (readerAt b s t).buffer.load i = .ok (s.getD i (b.byte i)) := by
  rw [Buffer.load_eq _ (by omega)]
  simp only [readerAt]
  rw [Buffer.byte_overwrite _ _ _ (by omega), if_pos (Nat.zero_le i)]
  simp [hi]

theorem readCommand_eq_chooseName (hk : k < s.length) (hk8 : k ≤ 8)
    (hn : 6 ≤ s.length ∨ next.flatten = []) :
    readCommand next (readerAt b s k) =
      chooseName next (s.getD 0 (b.byte 0)) (s.getD 1 (b.byte 1)) (readerAt b s (max k 6)) := by
  have hne : (readerAt b s k).pbuf ≠ [] := by
    simp only [readerAt, ne_eq, List.drop_eq_nil_iff]
    omega
  have hrec : (readerAt b s (max k 6)).received ≠ 0 := by
    simp only [readerAt]
    omega
  unfold readCommand
  rw [if_neg hne, readShortest_eq hk hn]
  simp only [bind, Except.bind, if_neg hrec, load_readerAt (show 0 < max k 6 by omega)
    (show max k 6 ≤ 8 by omega), load_readerAt (show 1 < max k 6 by omega)
    (show max k 6 ≤ 8 by omega)]

/-- Where only one name is possible, its arm decides. -/
theorem matchName_eq_nameStatus {name : List U8} {command : Command} (hw : window s = name.length)
    (ht : t ≤ name.length) (hn : window s ≤ s.length ∨ next.flatten = [])
    (h : nameStatus s = if name <+: s then (.ok, command)
      else if s <+: name then (.moreDataNeeded, .notSet) else (.error, .notSet)) :
    matchName next name command (readerAt b s t) =
      .ok ((nameStatus s).1, (nameStatus s).2, readerAt b s (window s)) := by
  rw [matchName_eq name command (hw ▸ window_le s) ht (hw ▸ hn), h, hw]
  split
  · rfl
  · split <;> rfl

/-- **The reader of names.** As long as it stays inside the current pbuf, it reads the
window of the stream and recognises the names. -/
theorem readCommand_eq (hk : k < s.length) (hkw : k < window s)
    (hn : window s ≤ s.length ∨ next.flatten = []) :
    readCommand next (readerAt b s k) =
      .ok ((nameStatus s).1, (nameStatus s).2, readerAt b s (window s)) := by
  have h6 := six_le_window s
  have h8 := window_le s
  rw [readCommand_eq_chooseName hk (by omega) (hn.imp_left (by omega))]
  rcases s with - | ⟨x, s⟩
  · simp at hk
  rw [List.getD_cons_zero, List.getD_cons_succ]
  unfold chooseName
  by_cases hg : x = 0x67
  · -- only `getinfo:` begins like this
    have hw : window (x :: s) = getinfoName.length := by simp [window, hg, getinfoName]
    rw [if_pos hg]
    refine matchName_eq_nameStatus hw (by rw [← hw]; omega) hn ?_
    simp [nameStatus, BeginsName, settckName, shiftName, hg]
  rw [if_neg hg]
  have hg' : 0x67#8 ≠ x := Ne.symm hg
  by_cases hx : x = 0x73
  · rcases s with - | ⟨y, s⟩
    · -- a single `s`
      have hw : window [x] = 6 := by simp [window, hg']
      rw [if_pos ⟨hx, by simp [readerAt]⟩, hw, Nat.max_eq_right (by omega)]
      simp [nameStatus, BeginsName, getinfoName, settckName, shiftName, hx]
    have hrec : ¬ (readerAt b (x :: y :: s) (max k 6)).received < 2 := by
      simp only [readerAt, List.length_cons]
      omega
    rw [if_neg (fun h => hrec h.2), List.getD_cons_zero]
    by_cases hy : y = 0x65
    · have hw : window (x :: y :: s) = settckName.length := by simp [window, hx, hy, settckName]
      rw [if_pos ⟨hx, hy⟩]
      refine matchName_eq_nameStatus hw (by rw [← hw]; omega) hn ?_
      simp [nameStatus, BeginsName, getinfoName, shiftName, hx, hy]
    have hy' : 0x65#8 ≠ y := Ne.symm hy
    have hw : window (x :: y :: s) = 6 := by simp [window, hx, hy']
    rw [if_neg (fun h => hy h.2), Nat.max_eq_right (by omega)]
    by_cases hh : y = 0x68
    · rw [if_pos ⟨hx, hh⟩]
      refine matchName_eq_nameStatus hw (by simp [shiftName]) hn ?_
      simp [nameStatus, BeginsName, getinfoName, settckName, hx, hh]
    · have hh' : 0x68#8 ≠ y := Ne.symm hh
      rw [if_neg (fun h => hh h.2), hw]
      simp [nameStatus, BeginsName, getinfoName, settckName, shiftName, hx, hy', hh', hy'.symm,
        hh'.symm]
  · -- no name begins like this
    have hx' : 0x73#8 ≠ x := Ne.symm hx
    have hw : window (x :: s) = 6 := by simp [window, hg', hx']
    rw [if_neg (fun h => hx h.1), if_neg (fun h => hx h.1), if_neg (fun h => hx h.1), hw,
      Nat.max_eq_right (by omega)]
    simp [nameStatus, BeginsName, getinfoName, settckName, shiftName, hx', hg', hx'.symm, hg'.symm]

/-- A name that continues in a later pbuf of the chain runs into the assertion. -/
theorem readCommand_fault (hk : k < s.length) (hs : s.length < window s) (hn : next.flatten ≠ []) :
    readCommand next (readerAt b s k) = .error .lwipAssert := by
  have h8 := window_le s
  by_cases h6 : s.length < 6
  · have hne : (readerAt b s k).pbuf ≠ [] := by
      simp only [readerAt, ne_eq, List.drop_eq_nil_iff]
      omega
    have hrec : (readerAt b s k).received < 6 := by
      simp only [readerAt]
      omega
    unfold readCommand readShortest
    rw [if_neg hne, if_pos hrec, fetch_fault (by omega) (by omega) h6 hn]
    rfl
  · -- only the two longer names read on after six bytes
    rw [readCommand_eq_chooseName hk (by omega) (.inl (by omega))]
    unfold chooseName
    unfold window at hs
    split at hs
    · rename_i hg
      obtain ⟨u, rfl⟩ := hg
      have hfirst : ([0x67] ++ u).getD 0 (b.byte 0) = 0x67 := rfl
      rw [if_pos hfirst, matchName_fault _ _ (by decide) (by simp [getinfoName]; omega) hs hn]
    · split at hs
      · rename_i hse
        obtain ⟨u, rfl⟩ := hse
        have hrec : ¬ (readerAt b ([0x73, 0x65] ++ u) (max k 6)).received < 2 := by
          simp only [readerAt, List.length_append, List.length_cons]
          omega
        rw [if_neg (by simp), if_neg (fun h => hrec h.2), if_pos ⟨rfl, rfl⟩,
          matchName_fault _ _ (by decide) (by simp [settckName]; omega) hs hn]
      · omega

/-! ## Numbers -/

/-- A number of which only the first bytes are known yet. -/
def pad4 (u : List U8) : List U8 := u ++ List.replicate (4 - u.length) 0

theorem pad4_of_le {u : List U8} (h : 4 ≤ u.length) : pad4 u = u := by
  simp [pad4, show 4 - u.length = 0 by omega]

theorem length_pad4 {u : List U8} (h : u.length ≤ 4) : (pad4 u).length = 4 := by
  simp [pad4]
  omega

theorem byte_pad4 (b : Buffer) {i : Nat} (u : List U8) (hi : i < 4) :
    (b.overwrite 0 (pad4 u)).byte i = u.getD i 0 := by
  rw [Buffer.byte_overwrite _ _ _ (by omega), if_pos (Nat.zero_le i), pad4]
  simp only [List.getD_eq_getElem?_getD, List.getElem?_append, Nat.sub_zero]
  by_cases h : i < u.length
  · simp [h]
  · simp [h, show i - u.length < 4 - u.length by omega]

theorem word_pad4 (b : Buffer) (u : List U8) :
    (b.overwrite 0 (pad4 u)).word = word32 (u.getD 3 0) (u.getD 2 0) (u.getD 1 0) (u.getD 0 0) := by
  simp only [Buffer.word, byte_pad4 b u (show 0 < 4 by omega), byte_pad4 b u (show 1 < 4 by omega),
    byte_pad4 b u (show 2 < 4 by omega), byte_pad4 b u (show 3 < 4 by omega)]

/-- The next byte of a number is or-ed into its place, which is still zero. -/
theorem word32_or (u : List U8) (x : U8) (hu : u.length < 4) :
    word32 (u.getD 3 0) (u.getD 2 0) (u.getD 1 0) (u.getD 0 0) ||| x.setWidth 32 <<< (u.length * 8) =
      word32 ((u ++ [x]).getD 3 0) ((u ++ [x]).getD 2 0) ((u ++ [x]).getD 1 0)
        ((u ++ [x]).getD 0 0) := by
  match u, hu with
  | [], _ => exact word32_zero_or x
  | [a], _ => exact word32_one_or a x
  | [a, b], _ => exact word32_two_or b a x
  | [a, b, c], _ => exact word32_three_or c b a x

theorem setWord_pad4 (b : Buffer) (u : List U8) (hu : u.length ≤ 4) (v : List U8) (hv : v.length ≤ 4) :
    (b.overwrite 0 (pad4 u)).setWord
      (word32 (v.getD 3 0) (v.getD 2 0) (v.getD 1 0) (v.getD 0 0)) = b.overwrite 0 (pad4 v) := by
  rw [Buffer.setWord, Buffer.overwrite_overwrite _ _ (by rw [length_pad4 hu]; rfl)]
  congr 1
  simp only [byteAt_zero_word32, byteAt_one_word32, byteAt_two_word32, byteAt_three_word32]
  match v, hv with
  | [], _ => rfl
  | [_], _ => rfl
  | [_, _], _ => rfl
  | [_, _, _], _ => rfl
  | [_, _, _, _], _ => rfl

theorem readUint32Loop_eq (b : Buffer) (p : Pbuf) (u : List U8) (hu : u.length ≤ 4) :
    readUint32Loop p (b.overwrite 0 (pad4 u)) u.length =
      ⟨(u ++ p).drop 4, b.overwrite 0 (pad4 ((u ++ p).take 4)), min 4 (u ++ p).length⟩ := by
  induction p generalizing u with
  | nil => simp [readUint32Loop, List.drop_eq_nil_of_le hu, List.take_of_length_le hu, hu]
  | cons x p ih =>
    rw [readUint32Loop]
    split
    · rename_i hlt
      rw [word_pad4, word32_or u x hlt, setWord_pad4 b u hu (u ++ [x]) (by simp; omega)]
      have := ih (u ++ [x]) (by simp; omega)
      rw [List.length_append, List.length_singleton] at this
      rw [this, List.append_assoc, List.singleton_append]
    · have h4 : u.length = 4 := by omega
      simp [h4]

/-- The beginning of a number in the buffer. Before the first byte the reader clears the
place itself. -/
def Partial (b b' : Buffer) (u : List U8) : Prop :=
  b' = b.overwrite 0 (pad4 u) ∨ u = [] ∧ b' = b

/-- **The reader of numbers.** -/
theorem readUint32_eq {b' : Buffer} {u : List U8} (hb : Partial b b' u) (hu : u.length < 4)
    (p : Pbuf) :
    readUint32 ⟨p, b', u.length⟩ =
      if (u ++ p).length < 4 then
        (.moreDataNeeded, ⟨[], b.overwrite 0 (pad4 (u ++ p)), (u ++ p).length⟩)
      else (.ok, ⟨(u ++ p).drop 4, b.overwrite 0 ((u ++ p).take 4), 4⟩) := by
  have hstart : (if u.length = 0 then b'.setWord 0 else b') = b.overwrite 0 (pad4 u) := by
    have hclear : ∀ c : Buffer, c.setWord 0 = c.overwrite 0 (pad4 []) := fun _ => rfl
    rcases hb with rfl | ⟨rfl, rfl⟩
    · split
      · rename_i h0
        obtain rfl := List.eq_nil_of_length_eq_zero h0
        rw [hclear, Buffer.overwrite_overwrite _ _ (le_refl _)]
      · rfl
    · exact hclear b'
  unfold readUint32
  simp only [hstart, readUint32Loop_eq b p u (by omega)]
  by_cases h : (u ++ p).length < 4
  · rw [if_neg (by omega), if_pos h, List.drop_eq_nil_of_le (by omega),
      List.take_of_length_le (by omega), min_eq_right (by omega)]
  · rw [if_pos (by omega), if_neg h, pad4_of_le (by rw [List.length_take]; omega),
      min_eq_left (by omega)]

/-! ## Vectors -/

/-- **The reader of vectors.** The counter tells on success only how much had arrived
before. -/
theorem readShiftVector_eq {n : Nat} (hn : n ≤ 4096) (p : Pbuf) (v : List U8)
    (hv : v.length ≤ 2 * ((n + 7) / 8)) :
    readShiftVector next n ⟨p, b.overwrite 0 v, v.length⟩ = .ok (
      if (v ++ p).length < 2 * ((n + 7) / 8) then
        (.moreDataNeeded, ⟨[], b.overwrite 0 (v ++ p), (v ++ p).length⟩)
      else
        (.ok, ⟨(v ++ p).drop (2 * ((n + 7) / 8)),
          b.overwrite 0 ((v ++ p).take (2 * ((n + 7) / 8))), v.length⟩)) := by
  have hleft : lengthLeft (bitsToBytes n * 2) v.length = 2 * ((n + 7) / 8) - v.length := by
    rw [bitsToBytes_eq hn, lengthLeft_eq (by omega) (by omega)]
    omega
  have hwrite : ∀ ys, (b.overwrite 0 v).overwrite v.length ys = b.overwrite 0 (v ++ ys) := by
    intro ys
    have := Buffer.overwrite_append b 0 v ys
    rwa [Nat.zero_add] at this
  unfold readShiftVector
  simp only [hleft, pbufCopyPartial_eq, List.flatten_cons]
  rw [if_neg (by omega)]
  by_cases h : (v ++ p).length < 2 * ((n + 7) / 8)
  · -- all of the pbuf goes into the buffer
    rw [List.length_append] at h
    have hhead : pbufHeader p p.length = .ok [] := by
      unfold pbufHeader
      split
      · rename_i h0
        rw [List.eq_nil_of_length_eq_zero h0]
      · rw [if_pos (le_refl _), List.drop_length]
    rw [if_neg (by omega), List.length_append, if_pos h, List.take_left,
      Buffer.copy_eq _ (by omega), hwrite, hhead]
    rfl
  · -- the vectors are complete, and the rest of the pbuf is left for the next request
    rw [List.length_append] at h
    have hhead : pbufHeader p (2 * ((n + 7) / 8) - v.length) =
        .ok ((v ++ p).drop (2 * ((n + 7) / 8))) := by
      rw [List.drop_append, List.drop_eq_nil_of_le hv, List.nil_append]
      unfold pbufHeader
      split
      · rename_i h0
        rw [h0, List.drop_zero]
      · rw [if_pos (by omega)]
    rw [if_pos (by omega), List.length_append, if_neg h, List.take_append_of_le_length (by omega),
      Buffer.copy_eq _ (by simp; omega), hwrite, hhead, List.take_append, List.take_of_length_le hv]
    rfl

/-! ## One iteration -/

/-- The number in the first four bytes of `u`. -/
def numberWord (u : List U8) : U32 := word32 (u.getD 3 0) (u.getD 2 0) (u.getD 1 0) (u.getD 0 0)

theorem toNat_numberWord {u : List U8} (hu : 4 ≤ u.length) :
    (numberWord u).toNat = leNat (u.take 4) := by
  match u, hu with
  | x₀ :: x₁ :: x₂ :: x₃ :: u, _ =>
    change (word32 x₃ x₂ x₁ x₀).toNat = leNat [x₀, x₁, x₂, x₃]
    simp [toNat_word32, leNat]

theorem numberWord_append {u : List U8} (hu : 4 ≤ u.length) (x : List U8) :
    numberWord (u ++ x) = numberWord u := by
  simp only [numberWord, List.getD_append _ _ _ _ (show 3 < u.length by omega),
    List.getD_append _ _ _ _ (show 2 < u.length by omega),
    List.getD_append _ _ _ _ (show 1 < u.length by omega),
    List.getD_append _ _ _ _ (show 0 < u.length by omega)]

/-- The connection with the bytes `u` of the parameter of `settck:` received. -/
def afterSettck (b : Buffer) (u : List U8) : Conn :=
  ⟨.settck, b.overwrite 0 (pad4 u), u.length, lengthNotSet⟩

/-- The connection with the bytes `u` of the parameters of `shift:` received. -/
def afterShift (b : Buffer) (u : List U8) : Conn :=
  if u.length < 4 then ⟨.shift, b.overwrite 0 (pad4 u), u.length, lengthNotSet⟩
  else ⟨.shift, (b.overwrite 0 (u.take 4)).overwrite 0 (u.drop 4), u.length - 4, numberWord u⟩

/-- The connection with the bytes `s` of a request received, where the buffer was `b` at
its start. -/
def after (b : Buffer) (s : List U8) : Conn :=
  if settckName <+: s then afterSettck (b.overwrite 0 settckName) (s.drop 7)
  else if shiftName <+: s then afterShift (b.overwrite 0 shiftName) (s.drop 6)
  else ⟨.notSet, b.overwrite 0 s, s.length, lengthNotSet⟩

@[simp] theorem after_settck (b : Buffer) (u : List U8) :
    after b (settckName ++ u) = afterSettck (b.overwrite 0 settckName) u := by
  rw [after, if_pos (List.prefix_append _ _)]
  rfl

@[simp] theorem after_shift (b : Buffer) (u : List U8) :
    after b (shiftName ++ u) = afterShift (b.overwrite 0 shiftName) u := by
  rw [after, if_neg (by simp [settckName, shiftName]), if_pos (List.prefix_append _ _)]
  rfl

theorem after_other {s : List U8} (b : Buffer) (h₁ : ¬ settckName <+: s) (h₂ : ¬ shiftName <+: s) :
    after b s = ⟨.notSet, b.overwrite 0 s, s.length, lengthNotSet⟩ := by
  rw [after, if_neg h₁, if_neg h₂]

/-- The rest of an iteration, with all bytes `u` after the name. -/
def passSettck (b : Buffer) (u : List U8) : XvcProg Pass :=
  if u.length < 4 then return (.moreDataNeeded, afterSettck b u, [])
  else
    reply clockPeriod ⟨.settck, b.overwrite 0 (u.take 4), 0, lengthNotSet⟩ (u.drop 4)
      (.ok, ⟨.notSet, b.overwrite 0 (u.take 4), 0, lengthNotSet⟩, u.drop 4)

/-- The same for the vectors of a shift. A failed shift leaves the counter at what had
arrived `earlier`. -/
def passVectors (b : Buffer) (length : U32) (earlier : Nat) (v : List U8) : XvcProg Pass :=
  let m := (length.toNat + 7) / 8
  if v.length < 2 * m then return (.moreDataNeeded, ⟨.shift, b.overwrite 0 v, v.length, length⟩, [])
  else do
    let (status, b') ← doShift (b.overwrite 0 (v.take (2 * m))) m 0 length.toNat
    if status ≠ .ok then
      return (.error, ⟨.shift, b', earlier, length⟩, v.drop (2 * m))
    else
      reply (b'.slice m m) ⟨.shift, b', earlier, length⟩ (v.drop (2 * m))
        (.ok, ⟨.notSet, b', 0, lengthNotSet⟩, v.drop (2 * m))

def passShift (b : Buffer) (earlier : Nat) (u : List U8) : XvcProg Pass :=
  if u.length < 4 then return (.moreDataNeeded, afterShift b u, [])
  else if 4096 < (numberWord u).toNat then
    return (.error, ⟨.shift, b.overwrite 0 (u.take 4), 0, numberWord u⟩, u.drop 4)
  else passVectors (b.overwrite 0 (u.take 4)) (numberWord u) earlier (u.drop 4)

/-- An iteration on the bytes `s`, the first `k` of which had arrived before. -/
def pass (b : Buffer) (k : Nat) (s : List U8) : XvcProg Pass :=
  if getinfoName <+: s then
    reply infoStr ⟨.getinfo, b.overwrite 0 getinfoName, 0, lengthNotSet⟩ (s.drop 8)
      (.ok, ⟨.notSet, b.overwrite 0 getinfoName, 0, lengthNotSet⟩, s.drop 8)
  else if settckName <+: s then passSettck (b.overwrite 0 settckName) (s.drop 7)
  else if shiftName <+: s then passShift (b.overwrite 0 shiftName) (k - 10) (s.drop 6)
  else if BeginsName s then return (.moreDataNeeded, after b s, [])
  else
    return (.error, ⟨.notSet, b.overwrite 0 (s.take (window s)), min (window s) s.length,
      lengthNotSet⟩, s.drop (window s))

theorem pass_getinfo (u : List U8) :
    pass b k (getinfoName ++ u) =
      reply infoStr ⟨.getinfo, b.overwrite 0 getinfoName, 0, lengthNotSet⟩ u
        (.ok, ⟨.notSet, b.overwrite 0 getinfoName, 0, lengthNotSet⟩, u) := by
  rw [pass, if_pos (List.prefix_append _ _)]
  rfl

theorem pass_settck (u : List U8) :
    pass b k (settckName ++ u) = passSettck (b.overwrite 0 settckName) u := by
  rw [pass, if_neg (by simp [getinfoName, settckName]), if_pos (List.prefix_append _ _)]
  rfl

theorem pass_shift (u : List U8) :
    pass b k (shiftName ++ u) = passShift (b.overwrite 0 shiftName) (k - 10) u := by
  rw [pass, if_neg (by simp [getinfoName, shiftName]), if_neg (by simp [settckName, shiftName]),
    if_pos (List.prefix_append _ _)]
  rfl

theorem pass_other {s : List U8}
    (h : ¬ getinfoName <+: s ∧ ¬ settckName <+: s ∧ ¬ shiftName <+: s) :
    pass b k s =
      if BeginsName s then .ret (.moreDataNeeded, after b s, [])
      else .ret (.error, ⟨.notSet, b.overwrite 0 (s.take (window s)), min (window s) s.length,
        lengthNotSet⟩, s.drop (window s)) := by
  rw [pass, if_neg h.1, if_neg h.2.1, if_neg h.2.2]
  rfl

variable {status : Status}

theorem handleCommand_settck {b' : Buffer} {u : List U8} (hb : Partial b b' u) (hu : u.length < 4)
    (p : Pbuf) :
    handleCommand next status ⟨.settck, b', u.length, lengthNotSet⟩ p = passSettck b (u ++ p) := by
  simp only [handleCommand, Conn.reader, readUint32_eq hb hu, passSettck]
  by_cases h : (u ++ p).length < 4
  · rw [if_pos h, if_pos h]
    rfl
  · rw [if_neg h, if_neg h]
    rfl

theorem handleShift_eq {length : U32} (hl : length.toNat ≤ 4096) (v : List U8)
    (hv : v.length ≤ 2 * ((length.toNat + 7) / 8)) (p : Pbuf) :
    handleShift next ⟨.shift, b.overwrite 0 v, v.length, length⟩ p =
      passVectors b length v.length (v ++ p) := by
  simp only [handleShift, Conn.reader, passVectors, readShiftVector_eq hl p v hv,
    bitsToBytes_eq hl, Prog.ofExcept_ok, Prog.ret_bind]
  rw [if_neg (by omega)]
  by_cases h : (v ++ p).length < 2 * ((length.toNat + 7) / 8)
  · rw [if_pos h, if_pos h]
    rfl
  · rw [if_neg h, if_neg h]
    rfl

theorem handleCommand_shift_length {b' : Buffer} {u : List U8} (hb : Partial b b' u)
    (hu : u.length < 4) (p : Pbuf) :
    handleCommand next status ⟨.shift, b', u.length, lengthNotSet⟩ p = passShift b 0 (u ++ p) := by
  simp only [handleCommand, Conn.reader, readUint32_eq hb hu, passShift, if_true]
  by_cases h : (u ++ p).length < 4
  · rw [if_pos h, if_pos h, afterShift, if_pos h]
    rfl
  · rw [if_neg h, if_neg h]
    have hword : (b.overwrite 0 ((u ++ p).take 4)).word = numberWord (u ++ p) := by
      have hlen : 4 ≤ ((u ++ p).take 4).length := by
        rw [List.length_take]
        omega
      rw [← pad4_of_le hlen, word_pad4, numberWord]
      simp
    simp only [Conn.read, hword]
    by_cases hmax : 4096 < (numberWord (u ++ p)).toNat
    · rw [if_pos hmax]
      simp [handleShift, hmax]
    · -- the same iteration goes on with the vectors
      rw [if_neg hmax]
      have := @handleShift_eq (b.overwrite 0 ((u ++ p).take 4)) next (numberWord (u ++ p))
        (by omega) [] (by simp) ((u ++ p).drop 4)
      simpa using this

theorem handleCommand_shift_vectors {length : U32} (hl : length.toNat ≤ 4096) (v : List U8)
    (hv : v.length ≤ 2 * ((length.toNat + 7) / 8)) (p : Pbuf) :
    handleCommand next status ⟨.shift, b.overwrite 0 v, v.length, length⟩ p =
      passVectors b length v.length (v ++ p) := by
  have hset : length ≠ lengthNotSet := by
    rintro rfl
    simp [lengthNotSet] at hl
  simp only [handleCommand, if_neg hset]
  exact handleShift_eq hl v hv p

theorem nameStatus_more {s : List U8} {command : Command}
    (h : nameStatus s = (.moreDataNeeded, command)) :
    (¬ getinfoName <+: s ∧ ¬ settckName <+: s ∧ ¬ shiftName <+: s) ∧ BeginsName s := by
  unfold nameStatus at h
  split_ifs at h with h₁ h₂ h₃ h₄
  · cases h
  · cases h
  · cases h
  · exact ⟨⟨h₁, h₂, h₃⟩, h₄⟩
  · cases h

theorem nameStatus_error {s : List U8} {command : Command}
    (h : nameStatus s = (.error, command)) :
    (¬ getinfoName <+: s ∧ ¬ settckName <+: s ∧ ¬ shiftName <+: s) ∧ ¬ BeginsName s := by
  unfold nameStatus at h
  split_ifs at h with h₁ h₂ h₃ h₄
  · cases h
  · cases h
  · cases h
  · cases h
  · exact ⟨⟨h₁, h₂, h₃⟩, h₄⟩

/-- A beginning of a name is shorter than what the reader of names takes. -/
theorem length_lt_window {s : List U8} (hs : BeginsName s)
    (hname : ¬ getinfoName <+: s ∧ ¬ settckName <+: s ∧ ¬ shiftName <+: s) (x : List U8) :
    s.length < window (s ++ x) := by
  have h6 := six_le_window (s ++ x)
  have hlt : ∀ name, s <+: name → ¬ name <+: s → s.length < name.length := by
    intro name h₁ h₂
    by_contra hle
    exact h₂ (h₁.eq_of_length (by have := h₁.length_le; omega) ▸ List.prefix_rfl)
  have htake : ∀ name, s <+: name → s = name.take s.length := fun name h =>
    List.prefix_iff_eq_take.mp h
  -- the window of a name that has begun is at least that name
  rcases hs with h | h | h
  · have hl := hlt _ h hname.1
    by_cases h0 : s.length = 0
    · omega
    · have hw : window (s ++ x) = 8 := by
        obtain ⟨k, hk⟩ := Nat.exists_eq_succ_of_ne_zero h0
        rw [htake _ h, hk]
        simp [window, getinfoName]
      rw [hw]
      exact hl
  · have hl := hlt _ h hname.2.1
    simp only [settckName, List.length_cons, List.length_nil] at hl
    by_cases h0 : s.length < 2
    · omega
    · have hw : window (s ++ x) = 7 := by
        obtain ⟨k, hk⟩ := Nat.exists_eq_add_of_le' (Nat.le_of_not_lt h0)
        rw [htake _ h, hk]
        simp [window, settckName]
      omega
  · have hl := hlt _ h hname.2.2
    simp only [shiftName, List.length_cons, List.length_nil] at hl
    omega

theorem readerAt_name (b : Buffer) (name u : List U8) :
    readerAt b (name ++ u) name.length = ⟨u, b.overwrite 0 name, name.length⟩ := by
  simp [readerAt]

/-- Once a complete name is read, the iteration goes on with the bytes after it. -/
theorem handleCommand_name (b : Buffer) {s : List U8} {command : Command} {k : Nat}
    (h : nameStatus s = (.ok, command)) (hk : k ≤ 10) :
    handleCommand next .ok
      ⟨command, (readerAt b s (window s)).buffer, 0, lengthNotSet⟩ (readerAt b s (window s)).pbuf =
    pass b k s := by
  have hk0 : k - 10 = 0 := by omega
  rcases name_cases s with ⟨u, rfl⟩ | ⟨u, rfl⟩ | ⟨u, rfl⟩ | hs
  · rw [nameStatus, if_pos (List.prefix_append _ _)] at h
    cases h
    have hw : window (getinfoName ++ u) = getinfoName.length := by simp [window, getinfoName]
    rw [hw, readerAt_name, pass_getinfo]
    rfl
  · have h₁ : ¬ getinfoName <+: settckName ++ u := by simp [getinfoName, settckName]
    rw [nameStatus, if_neg h₁, if_pos (List.prefix_append _ _)] at h
    cases h
    have hw : window (settckName ++ u) = settckName.length := by simp [window, settckName]
    rw [hw, readerAt_name, pass_settck]
    exact handleCommand_settck (.inr ⟨rfl, rfl⟩) (by simp) u
  · have h₁ : ¬ getinfoName <+: shiftName ++ u := by simp [getinfoName, shiftName]
    have h₂ : ¬ settckName <+: shiftName ++ u := by simp [settckName, shiftName]
    rw [nameStatus, if_neg h₁, if_neg h₂, if_pos (List.prefix_append _ _)] at h
    cases h
    have hw : window (shiftName ++ u) = shiftName.length := by simp [window, shiftName]
    rw [hw, readerAt_name, pass_shift, hk0]
    exact handleCommand_shift_length (.inr ⟨rfl, rfl⟩) (by simp) u
  · rw [nameStatus, if_neg hs.1, if_neg hs.2.1, if_neg hs.2.2] at h
    split at h <;> cases h

/-- A beginning of a name lies inside what the reader of names takes. -/
theorem readerAt_window_of_beginsName (b : Buffer) {s : List U8} (hs : BeginsName s)
    (hname : ¬ getinfoName <+: s ∧ ¬ settckName <+: s ∧ ¬ shiftName <+: s) :
    readerAt b s (window s) = ⟨[], b.overwrite 0 s, s.length⟩ := by
  have hlt := length_lt_window hs hname []
  rw [List.append_nil] at hlt
  simp [readerAt, List.drop_eq_nil_of_le hlt.le, List.take_of_length_le hlt.le, hlt.le]

/-- An iteration that is still at the name. -/
theorem iteration_name {s x : List U8} (hx : x ≠ []) (hs : BeginsName s)
    (hname : ¬ getinfoName <+: s ∧ ¬ settckName <+: s ∧ ¬ shiftName <+: s)
    (hn : window (s ++ x) ≤ (s ++ x).length ∨ next.flatten = []) :
    iteration next status (after b s) x = pass b s.length (s ++ x) := by
  have hpos := List.length_pos_of_ne_nil hx
  have hread : (after b s).reader x = readerAt b (s ++ x) s.length := by
    rw [after_other b hname.2.1 hname.2.2]
    simp [Conn.reader, readerAt]
  have hcmd : (after b s).currentCommand = .notSet := by
    rw [after_other b hname.2.1 hname.2.2]
  have hlen : (after b s).shiftLength = lengthNotSet := by
    rw [after_other b hname.2.1 hname.2.2]
  have hlt := length_lt_window hs hname x
  unfold iteration
  rw [if_pos hcmd, hread, readCommand_eq (by rw [List.length_append]; omega) hlt hn]
  simp only [Prog.ofExcept_ok, Prog.ret_bind]
  have hk10 : s.length ≤ 10 := by
    have := window_le (s ++ x)
    omega
  generalize s ++ x = r at hn hlt ⊢
  cases hst : nameStatus r with
  | mk st command =>
    cases st with
    | ok =>
      rw [← handleCommand_name b hst hk10, ← hlen]
      rfl
    | moreDataNeeded =>
      obtain ⟨hr, hb⟩ := nameStatus_more hst
      simp only [readerAt_window_of_beginsName b hb hr]
      rw [pass_other hr, if_pos hb, after_other b hr.2.1 hr.2.2, after_other b hname.2.1 hname.2.2]
      rfl
    | error =>
      obtain ⟨hr, hb⟩ := nameStatus_error hst
      rw [pass_other hr, if_neg hb, after_other b hname.2.1 hname.2.2]
      rfl

/-- The name of the request is not complete yet. -/
def AtName (s : List U8) : Prop := ¬ settckName <+: s ∧ ¬ shiftName <+: s

theorem beginsName_of_more {s : List U8} (hs : requestHead s = .more)
    (hname : ¬ getinfoName <+: s ∧ ¬ settckName <+: s ∧ ¬ shiftName <+: s) : BeginsName s := by
  rw [requestHead_other hname] at hs
  by_contra h
  rw [if_neg h] at hs
  cases hs

/-- **Resuming.** From the state after part `s` of a request, an iteration does what it
would do with all bytes from the start of the request on. -/
theorem iteration_eq {s x : List U8} (hs : requestHead s = .more) (hx : x ≠ [])
    (hn : AtName s → window (s ++ x) ≤ (s ++ x).length ∨ next.flatten = []) :
    iteration next status (after b s) x = pass b s.length (s ++ x) := by
  rcases name_cases s with ⟨u, rfl⟩ | ⟨u, rfl⟩ | ⟨u, rfl⟩ | hname
  · simp at hs
  · -- the name is known, the number is not complete
    have hu : u.length < 4 := by
      rw [requestHead_settck, settckHead] at hs
      by_contra h
      rw [if_neg h] at hs
      cases hs
    rw [iteration, after_settck, if_neg (by simp [afterSettck]), List.append_assoc, pass_settck]
    exact handleCommand_settck (.inl rfl) hu x
  · rw [requestHead_shift, shiftHead] at hs
    rw [iteration, after_shift, List.append_assoc, pass_shift]
    by_cases hu : u.length < 4
    · have hk : (shiftName ++ u).length - 10 = 0 := by
        simp [shiftName]
        omega
      rw [afterShift, if_pos hu, if_neg (by simp), hk]
      exact handleCommand_shift_length (.inl rfl) hu x
    · -- the number is known as well, the vectors are not complete
      have hk : (shiftName ++ u).length - 10 = (u.drop 4).length := by
        simp [shiftName]
      rw [if_neg hu] at hs
      split at hs
      · cases hs
      rename_i hmax
      have hlt : (u.drop 4).length < 2 * ((leNat (u.take 4) + 7) / 8) := by
        unfold vectorsHead at hs
        by_contra h
        simp only [h, if_false] at hs
        cases hs
      rw [← toNat_numberWord (by omega)] at hmax hlt
      rw [afterShift, if_neg hu, if_neg (by simp), hk, ← List.length_drop,
        handleCommand_shift_vectors (by omega) _ hlt.le]
      rw [passShift, numberWord_append (by omega), if_neg (by rw [List.length_append]; omega), if_neg hmax,
        List.take_append_of_le_length (by omega), List.drop_append_of_le_length (by omega)]
  · exact iteration_name hx (beginsName_of_more hs hname) hname (hn hname.2)

/-- A name cut by the end of a pbuf that others with data follow. -/
theorem iteration_fault {s x : List U8} (hname : AtName s) (hx : x ≠ [])
    (hw : (s ++ x).length < window (s ++ x)) (hn : next.flatten ≠ []) :
    iteration next status (after b s) x = .fail .lwipAssert := by
  have hpos := List.length_pos_of_ne_nil hx
  rw [after_other b hname.1 hname.2, iteration, if_pos rfl]
  have hread : (Conn.mk .notSet (b.overwrite 0 s) s.length lengthNotSet).reader x =
      readerAt b (s ++ x) s.length := by
    simp [Conn.reader, readerAt]
  rw [hread, readCommand_fault (by rw [List.length_append]; omega) hw hn]
  rfl

end Xvc
