import VmeSam3x.Serial.Monitor

/-! # The line editor as a bounded stack

`serial_editline` keeps the line in the array up to the position, without a terminator until the
end. The characters typed so far act on it as on a stack that holds one character less than the
array.
-/

namespace Serial

open Interact Bytes CString Flash

/-! ## The stack -/

/-- What a character does to a stack of at most `cap` characters. -/
def typeChar (cap : Nat) (held : List U8) (c : U8) : List U8 :=
  if isprint c then
    if held.length < cap then held ++ [c] else held
  else if c = 0x08 then held.dropLast
  else held

/-- The stack after all of them. -/
def typeChars (cap : Nat) (held cs : List U8) : List U8 := cs.foldl (typeChar cap) held

/-- The array and the position hold the stack. -/
structure Edited {len : Nat} (held : List U8) (i : Int) (s : Chars len) : Prop where
  position : i = held.length
  fits : held.length < len
  stored : held <+: List.ofFn s
  nonzero : 0 ∉ held

variable {len : Nat} {s : Chars len} {held : List U8} {i : Int} {bus : Env Spi} {w : World}
  {α : Type}

theorem Edited.range (h : Edited held i s) : 0 ≤ i ∧ i ≤ (len : Int) - 1 := by
  have hpos := h.position
  have hfits := h.fits
  omega

/-! ## One character -/

/-- The insertion pushes a printable character unless the stack is full. -/
theorem run_insertChar (bus : Env Spi) (w : World) (h : Edited held i s) (c : U8)
    (f : Int × Chars len → MonitorProg α) :
    ∃ i' s', Edited (if isprint c ∧ held.length < len - 1 then held ++ [c] else held) i' s' ∧
      Prog.run (world bus) (insertChar c i s >>= f) w = Prog.run (world bus) (f (i', s')) w := by
  have hpos := h.position
  have hfits := h.fits
  unfold insertChar
  by_cases hroom : i < (len : Int) - 1
  · rw [if_pos hroom]
    by_cases hc : isprint c = true
    · have hlt : held.length < len - 1 := by omega
      have hstore : store s i c = some (Function.update s ⟨held.length, hfits⟩ c) := by
        rw [hpos]
        exact store_of_lt hfits c
      -- the position is below the last place, which is left for the terminator
      rw [if_pos hc, if_pos ⟨hc, hlt⟩, hstore]
      refine ⟨i + 1, Function.update s ⟨held.length, hfits⟩ c, ⟨?_, ?_, ?_, ?_⟩, rfl⟩
      · rw [List.length_append, List.length_singleton, hpos]
        rfl
      · rw [List.length_append, List.length_singleton]
        omega
      · rw [ofFn_update]
        exact prefix_set h.stored (by simpa using hfits) c
      · intro hmem
        rcases List.mem_append.mp hmem with hmem | hmem
        · exact h.nonzero hmem
        · exact isprint_ne_zero hc (List.mem_singleton.mp hmem).symm
    · rw [if_neg hc, if_neg fun hand => hc hand.1]
      exact ⟨i, s, h, rfl⟩
  · -- the line is full
    have hfull : ¬ held.length < len - 1 := by omega
    rw [if_neg hroom, if_neg fun hand => hfull hand.2]
    exact ⟨i, s, h, rfl⟩

/-- The backspace pops unless the stack is empty. -/
theorem run_eraseChar (bus : Env Spi) (w : World) (h : Edited held i s) (c : U8)
    (f : Int → MonitorProg α) :
    ∃ i', Edited (if c = 0x08 then held.dropLast else held) i' s ∧
      Prog.run (world bus) (eraseChar c i >>= f) w = Prog.run (world bus) (f i') w := by
  have hpos := h.position
  have hfits := h.fits
  unfold eraseChar
  by_cases hc : c = 0x08
  · rw [if_pos hc, if_pos hc]
    by_cases hi : i > 0
    · rw [if_pos hi]
      refine ⟨i - 1, ⟨?_, ?_, ?_, ?_⟩, rfl⟩
      · rw [List.length_dropLast]
        omega
      · rw [List.length_dropLast]
        omega
      · have hinit := List.dropLast_prefix held
        exact hinit.trans h.stored
      · exact fun hmem => h.nonzero (List.mem_of_mem_dropLast hmem)
    · -- the line is empty
      have hnil : held = [] := List.eq_nil_of_length_eq_zero (by omega)
      rw [if_neg hi]
      subst hnil
      exact ⟨i, h, rfl⟩
  · rw [if_neg hc, if_neg hc]
    exact ⟨i, h, rfl⟩

/-- One pass of the loop is one step of the stack. -/
theorem run_editPass (bus : Env Spi) (w : World) (h : Edited held i s) (c : U8)
    (f : Int × Chars len → MonitorProg α) :
    ∃ i' s', Edited (typeChar (len - 1) held c) i' s' ∧
      Prog.run (world bus) (editPass c i s >>= f) w = Prog.run (world bus) (f (i', s')) w := by
  unfold editPass
  simp only [bind_assoc]
  rcases run_insertChar bus w h c
    (fun r => eraseChar c r.1 >>= fun i => pure (i, r.2) >>= f) with ⟨i', s', h', hrun'⟩
  rcases run_eraseChar bus w h' c (fun i => pure (i, s') >>= f)
    with ⟨i'', h'', hrun''⟩
  refine ⟨i'', s', ?_, hrun'.trans hrun''⟩
  have hstep : (if c = 0x08 then
        (if isprint c ∧ held.length < len - 1 then held ++ [c] else held).dropLast
      else if isprint c ∧ held.length < len - 1 then held ++ [c] else held) =
      typeChar (len - 1) held c := by
    unfold typeChar
    by_cases hp : isprint c = true
    · -- a character that is pushed is no backspace
      have hne : c ≠ 0x08 := by
        intro hc
        rw [hc] at hp
        exact absurd hp (by decide)
      rw [if_neg hne, if_pos hp]
      simp [hp]
    · simp [hp]
  rw [hstep] at h''
  exact h''

/-! ## The loop -/

variable {tr : List (Event Spi)}

/-- After characters that do not stop it, the loop goes on with the stack they leave. -/
theorem run_editLoop (bus : Env Spi) (tr : List (Event Spi)) (h : Edited held i s) {cs : List U8}
    (hcs : ∀ c ∈ cs, stops c = false) (rounds : Nat) (more : List U8) :
    ∃ i' s', Edited (typeChars (len - 1) held cs) i' s' ∧
      Prog.run (world bus) (editLoop (cs.length + rounds) i s) ⟨cs ++ more, tr⟩ =
        Prog.run (world bus) (editLoop rounds i' s') ⟨more, tr⟩ := by
  induction cs generalizing held i s with
  | nil =>
    rw [List.length_nil, Nat.zero_add]
    exact ⟨i, s, h, rfl⟩
  | cons c rest ih =>
    have hc : stops c = false := hcs c List.mem_cons_self
    rcases run_editPass bus ⟨rest ++ more, tr⟩ h c
      (fun r => if stops c then pure (c, r.1, r.2) else editLoop (rest.length + rounds) r.1 r.2)
      with ⟨i₁, s₁, h₁, hrun₁⟩
    rcases ih h₁ fun d hd => hcs d (List.mem_cons_of_mem c hd) with ⟨i', s', h', hrun'⟩
    refine ⟨i', s', h', ?_⟩
    rw [List.length_cons, Nat.add_right_comm, editLoop, List.cons_append, run_getchar_cons]
    refine hrun₁.trans ?_
    rw [hc]
    exact hrun'

/-- The characters that stop the loop leave the stack as it is. -/
theorem typeChar_of_stops {c : U8} (hc : stops c = true) (cap : Nat) (held : List U8) :
    typeChar cap held c = held := by
  have hcases : c = 0x03 ∨ c = 0x0d ∨ c = 0x0a := by
    simpa [stops, or_assoc] using hc
  rcases hcases with rfl | rfl | rfl <;> rfl

theorem run_editLoop_stop (bus : Env Spi) (tr : List (Event Spi)) (h : Edited held i s) {c : U8}
    (hc : stops c = true) (rounds : Nat) (rest : List U8) :
    ∃ i' s', Edited held i' s' ∧
      Prog.run (world bus) (editLoop (rounds + 1) i s) ⟨c :: rest, tr⟩ =
        (.ok (c, i', s'), ⟨rest, tr⟩) := by
  rcases run_editPass bus ⟨rest, tr⟩ h c
    (fun r => if stops c then pure (c, r.1, r.2) else editLoop rounds r.1 r.2)
    with ⟨i', s', h', hrun⟩
  rw [typeChar_of_stops hc] at h'
  refine ⟨i', s', h', ?_⟩
  rw [editLoop, run_getchar_cons]
  refine hrun.trans ?_
  rw [hc]
  rfl

/-! ## The whole editor -/

/-- The echo of a string ends at its terminator. -/
theorem run_echo {str t : List U8} (hne : 0 ∉ str) (k : Nat) (f : Nat → MonitorProg α) :
    Prog.run (world bus) (echo (str ++ 0 :: t) k >>= f) w =
      Prog.run (world bus) (f (k + str.length)) w := by
  induction str generalizing k with
  | nil => rfl
  | cons c rest ih =>
    have hc : c ≠ 0 := fun h0 => hne (h0 ▸ List.mem_cons_self)
    have hrest : 0 ∉ rest := fun hmem => hne (List.mem_cons_of_mem c hmem)
    rw [List.cons_append, echo, if_neg hc]
    change Prog.run (world bus) (putchar c >>= fun _ => echo (rest ++ 0 :: t) (k + 1) >>= f) w = _
    rw [run_putchar, ih hrest, List.length_cons, Nat.add_right_comm, Nat.add_assoc]

/-- The array of a string, with the position at its end. -/
theorem Edited.ofHolds {str : List U8} (h : Holds s str) : Edited str (str.length : Int) s :=
  ⟨rfl, h.lt, (List.prefix_append str [0]).trans h.2, h.1⟩

/-- The terminator makes a string of the stack. -/
theorem Edited.terminate (h : Edited held i s) :
    ∃ s', store s i 0 = some s' ∧ Holds s' held := by
  rcases h with ⟨rfl, hfits, hstored, hnonzero⟩
  refine ⟨Function.update s ⟨held.length, hfits⟩ 0, store_of_lt hfits 0, hnonzero, ?_⟩
  rw [ofFn_update]
  exact prefix_set hstored (by simpa using hfits) 0

/-- A run of the editor up to the first character that stops it. -/
theorem run_serialEditline (bus : Env Spi) (tr : List (Event Spi)) {str : List U8}
    (hs : Holds s str) {pre : List U8} (hpre : ∀ d ∈ pre, stops d = false) {c : U8}
    (hc : stops c = true) (rest : List U8) {rounds : Nat} (hrounds : pre.length < rounds) :
    ∃ s', Prog.run (world bus) (serialEditline rounds s) ⟨pre ++ c :: rest, tr⟩ =
        (.ok (if c = 0x03 then -1 else ((typeChars (len - 1) str pre).length : Int), s'),
          ⟨rest, tr⟩) ∧
      Holds s' (typeChars (len - 1) str pre) := by
  rcases hs.2 with ⟨t, ht⟩
  rcases Nat.exists_eq_add_of_lt hrounds with ⟨k, rfl⟩
  rcases run_editLoop bus tr (Edited.ofHolds hs) hpre (k + 1) (c :: rest)
    with ⟨i₁, s₁, h₁, hrun₁⟩
  rcases run_editLoop_stop bus tr h₁ hc k rest with ⟨i₂, s₂, h₂, hrun₂⟩
  rcases h₂.terminate with ⟨s', hstore, hholds⟩
  refine ⟨s', ?_, hholds⟩
  unfold serialEditline
  rw [← ht, List.append_assoc, List.singleton_append, run_echo hs.1, Nat.zero_add,
    Prog.run_bind, Nat.add_assoc, hrun₁, hrun₂]
  change Prog.run (world bus) (inArray (store s₂ i₂ 0) >>= _) _ = _
  rw [hstore, h₂.position]
  change Prog.run (world bus) (if c = 0x03 then _ else _) _ = _
  split <;> rfl

/-- Without such a character the editor stays in `getchar`. -/
theorem run_serialEditline_blocked (bus : Env Spi) (tr : List (Event Spi)) {str : List U8}
    (hs : Holds s str) {input : List U8} (hinput : ∀ d ∈ input, stops d = false) {rounds : Nat}
    (hrounds : input.length < rounds) :
    Prog.run (world bus) (serialEditline rounds s) ⟨input, tr⟩ = (.error .blocked, ⟨[], tr⟩) := by
  rcases hs.2 with ⟨t, ht⟩
  rcases Nat.exists_eq_add_of_lt hrounds with ⟨k, rfl⟩
  rcases run_editLoop bus tr (Edited.ofHolds hs) hinput (k + 1) []
    with ⟨i', s', -, hrun⟩
  rw [List.append_nil] at hrun
  unfold serialEditline
  rw [← ht, List.append_assoc, List.singleton_append, run_echo hs.1, Nat.zero_add,
    Prog.run_bind, Nat.add_assoc, hrun]
  rfl

/-- **The line editor is a bounded stack.** It stops at the first Ctrl-C, carriage return or line
feed, with the array holding the stack of what was typed before; no store leaves the array, and
after any part of the input the position is within it. -/
theorem serialEditline_stack (bus : Env Spi) (tr : List (Event Spi)) {str : List U8}
    (hs : Holds s str) {pre : List U8} (hpre : ∀ d ∈ pre, stops d = false) {c : U8}
    (hc : stops c = true) (rest : List U8) {rounds : Nat} (hrounds : pre.length < rounds) :
    (∃ s', Prog.run (world bus) (serialEditline rounds s) ⟨pre ++ c :: rest, tr⟩ =
        (.ok (if c = 0x03 then -1 else ((typeChars (len - 1) str pre).length : Int), s'),
          ⟨rest, tr⟩) ∧
      Holds s' (typeChars (len - 1) str pre)) ∧
    ∀ cs more, pre = cs ++ more → ∃ (i : Int) (s' : Chars len), 0 ≤ i ∧ i ≤ (len : Int) - 1 ∧
      Prog.run (world bus) (editLoop rounds str.length s) ⟨pre ++ c :: rest, tr⟩ =
        Prog.run (world bus) (editLoop (rounds - cs.length) i s') ⟨more ++ c :: rest, tr⟩ := by
  refine ⟨run_serialEditline bus tr hs hpre hc rest hrounds, ?_⟩
  intro cs more hsplit
  have hcs : ∀ d ∈ cs, stops d = false := by
    intro d hd
    exact hpre d (hsplit ▸ List.mem_append_left more hd)
  have hlen : cs.length + (rounds - cs.length) = rounds := by
    rw [hsplit, List.length_append] at hrounds
    omega
  rcases run_editLoop bus tr (Edited.ofHolds hs) hcs (rounds - cs.length)
    (more ++ c :: rest) with ⟨i, s', h, hrun⟩
  refine ⟨i, s', h.range.1, h.range.2, ?_⟩
  rw [hlen] at hrun
  rw [hsplit, List.append_assoc]
  exact hrun

/-- The string `ab` in an array of four. -/
def sampleLine : Chars 4 := fun i => [0x61, 0x62, 0x00, 0xff].getD i 0

/-- A third character fits, a fourth does not, and the backspace removes the third. -/
theorem serialEditline_stack_full :
    ∃ s', Prog.run (world quietBus) (serialEditline 4 sampleLine)
        ⟨[0x63, 0x64, 0x08, 0x0d, 0x79], []⟩ = (.ok (2, s'), ⟨[0x79], []⟩) ∧
      Holds s' [0x61, 0x62] := by
  have hs : Holds sampleLine [0x61, 0x62] := ⟨by decide, [0xff], by decide⟩
  have hpre : ∀ d ∈ ([0x63, 0x64, 0x08] : List U8), stops d = false := by decide
  have hstop : stops 0x0d = true := rfl
  have hrounds : ([0x63, 0x64, 0x08] : List U8).length < 4 := by decide
  exact (serialEditline_stack quietBus [] hs hpre hstop [0x79] hrounds).1

end Serial
