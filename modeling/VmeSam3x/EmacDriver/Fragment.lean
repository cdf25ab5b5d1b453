import VmeSam3x.EmacDriver.Delivery

/-! # A frame behind an abandoned one

The ring keeps its invariant on a link that abandons frames. At the first piece of a new frame the
fragment before it is given back, and the loop that does it moves the pointer of the current
descriptor: the first copy of the new frame is made from the last piece of the fragment.
-/

namespace EmacDriver

open Interact Machine Bytes

variable {dev : RxDevice} {released i k m size fuel : Nat} {s t : RxState} {lossy : Bool}
  {g : Gathering} {f f' : List U8}

/-- What is returned for the frame `f'` behind `k` pieces of `f`. -/
def mixed (f : List U8) (k : Nat) (f' : List U8) : List U8 :=
  (⟨f, k - 1⟩ : Piece).bytes ++ f'.drop emacRxUnitsize

theorem length_bytes_of_lt {i : Nat} (h : (i + 1) * emacRxUnitsize ≤ f.length) :
    (⟨f, i⟩ : Piece).bytes.length = emacRxUnitsize := by
  have hmul : (i + 1) * emacRxUnitsize = i * emacRxUnitsize + emacRxUnitsize := Nat.succ_mul _ _
  change ((f.drop (i * emacRxUnitsize)).take emacRxUnitsize).length = _
  rw [List.length_take, List.length_drop]
  omega

/-- The first piece comes from the fragment, the others from the frame. -/
theorem covers_mixed (f' : List U8) (hk : 0 < k) (hf : k * emacRxUnitsize < f.length) :
    Covers ⟨f, k - 1⟩ 0 (mixed f k f') ∧ ∀ i, 1 ≤ i → Covers ⟨f', i⟩ i (mixed f k f') := by
  have hlen : (⟨f, k - 1⟩ : Piece).bytes.length = emacRxUnitsize :=
    length_bytes_of_lt (by rw [Nat.sub_add_cancel hk]; omega)
  constructor
  · intro j hj
    rw [mixed, Nat.zero_mul, Nat.zero_add, List.getElem?_append_left (by omega)]
  · intro i hi j hj
    have hge : emacRxUnitsize ≤ i * emacRxUnitsize := Nat.le_mul_of_pos_left _ hi
    rw [mixed, List.getElem?_append_right (by omega), hlen, List.getElem?_drop,
      Nat.add_sub_of_le (by omega)]
    exact covers_self f' i j hj

theorem length_mixed (hk : 0 < k) (hf : k * emacRxUnitsize < f.length)
    (hf' : emacRxUnitsize < f'.length) : (mixed f k f').length = f'.length := by
  have hlen : (⟨f, k - 1⟩ : Piece).bytes.length = emacRxUnitsize :=
    length_bytes_of_lt (by rw [Nat.sub_add_cancel hk]; omega)
  rw [mixed, List.length_append, hlen, List.length_drop]
  omega

theorem isLast_of_lt (h : (i + 1) * emacRxUnitsize < f.length) :
    (⟨f, i⟩ : Piece).isLast = false := by
  rw [← Bool.not_eq_true, Piece.isLast_iff]
  omega

/-- The rest of a fragment is gathered like a frame. -/
theorem RxRing.runs_fragment (hr : RxRing dev released s)
    (hidx : s.usRxIdx = released % dev.usRxListSize) (hg : Gathered dev released i size f g)
    (hpos : 0 < i) (hfrag : ∀ j, j < i + m → s.pieces[released + j]? = some ⟨f, j⟩)
    (hround : i + m < dev.usRxListSize) (hf : (i + m) * emacRxUnitsize < f.length)
    {x : Except Ethernet.Fault Ethernet.Reading}
    (hruns : (emacRx lossy).Runs (readLoop dev size (m + fuel) g) s x t) :
    ∃ g' s', RxLater s s' ∧ RxRing dev released s' ∧
      s'.usRxIdx = released % dev.usRxListSize ∧ Gathered dev released (i + m) size f g' ∧
      g'.pFrame.length = g.pFrame.length ∧
      (emacRx lossy).Runs (readLoop dev size fuel g') s' x t := by
  induction m generalizing i s g with
  | zero =>
    rw [Nat.zero_add] at hruns
    exact ⟨g, s, .refl s, hr, hidx, hg, rfl, hruns⟩
  | succ m ih =>
    have hthere := hfrag i (by omega)
    rw [Nat.add_right_comm] at hruns
    rcases hr.runs_test (by omega) hg.td hruns with
      ⟨s₁, hd₁, hr₁, -, h₁⟩ | ⟨-, hmissing, -⟩
    · have hle := Nat.mul_le_mul_right emacRxUnitsize (show i + 1 ≤ i + (m + 1) by omega)
      have hmore : (⟨f, i⟩ : Piece).isLast = false := isLast_of_lt (by omega)
      have hhere : i * emacRxUnitsize < f.length := by
        have hstep : (i + 1) * emacRxUnitsize = i * emacRxUnitsize + emacRxUnitsize :=
          Nat.succ_mul _ _
        omega
      rcases (hr₁.runs_middle (hd₁.idx.trans hidx) hg hpos (by omega) (hd₁.getElem? hthere)
        (covers_self f i) rfl hhere h₁).2 hmore with ⟨g₁, s₂, hnext⟩
      have hl := hd₁.toRxLater.trans hnext.later
      have hsum : i + 1 + m = i + (m + 1) := by omega
      rcases ih hnext.ring hnext.idx hnext.gathered (by omega)
        (fun j hj => hl.getElem? (hfrag j (by omega))) (by omega) (by rw [hsum]; exact hf)
        hnext.runs with ⟨g₂, s₃, hl₃, hr₃, hidx₃, hg₃, hlen₃, h₃⟩
      rw [hsum] at hg₃
      exact ⟨g₂, s₃, hl.trans hl₃, hr₃, hidx₃, hg₃, hlen₃.trans hnext.length, h₃⟩
    · have := (List.getElem?_eq_some_iff.mp hthere).1
      omega

/-- **A fragment spoils the next frame**: with `k` pieces of an abandoned frame before it, a whole
frame of more than one piece is returned with the right length and `EMAC_OK`, but its first 128
bytes are those of the last piece of the fragment. -/
theorem fragment_spoils {pFrame : List U8} {old : Nat} (hr : RxRing dev released s)
    (hidx : s.usRxIdx = released % dev.usRxListSize) (hk : 0 < k)
    (hfrag : ∀ j, j < k → s.pieces[released + j]? = some ⟨f, j⟩)
    (hf : k * emacRxUnitsize < f.length)
    (hwhole : ∀ j, j ≤ m → s.pieces[released + k + j]? = some ⟨f', j⟩)
    (hlast : (⟨f', m⟩ : Piece).isLast = true) (hf' : m * emacRxUnitsize < f'.length)
    (hlong : emacRxUnitsize < f'.length) (hbuf : size ≤ pFrame.length) (hfits : f'.length ≤ size)
    (hfuel : dev.usRxListSize ≤ fuel)
    (hround : t.pieces.length + 1 ≤ released + k + dev.usRxListSize)
    {x : Except Ethernet.Fault Ethernet.Reading}
    (hruns : (emacRx lossy).Runs (emacDevRead dev fuel (some pFrame) size old) s x t) :
    ∃ r, x = .ok r ∧ r.rc = .ok ∧ r.pRcvSize = f'.length ∧
      r.pFrame.take f'.length = (⟨f, k - 1⟩ : Piece).bytes ++ f'.drop emacRxUnitsize ∧
      RxRing dev (released + k + m + 1) t ∧
      t.usRxIdx = (released + k + m + 1) % dev.usRxListSize := by
  have hin : released + k + m < s.pieces.length :=
    (List.getElem?_eq_some_iff.mp (hwhole m (le_refl m))).1
  have hbounded := hr.bounded
  rcases hr.runs_op hruns with ⟨_, _, s₁, hr₁, hd₁, ⟨rfl, rfl⟩, h₁⟩
  rcases hr₁.runs_op h₁ with ⟨_, _, s₂, hr₂, hd₂, ⟨rfl, rfl⟩, h₂⟩
  have hd := hd₁.trans hd₂
  have hidx₁ := hd₁.idx.trans hidx
  have hidx₂ := hd.idx.trans hidx
  rw [hidx₁, hidx₂] at h₂
  -- the fragment is gathered
  obtain ⟨k, rfl⟩ : ∃ n, k = n + 1 := Nat.exists_eq_add_one.mpr hk
  obtain ⟨rest, rfl⟩ : ∃ n, fuel = k + (n + 1) + 1 := ⟨fuel - k - 2, by omega⟩
  have hone : emacRxUnitsize < f.length := by
    have hle := Nat.mul_le_mul_right emacRxUnitsize (show 1 ≤ k + 1 by omega)
    omega
  have hf₀ := hfrag 0 hk
  rw [Nat.add_zero] at hf₀
  rcases hr₂.runs_test (k := 0) dev.pos rfl h₂ with ⟨s₃, hd₃, hr₃, -, h₃⟩ | ⟨-, hmissing, -⟩
  swap
  · have := hd.pieces.length_le
    omega
  have hd' := hd.trans hd₃
  rcases (hr₃.runs_first (k := 0) (p := ⟨f, 0⟩) (hd'.idx.trans hidx) dev.pos (hd'.getElem? hf₀)
    (hd'.getElem? hf₀) (if_pos rfl).symm rfl rfl hbuf (covers_self f 0) rfl (by omega) (.inl rfl)
    (fun _ => rfl) h₃).2 (isLast_of_lt (by omega)) with ⟨g₁, s₄, hnext⟩
  have hl₄ := hd'.toRxLater.trans hnext.later
  have hsum : 0 + 1 + k = k + 1 := by omega
  rcases hnext.ring.runs_fragment hnext.idx hnext.gathered (by decide)
    (fun j hj => hl₄.getElem? (hfrag j (by omega))) (by omega) (by rw [hsum]; exact hf) hnext.runs
    with ⟨g₂, s₅, hl₅, hr₅, hidx₅, hg₅, hlen₅, h₅⟩
  rw [hsum] at hg₅
  have hl := hl₄.trans hl₅
  -- and given back at the first piece of the frame
  rcases hr₅.runs_test (by omega) hg₅.td h₅ with ⟨s₆, hd₆, hr₆, -, h₆⟩ | ⟨-, hmissing, -⟩
  swap
  · have := hl.pieces.length_le
    omega
  have hl₆ := hl.trans hd₆.toRxLater
  have hlastf : (⟨f, k⟩ : Piece).isLast = false := isLast_of_lt hf
  rcases covers_mixed f' hk hf with ⟨hfirst, hrest⟩
  have hend := Piece.isLast_iff.mp hlast
  have hinside : ∀ j, j * emacRxUnitsize < f'.length → j ≤ m := by
    intro j hj
    have hlt : j * emacRxUnitsize < (m + 1) * emacRxUnitsize := by omega
    exact Nat.lt_succ_iff.mp (Nat.lt_of_mul_lt_mul_right hlt)
  have hroom : (m + 1) * emacRxUnitsize ≤ (dev.usRxListSize - 1) * emacRxUnitsize :=
    Nat.mul_le_mul_right _ (by omega)
  have hrounds : (m + 1) * emacRxUnitsize ≤ (1 + rest) * emacRxUnitsize :=
    Nat.mul_le_mul_right _ (by omega)
  have hsize₂ : size ≤ g₂.pFrame.length := hg₅.fits
  have hwhole₀ := hwhole 0 (Nat.zero_le m)
  rw [Nat.add_zero] at hwhole₀
  have hpieces : ∀ j, 1 ≤ j → j * emacRxUnitsize < f'.length → ∀ q,
      t.pieces[released + (k + 1) + j]? = some q → q = ⟨f', j⟩ := by
    intro j _ hj q hq
    have hold := getElem?_of_grown (hl₆.pieces.trans (pieces_grow h₆)) (hwhole j (hinside j hj))
    rw [hold] at hq
    exact (Option.some.inj hq).symm
  rcases hr₆.runs_frame (p := ⟨f, k⟩) (hd₆.idx.trans hidx₅) (by omega) (hl₆.getElem? hwhole₀)
    (hl₆.getElem? (hfrag k (by omega))) (if_neg (by omega)).symm hg₅.td hg₅.tmp hsize₂
    (length_mixed hk hf hlong) (by omega) hfirst hrest (.inr (by omega))
    (fun h => by rw [hlastf] at h; cases h) (fun _ => hlong) (by omega) (by omega) hpieces h₆ with
    ⟨r, rfl, hl₇, hlen₇, hends⟩
  cases hends with
  | missing j _ _ hj hmissing =>
    have := hinside j hj
    have := hl₆.pieces.length_le
    omega
  | complete j hrc hsize hj hlastj hp hfilled hrt hidxt =>
    have hle := hinside j hj
    have hge : m ≤ j := by
      have hlt : m * emacRxUnitsize < (j + 1) * emacRxUnitsize := by
        have := Piece.isLast_iff.mp hlastj
        omega
      exact Nat.lt_succ_iff.mp (Nat.lt_of_mul_lt_mul_right hlt)
    have heq : j = m := Nat.le_antisymm hle hge
    subst heq
    refine ⟨r, rfl, ?_, hsize, ?_, hrt, hidxt⟩
    · rw [hrc, if_neg (by omega)]
    · have htake := hfilled.take_eq (by rw [length_mixed hk hf hlong]; exact hfits)
      rw [length_mixed hk hf hlong] at htake
      exact htake

/-- A frame of 200 bytes of which the second piece does not come, and one of 130 bytes. -/
def spoilt : RxState :=
  (({ rxStarted.fill ⟨List.replicate 200 1, 0⟩ with current := none }).fill
    ⟨List.replicate 130 2, 0⟩).fill ⟨List.replicate 130 2, 1⟩

theorem ring_rxStarted : RxRing sixteen 0 rxStarted := by
  rcases (rxQuiet_rxCleared.runs_emacInitRxMem
    (runs_rx_respond false (emacInitRxMem sixteen) rxCleared)).2.atFrame.ring with
    ⟨released, hr, -, -⟩
  have hle := hr.released_le
  change released ≤ 0 at hle
  rw [Nat.le_zero.mp hle] at hr
  exact hr

theorem RxState.current_fill {p : Piece} (h : p.isLast = false) :
    (s.fill p).current = some p.following := by
  change (if p.isLast then none else some p.following) = _
  rw [h, if_neg Bool.false_ne_true]

theorem ring_spoilt : RxRing sixteen 0 spoilt := by
  let s₁ := rxStarted.fill ⟨List.replicate 200 1, 0⟩
  let s₂ : RxState := { s₁ with current := none }
  let s₃ := s₂.fill ⟨List.replicate 130 2, 0⟩
  have h₁ : Receives true rxStarted s₁ :=
    receives_fill rfl (.inr ⟨rfl, rfl, by decide +kernel, by decide +kernel⟩) (by decide +kernel)
      (by decide +kernel)
  have h₂ : Receives true s₁ s₂ :=
    .abandon rfl (RxState.current_fill (by decide +kernel))
  have h₃ : Receives true s₂ s₃ :=
    receives_fill rfl (.inr ⟨rfl, rfl, by decide +kernel, by decide +kernel⟩) (by decide +kernel)
      (by decide +kernel)
  have h₄ : Receives true s₃ spoilt :=
    receives_fill rfl (.inl (RxState.current_fill (by decide +kernel))) (by decide +kernel)
      (by decide +kernel)
  exact (((ring_rxStarted.receives h₁).1.receives h₂).1.receives h₃).1.receives h₄ |>.1

/-- The next call of `emac_dev_read`. -/
def spoiltRead : Except Ethernet.Fault Ethernet.Reading × RxState :=
  Prog.run RxState.respond
    (emacDevRead sixteen 16 (some (List.replicate Ethernet.netRwBuffSize 0))
      Ethernet.netRwBuffSize 0) spoilt

theorem fragment_spoils_two_pieces :
    ∃ r, spoiltRead.1 = .ok r ∧ r.rc = .ok ∧ r.pRcvSize = 130 ∧
      r.pFrame.take 130 = (⟨List.replicate 200 1, 0⟩ : Piece).bytes ++
        (List.replicate 130 2).drop 128 ∧
      RxRing sixteen (0 + 1 + 1 + 1) spoiltRead.2 ∧ spoiltRead.2.usRxIdx = (0 + 1 + 1 + 1) % 16 := by
  have hfrag : ∀ j, j < 1 → spoilt.pieces[0 + j]? = some ⟨List.replicate 200 1, j⟩ := by
    intro j hj
    interval_cases j
    rfl
  have hwhole : ∀ j, j ≤ 1 → spoilt.pieces[0 + 1 + j]? = some ⟨List.replicate 130 2, j⟩ := by
    intro j hj
    interval_cases j <;> rfl
  have hruns := runs_rx_respond true
    (emacDevRead sixteen 16 (some (List.replicate Ethernet.netRwBuffSize 0))
      Ethernet.netRwBuffSize 0) spoilt
  exact fragment_spoils ring_spoilt rfl (by decide +kernel) hfrag (by decide +kernel) hwhole
    (by decide +kernel) (by decide +kernel) (by decide +kernel) (by decide +kernel)
    (by decide +kernel) (by decide +kernel) (by decide +kernel) hruns

end EmacDriver
