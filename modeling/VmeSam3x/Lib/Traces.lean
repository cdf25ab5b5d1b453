import VmeSam3x.Lib.Prog

/-! # What comes before an operation

A rule says what must be found in the history before an operation happens. A rule that looks
back no further than it has to is kept by longer histories, so programs that keep it can be put
together.
-/

namespace Interact

/-- Which event may come after which history. -/
structure Rule (S : Sig) where
  allows : List (Event S) → Event S → Prop
  extend : ∀ past pre e, allows pre e → allows (past ++ pre) e

namespace Rule

variable {S T : Sig} {P : Rule S} {past evs evs₁ evs₂ : List (Event S)}

/-- After the history `past` every event of the trace is allowed. -/
def Keeps (P : Rule S) : List (Event S) → List (Event S) → Prop
  | _, [] => True
  | past, e :: evs => P.allows past e ∧ P.Keeps (past ++ [e]) evs

theorem keeps_iff : P.Keeps past evs ↔
    ∀ pre e post, evs = pre ++ e :: post → P.allows (past ++ pre) e := by
  induction evs generalizing past with
  | nil => simp [Keeps]
  | cons e evs ih =>
    constructor
    · rintro ⟨he, hevs⟩ pre e' post heq
      cases pre with
      | nil =>
        cases heq
        rw [List.append_nil]
        exact he
      | cons e₀ pre =>
        cases heq
        have := ih.mp hevs pre e' post rfl
        rwa [List.append_assoc] at this
    · intro h
      refine ⟨?_, ih.mpr ?_⟩
      · have := h [] e evs rfl
        rwa [List.append_nil] at this
      · rintro pre e' post rfl
        rw [List.append_assoc]
        exact h (e :: pre) e' post rfl

theorem keeps_append :
    P.Keeps past (evs₁ ++ evs₂) ↔ P.Keeps past evs₁ ∧ P.Keeps (past ++ evs₁) evs₂ := by
  induction evs₁ generalizing past with
  | nil => simp [Keeps]
  | cons e evs₁ ih =>
    rw [List.cons_append, Keeps, Keeps, ih, and_assoc, List.append_assoc]
    rfl

theorem Keeps.extend (h : P.Keeps past evs) (before : List (Event S)) :
    P.Keeps (before ++ past) evs := by
  rw [keeps_iff] at h ⊢
  intro pre e post heq
  rw [List.append_assoc]
  exact P.extend before _ _ (h pre e post heq)

end Rule

namespace Prog

variable {S T : Sig} {E α β : Type} {P : Rule S} {p : Prog S E α} {f : α → Prog S E β}

/-- However its operations are answered, the program keeps the rule. -/
def Guarded (P : Rule S) (p : Prog S E α) : Prop := ∀ evs x, Path p evs x → P.Keeps [] evs

theorem guarded_of_uses {K : S.Op → Prop} (hp : p.Uses K)
    (hK : ∀ past e, K e.op → P.allows past e) : Guarded P p := by
  intro evs x h
  rw [Rule.keeps_iff]
  rintro pre e post rfl
  exact hK _ e (h.uses hp e (List.mem_append_right _ (List.mem_cons_self)))

/-- The second part may rely on the trace of the first one. -/
theorem Guarded.bind_path (hp : Guarded P p)
    (hf : ∀ past a, Path p past (.ok a) → ∀ evs x, Path (f a) evs x → P.Keeps past evs) :
    Guarded P (p >>= f) := by
  intro evs x h
  rcases path_bind.mp h with ⟨a, evs₁, evs₂, rfl, h₁, h₂⟩ | ⟨e, rfl, h₁⟩
  · exact Rule.keeps_append.mpr ⟨hp _ _ h₁, hf _ a h₁ _ _ h₂⟩
  · exact hp _ _ h₁

theorem Guarded.bind (hp : Guarded P p) (hf : ∀ a, Guarded P (f a)) : Guarded P (p >>= f) := by
  refine hp.bind_path fun past a _ evs x h => ?_
  have := (hf a evs x h).extend past
  rwa [List.append_nil] at this

theorem guarded_ret (a : α) : Guarded P (ret a : Prog S E α) :=
  guarded_of_uses (K := fun _ => False) trivial fun _ _ h => h.elim

theorem Guarded.ite {c : Prop} [Decidable c] {q : Prog S E α} (hp : Guarded P p)
    (hq : Guarded P q) : Guarded P (if c then p else q) := by
  split
  · exact hp
  · exact hq

/-- A program over a larger interface keeps the rule there. -/
theorem Guarded.embed {P' : Rule T} {g : Hom S T} (hp : Guarded P p)
    (hP : ∀ past e, P.allows past e → P'.allows (past.map g.event) (g.event e)) :
    Guarded P' (p.embed g) := by
  intro evs x h
  rcases path_embed.mp h with ⟨evs, rfl, hpath⟩
  rw [Rule.keeps_iff]
  intro pre e post heq
  rcases List.map_eq_append_iff.mp heq with ⟨pre, rest, rfl, rfl, hrest⟩
  rcases List.map_eq_cons_iff.mp hrest with ⟨e, post, rfl, rfl, rfl⟩
  exact hP _ _ (Rule.keeps_iff.mp (hp _ _ hpath) pre e post rfl)

/-- In every environment each event of the trace is allowed by what came before. -/
theorem Guarded.exec (hp : Guarded P p) (env : Env S) {pre post : List (Event S)} {e : Event S}
    (h : (Prog.exec env p []).2 = pre ++ e :: post) : P.allows pre e :=
  Rule.keeps_iff.mp (hp _ _ (path_exec env p).1) pre e post h

/-! ## A part of the interface -/

/-- The rule for programs over a part of the interface, when the larger state answers only the
operations they use like the part does. -/
theorem run_embed_of_uses {g : Hom S T} {σ τ : Type} {h : Handler S σ} {h' : Handler T τ}
    {K : S.Op → Prop} (get : τ → σ) (put : τ → σ → τ) (hget : ∀ w s, get (put w s) = s)
    (hput : ∀ w s s', put (put w s) s' = put w s') (hself : ∀ w, put w (get w) = w)
    (hh : ∀ o w, K o → h' (g.op o) w = ((g.res o).symm (h o (get w)).1, put w (h o (get w)).2))
    (hp : p.Uses K) (w : τ) :
    run h' (p.embed g) w = ((run h p (get w)).1, put w (run h p (get w)).2) := by
  induction p generalizing w with
  | ret a => rw [Prog.embed, run_ret, run_ret, hself]
  | fail e => rw [Prog.embed, run_fail, run_fail, hself]
  | call o k ih =>
    rw [Prog.embed, run_call, hh o w hp.1, Equiv.apply_symm_apply, run_call, ih _ (hp.2 _), hget,
      hput]

end Prog

end Interact
