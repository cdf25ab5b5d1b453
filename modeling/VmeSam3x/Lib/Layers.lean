import VmeSam3x.Lib.Machine

/-! # Layers

The operations of a program are often programs themselves, over a lower interface. When every
run of such a program is one answer of an upper machine, what the whole does on the lower
machine, the upper machine can do as well. The upper machine may lag behind: its own moves are
made up for when they are needed.
-/

namespace Interact

namespace Prog

variable {S T : Sig} {E α β : Type}

/-- Every operation replaced by the program that implements it. -/
def implement (impl : (o : S.Op) → Prog T E (S.Res o)) : Prog S E α → Prog T E α
  | ret a => ret a
  | fail e => fail e
  | call o k => impl o >>= fun r => (k r).implement impl

/-- Every program is of the kind that has all operations. -/
theorem uses_true (p : Prog S E α) : p.Uses fun _ => True := by
  induction p with
  | ret => trivial
  | fail => trivial
  | call o k ih => exact ⟨trivial, ih⟩

/-! ## Disciplines -/

/-- The rules of a conversation: the operations that a phase of it allows, the answers they get,
and the phase that follows. -/
structure Discipline (S : Sig) where
  Phase : Type
  allows : Phase → S.Op → Prop
  answers : (o : S.Op) → S.Res o → Prop
  next : Phase → S.Op → Phase

/-- The rules of a conversation without phases. -/
def Discipline.plain (K : S.Op → Prop) (A : (o : S.Op) → S.Res o → Prop) : Discipline S where
  Phase := Unit
  allows _ := K
  answers := A
  next _ _ := ()

/-- From a phase on the program keeps the rules, and `Q` holds where it returns. -/
def Follows (D : Discipline S) (Q : α → D.Phase → Prop) : Prog S E α → D.Phase → Prop
  | ret a, φ => Q a φ
  | fail _, _ => True
  | call o k, φ => D.allows φ o ∧ ∀ r, D.answers o r → (k r).Follows D Q (D.next φ o)

variable {D : Discipline S} {φ : D.Phase}

theorem Follows.bind {Q : α → D.Phase → Prop} {Q' : β → D.Phase → Prop} {p : Prog S E α}
    {f : α → Prog S E β} (hp : p.Follows D Q φ)
    (hf : ∀ a ψ, Q a ψ → (f a).Follows D Q' ψ) : (p >>= f).Follows D Q' φ := by
  induction p generalizing φ with
  | ret a => exact hf a φ hp
  | fail => trivial
  | call o k ih => exact ⟨hp.1, fun r hr => ih r (hp.2 r hr)⟩

/-- The operations are of the kind `K`, as long as the answers are of the kind `A`. -/
def UsesWhen (K : S.Op → Prop) (A : (o : S.Op) → S.Res o → Prop) (p : Prog S E α) : Prop :=
  p.Follows (.plain K A) (fun _ _ => True) ()

variable {K : S.Op → Prop} {A : (o : S.Op) → S.Res o → Prop}

theorem Uses.usesWhen {p : Prog S E α} (h : p.Uses K) : p.UsesWhen K A := by
  induction p with
  | ret => trivial
  | fail => trivial
  | call o k ih => exact ⟨h.1, fun r _ => ih r (h.2 r)⟩

theorem UsesWhen.bind {p : Prog S E α} {f : α → Prog S E β} (hp : p.UsesWhen K A)
    (hf : ∀ a, (f a).UsesWhen K A) : (p >>= f).UsesWhen K A :=
  Follows.bind hp fun a _ _ => hf a

end Prog

namespace Machine

variable {S T : Sig} {E E' α β : Type} {M : Machine S} {N : Machine T}

/-! ## Refinement between layers -/

/-- On the lower machine `N`, the program of an operation does what the upper machine `M` can
do: some moves, the answer, some moves. `R` relates the states of the two machines in each phase
of the conversation, and the upper program keeps to the rules of `D`. -/
structure Implements (N : Machine T) (M : Machine S) (D : Prog.Discipline S)
    (impl : (o : S.Op) → Prog T E (S.Res o)) (R : D.Phase → M.State → N.State → Prop) : Prop where
  answers : ∀ φ o s t x t', D.allows φ o → R φ s t → N.Runs (impl o) t x t' →
    ∃ r s₁ s₂ s', x = .ok r ∧ D.answers o r ∧ M.Moves s s₁ ∧ M.answer s₁ o r s₂ ∧
      M.Moves s₂ s' ∧ R (D.next φ o) s' t'

variable {D : Prog.Discipline S} {impl : (o : S.Op) → Prog T E (S.Res o)}
  {R : D.Phase → M.State → N.State → Prop} {φ : D.Phase}

/-- What the layers do together is a run on the upper machine. -/
theorem Implements.runs (h : Implements N M D impl R) {Q : α → D.Phase → Prop} {p : Prog S E α}
    {s₀ s : M.State} {t t' : N.State} {x : Except E α} (hp : p.Follows D Q φ)
    (hs : M.Moves s₀ s) (hR : R φ s t) (hr : N.Runs (p.implement impl) t x t') :
    ∃ u s' ψ, M.Runs p s₀ x u ∧ M.Moves u s' ∧ R ψ s' t' ∧ ∀ a, x = .ok a → Q a ψ := by
  induction p generalizing s₀ s t φ with
  | ret a =>
    rcases runs_ret.mp hr with ⟨rfl, rfl⟩
    exact ⟨s₀, s, φ, .ret a s₀, hs, hR, fun b hb => by cases hb; exact hp⟩
  | fail e =>
    rcases runs_fail.mp hr with ⟨rfl, rfl⟩
    exact ⟨s₀, s, φ, .fail e s₀, hs, hR, fun b hb => by cases hb⟩
  | call o k ih =>
    rcases hr.of_bind with ⟨r, t₁, h₁, h₂⟩ | ⟨e, -, h₁⟩
    · rcases h.answers φ o s t _ _ hp.1 hR h₁ with ⟨r', s₁, s₂, s₃, heq, hr', hm, ha, hm', hR'⟩
      cases heq
      rcases ih r (hp.2 r hr') hm' hR' h₂ with ⟨u, s', ψ, hru, hu, hRs, hQ⟩
      exact ⟨u, s', ψ, .call (hs.trans hm) ha hru, hu, hRs, hQ⟩
    · rcases h.answers φ o s t _ _ hp.1 hR h₁ with ⟨r', s₁, s₂, s₃, heq, -⟩
      cases heq

/-- Two refinements in a row, when the upper rules are stricter than the lower ones. -/
theorem Implements.comp {L : Machine S} {D' : Prog.Discipline S}
    {R' : D'.Phase → L.State → M.State → Prop} (f : D'.Phase → D.Phase)
    (hallows : ∀ ψ o, D'.allows ψ o → D.allows (f ψ) o)
    (hnext : ∀ ψ o, f (D'.next ψ o) = D.next (f ψ) o)
    (h : Implements N M D impl R)
    (h' : Implements M L D' (fun o => (Prog.perform o : Prog S E (S.Res o))) R') :
    Implements N L D' impl
      (fun ψ l n => ∃ m m', R' ψ l m ∧ M.Moves m m' ∧ R (f ψ) m' n) where
  answers := by
    rintro ψ o l n x n' hallowed ⟨m, m', hl, hm, hn⟩ hruns
    rcases h.answers (f ψ) o m' n x n' (hallows ψ o hallowed) hn hruns with
      ⟨r, m₁, m₂, m₃, rfl, -, hm₁, ha, hm₃, hn'⟩
    have hperform : M.Runs (Prog.perform o : Prog S E (S.Res o)) m (.ok r) m₂ :=
      .call (hm.trans hm₁) ha (.ret r m₂)
    rcases h'.answers ψ o l m _ _ hallowed hl hperform with
      ⟨r', l₁, l₂, l₃, heq, hr', hl₁, hal, hl₃, hR'⟩
    cases heq
    refine ⟨r, l₁, l₂, l₃, rfl, hr', hl₁, hal, hl₃, m₂, m₃, hR', hm₃, ?_⟩
    rw [hnext]
    exact hn'

/-! ## Logs -/

/-- A log that grows with the answers alone is the trace of a path. -/
theorem Runs.path_log {L : Type} (log : M.State → List L) (entry : Event S → List L)
    {p : Prog S E α} {s t : M.State} {x : Except E α}
    (hmove : ∀ s s', M.move s s' → log s' = log s)
    (hanswer : ∀ s o r s', M.answer s o r s' → log s' = log s ++ entry ⟨o, r⟩)
    (h : M.Runs p s x t) : ∃ evs, Prog.Path p evs x ∧ log t = log s ++ evs.flatMap entry := by
  have hmoves : ∀ s s', M.Moves s s' → log s' = log s := by
    intro s s' hm
    induction hm with
    | refl => rfl
    | tail _ hstep ih => exact (hmove _ _ hstep).trans ih
  induction h with
  | ret a s => exact ⟨[], .ret a, by simp⟩
  | fail e s => exact ⟨[], .fail e, by simp⟩
  | call hm ha _ ih =>
    rcases ih with ⟨evs, hp, hlog⟩
    refine ⟨_ :: evs, .call _ hp, ?_⟩
    rw [hlog, hanswer _ _ _ _ ha, hmoves _ _ hm, List.flatMap_cons, List.append_assoc]

/-! ## Interrupts -/

/-- The same machine with a handler: between two operations of the task, and where the handler is
enabled, it may run from its beginning to its end. -/
def interruptedBy (M : Machine S) (enabled : M.State → Prop) (handler : Prog S E' β) :
    Machine S where
  State := M.State
  move s s' := M.move s s' ∨ enabled s ∧ ∃ x, M.Runs handler s x s'
  answer := M.answer

variable {enabled : M.State → Prop} {handler : Prog S E' β}

/-- Without an interrupt the machine moves as before. -/
theorem Moves.interruptedBy {s t : M.State} (h : M.Moves s t) :
    (M.interruptedBy enabled handler).Moves s t := by
  induction h with
  | refl => exact .refl
  | tail _ hstep ih => exact ih.tail (.inl hstep)

end Machine

end Interact
