import VmeSam3x.Lib.Prog
import Mathlib.Logic.Relation

/-! # Programs on a machine that moves by itself

The surroundings of a program are often a machine with a life of its own: hardware sets
flags, interrupt handlers run. Before each operation the machine makes any number of
moves, then it answers. `Runs` has every interleaving of this kind, and an invariant of
the machine is kept by a whole run when the moves and the answers keep it.
-/

namespace Interact

/-- A machine that answers the operations of `S` and moves on its own in between. -/
structure Machine (S : Sig) where
  State : Type
  move : State → State → Prop
  answer : State → (o : S.Op) → S.Res o → State → Prop

namespace Machine

variable {S : Sig} {E α β : Type} {M : Machine S}

/-- Any number of moves. -/
abbrev Moves (M : Machine S) : M.State → M.State → Prop := Relation.ReflTransGen M.move

/-- `M.Runs p s x t`: from the state `s` the program `p` can end in `x`, with the machine in
state `t`. -/
inductive Runs (M : Machine S) : Prog S E α → M.State → Except E α → M.State → Prop
  | ret (a : α) (s : M.State) : Runs M (.ret a) s (.ok a) s
  | fail (e : E) (s : M.State) : Runs M (.fail e) s (.error e) s
  | call {o : S.Op} {k : S.Res o → Prog S E α} {s s₁ s₂ t : M.State} {r : S.Res o}
      {x : Except E α} (hm : M.Moves s s₁) (ha : M.answer s₁ o r s₂) (hr : Runs M (k r) s₂ x t) :
      Runs M (.call o k) s x t

variable {p : Prog S E α} {s t : M.State} {x : Except E α}

theorem runs_ret {a : α} : M.Runs (.ret a) s x t ↔ x = .ok a ∧ t = s := by
  constructor
  · intro h
    cases h
    exact ⟨rfl, rfl⟩
  · intro ⟨hx, ht⟩
    subst hx ht
    exact .ret a t

theorem runs_fail {e : E} : M.Runs (.fail e : Prog S E α) s x t ↔ x = .error e ∧ t = s := by
  constructor
  · intro h
    cases h
    exact ⟨rfl, rfl⟩
  · intro ⟨hx, ht⟩
    subst hx ht
    exact .fail e t

theorem runs_call {o : S.Op} {k : S.Res o → Prog S E α} :
    M.Runs (.call o k) s x t ↔
      ∃ s₁ r s₂, M.Moves s s₁ ∧ M.answer s₁ o r s₂ ∧ M.Runs (k r) s₂ x t := by
  constructor
  · intro h
    cases h with
    | call hm ha hr => exact ⟨_, _, _, hm, ha, hr⟩
  · intro ⟨_, _, _, hm, ha, hr⟩
    exact .call hm ha hr

/-- A run that begins with an operation continues after its answer. -/
theorem runs_perform_bind {o : S.Op} {f : S.Res o → Prog S E β} {y : Except E β} :
    M.Runs (Prog.perform o >>= f) s y t ↔
      ∃ s₁ r s₂, M.Moves s s₁ ∧ M.answer s₁ o r s₂ ∧ M.Runs (f r) s₂ y t :=
  runs_call

/-- A run of a sequence is a run of its first part followed by one of its second. -/
theorem Runs.of_bind {f : α → Prog S E β} {y : Except E β} (h : M.Runs (p >>= f) s y t) :
    (∃ a s', M.Runs p s (.ok a) s' ∧ M.Runs (f a) s' y t) ∨
      ∃ e, y = .error e ∧ M.Runs p s (.error e) t := by
  induction p generalizing s with
  | ret a => exact .inl ⟨a, s, .ret a s, h⟩
  | fail e =>
    rcases runs_fail.mp h with ⟨rfl, rfl⟩
    exact .inr ⟨e, rfl, .fail e t⟩
  | call o k ih =>
    rcases runs_call.mp h with ⟨s₁, r, s₂, hm, ha, hr⟩
    rcases ih r hr with ⟨a, s', h₁, h₂⟩ | ⟨e, rfl, h₁⟩
    · exact .inl ⟨a, s', .call hm ha h₁, h₂⟩
    · exact .inr ⟨e, rfl, .call hm ha h₁⟩

/-- The same for a sequence that returns. -/
theorem Runs.of_bind_ok {f : α → Prog S E β} {b : β} (h : M.Runs (p >>= f) s (.ok b) t) :
    ∃ a s', M.Runs p s (.ok a) s' ∧ M.Runs (f a) s' (.ok b) t := by
  rcases h.of_bind with hok | ⟨e, he, -⟩
  · exact hok
  · cases he

/-- A sequence whose first part cannot fail. -/
theorem Runs.of_bind_of_ok {R : α → M.State → Prop} {f : α → Prog S E β} {y : Except E β}
    (hp : ∀ x s', M.Runs p s x s' → ∃ a, x = .ok a ∧ R a s') (h : M.Runs (p >>= f) s y t) :
    ∃ a s', R a s' ∧ M.Runs (f a) s' y t := by
  rcases h.of_bind with ⟨a, s', h₁, h₂⟩ | ⟨e, -, h₁⟩
  · rcases hp _ _ h₁ with ⟨a', ha, hR⟩
    cases ha
    exact ⟨a, s', hR, h₂⟩
  · rcases hp _ _ h₁ with ⟨a, ha, -⟩
    cases ha

/-- A sequence whose first part always returns the same value. -/
theorem Runs.of_bind_value {a : α} {R : M.State → Prop} {f : α → Prog S E β} {y : Except E β}
    (hp : ∀ x s', M.Runs p s x s' → x = .ok a ∧ R s') (h : M.Runs (p >>= f) s y t) :
    ∃ s', R s' ∧ M.Runs (f a) s' y t := by
  have hvalue : ∀ x s', M.Runs p s x s' → ∃ b, x = .ok b ∧ b = a ∧ R s' :=
    fun x s' hr => ⟨a, (hp x s' hr).1, rfl, (hp x s' hr).2⟩
  rcases h.of_bind_of_ok hvalue with ⟨_, s', ⟨rfl, hR⟩, h'⟩
  exact ⟨s', hR, h'⟩

/-- A sequence that is left with any code but the one for success: when it is successful, its
first part was, and the rest has run. -/
theorem Runs.of_unless [DecidableEq β] {code : α → β} {good : β} {q : α → Prog S E β}
    (h : M.Runs (p >>= fun a => if code a ≠ good then .ret (code a) else q a) s (.ok good) t) :
    ∃ a s', M.Runs p s (.ok a) s' ∧ code a = good ∧ M.Runs (q a) s' (.ok good) t := by
  rcases h.of_bind_ok with ⟨a, s', h₁, h₂⟩
  refine ⟨a, s', h₁, ?_⟩
  split at h₂
  · rename_i hcode
    rcases runs_ret.mp h₂ with ⟨hx, -⟩
    exact absurd (Except.ok.inj hx).symm hcode
  · rename_i hcode
    exact ⟨not_not.mp hcode, h₂⟩

/-- A deterministic machine whose answers the machine can give runs as the machine can. -/
theorem Runs.of_handler {h : Handler S M.State}
    (hh : ∀ s o, ∃ s₁, M.Moves s s₁ ∧ M.answer s₁ o (h o s).1 (h o s).2) (p : Prog S E α)
    (s : M.State) : M.Runs p s (Prog.run h p s).1 (Prog.run h p s).2 := by
  induction p generalizing s with
  | ret a => exact .ret a s
  | fail e => exact .fail e s
  | call o k ih =>
    rcases hh s o with ⟨s₁, hm, ha⟩
    exact .call hm ha (ih _ _)

/-- What every move keeps, any number of moves keeps. -/
theorem Moves.invariant {I : M.State → Prop} (hmove : ∀ s s', M.move s s' → I s → I s')
    (h : M.Moves s t) (hs : I s) : I t := by
  induction h with
  | refl => exact hs
  | tail _ hstep ih => exact hmove _ _ hstep ih

/-- An invariant of the moves, and of the answers to one kind of operation, is kept by
every run of a program of that kind. -/
theorem Runs.invariant {I : M.State → Prop} {K : S.Op → Prop}
    (hmove : ∀ s s', M.move s s' → I s → I s')
    (hanswer : ∀ s o r s', K o → M.answer s o r s' → I s → I s') (huses : p.Uses K)
    (h : M.Runs p s x t) (hs : I s) : I t := by
  induction h with
  | ret => exact hs
  | fail => exact hs
  | call hm ha _ ih => exact ih (huses.2 _) (hanswer _ _ _ _ huses.1 ha (hm.invariant hmove hs))

/-- A run of a program that cannot fail ends in a value. -/
theorem Runs.of_post {Q : α → Prop} (hp : Prog.Post Q (fun _ => False) p) (h : M.Runs p s x t) :
    ∃ a, x = .ok a ∧ Q a := by
  induction h with
  | ret a => exact ⟨a, rfl, hp⟩
  | fail => exact hp.elim
  | call _ _ _ ih => exact ih (hp _)

/-! ## Machines that answer -/

/-- The machine answers every operation sooner or later. -/
def Responsive (M : Machine S) : Prop :=
  ∀ s o, ∃ s₁ r s₂, M.Moves s s₁ ∧ M.answer s₁ o r s₂

theorem Responsive.exists_runs (hM : M.Responsive) (p : Prog S E α) (s : M.State) :
    ∃ x t, M.Runs p s x t := by
  induction p generalizing s with
  | ret a => exact ⟨_, _, .ret a s⟩
  | fail e => exact ⟨_, _, .fail e s⟩
  | call o k ih =>
    rcases hM s o with ⟨s₁, r, s₂, hm, ha⟩
    rcases ih r s₂ with ⟨x, t, hr⟩
    exact ⟨x, t, .call hm ha hr⟩

/-! ## Parts of a run -/

/-- `M.Reaches p s q t`: on its way from the state `s`, the program `p` can get to `q` in the
state `t`. -/
inductive Reaches (M : Machine S) : Prog S E α → M.State → Prog S E α → M.State → Prop
  | refl (p : Prog S E α) (s : M.State) : Reaches M p s p s
  | call {o : S.Op} {k : S.Res o → Prog S E α} {q : Prog S E α} {s s₁ s₂ t : M.State} {r : S.Res o}
      (hm : M.Moves s s₁) (ha : M.answer s₁ o r s₂) (hr : Reaches M (k r) s₂ q t) :
      Reaches M (.call o k) s q t

theorem Reaches.trans {q u : Prog S E α} {t' : M.State} (h : M.Reaches p s q t)
    (h' : M.Reaches q t u t') : M.Reaches p s u t' := by
  induction h with
  | refl => exact h'
  | call hm ha _ ih => exact .call hm ha (ih h')

/-- A sequence gets behind its first part. -/
theorem Runs.reaches {a : α} {f : α → Prog S E β} (h : M.Runs p s (.ok a) t) :
    M.Reaches (p >>= f) s (f a) t := by
  induction p generalizing s with
  | ret b =>
    rcases runs_ret.mp h with ⟨heq, rfl⟩
    cases heq
    exact .refl _ _
  | fail e =>
    rcases runs_fail.mp h with ⟨heq, -⟩
    cases heq
  | call o k ih =>
    rcases runs_call.mp h with ⟨s₁, r, s₂, hm, ha, hr⟩
    exact .call hm ha (ih r hr)

/-! ## Simulations -/

/-- Whatever `M` does, `N` can do as well: a state of `M` is seen as one of `N`, and `N` may have
to make some moves before it gives the same answer. -/
structure Simulation (M N : Machine S) where
  view : M.State → N.State
  moves : ∀ s s', M.move s s' → N.Moves (view s) (view s')
  answers : ∀ s o r s', M.answer s o r s' →
    ∃ t, N.Moves (view s) t ∧ N.answer t o r (view s')

variable {N : Machine S}

theorem Simulation.runs (φ : Simulation M N) (h : M.Runs p s x t) :
    N.Runs p (φ.view s) x (φ.view t) := by
  have hmoves : ∀ s s', M.Moves s s' → N.Moves (φ.view s) (φ.view s') := by
    intro s s' hm
    induction hm with
    | refl => exact .refl
    | tail _ hstep ih => exact ih.trans (φ.moves _ _ hstep)
  induction h with
  | ret a => exact .ret a _
  | fail e => exact .fail e _
  | call hm ha _ ih =>
    rcases φ.answers _ _ _ _ ha with ⟨t₁, hm', ha'⟩
    exact .call ((hmoves _ _ hm).trans hm') ha' ih

end Machine

end Interact
