import VmeSam3x.Lib.Prog
import Mathlib.Logic.Function.Basic
import Mathlib.Data.List.Induction

/-! # Interleaved tasks

Any number of tasks call procedures that work on one shared state. Each operation
of a procedure is one atomic step; between two of them every other task may move.
A run is the list of its steps: a task starts a call, performs one operation of
it, or finishes it.

What a procedure may do in which order is said by a `Protocol`: a small automaton
whose phases a running call goes through. An invariant is then stated over the
shared state and the phases, and `Run.invariant` reduces it to one obligation for
each kind of step, however many tasks there are and however they interleave.
-/

namespace Interact

/-! ## Systems -/

/-- Procedures over a shared state. `step s ev s'` says that the operation of `ev`
can be answered as recorded in `ev` when the shared state is `s`, and leaves `s'`. -/
structure System where
  S : Sig
  E : Type
  Out : Type
  Call : Type
  Shared : Type
  body : Call → Prog S E Out
  step : Shared → Event S → Shared → Prop

namespace System

/-- A task is idle or inside a call, with the rest of the procedure before it. -/
inductive Task (sys : System) where
  | idle
  | running (call : sys.Call) (rest : Prog sys.S sys.E sys.Out)

structure Config (sys : System) (T : Type) where
  shared : sys.Shared
  tasks : T → sys.Task

/-- One step of a run. -/
inductive Label (sys : System) (T : Type) where
  | start (t : T) (call : sys.Call)
  | exec (t : T) (call : sys.Call) (ev : Event sys.S)
  | finish (t : T) (call : sys.Call) (out : Except sys.E sys.Out)

variable {sys : System} {T : Type}

/-! ## Moments of a call -/

/-- The step starts or finishes a call of `t`. -/
def Label.Bounds (t : T) : sys.Label T → Prop
  | .start t' _ => t' = t
  | .exec _ _ _ => False
  | .finish t' _ _ => t' = t

/-- `During tr t call tr₁`: after the steps `tr` task `t` is inside `call`, and `tr₁` is
a moment of the run since that call started. -/
def During (tr : List (sys.Label T)) (t : T) (call : sys.Call) (tr₁ : List (sys.Label T)) : Prop :=
  ∃ pre mid mid', tr = pre ++ .start t call :: (mid ++ mid') ∧ tr₁ = pre ++ .start t call :: mid ∧
    ∀ l ∈ mid ++ mid', ¬ l.Bounds t

variable {tr tr₁ : List (sys.Label T)} {t : T} {call : sys.Call} {l : sys.Label T}

theorem During.start : During (tr ++ [.start t call]) t call (tr ++ [.start t call]) :=
  ⟨tr, [], [], by simp, by simp, by simp⟩

/-- A moment stays one while the call goes on. -/
theorem During.snoc (h : During tr t call tr₁) (hl : ¬ l.Bounds t) :
    During (tr ++ [l]) t call tr₁ := by
  obtain ⟨pre, mid, mid', rfl, rfl, hm⟩ := h
  refine ⟨pre, mid, mid' ++ [l], by simp, rfl, fun l' hl' => ?_⟩
  rw [← List.append_assoc, List.mem_append, List.mem_singleton] at hl'
  rcases hl' with hl' | rfl
  · exact hm l' hl'
  · exact hl

/-- The present is a moment of the call. -/
theorem During.now (h : During tr t call tr₁) : During tr t call tr := by
  obtain ⟨pre, mid, mid', rfl, rfl, hm⟩ := h
  exact ⟨pre, mid ++ mid', [], by simp, rfl, by simpa using hm⟩

/-- The start of the current call is found where the last one of the run is. -/
theorem During.eq_of_start {pre mid : List (sys.Label T)} {call' : sys.Call}
    (h : During (pre ++ .start t call' :: mid) t call tr₁) (hmid : ∀ l ∈ mid, ¬ l.Bounds t) :
    call = call' ∧ ∃ mid₁, mid₁ <+: mid ∧ tr₁ = pre ++ .start t call' :: mid₁ := by
  obtain ⟨pre', mid₁, mid₂, htr, rfl, hm⟩ := h
  rcases List.append_eq_append_iff.mp htr with ⟨as, rfl, has⟩ | ⟨bs, rfl, hbs⟩
  · cases as with
    | nil =>
      simp only [List.nil_append, List.cons.injEq, Label.start.injEq, true_and] at has
      obtain ⟨rfl, rfl⟩ := has
      exact ⟨rfl, mid₁, List.prefix_append _ _, by simp⟩
    | cons a as =>
      simp only [List.cons_append, List.cons.injEq] at has
      exact absurd rfl (hmid (.start t call) (by simp [has.2]))
  · cases bs with
    | nil =>
      simp only [List.nil_append, List.cons.injEq, Label.start.injEq, true_and] at hbs
      obtain ⟨rfl, rfl⟩ := hbs
      exact ⟨rfl, mid₁, List.prefix_append _ _, by simp⟩
    | cons b bs =>
      simp only [List.cons_append, List.cons.injEq] at hbs
      exact absurd rfl (hm (.start t call') (by simp [hbs.2]))

/-! ## What a task did last -/

/-- Task `t` has performed an operation in `p`, and since then none in `q`. -/
def Since (t : T) (p q : Event sys.S → Prop) (tr : List (sys.Label T)) : Prop :=
  ∃ pre call ev post, tr = pre ++ .exec t call ev :: post ∧ p ev ∧
    ∀ call' ev', .exec t call' ev' ∈ post → ¬ q ev'

section Since

variable {p q : Event sys.S → Prop} {ev : Event sys.S}

@[simp] theorem not_since_nil : ¬ Since t p q ([] : List (sys.Label T)) := by
  rintro ⟨pre, call, ev, post, htr, -⟩
  simp at htr

/-- One more step of the run is either the operation itself or keeps it. -/
theorem since_snoc : Since t p q (tr ++ [l]) ↔
    (∃ call ev, l = .exec t call ev ∧ p ev) ∨
      Since t p q tr ∧ ∀ call ev, l = .exec t call ev → ¬ q ev := by
  constructor
  · rintro ⟨pre, call, ev, post, htr, hp, hq⟩
    rcases List.eq_nil_or_concat post with rfl | ⟨post, l', rfl⟩
    · obtain ⟨-, hl⟩ := List.append_inj' htr rfl
      exact .inl ⟨call, ev, by simpa using hl, hp⟩
    · rw [List.concat_eq_append, ← List.cons_append, ← List.append_assoc] at htr
      obtain ⟨rfl, hl⟩ := List.append_inj' htr rfl
      obtain rfl := List.singleton_inj.mp hl
      refine .inr ⟨⟨pre, call, ev, post, rfl, hp, fun c e h => hq c e (by simp [h])⟩, ?_⟩
      rintro c e rfl
      exact hq c e (by simp)
  · rintro (⟨call, ev, rfl, hp⟩ | ⟨⟨pre, call, ev, post, rfl, hp, hq⟩, hl⟩)
    · exact ⟨tr, call, ev, [], rfl, hp, by simp⟩
    · refine ⟨pre, call, ev, post ++ [l], by simp, hp, fun c e h => ?_⟩
      rcases List.mem_append.mp h with h | h
      · exact hq c e h
      · exact hl c e (List.mem_singleton.mp h).symm

/-- An operation of the task itself. -/
@[simp] theorem since_exec : Since t p q (tr ++ [.exec t call ev]) ↔ p ev ∨ Since t p q tr ∧ ¬ q ev := by
  rw [since_snoc]
  constructor
  · rintro (⟨_, _, ⟨⟩, hp⟩ | ⟨h, hq⟩)
    · exact .inl hp
    · exact .inr ⟨h, hq _ _ rfl⟩
  · rintro (hp | ⟨h, hq⟩)
    · exact .inl ⟨_, _, rfl, hp⟩
    · refine .inr ⟨h, ?_⟩
      rintro _ _ ⟨⟩
      exact hq

/-- A step that is no operation of the task. -/
theorem since_of_ne (hl : ∀ call ev, l ≠ .exec t call ev) :
    Since t p q (tr ++ [l]) ↔ Since t p q tr := by
  rw [since_snoc]
  constructor
  · rintro (⟨call, ev, h, -⟩ | ⟨h, -⟩)
    · exact absurd h (hl call ev)
    · exact h
  · exact fun h => .inr ⟨h, fun call ev h => absurd h (hl call ev)⟩

end Since

/-! ## What followed a step -/

/-- `J` holds of the steps after each one in `mark`. -/
def AfterEach (mark : sys.Label T → Prop) (J : List (sys.Label T) → Prop)
    (tr : List (sys.Label T)) : Prop :=
  ∀ pre l mid, tr = pre ++ l :: mid → mark l → J mid

/-- One more step goes to the end of what followed, or is the marked one itself. -/
theorem AfterEach.snoc {mark : sys.Label T → Prop} {J J' : List (sys.Label T) → Prop}
    (h : AfterEach mark J tr) (hstep : ∀ mid, J mid → J' (mid ++ [l]))
    (hmark : mark l → J' []) : AfterEach mark J' (tr ++ [l]) := by
  intro pre l' mid htr hl'
  rcases List.eq_nil_or_concat mid with rfl | ⟨mid, l'', rfl⟩
  · have hl := (List.append_inj' htr rfl).2
    rcases List.singleton_inj.mp hl with rfl
    exact hmark hl'
  · rw [List.concat_eq_append, ← List.cons_append, ← List.append_assoc] at htr
    rcases List.append_inj' htr rfl with ⟨hpre, hl⟩
    rcases List.singleton_inj.mp hl with rfl
    rw [List.concat_eq_append]
    exact hstep mid (h pre l' mid hpre hl')

/-! ## Runs -/

variable [DecidableEq T]

/-- The configuration after task `t` has become `x` and the shared state `s`. -/
def Config.move (c : sys.Config T) (t : T) (x : sys.Task) (s : sys.Shared) : sys.Config T :=
  ⟨s, Function.update c.tasks t x⟩

/-- The steps of a configuration. -/
inductive Step (c : sys.Config T) : sys.Label T → sys.Config T → Prop
  | start {t : T} {call : sys.Call} (ht : c.tasks t = .idle) :
      Step c (.start t call) (c.move t (.running call (sys.body call)) c.shared)
  | exec {t : T} {call : sys.Call} {o : sys.S.Op} {k : sys.S.Res o → Prog sys.S sys.E sys.Out}
      {r : sys.S.Res o} {s' : sys.Shared} (ht : c.tasks t = .running call (.call o k))
      (hs : sys.step c.shared ⟨o, r⟩ s') :
      Step c (.exec t call ⟨o, r⟩) (c.move t (.running call (k r)) s')
  | finish {t : T} {call : sys.Call} {p : Prog sys.S sys.E sys.Out} {out : Except sys.E sys.Out}
      (ht : c.tasks t = .running call p) (hp : Prog.Path p [] out) :
      Step c (.finish t call out) (c.move t .idle c.shared)

/-- `Run guard init tr c`: the steps `tr` lead from `init`, with all tasks idle, to
`c`. Every step satisfies `guard` in the configuration it is taken in. -/
inductive Run (guard : sys.Config T → sys.Label T → Prop) (init : sys.Shared) :
    List (sys.Label T) → sys.Config T → Prop
  | nil : Run guard init [] ⟨init, fun _ => .idle⟩
  | snoc {tr : List (sys.Label T)} {c c' : sys.Config T} {l : sys.Label T}
      (h : Run guard init tr c) (hg : guard c l) (hs : Step c l c') : Run guard init (tr ++ [l]) c'

variable {guard : sys.Config T → sys.Label T → Prop} {init : sys.Shared}

/-- The last step of a run. -/
theorem Run.last {tr : List (sys.Label T)} {l : sys.Label T} {c' : sys.Config T}
    (h : Run guard init (tr ++ [l]) c') : ∃ c, Run guard init tr c ∧ guard c l ∧ Step c l c' := by
  generalize htr : tr ++ [l] = tr' at h
  cases h with
  | nil => simp at htr
  | snoc h hg hs =>
    obtain ⟨rfl, hl⟩ := List.append_inj' htr rfl
    obtain rfl := List.singleton_inj.mp hl
    exact ⟨_, h, hg, hs⟩

/-- Every beginning of a run is a run. -/
theorem Run.of_append {tr₁ tr₂ : List (sys.Label T)} {c : sys.Config T}
    (h : Run guard init (tr₁ ++ tr₂) c) : ∃ c₁, Run guard init tr₁ c₁ := by
  induction tr₂ using List.reverseRecOn generalizing c with
  | nil => exact ⟨c, by simpa using h⟩
  | append_singleton tr₂ l ih =>
    rw [← List.append_assoc] at h
    obtain ⟨c', h', -, -⟩ := h.last
    exact ih h'

/-- A step in the middle of a run. -/
theorem Run.split {tr₁ tr₂ : List (sys.Label T)} {l : sys.Label T} {c : sys.Config T}
    (h : Run guard init (tr₁ ++ l :: tr₂) c) :
    ∃ c₁ c₂, Run guard init tr₁ c₁ ∧ guard c₁ l ∧ Step c₁ l c₂ := by
  rw [List.append_cons] at h
  obtain ⟨c₂, h⟩ := h.of_append
  obtain ⟨c₁, h, hg, hs⟩ := h.last
  exact ⟨c₁, c₂, h, hg, hs⟩

/-- Steps from a given configuration on, the first one in front. -/
inductive Steps (guard : sys.Config T → sys.Label T → Prop) :
    sys.Config T → List (sys.Label T) → sys.Config T → Prop
  | nil {c : sys.Config T} : Steps guard c [] c
  | cons {c c' c'' : sys.Config T} {l : sys.Label T} {tr : List (sys.Label T)} (hg : guard c l)
      (hs : Step c l c') (h : Steps guard c' tr c'') : Steps guard c (l :: tr) c''

theorem Run.append {tr tr' : List (sys.Label T)} {c c' : sys.Config T}
    (h : Run guard init tr c) (h' : Steps guard c tr' c') : Run guard init (tr ++ tr') c' := by
  induction h' generalizing tr with
  | nil => simpa using h
  | cons hg hs _ ih =>
    have := ih (h.snoc hg hs)
    rwa [List.append_assoc] at this

/-! ## Ending a call -/

/-- Every operation can be answered. -/
def Total (sys : System) : Prop := ∀ s o, ∃ r s', sys.step s ⟨o, r⟩ s'

/-- The step is one of task `t` inside a call. -/
def Label.Inside (t : T) : sys.Label T → Prop
  | .start _ _ => False
  | .exec t' _ _ => t' = t
  | .finish t' _ _ => t' = t

/-- Where every operation can be answered, a task can end its call by steps of its own. -/
theorem Total.finish (htotal : Total sys) {t : T}
    (hguard : ∀ (c : sys.Config T) (l : sys.Label T), l.Inside t → guard c l)
    {call : sys.Call} {p : Prog sys.S sys.E sys.Out} {c : sys.Config T}
    (ht : c.tasks t = .running call p) :
    ∃ tr c' out, Steps guard c tr c' ∧ (∀ l ∈ tr, l.Inside t) ∧ .finish t call out ∈ tr := by
  -- the rest of the procedure is a finite tree
  induction p generalizing c with
  | ret a =>
    refine ⟨[.finish t call (.ok a)], _, .ok a, .cons (hguard _ _ rfl) (.finish ht (.ret a)) .nil, ?_, ?_⟩
    · simp [Label.Inside]
    · exact List.mem_singleton.mpr rfl
  | fail e =>
    refine ⟨[.finish t call (.error e)], _, .error e, .cons (hguard _ _ rfl) (.finish ht (.fail e)) .nil,
      ?_, ?_⟩
    · simp [Label.Inside]
    · exact List.mem_singleton.mpr rfl
  | call o k ih =>
    rcases htotal c.shared o with ⟨r, s', hs⟩
    have hnext : (c.move t (.running call (k r)) s').tasks t = .running call (k r) := by
      simp [Config.move]
    rcases ih r hnext with ⟨tr, c', out, hsteps, hin, hmem⟩
    refine ⟨.exec t call ⟨o, r⟩ :: tr, c', out, .cons (hguard _ _ rfl) (.exec ht hs) hsteps, ?_, ?_⟩
    · intro l hl
      rcases List.mem_cons.mp hl with rfl | hl
      · rfl
      · exact hin l hl
    · exact List.mem_cons_of_mem _ hmem

end System

/-! ## Protocols -/

/-- The order in which a call performs its operations: the phase it starts in, the
phase after an answered operation, and the results it may finish with. `possible`
holds of every answer that can occur. -/
structure Protocol (sys : System) where
  Phase : Type
  enter : sys.Call → Phase
  possible : Event sys.S → Prop
  trans : sys.Call → Phase → Event sys.S → Phase → Prop
  leave : sys.Call → Phase → Except sys.E sys.Out → Prop

namespace Protocol

variable {sys : System} (P : Protocol sys) {α β : Type}

/-- `P.Follows call Q φ p`: from phase `φ` on, whatever it is answered, `p` performs only
operations the protocol allows to `call`, and ends in a phase and with a result in `Q`. -/
def Follows (call : sys.Call) (Q : P.Phase → Except sys.E α → Prop) :
    P.Phase → Prog sys.S sys.E α → Prop
  | φ, .ret a => Q φ (.ok a)
  | φ, .fail e => Q φ (.error e)
  | φ, .call o k => ∀ r, P.possible ⟨o, r⟩ →
    ∃ φ', P.trans call φ ⟨o, r⟩ φ' ∧ Follows call Q φ' (k r)

/-- Every call follows the protocol. -/
def Conforms : Prop := ∀ call, P.Follows call (P.leave call) (P.enter call) (sys.body call)

variable {P}

/-- A sequence follows the protocol if its second part takes over where the first
one ends. -/
theorem Follows.bind {call : sys.Call} {Q : P.Phase → Except sys.E α → Prop}
    {Q' : P.Phase → Except sys.E β → Prop} {φ : P.Phase} {p : Prog sys.S sys.E α}
    {f : α → Prog sys.S sys.E β} (h : P.Follows call Q φ p)
    (hf : ∀ φ' a, Q φ' (.ok a) → P.Follows call Q' φ' (f a))
    (he : ∀ φ' e, Q φ' (.error e) → Q' φ' (.error e)) : P.Follows call Q' φ (p >>= f) := by
  induction p generalizing φ with
  | ret a => exact hf _ _ h
  | fail e => exact he _ _ h
  | call o k ih =>
    intro r hr
    obtain ⟨φ', ht, hk⟩ := h r hr
    exact ⟨φ', ht, ih r hk⟩

/-- In a phase that no call leaves, a program that follows the protocol has an operation next. -/
theorem Follows.exists_call {call : sys.Call} {Q : P.Phase → Except sys.E α → Prop} {φ : P.Phase}
    {p : Prog sys.S sys.E α} (h : P.Follows call Q φ p) (hQ : ∀ x, ¬ Q φ x)
    (hpos : ∀ o, ∃ r, P.possible ⟨o, r⟩) :
    ∃ o k r φ', p = .call o k ∧ P.trans call φ ⟨o, r⟩ φ' := by
  cases p with
  | ret a => exact absurd h (hQ _)
  | fail e => exact absurd h (hQ _)
  | call o k =>
    rcases hpos o with ⟨r, hr⟩
    rcases h r hr with ⟨φ', ht, -⟩
    exact ⟨o, k, r, φ', rfl, ht⟩

theorem Follows.mono {call : sys.Call} {Q Q' : P.Phase → Except sys.E α → Prop} {φ : P.Phase}
    {p : Prog sys.S sys.E α} (h : P.Follows call Q φ p) (hQ : ∀ φ' x, Q φ' x → Q' φ' x) :
    P.Follows call Q' φ p := by
  induction p generalizing φ with
  | ret a => exact hQ _ _ h
  | fail e => exact hQ _ _ h
  | call o k ih =>
    intro r hr
    obtain ⟨φ', ht, hk⟩ := h r hr
    exact ⟨φ', ht, ih r hk⟩

theorem Follows.of_path {call : sys.Call} {Q : P.Phase → Except sys.E α → Prop} {φ : P.Phase}
    {p : Prog sys.S sys.E α} {x : Except sys.E α} (h : P.Follows call Q φ p)
    (hp : Prog.Path p [] x) : Q φ x := by
  cases hp with
  | ret a => exact h
  | fail e => exact h

variable {T : Type} {guard : sys.Config T → sys.Label T → Prop} {init : sys.Shared}

/-- The phases `φ` fit what every task still has to do. -/
def Paced (P : Protocol sys) (c : sys.Config T) (φ : T → Option (sys.Call × P.Phase)) : Prop :=
  ∀ t, match c.tasks t with
    | .idle => φ t = none
    | .running call p => ∃ x, φ t = some (call, x) ∧ P.Follows call (P.leave call) x p

theorem Paced.running {c : sys.Config T} {φ : T → Option (sys.Call × P.Phase)} (h : P.Paced c φ)
    {t : T} {call : sys.Call} {p : Prog sys.S sys.E sys.Out} (ht : c.tasks t = .running call p) :
    ∃ x, φ t = some (call, x) ∧ P.Follows call (P.leave call) x p := by
  have := h t
  rwa [ht] at this

/-- A task in a phase is inside the call of that phase. -/
theorem Paced.of_phase {c : sys.Config T} {φ : T → Option (sys.Call × P.Phase)} (h : P.Paced c φ)
    {t : T} {call : sys.Call} {x : P.Phase} (ht : φ t = some (call, x)) :
    ∃ p, c.tasks t = .running call p ∧ P.Follows call (P.leave call) x p := by
  have := h t
  split at this
  · rw [ht] at this
    cases this
  · rename_i call' p hc
    obtain ⟨y, hy, hf⟩ := this
    rw [ht] at hy
    cases hy
    exact ⟨p, hc, hf⟩

variable [DecidableEq T]

/-- An operation of a run is one that the protocol allows in the phase of its task. -/
theorem Paced.exec {c c' : sys.Config T} {φ : T → Option (sys.Call × P.Phase)} (h : P.Paced c φ)
    (hpos : ∀ s ev s', sys.step s ev s' → P.possible ev) {t : T} {call : sys.Call}
    {ev : Event sys.S} (hs : System.Step c (.exec t call ev) c') :
    ∃ x x', φ t = some (call, x) ∧ P.trans call x ev x' := by
  cases hs with
  | exec ht hs =>
    obtain ⟨x, hx, hf⟩ := h.running ht
    obtain ⟨x', htr, -⟩ := hf _ (hpos _ _ _ hs)
    exact ⟨x, x', hx, htr⟩

theorem Paced.move {c : sys.Config T} {φ : T → Option (sys.Call × P.Phase)} (h : P.Paced c φ)
    {t : T} {x : sys.Task} {s : sys.Shared} {φ' : Option (sys.Call × P.Phase)}
    (hx : match x with
      | .idle => φ' = none
      | .running call p => ∃ x, φ' = some (call, x) ∧ P.Follows call (P.leave call) x p) :
    P.Paced (c.move t x s) (Function.update φ t φ') := by
  intro u
  by_cases hu : u = t
  · subst hu
    simpa [System.Config.move] using hx
  · simpa [System.Config.move, hu] using h u

/-- An invariant over the steps taken, the shared state and the phases of the tasks,
with one obligation for each kind of step. -/
structure Keeps (P : Protocol sys) (guard : sys.Config T → sys.Label T → Prop)
    (init : sys.Shared)
    (Inv : List (sys.Label T) → sys.Shared → (T → Option (sys.Call × P.Phase)) → Prop) : Prop where
  nil : Inv [] init fun _ => none
  start : ∀ {tr c φ t call}, Inv tr c.shared φ → P.Paced c φ → φ t = none →
    guard c (.start t call) →
    Inv (tr ++ [.start t call]) c.shared (Function.update φ t (some (call, P.enter call)))
  exec : ∀ {tr c φ t call o k r s' x x'}, Inv tr c.shared φ → P.Paced c φ →
    c.tasks t = .running call (.call o k) → φ t = some (call, x) →
    guard c (.exec t call ⟨o, r⟩) → sys.step c.shared ⟨o, r⟩ s' → P.trans call x ⟨o, r⟩ x' →
    Inv (tr ++ [.exec t call ⟨o, r⟩]) s' (Function.update φ t (some (call, x')))
  finish : ∀ {tr c φ t call x out}, Inv tr c.shared φ → P.Paced c φ → φ t = some (call, x) →
    guard c (.finish t call out) → P.leave call x out →
    Inv (tr ++ [.finish t call out]) c.shared (Function.update φ t none)

/-- **Invariants over interleavings.** If every call follows the protocol and each
kind of step keeps the invariant, it holds after every run. -/
theorem Keeps.run {Inv : List (sys.Label T) → sys.Shared → (T → Option (sys.Call × P.Phase)) → Prop}
    (hI : P.Keeps guard init Inv) (hP : P.Conforms)
    (hpos : ∀ s ev s', sys.step s ev s' → P.possible ev) {tr : List (sys.Label T)}
    {c : sys.Config T} (h : System.Run guard init tr c) :
    ∃ φ, Inv tr c.shared φ ∧ P.Paced c φ := by
  induction h with
  | nil => exact ⟨_, hI.nil, fun _ => rfl⟩
  | @snoc tr c c' l h hg hs ih =>
    obtain ⟨φ, hinv, hp⟩ := ih
    cases hs with
    | @start t call ht =>
      have hφ : φ t = none := by
        have := hp t
        rwa [ht] at this
      have hinv' := hI.start hinv hp hφ hg
      exact ⟨_, hinv', hp.move ⟨_, rfl, hP _⟩⟩
    | exec ht hs =>
      obtain ⟨x, hx, hf⟩ := hp.running ht
      obtain ⟨x', htr, hk⟩ := hf _ (hpos _ _ _ hs)
      have hinv' := hI.exec hinv hp ht hx hg hs htr
      exact ⟨_, hinv', hp.move ⟨_, rfl, hk⟩⟩
    | finish ht hpath =>
      obtain ⟨x, hx, hf⟩ := hp.running ht
      have hinv' := hI.finish hinv hp hx hg (hf.of_path hpath)
      exact ⟨_, hinv', hp.move rfl⟩

/-! ## Exclusive ownership

A resource that a task takes and gives back in some of its phases. `free` says what holds
of the shared state while nobody has it, `owned` what holds while a task has it. -/

structure Exclusive (P : Protocol sys) where
  holds : P.Phase → Prop
  free : sys.Shared → Prop
  owned : P.Phase → sys.Shared → Prop
  enter : ∀ call, ¬ holds (P.enter call)
  leave : ∀ {call x out}, P.leave call x out → ¬ holds x
  /-- A step of the task that has the resource, or of any task while it is free. -/
  step : ∀ {call x x' s ev s'}, P.trans call x ev x' → sys.step s ev s' →
    (holds x ∧ owned x s ∨ ¬ holds x ∧ free s) → holds x' ∧ owned x' s' ∨ ¬ holds x' ∧ free s'
  /-- A step of a task while another one, in phase `y`, has the resource. -/
  other : ∀ {call x x' s ev s' y}, P.trans call x ev x' → sys.step s ev s' → ¬ holds x →
    holds y → owned y s → ¬ holds x' ∧ owned y s'

namespace Exclusive

variable {P : Protocol sys} (X : P.Exclusive)

/-- Task `t` has the resource. -/
def Has (φ : T → Option (sys.Call × P.Phase)) (t : T) : Prop := ∃ call x, φ t = some (call, x) ∧ X.holds x

/-- At most one task has the resource, and the shared state is as that requires. -/
inductive Guarded (s : sys.Shared) (φ : T → Option (sys.Call × P.Phase)) : Prop
  | free (hφ : ∀ t, ¬ X.Has φ t) (hs : X.free s) : Guarded s φ
  | owned {t : T} {call : sys.Call} {x : P.Phase} (ht : φ t = some (call, x)) (hx : X.holds x)
      (hs : X.owned x s) (hother : ∀ u, u ≠ t → ¬ X.Has φ u) : Guarded s φ

variable {X} {s s' : sys.Shared} {φ : T → Option (sys.Call × P.Phase)}

omit [DecidableEq T] in
theorem Guarded.unique (h : X.Guarded s φ) {t u : T} (ht : X.Has φ t) (hu : X.Has φ u) : t = u := by
  cases h with
  | free hφ => exact absurd ht (hφ t)
  | @owned v _ _ _ _ _ hother =>
    have howner : ∀ w, X.Has φ w → w = v := by
      intro w hw
      by_contra hne
      exact hother w hne hw
    rw [howner t ht, howner u hu]

omit [DecidableEq T] in
/-- While a task has the resource the shared state is as its phase requires. -/
theorem Guarded.of_has (h : X.Guarded s φ) {t : T} {call : sys.Call} {x : P.Phase}
    (ht : φ t = some (call, x)) (hx : X.holds x) : X.owned x s := by
  cases h with
  | free hφ => exact absurd ⟨call, x, ht, hx⟩ (hφ t)
  | @owned u _ _ hu _ hs hother =>
    by_cases htu : t = u
    · subst htu
      rw [ht] at hu
      cases hu
      exact hs
    · exact absurd ⟨call, x, ht, hx⟩ (hother t htu)

/-- A task that neither has the resource before nor after changes nobody's share. -/
theorem has_update_iff {t : T} {y : Option (sys.Call × P.Phase)} (ht : ¬ X.Has φ t)
    (hy : ∀ call x, y = some (call, x) → ¬ X.holds x) (u : T) :
    X.Has (Function.update φ t y) u ↔ X.Has φ u := by
  by_cases hu : u = t
  · subst hu
    refine iff_of_false ?_ ht
    rintro ⟨call, x, hx, hholds⟩
    rw [Function.update_self] at hx
    exact hy call x hx hholds
  · simp [Has, hu]

theorem Guarded.update (h : X.Guarded s φ) {t : T} {y : Option (sys.Call × P.Phase)}
    (ht : ¬ X.Has φ t) (hy : ∀ call x, y = some (call, x) → ¬ X.holds x) :
    X.Guarded s (Function.update φ t y) := by
  cases h with
  | free hφ hs => exact .free (fun u => by rw [has_update_iff ht hy]; exact hφ u) hs
  | @owned u call x hu hx hs hother =>
    have hut : u ≠ t := by
      rintro rfl
      exact ht ⟨call, x, hu, hx⟩
    refine .owned (t := u) (by rw [Function.update_of_ne hut, hu]) hx hs fun v hv => ?_
    rw [has_update_iff ht hy]
    exact hother v hv

/-- An operation keeps the ownership. -/
theorem Guarded.exec (h : X.Guarded s φ) {t : T} {call : sys.Call} {x x' : P.Phase}
    {ev : Event sys.S} (ht : φ t = some (call, x)) (htr : P.trans call x ev x')
    (hs : sys.step s ev s') : X.Guarded s' (Function.update φ t (some (call, x'))) := by
  have hself : Function.update φ t (some (call, x')) t = some (call, x') := Function.update_self _ _ _
  have hothers : ∀ u, u ≠ t → ¬ X.Has φ u → ¬ X.Has (Function.update φ t (some (call, x'))) u := by
    intro u hu hn
    simpa [Has, hu] using hn
  -- what follows if no task but `t` has the resource
  have hown : (∀ u, u ≠ t → ¬ X.Has φ u) →
      (X.holds x ∧ X.owned x s ∨ ¬ X.holds x ∧ X.free s) →
      X.Guarded s' (Function.update φ t (some (call, x'))) := by
    intro hφ hx
    rcases X.step htr hs hx with ⟨hx', hs'⟩ | ⟨hx', hs'⟩
    · exact .owned hself hx' hs' fun u hu => hothers u hu (hφ u hu)
    · refine .free (fun u => ?_) hs'
      by_cases hu : u = t
      · subst hu
        rintro ⟨call', y, hy, hholds⟩
        rw [hself] at hy
        cases hy
        exact hx' hholds
      · exact hothers u hu (hφ u hu)
  cases h with
  | free hφ hfree =>
    have hx : ¬ X.holds x := fun hx => hφ t ⟨call, x, ht, hx⟩
    exact hown (fun u _ => hφ u) (.inr ⟨hx, hfree⟩)
  | @owned u call' y hu hy howned hother =>
    by_cases hut : u = t
    · subst hut
      rw [ht] at hu
      cases hu
      exact hown hother (.inl ⟨hy, howned⟩)
    · have hx : ¬ X.holds x := fun hx => hother t (Ne.symm hut) ⟨call, x, ht, hx⟩
      obtain ⟨hx', howned'⟩ := X.other htr hs hx hy howned
      refine .owned (t := u) (by rw [Function.update_of_ne hut, hu]) hy howned' fun v hv => ?_
      by_cases hvt : v = t
      · subst hvt
        rintro ⟨call'', z, hz, hholds⟩
        rw [hself] at hz
        cases hz
        exact hx' hholds
      · exact hothers v hvt (hother v hv)

end Exclusive
end Protocol
end Interact
