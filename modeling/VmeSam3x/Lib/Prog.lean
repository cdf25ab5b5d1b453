import Mathlib.Data.List.Basic
import Mathlib.Logic.Equiv.Defs
import Mathlib.Tactic.Common

/-! # Interactive programs

A program that talks to its surroundings (a bus, a network stack, a device, other
tasks) is a finite tree: it returns, it fails, or it issues one operation and
continues with the answer. The tree is a monad, so a function of the source is
written as a `do` block, and one definition serves every reading of it:

* `run` answers the operations from a state machine (a device, a memory);
* `exec` answers them from an environment that sees the whole history, and
  records the trace;
* `Path` and `Post` speak of every answer the surroundings could give;
* `Rel` compares two programs that issue the same operations.
-/

namespace Interact

/-- An interface: the operations a program can issue and the type of each answer. -/
structure Sig where
  Op : Type
  Res : Op → Type

/-- A state machine that answers the operations of `S`. -/
abbrev Handler (S : Sig) (σ : Type) := (o : S.Op) → σ → S.Res o × σ

/-- One operation together with the answer it got. -/
structure Event (S : Sig) where
  op : S.Op
  res : S.Res op

/-- An environment answers each operation from everything that happened before it. -/
abbrev Env (S : Sig) := List (Event S) → (o : S.Op) → S.Res o

/-- The environment as a state machine whose state is the trace so far. -/
def Env.record {S : Sig} (env : Env S) : Handler S (List (Event S)) :=
  fun o tr => (env tr o, tr ++ [⟨o, env tr o⟩])

/-- How the operations of `S` appear among those of a larger interface `T`. -/
structure Hom (S T : Sig) where
  op : S.Op → T.Op
  res : (o : S.Op) → T.Res (op o) ≃ S.Res o

/-- An event of `S` seen as an event of `T`. -/
def Hom.event {S T : Sig} (f : Hom S T) (e : Event S) : Event T :=
  ⟨f.op e.op, (f.res e.op).symm e.res⟩

/-- A program over the interface `S` that fails with an `E` or returns an `α`. -/
inductive Prog (S : Sig) (E α : Type) where
  | ret (a : α)
  | fail (e : E)
  | call (o : S.Op) (k : S.Res o → Prog S E α)

namespace Prog

variable {S : Sig} {E α β γ : Type}

/-- Sequential composition: `f` continues at every leaf that returns. -/
def bind : Prog S E α → (α → Prog S E β) → Prog S E β
  | ret a, f => f a
  | fail e, _ => fail e
  | call o k, f => call o fun r => (k r).bind f

instance : Monad (Prog S E) where
  pure := ret
  bind := bind

/-- Issue one operation and return its answer. -/
def perform (o : S.Op) : Prog S E (S.Res o) := call o ret

/-- A pure computation that may fail, as a program without operations. -/
def ofExcept : Except E α → Prog S E α
  | .ok a => ret a
  | .error e => fail e

@[simp] theorem pure_eq_ret (a : α) : (pure a : Prog S E α) = ret a := rfl

@[simp] theorem ret_bind (a : α) (f : α → Prog S E β) : ret a >>= f = f a := rfl

@[simp] theorem fail_bind (e : E) (f : α → Prog S E β) : (fail e : Prog S E α) >>= f = fail e := rfl

@[simp] theorem call_bind (o : S.Op) (k : S.Res o → Prog S E α) (f : α → Prog S E β) :
    call o k >>= f = call o fun r => k r >>= f := rfl

@[simp] theorem perform_bind (o : S.Op) (f : S.Res o → Prog S E β) :
    perform o >>= f = call o f := rfl

@[simp] theorem ofExcept_ok (a : α) : (ofExcept (.ok a) : Prog S E α) = ret a := rfl

@[simp] theorem ofExcept_error (e : E) : (ofExcept (.error e) : Prog S E α) = fail e := rfl

theorem bind_ret (p : Prog S E α) : p >>= ret = p := by
  induction p with
  | ret a => rfl
  | fail e => rfl
  | call o k ih => simp only [call_bind, ih]

theorem bind_assoc' (p : Prog S E α) (f : α → Prog S E β) (g : β → Prog S E γ) :
    p >>= f >>= g = p >>= fun a => f a >>= g := by
  induction p with
  | ret a => rfl
  | fail e => rfl
  | call o k ih => simp only [call_bind, ih]

instance : LawfulMonad (Prog S E) :=
  LawfulMonad.mk' _ bind_ret (fun _ _ => rfl) bind_assoc'

@[simp] theorem map_ret (f : α → β) (a : α) : f <$> (ret a : Prog S E α) = ret (f a) := rfl

theorem map_eq_fail {f : α → β} {p : Prog S E α} {e : E} (h : f <$> p = fail e) : p = fail e := by
  cases p with
  | ret a => cases h
  | fail e' =>
    cases h
    rfl
  | call o k => cases h

/-! ## Running against a state machine -/

variable {σ : Type}

/-- Run a program, threading the state of the handler through its operations. -/
def run (h : Handler S σ) : Prog S E α → σ → Except E α × σ
  | ret a, s => (.ok a, s)
  | fail e, s => (.error e, s)
  | call o k, s => run h (k (h o s).1) (h o s).2

@[simp] theorem run_ret (h : Handler S σ) (a : α) (s : σ) :
    run h (ret a : Prog S E α) s = (.ok a, s) := rfl

@[simp] theorem run_fail (h : Handler S σ) (e : E) (s : σ) :
    run h (fail e : Prog S E α) s = (.error e, s) := rfl

@[simp] theorem run_call (h : Handler S σ) (o : S.Op) (k : S.Res o → Prog S E α) (s : σ) :
    run h (call o k) s = run h (k (h o s).1) (h o s).2 := rfl

/-- A sequence runs its first part and, if that returns, the second part from the
state it left. -/
theorem run_bind (h : Handler S σ) (p : Prog S E α) (f : α → Prog S E β) (s : σ) :
    run h (p >>= f) s =
      match run h p s with
      | (.ok a, s') => run h (f a) s'
      | (.error e, s') => (.error e, s') := by
  induction p generalizing s with
  | ret a => rfl
  | fail e => rfl
  | call o k ih => simp only [call_bind, run_call, ih]

/-! ## Environments and traces -/

/-- Run a program in an environment, from a given history. -/
def exec (env : Env S) (p : Prog S E α) (tr : List (Event S)) :
    Except E α × List (Event S) :=
  run (Env.record env) p tr

@[simp] theorem exec_ret (env : Env S) (a : α) (tr : List (Event S)) :
    exec env (ret a : Prog S E α) tr = (.ok a, tr) := rfl

@[simp] theorem exec_fail (env : Env S) (e : E) (tr : List (Event S)) :
    exec env (fail e : Prog S E α) tr = (.error e, tr) := rfl

@[simp] theorem exec_call (env : Env S) (o : S.Op) (k : S.Res o → Prog S E α)
    (tr : List (Event S)) :
    exec env (call o k) tr = exec env (k (env tr o)) (tr ++ [⟨o, env tr o⟩]) := rfl

theorem exec_bind (env : Env S) (p : Prog S E α) (f : α → Prog S E β) (tr : List (Event S)) :
    exec env (p >>= f) tr =
      match exec env p tr with
      | (.ok a, tr') => exec env (f a) tr'
      | (.error e, tr') => (.error e, tr') := by
  unfold exec
  rw [run_bind]
  rcases run (Env.record env) p tr with ⟨_ | _, _⟩ <;> rfl

theorem exec_map (env : Env S) (f : α → β) (p : Prog S E α) (tr : List (Event S)) :
    exec env (f <$> p) tr = ((exec env p tr).1.map f, (exec env p tr).2) := by
  rw [← bind_pure_comp, exec_bind]
  rcases exec env p tr with ⟨_ | _, _⟩ <;> rfl

/-! ## Paths

The paths of a program are its possible runs: one for every way its operations
can be answered. -/

/-- `Path p evs x`: with the answers recorded in `evs`, the program `p` ends in `x`. -/
inductive Path : Prog S E α → List (Event S) → Except E α → Prop
  | ret (a : α) : Path (ret a) [] (.ok a)
  | fail (e : E) : Path (fail e) [] (.error e)
  | call {o : S.Op} {k : S.Res o → Prog S E α} (r : S.Res o) {evs : List (Event S)}
      {x : Except E α} : Path (k r) evs x → Path (call o k) (⟨o, r⟩ :: evs) x

@[simp] theorem path_ret {a : α} {evs : List (Event S)} {x : Except E α} :
    Path (ret a : Prog S E α) evs x ↔ evs = [] ∧ x = .ok a := by
  constructor
  · rintro ⟨⟩
    exact ⟨rfl, rfl⟩
  · rintro ⟨rfl, rfl⟩
    exact Path.ret a

@[simp] theorem path_fail {e : E} {evs : List (Event S)} {x : Except E α} :
    Path (fail e : Prog S E α) evs x ↔ evs = [] ∧ x = .error e := by
  constructor
  · rintro ⟨⟩
    exact ⟨rfl, rfl⟩
  · rintro ⟨rfl, rfl⟩
    exact Path.fail e

theorem path_call {o : S.Op} {k : S.Res o → Prog S E α} {evs : List (Event S)}
    {x : Except E α} :
    Path (call o k) evs x ↔ ∃ r evs', evs = ⟨o, r⟩ :: evs' ∧ Path (k r) evs' x := by
  constructor
  · rintro ⟨⟩
    exact ⟨_, _, rfl, by assumption⟩
  · rintro ⟨r, evs', rfl, h⟩
    exact Path.call r h

theorem path_perform {o : S.Op} {evs : List (Event S)} {x : Except E (S.Res o)} :
    Path (perform o : Prog S E (S.Res o)) evs x ↔ ∃ r, evs = [⟨o, r⟩] ∧ x = .ok r := by
  rw [perform, path_call]
  constructor
  · rintro ⟨r, evs', rfl, h⟩
    obtain ⟨rfl, rfl⟩ := path_ret.mp h
    exact ⟨r, rfl, rfl⟩
  · rintro ⟨r, rfl, rfl⟩
    exact ⟨r, [], rfl, Path.ret r⟩

/-- A path that begins with an operation continues after its answer. -/
theorem path_perform_bind {o : S.Op} {f : S.Res o → Prog S E β} {evs : List (Event S)}
    {x : Except E β} :
    Path (perform o >>= f) evs x ↔ ∃ r evs', evs = ⟨o, r⟩ :: evs' ∧ Path (f r) evs' x :=
  path_call

/-- A path of a sequence is a path of its first part followed by one of its second,
or a path on which the first part fails. -/
theorem path_bind {p : Prog S E α} {f : α → Prog S E β} {evs : List (Event S)}
    {x : Except E β} :
    Path (p >>= f) evs x ↔
      (∃ a evs₁ evs₂, evs = evs₁ ++ evs₂ ∧ Path p evs₁ (.ok a) ∧ Path (f a) evs₂ x) ∨
      (∃ e, x = .error e ∧ Path p evs (.error e)) := by
  induction p generalizing evs with
  | ret a =>
    constructor
    · intro h
      exact .inl ⟨a, [], evs, rfl, Path.ret a, h⟩
    · rintro (⟨b, evs₁, evs₂, rfl, h₁, h₂⟩ | ⟨e, -, h⟩)
      · obtain ⟨rfl, hb⟩ := path_ret.mp h₁
        cases hb
        exact h₂
      · simp at h
  | fail e =>
    constructor
    · intro h
      obtain ⟨rfl, rfl⟩ := path_fail.mp h
      exact .inr ⟨e, rfl, Path.fail e⟩
    · rintro (⟨b, evs₁, evs₂, rfl, h₁, -⟩ | ⟨e', rfl, h⟩)
      · simp at h₁
      · obtain ⟨rfl, he⟩ := path_fail.mp h
        cases he
        exact Path.fail e
  | call o k ih =>
    rw [call_bind, path_call]
    constructor
    · rintro ⟨r, evs', rfl, h⟩
      rcases (ih r).mp h with ⟨a, evs₁, evs₂, rfl, h₁, h₂⟩ | ⟨e, rfl, h₁⟩
      · exact .inl ⟨a, ⟨o, r⟩ :: evs₁, evs₂, rfl, Path.call r h₁, h₂⟩
      · exact .inr ⟨e, rfl, Path.call r h₁⟩
    · rintro (⟨a, evs₁, evs₂, rfl, h₁, h₂⟩ | ⟨e, rfl, h₁⟩)
      · obtain ⟨r, evs', rfl, h⟩ := path_call.mp h₁
        exact ⟨r, evs' ++ evs₂, rfl, (ih r).mpr (.inl ⟨a, evs', evs₂, rfl, h, h₂⟩)⟩
      · obtain ⟨r, evs', rfl, h⟩ := path_call.mp h₁
        exact ⟨r, evs', rfl, (ih r).mpr (.inr ⟨e, rfl, h⟩)⟩

/-- A path of a sequence whose first part cannot fail, with what is known of the runs of that
part. -/
theorem path_bind_of_ok {R : List (Event S) → α → Prop} {p : Prog S E α} {f : α → Prog S E β}
    {evs : List (Event S)} {x : Except E β}
    (hp : ∀ evs y, Path p evs y → ∃ a, y = .ok a ∧ R evs a) (h : Path (p >>= f) evs x) :
    ∃ a evs₁ evs₂, evs = evs₁ ++ evs₂ ∧ R evs₁ a ∧ Path (f a) evs₂ x := by
  rcases path_bind.mp h with ⟨a, evs₁, evs₂, heq, h₁, h₂⟩ | ⟨e, -, h₁⟩
  · rcases hp evs₁ _ h₁ with ⟨a', ha, hR⟩
    cases ha
    exact ⟨a, evs₁, evs₂, heq, hR, h₂⟩
  · rcases hp evs _ h₁ with ⟨a', ha, -⟩
    cases ha

theorem Path.bind {p : Prog S E α} {f : α → Prog S E β} {evs₁ evs₂ : List (Event S)} {a : α}
    {x : Except E β} (h₁ : Path p evs₁ (.ok a)) (h₂ : Path (f a) evs₂ x) :
    Path (p >>= f) (evs₁ ++ evs₂) x :=
  path_bind.mpr (.inl ⟨a, evs₁, evs₂, rfl, h₁, h₂⟩)

theorem Path.map {p : Prog S E α} {evs : List (Event S)} {a : α} (h : Path p evs (.ok a))
    (f : α → β) : Path (f <$> p) evs (.ok (f a)) := by
  rw [← bind_pure_comp, ← List.append_nil evs]
  exact h.bind (Path.ret _)

/-- The answers determine the result. -/
theorem Path.unique {p : Prog S E α} {evs : List (Event S)} {x y : Except E α}
    (hx : Path p evs x) (hy : Path p evs y) : x = y := by
  induction hx with
  | ret a => exact (path_ret.mp hy).2.symm
  | fail e => exact (path_fail.mp hy).2.symm
  | call r _ ih =>
    cases hy with
    | call _ hy => exact ih hy

/-- `Answered env tr evs`: after the history `tr` the answers in `evs` are those of
the environment. -/
inductive Answered (env : Env S) : List (Event S) → List (Event S) → Prop
  | nil (tr : List (Event S)) : Answered env tr []
  | cons {tr evs : List (Event S)} (o : S.Op) (h : Answered env (tr ++ [⟨o, env tr o⟩]) evs) :
      Answered env tr (⟨o, env tr o⟩ :: evs)

theorem answered_append {env : Env S} {tr evs₁ evs₂ : List (Event S)} :
    Answered env tr (evs₁ ++ evs₂) ↔
      Answered env tr evs₁ ∧ Answered env (tr ++ evs₁) evs₂ := by
  induction evs₁ generalizing tr with
  | nil => simp [Answered.nil]
  | cons e evs₁ ih =>
    constructor
    · rintro ⟨⟩
      rename_i o h
      obtain ⟨h₁, h₂⟩ := ih.mp h
      exact ⟨.cons o h₁, by simpa using h₂⟩
    · rintro ⟨⟨⟩, h₂⟩
      rename_i o h
      exact .cons o (ih.mpr ⟨h, by simpa using h₂⟩)

theorem answered_cons {env : Env S} {tr evs : List (Event S)} {o : S.Op} {r : S.Res o} :
    Answered env tr (⟨o, r⟩ :: evs) ↔ r = env tr o ∧ Answered env (tr ++ [⟨o, r⟩]) evs := by
  constructor
  · rintro ⟨⟩
    exact ⟨rfl, by assumption⟩
  · rintro ⟨rfl, h⟩
    exact .cons o h

/-- An execution extends the history by a path with the environment's answers. -/
theorem exec_path (env : Env S) (p : Prog S E α) (tr : List (Event S)) :
    ∃ evs, (exec env p tr).2 = tr ++ evs ∧ Path p evs (exec env p tr).1 ∧
      Answered env tr evs := by
  induction p generalizing tr with
  | ret a => exact ⟨[], by simp, Path.ret a, .nil tr⟩
  | fail e => exact ⟨[], by simp, Path.fail e, .nil tr⟩
  | call o k ih =>
    obtain ⟨evs, htr, hp, ha⟩ := ih (env tr o) (tr ++ [⟨o, env tr o⟩])
    exact ⟨⟨o, env tr o⟩ :: evs, by simpa using htr, Path.call _ hp, .cons o ha⟩

/-- From an empty history the trace is the path itself. -/
theorem path_exec (env : Env S) (p : Prog S E α) :
    Path p (exec env p []).2 (exec env p []).1 ∧ Answered env [] (exec env p []).2 := by
  obtain ⟨evs, htr, hp, ha⟩ := exec_path env p []
  rw [htr, List.nil_append]
  exact ⟨hp, ha⟩

/-! ## Programs over a larger interface -/

/-- A program over `S` seen as a program over `T`. -/
def embed {T : Sig} (f : Hom S T) : Prog S E α → Prog T E α
  | ret a => ret a
  | fail e => fail e
  | call o k => call (f.op o) fun r => (k (f.res o r)).embed f

/-- The paths of an embedded program are the embedded paths. -/
theorem path_embed {T : Sig} {f : Hom S T} {p : Prog S E α} {evs : List (Event T)}
    {x : Except E α} :
    Path (p.embed f) evs x ↔ ∃ evs', evs = evs'.map f.event ∧ Path p evs' x := by
  induction p generalizing evs with
  | ret a => simp [embed]
  | fail e => simp [embed]
  | call o k ih =>
    rw [embed, path_call]
    constructor
    · rintro ⟨r, evs', rfl, h⟩
      obtain ⟨evs'', rfl, h'⟩ := (ih _).mp h
      exact ⟨⟨o, f.res o r⟩ :: evs'', by simp [Hom.event], Path.call _ h'⟩
    · rintro ⟨evs', rfl, h⟩
      obtain ⟨r, evs'', rfl, h'⟩ := path_call.mp h
      refine ⟨(f.res o).symm r, evs''.map f.event, rfl, (ih _).mpr ⟨evs'', rfl, ?_⟩⟩
      simpa using h'

/-- Run an embedded program on a state that holds the handler's state as a part: the
rest of the state is untouched. -/
theorem run_embed {T : Sig} {f : Hom S T} {τ : Type} {h : Handler S σ} {h' : Handler T τ}
    {get : τ → σ} {put : τ → σ → τ} (hget : ∀ w s, get (put w s) = s)
    (hput : ∀ w s s', put (put w s) s' = put w s') (hself : ∀ w, put w (get w) = w)
    (hh : ∀ o w, h' (f.op o) w = ((f.res o).symm (h o (get w)).1, put w (h o (get w)).2))
    (p : Prog S E α) (w : τ) :
    run h' (p.embed f) w = ((run h p (get w)).1, put w (run h p (get w)).2) := by
  induction p generalizing w with
  | ret a => simp [embed, hself]
  | fail e => simp [embed, hself]
  | call o k ih => rw [embed, run_call, hh, ih, run_call, hget, hput, Equiv.apply_symm_apply]

/-! ## Postconditions over every answer -/

/-- `Post Q F p`: whatever the surroundings answer, `p` returns only values in `Q`
and fails only with errors in `F`. -/
def Post (Q : α → Prop) (F : E → Prop) : Prog S E α → Prop
  | ret a => Q a
  | fail e => F e
  | call o k => ∀ r : S.Res o, Post Q F (k r)

theorem Post.mono {Q Q' : α → Prop} {F F' : E → Prop} {p : Prog S E α}
    (h : Post Q F p) (hQ : ∀ a, Q a → Q' a) (hF : ∀ e, F e → F' e) : Post Q' F' p := by
  induction p with
  | ret a => exact hQ a h
  | fail e => exact hF e h
  | call o k ih => exact fun r => ih r (h r)

theorem Post.true (p : Prog S E α) : Post (fun _ => True) (fun _ => True) p := by
  induction p with
  | ret a => trivial
  | fail e => trivial
  | call o k ih => exact ih

theorem Post.bind {Q : α → Prop} {Q' : β → Prop} {F : E → Prop} {p : Prog S E α}
    {f : α → Prog S E β} (h : Post Q F p) (hf : ∀ a, Q a → Post Q' F (f a)) :
    Post Q' F (p >>= f) := by
  induction p with
  | ret a => exact hf a h
  | fail e => exact h
  | call o k ih => exact fun r => ih r (h r)

/-- A program that cannot fail returns, on every machine. -/
theorem Post.run {Q : α → Prop} {p : Prog S E α} (h : Post Q (fun _ => False) p)
    (hd : Handler S σ) (s : σ) : ∃ a s', Prog.run hd p s = (.ok a, s') ∧ Q a := by
  induction p generalizing s with
  | ret a => exact ⟨a, s, rfl, h⟩
  | fail e => exact h.elim
  | call o k ih => exact ih _ (h _) _

/-- The same in an environment. -/
theorem Post.exec {Q : α → Prop} {p : Prog S E α} (h : Post Q (fun _ => False) p) (env : Env S)
    (tr : List (Event S)) : ∃ a tr', Prog.exec env p tr = (.ok a, tr') ∧ Q a :=
  h.run env.record tr

theorem Post.of_path {Q : α → Prop} {F : E → Prop} {p : Prog S E α} {evs : List (Event S)}
    {a : α} (hp : Post Q F p) (h : Path p evs (.ok a)) : Q a := by
  induction p generalizing evs with
  | ret b =>
    obtain ⟨-, hb⟩ := path_ret.mp h
    cases hb
    exact hp
  | fail e => simp at h
  | call o k ih =>
    obtain ⟨r, evs', -, h'⟩ := path_call.mp h
    exact ih r (hp r) h'

theorem Post.of_path_error {Q : α → Prop} {F : E → Prop} {p : Prog S E α} {evs : List (Event S)}
    {e : E} (hp : Post Q F p) (h : Path p evs (.error e)) : F e := by
  induction p generalizing evs with
  | ret b => simp at h
  | fail e' =>
    rcases path_fail.mp h with ⟨-, he⟩
    cases he
    exact hp
  | call o k ih =>
    rcases path_call.mp h with ⟨r, evs', -, h'⟩
    exact ih r (hp r) h'

/-- A path of a sequence whose first part cannot fail. -/
theorem Post.path_bind {Q : α → Prop} {p : Prog S E α} {f : α → Prog S E β}
    {evs : List (Event S)} {x : Except E β} (hp : Post Q (fun _ => False) p)
    (h : Path (p >>= f) evs x) :
    ∃ a evs₁ evs₂, evs = evs₁ ++ evs₂ ∧ Path p evs₁ (.ok a) ∧ Q a ∧ Path (f a) evs₂ x := by
  rcases Prog.path_bind.mp h with ⟨a, evs₁, evs₂, heq, h₁, h₂⟩ | ⟨e, -, h₁⟩
  · exact ⟨a, evs₁, evs₂, heq, h₁, hp.of_path h₁, h₂⟩
  · exact (hp.of_path_error h₁).elim

/-- Two continuations that agree on what a program can return. -/
theorem Post.bind_congr {Q : α → Prop} {F : E → Prop} {p : Prog S E α} {f g : α → Prog S E β}
    (h : Post Q F p) (hfg : ∀ a, Q a → f a = g a) : p >>= f = p >>= g := by
  induction p with
  | ret a => exact hfg a h
  | fail e => rfl
  | call o k ih =>
    rw [call_bind, call_bind]
    congr 1
    funext r
    exact ih r (h r)

/-- Equal sequences continue equally after every result of their first part. -/
theorem bind_left_cancel {p : Prog S E α} {f g : α → Prog S E β} {evs : List (Event S)} {a : α}
    (hp : Path p evs (.ok a)) (h : p >>= f = p >>= g) : f a = g a := by
  induction p generalizing evs with
  | ret a' =>
    obtain ⟨-, ha⟩ := path_ret.mp hp
    cases ha
    exact h
  | fail e => simp at hp
  | call o k ih =>
    obtain ⟨r, evs', -, hp'⟩ := path_call.mp hp
    rw [call_bind, call_bind, call.injEq] at h
    exact ih r hp' (congrFun (eq_of_heq h.2) r)

/-- The history only grows, so an environment can be told its first event beforehand. -/
theorem exec_cons (env : Env S) (p : Prog S E α) (e : Event S) (tr : List (Event S)) :
    exec env p (e :: tr) =
      ((exec (fun tr => env (e :: tr)) p tr).1, e :: (exec (fun tr => env (e :: tr)) p tr).2) := by
  induction p generalizing tr with
  | ret a => rfl
  | fail e => rfl
  | call o k ih =>
    rw [exec_call, exec_call, List.cons_append, ih]

/-- Programs that cannot be told apart in any environment are equal. -/
theorem eq_of_exec [Nonempty (Env S)] {p q : Prog S E α}
    (h : ∀ env : Env S, exec env p [] = exec env q []) : p = q := by
  obtain ⟨env₀⟩ := ‹Nonempty (Env S)›
  have hne : ∀ (o : S.Op) (k : S.Res o → Prog S E α), (exec env₀ (call o k) []).2 ≠ [] := by
    intro o k
    rw [exec_call, List.nil_append, exec_cons]
    simp
  induction p generalizing q with
  | ret a =>
    have h₀ := h env₀
    cases q with
    | ret b =>
      cases h₀
      rfl
    | fail e => cases h₀
    | call o k => exact absurd (congrArg Prod.snd h₀).symm (hne o k)
  | fail e =>
    have h₀ := h env₀
    cases q with
    | ret b => cases h₀
    | fail e' =>
      cases h₀
      rfl
    | call o k => exact absurd (congrArg Prod.snd h₀).symm (hne o k)
  | call o k ih =>
    have h₀ := h env₀
    cases q with
    | ret b => exact absurd (congrArg Prod.snd h₀) (hne o k)
    | fail e => exact absurd (congrArg Prod.snd h₀) (hne o k)
    | call o' k' =>
      obtain rfl : o = o' := by
        simp only [exec_call, List.nil_append, exec_cons] at h₀
        have := (List.cons.inj (congrArg Prod.snd h₀)).1
        exact congrArg Event.op this
      congr 1
      funext r
      -- an environment that answers `r` first and goes on as `env`
      refine ih r fun env => ?_
      classical
      have hr := h fun tr o' =>
        match tr with
        | [] => if ho : o = o' then ho ▸ r else env [] o'
        | _ :: tr => env tr o'
      simp only [exec_call, List.nil_append, exec_cons, dif_pos] at hr
      obtain ⟨hfst, hsnd⟩ := Prod.mk.inj hr
      exact Prod.ext hfst (List.cons.inj hsnd).2

/-! ## Kinds of operations -/

/-- All operations of the program are of the kind `K`. -/
def Uses (K : S.Op → Prop) : Prog S E α → Prop
  | ret _ => True
  | fail _ => True
  | call o k => K o ∧ ∀ r, Uses K (k r)

theorem Uses.mono {K K' : S.Op → Prop} {p : Prog S E α} (hp : p.Uses K) (hK : ∀ o, K o → K' o) :
    p.Uses K' := by
  induction p with
  | ret a => trivial
  | fail e => trivial
  | call o k ih => exact ⟨hK o hp.1, fun r => ih r (hp.2 r)⟩

theorem uses_ofExcept {K : S.Op → Prop} (x : Except E α) : (ofExcept x : Prog S E α).Uses K := by
  cases x <;> trivial

theorem Uses.bind {K : S.Op → Prop} {p : Prog S E α} {f : α → Prog S E β} (hp : p.Uses K)
    (hf : ∀ a, (f a).Uses K) : (p >>= f).Uses K := by
  induction p with
  | ret a => exact hf a
  | fail e => exact hp
  | call o k ih => exact ⟨hp.1, fun r => ih r (hp.2 r)⟩

/-- The same when something is known of the results of the first part. -/
theorem Uses.bind_post {K : S.Op → Prop} {Q : α → Prop} {F : E → Prop} {p : Prog S E α}
    {f : α → Prog S E β} (hp : p.Uses K) (hpost : Post Q F p) (hf : ∀ a, Q a → (f a).Uses K) :
    (p >>= f).Uses K := by
  induction p with
  | ret a => exact hf a hpost
  | fail e => exact hp
  | call o k ih => exact ⟨hp.1, fun r => ih r (hp.2 r) (hpost r)⟩

theorem Uses.perform_bind {K : S.Op → Prop} {o : S.Op} {f : S.Res o → Prog S E β} (ho : K o)
    (hf : ∀ r, (f r).Uses K) : (perform o >>= f).Uses K :=
  ⟨ho, hf⟩

theorem Uses.ite {K : S.Op → Prop} {c : Prop} [Decidable c] {p q : Prog S E α}
    (hp : p.Uses K) (hq : q.Uses K) : (if c then p else q).Uses K := by
  split
  · exact hp
  · exact hq

/-- The events of a path are of the kind of the program. -/
theorem Path.uses {K : S.Op → Prop} {p : Prog S E α} {evs : List (Event S)} {x : Except E α}
    (h : Path p evs x) (hp : p.Uses K) : ∀ e ∈ evs, K e.op := by
  induction h with
  | ret => exact fun _ he => nomatch he
  | fail => exact fun _ he => nomatch he
  | call r _ ih =>
    intro e he
    rcases List.mem_cons.mp he with rfl | he
    · exact hp.1
    · exact ih (hp.2 r) e he

/-! ## Simulation -/

/-- `Rel R p q`: the two programs issue the same operations in the same order,
fail alike, and return values related by `R`. -/
def Rel (R : α → β → Prop) : Prog S E α → Prog S E β → Prop
  | ret a, ret b => R a b
  | fail e, fail e' => e = e'
  | call o k, call o' k' => ∃ h : o = o', ∀ r, Rel R (k r) (k' (h ▸ r))
  | _, _ => False

@[simp] theorem rel_ret {R : α → β → Prop} {a : α} {b : β} :
    Rel R (ret a : Prog S E α) (ret b) ↔ R a b := Iff.rfl

theorem Rel.call {R : α → β → Prop} {o : S.Op} {k : S.Res o → Prog S E α}
    {k' : S.Res o → Prog S E β} (h : ∀ r, Rel R (k r) (k' r)) :
    Rel R (call o k) (call o k') := ⟨rfl, h⟩

theorem Rel.refl {R : α → α → Prop} (hR : ∀ a, R a a) (p : Prog S E α) : Rel R p p := by
  induction p with
  | ret a => exact hR a
  | fail e => rfl
  | call o k ih => exact Rel.call ih

/-- A program simulates itself, with what is known of its results. -/
theorem Rel.of_post {Q : α → Prop} {F : E → Prop} {p : Prog S E α} (h : Post Q F p) :
    Rel (fun a b => a = b ∧ Q a) p p := by
  induction p with
  | ret a => exact ⟨rfl, h⟩
  | fail e => rfl
  | call o k ih => exact Rel.call fun r => ih r (h r)

/-- Simulations compose along the structure of the left program. -/
theorem Rel.bind {R : α → β → Prop} {α' β' : Type} {R' : α' → β' → Prop}
    {p : Prog S E α} {q : Prog S E β} {f : α → Prog S E α'} {g : β → Prog S E β'}
    (h : Rel R p q) (hf : ∀ a b, R a b → Rel R' (f a) (g b)) :
    Rel R' (p >>= f) (q >>= g) := by
  induction p generalizing q with
  | ret a =>
    cases q with
    | ret b => exact hf a b h
    | fail e => exact h.elim
    | call o k => exact h.elim
  | fail e =>
    cases q with
    | ret b => exact h.elim
    | fail e' => exact h
    | call o k => exact h.elim
  | call o k ih =>
    cases q with
    | ret b => exact h.elim
    | fail e' => exact h.elim
    | call o' k' =>
      obtain ⟨rfl, hk⟩ := h
      exact Rel.call fun r => ih r (hk r)

/-- What is known of one of two related programs, for the other. -/
theorem Rel.post {R : α → β → Prop} {F : E → Prop} {Q : β → Prop} {p : Prog S E α}
    {q : Prog S E β} (h : Rel R p q) (hq : Post Q F q) :
    Post (fun a => ∃ b, R a b ∧ Q b) F p := by
  induction p generalizing q with
  | ret a =>
    cases q with
    | ret b => exact ⟨b, h, hq⟩
    | fail e => exact h.elim
    | call o k => exact h.elim
  | fail e =>
    cases q with
    | ret b => exact h.elim
    | fail e' =>
      obtain rfl : e = e' := h
      exact hq
    | call o k => exact h.elim
  | call o k ih =>
    cases q with
    | ret b => exact h.elim
    | fail e' => exact h.elim
    | call o' k' =>
      obtain ⟨rfl, hk⟩ := h
      exact fun r => ih r (hk r) (hq r)

/-- A related program runs as the other one does: the same operations are answered, and
the results are related. -/
theorem Rel.exec {R : α → β → Prop} {p : Prog S E α} {q : Prog S E β} (h : Rel R p q)
    (env : Env S) {tr tr' : List (Event S)} {b : β} (hq : Prog.exec env q tr = (.ok b, tr')) :
    ∃ a, Prog.exec env p tr = (.ok a, tr') ∧ R a b := by
  induction p generalizing q tr with
  | ret a =>
    cases q with
    | ret b' =>
      cases hq
      exact ⟨a, rfl, h⟩
    | fail e => exact h.elim
    | call o k => exact h.elim
  | fail e =>
    cases q with
    | ret b' => exact h.elim
    | fail e' => cases hq
    | call o k => exact h.elim
  | call o k ih =>
    cases q with
    | ret b' => exact h.elim
    | fail e' => exact h.elim
    | call o' k' =>
      obtain ⟨rfl, hk⟩ := h
      exact ih _ (hk _) hq

/-- Two programs related to a third one are related to each other. -/
theorem Rel.join {γ : Type} {R : α → γ → Prop} {R' : β → γ → Prop} {p : Prog S E α} {q : Prog S E β}
    {m : Prog S E γ} (hp : Rel R p m) (hq : Rel R' q m) :
    Rel (fun a b => ∃ c, R a c ∧ R' b c) p q := by
  induction m generalizing p q with
  | ret c =>
    cases p <;> first | exact hp.elim | skip
    cases q <;> first | exact hq.elim | skip
    exact ⟨c, hp, hq⟩
  | fail e =>
    cases p <;> first | exact hp.elim | skip
    cases q <;> first | exact hq.elim | skip
    exact Eq.trans hp (Eq.symm hq)
  | call o k ih =>
    cases p <;> first | exact hp.elim | skip
    cases q <;> first | exact hq.elim | skip
    rcases hp with ⟨rfl, hp⟩
    rcases hq with ⟨rfl, hq⟩
    exact Rel.call fun r => ih r (hp r) (hq r)

theorem Rel.mono {R R' : α → β → Prop} {p : Prog S E α} {q : Prog S E β} (h : Rel R p q)
    (hR : ∀ a b, R a b → R' a b) : Rel R' p q := by
  have hbind : Rel R' (p >>= ret) (q >>= ret) := h.bind hR
  rwa [bind_ret, bind_ret] at hbind

/-- Related programs, run after different histories by environments that answer the same from
there on, are answered the same operations, and both return or both fail. -/
theorem Rel.exec_pair {R : α → β → Prop} {p : Prog S E α} {q : Prog S E β} (h : Rel R p q)
    {env env' : Env S} {tr tr' : List (Event S)}
    (henv : ∀ evs o, env (tr ++ evs) o = env' (tr' ++ evs) o) :
    ∃ evs, (Prog.exec env p tr).2 = tr ++ evs ∧ (Prog.exec env' q tr').2 = tr' ++ evs ∧
      (Prog.exec env p tr).1.map (fun _ => ()) = (Prog.exec env' q tr').1.map fun _ => () := by
  induction p generalizing q tr tr' with
  | ret a =>
    cases q <;> first | exact h.elim | skip
    exact ⟨[], by simp, by simp, rfl⟩
  | fail e =>
    cases q <;> first | exact h.elim | skip
    rcases h with rfl
    exact ⟨[], by simp, by simp, rfl⟩
  | call o k ih =>
    cases q <;> first | exact h.elim | skip
    rcases h with ⟨rfl, hk⟩
    have hans : env tr o = env' tr' o := by
      have := henv [] o
      rwa [List.append_nil, List.append_nil] at this
    have hnext : ∀ evs o', env (tr ++ [⟨o, env tr o⟩] ++ evs) o' =
        env' (tr' ++ [⟨o, env tr o⟩] ++ evs) o' := by
      intro evs o'
      rw [List.append_assoc, List.append_assoc]
      exact henv _ o'
    rcases ih (env tr o) (hk _) hnext with ⟨evs, h₁, h₂, h₃⟩
    refine ⟨⟨o, env tr o⟩ :: evs, ?_, ?_, ?_⟩
    · rw [exec_call, h₁, List.append_assoc]
      rfl
    · rw [exec_call, ← hans, h₂, List.append_assoc]
      rfl
    · rw [exec_call, exec_call, ← hans]
      exact h₃

end Prog
end Interact
