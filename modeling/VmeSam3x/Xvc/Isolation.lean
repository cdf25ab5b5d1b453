import VmeSam3x.Xvc.Chain

/-! # Connections do not see each other

One record and one buffer serve all connections of the task, and the buffer is never
cleared. Only the bytes of the current request are ever looked at, though, and they are
all written before: two connections that start with different buffers perform the same
operations as long as they are answered the same.
-/

namespace Xvc

open Interact Interact.Prog Bytes

/-! ## The task -/

/-- The answers of `netconn_accept`: a connection, with what will be received on it; a reason
to try again later; or an error that ends the task. -/
inductive Accept where
  | accepted (ds : List Delivery)
  | retry
  | failed

/-- `xvc_server_connection_state_init`, with whatever the allocated memory holds. -/
def Conn.init (b : Buffer) : Conn := Conn.reset ⟨.notSet, b, 0, lengthNotSet⟩

/-- The outer loop of `vXvcServer`. -/
def acceptLoop : Conn → List Accept → XvcProg Conn
  | c, [] => return c
  | c, .accepted ds :: rest => do
    let c ← serveConnection c ds
    acceptLoop c rest
  | c, .retry :: rest => acceptLoop c rest
  | c, .failed :: _ => return c

/-! ## Two connections side by side -/

/-- The same part of a request has been received in both, over different buffers. -/
def Alike (c c' : Conn) : Prop :=
  ∃ b b' s, requestHead s = .more ∧ c = after b s ∧ c' = after b' s

/-- The ends of two iterations. -/
def AlikePass (z z' : Pass) : Prop :=
  z.1 = z'.1 ∧ (z.1 ≠ .error → z.2.2 = z'.2.2 ∧ Alike z.2.1 z'.2.1)

/-- The ends of two calls. -/
def AlikeReceived (r r' : Received) : Prop :=
  r.status = r'.status ∧ (r.status ≠ .error → Alike r.conn r'.conn)

theorem alike_nil (b b' : Buffer) : Alike (after b []) (after b' []) := ⟨b, b', [], rfl, rfl, rfl⟩

variable {b b' : Buffer} {s x : List U8} {k fuel : Nat} {status : Status} {next : List Pbuf}

/-- Two passes that served the same request. -/
theorem alikePass_of_handled {rest : List U8} {z z' : Pass} {status : Status}
    (h : Handled rest z status) (h' : Handled rest z' status) : AlikePass z z' := by
  rcases h with ⟨hz, h⟩
  rcases h' with ⟨hz', h'⟩
  refine ⟨hz.trans hz'.symm, ?_⟩
  intro hne
  rw [hz] at hne
  rcases h with ⟨-, hrest, b, hb⟩ | hstatus
  · rcases h' with ⟨-, hrest', b', hb'⟩ | hstatus
    · refine ⟨hrest.trans hrest'.symm, ?_⟩
      rw [hb, hb']
      exact alike_nil b b'
    · exact absurd hstatus hne
  · exact absurd hstatus hne

/-- One iteration depends on the bytes of the request only. -/
theorem pass_alike : Rel AlikePass (pass b k s) (pass b' k s) := by
  cases hs : requestHead s with
  | more =>
    rw [pass_more hs, pass_more hs]
    exact ⟨rfl, fun _ => ⟨rfl, b, b', s, hs, rfl, rfl⟩⟩
  | bad =>
    rcases @pass_bad b k s hs with ⟨c, p, hpass⟩
    rcases @pass_bad b' k s hs with ⟨c', p', hpass'⟩
    rw [hpass, hpass']
    exact ⟨rfl, fun hne => absurd rfl hne⟩
  | item q rest =>
    refine ((pass_item hs).join (pass_item hs)).mono ?_
    rintro z z' ⟨status, h, h'⟩
    exact alikePass_of_handled h h'

theorem iteration_alike (hs : requestHead s = .more) (hx : x ≠ []) :
    Rel AlikePass (iteration next status (after b s) x) (iteration next status (after b' s) x) := by
  -- whether the iteration runs into the assertion does not depend on the buffer
  rcases @iteration_chain b s next status x hs hx with ⟨hit, hlen, hnext⟩ | ⟨hit, hw⟩
  · rcases @iteration_chain b' s next status x hs hx with ⟨hit', -, -⟩ | ⟨hit', hw'⟩
    · rw [hit, hit']
      rfl
    · rcases hw' with hw' | hw'
      · omega
      · exact absurd hw' hnext
  · rcases @iteration_chain b' s next status x hs hx with ⟨hit', hlen', hnext'⟩ | ⟨hit', -⟩
    · rcases hw with hw | hw
      · omega
      · exact absurd hw hnext'
    · rw [hit, hit']
      exact pass_alike

/-- The loop of a call. -/
theorem receiveLoop_alike (hs : requestHead s = .more) :
    Rel AlikeReceived (receiveLoop fuel status (after b s) x next)
      (receiveLoop fuel status (after b' s) x next) := by
  induction fuel generalizing b b' s status x next with
  | zero => rfl
  | succ fuel ih =>
    by_cases hx : x = []
    · subst hx
      cases next with
      | nil => exact ⟨rfl, fun _ => ⟨b, b', s, hs, rfl, rfl⟩⟩
      | cons p next => exact ih hs
    · rw [receiveLoop_succ hx, receiveLoop_succ hx]
      refine (iteration_alike hs hx).bind ?_
      rintro ⟨status, c, p⟩ ⟨status', c', p'⟩ ⟨hstatus, hok⟩
      rcases (hstatus : status = status') with rfl
      unfold proceed
      by_cases herr : status = .error
      · rw [if_pos herr, if_pos herr]
        exact ⟨rfl, fun hne => absurd rfl hne⟩
      · -- the same bytes are left, and the states stand for the same beginning of a request
        rcases hok herr with ⟨hp, b₁, b₂, s₁, hs₁, hc, hc'⟩
        rcases (hp : p = p') with rfl
        rcases (hc : c = after b₁ s₁) with rfl
        rcases (hc' : c' = after b₂ s₁) with rfl
        rw [if_neg herr, if_neg herr]
        exact ih hs₁

theorem connectionLoop_alike {c c' : Conn} (h : Alike c c') (ds : List Delivery) :
    Rel (fun _ _ => True) (connectionLoop c ds) (connectionLoop c' ds) := by
  induction ds generalizing c c' with
  | nil => trivial
  | cons d ds ih =>
    refine (Rel.refl (R := Eq) (fun _ => rfl) (op .readState)).bind ?_
    rintro state _ rfl
    by_cases hstate : state ≠ .enabled
    · rw [if_pos hstate, if_pos hstate]
      trivial
    · rw [if_neg hstate, if_neg hstate]
      cases d with
      | timeout => exact ih h
      | failed => trivial
      | data p next =>
        rcases h with ⟨b, b', s, hs, rfl, rfl⟩
        have hcall : Rel AlikeReceived (handleReceive (after b s) p next)
            (handleReceive (after b' s) p next) := receiveLoop_alike hs
        refine hcall.bind ?_
        intro r r' hr
        rw [← hr.1]
        by_cases hok : r.status ≠ .ok
        · rw [if_pos hok, if_pos hok]
          trivial
        · rw [if_neg hok, if_neg hok]
          refine ih (hr.2 ?_)
          intro herr
          rw [herr] at hok
          exact hok (by simp)

theorem serveConnection_alike {c c' : Conn} (h : Alike c c') (ds : List Delivery) :
    Rel (fun _ _ => True) (serveConnection c ds) (serveConnection c' ds) := by
  refine (connectionLoop_alike h ds).bind ?_
  intro _ _ _
  exact Rel.call fun _ => trivial

/-! ## After any history -/

theorem reset_eq_after (c : Conn) : c.reset = after c.buffer [] := (after_nil c.buffer).symm

/-- Between two connections nothing but the buffer is left. -/
theorem acceptLoop_post (as : List Accept) (b : Buffer) :
    Post (fun c => ∃ b', c = after b' []) (fun _ => True) (acceptLoop (after b []) as) := by
  induction as generalizing b with
  | nil => exact ⟨b, rfl⟩
  | cons a as ih =>
    cases a with
    | retry => exact ih b
    | failed => exact ⟨b, rfl⟩
    | accepted ds =>
      have hserve : Post (fun c => ∃ b', c = after b' []) (fun _ => True)
          (serveConnection (after b []) ds) := by
        refine (Post.true (connectionLoop (after b []) ds)).bind ?_
        intro c _ _
        exact ⟨c.buffer, reset_eq_after c⟩
      refine hserve.bind ?_
      rintro c ⟨b', rfl⟩
      exact ih b'

theorem acceptLoop_exec {as : List Accept} {b : Buffer} {env : Env XvcSig} {c : Conn}
    {tr : List (Event XvcSig)} (h : exec env (acceptLoop (Conn.init b) as) [] = (.ok c, tr)) :
    ∃ b', c = after b' [] := by
  rw [Conn.init, reset_eq_after] at h
  have hpath := (path_exec env (acceptLoop (after b []) as)).1
  rw [h] at hpath
  exact (acceptLoop_post as b).of_path hpath

/-- **Isolation of connections.** Two tasks have served any connections. The next connection,
with the same deliveries and the same answers from then on, gets the same replies and is
closed at the same point. -/
theorem connections_isolated {b₁ b₂ : Buffer} {as₁ as₂ : List Accept} {env₁ env₂ : Env XvcSig}
    {c₁ c₂ : Conn} {tr₁ tr₂ : List (Event XvcSig)}
    (h₁ : exec env₁ (acceptLoop (Conn.init b₁) as₁) [] = (.ok c₁, tr₁))
    (h₂ : exec env₂ (acceptLoop (Conn.init b₂) as₂) [] = (.ok c₂, tr₂))
    (henv : ∀ evs o, env₁ (tr₁ ++ evs) o = env₂ (tr₂ ++ evs) o) (ds : List Delivery) :
    ∃ evs, (exec env₁ (serveConnection c₁ ds) tr₁).2 = tr₁ ++ evs ∧
      (exec env₂ (serveConnection c₂ ds) tr₂).2 = tr₂ ++ evs ∧
      (exec env₁ (serveConnection c₁ ds) tr₁).1.map (fun _ => ()) =
        (exec env₂ (serveConnection c₂ ds) tr₂).1.map fun _ => () := by
  rcases acceptLoop_exec h₁ with ⟨b, rfl⟩
  rcases acceptLoop_exec h₂ with ⟨b', rfl⟩
  exact (serveConnection_alike (alike_nil b b') ds).exec_pair henv

/-- A task that has just started, and one whose last client left in the middle of a shift. -/
theorem connections_isolated_after_shift :
    ∃ c₁ c₂ tr₁ tr₂,
      exec (cooperativeEnv fun _ => 8#32) (acceptLoop (Conn.init fun _ => 0) []) [] = (.ok c₁, tr₁) ∧
      exec (cooperativeEnv fun _ => 8#32) (acceptLoop (Conn.init fun _ => 0)
        [.accepted [.data (shiftName ++ [8, 0, 0, 0, 0xff]) [], .failed]]) [] = (.ok c₂, tr₂) ∧
      ∃ evs, (exec (cooperativeEnv fun _ => 8#32) (serveConnection c₁
          [.data getinfoName []]) tr₁).2 = tr₁ ++ evs ∧
        (exec (cooperativeEnv fun _ => 8#32) (serveConnection c₂
          [.data getinfoName []]) tr₂).2 = tr₂ ++ evs := by
  have h₁ : ∃ c tr, exec (cooperativeEnv fun _ => 8#32) (acceptLoop (Conn.init fun _ => 0) []) [] =
      (.ok c, tr) := ⟨_, _, rfl⟩
  have h₂ : ∃ c tr, exec (cooperativeEnv fun _ => 8#32) (acceptLoop (Conn.init fun _ => 0)
      [.accepted [.data (shiftName ++ [8, 0, 0, 0, 0xff]) [], .failed]]) [] = (.ok c, tr) :=
    ⟨_, _, rfl⟩
  rcases h₁ with ⟨c₁, tr₁, h₁⟩
  rcases h₂ with ⟨c₂, tr₂, h₂⟩
  rcases connections_isolated h₁ h₂ (fun _ o => by cases o <;> rfl) [.data getinfoName []] with
    ⟨evs, hevs, hevs', -⟩
  exact ⟨c₁, c₂, tr₁, tr₂, h₁, h₂, evs, hevs, hevs'⟩

end Xvc
