import VmeSam3x.Xvc.Pins
import VmeSam3x.Xvc.Waveform

/-! # A request to disable the server is not lost

A task that finds a shift in progress cannot disable the server; it leaves the request
in the state variable and returns. The shift finds it in its last critical section, but
that section publishes the state as enabled again, and the server is disabled only by
the call that follows. `Course` lists where a request can be after that, with the other
tasks enabling, disabling and following the cables in between.
-/

namespace Xvc

open Interact Interact.System Bytes

variable {T : Type}

/-! ## What a run shows -/

/-- One task serves the connections and shifts; the others enable, disable and follow the
cables. -/
def OneServer (server : T) (_ : xvcSystem.Config T) (l : xvcSystem.Label T) : Prop :=
  ∀ t call, l = .start t call → call.serves = true → t = server

/-- The step leaves a request to disable the server to the shift in progress. -/
def IsRequest (l : xvcSystem.Label T) : Prop := ∃ t call, l = .exec t call ⟨.disableEntry, .requested⟩

/-- The shift of the server has left its last critical section. -/
def Left (server : T) (mid : List (xvcSystem.Label T)) : Prop :=
  ∃ call r, .exec server call ⟨.shiftExit, r⟩ ∈ mid

/-- The server has been disabled. -/
def WasDisabled (mid : List (xvcSystem.Label T)) : Prop :=
  ∃ t call, .exec t call ⟨.disableExit, ()⟩ ∈ mid

/-- After the server had been disabled, task `t` has gone on to enable it, in a call that still
runs. -/
def Enabling (t : T) (call : Call) (mid : List (xvcSystem.Label T)) : Prop :=
  ∃ m rest, mid = m ++ .exec t call ⟨.enableEntry, .proceed⟩ :: rest ∧ WasDisabled m ∧
    ∀ l ∈ rest, ¬ l.Bounds t

/-- The server has been disabled, and after that a call has enabled it. -/
def Reenabled (mid : List (xvcSystem.Label T)) : Prop :=
  ∃ m t call rest, mid = m ++ .exec t call ⟨.enableExit .ok, ()⟩ :: rest ∧ Enabling t call m

/-- A step by which the server answers its client or returns. -/
def Answers (server : T) : xvcSystem.Label T → Prop
  | .exec t _ ev => t = server ∧ ((∃ payload, ev.op = .netconnWrite payload) ∨ ev.op = .netconnClose)
  | .finish t _ _ => t = server
  | .start _ _ => False

/-- A step by which it gives up: it closes the connection, or a shift returns an error. -/
def GivesUp (server : T) (l : xvcSystem.Label T) : Prop :=
  (∃ call, l = .exec server call ⟨.netconnClose, ()⟩) ∨
    ∃ args, l = .finish server (.shift args) (.ok .error)

/-- The server has said nothing yet. -/
def Silent (server : T) (mid : List (xvcSystem.Label T)) : Prop := ∀ l ∈ mid, ¬ Answers server l

/-- The first thing the server has done was to give up. -/
def GaveUp (server : T) (mid : List (xvcSystem.Label T)) : Prop :=
  ∃ m l rest, mid = m ++ l :: rest ∧ Silent server m ∧ GivesUp server l

/-! ## The course of a request -/

/-- The task is disabling the server. -/
def Own.takesDown : Own → Prop
  | .disabling => True
  | .config .disabling _ => True
  | .closing => True
  | _ => False

/-- The task is enabling the server. -/
def Own.bringsUp : Own → Prop
  | .enabling => True
  | .config .enabling _ => True
  | .opening _ => True
  | _ => False

/-- The task configures the pins of a disabled server. -/
def Own.follows : Own → Prop
  | .config .disabled _ => True
  | _ => False

/-- How far the request has come. -/
inductive Course (server : T) (mid : List (xvcSystem.Label T)) (s : Board)
    (φ : T → Option (Call × Own × Duty)) : Prop
  /-- The shift has not seen it. -/
  | waiting {call : Call} (hserver : φ server = some (call, .shifting, .normal))
      (hs : s.state = .disableRequested) (hleft : ¬ Left server mid)
  /-- The shift has seen it, and the server is enabled until it, or someone else, disables it. -/
  | seen {call : Call} (hleft : Left server mid)
      (hserver : φ server = some (call, .nothing, .mustDisable))
      (hs : s.state = .enabled)
  | falling {t : T} {call : Call} {x : Own × Duty} (hleft : Left server mid)
      (ht : φ t = some (call, x))
      (hown : x.1.takesDown)
  | disabled (hleft : Left server mid) (hs : s.state = .disabled) (hmid : WasDisabled mid)
  | following {t : T} {call : Call} {x : Own × Duty} (hleft : Left server mid)
      (ht : φ t = some (call, x))
      (hown : x.1.follows) (hmid : WasDisabled mid)
  | rising {t : T} {call : Call} {x : Own × Duty} (hleft : Left server mid)
      (ht : φ t = some (call, x))
      (hown : x.1.bringsUp) (hmid : Enabling t call mid)
  | completed (hleft : Left server mid) (hmid : Reenabled mid)

/-- What the server owes its client. -/
inductive Debt (server : T) (mid : List (xvcSystem.Label T)) (s : Board)
    (φ : T → Option (Call × Own × Duty)) : Prop
  | waiting {call : Call} (hserver : φ server = some (call, .shifting, .normal))
      (hs : s.state = .disableRequested) (hsilent : Silent server mid)
  | owing {call : Call} {x : Own × Duty} (hserver : φ server = some (call, x))
      (hx : x.2 ≠ .normal) (hsilent : Silent server mid)
  | paid (h : GaveUp server mid)

section Mid

variable {server t : T} {mid : List (xvcSystem.Label T)} {l : xvcSystem.Label T} {call : Call}

theorem WasDisabled.snoc (h : WasDisabled mid) : WasDisabled (mid ++ [l]) := by
  rcases h with ⟨t, call, hmem⟩
  exact ⟨t, call, List.mem_append_left _ hmem⟩

theorem WasDisabled.exit : WasDisabled (mid ++ [.exec t call ⟨.disableExit, ()⟩]) :=
  ⟨t, call, by simp⟩

theorem Enabling.enter (h : WasDisabled mid) :
    Enabling t call (mid ++ [.exec t call ⟨.enableEntry, .proceed⟩]) :=
  ⟨mid, [], rfl, h, by simp⟩

theorem Enabling.snoc (h : Enabling t call mid) (hl : ¬ l.Bounds t) :
    Enabling t call (mid ++ [l]) := by
  rcases h with ⟨m, rest, rfl, hm, hrest⟩
  refine ⟨m, rest ++ [l], by simp, hm, ?_⟩
  intro l' hl'
  rcases List.mem_append.mp hl' with hl' | hl'
  · exact hrest l' hl'
  · rw [List.mem_singleton.mp hl']
    exact hl

theorem Enabling.wasDisabled (h : Enabling t call mid) : WasDisabled mid := by
  rcases h with ⟨m, rest, rfl, ⟨u, call', hmem⟩, -⟩
  exact ⟨u, call', List.mem_append_left _ hmem⟩

theorem Reenabled.exit (h : Enabling t call mid) :
    Reenabled (mid ++ [.exec t call ⟨.enableExit .ok, ()⟩]) :=
  ⟨mid, t, call, [], rfl, h⟩

theorem Reenabled.snoc (h : Reenabled mid) : Reenabled (mid ++ [l]) := by
  rcases h with ⟨m, t, call, rest, rfl, hm⟩
  exact ⟨m, t, call, rest ++ [l], by simp, hm⟩

theorem Silent.snoc (h : Silent server mid) (hl : ¬ Answers server l) : Silent server (mid ++ [l]) := by
  intro l' hl'
  rcases List.mem_append.mp hl' with hl' | hl'
  · exact h l' hl'
  · rw [List.mem_singleton.mp hl']
    exact hl

theorem GaveUp.snoc (h : GaveUp server mid) : GaveUp server (mid ++ [l]) := by
  rcases h with ⟨m, l', rest, rfl, hm, hl'⟩
  exact ⟨m, l', rest ++ [l], by simp, hm, hl'⟩

theorem GaveUp.now (h : Silent server mid) (hl : GivesUp server l) : GaveUp server (mid ++ [l]) :=
  ⟨mid, l, [], rfl, h, hl⟩

theorem Left.exit {r : Bool} : Left server (mid ++ [.exec server call ⟨.shiftExit, r⟩]) :=
  ⟨call, r, by simp⟩

theorem Left.snoc (h : Left server mid) : Left server (mid ++ [l]) := by
  rcases h with ⟨call, r, hmem⟩
  exact ⟨call, r, List.mem_append_left _ hmem⟩

theorem not_left_snoc (h : ¬ Left server mid)
    (hl : ∀ call r, l ≠ .exec server call ⟨.shiftExit, r⟩) : ¬ Left server (mid ++ [l]) := by
  rintro ⟨call, r, hmem⟩
  rcases List.mem_append.mp hmem with hmem | hmem
  · exact h ⟨call, r, hmem⟩
  · exact hl call r (List.mem_singleton.mp hmem).symm

end Mid

/-! ## What one operation does to it -/

section Moves

variable {own own' : Own} {ev : Event XvcSig} {s s' : Board}

theorem Move.of_takesDown (hm : Move own ev own') (h : own.takesDown) :
    own'.takesDown ∨ ev = ⟨.disableExit, ()⟩ := by
  cases hm with
  | configDisabling => exact .inl trivial
  | configDisablingFails => exact .inl trivial
  | @sampleJtag e v => cases e <;> first | exact .inl trivial | exact h.elim
  | @sampleUsb e jtag v => cases e <;> first | exact .inl trivial | exact h.elim
  | @write e jtag usb ws ev => cases e <;> first | exact .inl trivial | exact h.elim
  | disablingDone => exact .inl trivial
  | disableExit => exact .inr rfl
  | _ => exact h.elim

theorem Move.of_follows (hm : Move own ev own') (h : own.follows) :
    own'.follows ∨ ev = ⟨.writeState .disabled, ()⟩ := by
  cases hm with
  | @sampleJtag e v => cases e <;> first | exact .inl trivial | exact h.elim
  | @sampleUsb e jtag v => cases e <;> first | exact .inl trivial | exact h.elim
  | @write e jtag usb ws ev => cases e <;> first | exact .inl trivial | exact h.elim
  | disabledDone => exact .inr rfl
  | _ => exact h.elim

theorem Move.of_bringsUp (hm : Move own ev own') (h : own.bringsUp) :
    own'.bringsUp ∨ ∃ status, ev = ⟨.enableExit status, ()⟩ := by
  cases hm with
  | configEnabling => exact .inl trivial
  | configEnablingFails => exact .inl trivial
  | @sampleJtag e v => cases e <;> first | exact .inl trivial | exact h.elim
  | @sampleUsb e jtag v => cases e <;> first | exact .inl trivial | exact h.elim
  | @write e jtag usb ws ev => cases e <;> first | exact .inl trivial | exact h.elim
  | enablingDone => exact .inl trivial
  | enablingAborted => exact .inr ⟨_, rfl⟩
  | enableExit => exact .inr ⟨_, rfl⟩
  | _ => exact h.elim

/-- The shift goes on, or finds the request. -/
theorem Move.of_shifting (hm : Move .shifting ev own') (hs : s.step ev s')
    (hst : s.state = .disableRequested) :
    (own' = .shifting ∧ s'.state = .disableRequested ∧ ev.op ≠ .shiftExit ∧ ev.op.plain = true) ∨
      own' = .nothing ∧ s'.state = .enabled ∧ ev = ⟨.shiftExit, true⟩ := by
  cases hm with
  | clearPins hmask =>
    rcases (by simpa [Board.step, hmask] using hs : s' = s) with rfl
    exact .inl ⟨rfl, hst, by simp, rfl⟩
  | setPins hmask =>
    rcases (by simpa [Board.step, hmask] using hs : s' = s) with rfl
    exact .inl ⟨rfl, hst, by simp, rfl⟩
  | samplePins =>
    rcases (hs : s' = s) with rfl
    exact .inl ⟨rfl, hst, by simp, rfl⟩
  | shiftExit =>
    rcases hs with ⟨rfl, rfl⟩
    refine .inr ⟨rfl, rfl, ?_⟩
    rw [hst]
    rfl

/-- The others wait for the shift. -/
theorem Move.of_requested (hm : Move .nothing ev own') (hs : s.step ev s')
    (hst : s.state = .disableRequested) : s'.state = .disableRequested := by
  cases hm with
  | disableStays => rw [hs.2, hst]; rfl
  | disable => rw [hs.2, hst]; rfl
  | enableStays => rw [hs.2, hst]; rfl
  | enable => rw [hs.2, hst]; rfl
  | configDisabled => rw [hs.2, hst]; rfl
  | configDisabledStays => rw [hs.2, hst]; rfl
  | shiftStays => rw [hs.2, hst]; rfl
  | shift => rw [hs.2, hst]; rfl
  | readState => rw [hs.2, hst]
  | readPin => rw [hs.2, hst]
  | netconnWrite => rw [show s' = s from hs, hst]
  | netconnClose => rw [show s' = s from hs, hst]

/-- While the server is enabled, a task may start to disable it or to shift. -/
theorem Move.of_enabled (hm : Move .nothing ev own') (hs : s.step ev s')
    (hst : s.state = .enabled) :
    own' = .disabling ∨ s'.state = .enabled ∧ ev.op ≠ .disableEntry ∨ ev = ⟨.shiftEntry, true⟩ := by
  cases hm with
  | disableStays hr =>
    have hans := hs.1
    rw [hst] at hans
    exact absurd hans hr
  | disable => exact .inl rfl
  | enableStays => exact .inr (.inl ⟨by rw [hs.2, hst]; rfl, by simp⟩)
  | enable =>
    have hans := hs.1
    rw [hst] at hans
    cases hans
  | configDisabled =>
    have hans := hs.1
    rw [hst] at hans
    cases hans
  | configDisabledStays => exact .inr (.inl ⟨by rw [hs.2, hst]; rfl, by simp⟩)
  | shiftStays =>
    have hans := hs.1
    rw [hst] at hans
    cases hans
  | shift => exact .inr (.inr rfl)
  | readState => exact .inr (.inl ⟨by rw [hs.2, hst], by simp⟩)
  | readPin => exact .inr (.inl ⟨by rw [hs.2, hst], by simp⟩)
  | netconnWrite => exact .inr (.inl ⟨by rw [show s' = s from hs, hst], by simp⟩)
  | netconnClose => exact .inr (.inl ⟨by rw [show s' = s from hs, hst], by simp⟩)

/-- While the server is disabled, a task may start to enable it or to follow the cables. -/
theorem Move.of_disabled (hm : Move .nothing ev own') (hs : s.step ev s')
    (hst : s.state = .disabled) :
    s'.state = .disabled ∨ own'.follows ∨ own' = .enabling ∧ ev = ⟨.enableEntry, .proceed⟩ := by
  cases hm with
  | disableStays => exact .inl (by rw [hs.2, hst]; rfl)
  | disable => exact .inl (by rw [hs.2, hst]; rfl)
  | enableStays hr =>
    have hans := hs.1
    rw [hst] at hans
    exact absurd hans hr
  | enable => exact .inr (.inr ⟨rfl, rfl⟩)
  | configDisabled => exact .inr (.inl trivial)
  | configDisabledStays =>
    have hans := hs.1
    rw [hst] at hans
    cases hans
  | shiftStays => exact .inl (by rw [hs.2, hst]; rfl)
  | shift => exact .inl (by rw [hs.2, hst]; rfl)
  | readState => exact .inl (by rw [hs.2, hst])
  | readPin => exact .inl (by rw [hs.2, hst])
  | netconnWrite => exact .inl (by rw [show s' = s from hs, hst])
  | netconnClose => exact .inl (by rw [show s' = s from hs, hst])

end Moves

theorem Duty.of_mustDisable {ev : Event XvcSig} {d : Duty} (h : Duty.mustDisable.next ev = some d) :
    ev.op = .disableEntry ∧ d = .mustClose := by
  rcases ev with ⟨o, r⟩
  cases o with
  | disableEntry => exact ⟨rfl, (Option.some.inj h).symm⟩
  | _ => cases h

/-- An open duty stays open until the connection is closed, and forbids a reply. -/
theorem Duty.of_ne_normal {d d' : Duty} {ev : Event XvcSig} (hd : d ≠ .normal)
    (h : d.next ev = some d') :
    ev = ⟨.netconnClose, ()⟩ ∨ d' ≠ .normal ∧ (∀ payload, ev.op ≠ .netconnWrite payload) ∧
      ev.op ≠ .netconnClose := by
  rcases ev with ⟨o, r⟩
  cases d with
  | normal => exact absurd rfl hd
  | mustDisable =>
    rcases Duty.of_mustDisable h with ⟨hop, rfl⟩
    rcases (hop : o = .disableEntry) with rfl
    exact .inr ⟨by simp, by simp, by simp⟩
  | mustClose =>
    cases o with
    | netconnClose => exact .inl rfl
    | netconnWrite payload => cases h
    | shiftEntry => cases h
    | _ =>
      cases h
      exact .inr ⟨by simp, by simp, by simp⟩

/-! ## What one step of a run does to it -/

/-- Only the server shifts, and a task that shifts has no duty yet. -/
def ServerShifts (server : T) (φ : T → Option (Call × Own × Duty)) : Prop :=
  ∀ t call x, φ t = some (call, x) →
    (call.serves = true → t = server) ∧ (x.1 = .shifting → call.serves = true ∧ x.2 = .normal)

section Steps

variable {server t u : T} {tr mid : List (xvcSystem.Label T)} {s s' : Board}
  {φ : T → Option (Call × Own × Duty)} {call call' : Call} {x x' y : Own × Duty} {ev : Event XvcSig}

theorem PinInv.nothing_of_rest (h : PinInv tr s φ) (hst : s.state = .enabled ∨ s.state = .disabled)
    (hx : φ t = some (call, x)) : x.1 = .nothing := by
  by_contra hown
  have hne := Own.OnBoard.state (h.guarded.of_has hx hown)
  rcases hst with hst | hst
  · exact hne.2 hst
  · exact hne.1 hst

theorem PinInv.nothing_of_ne (h : PinInv tr s φ) (hu : φ u = some (call', y)) (hy : y.1 ≠ .nothing)
    (hx : φ t = some (call, x)) (htu : t ≠ u) : x.1 = .nothing := by
  by_contra hown
  exact htu (h.guarded.unique ⟨call, x, hx, hown⟩ ⟨call', y, hu, hy⟩)

theorem Own.takesDown.ne {own : Own} (h : own.takesDown) : own ≠ .nothing := by
  rintro rfl
  exact h

theorem Own.follows.ne {own : Own} (h : own.follows) : own ≠ .nothing := by
  rintro rfl
  exact h

theorem Own.bringsUp.ne {own : Own} (h : own.bringsUp) : own ≠ .nothing := by
  rintro rfl
  exact h

/-- While bits are shifted, the server owns the pins. -/
theorem PinInv.server_of_io (h : PinInv tr s φ) (hserver : ServerShifts server φ)
    (hst : s.state = .ioInProgress) : ∃ call, φ server = some (call, .shifting, .normal) := by
  cases h.guarded with
  | free hφ hrest =>
    rcases hrest with ⟨hst', -⟩ | ⟨hst', -⟩
    · exact absurd (hst.symm.trans hst') (by simp)
    · exact absurd (hst.symm.trans hst') (by simp)
  | @owned u call y hu hy howned hother =>
    rcases y with ⟨own, d⟩
    have hown : own = .shifting := by
      cases own with
      | shifting => rfl
      | nothing => exact absurd rfl hy
      | disabling => exact absurd (hst.symm.trans howned) (by simp)
      | closing => exact absurd (hst.symm.trans howned.1) (by simp)
      | enabling => exact absurd (hst.symm.trans howned) (by simp)
      | opening status => exact absurd (hst.symm.trans howned.1) (by simp)
      | config e stage => exact absurd (hst.symm.trans howned.1) (by simp)
    subst hown
    rcases hserver u call _ hu with ⟨hcall, hshift⟩
    rcases hshift rfl with ⟨hserves, rfl⟩
    rcases hcall hserves with rfl
    exact ⟨call, hu⟩

/-- A request finds the server in a shift. -/
theorem waiting_of_request (h : PinInv tr s φ) (hserver : ServerShifts server φ)
    (hx : φ t = some (call, x)) (htr : xvcProtocol.trans call x ⟨.disableEntry, .requested⟩ x')
    (hs : s.step ⟨.disableEntry, .requested⟩ s') :
    (∃ call', φ server = some (call', .shifting, .normal)) ∧ t ≠ server ∧
      s'.state = .disableRequested := by
  rcases hs with ⟨hans, rfl⟩
  have hst : s.state = .ioInProgress := by
    cases hst : s.state with
    | ioInProgress => rfl
    | _ =>
      rw [hst] at hans
      cases hans
  rcases h.server_of_io hserver hst with ⟨call', hφ⟩
  refine ⟨⟨call', hφ⟩, ?_, by rw [hst]; rfl⟩
  rintro rfl
  rw [hφ] at hx
  cases hx
  cases htr.1

variable [DecidableEq T]

/-- An operation takes the request further. -/
theorem Course.exec (h : Course server mid s φ) (hinv : PinInv tr s φ)
    (hserver : ServerShifts server φ) (hx : φ t = some (call, x))
    (htr : xvcProtocol.trans call x ev x') (hs : s.step ev s') :
    Course server (mid ++ [.exec t call ev]) s' (Function.update φ t (some (call, x'))) := by
  have hself : Function.update φ t (some (call, x')) t = some (call, x') := Function.update_self _ _ _
  rcases htr with ⟨hm, hd, hserve⟩
  rcases x with ⟨own, d⟩
  rcases x' with ⟨own', d'⟩
  cases h with
  | @waiting call' hφ hst hleft =>
    by_cases hts : t = server
    · subst hts
      rw [hφ] at hx
      cases hx
      -- another pulse, or the last critical section of the shift
      rcases hm.of_shifting hs hst with ⟨rfl, hst', hop, hplain⟩ | ⟨rfl, hst', rfl⟩
      · rw [Duty.next_normal hop] at hd
        cases hd
        refine .waiting hself hst' (not_left_snoc hleft ?_)
        rintro call' r ⟨⟩
        exact hop rfl
      · cases hd
        exact .seen Left.exit hself hst'
    · -- another task cannot touch the state while the server owns it
      have hnothing : own = .nothing := hinv.nothing_of_ne hφ (by simp) hx hts
      subst hnothing
      refine .waiting (by rw [Function.update_of_ne (Ne.symm hts), hφ]) (hm.of_requested hs hst)
        (not_left_snoc hleft ?_)
      rintro call' r ⟨⟩
      exact hts rfl
  | @seen call' hleft hφ hst =>
    have hnothing : own = .nothing := hinv.nothing_of_rest (.inl hst) hx
    subst hnothing
    by_cases hts : t = server
    · subst hts
      rw [hφ] at hx
      cases hx
      have hop := (Duty.of_mustDisable hd).1
      rcases hm.of_enabled hs hst with rfl | ⟨-, hne⟩ | rfl
      · exact .falling hleft.snoc hself trivial
      · exact absurd hop hne
      · cases hop
    · rcases hm.of_enabled hs hst with rfl | ⟨hst', -⟩ | rfl
      · exact .falling hleft.snoc hself trivial
      · exact .seen hleft.snoc (by rw [Function.update_of_ne (Ne.symm hts), hφ]) hst'
      · -- only the server shifts
        exact absurd ((hserver t call _ hx).1 (hserve rfl)) hts
  | @falling u call' y hleft hu hown =>
    by_cases htu : t = u
    · subst htu
      rw [hu] at hx
      cases hx
      rcases hm.of_takesDown hown with hown' | rfl
      · exact .falling hleft.snoc hself hown'
      · exact .disabled hleft.snoc (by rw [show s' = _ from hs]) WasDisabled.exit
    · exact .falling hleft.snoc (by rw [Function.update_of_ne (Ne.symm htu), hu]) hown
  | disabled hleft hst hmid =>
    have hnothing : own = .nothing := hinv.nothing_of_rest (.inr hst) hx
    subst hnothing
    -- nothing happens, or a task follows the cables, or one enables the server
    rcases hm.of_disabled hs hst with hst' | hown' | ⟨rfl, rfl⟩
    · exact .disabled hleft.snoc hst' hmid.snoc
    · exact .following hleft.snoc hself hown' hmid.snoc
    · exact .rising hleft.snoc hself trivial (Enabling.enter hmid)
  | @following u call' y hleft hu hown hmid =>
    by_cases htu : t = u
    · subst htu
      rw [hu] at hx
      cases hx
      rcases hm.of_follows hown with hown' | rfl
      · exact .following hleft.snoc hself hown' hmid.snoc
      · exact .disabled hleft.snoc (by rw [show s' = _ from hs]) hmid.snoc
    · exact .following hleft.snoc (by rw [Function.update_of_ne (Ne.symm htu), hu]) hown hmid.snoc
  | @rising u call' y hleft hu hown hmid =>
    by_cases htu : t = u
    · subst htu
      rw [hu] at hx
      cases hx
      rcases hm.of_bringsUp hown with hown' | ⟨status, rfl⟩
      · exact .rising hleft.snoc hself hown' (hmid.snoc id)
      · -- enabled, or disabled again because of a cable
        have hst' : s'.state = enableExitSection status := by rw [show s' = _ from hs]
        cases status with
        | ok => exact .completed hleft.snoc (Reenabled.exit hmid)
        | error => exact .disabled hleft.snoc hst' hmid.wasDisabled.snoc
        | moreDataNeeded => exact .disabled hleft.snoc hst' hmid.wasDisabled.snoc
    · exact .rising hleft.snoc (by rw [Function.update_of_ne (Ne.symm htu), hu]) hown (hmid.snoc id)
  | completed hleft hmid => exact .completed hleft.snoc hmid.snoc

/-- A call that starts or ends leaves the request where it is. -/
theorem Course.bounds {l : xvcSystem.Label T} {y : Option (Call × Own × Duty)}
    (h : Course server mid s φ) (hl : ∀ v, l.Bounds v → v = t)
    (hexit : ∀ call r, l ≠ .exec server call ⟨.shiftExit, r⟩)
    (hφ : ∀ call x, φ t = some (call, x) → x.1 = .nothing ∧ x.2 ≠ .mustDisable) :
    Course server (mid ++ [l]) s (Function.update φ t y) := by
  -- a task with a part in the course is not `t`
  have hne : ∀ {v call x}, φ v = some (call, x) → (x.1 ≠ .nothing ∨ x.2 = .mustDisable) → v ≠ t := by
    rintro v call x hv hx rfl
    rcases hφ call x hv with ⟨hnothing, hduty⟩
    rcases hx with hx | hx
    · exact hx hnothing
    · exact hduty hx
  have hkeep : ∀ {v call x}, φ v = some (call, x) → (x.1 ≠ .nothing ∨ x.2 = .mustDisable) →
      Function.update φ t y v = some (call, x) := by
    intro v call x hv hx
    rw [Function.update_of_ne (hne hv hx), hv]
  cases h with
  | waiting hserver hst hm =>
    exact .waiting (hkeep hserver (.inl (by simp))) hst (not_left_snoc hm hexit)
  | seen hleft hserver hst => exact .seen hleft.snoc (hkeep hserver (.inr rfl)) hst
  | falling hleft hu hown => exact .falling hleft.snoc (hkeep hu (.inl hown.ne)) hown
  | disabled hleft hst hmid => exact .disabled hleft.snoc hst hmid.snoc
  | following hleft hu hown hmid => exact .following hleft.snoc (hkeep hu (.inl hown.ne)) hown hmid.snoc
  | rising hleft hu hown hmid =>
    refine .rising hleft.snoc (hkeep hu (.inl hown.ne)) hown (hmid.snoc ?_)
    intro hb
    exact hne hu (.inl hown.ne) (hl _ hb)
  | completed hleft hmid => exact .completed hleft.snoc hmid.snoc

/-- An operation keeps the debt, or pays it. -/
theorem Debt.exec (h : Debt server mid s φ) (hinv : PinInv tr s φ)
    (hx : φ t = some (call, x)) (htr : xvcProtocol.trans call x ev x') (hs : s.step ev s') :
    Debt server (mid ++ [.exec t call ev]) s' (Function.update φ t (some (call, x'))) := by
  have hself : Function.update φ t (some (call, x')) t = some (call, x') := Function.update_self _ _ _
  rcases htr with ⟨hm, hd, -⟩
  rcases x with ⟨own, d⟩
  rcases x' with ⟨own', d'⟩
  cases h with
  | @waiting call' hφ hst hsilent =>
    by_cases hts : t = server
    · subst hts
      rw [hφ] at hx
      cases hx
      rcases hm.of_shifting hs hst with ⟨rfl, hst', hop, hplain⟩ | ⟨rfl, hst', rfl⟩
      · rw [Duty.next_normal hop] at hd
        cases hd
        refine .waiting hself hst' (hsilent.snoc ?_)
        rintro ⟨-, ⟨payload, hwrite⟩ | hclose⟩
        · rw [hwrite] at hplain
          cases hplain
        · rw [hclose] at hplain
          cases hplain
      · cases hd
        refine .owing hself (by simp) (hsilent.snoc ?_)
        rintro ⟨-, ⟨payload, hwrite⟩ | hclose⟩
        · cases hwrite
        · cases hclose
    · -- the server has the pins, so the others only look at the state
      have hnothing : own = .nothing := hinv.nothing_of_ne hφ (by simp) hx hts
      subst hnothing
      exact .waiting (by rw [Function.update_of_ne (Ne.symm hts), hφ]) (hm.of_requested hs hst)
        (hsilent.snoc fun ha => hts ha.1)
  | @owing call' y hφ hy hsilent =>
    by_cases hts : t = server
    · subst hts
      rw [hφ] at hx
      cases hx
      rcases Duty.of_ne_normal hy hd with rfl | ⟨hd', hwrite, hclose⟩
      · exact .paid (GaveUp.now hsilent (.inl ⟨call, rfl⟩))
      · refine .owing hself hd' (hsilent.snoc ?_)
        rintro ⟨-, ⟨payload, hop⟩ | hop⟩
        · exact hwrite payload hop
        · exact hclose hop
    · exact .owing (by rw [Function.update_of_ne (Ne.symm hts), hφ]) hy
        (hsilent.snoc fun ha => hts ha.1)
  | paid hmid => exact .paid hmid.snoc

theorem Debt.start (h : Debt server mid s φ) (ht : φ t = none) :
    Debt server (mid ++ [.start t call]) s (Function.update φ t (some (call, x))) := by
  have hne : ∀ {call x}, φ server = some (call, x) → server ≠ t := by
    rintro call x hφ rfl
    rw [ht] at hφ
    cases hφ
  cases h with
  | waiting hφ hst hsilent =>
    exact .waiting (by rw [Function.update_of_ne (hne hφ), hφ]) hst (hsilent.snoc id)
  | owing hφ hy hsilent =>
    exact .owing (by rw [Function.update_of_ne (hne hφ), hφ]) hy (hsilent.snoc id)
  | paid hmid => exact .paid hmid.snoc

/-- A shift with an open debt returns an error. -/
theorem Debt.finish {out : Except Fault Status} (h : Debt server mid s φ)
    (hx : φ t = some (call, x)) (hleave : xvcProtocol.leave call x out) :
    Debt server (mid ++ [.finish t call out]) s (Function.update φ t none) := by
  rcases hleave with ⟨hnothing, hduty⟩
  cases h with
  | waiting hφ hst hsilent =>
    by_cases hts : t = server
    · subst hts
      rw [hφ] at hx
      cases hx
      cases hnothing
    · exact .waiting (by rw [Function.update_of_ne (Ne.symm hts), hφ]) hst (hsilent.snoc hts)
  | owing hφ hy hsilent =>
    by_cases hts : t = server
    · subst hts
      rw [hφ] at hx
      cases hx
      rcases hduty with hnormal | ⟨-, ⟨args, rfl⟩, rfl⟩
      · exact absurd hnormal hy
      · exact .paid (GaveUp.now hsilent (.inr ⟨args, rfl⟩))
    · exact .owing (by rw [Function.update_of_ne (Ne.symm hts), hφ]) hy (hsilent.snoc hts)
  | paid hmid => exact .paid hmid.snoc

theorem ServerShifts.start (h : ServerShifts server φ) (hcall : call.serves = true → t = server) :
    ServerShifts server (Function.update φ t (some (call, .nothing, .normal))) := by
  intro u call' y hu
  by_cases hut : u = t
  · subst hut
    rw [Function.update_self] at hu
    cases hu
    exact ⟨hcall, by simp⟩
  · rw [Function.update_of_ne hut] at hu
    exact h u call' y hu

theorem ServerShifts.exec (h : ServerShifts server φ) (hx : φ t = some (call, x))
    (htr : xvcProtocol.trans call x ev x') :
    ServerShifts server (Function.update φ t (some (call, x'))) := by
  intro u call' y hu
  by_cases hut : u = t
  · subst hut
    rw [Function.update_self] at hu
    cases hu
    rcases h u call x hx with ⟨hcall, hshift⟩
    refine ⟨hcall, ?_⟩
    intro hown
    rcases htr with ⟨hm, hd, hserve⟩
    rcases x with ⟨own, d⟩
    rcases x' with ⟨own', d'⟩
    rcases (hown : own' = .shifting) with rfl
    -- only the entry of a shift leads into one, and it is made by the server
    cases hm with
    | shift =>
      cases d with
      | normal =>
        cases hd
        exact ⟨hserve rfl, rfl⟩
      | mustDisable => cases hd
      | mustClose => cases hd
    | clearPins =>
      rcases hshift rfl with ⟨hcall', rfl⟩
      cases hd
      exact ⟨hcall', rfl⟩
    | setPins =>
      rcases hshift rfl with ⟨hcall', rfl⟩
      cases hd
      exact ⟨hcall', rfl⟩
    | samplePins =>
      rcases hshift rfl with ⟨hcall', rfl⟩
      cases hd
      exact ⟨hcall', rfl⟩
  · rw [Function.update_of_ne hut] at hu
    exact h u call' y hu

theorem ServerShifts.finish (h : ServerShifts server φ) :
    ServerShifts server (Function.update φ t none) := by
  intro u call' y hu
  by_cases hut : u = t
  · subst hut
    rw [Function.update_self] at hu
    cases hu
  · rw [Function.update_of_ne hut] at hu
    exact h u call' y hu

end Steps

/-! ## The invariant -/

variable [DecidableEq T]

/-- Every request made so far is somewhere on its course. -/
structure RequestInv (server : T) (tr : List (xvcSystem.Label T)) (s : Board)
    (φ : T → Option (Call × Own × Duty)) : Prop where
  pins : PinInv tr s φ
  shifts : ServerShifts server φ
  requests : AfterEach IsRequest (fun mid => Course server mid s φ ∧ Debt server mid s φ) tr

theorem requestInv_keeps {server : T} {init : Board} (hinit : init.Initial) :
    xvcProtocol.Keeps (OneServer server) init (RequestInv server) where
  nil := by
    refine ⟨(@pinInv_keeps T _ (OneServer server) init hinit).nil, ?_, ?_⟩
    · intro t call x hx
      cases hx
    · intro pre l mid htr
      simp at htr
  start := by
    intro tr c φ t call h hp ht hg
    refine ⟨(pinInv_keeps hinit).start h.pins hp ht hg, h.shifts.start (hg t call rfl),
      h.requests.snoc ?_ ?_⟩
    · rintro mid ⟨hcourse, hdebt⟩
      refine ⟨hcourse.bounds (fun v hv => hv.symm) (by simp) ?_, hdebt.start ht⟩
      intro call' x hx
      rw [ht] at hx
      cases hx
    · rintro ⟨u, call', hl⟩
      cases hl
  exec := by
    intro tr c φ t call o k r s' x x' h hp hrun hx hg hs htr
    refine ⟨(pinInv_keeps hinit).exec h.pins hp hrun hx hg hs htr, h.shifts.exec hx htr,
      h.requests.snoc ?_ ?_⟩
    · rintro mid ⟨hcourse, hdebt⟩
      exact ⟨hcourse.exec h.pins h.shifts hx htr hs, hdebt.exec h.pins hx htr hs⟩
    · -- a request is made: its course begins here
      rintro ⟨u, call', hl⟩
      cases hl
      rcases waiting_of_request h.pins h.shifts hx htr hs with ⟨⟨call'', hφ⟩, hne, hst⟩
      have hφ' : Function.update φ t (some (call, x')) server = some (call'', .shifting, .normal) := by
        rw [Function.update_of_ne (Ne.symm hne), hφ]
      refine ⟨.waiting hφ' hst ?_, .waiting hφ' hst ?_⟩
      · rintro ⟨_, _, hmem⟩
        cases hmem
      · intro l hl
        cases hl
  finish := by
    intro tr c φ t call x out h hp hx hg hleave
    refine ⟨(pinInv_keeps hinit).finish h.pins hp hx hg hleave, h.shifts.finish,
      h.requests.snoc ?_ ?_⟩
    · rintro mid ⟨hcourse, hdebt⟩
      refine ⟨hcourse.bounds (fun v hv => hv.symm) (by simp) ?_, hdebt.finish hx hleave⟩
      intro call' y hy
      rw [hx] at hy
      cases hy
      refine ⟨hleave.1, ?_⟩
      rcases hleave.2 with hd | ⟨hd, -⟩
      · rw [hd]
        simp
      · rw [hd]
        simp
    · rintro ⟨u, call', hl⟩
      cases hl

theorem total_xvcSystem : Total xvcSystem := by
  intro s o
  cases o with
  | disableEntry => exact ⟨_, _, rfl, rfl⟩
  | disableExit => exact ⟨(), _, rfl⟩
  | enableEntry => exact ⟨_, _, rfl, rfl⟩
  | enableExit status => exact ⟨(), _, rfl⟩
  | configEntry e => exact ⟨_, _, rfl, rfl⟩
  | shiftEntry => exact ⟨_, _, rfl, rfl⟩
  | shiftExit => exact ⟨_, _, rfl, rfl⟩
  | readState => exact ⟨_, _, rfl, rfl⟩
  | writeState st => exact ⟨(), _, rfl⟩
  | getPinValue pin => exact ⟨s.jtagsel, s, fun _ => rfl, rfl⟩
  | configurePin pin dir => exact ⟨(), _, rfl⟩
  | setPin pin v => exact ⟨(), _, rfl⟩
  | writeCodr mask => exact ⟨(), _, rfl⟩
  | writeSodr mask => exact ⟨(), _, rfl⟩
  | readPdsr => exact ⟨(0 : U32), _, rfl⟩
  | netconnWrite payload => exact ⟨true, _, rfl⟩
  | netconnClose => exact ⟨(), _, rfl⟩

/-- What is asked of a run after a request, which was made at the end of `pre` and is followed
by the steps `mid`. -/
structure RequestKept (server : T) (pre mid : List (xvcSystem.Label T)) (c : xvcSystem.Config T) :
    Prop where
  /-- The request is made to a shift of the server. -/
  shifting : InShift pre server
  /-- That shift finds it in its last critical section. -/
  seen : ∀ m call r rest, mid = m ++ .exec server call ⟨.shiftExit, r⟩ :: rest →
    ¬ Left server m → r = true
  /-- A shift that finds a request returns an error. -/
  error : ∀ args : ShiftArgs, ∀ evs out,
    Prog.Path (doShift args.buffer args.tdi args.tms args.length) evs out →
    ⟨.shiftExit, true⟩ ∈ evs → ∃ b, out = .ok (.error, b)
  /-- Until then the client gets no reply; then the connection is closed, or the caller of the
  shift is told. -/
  silent : Silent server mid ∨ GaveUp server mid
  /-- The server can always get there by itself. -/
  returns : ∃ tr' c', Steps (OneServer server) c tr' c' ∧ (∀ l ∈ tr', l.Inside server) ∧
    GaveUp server (mid ++ tr')
  /-- A later shift raises TCK only after the server was disabled and enabled again. -/
  pulses : ∀ m t call mask rest, mid = m ++ .exec t call ⟨.writeSodr mask, ()⟩ :: rest →
    mask.getLsbD Pin.xiltck.bit = true → ¬ Left server m ∨ Reenabled m

section Kept

variable {server t : T} {init : Board} {pre mid : List (xvcSystem.Label T)} {call : Call}
  {c : xvcSystem.Config T} {l : xvcSystem.Label T}

theorem course_of_run (hinit : init.Initial)
    (h : Run (OneServer server) init (pre ++ l :: mid) c) (hl : IsRequest l) :
    ∃ φ, RequestInv server (pre ++ l :: mid) c.shared φ ∧ xvcProtocol.Paced c φ ∧
      Course server mid c.shared φ ∧ Debt server mid c.shared φ := by
  rcases (requestInv_keeps hinit).run xvcProtocol_conforms (fun _ _ _ _ => trivial) h with
    ⟨φ, hinv, hpaced⟩
  rcases hinv.requests pre l mid rfl hl with ⟨hcourse, hdebt⟩
  exact ⟨φ, hinv, hpaced, hcourse, hdebt⟩

omit [DecidableEq T] in
theorem Debt.silent {s : Board} {φ : T → Option (Call × Own × Duty)} (h : Debt server mid s φ) :
    Silent server mid ∨ GaveUp server mid := by
  cases h with
  | waiting _ _ hsilent => exact .inl hsilent
  | owing _ _ hsilent => exact .inl hsilent
  | paid hmid => exact .inr hmid

omit [DecidableEq T] in
/-- Whoever shifts meets the request, unless it is over. -/
theorem Course.of_shifting {s : Board} {φ : T → Option (Call × Own × Duty)} {x : Own × Duty}
    (h : Course server mid s φ) (hinv : PinInv pre s φ) (hx : φ t = some (call, x))
    (hown : x.1 = .shifting) :
    ¬ Left server mid ∧ s.state = .disableRequested ∨ Left server mid ∧ Reenabled mid := by
  have hne : x.1 ≠ .nothing := by simp [hown]
  -- a task that owns the pins in another way is not the one that shifts
  have hother : ∀ {u call' y}, φ u = some (call', y) → y.1 ≠ .nothing → y.1 = .shifting := by
    intro u call' y hu hy
    rcases hinv.guarded.unique ⟨call, x, hx, hne⟩ ⟨call', y, hu, hy⟩ with rfl
    rw [hu] at hx
    cases hx
    exact hown
  cases h with
  | waiting _ hst hleft => exact .inl ⟨hleft, hst⟩
  | seen _ _ hst => exact absurd (hinv.nothing_of_rest (.inl hst) hx) hne
  | falling _ hu hdown =>
    rw [hother hu hdown.ne] at hdown
    exact hdown.elim
  | disabled _ hst _ => exact absurd (hinv.nothing_of_rest (.inr hst) hx) hne
  | following _ hu hfollows _ =>
    rw [hother hu hfollows.ne] at hfollows
    exact hfollows.elim
  | rising _ hu hup _ =>
    rw [hother hu hup.ne] at hup
    exact hup.elim
  | completed hleft hmid => exact .inr ⟨hleft, hmid⟩

omit [DecidableEq T] in
/-- Only a task that shifts leaves a shift or drives TCK. -/
theorem Past.shifting {tr : List (xvcSystem.Label T)} {own own' : Own} {ev : Event XvcSig}
    (h : Past tr t own) (hm : Move own ev own')
    (hop : ev.op = .shiftExit ∨ ∃ mask, ev.op = .writeSodr mask) : own = .shifting := by
  cases hm with
  | shiftExit => rfl
  | setPins => rfl
  | write ev =>
    have hconf := h.configures
    rcases hop with hop | ⟨mask, hop⟩
    · rw [hop] at hconf
      cases hconf
    · rw [hop] at hconf
      cases hconf
  | _ => simp at hop

/-- A later operation of a shift, on a request that is on its course. -/
theorem shifting_step (hinit : init.Initial) (hl : IsRequest l) {m rest : List (xvcSystem.Label T)}
    {call' : Call} {ev : Event XvcSig}
    (h : Run (OneServer server) init (pre ++ l :: (m ++ .exec t call' ev :: rest)) c)
    (hop : ev.op = .shiftExit ∨ ∃ mask, ev.op = .writeSodr mask) :
    ∃ s s' : Board, s.step ev s' ∧
      (¬ Left server m ∧ s.state = .disableRequested ∨ Left server m ∧ Reenabled m) := by
  rw [← List.cons_append, ← List.append_assoc] at h
  rcases h.split with ⟨c₁, c₂, hrun, -, hstep⟩
  rcases course_of_run hinit hrun hl with ⟨φ, hinv, hpaced, hcourse, -⟩
  rcases hpaced.exec (fun _ _ _ _ => trivial) hstep with ⟨x, x', hx, htr⟩
  have hpast := hinv.pins.past t
  rw [hx] at hpast
  have hown := hpast.shifting htr.1 hop
  cases hstep with
  | exec ht hs => exact ⟨_, _, hs, hcourse.of_shifting hinv.pins hx hown⟩

/-- The server ends its call, if need be, and has then given up. -/
theorem gives_up (hinit : init.Initial) (h : Run (OneServer server) init (pre ++ l :: mid) c)
    (hl : IsRequest l) : ∃ tr' c', Steps (OneServer server) c tr' c' ∧
      (∀ l ∈ tr', l.Inside server) ∧ GaveUp server (mid ++ tr') := by
  rcases course_of_run hinit h hl with ⟨φ, hinv, hpaced, -, hdebt⟩
  have hfinish : ∀ {call x}, φ server = some (call, x) → ∃ tr' c',
      Steps (OneServer server) c tr' c' ∧ (∀ l ∈ tr', l.Inside server) ∧
        GaveUp server (mid ++ tr') := by
    intro call x hx
    rcases hpaced.of_phase hx with ⟨p, ht, -⟩
    have hguard : ∀ (c : xvcSystem.Config T) (l : xvcSystem.Label T), l.Inside server →
        OneServer server c l := by
      rintro c l hin u call' rfl
      exact hin.elim
    rcases total_xvcSystem.finish hguard ht with ⟨tr', c', out, hsteps, hin, hmem⟩
    have hrun := h.append hsteps
    rw [List.append_assoc, List.cons_append] at hrun
    rcases course_of_run hinit hrun hl with ⟨φ', -, -, -, hdebt'⟩
    refine ⟨tr', c', hsteps, hin, ?_⟩
    -- the call has ended inside the new steps, so the debt is paid
    rcases hdebt'.silent with hsilent | hgave
    · exact absurd rfl (hsilent _ (List.mem_append_right _ hmem))
    · exact hgave
  cases hdebt with
  | waiting hφ => exact hfinish hφ
  | owing hφ => exact hfinish hφ
  | paid hmid => exact ⟨[], c, .nil, by simp, by rwa [List.append_nil]⟩

end Kept

/-- **No request to disable the server is lost.** However many tasks enable, disable and follow
the cables while one task serves connections and shifts, and in whatever order. -/
theorem disable_request_kept {server t : T} {init : Board} (hinit : init.Initial)
    {pre mid : List (xvcSystem.Label T)} {call : Call} {c : xvcSystem.Config T}
    (h : Run (OneServer server) init (pre ++ .exec t call ⟨.disableEntry, .requested⟩ :: mid) c) :
    RequestKept server pre mid c := by
  have hl : IsRequest (.exec t call ⟨.disableEntry, .requested⟩ : xvcSystem.Label T) := ⟨t, call, rfl⟩
  rcases course_of_run hinit h hl with ⟨φ, -, -, -, hdebt⟩
  refine ⟨?_, ?_, ?_, hdebt.silent, gives_up hinit h hl, ?_⟩
  · rcases h.split with ⟨c₁, c₂, hrun, -, hstep⟩
    rcases (requestInv_keeps hinit).run xvcProtocol_conforms (fun _ _ _ _ => trivial) hrun with
      ⟨φ₁, hinv, hpaced⟩
    rcases hpaced.exec (fun _ _ _ _ => trivial) hstep with ⟨x, x', hx, htr⟩
    cases hstep with
    | exec ht hs =>
      rcases (waiting_of_request hinv.pins hinv.shifts hx htr hs).1 with ⟨call', hφ⟩
      refine (hinv.pins.past server).shift.mpr ?_
      rw [hφ]
      rfl
  · rintro m call' r rest rfl hleft
    rcases shifting_step hinit hl h (.inl rfl) with ⟨s, s', hs, ⟨-, hst⟩ | ⟨hleft', -⟩⟩
    · rw [hs.1, hst]
      rfl
    · exact absurd hleft' hleft
  · intro args evs out hpath hexit
    exact doShift_error args.le args.layout hpath hexit
  · rintro m u call' mask rest rfl -
    rcases shifting_step hinit hl h (.inr ⟨mask, rfl⟩) with ⟨s, s', -, ⟨hleft, -⟩ | ⟨-, hmid⟩⟩
    · exact .inl hleft
    · exact .inr hmid

/-- A shift of one bit. -/
def oneBit : ShiftArgs where
  buffer := fun _ => 0
  tdi := 1
  tms := 0
  length := 1
  le := by decide
  layout := fun _ => ⟨by decide, by decide, by decide, by decide⟩

/-- One task enables the server and then, while the server shifts, asks to disable it. -/
def requestTrace : List (xvcSystem.Label Bool) :=
  [.start true .enable, .exec true .enable ⟨.enableEntry, .proceed⟩,
    .exec true .enable ⟨.configEntry .enabling, true⟩,
    .exec true .enable ⟨.getPinValue .nxiljtag, true⟩,
    .exec true .enable ⟨.getPinValue .usbpower, false⟩,
    .exec true .enable ⟨.setPin .jtagsel true, ()⟩,
    .exec true .enable ⟨.configurePin .xiltck .output, ()⟩,
    .exec true .enable ⟨.configurePin .xiltdi .output, ()⟩,
    .exec true .enable ⟨.configurePin .xiltms .output, ()⟩,
    .exec true .enable ⟨.writeState .enabling, ()⟩,
    .exec true .enable ⟨.enableExit .ok, ()⟩, .finish true .enable (.ok .ok),
    .start false (.shift oneBit), .exec false (.shift oneBit) ⟨.shiftEntry, true⟩,
    .start true .disable]

theorem disable_request_kept_requestTrace :
    disabledBoard.Initial ∧ ∃ c, Run (OneServer false) disabledBoard
      (requestTrace ++ .exec true .disable ⟨.disableEntry, .requested⟩ ::
        [.finish true .disable (.ok .error)]) c ∧
      RequestKept false requestTrace [.finish true .disable (.ok .error)] c := by
  have hinit : disabledBoard.Initial := ⟨rfl, rfl, rfl, rfl⟩
  have hrun : ∃ c, Run (OneServer false) disabledBoard
      (requestTrace ++ .exec true .disable ⟨.disableEntry, .requested⟩ ::
        [.finish true .disable (.ok .error)]) c := by
    refine ⟨_, Run.nil.append (.cons ?_ (.start rfl) <|
      .cons ?_ (.exec rfl ⟨rfl, rfl⟩) <| .cons ?_ (.exec rfl ⟨rfl, rfl⟩) <|
      .cons ?_ (.exec rfl ⟨nofun, rfl⟩) <| .cons ?_ (.exec rfl ⟨nofun, rfl⟩) <|
      .cons ?_ (.exec rfl rfl) <| .cons ?_ (.exec rfl rfl) <|
      .cons ?_ (.exec rfl rfl) <| .cons ?_ (.exec rfl rfl) <|
      .cons ?_ (.exec rfl rfl) <| .cons ?_ (.exec rfl rfl) <|
      .cons ?_ (.finish rfl (.ret _)) <| .cons ?_ (.start rfl) <|
      .cons ?_ (.exec rfl ⟨rfl, rfl⟩) <| .cons ?_ (.start rfl) <|
      .cons ?_ (.exec rfl ⟨rfl, rfl⟩) <| .cons ?_ (.finish rfl (.ret _)) .nil)⟩
    all_goals
      rintro t call h hserves
      cases h <;> first | rfl | cases hserves
  rcases hrun with ⟨c, hrun⟩
  exact ⟨hinit, c, hrun, disable_request_kept hinit hrun⟩

end Xvc
