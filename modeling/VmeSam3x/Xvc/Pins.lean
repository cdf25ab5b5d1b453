import VmeSam3x.Xvc.Ownership

/-! # The JTAG pins are configured by one task at a time

What the exclusive ownership of the pins means for a run: between the two critical
sections of a shift nobody configures a pin, no two configurations overlap, the
directions fit the state, the pins are driven only after both cables were sampled as
disconnected, and once all calls have returned the server is enabled or disabled.
-/

namespace Xvc

open Interact Interact.System Bytes

/-! ## What a run shows -/

/-- The operations that take a configuration on. -/
def opensConfig (ev : Event XvcSig) : Prop := ∃ e, ev = ⟨.configEntry e, true⟩

/-- The operations that give a configuration back: the last store of
`xvc_server_update_gpio_config`, or the last critical section of the caller where the
configuration returned before that store. -/
def closesConfig (ev : Event XvcSig) : Prop :=
  match ev.op with
  | .writeState _ => True
  | .enableExit _ => True
  | .disableExit => True
  | _ => False

/-- The operations that change the direction of a pin or the level of `JTAGSEL`. -/
def configuresPins (ev : Event XvcSig) : Prop :=
  match ev.op with
  | .configurePin _ _ => True
  | .setPin _ _ => True
  | .writeCodr mask => mask.getLsbD Pin.jtagsel.bit = true
  | .writeSodr mask => mask.getLsbD Pin.jtagsel.bit = true
  | _ => False

variable {T : Type}

/-- Task `t` is between the two critical sections of a shift. -/
def InShift (tr : List (xvcSystem.Label T)) (t : T) : Prop :=
  Since t (fun ev : Event XvcSig => ev = ⟨.shiftEntry, true⟩)
    (fun ev : Event XvcSig => ev.op = .shiftExit) tr

/-- Task `t` is configuring the pins. -/
def Configuring (tr : List (xvcSystem.Label T)) (t : T) : Prop :=
  Since t opensConfig closesConfig tr

/-- Task `t` has read the level `v` of a pin in its present configuration. -/
def Sampled (tr : List (xvcSystem.Label T)) (t : T) (pin : Pin) (v : Bool) : Prop :=
  Since t (fun ev : Event XvcSig => ev = ⟨.getPinValue pin, v⟩)
    (fun ev => opensConfig ev ∨ closesConfig ev) tr

/-! ## What a task has done for what it owns -/

/-- What a task has of the pins agrees with what it did. -/
structure Past (tr : List (xvcSystem.Label T)) (t : T) (own : Own) : Prop where
  shift : InShift tr t ↔ own = .shifting
  config : Configuring tr t ↔ ∃ e stage, own = .config e stage
  jtag : ∀ {e jtag}, own = .config e (.sampled jtag) → Sampled tr t .nxiljtag (!jtag)
  cables : ∀ {e jtag usb ws}, own = .config e (.writing jtag usb ws) →
    Sampled tr t .nxiljtag (!jtag) ∧ Sampled tr t .usbpower usb ∧ ws <:+ pinWrites e jtag usb

variable {tr : List (xvcSystem.Label T)} {t : T} {own own' : Own} {ev : Event XvcSig}

theorem Past.nil : Past ([] : List (xvcSystem.Label T)) t .nothing where
  shift := ⟨fun h => absurd h not_since_nil, by simp⟩
  config := ⟨fun h => absurd h not_since_nil, by rintro ⟨_, _, h⟩; cases h⟩
  jtag h := by cases h
  cables h := by cases h

/-- A step that is no operation of the task. -/
theorem Past.of_ne {l : xvcSystem.Label T} (h : Past tr t own)
    (hl : ∀ call ev, l ≠ .exec t call ev) : Past (tr ++ [l]) t own where
  shift := (since_of_ne hl).trans h.shift
  config := (since_of_ne hl).trans h.config
  jtag hown := (since_of_ne hl).mpr (h.jtag hown)
  cables hown := by
    obtain ⟨hj, hu, hws⟩ := h.cables hown
    exact ⟨(since_of_ne hl).mpr hj, (since_of_ne hl).mpr hu, hws⟩

/-- The next operation of a configuration sets up a pin. -/
theorem Past.configures {e : ServerState} {jtag usb : Bool} {o : XvcOp} {ws : List XvcOp}
    (h : Past tr t (.config e (.writing jtag usb (o :: ws)))) : o.configures = true := by
  obtain ⟨-, -, hws⟩ := h.cables rfl
  exact configures_of_mem_pinWrites e jtag usb o (hws.subset (by simp))

theorem not_opensConfig {ev : Event XvcSig} (h : ev.op.configures = true) : ¬ opensConfig ev := by
  rintro ⟨e, rfl⟩
  cases h

theorem not_closesConfig {ev : Event XvcSig} (h : ev.op.configures = true) : ¬ closesConfig ev := by
  obtain ⟨o, r⟩ := ev
  cases o <;> first | exact id | cases h

/-- A shift goes on until the operation that ends it. -/
theorem Past.exec_shift {call : Call} (h : Past tr t own) (hm : Move own ev own') :
    InShift (tr ++ [.exec t call ev]) t ↔ own' = .shifting := by
  refine since_exec.trans ?_
  have hold : Since t (fun ev : Event XvcSig => ev = ⟨.shiftEntry, true⟩)
      (fun ev : Event XvcSig => ev.op = .shiftExit) tr ↔ own = .shifting := h.shift
  rw [hold]
  cases hm with
  | write ev =>
    have hne : ev ≠ ⟨.shiftEntry, true⟩ := by
      rintro rfl
      cases h.configures
    simp [hne]
  | _ => simp

theorem Past.exec_config {call : Call} (h : Past tr t own) (hm : Move own ev own') :
    Configuring (tr ++ [.exec t call ev]) t ↔ ∃ e stage, own' = .config e stage := by
  refine since_exec.trans ?_
  have hold : Since t opensConfig closesConfig tr ↔ ∃ e stage, own = .config e stage := h.config
  rw [hold]
  cases hm with
  | write ev =>
    have hopen := not_opensConfig h.configures
    have hclose := not_closesConfig h.configures
    simp [hopen, hclose]
  | _ => simp [opensConfig, closesConfig]

/-- A sample is kept while the configuration goes on. -/
theorem Sampled.exec {call : Call} {pin : Pin} {v : Bool} (h : Sampled tr t pin v)
    (hopen : ¬ opensConfig ev) (hclose : ¬ closesConfig ev) :
    Sampled (tr ++ [.exec t call ev]) t pin v :=
  since_exec.mpr (.inr ⟨h, fun hev => hev.elim hopen hclose⟩)

/-- An operation of the task itself. -/
theorem Past.exec {call : Call} (h : Past tr t own) (hm : Move own ev own') :
    Past (tr ++ [.exec t call ev]) t own' where
  shift := h.exec_shift hm
  config := h.exec_config hm
  jtag := by
    rintro e jtag rfl
    cases hm with
    | sampleJtag v => exact since_exec.mpr (.inl (by simp))
  cables := by
    rintro e jtag usb ws rfl
    cases hm with
    | sampleUsb v =>
      have hj : Sampled (tr ++ [.exec t call ⟨.getPinValue .usbpower, usb⟩]) t .nxiljtag (!jtag) :=
        (h.jtag rfl).exec (by simp [opensConfig]) (by simp [closesConfig])
      exact ⟨hj, since_exec.mpr (.inl rfl), List.suffix_refl _⟩
    | write ev =>
      obtain ⟨hj, hu, hws⟩ := h.cables rfl
      have hopen := not_opensConfig h.configures
      have hclose := not_closesConfig h.configures
      exact ⟨hj.exec hopen hclose, hu.exec hopen hclose, (List.suffix_cons _ _).trans hws⟩

theorem ne_exec_of_task {t u : T} {call : Call} {ev : Event XvcSig} (htu : u ≠ t)
    (call' : Call) (ev' : Event XvcSig) :
    (.exec t call ev : xvcSystem.Label T) ≠ .exec u call' ev' := by
  rintro ⟨⟩
  exact htu rfl

/-- Only a configuration touches the directions and `JTAGSEL`. -/
theorem Move.of_configuresPins (hm : Move own ev own') (hev : configuresPins ev) :
    ∃ e jtag usb ws, own = .config e (.writing jtag usb (ev.op :: ws)) := by
  cases hm with
  | write ev => exact ⟨_, _, _, _, rfl⟩
  | clearPins hmask => exact absurd (hmask.symm.trans hev) (by simp)
  | setPins hmask => exact absurd (hmask.symm.trans hev) (by simp)
  | _ => exact hev.elim

theorem not_cable_of_output {e : ServerState} {jtag usb : Bool} {pin : Pin}
    (h : .configurePin pin .output ∈ pinWrites e jtag usb) : jtag = false ∧ usb = false := by
  cases jtag <;> cases usb <;> cases e <;> simp [pinWrites] at h ⊢

/-- The direction of a pin changes by the operation for that pin only. -/
theorem Board.step_dir {s s' : Board} {pin : Pin} (hs : s.step ev s') (hbefore : s.dir pin = .input)
    (hafter : s'.dir pin = .output) : ev = ⟨.configurePin pin .output, ()⟩ := by
  have hchange : s'.dir ≠ s.dir := by
    intro heq
    rw [heq, hbefore] at hafter
    cases hafter
  obtain ⟨o, r⟩ := ev
  cases o with
  | configurePin pin' dir =>
    obtain rfl : s' = s.apply (.configurePin pin' dir) := hs
    have hdir : Function.update s.dir pin' dir pin = .output := hafter
    by_cases hpin : pin = pin'
    · subst hpin
      rw [Function.update_self] at hdir
      rw [hdir]
    · rw [Function.update_of_ne hpin, hbefore] at hdir
      cases hdir
  | setPin pin' level =>
    obtain rfl : s' = s.apply (.setPin pin' level) := hs
    cases pin' <;> exact absurd rfl hchange
  | writeCodr mask =>
    obtain rfl : s' = _ := hs
    split at hchange <;> exact absurd rfl hchange
  | writeSodr mask =>
    obtain rfl : s' = _ := hs
    split at hchange <;> exact absurd rfl hchange
  | _ =>
    first
    | exact absurd (congrArg Board.dir hs.2) hchange
    | exact absurd (congrArg Board.dir hs) hchange

/-! ## The invariant -/

/-- What a task that is in a phase, or idle, has of the pins. -/
def ownOf : Option (Call × Own × Duty) → Own
  | none => .nothing
  | some (_, own, _) => own

/-- The pins have at most one owner, and all tasks have done what their phases say. -/
structure PinInv (tr : List (xvcSystem.Label T)) (s : Board)
    (φ : T → Option (Call × Own × Duty)) : Prop where
  guarded : owning.Guarded s φ
  past : ∀ t, Past tr t (ownOf (φ t))

section Consequences

variable {s : Board} {φ : T → Option (Call × Own × Duty)} {u : T}

theorem PinInv.has_of_own (hown : ownOf (φ t) ≠ .nothing) : owning.Has φ t := by
  cases hφ : φ t with
  | none =>
    rw [hφ] at hown
    exact absurd rfl hown
  | some x =>
    rw [hφ] at hown
    exact ⟨x.1, x.2, hφ, hown⟩

theorem PinInv.has_of_shift (h : PinInv tr s φ) (ht : InShift tr t) : owning.Has φ t := by
  refine PinInv.has_of_own ?_
  rw [(h.past t).shift.mp ht]
  simp

theorem PinInv.has_of_config (h : PinInv tr s φ) (ht : Configuring tr t) : owning.Has φ t := by
  refine PinInv.has_of_own ?_
  obtain ⟨e, stage, hown⟩ := (h.past t).config.mp ht
  rw [hown]
  simp

theorem PinInv.config_unique (h : PinInv tr s φ) (ht : Configuring tr t) (hu : Configuring tr u) :
    t = u :=
  h.guarded.unique (h.has_of_config ht) (h.has_of_config hu)

/-- A shift and a configuration exclude each other, also in one task. -/
theorem PinInv.not_inShift (h : PinInv tr s φ) (ht : Configuring tr t) : ¬ InShift tr u := by
  intro hu
  obtain rfl := h.guarded.unique (h.has_of_config ht) (h.has_of_shift hu)
  obtain ⟨e, stage, hown⟩ := (h.past t).config.mp ht
  rw [(h.past t).shift.mp hu] at hown
  cases hown

/-- The directions fit the state. -/
theorem PinInv.pins (h : PinInv tr s φ) : (s.state = .disabled → s.Inputs) ∧
    (s.state = .enabled ∨ s.state = .ioInProgress ∨ s.state = .disableRequested → s.Outputs) := by
  cases h.guarded with
  | free hφ hrest =>
    rcases hrest with ⟨hst, hin⟩ | ⟨hst, hout⟩
    · exact ⟨fun _ => hin, by simp [hst]⟩
    · exact ⟨by simp [hst], fun _ => hout⟩
  | @owned t call x ht hx howned hother =>
    have hne := Own.OnBoard.state howned
    refine ⟨fun hst => absurd hst hne.1, fun hst => ?_⟩
    obtain ⟨own, duty⟩ := x
    cases own with
    | nothing => exact absurd rfl hx
    | disabling => simp [show s.state = .disabling from howned] at hst
    | closing => simp [howned.1] at hst
    | enabling => simp [show s.state = .enabling from howned] at hst
    | opening status => exact howned.2.1
    | config e stage => simp [howned.1] at hst
    | shifting => exact howned.2

theorem PinInv.rest_of_idle (h : PinInv tr s φ) (hidle : ∀ t, φ t = none) : s.AtRest := by
  cases h.guarded with
  | free hφ hrest => exact hrest
  | owned ht =>
    rw [hidle] at ht
    cases ht

end Consequences

variable [DecidableEq T]

/-- The server starts disabled, with its pins as inputs. -/
def Board.Initial (s : Board) : Prop := s.state = .disabled ∧ s.Inputs

theorem pinInv_keeps {guard : xvcSystem.Config T → xvcSystem.Label T → Prop} {init : Board}
    (hinit : init.Initial) : xvcProtocol.Keeps guard init PinInv where
  nil := ⟨.free (by rintro t ⟨_, _, h, -⟩; cases h) (.inl hinit), fun _ => Past.nil⟩
  start := by
    intro tr c φ t call h _ ht _
    refine ⟨h.guarded.update ?_ ?_, fun u => ?_⟩
    · rintro ⟨_, _, hx, -⟩
      rw [ht] at hx
      cases hx
    · rintro call' x ⟨⟩
      simp [owning]
    · -- a call that starts owns as little as a task without one
      have hown : ownOf (Function.update φ t (some (call, .nothing, .normal)) u) = ownOf (φ u) := by
        by_cases hu : u = t
        · subst hu
          simp [ownOf, ht]
        · simp [hu]
      rw [hown]
      exact (h.past u).of_ne (by simp)
  exec := by
    intro tr c φ t call o k r s' x x' h _ _ hx _ hs htr
    refine ⟨h.guarded.exec hx htr hs, fun u => ?_⟩
    by_cases hu : u = t
    · subst hu
      have hpast := h.past u
      rw [hx] at hpast
      rw [Function.update_self]
      exact hpast.exec htr.1
    · rw [Function.update_of_ne hu]
      exact (h.past u).of_ne (ne_exec_of_task hu)
  finish := by
    intro tr c φ t call x out h _ hx _ hleave
    have hnothing : x.1 = .nothing := hleave.1
    refine ⟨h.guarded.update ?_ (by simp), fun u => ?_⟩
    · rintro ⟨_, y, hy, hholds⟩
      rw [hx] at hy
      cases hy
      exact hholds hnothing
    · have hown : ownOf (Function.update φ t none u) = ownOf (φ u) := by
        by_cases hu : u = t
        · subst hu
          simp [ownOf, hx, hnothing]
        · simp [hu]
      rw [hown]
      exact (h.past u).of_ne (by simp)

theorem PinInv.of_run {guard : xvcSystem.Config T → xvcSystem.Label T → Prop} {init : Board}
    (hinit : init.Initial) {c : xvcSystem.Config T} (h : Run guard init tr c) :
    ∃ φ, PinInv tr c.shared φ ∧ xvcProtocol.Paced c φ :=
  (pinInv_keeps hinit).run xvcProtocol_conforms (fun _ _ _ _ => trivial) h

/-- What is asked of a run `tr` that ends in `c`. -/
structure PinsOwned (guard : xvcSystem.Config T → xvcSystem.Label T → Prop) (init : Board)
    (tr : List (xvcSystem.Label T)) (c : xvcSystem.Config T) : Prop where
  /-- Directions and `JTAGSEL` are written in a configuration of the writing task only, and never
  while a shift is between its critical sections. -/
  writes : ∀ pre t call ev post, tr = pre ++ .exec t call ev :: post → configuresPins ev →
    Configuring pre t ∧ (∀ u, Configuring pre u → u = t) ∧ ∀ u, ¬ InShift pre u
  /-- No two tasks configure at the same time. -/
  one : ∀ t u, Configuring tr t → Configuring tr u → t = u
  disabled : c.shared.state = .disabled → c.shared.Inputs
  driven : c.shared.state = .enabled ∨ c.shared.state = .ioInProgress ∨
    c.shared.state = .disableRequested → c.shared.Outputs
  /-- A step that makes a pin an output belongs to a configuration that has sampled
  `NXILJTAG` high and `USBPOWER` low. -/
  sampled : ∀ pre l post c₁ c₂ pin, tr = pre ++ l :: post → Run guard init pre c₁ → Step c₁ l c₂ →
    c₁.shared.dir pin = .input → c₂.shared.dir pin = .output →
    ∃ t call, l = .exec t call ⟨.configurePin pin .output, ()⟩ ∧ Configuring pre t ∧
      Sampled pre t .nxiljtag true ∧ Sampled pre t .usbpower false
  rest : (∀ t, c.tasks t = .idle) → c.shared.state = .enabled ∨ c.shared.state = .disabled

/-- **The JTAG pins have one owner.** However many tasks enable, disable, follow the cables and
shift, in whatever order, and whatever the cables do. -/
theorem pins_owned {guard : xvcSystem.Config T → xvcSystem.Label T → Prop} {init : Board}
    (hinit : init.Initial) {c : xvcSystem.Config T} (h : Run guard init tr c) :
    PinsOwned guard init tr c := by
  obtain ⟨φ, hinv, hpaced⟩ := PinInv.of_run hinit h
  -- what the task of a step has before it
  have hexec : ∀ {pre t call ev c₁ c₂}, Run guard init pre c₁ → Step c₁ (.exec t call ev) c₂ →
      configuresPins ev → ∃ e jtag usb ws φ, PinInv pre c₁.shared φ ∧
        Past pre t (.config e (.writing jtag usb (ev.op :: ws))) := by
    intro pre t call ev c₁ c₂ hpre hstep hev
    obtain ⟨φ₁, hinv₁, hpaced₁⟩ := PinInv.of_run hinit hpre
    obtain ⟨x, x', hx, htr⟩ := hpaced₁.exec (fun _ _ _ _ => trivial) hstep
    obtain ⟨e, jtag, usb, ws, hown⟩ := Move.of_configuresPins htr.1 hev
    have hpast := hinv₁.past t
    rw [hx, show ownOf (some (call, x)) = x.1 from rfl, hown] at hpast
    exact ⟨e, jtag, usb, ws, φ₁, hinv₁, hpast⟩
  refine ⟨?_, fun t u => hinv.config_unique, hinv.pins.1, hinv.pins.2, ?_, fun hidle => ?_⟩
  · rintro pre t call ev post rfl hev
    obtain ⟨c₁, c₂, hpre, -, hstep⟩ := h.split
    obtain ⟨e, jtag, usb, ws, φ₁, hinv₁, hpast⟩ := hexec hpre hstep hev
    have hconf : Configuring pre t := hpast.config.mpr ⟨_, _, rfl⟩
    exact ⟨hconf, fun u hu => hinv₁.config_unique hu hconf, fun u => hinv₁.not_inShift hconf⟩
  · rintro pre l post c₁ c₂ pin rfl hpre hstep hbefore hafter
    cases hl : l with
    | start t call =>
      subst hl
      cases hstep
      rw [Config.move] at hafter
      exact absurd (hbefore.symm.trans hafter) (by simp)
    | finish t call out =>
      subst hl
      cases hstep
      rw [Config.move] at hafter
      exact absurd (hbefore.symm.trans hafter) (by simp)
    | exec t call ev =>
      subst hl
      have hev : ev = ⟨.configurePin pin .output, ()⟩ := by
        cases hstep with
        | exec ht hs => exact Board.step_dir hs hbefore hafter
      subst hev
      obtain ⟨e, jtag, usb, ws, φ₁, -, hpast⟩ := hexec hpre hstep trivial
      obtain ⟨hj, hu, hws⟩ := hpast.cables rfl
      obtain ⟨rfl, rfl⟩ := not_cable_of_output (hws.subset (List.mem_cons_self))
      exact ⟨t, call, rfl, hpast.config.mpr ⟨_, _, rfl⟩, hj, hu⟩
  · have hrest : c.shared.AtRest := by
      refine hinv.rest_of_idle fun t => ?_
      have := hpaced t
      rwa [hidle t] at this
    rcases hrest with ⟨hst, -⟩ | ⟨hst, -⟩
    · exact .inr hst
    · exact .inl hst

/-- A server that nobody has enabled yet. -/
def disabledBoard : Board := ⟨.disabled, fun _ => .input, false⟩

/-- One task enables the server while another one tries to disable it. -/
def enableTrace : List (xvcSystem.Label Bool) :=
  [.start false .enable, .exec false .enable ⟨.enableEntry, .proceed⟩,
    .start true .disable, .exec true .disable ⟨.disableEntry, .refused⟩,
    .exec false .enable ⟨.configEntry .enabling, true⟩,
    .exec false .enable ⟨.getPinValue .nxiljtag, true⟩,
    .exec false .enable ⟨.getPinValue .usbpower, false⟩,
    .exec false .enable ⟨.setPin .jtagsel true, ()⟩,
    .exec false .enable ⟨.configurePin .xiltck .output, ()⟩,
    .exec false .enable ⟨.configurePin .xiltdi .output, ()⟩,
    .exec false .enable ⟨.configurePin .xiltms .output, ()⟩,
    .exec false .enable ⟨.writeState .enabling, ()⟩,
    .exec false .enable ⟨.enableExit .ok, ()⟩,
    .finish true .disable (.ok .error), .finish false .enable (.ok .ok)]

theorem pins_owned_enableTrace :
    disabledBoard.Initial ∧ ∃ c, Run (fun _ _ => True) disabledBoard enableTrace c ∧
      c.shared.state = .enabled ∧ PinsOwned (fun _ _ => True) disabledBoard enableTrace c := by
  have hinit : disabledBoard.Initial := ⟨rfl, rfl, rfl, rfl⟩
  have hrun : ∃ c, Run (fun _ _ => True) disabledBoard enableTrace c ∧ c.shared.state = .enabled := by
    refine ⟨_, Run.nil.append (.cons trivial (.start rfl) <|
      .cons trivial (.exec rfl ⟨rfl, rfl⟩) <| .cons trivial (.start rfl) <|
      .cons trivial (.exec rfl ⟨rfl, rfl⟩) <| .cons trivial (.exec rfl ⟨rfl, rfl⟩) <|
      .cons trivial (.exec rfl ⟨nofun, rfl⟩) <| .cons trivial (.exec rfl ⟨nofun, rfl⟩) <|
      .cons trivial (.exec rfl rfl) <| .cons trivial (.exec rfl rfl) <|
      .cons trivial (.exec rfl rfl) <| .cons trivial (.exec rfl rfl) <|
      .cons trivial (.exec rfl rfl) <| .cons trivial (.exec rfl rfl) <|
      .cons trivial (.finish rfl (.ret _)) <| .cons trivial (.finish rfl (.ret _)) .nil), rfl⟩
  obtain ⟨c, hrun, hst⟩ := hrun
  exact ⟨hinit, c, hrun, hst, pins_owned hinit hrun⟩

end Xvc
