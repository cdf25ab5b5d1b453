import VmeSam3x.Serial.Monitor

/-! # The outcome of an erase

`ext_flash_wait_for_ready` polls the status register up to 100000 times, and the erase command
calls it up to 100 times. Both loops count down and are left early on success; the command then
decides from its counter.
-/

namespace Serial

open Interact Bytes CString Flash

/-! ## Polls -/

/-- A poll that reads the status register and finds no write in progress. -/
def FindsReady : Event Spi → Prop
  | ⟨.readPacket 1, r⟩ => r.isReady = true
  | _ => False

/-- Operations other than polls. -/
def NoPoll (o : SpiOp) : Prop := o ≠ .readPacket 1

variable {E α : Type} {evs : List (Event Spi)}

theorem not_findsReady (h : ∀ e ∈ evs, NoPoll e.op) : ¬ ∃ e ∈ evs, FindsReady e := by
  intro ⟨e, he, hready⟩
  have ho := h e he
  rcases e with ⟨o, r⟩
  cases o with
  | readPacket len =>
    by_cases hlen : len = 1
    · subst hlen
      exact ho rfl
    · unfold FindsReady at hready
      split at hready
      · rename_i heq
        cases heq
        exact hlen rfl
      · exact hready
  | _ => exact hready

/-- The result of a poll is the one in its events. -/
theorem path_readStatus {x : Except E (ReadResult 1)}
    (hp : Prog.Path m25pReadStatusRegister evs x) :
    ∃ r, x = .ok r ∧ (r.isReady = true ↔ ∃ e ∈ evs, FindsReady e) := by
  rcases Prog.path_perform_bind.mp hp with ⟨_, evs₁, rfl, h₁⟩
  rcases Prog.path_perform_bind.mp h₁ with ⟨stat, evs₂, rfl, h₂⟩
  unfold readAfter at h₂
  split at h₂
  · rcases Prog.path_perform_bind.mp h₂ with ⟨r, evs₃, rfl, h₃⟩
    rcases Prog.path_perform_bind.mp h₃ with ⟨_, evs₄, rfl, h₄⟩
    rcases Prog.path_ret.mp h₄ with ⟨rfl, rfl⟩
    refine ⟨r, rfl, ?_⟩
    simp [FindsReady]
  · -- the command failed, and nothing was read
    rename_i hstat
    rcases Prog.path_perform_bind.mp h₂ with ⟨_, evs₃, rfl, h₃⟩
    rcases Prog.path_ret.mp h₃ with ⟨rfl, rfl⟩
    refine ⟨_, rfl, ?_⟩
    simp [FindsReady, ReadResult.isReady, ReadResult.failed, hstat]

/-- The polls of one wait: it is successful exactly when one of them finds the flash ready. -/
theorem path_pollReady {timeout : Nat} {x : Except E Status}
    (hp : Prog.Path (pollReady timeout) evs x) :
    ∃ status, x = .ok status ∧ (status = success ↔ ∃ e ∈ evs, FindsReady e) := by
  induction timeout generalizing evs with
  | zero =>
    rcases Prog.path_ret.mp hp with ⟨rfl, rfl⟩
    exact ⟨error, rfl, by simp [error, success]⟩
  | succ timeout ih =>
    rcases Prog.path_bind_of_ok (fun _ _ h => path_readStatus h) hp with
      ⟨r, evs₁, evs₂, rfl, hr, h₂⟩
    split at h₂
    · -- the loop is left at the first poll that finds the flash ready
      rename_i hready
      rcases Prog.path_ret.mp h₂ with ⟨rfl, rfl⟩
      refine ⟨success, rfl, iff_of_true rfl ?_⟩
      rw [List.append_nil]
      exact hr.mp hready
    · rename_i hready
      rcases ih h₂ with ⟨status, rfl, hstatus⟩
      have hnone : ¬ ∃ e ∈ evs₁, FindsReady e := fun h => hready (hr.mpr h)
      refine ⟨status, rfl, hstatus.trans ?_⟩
      constructor
      · intro ⟨e, he, hf⟩
        exact ⟨e, List.mem_append_right _ he, hf⟩
      · intro ⟨e, he, hf⟩
        rcases List.mem_append.mp he with he | he
        · exact absurd ⟨e, he, hf⟩ hnone
        · exact ⟨e, he, hf⟩

/-- The erase itself does not poll. -/
theorem enabledCommand_noPoll (command : List U8) :
    (enabledWrite (m25pCommand command) : Prog Spi E Status).Uses NoPoll := by
  have hcommand : ∀ c, (m25pCommand c : Prog Spi E Status).Uses NoPoll :=
    fun c => ⟨nofun, fun _ => ⟨nofun, fun _ => ⟨nofun, fun _ => trivial⟩⟩⟩
  refine (hcommand _).bind fun status => ?_
  refine Prog.Uses.bind ?_ fun status => (hcommand _).bind fun _ => trivial
  exact Prog.Uses.ite (hcommand _) trivial

/-! ## The command -/

/-- A poll of the command. -/
def FlashReady : Event Monitor → Prop
  | ⟨.spi o, r⟩ => FindsReady ⟨o, r⟩
  | _ => False

/-- Some poll read the status register successfully with no write in progress. -/
def SomeReady (evs : List (Event Monitor)) : Prop := ∃ e ∈ evs, FlashReady e

def Prints (text : String) (evs : List (Event Monitor)) : Prop := ⟨.print text, ()⟩ ∈ evs

/-- The characters that were typed. -/
def typed (evs : List (Event Monitor)) : List U8 :=
  evs.filterMap fun
    | ⟨.getchar, c⟩ => c
    | _ => none

/-- Operations on the flash. -/
def IsSpi : MonitorOp → Prop
  | .spi _ => True
  | _ => False

variable {mevs mevs' : List (Event Monitor)}

theorem someReady_append : SomeReady (mevs ++ mevs') ↔ SomeReady mevs ∨ SomeReady mevs' := by
  unfold SomeReady
  simp only [List.mem_append, or_and_right, exists_or]

theorem someReady_map : SomeReady (evs.map onSpi.event) ↔ ∃ e ∈ evs, FindsReady e := by
  unfold SomeReady
  simp only [List.mem_map, exists_exists_and_eq_and]
  rfl

theorem not_someReady_print (text : String) : ¬ SomeReady [⟨.print text, ()⟩] := by
  intro ⟨e, he, hready⟩
  rw [List.mem_singleton.mp he] at hready
  exact hready

theorem flash_isSpi (p : Prog Spi Fault α) : (flash p).Uses IsSpi := by
  induction p with
  | ret a => trivial
  | fail e => trivial
  | call o k ih => exact ⟨trivial, fun r => ih r⟩

theorem typed_of_isSpi (h : ∀ e ∈ mevs, IsSpi e.op) : typed mevs = [] := by
  unfold typed
  rw [List.filterMap_eq_nil_iff]
  intro e he
  have ho := h e he
  rcases e with ⟨o, r⟩
  cases o <;> first | rfl | exact ho.elim

/-- The report after operations on the flash. -/
theorem prints_report (h : ∀ e ∈ mevs, IsSpi e.op) (text text' : String) :
    Prints text' (mevs ++ [⟨.print text, ()⟩]) ↔ text' = text := by
  unfold Prints
  rw [List.mem_append, List.mem_singleton]
  constructor
  · intro hmem
    rcases hmem with hmem | heq
    · exact (h _ hmem).elim
    · exact MonitorOp.print.inj (congrArg Event.op heq)
  · intro heq
    rw [heq]
    exact .inr rfl

theorem typed_report (h : ∀ e ∈ mevs, IsSpi e.op) (text : String) :
    typed (mevs ++ [⟨.print text, ()⟩]) = [] := by
  have hmevs := typed_of_isSpi h
  unfold typed at hmevs ⊢
  rw [List.filterMap_append, hmevs]
  rfl

theorem someReady_report (text : String) :
    SomeReady (mevs ++ [⟨.print text, ()⟩]) ↔ SomeReady mevs := by
  rw [someReady_append]
  exact or_iff_left (not_someReady_print text)

/-- The wait of the command: its counter is zero exactly when no poll found the flash ready. -/
theorem path_eraseWait {n : Nat} {x : Except Fault Nat}
    (hp : Prog.Path (eraseWait n) mevs x) :
    (∀ e ∈ mevs, IsSpi e.op) ∧ ∃ i, x = .ok i ∧ (i = 0 ↔ ¬ SomeReady mevs) := by
  induction n generalizing mevs with
  | zero =>
    rcases Prog.path_ret.mp hp with ⟨rfl, rfl⟩
    exact ⟨nofun, 0, rfl, iff_of_true rfl fun ⟨_, he, _⟩ => nomatch he⟩
  | succ n ih =>
    have hwait : ∀ evs y, Prog.Path (flash extFlashWaitForReady) evs y →
        ∃ status, y = .ok status ∧ (∀ e ∈ evs, IsSpi e.op) ∧
          (status = success ↔ SomeReady evs) := by
      intro evs y h
      have hspi := h.uses (flash_isSpi _)
      rcases Prog.path_embed.mp h with ⟨evs', rfl, h'⟩
      rcases path_pollReady h' with ⟨status, rfl, hstatus⟩
      exact ⟨status, rfl, hspi, hstatus.trans someReady_map.symm⟩
    rcases Prog.path_bind_of_ok (R := fun evs status => (∀ e ∈ evs, IsSpi e.op) ∧
      (status = success ↔ SomeReady evs)) hwait hp with ⟨status, evs₁, evs₂, rfl, ⟨hspi, hr⟩, h₂⟩
    split at h₂
    · -- left early: the counter is not zero
      rename_i hs
      rcases Prog.path_ret.mp h₂ with ⟨rfl, rfl⟩
      rw [List.append_nil]
      exact ⟨hspi, n + 1, rfl, iff_of_false (Nat.succ_ne_zero n) (not_not.mpr (hr.mp hs))⟩
    · rename_i hs
      rcases ih h₂ with ⟨hspi', i, rfl, hi⟩
      refine ⟨List.forall_mem_append.mpr ⟨hspi, hspi'⟩, i, rfl, hi.trans ?_⟩
      rw [someReady_append, not_or]
      exact ⟨fun h => ⟨fun h' => hs (hr.mpr h'), h⟩, fun h => h.2⟩

/-- The erase is left in any case, without a poll. -/
theorem path_erase {x : Except Fault Status}
    (hp : Prog.Path (flash (enabledWrite (m25pSectorErase macAddressOffset))) mevs x) :
    ∃ status, x = .ok status ∧ (∀ e ∈ mevs, IsSpi e.op) ∧ ¬ SomeReady mevs := by
  have hspi := hp.uses (flash_isSpi _)
  rcases Prog.path_embed.mp hp with ⟨evs, rfl, h⟩
  have hreturns : ∀ c, Prog.Post (fun _ => True) (fun _ => False)
      (m25pCommand c : Prog Spi Fault Status) := fun c _ _ _ => trivial
  have hpost : Prog.Post (fun _ => True) (fun _ => False)
      (enabledWrite (m25pSectorErase macAddressOffset) : Prog Spi Fault Status) := by
    refine (hreturns _).bind fun status _ => ?_
    refine Prog.Post.bind (Q := fun _ => True) ?_ fun status _ =>
      (hreturns _).bind fun _ _ => trivial
    unfold whenEnabled
    split
    · exact hreturns _
    · trivial
  have hnone := not_findsReady (h.uses (enabledCommand_noPoll _))
  cases x with
  | ok status => exact ⟨status, rfl, hspi, fun hready => hnone (someReady_map.mp hready)⟩
  | error e => exact (hpost.of_path_error h).elim

/-- What the confirmed command reports: ready when no poll found the flash ready, and a timeout
when one did. -/
theorem path_eraseConfirmed {x : Except Fault Unit} (hp : Prog.Path eraseConfirmed mevs x) :
    typed mevs = [] ∧ (Prints " READY\r\n" mevs ↔ ¬ SomeReady mevs) ∧
      (Prints " TIMEOUT\r\n" mevs ↔ SomeReady mevs) := by
  rcases Prog.path_bind_of_ok (R := fun evs _ => (∀ e ∈ evs, IsSpi e.op) ∧ ¬ SomeReady evs)
    (fun _ _ h => path_erase h) hp with ⟨status, evs₁, evs₂, rfl, ⟨hspi₁, hnone₁⟩, h₂⟩
  rcases Prog.path_bind_of_ok (R := fun evs i => (∀ e ∈ evs, IsSpi e.op) ∧ (i = 0 ↔ ¬ SomeReady evs))
    (fun _ _ h => (path_eraseWait h).elim fun hspi ⟨i, hx, hi⟩ => ⟨i, hx, hspi, hi⟩) h₂
    with ⟨i, evs₃, evs₄, rfl, ⟨hspi₃, hi⟩, h₄⟩
  have hspi : ∀ e ∈ evs₁ ++ evs₃, IsSpi e.op := List.forall_mem_append.mpr ⟨hspi₁, hspi₃⟩
  have hready : SomeReady (evs₁ ++ evs₃) ↔ ¬ i = 0 := by
    rw [someReady_append, hi, not_not]
    exact or_iff_right hnone₁
  have hreport : ∀ text, Prog.Path (print text) evs₄ x → evs₄ = [⟨.print text, ()⟩] := by
    intro text h
    rcases Prog.path_perform.mp h with ⟨_, h', -⟩
    exact h'
  rw [← List.append_assoc]
  split at h₄
  · -- the counter has run down: no poll found the flash ready
    rename_i hzero
    rw [hreport _ h₄, prints_report hspi, prints_report hspi, someReady_report, hready]
    exact ⟨typed_report hspi _, iff_of_true rfl (not_not.mpr hzero),
      iff_of_false (by decide) (not_not.mpr hzero)⟩
  · rename_i hpos
    rw [hreport _ h₄, prints_report hspi, prints_report hspi, someReady_report, hready]
    exact ⟨typed_report hspi _, iff_of_false (by decide) (not_not.mpr hpos), iff_of_true rfl hpos⟩

/-! ## Confirmation -/

/-- A run that begins with a character. -/
theorem path_getchar {f : U8 → MonitorProg α} {x : Except Fault α}
    (hp : Prog.Path (getchar >>= f) mevs x) :
    (∃ c rest, mevs = ⟨.getchar, some c⟩ :: rest ∧ Prog.Path (f c) rest x) ∨
      mevs = [⟨.getchar, none⟩] ∧ x = .error .blocked := by
  unfold getchar at hp
  rw [bind_assoc] at hp
  rcases Prog.path_perform_bind.mp hp with ⟨c?, rest, rfl, h⟩
  cases c? with
  | some c => exact .inl ⟨c, rest, rfl, h⟩
  | none =>
    rcases Prog.path_fail.mp h with ⟨rfl, rfl⟩
    exact .inr ⟨rfl, rfl⟩

/-- The letters are typed exactly when the answer is yes. -/
theorem path_expectLetters {letters : List U8} {x : Except Fault Bool}
    (hp : Prog.Path (expectLetters letters) mevs x) :
    (typed mevs).map toupper = letters ↔ x = .ok true := by
  induction letters generalizing mevs with
  | nil =>
    rcases Prog.path_ret.mp hp with ⟨rfl, rfl⟩
    exact iff_of_true rfl rfl
  | cons letter rest ih =>
    rcases path_getchar hp with ⟨c, evs, rfl, h⟩ | ⟨rfl, rfl⟩
    · change (c :: typed evs).map toupper = _ ↔ _
      rw [List.map_cons, List.cons.injEq]
      split at h
      · rename_i hc
        rcases Prog.path_perform_bind.mp h with ⟨_, evs', rfl, h'⟩
        have htail : (typed evs').map toupper = rest ↔ x = .ok true := ih h'
        exact (and_iff_right hc).trans htail
      · rename_i hc
        rcases Prog.path_ret.mp h with ⟨rfl, rfl⟩
        exact iff_of_false (fun hand => hc hand.1) nofun
    · exact iff_of_false nofun nofun

/-- The operations before the confirmation: no report, and nothing on the flash. -/
def Asks : MonitorOp → Prop
  | .print text => text ≠ " READY\r\n" ∧ text ≠ " TIMEOUT\r\n"
  | .spi _ => False
  | _ => True

theorem expectLetters_asks (letters : List U8) : (expectLetters letters).Uses Asks := by
  induction letters with
  | nil => trivial
  | cons letter rest ih =>
    refine Prog.Uses.bind ⟨trivial, fun c => ?_⟩ fun c => ?_
    · cases c <;> trivial
    · exact Prog.Uses.ite ⟨trivial, fun _ => ih⟩ trivial

theorem serialYes_asks : serialYes.Uses Asks :=
  Prog.Uses.perform_bind ⟨by decide, by decide⟩ fun _ => expectLetters_asks _

theorem someReady_of_asks (h : ∀ e ∈ mevs, Asks e.op) :
    SomeReady (mevs ++ mevs') ↔ SomeReady mevs' := by
  rw [someReady_append]
  refine or_iff_right ?_
  intro ⟨e, he, hready⟩
  have ho := h e he
  rcases e with ⟨o, r⟩
  cases o with
  | spi o => exact ho
  | _ => exact hready

theorem prints_of_asks (h : ∀ e ∈ mevs, Asks e.op) {text : String}
    (htext : text = " READY\r\n" ∨ text = " TIMEOUT\r\n") :
    Prints text (mevs ++ mevs') ↔ Prints text mevs' := by
  unfold Prints
  rw [List.mem_append]
  refine or_iff_right ?_
  intro hmem
  have ho : text ≠ " READY\r\n" ∧ text ≠ " TIMEOUT\r\n" := h _ hmem
  exact htext.elim ho.1 ho.2

/-- The operator has typed yes. -/
def Confirmed (evs : List (Event Monitor)) : Prop := (typed evs).map toupper = [0x59, 0x45, 0x53]

/-- The answer is yes exactly when the operator has typed it. -/
theorem path_serialYes {x : Except Fault Bool} (hp : Prog.Path serialYes mevs x) :
    Confirmed mevs ↔ x = .ok true := by
  rcases Prog.path_perform_bind.mp hp with ⟨_, evs, rfl, h⟩
  have hletters : (typed evs).map toupper = [0x59, 0x45, 0x53] ↔ x = .ok true :=
    path_expectLetters h
  exact hletters

/-- The report is the outcome: ready exactly when some poll found the flash ready, and a timeout
otherwise. -/
def ReportsOutcome (evs : List (Event Monitor)) : Prop :=
  (Prints " READY\r\n" evs ↔ SomeReady evs) ∧ (Prints " TIMEOUT\r\n" evs ↔ ¬ SomeReady evs)

/-- The report of a confirmed erase is the opposite of the outcome. -/
theorem path_eraseCommand {x : Except Fault Unit} (hp : Prog.Path eraseCommand mevs x)
    (hyes : Confirmed mevs) :
    (Prints " READY\r\n" mevs ↔ ¬ SomeReady mevs) ∧
      (Prints " TIMEOUT\r\n" mevs ↔ SomeReady mevs) := by
  rcases Prog.path_perform_bind.mp hp with ⟨_, evs, rfl, h⟩
  have hfirst : Asks (.print "Erase Setup Flash ") := ⟨by decide, by decide⟩
  rcases Prog.path_bind.mp h with ⟨b, evs₁, evs₂, rfl, h₁, h₂⟩ | ⟨e, rfl, h₁⟩
  · have hasks : ∀ e ∈ (⟨.print "Erase Setup Flash ", ()⟩ :: evs₁ : List (Event Monitor)),
        Asks e.op := List.forall_mem_cons.mpr ⟨hfirst, h₁.uses serialYes_asks⟩
    have htyped : typed (⟨.print "Erase Setup Flash ", ()⟩ :: (evs₁ ++ evs₂)) =
        typed evs₁ ++ typed evs₂ := List.filterMap_append
    unfold Confirmed at hyes
    rw [htyped] at hyes
    rw [← List.cons_append, prints_of_asks hasks (.inl rfl), prints_of_asks hasks (.inr rfl),
      someReady_of_asks hasks]
    cases b with
    | true => exact (path_eraseConfirmed h₂).2
    | false =>
      -- not confirmed: nothing more is typed
      rcases Prog.path_ret.mp h₂ with ⟨rfl, rfl⟩
      have hno : ¬ Confirmed evs₁ := fun h => nomatch (path_serialYes h₁).mp h
      rw [show typed ([] : List (Event Monitor)) = [] from rfl, List.append_nil] at hyes
      exact absurd hyes hno
  · have hno : ¬ Confirmed evs := fun h => nomatch (path_serialYes h₁).mp h
    exact absurd hyes hno

/-- **The erase command never reports the outcome.** Whatever the bus answers, a confirmed erase
reports ready when no poll found the flash ready, and a timeout when one did. -/
theorem not_reportsOutcome (env : Env Monitor)
    (hyes : Confirmed (Prog.exec env eraseCommand []).2) :
    ¬ ReportsOutcome (Prog.exec env eraseCommand []).2 := by
  intro ⟨hready, _⟩
  have hopposite := (path_eraseCommand (Prog.path_exec env eraseCommand).1 hyes).1
  exact iff_not_self (hready.symm.trans hopposite)

/-- The operator types yes, and the first poll finds the flash ready. -/
def readyEnv : Env Monitor
  | tr, .getchar => [0x79, 0x65, 0x73][(typed tr).length]?
  | _, .putchar _ => ()
  | _, .print _ => ()
  | _, .spi o => quietBus [] o

theorem not_reportsOutcome_readyEnv : ¬ ReportsOutcome (Prog.exec readyEnv eraseCommand []).2 :=
  not_reportsOutcome readyEnv rfl

/-- That ready flash is reported as a timeout. -/
theorem timeout_when_ready :
    Confirmed (Prog.exec readyEnv eraseCommand []).2 ∧
      SomeReady (Prog.exec readyEnv eraseCommand []).2 ∧
      Prints " TIMEOUT\r\n" (Prog.exec readyEnv eraseCommand []).2 ∧
      ¬ ReportsOutcome (Prog.exec readyEnv eraseCommand []).2 := by
  have hyes : Confirmed (Prog.exec readyEnv eraseCommand []).2 := rfl
  rcases path_eraseCommand (Prog.path_exec readyEnv eraseCommand).1 hyes with ⟨hready, htimeout⟩
  have hpoll : (Prog.exec readyEnv eraseCommand []).2[19]? =
      some ⟨.spi (.readPacket 1), quietBus [] (.readPacket 1)⟩ := rfl
  have hfound : FindsReady ⟨.readPacket 1, quietBus [] (.readPacket 1)⟩ := by
    change ReadResult.isReady _ = true
    decide
  have hsome : SomeReady (Prog.exec readyEnv eraseCommand []).2 :=
    ⟨_, List.mem_of_getElem? hpoll, hfound⟩
  refine ⟨hyes, hsome, htimeout.mpr hsome, ?_⟩
  intro ⟨houtcome, _⟩
  exact hready.mp (houtcome.mpr hsome) hsome

end Serial
