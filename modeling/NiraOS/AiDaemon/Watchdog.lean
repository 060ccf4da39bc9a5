import NiraOS.AiDaemon.OneModel

/-!
# The inactivity watchdog

`inactivity_watchdog` reads the mode, the timeout, the last activity and the
clock one after another, and unloads under yet another lock.  What it read may be
out of date when it empties the slot.  `Undisturbed` says that it is not: no
write that would make the watchdog's case weaker falls between its reading and
its emptying the slot.  `Justified` is what the watchdog may then rely on at each
of its program counters.
-/

namespace NiraOS.AiDaemon

/-! ## Between check and act -/

/-- The stages of `unload_model` up to the emptying of the slot. -/
def UnloadPc.beforeClear : UnloadPc → Bool
  | .writeUnloading | .lock | .send | .reply | .clear => true
  | .writeUnloaded | .unlock | .fail _ => false

/-- A watchdog has read the mode and may yet empty the slot. -/
def Pc.pastMode : Pc → Bool
  | .watchdog .timeout | .watchdog (.last _) | .watchdog (.now ..) | .watchdog .state => true
  | .unload true stage => stage.beforeClear
  | _ => false

def Pc.pastTimeout : Pc → Bool
  | .watchdog (.last _) | .watchdog (.now ..) | .watchdog .state => true
  | .unload true stage => stage.beforeClear
  | _ => false

def Pc.pastActivity : Pc → Bool
  | .watchdog (.now ..) | .watchdog .state => true
  | .unload true stage => stage.beforeClear
  | _ => false

/-- No task is where `past` says. -/
def Nobody (past : Pc → Bool) (s : State) : Prop := ∀ w < s.nextTask, past (s.pc w) = false

/-- The operation pins no mode, raises no timeout and refreshes no activity that
a watchdog has already read. -/
def Op.Undisturbing (s : State) : Op → Prop
  | .writeMode mode => mode.autoUnloads = true ∨ Nobody Pc.pastMode s
  | .writeTimeout secs => secs ≤ s.inactivityTimeout ∨ Nobody Pc.pastTimeout s
  | .writeActivity time => time ≤ s.lastActivity ∨ Nobody Pc.pastActivity s
  | _ => True

def Undisturbed (cfg : Config) (s : State) : Event → Prop
  | .run t _ => (program cfg (s.pc t)).op.Undisturbing s
  | _ => True

instance (past : Pc → Bool) (s : State) : Decidable (Nobody past s) :=
  inferInstanceAs (Decidable (∀ w < s.nextTask, _))

instance (s : State) : (op : Op) → Decidable (op.Undisturbing s)
  | .writeMode _ | .writeTimeout _ | .writeActivity _ => inferInstanceAs (Decidable (_ ∨ _))
  | .lockEngine | .unlockEngine | .readState | .writeState _ | .readMode | .readTimeout
  | .readActivity | .readCreated | .clock | .createBackend | .activeModel | .sendLoad | .sendUnload
  | .awaitReply | .clearSlot | .sendGenerate .. | .receiveToken | .openStream .. | .sendResponse _
  | .getContext | .executeAction _ | .close | .halt => inferInstanceAs (Decidable True)

instance (cfg : Config) (s : State) : (event : Event) → Decidable (Undisturbed cfg s event)
  | .run t _ => inferInstanceAs (Decidable ((program cfg (s.pc t)).op.Undisturbing s))
  | .cancel _ | .work .. | .call _ | .wake _ | .read _ | .disconnect _ | .tick =>
      inferInstanceAs (Decidable True)

/-- The inactivity timeout has passed since the last activity. -/
def TimedOut (s : State) : Prop := s.inactivityTimeout ≤ s.clock - s.lastActivity

/-- What holds at the program counters of a watchdog. -/
def Justified (s : State) : Pc → Prop
  | .watchdog .timeout => s.mode.autoUnloads = true
  | .watchdog (.last timeout) => s.mode.autoUnloads = true ∧ s.inactivityTimeout ≤ timeout
  | .watchdog (.now timeout last) =>
      s.mode.autoUnloads = true ∧ s.inactivityTimeout ≤ timeout ∧ s.lastActivity ≤ last
  | .watchdog .state => s.mode.autoUnloads = true ∧ TimedOut s
  | .unload true stage => stage.beforeClear = true → s.mode.autoUnloads = true ∧ TimedOut s
  | _ => True

/-- The task is not a watchdog. -/
def Family.unwatching : Family → Bool
  | .watchdog | .watchdogUnload => false
  | _ => true

theorem Justified.of_unwatching {s : State} {pc : Pc} (h : pc.family.unwatching = true) :
    Justified s pc := by
  cases pc with
  | watchdog stage => cases h
  | unload fromWatchdog stage =>
      cases fromWatchdog with
      | true => cases h
      | false => trivial
  | _ => trivial

/-- Only a watchdog becomes one. -/
theorem next_unwatching (cfg : Config) {pc : Pc} (h : pc.family.unwatching = true)
    (a : (program cfg pc).op.Answer) : ((program cfg pc).next a).family.unwatching = true :=
  next_family_of cfg (p := Family.unwatching) (fun family => by cases family <;> decide) h a

/-! ## The invariant -/

section Steps

variable {cfg : Config} {s s' s₁ : State}

/-- `s'` gives a watchdog at `pc` no weaker a case than `s`. -/
structure NoWeaker (s s' : State) (pc : Pc) : Prop where
  mode : pc.pastMode = true → s.mode.autoUnloads = true → s'.mode.autoUnloads = true
  timeout : pc.pastTimeout = true → s'.inactivityTimeout ≤ s.inactivityTimeout
  activity : pc.pastActivity = true → s'.lastActivity ≤ s.lastActivity
  clock : s.clock ≤ s'.clock

theorem NoWeaker.of_eq {pc : Pc} (hmode : s'.mode = s.mode)
    (htimeout : s'.inactivityTimeout = s.inactivityTimeout)
    (hactivity : s'.lastActivity = s.lastActivity) (hclock : s.clock ≤ s'.clock) :
    NoWeaker s s' pc :=
  ⟨fun _ => hmode ▸ id, fun _ => htimeout.le, fun _ => hactivity.le, hclock⟩

theorem Justified.mono {pc : Pc} (h : Justified s pc) (hs : NoWeaker s s' pc) :
    Justified s' pc := by
  have htimedOut : pc.pastTimeout = true → pc.pastActivity = true → TimedOut s → TimedOut s' := by
    intro htimeout hactivity htimedOut
    have hle := hs.timeout htimeout
    have hle' := hs.activity hactivity
    have hclock := hs.clock
    unfold TimedOut at htimedOut ⊢
    omega
  cases pc with
  | watchdog stage =>
      cases stage with
      | timeout => exact hs.mode rfl h
      | last timeout => exact ⟨hs.mode rfl h.1, (hs.timeout rfl).trans h.2⟩
      | now timeout last =>
          exact ⟨hs.mode rfl h.1, (hs.timeout rfl).trans h.2.1, (hs.activity rfl).trans h.2.2⟩
      | state => exact ⟨hs.mode rfl h.1, htimedOut rfl rfl h.2⟩
      | _ => trivial
  | unload fromWatchdog stage =>
      cases fromWatchdog with
      | true =>
          intro hbefore
          exact ⟨hs.mode hbefore (h hbefore).1, htimedOut hbefore hbefore (h hbefore).2⟩
      | false => trivial
  | _ => trivial

/-- An undisturbing operation weakens no watchdog's case. -/
theorem Op.Undisturbing.noWeaker {op : Op} (hop : op.Undisturbing s) (hframe : Frame op s s₁)
    (hunborn : ∀ w, s.nextTask ≤ w → s.pc w = .unborn) (w : TaskId) :
    NoWeaker s s₁ (s.pc w) := by
  -- a task not begun is nowhere
  have hnobody : ∀ past : Pc → Bool, past .unborn = false → Nobody past s →
      past (s.pc w) = false := by
    intro past hpast h
    by_cases hw : w < s.nextTask
    · exact h w hw
    · rw [hunborn w (Nat.le_of_not_lt hw)]
      exact hpast
  have hclock := hframe.clock.ge
  cases op with
  | writeMode mode =>
      refine ⟨fun hpast _ => ?_, fun _ => hframe.inactivityTimeout.le, fun _ =>
        hframe.lastActivity.le, hclock⟩
      rw [hframe.mode]
      refine Or.resolve_right hop fun h => ?_
      rw [hnobody _ rfl h] at hpast
      cases hpast
  | writeTimeout secs =>
      refine ⟨fun _ => hframe.mode ▸ id, fun hpast => ?_, fun _ => hframe.lastActivity.le, hclock⟩
      rw [hframe.inactivityTimeout]
      refine Or.resolve_right hop fun h => ?_
      rw [hnobody _ rfl h] at hpast
      cases hpast
  | writeActivity time =>
      refine ⟨fun _ => hframe.mode ▸ id, fun _ => hframe.inactivityTimeout.le,
        fun hpast => ?_, hclock⟩
      rw [hframe.lastActivity]
      refine Or.resolve_right hop fun h => ?_
      rw [hnobody _ rfl h] at hpast
      cases hpast
  | _ => exact .of_eq hframe.mode hframe.inactivityTimeout hframe.lastActivity hclock

/-- What the watchdog reads justifies where it goes. -/
theorem Justified.watchdog {stage : WatchdogPc} {t : TaskId} {o : Oracle}
    {a : (program cfg (.watchdog stage)).op.Answer} (h : Justified s (.watchdog stage))
    (hperform : perform o s t (program cfg (.watchdog stage)).op = some (a, s₁)) :
    Justified s₁ ((program cfg (.watchdog stage)).next a) := by
  cases stage with
  | sleep => cases hperform
  | created =>
      cases hperform
      simp only [program, inactivityWatchdog]
      split_ifs <;> trivial
  | mode =>
      cases hperform
      simp only [program, inactivityWatchdog]
      split_ifs with hmode
      · exact hmode
      · trivial
  | timeout =>
      cases hperform
      exact ⟨h, Nat.le_refl _⟩
  | last timeout =>
      cases hperform
      exact ⟨h.1, h.2, Nat.le_refl _⟩
  | now timeout last =>
      cases hperform
      simp only [program, inactivityWatchdog]
      split_ifs with helapsed
      · refine ⟨h.1, ?_⟩
        have htimeout := h.2.1
        have hlast := h.2.2
        unfold TimedOut
        omega
      · trivial
  | state =>
      cases hperform
      simp only [program, inactivityWatchdog]
      split_ifs
      · exact fun _ => h
      · trivial

/-- On its way to the slot the watchdog does not go back. -/
theorem unloadModel_beforeClear {stage stage' : UnloadPc} (fromWatchdog : Bool)
    {a : (unloadModel fromWatchdog stage).op.Answer}
    (hnext : (unloadModel fromWatchdog stage).next a = .unload fromWatchdog stage')
    (h : stage'.beforeClear = true) : stage.beforeClear = true := by
  cases stage with
  | clear | writeUnloaded =>
      obtain rfl := (Pc.unload.inj hnext).2
      cases h
  | unlock | fail error => cases fromWatchdog <;> cases hnext
  | _ => rfl

theorem Justified.unload {stage : UnloadPc} {t : TaskId} {o : Oracle}
    {a : (program cfg (.unload true stage)).op.Answer} (h : Justified s (.unload true stage))
    (hperform : perform o s t (program cfg (.unload true stage)).op = some (a, s₁)) :
    Justified s₁ ((program cfg (.unload true stage)).next a) := by
  have hsame : NoWeaker s s₁ (.unload true stage) := by
    have hframe := perform_frame hperform
    refine .of_eq (hframe.mode.trans ?_) (hframe.inactivityTimeout.trans ?_)
      (hframe.lastActivity.trans ?_) hframe.clock.ge <;> cases stage <;> rfl
  generalize hpc : (program cfg (.unload true stage)).next a = pc'
  cases pc' with
  | unload fromWatchdog stage' =>
      cases fromWatchdog with
      | true => exact fun hbefore => (h.mono hsame) (unloadModel_beforeClear true hpc hbefore)
      | false => trivial
  | watchdog stage' =>
      -- `afterUnload` leads to `sleep`
      cases stage with
      | unlock | fail error => cases hpc; trivial
      | lock => cases hpc
      | send | reply => rcases (a : Except String Unit) with error | ⟨⟩ <;> cases hpc
      | _ => cases hpc
  | _ => trivial

/-- A task's own steps keep it justified. -/
theorem Justified.next {pc : Pc} {t : TaskId} {o : Oracle} {a : (program cfg pc).op.Answer}
    (h : Justified s pc) (hperform : perform o s t (program cfg pc).op = some (a, s₁)) :
    Justified s₁ ((program cfg pc).next a) := by
  cases hfamily : pc.family.unwatching with
  | true => exact .of_unwatching (next_unwatching cfg hfamily a)
  | false =>
      cases pc with
      | watchdog stage => exact h.watchdog hperform
      | unload fromWatchdog stage =>
          cases fromWatchdog with
          | true => exact h.unload hperform
          | false => cases hfamily
      | _ => cases hfamily

/-- Every watchdog is justified where it is. -/
def Watched (s : State) : Prop := ∀ w, Justified s (s.pc w)

/-- Steps that leave what the watchdogs read as it is, or let time pass. -/
theorem Watched.congr (h : Watched s) (hmode : s'.mode = s.mode)
    (htimeout : s'.inactivityTimeout = s.inactivityTimeout)
    (hactivity : s'.lastActivity = s.lastActivity) (hclock : s.clock ≤ s'.clock)
    (hpc : ∀ w, s'.pc w = s.pc w ∨ Justified s' (s'.pc w)) : Watched s' := by
  intro w
  rcases hpc w with heq | hjustified
  · rw [heq]
    exact (h w).mono (.of_eq hmode htimeout hactivity hclock)
  · exact hjustified

theorem start_justified (s : State) (call : Call) : Justified s call.start := by
  cases call with
  | inactivityWatchdog => trivial
  | setMode mode => simp only [Call.start]; split <;> trivial
  | setInactivityTimeout secs => simp only [Call.start]; split <;> trivial
  | generate req => simp only [Call.start]; split <;> trivial
  | streamGenerate req => simp only [Call.start]; split <;> trivial
  | _ => trivial

theorem Watched.run {t : TaskId} {o : Oracle} (h : Watched s) (hs : Disciplined s)
    (hok : Undisturbed cfg s (.run t o)) (hstep : step cfg s (.run t o) = some s') :
    Watched s' := by
  obtain ⟨a, s₁, hperform, rfl⟩ := step_run_iff.mp hstep
  have hframe := perform_frame hperform
  have hgoto : ∀ pc, Justified s₁ pc → Justified (s₁.goto t ((program cfg (s.pc t)).next a)) pc :=
    fun pc hpc => hpc.mono (.of_eq rfl rfl rfl (Nat.le_refl _))
  intro w
  by_cases hw : w = t
  · subst hw
    rw [goto_pc_self]
    exact hgoto _ ((h w).next hperform)
  · rw [goto_pc_of_ne _ _ hw, hframe.pc]
    exact hgoto _ ((h w).mono (Op.Undisturbing.noWeaker hok hframe hs.unborn w))

theorem Watched.step {event : Event} (h : Watched s) (hs : Disciplined s)
    (hok : Undisturbed cfg s event) (hstep : step cfg s event = some s') : Watched s' := by
  cases event with
  | call call =>
      cases hstep
      refine h.congr rfl rfl rfl (Nat.le_refl _) fun w => ?_
      change Function.update s.pc s.nextTask call.start w = _ ∨
        Justified _ (Function.update s.pc s.nextTask call.start w)
      by_cases hw : w = s.nextTask
      · subst hw
        rw [Function.update_self]
        exact .inr (start_justified _ call)
      · rw [Function.update_of_ne hw]
        exact .inl rfl
  | run t o => exact h.run hs hok hstep
  | wake t =>
      simp only [AiDaemon.step] at hstep
      split at hstep <;> cases hstep
      refine h.congr rfl rfl rfl (Nat.le_refl _) fun w => ?_
      by_cases hw : w = t
      · subst hw
        rw [goto_pc_self]
        exact .inr trivial
      · exact .inl (goto_pc_of_ne _ _ hw)
  | cancel t =>
      obtain ⟨-, rfl⟩ := cancel_eq hstep
      refine h.congr rfl rfl rfl (Nat.le_refl _) fun w => ?_
      by_cases hw : w = t
      · subst hw
        rw [goto_pc_self]
        exact .inr trivial
      · exact .inl (goto_pc_of_ne _ _ hw)
  | work e o =>
      obtain ⟨⟨engine, out⟩, -, rfl⟩ := Option.map_eq_some_iff.mp hstep
      obtain ⟨reply, tokens, produced, heq, -⟩ := deliver_eq
        { s with engines := Function.update s.engines e engine } out
      rw [heq]
      exact h.congr rfl rfl rfl (Nat.le_refl _) fun w => .inl rfl
  | read _ =>
      simp only [AiDaemon.step] at hstep
      split_ifs at hstep
      cases hstep
      exact h.congr rfl rfl rfl (Nat.le_refl _) fun w => .inl rfl
  | disconnect _ =>
      cases hstep
      exact h.congr rfl rfl rfl (Nat.le_refl _) fun w => .inl rfl
  | tick =>
      cases hstep
      exact h.congr rfl rfl rfl (Nat.le_succ _) fun w => .inl rfl

theorem watched_of_undisturbed (h : (system cfg).ReachableWhere (Undisturbed cfg) s) : Watched s :=
  h.invariant (I := Watched) (by rintro _ ⟨mode, timeout, rfl⟩ w; trivial)
    fun _ _ _ hreach hs hok hstep => hs.step (reachableWhere_disciplined hreach) hok hstep

/-! ## Pinned modes -/

def Op.setsMode : Op → Bool
  | .writeMode _ => true
  | _ => false

/-- The event changes no mode. -/
def KeepsMode (cfg : Config) (s : State) : Event → Prop
  | .run t _ => (program cfg (s.pc t)).op.setsMode = false
  | _ => True

instance (cfg : Config) (s : State) : (event : Event) → Decidable (KeepsMode cfg s event)
  | .run .. => inferInstanceAs (Decidable (_ = _))
  | .cancel _ | .work .. | .call _ | .wake _ | .read _ | .disconnect _ | .tick =>
      inferInstanceAs (Decidable True)

theorem KeepsMode.mode_eq {event : Event} (h : KeepsMode cfg s event)
    (hstep : step cfg s event = some s') : s'.mode = s.mode := by
  cases event with
  | run t o =>
      obtain ⟨a, s₁, hperform, rfl⟩ := step_run_iff.mp hstep
      refine (perform_frame hperform).mode.trans ?_
      change (program cfg (s.pc t)).op.setsMode = false at h
      revert h
      cases (program cfg (s.pc t)).op <;> first | exact fun _ => rfl | nofun
  | wake _ =>
      simp only [AiDaemon.step] at hstep
      split at hstep <;> cases hstep
      rfl
  | cancel _ =>
      obtain ⟨-, rfl⟩ := cancel_eq hstep
      rfl
  | work e o =>
      obtain ⟨⟨engine, out⟩, -, rfl⟩ := Option.map_eq_some_iff.mp hstep
      obtain ⟨reply, tokens, produced, heq, -⟩ := deliver_eq
        { s with engines := Function.update s.engines e engine } out
      rw [heq]
  | read t =>
      simp only [AiDaemon.step] at hstep
      split_ifs at hstep
      cases hstep
      rfl
  | call call | disconnect t | tick =>
      cases hstep
      rfl

/-- As long as nobody changes it the mode stays, and the run is undisturbed. -/
theorem mode_of_runWhere {es : List Event} (h : (system cfg).ReachableWhere (Undisturbed cfg) s)
    (hrun : (system cfg).runWhere (fun s e => Undisturbed cfg s e ∧ KeepsMode cfg s e) s es =
      some s') : (system cfg).ReachableWhere (Undisturbed cfg) s' ∧ s'.mode = s.mode := by
  induction es generalizing s with
  | nil =>
      obtain rfl : s = s' := by simpa [Transition.System.runWhere] using hrun
      exact ⟨h, rfl⟩
  | cons event es ih =>
      rw [Transition.System.runWhere] at hrun
      split_ifs at hrun with hok
      obtain ⟨s₁, hstep, hrun⟩ := Option.bind_eq_some_iff.mp hrun
      obtain ⟨hreach, hmode⟩ := ih (h.step hok.1 hstep) hrun
      exact ⟨hreach, hmode.trans (hok.2.mode_eq hstep)⟩

end Steps

/-! ## The watchdog and the mode -/

structure WatchdogSafe (cfg : Config) (s : State) : Prop where
  /-- When the watchdog's unload empties the slot the mode allows it, and the
  inactivity timeout has passed since the last activity. -/
  emptying : ∀ t o s', s.pc t = .unload true .clear → step cfg s (.run t o) = some s' →
    s.mode.autoUnloads = true ∧ s.inactivityTimeout ≤ s.clock - s.lastActivity
  /-- Once `set_mode` has written a pinned mode no watchdog empties the slot until
  the mode is changed again. -/
  pinned : ∀ t mode o s₁, s.pc t = .setMode mode → mode.autoUnloads = false →
    Undisturbed cfg s (.run t o) → step cfg s (.run t o) = some s₁ →
    ∀ es s', (system cfg).runWhere (fun s e => Undisturbed cfg s e ∧ KeepsMode cfg s e) s₁ es =
      some s' → s'.mode = mode ∧ ∀ w, s'.pc w ≠ .unload true .clear

/-- **The watchdog unloads no model that is in use or pinned**, in runs in which
no mode is pinned, no timeout raised and no activity refreshed between its
reading them and its emptying the slot. -/
theorem watchdogSafe_of_undisturbed {cfg : Config} {s : State}
    (h : (system cfg).ReachableWhere (Undisturbed cfg) s) : WatchdogSafe cfg s := by
  refine ⟨?_, ?_⟩
  · intro t o s' hpc _
    have hjustified := watched_of_undisturbed h t
    rw [hpc] at hjustified
    exact hjustified rfl
  · intro t mode o s₁ hpc hpinned hok hstep es s' hrun
    obtain ⟨hreach, hmode⟩ := mode_of_runWhere (h.step hok hstep) hrun
    have hwritten : s₁.mode = mode := by
      obtain ⟨a, s₂, hperform, rfl⟩ := step_run_iff.mp hstep
      refine (perform_frame hperform).mode.trans ?_
      rw [hpc]
      rfl
    refine ⟨hmode.trans hwritten, fun w hclear => ?_⟩
    have hjustified := watched_of_undisturbed hreach w
    rw [hclear] at hjustified
    have hauto := (hjustified rfl).1
    rw [hmode, hwritten, hpinned] at hauto
    cases hauto

/-- A watchdog finds the model idle and empties the slot. -/
def idling : List Event :=
  [.call .ensureModelLoaded] ++ runs 0 5 ++ [.work 0 {}, .work 0 {}] ++ runs 0 6 ++
    [.call .inactivityWatchdog] ++ List.replicate 30 .tick ++ [.wake 1] ++ runs 1 9 ++
    [.work 0 {}] ++ runs 1 1

theorem watchdogSafe_of_undisturbed_idling :
    ∃ s, (system sampleConfig).ReachableWhere (Undisturbed sampleConfig) s ∧
      s.pc 1 = .unload true .clear ∧ WatchdogSafe sampleConfig s := by
  have hrun : (((system sampleConfig).runWhere (Undisturbed sampleConfig) (.initial .onDemand 30)
      idling).map fun s => s.pc 1) = some (.unload true .clear) := rfl
  obtain ⟨s, hs, hpc⟩ := Option.map_eq_some_iff.mp hrun
  have hreach := Transition.System.ReachableWhere.runWhere
    (.init (S := system sampleConfig) ⟨_, _, rfl⟩) hs
  exact ⟨s, hreach, hpc, watchdogSafe_of_undisturbed hreach⟩

/-- After the watchdog's check a client sets the mode to `always`; the call ensures
that the model is loaded and answers success. -/
def pinnedTooLate : List Event :=
  [.call .ensureModelLoaded] ++ runs 0 5 ++ [.work 0 {}, .work 0 {}] ++ runs 0 6 ++
    [.call .inactivityWatchdog] ++ List.replicate 30 .tick ++ [.wake 1] ++ runs 1 7 ++
    [.call (.setMode "always")] ++ runs 2 8 ++ runs 1 2 ++ [.work 0 {}] ++ runs 1 1

/-- Without the condition the watchdog empties the slot in mode `always`, after
`set_mode` answered success and with no time since the last activity. -/
theorem not_watchdogSafe_pinnedTooLate :
    ¬ ∀ cfg s, (system cfg).Reachable s → ∀ t o s', s.pc t = .unload true .clear →
      step cfg s (.run t o) = some s' →
        s.mode.autoUnloads = true ∧ s.inactivityTimeout ≤ s.clock - s.lastActivity := by
  intro halways
  have hrun : (((system sampleConfig).run (.initial .onDemand 30) pinnedTooLate).map fun s =>
      (s.pc 1, s.pc 2, s.mode)) =
        some (.unload true .clear, .answered (.modeSet true ""), .alwaysEnabled) := rfl
  obtain ⟨s, hs, heq⟩ := Option.map_eq_some_iff.mp hrun
  simp only [Prod.mk.injEq] at heq
  have hreach := Transition.System.Reachable.run (.init (S := system sampleConfig) ⟨_, _, rfl⟩) hs
  have hsafe := halways _ s hreach 1 {} _ heq.1 (step_of_perform heq.1 rfl)
  rw [heq.2.2] at hsafe
  cases hsafe.1

end NiraOS.AiDaemon
