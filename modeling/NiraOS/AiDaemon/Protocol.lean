import NiraOS.AiDaemon.Daemon

/-!
# The engine protocol

What every program does with the engine, in one automaton.  The `View` of a
program counter is what its task is about to do with the engine mutex and what it
has learnt under it; `Op.Leads` says which views an operation leads to.
`program_leads` checks the whole program against the automaton, once; the proofs
about the engine use the automaton and never look at a function again.

For the other side `Engine.work_step` lists what a step of a worker can do.
-/

namespace NiraOS.AiDaemon

/-! ## Views -/

inductive View
  /-- The task does not hold the engine mutex. -/
  | outside
  /-- The slot was found empty, and an engine is created next. -/
  | empty
  /-- The slot holds an engine, perhaps without a model. -/
  | checking
  /-- The slot holds an engine. -/
  | present
  | loading
  /-- The engine in the slot reported a model, or has just loaded one. -/
  | loaded
  | unloading
  /-- The engine in the slot, if any, was unloaded. -/
  | clearing
  | cleared
  /-- Nothing more is done with the engine before the mutex is released. -/
  | leaving
  /-- The same, after a load or an unload that failed. -/
  | failing
  deriving DecidableEq, Repr

def EnsurePc.view : EnsurePc → View
  | .lock | .clock | .touch _ | .writeReady => .outside
  | .writeLoading | .create => .empty
  | .status | .load => .checking
  | .reply => .loading
  | .unlock => .loaded
  | .fail _ => .failing

def UnloadPc.view : UnloadPc → View
  | .writeUnloading | .lock => .outside
  | .send => .present
  | .reply => .unloading
  | .clear => .clearing
  | .writeUnloaded | .unlock => .cleared
  | .fail _ => .failing

def GeneratePc.view : GeneratePc → View
  | .send _ => .present
  | .unlock | .refuse _ => .leaving
  | _ => .outside

def ServePc.view : ServePc → View
  | .send .. => .present
  | .unlock | .refuse _ | .refused => .leaving
  | _ => .outside

def Pc.view : Pc → View
  | .ensure _ stage => stage.view
  | .unload _ stage => stage.view
  | .generate _ stage => stage.view
  | .serve stage => stage.view
  | _ => .outside

/-- The view after an operation, by the answer to a request. -/
def viewAfter (done : View) : Except String Unit → View
  | .ok () => done
  | .error _ => .failing

/-- The operation takes a task from view `v` to view `v'`. -/
def Op.Leads (v : View) : (op : Op) → op.Answer → View → Prop
  | .lockEngine, (present : Bool), v' => v = .outside ∧
      if present = true then v' = .checking ∨ v' = .present
      else v' = .empty ∨ v' = .clearing ∨ v' = .leaving
  | .unlockEngine, _, v' =>
      (v = .loaded ∨ v = .cleared ∨ v = .leaving ∨ v = .failing) ∧ v' = .outside
  | .createBackend, result, v' => v = .empty ∧ v' = viewAfter .checking result
  | .activeModel, model, v' => v = .checking ∧ (v' = .checking ∨ v' = .loaded ∧ model ≠ "none")
  | .sendLoad, result, v' => v = .checking ∧ v' = viewAfter .loading result
  | .sendUnload, result, v' => v = .present ∧ v' = viewAfter .unloading result
  | .awaitReply, result, v' =>
      v = .loading ∧ v' = viewAfter .loaded result ∨
        v = .unloading ∧ v' = viewAfter .clearing result
  | .clearSlot, _, v' => v = .clearing ∧ v' = .cleared
  | .sendGenerate .., _, v' => v = .present ∧ v' = .leaving
  | _, _, v' => v' = v

theorem afterEnsure_view (caller : EnsureCaller) (result : Except String Unit) :
    (afterEnsure caller result).view = .outside := by
  rcases result with error | ⟨⟩
  · cases caller <;> rfl
  · cases caller with
    | generate req =>
        simp only [afterEnsure, generateLoaded, Pc.view]
        split_ifs <;> rfl
    | _ => rfl

theorem afterUnload_view (fromWatchdog : Bool) (result : Except String Unit) :
    (afterUnload fromWatchdog result).view = .outside := by
  cases fromWatchdog <;> rfl

theorem start_view (call : Call) : call.start.view = .outside := by
  cases call with
  | setMode mode => simp only [Call.start]; split <;> rfl
  | setInactivityTimeout secs => simp only [Call.start]; split <;> rfl
  | generate req => simp only [Call.start]; split <;> rfl
  | streamGenerate req => simp only [Call.start]; split <;> rfl
  | _ => rfl

theorem ensureModelLoaded_leads (caller : EnsureCaller) (stage : EnsurePc)
    (a : (ensureModelLoaded caller stage).op.Answer) :
    (ensureModelLoaded caller stage).op.Leads stage.view a
      ((ensureModelLoaded caller stage).next a).view := by
  cases stage with
  | lock =>
      cases (a : Bool) with
      | true => exact ⟨rfl, .inl rfl⟩
      | false => exact ⟨rfl, .inl rfl⟩
  | create | load => rcases (a : Except String Unit) with error | ⟨⟩ <;> exact ⟨rfl, rfl⟩
  | status =>
      refine ⟨rfl, ?_⟩
      simp only [ensureModelLoaded]
      split_ifs with h
      · exact .inl rfl
      · exact .inr ⟨rfl, fun hnone => h (.inl hnone)⟩
  | reply => rcases (a : Except String Unit) with error | ⟨⟩ <;> exact .inl ⟨rfl, rfl⟩
  | unlock => exact ⟨.inl rfl, rfl⟩
  | fail error => exact ⟨.inr (.inr (.inr rfl)), afterEnsure_view caller _⟩
  | writeReady => exact afterEnsure_view caller _
  | _ => rfl

theorem unloadModel_leads (fromWatchdog : Bool) (stage : UnloadPc)
    (a : (unloadModel fromWatchdog stage).op.Answer) :
    (unloadModel fromWatchdog stage).op.Leads stage.view a
      ((unloadModel fromWatchdog stage).next a).view := by
  cases stage with
  | lock =>
      cases (a : Bool) with
      | true => exact ⟨rfl, .inr rfl⟩
      | false => exact ⟨rfl, .inr (.inl rfl)⟩
  | send => rcases (a : Except String Unit) with error | ⟨⟩ <;> exact ⟨rfl, rfl⟩
  | reply => rcases (a : Except String Unit) with error | ⟨⟩ <;> exact .inr ⟨rfl, rfl⟩
  | clear => exact ⟨rfl, rfl⟩
  | unlock => exact ⟨.inr (.inl rfl), afterUnload_view fromWatchdog _⟩
  | fail error => exact ⟨.inr (.inr (.inr rfl)), afterUnload_view fromWatchdog _⟩
  | _ => rfl

theorem inactivityWatchdog_leads (stage : WatchdogPc)
    (a : (inactivityWatchdog stage).op.Answer) :
    (inactivityWatchdog stage).op.Leads .outside a ((inactivityWatchdog stage).next a).view := by
  cases stage with
  | sleep => nomatch (a : Empty)
  | state =>
      simp only [inactivityWatchdog, Op.Leads]
      split_ifs <;> rfl
  | _ => rfl

theorem generate_leads (cfg : Config) (req : GenerateRequest) (stage : GeneratePc)
    (a : (generate cfg req stage).op.Answer) :
    (generate cfg req stage).op.Leads stage.view a ((generate cfg req stage).next a).view := by
  cases stage with
  | checkMode | checkState =>
      simp only [generate, Op.Leads]
      split_ifs <;> rfl
  | lock prompt =>
      cases (a : Bool) with
      | true => exact ⟨rfl, .inr rfl⟩
      | false => exact ⟨rfl, .inr (.inr rfl)⟩
  | send prompt => rcases (a : Except String Unit) with error | ⟨⟩ <;> exact ⟨rfl, rfl⟩
  | unlock | refuse status => exact ⟨.inr (.inr (.inl rfl)), rfl⟩
  | collect fullText tokensUsed =>
      rcases (a : Option Item) with _ | error | token
      · simp only [generate, afterCollect, Op.Leads]
        split <;> rfl
      · rfl
      · simp only [generate, Op.Leads]
        split_ifs <;> rfl
  | _ => rfl

theorem streamGenerate_leads (req : GenerateRequest) (stage : StreamPc)
    (a : (streamGenerate req stage).op.Answer) :
    (streamGenerate req stage).op.Leads .outside a ((streamGenerate req stage).next a).view := by
  cases stage with
  | checkMode | checkState =>
      simp only [streamGenerate, Op.Leads]
      split_ifs <;> rfl
  | _ => rfl

theorem serveStream_leads (stage : ServePc) (a : (serveStream stage).op.Answer) :
    (serveStream stage).op.Leads stage.view a ((serveStream stage).next a).view := by
  cases stage with
  | lock prompt maxTokens =>
      cases (a : Bool) with
      | true => exact ⟨rfl, .inr rfl⟩
      | false => exact ⟨rfl, .inr (.inr rfl)⟩
  | send prompt maxTokens => rcases (a : Except String Unit) with error | ⟨⟩ <;> exact ⟨rfl, rfl⟩
  | unlock | refused => exact ⟨.inr (.inr (.inl rfl)), rfl⟩
  | receive tokensUsed => rcases (a : Option Item) with _ | error | token <;> rfl
  | forward token tokensUsed =>
      simp only [serveStream, Op.Leads]
      split_ifs <;> rfl
  | _ => rfl

/-- **Every function keeps to the protocol.** -/
theorem program_leads (cfg : Config) (pc : Pc) (a : (program cfg pc).op.Answer) :
    (program cfg pc).op.Leads pc.view a ((program cfg pc).next a).view := by
  cases pc with
  | ensure caller stage => exact ensureModelLoaded_leads caller stage a
  | unload fromWatchdog stage => exact unloadModel_leads fromWatchdog stage a
  | watchdog stage => exact inactivityWatchdog_leads stage a
  | setMode mode =>
      simp only [program, Op.Leads]
      split_ifs <;> rfl
  | modeSet stage =>
      cases stage with
      | created =>
          simp only [program, Op.Leads]
          split_ifs <;> rfl
      | state => rfl
  | generate req stage => exact generate_leads cfg req stage a
  | stream req stage => exact streamGenerate_leads req stage a
  | serve stage => exact serveStream_leads stage a
  | unborn | answered outcome | cancelled => nomatch (a : Empty)
  | _ => rfl

/-! ## Families

Which function a task executes, and which it may be found in next. -/

inductive Family
  | unborn
  | ensure
  | unload
  | watchdog
  /-- A watchdog unloading the model. -/
  | watchdogUnload
  | setMode
  | modeSet
  | setTimeout
  | generate
  | stream
  | serve
  | returning
  | answered
  | cancelled
  deriving DecidableEq, Repr

def Pc.family : Pc → Family
  | .unborn => .unborn
  | .ensure .. => .ensure
  | .unload false _ => .unload
  | .unload true _ => .watchdogUnload
  | .watchdog _ => .watchdog
  | .setMode _ => .setMode
  | .modeSet _ => .modeSet
  | .setTimeout _ => .setTimeout
  | .generate .. => .generate
  | .stream .. => .stream
  | .serve _ => .serve
  | .returning _ => .returning
  | .answered _ => .answered
  | .cancelled => .cancelled

def Family.successors : Family → List Family
  | .unborn | .answered | .cancelled => []
  | .ensure => [.ensure, .generate, .serve, .returning]
  | .unload => [.unload, .returning]
  | .watchdog => [.watchdog, .watchdogUnload]
  | .watchdogUnload => [.watchdogUnload, .watchdog]
  | .setMode => [.ensure, .modeSet]
  | .modeSet => [.modeSet, .returning]
  | .setTimeout => [.returning]
  | .generate => [.generate, .ensure, .returning]
  | .stream => [.stream, .ensure, .serve, .returning]
  | .serve => [.serve, .returning]
  | .returning => [.answered]

theorem afterEnsure_family (caller : EnsureCaller) (result : Except String Unit) :
    (afterEnsure caller result).family ∈ Family.ensure.successors := by
  rcases result with error | ⟨⟩ <;> cases caller <;>
    simp [afterEnsure, generateLoaded, Pc.family, Family.successors]

/-- Where the next operation of a task is to be found. -/
theorem next_family (cfg : Config) (pc : Pc) (a : (program cfg pc).op.Answer) :
    ((program cfg pc).next a).family ∈ pc.family.successors := by
  cases pc with
  | ensure caller stage =>
      cases stage with
      | fail error => exact afterEnsure_family caller _
      | writeReady => exact afterEnsure_family caller _
      | create | load | reply =>
          rcases (a : Except String Unit) with error | ⟨⟩ <;> exact List.mem_cons_self
      | _ => exact List.mem_cons_self
  | unload fromWatchdog stage =>
      cases fromWatchdog <;> cases stage with
      | send | reply => rcases (a : Except String Unit) with error | ⟨⟩ <;> exact List.mem_cons_self
      | unlock | fail error => exact List.mem_cons_of_mem _ List.mem_cons_self
      | _ => exact List.mem_cons_self
  | watchdog stage =>
      cases stage with
      | sleep => nomatch (a : Empty)
      | state =>
          simp only [program, inactivityWatchdog]
          split_ifs <;> simp [Pc.family, Family.successors]
      | _ => exact List.mem_cons_self
  | setMode mode =>
      simp only [program]
      split_ifs <;> simp [Pc.family, Family.successors]
  | modeSet stage =>
      cases stage with
      | created =>
          simp only [program]
          split_ifs <;> simp [Pc.family, Family.successors]
      | state => simp [program, Pc.family, Family.successors]
  | setTimeout secs => exact List.mem_singleton_self _
  | generate req stage =>
      cases stage with
      | checkMode | checkState =>
          simp only [program, generate]
          split_ifs <;> simp [Pc.family, Family.successors]
      | send prompt => rcases (a : Except String Unit) with error | ⟨⟩ <;> exact List.mem_cons_self
      | collect fullText tokensUsed =>
          rcases (a : Option Item) with _ | error | token
          · simp only [program, generate, afterCollect]
            split <;> exact List.mem_cons_self
          · simp [program, generate, Pc.family, Family.successors]
          · simp only [program, generate]
            split_ifs <;> exact List.mem_cons_self
      | quickAction | refuse | touch => simp [program, generate, Pc.family, Family.successors]
      | _ => exact List.mem_cons_self
  | stream req stage =>
      cases stage with
      | checkState =>
          simp only [program, streamGenerate]
          split_ifs <;> simp [Pc.family, Family.successors]
      | openQuick | accept => simp [program, streamGenerate, Pc.family, Family.successors]
      | _ => exact List.mem_cons_self
  | serve stage =>
      cases stage with
      | send prompt maxTokens =>
          rcases (a : Except String Unit) with error | ⟨⟩ <;> exact List.mem_cons_self
      | receive tokensUsed =>
          rcases (a : Option Item) with _ | error | token <;> exact List.mem_cons_self
      | quickReply | fail | refused | touch =>
          simp [program, serveStream, Pc.family, Family.successors]
      | _ => exact List.mem_cons_self
  | returning outcome => exact List.mem_cons_self
  | unborn | answered outcome | cancelled => nomatch (a : Empty)

/-- A task stays in a class of families that is closed under successors. -/
theorem next_family_of (cfg : Config) {p : Family → Bool}
    (hp : ∀ family, p family = true → ∀ f ∈ family.successors, p f = true) {pc : Pc}
    (h : p pc.family = true) (a : (program cfg pc).op.Answer) :
    p ((program cfg pc).next a).family = true :=
  hp _ h _ (next_family cfg pc a)

/-! ## One step of a task -/

section Run

variable {cfg : Config} {s s' s₁ : State} {t : TaskId} {o : Oracle}

theorem step_run_iff : step cfg s (.run t o) = some s' ↔
    ∃ a s₁, perform o s t (program cfg (s.pc t)).op = some (a, s₁) ∧
      s' = s₁.goto t ((program cfg (s.pc t)).next a) := by
  rw [step, Option.map_eq_some_iff]
  constructor
  · rintro ⟨⟨a, s₁⟩, h, rfl⟩
    exact ⟨a, s₁, h, rfl⟩
  · rintro ⟨a, s₁, h, rfl⟩
    exact ⟨(a, s₁), h, rfl⟩

theorem step_of_perform {pc : Pc} {a : (program cfg pc).op.Answer} (hpc : s.pc t = pc)
    (h : perform o s t (program cfg pc).op = some (a, s₁)) :
    step cfg s (.run t o) = some (s₁.goto t ((program cfg pc).next a)) := by
  subst hpc
  exact step_run_iff.mpr ⟨a, s₁, h, rfl⟩

/-- A task that was cancelled or not begun has no operation. -/
theorem live_of_answer {pc : Pc} (a : (program cfg pc).op.Answer) :
    pc ≠ .cancelled ∧ pc ≠ .unborn := by
  constructor <;> rintro rfl <;> exact nomatch (a : Empty)

/-- **A step of a task**, in terms of the protocol. -/
theorem run_cases (h : step cfg s (.run t o) = some s') :
    ∃ op a s₁ pc', (program cfg (s.pc t)).op = op ∧ perform o s t op = some (a, s₁) ∧
      s' = s₁.goto t pc' ∧ op.Leads (s.pc t).view a pc'.view ∧ s.pc t ≠ .cancelled ∧
      s.pc t ≠ .unborn := by
  obtain ⟨a, s₁, hperform, rfl⟩ := step_run_iff.mp h
  exact ⟨_, a, s₁, _, rfl, hperform, rfl, program_leads cfg (s.pc t) a, live_of_answer a⟩

/-- The operations on the engine: the mutex, the slot, the queue, the replies. -/
def Op.onEngine : Op → Bool
  | .lockEngine | .unlockEngine | .createBackend | .activeModel | .sendLoad | .sendUnload
  | .awaitReply | .clearSlot | .sendGenerate .. => true
  | _ => false

end Run

/-- The engine's side of two states is the same. -/
structure SameEngine (s s' : State) : Prop where
  slot : s'.slot = s.slot
  lock : s'.lock = s.lock
  engines : s'.engines = s.engines
  reply : s'.reply = s.reply

section Frame

variable {s s' s₁ : State} {t : TaskId} {o : Oracle}

/-- The other operations leave the engine alone. -/
theorem perform_sameEngine {op : Op} {a : op.Answer} (h : perform o s t op = some (a, s₁))
    (hop : op.onEngine = false) : SameEngine s s₁ := by
  cases op with
  | receiveToken =>
      simp only [perform, State.receiveToken] at h
      split_ifs at h <;> cases h <;> exact ⟨rfl, rfl, rfl, rfl⟩
  | sendResponse response =>
      simp only [perform, State.sendResponse] at h
      split_ifs at h <;> cases h <;> exact ⟨rfl, rfl, rfl, rfl⟩
  | halt => cases h
  | lockEngine | unlockEngine | createBackend | activeModel | sendLoad | sendUnload | awaitReply
  | clearSlot | sendGenerate => cases hop
  | _ => cases h; exact ⟨rfl, rfl, rfl, rfl⟩

/-- And their view does not change. -/
theorem Op.Leads.of_not_onEngine {op : Op} {a : op.Answer} {v v' : View} (h : op.Leads v a v')
    (hop : op.onEngine = false) : v' = v := by
  cases op with
  | lockEngine | unlockEngine | createBackend | activeModel | sendLoad | sendUnload | awaitReply
  | clearSlot | sendGenerate => cases hop
  | _ => exact h

theorem send_eq {command : Command} {a : Except String Unit}
    (h : s.send command = some (a, s₁)) :
    ∃ e, s.slot = some e ∧
      ((s.engines e).worker = .exited ∧ s₁ = s ∧ (∃ error, a = .error error) ∨
        (s.engines e).worker ≠ .exited ∧ a = .ok () ∧
          s₁ = { s with
            engines := Function.update s.engines e ((s.engines e).enqueue command) }) := by
  unfold State.send at h
  cases hslot : s.slot with
  | none => simp [hslot] at h
  | some e =>
      refine ⟨e, rfl, ?_⟩
      by_cases hworker : (s.engines e).worker = .exited
      · simp only [hslot, Engine.send, hworker, if_true] at h
        cases h
        exact .inl ⟨hworker, rfl, _, rfl⟩
      · simp only [hslot, Engine.send, hworker, if_false] at h
        cases h
        exact .inr ⟨hworker, rfl, rfl⟩

/-- A `Generate` command is refused, or accepted into the queue of the engine in the slot. -/
theorem sendGenerate_eq {prompt : String} {maxTokens : ℕ} {a : Except String Unit}
    (h : s.sendGenerate t prompt maxTokens = some (a, s₁)) :
    (s₁ = s ∧ ∃ error, a = .error error) ∨
      ∃ e, s.slot = some e ∧ (s.engines e).worker ≠ .exited ∧ a = .ok () ∧ maxTokens ≠ 0 ∧
        s₁ = { s with
          engines := Function.update s.engines e
            ((s.engines e).enqueue (.generate ⟨t, prompt, maxTokens⟩))
          submitted := Function.update s.submitted t true
          tokens := Function.update s.tokens t (.fresh 64 (by decide)) } := by
  unfold State.sendGenerate at h
  split_ifs at h with hblank hzero
  · cases h
    exact .inl ⟨rfl, _, rfl⟩
  · cases h
    exact .inl ⟨rfl, _, rfl⟩
  · split at h
    · cases h
    next error _ _ =>
      cases h
      exact .inl ⟨rfl, _, rfl⟩
    next s₂ hsend =>
      cases h
      obtain ⟨e, hslot, ⟨-, -, _, herror⟩ | ⟨hworker, -, rfl⟩⟩ := send_eq hsend
      · cases herror
      · exact .inr ⟨e, hslot, hworker, rfl, hzero, rfl⟩

@[simp] theorem clearSlot_slot (s : State) : s.clearSlot.slot = none := by
  unfold State.clearSlot
  split
  next hslot => exact hslot
  · rfl

def Op.modeAfter (mode : DaemonMode) : Op → DaemonMode
  | .writeMode mode => mode
  | _ => mode

def Op.stateAfter (state : ModelState) : Op → ModelState
  | .writeState state => state
  | _ => state

def Op.timeoutAfter (timeout : ℕ) : Op → ℕ
  | .writeTimeout secs => secs
  | _ => timeout

def Op.activityAfter (time : ℕ) : Op → ℕ
  | .writeActivity time => time
  | _ => time

/-- What an operation does to the rest of the state. -/
structure Frame (op : Op) (s s₁ : State) : Prop where
  pc : s₁.pc = s.pc
  calls : s₁.calls = s.calls
  nextTask : s₁.nextTask = s.nextTask
  clock : s₁.clock = s.clock
  mode : s₁.mode = op.modeAfter s.mode
  modelState : s₁.modelState = op.stateAfter s.modelState
  inactivityTimeout : s₁.inactivityTimeout = op.timeoutAfter s.inactivityTimeout
  lastActivity : s₁.lastActivity = op.activityAfter s.lastActivity
  slot : s₁.slot = s.slot ∧ s₁.nextEngine = s.nextEngine ∨
    op = .createBackend ∧ s₁.slot = some s.nextEngine ∧ s₁.nextEngine = s.nextEngine + 1 ∨
    op = .clearSlot ∧ s₁.slot = none ∧ s₁.nextEngine = s.nextEngine

/-- **The frame of an operation.** -/
theorem perform_frame {op : Op} {a : op.Answer} (h : perform o s t op = some (a, s₁)) :
    Frame op s s₁ := by
  cases op with
  | lockEngine =>
      simp only [perform] at h
      split_ifs at h
      cases h
      exact ⟨rfl, rfl, rfl, rfl, rfl, rfl, rfl, rfl, .inl ⟨rfl, rfl⟩⟩
  | createBackend =>
      simp only [perform] at h
      split at h <;> cases h
      · exact ⟨rfl, rfl, rfl, rfl, rfl, rfl, rfl, rfl, .inl ⟨rfl, rfl⟩⟩
      · exact ⟨rfl, rfl, rfl, rfl, rfl, rfl, rfl, rfl, .inr (.inl ⟨rfl, rfl, rfl⟩)⟩
  | activeModel | awaitReply =>
      obtain ⟨_, -, heq⟩ := Option.map_eq_some_iff.mp h
      cases heq
      exact ⟨rfl, rfl, rfl, rfl, rfl, rfl, rfl, rfl, .inl ⟨rfl, rfl⟩⟩
  | sendLoad | sendUnload =>
      obtain ⟨e, -, ⟨-, rfl, -⟩ | ⟨-, -, rfl⟩⟩ := send_eq h <;>
        exact ⟨rfl, rfl, rfl, rfl, rfl, rfl, rfl, rfl, .inl ⟨rfl, rfl⟩⟩
  | clearSlot =>
      cases h
      unfold State.clearSlot
      split
      next hslot => exact ⟨rfl, rfl, rfl, rfl, rfl, rfl, rfl, rfl, .inr (.inr ⟨rfl, hslot, rfl⟩)⟩
      · exact ⟨rfl, rfl, rfl, rfl, rfl, rfl, rfl, rfl, .inr (.inr ⟨rfl, rfl, rfl⟩)⟩
  | sendGenerate prompt maxTokens =>
      obtain ⟨rfl, -⟩ | ⟨e, -, -, -, -, rfl⟩ := sendGenerate_eq h <;>
        exact ⟨rfl, rfl, rfl, rfl, rfl, rfl, rfl, rfl, .inl ⟨rfl, rfl⟩⟩
  | receiveToken =>
      simp only [perform, State.receiveToken] at h
      split_ifs at h <;> cases h <;> exact ⟨rfl, rfl, rfl, rfl, rfl, rfl, rfl, rfl, .inl ⟨rfl, rfl⟩⟩
  | sendResponse response =>
      simp only [perform, State.sendResponse] at h
      split_ifs at h <;> cases h <;> exact ⟨rfl, rfl, rfl, rfl, rfl, rfl, rfl, rfl, .inl ⟨rfl, rfl⟩⟩
  | halt => cases h
  | _ => cases h; exact ⟨rfl, rfl, rfl, rfl, rfl, rfl, rfl, rfl, .inl ⟨rfl, rfl⟩⟩

/-- What is delivered are replies, tokens and records of pieces; replies only if
the output says so. -/
theorem deliver_eq (s : State) (out : Output) : ∃ reply tokens produced,
    s.deliver out = { s with reply, tokens, produced } ∧
      ((∀ t result, out ≠ .reply t result) → (∀ commands, out ≠ .dropped commands) →
        reply = s.reply) := by
  cases out with
  | silent => exact ⟨_, _, _, rfl, fun _ _ => rfl⟩
  | reply t result => exact ⟨_, _, _, rfl, fun h _ => absurd rfl (h t result)⟩
  | sent t text | terminal t last =>
      simp only [State.deliver]
      split <;> exact ⟨_, _, _, rfl, fun _ _ => rfl⟩
  | refused t text | unheard t => exact ⟨_, _, _, rfl, fun _ _ => rfl⟩
  | dropped commands =>
      have hfold : ∀ s : State, ∃ reply tokens produced,
          commands.foldl State.dropCommand s = { s with reply, tokens, produced } := by
        induction commands with
        | nil => exact fun s => ⟨_, _, _, rfl⟩
        | cons command commands ih =>
            intro s
            obtain ⟨reply, tokens, produced, heq⟩ := ih (s.dropCommand command)
            refine ⟨reply, tokens, produced, heq.trans ?_⟩
            cases command <;> rfl
      obtain ⟨reply, tokens, produced, heq⟩ := hfold s
      exact ⟨reply, tokens, produced, heq, fun _ h => absurd rfl (h commands)⟩

end Frame

/-! ## One step of a worker -/

/-- What a worker does for one job. -/
inductive JobStep (channel : Channel Item) (job : Job) : Worker → Worker → Output → Prop
  | loadFailed (error : String) :
      JobStep channel job (.lazyLoading job) (.finishing job (.error error)) .silent
  | loaded : JobStep channel job (.lazyLoading job) (.starting job) .silent
  | startFailed (error : String) :
      JobStep channel job (.starting job) (.finishing job (.error error)) .silent
  | started {budget : ℕ} (h : budget ≤ job.maxTokens) :
      JobStep channel job (.starting job) (.generating job budget) .silent
  | ended (budget : ℕ) {last : Item} (h : last.IsTerminal) :
      JobStep channel job (.generating job budget) (.finishing job last) .silent
  | blank (budget : ℕ) :
      JobStep channel job (.generating job (budget + 1)) (.generating job budget) .silent
  | sent (budget : ℕ) {text : String} {next : Worker} (htext : text ≠ "") (hroom : channel.Room)
      (hnext : next = .generating job budget ∨ ∃ error, next = .finishing job (.error error)) :
      JobStep channel job (.generating job (budget + 1)) next (.sent job.task text)
  | refused (budget : ℕ) {text : String} (htext : text ≠ "")
      (hrefused : ¬ (channel.receiverOpen = true ∧ channel.Room)) :
      JobStep channel job (.generating job (budget + 1)) .idle (.refused job.task text)
  | terminal {last : Item} (hopen : channel.receiverOpen = true) (hroom : channel.Room) :
      JobStep channel job (.finishing job last) .idle (.terminal job.task last)
  | unheard {last : Item} (hclosed : channel.receiverOpen = false) :
      JobStep channel job (.finishing job last) .idle (.unheard job.task)

/-- What a worker does. -/
inductive Engine.Step (cfg : Config) (tokens : TaskId → Channel Item) (e : Engine) :
    Engine → Output → Prop
  | takeLoad {t : TaskId} {rest : List Command} (hidle : e.worker = .idle)
      (hqueue : e.queue = .loadModel t :: rest) :
      e.Step cfg tokens ⟨rest, .loading t, e.model⟩ .silent
  | takeUnload {t : TaskId} {rest : List Command} (hidle : e.worker = .idle)
      (hqueue : e.queue = .unloadModel t :: rest) :
      e.Step cfg tokens ⟨rest, .idle, none⟩ (.reply t (.ok ()))
  | takeGenerate {job : Job} {rest : List Command} {worker : Worker} (hidle : e.worker = .idle)
      (hqueue : e.queue = .generate job :: rest)
      (hworker : worker = .lazyLoading job ∨ worker = .starting job) :
      e.Step cfg tokens ⟨rest, worker, e.model⟩ .silent
  | takeShutdown {rest : List Command} (hidle : e.worker = .idle)
      (hqueue : e.queue = .shutdown :: rest) :
      e.Step cfg tokens ⟨[], .exited, none⟩ (.dropped rest)
  | loaded {t : TaskId} (hworker : e.worker = .loading t) :
      e.Step cfg tokens ⟨e.queue, .idle, some cfg.modelFile⟩ (.reply t (.ok ()))
  | loadFailed {t : TaskId} (error : String) (hworker : e.worker = .loading t) :
      e.Step cfg tokens ⟨e.queue, .idle, e.model⟩ (.reply t (.error error))
  | job (job : Job) {worker : Worker} {model : Option String} {out : Output}
      (hstep : JobStep (tokens job.task) job e.worker worker out)
      (hmodel : model = e.model ∨ model = some cfg.modelFile) :
      e.Step cfg tokens ⟨e.queue, worker, model⟩ out

section Work

variable {cfg : Config} {tokens : TaskId → Channel Item} {o : WorkerOracle} {e e' : Engine}
  {out : Output}

theorem Engine.sample_step {job : Job} {budget : ℕ} {sample : Sample}
    (hworker : e.worker = .generating job (budget + 1)) :
    e.Step cfg tokens (e.sample (tokens job.task) job budget sample).1
      (e.sample (tokens job.task) job budget sample).2 := by
  cases sample with
  | endOfGeneration =>
      refine .job job ?_ (.inl rfl)
      rw [hworker]
      exact .ended _ rfl
  | undecodable error =>
      refine .job job ?_ (.inl rfl)
      rw [hworker]
      exact .ended _ trivial
  | piece text next =>
      simp only [Engine.sample]
      split_ifs with hblank hroom
      · refine .job job ?_ (.inl rfl)
        rw [hworker]
        rcases next with error | ⟨⟩
        · exact .ended _ trivial
        · exact .blank _
      · refine .job job ?_ (.inl rfl)
        rw [hworker]
        refine .sent _ hblank hroom.2 ?_
        rcases next with error | ⟨⟩
        · exact .inr ⟨error, rfl⟩
        · exact .inl rfl
      · refine .job job ?_ (.inl rfl)
        rw [hworker]
        exact .refused _ hblank hroom

/-- **A step of a worker** is one of `Engine.Step`. -/
theorem Engine.work_step (h : e.work cfg tokens o = some (e', out)) : e.Step cfg tokens e' out := by
  unfold Engine.work at h
  split at h
  next hidle =>
    split at h
    · cases h
    next command rest hqueue =>
      cases command with
      | loadModel t => cases h; exact .takeLoad hidle hqueue
      | unloadModel t =>
          obtain ⟨rfl, rfl⟩ := Prod.mk.inj (Option.some.inj h)
          rw [hidle]
          exact .takeUnload hidle hqueue
      | generate job =>
          cases h
          refine .takeGenerate hidle hqueue ?_
          split_ifs
          · exact .inl rfl
          · exact .inr rfl
      | shutdown => cases h; exact .takeShutdown hidle hqueue
  next t hworker =>
    split at h
    · cases h; exact .loaded hworker
    · cases h; exact .loadFailed _ hworker
  next job hworker =>
    split at h
    · cases h
      refine .job job ?_ (.inr rfl)
      rw [hworker]
      exact .loaded
    · cases h
      refine .job job ?_ (.inl rfl)
      rw [hworker]
      exact .loadFailed _
  next job hworker =>
    split at h
    · cases h
      refine .job job ?_ (.inl rfl)
      rw [hworker]
      exact .startFailed _
    · split_ifs at h
      · cases h
        refine .job job ?_ (.inl rfl)
        rw [hworker]
        exact .startFailed _
      · cases h
        refine .job job ?_ (.inl rfl)
        rw [hworker]
        exact .started (Nat.min_le_left _ _)
  next job hworker =>
    cases h
    refine .job job ?_ (.inl rfl)
    rw [hworker]
    exact .ended _ rfl
  next job budget hworker =>
    obtain ⟨rfl, rfl⟩ := Prod.mk.inj (Option.some.inj h)
    exact Engine.sample_step hworker
  next job last hworker =>
    split_ifs at h with hclosed hroom
    · cases h
      refine .job job ?_ (.inl rfl)
      rw [hworker]
      exact .unheard hclosed
    · cases h
      refine .job job ?_ (.inl rfl)
      rw [hworker]
      exact .terminal (by simpa using hclosed) hroom
  next => cases h

end Work

end NiraOS.AiDaemon
