import NiraOS.AiDaemon.Inference
import NiraOS.AiDaemon.LoadingFlag
import NiraOS.Lib.Simulation

/-!
# The two models of the inference worker

`Engine` takes a command, loads a model or samples a token in one step; `Actor` does one operation
after the other on what the handle and the worker share.  The engine can follow the actor: it takes
a command that is answered at once, and ends a load, when the actor replies.

```text
the actor                       the engine
a load, up to the reply         loading
an unload, up to the reply      idle, with the command still in its queue
a generation                    tokenising, sampling and sending, in steps of its own
```

So whatever the actor reaches represents something that an engine reaches (`simulates_engine`).
-/

namespace NiraOS.AiDaemon.Actor

/-! ## The engine by itself -/

inductive EngineEvent
  | send (command : Command)
  | dropHandle
  | work (tokens : TaskId → Channel Item) (o : WorkerOracle)

/-- An engine with any other parties. -/
def engine (cfg : Config) : Transition.System Engine EngineEvent where
  init e := e = .new
  step e
    | .send command =>
        match e.send command with
        | .ok e => some e
        | .error _ => none
    | .dropHandle => some e.dropHandle
    | .work tokens o => (e.work cfg tokens o).map Prod.fst

/-! ## What represents what -/

def job (params : GenerationParams) (tokens : CallId) : Job :=
  ⟨tokens, params.prompt, params.maxTokens⟩

def WorkerCommand.command : WorkerCommand → Command
  | .loadModel _ _ reply => .loadModel reply
  | .unloadModel reply => .unloadModel reply
  | .generate params _ tokens => .generate (job params tokens)
  | .shutdown => .shutdown

def Attempt.worker : Attempt → AiDaemon.Worker
  | .requested _ _ reply => .loading reply
  | .byDefault params _ tokens => .lazyLoading (job params tokens)

theorem Attempt.worker_ne_exited (a : Attempt) : a.worker ≠ .exited := by
  cases a <;> simp [Attempt.worker]

/-- Both have a model, or neither has. -/
def SameModel (held held' : Option String) : Prop := held.isSome = held'.isSome

/-- How an attempt has ended of which the engine does not know yet. -/
def Outcome (held held' : Option String) : Except String Unit → Prop
  | .ok () => held.isSome = true
  | .error _ => SameModel held held'

/-- Where the engine is meanwhile, and which command it has not taken yet. -/
inductive Stage (held held' : Option String) : Worker → List Command → AiDaemon.Worker → Prop
  | waiting : SameModel held held' → Stage held held' .waiting [] .idle
  | raising {a : Attempt} : SameModel held held' → Stage held held' (.raising a) [] a.worker
  | validating {a : Attempt} : SameModel held held' → Stage held held' (.validating a) [] a.worker
  | initializing {a : Attempt} : SameModel held held' →
      Stage held held' (.initializing a) [] a.worker
  | loading {a : Attempt} : SameModel held held' → Stage held held' (.loading a) [] a.worker
  | announcing {a : Attempt} : held.isSome = true → Stage held held' (.announcing a) [] a.worker
  | lowering {a : Attempt} {result : Except String Unit} : Outcome held held' result →
      Stage held held' (.lowering a result) [] a.worker
  | storingContext {config : ModelConfig} {reply : CallId} : held.isSome = true →
      Stage held held' (.storingContext config reply) [] (.loading reply)
  | storingBatch {config : ModelConfig} {reply : CallId} : held.isSome = true →
      Stage held held' (.storingBatch config reply) [] (.loading reply)
  | resettingContext {reply : CallId} : held = none →
      Stage held held' (.resettingContext reply) [.unloadModel reply] .idle
  | resettingBatch {reply : CallId} : held = none →
      Stage held held' (.resettingBatch reply) [.unloadModel reply] .idle
  | retracting {reply : CallId} : held = none →
      Stage held held' (.retracting reply) [.unloadModel reply] .idle
  | loaded {reply : CallId} {result : Except String Unit} : Outcome held held' result →
      Stage held held' (.replying reply result) [] (.loading reply)
  | unloaded {reply : CallId} : held = none →
      Stage held held' (.replying reply (.ok ())) [.unloadModel reply] .idle
  | generating {params : GenerationParams} {config : ModelConfig} {tokens : CallId} :
      SameModel held held' →
      Stage held held' (.generating params config tokens) [] (.starting (job params tokens))
  | reporting {params : GenerationParams} {tokens : CallId} {error : String} :
      SameModel held held' →
      Stage held held' (.reporting tokens error) [] (.finishing (job params tokens) (.error error))
  | exited : SameModel held held' → Stage held held' .exited [] .exited

/-- The queues are one, but for the command that the engine has not taken. -/
def Represents (s : State) (e : Engine) : Prop :=
  ∃ held, Stage s.model e.model s.worker held e.worker ∧
    e.queue = held ++ s.queue.map WorkerCommand.command

/-! ## The engine follows -/

section Follows

variable {cfg : Config} {d : Defaults} {o : Except String Unit} {s s' : State} {e e' : Engine}

/-- The engine can get from one state to another. -/
def Follows (cfg : Config) (e e' : Engine) : Prop :=
  ((engine cfg).startingAt e).Reachable e'

theorem Follows.refl (e : Engine) : Follows cfg e e := .init rfl

theorem Follows.work (tokens : TaskId → Channel Item) (o : WorkerOracle) {output : Output}
    (h : e.work cfg tokens o = some (e', output)) : Follows cfg e e' := by
  refine Transition.System.ReachableWhere.single (e := EngineEvent.work tokens o) trivial ?_
  show (e.work cfg tokens o).map Prod.fst = some e'
  rw [h]
  rfl

theorem Follows.trans {e'' : Engine} (h : Follows cfg e e') (h' : Follows cfg e' e'') :
    Follows cfg e e'' :=
  Transition.System.ReachableWhere.trans h h'

/-- Channels whose receivers have gone. -/
def unheard : TaskId → Channel Item :=
  fun _ => (Channel.fresh 1 Nat.zero_lt_one).closeReceiver

/-- The last item has no receiver, or finds room. -/
theorem follows_finishing {j : Job} {last : Item} (hworker : e.worker = .finishing j last) :
    Follows cfg e { e with worker := .idle } := by
  have hwork : e.work cfg unheard {} = some ({ e with worker := .idle }, .unheard j.task) := by
    unfold Engine.work
    rw [hworker]
    exact if_pos rfl
  exact .work unheard {} hwork

/-- A generation that ends well, of no token. -/
theorem follows_generation (hcontext : 0 < cfg.contextLength) {j : Job}
    (hworker : e.worker = .starting j) : Follows cfg e { e with worker := .idle } := by
  have hstart : e.work cfg unheard { start := .ok 0 } =
      some ({ e with worker := .generating j (tokenBudget cfg j 0) }, .silent) := by
    unfold Engine.work
    rw [hworker]
    exact if_neg (Nat.not_le_of_gt hcontext)
  have hsample : { e with worker := .generating j (tokenBudget cfg j 0) }.work cfg unheard
      { sample := .endOfGeneration } =
        some ({ e with worker := .finishing j finished }, .silent) := by
    unfold Engine.work
    cases tokenBudget cfg j 0 with
    | zero => rfl
    | succ budget => rfl
  exact ((Follows.work _ _ hstart).trans (.work _ _ hsample)).trans (follows_finishing rfl)

/-- A generation that fails before its first token. -/
theorem follows_failure {j : Job} (hworker : e.worker = .starting j) (error : String) :
    Follows cfg e { e with worker := .finishing j (.error error) } := by
  have hstart : e.work cfg unheard { start := .error error } =
      some ({ e with worker := .finishing j (.error error) }, .silent) := by
    unfold Engine.work
    rw [hworker]
  exact .work _ _ hstart

/-! ### Steps of the worker -/

/-- **A command is taken**; the engine takes one that is answered at once when it is. -/
theorem Represents.take (h : Represents s e) (hworker : s.worker = .waiting)
    (hwork : s.work d o = some s') : ∃ e', Follows cfg e e' ∧ Represents s' e' := by
  obtain ⟨held, hstage, hqueue⟩ := h
  obtain ⟨queue, worker, model⟩ := e
  rw [hworker] at hstage
  cases hstage with
  | waiting hmodel =>
      simp only [State.work, hworker] at hwork
      cases hcommands : s.queue with
      | nil =>
          rw [hcommands] at hwork
          cases hwork
      | cons command rest =>
          rw [hcommands] at hwork hqueue
          obtain rfl := Option.some.inj hwork
          obtain rfl : queue = command.command :: rest.map WorkerCommand.command := hqueue
          cases command with
          | loadModel path config reply =>
              exact ⟨_, .work unheard {} rfl, [], .raising hmodel, rfl⟩
          | unloadModel reply =>
              exact ⟨_, .refl _, [.unloadModel reply], .resettingContext rfl, rfl⟩
          | generate params config tokens =>
              refine ⟨_, .work unheard {} rfl, [], ?_, rfl⟩
              cases hnone : s.model with
              | none =>
                  have hnone' : model = none := by
                    rw [SameModel, hnone] at hmodel
                    exact Option.isNone_iff_eq_none.mp (by simpa using hmodel.symm)
                  simp only [State.take, hnone, hnone', if_true]
                  exact .raising rfl
              | some path =>
                  obtain ⟨path', hsome'⟩ : ∃ path', model = some path' := by
                    rw [SameModel, hnone] at hmodel
                    exact Option.isSome_iff_exists.mp hmodel.symm
                  simp only [State.take, hnone, hsome', reduceCtorEq, if_false]
                  exact .generating rfl
          | shutdown => exact ⟨_, .work unheard {} rfl, [], .exited rfl, rfl⟩

/-- Up to the end of an attempt the engine loads. -/
theorem Represents.attempt (h : Represents s e) {a : Attempt}
    (hworker : s.worker = .raising a ∨ s.worker = .validating a ∨ s.worker = .initializing a ∨
      s.worker = .loading a ∨ s.worker = .announcing a)
    (hwork : s.work d o = some s') : Represents s' e := by
  obtain ⟨held, hstage, hqueue⟩ := h
  rcases hworker with hworker | hworker | hworker | hworker | hworker
  all_goals
    rw [hworker] at hstage
    simp only [State.work, hworker] at hwork
    generalize hat : e.worker = worker at hstage
    cases hstage
  case raising hmodel =>
    obtain rfl := Option.some.inj hwork
    exact ⟨[], hat ▸ .validating hmodel, hqueue⟩
  case validating hmodel =>
    cases o with
    | ok u =>
        obtain rfl := Option.some.inj hwork
        exact ⟨[], hat ▸ .initializing hmodel, hqueue⟩
    | error error =>
        obtain rfl := Option.some.inj hwork
        exact ⟨[], hat ▸ .lowering hmodel, hqueue⟩
  case initializing hmodel =>
    split at hwork
    · obtain rfl := Option.some.inj hwork
      exact ⟨[], hat ▸ .loading hmodel, hqueue⟩
    · cases o with
      | ok u =>
          obtain rfl := Option.some.inj hwork
          exact ⟨[], hat ▸ .loading hmodel, hqueue⟩
      | error error =>
          obtain rfl := Option.some.inj hwork
          exact ⟨[], hat ▸ .lowering hmodel, hqueue⟩
  case loading hmodel =>
    cases o with
    | ok u =>
        obtain rfl := Option.some.inj hwork
        exact ⟨[], hat ▸ .announcing rfl, hqueue⟩
    | error error =>
        obtain rfl := Option.some.inj hwork
        exact ⟨[], hat ▸ .lowering hmodel, hqueue⟩
  case announcing hmodel =>
    obtain rfl := Option.some.inj hwork
    exact ⟨[], hat ▸ .lowering hmodel, hqueue⟩

/-- **The flag is down again.**  The engine ends a load that a generation waits for, and goes on
loading one that a call waits for. -/
theorem Represents.lowering (h : Represents s e) {a : Attempt} {result : Except String Unit}
    (hworker : s.worker = .lowering a result) (hwork : s.work d o = some s') :
    ∃ e', Follows cfg e e' ∧ Represents s' e' := by
  obtain ⟨held, hstage, hqueue⟩ := h
  obtain ⟨queue, worker, model⟩ := e
  rw [hworker] at hstage
  simp only [State.work, hworker] at hwork
  obtain rfl := Option.some.inj hwork
  cases hstage with
  | lowering houtcome =>
      cases a with
      | requested path config reply =>
          cases result with
          | ok u => exact ⟨_, .refl _, [], .storingContext houtcome, hqueue⟩
          | error error => exact ⟨_, .refl _, [], .loaded houtcome, hqueue⟩
      | byDefault params config tokens =>
          cases result with
          | ok u =>
              exact ⟨_, .work unheard { load := .ok () } rfl, [], .generating houtcome, hqueue⟩
          | error error =>
              exact ⟨_, .work unheard { load := .error error } rfl, [], .reporting houtcome, hqueue⟩

/-- The numbers of the configuration are nothing to the engine. -/
theorem Represents.storing (h : Represents s e) {config : ModelConfig} {reply : CallId}
    (hworker : s.worker = .storingContext config reply ∨ s.worker = .storingBatch config reply)
    (hwork : s.work d o = some s') : Represents s' e := by
  obtain ⟨held, hstage, hqueue⟩ := h
  rcases hworker with hworker | hworker
  all_goals
    rw [hworker] at hstage
    simp only [State.work, hworker] at hwork
    obtain rfl := Option.some.inj hwork
    generalize hat : e.worker = worker at hstage
    cases hstage
  case storingContext hmodel => exact ⟨[], hat ▸ .storingBatch hmodel, hqueue⟩
  case storingBatch hmodel => exact ⟨[], hat ▸ .loaded hmodel, hqueue⟩

/-- So are the flags. -/
theorem Represents.resetting (h : Represents s e) {reply : CallId}
    (hworker : s.worker = .resettingContext reply ∨ s.worker = .resettingBatch reply ∨
      s.worker = .retracting reply)
    (hwork : s.work d o = some s') : Represents s' e := by
  obtain ⟨held, hstage, hqueue⟩ := h
  rcases hworker with hworker | hworker | hworker
  all_goals
    rw [hworker] at hstage
    simp only [State.work, hworker] at hwork
    obtain rfl := Option.some.inj hwork
    generalize hat : e.worker = worker at hstage
    cases hstage
  case resettingContext hmodel =>
    exact ⟨[.unloadModel reply], hat ▸ .resettingBatch hmodel, hqueue⟩
  case resettingBatch hmodel => exact ⟨[.unloadModel reply], hat ▸ .retracting hmodel, hqueue⟩
  case retracting hmodel => exact ⟨[.unloadModel reply], hat ▸ .unloaded hmodel, hqueue⟩

/-- **A call is answered**, and the engine has loaded, or unloads. -/
theorem Represents.replying (h : Represents s e) {reply : CallId} {result : Except String Unit}
    (hworker : s.worker = .replying reply result) (hwork : s.work d o = some s') :
    ∃ e', Follows cfg e e' ∧ Represents s' e' := by
  obtain ⟨held, hstage, hqueue⟩ := h
  obtain ⟨queue, worker, model⟩ := e
  rw [hworker] at hstage
  simp only [State.work, hworker] at hwork
  obtain rfl := Option.some.inj hwork
  obtain ⟨hwaiting, hbetween⟩ := answer_between s reply result
  have hsame := hbetween.queue
  have hmodel := hbetween.model
  cases hstage with
  | loaded houtcome =>
      cases result with
      | ok u =>
          have hboth : SameModel (s.answer reply (.ok u)).model (some cfg.modelFile) := by
            rw [hmodel]
            exact houtcome
          exact ⟨_, .work unheard { load := .ok () } rfl, [], hwaiting ▸ .waiting hboth,
            hsame ▸ hqueue⟩
      | error error =>
          have hboth : SameModel (s.answer reply (.error error)).model model := by
            rw [hmodel]
            exact houtcome
          exact ⟨_, .work unheard { load := .error error } rfl, [], hwaiting ▸ .waiting hboth,
            hsame ▸ hqueue⟩
  | unloaded hnone =>
      obtain rfl : queue = .unloadModel reply :: s.queue.map WorkerCommand.command := hqueue
      have hneither : SameModel (s.answer reply (.ok ())).model none := by
        rw [hmodel, hnone]
        rfl
      exact ⟨_, .work unheard {} rfl, [], hwaiting ▸ .waiting hneither, by rw [hsame]; rfl⟩

/-- **A generation ends**, or comes to nothing. -/
theorem Represents.generating (hcontext : 0 < cfg.contextLength) (h : Represents s e)
    {params : GenerationParams} {config : ModelConfig} {tokens : CallId}
    (hworker : s.worker = .generating params config tokens) (hwork : s.work d o = some s') :
    ∃ e', Follows cfg e e' ∧ Represents s' e' := by
  obtain ⟨held, hstage, hqueue⟩ := h
  obtain ⟨queue, worker, model⟩ := e
  rw [hworker] at hstage
  simp only [State.work, hworker] at hwork
  cases hstage with
  | generating hmodel =>
      have hfailed : ∀ error, ∃ e', Follows cfg ⟨queue, .starting (job params tokens), model⟩ e' ∧
          Represents (s.become (.reporting tokens error)) e' := by
        intro error
        exact ⟨_, follows_failure rfl error, [], .reporting hmodel, hqueue⟩
      split at hwork
      · cases o with
        | ok u =>
            obtain rfl := Option.some.inj hwork
            exact ⟨_, follows_generation hcontext rfl, [], .waiting hmodel, hqueue⟩
        | error error =>
            obtain rfl := Option.some.inj hwork
            exact hfailed error
      · obtain rfl := Option.some.inj hwork
        exact hfailed _

/-- The error has been sent, or has found nobody. -/
theorem Represents.reporting (h : Represents s e) {tokens : CallId} {error : String}
    (hworker : s.worker = .reporting tokens error) (hwork : s.work d o = some s') :
    ∃ e', Follows cfg e e' ∧ Represents s' e' := by
  obtain ⟨held, hstage, hqueue⟩ := h
  obtain ⟨queue, worker, model⟩ := e
  rw [hworker] at hstage
  simp only [State.work, hworker] at hwork
  obtain rfl := Option.some.inj hwork
  cases hstage with
  | reporting hmodel => exact ⟨_, follows_finishing rfl, [], .waiting hmodel, hqueue⟩

/-- **Any step of the worker.** -/
theorem Represents.work (hcontext : 0 < cfg.contextLength) (h : Represents s e)
    (hwork : s.work d o = some s') : ∃ e', Follows cfg e e' ∧ Represents s' e' := by
  cases hworker : s.worker with
  | waiting => exact h.take hworker hwork
  | raising a => exact ⟨e, .refl e, h.attempt (.inl hworker) hwork⟩
  | validating a => exact ⟨e, .refl e, h.attempt (.inr (.inl hworker)) hwork⟩
  | initializing a => exact ⟨e, .refl e, h.attempt (.inr (.inr (.inl hworker))) hwork⟩
  | loading a => exact ⟨e, .refl e, h.attempt (.inr (.inr (.inr (.inl hworker)))) hwork⟩
  | announcing a => exact ⟨e, .refl e, h.attempt (.inr (.inr (.inr (.inr hworker)))) hwork⟩
  | lowering a result => exact h.lowering hworker hwork
  | storingContext config reply => exact ⟨e, .refl e, h.storing (.inl hworker) hwork⟩
  | storingBatch config reply => exact ⟨e, .refl e, h.storing (.inr hworker) hwork⟩
  | resettingContext reply => exact ⟨e, .refl e, h.resetting (.inl hworker) hwork⟩
  | resettingBatch reply => exact ⟨e, .refl e, h.resetting (.inr (.inl hworker)) hwork⟩
  | retracting reply => exact ⟨e, .refl e, h.resetting (.inr (.inr hworker)) hwork⟩
  | replying reply result => exact h.replying hworker hwork
  | generating params config tokens => exact h.generating hcontext hworker hwork
  | reporting tokens error => exact h.reporting hworker hwork
  | exited =>
      rw [State.work, hworker] at hwork
      cases hwork

/-! ### Operations of the calls -/

/-- The engine's worker has exited if the actor's has. -/
theorem Stage.exited_iff {held held' : Option String} {worker : Worker} {commands : List Command}
    {worker' : AiDaemon.Worker} (h : Stage held held' worker commands worker') :
    worker = .exited ↔ worker' = .exited := by
  cases h <;> simp [Attempt.worker_ne_exited]

/-- Commands are sent to the engine. -/
theorem follows_sends (hrunning : e.worker ≠ .exited) (commands : List Command) :
    Follows cfg e { e with queue := e.queue ++ commands } := by
  induction commands generalizing e with
  | nil =>
      rw [List.append_nil]
      exact .refl e
  | cons command rest ih =>
      have hsend : Follows cfg e (e.enqueue command) := by
        refine Transition.System.ReachableWhere.single (e := EngineEvent.send command) trivial ?_
        show (match e.send command with
          | .ok e => some e
          | .error _ => none) = some (e.enqueue command)
        rw [Engine.send, if_neg hrunning]
      have hrest : Follows cfg (e.enqueue command)
          { e with queue := e.queue ++ [command] ++ rest } := ih hrunning
      rw [List.append_assoc] at hrest
      exact hsend.trans hrest

/-- **An operation of a call**: both are sent the same commands, and the engine sees nothing else.
-/
theorem Represents.operation (h : Represents s e) {id : CallId} {more : List WorkerCommand}
    (hop : Operation s s' id more) : ∃ e', Follows cfg e e' ∧ Represents s' e' := by
  obtain ⟨held, hstage, hqueue⟩ := h
  have hstage' : Stage s'.model e.model s'.worker held e.worker := by
    rw [hop.worker, hop.model]
    exact hstage
  have hfollows : Follows cfg e { e with queue := e.queue ++ more.map WorkerCommand.command } := by
    by_cases hexited : e.worker = .exited
    · rw [hop.running (hstage.exited_iff.mpr hexited), List.map_nil, List.append_nil]
      exact .refl e
    · exact follows_sends hexited _
  refine ⟨_, hfollows, held, hstage', ?_⟩
  show e.queue ++ more.map WorkerCommand.command = held ++ s'.queue.map WorkerCommand.command
  rw [hqueue, hop.queue, List.map_append, List.append_assoc]

/-! ## What should hold -/

/-- **The actor does what the engine does**, one operation after the other. -/
theorem simulates_engine (hcontext : 0 < cfg.contextLength) :
    Transition.System.Simulates (system d) (fun _ _ => True) (engine cfg) (fun _ _ => True)
      fun s e => Represents s e ∧ s.Sound where
  init s hs := by
    obtain rfl : s = initial d := hs
    exact ⟨.new, rfl, ⟨[], .waiting rfl, rfl⟩,
      sound_of_reachable (.init rfl : (system d).Reachable _)⟩
  step s event s' e := by
    rintro ⟨hrepresents, hsound⟩ - hstep
    rcases step_cases hsound.fresh hstep with ⟨o, hwork⟩ | ⟨id, more, hop, -⟩
    · obtain ⟨e', hfollows, hrepresents'⟩ := hrepresents.work hcontext hwork
      exact ⟨e', hfollows, hrepresents', hsound.work hwork⟩
    · obtain ⟨e', hfollows, hrepresents'⟩ := hrepresents.operation hop
      exact ⟨e', hfollows, hrepresents', hsound.operation hop⟩

/-- Whatever the actor reaches represents something that an engine reaches. -/
theorem exists_engine (hcontext : 0 < cfg.contextLength) (h : (system d).Reachable s) :
    ∃ e, (engine cfg).Reachable e ∧ Represents s e := by
  obtain ⟨e, he, hrepresents, -⟩ := (simulates_engine hcontext).reachable h
  exact ⟨e, he, hrepresents⟩

end Follows

end NiraOS.AiDaemon.Actor
