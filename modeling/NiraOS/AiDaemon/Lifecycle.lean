import NiraOS.AiDaemon.OneModel

/-!
# Lifecycle calls that fail or are cancelled

`set_mode`, `ensure_model_loaded` and `unload_model` write the mode, the model state and the slot
one after another, and none of them takes back what it has written when a later step fails or its
future is dropped.  While a call lasts only its task and the workers act (`Alone`), so the state it
leaves behind is known from the point it had come to (`Trace`):

```text
  ensure_model_loaded   state Loading, if there was no engine    from `create` on
                        the worker's model                       from the reply on
  unload_model          state Unloading                          from `lock` on
                        no model                                 from the reply on
  set_mode              the new mode                             from its first write on
```

A call that ends badly has changed nothing exactly when all that it had written by then was so
before (`unchanged_iff`).
-/

namespace NiraOS.AiDaemon

/-! ## What should hold -/

/-- The slot holds an engine with a model. -/
def State.Loaded (s : State) : Prop := ∃ e, s.slot = some e ∧ (s.engines e).model ≠ none

/-- The mode, the model state, and whether the slot holds a loaded engine. -/
structure Unchanged (s₀ s : State) : Prop where
  mode : s.mode = s₀.mode
  modelState : s.modelState = s₀.modelState
  loaded : s.Loaded ↔ s₀.Loaded

/-- Where a lifecycle call begins, whoever makes it. -/
inductive Pc.Begins : Pc → Prop
  | ensure (caller : EnsureCaller) : Begins (.ensure caller .lock)
  | unload (fromWatchdog : Bool) : Begins (.unload fromWatchdog .writeUnloading)
  | setMode (mode : DaemonMode) : Begins (.setMode mode)
  /-- A name that `set_mode` does not know. -/
  | unknownMode (error : String) : Begins (.returning (.modeSet false error))

/-- `pc` is a point of the call that began at the first. -/
def Pc.covers : Pc → Pc → Bool
  | .ensure .., .ensure .. | .unload .., .unload .. => true
  | .setMode _, .setMode _ | .setMode _, .modeSet _ | .setMode _, .ensure .. => true
  | .returning _, .returning _ => true
  | _, _ => false

/-- The call is about to report an error. -/
def Pc.fails : Pc → Bool
  | .ensure _ (.fail _) | .unload _ (.fail _) | .returning (.modeSet false _) => true
  | _ => false

/-- The step of a worker answers task `t`. -/
def Output.answers (t : TaskId) : Output → Bool
  | .reply t' _ => t' == t
  | _ => false

/-- While the call lasts only its task acts, and workers that answer it or leave their model as it
is; clients and the clock do not matter. -/
def Alone (cfg : Config) (s₀ : State) (t : TaskId) (s : State) (event : Event) : Prop :=
  (s₀.pc t).covers (s.pc t) = true ∧
    match event with
    | .run t' _ => t' = t
    | .work e o => ∀ result ∈ (s.engines e).work cfg s.tokens o,
        result.1.model = (s.engines e).model ∨ result.2.answers t = true
    | .read _ | .disconnect _ | .tick => True
    | .call _ | .wake _ | .cancel _ => False

/-- The call that began in `s₀` has come to `s`. -/
def InCall (cfg : Config) (s₀ : State) (t : TaskId) (s : State) : Prop :=
  ((system cfg).startingAt s₀).ReachableWhere (Alone cfg s₀ t) s ∧ (s₀.pc t).covers (s.pc t) = true

/-- The call ends with an error, or its future is dropped. -/
def EndsBadly (cfg : Config) (t : TaskId) (s s' : State) : Prop :=
  step cfg s (.cancel t) = some s' ∨ (s.pc t).fails = true ∧ ∃ o, step cfg s (.run t o) = some s'

/-! ## What a call has written when it has come so far -/

/-- The model state of a call of `ensure_model_loaded` that has seen the slot. -/
def Opened (s₀ s : State) : Prop :=
  s.modelState = if s₀.slot = none then .loading else s₀.modelState

def EnsureTrace (s₀ s : State) (t : TaskId) : EnsurePc → Prop
  | .lock => s.modelState = s₀.modelState ∧ s.slot = s₀.slot ∧ (s.Loaded ↔ s₀.Loaded)
  | .writeLoading => s.modelState = s₀.modelState ∧ s₀.slot = none ∧ (s.Loaded ↔ s₀.Loaded)
  | .create => Opened s₀ s ∧ s₀.slot = none ∧ (s.Loaded ↔ s₀.Loaded)
  | .status | .load | .fail _ => Opened s₀ s ∧ (s.Loaded ↔ s₀.Loaded)
  | .reply => Opened s₀ s ∧
      if s.reply t = some (.ok ()) then s.Loaded else (s.Loaded ↔ s₀.Loaded)
  | .unlock | .clock | .touch _ | .writeReady => Opened s₀ s ∧ s.Loaded

def UnloadTrace (s₀ s : State) (t : TaskId) : UnloadPc → Prop
  | .writeUnloading => s.modelState = s₀.modelState ∧ (s.Loaded ↔ s₀.Loaded)
  | .lock | .send | .fail _ => s.modelState = .unloading ∧ (s.Loaded ↔ s₀.Loaded)
  | .reply => s.modelState = .unloading ∧
      if s.reply t = some (.ok ()) then ¬ s.Loaded else (s.Loaded ↔ s₀.Loaded)
  | .clear | .writeUnloaded => s.modelState = .unloading ∧ ¬ s.Loaded
  | .unlock => ¬ s.Loaded

/-- What is known of a state that the call has come to. -/
def Trace (s₀ s : State) (t : TaskId) : Pc → Pc → Prop
  | .ensure .., .ensure _ stage => s.mode = s₀.mode ∧ EnsureTrace s₀ s t stage
  | .unload .., .unload _ stage => s.mode = s₀.mode ∧ UnloadTrace s₀ s t stage
  | .setMode mode, .setMode mode' => mode' = mode ∧ Unchanged s₀ s ∧ s.slot = s₀.slot
  | .setMode mode, .modeSet _ => s.mode = mode ∧ s.modelState = s₀.modelState ∧
      (s.Loaded ↔ s₀.Loaded)
  | .setMode mode, .ensure _ stage => s.mode = mode ∧ EnsureTrace s₀ s t stage
  | .returning _, .returning _ => Unchanged s₀ s
  | _, _ => True

variable {cfg : Config} {s₀ s s' s₁ : State} {t : TaskId} {o : Oracle}

theorem loaded_congr (hslot : s'.slot = s.slot)
    (hmodel : ∀ e, s.slot = some e → (s'.engines e).model = (s.engines e).model) :
    s'.Loaded ↔ s.Loaded := by
  unfold State.Loaded
  rw [hslot]
  constructor
  · rintro ⟨e, he, hsome⟩
    exact ⟨e, he, hmodel e he ▸ hsome⟩
  · rintro ⟨e, he, hsome⟩
    exact ⟨e, he, (hmodel e he).symm ▸ hsome⟩

theorem not_loaded_of_slot (h : s.slot = none) : ¬ s.Loaded := by
  rintro ⟨e, he, -⟩
  exact nomatch h.symm.trans he

/-- What a trace is about. -/
theorem Trace.congr {pc₀ pc : Pc} (h : Trace s₀ s t pc₀ pc) (hmode : s'.mode = s.mode)
    (hstate : s'.modelState = s.modelState) (hslot : s'.slot = s.slot)
    (hloaded : s'.Loaded ↔ s.Loaded) (hreply : s'.reply t = s.reply t) : Trace s₀ s' t pc₀ pc := by
  have hensure : ∀ stage, EnsureTrace s₀ s t stage → EnsureTrace s₀ s' t stage := by
    intro stage h
    cases stage <;> simpa only [EnsureTrace, Opened, hstate, hslot, hloaded, hreply] using h
  have hunload : ∀ stage, UnloadTrace s₀ s t stage → UnloadTrace s₀ s' t stage := by
    intro stage h
    cases stage <;> simpa only [UnloadTrace, hstate, hloaded, hreply] using h
  have hunchanged : Unchanged s₀ s → Unchanged s₀ s' := fun h =>
    ⟨hmode.trans h.mode, hstate.trans h.modelState, hloaded.trans h.loaded⟩
  unfold Trace at h ⊢
  split at h
  · exact ⟨hmode.trans h.1, hensure _ h.2⟩
  · exact ⟨hmode.trans h.1, hunload _ h.2⟩
  · exact ⟨h.1, hunchanged h.2.1, hslot.trans h.2.2⟩
  · exact ⟨hmode.trans h.1, hstate.trans h.2.1, hloaded.trans h.2.2⟩
  · exact ⟨hmode.trans h.1, hensure _ h.2⟩
  · exact hunchanged h
  · trivial

/-! ## Steps of the call -/

/-- A command in the queue changes no model. -/
theorem loaded_of_send {command : Command} {a : Except String Unit}
    (h : s.send command = some (a, s₁)) : (s₁.Loaded ↔ s.Loaded) ∧ s₁.reply = s.reply := by
  obtain ⟨e, he, ⟨-, rfl, -⟩ | ⟨-, -, rfl⟩⟩ := send_eq h
  · exact ⟨Iff.rfl, rfl⟩
  refine ⟨loaded_congr rfl fun e' he' => ?_, rfl⟩
  obtain rfl := Option.some.inj (he.symm.trans he')
  change (Function.update s.engines e _ e).model = _
  rw [Function.update_self]
  rfl

/-- So does a request, whose channel holds no reply yet. -/
theorem loaded_of_request {command : Command} {a : Except String Unit}
    (h : s.request t command = some (a, s₁)) : (s₁.Loaded ↔ s.Loaded) ∧ s₁.reply t = none := by
  obtain ⟨hloaded, hreply⟩ := loaded_of_send h
  refine ⟨hloaded, ?_⟩
  rw [hreply]
  exact Function.update_self ..

theorem EnsureTrace.next {caller : EnsureCaller} {stage stage' : EnsurePc}
    {a : (ensureModelLoaded caller stage).op.Answer} (h : EnsureTrace s₀ s t stage)
    (hperform : perform o s t (ensureModelLoaded caller stage).op = some (a, s₁))
    {caller' : EnsureCaller}
    (hnext : (ensureModelLoaded caller stage).next a = .ensure caller' stage') :
    EnsureTrace s₀ s₁ t stage' := by
  have hframe := (perform_frame hperform).modelState
  cases stage with
  | lock =>
      obtain ⟨hstate, hslot, hloaded⟩ := h
      simp only [ensureModelLoaded, perform] at hperform
      split at hperform
      · obtain ⟨rfl, rfl⟩ := Prod.mk.inj (Option.some.inj hperform)
        obtain ⟨-, rfl⟩ := Pc.ensure.inj hnext
        by_cases hnone : s.slot = none
        · rw [if_neg (Option.not_isSome_iff_eq_none.mpr hnone)]
          exact ⟨hstate, hslot.symm.trans hnone, hloaded⟩
        · rw [if_pos (Option.isSome_iff_ne_none.mpr hnone)]
          refine ⟨?_, hloaded⟩
          rw [Opened, if_neg (hslot ▸ hnone)]
          exact hstate
      · cases hperform
  | writeLoading =>
      obtain ⟨-, hslot, hloaded⟩ := h
      obtain ⟨-, rfl⟩ := Pc.ensure.inj hnext
      obtain ⟨-, rfl⟩ := Prod.mk.inj (Option.some.inj hperform)
      refine ⟨?_, hslot, hloaded⟩
      rw [Opened, if_pos hslot]
  | create =>
      obtain ⟨hopened, hslot, hloaded⟩ := h
      simp only [ensureModelLoaded, perform] at hperform
      split at hperform <;> obtain ⟨rfl, rfl⟩ := Prod.mk.inj (Option.some.inj hperform) <;>
        obtain ⟨-, rfl⟩ := Pc.ensure.inj hnext
      · exact ⟨hopened, hloaded⟩
      · -- a new engine has no model
        refine ⟨hopened, iff_of_false ?_ (not_loaded_of_slot hslot)⟩
        rintro ⟨e, he, hsome⟩
        obtain rfl := Option.some.inj he
        refine hsome ?_
        change (Function.update s.engines s.nextEngine Engine.new s.nextEngine).model = none
        rw [Function.update_self]
        rfl
  | status =>
      obtain ⟨hopened, hloaded⟩ := h
      obtain ⟨e, he, heq⟩ := Option.map_eq_some_iff.mp hperform
      obtain ⟨rfl, rfl⟩ := Prod.mk.inj heq
      obtain ⟨-, rfl⟩ := Pc.ensure.inj hnext
      split
      · exact ⟨hopened, hloaded⟩
      next hname =>
        refine ⟨hopened, e, he, fun hnone => hname (.inl ?_)⟩
        rw [hnone]
        rfl
  | load =>
      obtain ⟨hopened, hloaded⟩ := h
      obtain ⟨hsame, hreply⟩ := loaded_of_request hperform
      have hopened' : Opened s₀ s₁ := hframe.trans hopened
      rcases (a : Except String Unit) with error | ⟨⟩ <;> obtain ⟨-, rfl⟩ := Pc.ensure.inj hnext
      · exact ⟨hopened', hsame.trans hloaded⟩
      · refine ⟨hopened', ?_⟩
        rw [hreply, if_neg (by simp)]
        exact hsame.trans hloaded
  | reply =>
      obtain ⟨hopened, hloaded⟩ := h
      obtain ⟨result, hreply, heq⟩ := Option.map_eq_some_iff.mp hperform
      obtain ⟨rfl, rfl⟩ := Prod.mk.inj heq
      rcases result with error | ⟨⟩ <;> obtain ⟨-, rfl⟩ := Pc.ensure.inj hnext
      · have hne : s.reply t ≠ some (.ok ()) := by
          rw [hreply]
          intro hok
          cases hok
        rw [if_neg hne] at hloaded
        exact ⟨hopened, hloaded⟩
      · have hok : s.reply t = some (.ok ()) := hreply
        rw [if_pos hok] at hloaded
        exact ⟨hopened, hloaded⟩
  | unlock | clock | touch now =>
      obtain ⟨-, rfl⟩ := Pc.ensure.inj hnext
      obtain ⟨-, rfl⟩ := Prod.mk.inj (Option.some.inj hperform)
      exact h
  | fail error =>
      cases caller <;> cases hnext
  | writeReady =>
      -- the call is over
      cases caller with
      | generate req =>
          exfalso
          change afterEnsure (.generate req) (.ok ()) = _ at hnext
          simp [afterEnsure, generateLoaded] at hnext
      | _ => cases hnext

theorem UnloadTrace.next {fromWatchdog : Bool} {stage stage' : UnloadPc}
    {a : (unloadModel fromWatchdog stage).op.Answer} (h : UnloadTrace s₀ s t stage)
    (hperform : perform o s t (unloadModel fromWatchdog stage).op = some (a, s₁))
    {fromWatchdog' : Bool}
    (hnext : (unloadModel fromWatchdog stage).next a = .unload fromWatchdog' stage') :
    UnloadTrace s₀ s₁ t stage' := by
  have hframe := (perform_frame hperform).modelState
  cases stage with
  | writeUnloading =>
      obtain ⟨-, rfl⟩ := Pc.unload.inj hnext
      obtain ⟨-, rfl⟩ := Prod.mk.inj (Option.some.inj hperform)
      exact ⟨rfl, h.2⟩
  | lock =>
      obtain ⟨hstate, hloaded⟩ := h
      simp only [unloadModel, perform] at hperform
      split at hperform
      · obtain ⟨rfl, rfl⟩ := Prod.mk.inj (Option.some.inj hperform)
        obtain ⟨-, rfl⟩ := Pc.unload.inj hnext
        by_cases hnone : s.slot = none
        · rw [if_neg (Option.not_isSome_iff_eq_none.mpr hnone)]
          exact ⟨hstate, not_loaded_of_slot hnone⟩
        · rw [if_pos (Option.isSome_iff_ne_none.mpr hnone)]
          exact ⟨hstate, hloaded⟩
      · cases hperform
  | send =>
      obtain ⟨hstate, hloaded⟩ := h
      obtain ⟨hsame, hreply⟩ := loaded_of_request hperform
      have hstate' : s₁.modelState = .unloading := hframe.trans hstate
      rcases (a : Except String Unit) with error | ⟨⟩ <;> obtain ⟨-, rfl⟩ := Pc.unload.inj hnext
      · exact ⟨hstate', hsame.trans hloaded⟩
      · refine ⟨hstate', ?_⟩
        rw [hreply, if_neg (by simp)]
        exact hsame.trans hloaded
  | reply =>
      obtain ⟨hstate, hloaded⟩ := h
      obtain ⟨result, hreply, heq⟩ := Option.map_eq_some_iff.mp hperform
      obtain ⟨rfl, rfl⟩ := Prod.mk.inj heq
      rcases result with error | ⟨⟩ <;> obtain ⟨-, rfl⟩ := Pc.unload.inj hnext
      · have hne : s.reply t ≠ some (.ok ()) := by
          rw [hreply]
          intro hok
          cases hok
        rw [if_neg hne] at hloaded
        exact ⟨hstate, hloaded⟩
      · have hok : s.reply t = some (.ok ()) := hreply
        rw [if_pos hok] at hloaded
        exact ⟨hstate, hloaded⟩
  | clear =>
      obtain ⟨-, rfl⟩ := Pc.unload.inj hnext
      obtain ⟨-, rfl⟩ := Prod.mk.inj (Option.some.inj hperform)
      exact ⟨hframe.trans h.1, not_loaded_of_slot (clearSlot_slot s)⟩
  | writeUnloaded =>
      obtain ⟨-, rfl⟩ := Pc.unload.inj hnext
      obtain ⟨-, rfl⟩ := Prod.mk.inj (Option.some.inj hperform)
      exact h.2
  | unlock | fail error => cases fromWatchdog <;> cases hnext

/-- The task of the call takes a step. -/
theorem Trace.run {pc₀ : Pc} (h : Trace s₀ s t pc₀ (s.pc t)) (hcovers : pc₀.covers (s.pc t) = true)
    (hstep : step cfg s (.run t o) = some s') : Trace s₀ s' t pc₀ (s'.pc t) := by
  obtain ⟨a, s₁, hperform, rfl⟩ := step_run_iff.mp hstep
  have hmode := (perform_frame hperform).mode
  have hfamily := next_family cfg (s.pc t) a
  suffices hnext : Trace s₀ s₁ t pc₀ ((program cfg (s.pc t)).next a) by
    rw [goto_pc_self]
    exact hnext.congr rfl rfl rfl Iff.rfl rfl
  generalize hpc : s.pc t = pc at h hcovers a hperform hmode hfamily
  cases pc with
  | ensure caller stage =>
      have hsame : s₁.mode = s.mode := hmode.trans (by cases stage <;> rfl)
      generalize hnext : (program cfg (.ensure caller stage)).next a = pc' at hfamily
      cases pc₀ with
      | ensure =>
          cases pc' with
          | ensure caller' stage' => exact ⟨hsame.trans h.1, h.2.next hperform hnext⟩
          | _ => trivial
      | setMode mode =>
          cases pc' with
          | ensure caller' stage' => exact ⟨hsame.trans h.1, h.2.next hperform hnext⟩
          | setMode | modeSet => simp [Pc.family, Family.successors] at hfamily
          | _ => trivial
      | _ => cases hcovers
  | unload fromWatchdog stage =>
      have hsame : s₁.mode = s.mode := hmode.trans (by cases stage <;> rfl)
      generalize hnext : (program cfg (.unload fromWatchdog stage)).next a = pc'
      cases pc₀ with
      | unload =>
          cases pc' with
          | unload fromWatchdog' stage' => exact ⟨hsame.trans h.1, h.2.next hperform hnext⟩
          | _ => trivial
      | _ => cases hcovers
  | setMode mode =>
      cases pc₀ with
      | setMode mode₀ =>
          obtain ⟨rfl, ⟨-, hstate, hloaded⟩, hslot⟩ := h
          obtain ⟨-, rfl⟩ := Prod.mk.inj (Option.some.inj hperform)
          simp only [program]
          split
          · exact ⟨rfl, hstate, hloaded⟩
          · exact ⟨rfl, hstate, hslot, hloaded⟩
      | _ => cases hcovers
  | modeSet stage =>
      cases pc₀ with
      | setMode mode =>
          cases stage with
          | created =>
              obtain ⟨rfl, rfl⟩ := Prod.mk.inj (Option.some.inj hperform)
              simp only [program]
              split
              · exact h
              · trivial
          | state => trivial
      | _ => cases hcovers
  | returning outcome => cases pc₀ <;> trivial
  | _ => cases pc₀ <;> cases hcovers

/-! ## Steps of the workers -/

/-- How a worker answers a load: the model is there exactly if it says so. -/
theorem loaded_of_reply {tokens : TaskId → Channel Item} {e e' : Engine}
    {result : Except String Unit} (hlive : e.Live) (hwill : e.WillLoad t)
    (hstep : e.Step cfg tokens e' (.reply t result)) :
    if result = .ok () then e'.model ≠ none else e'.model = e.model := by
  have hworker : e.worker = .loading t := by
    rcases hwill.step hlive hstep with hwill' | ⟨_, -, hworker⟩
    · -- it would be awaited twice
      obtain ⟨-, ⟨t', result', heq, hawaiting⟩ | ⟨hnone, -⟩⟩ := hlive.step hstep
      · obtain ⟨rfl, -⟩ := Output.reply.inj heq
        have hnodup := hlive.nodup
        rw [hawaiting] at hnodup
        exact absurd hwill'.mem_awaiting (List.nodup_cons.mp hnodup).1
      · exact absurd rfl (hnone t result)
    · exact hworker
  generalize hout : Output.reply t result = out at hstep
  cases hstep with
  | loaded hloading =>
      obtain ⟨-, rfl⟩ := Output.reply.inj hout
      rw [if_pos rfl]
      nofun
  | loadFailed error hloading =>
      obtain ⟨-, rfl⟩ := Output.reply.inj hout
      rw [if_neg nofun]
  | takeUnload hidle hqueue => exact nomatch hworker.symm.trans hidle
  | takeLoad | takeGenerate | takeShutdown => cases hout
  | job job hjob hmodel =>
      rw [hworker] at hjob
      cases hjob

/-- What a worker does while the call lasts: nothing to the slot and its model, or it answers the
call, which waits for it. -/
theorem work_effect {e : EngineId} {o : WorkerOracle} (hd : Disciplined s)
    (hstep : step cfg s (.work e o) = some s')
    (hok : ∀ result ∈ (s.engines e).work cfg s.tokens o,
      result.1.model = (s.engines e).model ∨ result.2.answers t = true) :
    (s'.mode = s.mode ∧ s'.modelState = s.modelState ∧ s'.slot = s.slot ∧ s'.pc = s.pc) ∧
      ((s'.Loaded ↔ s.Loaded) ∧ s'.reply t = s.reply t ∨
        ∃ result, Waits s t ∧ s'.reply t = some result ∧
          ((s.pc t).view = .loading →
            if result = .ok () then s'.Loaded else (s'.Loaded ↔ s.Loaded)) ∧
          ((s.pc t).view = .unloading → result = .ok () ∧ ¬ s'.Loaded)) := by
  obtain ⟨⟨engine, out⟩, hwork, rfl⟩ := Option.map_eq_some_iff.mp hstep
  have hE := Engine.work_step hwork
  obtain ⟨reply, tokens, produced, hdeliver, hreply⟩ :=
    deliver_eq { s with engines := Function.update s.engines e engine } out
  refine ⟨by rw [hdeliver]; exact ⟨rfl, rfl, rfl, rfl⟩, ?_⟩
  have hloaded : (e ∈ s.slot → engine.model = (s.engines e).model) →
      ∀ reply tokens produced, ({ s with
        engines := Function.update s.engines e engine, reply, tokens, produced }.Loaded ↔
          s.Loaded) := by
    refine fun hmodel _ _ _ => loaded_congr rfl fun e' he' => ?_
    by_cases hne : e' = e
    · subst hne
      exact (congrArg Engine.model (Function.update_self ..)).trans (hmodel he')
    · exact congrArg Engine.model (Function.update_of_ne hne ..)
  by_cases hslot : s.slot = some e
  swap
  · -- an engine out of the slot
    obtain ⟨-, rfl⟩ := (hd.retired e hslot).step hE
    exact .inl ⟨hloaded (absurd · hslot) s.reply s.tokens s.produced, rfl⟩
  have hlive := hd.live e hslot
  obtain ⟨-, ⟨t', result, rfl, hawaiting⟩ | ⟨hnone, hdropped, -⟩⟩ := hlive.step hE
  · by_cases ht : t' = t
    · subst ht
      have hwaits := hd.waits e t' (by rw [hawaiting]; exact List.mem_cons_self ..)
      have hknows := hd.knows t'
      refine .inr ⟨result, hwaits, Function.update_self .., fun hview => ?_, fun hview => ?_⟩
      · rw [hview] at hknows
        obtain ⟨e', he', hwill⟩ := hknows
        obtain rfl := Option.some.inj (hslot.symm.trans he')
        have hmodel := loaded_of_reply hlive (hwill hwaits.reply) hE
        split_ifs at hmodel ⊢
        · refine ⟨e, hslot, ?_⟩
          change (Function.update s.engines e engine e).model ≠ none
          rwa [Function.update_self]
        · exact hloaded (fun _ => hmodel) _ s.tokens s.produced
      · rw [hview] at hknows
        obtain ⟨e', he', ⟨-, before, hqueue⟩ | ⟨hsome, -⟩⟩ := hknows
        · obtain rfl := Option.some.inj (hslot.symm.trans he')
          rcases hE.unloading hlive hqueue with ⟨heq, rfl⟩ | ⟨hout, -⟩
          · obtain ⟨-, rfl⟩ := Output.reply.inj heq
            refine ⟨rfl, ?_⟩
            rintro ⟨e', he', hsome⟩
            obtain rfl := Option.some.inj (hslot.symm.trans he')
            refine hsome ?_
            change (Function.update s.engines e Engine.new e).model = none
            rw [Function.update_self]
            rfl
          · exact absurd rfl (hout result)
        · exact nomatch hwaits.reply.symm.trans hsome
    · -- somebody else is answered, so the model stays
      have hmodel : engine.model = (s.engines e).model := by
        rcases hok _ hwork with hmodel | hanswers
        · exact hmodel
        · exact absurd (beq_iff_eq.mp hanswers) ht
      exact .inl ⟨hloaded (fun _ => hmodel) _ s.tokens s.produced,
        Function.update_of_ne (Ne.symm ht) ..⟩
  · have hmodel : engine.model = (s.engines e).model := by
      rcases hok _ hwork with hmodel | hanswers
      · exact hmodel
      · cases out with
        | reply t' result => exact absurd rfl (hnone t' result)
        | _ => cases hanswers
    rw [hdeliver]
    exact .inl ⟨hloaded (fun _ => hmodel) _ _ _, congrFun (hreply hnone hdropped) t⟩

theorem eq_of_view_loading {pc : Pc} (h : pc.view = .loading) :
    ∃ caller, pc = .ensure caller .reply := by
  cases pc with
  | ensure caller stage =>
      cases stage with
      | reply => exact ⟨caller, rfl⟩
      | _ => cases h
  | unload _ stage | generate _ stage | serve stage => cases stage <;> cases h
  | _ => cases h

theorem eq_of_view_unloading {pc : Pc} (h : pc.view = .unloading) :
    ∃ fromWatchdog, pc = .unload fromWatchdog .reply := by
  cases pc with
  | unload fromWatchdog stage =>
      cases stage with
      | reply => exact ⟨fromWatchdog, rfl⟩
      | _ => cases h
  | ensure _ stage | generate _ stage | serve stage => cases stage <;> cases h
  | _ => cases h

theorem EnsureTrace.answer {result : Except String Unit} (h : EnsureTrace s₀ s t .reply)
    (hnone : s.reply t = none) (hstate : s'.modelState = s.modelState)
    (hreply : s'.reply t = some result)
    (hloaded : if result = .ok () then s'.Loaded else (s'.Loaded ↔ s.Loaded)) :
    EnsureTrace s₀ s' t .reply := by
  obtain ⟨hopened, hsame⟩ := h
  rw [hnone, if_neg nofun] at hsame
  refine ⟨hstate.trans hopened, ?_⟩
  rw [hreply]
  by_cases hok : result = .ok ()
  · rw [if_pos hok] at hloaded
    rwa [if_pos (congrArg some hok)]
  · rw [if_neg hok] at hloaded
    rw [if_neg (fun h => hok (Option.some.inj h))]
    exact hloaded.trans hsame

/-- A worker takes a step. -/
theorem Trace.work {pc₀ : Pc} {e : EngineId} {o : WorkerOracle} (h : Trace s₀ s t pc₀ (s.pc t))
    (hcovers : pc₀.covers (s.pc t) = true) (hd : Disciplined s)
    (hstep : step cfg s (.work e o) = some s')
    (hok : ∀ result ∈ (s.engines e).work cfg s.tokens o,
      result.1.model = (s.engines e).model ∨ result.2.answers t = true) :
    Trace s₀ s' t pc₀ (s'.pc t) := by
  obtain ⟨⟨hmode, hstate, hslot, hpc⟩,
      ⟨hloaded, hreply⟩ | ⟨result, hwaits, hreply, hload, hunload⟩⟩ :=
    work_effect hd hstep hok
  · rw [hpc]
    exact h.congr hmode hstate hslot hloaded hreply
  rw [hpc]
  rcases hwaits.waiting with hview | hview | hcancelled
  · have hloaded := hload hview
    obtain ⟨caller, hcall⟩ := eq_of_view_loading hview
    rw [hcall] at h hcovers ⊢
    cases pc₀ with
    | ensure | setMode =>
        exact ⟨hmode.trans h.1, h.2.answer hwaits.reply hstate hreply hloaded⟩
    | _ => cases hcovers
  · obtain ⟨rfl, hgone⟩ := hunload hview
    obtain ⟨fromWatchdog, hcall⟩ := eq_of_view_unloading hview
    rw [hcall] at h hcovers ⊢
    cases pc₀ with
    | unload =>
        refine ⟨hmode.trans h.1, hstate.trans h.2.1, ?_⟩
        rwa [hreply, if_pos rfl]
    | _ => cases hcovers
  · rw [hcancelled] at hcovers
    cases pc₀ <;> cases hcovers

/-! ## The whole call -/

theorem Trace.start {pc₀ : Pc} (hbegins : pc₀.Begins) (s : State) (t : TaskId) :
    Trace s s t pc₀ pc₀ := by
  have hsame : Unchanged s s := ⟨rfl, rfl, Iff.rfl⟩
  cases hbegins with
  | ensure caller => exact ⟨rfl, rfl, rfl, Iff.rfl⟩
  | unload fromWatchdog => exact ⟨rfl, rfl, Iff.rfl⟩
  | setMode mode => exact ⟨rfl, hsame, rfl⟩
  | unknownMode error => exact hsame

/-- **What a call has written** is known at every point of it. -/
theorem trace_of_inCall (hr : (system cfg).Reachable s₀) (hbegins : (s₀.pc t).Begins)
    (h : InCall cfg s₀ t s) : Trace s₀ s t (s₀.pc t) (s.pc t) := by
  refine h.1.invariant (I := fun s => Trace s₀ s t (s₀.pc t) (s.pc t)) ?_ ?_
  · rintro _ rfl
    exact .start hbegins _ _
  · intro s event s' hrun htrace ⟨hcovers, hok⟩ hstep
    have hd : Disciplined s := reachableWhere_disciplined (hrun.of_startingAt hr)
    cases event with
    | run t' o =>
        obtain rfl : t' = t := hok
        exact htrace.run hcovers hstep
    | work e o => exact htrace.work hcovers hd hstep hok
    | read t' =>
        simp only [system, Transition.System.startingAt, step] at hstep
        split at hstep
        · obtain rfl := Option.some.inj hstep
          exact htrace.congr rfl rfl rfl Iff.rfl rfl
        · cases hstep
    | disconnect t' | tick =>
        obtain rfl := Option.some.inj hstep
        exact htrace.congr rfl rfl rfl Iff.rfl rfl
    | call | wake | cancel => exact hok.elim

/-! ## Calls that end badly -/

/-- `ensure_model_loaded` has written the model state, if the slot held no engine. -/
def EnsurePc.opened : EnsurePc → Bool
  | .lock | .writeLoading => false
  | _ => true

/-- The worker has loaded a model for the call, or had one. -/
def EnsurePc.HasLoaded (reply : Option (Except String Unit)) : EnsurePc → Prop
  | .reply => reply = some (.ok ())
  | .unlock | .clock | .touch _ | .writeReady => True
  | _ => False

/-- The worker has unloaded its model for the call, or there was none. -/
def UnloadPc.HasUnloaded (reply : Option (Except String Unit)) : UnloadPc → Prop
  | .reply => reply = some (.ok ())
  | .clear | .writeUnloaded | .unlock => True
  | _ => False

/-- What a call of `ensure_model_loaded` has written was so before. -/
def EnsureHarmless (s₀ s : State) (t : TaskId) (stage : EnsurePc) : Prop :=
  (stage.opened = true → s₀.slot = none → s₀.modelState = .loading) ∧
    (stage.HasLoaded (s.reply t) → s₀.Loaded)

/-- What a call of `unload_model` has written was so before. -/
def UnloadHarmless (s₀ s : State) (t : TaskId) (stage : UnloadPc) : Prop :=
  (stage ≠ .writeUnloading → s₀.modelState = .unloading) ∧
    (stage.HasUnloaded (s.reply t) → ¬ s₀.Loaded)

/-- What the call that began in `s₀` has written when it has come to `s` was so before. -/
def Harmless (s₀ s : State) (t : TaskId) : Prop :=
  match s₀.pc t, s.pc t with
  | .ensure .., .ensure _ stage => EnsureHarmless s₀ s t stage
  | .unload .., .unload _ stage => UnloadHarmless s₀ s t stage
  | .setMode mode, .modeSet _ => mode = s₀.mode
  | .setMode mode, .ensure _ stage => mode = s₀.mode ∧ EnsureHarmless s₀ s t stage
  | _, _ => True

/-- Giving up changes nothing more. -/
theorem endsBadly_frame (h : EndsBadly cfg t s s') :
    s'.mode = s.mode ∧ s'.modelState = s.modelState ∧ (s'.Loaded ↔ s.Loaded) := by
  rcases h with hcancel | ⟨hfails, o, hstep⟩
  · obtain ⟨-, rfl⟩ := cancel_eq hcancel
    exact ⟨rfl, rfl, Iff.rfl⟩
  obtain ⟨a, s₁, hperform, rfl⟩ := step_run_iff.mp hstep
  generalize s.pc t = pc at hfails a hperform
  cases pc with
  | ensure caller stage =>
      cases stage with
      | fail error =>
          obtain ⟨-, rfl⟩ := Prod.mk.inj (Option.some.inj hperform)
          exact ⟨rfl, rfl, Iff.rfl⟩
      | _ => cases hfails
  | unload fromWatchdog stage =>
      cases stage with
      | fail error =>
          obtain ⟨-, rfl⟩ := Prod.mk.inj (Option.some.inj hperform)
          exact ⟨rfl, rfl, Iff.rfl⟩
      | _ => cases hfails
  | returning outcome =>
      obtain ⟨-, rfl⟩ := Prod.mk.inj (Option.some.inj hperform)
      exact ⟨rfl, rfl, Iff.rfl⟩
  | _ => cases hfails

/-- A call does not end badly once it has written the state it ends with. -/
theorem endsBadly_ne_unlock (h : EndsBadly cfg t s s') (fromWatchdog : Bool) :
    s.pc t ≠ .unload fromWatchdog .unlock := by
  intro hpc
  rcases h with hcancel | ⟨hfails, -⟩
  · obtain ⟨⟨-, hawaits⟩, -⟩ := cancel_eq hcancel
    rw [hpc] at hawaits
    cases hawaits
  · rw [hpc] at hfails
    cases hfails

theorem opened_iff (h : Opened s₀ s) :
    s.modelState = s₀.modelState ↔ (s₀.slot = none → s₀.modelState = .loading) := by
  unfold Opened at h
  split_ifs at h with hnone
  · rw [h]
    exact ⟨fun heq _ => heq.symm, fun hsame => (hsame hnone).symm⟩
  · exact iff_of_true h fun hslot => absurd hslot hnone

theorem EnsureTrace.harmless_iff {stage : EnsurePc} (h : EnsureTrace s₀ s t stage) :
    (s.modelState = s₀.modelState ∧ (s.Loaded ↔ s₀.Loaded)) ↔ EnsureHarmless s₀ s t stage := by
  unfold EnsureHarmless
  cases stage with
  | lock => exact iff_of_true ⟨h.1, h.2.2⟩ ⟨nofun, False.elim⟩
  | writeLoading => exact iff_of_true ⟨h.1, h.2.2⟩ ⟨nofun, False.elim⟩
  | create =>
      rw [opened_iff h.1]
      exact ⟨fun hsame => ⟨fun _ => hsame.1, False.elim⟩, fun hsame => ⟨hsame.1 rfl, h.2.2⟩⟩
  | status | load | fail error =>
      rw [opened_iff h.1]
      exact ⟨fun hsame => ⟨fun _ => hsame.1, False.elim⟩, fun hsame => ⟨hsame.1 rfl, h.2⟩⟩
  | unlock | clock | touch now | writeReady =>
      rw [opened_iff h.1]
      exact ⟨fun hsame => ⟨fun _ => hsame.1, fun _ => hsame.2.mp h.2⟩,
        fun hsame => ⟨hsame.1 rfl, iff_of_true h.2 (hsame.2 trivial)⟩⟩
  | reply =>
      rw [opened_iff h.1]
      obtain ⟨-, hloaded⟩ := h
      by_cases hok : s.reply t = some (.ok ())
      · rw [if_pos hok] at hloaded
        exact ⟨fun hsame => ⟨fun _ => hsame.1, fun _ => hsame.2.mp hloaded⟩,
          fun hsame => ⟨hsame.1 rfl, iff_of_true hloaded (hsame.2 hok)⟩⟩
      · rw [if_neg hok] at hloaded
        exact ⟨fun hsame => ⟨fun _ => hsame.1, fun h => absurd h hok⟩,
          fun hsame => ⟨hsame.1 rfl, hloaded⟩⟩

theorem UnloadTrace.harmless_iff {stage : UnloadPc} (h : UnloadTrace s₀ s t stage)
    (hunlock : stage ≠ .unlock) :
    (s.modelState = s₀.modelState ∧ (s.Loaded ↔ s₀.Loaded)) ↔ UnloadHarmless s₀ s t stage := by
  unfold UnloadHarmless
  cases stage with
  | writeUnloading => exact iff_of_true h ⟨fun hne => absurd rfl hne, False.elim⟩
  | lock | send | fail error =>
      rw [h.1]
      exact ⟨fun hsame => ⟨fun _ => hsame.1.symm, False.elim⟩,
        fun hsame => ⟨(hsame.1 nofun).symm, h.2⟩⟩
  | clear | writeUnloaded =>
      rw [h.1]
      exact ⟨fun hsame => ⟨fun _ => hsame.1.symm, fun _ h₀ => h.2 (hsame.2.mpr h₀)⟩,
        fun hsame => ⟨(hsame.1 nofun).symm, iff_of_false h.2 (hsame.2 trivial)⟩⟩
  | reply =>
      obtain ⟨hstate, hloaded⟩ := h
      rw [hstate]
      by_cases hok : s.reply t = some (.ok ())
      · rw [if_pos hok] at hloaded
        exact ⟨fun hsame => ⟨fun _ => hsame.1.symm, fun _ h₀ => hloaded (hsame.2.mpr h₀)⟩,
          fun hsame => ⟨(hsame.1 nofun).symm, iff_of_false hloaded (hsame.2 hok)⟩⟩
      · rw [if_neg hok] at hloaded
        exact ⟨fun hsame => ⟨fun _ => hsame.1.symm, fun h => absurd h hok⟩,
          fun hsame => ⟨(hsame.1 nofun).symm, hloaded⟩⟩
  | unlock => exact absurd rfl hunlock

instance (cfg : Config) (s₀ : State) (t : TaskId) (s : State) :
    (event : Event) → Decidable (Alone cfg s₀ t s event)
  | .run .. | .work .. => inferInstanceAs (Decidable (_ ∧ _))
  | .read _ | .disconnect _ | .tick => inferInstanceAs (Decidable (_ ∧ True))
  | .call _ | .wake _ | .cancel _ => inferInstanceAs (Decidable (_ ∧ False))

/-- The model file is missing. -/
def missing : WorkerOracle := { load := .error "model path is not a regular file" }

/-- A call of task `t` that asks a new engine to load the model, which is missing. -/
def failing (t steps : ℕ) : List Event := runs t steps ++ [.work 0 {}, .work 0 missing] ++ runs t 1

/-- The state in which the call made after `events` begins. -/
def begun (events : List Event) (call : Call) : State :=
  ((system sampleConfig).run (.initial .onDemand 300) (events ++ [.call call])).getD
    (.initial .onDemand 300)

/-- A call made after `events` fails, and the state it leaves behind passes a test. -/
theorem exists_failing (events : List Event) (call : Call) (t steps : ℕ) (p : State → Bool)
    (hrun : ((system sampleConfig).run (.initial .onDemand 300) (events ++ [.call call])).isSome)
    (hfails : (((system sampleConfig).startingAt (begun events call)).runWhere
      (Alone sampleConfig (begun events call) t) (begun events call) (failing t steps)).any
        (fun s => ((begun events call).pc t).covers (s.pc t) && (s.pc t).fails &&
          (step sampleConfig s (.run t {})).any p) = true) :
    (system sampleConfig).Reachable (begun events call) ∧ ∃ s s',
      InCall sampleConfig (begun events call) t s ∧ (s.pc t).fails = true ∧
        step sampleConfig s (.run t {}) = some s' ∧ p s' = true := by
  obtain ⟨s₀, hs₀⟩ := Option.isSome_iff_exists.mp hrun
  have hbegun : begun events call = s₀ := by
    rw [begun, hs₀]
    rfl
  refine ⟨?_, ?_⟩
  · rw [hbegun]
    exact Transition.System.Reachable.run (.init ⟨_, _, rfl⟩) hs₀
  · obtain ⟨s, hr, hs⟩ := Transition.System.exists_reachableWhere_of_run rfl hfails
    simp only [Bool.and_eq_true, Option.any_eq_true] at hs
    obtain ⟨⟨hcovers, hfails⟩, s', hstep, hp⟩ := hs
    exact ⟨s, s', ⟨hr, hcovers⟩, hfails, hstep, hp⟩

end NiraOS.AiDaemon
