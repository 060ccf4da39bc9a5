import NiraOS.AiDaemon.Ledger
import Mathlib.Data.List.Induction

/-!
# The two handlers of a prompt

`generate` and `stream_generate` answer the same request from the same daemon.  To compare
them, each call is executed by itself: `answer` performs an operation on the state of the
daemon as `perform` does, and where the call would wait for someone else the answer is
there at once, from a `World` that is the same for both.

The two do not agree.  `generate` loads the model before it looks for a quick action, which
`stream_generate` does not; and only `generate` hands a tool request of the model to the
action manager.  `agree_iff` says that this is all.
-/

namespace NiraOS.AiDaemon

/-! ## A call by itself -/

/-- What the model makes of a prompt: pieces of text, then how it ends; `none` is a token
channel that closes without a terminal item. -/
structure Generation where
  texts : List String
  ending : Option (Except String Unit)

def terminal : Except String Unit → Item
  | .ok () => finished
  | .error error => .error error

def Generation.items (g : Generation) : List Item :=
  pieces g.texts ++ (g.ending.map terminal).toList

/-- The text ends with an error. -/
def Generation.Fails (g : Generation) : Prop := ∃ error, g.ending = some (.error error)

instance (g : Generation) : Decidable g.Fails :=
  match h : g.ending with
  | some (.error error) => isTrue ⟨error, h⟩
  | some (.ok ()) => isFalse fun ⟨_, hfails⟩ => nomatch h.symm.trans hfails
  | none => isFalse fun ⟨_, hfails⟩ => nomatch h.symm.trans hfails

/-- What others contribute to a call. -/
structure World where
  oracle : Oracle
  /-- The worker's answer to `LoadModel`. -/
  load : Except String Unit
  generation : String → ℕ → Generation

/-- The daemon as a call finds it and what the call has done to others. -/
structure Local where
  state : State
  /-- The items of the token channel. -/
  pending : List Item
  responses : List (Except Status AiResponse)
  /-- What the action manager was asked to do. -/
  actions : List ToolRequest

def Local.start (s : State) : Local := ⟨s, [], [], []⟩

/-- The requests that reach the action manager. -/
def sentAction (reply : ActionReply) (request : ToolRequest) : List ToolRequest :=
  match reply with
  | .unreachable => []
  | _ => [request]

def answer (w : World) (t : TaskId) (l : Local) : (op : Op) → Option (op.Answer × Local)
  | .lockEngine => some (l.state.slot.isSome, { l with state := { l.state with lock := some t } })
  | .awaitReply => some (w.load, l)
  | .sendGenerate prompt maxTokens =>
      (l.state.sendGenerate t prompt maxTokens).map fun result =>
        (result.1, { l with state := result.2, pending := (w.generation prompt maxTokens).items })
  | .receiveToken =>
      match l.pending with
      | [] => some (none, l)
      | item :: rest => some (some item, { l with pending := rest })
  | .sendResponse response => some (true, { l with responses := l.responses ++ [response] })
  | .executeAction request =>
      some (w.oracle.action, { l with actions := l.actions ++ sentAction w.oracle.action request })
  | op => (perform w.oracle l.state t op).map fun result => (result.1, { l with state := result.2 })

/-- What a counter has come to. -/
def Pc.outcome : Pc → Option Outcome
  | .returning outcome => some outcome
  | _ => none

def execute (cfg : Config) (w : World) (t : TaskId) : ℕ → Pc → Local → Option (Outcome × Local)
  | 0, _, _ => none
  | fuel + 1, pc, l =>
      match pc.outcome with
      | some outcome => some (outcome, l)
      | none =>
          match answer w t l (program cfg pc).op with
          | none => none
          | some (a, l') => execute cfg w t fuel ((program cfg pc).next a) l'

/-- The call comes to an end. -/
def Returns (cfg : Config) (w : World) (t : TaskId) (pc : Pc) (l : Local)
    (result : Outcome × Local) :
    Prop :=
  ∃ fuel, execute cfg w t fuel pc l = some result

section Executing

variable {cfg : Config} {w : World} {t : TaskId} {pc pc' : Pc} {l l' : Local}
  {result result' : Outcome × Local}

theorem execute_mono {fuel : ℕ} (h : execute cfg w t fuel pc l = some result) {more : ℕ}
    (hmore : fuel ≤ more) : execute cfg w t more pc l = some result := by
  induction fuel generalizing pc l more with
  | zero => nomatch h
  | succ fuel ih =>
      obtain ⟨more, rfl⟩ : ∃ m, more = m + 1 := ⟨more - 1, by omega⟩
      rw [execute] at h ⊢
      split at h
      · exact h
      · split at h
        · nomatch h
        · exact ih h (Nat.le_of_succ_le_succ hmore)

/-- A call ends in one way. -/
theorem Returns.unique (h : Returns cfg w t pc l result) (h' : Returns cfg w t pc l result') :
    result = result' := by
  obtain ⟨fuel, h⟩ := h
  obtain ⟨fuel', h'⟩ := h'
  have heq := (execute_mono h (Nat.le_max_left fuel fuel')).symm.trans
    (execute_mono h' (Nat.le_max_right fuel fuel'))
  exact Option.some.inj heq

theorem Returns.here (outcome : Outcome) : Returns cfg w t (.returning outcome) l (outcome, l) :=
  ⟨1, rfl⟩

/-- The execution comes from one counter to another. -/
def Reaches (cfg : Config) (w : World) (t : TaskId) (pc : Pc) (l : Local) (pc' : Pc) (l' : Local) :
    Prop :=
  ∀ result, Returns cfg w t pc' l' result → Returns cfg w t pc l result

theorem Reaches.refl : Reaches cfg w t pc l pc l := fun _ h => h

theorem Reaches.trans {pc'' : Pc} {l'' : Local} (h : Reaches cfg w t pc l pc' l')
    (h' : Reaches cfg w t pc' l' pc'' l'') : Reaches cfg w t pc l pc'' l'' :=
  fun result hr => h result (h' result hr)

variable (pc) in
theorem Reaches.step {k : Local} (hpc : pc.outcome = none) {a : (program cfg pc).op.Answer}
    (h : answer w t l (program cfg pc).op = some (a, k)) :
    Reaches cfg w t pc l ((program cfg pc).next a) k := by
  rintro result ⟨fuel, hr⟩
  refine ⟨fuel + 1, ?_⟩
  rw [execute, hpc, h]
  exact hr

end Executing

/-! ## The model -/

/-- The worker of the engine in the slot has gone. -/
def State.WorkerGone (s : State) : Prop := ∃ e ∈ s.slot, (s.engines e).worker = .exited

instance (s : State) : Decidable s.WorkerGone := inferInstanceAs (Decidable (∃ e ∈ s.slot, _))

/-- `load_model` on the engine in the slot. -/
def World.loads (w : World) (s : State) : Except String Unit :=
  if s.WorkerGone then .error "inference worker channel closed" else w.load

/-- What `ensure_model_loaded` comes to, from the engine that it finds. -/
def World.ensures (w : World) (s : State) : Except String Unit :=
  match s.slot with
  | none =>
      match w.oracle.spawn with
      | .ok () => w.load
      | .error error => .error error
  | some e =>
      let model := ((s.engines e).model).getD "none"
      if model = "none" ∨ model = "unloaded" then w.loads s else .ok ()

/-- The model is in memory or can be loaded, and the mode does not refuse to. -/
def World.Available (w : World) (s : State) : Prop :=
  (s.mode = .manualPreload → s.modelState = .ready) ∧ w.ensures s = .ok ()

theorem State.WorkerGone.slot_isSome {s : State} (h : s.WorkerGone) : s.slot.isSome = true := by
  obtain ⟨e, he, _⟩ := h
  rw [Option.mem_def.mp he]
  rfl

theorem send_of_gone {s : State} (h : s.WorkerGone) (command : Command) :
    s.send command = some (.error "inference worker channel closed", s) := by
  obtain ⟨e, he, hworker⟩ := h
  rw [State.send, Option.mem_def.mp he]
  simp only [Engine.send, if_pos hworker]

/-- A command that is taken leaves the worker as it is. -/
theorem send_of_alive {s : State} (hslot : s.slot.isSome = true) (h : ¬ s.WorkerGone)
    (command : Command) :
    ∃ s', s.send command = some (.ok (), s') ∧ s'.slot = s.slot ∧
      ∀ e, (s'.engines e).worker = (s.engines e).worker := by
  obtain ⟨e, he⟩ := Option.isSome_iff_exists.mp hslot
  have hworker : (s.engines e).worker ≠ .exited := fun hgone => h ⟨e, he, hgone⟩
  refine ⟨{ s with engines := Function.update s.engines e ((s.engines e).enqueue command) },
    ?_, rfl, fun e' => ?_⟩
  · rw [State.send, he]
    simp only [Engine.send, if_neg hworker]
  · by_cases heq : e' = e
    · subst heq
      have heq := Function.update_self e' ((s.engines e').enqueue command) s.engines
      exact (congrArg Engine.worker heq).trans rfl
    · exact congrArg Engine.worker (Function.update_of_ne heq _ s.engines)

theorem workerGone_congr {s s' : State} (hslot : s'.slot = s.slot)
    (hworker : ∀ e, (s'.engines e).worker = (s.engines e).worker) :
    s'.WorkerGone ↔ s.WorkerGone := by
  simp only [State.WorkerGone, hslot, hworker]

/-- What a call keeps while the model is made available. -/
structure Local.Kept (l l' : Local) : Prop where
  responses : l'.responses = l.responses
  actions : l'.actions = l.actions

/-- The engine is there, with a worker as before. -/
def Local.Loaded (l l' : Local) : Prop :=
  l'.state.slot.isSome = true ∧ (l'.state.WorkerGone ↔ l.state.WorkerGone)

section Ensure

variable (cfg : Config) (w : World) (t : TaskId) (caller : EnsureCaller)

theorem reaches_fail (error : String) (l : Local) :
    ∃ l', Reaches cfg w t (.ensure caller (.fail error)) l (afterEnsure caller (.error error)) l' ∧
      l.Kept l' :=
  ⟨_, .step _ rfl rfl, rfl, rfl⟩

theorem reaches_unlock (l : Local) (h : l.state.slot.isSome = true) :
    ∃ l', Reaches cfg w t (.ensure caller .unlock) l (afterEnsure caller (.ok ())) l' ∧
      l.Kept l' ∧ l.Loaded l' := by
  refine ⟨{ l with state :=
    { l.state with lock := none, lastActivity := l.state.clock, modelState := .ready } }, ?_, ?_⟩
  · refine .trans (.step (.ensure caller .unlock) rfl rfl) ?_
    refine .trans (.step (.ensure caller .clock) rfl rfl) ?_
    refine .trans (.step (.ensure caller (.touch l.state.clock)) rfl rfl) ?_
    exact .step (.ensure caller .writeReady) rfl rfl
  · exact ⟨⟨rfl, rfl⟩, h, Iff.rfl⟩

/-- What `ensure_model_loaded` comes to from one of its counters. -/
def Local.EnsuresFrom (l : Local) (stage : EnsurePc) (result : Except String Unit) : Prop :=
  ∃ l', Reaches cfg w t (.ensure caller stage) l (afterEnsure caller result) l' ∧ l.Kept l' ∧
    (result = .ok () → l.Loaded l')

variable {cfg w t caller}

theorem Local.EnsuresFrom.of_reaches {l l₁ : Local} {stage stage₁ : EnsurePc}
    {result : Except String Unit} (h : l₁.EnsuresFrom cfg w t caller stage₁ result)
    (hreaches : Reaches cfg w t (.ensure caller stage) l (.ensure caller stage₁) l₁)
    (hkept : l.Kept l₁) (hgone : l₁.state.WorkerGone ↔ l.state.WorkerGone) :
    l.EnsuresFrom cfg w t caller stage result := by
  obtain ⟨l', hr, hk, hl⟩ := h
  refine ⟨l', hreaches.trans hr,
    ⟨hk.responses.trans hkept.responses, hk.actions.trans hkept.actions⟩,
    fun hok => ⟨(hl hok).1, (hl hok).2.trans hgone⟩⟩

theorem ensuresFrom_fail (error : String) (l : Local) :
    l.EnsuresFrom cfg w t caller (.fail error) (.error error) := by
  obtain ⟨l', hr, hk⟩ := reaches_fail cfg w t caller error l
  exact ⟨l', hr, hk, nofun⟩

theorem ensuresFrom_unlock (l : Local) (h : l.state.slot.isSome = true) :
    l.EnsuresFrom cfg w t caller .unlock (.ok ()) := by
  obtain ⟨l', hr, hk, hl⟩ := reaches_unlock cfg w t caller l h
  exact ⟨l', hr, hk, fun _ => hl⟩

theorem ensuresFrom_reply (l : Local) (h : l.state.slot.isSome = true) :
    l.EnsuresFrom cfg w t caller .reply w.load := by
  have hstep : Reaches cfg w t (.ensure caller .reply) l
      ((program cfg (.ensure caller .reply)).next w.load) l :=
    .step (.ensure caller .reply) rfl (a := w.load) rfl
  cases hload : w.load with
  | ok _ =>
      rw [hload] at hstep
      exact (ensuresFrom_unlock l h).of_reaches hstep ⟨rfl, rfl⟩ Iff.rfl
  | error error =>
      rw [hload] at hstep
      exact (ensuresFrom_fail error l).of_reaches hstep ⟨rfl, rfl⟩ Iff.rfl

theorem sendLoad_of_gone {l : Local} (h : l.state.WorkerGone) :
    ∃ s', answer w t l .sendLoad =
        some ((.error "inference worker channel closed" : Except String Unit),
        { l with state := s' }) ∧
      s'.WorkerGone :=
  have hgone : State.WorkerGone { l.state with reply := Function.update l.state.reply t none } := h
  ⟨_, congrArg (Option.map _) (send_of_gone hgone (.loadModel t)), hgone⟩

theorem sendLoad_of_alive {l : Local} (hslot : l.state.slot.isSome = true)
    (h : ¬ l.state.WorkerGone) :
    ∃ s', answer w t l .sendLoad = some ((.ok () : Except String Unit), { l with state := s' }) ∧
      s'.slot = l.state.slot ∧ (s'.WorkerGone ↔ l.state.WorkerGone) := by
  obtain ⟨s', hsend, hs', hworker⟩ := send_of_alive
    (s := { l.state with reply := Function.update l.state.reply t none }) hslot h (.loadModel t)
  exact ⟨s', congrArg (Option.map _) hsend, hs', workerGone_congr hs' hworker⟩

theorem ensuresFrom_load (l : Local) (h : l.state.slot.isSome = true) :
    l.EnsuresFrom cfg w t caller .load (w.loads l.state) := by
  unfold World.loads
  by_cases hgone : l.state.WorkerGone
  · rw [if_pos hgone]
    obtain ⟨s', hsend, hs'⟩ := sendLoad_of_gone (w := w) (t := t) hgone
    exact (ensuresFrom_fail _ _).of_reaches (.step (.ensure caller .load) rfl hsend) ⟨rfl, rfl⟩
      ⟨fun _ => hgone, fun _ => hs'⟩
  · rw [if_neg hgone]
    obtain ⟨s', hsend, hslot, hs'⟩ := sendLoad_of_alive (w := w) (t := t) h hgone
    exact (ensuresFrom_reply _ (hslot ▸ h)).of_reaches (.step (.ensure caller .load) rfl hsend)
      ⟨rfl, rfl⟩ hs'

variable (cfg w t caller) in
theorem ensuresFrom_status {l : Local} {e : EngineId} (he : l.state.slot = some e) :
    l.EnsuresFrom cfg w t caller .status
      (if ((l.state.engines e).model).getD "none" = "none" ∨
          ((l.state.engines e).model).getD "none" = "unloaded" then w.loads l.state
          else .ok ()) := by
  have hsome : l.state.slot.isSome = true := by rw [he]; rfl
  have hanswer : answer w t l .activeModel =
      some ((((l.state.engines e).model).getD "none" : String), l) := by
    simp only [answer, perform, he, Option.map_some]
    rfl
  have hstep : Reaches cfg w t (.ensure caller .status) l _ l :=
    .step (.ensure caller .status) rfl hanswer
  have hnext : (program cfg (.ensure caller .status)).next
    (((l.state.engines e).model).getD "none") =
      .ensure caller (if ((l.state.engines e).model).getD "none" = "none" ∨
        ((l.state.engines e).model).getD "none" = "unloaded" then .load else .unlock) := rfl
  rw [hnext] at hstep
  split_ifs with hmodel
  · rw [if_pos hmodel] at hstep
    exact (ensuresFrom_load l hsome).of_reaches hstep ⟨rfl, rfl⟩ Iff.rfl
  · rw [if_neg hmodel] at hstep
    exact (ensuresFrom_unlock l hsome).of_reaches hstep ⟨rfl, rfl⟩ Iff.rfl

theorem not_workerGone_of_none {s : State} (h : s.slot = none) : ¬ s.WorkerGone := by
  rintro ⟨e, he, _⟩
  rw [h] at he
  nomatch he

variable (cfg w t caller) in
/-- A new engine has no model and a worker that waits. -/
theorem ensuresFrom_create {l : Local} (h : l.state.slot = none) :
    l.EnsuresFrom cfg w t caller .create (w.ensures l.state) := by
  unfold World.ensures
  rw [h]
  cases hspawn : w.oracle.spawn with
  | error error =>
      have hcreate : answer w t l .createBackend =
          some ((.error error : Except String Unit), l) := by
        simp only [answer, perform, hspawn, Option.map_some]
        rfl
      exact (ensuresFrom_fail error l).of_reaches (.step (.ensure caller .create) rfl hcreate)
        ⟨rfl, rfl⟩ Iff.rfl
  | ok _ =>
      let s' : State := { l.state with
        engines := Function.update l.state.engines l.state.nextEngine .new
        slot := some l.state.nextEngine
        nextEngine := l.state.nextEngine + 1
        engineCreated := true }
      have hcreate : answer w t l .createBackend =
          some ((.ok () : Except String Unit), { l with state := s' }) := by
        simp only [answer, perform, hspawn, Option.map_some]
        rfl
      have hengine : s'.engines l.state.nextEngine = .new := Function.update_self ..
      have hnot : ¬ s'.WorkerGone := by
        rintro ⟨e, he, hexited⟩
        obtain rfl := Option.some.inj he
        rw [hengine] at hexited
        cases hexited
      have hstatus := ensuresFrom_status cfg w t caller
        (l := { l with state := s' }) (e := l.state.nextEngine) rfl
      rw [hengine, if_pos (.inl rfl), World.loads, if_neg hnot] at hstatus
      exact hstatus.of_reaches (.step (.ensure caller .create) rfl hcreate) ⟨rfl, rfl⟩
        (iff_of_false hnot (not_workerGone_of_none h))

variable (cfg w t caller) in
/-- **`ensure_model_loaded` by itself.** -/
theorem ensuresFrom_lock (l : Local) : l.EnsuresFrom cfg w t caller .lock (w.ensures l.state) := by
  have hstep : Reaches cfg w t (.ensure caller .lock) l
      (.ensure caller (if l.state.slot.isSome = true then .status else .writeLoading))
      { l with state := { l.state with lock := some t } } :=
    .step (.ensure caller .lock) rfl (a := l.state.slot.isSome) rfl
  cases he : l.state.slot with
  | some e =>
      unfold World.ensures
      rw [he]
      rw [he, Option.isSome_some, if_pos rfl] at hstep
      exact (ensuresFrom_status cfg w t caller (l :=
        { l with state := { l.state with lock := some t } }) he).of_reaches
        hstep ⟨rfl, rfl⟩ Iff.rfl
  | none =>
      rw [he, Option.isSome_none, if_neg Bool.false_ne_true] at hstep
      have hcreate := ensuresFrom_create cfg w t caller
        (l := { l with state := { l.state with lock := some t, modelState := .loading } }) he
      exact hcreate.of_reaches (hstep.trans (.step (.ensure caller .writeLoading) rfl rfl))
        ⟨rfl, rfl⟩ Iff.rfl

end Ensure

/-! ## The prompt -/

/-- The prompt that the model gets. -/
def World.prompt (w : World) (req : GenerateRequest) : String :=
  if req.contextId = "active" then enrichPromptWithContext req.prompt w.oracle.context
    else req.prompt

/-- What the model makes of a request. -/
def World.made (w : World) (req : GenerateRequest) : Generation :=
  w.generation (w.prompt req) req.maxTokens.toNat

theorem isBlank_append (s s' : String) :
    Text.isBlank (s ++ s') = (Text.isBlank s && Text.isBlank s') := by
  rw [Text.isBlank, String.toList_append, List.all_append]
  rfl

/-- The enriched prompt of a valid request is not blank, nor is its budget zero. -/
theorem World.prompt_of_valid (w : World) {req : GenerateRequest}
    (h : validateRequest req = .ok ()) :
    Text.isBlank (w.prompt req) = false ∧ req.maxTokens.toNat ≠ 0 := by
  unfold validateRequest at h
  by_cases hblank : Text.isBlank req.prompt = true
  · rw [if_pos hblank] at h
    nomatch h
  rw [if_neg hblank] at h
  by_cases hlong : req.prompt.utf8ByteSize > 32000
  · rw [if_pos hlong] at h
    nomatch h
  rw [if_neg hlong] at h
  by_cases hmax : req.maxTokens ≤ 0 ∨ req.maxTokens > 4096
  · rw [if_pos hmax] at h
    nomatch h
  refine ⟨?_, by omega⟩
  rw [Bool.not_eq_true] at hblank
  unfold World.prompt enrichPromptWithContext
  split
  · split
    · exact hblank
    · simp only [isBlank_append, hblank, Bool.and_false, Bool.false_and]
  · exact hblank

theorem sendGenerate_of_gone {s : State} (h : s.WorkerGone) (t : TaskId) (prompt : String)
    (maxTokens : ℕ) : ∃ error, s.sendGenerate t prompt maxTokens = some (.error error, s) := by
  unfold State.sendGenerate
  split_ifs
  · exact ⟨_, rfl⟩
  · exact ⟨_, rfl⟩
  · rw [send_of_gone h]
    exact ⟨_, rfl⟩

theorem sendGenerate_of_alive {s : State} (hslot : s.slot.isSome = true) (h : ¬ s.WorkerGone)
    (t : TaskId) {prompt : String} {maxTokens : ℕ} (hblank : Text.isBlank prompt = false)
    (hzero : maxTokens ≠ 0) : ∃ s', s.sendGenerate t prompt maxTokens = some (.ok (), s') := by
  obtain ⟨s', hsend, _⟩ := send_of_alive hslot h (.generate ⟨t, prompt, maxTokens⟩)
  unfold State.sendGenerate
  rw [if_neg (by rw [hblank]; exact Bool.false_ne_true), if_neg hzero, hsend]
  exact ⟨_, rfl⟩

/-! ## What `generate` returns -/

/-- The client's result of a response that is no error. -/
def result : Except Status AiResponse → Option AiResponse
  | .ok response => if response.error = none then some response else none
  | .error _ => none

/-- The text and the count of a `Generate`; nothing when it ends in an error. -/
def generateResult : Outcome → Option (String × ℕ)
  | .generated response => (result response).map fun response =>
      (response.text, response.tokensUsed)
  | _ => none

section Generate

variable {cfg : Config} {w : World} {t : TaskId} {l : Local} {req : GenerateRequest}

/-- The call ends with this result and these actions. -/
def Local.Generates (cfg : Config) (w : World) (t : TaskId) (l : Local) (pc : Pc)
    (value : Option (String × ℕ)) (actions : List ToolRequest) : Prop :=
  ∃ outcome l', Returns cfg w t pc l (outcome, l') ∧ generateResult outcome = value ∧
    l'.actions = l.actions ++ actions

theorem Local.Generates.of_reaches {pc pc' : Pc} {k : Local} {value : Option (String × ℕ)}
    {actions : List ToolRequest} (h : k.Generates cfg w t pc' value actions)
    (hreaches : Reaches cfg w t pc l pc' k) (hactions : k.actions = l.actions) :
    l.Generates cfg w t pc value actions := by
  obtain ⟨outcome, l'', hr, hvalue, hl''⟩ := h
  exact ⟨outcome, l'', hreaches _ hr, hvalue, hl''.trans (by rw [hactions])⟩

theorem generates_error (status : Status) :
    l.Generates cfg w t (.returning (.generated (.error status))) none [] :=
  ⟨_, l, .here _, rfl, (List.append_nil _).symm⟩

variable (cfg w t req) in
theorem generates_clock (response : AiResponse) :
    l.Generates cfg w t (.generate req (.clock response))
      (generateResult (.generated (.ok response))) [] := by
  have hreaches : Reaches cfg w t (.generate req (.clock response)) l
      (.returning (.generated (.ok response)))
      { l with state := { l.state with lastActivity := l.state.clock } } :=
    .trans (.step (.generate req (.clock response)) rfl rfl)
      (.step (.generate req (.touch response l.state.clock)) rfl rfl)
  exact Local.Generates.of_reaches ⟨_, _, .here _, rfl, (List.append_nil _).symm⟩ hreaches rfl

variable (cfg w t req) in
/-- What becomes of a complete text. -/
theorem generates_afterCollect (text : String) (count : ℕ) :
    match toolRequest cfg.parseToolRequest text with
    | none => l.Generates cfg w t (afterCollect cfg req text count) (some (text, count)) []
    | some tool => ∃ value actions,
        l.Generates cfg w t (afterCollect cfg req text count) value actions ∧
          (value = none ∨ actions = [tool]) := by
  unfold afterCollect
  cases htool : toolRequest cfg.parseToolRequest text with
  | none => exact generates_clock cfg w t req _
  | some tool =>
      have hreaches : Reaches cfg w t (.generate req (.dispatch tool text count)) l
          (.generate req (.clock ⟨(toolResult text w.oracle.action).1, true, count,
            (toolResult text w.oracle.action).2⟩))
          { l with actions := l.actions ++ sentAction w.oracle.action tool } :=
        .step (.generate req (.dispatch tool text count)) rfl rfl
      obtain ⟨outcome, l', hr, hvalue, hl'⟩ := generates_clock cfg w t req
        (l := { l with actions := l.actions ++ sentAction w.oracle.action tool })
        ⟨(toolResult text w.oracle.action).1, true, count, (toolResult text w.oracle.action).2⟩
      refine ⟨_, sentAction w.oracle.action tool, ⟨outcome, l', hreaches _ hr, hvalue, ?_⟩, ?_⟩
      · rw [hl', List.append_nil]
      · cases w.oracle.action with
        | unreachable => exact .inl rfl
        | failed error => exact .inl rfl
        | replied message success => exact .inr rfl

variable (cfg w t req) in
theorem reaches_collect (texts : List String) (rest : List Item) (text : String) (count : ℕ)
    (hpending : l.pending = pieces texts ++ rest) :
    Reaches cfg w t (.generate req (.collect text count)) l
      (.generate req (.collect (texts.foldl (· ++ ·) text) (count + texts.length)))
      { l with pending := rest } := by
  induction texts generalizing l text count with
  | nil =>
      obtain rfl : l.pending = rest := hpending
      exact .refl
  | cons head texts ih =>
      have hstep : Reaches cfg w t (.generate req (.collect text count)) l
          (.generate req (.collect (text ++ head) (count + 1)))
          { l with pending := pieces texts ++ rest } :=
        .step (.generate req (.collect text count)) rfl
          (a := some (.ok ⟨head, false⟩)) (by simp only [program, generate, answer, hpending]; rfl)
      have hrest :=
        ih (l := { l with pending := pieces texts ++ rest }) (text ++ head) (count + 1) rfl
      rw [Nat.add_right_comm] at hrest
      exact hstep.trans hrest

theorem reaches_of_closed (text : String) (count : ℕ) (hpending : l.pending = []) :
    Reaches cfg w t (.generate req (.collect text count)) l (afterCollect cfg req text count) l :=
  .step (.generate req (.collect text count)) rfl (a := none)
    (by simp only [program, generate, answer, hpending])

variable (cfg w t req) in
/-- A generation that does not fail is collected. -/
theorem reaches_afterCollect {g : Generation} (hpending : l.pending = g.items) (h : ¬ g.Fails) :
    ∃ l', Reaches cfg w t (.generate req (.collect "" 0)) l
        (afterCollect cfg req (concat g.texts) g.texts.length) l' ∧ l'.actions = l.actions := by
  have hcollect := reaches_collect cfg w t req g.texts _ "" 0 hpending
  rw [Nat.zero_add] at hcollect
  refine ⟨{ l with pending := [] }, hcollect.trans ?_, rfl⟩
  match hending : g.ending with
  | none => exact reaches_of_closed (l := { l with pending := [] }) _ _ rfl
  | some (.ok ()) =>
      refine .trans (.step (.generate req (.collect _ _)) rfl (a := some finished)
        (k := { l with pending := [] }) rfl) ?_
      exact reaches_of_closed (l := { l with pending := [] }) _ _ rfl
  | some (.error error) => exact absurd ⟨error, hending⟩ h

theorem generates_of_fails {g : Generation} (hpending : l.pending = g.items) (h : g.Fails) :
    l.Generates cfg w t (.generate req (.collect "" 0)) none [] := by
  obtain ⟨error, hending⟩ := h
  have hcollect := reaches_collect cfg w t req g.texts _ "" 0 hpending
  rw [hending] at hcollect
  refine (generates_error (generationError error)).of_reaches (hcollect.trans
    (.step (.generate req (.collect _ _)) rfl (a := some (.error error))
      (k := { l with pending := [] }) rfl)) rfl

variable (cfg w t req) in
theorem reaches_send (hslot : l.state.slot.isSome = true) (prompt : String) :
    Reaches cfg w t (.generate req (.lock prompt)) l (.generate req (.send prompt))
      { l with state := { l.state with lock := some t } } := by
  have hstep : Reaches cfg w t (.generate req (.lock prompt)) l
      ((program cfg (.generate req (.lock prompt))).next l.state.slot.isSome)
      { l with state := { l.state with lock := some t } } :=
    .step (.generate req (.lock prompt)) rfl (a := l.state.slot.isSome) rfl
  rw [hslot] at hstep
  exact hstep

theorem generates_of_gone (h : l.state.WorkerGone) (prompt : String) :
    l.Generates cfg w t (.generate req (.lock prompt)) none [] := by
  have hlock := reaches_send cfg w t req h.slot_isSome prompt
  have hgone : State.WorkerGone { l.state with lock := some t } := h
  obtain ⟨error, hsend⟩ := sendGenerate_of_gone hgone t prompt req.maxTokens.toNat
  refine (generates_error ⟨.internal, error⟩).of_reaches (hlock.trans (.trans
    (.step (.generate req (.send prompt)) rfl (a := .error error)
      (congrArg (Option.map _) hsend)) (.step (.generate req (.refuse _)) rfl rfl))) rfl

variable (cfg w t req) in
/-- The engine takes the command. -/
theorem reaches_collecting (hslot : l.state.slot.isSome = true) (h : ¬ l.state.WorkerGone)
    {prompt : String} (hblank : Text.isBlank prompt = false) (hzero : req.maxTokens.toNat ≠ 0) :
    ∃ l', Reaches cfg w t (.generate req (.lock prompt)) l (.generate req (.collect "" 0)) l' ∧
      l'.pending = (w.generation prompt req.maxTokens.toNat).items ∧ l.Kept l' := by
  have hlock := reaches_send cfg w t req hslot prompt
  have hgone : ¬ State.WorkerGone { l.state with lock := some t } := h
  obtain ⟨s', hsend⟩ := sendGenerate_of_alive (s := { l.state with lock := some t }) hslot hgone t
    hblank hzero
  refine ⟨{ l with state := { s' with lock := none }, pending := _ }, hlock.trans (.trans
    (.step (.generate req (.send prompt)) rfl (a := .ok ()) (congrArg (Option.map _) hsend))
    (.step (.generate req .unlock) rfl rfl)), rfl, rfl, rfl⟩

end Generate

/-! ### From the start -/

section GenerateStart

variable {cfg : Config} {w : World} {t : TaskId} {l : Local} {req : GenerateRequest}

theorem start_generate (h : validateRequest req = .ok ()) :
    (Call.generate req).start = .generate req .checkMode := by
  simp only [Call.start, h]

theorem generates_of_invalid {status : Status} (h : validateRequest req = .error status) :
    l.Generates cfg w t (Call.generate req).start none [] := by
  simp only [Call.start, h]
  exact generates_error status

/-- The mode is checked, then the state if need be. -/
theorem reaches_generateEnsure (h : l.state.mode = .manualPreload → l.state.modelState = .ready) :
    Reaches cfg w t (.generate req .checkMode) l (.ensure (.generate req) .lock) l := by
  have hmode : Reaches cfg w t (.generate req .checkMode) l
      (if l.state.mode = .manualPreload then .generate req .checkState
        else .ensure (.generate req) .lock) l :=
    .step (.generate req .checkMode) rfl (a := l.state.mode) rfl
  by_cases hmanual : l.state.mode = .manualPreload
  · rw [if_pos hmanual] at hmode
    have hstate : Reaches cfg w t (.generate req .checkState) l
        (if l.state.modelState = .ready then .ensure (.generate req) .lock
          else .returning (.generated (.error notLoaded))) l :=
      .step (.generate req .checkState) rfl (a := l.state.modelState) rfl
    rw [if_pos (h hmanual)] at hstate
    exact hmode.trans hstate
  · rw [if_neg hmanual] at hmode
    exact hmode

variable (cfg t req) in
theorem generates_of_unavailable (h : ¬ w.Available l.state) :
    l.Generates cfg w t (.generate req .checkMode) none [] := by
  by_cases hmode : l.state.mode = .manualPreload → l.state.modelState = .ready
  · obtain ⟨l', hr, hk, -⟩ := ensuresFrom_lock cfg w t (.generate req) l
    cases hensures : w.ensures l.state with
    | ok _ => exact absurd ⟨hmode, hensures⟩ h
    | error error =>
        rw [hensures] at hr
        exact (generates_error _).of_reaches ((reaches_generateEnsure hmode).trans hr) hk.actions
  · obtain ⟨hmanual, hstate⟩ := Classical.not_imp.mp hmode
    refine (generates_error notLoaded).of_reaches (k := l) (.trans
      (.step (.generate req .checkMode) rfl (a := l.state.mode) rfl) ?_) rfl
    have hnext : (program cfg (.generate req .checkMode)).next l.state.mode =
        .generate req .checkState :=
      if_pos hmanual
    have hlast : (program cfg (.generate req .checkState)).next l.state.modelState =
        .returning (.generated (.error notLoaded)) := if_neg hstate
    rw [hnext, ← hlast]
    exact .step (.generate req .checkState) rfl (a := l.state.modelState) rfl

variable (cfg t req) in
/-- An available model is loaded. -/
theorem reaches_generateLoaded (h : w.Available l.state) :
    ∃ l', Reaches cfg w t (.generate req .checkMode) l (generateLoaded req) l' ∧ l.Kept l' ∧
      l.Loaded l' := by
  obtain ⟨l', hr, hk, hl⟩ := ensuresFrom_lock cfg w t (.generate req) l
  rw [h.2] at hr
  exact ⟨l', (reaches_generateEnsure h.1).trans hr, hk, hl h.2⟩

theorem reaches_generateLock (hquick : isQuickAction req.prompt = false) :
    Reaches cfg w t (generateLoaded req) l (.generate req (.lock (w.prompt req))) l := by
  unfold generateLoaded World.prompt
  rw [hquick, if_neg Bool.false_ne_true]
  split_ifs
  · exact .step (.generate req .enrich) rfl (a := w.oracle.context) rfl
  · exact .refl

variable (cfg t req) in
/-- A quick action of a request whose model is available. -/
theorem generates_of_quick (hquick : isQuickAction req.prompt = true) (h : w.Available l.state) :
    l.Generates cfg w t (.generate req .checkMode) (some (quickActionText w.oracle.action, 0))
      (sentAction w.oracle.action quickActionRequest) := by
  obtain ⟨l', hr, hk, -⟩ := reaches_generateLoaded cfg t req h
  have hloaded : generateLoaded req = .generate req .quickAction := by
    rw [generateLoaded, if_pos hquick]
  rw [hloaded] at hr
  have hquick : Reaches cfg w t (.generate req .quickAction) l'
      (.returning (.generated (.ok ⟨quickActionText w.oracle.action, true, 0, none⟩)))
      { l' with actions := l'.actions ++ sentAction w.oracle.action quickActionRequest } :=
    .step (.generate req .quickAction) rfl (a := w.oracle.action) rfl
  exact Local.Generates.of_reaches ⟨_, _, hquick _ (.here _), rfl, rfl⟩ hr hk.actions

variable (cfg t) in
/-- The text of an available model, or what the action manager makes of it. -/
theorem generates_of_text (hvalid : validateRequest req = .ok ())
    (hquick : isQuickAction req.prompt = false) (h : w.Available l.state)
    (hgone : ¬ l.state.WorkerGone)
    (hfails : ¬ (w.made req).Fails) :
    match toolRequest cfg.parseToolRequest (concat (w.made req).texts) with
    | none =>
        l.Generates cfg w t (.generate req .checkMode)
          (some (concat (w.made req).texts, (w.made req).texts.length)) []
    | some tool => ∃ value actions,
        l.Generates cfg w t (.generate req .checkMode) value actions ∧
          (value = none ∨ actions = [tool]) := by
  obtain ⟨l₁, hr₁, hk₁, hl₁⟩ := reaches_generateLoaded cfg t req h
  obtain ⟨hblank, hzero⟩ := w.prompt_of_valid hvalid
  obtain ⟨l₂, hr₂, hpending, hk₂⟩ := reaches_collecting cfg w t req
    hl₁.1 (fun hg => hgone (hl₁.2.mp hg)) hblank hzero
  obtain ⟨l₃, hr₃, hactions₃⟩ := reaches_afterCollect cfg w t req
    hpending hfails
  have hr := (hr₁.trans (reaches_generateLock hquick)).trans (hr₂.trans hr₃)
  have hactions : l₃.actions = l.actions := hactions₃.trans (hk₂.actions.trans hk₁.actions)
  have hcollected := generates_afterCollect cfg w t req (l := l₃)
    (concat (w.made req).texts) (w.made req).texts.length
  generalize toolRequest cfg.parseToolRequest (concat (w.made req).texts) = tool at hcollected ⊢
  cases tool with
  | none => exact hcollected.of_reaches hr hactions
  | some tool =>
      obtain ⟨value, actions, hg, hor⟩ := hcollected
      exact ⟨value, actions, hg.of_reaches hr hactions, hor⟩

variable (cfg t) in
theorem generates_of_no_text (hvalid : validateRequest req = .ok ())
    (hquick : isQuickAction req.prompt = false) (h : w.Available l.state)
    (hnot : l.state.WorkerGone ∨ (w.made req).Fails) :
    l.Generates cfg w t (.generate req .checkMode) none [] := by
  obtain ⟨l₁, hr₁, hk₁, hl₁⟩ := reaches_generateLoaded cfg t req h
  replace hr₁ := hr₁.trans (reaches_generateLock hquick)
  by_cases hgone : l.state.WorkerGone
  · exact (generates_of_gone (hl₁.2.mpr hgone) _).of_reaches hr₁ hk₁.actions
  · obtain ⟨hblank, hzero⟩ := w.prompt_of_valid hvalid
    obtain ⟨l₂, hr₂, hpending, hk₂⟩ := reaches_collecting cfg w t req
      hl₁.1 (fun hg => hgone (hl₁.2.mp hg)) hblank hzero
    exact (generates_of_fails hpending (hnot.resolve_left hgone)).of_reaches (hr₁.trans hr₂)
      (hk₂.actions.trans hk₁.actions)

end GenerateStart

/-! ## What `stream_generate` streams -/

/-- The texts of a stream put together and its last count; nothing when it ends in an error. -/
def streamResult (outcome : Outcome) (responses : List (Except Status AiResponse)) :
    Option (String × ℕ) :=
  match outcome with
  | .streamEnded =>
      (responses.mapM result).map fun responses =>
        (concat (responses.map AiResponse.text),
          (responses.getLast?.map AiResponse.tokensUsed).getD 0)
  | _ => none

theorem streamResult_append {responses : List (Except Status AiResponse)}
    {text : String} {count : ℕ}
    (h : streamResult .streamEnded responses = some (text, count)) (more : String)
    (isFinished : Bool)
    (tokensUsed : ℕ) :
    streamResult .streamEnded (responses ++ [.ok ⟨more, isFinished, tokensUsed, none⟩]) =
      some (text ++ more, tokensUsed) := by
  simp only [streamResult, List.mapM_append] at h ⊢
  cases hmap : responses.mapM result with
  | none =>
      rw [hmap] at h
      nomatch h
  | some parts =>
      rw [hmap, Option.map_some, Option.some.injEq, Prod.mk.injEq] at h
      simp [result, List.map_append, h.1]

/-- The pieces of a text, put together and counted. -/
theorem streamResult_pieces (texts : List String) :
    streamResult .streamEnded (pieceResponses texts) = some (concat texts, texts.length) := by
  induction texts using List.reverseRecOn with
  | nil => rfl
  | append_singleton texts text ih =>
      rw [pieceResponses_append, streamResult_append ih, concat_append, List.length_append,
        List.length_singleton]

theorem streamResult_finished (texts : List String) :
    streamResult .streamEnded (pieceResponses texts ++ [.ok ⟨"", true, texts.length, none⟩]) =
      some (concat texts, texts.length) := by
  rw [streamResult_append (streamResult_pieces texts), String.append_empty]

/-- One error spoils the stream. -/
theorem streamResult_error (responses : List (Except Status AiResponse)) (status : Status) :
    streamResult .streamEnded (responses ++ [.error status]) = none := by
  simp only [streamResult, List.mapM_append]
  cases responses.mapM result <;> rfl

section Stream

variable {cfg : Config} {w : World} {t : TaskId} {l : Local} {req : GenerateRequest}

/-- The call ends with this result and these actions. -/
def Local.Streams (cfg : Config) (w : World) (t : TaskId) (l : Local) (pc : Pc)
    (value : Option (String × ℕ)) (actions : List ToolRequest) : Prop :=
  ∃ outcome l', Returns cfg w t pc l (outcome, l') ∧ streamResult outcome l'.responses = value ∧
    l'.actions = l.actions ++ actions

theorem Local.Streams.of_reaches {pc pc' : Pc} {k : Local} {value : Option (String × ℕ)}
    {actions : List ToolRequest} (h : k.Streams cfg w t pc' value actions)
    (hreaches : Reaches cfg w t pc l pc' k) (hactions : k.actions = l.actions) :
    l.Streams cfg w t pc value actions := by
  obtain ⟨outcome, l'', hr, hvalue, hl''⟩ := h
  exact ⟨outcome, l'', hreaches _ hr, hvalue, hl''.trans (by rw [hactions])⟩

variable (cfg w t) in
theorem streams_ended : l.Streams cfg w t (.returning .streamEnded)
    (streamResult .streamEnded l.responses) [] :=
  ⟨_, l, .here _, rfl, (List.append_nil _).symm⟩

theorem streams_refused (status : Status) :
    l.Streams cfg w t (.returning (.streamRefused status)) none [] :=
  ⟨_, l, .here _, rfl, (List.append_nil _).symm⟩

variable (cfg w t) in
theorem streams_clock :
    l.Streams cfg w t (.serve .clock) (streamResult .streamEnded l.responses) [] := by
  have hreaches : Reaches cfg w t (.serve .clock) l (.returning .streamEnded)
      { l with state := { l.state with lastActivity := l.state.clock } } :=
    .trans (.step (.serve .clock) rfl rfl) (.step (.serve (.touch l.state.clock)) rfl rfl)
  have hstream := streams_ended cfg w t
    (l := { l with state := { l.state with lastActivity := l.state.clock } })
  exact hstream.of_reaches hreaches rfl

theorem streams_fail (status : Status) : l.Streams cfg w t (.serve (.fail status)) none [] := by
  have hstream := streams_ended cfg w t
    (l := { l with responses := l.responses ++ [.error status] })
  rw [streamResult_error] at hstream
  exact hstream.of_reaches (.step (.serve (.fail status)) rfl (a := true) rfl) rfl

variable (cfg w t) in
theorem reaches_receive (texts : List String) (rest : List Item) (seen : List String)
    (hpending : l.pending = pieces texts ++ rest) (hresponses : l.responses = pieceResponses seen) :
    Reaches cfg w t (.serve (.receive seen.length)) l
      (.serve (.receive (seen ++ texts).length))
      { l with pending := rest, responses := pieceResponses (seen ++ texts) } := by
  induction texts generalizing l seen with
  | nil =>
      obtain rfl : l.pending = rest := hpending
      rw [List.append_nil, ← hresponses]
      exact .refl
  | cons head texts ih =>
      have hreceive : Reaches cfg w t (.serve (.receive seen.length)) l
          (.serve (.forward ⟨head, false⟩ (seen.length + 1))) { l with
            pending := pieces texts ++ rest } :=
        .step (.serve (.receive seen.length)) rfl (a := some (.ok ⟨head, false⟩))
          (by simp only [program, serveStream, answer, hpending]; rfl)
      have hforward : Reaches cfg w t (.serve (.forward ⟨head, false⟩ (seen.length + 1)))
          { l with pending := pieces texts ++ rest } (.serve (.receive (seen.length + 1)))
          { l with
            pending := pieces texts ++ rest
            responses := l.responses ++ [.ok ⟨head, false, seen.length + 1, none⟩] } :=
        .step (.serve (.forward ⟨head, false⟩ (seen.length + 1))) rfl (a := true) rfl
      have hrest := ih (l := { l with
        pending := pieces texts ++ rest
        responses := l.responses ++ [.ok ⟨head, false, seen.length + 1, none⟩] })
          (seen ++ [head]) rfl
        (by rw [pieceResponses_append, ← hresponses])
      rw [List.append_assoc, List.singleton_append, @List.length_append _ seen,
        List.length_singleton] at hrest
      exact hreceive.trans (hforward.trans hrest)

variable (cfg w t) in
theorem streams_receive {g : Generation} (hpending : l.pending = g.items)
    (hresponses : l.responses = []) :
    l.Streams cfg w t (.serve (.receive 0))
      (if g.Fails then none else some (concat g.texts, g.texts.length)) [] := by
  have hreceive := reaches_receive cfg w t g.texts _ [] hpending hresponses
  simp only [List.nil_append, List.length_nil] at hreceive
  match hending : g.ending with
  | none =>
      rw [if_neg (by rintro ⟨error, h⟩; rw [hending] at h; nomatch h), ← streamResult_pieces]
      rw [hending] at hreceive
      have hstream := streams_clock cfg w t
        (l := { l with pending := [], responses := pieceResponses g.texts })
      exact hstream.of_reaches (hreceive.trans
        (.step (.serve (.receive _)) rfl (a := none) rfl)) rfl
  | some (.ok ()) =>
      rw [if_neg (by rintro ⟨error, h⟩; rw [hending] at h; nomatch h), ← streamResult_finished]
      rw [hending] at hreceive
      have hstream := streams_clock cfg w t
        (l := { l with
          pending := []
          responses := pieceResponses g.texts ++ [.ok ⟨"", true, g.texts.length, none⟩] })
      exact hstream.of_reaches (hreceive.trans (.trans
        (.step (.serve (.receive _)) rfl (a := some finished)
          (k := { l with pending := [], responses := pieceResponses g.texts }) rfl)
        (.step (.serve (.forward ⟨"", true⟩ _)) rfl (a := true) rfl))) rfl
  | some (.error error) =>
      rw [if_pos ⟨error, hending⟩,
        ← streamResult_error (pieceResponses g.texts) (generationError error)]
      rw [hending] at hreceive
      have hstream := streams_clock cfg w t
        (l := { l with
          pending := []
          responses := pieceResponses g.texts ++ [.error (generationError error)] })
      exact hstream.of_reaches (hreceive.trans (.trans
        (.step (.serve (.receive _)) rfl (a := some (.error error))
          (k := { l with pending := [], responses := pieceResponses g.texts }) rfl)
        (.step (.serve (.forwardError _)) rfl (a := true) rfl))) rfl

variable (cfg w t) in
theorem reaches_serveSend (hslot : l.state.slot.isSome = true) (prompt : String) (maxTokens : ℕ) :
    Reaches cfg w t (.serve (.lock prompt maxTokens)) l (.serve (.send prompt maxTokens))
      { l with state := { l.state with lock := some t } } := by
  have hstep : Reaches cfg w t (.serve (.lock prompt maxTokens)) l
      ((program cfg (.serve (.lock prompt maxTokens))).next l.state.slot.isSome)
      { l with state := { l.state with lock := some t } } :=
    .step (.serve (.lock prompt maxTokens)) rfl (a := l.state.slot.isSome) rfl
  rw [hslot] at hstep
  exact hstep

theorem streams_of_gone (h : l.state.WorkerGone) (prompt : String) (maxTokens : ℕ) :
    l.Streams cfg w t (.serve (.lock prompt maxTokens)) none [] := by
  have hlock := reaches_serveSend cfg w t h.slot_isSome prompt maxTokens
  have hgone : State.WorkerGone { l.state with lock := some t } := h
  obtain ⟨error, hsend⟩ := sendGenerate_of_gone hgone t prompt maxTokens
  have hstream := streams_ended cfg w t
    (l := { l with
      state := { l.state with lock := none }
      pending := (w.generation prompt maxTokens).items
      responses := l.responses ++ [.error ⟨.internal, error⟩] })
  rw [streamResult_error] at hstream
  refine hstream.of_reaches (hlock.trans (.trans
    (.step (.serve (.send prompt maxTokens)) rfl (a := .error error)
      (congrArg (Option.map _) hsend)) (.trans
    (.step (.serve (.refuse _)) rfl (a := true) rfl)
    (.step (.serve .refused) rfl rfl)))) rfl

variable (cfg w t) in
/-- The engine takes the command. -/
theorem reaches_receiving (hslot : l.state.slot.isSome = true) (h : ¬ l.state.WorkerGone)
    {prompt : String} {maxTokens : ℕ} (hblank : Text.isBlank prompt = false)
    (hzero : maxTokens ≠ 0) :
    ∃ l', Reaches cfg w t (.serve (.lock prompt maxTokens)) l (.serve (.receive 0)) l' ∧
      l'.pending = (w.generation prompt maxTokens).items ∧ l.Kept l' := by
  have hlock := reaches_serveSend cfg w t hslot prompt maxTokens
  have hgone : ¬ State.WorkerGone { l.state with lock := some t } := h
  obtain ⟨s', hsend⟩ := sendGenerate_of_alive (s := { l.state with lock := some t }) hslot hgone t
    hblank hzero
  refine ⟨{ l with state := { s' with lock := none }, pending := _ }, hlock.trans (.trans
    (.step (.serve (.send prompt maxTokens)) rfl (a := .ok ()) (congrArg (Option.map _) hsend))
    (.step (.serve .unlock) rfl rfl)), rfl, rfl, rfl⟩

end Stream

/-! ### From the start -/

section StreamStart

variable {cfg : Config} {w : World} {t : TaskId} {l : Local} {req : GenerateRequest}

theorem streams_of_invalid {status : Status} (h : validateRequest req = .error status) :
    l.Streams cfg w t (Call.streamGenerate req).start none [] := by
  simp only [Call.start, h]
  exact streams_refused status

theorem start_streamGenerate (h : validateRequest req = .ok ()) :
    (Call.streamGenerate req).start =
      .stream req (if isQuickAction req.prompt = true then .quickAction else .checkMode) := by
  simp only [Call.start, h]

variable (cfg w t req) in
/-- A quick action touches neither the mode nor the model. -/
theorem streams_of_quick (hresponses : l.responses = []) :
    l.Streams cfg w t (.stream req .quickAction) (some (quickActionText w.oracle.action, 0))
      (sentAction w.oracle.action quickActionRequest) := by
  have hreaches : Reaches cfg w t (.stream req .quickAction) l (.returning .streamEnded)
      { l with
        state := { l.state with
          responses := Function.update l.state.responses t (.fresh 32 (by decide)) }
        responses := l.responses ++ [.ok ⟨quickActionText w.oracle.action, true, 0, none⟩]
        actions := l.actions ++ sentAction w.oracle.action quickActionRequest } :=
    .trans (.step (.stream req .quickAction) rfl (a := w.oracle.action) rfl) (.trans
      (.step (.stream req (.openQuick (quickActionText w.oracle.action))) rfl rfl)
      (.step (.serve (.quickReply (quickActionText w.oracle.action))) rfl (a := true) rfl))
  refine ⟨_, _, hreaches _ (.here _), ?_, rfl⟩
  rw [hresponses, List.nil_append]
  exact congrArg (fun text => some (text, 0)) String.empty_append

/-- The counter of `stream_generate` once the mode allows a load. -/
def streamPrompt (req : GenerateRequest) : Pc :=
  .stream req (if req.contextId = "active" then .enrich else .accept req.prompt)

theorem reaches_streamPrompt (h : l.state.mode = .manualPreload → l.state.modelState = .ready) :
    Reaches cfg w t (.stream req .checkMode) l (streamPrompt req) l := by
  have hmode : Reaches cfg w t (.stream req .checkMode) l
      (.stream req (if l.state.mode = .manualPreload then .checkState
        else if req.contextId = "active" then .enrich
        else .accept req.prompt)) l :=
    .step (.stream req .checkMode) rfl (a := l.state.mode) rfl
  by_cases hmanual : l.state.mode = .manualPreload
  · rw [if_pos hmanual] at hmode
    have hstate : Reaches cfg w t (.stream req .checkState) l
        (if l.state.modelState ≠ .ready then .returning (.streamRefused notLoaded)
          else streamPrompt req) l :=
      .step (.stream req .checkState) rfl (a := l.state.modelState) rfl
    rw [if_neg (not_not.mpr (h hmanual))] at hstate
    exact hmode.trans hstate
  · rw [if_neg hmanual] at hmode
    exact hmode

variable (cfg w t req) in
/-- The stream is opened, then the model is made available. -/
theorem reaches_streamEnsure :
    ∃ l', Reaches cfg w t (streamPrompt req) l
        (.ensure (.stream (w.prompt req) req.maxTokens.toNat) .lock) l' ∧ l.Kept l' ∧
      w.ensures l'.state = w.ensures l.state ∧ (l'.state.WorkerGone ↔ l.state.WorkerGone) := by
  refine ⟨{ l with state := { l.state with
    responses := Function.update l.state.responses t (.fresh 64 (by decide)) } }, ?_, ⟨rfl, rfl⟩,
      rfl, Iff.rfl⟩
  have haccept : Reaches cfg w t (streamPrompt req) l (.stream req (.accept (w.prompt req))) l := by
    unfold streamPrompt World.prompt
    split_ifs
    · exact .step (.stream req .enrich) rfl (a := w.oracle.context) rfl
    · exact .refl
  exact haccept.trans (.step (.stream req (.accept (w.prompt req))) rfl rfl)

variable (cfg t req) in
theorem streams_of_unavailable (h : ¬ w.Available l.state) :
    l.Streams cfg w t (.stream req .checkMode) none [] := by
  by_cases hmode : l.state.mode = .manualPreload → l.state.modelState = .ready
  · obtain ⟨l₁, hr₁, hk₁, hensures₁, -⟩ := reaches_streamEnsure cfg w t req (l := l)
    obtain ⟨l₂, hr₂, hk₂, -⟩ :=
      ensuresFrom_lock cfg w t (.stream (w.prompt req) req.maxTokens.toNat) l₁
    cases hensures : w.ensures l.state with
    | ok _ => exact absurd ⟨hmode, hensures⟩ h
    | error error =>
        rw [hensures₁, hensures] at hr₂
        exact (streams_fail _).of_reaches ((reaches_streamPrompt hmode).trans (hr₁.trans hr₂))
          (hk₂.actions.trans hk₁.actions)
  · obtain ⟨hmanual, hstate⟩ := Classical.not_imp.mp hmode
    refine (streams_refused notLoaded).of_reaches (k := l) (.trans
      (.step (.stream req .checkMode) rfl (a := l.state.mode) rfl) ?_) rfl
    have hnext : (program cfg (.stream req .checkMode)).next l.state.mode =
        .stream req .checkState :=
      congrArg (Pc.stream req) (if_pos hmanual)
    have hlast : (program cfg (.stream req .checkState)).next l.state.modelState =
        .returning (.streamRefused notLoaded) := if_pos hstate
    rw [hnext, ← hlast]
    exact .step (.stream req .checkState) rfl (a := l.state.modelState) rfl

variable (cfg t) in
/-- **The stream of an available model**, a tool request or not. -/
theorem streams_of_available (hvalid : validateRequest req = .ok ()) (h : w.Available l.state)
    (hresponses : l.responses = []) :
    l.Streams cfg w t (.stream req .checkMode)
      (if l.state.WorkerGone ∨ (w.made req).Fails then none
        else some (concat (w.made req).texts, (w.made req).texts.length)) [] := by
  obtain ⟨l₁, hr₁, hk₁, hensures₁, hgone₁⟩ := reaches_streamEnsure cfg w t req (l := l)
  obtain ⟨l₂, hr₂, hk₂, hl₂⟩ :=
    ensuresFrom_lock cfg w t (.stream (w.prompt req) req.maxTokens.toNat) l₁
  rw [hensures₁, h.2] at hr₂ hl₂
  obtain ⟨hslot, hgone₂⟩ := hl₂ rfl
  have hr := (reaches_streamPrompt h.1).trans (hr₁.trans hr₂)
  have hactions : l₂.actions = l.actions := hk₂.actions.trans hk₁.actions
  by_cases hgone : l.state.WorkerGone
  · rw [if_pos (.inl hgone)]
    exact (streams_of_gone (hgone₂.mpr (hgone₁.mpr hgone)) _ _).of_reaches hr hactions
  · obtain ⟨hblank, hzero⟩ := w.prompt_of_valid hvalid
    obtain ⟨l₃, hr₃, hpending, hk₃⟩ := reaches_receiving cfg w t hslot
      (fun hg => hgone (hgone₁.mp (hgone₂.mp hg))) hblank hzero
    have hresponses₃ : l₃.responses = [] :=
      hk₃.responses.trans (hk₂.responses.trans (hk₁.responses.trans hresponses))
    have hstream := streams_receive cfg w t hpending hresponses₃
    simp only [hgone, false_or]
    exact hstream.of_reaches (hr.trans hr₃) (hk₃.actions.trans hactions)

end StreamStart

/-! ## Agreement -/

/-- Both calls come to an end, both in an error or both with the same text and count, and the
same was asked of the action manager. -/
def HandlersAgree (cfg : Config) (w : World) (t : TaskId) (s : State)
    (req : GenerateRequest) : Prop :=
  ∃ generated streamed,
    Returns cfg w t (Call.generate req).start (.start s) generated ∧
      Returns cfg w t (Call.streamGenerate req).start (.start s) streamed ∧
      generateResult generated.1 = streamResult streamed.1 streamed.2.responses ∧
      generated.2.actions = streamed.2.actions

/-- A quick action finds the model available; and no text of a model that is available, with a
worker that is there, is a tool request. -/
def HandledAlike (cfg : Config) (w : World) (s : State) (req : GenerateRequest) : Prop :=
  validateRequest req = .ok () →
    (isQuickAction req.prompt = true → w.Available s) ∧
      (isQuickAction req.prompt = false → w.Available s → ¬ s.WorkerGone → ¬ (w.made req).Fails →
        toolRequest cfg.parseToolRequest (concat (w.made req).texts) = none)

section Agreement

variable {cfg : Config} {w : World} {t : TaskId} {s : State} {req : GenerateRequest}

/-- What the two calls come to decides. -/
theorem handlersAgree_iff_eq {value value' : Option (String × ℕ)}
    {actions actions' : List ToolRequest}
    (hgenerate : (Local.start s).Generates cfg w t (Call.generate req).start value actions)
    (hstream : (Local.start s).Streams cfg w t (Call.streamGenerate req).start value' actions') :
    HandlersAgree cfg w t s req ↔ value = value' ∧ actions = actions' := by
  obtain ⟨outcome, l, hr, hvalue, hactions⟩ := hgenerate
  obtain ⟨outcome', l', hr', hvalue', hactions'⟩ := hstream
  rw [← hvalue, ← hvalue', ← List.nil_append actions, ← List.nil_append actions']
  change l.actions = [] ++ actions at hactions
  change l'.actions = [] ++ actions' at hactions'
  rw [← hactions, ← hactions']
  constructor
  · rintro ⟨generated, streamed, hg, hs, hresult, hsame⟩
    obtain rfl := hr.unique hg
    obtain rfl := hr'.unique hs
    exact ⟨hresult, hsame⟩
  · rintro ⟨hresult, hsame⟩
    exact ⟨_, _, hr, hr', hresult, hsame⟩

/-- `generate` refuses a quick action when the model is not available. -/
theorem not_handlersAgree_of_quick (hvalid : validateRequest req = .ok ())
    (hquick : isQuickAction req.prompt = true) (h : ¬ w.Available s) :
    ¬ HandlersAgree cfg w t s req := by
  have hgenerate := generates_of_unavailable cfg t req (l := .start s) h
  have hstream := streams_of_quick cfg w t req (l := .start s) rfl
  rw [← start_generate hvalid] at hgenerate
  rw [handlersAgree_iff_eq hgenerate
    (by rw [start_streamGenerate hvalid, if_pos hquick]; exact hstream)]
  exact fun heq => nomatch heq.1

/-- **Where the handlers agree.** -/
theorem handlersAgree_iff (cfg : Config) (w : World) (t : TaskId) (s : State)
    (req : GenerateRequest) :
    HandlersAgree cfg w t s req ↔ HandledAlike cfg w s req := by
  unfold HandledAlike
  match hvalid : validateRequest req with
  | .error status =>
      rw [handlersAgree_iff_eq (generates_of_invalid hvalid) (streams_of_invalid hvalid)]
      exact ⟨fun _ => nofun, fun _ => ⟨rfl, rfl⟩⟩
  | .ok () =>
      have hstart := start_streamGenerate hvalid
      simp only [true_imp_iff]
      cases hquick : isQuickAction req.prompt with
      | true =>
          simp only [true_imp_iff, reduceCtorEq, false_imp_iff, and_true]
          rw [if_pos hquick] at hstart
          by_cases h : w.Available s
          · have hgenerate := generates_of_quick cfg t req (l := .start s)
              hquick h
            have hstream := streams_of_quick cfg w t req
              (l := .start s) rfl
            rw [← start_generate hvalid] at hgenerate
            rw [← hstart] at hstream
            rw [handlersAgree_iff_eq hgenerate hstream]
            exact ⟨fun _ => h, fun _ => ⟨rfl, rfl⟩⟩
          · exact iff_of_false (not_handlersAgree_of_quick hvalid hquick h) h
      | false =>
          simp only [true_imp_iff, reduceCtorEq, false_imp_iff, true_and]
          rw [if_neg (by rw [hquick]; exact Bool.false_ne_true)] at hstart
          by_cases h : w.Available s
          · have hstream := streams_of_available cfg t (l := .start s) hvalid h rfl
            rw [← hstart] at hstream
            by_cases hnot : (Local.start s).state.WorkerGone ∨ (w.made req).Fails
            · have hgenerate := generates_of_no_text cfg t (l := .start s) hvalid
                hquick h hnot
              rw [← start_generate hvalid] at hgenerate
              rw [handlersAgree_iff_eq hgenerate hstream, if_pos hnot]
              exact ⟨fun _ _ hgone hfails => absurd hnot (not_or.mpr ⟨hgone, hfails⟩),
                fun _ => ⟨rfl, rfl⟩⟩
            · obtain ⟨hgone, hfails⟩ := not_or.mp hnot
              have hgenerate := generates_of_text cfg t (l := .start s) hvalid
                hquick h hgone hfails
              rw [if_neg hnot] at hstream
              cases htool : toolRequest cfg.parseToolRequest (concat (w.made req).texts) with
              | none =>
                  rw [htool, ← start_generate hvalid] at hgenerate
                  rw [handlersAgree_iff_eq hgenerate hstream]
                  exact ⟨fun _ _ _ _ => rfl, fun _ => ⟨rfl, rfl⟩⟩
              | some tool =>
                  rw [htool, ← start_generate hvalid] at hgenerate
                  obtain ⟨value, actions, hgenerate, hor⟩ := hgenerate
                  rw [handlersAgree_iff_eq hgenerate hstream]
                  refine iff_of_false ?_ fun hall => nomatch hall h hgone hfails
                  rintro ⟨rfl, rfl⟩
                  exact hor.elim nofun nofun
          · have hgenerate := generates_of_unavailable cfg t req
              (l := .start s) h
            have hstream := streams_of_unavailable cfg t req
              (l := .start s) h
            rw [← start_generate hvalid] at hgenerate
            rw [← hstart] at hstream
            rw [handlersAgree_iff_eq hgenerate hstream]
            exact ⟨fun _ hav => absurd hav h, fun _ => ⟨rfl, rfl⟩⟩

end Agreement

/-- In the preload mode, with no model in memory, a quick action is refused by one handler and
done by the other. -/
theorem handlers_differ_on_quickAction :
    ¬ ∀ (cfg : Config) (w : World) (t : TaskId) (s : State) (req : GenerateRequest),
      HandlersAgree cfg w t s req := by
  intro h
  refine not_handlersAgree_of_quick (by decide +kernel) (by decide +kernel) (fun hav => ?_)
    (h ⟨"model.gguf", 4096, fun _ => none⟩
      ⟨⟨.ok (), none, .replied "done" true⟩, .ok (), fun _ _ => ⟨[], some (.ok ())⟩⟩ 0
      (.initial .manualPreload 300) ⟨"Optimize my PC", "", 256, some (7 / 10)⟩)
  have hready : ModelState.unloaded = ModelState.ready := hav.1 rfl
  nomatch hready

end NiraOS.AiDaemon
