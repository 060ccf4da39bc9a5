import NiraOS.AiDaemon.Actor

/-!
# The loading flag of the inference actor

`generate_stream` raises `is_loading` when it has read that no model is loaded, and leaves it to the
worker to lower the flag again: the worker lowers it at the end of every attempt to load, and only
there.  So a flag that is up needs an attempt that is still to end.  There is one (`Pending`) when

```text
  the worker is in it,                                            loading
  a LoadModel waits in the queue,                                 load
  a Generate waits in the queue and will find no model,           generate
  a call that has raised the flag has not sent its Generate yet.  caller
```

In the last two cases the worker holds no model, or an UnloadModel stands before the `Generate`.

Between reading `is_loaded` and raising the flag the worker may come to hold a model.  Then its
`Generate` loads nothing and lowers nothing.  `settled_of_timely` says that this is all that can go
wrong, and `up_of_late` that it does go wrong: the flag then stays up until somebody loads or
unloads a model.  `is_loaded` itself is right in every run (`isLoaded_of_waiting`).
-/

namespace NiraOS.AiDaemon.Actor

variable {d : Defaults} {s s' : State}

/-! ## What should hold -/

/-- The queue is empty, the worker waits for a command and no call is executing. -/
def State.Idle (s : State) : Prop :=
  s.queue = [] ∧ s.worker = .waiting ∧ ∀ id, s.calls id = none

/-- Nobody shows "loading", and `is_loaded` tells whether there is a model. -/
def State.Settled (s : State) : Prop :=
  s.Idle → s.isLoading = false ∧ s.isLoaded = s.model.isSome

/-- The worker lowers the flag for this command, whatever it finds, or goes. -/
def WorkerCommand.Settles : WorkerCommand → Prop
  | .loadModel .. | .shutdown => True
  | _ => False

def WorkerCommand.IsUnload : WorkerCommand → Prop
  | .unloadModel _ => True
  | _ => False

/-! ## Attempts to load that are still to end -/

/-- The worker is in an attempt to load. -/
def Worker.Loading : Worker → Prop
  | .raising _ | .validating _ | .initializing _ | .loading _ | .announcing _ | .lowering .. => True
  | _ => False

/-- When a call raises the flag, the worker holds no model, or is loading one, or is told to load or
unload one (or to go) before it gets the call's own command. -/
def Timely (s : State) (e : Event) : Prop :=
  ∀ id params config, e = .advance id → s.calls id = some (.raise params config) →
    s.isLoading = false →
    s.model = none ∨ s.worker.Loading ∨ ∃ c ∈ s.queue, c.Settles ∨ c.IsUnload

/-- A command behind `front` finds no model, unless one is loaded before. -/
def State.Unloads (s : State) (front : List WorkerCommand) : Prop :=
  s.model = none ∨ ∃ c ∈ front, c.IsUnload

inductive State.Pending (s : State) : Prop
  | exited : s.worker = .exited → s.Pending
  | loading : s.worker.Loading → s.Pending
  | load (c : WorkerCommand) : c ∈ s.queue → c.Settles → s.Pending
  | generate (front rest : List WorkerCommand) (params : GenerationParams) (config : ModelConfig)
      (tokens : CallId) :
      s.queue = front ++ .generate params config tokens :: rest → s.Unloads front → s.Pending
  | caller (id : CallId) (params : GenerationParams) (config : ModelConfig) :
      s.calls id = some (.sendGenerate params config true) → s.Unloads s.queue → s.Pending

theorem State.Unloads.mono {front front' : List WorkerCommand} (h : s.Unloads front)
    (hmodel : s'.model = s.model) (hsub : ∀ c ∈ front, c ∈ front') : s'.Unloads front' := by
  rcases h with hnone | ⟨c, hc, hunload⟩
  · exact .inl (hmodel.trans hnone)
  · exact .inr ⟨c, hsub c hc, hunload⟩

/-! ## Operations of the calls -/

/-- No call has a number that is still to be given. -/
def State.Fresh (s : State) : Prop := ∀ i, s.next ≤ i → s.calls i = none

/-- What call `id` may do to the state in one operation: it puts `more` at the end of the queue,
moves on, and touches `is_loading`. -/
structure Operation (s s' : State) (id : CallId) (more : List WorkerCommand) : Prop where
  worker : s'.worker = s.worker
  model : s'.model = s.model
  isLoaded : s'.isLoaded = s.isLoaded
  queue : s'.queue = s.queue ++ more
  running : s.worker = .exited → more = []
  others : ∀ i, i ≠ id → s'.calls i = s.calls i
  sent : ∀ params config, s.calls id = some (.sendGenerate params config true) →
    s.worker = .exited ∨ more = [.generate params config id]
  lower : s'.calls id = some .lower → s.worker = .exited
  up : s'.isLoading = true → s.isLoading = true ∨ ∃ params config,
    s.calls id = some (.raise params config) ∧ s'.calls id = some (.sendGenerate params config true)
  down : s.isLoading = true → s'.isLoading = true ∨ s.calls id = some .lower
  fresh : s.Fresh → s'.Fresh

theorem State.Fresh.update (h : s.Fresh) {id : CallId} {call : Call}
    (hcall : s.calls id = some call)
    (new : Option Call) (i : CallId) (hi : s.next ≤ i) :
    Function.update s.calls id new i = none := by
  have hne : i ≠ id := by
    rintro rfl
    exact nomatch (h i hi).symm.trans hcall
  rw [Function.update_of_ne hne]
  exact h i hi

theorem goto_self (s : State) (id : CallId) (call : Call) : (s.goto id call).calls id = some call :=
  Function.update_self ..

theorem goto_ne (s : State) (call : Call) {id i : CallId} (h : i ≠ id) :
    (s.goto id call).calls i = s.calls i :=
  Function.update_of_ne h ..

theorem finish_self (s : State) (id : CallId) : (s.finish id).calls id = none :=
  Function.update_self ..

theorem finish_ne (s : State) {id i : CallId} (h : i ≠ id) : (s.finish id).calls i = s.calls i :=
  Function.update_of_ne h ..

/-- Sending fails only when the thread has gone. -/
theorem send_cases (s : State) (c : WorkerCommand) :
    (s.worker = .exited ∧ s.send c = none) ∨
      (s.worker ≠ .exited ∧ s.send c = some { s with queue := s.queue ++ [c] }) := by
  unfold State.send
  cases s.worker
  case exited => exact .inl ⟨rfl, rfl⟩
  all_goals exact .inr ⟨by simp, rfl⟩

/-- A call moves on without touching anything else. -/
theorem Operation.goto {id : CallId} {call next : Call} (hcall : s.calls id = some call)
    (hsend : ∀ params config, call ≠ .sendGenerate params config true) (hlower : next ≠ .lower) :
    Operation s (s.goto id next) id [] where
  worker := rfl
  model := rfl
  isLoaded := rfl
  queue := (List.append_nil _).symm
  running _ := rfl
  others _ hi := goto_ne s next hi
  sent params config h := absurd (Option.some.inj (hcall.symm.trans h)) (hsend params config)
  lower h := absurd (Option.some.inj ((goto_self s id next).symm.trans h)) hlower
  up := .inl
  down := .inl
  fresh h := h.update hcall _

/-- A call ends. -/
theorem Operation.finish {id : CallId} {call : Call} (hcall : s.calls id = some call)
    (hsend : ∀ params config, call = .sendGenerate params config true → s.worker = .exited) :
    Operation s (s.finish id) id [] where
  worker := rfl
  model := rfl
  isLoaded := rfl
  queue := (List.append_nil _).symm
  running _ := rfl
  others _ hi := finish_ne s hi
  sent params config h := .inl (hsend params config (Option.some.inj (hcall.symm.trans h)))
  lower h := nomatch (finish_self s id).symm.trans h
  up := .inl
  down := .inl
  fresh h := h.update hcall _

/-- A command is sent, and its call waits or ends. -/
theorem Operation.send {id : CallId} {call : Call} {c : WorkerCommand} {then' : Option Call}
    (hrunning : s.worker ≠ .exited) (hcall : s.calls id = some call) (hthen : then' ≠ some .lower)
    (hsend : ∀ params config, call = .sendGenerate params config true →
      c = .generate params config id) :
    Operation s
      { s with queue := s.queue ++ [c], calls := Function.update s.calls id then' } id [c] where
  worker := rfl
  model := rfl
  isLoaded := rfl
  queue := rfl
  running h := absurd h hrunning
  others _ hi := Function.update_of_ne hi ..
  sent params config h := by
    right
    rw [hsend params config (Option.some.inj (hcall.symm.trans h))]
  lower h := absurd ((Function.update_self ..).symm.trans h) hthen
  up := .inl
  down := .inl
  fresh h := h.update hcall _

theorem advance_operation {id : CallId} (h : s.advance id = some s') :
    ∃ more, Operation s s' id more := by
  unfold State.advance at h
  split at h
  next => cases h
  next path config hcall =>
    rcases send_cases s (.loadModel path config id) with ⟨-, hsend⟩ | ⟨hrunning, hsend⟩ <;>
      rw [hsend] at h <;> obtain rfl := Option.some.inj h
    · exact ⟨_, .finish hcall nofun⟩
    · exact ⟨_, .send hrunning hcall nofun nofun⟩
  next hcall =>
    rcases send_cases s (.unloadModel id) with ⟨-, hsend⟩ | ⟨hrunning, hsend⟩ <;>
      rw [hsend] at h <;> obtain rfl := Option.some.inj h
    · exact ⟨_, .finish hcall nofun⟩
    · exact ⟨_, .send hrunning hcall nofun nofun⟩
  next hcall =>
    split at h
    · obtain rfl := Option.some.inj h
      exact ⟨_, .finish hcall nofun⟩
    · cases h
  next hcall =>
    obtain rfl := Option.some.inj h
    exact ⟨_, .finish hcall nofun⟩
  next hcall =>
    obtain rfl := Option.some.inj h
    exact ⟨_, .goto hcall nofun nofun⟩
  next hcall =>
    obtain rfl := Option.some.inj h
    exact ⟨_, .goto hcall nofun nofun⟩
  next hcall =>
    split at h <;> obtain rfl := Option.some.inj h
    · exact ⟨_, .goto hcall nofun nofun⟩
    · exact ⟨_, .goto hcall nofun nofun⟩
  next params config hcall =>
    split at h <;> obtain rfl := Option.some.inj h
    · -- the flag goes up
      have hgoto : Operation s (s.goto id (.sendGenerate params config true)) id [] :=
        .goto hcall nofun nofun
      exact ⟨[], { hgoto with
        up := fun _ => .inr ⟨params, config, hcall, goto_self ..⟩, down := fun _ => .inl rfl }⟩
    · exact ⟨_, .goto hcall nofun nofun⟩
  next params config startedLoading hcall =>
    rcases send_cases s (.generate params config id) with ⟨hexited, hsend⟩ | ⟨hrunning, hsend⟩ <;>
      rw [hsend] at h
    · dsimp only at h
      split at h <;> obtain rfl := Option.some.inj h
      · exact ⟨[], { worker := rfl, model := rfl, isLoaded := rfl, queue := (List.append_nil _).symm
                     running := fun _ => rfl, others := fun _ hi => goto_ne s _ hi,
                       sent := fun _ _ _ => .inl hexited
                     lower := fun _ => hexited, up := .inl, down := .inl
                     fresh := fun hfresh => hfresh.update hcall _ }⟩
      · exact ⟨_, .finish hcall fun _ _ _ => hexited⟩
    · obtain rfl := Option.some.inj h
      refine ⟨_, .send hrunning hcall nofun fun params' config' heq => ?_⟩
      obtain ⟨rfl, rfl, -⟩ := Call.sendGenerate.inj heq
      rfl
  next hcall =>
    obtain rfl := Option.some.inj h
    have hfinish : Operation s (s.finish id) id [] := .finish hcall nofun
    exact ⟨[], { hfinish with up := nofun, down := fun _ => .inr hcall }⟩

theorem cancel_operation {id : CallId} (h : s.cancel id = some s') :
    Operation s s' id [] := by
  unfold State.cancel at h
  split at h
  next hcall =>
    obtain rfl := Option.some.inj h
    exact .finish hcall nofun
  next hcall =>
    obtain rfl := Option.some.inj h
    exact .finish hcall nofun
  next => cases h

theorem start_operation (hfresh : s.Fresh) {call : Call} (hcall : call ≠ .lower) :
    Operation s (s.start call) s.next [] where
  worker := rfl
  model := rfl
  isLoaded := rfl
  queue := (List.append_nil _).symm
  running _ := rfl
  others _ hi := goto_ne s call hi
  sent _ _ h := nomatch (hfresh s.next (Nat.le_refl _)).symm.trans h
  lower h := absurd (Option.some.inj ((goto_self s s.next call).symm.trans h)) hcall
  up := .inl
  down := .inl
  fresh _ i hi := (goto_ne s call (Nat.ne_of_gt hi)).trans (hfresh i (Nat.le_of_succ_le hi))

/-- Sending on nobody's behalf. -/
theorem idle_operation (hfresh : s.Fresh) {more : List WorkerCommand}
    (hrunning : s.worker = .exited → more = []) :
    Operation s { s with queue := s.queue ++ more } s.next more where
  worker := rfl
  model := rfl
  isLoaded := rfl
  queue := rfl
  running := hrunning
  others _ _ := rfl
  sent _ _ h := nomatch (hfresh s.next (Nat.le_refl _)).symm.trans h
  lower h := nomatch (hfresh s.next (Nat.le_refl _)).symm.trans h
  up := .inl
  down := .inl
  fresh h := h

theorem cancel_raise {id : CallId} (h : s.cancel id = some s') (params : GenerationParams)
    (config : ModelConfig) : s.calls id ≠ some (.raise params config) := by
  intro hcall
  rw [State.cancel, hcall] at h
  cases h

/-- Every event is an operation of one call, or a step of the worker; a call that raises the flag
does so by itself. -/
theorem step_cases {e : Event} (hfresh : s.Fresh) (h : step d s e = some s') :
    (∃ o, s.work d o = some s') ∨
      ∃ id more, Operation s s' id more ∧
        ∀ params config, s.calls id = some (.raise params config) → e = .advance id := by
  have hnext : ∀ params config, s.calls s.next = some (.raise params config) →
      e = .advance s.next :=
    fun _ _ hcall => nomatch (hfresh s.next (Nat.le_refl _)).symm.trans hcall
  cases e with
  | work o => exact .inl ⟨o, h⟩
  | loadModel path config =>
      obtain rfl := Option.some.inj h
      exact .inr ⟨_, _, start_operation hfresh nofun, hnext⟩
  | unloadModel =>
      obtain rfl := Option.some.inj h
      exact .inr ⟨_, _, start_operation hfresh nofun, hnext⟩
  | generateStream params =>
      obtain rfl := Option.some.inj h
      have hsame : Operation s s s.next [] := by
        have hidle := idle_operation hfresh fun _ => rfl
        rwa [List.append_nil] at hidle
      unfold State.generateStream
      split
      · exact .inr ⟨_, _, hsame, hnext⟩
      · split
        · exact .inr ⟨_, _, hsame, hnext⟩
        · exact .inr ⟨_, _, start_operation hfresh nofun, hnext⟩
  | advance id =>
      obtain ⟨more, hop⟩ := advance_operation h
      exact .inr ⟨id, more, hop, fun _ _ _ => rfl⟩
  | cancel id =>
      exact .inr ⟨id, [], cancel_operation h, fun _ _ hcall => absurd hcall (cancel_raise h _ _)⟩
  | dropHandle =>
      obtain rfl := Option.some.inj h
      rcases send_cases s .shutdown with ⟨-, hsend⟩ | ⟨hrunning, hsend⟩
      · rw [State.dropHandle, hsend]
        have hidle := idle_operation hfresh fun _ => rfl
        rw [List.append_nil] at hidle
        exact .inr ⟨_, _, hidle, hnext⟩
      · rw [State.dropHandle, hsend]
        exact .inr ⟨_, _, idle_operation hfresh fun h => absurd h hrunning, hnext⟩

/-! ## Steps of the worker -/

/-- What the worker does outside an attempt and without taking a command: it keeps the queue, the
model and `is_loading`, and every call that is about to send. -/
structure Between (s s' : State) : Prop where
  queue : s'.queue = s.queue
  model : s'.model = s.model
  isLoading : s'.isLoading = s.isLoading
  calls : ∀ id call, call ≠ .awaitReply → s.calls id = some call → s'.calls id = some call
  lower : ∀ id, s'.calls id = some .lower → s.calls id = some .lower
  fresh : s.Fresh → s'.Fresh

theorem Between.of_calls (hqueue : s'.queue = s.queue) (hmodel : s'.model = s.model)
    (hloading : s'.isLoading = s.isLoading) (hcalls : s'.calls = s.calls)
    (hnext : s'.next = s.next) : Between s s' where
  queue := hqueue
  model := hmodel
  isLoading := hloading
  calls id call _ h := by rw [hcalls, h]
  lower id h := by rw [← hcalls, h]
  fresh h i hi := by
    rw [hcalls]
    exact h i (hnext ▸ hi)

/-- An answer goes to a call that waits for it, and to no other. -/
theorem answer_between (s : State) (reply : CallId) (result : Except String Unit) :
    (s.answer reply result).worker = .waiting ∧ Between s (s.answer reply result) := by
  unfold State.answer
  split
  next hreply =>
    refine ⟨rfl, rfl, rfl, rfl, fun id call hne hcall => ?_, fun id h => ?_, fun h =>
      h.update hreply _⟩
    · have hid : id ≠ reply := by
        rintro rfl
        exact hne (Option.some.inj (hcall.symm.trans hreply))
      exact (Function.update_of_ne hid ..).trans hcall
    · by_cases hid : id = reply
      · subst hid
        exact nomatch (Function.update_self ..).symm.trans h
      · exact (Function.update_of_ne hid ..).symm.trans h
  next => exact ⟨rfl, .of_calls rfl rfl rfl rfl rfl⟩

/-- **What a step of the worker is**: a command is taken, or an attempt goes on or ends and lowers
the flag, or neither is touched. -/
theorem work_cases {o : Except String Unit} (h : s.work d o = some s') :
    (∃ c rest, s.worker = .waiting ∧ s.queue = c :: rest ∧ s' = s.take rest c) ∨
      (s.worker.Loading ∧ s'.calls = s.calls ∧ s'.next = s.next ∧
        (s'.worker.Loading ∨ s'.isLoading = false)) ∨
      (¬ s.worker.Loading ∧ s.worker ≠ .exited ∧ ¬ s'.worker.Loading ∧ s'.worker ≠ .exited ∧
        Between s s') := by
  unfold State.work at h
  split at h
  next hworker =>
    split at h
    · cases h
    next c rest hqueue =>
      obtain rfl := Option.some.inj h
      exact .inl ⟨c, rest, hworker, hqueue, rfl⟩
  -- an attempt
  next a hworker =>
    obtain rfl := Option.some.inj h
    exact .inr (.inl ⟨by rw [hworker]; trivial, rfl, rfl, .inl trivial⟩)
  next a hworker =>
    right; left
    split at h <;> obtain rfl := Option.some.inj h <;>
      exact ⟨by rw [hworker]; trivial, rfl, rfl, .inl trivial⟩
  next a hworker =>
    right; left
    split at h
    · obtain rfl := Option.some.inj h
      exact ⟨by rw [hworker]; trivial, rfl, rfl, .inl trivial⟩
    · split at h <;> obtain rfl := Option.some.inj h <;>
        exact ⟨by rw [hworker]; trivial, rfl, rfl, .inl trivial⟩
  next a hworker =>
    right; left
    split at h <;> obtain rfl := Option.some.inj h <;>
      exact ⟨by rw [hworker]; trivial, rfl, rfl, .inl trivial⟩
  next a hworker =>
    obtain rfl := Option.some.inj h
    exact .inr (.inl ⟨by rw [hworker]; trivial, rfl, rfl, .inl trivial⟩)
  next a result hworker =>
    obtain rfl := Option.some.inj h
    exact .inr (.inl ⟨by rw [hworker]; trivial, rfl, rfl, .inr rfl⟩)
  -- the numbers of the configuration, and `is_loaded`
  case h_8 | h_9 | h_10 | h_11 | h_12 =>
    rename_i hworker
    obtain rfl := Option.some.inj h
    exact .inr (.inr ⟨by rw [hworker]; exact id, by rw [hworker]; nofun, id, nofun,
      .of_calls rfl rfl rfl rfl rfl⟩)
  next reply result hworker =>
    obtain rfl := Option.some.inj h
    obtain ⟨hwaiting, hbetween⟩ := answer_between s reply result
    exact .inr (.inr ⟨by rw [hworker]; exact id, by rw [hworker]; nofun, by rw [hwaiting]; exact id,
      by rw [hwaiting]; nofun, hbetween⟩)
  next hworker =>
    right; right
    split at h
    · split at h <;> obtain rfl := Option.some.inj h <;>
        exact ⟨by rw [hworker]; exact id, by rw [hworker]; nofun, id, nofun,
          .of_calls rfl rfl rfl rfl rfl⟩
    · obtain rfl := Option.some.inj h
      exact ⟨by rw [hworker]; exact id, by rw [hworker]; nofun, id, nofun,
        .of_calls rfl rfl rfl rfl rfl⟩
  next hworker =>
    obtain rfl := Option.some.inj h
    exact .inr (.inr ⟨by rw [hworker]; exact id, by rw [hworker]; nofun, id, nofun,
      .of_calls rfl rfl rfl rfl rfl⟩)
  next => cases h

theorem take_frame (s : State) (rest : List WorkerCommand) (c : WorkerCommand) :
    (s.take rest c).calls = s.calls ∧ (s.take rest c).next = s.next ∧
      (s.take rest c).isLoading = s.isLoading := by
  cases c <;> exact ⟨rfl, rfl, rfl⟩

/-! ## Attempts stay pending until the flag is lowered -/

theorem State.Pending.operation {id : CallId} {more : List WorkerCommand} (h : s.Pending)
    (hop : Operation s s' id more) : s'.Pending := by
  have hmem : ∀ c ∈ s.queue, c ∈ s'.queue := by
    intro c hc
    rw [hop.queue]
    exact List.mem_append_left _ hc
  cases h with
  | exited hexited => exact .exited (hop.worker.trans hexited)
  | loading hloading => exact .loading (by rwa [hop.worker])
  | load c hc hload => exact .load c (hmem c hc) hload
  | generate front rest params config tokens hqueue hunloads =>
      refine .generate front (rest ++ more) params config tokens ?_
        (hunloads.mono hop.model fun _ hc => hc)
      rw [hop.queue, hqueue, List.append_assoc, List.cons_append]
  | caller i params config hcall hunloads =>
      by_cases hi : i = id
      · -- the call sends its `Generate` behind all that is queued
        subst hi
        rcases hop.sent params config hcall with hexited | rfl
        · exact .exited (hop.worker.trans hexited)
        · exact .generate s.queue [] params config i hop.queue
            (hunloads.mono hop.model fun _ hc => hc)
      · exact .caller i params config ((hop.others i hi).trans hcall)
          (hunloads.mono hop.model hmem)

/-- A command that neither loads nor unloads is not what a later `Generate` counts on. -/
theorem State.Unloads.tail {c : WorkerCommand} {front : List WorkerCommand}
    (h : s.Unloads (c :: front)) (hmodel : s.model ≠ none) (hc : ¬ c.IsUnload) :
    ∃ c' ∈ front, c'.IsUnload := by
  rcases h with hnone | ⟨c', hmem, hunload⟩
  · exact absurd hnone hmodel
  · rcases List.mem_cons.mp hmem with rfl | hmem
    · exact absurd hunload hc
    · exact ⟨c', hmem, hunload⟩

theorem State.Pending.take {c : WorkerCommand} {rest : List WorkerCommand} (h : s.Pending)
    (hworker : s.worker = .waiting) (hqueue : s.queue = c :: rest) : (s.take rest c).Pending := by
  have hload : ∀ c' ∈ s.queue, c'.Settles → ¬ c.Settles → c' ∈ rest := by
    intro c' hc' hload hnot
    rw [hqueue] at hc'
    rcases List.mem_cons.mp hc' with rfl | hc'
    · exact absurd hload hnot
    · exact hc'
  cases c with
  | loadModel path config reply => exact .loading trivial
  | shutdown => exact .exited rfl
  | unloadModel reply =>
      cases h with
      | exited hexited => exact nomatch hworker.symm.trans hexited
      | loading hloading => exact absurd hloading (by rw [hworker]; exact id)
      | load c' hc' hl => exact .load c' (hload c' hc' hl id) hl
      | generate front back params config tokens hsplit hunloads =>
          cases front with
          | nil => exact nomatch (hqueue.symm.trans hsplit)
          | cons c' front =>
              obtain ⟨-, hrest⟩ := List.cons.inj (hqueue.symm.trans hsplit)
              exact .generate front back params config tokens hrest (.inl rfl)
      | caller i params config hcall hunloads => exact .caller i params config hcall (.inl rfl)
  | generate params₀ config₀ tokens₀ =>
      by_cases hmodel : s.model = none
      · exact .loading (by simp [State.take, hmodel, Worker.Loading])
      cases h with
      | exited hexited => exact nomatch hworker.symm.trans hexited
      | loading hloading => exact absurd hloading (by rw [hworker]; exact id)
      | load c' hc' hl => exact .load c' (hload c' hc' hl id) hl
      | generate front back params config tokens hsplit hunloads =>
          cases front with
          | nil =>
              -- this one would find a model
              rcases hunloads with hnone | ⟨c', hc', -⟩
              · exact absurd hnone hmodel
              · exact nomatch hc'
          | cons c' front =>
              obtain ⟨rfl, hrest⟩ := List.cons.inj (hqueue.symm.trans hsplit)
              exact .generate front back params config tokens hrest
                (.inr (hunloads.tail hmodel id))
      | caller i params config hcall hunloads =>
          rw [hqueue] at hunloads
          exact .caller i params config hcall (.inr (hunloads.tail hmodel id))

theorem State.Pending.work {o : Except String Unit} (h : s.Pending) (hstep : s.work d o = some s') :
    s'.Pending ∨ s'.isLoading = false := by
  rcases work_cases hstep with ⟨c, rest, hworker, hqueue, rfl⟩ | ⟨-, -, -, hloading | hdown⟩ |
    ⟨hloading, hexited, -, -, hbetween⟩
  · exact .inl (h.take hworker hqueue)
  · exact .inl (.loading hloading)
  · exact .inr hdown
  left
  cases h with
  | exited h => exact absurd h hexited
  | loading h => exact absurd h hloading
  | load c hc hload => exact .load c (by rwa [hbetween.queue]) hload
  | generate front rest params config tokens hqueue hunloads =>
      exact .generate front rest params config tokens (hbetween.queue.trans hqueue)
        (hunloads.mono hbetween.model fun _ => id)
  | caller i params config hcall hunloads =>
      rw [← hbetween.queue] at hunloads
      exact .caller i params config (hbetween.calls i _ nofun hcall)
        (hunloads.mono hbetween.model fun _ => id)

/-- The worker raises the flag at the beginning of an attempt. -/
theorem pending_of_raise {o : Except String Unit} (hstep : s.work d o = some s')
    (hwas : s.isLoading = false) (hup : s'.isLoading = true) : s'.Pending := by
  rcases work_cases hstep with ⟨c, rest, -, -, rfl⟩ | ⟨-, -, -, hloading | hdown⟩ |
    ⟨-, -, -, -, hbetween⟩
  · obtain ⟨-, -, hsame⟩ := take_frame s rest c
    exact nomatch hwas.symm.trans (hsame.symm.trans hup)
  · exact .loading hloading
  · exact nomatch hdown.symm.trans hup
  · exact nomatch hwas.symm.trans (hbetween.isLoading.symm.trans hup)

/-! ## Every run -/

/-- What holds in every reachable state: numbers are given once, and a call lowers the flag itself
only when the thread has gone. -/
structure State.Sound (s : State) : Prop where
  fresh : s.Fresh
  lower : ∀ id, s.calls id = some .lower → s.worker = .exited

/-- `is_loaded` follows the model; the worker changes the model first.  Nothing survives the
thread. -/
def State.Tracks (s : State) : Prop :=
  match s.worker with
  | .announcing _ => s.model.isSome = true
  | .resettingContext _ | .resettingBatch _ | .retracting _ | .exited => s.model = none
  | _ => s.isLoaded = s.model.isSome

theorem State.Sound.operation {id : CallId} {more : List WorkerCommand} (h : s.Sound)
    (hop : Operation s s' id more) : s'.Sound where
  fresh := hop.fresh h.fresh
  lower i hi := by
    rw [hop.worker]
    by_cases hid : i = id
    · subst hid
      exact hop.lower hi
    · rw [hop.others i hid] at hi
      exact h.lower i hi

theorem State.Sound.work {o : Except String Unit} (h : s.Sound) (hstep : s.work d o = some s') :
    s'.Sound := by
  -- the thread takes a step, so it has not gone
  have hnone : ∀ id, s.calls id ≠ some .lower := by
    intro id hid
    rw [State.work, h.lower id hid] at hstep
    cases hstep
  rcases work_cases hstep with ⟨c, rest, -, -, rfl⟩ | ⟨-, hcalls, hnext, -⟩ | ⟨-, -, -, -, hbetween⟩
  · obtain ⟨hcalls, hnext, -⟩ := take_frame s rest c
    exact ⟨fun i hi => hcalls ▸ h.fresh i (hnext ▸ hi), fun i hi => absurd (hcalls ▸ hi) (hnone i)⟩
  · exact ⟨fun i hi => hcalls ▸ h.fresh i (hnext ▸ hi), fun i hi => absurd (hcalls ▸ hi) (hnone i)⟩
  · exact ⟨hbetween.fresh h.fresh, fun i hi => absurd (hbetween.lower i hi) (hnone i)⟩

theorem State.Tracks.operation {id : CallId} {more : List WorkerCommand} (h : s.Tracks)
    (hop : Operation s s' id more) : s'.Tracks := by
  unfold State.Tracks at h ⊢
  rwa [hop.worker, hop.model, hop.isLoaded]

theorem State.Tracks.work {o : Except String Unit} (h : s.Tracks) (hstep : s.work d o = some s') :
    s'.Tracks := by
  unfold State.work at hstep
  unfold State.Tracks at h
  split at hstep
  next hworker =>
    rw [hworker] at h
    split at hstep
    · cases hstep
    next c rest hqueue =>
      obtain rfl := Option.some.inj hstep
      cases c with
      | loadModel path config reply => exact h
      | unloadModel reply => exact rfl
      | shutdown => exact rfl
      | generate params config tokens =>
          dsimp only [State.take]
          split_ifs
          · exact h
          · exact h
  case h_2 | h_6 | h_8 | h_9 | h_10 | h_11 | h_15 =>
    rename_i hworker
    rw [hworker] at h
    obtain rfl := Option.some.inj hstep
    first
      | exact h
      | exact h.symm
  next hworker =>
    rw [hworker] at h
    split at hstep <;> obtain rfl := Option.some.inj hstep <;> exact h
  next hworker =>
    rw [hworker] at h
    split at hstep
    · obtain rfl := Option.some.inj hstep
      exact h
    · split at hstep <;> obtain rfl := Option.some.inj hstep <;> exact h
  next a hworker =>
    rw [hworker] at h
    split at hstep <;> obtain rfl := Option.some.inj hstep
    · exact rfl
    · exact h
  next a result hworker =>
    rw [hworker] at h
    obtain rfl := Option.some.inj hstep
    cases a <;> cases result <;> exact h
  next reply hworker =>
    rw [hworker] at h
    obtain rfl := Option.some.inj hstep
    exact (congrArg Option.isSome h).symm
  next reply result hworker =>
    rw [hworker] at h
    obtain rfl := Option.some.inj hstep
    unfold State.answer
    split <;> exact h
  next hworker =>
    rw [hworker] at h
    split at hstep
    · split at hstep <;> obtain rfl := Option.some.inj hstep <;> exact h
    · obtain rfl := Option.some.inj hstep
      exact h
  next => cases hstep

theorem sound_of_reachable {ok : State → Event → Prop} (h : (system d).ReachableWhere ok s) :
    s.Sound := by
  refine h.invariant ?_ ?_
  · rintro _ rfl
    exact ⟨fun _ _ => rfl, nofun⟩
  · intro s e s' _ hsound _ hstep
    rcases step_cases hsound.fresh hstep with ⟨o, hwork⟩ | ⟨id, more, hop, -⟩
    · exact hsound.work hwork
    · exact hsound.operation hop

theorem tracks_of_reachable {ok : State → Event → Prop} (h : (system d).ReachableWhere ok s) :
    s.Tracks := by
  refine h.invariant ?_ ?_
  · rintro _ rfl
    exact rfl
  · intro s e s' hr htracks _ hstep
    rcases step_cases (sound_of_reachable hr).fresh hstep with ⟨o, hwork⟩ | ⟨id, more, hop, -⟩
    · exact htracks.work hwork
    · exact htracks.operation hop

/-- `is_loaded` is right whenever the worker waits for a command. -/
theorem isLoaded_of_waiting (h : (system d).Reachable s) (hworker : s.worker = .waiting) :
    s.isLoaded = s.model.isSome := by
  have htracks := tracks_of_reachable h
  unfold State.Tracks at htracks
  rwa [hworker] at htracks

/-! ## Runs in which the flag is raised in time -/

/-- A flag that has gone up has its own call behind it. -/
theorem pending_of_up {e : Event} {id : CallId} {more : List WorkerCommand}
    (hpending : s.isLoading = true → s.Pending) (hop : Operation s s' id more)
    (hown : ∀ params config, s.calls id = some (.raise params config) → e = .advance id)
    (hok : Timely s e) (hup : s'.isLoading = true) : s'.Pending := by
  rcases Bool.eq_false_or_eq_true s.isLoading with hwas | hwas
  · exact (hpending hwas).operation hop
  obtain hup | ⟨params, config, hcall, hcall'⟩ := hop.up hup
  · exact absurd hup (by rw [hwas]; nofun)
  have hmem : ∀ c ∈ s.queue, c ∈ s'.queue := by
    intro c hc
    rw [hop.queue]
    exact List.mem_append_left _ hc
  rcases hok id params config (hown params config hcall) hcall hwas with
    hnone | hloading | ⟨c, hc, hload | hunload⟩
  · exact .caller id params config hcall' (.inl (hop.model.trans hnone))
  · exact .loading (by rwa [hop.worker])
  · exact .load c (hmem c hc) hload
  · exact .caller id params config hcall' (.inr ⟨c, hmem c hc, hunload⟩)

theorem pending_of_timely (h : (system d).ReachableWhere Timely s) (hup : s.isLoading = true) :
    s.Pending := by
  have hinv : s.isLoading = true → s.Pending := by
    refine h.invariant (I := fun s => s.isLoading = true → s.Pending) ?_ ?_
    · rintro _ rfl
      nofun
    · intro s e s' hr hpending hok hstep hup
      rcases step_cases (sound_of_reachable hr).fresh hstep with ⟨o, hwork⟩ | ⟨id, more, hop, hown⟩
      · rcases Bool.eq_false_or_eq_true s.isLoading with hwas | hwas
        · rcases (hpending hwas).work hwork with h | hdown
          · exact h
          · exact absurd hup (by rw [hdown]; nofun)
        · exact pending_of_raise hwork hwas hup
      · exact pending_of_up hpending hop hown hok hup
  exact hinv hup

/-- When nobody is doing anything, no attempt is pending. -/
theorem not_pending_of_idle (h : s.Idle) : ¬ s.Pending := by
  obtain ⟨hqueue, hworker, hcalls⟩ := h
  intro hpending
  cases hpending with
  | exited hexited => exact nomatch hworker.symm.trans hexited
  | loading hloading => exact absurd hloading (by rw [hworker]; exact id)
  | load c hc _ => exact absurd hc (by rw [hqueue]; nofun)
  | generate front rest params config tokens hsplit _ =>
      rw [hqueue] at hsplit
      exact absurd hsplit.symm (by simp)
  | caller id params config hcall _ => exact nomatch (hcalls id).symm.trans hcall

/-- **The loading flag is never stuck** in a run in which it is raised in time. -/
theorem settled_of_timely (h : (system d).ReachableWhere Timely s) : s.Settled := by
  intro hidle
  refine ⟨?_, isLoaded_of_waiting h.reachable hidle.2.1⟩
  rw [Bool.eq_false_iff]
  intro hup
  exact not_pending_of_idle hidle (pending_of_timely h hup)

/-! ## A flag raised too late -/

/-- The flag is up, and nobody is going to lower it. -/
structure State.Stuck (s : State) : Prop where
  up : s.isLoading = true
  model : s.model ≠ none
  loading : ¬ s.worker.Loading
  alive : s.worker ≠ .exited
  queue : ∀ c ∈ s.queue, ¬ (c.Settles ∨ c.IsUnload)

/-- No model is loaded or unloaded by command, and the handle stays. -/
def Undisturbed (d : Defaults) (s : State) (e : Event) : Prop :=
  ∀ s', step d s e = some s' → ∀ c ∈ s'.queue, ¬ (c.Settles ∨ c.IsUnload)

theorem State.Stuck.step {e : Event} (h : s.Stuck) (hsound : s.Sound) (hok : Undisturbed d s e)
    (hstep : step d s e = some s') : s'.Stuck := by
  have hqueue := hok s' hstep
  rcases step_cases hsound.fresh hstep with ⟨o, hwork⟩ | ⟨id, more, hop, -⟩
  · rcases work_cases hwork with ⟨c, rest, -, hc, rfl⟩ | ⟨hloading, -⟩ |
      ⟨-, -, hloading, halive, hbetween⟩
    · have hcommand := h.queue c (by rw [hc]; exact List.mem_cons_self ..)
      cases c with
      | loadModel path config reply => exact absurd (.inl trivial) hcommand
      | unloadModel reply => exact absurd (.inr trivial) hcommand
      | shutdown => exact absurd (.inl trivial) hcommand
      | generate params config tokens =>
          refine ⟨h.up, h.model, ?_, ?_, hqueue⟩
          · rw [State.take, if_neg h.model]
            exact fun h => h
          · rw [State.take, if_neg h.model]
            nofun
    · exact absurd hloading h.loading
    · exact ⟨hbetween.isLoading.trans h.up, by rw [hbetween.model]; exact h.model, hloading, halive,
        hqueue⟩
  · refine ⟨?_, by rw [hop.model]; exact h.model, by rw [hop.worker]; exact h.loading,
      by rw [hop.worker]; exact h.alive, hqueue⟩
    rcases hop.down h.up with hup | hlower
    · exact hup
    · exact absurd (hsound.lower id hlower) h.alive

/-- A call that raises the flag too late leaves it stuck. -/
theorem stuck_of_late {e : Event} (htracks : s.Tracks) (hlate : ¬ Timely s e)
    (hstep : step d s e = some s') : s'.Stuck := by
  unfold Timely at hlate
  push Not at hlate
  obtain ⟨id, params, config, rfl, hcall, hdown, hmodel, hloading, hqueue⟩ := hlate
  have hraised : s.advance id = some
      { s.goto id (.sendGenerate params config true) with isLoading := true } := by
    rw [State.advance, hcall]
    exact if_pos hdown
  obtain rfl := Option.some.inj (hraised.symm.trans hstep)
  refine ⟨rfl, hmodel, hloading, fun hexited => ?_, fun c hc => not_or.mpr (hqueue c hc)⟩
  change s.worker = .exited at hexited
  unfold State.Tracks at htracks
  rw [hexited] at htracks
  exact hmodel htracks

/-- **Raising the flag too late is what goes wrong**: the flag then stays up until a model is loaded
or unloaded by command. -/
theorem up_of_late {e : Event} (hr : (system d).Reachable s) (hlate : ¬ Timely s e)
    (hstep : step d s e = some s') {t : State}
    (ht : ((system d).startingAt s').ReachableWhere (Undisturbed d) t) : t.isLoading = true := by
  have hinv : t.Sound ∧ t.Stuck := by
    refine ht.invariant (I := fun t => t.Sound ∧ t.Stuck) ?_ ?_
    · rintro _ rfl
      exact ⟨sound_of_reachable (hr.step trivial hstep),
        stuck_of_late (tracks_of_reachable hr) hlate hstep⟩
    · intro t e t' _ ⟨hsound, hstuck⟩ hok hstep
      refine ⟨?_, hstuck.step hsound hok hstep⟩
      rcases step_cases hsound.fresh hstep with ⟨o, hwork⟩ | ⟨id, more, hop, -⟩
      · exact hsound.work hwork
      · exact hsound.operation hop
  exact hinv.2.up

/-! ## Runs -/

def defaults : Defaults := ⟨"/models/nira.gguf", ⟨4096, 512⟩⟩

def params : GenerationParams := ⟨"hello", 16⟩

/-- A call of `generate_stream` from its beginning to its end. -/
def generation (id : CallId) : List Event :=
  .generateStream params :: List.replicate 5 (.advance id)

/-- Steps of the worker to which everything succeeds. -/
def work (steps : ℕ) : List Event := List.replicate steps (.work (.ok ()))

/-- The worker loads the model for one generation. -/
theorem settled_of_timely_generation :
    ∃ s, (system defaults).ReachableWhere Timely s ∧ s.Settled ∧ s.Idle ∧ s.model.isSome := by
  have hinit : (system defaults).ReachableWhere Timely (initial defaults) := .init rfl
  -- as long as there is no model, every operation is in time
  have hbegun := hinit.step (e := .generateStream params) nofun rfl
  have hcontext := hbegun.step (e := .advance 0) (fun _ _ _ _ _ _ => .inl rfl) rfl
  have hbatch := hcontext.step (e := .advance 0) (fun _ _ _ _ _ _ => .inl rfl) rfl
  have hloaded := hbatch.step (e := .advance 0) (fun _ _ _ _ _ _ => .inl rfl) rfl
  have hraised := hloaded.step (e := .advance 0) (fun _ _ _ _ _ _ => .inl rfl) rfl
  have hsent := hraised.step (e := .advance 0) (fun _ _ _ _ _ _ => .inl rfl) rfl
  have hwork : ∀ e ∈ work 8, ∀ s, Timely s e := by
    intro e he s id params config heq
    obtain rfl := List.eq_of_mem_replicate he
    cases heq
  have hdone := hsent.run hwork rfl
  refine ⟨_, hdone, settled_of_timely hdone, ⟨rfl, rfl, fun id => ?_⟩, rfl⟩
  match id with
  | 0 => rfl
  | _ + 1 => rfl

/-- A second call has read that there is no model, and raises the flag when the first has had one
loaded. -/
theorem not_settled_of_lateRaise : ¬ ∀ s, (system defaults).Reachable s → s.Settled := by
  intro h
  let events : List Event :=
    generation 0 ++ (generation 1).take 4 ++ work 8 ++ [.advance 1, .advance 1] ++ work 2
  have hrun : ((system defaults).run (initial defaults) events).any (fun s =>
      s.queue = [] ∧ s.worker = .waiting ∧ s.next = 2 ∧ (s.calls 0).isNone ∧ (s.calls 1).isNone ∧
        s.isLoading = true) = true := by
    decide +kernel
  obtain ⟨s, hr, hs⟩ :=
    Transition.System.exists_reachable_of_run (S := system defaults)
      (s := initial defaults) rfl hrun
  obtain ⟨hqueue, hworker, hnext, h₀, h₁, hup⟩ := of_decide_eq_true hs
  have hidle : s.Idle := by
    refine ⟨hqueue, hworker, fun id => ?_⟩
    match id with
    | 0 => exact Option.isNone_iff_eq_none.mp h₀
    | 1 => exact Option.isNone_iff_eq_none.mp h₁
    | id + 2 => exact (sound_of_reachable hr).fresh _ (hnext ▸ Nat.le_add_left 2 id)
  exact absurd (h s hr hidle).1 (by rw [hup]; nofun)

end NiraOS.AiDaemon.Actor
