import NiraOS.AiDaemon.OneModel

/-!
# The model state and the engine

`model_state` is written under its own lock, at other moments than the slot
changes: `Loading` and `Unloaded` while the engine mutex is held, `Unloading`
before it is taken and `Ready` after it is released.  So the two agree only once
the last writer is done, and only if it is right about the slot.  `unload_model`
is, since it still holds the mutex; `ensure_model_loaded` is not: an unload may
empty the slot between its release of the mutex and its writing `Ready`.

The runs here have no load or unload that fails and no cancelled call (`Clean`).
-/

namespace NiraOS.AiDaemon

/-! ## The runs -/

/-- No load or unload fails, and no call is cancelled. -/
def Clean (cfg : Config) (s : State) : Event → Prop
  | .cancel _ => False
  | .run t o => (program cfg (s.pc t)).op = .createBackend → o.spawn = .ok ()
  | .work e o => (s.engines e).worker.target ≠ none → o.load = .ok ()
  | _ => True

/-- `Ready` is written only while the slot holds an engine. -/
def ReadyInTime (cfg : Config) (s : State) : Event → Prop
  | .run t _ => (program cfg (s.pc t)).op = .writeState .ready → s.slot ≠ none
  | _ => True

instance (cfg : Config) (s : State) : (event : Event) → Decidable (Clean cfg s event)
  | .cancel _ => inferInstanceAs (Decidable False)
  | .run .. | .work .. => inferInstanceAs (Decidable (_ → _))
  | .call _ | .wake _ | .read _ | .disconnect _ | .tick => inferInstanceAs (Decidable True)

instance (cfg : Config) (s : State) : (event : Event) → Decidable (ReadyInTime cfg s event)
  | .run .. => inferInstanceAs (Decidable (_ → _))
  | .cancel _ | .work .. | .call _ | .wake _ | .read _ | .disconnect _ | .tick =>
      inferInstanceAs (Decidable True)

/-- A call of `ensure_model_loaded` or `unload_model` is in progress. -/
def Pc.inCall : Pc → Bool
  | .ensure .. | .unload .. => true
  | _ => false

/-- The call has yet to write the model state it ends with. -/
def Pc.pending : Pc → Bool
  | .ensure .. => true
  | .unload _ .unlock => false
  | .unload .. => true
  | _ => false

/-- The state says what is in the slot. -/
def Agree (s : State) : Prop :=
  s.slot = none ∧ s.modelState = .unloaded ∨ (∃ e, s.slot = some e) ∧ s.modelState = .ready

/-- The views in which the engine in the slot may lack a model. -/
def View.mayLack : View → Bool
  | .checking | .loading | .unloading | .clearing => true
  | _ => false

/-! ## The program -/

theorem inCall_of_mayLack {pc : Pc} (h : pc.view.mayLack = true) : pc.inCall = true := by
  cases pc with
  | generate req stage => cases stage <;> cases h
  | serve stage => cases stage <;> cases h
  | ensure | unload => rfl
  | _ => cases h

theorem inCall_of_pending {pc : Pc} (h : pc.pending = true) : pc.inCall = true := by
  cases pc with
  | ensure | unload => rfl
  | _ => cases h

/-- The operations that change the model state or the slot. -/
def Op.settles : Op → Bool
  | .writeState _ | .createBackend | .clearSlot => true
  | _ => false

/-- A call stays pending until it writes its last state, unless it fails. -/
theorem pending_next (cfg : Config) (pc : Pc) (a : (program cfg pc).op.Answer)
    (h : pc.pending = true) : ((program cfg pc).next a).pending = true ∨
      (program cfg pc).op = .writeState .ready ∨
      (program cfg pc).op = .writeState .unloaded ∧ pc.view = .cleared ∨ pc.view = .failing := by
  cases pc with
  | ensure caller stage =>
      cases stage with
      | writeReady => exact .inr (.inl rfl)
      | fail error => exact .inr (.inr (.inr rfl))
      | create | load | reply => rcases (a : Except String Unit) with error | ⟨⟩ <;> exact .inl rfl
      | _ => exact .inl rfl
  | unload fromWatchdog stage =>
      cases stage with
      | writeUnloaded => exact .inr (.inr (.inl ⟨rfl, rfl⟩))
      | fail error => exact .inr (.inr (.inr rfl))
      | unlock => cases h
      | lock => cases (a : Bool) <;> exact .inl rfl
      | send | reply => rcases (a : Except String Unit) with error | ⟨⟩ <;> exact .inl rfl
      | _ => exact .inl rfl
  | _ => cases h

/-- No other operation changes the model state or the slot. -/
theorem settles_pending (cfg : Config) (pc : Pc) (h : (program cfg pc).op.settles = true) :
    pc.pending = true := by
  cases pc with
  | ensure caller stage => rfl
  | unload fromWatchdog stage => cases stage <;> first | rfl | cases h
  | watchdog stage | modeSet stage | generate req stage | stream req stage | serve stage =>
      cases stage <;> cases h
  | _ => cases h

theorem start_ne_cancelled (call : Call) : call.start ≠ .cancelled := by
  cases call with
  | setMode mode => simp only [Call.start]; split <;> simp
  | setInactivityTimeout secs => simp only [Call.start]; split <;> simp
  | generate req => simp only [Call.start]; split <;> simp
  | streamGenerate req => simp only [Call.start]; split <;> simp
  | _ => simp [Call.start]

/-- A task does not cancel itself. -/
theorem next_ne_cancelled (cfg : Config) (pc : Pc) (a : (program cfg pc).op.Answer) :
    (program cfg pc).next a ≠ .cancelled := by
  intro hcancelled
  have hnext := next_family cfg pc a
  rw [hcancelled] at hnext
  revert hnext
  cases pc.family <;> decide

/-! ## The invariant -/

structure Settled (s : State) : Prop where
  disciplined : Disciplined s
  noFailing : ∀ t, (s.pc t).view ≠ .failing
  noCancelled : ∀ t, s.pc t ≠ .cancelled
  /-- A load that was answered has put the model in memory. -/
  answered : ∀ t, (s.pc t).view = .loading → s.reply t = none ∨
    s.reply t = some (.ok ()) ∧ ∀ e, s.slot = some e → (s.engines e).model ≠ none
  /-- The engine in the slot has a model unless a call is at work on it. -/
  model : ∀ e, s.slot = some e → (s.engines e).model ≠ none ∨
    ∃ t, s.lock = some t ∧ (s.pc t).view.mayLack = true
  agree : (∃ t, (s.pc t).pending = true) ∨ Agree s

theorem Settled.initial (mode : DaemonMode) (inactivityTimeout : ℕ) :
    Settled (.initial mode inactivityTimeout) where
  disciplined := .initial mode inactivityTimeout
  noFailing t := nofun
  noCancelled t := nofun
  answered t h := by cases h
  model e h := by cases h
  agree := .inr (.inl ⟨rfl, rfl⟩)

section Steps

variable {cfg : Config} {s s' : State}

/-- In clean runs a task that waits holds the mutex. -/
theorem Settled.lock_of_awaiting (h : Settled s) {e : EngineId} {t : TaskId}
    (ht : t ∈ (s.engines e).awaiting) :
    s.lock = some t ∧ ((s.pc t).view = .loading ∨ (s.pc t).view = .unloading) := by
  rcases (h.disciplined.waits e t ht).waiting with hview | hview | hpc
  · exact ⟨(h.disciplined.owner t).mp (by rw [hview]; nofun), .inl hview⟩
  · exact ⟨(h.disciplined.owner t).mp (by rw [hview]; nofun), .inr hview⟩
  · exact absurd hpc (h.noCancelled t)

/-- The three parts of the invariant that are about the engine. -/
structure EngineSettled (s : State) : Prop where
  noFailing : ∀ t, (s.pc t).view ≠ .failing
  answered : ∀ t, (s.pc t).view = .loading → s.reply t = none ∨
    s.reply t = some (.ok ()) ∧ ∀ e, s.slot = some e → (s.engines e).model ≠ none
  model : ∀ e, s.slot = some e → (s.engines e).model ≠ none ∨
    ∃ t, s.lock = some t ∧ (s.pc t).view.mayLack = true

theorem Settled.engineSettled (h : Settled s) : EngineSettled s :=
  ⟨h.noFailing, h.answered, h.model⟩

/-- Steps away from the engine. -/
theorem EngineSettled.congr (h : EngineSettled s) (hsame : SameEngine s s')
    (hview : ∀ t, (s'.pc t).view = (s.pc t).view) : EngineSettled s' where
  noFailing t := by
    rw [hview]
    exact h.noFailing t
  answered t := by
    rw [hview, hsame.reply, hsame.slot, hsame.engines]
    exact h.answered t
  model := by
    rw [hsame.slot, hsame.engines, hsame.lock]
    intro e he
    refine (h.model e he).imp_right ?_
    rintro ⟨t, hlock, hlack⟩
    exact ⟨t, hlock, by rw [hview]; exact hlack⟩

/-- A step of the task that holds the mutex afterwards or held it before. -/
theorem EngineSettled.step_owner {t : TaskId} {pc' : Pc}
    (hothers : ∀ t', t' ≠ t → (s.pc t').view = .outside)
    (hpc : s'.pc = Function.update s.pc t pc') (hfailing : pc'.view ≠ .failing)
    (hanswered : pc'.view = .loading → s'.reply t = none)
    (hmodel : ∀ e, s'.slot = some e → (s'.engines e).model ≠ none ∨
      s'.lock = some t ∧ pc'.view.mayLack = true) : EngineSettled s' where
  noFailing t' := by
    rw [hpc]
    by_cases ht : t' = t
    · subst ht
      rwa [Function.update_self]
    · rw [Function.update_of_ne ht, hothers t' ht]
      nofun
  answered t' := by
    rw [hpc]
    by_cases ht : t' = t
    · subst ht
      rw [Function.update_self]
      exact fun hview => .inl (hanswered hview)
    · rw [Function.update_of_ne ht, hothers t' ht]
      nofun
  model e he := by
    refine (hmodel e he).imp_right ?_
    rintro ⟨hlock, hlack⟩
    refine ⟨t, hlock, ?_⟩
    rw [hpc, Function.update_self]
    exact hlack

/-- A request to the engine in the slot is accepted. -/
theorem Settled.request {t : TaskId} {pc' : Pc} {command : Command} {v : View}
    {a : Except String Unit} {s₁ : State} (h : Settled s) (hlock : s.lock = some t)
    (hview : pc'.view = viewAfter v a) (hv : v.mayLack = true)
    (hsend : s.request t command = some (a, s₁)) : EngineSettled (s₁.goto t pc') := by
  obtain ⟨e, hslot, ⟨hexited, -⟩ | ⟨-, rfl, rfl⟩⟩ := send_eq hsend
  · exact absurd hexited (h.disciplined.live e hslot).running
  · refine EngineSettled.step_owner (h.disciplined.outside_of_ne hlock) rfl ?_ ?_ ?_
    · rw [hview]
      rintro rfl
      cases hv
    · exact fun _ => Function.update_self ..
    · exact fun _ _ => .inr ⟨hlock, by rw [hview]; exact hv⟩

section Operations

variable {o : Oracle} {t : TaskId} {pc' : Pc} {s₁ : State}

/-- Outside the views that may lack it, the engine in the slot has its model. -/
theorem Settled.has_model (h : Settled s) (hlock : s.lock = some t)
    (hlack : (s.pc t).view.mayLack = false) :
    ∀ e, s.slot = some e → (s.engines e).model ≠ none := by
  intro e he
  refine (h.model e he).resolve_right ?_
  rintro ⟨t', hlock', hlack'⟩
  rw [hlock] at hlock'
  obtain rfl := Option.some.inj hlock'
  rw [hlack] at hlack'
  cases hlack'

/-- An operation away from the engine. -/
theorem Settled.away {op : Op} {a : op.Answer} (h : Settled s) (hop : op.onEngine = false)
    (hleads : op.Leads (s.pc t).view a pc'.view) (hperform : perform o s t op = some (a, s₁)) :
    EngineSettled (s₁.goto t pc') := by
  have hsame := perform_sameEngine hperform hop
  refine h.engineSettled.congr ⟨hsame.slot, hsame.lock, hsame.engines, hsame.reply⟩ ?_
  intro t'
  by_cases ht : t' = t
  · subst ht
    simp [State.goto, hleads.of_not_onEngine hop]
  · simp [State.goto, ht, (perform_frame hperform).pc]

/-- The mutex is taken. -/
theorem Settled.lockEngine {a : Op.lockEngine.Answer} (h : Settled s)
    (hleads : Op.lockEngine.Leads (s.pc t).view a pc'.view)
    (hperform : perform o s t .lockEngine = some (a, s₁)) : EngineSettled (s₁.goto t pc') := by
  have hd := h.disciplined
  obtain ⟨hview, hleads⟩ := hleads
  simp only [perform] at hperform
  split_ifs at hperform with hfree
  cases hperform
  refine EngineSettled.step_owner (s := s) ?_ rfl ?_ ?_ ?_
  · intro t' _
    by_contra hne
    have howner := (hd.owner t').mp hne
    rw [hfree] at howner
    cases howner
  · split_ifs at hleads
    · rcases hleads with hleads | hleads <;> simp [hleads]
    · rcases hleads with hleads | hleads | hleads <;> simp [hleads]
  · split_ifs at hleads
    · rcases hleads with hleads | hleads <;> simp [hleads]
    · rcases hleads with hleads | hleads | hleads <;> simp [hleads]
  · intro e he
    refine .inl ((h.model e he).resolve_right ?_)
    rintro ⟨t', hlock, -⟩
    rw [hfree] at hlock
    cases hlock

/-- The mutex is given back, from a view in which the engine has its model. -/
theorem Settled.unlockEngine {a : Op.unlockEngine.Answer} (h : Settled s)
    (hleads : Op.unlockEngine.Leads (s.pc t).view a pc'.view)
    (hperform : perform o s t .unlockEngine = some (a, s₁)) : EngineSettled (s₁.goto t pc') := by
  have hd := h.disciplined
  obtain ⟨hview, hleads⟩ := hleads
  cases hperform
  have hlock :=
    (hd.owner t).mp (by rcases hview with hview | hview | hview | hview <;> simp [hview])
  refine EngineSettled.step_owner (hd.outside_of_ne hlock) rfl ?_ ?_ ?_
  · rw [hleads]
    intro heq
    cases heq
  · rw [hleads]
    intro heq
    cases heq
  · refine fun e he => .inl (h.has_model hlock ?_ e he)
    rcases hview with hview | hview | hview | hview <;> rw [hview] <;> rfl

/-- A new engine is put into the slot; it has no model yet. -/
theorem Settled.createBackend {a : Op.createBackend.Answer} (h : Settled s)
    (hspawn : o.spawn = .ok ())
    (hleads : Op.createBackend.Leads (s.pc t).view a pc'.view)
    (hperform : perform o s t .createBackend = some (a, s₁)) : EngineSettled (s₁.goto t pc') := by
  have hd := h.disciplined
  obtain ⟨hview, hleads⟩ := hleads
  have hlock := (hd.owner t).mp (by simp [hview])
  simp only [perform, hspawn] at hperform
  cases hperform
  refine EngineSettled.step_owner (hd.outside_of_ne hlock) rfl ?_ ?_ ?_
  · rw [hleads]
    intro heq
    cases heq
  · rw [hleads]
    intro heq
    cases heq
  · exact fun _ _ => .inr ⟨hlock, by rw [hleads]; rfl⟩

/-- The name of the model is read. -/
theorem Settled.activeModel {a : Op.activeModel.Answer} (h : Settled s)
    (hleads : Op.activeModel.Leads (s.pc t).view a pc'.view)
    (hperform : perform o s t .activeModel = some (a, s₁)) : EngineSettled (s₁.goto t pc') := by
  have hd := h.disciplined
  obtain ⟨hview, hleads⟩ := hleads
  have hlock := (hd.owner t).mp (by simp [hview])
  obtain ⟨e, hslot, heq⟩ := Option.map_eq_some_iff.mp hperform
  cases heq
  refine EngineSettled.step_owner (hd.outside_of_ne hlock) rfl ?_ ?_ ?_
  · rcases hleads with hleads | ⟨hleads, -⟩ <;> simp [hleads]
  · rcases hleads with hleads | ⟨hleads, -⟩ <;> simp [hleads]
  · rcases hleads with hleads | ⟨hleads, hname⟩
    · exact fun _ _ => .inr ⟨hlock, by rw [hleads]; rfl⟩
    · intro e' he'
      obtain rfl : e = e' := Option.some.inj (hslot.symm.trans he')
      refine .inl fun hnone => hname ?_
      change (s.engines e).model = none at hnone
      rw [hnone]
      rfl

/-- The reply is taken: a load has put the model in memory. -/
theorem Settled.awaitReply {a : Op.awaitReply.Answer} (h : Settled s)
    (hleads : Op.awaitReply.Leads (s.pc t).view a pc'.view)
    (hperform : perform o s t .awaitReply = some (a, s₁)) : EngineSettled (s₁.goto t pc') := by
  have hd := h.disciplined
  obtain ⟨result, hreply, heq⟩ := Option.map_eq_some_iff.mp hperform
  cases heq
  have hlock := (hd.owner t).mp (by rcases hleads with hleads | hleads <;> simp [hleads.1])
  rcases hleads with ⟨hview, hleads⟩ | ⟨hview, hleads⟩
  · rcases h.answered t hview with hnone | ⟨hok, hmodel⟩
    · rw [hreply] at hnone
      cases hnone
    · obtain rfl := Option.some.inj (hreply.symm.trans hok)
      refine EngineSettled.step_owner (hd.outside_of_ne hlock) rfl ?_ ?_
        (fun e he => .inl (hmodel e he))
      · rw [hleads]
        intro heq
        cases heq
      · rw [hleads]
        intro heq
        cases heq
  · have hknows := hd.knows t
    rw [hview] at hknows
    obtain ⟨e, -, ⟨hnone, -⟩ | ⟨hok, -⟩⟩ := hknows
    · rw [hreply] at hnone
      cases hnone
    · obtain rfl := Option.some.inj (hreply.symm.trans hok)
      refine EngineSettled.step_owner (hd.outside_of_ne hlock) rfl ?_ ?_
        (fun _ _ => .inr ⟨hlock, by rw [hleads]; rfl⟩)
      · rw [hleads]
        intro heq
        cases heq
      · rw [hleads]
        intro heq
        cases heq

/-- The slot is cleared. -/
theorem Settled.clearSlot {a : Op.clearSlot.Answer} (h : Settled s)
    (hleads : Op.clearSlot.Leads (s.pc t).view a pc'.view)
    (hperform : perform o s t .clearSlot = some (a, s₁)) : EngineSettled (s₁.goto t pc') := by
  have hd := h.disciplined
  obtain ⟨hview, hleads⟩ := hleads
  have hlock := (hd.owner t).mp (by simp [hview])
  have hpc := (perform_frame hperform).pc
  cases hperform
  refine EngineSettled.step_owner (hd.outside_of_ne hlock) (by rw [State.goto, hpc])
    ?_ ?_ ?_
  · rw [hleads]
    intro heq
    cases heq
  · rw [hleads]
    intro heq
    cases heq
  · intro e he
    rw [State.goto, clearSlot_slot] at he
    cases he

/-- A generation is sent, or refused. -/
theorem Settled.sendGenerate {prompt : String} {maxTokens : ℕ}
    {a : (Op.sendGenerate prompt maxTokens).Answer} (h : Settled s)
    (hleads : (Op.sendGenerate prompt maxTokens).Leads (s.pc t).view a pc'.view)
    (hperform : perform o s t (.sendGenerate prompt maxTokens) = some (a, s₁)) :
    EngineSettled (s₁.goto t pc') := by
  have hd := h.disciplined
  obtain ⟨hview, hleads⟩ := hleads
  have hlock := (hd.owner t).mp (by simp [hview])
  have hmodel := h.has_model hlock (by rw [hview]; rfl)
  obtain ⟨rfl, -⟩ | ⟨e, hslot, -, -, -, rfl⟩ := sendGenerate_eq hperform <;>
    refine EngineSettled.step_owner (hd.outside_of_ne hlock) rfl
      (by simp [hleads]) (by simp [hleads]) ?_
  · exact fun e he => .inl (hmodel e he)
  · intro e' he'
    obtain rfl : e = e' := Option.some.inj (hslot.symm.trans he')
    change (Function.update s.engines e _ e).model ≠ none ∨ _
    rw [Function.update_self]
    exact .inl (hmodel e hslot)

end Operations

/-- **A step of a task in clean runs.** -/
theorem Settled.run_engine {t : TaskId} {o : Oracle} (h : Settled s)
    (hclean : Clean cfg s (.run t o)) (hstep : step cfg s (.run t o) = some s') :
    EngineSettled s' := by
  obtain ⟨op, a, s₁, pc', hop, hperform, rfl, hleads, -, -⟩ := run_cases hstep
  by_cases hengine : op.onEngine = false
  · exact h.away hengine hleads hperform
  have howns : (s.pc t).view ≠ .outside → s.lock = some t := (h.disciplined.owner t).mp
  cases op with
  | lockEngine => exact h.lockEngine hleads hperform
  | unlockEngine => exact h.unlockEngine hleads hperform
  | createBackend => exact h.createBackend (hclean hop) hleads hperform
  | activeModel => exact h.activeModel hleads hperform
  | sendLoad => exact h.request (howns (by simp [hleads.1])) hleads.2 rfl hperform
  | sendUnload => exact h.request (howns (by simp [hleads.1])) hleads.2 rfl hperform
  | awaitReply => exact h.awaitReply hleads hperform
  | clearSlot => exact h.clearSlot hleads hperform
  | sendGenerate prompt maxTokens => exact h.sendGenerate hleads hperform
  | _ => exact absurd rfl hengine

/-- A worker in clean runs: a load it finishes has succeeded. -/
theorem Settled.work_engine {e : EngineId} {o : WorkerOracle} (h : Settled s)
    (hclean : Clean cfg s (.work e o)) (hstep : step cfg s (.work e o) = some s') :
    EngineSettled s' := by
  obtain ⟨⟨engine, out⟩, hwork, rfl⟩ := Option.map_eq_some_iff.mp hstep
  have hd := h.disciplined
  obtain ⟨reply, tokens, produced, heq, hsame⟩ := deliver_eq
    { s with engines := Function.update s.engines e engine } out
  by_cases hslot : s.slot = some e
  · have hlive := hd.live e hslot
    have hother : ∀ e' result, out = .reply e' result →
        reply = Function.update s.reply e' (some result) := by
      rintro e' result rfl
      simpa [State.deliver] using congrArg State.reply heq.symm
    rw [heq]
    -- what the step does to the model and to the replies of loads
    suffices hcases : (reply = s.reply ∧ ((s.engines e).model ≠ none → engine.model ≠ none)) ∨
        ∃ t, reply = Function.update s.reply t (some (.ok ())) ∧ t ∈ (s.engines e).awaiting ∧
          ((s.pc t).view = .unloading ∨ engine.model ≠ none) by
      refine ⟨h.noFailing, fun t hview => ?_, fun e' he' => ?_⟩
      · have hlock := (hd.owner t).mp (by simp [hview])
        rcases hcases with ⟨rfl, hmodel⟩ | ⟨t', rfl, ht', hmodel⟩
        · refine (h.answered t hview).imp_right ?_
          rintro ⟨hok, hloaded⟩
          refine ⟨hok, fun e' he' => ?_⟩
          obtain rfl : e = e' := Option.some.inj (hslot.symm.trans he')
          change (Function.update s.engines e engine e).model ≠ none
          rw [Function.update_self]
          exact hmodel (hloaded e hslot)
        · have hlock' := (h.lock_of_awaiting ht').1
          obtain rfl := Option.some.inj (hlock.symm.trans hlock')
          refine .inr ⟨Function.update_self .., fun e' he' => ?_⟩
          obtain rfl : e = e' := Option.some.inj (hslot.symm.trans he')
          change (Function.update s.engines e engine e).model ≠ none
          rw [Function.update_self]
          refine hmodel.resolve_left ?_
          rw [hview]
          simp
      · obtain rfl : e = e' := Option.some.inj (hslot.symm.trans he')
        change (Function.update s.engines e engine e).model ≠ none ∨ _
        rw [Function.update_self]
        rcases hcases with ⟨-, hmodel⟩ | ⟨t', -, ht', hview | hmodel⟩
        · exact (h.model e hslot).imp_left hmodel
        · refine .inr ⟨t', (h.lock_of_awaiting ht').1, ?_⟩
          change (s.pc t').view.mayLack = _
          rw [hview]
          rfl
        · exact .inl hmodel
    cases Engine.work_step hwork with
    | takeLoad | takeGenerate => exact .inl ⟨hsame (by simp) (by simp), id⟩
    | takeShutdown hidle hqueue => exact absurd (by simp [hqueue]) hlive.noShutdown
    | @takeUnload t rest hidle hqueue =>
        have ht : t ∈ (s.engines e).awaiting := by
          simp [Engine.awaiting, hidle, hqueue, Worker.target, Command.target]
        refine .inr ⟨t, hother t _ rfl, ht, .inl ?_⟩
        refine (h.lock_of_awaiting ht).2.resolve_left fun hview => ?_
        -- a task waiting for a load has a `LoadModel` in the queue, and one command only
        have hknows := hd.knows t
        rw [hview] at hknows
        obtain ⟨e', he', hwill⟩ := hknows
        obtain rfl : e = e' := Option.some.inj (hslot.symm.trans he')
        have hnodup := hlive.nodup
        rcases hwill (hd.waits e t ht).reply with hmem | hloading
        · rw [hqueue] at hmem
          have hmem' := (List.mem_cons.mp hmem).resolve_left (by simp)
          simp only [Engine.awaiting, hidle, hqueue] at hnodup
          exact (List.nodup_cons.mp hnodup).1 (List.mem_filterMap.mpr ⟨_, hmem', rfl⟩)
        · rw [hidle] at hloading
          cases hloading
    | @loaded t hworker =>
        refine .inr ⟨t, hother t _ rfl, ?_, .inr (by simp)⟩
        simp [Engine.awaiting, hworker, Worker.target]
    | @loadFailed t error hworker =>
        simp [Engine.work, hworker, hclean (by rw [hworker]; intro heq; cases heq)] at hwork
    | job _ hjob hmodel =>
        refine .inl ⟨hsame ?_ ?_, fun hsome => ?_⟩
        · generalize (s.engines e).worker = before at hjob
          cases hjob <;> simp
        · generalize (s.engines e).worker = before at hjob
          cases hjob <;> simp
        · rcases hmodel with rfl | rfl
          · exact hsome
          · simp
  · -- the engine in the slot is another
    obtain ⟨-, rfl⟩ := (hd.retired e hslot).step (Engine.work_step hwork)
    have hengines : ∀ e', s.slot = some e' →
        Function.update s.engines e engine e' = s.engines e' := by
      rintro e' he'
      refine Function.update_of_ne ?_ ..
      rintro rfl
      exact hslot he'
    refine ⟨h.noFailing, fun t hview => ?_, fun e' he' => ?_⟩
    · refine (h.answered t hview).imp_right ?_
      rintro ⟨hok, hloaded⟩
      refine ⟨hok, fun e' he' => ?_⟩
      change (Function.update s.engines e engine e').model ≠ none
      rw [hengines e' he']
      exact hloaded e' he'
    · change (Function.update s.engines e engine e').model ≠ none ∨ _
      rw [hengines e' he']
      exact h.model e' he'

/-! ### The model state -/

/-- Steps that change neither the model state nor the slot, and end no call. -/
theorem Settled.agree_congr (h : Settled s) (hslot : s'.slot = s.slot)
    (hstate : s'.modelState = s.modelState)
    (hpending : ∀ t, (s.pc t).pending = true → (s'.pc t).pending = true) :
    (∃ t, (s'.pc t).pending = true) ∨ Agree s' := by
  refine h.agree.imp ?_ ?_
  · rintro ⟨t, ht⟩
    exact ⟨t, hpending t ht⟩
  · unfold Agree
    rw [hslot, hstate]
    exact id

theorem Settled.run_agree {t : TaskId} {o : Oracle} (h : Settled s)
    (hready : ReadyInTime cfg s (.run t o)) (hstep : step cfg s (.run t o) = some s') :
    (∃ t, (s'.pc t).pending = true) ∨ Agree s' := by
  obtain ⟨a, s₁, hperform, rfl⟩ := step_run_iff.mp hstep
  have hframe := perform_frame hperform
  have hpc : ∀ t', t' ≠ t → (s₁.goto t ((program cfg (s.pc t)).next a)).pc t' = s.pc t' := by
    intro t' ht'
    rw [goto_pc_of_ne _ _ ht', hframe.pc]
  cases hpending : (s.pc t).pending with
  | true =>
      -- the call goes on, or writes its last state
      rcases pending_next cfg (s.pc t) a hpending with hnext | hop | ⟨hop, hview⟩ | hview
      · exact .inl ⟨t, by rw [goto_pc_self]; exact hnext⟩
      · refine .inr (.inr ⟨?_, ?_⟩)
        · rcases hframe.slot with ⟨hslot, -⟩ | ⟨hcreate, -⟩ | ⟨hclear, -⟩
          · exact Option.ne_none_iff_exists'.mp (hslot ▸ hready hop)
          · rw [hop] at hcreate
            cases hcreate
          · rw [hop] at hclear
            cases hclear
        · exact hframe.modelState.trans (by rw [hop]; rfl)
      · have hempty := h.disciplined.knows t
        rw [hview] at hempty
        refine .inr (.inl ⟨?_, ?_⟩)
        · rcases hframe.slot with ⟨hslot, -⟩ | ⟨hcreate, -⟩ | ⟨hclear, -⟩
          · exact hslot.trans hempty
          · rw [hop] at hcreate
            cases hcreate
          · rw [hop] at hclear
            cases hclear
        · exact hframe.modelState.trans (by rw [hop]; rfl)
      · exact absurd hview (h.noFailing t)
  | false =>
      have hsettles : (program cfg (s.pc t)).op.settles = false := by
        by_contra hne
        have htrue := settles_pending cfg (s.pc t) (by simpa using hne)
        rw [hpending] at htrue
        cases htrue
      refine h.agree_congr ?_ ?_ ?_
      · rcases hframe.slot with ⟨hslot, -⟩ | ⟨hcreate, -⟩ | ⟨hclear, -⟩
        · exact hslot
        · rw [hcreate] at hsettles
          cases hsettles
        · rw [hclear] at hsettles
          cases hsettles
      · refine hframe.modelState.trans ?_
        revert hsettles
        cases (program cfg (s.pc t)).op <;> first | exact fun _ => rfl | nofun
      · intro t' ht'
        rw [hpc t' (by rintro rfl; rw [hpending] at ht'; cases ht')]
        exact ht'

theorem Settled.step {event : Event} (h : Settled s)
    (hok : Clean cfg s event ∧ ReadyInTime cfg s event) (hstep : step cfg s event = some s') :
    Settled s' := by
  have hd := h.disciplined.step hstep
  have hwith : EngineSettled s' → (∀ t, s'.pc t ≠ .cancelled) →
      ((∃ t, (s'.pc t).pending = true) ∨ Agree s') → Settled s' :=
    fun hengine hcancelled hagree =>
      ⟨hd, hengine.noFailing, hcancelled, hengine.answered, hengine.model, hagree⟩
  cases event with
  | call call =>
      cases hstep
      have hunborn := h.disciplined.unborn s.nextTask (Nat.le_refl _)
      have hpc : ∀ t, t ≠ s.nextTask → Function.update s.pc s.nextTask call.start t = s.pc t :=
        fun t ht => Function.update_of_ne ht ..
      refine hwith (h.engineSettled.congr ⟨rfl, rfl, rfl, rfl⟩ fun t => ?_) (fun t => ?_)
        (h.agree_congr rfl rfl fun t ht => ?_)
      · change (Function.update s.pc s.nextTask call.start t).view = _
        by_cases hne : t = s.nextTask
        · subst hne
          rw [Function.update_self, start_view, hunborn]
          rfl
        · rw [hpc t hne]
      · change Function.update s.pc s.nextTask call.start t ≠ _
        by_cases hne : t = s.nextTask
        · subst hne
          rw [Function.update_self]
          exact start_ne_cancelled call
        · rw [hpc t hne]
          exact h.noCancelled t
      · change (Function.update s.pc s.nextTask call.start t).pending = true
        rw [hpc t (by rintro rfl; rw [hunborn] at ht; cases ht)]
        exact ht
  | run t o =>
      refine hwith (h.run_engine hok.1 hstep) (fun t' => ?_) (h.run_agree hok.2 hstep)
      obtain ⟨a, s₁, hperform, rfl⟩ := step_run_iff.mp hstep
      by_cases ht : t' = t
      · subst ht
        rw [goto_pc_self]
        exact next_ne_cancelled cfg _ a
      · rw [goto_pc_of_ne _ _ ht, (perform_frame hperform).pc]
        exact h.noCancelled t'
  | wake t =>
      simp only [AiDaemon.step] at hstep
      split at hstep
      next hpc =>
        cases hstep
        have hsame : ∀ t', t' ≠ t → Function.update s.pc t (.watchdog .created) t' = s.pc t' :=
          fun t' ht' => Function.update_of_ne ht' ..
        refine hwith (h.engineSettled.congr ⟨rfl, rfl, rfl, rfl⟩ fun t' => ?_) (fun t' => ?_)
          (h.agree_congr rfl rfl fun t' ht' => ?_)
        · change (Function.update s.pc t _ t').view = _
          by_cases ht : t' = t
          · subst ht
            rw [Function.update_self, hpc]
            rfl
          · rw [hsame t' ht]
        · change Function.update s.pc t _ t' ≠ _
          by_cases ht : t' = t
          · subst ht
            rw [Function.update_self]
            simp
          · rw [hsame t' ht]
            exact h.noCancelled t'
        · change (Function.update s.pc t _ t').pending = true
          rw [hsame t' (by rintro rfl; rw [hpc] at ht'; cases ht')]
          exact ht'
      · cases hstep
  | cancel t => exact hok.1.elim
  | work e o =>
      refine hwith (h.work_engine hok.1 hstep) ?_ ?_ <;>
        obtain ⟨⟨engine, out⟩, -, rfl⟩ := Option.map_eq_some_iff.mp hstep <;>
        obtain ⟨reply, tokens, produced, heq, -⟩ := deliver_eq
          { s with engines := Function.update s.engines e engine } out <;>
        rw [heq]
      · exact h.noCancelled
      · exact h.agree_congr rfl rfl fun _ => id
  | read t =>
      simp only [AiDaemon.step] at hstep
      split_ifs at hstep
      cases hstep
      exact hwith (h.engineSettled.congr ⟨rfl, rfl, rfl, rfl⟩ fun _ => rfl) h.noCancelled
        (h.agree_congr rfl rfl fun _ => id)
  | disconnect t | tick =>
      cases hstep
      exact hwith (h.engineSettled.congr ⟨rfl, rfl, rfl, rfl⟩ fun _ => rfl) h.noCancelled
        (h.agree_congr rfl rfl fun _ => id)

end Steps

/-! ## Agreement at rest -/

/-- No call of `ensure_model_loaded` or `unload_model` is in progress. -/
def AtRest (s : State) : Prop := ∀ t, (s.pc t).inCall = false

/-- The model state is right about the engine. -/
structure StateAgrees (s : State) : Prop where
  ready : s.modelState = .ready ↔ ∃ e, s.slot = some e ∧ (s.engines e).model ≠ none
  unloaded : s.modelState = .unloaded ↔ s.slot = none
  settled : s.modelState ≠ .loading ∧ s.modelState ≠ .unloading

theorem Settled.stateAgrees {s : State} (h : Settled s) (hrest : AtRest s) : StateAgrees s := by
  have hmodel : ∀ e, s.slot = some e → (s.engines e).model ≠ none := by
    intro e he
    refine (h.model e he).resolve_right ?_
    rintro ⟨t, -, hlack⟩
    have hcall := inCall_of_mayLack hlack
    rw [hrest t] at hcall
    cases hcall
  have hagree : Agree s := by
    refine h.agree.resolve_left ?_
    rintro ⟨t, hpending⟩
    have hcall := inCall_of_pending hpending
    rw [hrest t] at hcall
    cases hcall
  rcases hagree with ⟨hslot, hstate⟩ | ⟨⟨e, hslot⟩, hstate⟩
  · exact ⟨by simp [hslot, hstate], by simp [hslot, hstate], by simp [hstate], by simp [hstate]⟩
  · have hloaded := hmodel e hslot
    exact ⟨by simp [hslot, hstate, hloaded], by simp [hslot, hstate], by simp [hstate],
      by simp [hstate]⟩

/-- **The model state agrees with the engine at rest**, in runs whose calls all
write `Ready` while the slot holds an engine. -/
theorem stateAgrees_of_readyInTime {cfg : Config} {s : State}
    (h : (system cfg).ReachableWhere (fun s e => Clean cfg s e ∧ ReadyInTime cfg s e) s)
    (hrest : AtRest s) : StateAgrees s := by
  refine Settled.stateAgrees ?_ hrest
  exact h.invariant (I := Settled) (by rintro _ ⟨mode, timeout, rfl⟩; exact .initial mode timeout)
    fun _ _ _ _ hs hok hstep => hs.step hok hstep

/-- Tasks not begun are at rest. -/
theorem Disciplined.atRest {s : State} (h : Disciplined s)
    (hrest : ((List.range s.nextTask).all fun t => !(s.pc t).inCall) = true) : AtRest s := by
  intro t
  by_cases ht : t < s.nextTask
  · simpa using List.all_eq_true.mp hrest t (List.mem_range.mpr ht)
  · rw [h.unborn t (Nat.le_of_not_lt ht)]
    rfl

/-- A replayed run that ends at rest. -/
theorem exists_atRest (cfg : Config) (ok : State → Event → Prop) [∀ s e, Decidable (ok s e)]
    (mode : DaemonMode) (timeout : ℕ) (es : List Event) (slot : Option EngineId)
    (state : ModelState)
    (hrun : ((system cfg).runWhere ok (.initial mode timeout) es).map (fun s =>
      ((List.range s.nextTask).all fun t => !(s.pc t).inCall, s.slot, s.modelState)) =
        some (true, slot, state)) :
    ∃ s, (system cfg).ReachableWhere ok s ∧ AtRest s ∧ s.slot = slot ∧ s.modelState = state := by
  obtain ⟨s, hs, heq⟩ := Option.map_eq_some_iff.mp hrun
  simp only [Prod.mk.injEq] at heq
  have hreach := Transition.System.ReachableWhere.runWhere
    (.init (S := system cfg) ⟨mode, timeout, rfl⟩) hs
  exact ⟨s, hreach, (reachableWhere_disciplined hreach).atRest heq.1, heq.2.1, heq.2.2⟩

theorem stateAgrees_of_readyInTime_reloading :
    ∃ s, (system sampleConfig).ReachableWhere
        (fun s e => Clean sampleConfig s e ∧ ReadyInTime sampleConfig s e) s ∧
      s.slot = some 1 ∧ StateAgrees s := by
  obtain ⟨s, hs, hrest, hslot, -⟩ := exists_atRest sampleConfig
    (fun s e => Clean sampleConfig s e ∧ ReadyInTime sampleConfig s e) .onDemand 300 reloading
    (some 1) .ready (by rfl)
  exact ⟨s, hs, hslot, stateAgrees_of_readyInTime hs hrest⟩

/-- The model was loaded at start-up.  A watchdog finds it idle and is about to
unload it; a request arrives, finds the engine in its slot and releases the mutex;
the watchdog empties the slot; the request writes `Ready`. -/
def overtaken : List Event :=
  [.call .ensureModelLoaded] ++ runs 0 5 ++ [.work 0 {}, .work 0 {}] ++ runs 0 6 ++
    [.call .inactivityWatchdog] ++ List.replicate 30 .tick ++ [.wake 1] ++ runs 1 7 ++
    [.call (.generate greeting)] ++ runs 2 5 ++
    runs 1 2 ++ [.work 0 {}] ++ runs 1 4 ++ runs 2 5

/-- Without the condition the model state may be wrong for good. -/
theorem not_stateAgrees_overtaken :
    ¬ ∀ cfg s, (system cfg).ReachableWhere (Clean cfg) s → AtRest s → StateAgrees s := by
  intro halways
  obtain ⟨s, hs, hrest, hslot, hstate⟩ := exists_atRest sampleConfig
    (Clean sampleConfig) .onDemand 30 overtaken none .ready (by rfl)
  obtain ⟨e, he, -⟩ := (halways _ s hs hrest).ready.mp hstate
  rw [hslot] at he
  cases he

end NiraOS.AiDaemon
