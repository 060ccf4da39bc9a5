import NiraOS.AiDaemon.Ledger

/-!
# Delivery of generated text

`Delivering` adds the engines to the ledgers: the jobs in a queue or at a worker
are exactly the accepted commands whose terminal item is still to come.  So an
accepted command is not lost, whatever calls and workers do in between.

A full token channel is taken for a client that left.  `Overflows` is the step
where that happens to a client that is there, and the results are about runs
without it.
-/

namespace NiraOS.AiDaemon

/-! ## Jobs -/

def Command.job : Command → Option TaskId
  | .generate job => some job.task
  | .loadModel _ | .unloadModel _ | .shutdown => none

def Worker.job : Worker → Option TaskId
  | .lazyLoading job | .starting job | .generating job _ | .finishing job _ => some job.task
  | .idle | .loading _ | .exited => none

/-- The tasks for which the engine has something to generate. -/
def Engine.jobs (e : Engine) : List TaskId :=
  e.worker.job.toList ++ e.queue.filterMap Command.job

theorem Engine.Retired.jobs {e : Engine} (h : e.Retired) : e.jobs = [] := by
  obtain ⟨hworker, hqueue | hqueue⟩ | ⟨hworker, hqueue⟩ := h.rest <;>
    simp [Engine.jobs, hworker, hqueue, Worker.job, Command.job]

/-- The jobs of an idle worker, by the command it takes next. -/
theorem Engine.jobs_of_idle {e : Engine} {command : Command} {rest : List Command}
    (hidle : e.worker = .idle) (hqueue : e.queue = command :: rest) :
    e.jobs = command.job.toList ++ rest.filterMap Command.job := by
  rw [Engine.jobs, hidle, hqueue]
  cases command <;> rfl

/-- The engine has the same jobs to do, and none more to finish. -/
structure Engine.SameJobs (e e' : Engine) : Prop where
  jobs : e'.jobs = e.jobs
  finishing : ∀ job last, e'.worker = .finishing job last → e.worker = .finishing job last

theorem Engine.SameJobs.refl (e : Engine) : e.SameJobs e := ⟨rfl, fun _ _ => id⟩

@[simp] theorem Engine.jobs_enqueue (e : Engine) (command : Command) :
    (e.enqueue command).jobs = e.jobs ++ command.job.toList := by
  simp only [Engine.jobs, Engine.enqueue, List.filterMap_append, List.append_assoc]
  cases command <;> rfl

/-- A piece of text is produced while its channel is full and its client is there. -/
def Overflows (s : State) : Event → Prop
  | .work e o =>
      match (s.engines e).worker, o.sample with
      | .generating job (_ + 1), .piece text _ =>
          text ≠ "" ∧ (s.tokens job.task).receiverOpen = true ∧ ¬ (s.tokens job.task).Room
      | _, _ => False
  | _ => False

instance (s : State) (event : Event) : Decidable (Overflows s event) := by
  unfold Overflows
  split
  · split <;> infer_instance
  · infer_instance

section Work

variable {cfg : Config} {s : State}

/-- Without overflow, `try_send` fails for a client that left only. -/
theorem receiver_closed_of_refused {e : EngineId} {o : WorkerOracle} {engine : Engine}
    {t : TaskId} {text : String} (hok : ¬ Overflows s (.work e o))
    (h : (s.engines e).work cfg s.tokens o = some (engine, .refused t text)) :
    (s.tokens t).receiverOpen = false := by
  unfold Engine.work at h
  split at h
  next hidle =>
    split at h
    · cases h
    next command rest hqueue => cases command <;> cases h
  next => split at h <;> cases h
  next => split at h <;> cases h
  next =>
    split at h
    · cases h
    · split_ifs at h <;> cases h
  next => cases h
  next job budget hworker =>
    simp only [Overflows, hworker] at hok
    cases hsample : o.sample with
    | endOfGeneration | undecodable error => simp [hsample, Engine.sample] at h
    | piece text' next =>
        simp only [hsample] at hok
        simp only [hsample, Engine.sample] at h
        split_ifs at h with hblank hroom
        · cases h
        · cases h
        · cases h
          by_contra hopen
          have hopen' : (s.tokens job.task).receiverOpen = true := by simpa using hopen
          exact hok ⟨hblank, hopen', fun hspace => hroom ⟨hopen', hspace⟩⟩
  next => split_ifs at h <;> cases h
  next => cases h

/-- **A step of a job** and the ledgers: it goes on or feeds its task, and it is over
when the channel has lost its sender. -/
theorem JobStep.ledger {job : Job} {before after : Worker} {out : Output}
    (h : JobStep (s.tokens job.task) job before after out)
    (hlast : ∀ last, before = .finishing job last → last.IsTerminal)
    (hrefused : ∀ t text, out = .refused t text → (s.tokens t).receiverOpen = false) :
    (∀ t, t ≠ job.task → (s.deliver out).ledger t = s.ledger t) ∧
      ((after.job = some job.task ∧ (s.deliver out).ledger job.task = s.ledger job.task) ∨
        ∃ texts tokens, (s.ledger job.task).Fed texts tokens ∧
          (s.deliver out).ledger job.task = (s.ledger job.task).feed texts tokens ∧
          (after.job = some job.task ∧ tokens.senderOpen = (s.tokens job.task).senderOpen ∨
            after = .idle ∧ tokens.senderOpen = false)) := by
  cases h with
  | @sent budget text next htext hroom hnext =>
      simp only [State.deliver, dif_pos hroom]
      refine ⟨fun t ht => by simp [State.ledger, State.updateTokens, State.recordPiece, ht], .inr
        ⟨[text], _, .sent text hroom, by simp [State.ledger, State.updateTokens, State.recordPiece,
          Ledger.feed], .inl ⟨?_, rfl⟩⟩⟩
      rcases hnext with rfl | ⟨error, rfl⟩ <;> rfl
  | @refused budget text htext hfull =>
      have hgone := hrefused _ _ rfl
      exact ⟨fun t ht => by
        simp [State.deliver, State.ledger, State.updateTokens, State.recordPiece, ht],
        .inr ⟨[text], _, .lost [text] hgone, by simp [State.deliver, State.ledger,
          State.updateTokens, State.recordPiece, Ledger.feed], .inr ⟨rfl, rfl⟩⟩⟩
  | @terminal last hopen hroom =>
      have hdeliver : s.deliver (.terminal job.task last) =
          s.updateTokens job.task ((s.tokens job.task).push last hroom).closeSender := dif_pos hroom
      rw [hdeliver]
      exact ⟨fun t ht => by simp [State.ledger, State.updateTokens, ht], .inr
        ⟨[], _, .ended last (hlast last rfl) hroom, by simp [State.ledger, State.updateTokens,
          Ledger.feed], .inr ⟨rfl, rfl⟩⟩⟩
  | @unheard last hclosed =>
      exact ⟨fun t ht => by simp [State.deliver, State.ledger, State.updateTokens, ht],
        .inr ⟨[], _, .lost [] hclosed, by simp [State.deliver, State.ledger, State.updateTokens,
          Ledger.feed], .inr ⟨rfl, rfl⟩⟩⟩
  | _ => exact ⟨fun _ _ => rfl, .inl ⟨rfl, rfl⟩⟩

/-- The terminal item a worker is about to send is one. -/
theorem JobStep.last {channel : Channel Item} {job : Job} {before after : Worker} {out : Output}
    (h : JobStep channel job before after out) {job' : Job} {last : Item}
    (hafter : after = .finishing job' last) : last.IsTerminal := by
  cases h with
  | ended budget hlast =>
      cases hafter
      exact hlast
  | sent budget htext hroom hnext =>
      rcases hnext with rfl | ⟨error, rfl⟩
      · cases hafter
      · cases hafter
        trivial
  | loadFailed error | startFailed error =>
      cases hafter
      trivial
  | _ => cases hafter

/-- A step of a job is about the job of the worker. -/
theorem JobStep.job_before {channel : Channel Item} {job : Job} {before after : Worker}
    {out : Output}
    (h : JobStep channel job before after out) : before.job = some job.task := by
  cases h <;> rfl

end Work

/-! ## The invariant -/

structure Delivering (cfg : Config) (s : State) : Prop where
  disciplined : Disciplined s
  stage : ∀ t, (s.ledger t).At cfg (s.pc t)
  sound : ∀ t, (s.ledger t).Sound
  jobs : ∀ t, (∃ e, t ∈ (s.engines e).jobs) ↔ s.submitted t = true ∧ (s.tokens t).senderOpen = true
  nodup : ∀ e, (s.engines e).jobs.Nodup
  last : ∀ e job last, (s.engines e).worker = .finishing job last → last.IsTerminal

theorem Delivering.initial (cfg : Config) (mode : DaemonMode) (inactivityTimeout : ℕ) :
    Delivering cfg (.initial mode inactivityTimeout) where
  disciplined := .initial mode inactivityTimeout
  stage _ := ⟨⟨rfl, rfl⟩, rfl⟩
  sound _ := rfl
  jobs t := by simp [State.initial, Engine.jobs, Engine.new, Worker.job]
  nodup e := List.nodup_nil
  last e job last h := by cases h

section Steps

variable {cfg : Config} {s s' : State}

/-- Steps that accept no command and process none. -/
theorem Delivering.congr (h : Delivering cfg s) (hd : Disciplined s')
    (hstage : ∀ t, (s'.ledger t).At cfg (s'.pc t)) (hsound : ∀ t, (s'.ledger t).Sound)
    (hengines : ∀ e, (s.engines e).SameJobs (s'.engines e))
    (hsender : ∀ t, s'.submitted t = s.submitted t ∧
      (s'.tokens t).senderOpen = (s.tokens t).senderOpen) : Delivering cfg s' where
  disciplined := hd
  stage := hstage
  sound := hsound
  jobs t := by
    simp only [(hengines _).jobs, (hsender t).1, (hsender t).2]
    exact h.jobs t
  nodup e := by
    rw [(hengines e).jobs]
    exact h.nodup e
  last e job last hworker := h.last e job last ((hengines e).finishing job last hworker)

/-- A task that has a job is the only one to have it, and its engine is in the slot. -/
theorem Delivering.slot_of_job (h : Delivering cfg s) {e : EngineId} {t : TaskId}
    (ht : t ∈ (s.engines e).jobs) : s.slot = some e := by
  by_contra hslot
  rw [(h.disciplined.retired e hslot).jobs] at ht
  cases ht

/-! ### Tasks -/

/-- Which tasks have a sender, across an operation that sends no `Generate`. -/
theorem Op.Effect.sender {op : Op} {a : op.Answer} {l l' : Ledger} (h : op.Effect l l' a)
    (hop : ∀ prompt maxTokens, op ≠ .sendGenerate prompt maxTokens) :
    l'.submitted = l.submitted ∧ l'.tokens.senderOpen = l.tokens.senderOpen := by
  cases op with
  | sendGenerate prompt maxTokens => exact absurd rfl (hop prompt maxTokens)
  | receiveToken =>
      rcases (a : Option Item) with _ | item
      · obtain ⟨-, -, rfl⟩ := h
        exact ⟨rfl, rfl⟩
      · obtain ⟨hwaiting, -, rfl⟩ := h
        exact ⟨rfl, rfl⟩
  | sendResponse response =>
      cases (a : Bool) with
      | true =>
          obtain ⟨hroom, rfl⟩ := h
          exact ⟨rfl, rfl⟩
      | false =>
          obtain ⟨-, rfl⟩ := h
          exact ⟨rfl, rfl⟩
  | _ =>
      cases h
      exact ⟨rfl, rfl⟩

theorem sameJobs_update {e : EngineId} {engine : Engine} (h : (s.engines e).SameJobs engine)
    (e' : EngineId) : (s.engines e').SameJobs (Function.update s.engines e engine e') := by
  by_cases he : e' = e
  · subst he
    rw [Function.update_self]
    exact h
  · rw [Function.update_of_ne he]
    exact .refl _

/-- An operation that sends no `Generate` keeps the jobs of every engine. -/
theorem Disciplined.perform_jobs {t : TaskId} {o : Oracle} {op : Op} {a : op.Answer} {s₁ : State}
    {v' : View} (h : Disciplined s) (hperform : perform o s t op = some (a, s₁))
    (hleads : op.Leads (s.pc t).view a v')
    (hop : ∀ prompt maxTokens, op ≠ .sendGenerate prompt maxTokens) (e : EngineId) :
    (s.engines e).SameJobs (s₁.engines e) := by
  have hknows := h.knows t
  have hrequest : ∀ {command : Command} {a : Except String Unit}, command.job = none →
      s.request t command = some (a, s₁) → (s.engines e).SameJobs (s₁.engines e) := by
    intro command a hjob hsend
    obtain ⟨e', -, ⟨-, rfl, -⟩ | ⟨-, -, rfl⟩⟩ := send_eq hsend
    · exact .refl _
    · have hsame : (s.engines e').SameJobs ((s.engines e').enqueue command) :=
        ⟨by simp [hjob], fun _ _ => id⟩
      exact sameJobs_update hsame e
  by_cases hengine : op.onEngine = false
  · rw [(perform_sameEngine hperform hengine).engines]
    exact .refl _
  cases op with
  | lockEngine =>
      simp only [perform] at hperform
      split_ifs at hperform
      cases hperform
      exact .refl _
  | unlockEngine =>
      cases hperform
      exact .refl _
  | createBackend =>
      rw [hleads.1] at hknows
      have hempty : s.slot = none := hknows
      have hretired := h.retired s.nextEngine (by simp [hempty])
      simp only [perform] at hperform
      split at hperform <;> cases hperform
      · exact .refl _
      · have hsame : (s.engines s.nextEngine).SameJobs .new :=
          ⟨hretired.jobs.symm, fun _ _ hfinishing => by cases hfinishing⟩
        exact sameJobs_update hsame e
  | activeModel | awaitReply =>
      obtain ⟨_, -, heq⟩ := Option.map_eq_some_iff.mp hperform
      cases heq
      exact .refl _
  | sendLoad | sendUnload => exact hrequest rfl hperform
  | clearSlot =>
      rw [hleads.1] at hknows
      cases hperform
      unfold State.clearSlot
      cases hslot : s.slot with
      | none => exact .refl _
      | some e' =>
          refine sameJobs_update ?_ e
          rw [hknows e' hslot]
          exact ⟨rfl, fun _ _ hfinishing => by cases hfinishing⟩
  | sendGenerate prompt maxTokens => exact absurd rfl (hop prompt maxTokens)
  | _ => exact absurd rfl hengine

theorem perform_of_op {t : TaskId} {o : Oracle} {op op' : Op} {a : op.Answer} {s₁ : State}
    (hop : op = op') (h : perform o s t op = some (a, s₁)) :
    ∃ a', perform o s t op' = some (a', s₁) := by
  subst hop
  exact ⟨a, h⟩

theorem Delivering.run {t : TaskId} {o : Oracle} (h : Delivering cfg s)
    (hstep : step cfg s (.run t o) = some s') : Delivering cfg s' := by
  have hd := h.disciplined.step hstep
  obtain ⟨a, s₁, hperform, rfl⟩ := step_run_iff.mp hstep
  obtain ⟨heffect, hothers⟩ := perform_ledger hperform
  have hframe := perform_frame hperform
  have hstage : ∀ t', ((s₁.goto t ((program cfg (s.pc t)).next a)).ledger t').At cfg
      ((s₁.goto t ((program cfg (s.pc t)).next a)).pc t') := by
    intro t'
    by_cases ht : t' = t
    · subst ht
      rw [goto_pc_self]
      exact (h.stage t').next (h.sound t') heffect
    · rw [goto_pc_of_ne _ _ ht, hframe.pc, goto_ledger, hothers t' ht]
      exact h.stage t'
  have hsound : ∀ t', (s₁.ledger t').Sound := by
    intro t'
    by_cases ht : t' = t
    · subst ht
      exact (h.sound t').effect heffect fun _ _ => (h.stage t').idle_of_sendGenerate
    · rw [hothers t' ht]
      exact h.sound t'
  by_cases hop : ∀ prompt maxTokens, (program cfg (s.pc t)).op ≠ .sendGenerate prompt maxTokens
  · have hengines := h.disciplined.perform_jobs hperform (program_leads cfg (s.pc t) a) hop
    refine h.congr hd hstage hsound hengines fun t' => ?_
    by_cases ht : t' = t
    · subst ht
      exact heffect.sender hop
    · have hsame := hothers t' ht
      exact ⟨congrArg Ledger.submitted hsame, congrArg (fun l => l.tokens.senderOpen) hsame⟩
  · -- the command joins the queue, or is refused
    obtain ⟨prompt, maxTokens, hop⟩ : ∃ prompt maxTokens,
        (program cfg (s.pc t)).op = .sendGenerate prompt maxTokens := by
      simpa using hop
    have hidle := (h.stage t).idle_of_sendGenerate hop
    have hnone : ∀ e, t ∉ (s.engines e).jobs := by
      intro e ht
      have hsub := ((h.jobs t).mp ⟨e, ht⟩).1
      exact hidle.not_submitted hsub
    obtain ⟨result, hsend⟩ := perform_of_op hop hperform
    obtain ⟨rfl, -⟩ | ⟨e, hslot, -, -, -, rfl⟩ := sendGenerate_eq hsend
    · exact h.congr hd hstage hsound (fun e => .refl _) fun _ => ⟨rfl, rfl⟩
    refine ⟨hd, hstage, hsound, fun t' => ?_, fun e' => ?_, fun e' job last hworker => ?_⟩
    · change (∃ e', t' ∈ (Function.update s.engines e _ e').jobs) ↔
        Function.update s.submitted t true t' = true ∧
          (Function.update s.tokens t _ t').senderOpen = true
      by_cases ht : t' = t
      · subst ht
        rw [Function.update_self, Function.update_self]
        exact ⟨fun _ => ⟨rfl, rfl⟩, fun _ => ⟨e, by simp [Command.job]⟩⟩
      · rw [Function.update_of_ne ht, Function.update_of_ne ht, ← h.jobs t']
        refine exists_congr fun e' => ?_
        by_cases he : e' = e
        · subst he
          simp [Command.job, ht]
        · rw [Function.update_of_ne he]
    · change (Function.update s.engines e _ e').jobs.Nodup
      by_cases he : e' = e
      · subst he
        rw [Function.update_self, Engine.jobs_enqueue]
        exact (h.nodup e').append (List.nodup_singleton t) (by simpa [Command.job] using hnone e')
      · rw [Function.update_of_ne he]
        exact h.nodup e'
    · change (Function.update s.engines e _ e').worker = _ at hworker
      by_cases he : e' = e
      · subst he
        rw [Function.update_self] at hworker
        exact h.last e' job last hworker
      · rw [Function.update_of_ne he] at hworker
        exact h.last e' job last hworker

/-! ### Workers -/

theorem deliver_frame (s : State) (out : Output) :
    (s.deliver out).pc = s.pc ∧ (s.deliver out).engines = s.engines := by
  obtain ⟨reply, tokens, produced, heq, -⟩ := deliver_eq s out
  rw [heq]
  exact ⟨rfl, rfl⟩

/-- The worker in the slot does something for one of its jobs. -/
theorem Delivering.work_job {e : EngineId} {job : Job} {engine : Engine} {out : Output}
    (h : Delivering cfg s) (hslot : s.slot = some e)
    (hjob : JobStep (s.tokens job.task) job (s.engines e).worker engine.worker out)
    (hqueue : engine.queue = (s.engines e).queue)
    (hrefused : ∀ t text, out = .refused t text → (s.tokens t).receiverOpen = false)
    (hd : Disciplined ({ s with engines := Function.update s.engines e engine }.deliver out)) :
    Delivering cfg ({ s with engines := Function.update s.engines e engine }.deliver out) := by
  have hbefore : (s.engines e).jobs = job.task :: (s.engines e).queue.filterMap Command.job := by
    rw [Engine.jobs, hjob.job_before]
    rfl
  obtain ⟨hsub, hopen⟩ := (h.jobs job.task).mp ⟨e, by rw [hbefore]; exact List.mem_cons_self⟩
  have hfirst := List.nodup_cons.mp (hbefore ▸ h.nodup e)
  obtain ⟨hothers, hledger⟩ := hjob.ledger
    (s := { s with engines := Function.update s.engines e engine })
    (fun last => h.last e job last) hrefused
  obtain ⟨hpc, hengines⟩ :=
    deliver_frame { s with engines := Function.update s.engines e engine } out
  generalize ({ s with engines := Function.update s.engines e engine } : State).deliver out = s'
    at hd hothers hledger hpc hengines
  change ∀ t, t ≠ job.task → s'.ledger t = s.ledger t at hothers
  have hjobs : engine.jobs =
      engine.worker.job.toList ++ (s.engines e).queue.filterMap Command.job := by
    rw [Engine.jobs, hqueue]
  -- the task of the job and what becomes of its channel
  have hcases : (s'.ledger job.task).Sound ∧
    Ledger.Outside (s.ledger job.task) (s'.ledger job.task) ∧
      (engine.worker.job = some job.task ∧ (s'.tokens job.task).senderOpen = true ∨
        engine.worker.job = none ∧ (s'.tokens job.task).senderOpen = false) := by
    rcases hledger with ⟨hgoes, hsame⟩ | ⟨texts, tokens, hfed, heq, hafter⟩
    · rw [hsame]
      refine ⟨h.sound _, .refl _, .inl ⟨hgoes, ?_⟩⟩
      exact (congrArg (fun l => l.tokens.senderOpen) hsame).trans hopen
    · have htokens : s'.tokens job.task = tokens := congrArg Ledger.tokens heq
      rw [heq, htokens]
      refine ⟨(h.sound _).feed hsub hopen hfed, .feed (h.sound _) hsub hopen hfed, ?_⟩
      rcases hafter with ⟨hgoes, hsender⟩ | ⟨hidle, hclosed⟩
      · exact .inl ⟨hgoes, hsender.trans hopen⟩
      · exact .inr ⟨by rw [hidle]; rfl, hclosed⟩
  obtain ⟨hsound, hout, hafter⟩ := hcases
  have hmem : ∀ t, t ≠ job.task → (t ∈ engine.jobs ↔ t ∈ (s.engines e).jobs) := by
    intro t ht
    rw [hjobs, hbefore, List.mem_append, List.mem_cons]
    rcases hafter with ⟨hgoes, -⟩ | ⟨hnone, -⟩
    · simp [hgoes, ht]
    · simp [hnone, ht]
  refine ⟨hd, fun t => ?_, fun t => ?_, fun t => ?_, fun e' => ?_, fun e' job' last hworker => ?_⟩
  · rw [hpc]
    by_cases ht : t = job.task
    · subst ht
      exact (h.stage _).outside hout
    · rw [hothers t ht]
      exact h.stage t
  · by_cases ht : t = job.task
    · subst ht
      exact hsound
    · rw [hothers t ht]
      exact h.sound t
  · rw [hengines]
    by_cases ht : t = job.task
    · subst ht
      have hsub' : s'.submitted job.task = true := hout.submitted.trans hsub
      rcases hafter with ⟨hgoes, hsender⟩ | ⟨hnone, hclosed⟩
      · refine ⟨fun _ => ⟨hsub', hsender⟩, fun _ => ⟨e, ?_⟩⟩
        change _ ∈ (Function.update s.engines e engine e).jobs
        rw [Function.update_self, hjobs, hgoes]
        exact List.mem_cons_self
      · refine ⟨?_, fun h => by rw [hclosed] at h; cases h.2⟩
        rintro ⟨e', he'⟩
        change _ ∈ (Function.update s.engines e engine e').jobs at he'
        by_cases he : e' = e
        · subst he
          rw [Function.update_self, hjobs, hnone] at he'
          exact absurd he' hfirst.1
        · rw [Function.update_of_ne he] at he'
          exact absurd (Option.some.inj ((h.slot_of_job he').symm.trans hslot)) he
    · have hsame := hothers t ht
      rw [show s'.submitted t = s.submitted t from congrArg Ledger.submitted hsame,
        show s'.tokens t = s.tokens t from congrArg Ledger.tokens hsame, ← h.jobs t]
      refine exists_congr fun e' => ?_
      change t ∈ (Function.update s.engines e engine e').jobs ↔ _
      by_cases he : e' = e
      · subst he
        rw [Function.update_self]
        exact hmem t ht
      · rw [Function.update_of_ne he]
  · rw [hengines]
    change (Function.update s.engines e engine e').jobs.Nodup
    by_cases he : e' = e
    · subst he
      rw [Function.update_self, hjobs]
      rcases hafter with ⟨hgoes, -⟩ | ⟨hnone, -⟩
      · rw [hgoes]
        exact List.nodup_cons.mpr hfirst
      · rw [hnone]
        exact hfirst.2
    · rw [Function.update_of_ne he]
      exact h.nodup e'
  · rw [hengines] at hworker
    change (Function.update s.engines e engine e').worker = _ at hworker
    by_cases he : e' = e
    · subst he
      rw [Function.update_self] at hworker
      exact hjob.last hworker
    · rw [Function.update_of_ne he] at hworker
      exact h.last e' job' last hworker

theorem Delivering.work {e : EngineId} {o : WorkerOracle} (h : Delivering cfg s)
    (hok : ¬ Overflows s (.work e o)) (hstep : step cfg s (.work e o) = some s') :
    Delivering cfg s' := by
  have hd := h.disciplined.step hstep
  obtain ⟨⟨engine, out⟩, hwork, rfl⟩ := Option.map_eq_some_iff.mp hstep
  -- a step that leaves the jobs and the channels alone
  have hquiet : (s.engines e).SameJobs engine →
      (∀ t, ({ s with engines := Function.update s.engines e engine }.deliver out).ledger t =
        s.ledger t) →
      Delivering cfg ({ s with engines := Function.update s.engines e engine }.deliver out) := by
    intro hsame hledger
    obtain ⟨hpc, hengines⟩ :=
      deliver_frame { s with engines := Function.update s.engines e engine } out
    refine h.congr hd (fun t => ?_) (fun t => ?_) (fun e' => ?_) fun t => ?_
    · rw [hledger, hpc]
      exact h.stage t
    · rw [hledger]
      exact h.sound t
    · rw [hengines]
      exact sameJobs_update hsame e'
    · exact ⟨congrArg Ledger.submitted (hledger t),
        congrArg (fun l => l.tokens.senderOpen) (hledger t)⟩
  by_cases hslot : s.slot = some e
  · cases Engine.work_step hwork with
    | takeLoad hidle hqueue =>
        exact hquiet ⟨by rw [Engine.jobs_of_idle hidle hqueue]; rfl, nofun⟩ fun _ => rfl
    | takeUnload hidle hqueue =>
        exact hquiet ⟨by rw [Engine.jobs_of_idle hidle hqueue]; rfl, nofun⟩ fun _ => rfl
    | takeGenerate hidle hqueue hworker =>
        refine hquiet ⟨?_, ?_⟩ fun _ => rfl
        · rw [Engine.jobs_of_idle hidle hqueue]
          rcases hworker with rfl | rfl <;> rfl
        · rcases hworker with rfl | rfl <;> nofun
    | takeShutdown hidle hqueue =>
        exact absurd (by simp [hqueue]) (h.disciplined.live e hslot).noShutdown
    | loaded hworker | loadFailed _ hworker =>
        exact hquiet ⟨by simp [Engine.jobs, hworker, Worker.job], nofun⟩ fun _ => rfl
    | job _ hjob hmodel =>
        refine h.work_job hslot hjob rfl ?_ hd
        rintro t text rfl
        exact receiver_closed_of_refused hok hwork
  · have hretired := h.disciplined.retired e hslot
    obtain ⟨hretired', rfl⟩ := hretired.step (Engine.work_step hwork)
    refine hquiet ⟨hretired'.jobs.trans hretired.jobs.symm, fun job last hworker => ?_⟩ fun _ => rfl
    rcases hretired'.rest with ⟨hidle, -⟩ | ⟨hexited, -⟩
    · rw [hidle] at hworker
      cases hworker
    · rw [hexited] at hworker
      cases hworker

/-! ### Other events -/

theorem Ledger.At.start {l : Ledger} (h : l.At cfg .unborn) (call : Call) :
    ({ l with call := some call } : Ledger).At cfg call.start := by
  have hidle : ({ l with call := some call } : Ledger).Idle := ⟨h.1.submitted, h.1.produced⟩
  cases call with
  | setMode mode =>
      simp only [Call.start]
      split <;> exact hidle
  | setInactivityTimeout secs =>
      simp only [Call.start]
      split_ifs <;> exact hidle
  | generate req =>
      simp only [Call.start]
      split
      · exact ⟨rfl, hidle⟩
      · exact hidle.settled
  | streamGenerate req =>
      simp only [Call.start]
      split <;> exact hidle
  | _ => exact hidle

theorem Delivering.call {call : Call} (h : Delivering cfg s)
    (hstep : step cfg s (.call call) = some s') : Delivering cfg s' := by
  have hd := h.disciplined.step hstep
  cases hstep
  have hunborn := h.disciplined.unborn s.nextTask (Nat.le_refl _)
  have hstart := h.stage s.nextTask
  rw [hunborn] at hstart
  have hledger : ∀ t, t ≠ s.nextTask → State.ledger { s with
      pc := Function.update s.pc s.nextTask call.start
      calls := Function.update s.calls s.nextTask (some call)
      nextTask := s.nextTask + 1 } t = s.ledger t := by
    intro t ht
    simp [State.ledger, Function.update_of_ne ht]
  refine h.congr hd (fun t => ?_) (fun t => h.sound t) (fun e => .refl _) fun t => ⟨rfl, rfl⟩
  by_cases ht : t = s.nextTask
  · subst ht
    simp only [State.ledger, Function.update_self]
    exact hstart.start call
  · rw [hledger t ht]
    simp only [Function.update_of_ne ht]
    exact h.stage t

theorem Delivering.wake {t : TaskId} (h : Delivering cfg s)
    (hstep : step cfg s (.wake t) = some s') : Delivering cfg s' := by
  have hd := h.disciplined.step hstep
  simp only [AiDaemon.step] at hstep
  split at hstep
  next hpc =>
    cases hstep
    refine h.congr hd (fun t' => ?_) (fun t' => h.sound t') (fun e => .refl _) fun _ => ⟨rfl, rfl⟩
    rw [goto_ledger]
    by_cases ht : t' = t
    · subst ht
      rw [goto_pc_self]
      have hidle := h.stage t'
      rw [hpc] at hidle
      exact hidle
    · rw [goto_pc_of_ne _ _ ht]
      exact h.stage t'
  next => cases hstep

theorem Delivering.cancel {t : TaskId} (h : Delivering cfg s)
    (hstep : step cfg s (.cancel t) = some s') : Delivering cfg s' := by
  have hd := h.disciplined.step hstep
  obtain ⟨-, rfl⟩ := cancel_eq hstep
  have hself : State.ledger
      (({ s with lock := if s.lock = some t then none else s.lock } : State).closeEnds
      t) t = { s.ledger t with
        tokens := (s.tokens t).closeReceiver
        responses := (s.responses t).closeSender } := by
    simp [State.ledger, State.closeEnds]
  have hothers : ∀ t', t' ≠ t → State.ledger
      (({ s with lock := if s.lock = some t then none else s.lock } : State).closeEnds t) t' =
        s.ledger t' := by
    intro t' ht
    simp [State.ledger, State.closeEnds, Function.update_of_ne ht]
  refine h.congr hd (fun t' => ?_) (fun t' => ?_) (fun e => .refl _) fun t' => ?_
  · rw [goto_ledger]
    by_cases ht : t' = t
    · subst ht
      rw [goto_pc_self, hself]
      exact rfl
    · rw [goto_pc_of_ne _ _ ht, hothers t' ht]
      exact h.stage t'
  · rw [goto_ledger]
    by_cases ht : t' = t
    · subst ht
      rw [hself]
      exact (h.sound t').close _
    · rw [hothers t' ht]
      exact h.sound t'
  · refine ⟨rfl, ?_⟩
    by_cases ht : t' = t
    · subst ht
      simp [State.goto, State.closeEnds]
    · simp [State.goto, State.closeEnds, ht]

/-- The client of a stream takes an item, or leaves. -/
theorem Delivering.client {t : TaskId} {channel : Channel (Except Status AiResponse)}
    (h : Delivering cfg s) (hsent : channel.sent = (s.responses t).sent)
    (hsender : channel.senderOpen = (s.responses t).senderOpen)
    (hreceiver : (s.responses t).receiverOpen = false → channel.receiverOpen = false)
    (hd : Disciplined { s with responses := Function.update s.responses t channel }) :
    Delivering cfg { s with responses := Function.update s.responses t channel } := by
  have hself : State.ledger { s with responses := Function.update s.responses t channel } t =
      { s.ledger t with responses := channel } := by
    simp [State.ledger]
  have hothers : ∀ t', t' ≠ t →
      State.ledger { s with responses := Function.update s.responses t channel } t' =
      s.ledger t' := by
    intro t' ht
    simp [State.ledger, Function.update_of_ne ht]
  have hout : Ledger.Outside (s.ledger t) { s.ledger t with responses := channel } :=
    ⟨⟨rfl, rfl, hsent, hreceiver, List.prefix_rfl, fun _ => rfl, id, fun _ => id⟩, rfl, rfl, rfl,
      hsender⟩
  refine h.congr hd (fun t' => ?_) (fun t' => ?_) (fun e => .refl _) fun _ => ⟨rfl, rfl⟩
  · by_cases ht : t' = t
    · subst ht
      rw [hself]
      exact (h.stage t').outside hout
    · rw [hothers t' ht]
      exact h.stage t'
  · by_cases ht : t' = t
    · subst ht
      rw [hself]
      exact h.sound t'
    · rw [hothers t' ht]
      exact h.sound t'

/-- **One step** without overflow keeps the invariant. -/
theorem Delivering.step {event : Event} (h : Delivering cfg s) (hok : ¬ Overflows s event)
    (hstep : step cfg s event = some s') : Delivering cfg s' := by
  cases event with
  | call call => exact h.call hstep
  | run t o => exact h.run hstep
  | wake t => exact h.wake hstep
  | cancel t => exact h.cancel hstep
  | work e o => exact h.work hok hstep
  | read t =>
      have hd := h.disciplined.step hstep
      simp only [AiDaemon.step] at hstep
      split_ifs at hstep
      cases hstep
      exact h.client rfl rfl id hd
  | disconnect t =>
      have hd := h.disciplined.step hstep
      cases hstep
      exact h.client rfl rfl (fun _ => rfl) hd
  | tick =>
      have hd := h.disciplined.step hstep
      cases hstep
      exact h.congr hd h.stage h.sound (fun e => .refl _) fun _ => ⟨rfl, rfl⟩

theorem reachableWhere_delivering (h : (system cfg).ReachableWhere (fun s e => ¬ Overflows s e) s) :
    Delivering cfg s :=
  h.invariant (I := Delivering cfg)
    (by rintro _ ⟨mode, timeout, rfl⟩; exact .initial cfg mode timeout)
    fun _ _ _ _ hs hok hstep => hs.step hok hstep

end Steps

/-! ## What clients can rely on -/

/-- What clients can rely on in every state. -/
structure Delivers (cfg : Config) (s : State) : Prop where
  /-- The client of an accepted stream was sent pieces of its own, in order and without
  gaps, or all of them and one terminal item, and nothing else. -/
  stream : ∀ t, (s.pc t).accepted = true → (s.ledger t).Streaming ∨ (s.ledger t).Delivered
  /-- A stream that is over while its client is there was delivered. -/
  done : ∀ t, s.pc t = .answered .streamEnded → (s.responses t).receiverOpen = true →
    (s.ledger t).Delivered ∧ (s.responses t).senderOpen = false
  /-- A successful `Generate` answers with the text of all pieces. -/
  answer : ∀ t response, s.pc t = .answered (.generated (.ok response)) →
    ∃ req, s.calls t = some (.generate req) ∧ (s.ledger t).Answers cfg req response
  /-- An accepted command is in a queue or at a worker, or its sender was sent a terminal
  item, or has left. -/
  command : ∀ t, s.submitted t = true →
    (∃ e, t ∈ (s.engines e).jobs) ∨ (s.ledger t).Complete ∨
      s.pc t = .cancelled ∨ (s.responses t).receiverOpen = false

theorem Delivering.delivers {cfg : Config} {s : State} (h : Delivering cfg s) : Delivers cfg s where
  stream t haccepted := (h.stage t).streaming haccepted
  done t hpc hopen := by
    have hstage := h.stage t
    rw [hpc] at hstage
    refine ⟨hstage.2.resolve_right ?_, hstage.1.2⟩
    rintro ⟨hgone, -⟩
    exact absurd (hopen.symm.trans hgone) nofun
  answer t response hpc := by
    have hstage := h.stage t
    rw [hpc] at hstage
    exact hstage.2
  command t hsub := by
    rcases (h.stage t).settled hsub with hread | hread | hpc | hgone
    · rcases (h.sound t).reading hread with ⟨hopen, -⟩ | hcomplete
      · exact .inl ((h.jobs t).mpr ⟨hsub, hopen⟩)
      · exact .inr (.inl hcomplete)
    · exact .inr (.inl hread.complete)
    · exact .inr (.inr (.inl hpc))
    · exact .inr (.inr (.inr hgone))

end NiraOS.AiDaemon
