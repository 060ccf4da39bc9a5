import NiraOS.Lib.Potential
import NiraOS.AiDaemon.Delivery
import Mathlib.Algebra.GroupWithZero.Nat

/-!
# Every generation ends

The system's own events are the steps of tasks and workers and the reading of
clients.  Where none of them is possible every call has ended (`quiet_finished`),
and no run of them goes on for ever: each lowers the `potential`
(`potential_lt`).  With the safety of delivery this is what the daemon owes to its
clients.
-/

namespace NiraOS.AiDaemon

/-- The system's own events; the others are up to the world. -/
def Event.internal : Event → Prop
  | .run .. | .work .. | .read _ => True
  | .call _ | .wake _ | .cancel _ | .disconnect _ | .tick => False

/-- The task has no operation to perform. -/
inductive Pc.Resting : Pc → Prop
  | unborn : Resting .unborn
  | answered (outcome : Outcome) : Resting (.answered outcome)
  | cancelled : Resting .cancelled
  | asleep : Resting (.watchdog .sleep)

/-! ## Waiting -/

/-- The operation uses the engine in the slot. -/
def Op.needsSlot : Op → Bool
  | .activeModel | .sendLoad | .sendUnload | .sendGenerate .. => true
  | _ => false

section Waiting

variable {cfg : Config} {s : State} {t : TaskId} {o : Oracle}

theorem slot_of_send_eq_none {command : Command} (h : s.send command = none) : s.slot = none := by
  unfold State.send at h
  split at h
  next hslot => exact hslot
  · split at h <;> cases h

/-- Why an operation has to wait. -/
theorem blocked_cases {op : Op} (h : perform o s t op = none) :
    op = .halt ∨ (op = .lockEngine ∧ s.lock ≠ none) ∨ (op = .awaitReply ∧ s.reply t = none) ∨
      (op = .receiveToken ∧ ¬ (s.tokens t).Waiting ∧ (s.tokens t).senderOpen = true) ∨
      (∃ response, op = .sendResponse response ∧ (s.responses t).receiverOpen = true ∧
        ¬ (s.responses t).Room) ∨
      (op.needsSlot = true ∧ s.slot = none) := by
  cases op with
  | halt => exact .inl rfl
  | lockEngine =>
      simp only [perform] at h
      split_ifs at h with hlock
      exact .inr (.inl ⟨rfl, hlock⟩)
  | awaitReply => exact .inr (.inr (.inl ⟨rfl, Option.map_eq_none_iff.mp h⟩))
  | receiveToken =>
      simp only [perform, State.receiveToken] at h
      split_ifs at h with hwaiting hclosed
      exact .inr (.inr (.inr (.inl ⟨rfl, hwaiting, by simpa using hclosed⟩)))
  | sendResponse response =>
      simp only [perform, State.sendResponse] at h
      split_ifs at h with hclosed hroom
      exact .inr (.inr (.inr (.inr (.inl ⟨response, rfl, by simpa using hclosed, hroom⟩))))
  | createBackend =>
      simp only [perform] at h
      split at h <;> cases h
  | activeModel =>
      exact .inr (.inr (.inr (.inr (.inr ⟨rfl, Option.map_eq_none_iff.mp h⟩))))
  | sendLoad | sendUnload =>
      have hslot := slot_of_send_eq_none (s := { s with reply := Function.update s.reply t none }) h
      exact .inr (.inr (.inr (.inr (.inr ⟨rfl, hslot⟩))))
  | sendGenerate prompt maxTokens =>
      simp only [perform, State.sendGenerate] at h
      split_ifs at h
      split at h
      next hnone => exact .inr (.inr (.inr (.inr (.inr ⟨rfl, slot_of_send_eq_none hnone⟩))))
      · cases h
      · cases h
  | _ => cases h

/-- What the protocol says of an operation, whatever its answer. -/
theorem exists_leads (cfg : Config) (pc : Pc) {op : Op} (hop : (program cfg pc).op = op)
    (a : op.Answer) : ∃ v', op.Leads pc.view a v' := by
  subst hop
  exact ⟨_, program_leads cfg pc a⟩

theorem view_of_needsSlot {pc : Pc} {op : Op} (hop : (program cfg pc).op = op)
    (hneeds : op.needsSlot = true) : pc.view = .checking ∨ pc.view = .present := by
  cases op with
  | activeModel => exact .inl (exists_leads cfg pc hop "").choose_spec.1
  | sendLoad => exact .inl (exists_leads cfg pc hop (.ok ())).choose_spec.1
  | sendUnload | sendGenerate => exact .inr (exists_leads cfg pc hop (.ok ())).choose_spec.1
  | _ => cases hneeds

theorem view_of_lockEngine {pc : Pc} (hop : (program cfg pc).op = .lockEngine) :
    pc.view = .outside :=
  (exists_leads cfg pc hop true).choose_spec.1

theorem view_of_awaitReply {pc : Pc} (hop : (program cfg pc).op = .awaitReply) :
    pc.view = .loading ∨ pc.view = .unloading :=
  (exists_leads cfg pc hop (.ok ())).choose_spec.imp And.left And.left

theorem resting_of_halt {pc : Pc} (hop : (program cfg pc).op = .halt) : pc.Resting := by
  cases pc with
  | ensure caller stage => cases stage <;> cases hop
  | unload fromWatchdog stage => cases stage <;> cases hop
  | watchdog stage =>
      cases stage with
      | sleep => exact .asleep
      | _ => cases hop
  | modeSet stage => cases stage <;> cases hop
  | generate req stage => cases stage <;> cases hop
  | stream req stage => cases stage <;> cases hop
  | serve stage => cases stage <;> cases hop
  | unborn => exact .unborn
  | answered outcome => exact .answered outcome
  | cancelled => exact .cancelled
  | _ => cases hop

theorem Pc.Resting.view {pc : Pc} (h : pc.Resting) : pc.view = .outside := by
  cases h <;> rfl

/-- A task that waits for a token reads the token channel. -/
theorem Ledger.At.reading {l : Ledger} {pc : Pc} (h : l.At cfg pc)
    (hop : (program cfg pc).op = .receiveToken) : l.Reading := by
  cases pc with
  | ensure caller stage => cases stage <;> cases hop
  | unload fromWatchdog stage => cases stage <;> cases hop
  | watchdog stage | modeSet stage => cases stage <;> cases hop
  | generate req stage =>
      cases stage with
      | collect fullText tokensUsed => exact h.2.2.1
      | _ => cases hop
  | stream req stage => cases stage <;> cases hop
  | serve stage =>
      cases stage with
      | receive tokensUsed => exact h.1
      | _ => cases hop
  | _ => cases hop

/-- A task that takes the mutex or waits for a reply has no accepted command. -/
theorem Ledger.At.idle_of_waiting {l : Ledger} {pc : Pc} (h : l.At cfg pc)
    (hop : (program cfg pc).op = .lockEngine ∨ (program cfg pc).op = .awaitReply) : l.Idle := by
  cases pc with
  | ensure caller stage =>
      cases caller with
      | plain | setMode => exact h
      | generate req => exact h.2
      | stream prompt maxTokens => exact h.1
  | unload fromWatchdog stage => exact h
  | watchdog stage => exact h
  | setMode mode => exact h
  | modeSet stage => exact h
  | generate req stage =>
      cases stage with
      | lock prompt => exact h.2.2
      | _ => rcases hop with hop | hop <;> cases hop
  | stream req stage => exact h
  | serve stage =>
      cases stage with
      | lock prompt maxTokens => exact h.1
      | _ => rcases hop with hop | hop <;> cases hop
  | _ => rcases hop with hop | hop <;> cases hop

/-- A task at rest reads no token channel. -/
theorem Ledger.At.not_reading {l : Ledger} {pc : Pc} (h : l.At cfg pc) (hrest : pc.Resting) :
    ¬ l.Reading := by
  rintro ⟨hsub, hopen⟩
  cases hrest with
  | unborn => exact h.1.not_submitted hsub
  | answered outcome => exact absurd (hopen.symm.trans h.1.1) nofun
  | cancelled => exact absurd (hopen.symm.trans h) nofun
  | asleep => exact Idle.not_submitted h hsub

end Waiting

/-! ## Quiet states -/

section Quiet

variable {cfg : Config} {s : State}

/-- In a quiet state every response channel has room, or no client. -/
theorem room_of_quiet (hquiet : (system cfg).Quiet Event.internal s) (t : TaskId)
    (hopen : (s.responses t).receiverOpen = true) : ¬ (s.responses t).Waiting := by
  intro hwaiting
  have hread : step cfg s (.read t) = none := hquiet (.read t) trivial
  rw [step, dif_pos ⟨hwaiting, hopen⟩] at hread
  cases hread

theorem blocked_of_quiet (hquiet : (system cfg).Quiet Event.internal s) (t : TaskId) :
    perform {} s t (program cfg (s.pc t)).op = none := by
  have hrun : step cfg s (.run t {}) = none := hquiet (.run t {}) trivial
  rw [step, Option.map_eq_none_iff] at hrun
  exact hrun

/-- What may keep a task of a quiet state from being at rest. -/
theorem Delivering.waits_of_quiet (h : Delivering cfg s)
    (hquiet : (system cfg).Quiet Event.internal s) (t : TaskId) :
    (s.pc t).Resting ∨
      ((program cfg (s.pc t)).op = .lockEngine ∧ s.lock ≠ none) ∨
      ((program cfg (s.pc t)).op = .awaitReply ∧ s.reply t = none) ∨
      ((program cfg (s.pc t)).op = .receiveToken ∧ ¬ (s.tokens t).Waiting ∧
        (s.tokens t).senderOpen = true) := by
  rcases blocked_cases (blocked_of_quiet hquiet t) with hop | hop | hop | hop | hop | hop
  · exact .inl (resting_of_halt hop)
  · exact .inr (.inl hop)
  · exact .inr (.inr (.inl hop))
  · exact .inr (.inr (.inr hop))
  · obtain ⟨response, -, hopen, hroom⟩ := hop
    exact absurd (Channel.room_of_not_waiting _ (room_of_quiet hquiet t hopen)) hroom
  · -- under the mutex the slot is known to hold an engine
    obtain ⟨hneeds, hslot⟩ := hop
    have hknows := h.disciplined.knows t
    rcases view_of_needsSlot rfl hneeds with hview | hview <;> rw [hview] at hknows <;>
      obtain ⟨e, he⟩ := hknows <;> rw [hslot] at he <;> cases he

/-- No worker of a quiet state waits to send a terminal item. -/
theorem Delivering.room_for_last (h : Delivering cfg s)
    (hquiet : (system cfg).Quiet Event.internal s) {e : EngineId} {t : TaskId}
    (ht : t ∈ (s.engines e).jobs) (hopen : (s.tokens t).receiverOpen = true) :
    (s.tokens t).Room := by
  by_contra hroom
  have hwaiting := Channel.waiting_of_not_room _ hroom
  have hsub := ((h.jobs t).mp ⟨e, ht⟩).1
  rcases h.waits_of_quiet hquiet t with hrest | ⟨hop, -⟩ | ⟨hop, -⟩ | ⟨-, hempty, -⟩
  · exact (h.stage t).not_reading hrest ⟨hsub, hopen⟩
  · exact ((h.stage t).idle_of_waiting (.inl hop)).not_submitted hsub
  · exact ((h.stage t).idle_of_waiting (.inr hop)).not_submitted hsub
  · exact hempty hwaiting

/-- The workers of a quiet state have nothing to do. -/
theorem Delivering.idle_of_quiet (h : Delivering cfg s)
    (hquiet : (system cfg).Quiet Event.internal s) (e : EngineId) :
    ((s.engines e).worker = .idle ∨ (s.engines e).worker = .exited) ∧ (s.engines e).queue = [] := by
  have hstuck : (s.engines e).work cfg s.tokens {} = none := by
    have hwork : AiDaemon.step cfg s (.work e {}) = none := hquiet (.work e {}) trivial
    rw [AiDaemon.step, Option.map_eq_none_iff] at hwork
    exact hwork
  have hexited : (s.engines e).worker = .exited → (s.engines e).queue = [] := by
    intro hworker
    by_cases hslot : s.slot = some e
    · exact absurd hworker (h.disciplined.live e hslot).running
    · rcases (h.disciplined.retired e hslot).rest with ⟨hidle, -⟩ | ⟨-, hqueue⟩
      · rw [hidle] at hworker
        cases hworker
      · exact hqueue
  -- a worker with something to do can do it, except for sending a terminal item
  unfold Engine.work at hstuck
  split at hstuck
  next hidle =>
    split at hstuck
    next hqueue => exact ⟨.inl hidle, hqueue⟩
    · cases hstuck
  next => cases hstuck
  next => cases hstuck
  next => dsimp only at hstuck; split_ifs at hstuck
  next => cases hstuck
  next => cases hstuck
  next job last hworker =>
    split_ifs at hstuck with hclosed hroom
    refine absurd (h.room_for_last hquiet (e := e) ?_ (by simpa using hclosed)) hroom
    simp [Engine.jobs, hworker, Worker.job]
  next hworker => exact ⟨.inr hworker, hexited hworker⟩

theorem Delivering.jobs_of_quiet (h : Delivering cfg s)
    (hquiet : (system cfg).Quiet Event.internal s) (e : EngineId) : (s.engines e).jobs = [] := by
  obtain ⟨hworker | hworker, hqueue⟩ := h.idle_of_quiet hquiet e <;>
    simp [Engine.jobs, hworker, hqueue, Worker.job]

theorem Delivering.not_awaiting_of_quiet (h : Delivering cfg s)
    (hquiet : (system cfg).Quiet Event.internal s) {t : TaskId}
    (hop : (program cfg (s.pc t)).op = .awaitReply) : s.reply t ≠ none := by
  intro hreply
  have hknows := h.disciplined.knows t
  rcases view_of_awaitReply hop with hview | hview <;> rw [hview] at hknows
  · obtain ⟨e, -, hwill⟩ := hknows
    obtain ⟨hworker, hqueue⟩ := h.idle_of_quiet hquiet e
    rcases hwill hreply with hmem | hloading
    · rw [hqueue] at hmem
      cases hmem
    · rw [hloading] at hworker
      rcases hworker with hworker | hworker <;> cases hworker
  · obtain ⟨e, -, ⟨-, before, hlast⟩ | ⟨hok, -⟩⟩ := hknows
    · rw [(h.idle_of_quiet hquiet e).2] at hlast
      simp at hlast
    · rw [hreply] at hok
      cases hok

theorem Delivering.not_receiving_of_quiet (h : Delivering cfg s)
    (hquiet : (system cfg).Quiet Event.internal s) {t : TaskId}
    (hop : (program cfg (s.pc t)).op = .receiveToken) : (s.tokens t).senderOpen = false := by
  by_contra hopen
  have hsub := ((h.stage t).reading hop).submitted
  obtain ⟨e, ht⟩ := (h.jobs t).mpr ⟨hsub, by simpa using hopen⟩
  rw [h.jobs_of_quiet hquiet e] at ht
  cases ht

/-- The engine mutex of a quiet state is free: its owner could go on. -/
theorem Delivering.unlocked_of_quiet (h : Delivering cfg s)
    (hquiet : (system cfg).Quiet Event.internal s) : s.lock = none := by
  by_contra hlock
  obtain ⟨t, ht⟩ := Option.ne_none_iff_exists'.mp hlock
  have hview := (h.disciplined.owner t).mpr ht
  rcases h.waits_of_quiet hquiet t with hrest | ⟨hop, -⟩ | ⟨hop, hreply⟩ | ⟨hop, -, hopen⟩
  · exact hview hrest.view
  · exact hview (view_of_lockEngine hop)
  · exact h.not_awaiting_of_quiet hquiet hop hreply
  · exact absurd (hopen.symm.trans (h.not_receiving_of_quiet hquiet hop)) nofun

/-- Every task of a quiet state is at rest. -/
theorem Delivering.resting_of_quiet (h : Delivering cfg s)
    (hquiet : (system cfg).Quiet Event.internal s) (t : TaskId) : (s.pc t).Resting := by
  rcases h.waits_of_quiet hquiet t with hrest | ⟨-, hlock⟩ | ⟨hop, hreply⟩ | ⟨hop, -, hopen⟩
  · exact hrest
  · exact absurd (h.unlocked_of_quiet hquiet) hlock
  · exact absurd hreply (h.not_awaiting_of_quiet hquiet hop)
  · exact absurd (hopen.symm.trans (h.not_receiving_of_quiet hquiet hop)) nofun

/-- What clients have got when nothing is in progress any more. -/
structure Finished (s : State) : Prop where
  /-- Every call has ended. -/
  resting : ∀ t, (s.pc t).Resting
  /-- The client of an accepted stream, if it is there, has received all pieces, in order
  and without gaps, and one terminal item, and the stream is closed. -/
  stream : ∀ t, (s.pc t).accepted = true → (s.responses t).receiverOpen = true →
    (∃ last, IsLast last ∧ (s.responses t).taken = pieceResponses (s.produced t) ++ [last]) ∧
      (s.responses t).senderOpen = false
  /-- The sender of an accepted command has received its terminal item, or has left. -/
  command : ∀ t, s.submitted t = true →
    (s.ledger t).Read ∨ s.pc t = .cancelled ∨ (s.responses t).receiverOpen = false

/-- **Nothing is left in progress in a quiet state.** -/
theorem Delivering.finished (h : Delivering cfg s) (hquiet : (system cfg).Quiet Event.internal s) :
    Finished s where
  resting := h.resting_of_quiet hquiet
  stream t haccepted hopen := by
    have hpc : s.pc t = .answered .streamEnded := by
      have hrest := h.resting_of_quiet hquiet t
      generalize s.pc t = pc at hrest haccepted
      cases hrest with
      | answered outcome =>
          cases outcome with
          | streamEnded => rfl
          | _ => cases haccepted
      | _ => cases haccepted
    obtain ⟨hdelivered, hclosed⟩ := h.delivers.done t hpc hopen
    obtain ⟨last, hlast, hsent⟩ := hdelivered.sent
    refine ⟨⟨last, hlast, ?_⟩, hclosed⟩
    rw [Channel.taken_of_not_waiting _ (room_of_quiet hquiet t hopen)]
    exact hsent
  command t hsub := by
    rcases (h.stage t).settled hsub with hread | hrest
    · exact absurd hread ((h.stage t).not_reading (h.resting_of_quiet hquiet t))
    · exact hrest

end Quiet

/-! ## The potential

How much there is left to do.  A job is worth enough to pay for every piece it may
send, a waiting token for its way to the client, a waiting response for being read. -/

/-- A `Generate` command in a queue; its worker loads, starts, samples and finishes. -/
def jobWeight (maxTokens : ℕ) : ℕ := 4 * maxTokens + 8

def Command.weight : Command → ℕ
  | .loadModel _ => 2
  | .unloadModel _ => 1
  | .generate job => jobWeight job.maxTokens
  | .shutdown => 1

def Worker.weight : Worker → ℕ
  | .idle | .exited => 0
  | .loading _ => 1
  | .lazyLoading job => 4 * job.maxTokens + 7
  | .starting job => 4 * job.maxTokens + 6
  | .generating _ budget => 4 * budget + 5
  | .finishing .. => 4

def queueWeight (queue : List Command) : ℕ := (queue.map Command.weight).sum

def Engine.weight (e : Engine) : ℕ := e.worker.weight + queueWeight e.queue

def GeneratePc.weight (req : GenerateRequest) : GeneratePc → ℕ
  | .touch .. => 2
  | .refuse _ | .quickAction => 2
  | .clock _ => 3
  | .dispatch .. => 4
  | .collect .. => 5
  | .unlock => 6
  | .send _ => jobWeight req.maxTokens.toNat + 7
  | .lock _ => jobWeight req.maxTokens.toNat + 8
  | .enrich => jobWeight req.maxTokens.toNat + 9
  | .checkState => jobWeight req.maxTokens.toNat + 23
  | .checkMode => jobWeight req.maxTokens.toNat + 24

def ServePc.weight : ServePc → ℕ
  | .touch _ | .refused => 2
  | .clock | .quickReply _ | .fail _ => 3
  | .receive _ | .refuse _ => 4
  | .unlock | .forwardError _ => 5
  | .forward .. => 6
  | .send _ maxTokens => jobWeight maxTokens + 6
  | .lock _ maxTokens => jobWeight maxTokens + 7

/-- What the caller of `ensure_model_loaded` does with the result. -/
def EnsureCaller.weight : EnsureCaller → ℕ
  | .plain | .setMode => 1
  | .generate req => jobWeight req.maxTokens.toNat + 9
  | .stream _ maxTokens => jobWeight maxTokens + 7

def EnsurePc.weight : EnsurePc → ℕ
  | .writeReady | .fail _ => 1
  | .touch _ => 2
  | .clock => 3
  | .unlock => 4
  | .reply => 5
  | .load => 8
  | .status => 9
  | .create => 10
  | .writeLoading => 11
  | .lock => 12

def UnloadPc.weight : UnloadPc → ℕ
  | .unlock | .fail _ => 2
  | .writeUnloaded => 3
  | .clear => 5
  | .reply => 6
  | .send => 8
  | .lock => 9
  | .writeUnloading => 10

def WatchdogPc.weight : WatchdogPc → ℕ
  | .sleep => 0
  | .state => 11
  | .now .. => 12
  | .last _ => 13
  | .timeout => 14
  | .mode => 15
  | .created => 16

def StreamPc.weight (req : GenerateRequest) : StreamPc → ℕ
  | .openQuick _ => 4
  | .quickAction => 5
  | .accept _ => jobWeight req.maxTokens.toNat + 20
  | .enrich => jobWeight req.maxTokens.toNat + 21
  | .checkState => jobWeight req.maxTokens.toNat + 22
  | .checkMode => jobWeight req.maxTokens.toNat + 23

def Pc.weight : Pc → ℕ
  | .unborn | .answered _ | .cancelled => 0
  | .returning _ => 1
  | .ensure caller stage => caller.weight + stage.weight
  | .unload _ stage => stage.weight
  | .watchdog stage => stage.weight
  | .setMode _ => 14
  | .modeSet .created => 3
  | .modeSet .state => 2
  | .setTimeout _ => 2
  | .generate req stage => stage.weight req
  | .stream req stage => stage.weight req
  | .serve stage => stage.weight

/-- What an operation may add to the channels of its task. -/
def Op.channelGain : Op → ℕ
  | .sendResponse _ => 1
  | _ => 0

/-- What an operation may add to the engines. -/
def Op.engineGain : Op → ℕ
  | .sendLoad => 2
  | .sendUnload | .clearSlot => 1
  | .sendGenerate _ maxTokens => jobWeight maxTokens
  | _ => 0

def Op.gain (op : Op) : ℕ := op.channelGain + op.engineGain

/-- What an operation takes away elsewhere. -/
def Op.drain : (op : Op) → op.Answer → ℕ
  | .receiveToken, some _ => 3
  | _, _ => 0

section Weight

variable {cfg : Config}

theorem afterEnsure_weight (caller : EnsureCaller) (result : Except String Unit) :
    (afterEnsure caller result).weight ≤ caller.weight := by
  cases caller with
  | plain | setMode => rcases result with error | ⟨⟩ <;> exact Nat.le_refl _
  | generate req =>
      rcases result with error | ⟨⟩
      · exact Nat.le_add_left 1 _
      · simp only [afterEnsure, generateLoaded, Pc.weight, EnsureCaller.weight]
        split_ifs <;> simp only [GeneratePc.weight] <;> omega
  | stream prompt maxTokens =>
      rcases result with error | ⟨⟩ <;>
        simp only [afterEnsure, Pc.weight, EnsureCaller.weight, ServePc.weight] <;> omega

theorem ensureModelLoaded_weight (caller : EnsureCaller) (stage : EnsurePc)
    (a : (ensureModelLoaded caller stage).op.Answer) :
    ((ensureModelLoaded caller stage).next a).weight + (ensureModelLoaded caller stage).op.gain <
      caller.weight + stage.weight := by
  cases stage with
  | lock | status =>
      simp only [ensureModelLoaded, Pc.weight, Op.gain, Op.channelGain, Op.engineGain]
      split_ifs <;> simp only [EnsurePc.weight] <;> omega
  | create | load | reply =>
      rcases (a : Except String Unit) with error | ⟨⟩ <;>
        simp only [ensureModelLoaded, Pc.weight, Op.gain, Op.channelGain, Op.engineGain,
          EnsurePc.weight] <;> omega
  | fail error | writeReady =>
      have hle := afterEnsure_weight caller
      simp only [ensureModelLoaded, Op.gain, Op.channelGain, Op.engineGain, EnsurePc.weight]
      exact Nat.lt_succ_of_le (hle _)
  | _ =>
      simp only [ensureModelLoaded, Pc.weight, Op.gain, Op.channelGain, Op.engineGain,
        EnsurePc.weight]
      omega

theorem unloadModel_weight (fromWatchdog : Bool) (stage : UnloadPc)
    (a : (unloadModel fromWatchdog stage).op.Answer) :
    ((unloadModel fromWatchdog stage).next a).weight + (unloadModel fromWatchdog stage).op.gain <
      stage.weight := by
  cases stage with
  | lock =>
      simp only [unloadModel, Pc.weight, Op.gain, Op.channelGain, Op.engineGain]
      split_ifs <;> simp only [UnloadPc.weight] <;> omega
  | send | reply =>
      rcases (a : Except String Unit) with error | ⟨⟩ <;>
        simp only [unloadModel, Pc.weight, Op.gain, Op.channelGain, Op.engineGain,
          UnloadPc.weight] <;> omega
  | unlock | fail error => cases fromWatchdog <;> exact Nat.le_of_ble_eq_true rfl
  | _ => exact Nat.le_of_ble_eq_true rfl

theorem inactivityWatchdog_weight (stage : WatchdogPc) (a : (inactivityWatchdog stage).op.Answer) :
    ((inactivityWatchdog stage).next a).weight + (inactivityWatchdog stage).op.gain <
      stage.weight := by
  cases stage with
  | sleep => nomatch (a : Empty)
  | created | mode | now =>
      simp only [inactivityWatchdog, Pc.weight, Op.gain, Op.channelGain, Op.engineGain]
      split_ifs <;> exact Nat.le_of_ble_eq_true rfl
  | state =>
      simp only [inactivityWatchdog, Op.gain, Op.channelGain, Op.engineGain]
      split_ifs <;> exact Nat.le_of_ble_eq_true rfl
  | timeout | last => exact Nat.le_of_ble_eq_true rfl

theorem generate_weight (cfg : Config) (req : GenerateRequest) (stage : GeneratePc)
    (a : (generate cfg req stage).op.Answer) :
    ((generate cfg req stage).next a).weight + (generate cfg req stage).op.gain <
      stage.weight req + (generate cfg req stage).op.drain a := by
  cases stage with
  | checkMode | checkState =>
      simp only [generate, Op.gain, Op.channelGain, Op.engineGain, GeneratePc.weight]
      split_ifs <;>
        simp only [Pc.weight, EnsureCaller.weight, EnsurePc.weight, GeneratePc.weight] <;> omega
  | lock prompt =>
      simp only [generate, Pc.weight, Op.gain, Op.channelGain, Op.engineGain]
      split_ifs <;> simp only [GeneratePc.weight] <;> omega
  | send prompt =>
      rcases (a : Except String Unit) with error | ⟨⟩ <;>
        simp only [generate, Pc.weight, Op.gain, Op.channelGain, Op.engineGain,
          GeneratePc.weight] <;> omega
  | collect fullText tokensUsed =>
      rcases (a : Option Item) with _ | error | token
      · simp only [generate, afterCollect, Op.gain, Op.channelGain, Op.engineGain]
        split <;> exact Nat.le_of_ble_eq_true rfl
      · exact Nat.le_of_ble_eq_true rfl
      · simp only [generate, Op.gain, Op.channelGain, Op.engineGain]
        split_ifs <;> exact Nat.le_of_ble_eq_true rfl
  | _ =>
      simp only [generate, Pc.weight, Op.gain, Op.channelGain, Op.engineGain, GeneratePc.weight]
      omega

theorem streamGenerate_weight (req : GenerateRequest) (stage : StreamPc)
    (a : (streamGenerate req stage).op.Answer) :
    ((streamGenerate req stage).next a).weight + (streamGenerate req stage).op.gain <
      stage.weight req := by
  cases stage with
  | checkMode | checkState =>
      simp only [streamGenerate, Op.gain, Op.channelGain, Op.engineGain, StreamPc.weight]
      split_ifs <;> simp only [Pc.weight, StreamPc.weight] <;> omega
  | openQuick text => exact Nat.le_of_ble_eq_true rfl
  | _ =>
      simp only [streamGenerate, Pc.weight, Op.gain, Op.channelGain, Op.engineGain, StreamPc.weight,
        EnsureCaller.weight,
        EnsurePc.weight]
      omega

theorem serveStream_weight (stage : ServePc) (a : (serveStream stage).op.Answer) :
    ((serveStream stage).next a).weight + (serveStream stage).op.gain <
      stage.weight + (serveStream stage).op.drain a := by
  cases stage with
  | lock prompt maxTokens =>
      simp only [serveStream, Pc.weight, Op.gain, Op.channelGain, Op.engineGain]
      split_ifs <;> simp only [ServePc.weight] <;> omega
  | send prompt maxTokens =>
      rcases (a : Except String Unit) with error | ⟨⟩ <;>
        simp only [serveStream, Pc.weight, Op.gain, Op.channelGain, Op.engineGain,
          ServePc.weight] <;> omega
  | receive tokensUsed =>
      rcases (a : Option Item) with _ | error | token <;> exact Nat.le_of_ble_eq_true rfl
  | forward token tokensUsed =>
      simp only [serveStream, Pc.weight, Op.gain, Op.channelGain, Op.engineGain]
      split_ifs <;> simp only [ServePc.weight] <;> omega
  | _ =>
      simp only [serveStream, Pc.weight, Op.gain, Op.channelGain, Op.engineGain, ServePc.weight]
      omega

/-- **An operation costs its task** more than it adds elsewhere. -/
theorem program_weight (cfg : Config) (pc : Pc) (a : (program cfg pc).op.Answer) :
    ((program cfg pc).next a).weight + (program cfg pc).op.gain <
      pc.weight + (program cfg pc).op.drain a := by
  cases pc with
  | ensure caller stage =>
      exact Nat.lt_of_lt_of_le (ensureModelLoaded_weight caller stage a) (Nat.le_add_right ..)
  | unload fromWatchdog stage =>
      exact Nat.lt_of_lt_of_le (unloadModel_weight fromWatchdog stage a) (Nat.le_add_right ..)
  | watchdog stage =>
      exact Nat.lt_of_lt_of_le (inactivityWatchdog_weight stage a) (Nat.le_add_right ..)
  | setMode mode =>
      simp only [program, Op.gain, Op.channelGain, Op.engineGain]
      split_ifs <;> exact Nat.le_of_ble_eq_true rfl
  | modeSet stage =>
      cases stage with
      | created =>
          simp only [program, Op.gain, Op.channelGain, Op.engineGain]
          split_ifs <;> exact Nat.le_of_ble_eq_true rfl
      | state => exact Nat.le_of_ble_eq_true rfl
  | generate req stage => exact generate_weight cfg req stage a
  | stream req stage =>
      exact Nat.lt_of_lt_of_le (streamGenerate_weight req stage a) (Nat.le_add_right ..)
  | serve stage => exact serveStream_weight stage a
  | unborn | answered outcome | cancelled => exact Empty.elim a
  | _ => exact Nat.le_of_ble_eq_true rfl

end Weight

/-! ### States -/

/-- What waits in the channels of a task. -/
def State.channelWeight (s : State) (t : TaskId) : ℕ :=
  3 * (s.tokens t).unread + (s.responses t).unread

def State.taskWeight (s : State) (t : TaskId) : ℕ := (s.pc t).weight + s.channelWeight t

def State.enginesWeight (s : State) : ℕ :=
  Potential.total (fun e => (s.engines e).weight) s.nextEngine

def State.potential (s : State) : ℕ := Potential.total s.taskWeight s.nextTask + s.enginesWeight

/-- Engines and tasks not created yet are blank. -/
structure Numbered (s : State) : Prop where
  engines : ∀ e, s.nextEngine ≤ e → s.engines e = .new
  slot : ∀ e, s.slot = some e → e < s.nextEngine
  responses : ∀ t, s.nextTask ≤ t → (s.responses t).sent = []

section Potential

variable {cfg : Config} {s s' s₁ : State} {t : TaskId} {o : Oracle}

@[simp] theorem queueWeight_append (queue : List Command) (command : Command) :
    queueWeight (queue ++ [command]) = queueWeight queue + command.weight := by
  simp [queueWeight]

@[simp] theorem queueWeight_nil : queueWeight [] = 0 := rfl

@[simp] theorem queueWeight_cons (command : Command) (queue : List Command) :
    queueWeight (command :: queue) = command.weight + queueWeight queue := by
  simp [queueWeight]

@[simp] theorem enqueue_weight (e : Engine) (command : Command) :
    (e.enqueue command).weight = e.weight + command.weight := by
  simp [Engine.weight, Engine.enqueue, Nat.add_assoc]

theorem dropHandle_weight (e : Engine) : e.dropHandle.weight ≤ e.weight + 1 := by
  unfold Engine.dropHandle Engine.send
  split_ifs
  · exact Nat.le_succ _
  · exact Nat.le_of_eq (enqueue_weight e .shutdown)

/-- One engine grows heavier. -/
theorem enginesWeight_update {e : EngineId} {engine : Engine} {k : ℕ}
    (hle : engine.weight ≤ (s.engines e).weight + k) :
    Potential.total (fun e' => (Function.update s.engines e engine e').weight) s.nextEngine ≤
      s.enginesWeight + k := by
  refine Potential.total_le_add (i := e) (fun e' he' => ?_) ?_
  · rw [Function.update_of_ne he']
  · rw [Function.update_self]
    exact hle

theorem send_weight {command : Command} {a : Except String Unit}
    (h : s.send command = some (a, s₁)) :
    s₁.enginesWeight ≤ s.enginesWeight + command.weight := by
  obtain ⟨e, -, ⟨-, rfl, -⟩ | ⟨-, -, rfl⟩⟩ := send_eq h
  · exact Nat.le_add_right ..
  · exact enginesWeight_update (Nat.le_of_eq (enqueue_weight ..))

theorem channelWeight_eq {l : Ledger} (h : s.ledger t = l) :
    s.channelWeight t = 3 * l.tokens.unread + l.responses.unread := by
  subst h
  rfl

/-- What an operation adds to the channels of its task, and takes from them. -/
theorem Op.Effect.weight {op : Op} {a : op.Answer} {l l' : Ledger} (h : op.Effect l l' a) :
    3 * l'.tokens.unread + l'.responses.unread + op.drain a ≤
      3 * l.tokens.unread + l.responses.unread +
        op.channelGain := by
  cases op with
  | sendGenerate prompt maxTokens =>
      rcases (a : Except String Unit) with error | ⟨⟩
      · obtain rfl : l' = l := h
        exact Nat.le_refl _
      · obtain rfl := h
        simp only [Channel.unread_fresh, Op.drain]
        omega
  | receiveToken =>
      rcases (a : Option Item) with _ | item
      · obtain ⟨-, -, rfl⟩ := h
        exact Nat.le_refl _
      · obtain ⟨hwaiting, -, rfl⟩ := h
        have hpop := Channel.unread_pop l.tokens hwaiting
        simp only [Op.drain]
        omega
  | openStream capacity hcapacity =>
      obtain rfl := h
      simp only [Channel.unread_fresh, Op.drain]
      omega
  | sendResponse response =>
      cases (a : Bool) with
      | true =>
          obtain ⟨hroom, rfl⟩ := h
          simp only [Channel.unread_push, Op.drain, Op.channelGain]
          omega
      | false =>
          obtain ⟨-, rfl⟩ := h
          exact Nat.le_succ _
  | close =>
      obtain rfl := h
      exact Nat.le_refl _
  | _ =>
      obtain rfl : l' = l := h
      exact Nat.le_refl _

/-- What an operation adds to the engines. -/
theorem perform_enginesWeight {op : Op} {a : op.Answer} (h : perform o s t op = some (a, s₁)) :
    s₁.enginesWeight ≤ s.enginesWeight + op.engineGain := by
  by_cases hop : op.onEngine = false
  · have hframe := perform_frame h
    have hsame : s₁.enginesWeight = s.enginesWeight := by
      unfold State.enginesWeight
      rw [(perform_sameEngine h hop).engines]
      rcases hframe.slot with ⟨-, hnext⟩ | ⟨rfl, -⟩ | ⟨rfl, -⟩
      · rw [hnext]
      · cases hop
      · cases hop
    rw [hsame]
    exact Nat.le_add_right ..
  cases op with
  | lockEngine =>
      simp only [perform] at h
      split_ifs at h
      cases h
      exact Nat.le_refl _
  | unlockEngine =>
      cases h
      exact Nat.le_refl _
  | createBackend =>
      simp only [perform] at h
      split at h <;> cases h
      · exact Nat.le_refl _
      · -- the new engine has nothing to do
        simp only [State.enginesWeight, Potential.total_succ, Function.update_self]
        refine Nat.le_of_eq (Potential.total_congr fun e he => ?_)
        rw [Function.update_of_ne he.ne]
  | activeModel | awaitReply =>
      obtain ⟨_, -, heq⟩ := Option.map_eq_some_iff.mp h
      cases heq
      exact Nat.le_refl _
  | sendLoad | sendUnload => exact send_weight h
  | clearSlot =>
      cases h
      unfold State.clearSlot
      cases s.slot with
      | none => exact Nat.le_add_right ..
      | some e => exact enginesWeight_update (dropHandle_weight _)
  | sendGenerate prompt maxTokens =>
      obtain ⟨rfl, -⟩ | ⟨e, -, -, -, -, rfl⟩ := sendGenerate_eq h
      · exact Nat.le_add_right ..
      · exact enginesWeight_update (Nat.le_of_eq (enqueue_weight ..))
  | _ => exact absurd rfl hop

/-- **An operation lowers the potential**, though it may pass work on. -/
theorem run_potential (hnext : t < s.nextTask) (hstep : step cfg s (.run t o) = some s') :
    s'.potential < s.potential := by
  obtain ⟨a, s₁, hperform, rfl⟩ := step_run_iff.mp hstep
  have hprogram := program_weight cfg (s.pc t) a
  have hengines := perform_enginesWeight hperform
  obtain ⟨heffect, hothers⟩ := perform_ledger hperform
  have hchannels := heffect.weight
  have hframe := perform_frame hperform
  have htasks := Potential.total_add_of_lt (f := s.taskWeight)
    (g := (s₁.goto t ((program cfg (s.pc t)).next a)).taskWeight) hnext fun t' ht' => by
      unfold State.taskWeight
      rw [goto_pc_of_ne _ _ ht', hframe.pc, channelWeight_eq (goto_ledger ..),
        channelWeight_eq (hothers t' ht').symm]
  have hbefore : s.taskWeight t = (s.pc t).weight +
      (3 * (s.ledger t).tokens.unread + (s.ledger t).responses.unread) := rfl
  have hafter : (s₁.goto t ((program cfg (s.pc t)).next a)).taskWeight t =
      ((program cfg (s.pc t)).next a).weight +
        (3 * (s₁.ledger t).tokens.unread + (s₁.ledger t).responses.unread) := by
    unfold State.taskWeight
    rw [goto_pc_self]
    rfl
  have hpotential : (s₁.goto t ((program cfg (s.pc t)).next a)).potential =
      Potential.total (s₁.goto t ((program cfg (s.pc t)).next a)).taskWeight s.nextTask +
        s₁.enginesWeight := by
    unfold State.potential
    rw [show (s₁.goto t ((program cfg (s.pc t)).next a)).nextTask = s.nextTask from hframe.nextTask]
    rfl
  rw [hpotential]
  unfold State.potential Op.gain at *
  omega

/-! ### Workers -/

/-- What a step of a worker puts into a token channel. -/
def Output.gain : Output → ℕ
  | .sent .. | .terminal .. => 3
  | _ => 0

theorem JobStep.weight {channel : Channel Item} {job : Job} {before after : Worker} {out : Output}
    (h : JobStep channel job before after out) : after.weight + out.gain < before.weight := by
  cases h with
  | sent budget htext hroom hnext =>
      rcases hnext with rfl | ⟨error, rfl⟩ <;> simp only [Worker.weight, Output.gain] <;> omega
  | _ =>
      simp only [Worker.weight, Output.gain]
      omega

theorem Engine.Step.weight {tokens : TaskId → Channel Item} {e e' : Engine} {out : Output}
    (h : e.Step cfg tokens e' out) : e'.weight + out.gain < e.weight := by
  cases h with
  | takeLoad hidle hqueue | takeUnload hidle hqueue =>
      simp only [Engine.weight, hidle, hqueue, queueWeight_cons, Worker.weight, Command.weight,
        Output.gain]
      omega
  | takeGenerate hidle hqueue hworker =>
      rcases hworker with rfl | rfl <;>
        simp only [Engine.weight, hidle, hqueue, queueWeight_cons, Worker.weight, Command.weight,
          jobWeight, Output.gain] <;> omega
  | takeShutdown hidle hqueue =>
      simp only [Engine.weight, hidle, hqueue, queueWeight_cons, Worker.weight, Command.weight,
        Output.gain, queueWeight_nil]
      omega
  | loaded hworker | loadFailed _ hworker =>
      simp only [Engine.weight, hworker, Worker.weight, Output.gain]
      omega
  | job _ hjob hmodel =>
      have hjob := hjob.weight
      simp only [Engine.weight]
      omega

/-- Delivery is paid for by the worker. -/
theorem deliver_weight (s : State) (out : Output) (n : ℕ) :
    Potential.total (s.deliver out).taskWeight n ≤ Potential.total s.taskWeight n + out.gain := by
  -- a channel whose unread items grow by one at most
  have hupdate : ∀ (t : TaskId) (channel : Channel Item) (produced : TaskId → List String) (k : ℕ),
      3 * channel.unread ≤ 3 * (s.tokens t).unread + k →
      Potential.total ({ s with
        tokens := Function.update s.tokens t channel, produced } : State).taskWeight n ≤
          Potential.total s.taskWeight n + k := by
    intro t channel produced k hle
    refine Potential.total_le_add (i := t) (fun t' ht' => ?_) ?_
    · simp only [State.taskWeight, State.channelWeight, Function.update_of_ne ht']
    · simp only [State.taskWeight, State.channelWeight, Function.update_self]
      omega
  cases out with
  | silent | reply t result => exact Nat.le_refl _
  | sent t text =>
      simp only [State.deliver]
      split
      next hroom =>
        refine hupdate t _ _ 3 ?_
        rw [Channel.unread_push]
        omega
      · exact Nat.le_add_right ..
  | refused t text => exact hupdate t _ _ 0 (Nat.le_refl _)
  | terminal t last =>
      simp only [State.deliver]
      split
      next hroom =>
        refine hupdate t _ _ 3 ?_
        rw [Channel.unread_closeSender, Channel.unread_push]
        omega
      · exact Nat.le_add_right ..
  | unheard t => exact hupdate t _ _ 0 (Nat.le_refl _)
  | dropped commands =>
      have hsame : ∀ s : State, (s.deliver (.dropped commands)).taskWeight = s.taskWeight := by
        induction commands with
        | nil => exact fun _ => rfl
        | cons command commands ih =>
            intro s
            refine (ih (s.dropCommand command)).trans (funext fun t => ?_)
            cases command with
            | generate job =>
                simp only [State.dropCommand, State.taskWeight, State.channelWeight]
                by_cases ht : t = job.task
                · subst ht
                  rw [Function.update_self]
                  rfl
                · rw [Function.update_of_ne ht]
            | _ => rfl
      rw [hsame]
      exact Nat.le_add_right ..

theorem work_potential {e : EngineId} {o : WorkerOracle} (h : Numbered s)
    (hstep : step cfg s (.work e o) = some s') : s'.potential < s.potential := by
  obtain ⟨⟨engine, out⟩, hwork, rfl⟩ := Option.map_eq_some_iff.mp hstep
  have hweight := (Engine.work_step hwork).weight
  have hnext : e < s.nextEngine := by
    by_contra hle
    rw [h.engines e (Nat.le_of_not_lt hle)] at hwork
    cases hwork
  have hengines := Potential.total_add_of_lt (f := fun e' => (s.engines e').weight)
    (g := fun e' => (Function.update s.engines e engine e').weight) hnext fun e' he' => by
      rw [Function.update_of_ne he']
  simp only [Function.update_self] at hengines
  have hdeliver := deliver_weight { s with engines := Function.update s.engines e engine } out
    s.nextTask
  obtain ⟨reply, tokens, produced, heq, -⟩ := deliver_eq
    { s with engines := Function.update s.engines e engine } out
  have hnextTask : ({ s with engines := Function.update s.engines e engine }.deliver out).nextTask =
      s.nextTask := by rw [heq]
  have henginesWeight :
      ({ s with engines := Function.update s.engines e engine }.deliver out).enginesWeight =
        Potential.total (fun e' => (Function.update s.engines e engine e').weight)
          s.nextEngine := by
    rw [heq]
    rfl
  have htasks : State.taskWeight { s with engines := Function.update s.engines e engine } =
      s.taskWeight := rfl
  change ({ s with engines := Function.update s.engines e engine }.deliver out).potential <
    s.potential
  unfold State.potential
  rw [hnextTask, henginesWeight]
  rw [htasks] at hdeliver
  unfold State.enginesWeight
  omega

/-! ### Clients -/

theorem read_potential (h : Numbered s) (hstep : step cfg s (.read t) = some s') :
    s'.potential < s.potential := by
  rw [step] at hstep
  split_ifs at hstep with hread
  cases hstep
  have hnext : t < s.nextTask := by
    by_contra hle
    have hwaiting := hread.1
    unfold Channel.Waiting at hwaiting
    rw [h.responses t (Nat.le_of_not_lt hle)] at hwaiting
    cases hwaiting
  have hpop := Channel.unread_pop _ hread.1
  have htasks := Potential.total_add_of_lt (f := s.taskWeight)
    (g := State.taskWeight { s with
      responses := Function.update s.responses t ((s.responses t).pop hread.1) }) hnext
    fun t' ht' => by simp only [State.taskWeight, State.channelWeight, Function.update_of_ne ht']
  simp only [State.taskWeight, State.channelWeight, Function.update_self] at htasks
  unfold State.potential
  change _ + s.enginesWeight < _ + s.enginesWeight
  dsimp only [State.taskWeight] at *
  omega

/-! ### Runs -/

theorem Numbered.initial (mode : DaemonMode) (inactivityTimeout : ℕ) :
    Numbered (.initial mode inactivityTimeout) :=
  ⟨fun _ _ => rfl, nofun, fun _ _ => rfl⟩

theorem Numbered.update {e : EngineId} (h : Numbered s) (he : e < s.nextEngine) (engine : Engine) :
    ∀ e', s.nextEngine ≤ e' → Function.update s.engines e engine e' = .new := by
  intro e' he'
  rw [Function.update_of_ne (Nat.lt_of_lt_of_le he he').ne']
  exact h.engines e' he'

theorem Numbered.perform_engines {op : Op} {a : op.Answer} (h : Numbered s)
    (hperform : perform o s t op = some (a, s₁)) :
    ∀ e, s₁.nextEngine ≤ e → s₁.engines e = .new := by
  have hframe := perform_frame hperform
  by_cases hop : op.onEngine = false
  · intro e he
    rw [(perform_sameEngine hperform hop).engines]
    refine h.engines e ?_
    rcases hframe.slot with ⟨-, hnext⟩ | ⟨rfl, -⟩ | ⟨rfl, -⟩
    · rwa [hnext] at he
    · cases hop
    · cases hop
  cases op with
  | lockEngine =>
      simp only [perform] at hperform
      split_ifs at hperform
      cases hperform
      exact h.engines
  | unlockEngine =>
      cases hperform
      exact h.engines
  | createBackend =>
      simp only [perform] at hperform
      split at hperform <;> cases hperform
      · exact h.engines
      · intro e he
        have hlt : s.nextEngine < e := he
        simp only [Function.update_of_ne hlt.ne']
        exact h.engines e hlt.le
  | activeModel | awaitReply =>
      obtain ⟨_, -, heq⟩ := Option.map_eq_some_iff.mp hperform
      cases heq
      exact h.engines
  | sendLoad | sendUnload =>
      obtain ⟨e, hslot, ⟨-, rfl, -⟩ | ⟨-, -, rfl⟩⟩ := send_eq hperform
      · exact h.engines
      · exact h.update (h.slot e hslot) _
  | clearSlot =>
      cases hperform
      unfold State.clearSlot
      cases hslot : s.slot with
      | none => exact h.engines
      | some e => exact h.update (h.slot e hslot) _
  | sendGenerate prompt maxTokens =>
      obtain ⟨rfl, -⟩ | ⟨e, hslot, -, -, -, rfl⟩ := sendGenerate_eq hperform
      · exact h.engines
      · exact h.update (h.slot e hslot) _
  | _ => exact absurd rfl hop

theorem Disciplined.lt_of_born (h : Disciplined s) (hborn : s.pc t ≠ .unborn) : t < s.nextTask := by
  by_contra hle
  exact hborn (h.unborn t (Nat.le_of_not_lt hle))

theorem Numbered.step {event : Event} (h : Numbered s) (hd : Disciplined s)
    (hstep : step cfg s event = some s') : Numbered s' := by
  cases event with
  | call call =>
      cases hstep
      exact ⟨h.engines, h.slot, fun t ht => h.responses t (Nat.le_of_succ_le ht)⟩
  | run t o =>
      obtain ⟨a, s₁, hperform, rfl⟩ := step_run_iff.mp hstep
      have hframe := perform_frame hperform
      have hlt := hd.lt_of_born (live_of_answer a).2
      have hengines := h.perform_engines hperform
      refine ⟨hengines, fun e he => ?_, fun t' ht' => ?_⟩
      · rcases hframe.slot with ⟨hslot, hnext⟩ | ⟨-, hslot, hnext⟩ | ⟨-, hslot, -⟩
        · change e < s₁.nextEngine
          rw [hnext]
          exact h.slot e (hslot ▸ he)
        · obtain rfl : s.nextEngine = e := Option.some.inj (hslot.symm.trans he)
          change s.nextEngine < s₁.nextEngine
          omega
        · exact absurd (hslot.symm.trans he) nofun
      · have hle : s.nextTask ≤ t' := hframe.nextTask ▸ ht'
        have hsame := (perform_ledger hperform).2 t' (Nat.lt_of_lt_of_le hlt hle).ne'
        exact (congrArg (fun l => l.responses.sent) hsame).trans (h.responses t' hle)
  | wake t =>
      simp only [AiDaemon.step] at hstep
      split at hstep <;> cases hstep
      exact ⟨h.engines, h.slot, h.responses⟩
  | cancel t =>
      obtain ⟨-, rfl⟩ := cancel_eq hstep
      refine ⟨h.engines, h.slot, fun t' ht' => ?_⟩
      have hnone := h.responses t' ht'
      by_cases ht : t' = t
      · subst ht
        simpa [State.goto, State.closeEnds] using hnone
      · simpa [State.goto, State.closeEnds, ht] using hnone
  | work e o =>
      obtain ⟨⟨engine, out⟩, hwork, rfl⟩ := Option.map_eq_some_iff.mp hstep
      have hlt : e < s.nextEngine := by
        by_contra hle
        rw [h.engines e (Nat.le_of_not_lt hle)] at hwork
        cases hwork
      obtain ⟨reply, tokens, produced, heq, -⟩ := deliver_eq
        { s with engines := Function.update s.engines e engine } out
      rw [heq]
      exact ⟨h.update hlt engine, h.slot, h.responses⟩
  | read t | disconnect t =>
      simp only [AiDaemon.step] at hstep
      try split_ifs at hstep
      cases hstep
      refine ⟨h.engines, h.slot, fun t' ht' => ?_⟩
      have hnone := h.responses t' ht'
      by_cases ht : t' = t
      · subst ht
        simpa using hnone
      · simpa [ht] using hnone
  | tick =>
      cases hstep
      exact ⟨h.engines, h.slot, h.responses⟩

/-- **The system's own events lower the potential.** -/
theorem potential_lt {event : Event} (hd : Disciplined s) (h : Numbered s)
    (hinternal : event.internal) (hstep : AiDaemon.step cfg s event = some s') :
    s'.potential < s.potential := by
  cases event with
  | run t o =>
      obtain ⟨a, -, -, -⟩ := step_run_iff.mp hstep
      exact run_potential (hd.lt_of_born (live_of_answer a).2) hstep
  | work e o => exact work_potential h hstep
  | read t => exact read_potential h hstep
  | _ => exact hinternal.elim

/-- Left to itself, the system comes to an end. -/
theorem length_le_potential {es : List Event} (hd : Disciplined s) (h : Numbered s)
    (hinternal : ∀ event ∈ es, event.internal) (hrun : (system cfg).run s es = some s') :
    es.length ≤ s.potential :=
  Transition.System.length_le_of_run (I := fun s => Disciplined s ∧ Numbered s)
    (fun _ _ _ hs hstep => ⟨hs.1.step hstep, hs.2.step hs.1 hstep⟩)
    (fun _ _ _ hs hin hstep => potential_lt hs.1 hs.2 hin hstep) ⟨hd, h⟩ hinternal hrun

theorem reachableWhere_numbered {ok : State → Event → Prop}
    (h : (system cfg).ReachableWhere ok s) : Numbered s :=
  h.invariant (I := Numbered) (by rintro _ ⟨mode, timeout, rfl⟩; exact .initial mode timeout)
    fun _ _ _ hr hs _ hstep => hs.step (reachableWhere_disciplined hr) hstep

end Potential

/-! ## Generation -/

/-- **Generation loses nothing and always ends**, in runs where no piece is produced
into a full channel whose client is there: what clients can rely on holds at any
moment; left to itself the system comes to a state with nothing in progress; and
there everything has arrived. -/
theorem generation_delivers {cfg : Config} {s : State}
    (h : (system cfg).ReachableWhere (fun s e => ¬ Overflows s e) s) :
    Delivers cfg s ∧
      (∀ es s', (∀ event ∈ es, event.internal) → (system cfg).run s es = some s' →
        es.length ≤ s.potential) ∧
      ((system cfg).Quiet Event.internal s → Finished s) := by
  have hd := reachableWhere_delivering h
  refine ⟨hd.delivers, fun es s' hinternal hrun => ?_, hd.finished⟩
  exact length_le_potential hd.disciplined (reachableWhere_numbered h) hinternal hrun

/-- A stream of two pieces. -/
def streaming : List Event :=
  [.call (.streamGenerate greeting)] ++ runs 0 7 ++ [.work 0 {}, .work 0 {}] ++ runs 0 8 ++
    [.work 0 {}, .work 0 {}, .work 0 { sample := .piece "Hi" (.ok ()) }] ++ runs 0 2 ++
    [.read 0, .work 0 { sample := .piece " there" (.ok ()) }, .work 0 {}, .work 0 {}] ++ runs 0 4 ++
    [.read 0, .read 0] ++ runs 0 3

theorem generation_delivers_streaming :
    ∃ s, (system sampleConfig).ReachableWhere (fun s e => ¬ Overflows s e) s ∧
      (s.responses 0).taken =
        [.ok ⟨"Hi", false, 1, none⟩, .ok ⟨" there", false, 2, none⟩, .ok ⟨"", true, 2, none⟩] ∧
      Delivers sampleConfig s ∧ ((system sampleConfig).Quiet Event.internal s → Finished s) := by
  have hrun : ((system sampleConfig).runWhere (fun s e => ¬ Overflows s e) (.initial .onDemand 300)
      streaming).map (fun s => (s.responses 0).taken) = some
        [.ok ⟨"Hi", false, 1, none⟩, .ok ⟨" there", false, 2, none⟩, .ok ⟨"", true, 2, none⟩] := rfl
  obtain ⟨s, hs, htaken⟩ := Option.map_eq_some_iff.mp hrun
  have hreach := Transition.System.ReachableWhere.runWhere
    (.init (S := system sampleConfig) ⟨_, _, rfl⟩) hs
  have hgeneration := generation_delivers hreach
  exact ⟨s, hreach, htaken, hgeneration.1, hgeneration.2.2⟩

/-- The model asks for an action. -/
def openingApp : ToolRequest := ⟨"open_app", [], "asked"⟩

def toolText : String :=
  "\x7b\"type\": \"tool_request\", \"tool\": \"open_app\", \"arguments\": \x7b\x7d, " ++
    "\"reason\": \"asked\"\x7d"

def toolConfig : Config :=
  { sampleConfig with parseToolRequest := fun text =>
    if text = toolText then some openingApp else none }

def acting : List Event :=
  [.call (.generate greeting)] ++ runs 0 6 ++ [.work 0 {}, .work 0 {}] ++ runs 0 8 ++
    [.work 0 {}, .work 0 {}, .work 0 { sample := .piece toolText (.ok ()) }, .work 0 {},
      .work 0 {}] ++
    runs 0 3 ++ [.run 0 { action := .replied "opened" true }] ++ runs 0 3

/-- The model produces pieces faster than the task behind the stream is scheduled. -/
def hurrying : List Event :=
  [.call (.streamGenerate { greeting with maxTokens := 80 })] ++ runs 0 7 ++
    [.work 0 {}, .work 0 {}] ++
    runs 0 8 ++ [.work 0 {}, .work 0 {}] ++
    List.replicate 65 (.work 0 { sample := .piece "a" (.ok ()) }) ++ runs 0 132

set_option maxRecDepth 8000 in
/-- A successful `Generate` need not answer with the text that was produced; and a
stream whose task is slow may end without a terminal item, short of a piece. -/
theorem not_generation_verbatim :
    (¬ ∀ cfg s, (system cfg).Reachable s → ∀ t response,
        s.pc t = .answered (.generated (.ok response)) → response.text = concat (s.produced t)) ∧
      ¬ ∀ cfg s, (system cfg).Reachable s → ∀ t, s.pc t = .answered .streamEnded →
        (s.responses t).receiverOpen = true →
          ∃ last, IsLast last ∧ (s.responses t).sent = pieceResponses (s.produced t) ++ [last] := by
  constructor
  · intro halways
    have hrun : ((system toolConfig).run (.initial .onDemand 300) acting).map
        (fun s => (s.pc 0, s.produced 0)) = some (.answered (.generated (.ok
          ⟨"Tool executed: opened (Success: true)", true, 1, none⟩)), [toolText]) := rfl
    obtain ⟨s, hs, heq⟩ := Option.map_eq_some_iff.mp hrun
    obtain ⟨hpc, hproduced⟩ := Prod.mk.inj heq
    have htext := halways _ s (Transition.System.Reachable.run (.init ⟨_, _, rfl⟩) hs) 0 _ hpc
    rw [hproduced] at htext
    exact absurd htext (by decide)
  · intro halways
    have hrun : ((system sampleConfig).run (.initial .onDemand 300) hurrying).map
        (fun s => (s.pc 0, (s.responses 0).receiverOpen, (s.responses 0).sent.length,
          (s.produced 0).length)) = some (.answered .streamEnded, true, 64, 65) := rfl
    obtain ⟨s, hs, heq⟩ := Option.map_eq_some_iff.mp hrun
    simp only [Prod.mk.injEq] at heq
    obtain ⟨hpc, hopen, hsent, hproduced⟩ := heq
    obtain ⟨last, -, hall⟩ :=
      halways _ s (Transition.System.Reachable.run (.init ⟨_, _, rfl⟩) hs) 0 hpc hopen
    have hlength := congrArg List.length hall
    rw [hsent, List.length_append, pieceResponses, List.length_mapIdx, hproduced] at hlength
    cases hlength

end NiraOS.AiDaemon
