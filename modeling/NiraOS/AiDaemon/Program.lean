import NiraOS.AiDaemon.Inference

/-!
# The tasks of the daemon

The asynchronous functions of `main.rs` and `grpc/mod.rs` as programs over the
shared state.  A program counter stands before one operation: an access to a
lock, an atomic or a channel, a call to another service, a reading of the clock.
`program` gives the operation and where its answer leads; what the source does
between two operations is in the arguments of the counters.

`ensure_model_loaded` and `unload_model` are called from several places: their
counters carry the caller, to which `afterEnsure` and `afterUnload` return.
-/

namespace NiraOS.AiDaemon

/-! ## Operations -/

inductive Op
  | lockEngine
  | unlockEngine
  | readState
  | writeState (state : ModelState)
  | readMode
  | writeMode (mode : DaemonMode)
  | readTimeout
  | writeTimeout (secs : ℕ)
  | readActivity
  | writeActivity (time : ℕ)
  | readCreated
  | clock
  /-- `LlamaCppBackend::new`, into the slot. -/
  | createBackend
  /-- The `active_model` of `get_hardware_status`. -/
  | activeModel
  | sendLoad
  | sendUnload
  | awaitReply
  /-- `*engine = None`, with `engine_created`. -/
  | clearSlot
  | sendGenerate (prompt : String) (maxTokens : ℕ)
  | receiveToken
  | openStream (capacity : ℕ) (h : 0 < capacity)
  | sendResponse (response : Except Status AiResponse)
  | getContext
  | executeAction (request : ToolRequest)
  /-- The locals are dropped: the ends of the channels the task holds. -/
  | close
  | halt
  deriving DecidableEq

def Op.Answer : Op → Type
  /- whether the slot holds an engine -/
  | .lockEngine | .readCreated | .sendResponse _ => Bool
  | .readState => ModelState
  | .readMode => DaemonMode
  | .readTimeout | .readActivity | .clock => ℕ
  | .createBackend | .sendLoad | .sendUnload | .awaitReply | .sendGenerate .. => Except String Unit
  | .activeModel => String
  | .receiveToken => Option Item
  | .getContext => Option (String × String)
  | .executeAction _ => ActionReply
  | .halt => Empty
  | _ => Unit

/-! ## Program counters -/

inductive EnsureCaller
  /-- Start-up, or any other bare call. -/
  | plain
  | setMode
  | generate (req : GenerateRequest)
  | stream (prompt : String) (maxTokens : ℕ)

inductive EnsurePc
  | lock
  | writeLoading
  | create
  | status
  | load
  | reply
  | unlock
  | fail (error : String)
  | clock
  | touch (now : ℕ)
  | writeReady

inductive UnloadPc
  | writeUnloading
  | lock
  | send
  | reply
  | clear
  | writeUnloaded
  | unlock
  | fail (error : String)

inductive WatchdogPc
  | sleep
  | created
  | mode
  | timeout
  | last (timeout : ℕ)
  | now (timeout last : ℕ)
  | state

inductive GeneratePc
  | checkMode
  | checkState
  | quickAction
  | enrich
  | lock (prompt : String)
  | send (prompt : String)
  | unlock
  | refuse (status : Status)
  | collect (fullText : String) (tokensUsed : ℕ)
  | dispatch (tool : ToolRequest) (fullText : String) (tokensUsed : ℕ)
  | clock (response : AiResponse)
  | touch (response : AiResponse) (now : ℕ)

/-- The handler of `stream_generate`. -/
inductive StreamPc
  | quickAction
  | openQuick (text : String)
  | checkMode
  | checkState
  | enrich
  | accept (prompt : String)

/-- The task behind an accepted stream. -/
inductive ServePc
  | quickReply (text : String)
  | fail (status : Status)
  | lock (prompt : String) (maxTokens : ℕ)
  | send (prompt : String) (maxTokens : ℕ)
  | unlock
  | refuse (status : Status)
  | refused
  | receive (tokensUsed : ℕ)
  | forward (token : Token) (tokensUsed : ℕ)
  | forwardError (status : Status)
  | clock
  | touch (now : ℕ)

/-- `set_mode` with a mode that keeps the model for the watchdog: it looks and does nothing. -/
inductive ModeSetPc
  | created
  | state

/-- What a call ends with. -/
inductive Outcome
  | ensured (result : Except String Unit)
  | unloaded (result : Except String Unit)
  | modeSet (success : Bool) (error : String)
  | timeoutSet (success : Bool) (error : String)
  | generated (result : Except Status AiResponse)
  /-- `stream_generate` returned an error instead of a stream. -/
  | streamRefused (status : Status)
  /-- The task behind an accepted stream ended. -/
  | streamEnded

inductive Pc
  | unborn
  | ensure (caller : EnsureCaller) (stage : EnsurePc)
  /-- The caller of `unload_model` is the watchdog, or it is called bare. -/
  | unload (fromWatchdog : Bool) (stage : UnloadPc)
  | watchdog (stage : WatchdogPc)
  | setMode (mode : DaemonMode)
  | modeSet (stage : ModeSetPc)
  | setTimeout (secs : ℕ)
  | generate (req : GenerateRequest) (stage : GeneratePc)
  | stream (req : GenerateRequest) (stage : StreamPc)
  | serve (stage : ServePc)
  | returning (outcome : Outcome)
  | answered (outcome : Outcome)
  | cancelled

/-! ## The functions -/

def notLoaded : Status :=
  ⟨.failedPrecondition,
    "AI model is not loaded. Use Settings → AI to enable a mode that loads the model."⟩

def notAvailable : Status := ⟨.internal, "AI engine not available"⟩

def failedToLoad (error : String) : Status := ⟨.internal, "failed to load AI model: " ++ error⟩

def generationError (error : String) : Status := ⟨.internal, "generation error: " ++ error⟩

/-- `matches!(mode, DaemonMode::OnDemand | DaemonMode::AutoUnload)`. -/
def DaemonMode.autoUnloads : DaemonMode → Bool
  | .onDemand | .autoUnload => true
  | .alwaysEnabled | .manualPreload => false

/-- What `generate` does once the model is loaded. -/
def generateLoaded (req : GenerateRequest) : Pc :=
  .generate req (if isQuickAction req.prompt then .quickAction
    else if req.contextId = "active" then .enrich
    else .lock req.prompt)

def afterEnsure : EnsureCaller → Except String Unit → Pc
  | .plain, result => .returning (.ensured result)
  | .setMode, .ok () => .returning (.modeSet true "")
  | .setMode, .error error => .returning (.modeSet false ("failed to load model: " ++ error))
  | .generate req, .ok () => generateLoaded req
  | .generate _, .error error => .returning (.generated (.error (failedToLoad error)))
  | .stream prompt maxTokens, .ok () => .serve (.lock prompt maxTokens)
  | .stream _ _, .error error => .serve (.fail (failedToLoad error))

def afterUnload : Bool → Except String Unit → Pc
  | true, _ => .watchdog .sleep
  | false, result => .returning (.unloaded result)

/-- The text of a `generate` is complete. -/
def afterCollect (cfg : Config) (req : GenerateRequest) (fullText : String) (tokensUsed : ℕ) : Pc :=
  match toolRequest cfg.parseToolRequest fullText with
  | some tool => .generate req (.dispatch tool fullText tokensUsed)
  | none => .generate req (.clock ⟨fullText, true, tokensUsed, none⟩)

structure Instruction where
  op : Op
  next : op.Answer → Pc

def ensureModelLoaded (caller : EnsureCaller) : EnsurePc → Instruction
  | .lock => ⟨.lockEngine, fun (present : Bool) =>
      .ensure caller (if present = true then .status else .writeLoading)⟩
  | .writeLoading => ⟨.writeState .loading, fun _ => .ensure caller .create⟩
  | .create => ⟨.createBackend, fun
      | .ok () => .ensure caller .status
      | .error error => .ensure caller (.fail error)⟩
  | .status => ⟨.activeModel, fun (model : String) =>
      .ensure caller (if model = "none" ∨ model = "unloaded" then .load else .unlock)⟩
  | .load => ⟨.sendLoad, fun
      | .ok () => .ensure caller .reply
      | .error error => .ensure caller (.fail error)⟩
  | .reply => ⟨.awaitReply, fun
      | .ok () => .ensure caller .unlock
      | .error error => .ensure caller (.fail error)⟩
  | .unlock => ⟨.unlockEngine, fun _ => .ensure caller .clock⟩
  | .fail error => ⟨.unlockEngine, fun _ => afterEnsure caller (.error error)⟩
  -- the right-hand side, `Instant::now()`, is evaluated before the lock is taken
  | .clock => ⟨.clock, fun now => .ensure caller (.touch now)⟩
  | .touch now => ⟨.writeActivity now, fun _ => .ensure caller .writeReady⟩
  | .writeReady => ⟨.writeState .ready, fun _ => afterEnsure caller (.ok ())⟩

def unloadModel (fromWatchdog : Bool) : UnloadPc → Instruction
  | .writeUnloading => ⟨.writeState .unloading, fun _ => .unload fromWatchdog .lock⟩
  | .lock => ⟨.lockEngine, fun (present : Bool) =>
      .unload fromWatchdog (if present = true then .send else .clear)⟩
  | .send => ⟨.sendUnload, fun
      | .ok () => .unload fromWatchdog .reply
      | .error error => .unload fromWatchdog (.fail error)⟩
  | .reply => ⟨.awaitReply, fun
      | .ok () => .unload fromWatchdog .clear
      | .error error => .unload fromWatchdog (.fail error)⟩
  | .clear => ⟨.clearSlot, fun _ => .unload fromWatchdog .writeUnloaded⟩
  | .writeUnloaded => ⟨.writeState .unloaded, fun _ => .unload fromWatchdog .unlock⟩
  | .unlock => ⟨.unlockEngine, fun _ => afterUnload fromWatchdog (.ok ())⟩
  | .fail error => ⟨.unlockEngine, fun _ => afterUnload fromWatchdog (.error error)⟩

/-- The loop of `inactivity_watchdog`; `continue` leads back to `sleep`. -/
def inactivityWatchdog : WatchdogPc → Instruction
  | .sleep => ⟨.halt, nofun⟩
  | .created => ⟨.readCreated, fun (created : Bool) =>
      .watchdog (if created = true then .mode else .sleep)⟩
  | .mode => ⟨.readMode, fun (mode : DaemonMode) =>
      .watchdog (if mode.autoUnloads then .timeout else .sleep)⟩
  | .timeout => ⟨.readTimeout, fun timeout => .watchdog (.last timeout)⟩
  | .last timeout => ⟨.readActivity, fun last => .watchdog (.now timeout last)⟩
  | .now timeout last => ⟨.clock, fun (now : ℕ) =>
      .watchdog (if now - last ≥ timeout then .state else .sleep)⟩
  | .state => ⟨.readState, fun (state : ModelState) =>
      if state = .ready then .unload true .writeUnloading else .watchdog .sleep⟩

def generate (cfg : Config) (req : GenerateRequest) : GeneratePc → Instruction
  | .checkMode => ⟨.readMode, fun (mode : DaemonMode) =>
      if mode = .manualPreload then .generate req .checkState
      else .ensure (.generate req) .lock⟩
  | .checkState => ⟨.readState, fun (state : ModelState) =>
      if state = .ready then .ensure (.generate req) .lock
      else .returning (.generated (.error notLoaded))⟩
  | .quickAction => ⟨.executeAction quickActionRequest, fun reply =>
      .returning (.generated (.ok ⟨quickActionText reply, true, 0, none⟩))⟩
  | .enrich => ⟨.getContext, fun context =>
      .generate req (.lock (enrichPromptWithContext req.prompt context))⟩
  | .lock prompt => ⟨.lockEngine, fun (present : Bool) =>
      .generate req (if present = true then .send prompt else .refuse notAvailable)⟩
  | .send prompt => ⟨.sendGenerate prompt req.maxTokens.toNat, fun
      | .ok () => .generate req .unlock
      | .error error => .generate req (.refuse ⟨.internal, error⟩)⟩
  | .unlock => ⟨.unlockEngine, fun _ => .generate req (.collect "" 0)⟩
  | .refuse status => ⟨.unlockEngine, fun _ => .returning (.generated (.error status))⟩
  | .collect fullText tokensUsed => ⟨.receiveToken, fun
      | some (.ok token) =>
          if token.isFinished = true then .generate req (.collect fullText tokensUsed)
          else .generate req (.collect (fullText ++ token.text) (tokensUsed + 1))
      | some (.error error) => .returning (.generated (.error (generationError error)))
      | none => afterCollect cfg req fullText tokensUsed⟩
  | .dispatch tool fullText tokensUsed => ⟨.executeAction tool, fun reply =>
      .generate req (.clock ⟨(toolResult fullText reply).1, true, tokensUsed,
        (toolResult fullText reply).2⟩)⟩
  | .clock response => ⟨.clock, fun now => .generate req (.touch response now)⟩
  | .touch response now => ⟨.writeActivity now, fun _ => .returning (.generated (.ok response))⟩

def streamGenerate (req : GenerateRequest) : StreamPc → Instruction
  | .quickAction => ⟨.executeAction quickActionRequest, fun reply =>
      .stream req (.openQuick (quickActionText reply))⟩
  | .openQuick text => ⟨.openStream 32 (by decide), fun _ => .serve (.quickReply text)⟩
  | .checkMode => ⟨.readMode, fun (mode : DaemonMode) =>
      .stream req (if mode = .manualPreload then .checkState
        else if req.contextId = "active" then .enrich
        else .accept req.prompt)⟩
  | .checkState => ⟨.readState, fun (state : ModelState) =>
      if state ≠ .ready then .returning (.streamRefused notLoaded)
      else .stream req (if req.contextId = "active" then .enrich else .accept req.prompt)⟩
  | .enrich => ⟨.getContext, fun context =>
      .stream req (.accept (enrichPromptWithContext req.prompt context))⟩
  | .accept prompt => ⟨.openStream 64 (by decide), fun _ =>
      .ensure (.stream prompt req.maxTokens.toNat) .lock⟩

def serveStream : ServePc → Instruction
  | .quickReply text => ⟨.sendResponse (.ok ⟨text, true, 0, none⟩), fun _ =>
      .returning .streamEnded⟩
  | .fail status => ⟨.sendResponse (.error status), fun _ => .returning .streamEnded⟩
  | .lock prompt maxTokens => ⟨.lockEngine, fun (present : Bool) =>
      .serve (if present = true then .send prompt maxTokens else .refuse notAvailable)⟩
  | .send prompt maxTokens => ⟨.sendGenerate prompt maxTokens, fun
      | .ok () => .serve .unlock
      | .error error => .serve (.refuse ⟨.internal, error⟩)⟩
  | .unlock => ⟨.unlockEngine, fun _ => .serve (.receive 0)⟩
  -- the guard of the engine is still held while the error is sent
  | .refuse status => ⟨.sendResponse (.error status), fun _ => .serve .refused⟩
  | .refused => ⟨.unlockEngine, fun _ => .returning .streamEnded⟩
  | .receive tokensUsed => ⟨.receiveToken, fun
      | some (.ok token) =>
          .serve (.forward token (if token.isFinished = true then tokensUsed else tokensUsed + 1))
      | some (.error error) => .serve (.forwardError (generationError error))
      | none => .serve .clock⟩
  | .forward token tokensUsed =>
      ⟨.sendResponse (.ok ⟨token.text, token.isFinished, tokensUsed, none⟩), fun (sent : Bool) =>
        .serve (if sent = true ∧ token.isFinished = false then .receive tokensUsed else .clock)⟩
  | .forwardError status => ⟨.sendResponse (.error status), fun _ => .serve .clock⟩
  | .clock => ⟨.clock, fun now => .serve (.touch now)⟩
  | .touch now => ⟨.writeActivity now, fun _ => .returning .streamEnded⟩

def program (cfg : Config) : Pc → Instruction
  | .ensure caller stage => ensureModelLoaded caller stage
  | .unload fromWatchdog stage => unloadModel fromWatchdog stage
  | .watchdog stage => inactivityWatchdog stage
  | .setMode mode => ⟨.writeMode mode, fun _ =>
      if mode.autoUnloads then .modeSet .created else .ensure .setMode .lock⟩
  | .modeSet .created => ⟨.readCreated, fun (created : Bool) =>
      if created = true then .modeSet .state else .returning (.modeSet true "")⟩
  | .modeSet .state => ⟨.readState, fun _ => .returning (.modeSet true "")⟩
  | .setTimeout secs => ⟨.writeTimeout secs, fun _ => .returning (.timeoutSet true "")⟩
  | .generate req stage => generate cfg req stage
  | .stream req stage => streamGenerate req stage
  | .serve stage => serveStream stage
  | .returning outcome => ⟨.close, fun _ => .answered outcome⟩
  | .unborn => ⟨.halt, nofun⟩
  | .answered _ => ⟨.halt, nofun⟩
  | .cancelled => ⟨.halt, nofun⟩

/-! ## How calls begin -/

inductive Call
  | ensureModelLoaded
  | unloadModel
  | inactivityWatchdog
  | setMode (mode : String)
  | setInactivityTimeout (secs : ℤ)
  | generate (req : GenerateRequest)
  | streamGenerate (req : GenerateRequest)

def Call.start : Call → Pc
  | .ensureModelLoaded => .ensure .plain .lock
  | .unloadModel => .unload false .writeUnloading
  | .inactivityWatchdog => .watchdog .sleep
  | .setMode mode =>
      match parseMode mode with
      | .ok mode => .setMode mode
      | .error error => .returning (.modeSet false error)
  | .setInactivityTimeout secs =>
      if secs < 30 then
        .returning (.timeoutSet false "timeout must be at least 30 seconds")
      else .setTimeout secs.toNat
  | .generate req =>
      match validateRequest req with
      | .ok () => .generate req .checkMode
      | .error status => .returning (.generated (.error status))
  | .streamGenerate req =>
      match validateRequest req with
      | .ok () => .stream req (if isQuickAction req.prompt then .quickAction else .checkMode)
      | .error status => .returning (.streamRefused status)

end NiraOS.AiDaemon
