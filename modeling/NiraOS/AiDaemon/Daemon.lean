import NiraOS.Lib.Transition
import NiraOS.AiDaemon.Program
import Mathlib.Logic.Function.Basic

/-!
# The daemon as a transition system

`DaemonState` (`main.rs`) with everything that runs against it: any number of
calls, each a task with a program counter, the workers of all engines ever
created, and the clients of the streams.  `perform` is the meaning of one
operation; it gives nothing when the operation has to wait.

`submitted` and `produced` record what happened and are read by no operation:
whether a task's `Generate` command was accepted, and the non-empty pieces of
text the model produced for it.
-/

namespace NiraOS.AiDaemon

structure State where
  clock : ℕ
  mode : DaemonMode
  modelState : ModelState
  inactivityTimeout : ℕ
  lastActivity : ℕ
  engineCreated : Bool
  /-- The engine in `engine: Mutex<Option<..>>`, and the task that holds the mutex. -/
  slot : Option EngineId
  lock : Option TaskId
  engines : EngineId → Engine
  nextEngine : ℕ
  pc : TaskId → Pc
  calls : TaskId → Option Call
  nextTask : ℕ
  reply : TaskId → Option (Except String Unit)
  tokens : TaskId → Channel Item
  responses : TaskId → Channel (Except Status AiResponse)
  submitted : TaskId → Bool
  produced : TaskId → List String

theorem channelCapacity_pos : 0 < 64 := Nat.zero_lt_succ 63

/-- The daemon as `main` starts it, with the configured mode and timeout. -/
def State.initial (mode : DaemonMode) (inactivityTimeout : ℕ) : State where
  clock := 0
  mode
  modelState := .unloaded
  inactivityTimeout
  lastActivity := 0
  engineCreated := false
  slot := none
  lock := none
  engines := fun _ => .new
  nextEngine := 0
  pc := fun _ => .unborn
  calls := fun _ => none
  nextTask := 0
  reply := fun _ => none
  tokens := fun _ => .fresh 64 channelCapacity_pos
  responses := fun _ => .fresh 64 channelCapacity_pos
  submitted := fun _ => false
  produced := fun _ => []

def State.goto (s : State) (t : TaskId) (pc : Pc) : State :=
  { s with pc := Function.update s.pc t pc }

@[simp] theorem goto_pc_self (s : State) (t : TaskId) (pc : Pc) : (s.goto t pc).pc t = pc :=
  Function.update_self ..

theorem goto_pc_of_ne (s : State) {t t' : TaskId} (pc : Pc) (h : t' ≠ t) :
    (s.goto t pc).pc t' = s.pc t' :=
  Function.update_of_ne h ..

/-! ## Operations -/

/-- What other processes contribute to an operation. -/
structure Oracle where
  /-- Spawning the thread of a new worker. -/
  spawn : Except String Unit := .ok ()
  context : Option (String × String) := none
  action : ActionReply := .unreachable

/-- Send a command to the engine in the slot. -/
def State.send (s : State) (command : Command) : Option (Except String Unit × State) :=
  match s.slot with
  | none => none
  | some e =>
      match (s.engines e).send command with
      | .error error => some (.error error, s)
      | .ok engine => some (.ok (), { s with engines := Function.update s.engines e engine })

/-- A command whose answer comes over a new oneshot channel. -/
def State.request (s : State) (t : TaskId) (command : Command) :
    Option (Except String Unit × State) :=
  { s with reply := Function.update s.reply t none }.send command

/-- `generate_stream`. -/
def State.sendGenerate (s : State) (t : TaskId) (prompt : String) (maxTokens : ℕ) :
    Option (Except String Unit × State) :=
  if Text.isBlank prompt then some (.error "prompt must not be empty", s)
  else if maxTokens = 0 then some (.error "max_tokens must be greater than zero", s)
  else
    match s.send (.generate ⟨t, prompt, maxTokens⟩) with
    | none => none
    | some (.error error, _) => some (.error (error ++ ": channel closed"), s)
    | some (.ok (), s) =>
        some (.ok (), { s with
          submitted := Function.update s.submitted t true
          tokens := Function.update s.tokens t (.fresh 64 channelCapacity_pos) })

/-- `*engine = None` drops the handle of the engine. -/
def State.clearSlot (s : State) : State :=
  match s.slot with
  | none => { s with engineCreated := false }
  | some e =>
      { s with
        engines := Function.update s.engines e (s.engines e).dropHandle
        slot := none
        engineCreated := false }

/-- Close the ends of the channels that task `t` holds. -/
def State.closeEnds (s : State) (t : TaskId) : State :=
  { s with
    tokens := Function.update s.tokens t (s.tokens t).closeReceiver
    responses := Function.update s.responses t (s.responses t).closeSender }

def State.receiveToken (s : State) (t : TaskId) : Option (Option Item × State) :=
  if h : (s.tokens t).Waiting then
    some (some ((s.tokens t).front h),
      { s with tokens := Function.update s.tokens t ((s.tokens t).pop h) })
  else if (s.tokens t).senderOpen = false then some (none, s)
  else none

def State.sendResponse (s : State) (t : TaskId) (response : Except Status AiResponse) :
    Option (Bool × State) :=
  if (s.responses t).receiverOpen = false then some (false, s)
  else if h : (s.responses t).Room then
    some (true, { s with
      responses := Function.update s.responses t ((s.responses t).push response h) })
  else none

def perform (o : Oracle) (s : State) (t : TaskId) : (op : Op) → Option (op.Answer × State)
  | .lockEngine =>
      if s.lock = none then some (s.slot.isSome, { s with lock := some t }) else none
  | .unlockEngine => some ((), { s with lock := none })
  | .readState => some (s.modelState, s)
  | .writeState state => some ((), { s with modelState := state })
  | .readMode => some (s.mode, s)
  | .writeMode mode => some ((), { s with mode })
  | .readTimeout => some (s.inactivityTimeout, s)
  | .writeTimeout secs => some ((), { s with inactivityTimeout := secs })
  | .readActivity => some (s.lastActivity, s)
  | .writeActivity time => some ((), { s with lastActivity := time })
  | .readCreated => some (s.engineCreated, s)
  | .clock => some (s.clock, s)
  | .createBackend =>
      match o.spawn with
      | .error error => some (.error error, s)
      | .ok () => some (.ok (), { s with
          engines := Function.update s.engines s.nextEngine .new
          slot := some s.nextEngine
          nextEngine := s.nextEngine + 1
          engineCreated := true })
  | .activeModel => s.slot.map fun e => (((s.engines e).model).getD "none", s)
  | .sendLoad => s.request t (.loadModel t)
  | .sendUnload => s.request t (.unloadModel t)
  | .awaitReply => (s.reply t).map fun result => (result, s)
  | .clearSlot => some ((), s.clearSlot)
  | .sendGenerate prompt maxTokens => s.sendGenerate t prompt maxTokens
  | .receiveToken => s.receiveToken t
  | .openStream capacity h => some ((), { s with
      responses := Function.update s.responses t (.fresh capacity h) })
  | .sendResponse response => s.sendResponse t response
  | .getContext => some (o.context, s)
  | .executeAction _ => some (o.action, s)
  | .close => some ((), s.closeEnds t)
  | .halt => none

/-! ## Workers -/

/-- The worker dropped a command it will not process. -/
def State.dropCommand (s : State) : Command → State
  | .loadModel t | .unloadModel t =>
      { s with
        reply := Function.update s.reply t (some (.error "inference worker reply cancelled")) }
  | .generate job =>
      { s with tokens := Function.update s.tokens job.task (s.tokens job.task).closeSender }
  | .shutdown => s

/-- A piece of text was produced for task `t`. -/
def State.recordPiece (s : State) (t : TaskId) (text : String) : State :=
  { s with produced := Function.update s.produced t (s.produced t ++ [text]) }

def State.updateTokens (s : State) (t : TaskId) (channel : Channel Item) : State :=
  { s with tokens := Function.update s.tokens t channel }

def State.deliver (s : State) : Output → State
  | .silent => s
  | .reply t result => { s with reply := Function.update s.reply t (some result) }
  | .sent t text =>
      if h : (s.tokens t).Room then
        (s.updateTokens t ((s.tokens t).push (piece text) h)).recordPiece t text
      else s
  | .refused t text => (s.updateTokens t (s.tokens t).closeSender).recordPiece t text
  | .terminal t last =>
      if h : (s.tokens t).Room then s.updateTokens t ((s.tokens t).push last h).closeSender else s
  | .unheard t => s.updateTokens t (s.tokens t).closeSender
  | .dropped commands => commands.foldl State.dropCommand s

/-! ## Steps -/

inductive Event
  | call (call : Call)
  /-- Task `t` performs its next operation. -/
  | run (t : TaskId) (o : Oracle)
  /-- The sleep of a watchdog ends. -/
  | wake (t : TaskId)
  /-- The future of a call is dropped at an await point. -/
  | cancel (t : TaskId)
  | work (e : EngineId) (o : WorkerOracle)
  /-- The client of `t` receives an item. -/
  | read (t : TaskId)
  /-- The client of `t` closes its end. -/
  | disconnect (t : TaskId)
  | tick

/-- The operation may leave its task waiting in an `.await`.  The path of the model is read, from
a lock of its own, before a backend is created and before a model is loaded. -/
def Op.awaits : Op → Bool
  | .unlockEngine | .readCreated | .clock | .activeModel | .sendUnload | .clearSlot
  | .sendGenerate .. | .openStream .. | .close | .halt => false
  | _ => true

/-- The task is awaited by someone who may stop waiting; the watchdog and the
tasks behind accepted streams are detached. -/
def Pc.cancellable : Pc → Bool
  | .ensure (.stream ..) _ | .unload true _ | .watchdog _ | .serve _ => false
  | _ => true

def step (cfg : Config) (s : State) : Event → Option State
  | .call call => some
      { s with
        pc := Function.update s.pc s.nextTask call.start
        calls := Function.update s.calls s.nextTask (some call)
        nextTask := s.nextTask + 1 }
  | .run t o =>
      (perform o s t (program cfg (s.pc t)).op).map fun result =>
        result.2.goto t ((program cfg (s.pc t)).next result.1)
  | .wake t =>
      match s.pc t with
      | .watchdog .sleep => some (s.goto t (.watchdog .created))
      | _ => none
  | .cancel t =>
      if (s.pc t).cancellable = true ∧ (program cfg (s.pc t)).op.awaits = true then
        some (({ s with lock := if s.lock = some t then none else s.lock }.closeEnds t).goto t
          .cancelled)
      else none
  | .work e o =>
      ((s.engines e).work cfg s.tokens o).map fun result =>
        { s with engines := Function.update s.engines e result.1 }.deliver result.2
  | .read t =>
      if h : (s.responses t).Waiting ∧ (s.responses t).receiverOpen = true then
        some { s with responses := Function.update s.responses t ((s.responses t).pop h.1) }
      else none
  | .disconnect t =>
      some { s with responses := Function.update s.responses t (s.responses t).closeReceiver }
  | .tick => some { s with clock := s.clock + 1 }

def system (cfg : Config) : Transition.System State Event where
  init s := ∃ mode inactivityTimeout, s = .initial mode inactivityTimeout
  step := step cfg

end NiraOS.AiDaemon
