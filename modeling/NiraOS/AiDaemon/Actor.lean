import NiraOS.Lib.Transition
import NiraOS.Lib.Text
import Mathlib.Logic.Function.Basic

/-!
# The inference actor, one atomic operation at a time

`LlamaCppBackend` and `worker_thread` (`inference/llama_cpp.rs`) once more, at the grain of what
the handle and the worker share: the queue of commands, the two flags `is_loaded` and `is_loading`,
and the two numbers of the configuration in force.  An event is one operation on one of them, by
one call or by the worker; what the worker does with its own locals goes with the operation before.

Any number of calls are under way, and any of them may take the next step.  Rust lets calls that
take `&mut self` overlap with no other, and the handle be dropped under none, so these are more
runs than the code has.
-/

namespace NiraOS.AiDaemon.Actor

abbrev CallId := ℕ

structure ModelConfig where
  contextLength : ℕ
  batchSize : ℕ
  deriving DecidableEq

structure GenerationParams where
  prompt : String
  maxTokens : ℕ
  deriving DecidableEq

/-- `WorkerCommand`; a reply or a token channel is named by the call that made it. -/
inductive WorkerCommand
  | loadModel (path : String) (config : ModelConfig) (reply : CallId)
  | unloadModel (reply : CallId)
  | generate (params : GenerationParams) (config : ModelConfig) (tokens : CallId)
  | shutdown
  deriving DecidableEq

/-- For whom a model is loaded. -/
inductive Attempt
  | requested (path : String) (config : ModelConfig) (reply : CallId)
  /-- A `Generate` found no model and loads the default one. -/
  | byDefault (params : GenerationParams) (config : ModelConfig) (tokens : CallId)
  deriving DecidableEq

/-! ## The parties -/

/-- Where the worker stands. -/
inductive Worker
  /-- In the loop around `try_recv`. -/
  | waiting
  | raising (a : Attempt)
  | validating (a : Attempt)
  | initializing (a : Attempt)
  | loading (a : Attempt)
  | announcing (a : Attempt)
  | lowering (a : Attempt) (result : Except String Unit)
  | storingContext (config : ModelConfig) (reply : CallId)
  | storingBatch (config : ModelConfig) (reply : CallId)
  | resettingContext (reply : CallId)
  | resettingBatch (reply : CallId)
  | retracting (reply : CallId)
  | replying (reply : CallId) (result : Except String Unit)
  | generating (params : GenerationParams) (config : ModelConfig) (tokens : CallId)
  | reporting (tokens : CallId) (error : String)
  | exited
  deriving DecidableEq

/-- Where a call stands. -/
inductive Call
  | sendLoad (path : String) (config : ModelConfig)
  | sendUnload
  | awaitReply
  | replied (result : Except String Unit)
  | readContext (params : GenerationParams)
  | readBatch (params : GenerationParams) (contextLength : ℕ)
  | readLoaded (params : GenerationParams) (config : ModelConfig)
  /-- Before the compare-and-exchange. -/
  | raise (params : GenerationParams) (config : ModelConfig)
  | sendGenerate (params : GenerationParams) (config : ModelConfig) (startedLoading : Bool)
  /-- The send has failed after the flag was raised. -/
  | lower

structure State where
  queue : List WorkerCommand
  worker : Worker
  /-- The worker has initialised the backend. -/
  backend : Bool
  /-- The file of the model that the worker holds. -/
  model : Option String
  isLoaded : Bool
  isLoading : Bool
  contextLength : ℕ
  batchSize : ℕ
  calls : CallId → Option Call
  next : CallId

/-- `default_model_path` and `default_config`. -/
structure Defaults where
  modelPath : String
  config : ModelConfig

def initial (d : Defaults) : State :=
  { queue := [], worker := .waiting, backend := false, model := none, isLoaded := false
    isLoading := false, contextLength := d.config.contextLength, batchSize := d.config.batchSize
    calls := fun _ => none, next := 0 }

/-! ## The worker -/

namespace State

variable (s : State)

def become (worker : Worker) : State := { s with worker }

/-- A command is taken from the queue. -/
def take (rest : List WorkerCommand) : WorkerCommand → State
  | .loadModel path config reply =>
      { s with queue := rest, worker := .raising (.requested path config reply) }
  | .unloadModel reply => { s with queue := rest, model := none, worker := .resettingContext reply }
  | .generate params config tokens =>
      { s with
        queue := rest
        worker := if s.model = none then .raising (.byDefault params config tokens)
          else .generating params config tokens }
  -- the receiver goes with the thread, and so do the commands in it
  | .shutdown => { s with queue := [], model := none, worker := .exited }

/-- A reply to a call that has gone is lost. -/
def answer (reply : CallId) (result : Except String Unit) : State :=
  match s.calls reply with
  | some .awaitReply =>
      { s with worker := .waiting, calls := Function.update s.calls reply (some (.replied result)) }
  | _ => { s with worker := .waiting }

end State

def Attempt.path (d : Defaults) : Attempt → String
  | .requested path _ _ => path
  | .byDefault .. => d.modelPath

/-- What the worker does once the flag is down again. -/
def Attempt.settle : Attempt → Except String Unit → Worker
  | .requested _ config reply, .ok () => .storingContext config reply
  | .requested _ _ reply, .error error => .replying reply (.error error)
  | .byDefault params config tokens, .ok () => .generating params config tokens
  | .byDefault _ _ tokens, .error error => .reporting tokens error

/-- One step of `worker_thread`; `o` is how the file system or the model answers, where one of them
is asked. -/
def State.work (d : Defaults) (o : Except String Unit) (s : State) : Option State :=
  match s.worker with
  | .waiting =>
      match s.queue with
      | [] => none
      | command :: rest => some (s.take rest command)
  | .raising a => some { s with isLoading := true, worker := .validating a }
  | .validating a =>
      match o with
      | .ok () => some (s.become (.initializing a))
      | .error error => some (s.become (.lowering a (.error error)))
  | .initializing a =>
      if s.backend = true then some (s.become (.loading a))
      else match o with
        | .ok () => some { s with backend := true, worker := .loading a }
        | .error error => some (s.become (.lowering a (.error error)))
  | .loading a =>
      match o with
      | .ok () => some { s with model := some (a.path d), worker := .announcing a }
      | .error error => some (s.become (.lowering a (.error error)))
  | .announcing a => some { s with isLoaded := true, worker := .lowering a (.ok ()) }
  | .lowering a result => some { s with isLoading := false, worker := a.settle result }
  | .storingContext config reply =>
      some { s with contextLength := config.contextLength, worker := .storingBatch config reply }
  | .storingBatch config reply =>
      some { s with batchSize := config.batchSize, worker := .replying reply (.ok ()) }
  | .resettingContext reply =>
      some { s with contextLength := d.config.contextLength, worker := .resettingBatch reply }
  | .resettingBatch reply =>
      some { s with batchSize := d.config.batchSize, worker := .retracting reply }
  | .retracting reply => some { s with isLoaded := false, worker := .replying reply (.ok ()) }
  | .replying reply result => some (s.answer reply result)
  | .generating _ _ tokens =>
      if s.backend = true then
        match o with
        | .ok () => some (s.become .waiting)
        | .error error => some (s.become (.reporting tokens error))
      else some (s.become (.reporting tokens "inference backend is unavailable"))
  | .reporting .. => some (s.become .waiting)
  | .exited => none

/-! ## The calls -/

namespace State

variable (s : State)

/-- `cmd_tx.send`; it fails once the worker has dropped the receiver. -/
def send (command : WorkerCommand) : Option State :=
  match s.worker with
  | .exited => none
  | _ => some { s with queue := s.queue ++ [command] }

def goto (id : CallId) (call : Call) : State :=
  { s with calls := Function.update s.calls id (some call) }

def finish (id : CallId) : State := { s with calls := Function.update s.calls id none }

/-- A call begins. -/
def start (call : Call) : State := { s.goto s.next call with next := s.next + 1 }

/-- `generate_stream` up to its first operation. -/
def generateStream (params : GenerationParams) : State :=
  if Text.isBlank params.prompt then s
  else if params.maxTokens = 0 then s
  else s.start (.readContext params)

/-- One operation of a call. -/
def advance (id : CallId) : Option State :=
  match s.calls id with
  | none => none
  | some (.sendLoad path config) =>
      match s.send (.loadModel path config id) with
      | some s' => some (s'.goto id .awaitReply)
      | none => some (s.finish id)
  | some .sendUnload =>
      match s.send (.unloadModel id) with
      | some s' => some (s'.goto id .awaitReply)
      | none => some (s.finish id)
  | some .awaitReply =>
      -- the other end of the reply channel is dropped with the thread
      match s.worker with
      | .exited => some (s.finish id)
      | _ => none
  | some (.replied _) => some (s.finish id)
  | some (.readContext params) => some (s.goto id (.readBatch params s.contextLength))
  | some (.readBatch params contextLength) =>
      some (s.goto id (.readLoaded params ⟨contextLength, s.batchSize⟩))
  | some (.readLoaded params config) =>
      if s.isLoaded = true then some (s.goto id (.sendGenerate params config false))
      else some (s.goto id (.raise params config))
  | some (.raise params config) =>
      if s.isLoading = false then
        some { s.goto id (.sendGenerate params config true) with isLoading := true }
      else some (s.goto id (.sendGenerate params config false))
  | some (.sendGenerate params config startedLoading) =>
      match s.send (.generate params config id) with
      | some s' => some (s'.finish id)
      | none => if startedLoading = true then some (s.goto id .lower) else some (s.finish id)
  | some .lower => some { s.finish id with isLoading := false }

/-- The future of a call is dropped where it awaits its reply. -/
def cancel (id : CallId) : Option State :=
  match s.calls id with
  | some .awaitReply | some (.replied _) => some (s.finish id)
  | _ => none

/-- `Drop for LlamaCppBackend`; an error is ignored. -/
def dropHandle : State := (s.send .shutdown).getD s

end State

/-! ## Runs -/

inductive Event
  | loadModel (path : String) (config : ModelConfig)
  | unloadModel
  | generateStream (params : GenerationParams)
  | advance (id : CallId)
  | cancel (id : CallId)
  | work (o : Except String Unit)
  | dropHandle

def step (d : Defaults) (s : State) : Event → Option State
  | .loadModel path config => some (s.start (.sendLoad path config))
  | .unloadModel => some (s.start .sendUnload)
  | .generateStream params => some (s.generateStream params)
  | .advance id => s.advance id
  | .cancel id => s.cancel id
  | .work o => s.work d o
  | .dropHandle => some s.dropHandle

def system (d : Defaults) : Transition.System State Event where
  init s := s = initial d
  step := step d

end NiraOS.AiDaemon.Actor
