import NiraOS.Lib.Channel
import NiraOS.AiDaemon.Requests

/-!
# The inference actor

`LlamaCppBackend` (`inference/llama_cpp.rs`): a handle that sends commands to a
worker thread, which alone owns the model.  A step of the worker is one round of
its loop up to the next point where another party can notice: a command is taken
from the queue, a model is loaded or fails to load, one token is sampled, an item
is sent.

Tasks are named by numbers.  A task awaits at most one reply at a time and
generates at most once, so a reply channel and a token channel are named by the
task that created them.
-/

namespace NiraOS.AiDaemon

abbrev TaskId := ℕ
abbrev EngineId := ℕ

structure Token where
  text : String
  isFinished : Bool
  deriving DecidableEq, Repr

/-- What travels over a token channel. -/
abbrev Item := Except String Token

/-- The terminal items: the end of the text, or an error. -/
def Item.IsTerminal : Item → Prop
  | .ok token => token.isFinished = true
  | .error _ => True

def piece (text : String) : Item := .ok ⟨text, false⟩

def finished : Item := .ok ⟨"", true⟩

structure Job where
  task : TaskId
  prompt : String
  maxTokens : ℕ
  deriving DecidableEq, Repr

/-- `WorkerCommand`; the paths and sizes are those of the configuration. -/
inductive Command
  | loadModel (reply : TaskId)
  | unloadModel (reply : TaskId)
  | generate (job : Job)
  | shutdown
  deriving DecidableEq, Repr

inductive Worker
  | idle
  | loading (reply : TaskId)
  /-- A `Generate` found no model and loads the default one. -/
  | lazyLoading (job : Job)
  /-- Tokenising, creating the context, evaluating the prompt. -/
  | starting (job : Job)
  | generating (job : Job) (budget : ℕ)
  /-- In `blocking_send` of the terminal item. -/
  | finishing (job : Job) (last : Item)
  | exited
  deriving DecidableEq

structure Engine where
  queue : List Command
  worker : Worker
  /-- The name of the model in memory. -/
  model : Option String
  deriving DecidableEq

def Engine.new : Engine := ⟨[], .idle, none⟩

def Engine.enqueue (e : Engine) (command : Command) : Engine :=
  { e with queue := e.queue ++ [command] }

/-- `cmd_tx.send`; it fails once the worker has dropped the receiver. -/
def Engine.send (e : Engine) (command : Command) : Except String Engine :=
  if e.worker = .exited then .error "inference worker channel closed"
  else .ok (e.enqueue command)

/-- `Drop for LlamaCppBackend`; an error is ignored. -/
def Engine.dropHandle (e : Engine) : Engine :=
  match e.send .shutdown with
  | .ok e => e
  | .error _ => e

structure Config where
  /-- The file name of `model_path`. -/
  modelFile : String
  contextLength : ℕ
  parseToolRequest : String → Option ToolRequest

/-- What one round of sampling gives. -/
inductive Sample
  | endOfGeneration
  /-- The token has no text; the error is the whole message. -/
  | undecodable (error : String)
  /-- A piece of text; `next` is the outcome of feeding its token back. -/
  | piece (text : String) (next : Except String Unit)

/-- What the file system and the model contribute to a step of a worker. -/
structure WorkerOracle where
  load : Except String Unit := .ok ()
  /-- The number of tokens of the prompt, once it is evaluated. -/
  start : Except String ℕ := .ok 1
  sample : Sample := .endOfGeneration

/-- What others notice of a step of a worker. -/
inductive Output
  | silent
  | reply (task : TaskId) (result : Except String Unit)
  /-- A piece of text was produced and sent. -/
  | sent (task : TaskId) (text : String)
  /-- A piece of text was produced and `try_send` refused it. -/
  | refused (task : TaskId) (text : String)
  | terminal (task : TaskId) (last : Item)
  /-- The terminal item found no receiver. -/
  | unheard (task : TaskId)
  /-- The worker exited, dropping these commands. -/
  | dropped (commands : List Command)

/-- The number of tokens `generate_impl` may sample. -/
def tokenBudget (cfg : Config) (job : Job) (promptTokens : ℕ) : ℕ :=
  min job.maxTokens (cfg.contextLength - promptTokens)

def promptTooLong (cfg : Config) (promptTokens : ℕ) : String :=
  "prompt requires " ++ toString promptTokens ++
    " tokens but configured context supports fewer than " ++ toString cfg.contextLength

/-- A command is taken from the queue. -/
def Engine.take (e : Engine) : Command → List Command → Engine × Output
  | .loadModel task, rest => ({ e with queue := rest, worker := .loading task }, .silent)
  | .unloadModel task, rest => ({ e with queue := rest, model := none }, .reply task (.ok ()))
  | .generate job, rest =>
      ({ e with queue := rest, worker := if e.model = none then .lazyLoading job
        else .starting job },
        .silent)
  | .shutdown, rest => ({ queue := [], worker := .exited, model := none }, .dropped rest)

/-- One round of the sampling loop of `generate_impl`, with budget left. -/
def Engine.sample (e : Engine) (tokens : Channel Item) (job : Job) (budget : ℕ) :
    Sample → Engine × Output
  | .endOfGeneration => ({ e with worker := .finishing job finished }, .silent)
  | .undecodable error =>
      ({ e with worker := .finishing job (.error error) }, .silent)
  | .piece text next =>
      let worker := match next with
        | .ok () => Worker.generating job budget
        | .error error => .finishing job (.error error)
      if text = "" then ({ e with worker }, .silent)
      else if tokens.receiverOpen = true ∧ tokens.Room then ({ e with worker }, .sent job.task text)
      -- any failure of `try_send` is taken for a client that left
      else ({ e with worker := .idle }, .refused job.task text)

/-- One step of `worker_thread`, which sees the token channels of its jobs. -/
def Engine.work (cfg : Config) (tokens : TaskId → Channel Item) (o : WorkerOracle) (e : Engine) :
    Option (Engine × Output) :=
  match e.worker with
  | .idle =>
      match e.queue with
      | [] => none
      | command :: rest => some (e.take command rest)
  | .loading task =>
      match o.load with
      | .ok () => some ({ e with worker := .idle, model := some cfg.modelFile },
          .reply task (.ok ()))
      | .error error => some ({ e with worker := .idle }, .reply task (.error error))
  | .lazyLoading job =>
      match o.load with
      | .ok () => some ({ e with worker := .starting job, model := some cfg.modelFile }, .silent)
      | .error error => some ({ e with worker := .finishing job (.error error) }, .silent)
  | .starting job =>
      match o.start with
      | .error error => some ({ e with worker := .finishing job (.error error) }, .silent)
      | .ok promptTokens =>
          if promptTokens ≥ cfg.contextLength then
            some ({ e with worker := .finishing job (.error (promptTooLong cfg promptTokens)) },
              .silent)
          else
            some ({ e with worker := .generating job (tokenBudget cfg job promptTokens) }, .silent)
  | .generating job 0 => some ({ e with worker := .finishing job finished }, .silent)
  | .generating job (budget + 1) => some (e.sample (tokens job.task) job budget o.sample)
  | .finishing job last =>
      if (tokens job.task).receiverOpen = false
        then some ({ e with worker := .idle }, .unheard job.task)
      else if (tokens job.task).Room then some ({ e with worker := .idle }, .terminal job.task last)
      else none
  | .exited => none

end NiraOS.AiDaemon
