import NiraOS.Lib.Text
import NiraOS.Lib.Transition
import Mathlib.Logic.Function.Basic

/-!
# The shell's AI client

`AiClient` (`desktop/shell/src/AiClient.cpp`): `streamGenerate` runs on the GUI thread and
starts one worker thread per accepted call, a session; `runGeneration` reads the stream and
queues the signals to the GUI thread, which emits them one by one.

A newer call frees the context of the old worker and joins its thread, so there is one
worker at a time.  The GUI thread delivers nothing while it waits.

What the server sends in a session is fixed when the session is asked for: its items
and its final status, or no stream at all.

The worker goes through a plain pointer to its context in `StreamGenerate`, `Read` and
`Finish`.  If a newer call has freed the context by then, the program's behaviour is
undefined: the state says so, and has no further steps.
-/

namespace NiraOS.Shell

/-! ## What the server sends -/

structure Item where
  text : String
  isFinished : Bool
  deriving DecidableEq

inductive Status
  | ok
  | cancelled
  /-- Any other code, with its message. -/
  | error (message : String)
  deriving DecidableEq

def Status.isError : Status → Bool
  | .error _ => true
  | _ => false

structure Stream where
  items : List Item
  status : Status
  deriving DecidableEq

/-- The text of all items the server sent. -/
def texts (items : List Item) : String :=
  String.join (items.map Item.text)

/-! ## The client -/

inductive Signal
  | tokenReceived (token : String)
  | generationFinished
  | errorOccurred (message : String)
  deriving DecidableEq

inductive Pc
  | starting
  | registered
  | opening
  | reading (items : List Item) (status : Status)
  | finishing (status : Status)
  | reporting (status : Status)

/-- The next step goes through the pointer to the context. -/
def Pc.UsesContext : Pc → Prop
  | .opening | .reading _ _ | .finishing _ => True
  | .starting | .registered | .reporting _ => False

instance : DecidablePred Pc.UsesContext
  | .opening | .reading _ _ | .finishing _ => inferInstanceAs (Decidable True)
  | .starting | .registered | .reporting _ => inferInstanceAs (Decidable False)

structure Worker where
  session : ℕ
  /-- What the server will send. -/
  stream : Option Stream
  pc : Pc

/-- `streamGenerate` waits for the old worker before it starts the new one. -/
inductive Gui
  | idle
  | joining (stream : Option Stream)
  deriving DecidableEq

/-- A signal emitted on the GUI thread. -/
structure Delivery where
  /-- The session whose worker queued it; `none` for the checks of `streamGenerate`. -/
  session : Option ℕ
  signal : Signal
  /-- How many sessions had been started when it was emitted. -/
  started : ℕ
  deriving DecidableEq

structure State where
  gui : Gui
  worker : Option Worker
  /-- There is an `activeContext_`. -/
  context : Bool
  /-- The events queued to the GUI thread. -/
  queue : List (ℕ × Signal)
  /-- The sessions whose `streamGenerate` has returned are numbered below. -/
  started : ℕ
  /-- What the server sends in each session. -/
  streams : ℕ → Option Stream
  /-- What each session's worker has queued so far. -/
  posted : ℕ → List Signal
  delivered : List Delivery
  /-- The worker has used a context that was freed. -/
  undefined : Bool

def State.initial : State :=
  ⟨.idle, none, false, [], 0, fun _ => none, fun _ => [], [], false⟩

def State.post (s : State) (w : Worker) (signal : Signal) : State :=
  { s with
    queue := s.queue ++ [(w.session, signal)]
    posted := Function.update s.posted w.session (s.posted w.session ++ [signal]) }

def State.goto (s : State) (w : Worker) (pc : Pc) : State :=
  { s with worker := some { w with pc := pc } }

def maxPromptBytes : ℕ := 32 * 1024

/-- The checks of `streamGenerate`. -/
def refuses (prompt : String) : Option String :=
  let trimmed := Text.trim prompt
  if trimmed = "" then some "Enter a prompt before sending."
  else if trimmed.utf8ByteSize > maxPromptBytes then
    some "The prompt exceeds the 32 KiB request limit."
  else none

/-- `streamGenerate` up to the join.  `TryCancel` is of no account here: the context is
freed right after it. -/
def State.streamGenerate (s : State) (prompt : String) (stream : Option Stream) : State :=
  match refuses prompt with
  | some message =>
      { s with delivered := s.delivered ++ [⟨none, .errorOccurred message, s.started⟩] }
  | none =>
      { s with gui := .joining stream, context := false }

/-- The rest of `streamGenerate`. -/
def State.startWorker (s : State) (stream : Option Stream) : State :=
  { s with
    gui := .idle
    worker := some ⟨s.started, stream, .starting⟩
    streams := Function.update s.streams s.started stream
    started := s.started + 1 }

/-- A step of `runGeneration` with its context in place. -/
def State.work (s : State) (w : Worker) : State :=
  match w.pc with
  | .starting => { s with context := true }.goto w .registered
  | .registered =>
      if s.context = true then s.goto w .opening else { s with worker := none }
  | .opening =>
      match w.stream with
      | some stream => s.goto w (.reading stream.items stream.status)
      | none =>
          { s.post w (.errorOccurred "Failed to initiate AI stream.") with
            context := false
            worker := none }
  | .reading [] status => s.goto w (.finishing status)
  | .reading (item :: rest) status =>
      if item.isFinished = true then
        (s.post w .generationFinished).goto w (.finishing status)
      else if item.text = "" then s.goto w (.reading rest status)
      else (s.post w (.tokenReceived item.text)).goto w (.reading rest status)
  | .finishing status => { s with context := false }.goto w (.reporting status)
  | .reporting status =>
      match status with
      | .error message => { s.post w (.errorOccurred message) with worker := none }
      | _ => { s with worker := none }

/-- A step of `runGeneration`.  There is one worker, so without an `activeContext_` the
context that it uses is gone. -/
def State.runGeneration (s : State) (w : Worker) : State :=
  if w.pc.UsesContext ∧ s.context = false then { s with undefined := true }
  else s.work w

inductive Event
  | streamGenerate (prompt : String) (stream : Option Stream)
  | work
  /-- The join returns and the new worker starts. -/
  | join
  /-- The GUI thread takes an event from its queue. -/
  | deliver

/-- The events that happen by themselves. -/
def Event.Internal : Event → Prop
  | .streamGenerate _ _ => False
  | _ => True

/-- What an event does while the behaviour is defined. -/
def State.next (s : State) : Event → Option State
  | .streamGenerate prompt stream =>
      match s.gui with
      | .idle => some (s.streamGenerate prompt stream)
      | .joining _ => none
  | .work => s.worker.map s.runGeneration
  | .join =>
      match s.gui, s.worker with
      | .joining stream, none => some (s.startWorker stream)
      | _, _ => none
  | .deliver =>
      match s.gui, s.queue with
      | .idle, (session, signal) :: rest =>
          some { s with
            queue := rest
            delivered := s.delivered ++ [⟨some session, signal, s.started⟩] }
      | _, _ => none

def step (s : State) (e : Event) : Option State :=
  if s.undefined = true then none else s.next e

theorem step_eq_some {s s' : State} {e : Event} :
    step s e = some s' ↔ s.undefined = false ∧ s.next e = some s' := by
  unfold step
  cases s.undefined <;> simp

def system : Transition.System State Event where
  init s := s = .initial
  step := step

end NiraOS.Shell
