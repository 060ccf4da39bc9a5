import NiraOS.Compositor.WindowManager
import NiraOS.Lib.Transition
import Mathlib.Logic.Function.Basic

/-!
# The shell's taskbar

`TaskbarModel` (`desktop/shell/src/TaskbarModel.cpp`) follows the compositor's windows: it
subscribes to the signals, asks for the list of ids, then for four details of each id;
when the four replies are there it registers the window and sets its state.

Signals and replies travel from the compositor to the taskbar in the order they were
sent.  The taskbar's calls may be served in any order, and a reply tells what the registry
holds when its call is served.
-/

namespace NiraOS.Shell.Taskbar

open Compositor

/-! ## The model -/

/-- `PendingData`. -/
structure PendingData where
  remaining : ℕ
  record : WindowRecord

structure TaskbarModel where
  windows : List (String × WindowRecord)
  lastFocusedWindowId : String
  /-- The data of the windows that are being asked for, shared by their replies. -/
  data : String → Option PendingData

def TaskbarModel.new : TaskbarModel := ⟨[], "", fun _ => none⟩

def TaskbarModel.onWindowMetadataChanged (m : TaskbarModel) (id title appId : String) :
    TaskbarModel :=
  match m.windows.lookup id with
  | none => m
  | some record =>
      if record.title = title ∧ record.appId = appId then m
      else
        { m with
          windows := Assoc.modify id
            (fun record => { record with title := title, appId := appId }) m.windows }

def TaskbarModel.onWindowRegistered (m : TaskbarModel) (id title appId : String) : TaskbarModel :=
  match m.windows.lookup id with
  | some _ => m.onWindowMetadataChanged id title appId
  | none => { m with windows := m.windows ++ [(id, ⟨title, appId, false, false⟩)] }

def TaskbarModel.onWindowUnregistered (m : TaskbarModel) (id : String) : TaskbarModel :=
  { m with windows := m.windows.eraseP fun window => window.1 = id }

def TaskbarModel.onWindowStateChanged (m : TaskbarModel) (id : String) (minimized focused : Bool) :
    TaskbarModel :=
  match m.windows.lookup id with
  | none => m
  | some record =>
      if record.minimized = minimized ∧ record.focused = focused then m
      else
        { m with
          windows := Assoc.modify id
            (fun record => { record with minimized := minimized, focused := focused }) m.windows
          lastFocusedWindowId := if focused = true then id else m.lastFocusedWindowId }

/-- `data->title = …` and so on. -/
def setField (record : WindowRecord) : Reply → WindowRecord
  | .title value => { record with title := value }
  | .appId value => { record with appId := value }
  | .minimized value => { record with minimized := value }
  | .focused value => { record with focused := value }

/-- The slot of a detail reply: the last one of the four registers the window. -/
def TaskbarModel.onDetail (m : TaskbarModel) (id : String) (reply : Reply) : TaskbarModel :=
  match m.data id with
  | none => m
  | some data =>
      let data := ⟨data.remaining - 1, setField data.record reply⟩
      let m := { m with data := Function.update m.data id (some data) }
      if data.remaining = 0 then
        (m.onWindowRegistered id data.record.title data.record.appId).onWindowStateChanged id
          data.record.minimized data.record.focused
      else m

/-- The slot of the list: fresh data for every id. -/
def TaskbarModel.onList (m : TaskbarModel) (ids : List String) : TaskbarModel :=
  { m with data := fun id => if id ∈ ids then some ⟨4, .default⟩ else m.data id }

inductive Message
  | signal (signal : WindowSignal)
  | list (ids : List String)
  | detail (id : String) (reply : Reply)

def TaskbarModel.receive (m : TaskbarModel) : Message → TaskbarModel
  | .signal (.windowRegistered id title appId) => m.onWindowRegistered id title appId
  | .signal (.windowUnregistered id) => m.onWindowUnregistered id
  | .signal (.windowStateChanged id minimized focused) =>
      m.onWindowStateChanged id minimized focused
  | .signal (.windowMetadataChanged id title appId) => m.onWindowMetadataChanged id title appId
  | .list ids => m.onList ids
  | .detail id reply => m.onDetail id reply

/-- The calls a message makes the taskbar send. -/
def Message.calls : Message → List (String × Field)
  | .list ids => ids.flatMap fun id =>
      [(id, .title), (id, .appId), (id, .minimized), (id, .focused)]
  | _ => []

/-! ## Both ends -/

structure State where
  registry : Registry
  /-- The ids that were ever registered. -/
  used : List String
  taskbar : TaskbarModel
  /-- What the compositor has sent and the taskbar has not received. -/
  inbox : List Message
  /-- The detail calls that were not served yet. -/
  calls : List (String × Field)
  /-- What `ListWindowIds` returned, once it was served. -/
  listed : Option (List String)
  /-- The details served of each window. -/
  served : String → List Reply

/-- The taskbar has subscribed and asked for the list. -/
def State.initial (registry : Registry) : State :=
  ⟨registry, Assoc.keys registry, .new, [], [], none, fun _ => []⟩

def State.operate (s : State) (result : Registry × List WindowSignal) : State :=
  { s with registry := result.1, inbox := s.inbox ++ result.2.map .signal }

inductive Event
  | registerWindow (id title appId : String)
  | unregisterWindow (id : String)
  | updateWindowMetadata (id title appId : String)
  | updateWindowState (id : String) (minimized focused : Bool)
  | serveList
  | serveDetail (id : String) (field : Field)
  | deliver

def step (s : State) : Event → Option State
  | .registerWindow id title appId =>
      if id ∈ s.used then none
      else some { s.operate (s.registry.registerWindow id title appId) with used := id :: s.used }
  | .unregisterWindow id => some (s.operate (s.registry.unregisterWindow id))
  | .updateWindowMetadata id title appId =>
      some (s.operate (s.registry.updateWindowMetadata id title appId))
  | .updateWindowState id minimized focused =>
      some (s.operate (s.registry.updateWindowState id minimized focused))
  | .serveList =>
      match s.listed with
      | none =>
          some { s with
            inbox := s.inbox ++ [.list s.registry.listWindowIds]
            listed := some s.registry.listWindowIds }
      | some _ => none
  | .serveDetail id field =>
      if (id, field) ∈ s.calls then
        let reply := s.registry.detail id field
        some { s with
          inbox := s.inbox ++ [.detail id reply]
          calls := s.calls.erase (id, field)
          served := Function.update s.served id (s.served id ++ [reply]) }
      else none
  | .deliver =>
      match s.inbox with
      | [] => none
      | message :: rest =>
          some { s with
            taskbar := s.taskbar.receive message
            inbox := rest
            calls := s.calls ++ message.calls }

def system : Transition.System State Event where
  init s := ∃ registry, (Assoc.keys registry).Nodup ∧ s = .initial registry
  step := step

end NiraOS.Shell.Taskbar
