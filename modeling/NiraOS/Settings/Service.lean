import NiraOS.Lib.Assoc
import NiraOS.Lib.Text
import NiraOS.Lib.Transition
import Mathlib.Logic.Function.Basic

/-!
# The settings service

`SettingsManager` (`core/settings-service/src/main.rs`) keeps the settings in a map under
a lock and, for each `set_setting`, saves a snapshot of the map to a file.  Any number
of calls run at once; between two steps of one call the others may take any number.

The steps of a call: take the write lock, insert, release it; serialise the map under the
read lock; create the directory; write the temporary file, named by the clock; rename it.
Nothing awaits while the read lock is held, so it has no state of its own.  Each event
carries what the file system and the clock answer.

The text of a TOML file stands for what it parses to.
-/

namespace NiraOS.Settings

/-! ## The map and the file -/

/-- The entries of `HashMap<String, String>`, in no meaningful order. -/
abbrev Store := List (String × String)

def Store.insert (store : Store) (key value : String) : Store :=
  Assoc.insert store key value

/-- The same map. -/
def Store.Same (store store' : Store) : Prop :=
  ∀ key, store.lookup key = store'.lookup key

inductive TomlValue
  | str (value : String)
  /-- A value that is not a string, by its text. -/
  | other (text : String)
  deriving DecidableEq

inductive FileContent
  | toml (table : List (String × TomlValue))
  /-- A text that is not TOML. -/
  | malformed (text : String)

/-- `toml::to_string_pretty`. -/
def toStringPretty (store : Store) : FileContent :=
  .toml (store.map fun entry => (entry.1, .str entry.2))

/-- `toml::from_str::<HashMap<String, String>>`: every value must be a string. -/
def fromStr : FileContent → Option Store
  | .toml table => table.mapM fun entry =>
      match entry.2 with
      | .str value => some (entry.1, value)
      | .other _ => none
  | .malformed _ => none

/-! ## The service -/

inductive Reply
  /-- `Status::invalid_argument`. -/
  | invalidArgument (message : String)
  /-- `SetSettingResponse`. -/
  | response (success : Bool) (error : String)
  deriving DecidableEq

inductive Pc
  | waiting
  | locked
  | inserted
  | unlocked
  | serialised (snapshot : Store)
  | dirCreated (snapshot : Store)
  | written (snapshot : Store) (suffix : ℕ)
  | returned (reply : Reply)

structure Call where
  key : String
  value : String
  pc : Pc

structure State where
  /-- The file at `config_path`. -/
  config : Option FileContent
  /-- The temporary files next to it, by the suffix of their names. -/
  temp : ℕ → Option FileContent
  store : Store
  /-- The call that holds the write lock. -/
  writer : Option ℕ
  calls : ℕ → Option Call
  next : ℕ
  /-- What the store held when the service had started. -/
  loaded : Store
  /-- What was inserted since then, the last insertion first. -/
  inserts : Store

def seedDefaults : Store :=
  [("ai.mode", "ondemand"), ("ai.inactivity_timeout_secs", "300"),
    ("ai.model_path", "/var/lib/niraos/models/default.gguf")]

/-- `load_from_disk_sync`: an unreadable file leaves the store empty. -/
def loadFromDisk : Option FileContent → Store
  | none => seedDefaults
  | some content => (fromStr content).getD []

/-- `SettingsManager::new`, with the temporary files earlier runs left.  `blocking_write` panics in
an asynchronous `main`, so the service comes up only with a file that is there and does not decode,
and with no settings; nothing below depends on which they are. -/
def State.new (config : Option FileContent) (temp : ℕ → Option FileContent) : State :=
  ⟨config, temp, loadFromDisk config, none, fun _ => none, 0, loadFromDisk config, []⟩

def State.goto (s : State) (t : ℕ) (call : Call) (pc : Pc) : State :=
  { s with calls := Function.update s.calls t (some { call with pc := pc }) }

/-- The response of a call whose `save_to_disk_atomic` failed. -/
def failedToPersist (error : String) : Reply :=
  .response false ("failed to persist: " ++ error)

inductive Event
  | setSetting (key value : String)
  | lock (t : ℕ)
  | insert (t : ℕ)
  | unlock (t : ℕ)
  | serialise (t : ℕ) (error : Option String)
  | createDir (t : ℕ) (error : Option String)
  /-- `suffix` is the clock; a write that fails may leave something behind. -/
  | write (t suffix : ℕ) (error : Option (String × Option FileContent))
  | rename (t : ℕ) (error : Option String)

def Event.call? : Event → Option ℕ
  | .setSetting _ _ => none
  | .lock t | .insert t | .unlock t | .serialise t _ | .createDir t _ | .write t _ _
  | .rename t _ =>
      some t

/-- What a call does next. -/
def advance (s : State) (t : ℕ) (call : Call) : Event → Option State
  | .lock _ =>
      match call.pc, s.writer with
      | .waiting, none => some ({ s with writer := some t }.goto t call .locked)
      | _, _ => none
  | .insert _ =>
      match call.pc with
      | .locked =>
          some ({ s with
            store := s.store.insert call.key call.value
            inserts := (call.key, call.value) :: s.inserts }.goto t call .inserted)
      | _ => none
  | .unlock _ =>
      match call.pc with
      | .inserted => some ({ s with writer := none }.goto t call .unlocked)
      | _ => none
  | .serialise _ error =>
      match call.pc, s.writer with
      | .unlocked, none =>
          if s.store = [] then some (s.goto t call (.returned (.response true "")))
          else
            match error with
            | some error => some (s.goto t call (.returned (failedToPersist error)))
            | none => some (s.goto t call (.serialised s.store))
      | _, _ => none
  | .createDir _ error =>
      match call.pc with
      | .serialised snapshot =>
          match error with
          | some error => some (s.goto t call (.returned (failedToPersist error)))
          | none => some (s.goto t call (.dirCreated snapshot))
      | _ => none
  | .write _ suffix error =>
      match call.pc with
      | .dirCreated snapshot =>
          match error with
          | some (error, left) =>
              some ({ s with temp := Function.update s.temp suffix left }.goto t call
                (.returned (failedToPersist error)))
          | none =>
              some ({ s with
                temp := Function.update s.temp suffix (some (toStringPretty snapshot)) }.goto t call
                (.written snapshot suffix))
      | _ => none
  | .rename _ error =>
      match call.pc with
      | .written _ suffix =>
          match error, s.temp suffix with
          | some error, _ => some (s.goto t call (.returned (failedToPersist error)))
          | none, none =>
              some (s.goto t call
                (.returned (failedToPersist "No such file or directory (os error 2)")))
          | none, some content =>
              some ({ s with
                config := some content
                temp := Function.update s.temp suffix none }.goto t call
                (.returned (.response true "")))
      | _ => none
  | .setSetting _ _ => none

/-- A new call; a blank key is refused at once. -/
def State.setSetting (s : State) (key value : String) : State :=
  { s with next := s.next + 1 }.goto s.next ⟨key, value, .waiting⟩
    (if Text.isBlank key = true then
      .returned (.invalidArgument "setting key must not be empty") else .waiting)

def step (s : State) (e : Event) : Option State :=
  match e with
  | .setSetting key value => some (s.setSetting key value)
  | e =>
      match e.call? with
      | none => none
      | some t =>
          match s.calls t with
          | none => none
          | some call => advance s t call e

def system : Transition.System State Event where
  init s := ∃ config temp, s = .new config temp
  step := step

end NiraOS.Settings
