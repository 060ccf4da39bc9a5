import NiraOS.Lib.Assoc

/-!
# The compositor's window registry

`WindowManagerDBus` (`desktop/compositor/src/WindowManagerDBus.cpp`): the record of each
window, the operations the window chrome calls, each with the signal it emits if any, and
the queries of the shell.
-/

namespace NiraOS.Compositor

structure WindowRecord where
  title : String
  appId : String
  minimized : Bool
  focused : Bool
  deriving DecidableEq

/-- What `windows_.value(id)` is for an unknown id. -/
def WindowRecord.default : WindowRecord := ⟨"", "", false, false⟩

/-- `windows_`, with one entry a window. -/
abbrev Registry := List (String × WindowRecord)

inductive WindowSignal
  | windowRegistered (id title appId : String)
  | windowUnregistered (id : String)
  | windowStateChanged (id : String) (minimized focused : Bool)
  | windowMetadataChanged (id title appId : String)

/-! ## The operations -/

def Registry.registerWindow (r : Registry) (id title appId : String) :
    Registry × List WindowSignal :=
  (Assoc.insert r id ⟨title, appId, false, false⟩, [.windowRegistered id title appId])

def Registry.unregisterWindow (r : Registry) (id : String) : Registry × List WindowSignal :=
  (Assoc.erase r id, [.windowUnregistered id])

/-- A known window whose state is that already emits nothing. -/
def Registry.updateWindowState (r : Registry) (id : String) (minimized focused : Bool) :
    Registry × List WindowSignal :=
  match r.lookup id with
  | some record =>
      if record.minimized = minimized ∧ record.focused = focused then (r, [])
      else
        (Assoc.modify id (fun record =>
          { record with minimized := minimized, focused := focused }) r,
          [.windowStateChanged id minimized focused])
  | none => (r, [.windowStateChanged id minimized focused])

def Registry.updateWindowMetadata (r : Registry) (id title appId : String) :
    Registry × List WindowSignal :=
  (Assoc.modify id (fun record => { record with title := title, appId := appId }) r,
    [.windowMetadataChanged id title appId])

/-! ## The queries -/

def Registry.listWindowIds (r : Registry) : List String := Assoc.keys r

def Registry.value (r : Registry) (id : String) : WindowRecord :=
  (r.lookup id).getD .default

theorem Registry.value_eq {r : Registry} {id : String} {record : WindowRecord}
    (h : r.lookup id = some record) : r.value id = record := by
  rw [Registry.value, h]
  rfl

/-- `WindowTitle`, `WindowAppId`, `WindowMinimized` and `WindowFocused`. -/
inductive Field
  | title
  | appId
  | minimized
  | focused
  deriving DecidableEq

inductive Reply
  | title (value : String)
  | appId (value : String)
  | minimized (value : Bool)
  | focused (value : Bool)
  deriving DecidableEq

def Field.reply (record : WindowRecord) : Field → Reply
  | .title => .title record.title
  | .appId => .appId record.appId
  | .minimized => .minimized record.minimized
  | .focused => .focused record.focused

def Registry.detail (r : Registry) (id : String) (field : Field) : Reply :=
  field.reply (r.value id)

/-! ## What the signals say -/

/-- What a signal says about a window. -/
def effect (signal : WindowSignal) (other : String) (row : Option WindowRecord) :
    Option WindowRecord :=
  match signal with
  | .windowRegistered id title appId =>
      if other = id then
        match row with
        | some record => some { record with title := title, appId := appId }
        | none => some ⟨title, appId, false, false⟩
      else row
  | .windowUnregistered id => if other = id then none else row
  | .windowStateChanged id minimized focused =>
      if other = id then row.map fun record =>
        { record with minimized := minimized, focused := focused }
      else row
  | .windowMetadataChanged id title appId =>
      if other = id then row.map fun record =>
        { record with title := title, appId := appId } else row

/-- What a list of signals says about a window. -/
def effects (signals : List WindowSignal) (other : String) (row : Option WindowRecord) :
    Option WindowRecord :=
  signals.foldl (fun row signal => effect signal other row) row

theorem Registry.lookup_registerWindow {r : Registry} {id : String} (h : r.lookup id = none)
    (title appId other : String) :
    (r.registerWindow id title appId).1.lookup other =
      effects (r.registerWindow id title appId).2 other (r.lookup other) := by
  simp only [Registry.registerWindow, effects, List.foldl_cons, List.foldl_nil, effect]
  rw [Assoc.lookup_insert]
  split_ifs with hother
  · rw [hother, h]
  · rfl

theorem Registry.lookup_unregisterWindow (r : Registry) (id other : String) :
    (r.unregisterWindow id).1.lookup other =
      effects (r.unregisterWindow id).2 other (r.lookup other) := by
  simp only [Registry.unregisterWindow, effects, List.foldl_cons, List.foldl_nil, effect]
  rw [Assoc.lookup_erase]

theorem Registry.lookup_updateWindowMetadata (r : Registry) (id title appId other : String) :
    (r.updateWindowMetadata id title appId).1.lookup other =
      effects (r.updateWindowMetadata id title appId).2 other (r.lookup other) := by
  simp only [Registry.updateWindowMetadata, effects, List.foldl_cons, List.foldl_nil, effect]
  rw [Assoc.lookup_modify]

theorem Registry.lookup_updateWindowState (r : Registry) (id : String) (minimized focused : Bool)
    (other : String) :
    (r.updateWindowState id minimized focused).1.lookup other =
      effects (r.updateWindowState id minimized focused).2 other (r.lookup other) := by
  unfold Registry.updateWindowState
  cases hrow : r.lookup id with
  | none =>
      simp only [effects, List.foldl_cons, List.foldl_nil, effect]
      split_ifs with hother
      · rw [hother, hrow]
        rfl
      · rfl
  | some record =>
      dsimp only
      split
      · rfl
      · simp only [effects, List.foldl_cons, List.foldl_nil, effect]
        rw [Assoc.lookup_modify]

/-- An update that emits nothing changes nothing either. -/
theorem Registry.lookup_updateWindowState_eq_map (r : Registry) (id : String)
    (minimized focused : Bool) (other : String) :
    (r.updateWindowState id minimized focused).1.lookup other =
      if other = id then
        (r.lookup other).map fun record =>
        { record with minimized := minimized, focused := focused }
      else r.lookup other := by
  unfold Registry.updateWindowState
  cases hrow : r.lookup id with
  | none =>
      dsimp only
      split_ifs with hother
      · rw [hother, hrow]
        rfl
      · rfl
  | some record =>
      dsimp only
      by_cases hsame : record.minimized = minimized ∧ record.focused = focused
      · rw [if_pos hsame]
        split_ifs with hother
        · rw [hother, hrow, Option.map_some, ← hsame.1, ← hsame.2]
        · rfl
      · rw [if_neg hsame]
        exact Assoc.lookup_modify ..

theorem Registry.nodup_updateWindowState {r : Registry} (h : (Assoc.keys r).Nodup) (id : String)
    (minimized focused : Bool) :
    (Assoc.keys (r.updateWindowState id minimized focused).1).Nodup := by
  unfold Registry.updateWindowState
  split
  · split
    · exact h
    · rwa [Assoc.keys_modify]
  · exact h

end NiraOS.Compositor
