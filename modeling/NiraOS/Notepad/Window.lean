import NiraOS.Notepad.FileDialogHelper
import NiraOS.Lib.TextDocument
import NiraOS.Lib.Transition
import Mathlib.Data.List.Basic

/-!
# The notepad window

`Main.qml` of the notepad: the tabs' model, the one editor that shows the current tab, and
the state of the current document kept beside them.  Every handler is a function on the
state; an event is what the user, the timer or the outcome of a file operation contributes.

Assigning `tabBar.currentIndex` runs `onCurrentIndexChanged` when the number changes.  A tab
bar selects an index by itself while a row is removed; which one is part of the event.

The editor is a `TextArea`, whose `text` is that of its document: a text that is assigned comes back
with spaces and line feeds for other spaces and separators.

The titles, the languages and the recent files are left out: nothing below reads them.
-/

namespace NiraOS.Notepad

open TextDocument (toPlainText)

/-! ## The state -/

structure Tab where
  /-- The row itself, whatever its index. -/
  id : ℕ
  filePath : String
  savedContent : String
  modified : Bool
  autoSaveEnabled : Bool
  /-- What was last loaded from the file or written to it; no handler reads it. -/
  onDisk : String
  deriving DecidableEq

inductive Phase
  | starting
  | running
  | closed
  deriving DecidableEq

structure State where
  phase : Phase
  tabs : List Tab
  nextId : ℕ
  /-- `tabBar.currentIndex`, with `none` for -1, as for the other indices. -/
  currentIndex : Option ℕ
  /-- `editor.text`. -/
  editor : String
  docPath : String
  docSavedContent : String
  docModified : Bool
  docAutoSave : Bool
  loadedTabIndex : Option ℕ
  pendingCloseIndex : Option ℕ
  /-- `unsavedDialog` is open. -/
  unsavedDialog : Bool
  disk : Disk

def State.initial (disk : Disk) : State where
  phase := .starting
  tabs := []
  nextId := 0
  currentIndex := some 0
  editor := ""
  docPath := ""
  docSavedContent := ""
  docModified := false
  docAutoSave := false
  loadedTabIndex := none
  pendingCloseIndex := none
  unsavedDialog := false
  disk

/-- The tab at an index. -/
def State.tabAt (s : State) (index : Option ℕ) : Option Tab := index.bind fun i => s.tabs[i]?

def State.currentTab (s : State) : Option Tab := s.tabAt s.currentIndex

/-- `tabs.setProperty` on the row at an index. -/
def State.setTab (s : State) (index : Option ℕ) (f : Tab → Tab) : State :=
  { s with
    tabs := match index with
      | none => s.tabs
      | some i => s.tabs.modify i f }

/-! ## Switching tabs -/

def State.flushEditorToModel (s : State) (index : Option ℕ) : State :=
  s.setTab index fun t => { t with
    savedContent := s.editor, modified := decide (s.editor ≠ t.savedContent) }

def State.loadEditorFromCurrent (s : State) : State :=
  match s.currentTab with
  | none => s
  | some t =>
      { s with
        editor := toPlainText t.savedContent
        docPath := t.filePath
        docSavedContent := t.savedContent
        docModified := t.modified
        docAutoSave := t.autoSaveEnabled
        loadedTabIndex := s.currentIndex }

def State.onCurrentIndexChanged (s : State) : State :=
  if s.loadedTabIndex = s.currentIndex then s
  else (s.flushEditorToModel s.loadedTabIndex).loadEditorFromCurrent

/-- `tabBar.currentIndex = index`. -/
def State.setCurrentIndex (s : State) (index : Option ℕ) : State :=
  if s.currentIndex = index then s else { s with currentIndex := index }.onCurrentIndexChanged

/-! ## The life of a tab -/

/-- A new row. -/
def State.freshTab (s : State) (path content : String) : Tab :=
  ⟨s.nextId, path, content, false, decide (path ≠ ""), content⟩

def State.appendTab (s : State) (path content : String) : State :=
  { s with tabs := s.tabs ++ [s.freshTab path content], nextId := s.nextId + 1 }

def State.newTab (s : State) (path content : String) : State :=
  (s.appendTab path content).setCurrentIndex (some s.tabs.length)

/-- `selected` is the index that the tab bar selects by itself when the row goes. -/
def State.removeTabImmediately (s : State) (index : ℕ) (selected : Option ℕ) : State :=
  if s.tabs = [] then s
  else
    let s := { s with tabs := s.tabs.eraseIdx index }.setCurrentIndex selected
    let s := { s with loadedTabIndex := none }
    let s :=
      if s.tabs = [] then s.newTab "" ""
        else s.setCurrentIndex (some (min index (s.tabs.length - 1)))
    { s with pendingCloseIndex := none }

def State.closeTab (s : State) (index : ℕ) (selected : Option ℕ) : State :=
  if s.tabs.length ≤ index then s
  else
    let s := s.setCurrentIndex (some index)
    match s.tabAt (some index) with
    | none => s
    | some t =>
        if t.modified = true then { s with pendingCloseIndex := some index, unsavedDialog := true }
        else s.removeTabImmediately index selected

/-! ## Files -/

/-- A row that takes the text of a file. -/
def Tab.opened (path content : String) (t : Tab) : Tab :=
  { t with
    filePath := path
    savedContent := content
    modified := false
    autoSaveEnabled := true
    onDisk := content }

def State.openPath (s : State) (path : String) : ReadResult → State
  | .success content =>
      match s.currentTab with
      | some t =>
          if t.filePath = "" ∧ t.modified = false then
            (s.setTab s.currentIndex (Tab.opened path content)).loadEditorFromCurrent
          else s.newTab path content
      | none => s.newTab path content
  -- a dialog tells; `openPath` may be called again
  | .tooLarge => s
  | .failure => s

/-- What `saveCurrent` writes, unless it opens the dialog to save as. -/
def State.written (s : State) : Option (String × String) :=
  if s.tabs = [] ∨ s.docPath = "" then none else some (s.docPath, s.editor)

def State.saveCurrent (s : State) (faults : WriteFaults) : State :=
  match s.written with
  | none => s
  | some (path, text) =>
      let result := writeFile faults s.disk path text
      let s := { s with disk := result.2 }
      if result.1 = true then
        { s.setTab s.currentIndex fun t =>
            { t with
              savedContent := text
              modified := false
              onDisk := if t.filePath = path then text else t.onDisk } with
          docSavedContent := text
          docModified := false }
      else s

def State.saveCurrentAs (s : State) (path : String) (faults : WriteFaults) : State :=
  let result := writeFile faults s.disk path s.editor
  let s := { s with disk := result.2 }
  if result.1 = true then
    { s.setTab s.currentIndex fun t =>
        { t with
          filePath := path
          savedContent := s.editor
          modified := false
          autoSaveEnabled := true
          onDisk := s.editor } with
      docPath := path
      docSavedContent := s.editor
      docModified := false
      docAutoSave := true }
  else s

/-! ## The editor -/

def State.markModified (s : State) : State :=
  let changed := decide (s.editor ≠ s.docSavedContent)
  if changed ≠ s.docModified then
    { s.setTab s.currentIndex fun t => { t with modified := changed } with docModified := changed }
  else s

/-- The text becomes another one; the same text changes nothing. -/
def State.edit (s : State) (text : String) : State :=
  if text = s.editor then s else { s with editor := text }.markModified

/-! ## The dialog and the window -/

/-- Cancel, and every other way to reject the dialog. -/
def State.cancelClose (s : State) : State :=
  { s with pendingCloseIndex := none, unsavedDialog := false }

def State.discard (s : State) (selected : Option ℕ) : State :=
  match s.pendingCloseIndex with
  | none => s.cancelClose
  | some index => s.cancelClose.removeTabImmediately index selected

def State.saveThenClose (s : State) (faults : WriteFaults) (selected : Option ℕ) : State :=
  if s.docPath = "" then s.cancelClose
  else
    let s' := { s.saveCurrent faults with unsavedDialog := false }
    match s.pendingCloseIndex with
    | none => s'
    | some index => s'.removeTabImmediately index selected

/-- The window is asked to close; it does when no tab is modified. -/
def State.onClosing (s : State) : State :=
  let s := s.flushEditorToModel s.loadedTabIndex
  match s.tabs.findIdx? Tab.modified with
  | some i =>
      { s.setCurrentIndex (some i) with pendingCloseIndex := some i, unsavedDialog := true }
  | none => { s with phase := .closed }

def State.autoSave (s : State) (faults : WriteFaults) : State :=
  if s.docAutoSave = true ∧ s.docModified = true ∧ s.docPath ≠ "" then s.saveCurrent faults else s

def State.setAutoSave (s : State) (checked : Bool) : State :=
  { s.setTab s.currentIndex fun t => { t with
    autoSaveEnabled := checked } with docAutoSave := checked }

/-! ## Steps -/

inductive Event
  /-- The window is complete; with the file of the command line, if any. -/
  | completed (initialFile : Option (String × ReadResult))
  /-- The editor's text becomes another one. -/
  | edit (text : String)
  | selectTab (index : ℕ)
  | newTab
  | openPath (path : String) (result : ReadResult)
  | saveCurrent (faults : WriteFaults)
  | saveCurrentAs (path : String) (faults : WriteFaults)
  | autoSave (faults : WriteFaults)
  | setAutoSave (checked : Bool)
  | closeTab (index : ℕ) (selected : Option ℕ)
  | cancelClose
  | discard (selected : Option ℕ)
  | saveThenClose (faults : WriteFaults) (selected : Option ℕ)
  | close

/-- The window takes the event; an open dialog is modal, but not to the timer or the close
button of the window. -/
def State.Accepts (s : State) : Event → Prop
  | .completed _ => s.phase = .starting
  | .autoSave _ | .close => s.phase = .running
  | .cancelClose | .discard _ | .saveThenClose .. => s.phase = .running ∧ s.unsavedDialog = true
  | .selectTab index => s.phase = .running ∧ s.unsavedDialog = false ∧ index < s.tabs.length
  | .setAutoSave _ => s.phase = .running ∧ s.unsavedDialog = false ∧ s.docPath ≠ ""
  | .edit text => s.phase = .running ∧ s.unsavedDialog = false ∧ toPlainText text = text
  | _ => s.phase = .running ∧ s.unsavedDialog = false

instance (s : State) : (e : Event) → Decidable (s.Accepts e)
  | .completed _ => inferInstanceAs (Decidable (_ = _))
  | .autoSave _ | .close => inferInstanceAs (Decidable (_ = _))
  | .cancelClose | .discard _ | .saveThenClose .. => inferInstanceAs (Decidable (_ ∧ _))
  | .selectTab _ | .setAutoSave _ | .edit _ => inferInstanceAs (Decidable (_ ∧ _ ∧ _))
  | .newTab | .openPath .. | .saveCurrent _ | .saveCurrentAs .. | .closeTab .. =>
      inferInstanceAs (Decidable (_ ∧ _))

def State.handle (s : State) : Event → State
  | .completed none => { s with phase := .running }.newTab "" ""
  | .completed (some (path, result)) => { s with phase := .running }.openPath path result
  | .edit text => s.edit text
  | .selectTab index => s.setCurrentIndex (some index)
  | .newTab => s.newTab "" ""
  | .openPath path result => s.openPath path result
  | .saveCurrent faults => s.saveCurrent faults
  | .saveCurrentAs path faults => s.saveCurrentAs path faults
  | .autoSave faults => s.autoSave faults
  | .setAutoSave checked => s.setAutoSave checked
  | .closeTab index selected => s.closeTab index selected
  | .cancelClose => s.cancelClose
  | .discard selected => s.discard selected
  | .saveThenClose faults selected => s.saveThenClose faults selected
  | .close => s.onClosing

def system : Transition.System State Event where
  init s := ∃ disk, s = .initial disk
  step s e := if s.Accepts e then some (s.handle e) else none

/-! ## Rows -/

theorem State.tabAt_setTab (s : State) (index : Option ℕ) (f : Tab → Tab) (i : ℕ) :
    (s.setTab index f).tabAt (some i) =
      if index = some i then (s.tabAt (some i)).map f else s.tabAt (some i) := by
  unfold State.setTab State.tabAt
  cases index with
  | none => rfl
  | some j =>
      simp only [Option.bind_some, List.getElem?_modify, Option.some.injEq]
      split_ifs with h
      · rfl
      · exact Option.map_id' ..

/-- The current row is set. -/
theorem State.currentTab_of_setTab {s s' : State} {f : Tab → Tab}
    (htabs : s'.tabs = (s.setTab s.currentIndex f).tabs)
    (hindex : s'.currentIndex = s.currentIndex) :
    s'.currentTab = s.currentTab.map f := by
  unfold State.currentTab
  rw [hindex]
  cases hc : s.currentIndex with
  | none => rfl
  | some c =>
      have hrow := s.tabAt_setTab s.currentIndex f c
      rw [if_pos hc] at hrow
      rw [← hrow]
      simp only [State.tabAt, htabs]

@[simp] theorem State.length_setTab (s : State) (index : Option ℕ) (f : Tab → Tab) :
    (s.setTab index f).tabs.length = s.tabs.length := by
  cases index with
  | none => rfl
  | some j => exact List.length_modify ..

theorem State.tabAt_of_lt {s : State} {i : ℕ} (h : i < s.tabs.length) :
    ∃ t, s.tabAt (some i) = some t :=
  ⟨_, List.getElem?_eq_getElem h⟩

theorem State.lt_of_tabAt {s : State} {i : ℕ} {t : Tab} (h : s.tabAt (some i) = some t) :
    i < s.tabs.length :=
  (List.getElem?_eq_some_iff.mp h).1

/-! ## What a switch comes to -/

/-- The editor shows a tab. -/
def State.showing (s : State) (index : ℕ) (t : Tab) : State :=
  { s with
    currentIndex := some index
    editor := toPlainText t.savedContent
    docPath := t.filePath
    docSavedContent := t.savedContent
    docModified := t.modified
    docAutoSave := t.autoSaveEnabled
    loadedTabIndex := some index }

theorem State.setCurrentIndex_self {s : State} {index : Option ℕ} (h : s.currentIndex = index) :
    s.setCurrentIndex index = s :=
  if_pos h

/-- The editor of the tab that is left is flushed, if it is the loaded one. -/
theorem State.setCurrentIndex_of_ne {s : State} {index : ℕ} {t : Tab}
    (hcurrent : s.currentIndex ≠ some index) (hloaded : s.loadedTabIndex ≠ some index)
    (ht : s.tabAt (some index) = some t) :
    s.setCurrentIndex (some index) = (s.flushEditorToModel s.loadedTabIndex).showing index t := by
  have hflush : ({ s with currentIndex := some index }.flushEditorToModel
    s.loadedTabIndex).currentTab =
      some t := by
    have := s.tabAt_setTab s.loadedTabIndex (fun t =>
      { t with savedContent := s.editor, modified := decide (s.editor ≠ t.savedContent) }) index
    rw [if_neg hloaded, ht] at this
    exact this
  rw [State.setCurrentIndex, if_neg hcurrent, State.onCurrentIndexChanged, if_neg hloaded,
    State.loadEditorFromCurrent, hflush]
  rfl

@[simp] theorem State.length_flush (s : State) (index : Option ℕ) :
    (s.flushEditorToModel index).tabs.length = s.tabs.length :=
  s.length_setTab index _

@[simp] theorem State.length_load (s : State) :
    s.loadEditorFromCurrent.tabs.length = s.tabs.length := by
  unfold State.loadEditorFromCurrent
  split <;> rfl

@[simp] theorem State.length_setCurrentIndex (s : State) (index : Option ℕ) :
    (s.setCurrentIndex index).tabs.length = s.tabs.length := by
  unfold State.setCurrentIndex State.onCurrentIndexChanged
  split_ifs
  · rfl
  · rfl
  · rw [State.length_load, State.length_flush]

theorem State.currentIndex_setCurrentIndex (s : State) (index : Option ℕ) :
    (s.setCurrentIndex index).currentIndex = index := by
  unfold State.setCurrentIndex State.onCurrentIndexChanged State.loadEditorFromCurrent
  split_ifs with hcurrent
  · exact hcurrent
  · rfl
  · split <;> rfl

end NiraOS.Notepad
