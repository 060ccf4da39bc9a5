import NiraOS.Lib.Text
import NiraOS.Lib.Transition
import Mathlib.Data.Int.Notation
import Mathlib.Data.List.Basic
import Mathlib.Data.List.Range

/-!
# The rows of a directory and what is selected of them

`FileModel` (`apps/files/src/FileModel.cpp`) and `FileView` (`apps/files/qml/FileView.qml`).  The
model holds the rows; a load runs in the background, and what it has found replaces the rows.  The
view holds the selection twice, as rows and as paths, and the row of an open rename dialog.  Each
delegate shows its row as selected or not, as its binding was last evaluated.  `selectedIndices` is
a `property var`: to assign to it evaluates the bindings anew, `push` and `splice` do not.

What a load finds is up to the environment, and so is the order in which rows are put that the
comparison does not tell apart.
-/

namespace NiraOS.Files.View

structure FileEntry where
  fileName : String
  filePath : String
  fileSize : ℤ
  fileType : String
  mimeType : String
  lastModified : ℤ
  isHidden : Bool
  deriving DecidableEq

/-- What is used of `QString` without regard to case. -/
structure Qt where
  compare : String → String → Ordering
  toLower : String → String

inductive SortOrder
  | ascending
  | descending
  deriving DecidableEq

/-- The calls of `FileOperations`. -/
inductive Call
  | delete (path : String)
  | move (source dest : String)
  | copy (source dest : String)
  /-- There is no path when the row is gone. -/
  | rename (path : Option String) (newName : String)
  deriving DecidableEq

structure RenameDialog where
  isOpen : Bool
  targetIndex : ℤ
  oldName : String
  /-- The file whose name the dialog has shown since it was opened. -/
  shown : Option String

/-- A row on the screen, in any of the three views. -/
structure Delegate where
  row : ℕ
  /-- What `root.selectedIndices.includes(index)` was when it was last evaluated. -/
  isSelected : Bool
  deriving DecidableEq

structure State where
  currentPath : String
  entries : List FileEntry
  sortColumn : ℤ
  sortOrder : SortOrder
  nameFilter : String
  showHidden : Bool
  loading : Bool
  selectedIndices : List ℕ
  selectedPaths : List String
  delegates : List Delegate
  clipboardPaths : List String
  clipboardIsCut : Bool
  contextPath : String
  contextIndex : ℤ
  renameDialog : RenameDialog
  calls : List Call

def State.empty : State where
  currentPath := ""
  entries := []
  sortColumn := 0
  sortOrder := .ascending
  nameFilter := ""
  showHidden := false
  loading := false
  selectedIndices := []
  selectedPaths := []
  delegates := []
  clipboardPaths := []
  clipboardIsCut := false
  contextPath := ""
  contextIndex := -1
  renameDialog := ⟨false, -1, "", none⟩
  calls := []

/-! ## The model -/

section Model

variable (qt : Qt) (s : State)

/-- `fileInfoAt`. -/
def infoAt (entries : List FileEntry) (row : ℤ) : Option FileEntry :=
  if row < 0 then none else entries[row.toNat]?

/-- The comparison of `sortEntries`. -/
def sortsBefore (column : ℤ) (order : SortOrder) (a b : FileEntry) : Bool :=
  if a.fileType = "directory" ∧ b.fileType ≠ "directory" then true
  else if a.fileType ≠ "directory" ∧ b.fileType = "directory" then false
  else
    let cmp : Ordering :=
      match column with
      | 0 => qt.compare a.fileName b.fileName
      | 1 => Ord.compare a.fileSize b.fileSize
      | 2 => (qt.compare a.mimeType b.mimeType).then (qt.compare a.fileName b.fileName)
      | 3 => Ord.compare a.lastModified b.lastModified
      | _ => .eq
    match order with
    | .ascending => cmp = .lt
    | .descending => cmp = .gt

/-- What `std::sort` may leave of some rows. -/
def Sorts (column : ℤ) (order : SortOrder) (rows sorted : List FileEntry) : Prop :=
  sorted.Perm rows ∧ sorted.Pairwise fun a b => sortsBefore qt column order b a = false

instance (column : ℤ) (order : SortOrder) (rows sorted : List FileEntry) :
    Decidable (Sorts qt column order rows sorted) :=
  inferInstanceAs (Decidable (_ ∧ _))

/-- What `onDirectoryLoaded` keeps of what was found. -/
def State.filtered (found : List FileEntry) : List FileEntry :=
  let found := if s.showHidden then found else found.filter fun e => !e.isHidden
  if s.nameFilter = "" then found
  else found.filter fun e => Text.contains (qt.toLower e.fileName) (qt.toLower s.nameFilter)

def State.refresh : State := if s.currentPath = "" then s else { s with loading := true }

def State.setCurrentPath (path : String) : State :=
  if path = s.currentPath then s else { s with currentPath := path }.refresh

def State.setNameFilter (filter : String) : State :=
  if filter = s.nameFilter then s else { s with nameFilter := filter }.refresh

def State.setShowHidden (shown : Bool) : State :=
  if shown = s.showHidden then s else { s with showHidden := shown }.refresh

/-- The model is reset: the views let go of their delegates. -/
def State.reset (rows : List FileEntry) : State := { s with entries := rows, delegates := [] }

def State.applySort (sorted : List FileEntry) : Option State :=
  if s.entries = [] then some s
  else if Sorts qt s.sortColumn s.sortOrder s.entries sorted then some (s.reset sorted) else none

def State.setSortColumn (column : ℤ) (sorted : List FileEntry) : Option State :=
  if column = s.sortColumn then some s else { s with sortColumn := column }.applySort qt sorted

def State.setSortOrder (order : SortOrder) (sorted : List FileEntry) : Option State :=
  if order = s.sortOrder then some s else { s with sortOrder := order }.applySort qt sorted

def State.onDirectoryLoaded (found sorted : List FileEntry) : Option State :=
  if s.loading = true ∧ Sorts qt s.sortColumn s.sortOrder (s.filtered qt found) sorted then
    some { s.reset sorted with loading := false }
  else none

end Model

/-! ## The filters -/

section Filters

variable {qt : Qt} {s : State} {e : FileEntry} {found : List FileEntry}

variable (qt s) in
/-- What the current filters let through: a hidden entry only when these are shown, and a name in
which the filter is found, capital or not. -/
structure Passes (e : FileEntry) : Prop where
  hidden : e.isHidden = true → s.showHidden = true
  named : s.nameFilter = "" ∨
    (qt.toLower s.nameFilter).toList <:+: (qt.toLower e.fileName).toList

instance : DecidablePred (Passes qt s) := fun e =>
  decidable_of_iff
    ((e.isHidden = true → s.showHidden = true) ∧
      (s.nameFilter = "" ∨ (qt.toLower s.nameFilter).toList <:+: (qt.toLower e.fileName).toList))
    ⟨fun h => ⟨h.1, h.2⟩, fun h => ⟨h.hidden, h.named⟩⟩

/-- What `onDirectoryLoaded` keeps is what passes. -/
theorem filtered_eq : s.filtered qt found = found.filter fun e => Passes qt s e := by
  have hshown : ∀ shown : Bool,
      (if shown then found else found.filter fun e => !e.isHidden) =
        found.filter fun e => decide (e.isHidden = true → shown = true) := by
    intro shown
    cases shown <;> simp
  have hnamed : ∀ rows : List FileEntry,
      (if s.nameFilter = "" then rows
        else rows.filter fun e => Text.contains (qt.toLower e.fileName) (qt.toLower s.nameFilter)) =
      rows.filter fun e => decide (s.nameFilter = "" ∨
        (qt.toLower s.nameFilter).toList <:+: (qt.toLower e.fileName).toList) := by
    intro rows
    split_ifs with hempty
    · simp [hempty]
    · refine List.filter_congr fun e _ => ?_
      rw [Bool.eq_iff_iff, Text.contains_iff, decide_eq_true_iff, or_iff_right hempty]
  unfold State.filtered
  rw [hshown, hnamed, List.filter_filter]
  refine List.filter_congr fun e _ => ?_
  rw [← Bool.decide_and, decide_eq_decide]
  exact ⟨fun h => ⟨h.2, h.1⟩, fun h => ⟨h.named, h.hidden⟩⟩

end Filters

/-! ## The selection -/

section Selection

variable (s : State)

def State.updateSelectedPaths : State :=
  { s with
    selectedPaths := s.selectedIndices.filterMap fun i => (s.entries[i]?).map FileEntry.filePath }

/-- `selectedIndices = indices`. -/
def State.assign (indices : List ℕ) : State :=
  { s with
    selectedIndices := indices
    delegates := s.delegates.map fun d => { d with isSelected := decide (d.row ∈ indices) } }

/-- The array has become `indices` by `push` and `splice`. -/
def State.mutate (indices : List ℕ) : State := { s with selectedIndices := indices }

def State.toggleSelection (index : ℕ) : State :=
  (s.mutate
    (if index ∈ s.selectedIndices then s.selectedIndices.erase index
      else s.selectedIndices ++ [index])).updateSelectedPaths

def pushMissing (indices : List ℕ) (i : ℕ) : List ℕ :=
  if i ∈ indices then indices else indices ++ [i]

def State.rangeSelection (index : ℕ) : State :=
  match s.selectedIndices.getLast? with
  | none => s.toggleSelection index
  | some last =>
      let first := min last index
      let count := max last index + 1 - first
      (s.mutate ((List.range' first count).foldl pushMissing s.selectedIndices)).updateSelectedPaths

def State.selectAll : State :=
  ((s.assign []).mutate (List.range s.entries.length)).updateSelectedPaths

def State.clearSelection : State := (s.assign []).updateSelectedPaths

def State.invertSelection : State :=
  (s.assign ((List.range s.entries.length).filter fun i =>
    i ∉ s.selectedIndices)).updateSelectedPaths

def State.deleteSelected : State := { s with calls := s.calls ++ s.selectedPaths.map Call.delete }

def State.copySelected : State :=
  { s with clipboardPaths := s.selectedPaths, clipboardIsCut := false }

def State.cutSelected : State :=
  { s with clipboardPaths := s.selectedPaths, clipboardIsCut := true }

def State.pasteTo (path : String) : State :=
  if s.clipboardIsCut then
    { s with
      calls := s.calls ++ s.clipboardPaths.map (Call.move · path)
      clipboardPaths := []
      clipboardIsCut := false }
  else { s with calls := s.calls ++ s.clipboardPaths.map (Call.copy · path) }

/-- There is a delegate of the row to be clicked on. -/
def State.OnScreen (index : ℕ) : Prop := index ∈ s.delegates.map Delegate.row

instance (index : ℕ) : Decidable (s.OnScreen index) :=
  inferInstanceAs (Decidable (index ∈ s.delegates.map Delegate.row))

/-- A view creates a delegate, which is scrolled into sight. -/
def State.createDelegate (row : ℕ) : State :=
  { s with delegates := s.delegates ++ [⟨row, decide (row ∈ s.selectedIndices)⟩] }

end Selection

/-! ## The rename dialog -/

section Rename

variable (s : State)

/-- Where there is no row, the assignment to `oldName` fails and the dialog is not opened. -/
def State.startRename (index : ℤ) : State :=
  match infoAt s.entries index with
  | some info => { s with renameDialog := ⟨true, index, info.fileName, some info.filePath⟩ }
  | none => { s with renameDialog := { s.renameDialog with targetIndex := index } }

def State.renameSelected : State :=
  match s.selectedIndices with
  | [index] => s.startRename index
  | _ => s

/-- `onAccepted`, with the text of the field. -/
def State.acceptRename (text : String) : State :=
  let s' := { s with renameDialog := { s.renameDialog with isOpen := false } }
  if text ≠ "" ∧ text ≠ s.renameDialog.oldName then
    { s' with
      calls := s.calls ++
        [.rename ((infoAt s.entries s.renameDialog.targetIndex).map FileEntry.filePath) text] }
  else s'

def State.rejectRename : State := { s with renameDialog := { s.renameDialog with isOpen := false } }

end Rename

/-! ## Events -/

inductive Event
  | navigate (path : String)
  | setSortColumn (column : ℤ) (sorted : List FileEntry)
  | setSortOrder (order : SortOrder) (sorted : List FileEntry)
  | setNameFilter (filter : String)
  | setShowHidden (shown : Bool)
  | refresh
  | directoryLoaded (found sorted : List FileEntry)
  | delegateCreated (row : ℕ)
  | delegateReleased (i : ℕ)
  /-- A click on a row, with the control key, with the shift key or with none. -/
  | toggleSelection (index : ℕ)
  | rangeSelection (index : ℕ)
  | clicked (index : ℕ)
  | selectAll
  | clearSelection
  | invertSelection
  | deleteSelected
  | copySelected
  | cutSelected
  | pasteClipboard
  | renameSelected
  | contextMenu (index : ℕ)
  | contextDelete
  | contextCopy
  | contextCut
  | contextPaste
  | contextRename
  | renameAccepted (text : String)
  | renameRejected

def view (qt : Qt) : Transition.System State Event where
  init s := s = .empty
  step s
    | .navigate path => some (s.setCurrentPath path)
    | .setSortColumn column sorted => s.setSortColumn qt column sorted
    | .setSortOrder order sorted => s.setSortOrder qt order sorted
    | .setNameFilter filter => some (s.setNameFilter filter)
    | .setShowHidden shown => some (s.setShowHidden shown)
    | .refresh => some s.refresh
    | .directoryLoaded found sorted => s.onDirectoryLoaded qt found sorted
    | .delegateCreated row => if row < s.entries.length then some (s.createDelegate row) else none
    | .delegateReleased i => some { s with delegates := s.delegates.eraseIdx i }
    | .toggleSelection index => if s.OnScreen index then some (s.toggleSelection index) else none
    | .rangeSelection index => if s.OnScreen index then some (s.rangeSelection index) else none
    | .clicked index =>
        if s.OnScreen index then some (s.clearSelection.toggleSelection index) else none
    | .selectAll => some s.selectAll
    | .clearSelection => some s.clearSelection
    | .invertSelection => some s.invertSelection
    | .deleteSelected => some s.deleteSelected
    | .copySelected => some s.copySelected
    | .cutSelected => some s.cutSelected
    | .pasteClipboard => some (s.pasteTo s.currentPath)
    | .renameSelected => some s.renameSelected
    | .contextMenu index =>
        if s.OnScreen index then
          (s.entries[index]?).map fun e =>
            { s with contextPath := e.filePath, contextIndex := index }
        else none
    | .contextDelete => some { s with calls := s.calls ++ [.delete s.contextPath] }
    | .contextCopy => some { s with clipboardPaths := [s.contextPath], clipboardIsCut := false }
    | .contextCut => some { s with clipboardPaths := [s.contextPath], clipboardIsCut := true }
    | .contextPaste => some (s.pasteTo s.contextPath)
    | .contextRename => some (s.startRename s.contextIndex)
    | .renameAccepted text => if s.renameDialog.isOpen then some (s.acceptRename text) else none
    | .renameRejected => if s.renameDialog.isOpen then some s.rejectRename else none

end NiraOS.Files.View
