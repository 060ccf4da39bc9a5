import NiraOS.Desktop.Exec
import NiraOS.Desktop.Shortcuts
import NiraOS.Lib.Transition

/-!
# What an icon's menu acts on

The icon menu and the rename dialog of `DesktopView.qml`, with `launch`, `renameEntry` and
`trashEntry` of `DesktopIconModel` (`desktop/shell`), while others change the directory and it is
scanned again.

A menu that is opened on an icon keeps the number of its row, and the dialog reads the number of the
current row when it is confirmed.  A scan resets the model.  The icons of the view are made anew,
and with its icon the menu goes; the dialog belongs to the window, stays, and so does the current
row:

```text
                    rows    current row     menu            dialog
right click         stay    the icon's      on the icon     -
Rename              stay    stays           -               opens
scan                new     stays           is closed       stays
```

So the file that was opened on is acted on as long as no scan puts another file into the row of the
open dialog (`KeepsRow`), and no longer (`not_sound_of_moved`).
-/

namespace NiraOS.Desktop.IconActions

abbrev FilePath := List String

/-- What is done to a file. -/
inductive Operation
  | launch (filePath : FilePath) (detached : Detached)
  | rename (filePath target : FilePath)
  | moveToTrash (filePath : FilePath)

def Operation.file : Operation → FilePath
  | .launch filePath _ => filePath
  | .rename filePath _ => filePath
  | .moveToTrash filePath => filePath

/-! ## The calls of the model -/

section Calls

variable (env : Env) (t : Tree) (entries : List DesktopEntry)

/-- The entry of a row that there is. -/
def entryAt (row : ℤ) : Option DesktopEntry := if row < 0 then none else entries[row.toNat]?

def launch (row : ℤ) : Option Operation :=
  (entryAt entries row).map fun e => .launch e.filePath e.launch

/-- The target must not be there, unless it is the file itself. -/
def renameEntry (row : ℤ) (newName : String) : Option Operation :=
  match entryAt entries row with
  | none => none
  | some e =>
      if newName = "" then none
      else if '/' ∈ newName.toList ∨ '\\' ∈ newName.toList then none
      else
        let target := env.desktopPath ++ [newName]
        if (t.seek env.limit (absoluteFilePath env.desktopPath newName)).isSome = true ∧
          target ≠ e.filePath then none
        else some (.rename e.filePath target)

def trashEntry (row : ℤ) : Option Operation :=
  (entryAt entries row).map fun e => .moveToTrash e.filePath

end Calls

/-! ## The view -/

inductive Opened
  | nothing
  | menu
  | dialog
  deriving DecidableEq

structure State where
  tree : Tree
  showHidden : Bool
  entries : List DesktopEntry
  currentIndex : ℤ
  targetIndex : ℤ
  opened : Opened
  /-- The file of the icon on which the menu was opened, and the dialog from it. -/
  file : FilePath
  /-- What was done, and the file of the icon it was meant for. -/
  done : List (FilePath × Operation)

inductive Event
  /-- Others change the files. -/
  | changed (tree : Tree)
  /-- A change is noticed, or `refresh` is called. -/
  | rescan
  | setShowHidden (show_ : Bool)
  | leftClick (row : ℕ)
  | rightClick (row : ℕ)
  | doubleClick (row : ℕ)
  /-- A click beside the icons. -/
  | background
  /-- The menu or the dialog is closed without a choice. -/
  | dismiss
  | openItem
  | renameItem
  | trashItem
  /-- "Rename" in the dialog. -/
  | confirm (text : String)

section Steps

variable (env : Env) (s : State)

/-- The model is reset; a menu is closed when the icon goes that it was opened on. -/
def State.scan : State :=
  { s with
    entries := scanDirectory { env with showHidden := s.showHidden } s.tree
    opened := if s.opened = .menu then .nothing else s.opened }

/-- What is done for the icon of a file; the menu or the dialog is closed. -/
def State.act (file : FilePath) (operation : Option Operation) : State :=
  { s with opened := .nothing, done := s.done ++ operation.toList.map fun op => (file, op) }

def step : Event → Option State
  | .changed tree => some { s with tree := tree }
  | .rescan => some (s.scan env)
  | .setShowHidden show_ =>
      if show_ = s.showHidden then some s else some ({ s with showHidden := show_ }.scan env)
  -- the dialog is modal; a click outside the menu closes it
  | .leftClick row =>
      if s.opened ≠ .dialog ∧ row < s.entries.length
        then some { s with currentIndex := row, opened := .nothing } else none
  | .rightClick row =>
      if s.opened = .dialog then none
      else (entryAt s.entries row).map fun e =>
        { s with currentIndex := row, targetIndex := row, opened := .menu, file := e.filePath }
  | .doubleClick row =>
      if s.opened = .dialog then none
      else (entryAt s.entries row).map fun e => s.act e.filePath (launch s.entries row)
  | .background => if s.opened ≠ .dialog
      then some { s with currentIndex := -1, opened := .nothing } else none
  | .dismiss => some { s with opened := .nothing }
  | .openItem => if s.opened = .menu
      then some (s.act s.file (launch s.entries s.targetIndex)) else none
  | .renameItem => if s.opened = .menu then some { s with opened := .dialog } else none
  | .trashItem => if s.opened = .menu
      then some (s.act s.file (trashEntry s.entries s.targetIndex)) else none
  | .confirm text =>
      if s.opened = .dialog then
        some (s.act s.file (if text = "" then none
          else renameEntry env s.tree s.entries s.currentIndex text))
      else none

/-- The view when it is loaded. -/
structure IsStart : Prop where
  entries : s.entries = scanDirectory { env with showHidden := s.showHidden } s.tree
  currentIndex : s.currentIndex = -1
  targetIndex : s.targetIndex = -1
  opened : s.opened = .nothing
  done : s.done = []

def system : Transition.System State Event where
  init := IsStart env
  step := step env

/-! ## What should hold -/

/-- What was done was done to the file it was meant for. -/
def Sound : Prop := ∀ d ∈ s.done, d.2.file = d.1

/-- In the rows, the current row is that of the file of the menu or dialog, or is gone. -/
def RowKept (entries : List DesktopEntry) : Prop :=
  ∀ e, entryAt entries s.currentIndex = some e → e.filePath = s.file

/-- The directory as it is, with hidden files or without, has no other file in the row of an open
dialog. -/
def KeptBy (showHidden : Bool) : Prop :=
  s.opened = .dialog → RowKept s (scanDirectory { env with showHidden } s.tree)

/-- A scan while the dialog is open puts no other file into its row. -/
def KeepsRow : Event → Prop
  | .rescan => KeptBy env s s.showHidden
  | .setShowHidden show_ => show_ ≠ s.showHidden → KeptBy env s show_
  | _ => True

instance (entries : List DesktopEntry) : Decidable (RowKept s entries) :=
  decidable_of_iff ((entryAt entries s.currentIndex).all fun e => e.filePath = s.file) (by
    unfold RowKept
    cases entryAt entries s.currentIndex <;> simp)

instance (showHidden : Bool) : Decidable (KeptBy env s showHidden) :=
  inferInstanceAs (Decidable (_ → _))

instance (e : Event) : Decidable (KeepsRow env s e) := by
  unfold KeepsRow
  cases e <;> infer_instance

end Steps

/-! ## The invariant -/

structure Inv (s : State) : Prop where
  sound : Sound s
  row : s.opened ≠ .nothing → RowKept s s.entries
  menu : s.opened = .menu → s.targetIndex = s.currentIndex

section Preservation

variable {env : Env} {s s' : State} {t : Tree} {entries : List DesktopEntry} {row : ℤ}
    {text : String} {op : Operation}
  {file : FilePath}

/-- A call acts on the file of the row, if at all. -/
theorem exists_entry_of_launch (h : launch entries row = some op) :
    ∃ e, entryAt entries row = some e ∧ op.file = e.filePath := by
  obtain ⟨e, he, rfl⟩ := Option.map_eq_some_iff.mp h
  exact ⟨e, he, rfl⟩

theorem exists_entry_of_trashEntry (h : trashEntry entries row = some op) :
    ∃ e, entryAt entries row = some e ∧ op.file = e.filePath := by
  obtain ⟨e, he, rfl⟩ := Option.map_eq_some_iff.mp h
  exact ⟨e, he, rfl⟩

theorem exists_entry_of_renameEntry (h : renameEntry env t entries row text = some op) :
    ∃ e, entryAt entries row = some e ∧ op.file = e.filePath := by
  unfold renameEntry at h
  split at h
  · nomatch h
  · next e he =>
      dsimp only at h
      split_ifs at h
      obtain rfl := Option.some.inj h
      exact ⟨e, he, rfl⟩

/-- What is done to the right file. -/
theorem Inv.act (h : Inv s) {operation : Option Operation}
    (hfile : ∀ op, operation = some op → op.file = file) :
    Inv (s.act file operation) := by
  refine ⟨fun d hd => ?_, fun hopen => absurd rfl hopen, nofun⟩
  rcases List.mem_append.mp hd with hd | hd
  · exact h.sound d hd
  · obtain ⟨op, hop, rfl⟩ := List.mem_map.mp hd
    exact hfile op (Option.mem_toList.mp hop)

/-- Nothing is open, and nothing was done. -/
theorem Inv.close (h : Inv s) (hopened : s'.opened = .nothing) (hdone : s'.done = s.done) :
    Inv s' := by
  refine ⟨?_, fun hopen => absurd hopened hopen, fun hmenu => by
    rw [hopened] at hmenu; nomatch hmenu⟩
  unfold Sound
  rw [hdone]
  exact h.sound

/-- **A scan** closes the menu, and keeps the row of the dialog. -/
theorem Inv.scan (h : Inv s) (hkeeps : KeptBy env s s.showHidden) : Inv (s.scan env) := by
  refine ⟨h.sound, fun hopen => ?_, fun hmenu => ?_⟩
  · have hdialog : s.opened = .dialog := by
      cases hopened : s.opened with
      | nothing => simp [State.scan, hopened] at hopen
      | menu => simp [State.scan, hopened] at hopen
      | dialog => rfl
    exact hkeeps hdialog
  · exfalso
    unfold State.scan at hmenu
    dsimp only at hmenu
    split_ifs at hmenu with hother
    exact hother hmenu

/-- **One step**, if a scan keeps the row. -/
theorem Inv.step (h : Inv s) {e : Event} (hkeeps : KeepsRow env s e)
    (hstep : step env s e = some s') : Inv s' := by
  cases e with
  | changed tree =>
      obtain rfl := Option.some.inj hstep
      exact ⟨h.sound, h.row, h.menu⟩
  | rescan =>
      obtain rfl := Option.some.inj hstep
      exact h.scan hkeeps
  | setShowHidden show_ =>
      simp only [IconActions.step] at hstep
      split_ifs at hstep with hshow
      · obtain rfl := Option.some.inj hstep
        exact h
      · obtain rfl := Option.some.inj hstep
        exact Inv.scan ⟨h.sound, h.row, h.menu⟩ (hkeeps hshow)
  | leftClick row =>
      simp only [IconActions.step] at hstep
      split_ifs at hstep
      obtain rfl := Option.some.inj hstep
      exact h.close rfl rfl
  | rightClick row =>
      simp only [IconActions.step] at hstep
      split_ifs at hstep
      obtain ⟨entry, hentry, rfl⟩ := Option.map_eq_some_iff.mp hstep
      refine ⟨h.sound, fun _ e he => ?_, fun _ => rfl⟩
      obtain rfl := Option.some.inj (hentry.symm.trans he)
      rfl
  | doubleClick row =>
      simp only [IconActions.step] at hstep
      split_ifs at hstep
      obtain ⟨entry, hentry, rfl⟩ := Option.map_eq_some_iff.mp hstep
      apply h.act
      intro op hop
      obtain ⟨e, he, hfile⟩ := exists_entry_of_launch hop
      obtain rfl := Option.some.inj (hentry.symm.trans he)
      exact hfile
  | background =>
      simp only [IconActions.step] at hstep
      split_ifs at hstep
      obtain rfl := Option.some.inj hstep
      exact h.close rfl rfl
  | dismiss =>
      obtain rfl := Option.some.inj hstep
      exact h.close rfl rfl
  | openItem =>
      simp only [IconActions.step] at hstep
      split_ifs at hstep with hmenu
      obtain rfl := Option.some.inj hstep
      apply h.act
      intro op hop
      obtain ⟨e, he, hfile⟩ := exists_entry_of_launch hop
      rw [h.menu hmenu] at he
      exact hfile.trans (h.row (by simp [hmenu]) e he)
  | renameItem =>
      simp only [IconActions.step] at hstep
      split_ifs at hstep with hmenu
      obtain rfl := Option.some.inj hstep
      exact ⟨h.sound, fun _ => h.row (by simp [hmenu]), nofun⟩
  | trashItem =>
      simp only [IconActions.step] at hstep
      split_ifs at hstep with hmenu
      obtain rfl := Option.some.inj hstep
      apply h.act
      intro op hop
      obtain ⟨e, he, hfile⟩ := exists_entry_of_trashEntry hop
      rw [h.menu hmenu] at he
      exact hfile.trans (h.row (by simp [hmenu]) e he)
  | confirm text =>
      simp only [IconActions.step] at hstep
      split_ifs at hstep with hdialog
      · obtain rfl := Option.some.inj hstep
        exact h.act fun op hop => nomatch hop
      · obtain rfl := Option.some.inj hstep
        apply h.act
        intro op hop
        obtain ⟨e, he, hfile⟩ := exists_entry_of_renameEntry hop
        exact hfile.trans (h.row (by simp [hdialog]) e he)

end Preservation

section Main

variable {env : Env} {s : State}

theorem inv_of_isStart (h : IsStart env s) : Inv s := by
  refine ⟨?_, fun hopen => absurd h.opened hopen, fun hmenu => ?_⟩
  · unfold Sound
    rw [h.done]
    exact fun d hd => nomatch hd
  · rw [h.opened] at hmenu
    nomatch hmenu

theorem inv_of_reachable (h : (system env).ReachableWhere (KeepsRow env) s) : Inv s := by
  refine h.invariant ?_ ?_
  · exact fun s hs => inv_of_isStart hs
  · exact fun s e s' _ hinv hkeeps hstep => hinv.step hkeeps hstep

/-- With another file in the row, the dialog acts on that one, whatever name it is given that can be
given. -/
theorem not_sound_of_moved {e : DesktopEntry} {text : String} {op : Operation}
    (hdialog : s.opened = .dialog) (hrow : entryAt s.entries s.currentIndex = some e)
    (hmoved : e.filePath ≠ s.file) (htext : text ≠ "")
    (hrename : renameEntry env s.tree s.entries s.currentIndex text = some op) :
    ∃ s', step env s (.confirm text) = some s' ∧ ¬ Sound s' := by
  obtain ⟨e', he', hfile⟩ := exists_entry_of_renameEntry hrename
  obtain rfl := Option.some.inj (hrow.symm.trans he')
  refine ⟨_, if_pos hdialog, fun hsound => hmoved ?_⟩
  rw [← hfile]
  apply hsound (s.file, op)
  rw [State.act, if_neg htext, hrename]
  simp

end Main

/-- A desktop with the file "b", and with another one. -/
def oneIcon : Tree := onlyDesktop.insert ["d", "b"] (.file []) rfl rfl

def twoIcons (other : String) (h : oneIcon.node ["d", other] = none) : Tree :=
  oneIcon.insert ["d", other] (.file []) rfl h

def start : State where
  tree := oneIcon
  showHidden := false
  entries := scanDirectory { plainEnv with showHidden := false } oneIcon
  currentIndex := -1
  targetIndex := -1
  opened := .nothing
  file := []
  done := []

end NiraOS.Desktop.IconActions
