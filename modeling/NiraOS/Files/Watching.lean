import NiraOS.Files.Loading

/-!
# The list follows the directory

`FileSystemWatcher` has the directory that is shown under watch, and collects what it hears for a
while before it lets the model read the directory again.  It is told of entries that come, go or get
another name, not of files that are written, so it is the names that are kept up to date.

```text
the directory changes → a notice → pendingDirs_, the timer starts → refresh → a load → the rows
```

Wherever the change is on this way, the rows are late for a reason that is still to be seen: a
notice, a pending directory, or a load that has not read the directory yet (`Inv.told`).  So when
nothing of this is left, the rows have the names that are there (`upToDate_of_quiet`).

The directory that is shown first is not under watch: `main` connects the watcher after it has
opened the home directory (`not_upToDate_home`).
-/

namespace NiraOS.Files.Watching

open View (FileEntry Qt SortOrder Sorts)
open Loading (Disk Load Fresh fileModel)

/-- The same names, in whatever order. -/
def SameNames (found found' : List FileEntry) : Prop :=
  (found.map FileEntry.fileName).Perm (found'.map FileEntry.fileName)

instance (found found' : List FileEntry) : Decidable (SameNames found found') :=
  inferInstanceAs (Decidable (List.Perm _ _))

structure State where
  files : Loading.State
  watchedPath : String
  /-- What `watcher_` has under watch. -/
  watched : Option String
  /-- What the kernel has to tell of. -/
  notices : List String
  pendingDirs : List String
  /-- `debounceTimer_` is running. -/
  debouncing : Bool

/-- `main` up to the event loop. -/
def start (disk : Disk) (home : String) : State :=
  ⟨(Loading.start disk).setCurrentPath home, "", none, [], [], false⟩

section Program

variable (s : State)

/-- `addPath` fails for what is not there, or cannot be watched. -/
def State.setWatchedPath (path : String) (watchable : Bool) : State :=
  if path = s.watchedPath then s
  else { s with
    watchedPath := path
    watched := if path ≠ "" ∧ watchable = true then some path else none }

/-- `currentPathChanged` is emitted before the directory is read. -/
def State.setCurrentPath (path : String) (watchable : Bool) : State :=
  if path = s.files.model.currentPath then s
  else { s.setWatchedPath path watchable with files := s.files.setCurrentPath path }

def State.onDirectoryChanged (path : String) : State :=
  { s with pendingDirs := s.pendingDirs.insert path, debouncing := true }

/-- Both the program and its window are connected to `directoryChanged`. -/
def directoryChanged (files : Loading.State) (path : String) : Loading.State :=
  if path = files.model.currentPath then files.refresh.refresh else files.refresh

def State.onDebounceTimeout : State :=
  { s with
    files := s.pendingDirs.foldl directoryChanged s.files, pendingDirs := [], debouncing := false }

/-- The kernel tells of new names in the directory that is under watch, and may tell of other
things. -/
def State.diskChanged (disk : Disk) (spurious : Bool) : State :=
  { s with
    files := { s.files with disk := disk, since := s.files.since ++ [disk] }
    notices := s.notices ++
      (s.watched.filter fun path =>
        spurious || !decide (SameNames (disk path) (s.files.disk path))).toList }

end Program

inductive Event
  | setCurrentPath (path : String) (watchable : Bool)
  /-- What else the user and the loads do. -/
  | files (e : Loading.Event)
  | diskChanged (disk : Disk) (spurious : Bool)
  /-- The watcher hears of a notice. -/
  | noticed
  /-- The directory under watch goes, and the watch with it. -/
  | lost
  | timeout

def browser (qt : Qt) : Transition.System State Event where
  init s := ∃ disk home, s = start disk home
  step s
    | .setCurrentPath path watchable => some (s.setCurrentPath path watchable)
    | .files (.setCurrentPath _) | .files (.diskChanged _) => none
    | .files e => ((fileModel qt).step s.files e).map fun files => { s with files := files }
    | .diskChanged disk spurious => some (s.diskChanged disk spurious)
    | .noticed =>
        match s.notices with
        | [] => none
        | path :: rest =>
            let s := { s with notices := rest }
            -- the watcher has forgotten what it was told to
            some (if s.watched = some path then s.onDirectoryChanged path else s)
    | .lost => s.watched.map fun path => { s with watched := none }.onDirectoryChanged path
    | .timeout => if s.debouncing = true then some s.onDebounceTimeout else none

/-! ## What is promised -/

/-- Nothing is on its way. -/
structure Quiet (s : State) : Prop where
  notices : s.notices = []
  debouncing : s.debouncing = false
  loading : s.files.model.loading = false

/-- The rows are a listing of the current path, from a moment when it had the names it has now. -/
def UpToDate (qt : Qt) (s : State) : Prop :=
  ∃ disk ∈ s.files.since,
    SameNames (disk s.files.model.currentPath) (s.files.disk s.files.model.currentPath) ∧
      Sorts qt s.files.model.sortColumn s.files.model.sortOrder
        (s.files.model.filtered qt (disk s.files.model.currentPath)) s.files.model.entries

/-! ## What has been read -/

section Reading

variable {qt : Qt} {files files' : Loading.State} {e : Loading.Event} {found : List FileEntry}

/-- What the last future has found. -/
def lastFound (files : Loading.State) : Option (List FileEntry) := files.future.bind Load.result

theorem lastFound_refresh (hpath : files.model.currentPath ≠ "") :
    lastFound files.refresh = none := by
  unfold Loading.State.refresh
  rw [if_neg hpath]
  rfl

theorem refresh_currentPath (files : Loading.State) :
    files.refresh.model.currentPath = files.model.currentPath ∧
    files.refresh.disk = files.disk := by
  unfold Loading.State.refresh
  split_ifs
  · exact ⟨rfl, rfl⟩
  · exact ⟨rfl, rfl⟩

/-- A step of the model that reads nothing: it stays where it is, and has found nothing new. -/
structure Stays (files files' : Loading.State) : Prop where
  currentPath : files'.model.currentPath = files.model.currentPath
  disk : files'.disk = files.disk
  found : files.model.currentPath ≠ "" → ∀ found, lastFound files' = some found →
    lastFound files = some found ∨ found = files.disk files.model.currentPath

theorem Stays.of_eq (hpath : files'.model.currentPath = files.model.currentPath)
    (hdisk : files'.disk = files.disk)
    (hfound : lastFound files' = lastFound files) : Stays files files' :=
  ⟨hpath, hdisk, fun _ _ hread => Or.inl (hfound ▸ hread)⟩

theorem Stays.trans {files'' : Loading.State} (h : Stays files files') (h' : Stays files' files'') :
    Stays files files'' := by
  refine ⟨h'.currentPath.trans h.currentPath, h'.disk.trans h.disk, ?_⟩
  intro hpath found hfound
  cases h'.found (h.currentPath ▸ hpath) found hfound with
  | inl hfound => exact h.found hpath found hfound
  | inr hread => exact Or.inr (by rw [hread, h.currentPath, h.disk])

theorem stays_refresh (files : Loading.State) : Stays files files.refresh := by
  refine ⟨(refresh_currentPath files).1, (refresh_currentPath files).2, ?_⟩
  intro hpath found hfound
  rw [lastFound_refresh hpath] at hfound
  cases hfound

theorem stays_deliver {load load' : Load} (hfuture : files.future = some load)
    (hdeliver : load.deliver = some load') : Stays files { files with future := some load' } := by
  refine Stays.of_eq rfl rfl ?_
  rw [lastFound, lastFound, hfuture]
  exact (Loading.Load.deliver_result hdeliver).2

theorem stays_onDirectoryLoaded {sorted : List FileEntry}
    (h : files.onDirectoryLoaded qt sorted = some files') :
    Stays files files' := by
  obtain ⟨-, -, -, rfl⟩ := Loading.onDirectoryLoaded_eq_some.mp h
  exact Stays.of_eq rfl rfl rfl

theorem stays_applySort {column : ℤ} {order : SortOrder} {sorted : List FileEntry}
    {model : View.State}
    (h : { files.model with sortColumn := column, sortOrder := order }.applySort qt sorted =
      some model) :
    Stays files { files with model := model } := by
  unfold View.State.applySort at h
  split_ifs at h
  · obtain rfl := Option.some.inj h
    exact Stays.of_eq rfl rfl rfl
  · obtain rfl := Option.some.inj h
    exact Stays.of_eq rfl rfl rfl

/-- **A read** finds what is there. -/
theorem stays_read (hfresh : Fresh qt files) {load load' : Load}
    (hfuture : files.future = some load)
    (hread : load.read files.disk = some load') :
    Stays files { files with future := some load' } := by
  refine ⟨rfl, rfl, ?_⟩
  intro hpath found hfound
  obtain ⟨-, hread⟩ := Option.ite_none_right_eq_some.mp hread
  obtain rfl := Option.some.inj hread
  obtain ⟨last, hlast, hrecent⟩ := hfresh.future hpath
  obtain rfl : load = last := Option.some.inj (hfuture.symm.trans hlast)
  rw [← hrecent.1]
  exact Or.inr (Option.some.inj hfound).symm

/-- **A step of the model**, if it is none to another directory. -/
theorem stays_step (hfresh : Fresh qt files) (hstep : (fileModel qt).step files e = some files')
    (hpath : ∀ path, e ≠ .setCurrentPath path) (hdisk : ∀ disk, e ≠ .diskChanged disk) :
    Stays files files' := by
  cases e with
  | setCurrentPath path => exact absurd rfl (hpath path)
  | diskChanged disk => exact absurd rfl (hdisk disk)
  | setNameFilter filter =>
      obtain rfl := Option.some.inj hstep
      unfold Loading.State.setNameFilter
      split_ifs
      · exact Stays.of_eq rfl rfl rfl
      · refine Stays.trans ?_ (stays_refresh _)
        exact Stays.of_eq rfl rfl rfl
  | setShowHidden shown =>
      obtain rfl := Option.some.inj hstep
      unfold Loading.State.setShowHidden
      split_ifs
      · exact Stays.of_eq rfl rfl rfl
      · refine Stays.trans ?_ (stays_refresh _)
        exact Stays.of_eq rfl rfl rfl
  | setSortColumn column sorted =>
      obtain ⟨model, hsort, rfl⟩ := Option.map_eq_some_iff.mp hstep
      unfold View.State.setSortColumn at hsort
      split_ifs at hsort
      · obtain rfl := Option.some.inj hsort
        exact Stays.of_eq rfl rfl rfl
      · exact stays_applySort hsort
  | setSortOrder order sorted =>
      obtain ⟨model, hsort, rfl⟩ := Option.map_eq_some_iff.mp hstep
      unfold View.State.setSortOrder at hsort
      split_ifs at hsort
      · obtain rfl := Option.some.inj hsort
        exact Stays.of_eq rfl rfl rfl
      · exact stays_applySort hsort
  | refresh =>
      obtain rfl := Option.some.inj hstep
      exact stays_refresh files
  | read =>
      obtain ⟨load, hfuture, hread⟩ := Option.bind_eq_some_iff.mp hstep
      obtain ⟨load', hload, rfl⟩ := Option.map_eq_some_iff.mp hread
      exact stays_read hfresh hfuture hload
  | readAbandoned i =>
      obtain ⟨load, -, hread⟩ := Option.bind_eq_some_iff.mp hstep
      obtain ⟨load', -, rfl⟩ := Option.map_eq_some_iff.mp hread
      exact Stays.of_eq rfl rfl rfl
  | finished sorted =>
      obtain ⟨load, hfuture, hdeliver⟩ := Option.bind_eq_some_iff.mp hstep
      obtain ⟨load', hdeliver, hloaded⟩ := Option.bind_eq_some_iff.mp hdeliver
      exact (stays_deliver hfuture hdeliver).trans (stays_onDirectoryLoaded hloaded)
  | finishedAbandoned i sorted =>
      obtain ⟨load, -, hdeliver⟩ := Option.bind_eq_some_iff.mp hstep
      obtain ⟨load', -, hloaded⟩ := Option.bind_eq_some_iff.mp hdeliver
      refine Stays.trans ?_ (stays_onDirectoryLoaded hloaded)
      exact Stays.of_eq rfl rfl rfl

end Reading

/-! ## What is still to be seen -/

structure Inv (qt : Qt) (s : State) : Prop where
  fresh : Fresh qt s.files
  watched : ∀ path, s.watched = some path → path = s.watchedPath ∧ path ≠ ""
  armed : s.debouncing = false → s.pendingDirs = []
  /-- If what was read is not what is there, someone is about to tell. -/
  told : s.watched = some s.files.model.currentPath → ∀ found, lastFound s.files = some found →
    SameNames found (s.files.disk s.files.model.currentPath) ∨
      s.files.model.currentPath ∈ s.notices ∨ s.files.model.currentPath ∈ s.pendingDirs

section Steps

variable {qt : Qt} {s s' : State} {path : String}

theorem SameNames.refl (found : List FileEntry) : SameNames found found := List.Perm.refl _

theorem Inv.start (qt : Qt) (disk : Disk) (home : String) : Inv qt (start disk home) where
  fresh := by
    unfold Watching.start Loading.State.setCurrentPath
    split_ifs
    · exact Loading.fresh_start qt disk
    · exact Loading.fresh_refresh (List.mem_singleton_self disk)
  watched path h := by cases h
  armed _ := rfl
  told h := by cases h

/-- **The model goes on** in its directory. -/
theorem Inv.files (h : Inv qt s) {files : Loading.State} (hfresh : Fresh qt files)
    (hstays : Stays s.files files) :
    Inv qt { s with files := files } where
  fresh := hfresh
  watched := h.watched
  armed := h.armed
  told hwatched found hfound := by
    dsimp only at hwatched hfound ⊢
    rw [hstays.currentPath] at hwatched
    rw [hstays.currentPath, hstays.disk]
    cases hstays.found (h.watched _ hwatched).2 found hfound with
    | inl hfound => exact h.told hwatched found hfound
    | inr hread =>
        left
        rw [hread]
        exact SameNames.refl _

theorem Inv.setWatchedPath (h : Inv qt s) (path : String) (watchable : Bool) :
    (∀ p, (s.setWatchedPath path watchable).watched = some p →
      p = (s.setWatchedPath path watchable).watchedPath ∧ p ≠ "") ∧
    ((s.setWatchedPath path watchable).debouncing = false →
      (s.setWatchedPath path watchable).pendingDirs = []) := by
  unfold State.setWatchedPath
  split_ifs with hsame hwatchable
  · exact ⟨h.watched, h.armed⟩
  · refine ⟨?_, h.armed⟩
    intro p hp
    obtain rfl := Option.some.inj hp
    exact ⟨rfl, hwatchable.1⟩
  · refine ⟨?_, h.armed⟩
    intro p hp
    cases hp

/-- **Another directory** is under watch before it is read. -/
theorem Inv.setCurrentPath (h : Inv qt s) (path : String) (watchable : Bool) :
    Inv qt (s.setCurrentPath path watchable) := by
  unfold State.setCurrentPath
  split_ifs with hpath
  · exact h
  · have hfiles : s.files.setCurrentPath path =
        { s.files with model := { s.files.model with currentPath := path } }.refresh := if_neg hpath
    obtain ⟨hwatched, harmed⟩ := h.setWatchedPath path watchable
    rw [hfiles]
    constructor
    · exact Loading.fresh_refresh h.fresh.disk
    · exact hwatched
    · exact harmed
    · intro hnow found hfound
      dsimp only at hnow hfound
      rw [lastFound_refresh] at hfound
      · cases hfound
      · rw [(refresh_currentPath _).1] at hnow
        exact (hwatched path hnow).2

/-- **A notice is heard**: the directory it is of becomes pending. -/
theorem Inv.noticed (h : Inv qt s) {rest : List String} (hnotices : s.notices = path :: rest) :
    Inv qt (if s.watched = some path then { s with notices := rest }.onDirectoryChanged path
      else { s with notices := rest }) := by
  have htold : s.watched = some s.files.model.currentPath →
    ∀ found, lastFound s.files = some found →
      SameNames found (s.files.disk s.files.model.currentPath) ∨ s.files.model.currentPath = path ∨
        s.files.model.currentPath ∈ rest ∨ s.files.model.currentPath ∈ s.pendingDirs := by
    intro hwatched found hfound
    have htold := h.told hwatched found hfound
    rw [hnotices, List.mem_cons] at htold
    tauto
  split_ifs with hwatched
  · refine ⟨h.fresh, h.watched, ?_, ?_⟩
    · intro hoff
      cases hoff
    intro hcurrent found hfound
    rcases htold hcurrent found hfound with hsame | rfl | hrest | hpending
    · exact Or.inl hsame
    · exact Or.inr (Or.inr List.mem_insert_self)
    · exact Or.inr (Or.inl hrest)
    · exact Or.inr (Or.inr (List.mem_insert_of_mem hpending))
  · refine ⟨h.fresh, h.watched, h.armed, ?_⟩
    intro hcurrent found hfound
    rcases htold hcurrent found hfound with hsame | rfl | hrest | hpending
    · exact Or.inl hsame
    · exact absurd hcurrent hwatched
    · exact Or.inr (Or.inl hrest)
    · exact Or.inr (Or.inr hpending)

/-- **The directory changes**: if its names do, there is a notice. -/
theorem Inv.diskChanged (h : Inv qt s) (disk : Disk) (spurious : Bool) :
    Inv qt (s.diskChanged disk spurious) where
  fresh := h.fresh.diskChanged disk
  watched := h.watched
  armed := h.armed
  told hwatched found hfound := by
    show SameNames found (disk s.files.model.currentPath) ∨ _ ∈ s.notices ++ _ ∨ _
    have hwatched : s.watched = some s.files.model.currentPath := hwatched
    rw [List.mem_append, Option.mem_toList, hwatched]
    by_cases hnames : SameNames (disk s.files.model.currentPath)
      (s.files.disk s.files.model.currentPath)
    · rcases h.told hwatched found hfound with hsame | hnotice | hpending
      · exact Or.inl (hsame.trans hnames.symm)
      · exact Or.inr (Or.inl (Or.inl hnotice))
      · exact Or.inr (Or.inr hpending)
    · right
      left
      right
      have hnotice : (spurious || !decide (SameNames (disk s.files.model.currentPath)
          (s.files.disk s.files.model.currentPath))) = true := by
        rw [decide_eq_false hnames, Bool.not_false, Bool.or_true]
      exact Option.filter_eq_some_iff.mpr ⟨rfl, hnotice⟩

theorem fresh_directoryChanged {files : Loading.State} (h : Fresh qt files) (path : String) :
    Fresh qt (directoryChanged files path) := by
  unfold directoryChanged
  split_ifs
  · have hfirst : Fresh qt files.refresh := Loading.fresh_refresh h.disk
    exact Loading.fresh_refresh hfirst.disk
  · exact Loading.fresh_refresh h.disk

theorem stays_directoryChanged (files : Loading.State) (path : String) :
    Stays files (directoryChanged files path) := by
  unfold directoryChanged
  split_ifs
  · exact (stays_refresh files).trans (stays_refresh _)
  · exact stays_refresh files

theorem lastFound_directoryChanged {files : Loading.State} (hpath : files.model.currentPath ≠ "")
    (path : String) :
    lastFound (directoryChanged files path) = none := by
  unfold directoryChanged
  split_ifs
  · apply lastFound_refresh
    rw [(refresh_currentPath files).1]
    exact hpath
  · exact lastFound_refresh hpath

theorem fresh_foldl (pending : List String) {files : Loading.State} (h : Fresh qt files) :
    Fresh qt (pending.foldl directoryChanged files) := by
  induction pending generalizing files with
  | nil => exact h
  | cons path pending ih => exact ih (fresh_directoryChanged h path)

theorem stays_foldl (pending : List String) (files : Loading.State) :
    Stays files (pending.foldl directoryChanged files) := by
  induction pending generalizing files with
  | nil => exact Stays.of_eq rfl rfl rfl
  | cons path pending ih => exact (stays_directoryChanged files path).trans (ih _)

theorem lastFound_foldl {pending : List String} (hpending : pending ≠ []) {files : Loading.State}
    (hpath : files.model.currentPath ≠ "") :
    lastFound (pending.foldl directoryChanged files) = none := by
  obtain ⟨earlier, path, rfl⟩ := (List.eq_nil_or_concat pending).resolve_left hpending
  rw [List.concat_eq_append, List.foldl_append, List.foldl_cons, List.foldl_nil]
  apply lastFound_directoryChanged
  rw [(stays_foldl earlier files).currentPath]
  exact hpath

/-- **The timer runs out**: one pending directory is enough for the model to read anew. -/
theorem Inv.onDebounceTimeout (h : Inv qt s) : Inv qt s.onDebounceTimeout := by
  by_cases hpending : s.pendingDirs = []
  · have hsame : s.onDebounceTimeout = { s with debouncing := false } := by
      rw [State.onDebounceTimeout, hpending, List.foldl_nil, ← hpending]
    rw [hsame]
    exact ⟨h.fresh, h.watched, fun _ => hpending, h.told⟩
  · refine ⟨fresh_foldl s.pendingDirs h.fresh, h.watched, fun _ => rfl, ?_⟩
    intro hwatched found hfound
    have hwatched : s.watched =
        some (s.pendingDirs.foldl directoryChanged s.files).model.currentPath := hwatched
    have hfound : lastFound (s.pendingDirs.foldl directoryChanged s.files) = some found := hfound
    rw [(stays_foldl s.pendingDirs s.files).currentPath] at hwatched
    rw [lastFound_foldl hpending (h.watched _ hwatched).2] at hfound
    cases hfound

/-- **One event.** -/
theorem Inv.step (h : Inv qt s) {e : Event} (hstep : (browser qt).step s e = some s') :
    Inv qt s' := by
  cases e with
  | setCurrentPath path watchable =>
      obtain rfl := Option.some.inj hstep
      exact h.setCurrentPath path watchable
  | files e =>
      have hother : (∀ path, e ≠ .setCurrentPath path) ∧ (∀ disk, e ≠ .diskChanged disk) := by
        constructor
        · rintro path rfl
          cases hstep
        · rintro disk rfl
          cases hstep
      have hfiles : ∃ files, (fileModel qt).step s.files e = some files ∧
          { s with files := files } = s' := by
        apply Option.map_eq_some_iff.mp
        cases e with
        | setCurrentPath path => exact absurd rfl (hother.1 path)
        | diskChanged disk => exact absurd rfl (hother.2 disk)
        | _ => exact hstep
      obtain ⟨files, hfiles, rfl⟩ := hfiles
      exact h.files (h.fresh.step hfiles) (stays_step h.fresh hfiles hother.1 hother.2)
  | diskChanged disk spurious =>
      obtain rfl := Option.some.inj hstep
      exact h.diskChanged disk spurious
  | noticed =>
      simp only [browser] at hstep
      cases hnotices : s.notices with
      | nil =>
          rw [hnotices] at hstep
          cases hstep
      | cons path rest =>
          rw [hnotices] at hstep
          obtain rfl := Option.some.inj hstep
          exact h.noticed hnotices
  | lost =>
      obtain ⟨path, -, rfl⟩ := Option.map_eq_some_iff.mp hstep
      refine ⟨h.fresh, ?_, ?_, ?_⟩
      · intro p hp
        cases hp
      · intro hoff
        cases hoff
      · intro hwatched
        cases hwatched
  | timeout =>
      obtain ⟨-, hstep⟩ := Option.ite_none_right_eq_some.mp hstep
      obtain rfl := Option.some.inj hstep
      exact h.onDebounceTimeout

theorem inv_of_reachable (h : (browser qt).Reachable s) : Inv qt s := by
  refine h.invariant ?_ ?_
  · rintro _ ⟨disk, home, rfl⟩
    exact Inv.start qt disk home
  · intro s e s' _ hinv _ hstep
    exact hinv.step hstep

end Steps

/-- **The list follows the directory**: once nothing is on its way any more, the rows have the names
that are in the directory now, for as long as it is under watch. -/
theorem upToDate_of_quiet (qt : Qt) {s : State} (h : (browser qt).Reachable s) (hquiet : Quiet s)
    (hwatched : s.watched = some s.files.model.currentPath) : UpToDate qt s := by
  have hinv := inv_of_reachable h
  have hpath := (hinv.watched _ hwatched).2
  obtain ⟨found, hfound, hrows⟩ := hinv.fresh.rows hquiet.loading hpath
  obtain ⟨load, hload, hrecent⟩ := hinv.fresh.future hpath
  have hlast : load.result = some found := by
    rw [hload] at hfound
    exact hfound
  obtain ⟨disk, hdisk, rfl⟩ := hrecent.2 found hlast
  refine ⟨disk, hdisk, ?_, hrows⟩
  rcases hinv.told hwatched _ hfound with hsame | hnotice | hpending
  · exact hsame
  · rw [hquiet.notices] at hnotice
    cases hnotice
  · rw [hinv.armed hquiet.debouncing] at hpending
    cases hpending

/-! ## Two runs -/

section Runs

def before : Disk := fun _ => [View.fileNamed "b"]

def after : Disk := fun _ => [View.fileNamed "b", View.fileNamed "a"]

/-- A directory is opened, and then a file comes. -/
def appearing : List Event :=
  [.setCurrentPath "/d" true, .files .read, .files (.finished [View.fileNamed "b"]),
    .diskChanged after false,
    .noticed, .timeout, .files .read, .files (.finished [View.fileNamed "a", View.fileNamed "b"])]

instance (s : State) : Decidable (Quiet s) :=
  decidable_of_iff (s.notices = [] ∧ s.debouncing = false ∧ s.files.model.loading = false)
    ⟨fun ⟨h, h', h''⟩ => ⟨h, h', h''⟩, fun h => ⟨h.notices, h.debouncing, h.loading⟩⟩

theorem upToDate_appearing :
    ∃ s, UpToDate View.plainQt s ∧
      s.files.model.entries = [View.fileNamed "a", View.fileNamed "b"] := by
  have hinit : (browser View.plainQt).init (start before "/home") := ⟨_, _, rfl⟩
  have hrun : ((browser View.plainQt).run (start before "/home") appearing).any
      (fun s => Quiet s ∧ s.watched = some s.files.model.currentPath ∧
        s.files.model.entries = [View.fileNamed "a", View.fileNamed "b"]) = true := by
    decide +kernel
  obtain ⟨s, hs, htest⟩ := Transition.System.exists_reachable_of_run hinit hrun
  obtain ⟨hquiet, hwatched, hrows⟩ := of_decide_eq_true htest
  exact ⟨s, upToDate_of_quiet View.plainQt hs hquiet hwatched, hrows⟩

/-- What comes to the directory that is shown first is not heard of. -/
theorem not_upToDate_home :
    ∃ s, (browser View.plainQt).Reachable s ∧ Quiet s ∧ ¬ UpToDate View.plainQt s := by
  have hinit : (browser View.plainQt).init (start before "/home") := ⟨_, _, rfl⟩
  have hrun : ((browser View.plainQt).run (start before "/home")
      [.files .read, .files (.finished [View.fileNamed "b"]), .diskChanged after false]).any
      (fun s => Quiet s ∧ ∀ disk ∈ s.files.since,
        ¬ (SameNames (disk s.files.model.currentPath) (s.files.disk s.files.model.currentPath) ∧
          (s.files.model.filtered View.plainQt (disk s.files.model.currentPath)).length =
            s.files.model.entries.length)) = true := by
    decide +kernel
  obtain ⟨s, hs, htest⟩ := Transition.System.exists_reachable_of_run hinit hrun
  obtain ⟨hquiet, hnone⟩ := of_decide_eq_true htest
  refine ⟨s, hs, hquiet, ?_⟩
  rintro ⟨disk, hdisk, hsame, hsorts⟩
  exact hnone disk hdisk ⟨hsame, hsorts.1.length_eq.symm⟩

end Runs

end NiraOS.Files.Watching
