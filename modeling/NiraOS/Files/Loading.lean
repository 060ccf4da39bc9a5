import NiraOS.Files.Selection
import NiraOS.Files.Sorting

/-!
# The list shows the directory

Directories are read in the background (`FileModel::startDirectoryLoad`).  The watcher watches the
future that was set last; the loads before it are abandoned, and run to their ends all the same.
That one of them is finished may still be announced, and then `onDirectoryLoaded` asks the watcher
for its result, which is the one of the last future, and waits for it.

Whatever the order of these events, once the model is not loading its rows are a listing of the
current path that was read after the last request (`Shows`):

```text
                 the last future                            the rows
a request        is of the current path, and not read       of no use: the model is loading
it is read       is read since the request                  of no use
any load done    …                                          the last future's, if it is read
a sort           …                                          in the new order
```
-/

namespace NiraOS.Files.Loading

open View (FileEntry InOrder Passes Qt SortOrder Sorts filtered_eq)

/-- What `loadDirectory` finds under each path. -/
abbrev Disk := String → List FileEntry

/-- One `QtConcurrent::run` of `loadDirectory`. -/
structure Load where
  path : String
  /-- What it has found, once it has read the directory. -/
  result : Option (List FileEntry)
  /-- That it is finished was announced. -/
  delivered : Bool

structure State where
  model : View.State
  disk : Disk
  /-- The future of the watcher. -/
  future : Option Load
  abandoned : List Load
  /-- What the disk has been since the last request. -/
  since : List Disk

def start (disk : Disk) : State := ⟨.empty, disk, none, [], [disk]⟩

section Model

variable (qt : Qt) (s : State)

def State.startDirectoryLoad (path : String) : State :=
  { s with
    model := { s.model with loading := true }
    future := some ⟨path, none, false⟩
    abandoned := s.abandoned ++ s.future.toList
    since := [s.disk] }

def State.refresh : State :=
  if s.model.currentPath = "" then s else s.startDirectoryLoad s.model.currentPath

def State.setCurrentPath (path : String) : State :=
  if path = s.model.currentPath then s
  else { s with model := { s.model with currentPath := path } }.refresh

def State.setNameFilter (filter : String) : State :=
  if filter = s.model.nameFilter then s
  else { s with model := { s.model with nameFilter := filter } }.refresh

def State.setShowHidden (shown : Bool) : State :=
  if shown = s.model.showHidden then s
  else { s with model := { s.model with showHidden := shown } }.refresh

def State.setSortColumn (column : ℤ) (sorted : List FileEntry) : Option State :=
  (s.model.setSortColumn qt column sorted).map fun model => { s with model := model }

def State.setSortOrder (order : SortOrder) (sorted : List FileEntry) : Option State :=
  (s.model.setSortOrder qt order sorted).map fun model => { s with model := model }

/-- `result()` is that of the last future, and is not there before it is read. -/
def State.onDirectoryLoaded (sorted : List FileEntry) : Option State :=
  (s.future.bind Load.result).bind fun found =>
    if Sorts qt s.model.sortColumn s.model.sortOrder (s.model.filtered qt found) sorted then
      some { s with model := { s.model.reset sorted with loading := false } }
    else none

def Load.read (load : Load) (disk : Disk) : Option Load :=
  if load.result = none then some { load with result := some (disk load.path) } else none

def Load.deliver (load : Load) : Option Load :=
  if load.result ≠ none ∧ load.delivered = false then some { load with delivered := true } else none

end Model

inductive Event
  | setCurrentPath (path : String)
  | setNameFilter (filter : String)
  | setShowHidden (shown : Bool)
  | setSortColumn (column : ℤ) (sorted : List FileEntry)
  | setSortOrder (order : SortOrder) (sorted : List FileEntry)
  | refresh
  /-- Someone else changes the disk. -/
  | diskChanged (disk : Disk)
  /-- A load reads its directory. -/
  | read
  | readAbandoned (i : ℕ)
  /-- That a load is finished is announced. -/
  | finished (sorted : List FileEntry)
  | finishedAbandoned (i : ℕ) (sorted : List FileEntry)

def fileModel (qt : Qt) : Transition.System State Event where
  init s := ∃ disk, s = start disk
  step s
    | .setCurrentPath path => some (s.setCurrentPath path)
    | .setNameFilter filter => some (s.setNameFilter filter)
    | .setShowHidden shown => some (s.setShowHidden shown)
    | .setSortColumn column sorted => s.setSortColumn qt column sorted
    | .setSortOrder order sorted => s.setSortOrder qt order sorted
    | .refresh => some s.refresh
    | .diskChanged disk => some { s with disk := disk, since := s.since ++ [disk] }
    | .read => s.future.bind fun load => (load.read s.disk).map fun load =>
        { s with future := some load }
    | .readAbandoned i =>
        s.abandoned[i]?.bind fun load =>
          (load.read s.disk).map fun load => { s with abandoned := s.abandoned.set i load }
    | .finished sorted =>
        s.future.bind fun load =>
          load.deliver.bind fun load => { s with future := some load }.onDirectoryLoaded qt sorted
    | .finishedAbandoned i sorted =>
        s.abandoned[i]?.bind fun load =>
          load.deliver.bind fun load =>
            { s with abandoned := s.abandoned.set i load }.onDirectoryLoaded qt sorted

section Definitions

variable (qt : Qt) (s : State)

/-- A listing consists of the rows, which pass the filters, and of entries that do not; the rows are
in the current order. -/
def RowsOf (listing : List FileEntry) : Prop :=
  ∃ others, (s.model.entries ++ others).Perm listing ∧
    (∀ e ∈ s.model.entries, Passes qt s.model e) ∧
    (∀ e ∈ others, ¬ Passes qt s.model e) ∧
    InOrder qt s.model.sortColumn s.model.sortOrder s.model.entries

/-- The rows are those of a listing of the current path, read at some moment since the last request.
-/
def Shows : Prop := ∃ disk ∈ s.since, RowsOf qt s (disk s.model.currentPath)

/-- The last future is of the current path, and what it has read it has read since the last request.
-/
def Recent (path : String) (load : Load) : Prop :=
  load.path = path ∧ ∀ found, load.result = some found → ∃ disk ∈ s.since, found = disk path

structure Fresh : Prop where
  disk : s.disk ∈ s.since
  future : s.model.currentPath ≠ "" →
    ∃ load, s.future = some load ∧ Recent s s.model.currentPath load
  rows : s.model.loading = false → s.model.currentPath ≠ "" →
    ∃ found, s.future.bind Load.result = some found ∧
      Sorts qt s.model.sortColumn s.model.sortOrder (s.model.filtered qt found) s.model.entries

end Definitions

/-! ## The model of the view

The operations are those of the model that the view selects rows of. -/

section Model

variable {qt : Qt} {s s' : State} {found sorted : List FileEntry}

theorem refresh_model (s : State) : s.refresh.model = s.model.refresh := by
  unfold State.refresh View.State.refresh
  split_ifs <;> rfl

theorem setCurrentPath_model (s : State) (path : String) :
    (s.setCurrentPath path).model = s.model.setCurrentPath path := by
  unfold State.setCurrentPath View.State.setCurrentPath
  split_ifs
  · rfl
  · exact refresh_model _

theorem setNameFilter_model (s : State) (filter : String) :
    (s.setNameFilter filter).model = s.model.setNameFilter filter := by
  unfold State.setNameFilter View.State.setNameFilter
  split_ifs
  · rfl
  · exact refresh_model _

theorem setShowHidden_model (s : State) (shown : Bool) :
    (s.setShowHidden shown).model = s.model.setShowHidden shown := by
  unfold State.setShowHidden View.State.setShowHidden
  split_ifs
  · rfl
  · exact refresh_model _

theorem onDirectoryLoaded_eq_some :
    s.onDirectoryLoaded qt sorted = some s' ↔
      ∃ found, s.future.bind Load.result = some found ∧
        Sorts qt s.model.sortColumn s.model.sortOrder (s.model.filtered qt found) sorted ∧
        s' = { s with model := { s.model.reset sorted with loading := false } } := by
  rw [State.onDirectoryLoaded, Option.bind_eq_some_iff]
  simp only [Option.ite_none_right_eq_some, Option.some.injEq, eq_comm (a := s')]

theorem onDirectoryLoaded_model (h : s.onDirectoryLoaded qt sorted = some s')
    (hloading : s.model.loading = true) :
    ∃ found, s.model.onDirectoryLoaded qt found sorted = some s'.model := by
  obtain ⟨found, -, hsorted, rfl⟩ := onDirectoryLoaded_eq_some.mp h
  exact ⟨found, if_pos ⟨hloading, hsorted⟩⟩

end Model

/-! ## What every event keeps -/

section Steps

variable {qt : Qt} {s s' : State} {found rows sorted : List FileEntry} {column column' : ℤ}
  {order order' : SortOrder}

theorem Sorts.resort (h : Sorts qt column order found rows)
    (h' : Sorts qt column' order' rows sorted) :
    Sorts qt column' order' found sorted :=
  ⟨h'.1.trans h.1, h'.2⟩

theorem Sorts.of_nil (h : Sorts qt column order found []) : Sorts qt column' order' found [] :=
  ⟨h.1, List.Pairwise.nil⟩

/-- **A request** begins anew, whatever was before. -/
theorem fresh_refresh (hdisk : s.disk ∈ s.since) : Fresh qt s.refresh := by
  unfold State.refresh
  split_ifs with hpath
  · exact ⟨hdisk, fun hne => absurd hpath hne, fun _ hne => absurd hpath hne⟩
  · exact ⟨List.mem_singleton_self _, fun _ => ⟨_, rfl, rfl, nofun⟩, nofun⟩

/-- **A sort** keeps what is shown. -/
theorem Fresh.applySort (h : Fresh qt s) (column : ℤ) (order : SortOrder) {model : View.State}
    (hsort : { s.model with sortColumn := column, sortOrder := order }.applySort qt sorted =
      some model) :
    Fresh qt { s with model := model } := by
  unfold View.State.applySort at hsort
  split_ifs at hsort with hempty hsorts
  · obtain rfl := Option.some.inj hsort
    refine ⟨h.disk, h.future, fun hloading hpath => ?_⟩
    obtain ⟨found, hfound, hrows⟩ := h.rows hloading hpath
    have hnone : s.model.entries = [] := hempty
    rw [hnone] at hrows
    exact ⟨found, hfound, hnone ▸ Sorts.of_nil hrows⟩
  · obtain rfl := Option.some.inj hsort
    refine ⟨h.disk, h.future, fun hloading hpath => ?_⟩
    obtain ⟨found, hfound, hrows⟩ := h.rows hloading hpath
    exact ⟨found, hfound, Sorts.resort hrows hsorts⟩

/-- **Any load done**: the rows are those of the last future. -/
theorem Fresh.onDirectoryLoaded (h : Fresh qt s)
    (hloaded : s.onDirectoryLoaded qt sorted = some s') :
    Fresh qt s' := by
  obtain ⟨found, hfound, hsorted, rfl⟩ := onDirectoryLoaded_eq_some.mp hloaded
  exact ⟨h.disk, h.future, fun _ _ => ⟨found, hfound, hsorted⟩⟩

/-- What becomes of the abandoned loads does not matter. -/
theorem Fresh.setAbandoned (h : Fresh qt s) (abandoned : List Load) :
    Fresh qt { s with abandoned := abandoned } :=
  ⟨h.disk, h.future, h.rows⟩

theorem Load.deliver_result {load load' : Load} (h : load.deliver = some load') :
    load'.path = load.path ∧ load'.result = load.result := by
  obtain ⟨-, h⟩ := Option.ite_none_right_eq_some.mp h
  obtain rfl := Option.some.inj h
  exact ⟨rfl, rfl⟩

theorem Fresh.deliver (h : Fresh qt s) {load load' : Load} (hfuture : s.future = some load)
    (hdeliver : load.deliver = some load') : Fresh qt { s with future := some load' } := by
  obtain ⟨hpath, hresult⟩ := Load.deliver_result hdeliver
  refine ⟨h.disk, fun hne => ?_, fun hloading hne => ?_⟩
  · obtain ⟨last, hlast, hrecent⟩ := h.future hne
    obtain rfl : load = last := Option.some.inj (hfuture.symm.trans hlast)
    refine ⟨load', rfl, hpath.trans hrecent.1, ?_⟩
    rw [hresult]
    exact hrecent.2
  · obtain ⟨found, hfound, hrows⟩ := h.rows hloading hne
    rw [hfuture] at hfound
    exact ⟨found, hresult.trans hfound, hrows⟩

theorem Fresh.read (h : Fresh qt s) {load load' : Load} (hfuture : s.future = some load)
    (hread : load.read s.disk = some load') : Fresh qt { s with future := some load' } := by
  obtain ⟨hnone, hread⟩ := Option.ite_none_right_eq_some.mp hread
  obtain rfl := Option.some.inj hread
  refine ⟨h.disk, fun hne => ?_, fun hloading hne => ?_⟩
  · obtain ⟨last, hlast, hrecent⟩ := h.future hne
    obtain rfl : load = last := Option.some.inj (hfuture.symm.trans hlast)
    refine ⟨_, rfl, hrecent.1, fun found hfound => ⟨s.disk, h.disk, ?_⟩⟩
    rw [← Option.some.inj hfound, hrecent.1]
  · obtain ⟨found, hfound, -⟩ := h.rows hloading hne
    rw [hfuture] at hfound
    exact absurd (hnone.symm.trans hfound) nofun

theorem Fresh.diskChanged (h : Fresh qt s) (disk : Disk) :
    Fresh qt { s with disk := disk, since := s.since ++ [disk] } := by
  refine ⟨List.mem_append_right _ (List.mem_singleton_self _), fun hne => ?_, h.rows⟩
  obtain ⟨load, hload, hpath, hrecent⟩ := h.future hne
  refine ⟨load, hload, hpath, fun found hfound => ?_⟩
  obtain ⟨earlier, hearlier, heq⟩ := hrecent found hfound
  exact ⟨earlier, List.mem_append_left _ hearlier, heq⟩

/-- **One event.** -/
theorem Fresh.step (h : Fresh qt s) {e : Event} (hstep : (fileModel qt).step s e = some s') :
    Fresh qt s' := by
  cases e with
  | setCurrentPath path =>
      obtain rfl := Option.some.inj hstep
      unfold State.setCurrentPath
      split_ifs
      · exact h
      · exact fresh_refresh h.disk
  | setNameFilter filter =>
      obtain rfl := Option.some.inj hstep
      unfold State.setNameFilter
      split_ifs
      · exact h
      · exact fresh_refresh h.disk
  | setShowHidden shown =>
      obtain rfl := Option.some.inj hstep
      unfold State.setShowHidden
      split_ifs
      · exact h
      · exact fresh_refresh h.disk
  | setSortColumn column sorted =>
      obtain ⟨model, hsort, rfl⟩ := Option.map_eq_some_iff.mp hstep
      unfold View.State.setSortColumn at hsort
      split_ifs at hsort
      · obtain rfl := Option.some.inj hsort
        exact h
      · exact h.applySort column s.model.sortOrder hsort
  | setSortOrder order sorted =>
      obtain ⟨model, hsort, rfl⟩ := Option.map_eq_some_iff.mp hstep
      unfold View.State.setSortOrder at hsort
      split_ifs at hsort
      · obtain rfl := Option.some.inj hsort
        exact h
      · exact h.applySort s.model.sortColumn order hsort
  | refresh =>
      obtain rfl := Option.some.inj hstep
      exact fresh_refresh h.disk
  | diskChanged disk =>
      obtain rfl := Option.some.inj hstep
      exact h.diskChanged disk
  | read =>
      obtain ⟨load, hfuture, hread⟩ := Option.bind_eq_some_iff.mp hstep
      obtain ⟨load', hloadread, rfl⟩ := Option.map_eq_some_iff.mp hread
      exact h.read hfuture hloadread
  | readAbandoned i =>
      obtain ⟨load, -, hread⟩ := Option.bind_eq_some_iff.mp hstep
      obtain ⟨load', -, rfl⟩ := Option.map_eq_some_iff.mp hread
      exact h.setAbandoned _
  | finished sorted =>
      obtain ⟨load, hfuture, hdeliver⟩ := Option.bind_eq_some_iff.mp hstep
      obtain ⟨load', hdeliver, hloaded⟩ := Option.bind_eq_some_iff.mp hdeliver
      exact (h.deliver hfuture hdeliver).onDirectoryLoaded hloaded
  | finishedAbandoned i sorted =>
      obtain ⟨load, -, hdeliver⟩ := Option.bind_eq_some_iff.mp hstep
      obtain ⟨load', -, hloaded⟩ := Option.bind_eq_some_iff.mp hdeliver
      exact (h.setAbandoned _).onDirectoryLoaded hloaded

theorem fresh_start (qt : Qt) (disk : Disk) : Fresh qt (start disk) :=
  ⟨List.mem_singleton_self disk, fun hpath => absurd rfl hpath, fun _ hpath => absurd rfl hpath⟩

theorem fresh_of_reachable (h : (fileModel qt).Reachable s) : Fresh qt s := by
  refine h.invariant ?_ ?_
  · rintro _ ⟨disk, rfl⟩
    exact fresh_start qt disk
  · intro s e s' _ hfresh _ hstep
    exact hfresh.step hstep

end Steps

/-! ## Filters -/

section Filters

variable {qt : Qt} {s : State} {found : List FileEntry}

/-- Rows that are kept and sorted are the rows of the listing. -/
theorem rowsOf_of_sorts [Std.TransCmp qt.compare]
    (h : Sorts qt s.model.sortColumn s.model.sortOrder (s.model.filtered qt found)
      s.model.entries) :
    RowsOf qt s found := by
  have hrows := h.1
  rw [filtered_eq] at hrows
  refine ⟨found.filter fun e => !decide (Passes qt s.model e), ?_, ?_, ?_, View.inOrder_of_sorts h⟩
  · exact (hrows.append_right _).trans (List.filter_append_perm _ found)
  · intro e he
    exact of_decide_eq_true (List.mem_filter.mp (hrows.mem_iff.mp he)).2
  · intro e he
    simpa using (List.mem_filter.mp he).2

end Filters

/-- **The list shows the directory**: in every run, whenever nothing is being loaded. -/
theorem shows_of_reachable (qt : Qt) [Std.TransCmp qt.compare] {s : State}
    (h : (fileModel qt).Reachable s) (hloaded : s.model.loading = false)
    (hpath : s.model.currentPath ≠ "") : Shows qt s := by
  have hfresh := fresh_of_reachable h
  obtain ⟨load, hload, hrecent⟩ := hfresh.future hpath
  obtain ⟨found, hfound, hrows⟩ := hfresh.rows hloaded hpath
  rw [hload] at hfound
  obtain ⟨disk, hdisk, rfl⟩ := hrecent.2 found hfound
  exact ⟨disk, hdisk, rowsOf_of_sorts hrows⟩

/-- A directory is opened and read again at once; a file appears meanwhile; the first load is
announced when both are read. -/
def lateRun : List Event :=
  [.setCurrentPath "/d", .refresh, .readAbandoned 0, .diskChanged fun _ =>
    [View.fileNamed "b", View.fileNamed "a"],
    .read, .finishedAbandoned 0 [View.fileNamed "a", View.fileNamed "b"]]

theorem shows_lateRun :
    ∃ s, Shows View.plainQt s ∧ s.model.currentPath = "/d" ∧
      s.model.entries = [View.fileNamed "a", View.fileNamed "b"] := by
  have hinit : (fileModel View.plainQt).init (start fun _ => [View.fileNamed "b"]) := ⟨_, rfl⟩
  have hrun : ((fileModel View.plainQt).run (start fun _ => [View.fileNamed "b"]) lateRun).any
      (fun s => s.model.loading = false ∧ s.model.currentPath = "/d" ∧
        s.model.entries = [View.fileNamed "a", View.fileNamed "b"]) = true := by
    decide +kernel
  obtain ⟨s, hs, htest⟩ := Transition.System.exists_reachable_of_run hinit hrun
  obtain ⟨hloaded, hpath, hrows⟩ := of_decide_eq_true htest
  have hcompare : Std.TransCmp View.plainQt.compare := inferInstanceAs (Std.TransCmp Ord.compare)
  refine ⟨s, shows_of_reachable View.plainQt hs hloaded ?_, hpath, hrows⟩
  rw [hpath]
  decide

end NiraOS.Files.Loading
