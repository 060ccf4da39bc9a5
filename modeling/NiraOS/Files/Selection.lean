import NiraOS.Files.FileView
import NiraOS.Lib.StrictWeak
import Mathlib.Data.List.Nodup

/-!
# What is selected is what is acted on

The selected rows and the selected paths should be one selection, within the rows, and the one that
the delegates show; an open rename dialog should act on the file whose name it shows.

Every function of the view that changes the selection keeps rows and paths together (`Aligned`).
The model does not know of the selection, and the view is not told that the model was reset: a load
or a sort puts other files under the rows that are selected, while the paths stay.  The delegates
are told of an array that is assigned and not of one that is changed:

```text
                       selected rows     selected paths     dialog              delegates
toggle, range          changed          of the new rows    stays               stay as they were
select all             changed          of the new rows    stays               none is selected
clear, invert          new              of the new rows    stays               as selected
load, sort             stay              stay               stays, by its row   made anew
```

So it holds as long as the directory and the settings leave every selected row, and the row of an
open dialog, to the file that it had (`Keeps`), and nothing is selected by a click (`Shows`).  An
event after which the delegates still show what is selected is one of those (`displays_iff`).
-/

namespace NiraOS.Files.View

/-- The path of the file in a row. -/
def pathAt (rows : List FileEntry) (row : ℤ) : Option String :=
  (infoAt rows row).map FileEntry.filePath

/-- The paths of the selected rows. -/
def State.selected (s : State) : List String :=
  s.selectedIndices.filterMap fun i : ℕ => pathAt s.entries i

/-- The delegates show what is selected. -/
def State.Displays (s : State) : Prop :=
  ∀ d ∈ s.delegates, d.isSelected = true ↔ d.row ∈ s.selectedIndices

structure Sound (s : State) : Prop where
  nodup : s.selectedIndices.Nodup
  inRange : ∀ i ∈ s.selectedIndices, i < s.entries.length
  paths : s.selectedPaths = s.selected
  displayed : s.Displays
  delete : s.deleteSelected.calls = s.calls ++ s.selected.map Call.delete
  copy : s.copySelected.clipboardPaths = s.selected ∧ s.copySelected.clipboardIsCut = false
  cut : s.cutSelected.clipboardPaths = s.selected ∧ s.cutSelected.clipboardIsCut = true
  rename : s.renameDialog.isOpen = true → ∃ path, s.renameDialog.shown = some path ∧
    ∀ text, text ≠ "" → text ≠ s.renameDialog.oldName →
      (s.acceptRename text).calls = s.calls ++ [.rename (some path) text]

/-! ## Which events are harmless -/

section Conditions

variable (qt : Qt) (s : State)

/-- Among the entries to be shown is a file of this path, the sort tells it apart from all others,
and as many come before it as there are rows before this one. -/
def ComesTo (column : ℤ) (order : SortOrder) (shown : List FileEntry) (row : ℤ) (path : String) :
    Prop :=
  ∃ e ∈ shown, e.filePath = path ∧
    ((shown.erase e).countP (sortsBefore qt column order · e) : ℤ) = row ∧
    ∀ f ∈ shown.erase e, sortsBefore qt column order f e = true ∨
      sortsBefore qt column order e f = true

instance (column : ℤ) (order : SortOrder) (shown : List FileEntry) (row : ℤ) (path : String) :
    Decidable (ComesTo qt column order shown row path) :=
  inferInstanceAs (Decidable (∃ e ∈ shown, _))

/-- The files in the selected rows, and the one in the row of an open dialog, come to the same rows
again. -/
def KeepsRows (column : ℤ) (order : SortOrder) (shown : List FileEntry) : Prop :=
  (∀ i ∈ s.selectedIndices, ∀ path ∈ pathAt s.entries i, ComesTo qt column order shown i path) ∧
    (s.renameDialog.isOpen = true → ∀ path ∈ pathAt s.entries s.renameDialog.targetIndex,
      ComesTo qt column order shown s.renameDialog.targetIndex path)

instance (column : ℤ) (order : SortOrder) (shown : List FileEntry) :
    Decidable (KeepsRows qt s column order shown) :=
  inferInstanceAs (Decidable (_ ∧ _))

/-- A new order and a directory that is read keep the rows, and the menu of a row that is gone does
not change an open dialog. -/
def Keeps : Event → Prop
  | .setSortColumn column _ => column ≠ s.sortColumn → KeepsRows qt s column s.sortOrder s.entries
  | .setSortOrder order _ => order ≠ s.sortOrder → KeepsRows qt s s.sortColumn order s.entries
  | .directoryLoaded found _ =>
      KeepsRows qt s s.sortColumn s.sortOrder (found.filter fun e => Passes qt s e)
  | .contextRename => s.renameDialog.isOpen = true → (infoAt s.entries s.contextIndex).isSome = true
  | _ => True

instance (e : Event) : Decidable (Keeps qt s e) := by
  unfold Keeps
  cases e <;> infer_instance

/-- All rows on the screen between the last selected one and the one clicked on are selected
already. -/
def RangeShown (index : ℕ) : Prop :=
  s.selectedIndices ≠ [] ∧ ∀ last ∈ s.selectedIndices.getLast?, ∀ d ∈ s.delegates,
    min last index ≤ d.row → d.row ≤ max last index → d.row ∈ s.selectedIndices

instance (index : ℕ) : Decidable (RangeShown s index) := inferInstanceAs (Decidable (_ ∧ _))

/-- No row on the screen is selected, or let go of, without its delegate being told. -/
def Shows : Event → Prop
  | .toggleSelection _ | .clicked _ => False
  | .rangeSelection index => RangeShown s index
  | .selectAll => s.delegates = []
  | _ => True

instance (e : Event) : Decidable (Shows s e) := by
  unfold Shows
  cases e <;> infer_instance

end Conditions

/-! ## Alignment -/

structure Aligned (s : State) : Prop where
  nodup : s.selectedIndices.Nodup
  inRange : ∀ i ∈ s.selectedIndices, i < s.entries.length
  onScreen : ∀ d ∈ s.delegates, d.row < s.entries.length
  paths : s.selectedPaths = s.selected
  dialog : s.renameDialog.isOpen = true →
    ∃ path, s.renameDialog.shown = some path ∧
      pathAt s.entries s.renameDialog.targetIndex = some path

theorem infoAt_natCast (rows : List FileEntry) (i : ℕ) : infoAt rows (i : ℤ) = rows[i]? := by
  unfold infoAt
  rw [if_neg (by omega), Int.toNat_natCast]

theorem infoAt_isSome_iff (rows : List FileEntry) (i : ℕ) :
    (infoAt rows i).isSome = true ↔ i < rows.length := by
  rw [infoAt_natCast, isSome_getElem?]

theorem pathAt_isSome_iff (rows : List FileEntry) (i : ℕ) :
    (pathAt rows i).isSome = true ↔ i < rows.length := by
  rw [pathAt, Option.isSome_map, infoAt_isSome_iff]

/-- Choices that leave out no element and have the same results agree on every element. -/
theorem eqOn_of_filterMap_eq {α β : Type*} {f g : α → Option β} {l : List α}
    (hf : ∀ a ∈ l, (f a).isSome = true) (hg : ∀ a ∈ l, (g a).isSome = true)
    (h : l.filterMap f = l.filterMap g) : ∀ a ∈ l, f a = g a := by
  induction l with
  | nil =>
      intro a ha
      cases ha
  | cons a l ih =>
      obtain ⟨b, hb⟩ := Option.isSome_iff_exists.mp (hf a (List.mem_cons_self ..))
      obtain ⟨c, hc⟩ := Option.isSome_iff_exists.mp (hg a (List.mem_cons_self ..))
      rw [List.filterMap_cons_some hb, List.filterMap_cons_some hc] at h
      obtain ⟨hbc, htail⟩ := List.cons.inj h
      have htail' := ih (fun x hx => hf x (List.mem_cons_of_mem _ hx))
        (fun x hx => hg x (List.mem_cons_of_mem _ hx)) htail
      intro x hx
      rcases List.mem_cons.mp hx with rfl | hx
      · rw [hb, hc, hbc]
      · exact htail' x hx

section Steps

variable {s s' : State}

theorem sound_of_aligned (h : Aligned s) (hdisplays : s.Displays) : Sound s := by
  refine ⟨h.nodup, h.inRange, h.paths, hdisplays, ?_, ⟨h.paths, rfl⟩, ⟨h.paths, rfl⟩, ?_⟩
  · rw [← h.paths]
    rfl
  · intro hopen
    obtain ⟨path, hshown, hpath⟩ := h.dialog hopen
    refine ⟨path, hshown, fun text hne hold => ?_⟩
    rw [State.acceptRename, if_pos ⟨hne, hold⟩, ← hpath]
    rfl

/-- What touches neither rows, selection, delegates nor an open dialog. -/
theorem Aligned.congr (h : Aligned s) (hrows : s'.entries = s.entries)
    (hindices : s'.selectedIndices = s.selectedIndices)
    (hpaths : s'.selectedPaths = s.selectedPaths) (hdelegates : s'.delegates = s.delegates)
    (hdialog : s'.renameDialog.isOpen = true → s'.renameDialog = s.renameDialog) : Aligned s' := by
  have hselected : s'.selected = s.selected := by
    rw [State.selected, State.selected, hrows, hindices]
  constructor
  · exact hindices ▸ h.nodup
  · rw [hindices, hrows]
    exact h.inRange
  · rw [hdelegates, hrows]
    exact h.onScreen
  · rw [hpaths, hselected, h.paths]
  · intro hopen
    have hsame := hdialog hopen
    rw [hsame] at hopen ⊢
    rw [hrows]
    exact h.dialog hopen

theorem Aligned.refresh (h : Aligned s) : Aligned s.refresh := by
  unfold State.refresh
  split_ifs
  · exact h
  · exact h.congr rfl rfl rfl rfl (fun _ => rfl)

/-- **A new selection** brings its paths with it. -/
theorem Aligned.updateSelectedPaths (h : Aligned s) {indices : List ℕ} (hnodup : indices.Nodup)
    (hrange : ∀ i ∈ indices, i < s.entries.length) :
    Aligned (s.mutate indices).updateSelectedPaths := by
  have hpath : ∀ i ∈ indices, (s.entries[i]?).map FileEntry.filePath = pathAt s.entries i := by
    intro i _
    exact congrArg (Option.map FileEntry.filePath) (infoAt_natCast s.entries i).symm
  exact ⟨hnodup, hrange, h.onScreen, List.filterMap_congr hpath, h.dialog⟩

/-- The same for an array that is assigned: the delegates keep their rows. -/
theorem Aligned.assign (h : Aligned s) {indices : List ℕ} (hnodup : indices.Nodup)
    (hrange : ∀ i ∈ indices, i < s.entries.length) :
    Aligned (s.assign indices).updateSelectedPaths := by
  have h' := h.updateSelectedPaths hnodup hrange
  refine ⟨hnodup, hrange, ?_, h'.paths, h.dialog⟩
  intro d hd
  obtain ⟨d', hd', rfl⟩ := List.mem_map.mp hd
  exact h.onScreen d' hd'

theorem Aligned.lt_of_onScreen (h : Aligned s) {index : ℕ} (hindex : s.OnScreen index) :
    index < s.entries.length := by
  obtain ⟨d, hd, rfl⟩ := List.mem_map.mp hindex
  exact h.onScreen d hd

theorem Aligned.toggleSelection (h : Aligned s) {index : ℕ} (hindex : index < s.entries.length) :
    Aligned (s.toggleSelection index) := by
  unfold State.toggleSelection
  split_ifs with hmem
  · apply h.updateSelectedPaths (h.nodup.erase index)
    intro i hi
    exact h.inRange i (List.mem_of_mem_erase hi)
  · apply h.updateSelectedPaths
    · refine List.nodup_append.mpr ⟨h.nodup, List.nodup_singleton index, ?_⟩
      rintro i hi j hj rfl
      exact hmem (List.mem_singleton.mp hj ▸ hi)
    · intro i hi
      rcases List.mem_append.mp hi with hi | hi
      · exact h.inRange i hi
      · exact List.mem_singleton.mp hi ▸ hindex

theorem nodup_pushMissing {indices : List ℕ} (hnodup : indices.Nodup) (i : ℕ) :
    (pushMissing indices i).Nodup := by
  unfold pushMissing
  split_ifs with hmem
  · exact hnodup
  · refine List.nodup_append.mpr ⟨hnodup, List.nodup_singleton i, ?_⟩
    rintro j hj k hk rfl
    exact hmem (List.mem_singleton.mp hk ▸ hj)

theorem mem_pushMissing {indices : List ℕ} {i j : ℕ} :
    j ∈ pushMissing indices i ↔ j ∈ indices ∨ j = i := by
  unfold pushMissing
  split_ifs with hmem
  · refine ⟨Or.inl, ?_⟩
    rintro (hj | rfl)
    · exact hj
    · exact hmem
  · rw [List.mem_append, List.mem_singleton]

/-- Pushing what is missing keeps every index to one place. -/
theorem nodup_foldl_pushMissing {added indices : List ℕ} (hnodup : indices.Nodup) :
    (added.foldl pushMissing indices).Nodup := by
  induction added generalizing indices with
  | nil => exact hnodup
  | cons j added ih => exact ih (nodup_pushMissing hnodup j)

theorem mem_foldl_pushMissing {added indices : List ℕ} {i : ℕ} :
    i ∈ added.foldl pushMissing indices ↔ i ∈ indices ∨ i ∈ added := by
  induction added generalizing indices with
  | nil => simp
  | cons j added ih =>
      rw [List.foldl_cons, ih, mem_pushMissing, List.mem_cons, or_assoc]

/-- The rows between the last selected one and the one that is clicked on. -/
theorem mem_range_iff {last index i : ℕ} :
    i ∈ List.range' (min last index) (max last index + 1 - min last index) ↔
      min last index ≤ i ∧ i ≤ max last index := by
  rw [List.mem_range'_1]
  omega

theorem Aligned.rangeSelection (h : Aligned s) {index : ℕ} (hindex : index < s.entries.length) :
    Aligned (s.rangeSelection index) := by
  unfold State.rangeSelection
  split
  · exact h.toggleSelection hindex
  · next last hlast =>
      have hlast' := h.inRange last (List.mem_of_getLast? hlast)
      apply h.updateSelectedPaths (nodup_foldl_pushMissing h.nodup)
      intro i hi
      rcases mem_foldl_pushMissing.mp hi with hi | hi
      · exact h.inRange i hi
      · obtain ⟨-, hle⟩ := mem_range_iff.mp hi
        omega

theorem Aligned.clearSelection (h : Aligned s) : Aligned s.clearSelection := by
  apply h.assign List.nodup_nil
  intro i hi
  cases hi

theorem Aligned.selectAll (h : Aligned s) : Aligned s.selectAll := by
  apply h.clearSelection.updateSelectedPaths List.nodup_range
  intro i hi
  exact List.mem_range.mp hi

theorem Aligned.invertSelection (h : Aligned s) : Aligned s.invertSelection := by
  apply h.assign (List.nodup_range.filter _)
  intro i hi
  exact List.mem_range.mp (List.mem_filter.mp hi).1

theorem Aligned.createDelegate (h : Aligned s) {row : ℕ} (hrow : row < s.entries.length) :
    Aligned (s.createDelegate row) := by
  refine ⟨h.nodup, h.inRange, ?_, h.paths, h.dialog⟩
  intro d hd
  rcases List.mem_append.mp hd with hd | hd
  · exact h.onScreen d hd
  · rw [List.mem_singleton.mp hd]
    exact hrow

theorem Aligned.startRename (h : Aligned s) {index : ℤ}
    (hindex : s.renameDialog.isOpen = true → (infoAt s.entries index).isSome = true) :
    Aligned (s.startRename index) := by
  unfold State.startRename
  cases hinfo : infoAt s.entries index with
  | some info =>
      refine ⟨h.nodup, h.inRange, h.onScreen, h.paths, fun _ => ⟨info.filePath, rfl, ?_⟩⟩
      exact congrArg (Option.map FileEntry.filePath) hinfo
  | none =>
      refine ⟨h.nodup, h.inRange, h.onScreen, h.paths, fun hopen => ?_⟩
      have hsome := hindex hopen
      rw [hinfo] at hsome
      cases hsome

theorem Aligned.renameSelected (h : Aligned s) : Aligned s.renameSelected := by
  unfold State.renameSelected
  split
  · next index hindices =>
      refine h.startRename fun _ => (infoAt_isSome_iff s.entries index).mpr ?_
      exact h.inRange index (hindices ▸ List.mem_singleton_self index)
  · exact h

variable {qt : Qt} {column : ℤ} {order : SortOrder} {shown sorted : List FileEntry}

/-- **Whatever the sort does** with what it does not tell apart, the file comes to its row. -/
theorem pathAt_of_comesTo {row : ℤ} {path : String}
    (h : ComesTo qt column order shown row path) (hsorts : Sorts qt column order shown sorted) :
    pathAt sorted row = some path := by
  obtain ⟨e, he, rfl, rfl, hothers⟩ := h
  unfold pathAt
  rw [infoAt_natCast, getElem?_of_sorted hsorts.1 hsorts.2 he hothers]
  rfl

/-- A file that is in its row was to come there, if the sort tells it apart from all others. -/
theorem comesTo_of_pathAt {row : ℤ} {path : String} (hsorts : Sorts qt column order shown sorted)
    (htold : ∀ e ∈ shown, e.filePath = path → ∀ f ∈ shown.erase e,
      sortsBefore qt column order f e = true ∨ sortsBefore qt column order e f = true)
    (hpath : pathAt sorted row = some path) : ComesTo qt column order shown row path := by
  obtain ⟨e, he, rfl⟩ := Option.map_eq_some_iff.mp hpath
  unfold infoAt at he
  split_ifs at he with hneg
  have hmem : e ∈ shown := hsorts.1.mem_iff.mp (List.mem_of_getElem? he)
  have hothers := htold e hmem rfl
  refine ⟨e, hmem, rfl, ?_, hothers⟩
  rw [countP_of_sorted hsorts.1 hsorts.2 hothers he]
  omega

/-- **A reset** that keeps the rows keeps the alignment. -/
theorem Aligned.reset (h : Aligned s) (hkeeps : KeepsRows qt s column order shown)
    (hsorts : Sorts qt column order shown sorted) : Aligned (s.reset sorted) := by
  have hsame : ∀ i ∈ s.selectedIndices, pathAt sorted i = pathAt s.entries i := by
    intro i hi
    obtain ⟨path, hpath⟩ := Option.isSome_iff_exists.mp
      ((pathAt_isSome_iff s.entries i).mpr (h.inRange i hi))
    rw [hpath]
    exact pathAt_of_comesTo (hkeeps.1 i hi path hpath) hsorts
  refine ⟨h.nodup, ?_, ?_, ?_, ?_⟩
  · intro i hi
    have hsome := (pathAt_isSome_iff s.entries i).mpr (h.inRange i hi)
    rw [← hsame i hi] at hsome
    exact (pathAt_isSome_iff sorted i).mp hsome
  · intro d hd
    cases hd
  · exact h.paths.trans (List.filterMap_congr fun i hi => (hsame i hi).symm)
  · intro hopen
    obtain ⟨path, hshown, hpath⟩ := h.dialog hopen
    exact ⟨path, hshown, pathAt_of_comesTo (hkeeps.2 hopen path hpath) hsorts⟩

theorem Aligned.applySort (h : Aligned s)
    (hkeeps : KeepsRows qt s s.sortColumn s.sortOrder s.entries)
    (hsort : s.applySort qt sorted = some s') : Aligned s' := by
  unfold State.applySort at hsort
  split_ifs at hsort with hempty hsorts
  · obtain rfl := Option.some.inj hsort
    exact h
  · obtain rfl := Option.some.inj hsort
    exact h.reset hkeeps hsorts

theorem Aligned.pasteTo (h : Aligned s) (path : String) : Aligned (s.pasteTo path) := by
  unfold State.pasteTo
  split_ifs
  · exact h.congr rfl rfl rfl rfl (fun _ => rfl)
  · exact h.congr rfl rfl rfl rfl (fun _ => rfl)

/-- Nothing else keeps it, where the sort tells the files apart. -/
theorem keepsRows_of_aligned (h : Aligned s) (hsorts : Sorts qt column order shown sorted)
    (htold : ∀ e ∈ shown, ∀ f ∈ shown.erase e,
      sortsBefore qt column order f e = true ∨ sortsBefore qt column order e f = true)
    (h' : Aligned (s.reset sorted)) : KeepsRows qt s column order shown := by
  have hcomes : ∀ row path, pathAt sorted row = some path →
      ComesTo qt column order shown row path :=
    fun row path => comesTo_of_pathAt hsorts fun e he _ => htold e he
  have hsame : ∀ i ∈ s.selectedIndices, pathAt s.entries i = pathAt sorted i := by
    apply eqOn_of_filterMap_eq
    · intro i hi
      exact (pathAt_isSome_iff s.entries i).mpr (h.inRange i hi)
    · intro i hi
      exact (pathAt_isSome_iff sorted i).mpr (h'.inRange i hi)
    · exact h.paths.symm.trans h'.paths
  refine ⟨fun i hi path hpath => hcomes i path ?_, fun hopen path hpath => hcomes _ path ?_⟩
  · rw [← hsame i hi]
    exact hpath
  · obtain ⟨shown, hshown, hat⟩ := h.dialog hopen
    obtain ⟨shown', hshown', hat'⟩ := h'.dialog hopen
    have heq : some shown' = some shown := hshown'.symm.trans hshown
    exact hat'.trans (heq.trans (hat.symm.trans hpath))

/-- **One event** keeps the alignment, if it keeps the rows. -/
theorem Aligned.step (h : Aligned s) {e : Event} (hkeeps : Keeps qt s e)
    (hstep : (view qt).step s e = some s') : Aligned s' := by
  cases e with
  | navigate path =>
      obtain rfl := Option.some.inj hstep
      unfold State.setCurrentPath
      split_ifs
      · exact h
      · have h' : Aligned { s with currentPath := path } :=
          h.congr rfl rfl rfl rfl (fun _ => rfl)
        exact h'.refresh
  | setSortColumn column sorted =>
      replace hstep : s.setSortColumn qt column sorted = some s' := hstep
      unfold State.setSortColumn at hstep
      split_ifs at hstep with hsame
      · obtain rfl := Option.some.inj hstep
        exact h
      · have h' : Aligned { s with sortColumn := column } :=
          h.congr rfl rfl rfl rfl (fun _ => rfl)
        exact h'.applySort (hkeeps hsame) hstep
  | setSortOrder order sorted =>
      replace hstep : s.setSortOrder qt order sorted = some s' := hstep
      unfold State.setSortOrder at hstep
      split_ifs at hstep with hsame
      · obtain rfl := Option.some.inj hstep
        exact h
      · have h' : Aligned { s with sortOrder := order } :=
          h.congr rfl rfl rfl rfl (fun _ => rfl)
        exact h'.applySort (hkeeps hsame) hstep
  | setNameFilter filter =>
      obtain rfl := Option.some.inj hstep
      unfold State.setNameFilter
      split_ifs
      · exact h
      · have h' : Aligned { s with nameFilter := filter } :=
          h.congr rfl rfl rfl rfl (fun _ => rfl)
        exact h'.refresh
  | setShowHidden shown =>
      obtain rfl := Option.some.inj hstep
      unfold State.setShowHidden
      split_ifs
      · exact h
      · have h' : Aligned { s with showHidden := shown } :=
          h.congr rfl rfl rfl rfl (fun _ => rfl)
        exact h'.refresh
  | refresh =>
      obtain rfl := Option.some.inj hstep
      exact h.refresh
  | directoryLoaded found sorted =>
      obtain ⟨⟨-, hsorts⟩, hstep⟩ := Option.ite_none_right_eq_some.mp hstep
      obtain rfl := Option.some.inj hstep
      rw [filtered_eq] at hsorts
      exact (h.reset hkeeps hsorts).congr rfl rfl rfl rfl (fun _ => rfl)
  | delegateCreated row =>
      obtain ⟨hrow, hstep⟩ := Option.ite_none_right_eq_some.mp hstep
      obtain rfl := Option.some.inj hstep
      exact h.createDelegate hrow
  | delegateReleased i =>
      obtain rfl := Option.some.inj hstep
      exact ⟨h.nodup, h.inRange, fun d hd => h.onScreen d (List.mem_of_mem_eraseIdx hd), h.paths,
        h.dialog⟩
  | toggleSelection index =>
      obtain ⟨hindex, hstep⟩ := Option.ite_none_right_eq_some.mp hstep
      obtain rfl := Option.some.inj hstep
      exact h.toggleSelection (h.lt_of_onScreen hindex)
  | rangeSelection index =>
      obtain ⟨hindex, hstep⟩ := Option.ite_none_right_eq_some.mp hstep
      obtain rfl := Option.some.inj hstep
      exact h.rangeSelection (h.lt_of_onScreen hindex)
  | clicked index =>
      obtain ⟨hindex, hstep⟩ := Option.ite_none_right_eq_some.mp hstep
      obtain rfl := Option.some.inj hstep
      have hlt : index < s.clearSelection.entries.length := h.lt_of_onScreen hindex
      exact h.clearSelection.toggleSelection hlt
  | selectAll =>
      obtain rfl := Option.some.inj hstep
      exact h.selectAll
  | clearSelection =>
      obtain rfl := Option.some.inj hstep
      exact h.clearSelection
  | invertSelection =>
      obtain rfl := Option.some.inj hstep
      exact h.invertSelection
  | renameSelected =>
      obtain rfl := Option.some.inj hstep
      exact h.renameSelected
  | contextMenu index =>
      obtain ⟨-, hstep⟩ := Option.ite_none_right_eq_some.mp hstep
      obtain ⟨_, -, rfl⟩ := Option.map_eq_some_iff.mp hstep
      exact h.congr rfl rfl rfl rfl (fun _ => rfl)
  | contextRename =>
      obtain rfl := Option.some.inj hstep
      exact h.startRename hkeeps
  | renameAccepted text =>
      obtain ⟨-, hstep⟩ := Option.ite_none_right_eq_some.mp hstep
      obtain rfl := Option.some.inj hstep
      unfold State.acceptRename
      split_ifs
      · exact h.congr rfl rfl rfl rfl (fun hopen => by cases hopen)
      · exact h.congr rfl rfl rfl rfl (fun hopen => by cases hopen)
  | renameRejected =>
      obtain ⟨-, hstep⟩ := Option.ite_none_right_eq_some.mp hstep
      obtain rfl := Option.some.inj hstep
      exact h.congr rfl rfl rfl rfl (fun hopen => by cases hopen)
  | pasteClipboard | contextPaste =>
      obtain rfl := Option.some.inj hstep
      exact h.pasteTo _
  -- What only calls the file operations or fills the clipboard.
  | deleteSelected | copySelected | cutSelected | contextDelete | contextCopy | contextCut =>
      obtain rfl := Option.some.inj hstep
      exact h.congr rfl rfl rfl rfl (fun _ => rfl)

/-! ## What the delegates show -/

/-- No delegate is new, and the selection stays. -/
theorem State.Displays.of_same (h : s.Displays) (hindices : s'.selectedIndices = s.selectedIndices)
    (hdelegates : ∀ d ∈ s'.delegates, d ∈ s.delegates) : s'.Displays := by
  intro d hd
  rw [hindices]
  exact h d (hdelegates d hd)

theorem displays_of_reset (hnone : s.delegates = []) : s.Displays := by
  intro d hd
  rw [hnone] at hd
  cases hd

/-- **An array that is assigned** is shown. -/
theorem displays_assign (s : State) (indices : List ℕ) :
    (s.assign indices).updateSelectedPaths.Displays := by
  intro d hd
  obtain ⟨d', -, rfl⟩ := List.mem_map.mp hd
  exact decide_eq_true_iff

/-- **An array that is changed** is shown exactly if it is as before in every row on the screen. -/
theorem displays_mutate_iff (h : s.Displays) (indices : List ℕ) :
    (s.mutate indices).updateSelectedPaths.Displays ↔
      ∀ d ∈ s.delegates, d.row ∈ indices ↔ d.row ∈ s.selectedIndices := by
  constructor
  · intro h' d hd
    exact (h' d hd).symm.trans (h d hd)
  · intro hsame d hd
    exact (h d hd).trans (hsame d hd).symm

/-- The row that is clicked on is on the screen. -/
theorem not_displays_toggleSelection (h : s.Displays) {index : ℕ} (hnodup : s.selectedIndices.Nodup)
    (hindex : s.OnScreen index) : ¬ (s.toggleSelection index).Displays := by
  obtain ⟨d, hd, rfl⟩ := List.mem_map.mp hindex
  unfold State.toggleSelection
  rw [displays_mutate_iff h]
  intro hsame
  have hrow := hsame d hd
  split_ifs at hrow with hmem
  · exact hnodup.not_mem_erase (hrow.mpr hmem)
  · exact hmem (hrow.mp (by simp))

theorem displays_rangeSelection_iff (h : s.Displays) {index : ℕ} (hnodup : s.selectedIndices.Nodup)
    (hindex : s.OnScreen index) :
    (s.rangeSelection index).Displays ↔ RangeShown s index := by
  unfold State.rangeSelection RangeShown
  split
  · next hnone =>
      rw [List.getLast?_eq_none_iff] at hnone
      exact iff_of_false (not_displays_toggleSelection h hnodup hindex) fun hshows =>
        hshows.1 hnone
  · next last hlast =>
      have hne : s.selectedIndices ≠ [] := by
        intro hnone
        rw [hnone] at hlast
        cases hlast
      rw [displays_mutate_iff h, hlast, and_iff_right hne]
      simp only [Option.mem_some_iff, forall_eq', mem_foldl_pushMissing, mem_range_iff,
        or_iff_left_iff_imp, and_imp]

theorem displays_selectAll_iff (h : Aligned s) :
    s.selectAll.Displays ↔ s.delegates = [] := by
  constructor
  · intro hall
    apply List.eq_nil_iff_forall_not_mem.mpr
    intro d hd
    have hshown : Delegate.mk d.row (decide (d.row ∈ ([] : List ℕ))) ∈ s.selectAll.delegates :=
      List.mem_map_of_mem hd
    have hselected := (hall _ hshown).mpr (List.mem_range.mpr (h.onScreen d hd))
    simp at hselected
  · intro hnone
    apply displays_of_reset
    exact List.map_eq_nil_iff.mpr hnone

theorem displays_createDelegate (h : s.Displays) (row : ℕ) : (s.createDelegate row).Displays := by
  intro d hd
  rcases List.mem_append.mp hd with hd | hd
  · exact h d hd
  · rw [List.mem_singleton.mp hd]
    exact decide_eq_true_iff

theorem State.Displays.refresh (h : s.Displays) : s.refresh.Displays := by
  unfold State.refresh
  split_ifs
  · exact h
  · exact h.of_same rfl fun _ hd => hd

theorem State.Displays.applySort (h : s.Displays) (hsort : s.applySort qt sorted = some s') :
    s'.Displays := by
  unfold State.applySort at hsort
  split_ifs at hsort
  · obtain rfl := Option.some.inj hsort
    exact h
  · obtain rfl := Option.some.inj hsort
    exact displays_of_reset rfl

theorem State.Displays.startRename (h : s.Displays) (index : ℤ) :
    (s.startRename index).Displays := by
  unfold State.startRename
  cases infoAt s.entries index with
  | some info => exact h
  | none => exact h

/-- **One event**: the delegates go on to show the selection exactly if it is none of those. -/
theorem displays_iff (h : Aligned s) (hdisplays : s.Displays) {e : Event}
    (hstep : (view qt).step s e = some s') : s'.Displays ↔ Shows s e := by
  cases e with
  | toggleSelection index =>
      obtain ⟨hindex, hstep⟩ := Option.ite_none_right_eq_some.mp hstep
      obtain rfl := Option.some.inj hstep
      exact iff_of_false (not_displays_toggleSelection hdisplays h.nodup hindex) id
  | clicked index =>
      obtain ⟨hindex, hstep⟩ := Option.ite_none_right_eq_some.mp hstep
      obtain rfl := Option.some.inj hstep
      have hindex' : s.clearSelection.OnScreen index := by
        obtain ⟨d, hd, rfl⟩ := List.mem_map.mp hindex
        exact List.mem_map.mpr ⟨_, List.mem_map_of_mem hd, rfl⟩
      exact iff_of_false
        (not_displays_toggleSelection (displays_assign s []) List.nodup_nil hindex') id
  | rangeSelection index =>
      obtain ⟨hindex, hstep⟩ := Option.ite_none_right_eq_some.mp hstep
      obtain rfl := Option.some.inj hstep
      exact displays_rangeSelection_iff hdisplays h.nodup hindex
  | selectAll =>
      obtain rfl := Option.some.inj hstep
      exact displays_selectAll_iff h
  | clearSelection =>
      obtain rfl := Option.some.inj hstep
      exact iff_of_true (displays_assign s _) trivial
  | invertSelection =>
      obtain rfl := Option.some.inj hstep
      exact iff_of_true (displays_assign s _) trivial
  | delegateCreated row =>
      obtain ⟨-, hstep⟩ := Option.ite_none_right_eq_some.mp hstep
      obtain rfl := Option.some.inj hstep
      exact iff_of_true (displays_createDelegate hdisplays row) trivial
  | delegateReleased i =>
      obtain rfl := Option.some.inj hstep
      refine iff_of_true (hdisplays.of_same rfl ?_) trivial
      intro d hd
      exact List.mem_of_mem_eraseIdx hd
  | navigate path =>
      obtain rfl := Option.some.inj hstep
      refine iff_of_true ?_ trivial
      unfold State.setCurrentPath
      split_ifs
      · exact hdisplays
      · have hpath : { s with currentPath := path }.Displays := hdisplays
        exact hpath.refresh
  | setNameFilter filter =>
      obtain rfl := Option.some.inj hstep
      refine iff_of_true ?_ trivial
      unfold State.setNameFilter
      split_ifs
      · exact hdisplays
      · have hfilter : { s with nameFilter := filter }.Displays := hdisplays
        exact hfilter.refresh
  | setShowHidden shown =>
      obtain rfl := Option.some.inj hstep
      refine iff_of_true ?_ trivial
      unfold State.setShowHidden
      split_ifs
      · exact hdisplays
      · have hshown : { s with showHidden := shown }.Displays := hdisplays
        exact hshown.refresh
  | refresh =>
      obtain rfl := Option.some.inj hstep
      exact iff_of_true hdisplays.refresh trivial
  | setSortColumn column sorted =>
      replace hstep : s.setSortColumn qt column sorted = some s' := hstep
      refine iff_of_true ?_ trivial
      unfold State.setSortColumn at hstep
      split_ifs at hstep
      · obtain rfl := Option.some.inj hstep
        exact hdisplays
      · have hcolumn : { s with sortColumn := column }.Displays := hdisplays
        exact hcolumn.applySort hstep
  | setSortOrder order sorted =>
      replace hstep : s.setSortOrder qt order sorted = some s' := hstep
      refine iff_of_true ?_ trivial
      unfold State.setSortOrder at hstep
      split_ifs at hstep
      · obtain rfl := Option.some.inj hstep
        exact hdisplays
      · have horder : { s with sortOrder := order }.Displays := hdisplays
        exact horder.applySort hstep
  | directoryLoaded found sorted =>
      obtain ⟨-, hstep⟩ := Option.ite_none_right_eq_some.mp hstep
      obtain rfl := Option.some.inj hstep
      exact iff_of_true (displays_of_reset rfl) trivial
  | renameSelected =>
      obtain rfl := Option.some.inj hstep
      refine iff_of_true ?_ trivial
      unfold State.renameSelected
      split
      · exact hdisplays.startRename _
      · exact hdisplays
  | contextRename =>
      obtain rfl := Option.some.inj hstep
      exact iff_of_true (hdisplays.startRename _) trivial
  | contextMenu index =>
      obtain ⟨-, hstep⟩ := Option.ite_none_right_eq_some.mp hstep
      obtain ⟨_, -, rfl⟩ := Option.map_eq_some_iff.mp hstep
      exact iff_of_true hdisplays trivial
  | renameAccepted text =>
      obtain ⟨-, hstep⟩ := Option.ite_none_right_eq_some.mp hstep
      obtain rfl := Option.some.inj hstep
      refine iff_of_true ?_ trivial
      unfold State.acceptRename
      split_ifs
      · exact hdisplays
      · exact hdisplays
  | renameRejected =>
      obtain ⟨-, hstep⟩ := Option.ite_none_right_eq_some.mp hstep
      obtain rfl := Option.some.inj hstep
      exact iff_of_true hdisplays trivial
  | pasteClipboard | contextPaste =>
      obtain rfl := Option.some.inj hstep
      refine iff_of_true ?_ trivial
      unfold State.pasteTo
      split_ifs
      · exact hdisplays
      · exact hdisplays
  -- What only calls the file operations or fills the clipboard.
  | deleteSelected | copySelected | cutSelected | contextDelete | contextCopy | contextCut =>
      obtain rfl := Option.some.inj hstep
      exact iff_of_true hdisplays trivial

end Steps

theorem aligned_empty : Aligned .empty where
  nodup := List.nodup_nil
  inRange _ hi := by cases hi
  onScreen _ hd := by cases hd
  paths := rfl
  dialog hopen := by cases hopen

/-- **The selected rows and paths are one selection** in every run whose resets keep the rows,
clicks or no. -/
theorem aligned_of_keeping {qt : Qt} {s : State} (h : (view qt).ReachableWhere (Keeps qt) s) :
    Aligned s := by
  refine h.invariant ?_ ?_
  · rintro _ rfl
    exact aligned_empty
  · intro s e s' _ haligned hkeeps hstep
    exact haligned.step hkeeps hstep

/-- **What is selected is what is acted on, and what is shown**, in every run whose resets keep the
rows and which selects nothing by a click. -/
theorem sound_of_keeping (qt : Qt) {s : State}
    (h : (view qt).ReachableWhere (fun s e => Keeps qt s e ∧ Shows s e) s) : Sound s := by
  have haligned : Aligned s := aligned_of_keeping (h.mono fun _ _ hok => hok.1)
  refine sound_of_aligned haligned ?_
  refine h.invariant (I := State.Displays) ?_ ?_
  · rintro _ rfl
    exact displays_of_reset rfl
  · intro s e s' hs hdisplays hok hstep
    have haligned : Aligned s := aligned_of_keeping (hs.mono fun _ _ hok => hok.1)
    exact (displays_iff haligned hdisplays hstep).mpr hok.2

/-! ## Runs -/

/-- For small letters without accents. -/
def plainQt : Qt where
  compare a b := Ord.compare a b
  toLower text := text

/-- A file of `/d`. -/
def fileNamed (name : String) : FileEntry where
  fileName := name
  filePath := "/d/" ++ name
  fileSize := 0
  fileType := "file"
  mimeType := "text/plain"
  lastModified := 0
  isHidden := false

/-- The directory has one file, which is selected; another one appears; the first is renamed, and
when the directory is read again, all is deleted. -/
def tidyRun : List Event :=
  [.navigate "/d", .directoryLoaded [fileNamed "a"] [fileNamed "a"], .delegateCreated 0,
    .invertSelection, .refresh,
    .directoryLoaded [fileNamed "b", fileNamed "a"] [fileNamed "a", fileNamed "b"],
    .delegateCreated 0, .delegateCreated 1, .renameSelected, .renameAccepted "c", .clearSelection,
    .refresh, .directoryLoaded [fileNamed "c", fileNamed "b"] [fileNamed "b", fileNamed "c"],
    .delegateCreated 0, .delegateCreated 1, .invertSelection, .deleteSelected]

theorem sound_tidyRun :
    ∃ s, Sound s ∧ s.calls = [.rename (some "/d/a") "c", .delete "/d/b", .delete "/d/c"] ∧
      s.delegates = [⟨0, true⟩, ⟨1, true⟩] := by
  have hrun : ((view plainQt).runWhere (fun s e => Keeps plainQt s e ∧
    Shows s e) .empty tidyRun).any
      (fun s => s.calls = [.rename (some "/d/a") "c", .delete "/d/b", .delete "/d/c"] ∧
        s.delegates = [⟨0, true⟩, ⟨1, true⟩]) = true := by
    decide +kernel
  obtain ⟨s, hs, htest⟩ := Transition.System.exists_reachableWhere_of_run rfl hrun
  exact ⟨s, sound_of_keeping plainQt hs, of_decide_eq_true htest⟩

/-- A file is clicked on, and the order of the rows is turned round. -/
def sortingRun : List Event :=
  [.navigate "/d", .directoryLoaded [fileNamed "b", fileNamed "a"] [fileNamed "a", fileNamed "b"],
    .delegateCreated 0, .delegateCreated 1, .clicked 0,
    .setSortOrder .descending [fileNamed "b", fileNamed "a"], .delegateCreated 0,
    .delegateCreated 1]

/-- The other file is shown as selected then. -/
theorem not_sound_sorting : ∃ s, (view plainQt).Reachable s ∧ ¬ Sound s := by
  have hrun : ((view plainQt).run .empty sortingRun).any
      (fun s => s.selectedPaths = ["/d/a"] ∧ s.selected = ["/d/b"] ∧
        s.delegates = [⟨0, true⟩, ⟨1, false⟩]) = true := by
    decide +kernel
  obtain ⟨s, hs, htest⟩ := Transition.System.exists_reachable_of_run rfl hrun
  obtain ⟨hpaths, hselected, -⟩ := of_decide_eq_true htest
  refine ⟨s, hs, fun h => ?_⟩
  have hsame := h.paths
  rw [hpaths, hselected] at hsame
  exact absurd hsame (by decide)

end NiraOS.Files.View
