import NiraOS.Notepad.Window

/-!
# Where the notepad's window is

Two invariants of all runs.  The tab bar shows one of the rows, and the loaded tab, if there is
one, is the one shown (`Placed`).  The open dialog asks about the tab shown (`Asking`).  And one of
the runs in which every file that is opened holds a text that the editor gives back as it is: all
texts are such texts (`Plain`).
-/

namespace NiraOS.Notepad

open TextDocument (toPlainText)

/-! ## Where the window is -/

/-- The loaded tab, if there is one, is the current one. -/
def State.LoadedIsCurrent (s : State) : Prop :=
  s.loadedTabIndex = none ∨ s.loadedTabIndex = s.currentIndex

/-- The tab bar shows one of the rows, if there are any. -/
structure State.Placed (s : State) : Prop where
  current : ∃ c, s.currentIndex = some c ∧ c < max 1 s.tabs.length
  loaded : s.LoadedIsCurrent

section Placed

variable {s : State}

theorem State.Placed.congr {s' : State} (h : s.Placed) (hcurrent : s'.currentIndex = s.currentIndex)
    (hloaded : s'.loadedTabIndex = s.loadedTabIndex) (hlength : s'.tabs.length = s.tabs.length) :
    s'.Placed := by
  refine ⟨?_, ?_⟩
  · rw [hcurrent, hlength]
    exact h.current
  · unfold State.LoadedIsCurrent
    rw [hcurrent, hloaded]
    exact h.loaded

theorem State.LoadedIsCurrent.ne (h : s.LoadedIsCurrent) {i : ℕ} (hi : s.currentIndex ≠ some i) :
    s.loadedTabIndex ≠ some i := by
  rcases h with hl | hl
  · rw [hl]
    exact nofun
  · rwa [hl]

/-- The row that a switch leads to stays as it is. -/
theorem State.tabAt_setCurrentIndex_self (h : s.LoadedIsCurrent) {i : ℕ} (hi : i < s.tabs.length) :
    (s.setCurrentIndex (some i)).tabAt (some i) = s.tabAt (some i) := by
  by_cases hcurrent : s.currentIndex = some i
  · rw [State.setCurrentIndex_self hcurrent]
  · obtain ⟨t, ht⟩ := State.tabAt_of_lt hi
    rw [State.setCurrentIndex_of_ne hcurrent (h.ne hcurrent) ht]
    exact (s.tabAt_setTab s.loadedTabIndex _ i).trans (if_neg (h.ne hcurrent))

theorem placed_setCurrentIndex (h : s.LoadedIsCurrent) {i : ℕ} (hi : i < s.tabs.length) :
    (s.setCurrentIndex (some i)).Placed := by
  by_cases hcurrent : s.currentIndex = some i
  · rw [State.setCurrentIndex_self hcurrent]
    exact ⟨⟨i, hcurrent, by omega⟩, h⟩
  · obtain ⟨t, ht⟩ := State.tabAt_of_lt hi
    rw [State.setCurrentIndex_of_ne hcurrent (h.ne hcurrent) ht]
    refine ⟨⟨i, rfl, ?_⟩, .inr rfl⟩
    change i < max 1 (s.flushEditorToModel s.loadedTabIndex).tabs.length
    rw [State.length_flush]
    omega

theorem placed_newTab (h : s.LoadedIsCurrent) (path content : String) :
    (s.newTab path content).Placed := by
  refine placed_setCurrentIndex (s := s.appendTab path content) h ?_
  rw [State.appendTab, List.length_append]
  exact Nat.lt_succ_self _

theorem placed_removeTabImmediately (h : s.Placed) (index : ℕ) (selected : Option ℕ) :
    (s.removeTabImmediately index selected).Placed := by
  unfold State.removeTabImmediately
  split
  · exact h
  · dsimp only
    split
    · exact (placed_newTab (.inl rfl) "" "").congr rfl rfl rfl
    · next hne =>
        have hpos := List.length_pos_of_ne_nil hne
        refine (placed_setCurrentIndex (.inl rfl) ?_).congr rfl rfl rfl
        exact Nat.lt_of_le_of_lt (Nat.min_le_right ..) (Nat.sub_lt hpos Nat.zero_lt_one)

theorem placed_closeTab (h : s.Placed) (index : ℕ) (selected : Option ℕ) :
    (s.closeTab index selected).Placed := by
  unfold State.closeTab
  split
  · exact h
  · next hlt =>
      have hset := placed_setCurrentIndex h.loaded (Nat.lt_of_not_le hlt)
      dsimp only
      split
      · exact hset
      · split
        · exact hset.congr rfl rfl rfl
        · exact placed_removeTabImmediately hset index selected

theorem State.Placed.setTab (h : s.Placed) (index : Option ℕ) (f : Tab → Tab) :
    (s.setTab index f).Placed :=
  h.congr rfl rfl (s.length_setTab index f)

theorem placed_load (h : s.Placed) : s.loadEditorFromCurrent.Placed := by
  unfold State.loadEditorFromCurrent
  split
  · exact h
  · exact ⟨h.current, .inr rfl⟩

theorem placed_openPath (h : s.Placed) (path : String) (result : ReadResult) :
    (s.openPath path result).Placed := by
  unfold State.openPath
  split
  · split
    · split
      · exact placed_load (h.setTab ..)
      · exact placed_newTab h.loaded _ _
    · exact placed_newTab h.loaded _ _
  · exact h
  · exact h

theorem placed_saveCurrent (h : s.Placed) (faults : WriteFaults) :
    (s.saveCurrent faults).Placed := by
  unfold State.saveCurrent
  split
  · exact h
  · dsimp only
    split
    · exact h.congr rfl rfl (State.length_setTab ..)
    · exact h.congr rfl rfl rfl

theorem placed_saveCurrentAs (h : s.Placed) (path : String) (faults : WriteFaults) :
    (s.saveCurrentAs path faults).Placed := by
  unfold State.saveCurrentAs
  dsimp only
  split
  · exact h.congr rfl rfl (State.length_setTab ..)
  · exact h.congr rfl rfl rfl

theorem placed_edit (h : s.Placed) (text : String) : (s.edit text).Placed := by
  unfold State.edit State.markModified
  split
  · exact h
  · dsimp only
    split
    · exact h.congr rfl rfl (State.length_setTab ..)
    · exact h.congr rfl rfl rfl

theorem placed_onClosing (h : s.Placed) : s.onClosing.Placed := by
  have hflush : (s.flushEditorToModel s.loadedTabIndex).Placed := h.setTab ..
  unfold State.onClosing
  dsimp only
  split
  · next i hi =>
      obtain ⟨hlt, -⟩ := List.findIdx?_eq_some_iff_getElem.mp hi
      exact (placed_setCurrentIndex hflush.loaded hlt).congr rfl rfl rfl
  · exact hflush.congr rfl rfl rfl

/-- What a step preserves. -/
theorem placed_handle (h : s.Placed) {e : Event} (haccepts : s.Accepts e) :
    (s.handle e).Placed := by
  cases e with
  | completed initialFile =>
      rcases initialFile with _ | ⟨path, result⟩
      · exact placed_newTab (s := { s with phase := .running }) h.loaded "" ""
      · exact placed_openPath (s := { s with phase := .running }) (h.congr rfl rfl rfl) path result
  | edit text => exact placed_edit h text
  | selectTab index => exact placed_setCurrentIndex h.loaded haccepts.2.2
  | newTab => exact placed_newTab h.loaded "" ""
  | openPath path result => exact placed_openPath h path result
  | saveCurrent faults => exact placed_saveCurrent h faults
  | saveCurrentAs path faults => exact placed_saveCurrentAs h path faults
  | autoSave faults =>
      simp only [State.handle, State.autoSave]
      split
      · exact placed_saveCurrent h faults
      · exact h
  | setAutoSave checked => exact (h.setTab ..).congr rfl rfl rfl
  | closeTab index selected => exact placed_closeTab h index selected
  | cancelClose => exact h.congr rfl rfl rfl
  | discard selected =>
      simp only [State.handle, State.discard]
      split
      · exact h.congr rfl rfl rfl
      · exact placed_removeTabImmediately (s := s.cancelClose) (h.congr rfl rfl rfl) _ selected
  | saveThenClose faults selected =>
      simp only [State.handle, State.saveThenClose]
      split
      · exact h.congr rfl rfl rfl
      · split
        · exact (placed_saveCurrent h faults).congr rfl rfl rfl
        · exact placed_removeTabImmediately
            (s := { s.saveCurrent faults with unsavedDialog := false })
            ((placed_saveCurrent h faults).congr rfl rfl rfl) _ selected
  | close => exact placed_onClosing h

end Placed

/-! ## Steps and runs -/

theorem step_eq_some {s s' : State} {e : Event} (h : system.step s e = some s') :
    s.Accepts e ∧ s' = s.handle e := by
  change (if s.Accepts e then some (s.handle e) else none) = some s' at h
  split at h
  · next haccepts => exact ⟨haccepts, (Option.some.inj h).symm⟩
  · nomatch h

/-- The window is placed in every run. -/
theorem placed_of_reachable {ok : State → Event → Prop} {s : State}
    (h : system.ReachableWhere ok s) :
    s.Placed := by
  refine h.invariant ?_ fun s e s' _ hs _ hstep => ?_
  · rintro _ ⟨disk, rfl⟩
    exact ⟨⟨0, rfl, Nat.zero_lt_one⟩, .inl rfl⟩
  · obtain ⟨haccepts, rfl⟩ := step_eq_some hstep
    exact placed_handle hs haccepts

/-! ## Adding a row -/

theorem State.tabAt_appendTab_of_ne {s : State} {i : ℕ} (h : i ≠ s.tabs.length)
    (path content : String) :
    (s.appendTab path content).tabAt (some i) = s.tabAt (some i) := by
  change (s.tabs ++ [s.freshTab path content])[i]? = s.tabs[i]?
  rcases Nat.lt_or_gt_of_ne h with hlt | hgt
  · exact List.getElem?_append_left hlt
  · rw [List.getElem?_eq_none (by rw [List.length_append, List.length_singleton]; omega),
      List.getElem?_eq_none (Nat.le_of_lt hgt)]

theorem State.tabAt_appendTab_self (s : State) (path content : String) :
    (s.appendTab path content).tabAt (some s.tabs.length) = some (s.freshTab path content) :=
  List.getElem?_concat_length

/-- The first row is the current one already: the editor stays as it is. -/
theorem State.newTab_of_nil {s : State} (h : s.Placed) (htabs : s.tabs = [])
    (path content : String) :
    s.newTab path content = s.appendTab path content := by
  obtain ⟨c, hc, hlt⟩ := h.current
  rw [htabs] at hlt
  obtain rfl : c = 0 := Nat.lt_one_iff.mp hlt
  exact State.setCurrentIndex_self (by rw [htabs]; exact hc)

/-- Any other row is shown. -/
theorem State.newTab_of_ne_nil {s : State} (h : s.Placed) (htabs : s.tabs ≠ [])
    (path content : String) :
    s.newTab path content =
      ((s.appendTab path content).flushEditorToModel s.loadedTabIndex).showing s.tabs.length
        (s.freshTab path content) := by
  obtain ⟨c, hc, hlt⟩ := h.current
  have hpos := List.length_pos_of_ne_nil htabs
  have hne : s.currentIndex ≠ some s.tabs.length := by
    rw [hc]
    exact fun heq => absurd (Option.some.inj heq) (by omega)
  exact State.setCurrentIndex_of_ne hne (h.loaded.ne hne) (s.tabAt_appendTab_self path content)

/-! ## The dialog -/

/-- What is open: only closing opens or closes anything. -/
def State.mode (s : State) : Phase × Bool := (s.phase, s.unsavedDialog)

/-- What only closing and saving change. -/
def State.outside (s : State) : (Phase × Bool) × Disk := (s.mode, s.disk)

section Outside

variable (s : State)

@[simp] theorem State.outside_setTab (index : Option ℕ) (f : Tab → Tab) :
    (s.setTab index f).outside = s.outside :=
  rfl

@[simp] theorem State.outside_load : s.loadEditorFromCurrent.outside = s.outside := by
  unfold State.loadEditorFromCurrent
  split <;> rfl

@[simp] theorem State.outside_setCurrentIndex (index : Option ℕ) :
    (s.setCurrentIndex index).outside = s.outside := by
  unfold State.setCurrentIndex State.onCurrentIndexChanged
  split_ifs
  · rfl
  · rfl
  · rw [State.outside_load]
    rfl

@[simp] theorem State.outside_newTab (path content : String) :
    (s.newTab path content).outside = s.outside :=
  State.outside_setCurrentIndex ..

@[simp] theorem State.outside_removeTabImmediately (index : ℕ) (selected : Option ℕ) :
    (s.removeTabImmediately index selected).outside = s.outside := by
  unfold State.removeTabImmediately
  split
  · rfl
  · have herased := State.outside_setCurrentIndex { s with tabs := s.tabs.eraseIdx index } selected
    dsimp only
    split
    · exact (State.outside_newTab ..).trans herased
    · exact (State.outside_setCurrentIndex ..).trans herased

@[simp] theorem State.outside_openPath (path : String) (result : ReadResult) :
    (s.openPath path result).outside = s.outside := by
  unfold State.openPath
  split
  · split
    · split <;> simp
    · simp
  · rfl
  · rfl

@[simp] theorem State.outside_edit (text : String) : (s.edit text).outside = s.outside := by
  unfold State.edit State.markModified
  split
  · rfl
  · dsimp only
    split <;> rfl

@[simp] theorem State.mode_saveCurrent (faults : WriteFaults) :
    (s.saveCurrent faults).mode = s.mode := by
  unfold State.saveCurrent
  split
  · rfl
  · dsimp only
    split <;> rfl

@[simp] theorem State.mode_saveCurrentAs (path : String) (faults : WriteFaults) :
    (s.saveCurrentAs path faults).mode = s.mode := by
  unfold State.saveCurrentAs
  dsimp only
  split <;> rfl

variable {s}

theorem State.mode_of_outside {s' : State} (h : s'.outside = s.outside) : s'.mode = s.mode :=
  (Prod.mk.inj h).1

theorem State.disk_of_outside {s' : State} (h : s'.outside = s.outside) : s'.disk = s.disk :=
  (Prod.mk.inj h).2

end Outside

/-- An open dialog asks about the current tab. -/
structure State.Asking (s : State) : Prop where
  starting : s.phase = .starting → s.unsavedDialog = false
  pending : s.unsavedDialog = true →
    ∃ i, s.pendingCloseIndex = some i ∧ s.currentIndex = some i ∧ i < s.tabs.length

section Asking

variable {s : State}

/-- No dialog is open. -/
theorem State.Asking.of_closed {s' : State} (h : s'.unsavedDialog = false) : s'.Asking :=
  ⟨fun _ => h, fun hopen => nomatch h.symm.trans hopen⟩

theorem State.Asking.of_mode {s' : State} (hmode : s'.mode = s.mode) (h : s.unsavedDialog = false) :
    s'.Asking :=
  .of_closed ((Prod.mk.inj hmode).2.trans h)

theorem State.Asking.of_outside {s' : State} (houtside : s'.outside = s.outside)
    (h : s.unsavedDialog = false) : s'.Asking :=
  .of_mode (State.mode_of_outside houtside) h

theorem saveCurrent_frame (faults : WriteFaults) :
    (s.saveCurrent faults).pendingCloseIndex = s.pendingCloseIndex ∧
      (s.saveCurrent faults).currentIndex = s.currentIndex ∧
        (s.saveCurrent faults).loadedTabIndex = s.loadedTabIndex ∧
          (s.saveCurrent faults).tabs.length = s.tabs.length := by
  unfold State.saveCurrent
  split
  · exact ⟨rfl, rfl, rfl, rfl⟩
  · dsimp only
    split
    · exact ⟨rfl, rfl, rfl, State.length_setTab ..⟩
    · exact ⟨rfl, rfl, rfl, rfl⟩

theorem asking_closeTab (hphase : s.phase ≠ .starting) (h : s.unsavedDialog = false)
    (index : ℕ) (selected : Option ℕ) : (s.closeTab index selected).Asking := by
  unfold State.closeTab
  split
  · exact .of_closed h
  · next hlt =>
      have hset := State.outside_setCurrentIndex s (some index)
      dsimp only
      split
      · exact .of_outside hset h
      · split
        · refine ⟨fun hstarting => ?_, fun _ =>
            ⟨index, rfl, State.currentIndex_setCurrentIndex .., ?_⟩⟩
          · exact absurd ((Prod.mk.inj (State.mode_of_outside hset)).1.symm.trans hstarting) hphase
          · exact (State.length_setCurrentIndex ..).symm ▸ Nat.lt_of_not_le hlt
        · exact .of_outside ((State.outside_removeTabImmediately ..).trans hset) h

theorem asking_onClosing (h : s.Asking) (hphase : s.phase ≠ .starting) : s.onClosing.Asking := by
  unfold State.onClosing
  dsimp only
  split
  · next i hi =>
      have hset := State.outside_setCurrentIndex (s.flushEditorToModel s.loadedTabIndex) (some i)
      refine ⟨fun hstarting => ?_, fun _ => ⟨i, rfl, State.currentIndex_setCurrentIndex .., ?_⟩⟩
      · exact absurd ((Prod.mk.inj (State.mode_of_outside hset)).1.symm.trans hstarting) hphase
      · obtain ⟨hlt, -⟩ := List.findIdx?_eq_some_iff_getElem.mp hi
        exact (State.length_setCurrentIndex ..).symm ▸ hlt
  · refine ⟨nofun, fun hopen => ?_⟩
    obtain ⟨i, hpending, hcurrent, hlt⟩ := h.pending hopen
    exact ⟨i, hpending, hcurrent, (s.length_flush s.loadedTabIndex).symm ▸ hlt⟩

theorem asking_saveCurrent (h : s.Asking) (faults : WriteFaults) :
    (s.saveCurrent faults).Asking := by
  obtain ⟨hphase, hdialog⟩ := Prod.mk.inj (State.mode_saveCurrent s faults)
  obtain ⟨hpending, hcurrent, -, hlength⟩ := saveCurrent_frame (s := s) faults
  refine ⟨fun hstarting => hdialog.trans (h.starting (hphase.symm.trans hstarting)),
    fun hopen => ?_⟩
  rw [hpending, hcurrent, hlength]
  exact h.pending (hdialog.symm.trans hopen)

theorem asking_handle (h : s.Asking) {e : Event} (haccepts : s.Accepts e) :
    (s.handle e).Asking := by
  have hrunning : s.phase = .running → s.phase ≠ .starting :=
    fun hphase heq => nomatch hphase.symm.trans heq
  cases e with
  | completed initialFile =>
      have hclosed := h.starting haccepts
      rcases initialFile with _ | ⟨path, result⟩
      · exact .of_outside (s := { s with phase := .running }) (State.outside_newTab ..) hclosed
      · exact .of_outside (s := { s with phase := .running }) (State.outside_openPath ..) hclosed
  | edit text => exact .of_outside (State.outside_edit ..) haccepts.2.1
  | selectTab index => exact .of_outside (State.outside_setCurrentIndex ..) haccepts.2.1
  | newTab => exact .of_outside (State.outside_newTab ..) haccepts.2
  | openPath path result => exact .of_outside (State.outside_openPath ..) haccepts.2
  | saveCurrent faults => exact asking_saveCurrent h faults
  | saveCurrentAs path faults => exact .of_mode (State.mode_saveCurrentAs ..) haccepts.2
  | autoSave faults =>
      simp only [State.handle, State.autoSave]
      split
      · exact asking_saveCurrent h faults
      · exact h
  | setAutoSave checked => exact .of_closed haccepts.2.1
  | closeTab index selected => exact asking_closeTab (hrunning haccepts.1) haccepts.2 index selected
  | cancelClose => exact .of_closed rfl
  | discard selected =>
      simp only [State.handle, State.discard]
      split
      · exact .of_closed rfl
      · exact .of_outside (s := s.cancelClose) (State.outside_removeTabImmediately ..) rfl
  | saveThenClose faults selected =>
      simp only [State.handle, State.saveThenClose]
      split
      · exact .of_closed rfl
      · split
        · exact .of_closed rfl
        · exact .of_outside (s := { s.saveCurrent faults with unsavedDialog := false })
            (State.outside_removeTabImmediately ..) rfl
  | close => exact asking_onClosing h (hrunning haccepts)

theorem asking_of_reachable {ok : State → Event → Prop} (h : system.ReachableWhere ok s) :
    s.Asking := by
  refine h.invariant ?_ fun s e s' _ hs _ hstep => ?_
  · rintro _ ⟨disk, rfl⟩
    exact .of_closed rfl
  · obtain ⟨haccepts, rfl⟩ := step_eq_some hstep
    exact asking_handle hs haccepts

end Asking

/-! ## Texts that stay -/

/-- The editor gives every text back as it is. -/
structure State.Plain (s : State) : Prop where
  editor : toPlainText s.editor = s.editor
  rows : ∀ t ∈ s.tabs, toPlainText t.savedContent = t.savedContent

/-- A file that is opened holds a text that the editor gives back as it is. -/
def OpensPlain : Event → Prop
  | .completed (some (_, .success content)) | .openPath _ (.success content) =>
      toPlainText content = content
  | _ => True

theorem opensPlain_of_texts {e : Event}
    (hinitial : ∀ path content, e = .completed (some (path, .success content)) →
      toPlainText content = content)
    (hopen : ∀ path content, e = .openPath path (.success content) →
      toPlainText content = content) : OpensPlain e := by
  cases e with
  | completed initialFile =>
      rcases initialFile with _ | ⟨path, result⟩
      · trivial
      · cases result with
        | success content => exact hinitial path content rfl
        | tooLarge => trivial
        | failure => trivial
  | openPath path result =>
      cases result with
      | success content => exact hopen path content rfl
      | tooLarge => trivial
      | failure => trivial
  | _ => trivial

section Plain

variable {s : State}

theorem State.Plain.row (h : s.Plain) {index : Option ℕ} {t : Tab} (ht : s.tabAt index = some t) :
    toPlainText t.savedContent = t.savedContent := by
  obtain ⟨i, -, hi⟩ := Option.bind_eq_some_iff.mp ht
  exact h.rows t (List.mem_of_getElem? hi)

/-- A row is set to a text that stays. -/
theorem State.Plain.setTab (h : s.Plain) {s' : State} (index : Option ℕ) {f : Tab → Tab}
    (htabs : s'.tabs = (s.setTab index f).tabs) (heditor : s'.editor = s.editor)
    (hf : ∀ t, toPlainText t.savedContent = t.savedContent →
      toPlainText (f t).savedContent = (f t).savedContent) : s'.Plain := by
  refine ⟨by rw [heditor, h.editor], fun t ht => ?_⟩
  rw [htabs] at ht
  cases index with
  | none => exact h.rows t ht
  | some i =>
      obtain ⟨j, hj⟩ := List.mem_iff_getElem?.mp ht
      have hrow : (s.tabs.modify i f)[j]? = some t := hj
      rw [List.getElem?_modify] at hrow
      obtain ⟨old, hold, rfl⟩ := Option.map_eq_some_iff.mp hrow
      have hplain := h.rows old (List.mem_of_getElem? hold)
      split
      · exact hf old hplain
      · exact hplain

theorem State.Plain.flush (h : s.Plain) (index : Option ℕ) : (s.flushEditorToModel index).Plain :=
  h.setTab index rfl rfl fun _ _ => h.editor

theorem State.Plain.load (h : s.Plain) : s.loadEditorFromCurrent.Plain := by
  unfold State.loadEditorFromCurrent
  split
  · exact h
  · next t ht =>
      refine ⟨?_, h.rows⟩
      dsimp only
      rw [h.row ht, h.row ht]

theorem State.Plain.setCurrentIndex (h : s.Plain) (index : Option ℕ) :
    (s.setCurrentIndex index).Plain := by
  have hmoved : State.Plain { s with currentIndex := index } := ⟨h.editor, h.rows⟩
  unfold State.setCurrentIndex State.onCurrentIndexChanged
  split_ifs
  · exact h
  · exact hmoved
  · exact (hmoved.flush _).load

theorem State.Plain.appendTab (h : s.Plain) (path : String) {content : String}
    (hcontent : toPlainText content = content) : (s.appendTab path content).Plain := by
  refine ⟨h.editor, fun t ht => ?_⟩
  rcases List.mem_append.mp ht with hold | hnew
  · exact h.rows t hold
  · rw [List.mem_singleton.mp hnew]
    exact hcontent

theorem State.Plain.newTab (h : s.Plain) (path : String) {content : String}
    (hcontent : toPlainText content = content) : (s.newTab path content).Plain :=
  (h.appendTab path hcontent).setCurrentIndex _

theorem State.Plain.eraseIdx (h : s.Plain) (index : ℕ) :
    State.Plain { s with tabs := s.tabs.eraseIdx index } :=
  ⟨h.editor, fun t ht => h.rows t (List.mem_of_mem_eraseIdx ht)⟩

theorem State.Plain.removeTabImmediately (h : s.Plain) (index : ℕ) (selected : Option ℕ) :
    (s.removeTabImmediately index selected).Plain := by
  have herased := (h.eraseIdx index).setCurrentIndex selected
  unfold State.removeTabImmediately
  split
  · exact h
  · dsimp only
    split
    · have hnew := State.Plain.newTab (s := { State.setCurrentIndex
        { s with tabs := s.tabs.eraseIdx index } selected with loadedTabIndex := none })
        ⟨herased.editor, herased.rows⟩ "" (by rfl : toPlainText "" = "")
      exact ⟨hnew.editor, hnew.rows⟩
    · have hset := State.Plain.setCurrentIndex (s := { State.setCurrentIndex
        { s with tabs := s.tabs.eraseIdx index } selected with loadedTabIndex := none })
        ⟨herased.editor, herased.rows⟩ (some (min index ((State.setCurrentIndex
          { s with tabs := s.tabs.eraseIdx index } selected).tabs.length - 1)))
      exact ⟨hset.editor, hset.rows⟩

theorem State.Plain.closeTab (h : s.Plain) (index : ℕ) (selected : Option ℕ) :
    (s.closeTab index selected).Plain := by
  have hset := h.setCurrentIndex (some index)
  unfold State.closeTab
  split
  · exact h
  · dsimp only
    split
    · exact hset
    · split
      · exact ⟨hset.editor, hset.rows⟩
      · exact hset.removeTabImmediately index selected

theorem State.Plain.openPath (h : s.Plain) (path : String) {result : ReadResult}
    (hresult : ∀ content, result = .success content → toPlainText content = content) :
    (s.openPath path result).Plain := by
  cases result with
  | tooLarge => exact h
  | failure => exact h
  | success content =>
      have hcontent := hresult content rfl
      simp only [State.openPath]
      split
      · split
        · have hset : (s.setTab s.currentIndex (Tab.opened path content)).Plain :=
            h.setTab s.currentIndex rfl rfl fun _ _ => hcontent
          exact hset.load
        · exact h.newTab path hcontent
      · exact h.newTab path hcontent

theorem State.Plain.saveCurrent (h : s.Plain) (faults : WriteFaults) :
    (s.saveCurrent faults).Plain := by
  unfold State.saveCurrent
  split
  · exact h
  · next path text hwritten =>
      unfold State.written at hwritten
      split at hwritten
      · cases hwritten
      · obtain ⟨rfl, rfl⟩ := Prod.mk.inj (Option.some.inj hwritten)
        dsimp only
        split
        · exact h.setTab s.currentIndex rfl rfl fun _ _ => h.editor
        · exact ⟨h.editor, h.rows⟩

theorem State.Plain.saveCurrentAs (h : s.Plain) (path : String) (faults : WriteFaults) :
    (s.saveCurrentAs path faults).Plain := by
  unfold State.saveCurrentAs
  dsimp only
  split
  · exact h.setTab s.currentIndex rfl rfl fun _ _ => h.editor
  · exact ⟨h.editor, h.rows⟩

theorem State.Plain.edit (h : s.Plain) {text : String} (htext : toPlainText text = text) :
    (s.edit text).Plain := by
  have hedited : State.Plain { s with editor := text } := ⟨htext, h.rows⟩
  unfold State.edit State.markModified
  split
  · exact h
  · dsimp only
    split
    · exact hedited.setTab s.currentIndex rfl rfl fun _ => id
    · exact hedited

theorem State.Plain.onClosing (h : s.Plain) : s.onClosing.Plain := by
  have hflush := h.flush s.loadedTabIndex
  unfold State.onClosing
  dsimp only
  split
  · next i _ =>
      have hset := hflush.setCurrentIndex (some i)
      exact ⟨hset.editor, hset.rows⟩
  · exact ⟨hflush.editor, hflush.rows⟩

/-- What a step preserves. -/
theorem plain_handle (h : s.Plain) {e : Event} (haccepts : s.Accepts e) (hopens : OpensPlain e) :
    (s.handle e).Plain := by
  cases e with
  | completed initialFile =>
      have hrunning : State.Plain { s with phase := .running } := ⟨h.editor, h.rows⟩
      rcases initialFile with _ | ⟨path, result⟩
      · exact hrunning.newTab "" rfl
      · refine hrunning.openPath path fun content hresult => ?_
        subst hresult
        exact hopens
  | edit text => exact h.edit haccepts.2.2
  | selectTab index => exact h.setCurrentIndex (some index)
  | newTab => exact h.newTab "" rfl
  | openPath path result =>
      refine h.openPath path fun content hresult => ?_
      subst hresult
      exact hopens
  | saveCurrent faults => exact h.saveCurrent faults
  | saveCurrentAs path faults => exact h.saveCurrentAs path faults
  | autoSave faults =>
      simp only [State.handle, State.autoSave]
      split
      · exact h.saveCurrent faults
      · exact h
  | setAutoSave checked => exact h.setTab s.currentIndex rfl rfl fun _ => id
  | closeTab index selected => exact h.closeTab index selected
  | cancelClose => exact ⟨h.editor, h.rows⟩
  | discard selected =>
      simp only [State.handle, State.discard]
      split
      · exact ⟨h.editor, h.rows⟩
      · exact State.Plain.removeTabImmediately (s := s.cancelClose) ⟨h.editor, h.rows⟩ _ selected
  | saveThenClose faults selected =>
      have hsaved := h.saveCurrent faults
      simp only [State.handle, State.saveThenClose]
      split
      · exact ⟨h.editor, h.rows⟩
      · split
        · exact ⟨hsaved.editor, hsaved.rows⟩
        · exact State.Plain.removeTabImmediately
            (s := { s.saveCurrent faults with unsavedDialog := false })
            ⟨hsaved.editor, hsaved.rows⟩ _ selected
  | close => exact h.onClosing

/-- All texts stay in every run that opens only such files. -/
theorem plain_of_reachable {ok : State → Event → Prop} (hok : ∀ s e, ok s e → OpensPlain e)
    (h : system.ReachableWhere ok s) : s.Plain := by
  refine h.invariant ?_ fun s e s' _ hs hokay hstep => ?_
  · rintro _ ⟨disk, rfl⟩
    exact ⟨rfl, by simp [State.initial]⟩
  · obtain ⟨haccepts, rfl⟩ := step_eq_some hstep
    exact plain_handle hs haccepts (hok s e hokay)

end Plain

end NiraOS.Notepad
