import NiraOS.Notepad.Modified
import Mathlib.Data.List.InsertIdx

/-!
# A modified tab is closed on purpose

A tab that is marked as modified should go, by closing it or by quitting, only after the user
has chosen to discard it, or after its text was written to its file (`Deliberate`).  When a
write fails or a dialog is cancelled everything should stay as it is (`StaysOpen`).

`removed` says which row an event takes away; all other rows stay, under the ids they have.
The window is careful unless the write fails that a tab is closed after, or a quit flushes the
mark of the last modified tab away (`Careful`).
-/

namespace NiraOS.Notepad

/-! ## What closing should be -/

/-- The tab is no longer there: it was closed, or the window was. -/
def State.Gone (s : State) (id : ℕ) : Prop := s.phase = .closed ∨ ∀ t ∈ s.tabs, t.id ≠ id

/-- The user has answered the dialog about the tab: discard, or save, and that succeeded. -/
def Answered (s : State) (e : Event) (index : ℕ) (t : Tab) : Prop :=
  match e with
  | .discard _ => s.pendingCloseIndex = some index ∧ s.currentIndex = some index
  | .saveThenClose faults _ =>
      s.pendingCloseIndex = some index ∧
        (writeFile faults s.disk t.filePath (s.textAt index t)).1 = true ∧
          s.docPath = t.filePath ∧ s.editor = s.textAt index t
  | _ => False

/-- No modified tab goes by accident. -/
def Deliberate (s : State) (e : Event) (s' : State) : Prop :=
  ∀ index t, s.tabAt (some index) = some t → t.modified = true → s'.Gone t.id → Answered s e index t

/-- The tabs, with their texts and marks, and the window itself. -/
structure State.Stays (s s' : State) : Prop where
  tabs : s'.tabs = s.tabs
  editor : s'.editor = s.editor
  current : s'.currentIndex = s.currentIndex
  phase : s'.phase = s.phase

/-- Nothing is closed when a write fails or the dialog is cancelled. -/
def StaysOpen (s : State) (e : Event) (s' : State) : Prop :=
  match e with
  | .cancelClose => s.Stays s'
  | .saveCurrent faults | .autoSave faults =>
      (writeFile faults s.disk s.docPath s.editor).1 = false → s.Stays s'
  | .saveCurrentAs path faults => (writeFile faults s.disk path s.editor).1 = false → s.Stays s'
  | .saveThenClose faults _ => (writeFile faults s.disk s.docPath s.editor).1 = false → s.Stays s'
  | _ => True

/-! ## The condition -/

/-- The write succeeds, to the path of the tab; or there is none, and the tab stays. -/
def State.SavesOwn (s : State) (faults : WriteFaults) : Prop :=
  faults.Harmless s.disk s.docPath ∧
    ∀ i, s.pendingCloseIndex = some i → ∀ t, s.tabAt (some i) = some t → t.modified = true →
      s.docPath = t.filePath

/-- If the flush takes the mark of the loaded tab, another modified tab keeps the window open. -/
def State.QuitsTruly (s : State) : Prop :=
  ∀ i, s.loadedTabIndex = some i → ∀ t, s.tabAt (some i) = some t → t.modified = true →
    s.editor = t.savedContent → ∃ j, j < s.tabs.length ∧ j ≠ i ∧
      ∃ t', s.tabAt (some j) = some t' ∧ t'.modified = true

def Careful (s : State) : Event → Prop
  | .saveThenClose faults _ => s.docPath = "" ∨ s.SavesOwn faults
  | .close => s.QuitsTruly
  | _ => True

/-! ## The rows -/

/-- The ids of the rows, and the next one. -/
def State.rows (s : State) : List ℕ × ℕ := (s.tabs.map Tab.id, s.nextId)

section Rows

variable (s : State)

theorem State.rows_setTab (index : Option ℕ) {f : Tab → Tab} (h : ∀ t, (f t).id = t.id) :
    (s.setTab index f).rows = s.rows := by
  refine Prod.ext (List.ext_getElem? fun j => ?_) rfl
  change ((s.setTab index f).tabs.map Tab.id)[j]? = (s.tabs.map Tab.id)[j]?
  rw [List.getElem?_map, List.getElem?_map]
  have hrow : (s.setTab index f).tabs[j]? = _ := s.tabAt_setTab index f j
  rw [hrow]
  change _ = (s.tabAt (some j)).map Tab.id
  split_ifs
  · cases s.tabAt (some j) with
    | none => rfl
    | some t => exact congrArg some (h t)
  · rfl

theorem State.rows_load : s.loadEditorFromCurrent.rows = s.rows := by
  unfold State.loadEditorFromCurrent
  split <;> rfl

theorem State.rows_setCurrentIndex (index : Option ℕ) :
    (s.setCurrentIndex index).rows = s.rows := by
  unfold State.setCurrentIndex State.onCurrentIndexChanged
  split_ifs
  · rfl
  · rfl
  · rw [State.rows_load]
    exact State.rows_setTab { s with currentIndex := index } s.loadedTabIndex fun _ => rfl

theorem State.rows_newTab (path content : String) :
    (s.newTab path content).rows = (s.rows.1 ++ [s.rows.2], s.rows.2 + 1) := by
  rw [State.newTab, State.rows_setCurrentIndex]
  exact Prod.ext (List.map_append ..) rfl

theorem State.rows_edit (text : String) : (s.edit text).rows = s.rows := by
  unfold State.edit State.markModified
  split
  · rfl
  · dsimp only
    split
    · exact State.rows_setTab { s with editor := text } s.currentIndex fun _ => rfl
    · rfl

theorem State.rows_saveCurrent (faults : WriteFaults) : (s.saveCurrent faults).rows = s.rows := by
  unfold State.saveCurrent
  split
  · rfl
  · dsimp only
    split
    · exact State.rows_setTab s s.currentIndex fun _ => rfl
    · rfl

theorem State.rows_saveCurrentAs (path : String) (faults : WriteFaults) :
    (s.saveCurrentAs path faults).rows = s.rows := by
  unfold State.saveCurrentAs
  dsimp only
  split
  · exact State.rows_setTab s s.currentIndex fun _ => rfl
  · rfl

end Rows

/-! ## Which row goes -/

/-- At most the row `removed` goes, and at most a new one comes. -/
def State.RowsGo (s : State) (removed : Option ℕ) (s' : State) : Prop :=
  s'.rows = (removed.elim s.rows.1 s.rows.1.eraseIdx, s.rows.2) ∨
    s'.rows = (removed.elim s.rows.1 s.rows.1.eraseIdx ++ [s.rows.2], s.rows.2 + 1)

/-- The rows that an event takes away. -/
def Removes (s : State) (e : Event) (index : ℕ) : Prop :=
  match e with
  | .closeTab i _ => i = index ∧ ∀ t, s.tabAt (some index) = some t → t.modified = false
  | .discard _ => s.pendingCloseIndex = some index
  | .saveThenClose .. => s.docPath ≠ "" ∧ s.pendingCloseIndex = some index
  | _ => False

section RowsGo

variable {s : State}

theorem rowsGo_removeTabImmediately (index : ℕ) (selected : Option ℕ) :
    s.RowsGo (some index) (s.removeTabImmediately index selected) := by
  unfold State.removeTabImmediately
  split
  · next htabs =>
      refine .inl (Prod.ext ?_ rfl)
      simp [State.rows, htabs]
  · have herased := State.rows_setCurrentIndex { s with tabs := s.tabs.eraseIdx index } selected
    have hrows : State.rows { s with tabs := s.tabs.eraseIdx index } =
        (s.rows.1.eraseIdx index, s.rows.2) :=
      Prod.ext (List.eraseIdx_map ..).symm rfl
    dsimp only
    split
    · refine .inr ((State.rows_newTab ..).trans ?_)
      rw [show State.rows { State.setCurrentIndex { s with
        tabs := s.tabs.eraseIdx index } selected with
        loadedTabIndex := none } = _ from herased.trans hrows]
      rfl
    · exact .inl ((State.rows_setCurrentIndex ..).trans (herased.trans hrows))

theorem rowsGo_openPath (path : String) (result : ReadResult) :
    s.RowsGo none (s.openPath path result) := by
  unfold State.openPath
  split
  · split
    · split
      · refine .inl ((State.rows_load _).trans ?_)
        exact s.rows_setTab s.currentIndex fun _ => rfl
      · exact .inr (s.rows_newTab ..)
    · exact .inr (s.rows_newTab ..)
  · exact .inl rfl
  · exact .inl rfl

/-- A tab that is closed without a question is not modified. -/
theorem rowsGo_closeTab (h : s.Placed) (index : ℕ) (selected : Option ℕ) :
    ∃ removed, s.RowsGo removed (s.closeTab index selected) ∧
      ∀ i, removed = some i → Removes s (.closeTab index selected) i := by
  unfold State.closeTab
  split
  · exact ⟨none, .inl rfl, nofun⟩
  · next hge =>
      have hrows := s.rows_setCurrentIndex (some index)
      dsimp only
      split
      · exact ⟨none, .inl hrows, nofun⟩
      · next t ht =>
          rw [State.tabAt_setCurrentIndex_self h.loaded (Nat.lt_of_not_le hge)] at ht
          split
          · exact ⟨none, .inl hrows, nofun⟩
          · next hmodified =>
              refine ⟨some index, ?_, fun i hi => ?_⟩
              · have hgo :=
                  rowsGo_removeTabImmediately (s := s.setCurrentIndex (some index)) index selected
                unfold State.RowsGo at hgo ⊢
                rwa [hrows] at hgo
              · obtain rfl := Option.some.inj hi
                refine ⟨rfl, fun t' ht' => ?_⟩
                obtain rfl := Option.some.inj (ht.symm.trans ht')
                exact Bool.eq_false_iff.mpr hmodified

/-- **Which row goes.**  Every other row stays. -/
theorem rowsGo_handle (h : s.Placed) (e : Event) :
    ∃ removed, s.RowsGo removed (s.handle e) ∧ ∀ i, removed = some i → Removes s e i := by
  cases e with
  | completed initialFile =>
      rcases initialFile with _ | ⟨path, result⟩
      · exact ⟨none, .inr (State.rows_newTab { s with phase := .running } ..), nofun⟩
      · exact ⟨none, rowsGo_openPath (s := { s with phase := .running }) path result, nofun⟩
  | edit text => exact ⟨none, .inl (s.rows_edit text), nofun⟩
  | selectTab index => exact ⟨none, .inl (s.rows_setCurrentIndex _), nofun⟩
  | newTab => exact ⟨none, .inr (s.rows_newTab "" ""), nofun⟩
  | openPath path result => exact ⟨none, rowsGo_openPath path result, nofun⟩
  | saveCurrent faults => exact ⟨none, .inl (s.rows_saveCurrent faults), nofun⟩
  | saveCurrentAs path faults => exact ⟨none, .inl (s.rows_saveCurrentAs path faults), nofun⟩
  | autoSave faults =>
      refine ⟨none, .inl ?_, nofun⟩
      simp only [State.handle, State.autoSave]
      split
      · exact s.rows_saveCurrent faults
      · rfl
  | setAutoSave checked => exact ⟨none, .inl (s.rows_setTab s.currentIndex fun _ => rfl), nofun⟩
  | closeTab index selected => exact rowsGo_closeTab h index selected
  | cancelClose => exact ⟨none, .inl rfl, nofun⟩
  | discard selected =>
      simp only [State.handle, State.discard]
      split
      · exact ⟨none, .inl rfl, nofun⟩
      · next i hi =>
          refine ⟨some i, rowsGo_removeTabImmediately (s := s.cancelClose) i selected,
            fun j hj => ?_⟩
          exact hi.trans hj
  | saveThenClose faults selected =>
      simp only [State.handle, State.saveThenClose]
      split
      · exact ⟨none, .inl rfl, nofun⟩
      · next hpath =>
          split
          · exact ⟨none, .inl (s.rows_saveCurrent faults), nofun⟩
          · next i hi =>
              refine ⟨some i, ?_, fun j hj => ⟨hpath, hi.trans hj⟩⟩
              have hgo := rowsGo_removeTabImmediately
                (s := { s.saveCurrent faults with unsavedDialog := false }) i selected
              have hrows : State.rows { s.saveCurrent faults with
                  unsavedDialog := false } = s.rows :=
                s.rows_saveCurrent faults
              unfold State.RowsGo at hgo ⊢
              rwa [hrows] at hgo
  | close =>
      refine ⟨none, .inl ?_, nofun⟩
      have hflush := s.rows_setTab s.loadedTabIndex
        (f := fun t => { t with
          savedContent := s.editor, modified := decide (s.editor ≠ t.savedContent) })
        fun _ => rfl
      simp only [State.handle, State.onClosing]
      split
      · exact (State.rows_setCurrentIndex ..).trans hflush
      · exact hflush

end RowsGo

/-! ## Rows are told apart -/

/-- No two rows have the same id, and a new one gets an id of its own. -/
def State.Distinct (s : State) : Prop := s.rows.1.Nodup ∧ ∀ id ∈ s.rows.1, id < s.rows.2

theorem State.Distinct.rowsGo {s s' : State} {removed : Option ℕ} (h : s.Distinct)
    (hgo : s.RowsGo removed s') : s'.Distinct := by
  have hsublist : (removed.elim s.rows.1 s.rows.1.eraseIdx).Sublist s.rows.1 := by
    cases removed with
    | none => exact List.Sublist.refl _
    | some i => exact List.eraseIdx_sublist ..
  have hnodup := h.1.sublist hsublist
  have hlt : ∀ id ∈ removed.elim s.rows.1 s.rows.1.eraseIdx, id < s.rows.2 := fun id hid =>
    h.2 id (hsublist.subset hid)
  unfold State.Distinct
  rcases hgo with heq | heq <;> rw [heq]
  · exact ⟨hnodup, hlt⟩
  · refine ⟨List.nodup_append.mpr ⟨hnodup, by simp, ?_⟩, fun id hid => ?_⟩
    · intro a ha b hb heq'
      rw [List.mem_singleton] at hb
      exact absurd (hlt a ha) (by omega)
    · rcases List.mem_append.mp hid with hmem | hmem
      · exact Nat.lt_succ_of_lt (hlt id hmem)
      · rw [List.mem_singleton.mp hmem]
        exact Nat.lt_succ_self _

theorem distinct_of_reachable {ok : State → Event → Prop} {s : State}
    (h : system.ReachableWhere ok s) :
    s.Distinct := by
  refine h.invariant ?_ fun s e s' hreach hs _ hstep => ?_
  · rintro _ ⟨disk, rfl⟩
    exact ⟨List.nodup_nil, nofun⟩
  · obtain ⟨-, rfl⟩ := step_eq_some hstep
    obtain ⟨removed, hgo, -⟩ := rowsGo_handle (placed_of_reachable hreach) e
    exact hs.rowsGo hgo

/-! ## No tab goes by accident -/

section Deliberate

variable {s : State}

/-- The row that is no longer there is the one that was taken away. -/
theorem State.RowsGo.removed {s' : State} {removed : Option ℕ} (hgo : s.RowsGo removed s') {i : ℕ}
    {t : Tab} (ht : s.tabAt (some i) = some t) (hgone : ∀ t' ∈ s'.tabs, t'.id ≠ t.id) :
    removed = some i := by
  by_contra hne
  have hid : s.rows.1[i]? = some t.id := by
    change (s.tabs.map Tab.id)[i]? = some t.id
    rw [List.getElem?_map]
    exact congrArg (Option.map Tab.id) ht
  have hkept : t.id ∈ removed.elim s.rows.1 s.rows.1.eraseIdx := by
    cases removed with
    | none => exact List.mem_of_getElem? hid
    | some j =>
        exact List.mem_eraseIdx_iff_getElem?.mpr ⟨i, fun heq => hne (congrArg some heq.symm), hid⟩
  have hmem : t.id ∈ s'.rows.1 := by
    rcases hgo with heq | heq <;> rw [heq]
    · exact hkept
    · exact List.mem_append_left _ hkept
  obtain ⟨t', ht', heq⟩ := List.mem_map.mp hmem
  exact hgone t' ht' heq

/-- Only the close button closes the window. -/
theorem phase_handle {e : Event} (haccepts : s.Accepts e) (he : e ≠ .close) :
    (s.handle e).phase = .running := by
  have hphase : ∀ {s' s'' : State}, s'.mode = s''.mode → s''.phase = .running →
      s'.phase = .running :=
    fun hmode hrunning => (Prod.mk.inj hmode).1.trans hrunning
  cases e with
  | completed initialFile =>
      rcases initialFile with _ | ⟨path, result⟩
      · exact hphase (State.mode_of_outside
          (State.outside_newTab { s with phase := .running } "" "")) rfl
      · exact hphase
          (State.mode_of_outside (State.outside_openPath { s with
            phase := .running } path result)) rfl
  | edit text => exact hphase (State.mode_of_outside (s.outside_edit text)) haccepts.1
  | selectTab index => exact hphase (State.mode_of_outside (s.outside_setCurrentIndex _)) haccepts.1
  | newTab => exact hphase (State.mode_of_outside (s.outside_newTab "" "")) haccepts.1
  | openPath path result =>
      exact hphase (State.mode_of_outside (s.outside_openPath path result)) haccepts.1
  | saveCurrent faults => exact hphase (s.mode_saveCurrent faults) haccepts.1
  | saveCurrentAs path faults => exact hphase (s.mode_saveCurrentAs path faults) haccepts.1
  | autoSave faults =>
      simp only [State.handle, State.autoSave]
      split
      · exact hphase (s.mode_saveCurrent faults) haccepts
      · exact haccepts
  | setAutoSave checked => exact haccepts.1
  | closeTab index selected =>
      have hset :=
        hphase (State.mode_of_outside (s.outside_setCurrentIndex (some index))) haccepts.1
      simp only [State.handle, State.closeTab]
      split
      · exact haccepts.1
      · split
        · exact hset
        · split
          · exact hset
          · exact hphase (State.mode_of_outside (State.outside_removeTabImmediately ..)) hset
  | cancelClose => exact haccepts.1
  | discard selected =>
      simp only [State.handle, State.discard]
      split
      · exact haccepts.1
      · next i _ =>
          exact hphase (State.mode_of_outside
            (s.cancelClose.outside_removeTabImmediately i selected))
            haccepts.1
  | saveThenClose faults selected =>
      have hsaved : (s.saveCurrent faults).phase = .running :=
        hphase (s.mode_saveCurrent faults) haccepts.1
      simp only [State.handle, State.saveThenClose]
      split
      · exact haccepts.1
      · split
        · exact hsaved
        · exact hphase (State.mode_of_outside (State.outside_removeTabImmediately ..)) hsaved
  | close => exact absurd rfl he

/-- The window closes when no row is marked after the flush. -/
theorem unmarked_of_onClosing (hrunning : s.phase = .running) (h : s.onClosing.phase = .closed) :
    ∀ i t, (s.flushEditorToModel s.loadedTabIndex).tabAt (some i) = some t →
      t.modified = false := by
  unfold State.onClosing at h
  dsimp only at h
  split at h
  · next i _ =>
      have hset := State.mode_of_outside
        (State.outside_setCurrentIndex (s.flushEditorToModel s.loadedTabIndex) (some i))
      have hphase : s.phase = .closed := (Prod.mk.inj hset).1.symm.trans h
      nomatch hphase.symm.trans hrunning
  · next hnone =>
      intro i t ht
      exact List.findIdx?_eq_none_iff.mp hnone t (List.mem_of_getElem? ht)

theorem marked_of_quitsTruly (h : s.QuitsTruly) {i : ℕ} {t : Tab} (ht : s.tabAt (some i) = some t)
    (hmodified : t.modified = true) :
    ∃ j t', (s.flushEditorToModel s.loadedTabIndex).tabAt (some j) = some t' ∧
      t'.modified = true := by
  by_cases hloaded : s.loadedTabIndex = some i
  · by_cases hsame : s.editor = t.savedContent
    · obtain ⟨j, -, hji, t', ht', hmodified'⟩ := h i hloaded t ht hmodified hsame
      refine ⟨j, t', ?_, hmodified'⟩
      rw [State.tabAt_flush, if_neg, ht']
      exact fun heq => hji (Option.some.inj (heq.symm.trans hloaded))
    · have hflushed : (s.flushEditorToModel s.loadedTabIndex).tabAt (some i) =
          some { t with
            savedContent := s.editor, modified := decide (s.editor ≠ t.savedContent) } := by
        rw [State.tabAt_flush, if_pos hloaded, ht]
        rfl
      exact ⟨i, _, hflushed, decide_eq_true hsame⟩
  · refine ⟨i, t, ?_, hmodified⟩
    rw [State.tabAt_flush, if_neg hloaded, ht]

/-- What a careful step takes away. -/
theorem deliberate_handle (hplaced : s.Placed) (hasking : s.Asking) {e : Event}
    (haccepts : s.Accepts e)
    (hcareful : Careful s e) : Deliberate s e (s.handle e) := by
  intro i t ht hmodified hgone
  obtain ⟨removed, hgo, hremoves⟩ := rowsGo_handle hplaced e
  rcases hgone with hclosed | hrows
  · by_cases he : e = .close
    · subst he
      obtain ⟨j, t', ht', hmodified'⟩ := marked_of_quitsTruly hcareful ht hmodified
      have hunmarked := unmarked_of_onClosing haccepts hclosed j t' ht'
      nomatch hmodified'.symm.trans hunmarked
    · nomatch hclosed.symm.trans (phase_handle haccepts he)
  · have hremoved := hremoves i (hgo.removed ht hrows)
    cases e with
    | closeTab index selected => nomatch (hremoved.2 t ht).symm.trans hmodified
    | discard selected =>
        obtain ⟨c, hpending, hcurrent, -⟩ := hasking.pending haccepts.2
        refine ⟨hremoved, ?_⟩
        rw [hcurrent, ← hpending]
        exact hremoved
    | saveThenClose faults selected =>
        obtain ⟨hpath, hpending⟩ := hremoved
        obtain ⟨c, hpending', hcurrent, -⟩ := hasking.pending haccepts.2
        obtain ⟨hharmless, hown⟩ := hcareful.resolve_left hpath
        have htext : s.editor = s.textAt i t := by
          rw [State.textAt, hcurrent, ← hpending', if_pos hpending]
        have hsame := hown i hpending t ht hmodified
        refine ⟨hpending, ?_, hsame, htext⟩
        rw [writeFile_success, ← hsame]
        exact hharmless
    | completed initialFile => rcases initialFile with _ | ⟨path, result⟩ <;> exact hremoved.elim
    | edit text => exact hremoved.elim
    | selectTab index => exact hremoved.elim
    | newTab => exact hremoved.elim
    | openPath path result => exact hremoved.elim
    | saveCurrent faults => exact hremoved.elim
    | saveCurrentAs path faults => exact hremoved.elim
    | autoSave faults => exact hremoved.elim
    | setAutoSave checked => exact hremoved.elim
    | cancelClose => exact hremoved.elim
    | close => exact hremoved.elim

end Deliberate

/-! ## Failed writes -/

section StaysOpen

variable {s : State}

theorem State.Stays.refl (s : State) : s.Stays s := ⟨rfl, rfl, rfl, rfl⟩

theorem stays_saveCurrent {faults : WriteFaults}
    (h : (writeFile faults s.disk s.docPath s.editor).1 = false) :
    s.Stays (s.saveCurrent faults) := by
  unfold State.saveCurrent
  split
  · exact .refl s
  · next path text hwritten =>
      unfold State.written at hwritten
      split at hwritten
      · nomatch hwritten
      · obtain ⟨rfl, rfl⟩ := Prod.mk.inj (Option.some.inj hwritten)
        dsimp only
        rw [h, if_neg Bool.false_ne_true]
        exact ⟨rfl, rfl, rfl, rfl⟩

theorem stays_saveCurrentAs {path : String} {faults : WriteFaults}
    (h : (writeFile faults s.disk path s.editor).1 = false) :
    s.Stays (s.saveCurrentAs path faults) := by
  unfold State.saveCurrentAs
  dsimp only
  rw [h, if_neg Bool.false_ne_true]
  exact ⟨rfl, rfl, rfl, rfl⟩

theorem staysOpen_handle {e : Event} (hcareful : Careful s e) : StaysOpen s e (s.handle e) := by
  cases e with
  | saveCurrent faults => exact stays_saveCurrent
  | saveCurrentAs path faults => exact stays_saveCurrentAs
  | autoSave faults =>
      intro h
      simp only [State.handle, State.autoSave]
      split
      · exact stays_saveCurrent h
      · exact .refl s
  | cancelClose => exact ⟨rfl, rfl, rfl, rfl⟩
  | saveThenClose faults selected =>
      intro h
      simp only [State.handle, State.saveThenClose]
      split
      · exact ⟨rfl, rfl, rfl, rfl⟩
      · next hpath =>
          have hsuccess := (writeFile_success faults s.disk s.docPath s.editor).mpr
            (hcareful.resolve_left hpath).1
          cases h.symm.trans hsuccess
  | completed initialFile => exact trivial
  | edit text => exact trivial
  | selectTab index => exact trivial
  | newTab => exact trivial
  | openPath path result => exact trivial
  | setAutoSave checked => exact trivial
  | closeTab index selected => exact trivial
  | discard selected => exact trivial
  | close => exact trivial

end StaysOpen

/-! ## Runs -/

/-- **A modified tab is closed on purpose** in every run of careful steps: it goes only after the
user has answered the dialog about it, and stays when a write fails or the dialog is cancelled. -/
theorem closed_deliberately {s : State} (h : system.ReachableWhere Careful s) :
    s.Distinct ∧
      ∀ e s', Careful s e → system.step s e = some s' → Deliberate s e s' ∧ StaysOpen s e s' := by
  refine ⟨distinct_of_reachable h, fun e s' hcareful hstep => ?_⟩
  obtain ⟨haccepts, rfl⟩ := step_eq_some hstep
  have hdeliberate :=
    deliberate_handle (placed_of_reachable h) (asking_of_reachable h) haccepts hcareful
  exact ⟨hdeliberate, staysOpen_handle hcareful⟩

instance (faults : WriteFaults) (disk : Disk) (path : String) :
    Decidable (faults.Harmless disk path) :=
  inferInstanceAs (Decidable (_ ∧ _ ∧ _ ∧ (_ → _) ∧ _))

instance (s : State) (faults : WriteFaults) : Decidable (s.SavesOwn faults) :=
  inferInstanceAs (Decidable (faults.Harmless s.disk s.docPath ∧
    ∀ i ∈ s.pendingCloseIndex, ∀ t ∈ s.tabAt (some i), t.modified = true → s.docPath = t.filePath))

instance (s : State) : Decidable s.QuitsTruly :=
  inferInstanceAs (Decidable (∀ i ∈ s.loadedTabIndex, ∀ t ∈ s.tabAt (some i), t.modified = true →
    s.editor = t.savedContent → ∃ j, j < s.tabs.length ∧ j ≠ i ∧
      ∃ t' ∈ s.tabAt (some j), t'.modified = true))

instance (s : State) : (e : Event) → Decidable (Careful s e)
  | .saveThenClose faults _ => inferInstanceAs (Decidable (s.docPath = "" ∨ s.SavesOwn faults))
  | .close => inferInstanceAs (Decidable s.QuitsTruly)
  | .completed _ | .edit _ | .selectTab _ | .newTab | .openPath .. | .saveCurrent _
    | .saveCurrentAs ..
  | .autoSave _ | .setAutoSave _ | .closeTab .. | .cancelClose | .discard _ => isTrue trivial

/-- One of two modified files is saved on closing; a quit then asks about the other one. -/
theorem closed_deliberately_saving :
    ∃ s, system.ReachableWhere Careful s ∧
      (s.Distinct ∧
        ∀ e s', Careful s e → system.step s e = some s' → Deliberate s e s' ∧ StaysOpen s e s') ∧
      s.tabs.map (fun t => (t.filePath, t.modified)) = [("/a", true)] ∧ s.unsavedDialog = true ∧
      s.disk "/b" = some "b" := by
  have hrun : (system.runWhere Careful (.initial fun _ => none)
      [.completed none, .openPath "/a" (.success "A"), .openPath "/b" (.success "B"), .edit "b",
        .closeTab 1 none, .saveThenClose {} (some 0), .edit "a", .close]).map
      (fun s => (s.tabs.map (fun t => (t.filePath, t.modified)), s.unsavedDialog, s.disk "/b")) =
      some ([("/a", true)], true, some "b") := by
    decide +kernel
  obtain ⟨s, hs, hsummary⟩ := Option.map_eq_some_iff.mp hrun
  obtain ⟨htabs, hrest⟩ := Prod.mk.inj hsummary
  have hreach : system.ReachableWhere Careful s := .runWhere (.init ⟨_, rfl⟩) hs
  exact ⟨s, hreach, closed_deliberately hreach, htabs, Prod.mk.inj hrest⟩

/-- The write fails that a modified tab is closed after. -/
theorem not_closed_deliberately :
    ¬ ∀ s, system.Reachable s → ∀ e s', system.step s e = some s' →
      Deliberate s e s' ∧ StaysOpen s e s' := by
  intro h
  have hrun : (system.run (.initial fun _ => none)
      [.completed none, .openPath "/a" (.success "A"), .edit "x", .closeTab 0 none]).map
      (fun s => (s.tabs,
        (system.step s (.saveThenClose { write := true } none)).map fun s' => s'.tabs.map Tab.id)) =
      some ([⟨0, "/a", "A", true, true, "A"⟩], some [1]) := by
    decide +kernel
  obtain ⟨s, hs, hsummary⟩ := Option.map_eq_some_iff.mp hrun
  obtain ⟨htabs, hclose⟩ := Prod.mk.inj hsummary
  obtain ⟨s', hstep, hids⟩ := Option.map_eq_some_iff.mp hclose
  have hrow : s.tabAt (some 0) = some ⟨0, "/a", "A", true, true, "A"⟩ := by
    rw [State.tabAt, htabs]
    rfl
  have hgone : ∀ t ∈ s'.tabs, t.id ≠ 0 := by
    intro t ht heq
    have hmem := List.mem_map_of_mem (f := Tab.id) ht
    rw [hids, heq] at hmem
    exact absurd hmem (by decide)
  have hanswered := (h s (.run (.init ⟨_, rfl⟩) hs) _ s' hstep).1 0 _ hrow rfl (.inr hgone)
  have hwrite := hanswered.2.1
  rw [writeFile_success] at hwrite
  exact absurd hwrite.2.2.1 (by decide)

end NiraOS.Notepad
