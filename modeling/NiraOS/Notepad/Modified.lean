import NiraOS.Notepad.Placement

/-!
# Unsaved text is marked

A tab whose text is not the one on disk should be marked as modified.  A flush marks a tab
when the editor differs from `savedContent`, and then makes `savedContent` the text of the
editor: a second flush finds no difference.  The same text is what an edit is compared with
once the tab is loaded again.

The editor shows a text that was loaded with other spaces and separators for some, and such a tab is
not marked either.

The marks are true as long as no flush finds a text in `savedContent` that is not on disk,
no edit goes back to such a text, and the editor gives what is loaded back as it is (`Truthful`).
-/

namespace NiraOS.Notepad

open TextDocument (toPlainText)

/-- The text of a tab: what the editor shows if it is the current one. -/
def State.textAt (s : State) (index : ℕ) (t : Tab) : String :=
  if s.currentIndex = some index then s.editor else t.savedContent

/-- Every tab whose text is not on disk is marked. -/
def State.Marked (s : State) : Prop :=
  ∀ index t, s.tabAt (some index) = some t → s.textAt index t ≠ t.onDisk → t.modified = true

/-! ## The condition -/

/-- A flush of the loaded tab does not find unsaved text in `savedContent`. -/
def State.FlushesTruly (s : State) : Prop :=
  ∀ t, s.tabAt s.loadedTabIndex = some t → s.editor = t.savedContent → t.savedContent = t.onDisk

/-- The editor, which stays as it is, agrees with the first row. -/
def State.Agrees (s : State) (path content : String) : Prop :=
  s.editor = content ∧ s.docSavedContent = content ∧ s.docModified = false ∧
    (s.docPath = "" ∨ s.docPath = path)

def State.OpensTruly (s : State) (path content : String) : Prop :=
  if s.tabs = [] then s.Agrees path content else s.FlushesTruly

/-- No flush and no edit hides unsaved text; and no tab is removed. -/
def Truthful (s : State) : Event → Prop
  | .completed none | .newTab => s.OpensTruly "" ""
  | .completed (some (path, .success content)) =>
      toPlainText content = content ∧ s.OpensTruly path content
  | .openPath path (.success content) =>
      toPlainText content = content ∧
        ((∃ t, s.currentTab = some t ∧ t.filePath = "" ∧ t.modified = false) ∨
          s.OpensTruly path content)
  | .edit text => ∀ t, s.currentTab = some t → text = s.docSavedContent → text = t.onDisk
  | .selectTab index => s.currentIndex ≠ some index → s.FlushesTruly
  | .closeTab index _ =>
      (index < s.tabs.length → s.currentIndex ≠ some index → s.FlushesTruly) ∧
        ∀ t, s.tabAt (some index) = some t → t.modified = true
  | .close =>
      s.FlushesTruly ∧ ∀ i,
        (s.flushEditorToModel s.loadedTabIndex).tabs.findIdx? Tab.modified = some i →
        s.currentIndex ≠ some i → (s.flushEditorToModel s.loadedTabIndex).FlushesTruly
  | .discard _ => False
  | .saveThenClose .. => s.docPath = ""
  | _ => True

/-! ## The invariant -/

/-- The marks of the rows and of the editor. -/
structure State.Sound (s : State) : Prop where
  others : ∀ i t, s.tabAt (some i) = some t → s.currentIndex ≠ some i → t.savedContent ≠ t.onDisk →
    t.modified = true
  shown : ∀ t, s.currentTab = some t → s.editor ≠ t.onDisk → t.modified = true
  /-- Nothing was flushed yet. -/
  unloaded : ∀ t, s.currentTab = some t → s.loadedTabIndex = none → t.savedContent = t.onDisk
  path : ∀ t, s.currentTab = some t → s.docPath = "" ∨ s.docPath = t.filePath

/-- What the window shows as modified is marked. -/
def State.Synced (s : State) : Prop :=
  ∀ t, s.currentTab = some t → s.docModified = true → t.modified = true

theorem State.Sound.marked {s : State} (h : s.Sound) : s.Marked := by
  intro index t ht htext
  unfold State.textAt at htext
  by_cases hcurrent : s.currentIndex = some index
  · rw [if_pos hcurrent] at htext
    refine h.shown t ?_ htext
    rw [State.currentTab, hcurrent, ht]
  · rw [if_neg hcurrent] at htext
    exact h.others index t ht hcurrent htext

section Switching

variable {s : State}

theorem State.tabAt_flush (s : State) (i : ℕ) :
    (s.flushEditorToModel s.loadedTabIndex).tabAt (some i) =
      if s.loadedTabIndex = some i then
        (s.tabAt (some i)).map fun t =>
          { t with savedContent := s.editor, modified := decide (s.editor ≠ t.savedContent) }
      else s.tabAt (some i) :=
  s.tabAt_setTab s.loadedTabIndex _ i

/-- A true flush marks the tab that is left. -/
theorem State.FlushesTruly.marks (h : s.FlushesTruly) {t : Tab}
    (ht : s.tabAt s.loadedTabIndex = some t)
    (hne : s.editor ≠ t.onDisk) : decide (s.editor ≠ t.savedContent) = true :=
  decide_eq_true fun heq => hne (heq.trans (h t ht heq))

/-- The loaded tab is flushed and another one shown. -/
theorem State.Sound.showing (h : s.Sound) (hplain : s.Plain) (hloaded : s.LoadedIsCurrent)
    (hflush : s.FlushesTruly) {i : ℕ} {t : Tab} (hi : s.currentIndex ≠ some i)
    (ht : s.tabAt (some i) = some t) :
    ((s.flushEditorToModel s.loadedTabIndex).showing i t).Sound ∧
      ((s.flushEditorToModel s.loadedTabIndex).showing i t).Synced := by
  have hne := hloaded.ne hi
  have htab : ∀ j, ((s.flushEditorToModel s.loadedTabIndex).showing i t).tabAt (some j) =
      if s.loadedTabIndex = some j then
        (s.tabAt (some j)).map fun t =>
          { t with savedContent := s.editor, modified := decide (s.editor ≠ t.savedContent) }
      else s.tabAt (some j) := fun j => s.tabAt_flush j
  have hcurrent : ((s.flushEditorToModel s.loadedTabIndex).showing i t).currentTab = some t := by
    rw [← ht]
    exact (htab i).trans (if_neg hne)
  have honly : ∀ t', ((s.flushEditorToModel s.loadedTabIndex).showing i t).currentTab = some t' →
      t' = t := fun t' ht' => Option.some.inj (ht'.symm.trans hcurrent)
  refine ⟨⟨fun j t' ht' hj hunsaved => ?_, fun t' ht' hunsaved => ?_, fun _ _ => nofun,
    fun t' ht' => ?_⟩,
    fun t' ht' hmodified => ?_⟩
  · rw [htab] at ht'
    split_ifs at ht' with hl
    · obtain ⟨old, hold, rfl⟩ := Option.map_eq_some_iff.mp ht'
      exact hflush.marks (hl ▸ hold) hunsaved
    · refine h.others j t' ht' (fun hc => ?_) hunsaved
      -- the current tab is not loaded, hence as on disk
      have hnone : s.loadedTabIndex = none := hloaded.resolve_right fun heq => hl (heq.trans hc)
      exact hunsaved (h.unloaded t' (by rw [State.currentTab, hc, ht']) hnone)
  · rw [honly t' ht'] at hunsaved ⊢
    apply h.others i t ht hi
    rw [← hplain.row ht]
    exact hunsaved
  · rw [honly t' ht']
    exact .inr rfl
  · rw [honly t' ht']
    exact hmodified

theorem State.Sound.setCurrentIndex (h : s.Sound) (hsynced : s.Synced) (hplain : s.Plain)
    (hloaded : s.LoadedIsCurrent) {i : ℕ} (hi : i < s.tabs.length)
    (hflush : s.currentIndex ≠ some i → s.FlushesTruly) :
    (s.setCurrentIndex (some i)).Sound ∧ (s.setCurrentIndex (some i)).Synced := by
  by_cases hcurrent : s.currentIndex = some i
  · rw [State.setCurrentIndex_self hcurrent]
    exact ⟨h, hsynced⟩
  · obtain ⟨t, ht⟩ := State.tabAt_of_lt hi
    rw [State.setCurrentIndex_of_ne hcurrent (hloaded.ne hcurrent) ht]
    exact h.showing hplain hloaded (hflush hcurrent) hcurrent ht

end Switching

/-! ## The handlers -/

section Handlers

variable {s : State}

theorem State.currentTab_eq {s : State} {c : ℕ} (hc : s.currentIndex = some c) :
    s.currentTab = s.tabAt (some c) := by
  rw [State.currentTab, hc]

theorem sound_newTab (h : s.Sound) (hplain : s.Plain) (hplaced : s.Placed) {path content : String}
    (hcontent : toPlainText content = content) (hopens : s.OpensTruly path content) :
    (s.newTab path content).Sound ∧ (s.newTab path content).Synced := by
  unfold State.OpensTruly at hopens
  by_cases htabs : s.tabs = []
  · rw [if_pos htabs] at hopens
    obtain ⟨heditor, -, hmodified, hpath⟩ := hopens
    rw [State.newTab_of_nil hplaced htabs]
    have honly : ∀ i t, (s.appendTab path content).tabAt (some i) = some t →
        t = s.freshTab path content := by
      intro i t ht
      by_cases hi : i = s.tabs.length
      · rw [hi, State.tabAt_appendTab_self] at ht
        exact (Option.some.inj ht).symm
      · rw [State.tabAt_appendTab_of_ne hi] at ht
        have hlt := State.lt_of_tabAt ht
        rw [htabs] at hlt
        nomatch hlt
    obtain ⟨c, hc, -⟩ := hplaced.current
    have hshown : ∀ t, (s.appendTab path content).currentTab = some t →
        t = s.freshTab path content :=
      fun t ht => honly c t (by rwa [State.currentTab_eq (s := s.appendTab path content) hc] at ht)
    refine ⟨⟨fun i t ht _ hne => ?_, fun t ht hne => ?_, fun t ht _ => ?_, fun t ht => ?_⟩,
      fun t _ hdoc => ?_⟩
    · rw [honly i t ht] at hne
      exact absurd rfl hne
    · rw [hshown t ht] at hne
      exact absurd heditor hne
    · rw [hshown t ht]
      rfl
    · rw [hshown t ht]
      exact hpath
    · change s.docModified = true at hdoc
      rw [hmodified] at hdoc
      nomatch hdoc
  · rw [if_neg htabs] at hopens
    obtain ⟨c, hc, hlt⟩ := hplaced.current
    have hpos := List.length_pos_of_ne_nil htabs
    have hclt : c ≠ s.tabs.length := by omega
    have hcurrent : (s.appendTab path content).currentTab = s.currentTab := by
      rw [State.currentTab_eq (s := s.appendTab path content) hc, State.currentTab_eq hc]
      exact State.tabAt_appendTab_of_ne hclt path content
    have hsound : (s.appendTab path content).Sound := by
      refine ⟨fun i t ht hi hne => ?_, ?_, ?_, ?_⟩
      · by_cases hlen : i = s.tabs.length
        · rw [hlen, State.tabAt_appendTab_self] at ht
          obtain rfl := Option.some.inj ht
          exact absurd rfl hne
        · rw [State.tabAt_appendTab_of_ne hlen] at ht
          exact h.others i t ht hi hne
      · rw [hcurrent]
        exact h.shown
      · rw [hcurrent]
        exact h.unloaded
      · rw [hcurrent]
        exact h.path
    have hflush : (s.appendTab path content).FlushesTruly := by
      intro t ht
      rcases hplaced.loaded with hl | hl
      · rw [show (s.appendTab path content).loadedTabIndex = none from hl] at ht
        nomatch ht
      · rw [show (s.appendTab path content).loadedTabIndex = some c from hl.trans hc,
          State.tabAt_appendTab_of_ne hclt, ← hc, ← hl] at ht
        exact hopens t ht
    rw [State.newTab_of_ne_nil hplaced htabs]
    refine hsound.showing (hplain.appendTab path hcontent) hplaced.loaded hflush ?_
      (s.tabAt_appendTab_self path content)
    exact fun heq => hclt (Option.some.inj (hc.symm.trans heq))

/-- The current row and what the window shows of it are set together. -/
theorem sound_setCurrentTab (h : s.Sound) {s' : State} {f : Tab → Tab}
    (htabs : s'.tabs = (s.setTab s.currentIndex f).tabs) (hindex : s'.currentIndex = s.currentIndex)
    (hshown : ∀ t, s.currentTab = some t →
      (s'.editor ≠ (f t).onDisk → (f t).modified = true) ∧
        (s'.loadedTabIndex = none → (f t).savedContent = (f t).onDisk) ∧
        (s'.docPath = "" ∨ s'.docPath = (f t).filePath) ∧
        (s'.docModified = true → (f t).modified = true)) :
    s'.Sound ∧ s'.Synced := by
  have htab : ∀ i, s'.tabAt (some i) =
      if s.currentIndex = some i then (s.tabAt (some i)).map f else s.tabAt (some i) := by
    intro i
    rw [← s.tabAt_setTab s.currentIndex f i]
    simp only [State.tabAt, htabs]
  have hcurrent : ∀ t, s'.currentTab = some t → ∃ old, s.currentTab = some old ∧ f old = t := by
    intro t ht
    rw [State.currentTab_of_setTab htabs hindex] at ht
    exact Option.map_eq_some_iff.mp ht
  refine ⟨⟨fun i t ht hi hne => ?_, fun t ht => ?_, fun t ht => ?_, fun t ht => ?_⟩, fun t ht => ?_⟩
  · rw [hindex] at hi
    rw [htab, if_neg hi] at ht
    exact h.others i t ht hi hne
  · obtain ⟨old, hold, rfl⟩ := hcurrent t ht
    exact (hshown old hold).1
  · obtain ⟨old, hold, rfl⟩ := hcurrent t ht
    exact (hshown old hold).2.1
  · obtain ⟨old, hold, rfl⟩ := hcurrent t ht
    exact (hshown old hold).2.2.1
  · obtain ⟨old, hold, rfl⟩ := hcurrent t ht
    exact (hshown old hold).2.2.2

/-- The dialog, the disk and the phase do not matter. -/
theorem State.Sound.frame (h : s.Sound) (phase : Phase) (pending : Option ℕ) (dialog : Bool)
    (disk : Disk) :
    State.Sound { s with
      phase := phase
      pendingCloseIndex := pending
      unsavedDialog := dialog
      disk := disk } :=
  ⟨h.others, h.shown, h.unloaded, h.path⟩

theorem sound_openPath (h : s.Sound) (hsynced : s.Synced) (hplain : s.Plain) (hplaced : s.Placed)
    {path : String} {result : ReadResult}
    (hopens : ∀ content, result = .success content → toPlainText content = content ∧
      ((∃ t, s.currentTab = some t ∧ t.filePath = "" ∧ t.modified = false) ∨
        s.OpensTruly path content)) :
    (s.openPath path result).Sound ∧ (s.openPath path result).Synced := by
  cases result with
  | tooLarge => exact ⟨h, hsynced⟩
  | failure => exact ⟨h, hsynced⟩
  | success content =>
      obtain ⟨hcontent, hopens⟩ := hopens content rfl
      simp only [State.openPath]
      cases ht : s.currentTab with
      | none =>
          refine sound_newTab h hplain hplaced hcontent (hopens.resolve_left fun hfresh => ?_)
          obtain ⟨t, ht', -⟩ := hfresh
          cases ht.symm.trans ht'
      | some t =>
          dsimp only
          split
          · -- the fresh tab is used again
            have htab : (s.setTab s.currentIndex (Tab.opened path content)).currentTab =
                some (Tab.opened path content t) := by
              obtain ⟨c, hc, -⟩ := hplaced.current
              rw [State.currentTab_eq hc] at ht
              rw [State.currentTab_eq (s := s.setTab s.currentIndex (Tab.opened path content)) hc,
                State.tabAt_setTab, if_pos hc, ht]
              rfl
            rw [State.loadEditorFromCurrent, htab]
            refine sound_setCurrentTab h (f := Tab.opened path content) rfl rfl fun t' _ => ?_
            exact ⟨fun hne => absurd hcontent hne, fun _ => rfl, .inr rfl, by simp [Tab.opened]⟩
          · next hused =>
              refine sound_newTab h hplain hplaced hcontent (hopens.resolve_left fun htab => ?_)
              obtain ⟨t', ht', hfresh⟩ := htab
              obtain rfl := Option.some.inj (ht.symm.trans ht')
              exact hused hfresh

theorem sound_saveCurrent (h : s.Sound) (hsynced : s.Synced) (faults : WriteFaults) :
    (s.saveCurrent faults).Sound ∧ (s.saveCurrent faults).Synced := by
  unfold State.saveCurrent
  split
  · exact ⟨h, hsynced⟩
  · next path text hwritten =>
      unfold State.written at hwritten
      split at hwritten
      · nomatch hwritten
      · next hne =>
          obtain ⟨rfl, rfl⟩ := Prod.mk.inj (Option.some.inj hwritten)
          dsimp only
          split
          · refine sound_setCurrentTab
              (h.frame s.phase s.pendingCloseIndex s.unsavedDialog _) rfl rfl
              fun t ht => ?_
            have hpath : t.filePath = s.docPath :=
              ((h.path t ht).resolve_left fun hnil => hne (.inr hnil)).symm
            refine ⟨fun hunsaved => ?_, fun _ => (if_pos hpath).symm, .inr hpath.symm, nofun⟩
            exact absurd (if_pos hpath).symm hunsaved
          · exact ⟨h.frame s.phase s.pendingCloseIndex s.unsavedDialog _, hsynced⟩

theorem sound_saveCurrentAs (h : s.Sound) (hsynced : s.Synced) (path : String)
    (faults : WriteFaults) :
    (s.saveCurrentAs path faults).Sound ∧ (s.saveCurrentAs path faults).Synced := by
  unfold State.saveCurrentAs
  dsimp only
  split
  · refine sound_setCurrentTab (h.frame s.phase s.pendingCloseIndex s.unsavedDialog _) rfl rfl
      fun t _ => ?_
    exact ⟨fun hunsaved => absurd rfl hunsaved, fun _ => rfl, .inr rfl, nofun⟩
  · exact ⟨h.frame s.phase s.pendingCloseIndex s.unsavedDialog _, hsynced⟩

theorem sound_edit (h : s.Sound) (hsynced : s.Synced) {text : String}
    (htruly : ∀ t, s.currentTab = some t → text = s.docSavedContent → text = t.onDisk) :
    (s.edit text).Sound ∧ (s.edit text).Synced := by
  unfold State.edit State.markModified
  split
  · exact ⟨h, hsynced⟩
  · dsimp only
    split
    · refine sound_setCurrentTab h rfl rfl fun t ht =>
        ⟨fun hunsaved => ?_, h.unloaded t ht, h.path t ht, id⟩
      exact decide_eq_true fun heq => hunsaved (htruly t ht heq)
    · next hsame =>
        rw [ne_eq, not_not] at hsame
        have hshown : ∀ t, s.currentTab = some t → text ≠ t.onDisk → t.modified = true := by
          intro t ht hunsaved
          refine hsynced t ht ?_
          rw [← hsame]
          exact decide_eq_true fun heq => hunsaved (htruly t ht heq)
        exact ⟨⟨h.others, hshown, h.unloaded, h.path⟩, hsynced⟩

theorem sound_setAutoSave (h : s.Sound) (hsynced : s.Synced) (checked : Bool) :
    (s.setAutoSave checked).Sound ∧ (s.setAutoSave checked).Synced :=
  sound_setCurrentTab h rfl rfl fun t ht =>
    ⟨h.shown t ht, h.unloaded t ht, h.path t ht, hsynced t ht⟩

theorem sound_closeTab (h : s.Sound) (hsynced : s.Synced) (hplain : s.Plain) (hplaced : s.Placed)
    {index : ℕ} (selected : Option ℕ)
    (hflush : index < s.tabs.length → s.currentIndex ≠ some index → s.FlushesTruly)
    (hmodified : ∀ t, s.tabAt (some index) = some t → t.modified = true) :
    (s.closeTab index selected).Sound ∧ (s.closeTab index selected).Synced := by
  unfold State.closeTab
  split
  · exact ⟨h, hsynced⟩
  · next hle =>
      have hlt := Nat.lt_of_not_le hle
      obtain ⟨hs, hy⟩ := h.setCurrentIndex hsynced hplain hplaced.loaded hlt (hflush hlt)
      dsimp only
      rw [State.tabAt_setCurrentIndex_self hplaced.loaded hlt]
      split
      · exact ⟨hs, hy⟩
      · next t ht =>
          rw [if_pos (hmodified t ht)]
          exact ⟨hs.frame _ (some index) true _, hy⟩

theorem sound_flush (h : s.Sound) (hplaced : s.Placed) (hflush : s.FlushesTruly) :
    (s.flushEditorToModel s.loadedTabIndex).Sound := by
  obtain ⟨c, hc, -⟩ := hplaced.current
  have hcurrent : (s.flushEditorToModel s.loadedTabIndex).currentTab =
      if s.loadedTabIndex = some c then
        s.currentTab.map fun t =>
          { t with savedContent := s.editor, modified := decide (s.editor ≠ t.savedContent) }
      else s.currentTab := by
    rw [State.currentTab_eq hc, ← s.tabAt_flush c]
    exact State.currentTab_eq (s := s.flushEditorToModel s.loadedTabIndex) hc
  refine ⟨fun i t ht hi hne => ?_, fun t ht hne => ?_, fun t ht hnone => ?_, fun t ht => ?_⟩
  · rw [s.tabAt_flush, if_neg (hplaced.loaded.ne hi)] at ht
    exact h.others i t ht hi hne
  · rw [hcurrent] at ht
    split_ifs at ht with hl
    · obtain ⟨old, hold, rfl⟩ := Option.map_eq_some_iff.mp ht
      exact hflush.marks (by rw [hl, ← State.currentTab_eq hc, hold]) hne
    · exact h.shown t ht hne
  · have hl : s.loadedTabIndex ≠ some c := fun heq => nomatch heq.symm.trans hnone
    rw [hcurrent, if_neg hl] at ht
    exact h.unloaded t ht hnone
  · rw [hcurrent] at ht
    split_ifs at ht with hl
    · obtain ⟨old, hold, rfl⟩ := Option.map_eq_some_iff.mp ht
      exact h.path old hold
    · exact h.path t ht

theorem sound_onClosing (h : s.Sound) (hplain : s.Plain) (hplaced : s.Placed)
    (hflush : s.FlushesTruly)
    (hagain : ∀ i, (s.flushEditorToModel s.loadedTabIndex).tabs.findIdx? Tab.modified = some i →
      s.currentIndex ≠ some i → (s.flushEditorToModel s.loadedTabIndex).FlushesTruly) :
    s.onClosing.Sound ∧ (s.onClosing.phase ≠ .closed → s.onClosing.Synced) := by
  have hs := sound_flush h hplaced hflush
  unfold State.onClosing
  dsimp only
  split
  · next i hi =>
      obtain ⟨hlt, hmodified, -⟩ := List.findIdx?_eq_some_iff_getElem.mp hi
      by_cases hcurrent : s.currentIndex = some i
      · rw [State.setCurrentIndex_self (s := s.flushEditorToModel s.loadedTabIndex) hcurrent]
        refine ⟨hs.frame _ (some i) true _, fun _ t ht _ => ?_⟩
        change (s.flushEditorToModel s.loadedTabIndex).currentTab = some t at ht
        rw [State.currentTab_eq (s := s.flushEditorToModel s.loadedTabIndex) hcurrent] at ht
        obtain rfl := Option.some.inj ((List.getElem?_eq_getElem hlt).symm.trans ht)
        exact hmodified
      · obtain ⟨t, ht⟩ := State.tabAt_of_lt hlt
        have hne : (s.flushEditorToModel s.loadedTabIndex).loadedTabIndex ≠ some i :=
          hplaced.loaded.ne hcurrent
        rw [State.setCurrentIndex_of_ne (s := s.flushEditorToModel s.loadedTabIndex)
          hcurrent hne ht]
        obtain ⟨hshown, hsynced⟩ := hs.showing (hplain.flush s.loadedTabIndex) hplaced.loaded
          (hagain i hi hcurrent) hcurrent ht
        exact ⟨hshown.frame _ (some i) true _, fun _ => hsynced⟩
  · exact ⟨hs.frame .closed _ _ _, fun hphase => absurd rfl hphase⟩

end Handlers

/-! ## Every run -/

/-- What a step preserves. -/
theorem sound_handle {s : State} {e : Event} (h : s.Sound) (hsynced : s.Synced) (hplain : s.Plain)
    (hplaced : s.Placed) (haccepts : s.Accepts e) (hok : Truthful s e) :
    (s.handle e).Sound ∧ ((s.handle e).phase ≠ .closed → (s.handle e).Synced) := by
  have himp : ∀ {s' : State}, s'.Sound ∧ s'.Synced → s'.Sound ∧ (s'.phase ≠ .closed → s'.Synced) :=
    fun hs => ⟨hs.1, fun _ => hs.2⟩
  cases e with
  | completed initialFile =>
      have hrunning := h.frame .running s.pendingCloseIndex s.unsavedDialog s.disk
      have hplaced' : State.Placed { s with phase := .running } := ⟨hplaced.current, hplaced.loaded⟩
      have hplain' : State.Plain { s with phase := .running } := ⟨hplain.editor, hplain.rows⟩
      rcases initialFile with _ | ⟨path, result⟩
      · exact himp (sound_newTab hrunning hplain' hplaced' rfl hok)
      · refine himp (sound_openPath hrunning hsynced hplain' hplaced' fun content hresult => ?_)
        subst hresult
        exact hok.imp_right .inr
  | edit text => exact himp (sound_edit h hsynced hok)
  | selectTab index => exact himp (h.setCurrentIndex hsynced hplain hplaced.loaded haccepts.2.2 hok)
  | newTab => exact himp (sound_newTab h hplain hplaced rfl hok)
  | openPath path result =>
      refine himp (sound_openPath h hsynced hplain hplaced fun content hresult => ?_)
      subst hresult
      exact hok
  | saveCurrent faults => exact himp (sound_saveCurrent h hsynced faults)
  | saveCurrentAs path faults => exact himp (sound_saveCurrentAs h hsynced path faults)
  | autoSave faults =>
      simp only [State.handle, State.autoSave]
      split
      · exact himp (sound_saveCurrent h hsynced faults)
      · exact ⟨h, fun _ => hsynced⟩
  | setAutoSave checked => exact himp (sound_setAutoSave h hsynced checked)
  | closeTab index selected =>
      exact himp (sound_closeTab h hsynced hplain hplaced selected hok.1 hok.2)
  | cancelClose => exact himp ⟨h.frame s.phase none false s.disk, hsynced⟩
  | discard selected => exact hok.elim
  | saveThenClose faults selected =>
      simp only [State.handle, State.saveThenClose, if_pos (show s.docPath = "" from hok)]
      exact himp ⟨h.frame s.phase none false s.disk, hsynced⟩
  | close => exact sound_onClosing h hplain hplaced hok.1 hok.2

/-- A truthful step opens only files whose texts stay. -/
theorem opensPlain_of_truthful {s : State} {e : Event} (h : Truthful s e) : OpensPlain e := by
  apply opensPlain_of_texts
  · rintro path content rfl
    exact h.1
  · rintro path content rfl
    exact h.1

theorem sound_of_reachable {s : State} (h : system.ReachableWhere Truthful s) :
    s.Sound ∧ (s.phase ≠ .closed → s.Synced) := by
  refine h.invariant (I := fun s => s.Sound ∧ (s.phase ≠ .closed → s.Synced)) ?_
    fun s e s' hreach hs hok hstep => ?_
  · rintro _ ⟨disk, rfl⟩
    exact ⟨⟨fun _ _ => nofun, fun _ => nofun, fun _ => nofun, fun _ => nofun⟩, fun _ _ => nofun⟩
  · obtain ⟨haccepts, rfl⟩ := step_eq_some hstep
    have hopen : s.phase ≠ .closed := by
      intro hclosed
      cases e <;> simp [State.Accepts, hclosed] at haccepts
    have hplain := plain_of_reachable (fun _ _ => opensPlain_of_truthful) hreach
    exact sound_handle hs.1 (hs.2 hopen) hplain (placed_of_reachable hreach) haccepts hok

/-- **Unsaved text is marked** in every state of every run that hides none. -/
theorem marked_of_truthful {s : State} (h : system.ReachableWhere Truthful s) : s.Marked :=
  (sound_of_reachable h).1.marked

instance (s : State) : Decidable s.FlushesTruly :=
  inferInstanceAs (Decidable (∀ t ∈ s.tabAt s.loadedTabIndex, s.editor = t.savedContent → _))

instance (s : State) (path content : String) : Decidable (s.OpensTruly path content) :=
  inferInstanceAs (Decidable (if s.tabs = [] then _ ∧ _ ∧ _ ∧ (_ ∨ _) else s.FlushesTruly))

instance (s : State) : (e : Event) → Decidable (Truthful s e)
  | .completed none | .newTab => inferInstanceAs (Decidable (s.OpensTruly _ _))
  | .completed (some (_, .success _)) => inferInstanceAs (Decidable (_ ∧ s.OpensTruly _ _))
  | .openPath path (.success content) =>
      inferInstanceAs (Decidable (toPlainText content = content ∧
        ((∃ t ∈ s.currentTab, t.filePath = "" ∧ t.modified = false) ∨ s.OpensTruly path content)))
  | .edit text =>
      inferInstanceAs (Decidable (∀ t ∈ s.currentTab, text = s.docSavedContent → text = t.onDisk))
  | .selectTab index => inferInstanceAs (Decidable (s.currentIndex ≠ some index → s.FlushesTruly))
  | .closeTab index _ =>
      inferInstanceAs (Decidable
        ((index < s.tabs.length → s.currentIndex ≠ some index → s.FlushesTruly) ∧
          ∀ t ∈ s.tabAt (some index), t.modified = true))
  | .close =>
      inferInstanceAs (Decidable
        (s.FlushesTruly ∧ ∀ i ∈ (s.flushEditorToModel s.loadedTabIndex).tabs.findIdx? Tab.modified,
          s.currentIndex ≠ some i → (s.flushEditorToModel s.loadedTabIndex).FlushesTruly))
  | .discard _ => isFalse id
  | .saveThenClose .. => inferInstanceAs (Decidable (s.docPath = ""))
  | .completed (some (_, .tooLarge)) | .completed (some (_, .failure)) | .openPath _ .tooLarge
  | .openPath _ .failure | .saveCurrent _ | .saveCurrentAs .. | .autoSave _ | .setAutoSave _
  | .cancelClose => isTrue trivial

/-- Two tabs are edited; the second is saved, left, edited again and asked to close. -/
theorem marked_of_editing :
    ∃ s, system.ReachableWhere Truthful s ∧ s.Marked ∧
      s.tabs.map (fun t => (t.filePath, t.savedContent, t.modified)) =
        [("", "a", true), ("/b", "bc", true)] := by
  have hrun : (system.runWhere Truthful (.initial fun _ => none)
      [.completed none, .newTab, .edit "b", .saveCurrentAs "/b" {}, .edit "bc",
        .saveCurrent { rename := true }, .selectTab 0, .edit "a", .close, .cancelClose]).map
      (fun s => s.tabs.map fun t => (t.filePath, t.savedContent, t.modified)) =
      some [("", "a", true), ("/b", "bc", true)] := by
    decide +kernel
  obtain ⟨s, hs, htabs⟩ := Option.map_eq_some_iff.mp hrun
  have hreach : system.ReachableWhere Truthful s := .runWhere (.init ⟨_, rfl⟩) hs
  exact ⟨s, hreach, marked_of_truthful hreach, htabs⟩

/-- A tab that is left twice with the same unsaved text loses its mark. -/
theorem not_marked_of_leaving_twice : ¬ ∀ s, system.Reachable s → s.Marked := by
  intro h
  have hrun : (system.run (.initial fun _ => none)
      [.completed none, .newTab, .edit "x", .selectTab 0, .selectTab 1, .selectTab 0]).map
      (fun s => (s.currentIndex, s.tabAt (some 1))) =
        some (some 0, some ⟨1, "", "x", false, false, ""⟩) := by
    rfl
  obtain ⟨s, hs, hsummary⟩ := Option.map_eq_some_iff.mp hrun
  obtain ⟨hcurrent, htab⟩ := Prod.mk.inj hsummary
  have hmarked := h s (.run (.init ⟨_, rfl⟩) hs) 1 _ htab
  unfold State.textAt at hmarked
  rw [hcurrent, if_neg (by decide)] at hmarked
  exact nomatch hmarked (by decide)

end NiraOS.Notepad
