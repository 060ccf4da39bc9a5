import NiraOS.Notepad.Documents

/-!
# Every handler keeps to the documents

For each handler of the window: what it does to the documents, as long as the step is confined,
and what it writes to the disk.  The run theorem puts them together.
-/

namespace NiraOS.Notepad

open TextDocument (toPlainText)

/-! ## The handlers -/

section Handlers

variable {s : State}

theorem docs_openPath (h : s.Placed) (hplain : s.Plain) (hcoherent : s.Coherent)
    {path content : String} (hcontent : toPlainText content = content)
    (hopens : (∃ t, s.currentTab = some t ∧ t.filePath = "" ∧ t.modified = false) ∨
      s.OpensOwn path content) :
    ((s.openPath path (.success content)).docs = s.docs ++ [⟨path, content⟩] ∨
      (s.openPath path (.success content)).docs = modifyAt s.docs s.currentIndex fun _ =>
        ⟨path, content⟩) ∧
      (s.openPath path (.success content)).Coherent := by
  simp only [State.openPath]
  cases ht : s.currentTab with
  | none =>
      obtain ⟨hdocs, hcoherent'⟩ := docs_newTab h hplain hcontent
        (hopens.resolve_left (by simp [ht]))
      exact ⟨.inl hdocs, hcoherent'⟩
  | some t =>
      dsimp only
      split
      · have hrow : (s.setTab s.currentIndex (Tab.opened path content)).currentTab =
            some (Tab.opened path content t) := by
          rw [State.currentTab_of_setTab (s := s) rfl rfl, ht]
          rfl
        rw [State.loadEditorFromCurrent, hrow]
        have hdoc : ∀ t, (Tab.opened path content t).doc.withText (toPlainText content) =
            ⟨path, content⟩ := by
          intro t
          rw [hcontent]
          rfl
        exact ⟨.inr (docs_of_setTab _ rfl rfl hdoc), hcoherent.setTab rfl rfl fun _ _ => rfl⟩
      · next hused =>
          have hown : s.OpensOwn path content := by
            refine hopens.resolve_left fun hfresh => ?_
            obtain ⟨t', ht', hfresh⟩ := hfresh
            obtain rfl := Option.some.inj (ht.symm.trans ht')
            exact hused hfresh
          obtain ⟨hdocs, hcoherent'⟩ := docs_newTab h hplain hcontent hown
          exact ⟨.inl hdocs, hcoherent'⟩

theorem docs_edit (hcoherent : s.Coherent) (text : String) :
    (s.edit text).docs = modifyAt s.docs s.currentIndex (Doc.withText text) ∧
    (s.edit text).Coherent := by
  have hset : ∀ f : Tab → Tab, (∀ t, (f t).doc = t.doc) →
      State.docs { s.setTab s.currentIndex f with editor := text } =
        modifyAt s.docs s.currentIndex (Doc.withText text) := fun f hf =>
    docs_of_setTab (f := f) _ rfl rfl fun t => by rw [hf]; rfl
  unfold State.edit State.markModified
  split
  · next hsame =>
      refine ⟨(modifyAt_eq_self fun i d hi hd => ?_).symm, hcoherent⟩
      have hcurrent : s.currentDoc = some d := by
        rw [State.currentDoc, hi]
        exact hd
      rw [hcoherent.eq_of_currentDoc hcurrent, hsame]
      rfl
  · dsimp only
    split
    · exact ⟨hset _ fun _ => rfl, hcoherent.setTab (s := s) rfl rfl fun _ => id⟩
    · refine ⟨docs_of_setTab (f := id) _ ?_ rfl fun _ => rfl, hcoherent⟩
      rw [State.tabs_setTab]
      exact (modifyAt_eq_self fun _ _ _ _ => rfl).symm

/-- **Saving** changes no document. -/
theorem docs_saveCurrent (hcoherent : s.Coherent) (faults : WriteFaults) :
    (s.saveCurrent faults).docs = s.docs ∧ (s.saveCurrent faults).Coherent := by
  unfold State.saveCurrent
  split
  · exact ⟨rfl, hcoherent⟩
  · next path text hwritten =>
      unfold State.written at hwritten
      split at hwritten
      · nomatch hwritten
      · obtain ⟨rfl, rfl⟩ := Prod.mk.inj (Option.some.inj hwritten)
        dsimp only
        split
        · exact ⟨docs_of_setTab_self rfl rfl fun _ => rfl,
            hcoherent.setTab (s := s) rfl rfl fun _ => id⟩
        · exact ⟨rfl, hcoherent⟩

/-- It writes the document on screen to its own path. -/
theorem disk_saveCurrent (hcoherent : s.Coherent) (faults : WriteFaults) :
    (s.saveCurrent faults).disk = s.disk ∨ ∃ doc, s.currentDoc = some doc ∧
      (s.saveCurrent faults).disk = (writeFile faults s.disk doc.path doc.text).2 := by
  unfold State.saveCurrent
  split
  · exact .inl rfl
  · next path text hwritten =>
      unfold State.written at hwritten
      split at hwritten
      · nomatch hwritten
      · next hne =>
          obtain ⟨rfl, rfl⟩ := Prod.mk.inj (Option.some.inj hwritten)
          refine .inr ⟨_, hcoherent.currentDoc fun hnil => hne (.inl hnil), ?_⟩
          dsimp only
          split <;> rfl

/-- **Saving as** gives the document on screen another path. -/
theorem docs_saveCurrentAs (hcoherent : s.Coherent) (path : String) (faults : WriteFaults) :
    (s.saveCurrentAs path faults).Coherent ∧
      ((s.saveCurrentAs path faults).docs = s.docs ∨
        (s.saveCurrentAs path faults).docs =
        modifyAt s.docs s.currentIndex (Doc.withPath path)) := by
  unfold State.saveCurrentAs
  dsimp only
  split
  · exact ⟨hcoherent.setTab (s := s) rfl rfl fun _ _ => rfl,
      .inr (docs_of_setTab _ rfl rfl fun _ => rfl)⟩
  · exact ⟨hcoherent, .inl rfl⟩

theorem writes_saveCurrentAs (hcoherent : s.Coherent) (path : String) (faults : WriteFaults) :
    (s.saveCurrentAs path faults).disk = (writeFile faults s.disk path s.editor).2 ∧
      ((writeFile faults s.disk path s.editor).1 = true →
        ∀ doc, (s.saveCurrentAs path faults).currentDoc = some doc → doc = ⟨path, s.editor⟩) := by
  have hshown : (s.saveCurrentAs path faults).Coherent :=
    (docs_saveCurrentAs hcoherent path faults).1
  unfold State.saveCurrentAs at hshown ⊢
  dsimp only at hshown ⊢
  split_ifs at hshown ⊢ with hok
  · exact ⟨rfl, fun _ doc hdoc => hshown.eq_of_currentDoc hdoc⟩
  · exact ⟨rfl, fun h => absurd h hok⟩

theorem State.Removable.congr {s' : State} {index : ℕ} {selected : Option ℕ}
    (h : s.Removable index selected) (hdocs : s'.docs = s.docs)
    (hcurrent : s.currentIndex = some index → s.loadedTabIndex = none →
      s'.currentIndex = some index ∧ s'.loadedTabIndex = none) : s'.Removable index selected := by
  have hlength : s'.tabs.length = s.tabs.length := by
    rw [← State.length_docs, hdocs, State.length_docs]
  unfold State.Removable at h ⊢
  rw [hdocs, hlength]
  split at h
  · exact h
  · split_ifs at h ⊢ with hselected
    · exact h
    · exact h.imp_left fun ⟨hc, hl⟩ => hcurrent hc hl

theorem docs_closeTab (h : s.Placed) (hplain : s.Plain) (hcoherent : s.Coherent) {index : ℕ}
    {selected : Option ℕ}
    (hconfined : Confined s (.closeTab index selected)) :
    ((s.closeTab index selected).docs = s.docs ∨
      (s.closeTab index selected).docs = closed s.docs index) ∧
      (s.closeTab index selected).Coherent := by
  unfold State.closeTab
  split
  · exact ⟨.inl rfl, hcoherent⟩
  · next hge =>
      have hlt := Nat.lt_of_not_le hge
      obtain ⟨hleaves, hremovable⟩ := hconfined hlt
      obtain ⟨hdocs, hcoherent'⟩ := docs_setCurrentIndex h.loaded hplain hcoherent hlt hleaves
      dsimp only
      split
      · exact ⟨.inl hdocs, hcoherent'⟩
      · next t ht =>
          rw [State.tabAt_setCurrentIndex_self h.loaded hlt] at ht
          split
          · exact ⟨.inl hdocs, hcoherent'⟩
          · next hmodified =>
              have hunmodified : ∀ t', s.tabAt (some index) = some t' → t'.modified = false := by
                intro t' ht'
                obtain rfl := Option.some.inj (ht.symm.trans ht')
                exact Bool.eq_false_iff.mpr hmodified
              have hset := (hremovable hunmodified).congr hdocs fun hc hl => by
                rw [State.setCurrentIndex_self hc]
                exact ⟨hc, hl⟩
              obtain ⟨hclosed, hcoherent''⟩ :=
                docs_removeTabImmediately (placed_setCurrentIndex h.loaded hlt)
                  (hplain.setCurrentIndex (some index)) hcoherent'
                  (State.currentIndex_setCurrentIndex ..)
                  ((State.length_setCurrentIndex ..).symm ▸ hlt) hset
              exact ⟨.inr (hclosed.trans (by rw [hdocs])), hcoherent''⟩

theorem docs_discard (h : s.Placed) (hplain : s.Plain) (hasking : s.Asking) (hcoherent : s.Coherent)
    (hopen : s.unsavedDialog = true) {selected : Option ℕ}
    (hconfined : Confined s (.discard selected)) :
    ∃ i, s.pendingCloseIndex = some i ∧ (s.discard selected).docs = closed s.docs i ∧
      (s.discard selected).Coherent := by
  obtain ⟨i, hpending, hcurrent, hlt⟩ := hasking.pending hopen
  refine ⟨i, hpending, ?_⟩
  unfold State.discard
  rw [hpending]
  exact docs_removeTabImmediately (s := s.cancelClose) (h.congr rfl rfl rfl)
    ⟨hplain.editor, hplain.rows⟩ hcoherent hcurrent hlt
    (hconfined i hpending)

theorem docs_saveThenClose (h : s.Placed) (hplain : s.Plain) (hasking : s.Asking)
    (hcoherent : s.Coherent)
    (hopen : s.unsavedDialog = true) {faults : WriteFaults} {selected : Option ℕ}
    (hconfined : Confined s (.saveThenClose faults selected)) :
    ((s.saveThenClose faults selected).docs = s.docs ∨
      ∃ i, s.pendingCloseIndex = some i ∧
        (s.saveThenClose faults selected).docs = closed s.docs i) ∧
      (s.saveThenClose faults selected).Coherent := by
  obtain ⟨i, hpending, hcurrent, hlt⟩ := hasking.pending hopen
  obtain ⟨-, hcurrent', hloaded', hlength⟩ := saveCurrent_frame (s := s) faults
  obtain ⟨hdocs, hcoherent'⟩ := docs_saveCurrent hcoherent faults
  unfold State.saveThenClose
  split
  · exact ⟨.inl rfl, hcoherent⟩
  · next hpath =>
      rw [hpending]
      obtain ⟨hclosed, hcoherent''⟩ :=
        docs_removeTabImmediately (s := { s.saveCurrent faults with unsavedDialog := false })
          ((placed_saveCurrent h faults).congr rfl rfl rfl)
          ⟨(hplain.saveCurrent faults).editor, (hplain.saveCurrent faults).rows⟩
          hcoherent' (hcurrent'.trans hcurrent)
          (hlength.symm ▸ hlt)
          ((hconfined hpath i hpending).congr hdocs fun hc hl =>
            ⟨hcurrent'.trans hc, hloaded'.trans hl⟩)
      exact ⟨.inr ⟨i, rfl, hclosed.trans (by rw [← hdocs]; rfl)⟩, hcoherent''⟩

/-- **Quitting** stores the document on screen and may bring up another tab. -/
theorem docs_onClosing (h : s.Placed) (hplain : s.Plain) (hcoherent : s.Coherent)
    (hconfined : Confined s .close) :
    s.onClosing.docs = s.docs ∧ s.onClosing.Coherent := by
  have hflush : (s.flushEditorToModel s.loadedTabIndex).docs = s.docs ∧
      (s.flushEditorToModel s.loadedTabIndex).Coherent := by
    rcases h.loaded with hl | hl
    · rw [hl]
      exact ⟨rfl, hcoherent⟩
    · rw [hl]
      exact ⟨docs_of_setTab_self (s := s) rfl rfl fun _ => rfl,
        hcoherent.setTab (s := s) rfl rfl fun _ => id⟩
  have hplaced : (s.flushEditorToModel s.loadedTabIndex).Placed := h.setTab ..
  unfold State.onClosing
  dsimp only
  split
  · next i hi =>
      obtain ⟨hlt, -⟩ := List.findIdx?_eq_some_iff_getElem.mp hi
      obtain ⟨hdocs, hcoherent'⟩ := docs_setCurrentIndex hplaced.loaded
        (hplain.flush s.loadedTabIndex) hflush.2 hlt fun hne hnone t ht => by
        rw [show s.loadedTabIndex = none from hnone] at ht
        exact hconfined i hi hne hnone t ht
      exact ⟨hdocs.trans hflush.1, hcoherent'⟩
  · exact hflush

end Handlers

/-! ## The disk -/

section Writing

variable {s : State}

theorem disk_closeTab (index : ℕ) (selected : Option ℕ) :
    (s.closeTab index selected).disk = s.disk := by
  have hset := State.disk_of_outside (State.outside_setCurrentIndex s (some index))
  unfold State.closeTab
  split
  · rfl
  · dsimp only
    split
    · exact hset
    · split
      · exact hset
      · exact (State.disk_of_outside (State.outside_removeTabImmediately ..)).trans hset

theorem disk_onClosing : s.onClosing.disk = s.disk := by
  unfold State.onClosing
  dsimp only
  split
  · next i _ =>
      have hset := State.disk_of_outside
        (State.outside_setCurrentIndex (s.flushEditorToModel s.loadedTabIndex) (some i))
      exact hset
  · rfl

theorem disk_saveThenClose (faults : WriteFaults) (selected : Option ℕ) :
    (s.saveThenClose faults selected).disk = s.disk ∨
      (s.saveThenClose faults selected).disk = (s.saveCurrent faults).disk := by
  unfold State.saveThenClose
  split
  · exact .inl rfl
  · dsimp only
    split
    · exact .inr rfl
    · next i _ =>
        have hremove := State.disk_of_outside (State.outside_removeTabImmediately
          { s.saveCurrent faults with unsavedDialog := false } i selected)
        exact .inr hremove

/-- **A save writes the document on screen to its own path**, and nothing else writes. -/
theorem writesOwn_handle (hcoherent : s.Coherent) (e : Event) : WritesOwn s e (s.handle e) := by
  cases e with
  | completed initialFile =>
      rcases initialFile with _ | ⟨path, result⟩
      · have hnew := State.disk_of_outside (State.outside_newTab { s with phase := .running } "" "")
        exact hnew
      · have hopen :=
          State.disk_of_outside (State.outside_openPath { s with phase := .running } path result)
        exact hopen
  | edit text => exact State.disk_of_outside (State.outside_edit s text)
  | selectTab index => exact State.disk_of_outside (State.outside_setCurrentIndex s _)
  | newTab => exact State.disk_of_outside (State.outside_newTab s "" "")
  | openPath path result => exact State.disk_of_outside (State.outside_openPath s path result)
  | saveCurrent faults => exact disk_saveCurrent hcoherent faults
  | saveCurrentAs path faults => exact writes_saveCurrentAs hcoherent path faults
  | autoSave faults =>
      simp only [WritesOwn, State.handle, State.autoSave]
      split
      · exact disk_saveCurrent hcoherent faults
      · exact .inl rfl
  | setAutoSave checked => exact rfl
  | closeTab index selected => exact disk_closeTab index selected
  | cancelClose => exact rfl
  | discard selected =>
      simp only [WritesOwn, State.handle, State.discard]
      split
      · rfl
      · next i _ =>
          have hremove :=
            State.disk_of_outside (State.outside_removeTabImmediately s.cancelClose i selected)
          exact hremove
  | saveThenClose faults selected =>
      rcases disk_saveThenClose (s := s) faults selected with hdisk | hdisk
      · exact .inl hdisk
      · refine (disk_saveCurrent hcoherent faults).imp hdisk.trans fun hwrites => ?_
        obtain ⟨doc, hdoc, hwrite⟩ := hwrites
        exact ⟨doc, hdoc, hdisk.trans hwrite⟩
  | close => exact disk_onClosing

end Writing

/-! ## Runs -/

section Runs

variable {s : State}

/-- What a step does to the documents. -/
theorem follows_handle (h : s.Placed) (hasking : s.Asking) (hplain : s.Plain)
    (hcoherent : s.Coherent) {e : Event} (haccepts : s.Accepts e) (hconfined : Confined s e) :
    Follows s e (s.handle e) ∧ (s.handle e).Coherent := by
  cases e with
  | completed initialFile =>
      have hrunning : State.Placed { s with phase := .running } := h.congr rfl rfl rfl
      have hplain' : State.Plain { s with phase := .running } := ⟨hplain.editor, hplain.rows⟩
      rcases initialFile with _ | ⟨path, result⟩
      · exact docs_newTab hrunning hplain' rfl hconfined
      · cases result with
        | success content =>
            exact docs_openPath (s := { s with phase := .running }) hrunning hplain' hcoherent
              hconfined.1 (.inr hconfined.2)
        | tooLarge => exact ⟨rfl, hcoherent⟩
        | failure => exact ⟨rfl, hcoherent⟩
  | edit text => exact docs_edit hcoherent text
  | selectTab index => exact docs_setCurrentIndex h.loaded hplain hcoherent haccepts.2.2 hconfined
  | newTab => exact docs_newTab h hplain rfl hconfined
  | openPath path result =>
      cases result with
      | success content => exact docs_openPath h hplain hcoherent hconfined.1 hconfined.2
      | tooLarge => exact ⟨rfl, hcoherent⟩
      | failure => exact ⟨rfl, hcoherent⟩
  | saveCurrent faults => exact docs_saveCurrent hcoherent faults
  | saveCurrentAs path faults => exact (docs_saveCurrentAs hcoherent path faults).symm
  | autoSave faults =>
      simp only [Follows, State.handle, State.autoSave]
      split
      · exact docs_saveCurrent hcoherent faults
      · exact ⟨rfl, hcoherent⟩
  | setAutoSave checked =>
      exact ⟨docs_of_setTab_self (s := s) rfl rfl fun _ => rfl,
        hcoherent.setTab (s := s) rfl rfl fun _ => id⟩
  | closeTab index selected => exact docs_closeTab h hplain hcoherent hconfined
  | cancelClose => exact ⟨rfl, hcoherent⟩
  | discard selected =>
      obtain ⟨i, hpending, hdocs, hcoherent'⟩ :=
        docs_discard h hplain hasking hcoherent haccepts.2 hconfined
      exact ⟨.inr ⟨i, hpending, hdocs⟩, hcoherent'⟩
  | saveThenClose faults selected =>
      exact docs_saveThenClose h hplain hasking hcoherent haccepts.2 hconfined
  | close => exact docs_onClosing h hplain hcoherent hconfined

/-- A confined step opens only files whose texts stay. -/
theorem opensPlain_of_confined {e : Event} (h : Confined s e) : OpensPlain e := by
  apply opensPlain_of_texts
  · rintro path content rfl
    exact h.1
  · rintro path content rfl
    exact h.1

theorem plain_of_confined (h : system.ReachableWhere Confined s) : s.Plain :=
  plain_of_reachable (fun _ _ => opensPlain_of_confined) h

theorem coherent_of_confined (h : system.ReachableWhere Confined s) : s.Coherent := by
  refine h.invariant ?_ fun s e s' hreach hs hconfined hstep => ?_
  · rintro _ ⟨disk, rfl⟩
    exact fun hne => absurd rfl hne
  · obtain ⟨haccepts, rfl⟩ := step_eq_some hstep
    exact (follows_handle (placed_of_reachable hreach) (asking_of_reachable hreach)
      (plain_of_confined hreach) hs haccepts hconfined).2

/-- **Tabs keep their documents.**  In every run of confined steps the path shown is that of the
current tab; every step changes the documents as it should, and writes the document on screen
to its own path only. -/
theorem documents_of_confined (h : system.ReachableWhere Confined s) :
    s.Coherent ∧ ∀ e s', Confined s e → system.step s e = some s' →
      Follows s e s' ∧ WritesOwn s e s' := by
  have hcoherent := coherent_of_confined h
  refine ⟨hcoherent, fun e s' hconfined hstep => ?_⟩
  obtain ⟨haccepts, rfl⟩ := step_eq_some hstep
  have hfollows := follows_handle (placed_of_reachable h) (asking_of_reachable h)
    (plain_of_confined h) hcoherent haccepts hconfined
  exact ⟨hfollows.1, writesOwn_handle hcoherent e⟩

end Runs

instance (s : State) : Decidable s.LeavesTruly :=
  inferInstanceAs (Decidable (s.loadedTabIndex = none →
    ∀ t ∈ s.currentTab, s.editor = t.savedContent))

instance (s : State) (path content : String) : Decidable (s.OpensOwn path content) :=
  inferInstanceAs (Decidable (if s.tabs = [] then _ ∧ _ else s.LeavesTruly))

instance (s : State) (index : ℕ) (selected : Option ℕ) : Decidable (s.Removable index selected) :=
  match h : s.docs[index + 1]? with
  | none =>
      decidable_of_iff (s.tabs.length = 1 → selected = some 0 → s.docs[index]? = some blank)
        (by rw [State.Removable, h])
  | some next =>
      decidable_of_iff
        (if selected = some index then s.docs[index]? = some next
          else s.currentIndex = some index ∧ s.loadedTabIndex = none ∨
            s.docs[index]?.map Doc.text = some next.text)
        (by rw [State.Removable, h])

instance (s : State) : (e : Event) → Decidable (Confined s e)
  | .completed none | .newTab => inferInstanceAs (Decidable (s.OpensOwn _ _))
  | .completed (some (path, .success content)) =>
      inferInstanceAs (Decidable (toPlainText content = content ∧ s.OpensOwn path content))
  | .openPath path (.success content) =>
      inferInstanceAs (Decidable (toPlainText content = content ∧
        ((∃ t ∈ s.currentTab, t.filePath = "" ∧ t.modified = false) ∨ s.OpensOwn path content)))
  | .selectTab index => inferInstanceAs (Decidable (s.currentIndex ≠ some index → s.LeavesTruly))
  | .closeTab index selected =>
      inferInstanceAs (Decidable (index < s.tabs.length →
        (s.currentIndex ≠ some index → s.LeavesTruly) ∧
          ((∀ t ∈ s.tabAt (some index), t.modified = false) → s.Removable index selected)))
  | .discard selected => inferInstanceAs
      (Decidable (∀ i ∈ s.pendingCloseIndex, s.Removable i selected))
  | .saveThenClose _ selected =>
      inferInstanceAs (Decidable (s.docPath ≠ "" →
        ∀ i ∈ s.pendingCloseIndex, s.Removable i selected))
  | .close =>
      inferInstanceAs (Decidable
        (∀ i ∈ (s.flushEditorToModel s.loadedTabIndex).tabs.findIdx? Tab.modified,
          s.currentIndex ≠ some i → s.LeavesTruly))
  | .completed (some (_, .tooLarge)) | .completed (some (_, .failure)) | .openPath _ .tooLarge
  | .openPath _ .failure | .edit _ | .saveCurrent _ | .saveCurrentAs .. | .autoSave _
  | .setAutoSave _
  | .cancelClose => isTrue trivial

/-- Two files are edited; one is saved, the other one saved on closing. -/
theorem documents_of_saving :
    ∃ s, system.ReachableWhere Confined s ∧
      (s.Coherent ∧ ∀ e s', Confined s e → system.step s e = some s' →
        Follows s e s' ∧ WritesOwn s e s') ∧
      s.docs = [⟨"/a", "a"⟩] ∧ s.disk "/b" = some "b" := by
  have hrun : (system.runWhere Confined (.initial fun _ => none)
      [.completed none, .openPath "/a" (.success "A"), .openPath "/b" (.success "B"), .edit "b",
        .selectTab 0, .edit "a", .saveCurrent {}, .closeTab 1 none, .saveThenClose {} (some 0)]).map
      (fun s => (s.docs, s.disk "/b")) = some ([⟨"/a", "a"⟩], some "b") := by
    decide +kernel
  obtain ⟨s, hs, hsummary⟩ := Option.map_eq_some_iff.mp hrun
  have hreach : system.ReachableWhere Confined s := .runWhere (.init ⟨_, rfl⟩) hs
  exact ⟨s, hreach, documents_of_confined hreach, Prod.mk.inj hsummary⟩

/-- Closing the second of three tabs flushes its text over the third one. -/
theorem not_documents_of_closing :
    ¬ ∀ s, system.Reachable s →
      s.Coherent ∧ ∀ e s', system.step s e = some s' → Follows s e s' ∧ WritesOwn s e s' := by
  intro h
  have hrun : (system.run (.initial fun _ => none)
      [.completed none, .openPath "/a" (.success "A"), .openPath "/b" (.success "B"),
        .openPath "/c" (.success "C"), .selectTab 1]).map
      (fun s => (s.docs, (system.step s (.closeTab 1 (some 0))).map State.docs)) =
      some ([⟨"/a", "A"⟩, ⟨"/b", "B"⟩, ⟨"/c", "C"⟩], some [⟨"/a", "A"⟩, ⟨"/c", "B"⟩]) := by
    decide +kernel
  obtain ⟨s, hs, hsummary⟩ := Option.map_eq_some_iff.mp hrun
  obtain ⟨hdocs, hclose⟩ := Prod.mk.inj hsummary
  obtain ⟨s', hstep, hdocs'⟩ := Option.map_eq_some_iff.mp hclose
  have hfollows := ((h s (.run (.init ⟨_, rfl⟩) hs)).2 _ s' hstep).1
  rcases hfollows with heq | heq <;> rw [hdocs, hdocs'] at heq
  · exact nomatch heq
  · exact absurd heq (by decide)

end NiraOS.Notepad
