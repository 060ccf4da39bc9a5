import NiraOS.Notepad.Placement
import Mathlib.Data.List.InsertIdx

/-!
# Tabs keep their documents

What the notepad is for: a list of documents, each a path and a text, one of which is shown
in the editor.  `docs` reads them off the window: the editor's text is the text of the current
tab, the other texts are stored with their rows.  Switching should not change them; opening,
editing, saving and closing should change the document concerned and no other (`Follows`), and
a save should write a document to its own path (`WritesOwn`).

The window keeps to that unless a row is removed before one that holds another document, a tab
that was edited without ever being loaded is left, the first row comes with a text that the
editor does not show, or a file holds a text that the editor does not give back as it is
(`Confined`).
-/

namespace NiraOS.Notepad

open TextDocument (toPlainText)

/-! ## Documents -/

structure Doc where
  path : String
  text : String
  deriving DecidableEq

def Doc.withText (text : String) (d : Doc) : Doc := { d with text := text }

def Doc.withPath (path : String) (d : Doc) : Doc := { d with path := path }

def blank : Doc := ⟨"", ""⟩

/-- The document that is stored with a row. -/
def Tab.doc (t : Tab) : Doc := ⟨t.filePath, t.savedContent⟩

def modifyAt {α : Type*} (l : List α) (index : Option ℕ) (f : α → α) : List α :=
  match index with
  | none => l
  | some i => l.modify i f

def State.docs (s : State) : List Doc :=
  modifyAt (s.tabs.map Tab.doc) s.currentIndex (Doc.withText s.editor)

def State.currentDoc (s : State) : Option Doc := s.currentIndex.bind fun i => s.docs[i]?

/-- The path of the window is that of the current tab. -/
def State.Coherent (s : State) : Prop :=
  s.tabs ≠ [] → ∃ t, s.currentTab = some t ∧ s.docPath = t.filePath

/-- One document is closed; there is always one left. -/
def closed (docs : List Doc) (i : ℕ) : List Doc :=
  if docs.eraseIdx i = [] then [blank] else docs.eraseIdx i

/-- What an event does to the documents. -/
def Follows (s : State) (e : Event) (s' : State) : Prop :=
  match e with
  | .completed none | .newTab => s'.docs = s.docs ++ [blank]
  | .completed (some (path, .success content)) | .openPath path (.success content) =>
      s'.docs = s.docs ++ [⟨path, content⟩] ∨
        s'.docs = modifyAt s.docs s.currentIndex fun _ => ⟨path, content⟩
  | .edit text => s'.docs = modifyAt s.docs s.currentIndex (Doc.withText text)
  | .saveCurrentAs path _ =>
      s'.docs = s.docs ∨ s'.docs = modifyAt s.docs s.currentIndex (Doc.withPath path)
  | .closeTab index _ => s'.docs = s.docs ∨ s'.docs = closed s.docs index
  | .discard _ | .saveThenClose .. =>
      s'.docs = s.docs ∨ ∃ i, s.pendingCloseIndex = some i ∧ s'.docs = closed s.docs i
  | _ => s'.docs = s.docs

/-- What an event does to the disk. -/
def WritesOwn (s : State) (e : Event) (s' : State) : Prop :=
  match e with
  | .saveCurrent faults | .autoSave faults | .saveThenClose faults _ =>
      s'.disk = s.disk ∨ ∃ doc, s.currentDoc = some doc ∧
        s'.disk = (writeFile faults s.disk doc.path doc.text).2
  | .saveCurrentAs path faults =>
      s'.disk = (writeFile faults s.disk path s.editor).2 ∧
        ((writeFile faults s.disk path s.editor).1 = true → ∀ doc, s'.currentDoc = some doc →
          doc = ⟨path, s.editor⟩)
  | _ => s'.disk = s.disk

/-! ## The condition -/

/-- The current tab is loaded, or was not edited. -/
def State.LeavesTruly (s : State) : Prop :=
  s.loadedTabIndex = none → ∀ t, s.currentTab = some t → s.editor = t.savedContent

/-- A first row is what the editor shows already. -/
def State.OpensOwn (s : State) (path content : String) : Prop :=
  if s.tabs = [] then s.editor = content ∧ s.docPath = path else s.LeavesTruly

/-- The text on screen does not end up in another row: the next row takes the index without a
signal only if it holds the same document, and is flushed over only if it holds the same text. -/
def State.Removable (s : State) (index : ℕ) (selected : Option ℕ) : Prop :=
  match s.docs[index + 1]? with
  | none => s.tabs.length = 1 → selected = some 0 → s.docs[index]? = some blank
  | some next =>
      if selected = some index then s.docs[index]? = some next
      else s.currentIndex = some index ∧ s.loadedTabIndex = none ∨
        s.docs[index]?.map Doc.text = some next.text

def Confined (s : State) : Event → Prop
  | .completed none | .newTab => s.OpensOwn "" ""
  | .completed (some (path, .success content)) =>
      toPlainText content = content ∧ s.OpensOwn path content
  | .openPath path (.success content) =>
      toPlainText content = content ∧
        ((∃ t, s.currentTab = some t ∧ t.filePath = "" ∧ t.modified = false) ∨
          s.OpensOwn path content)
  | .selectTab index => s.currentIndex ≠ some index → s.LeavesTruly
  | .closeTab index selected =>
      index < s.tabs.length →
        (s.currentIndex ≠ some index → s.LeavesTruly) ∧
          ((∀ t, s.tabAt (some index) = some t → t.modified = false) → s.Removable index selected)
  | .discard selected => ∀ i, s.pendingCloseIndex = some i → s.Removable i selected
  | .saveThenClose _ selected =>
      s.docPath ≠ "" → ∀ i, s.pendingCloseIndex = some i → s.Removable i selected
  | .close =>
      ∀ i, (s.flushEditorToModel s.loadedTabIndex).tabs.findIdx? Tab.modified = some i →
        s.currentIndex ≠ some i → s.LeavesTruly
  | _ => True

/-! ## Reading the documents off the rows -/

section Rows

variable {α β : Type*}

theorem modifyAt_eq_self {l : List α} {index : Option ℕ} {f : α → α}
    (h : ∀ i a, index = some i → l[i]? = some a → f a = a) : modifyAt l index f = l := by
  cases index with
  | none => rfl
  | some i =>
      refine List.ext_getElem? fun j => ?_
      rw [modifyAt, List.getElem?_modify]
      by_cases hij : i = j
      · cases ha : l[j]? with
        | none => rfl
        | some a =>
            simp only [Option.map_eq_map, Option.map_some, if_pos hij]
            rw [h i a rfl (hij ▸ ha)]
      · simp only [if_neg hij]
        exact Option.map_id' ..

theorem map_modifyAt {d : α → β} {f : α → α} {g : β → β} (h : ∀ a, d (f a) = g (d a)) (l : List α)
    (index : Option ℕ) : (modifyAt l index f).map d = modifyAt (l.map d) index g := by
  cases index with
  | none => rfl
  | some i =>
      refine List.ext_getElem? fun j => ?_
      simp only [modifyAt, List.getElem?_map, List.getElem?_modify]
      cases l[j]? with
      | none => rfl
      | some a =>
          simp only [Option.map_eq_map, Option.map_some]
          split_ifs
          · rw [h]
          · rfl

@[simp] theorem length_modifyAt (l : List α) (index : Option ℕ) (f : α → α) :
    (modifyAt l index f).length = l.length := by
  cases index with
  | none => rfl
  | some i => exact List.length_modify ..

theorem State.tabs_setTab (s : State) (index : Option ℕ) (f : Tab → Tab) :
    (s.setTab index f).tabs = modifyAt s.tabs index f := by
  cases index <;> rfl

@[simp] theorem State.length_docs (s : State) : s.docs.length = s.tabs.length := by
  rw [State.docs, length_modifyAt, List.length_map]

end Rows

section Docs

variable {s : State}

/-- A tab that is shown as it is stored. -/
theorem State.docs_of_stored (h : ∀ t, s.currentTab = some t → s.editor = t.savedContent) :
    s.docs = s.tabs.map Tab.doc := by
  refine modifyAt_eq_self fun i d hi hd => ?_
  rw [List.getElem?_map] at hd
  obtain ⟨t, ht, rfl⟩ := Option.map_eq_some_iff.mp hd
  have hcurrent : s.currentTab = some t := by
    rw [State.currentTab, hi]
    exact ht
  rw [Doc.withText, h t hcurrent]
  rfl

theorem State.docs_showing {i : ℕ} {t : Tab} (ht : s.tabAt (some i) = some t)
    (hplain : toPlainText t.savedContent = t.savedContent) :
    (s.showing i t).docs = s.tabs.map Tab.doc :=
  State.docs_of_stored (s := s.showing i t) fun t' ht' => by
    obtain rfl := Option.some.inj (ht.symm.trans ht')
    exact hplain

theorem State.coherent_showing {i : ℕ} {t : Tab} (ht : s.tabAt (some i) = some t) :
    (s.showing i t).Coherent :=
  fun _ => ⟨t, ht, rfl⟩

/-- The flush on leaving a tab stores its text. -/
theorem State.stored_of_leavesTruly (h : s.LoadedIsCurrent) (hleaves : s.LeavesTruly) :
    (s.flushEditorToModel s.loadedTabIndex).tabs.map Tab.doc = s.docs := by
  have hflush : (s.flushEditorToModel s.loadedTabIndex).tabs.map Tab.doc =
      modifyAt (s.tabs.map Tab.doc) s.loadedTabIndex (Doc.withText s.editor) := by
    rw [State.flushEditorToModel, State.tabs_setTab]
    rw [map_modifyAt (d := Tab.doc) (g := Doc.withText s.editor) fun _ => rfl]
  rw [hflush]
  rcases h with hl | hl
  · rw [State.docs_of_stored (hleaves hl), hl]
    rfl
  · rw [hl]
    rfl

/-- A tab that is brought up is shown as it is stored. -/
theorem State.shown_setCurrentIndex (h : s.LoadedIsCurrent) (hplain : s.Plain) {i : ℕ}
    (hi : i < s.tabs.length)
    (hcurrent : s.currentIndex ≠ some i) :
    (s.setCurrentIndex (some i)).tabs = (s.flushEditorToModel s.loadedTabIndex).tabs ∧
      (s.setCurrentIndex (some i)).docs = (s.setCurrentIndex (some i)).tabs.map Tab.doc ∧
        (s.setCurrentIndex (some i)).Coherent := by
  obtain ⟨t, ht⟩ := State.tabAt_of_lt hi
  have hne := h.ne hcurrent
  have hflushed : (s.flushEditorToModel s.loadedTabIndex).tabAt (some i) = some t := by
    rw [State.flushEditorToModel, State.tabAt_setTab, if_neg hne, ht]
  rw [State.setCurrentIndex_of_ne hcurrent hne ht]
  exact ⟨rfl, State.docs_showing hflushed (hplain.row ht), State.coherent_showing hflushed⟩

/-- **Switching** keeps every document. -/
theorem docs_setCurrentIndex (h : s.LoadedIsCurrent) (hplain : s.Plain) (hcoherent : s.Coherent)
    {i : ℕ} (hi : i < s.tabs.length) (hleaves : s.currentIndex ≠ some i → s.LeavesTruly) :
    (s.setCurrentIndex (some i)).docs = s.docs ∧ (s.setCurrentIndex (some i)).Coherent := by
  by_cases hcurrent : s.currentIndex = some i
  · rw [State.setCurrentIndex_self hcurrent]
    exact ⟨rfl, hcoherent⟩
  · obtain ⟨htabs, hdocs, hshown⟩ := State.shown_setCurrentIndex h hplain hi hcurrent
    rw [hdocs, htabs]
    exact ⟨State.stored_of_leavesTruly h (hleaves hcurrent), hshown⟩

end Docs

/-! ## Removing a row -/

section Removing

variable {s : State}

/-- A row is brought up while no other one is loaded. -/
theorem State.docs_bringUp (hloaded : s.loadedTabIndex = none) (hplain : s.Plain) {i : ℕ}
    (hi : i < s.tabs.length)
    (hshown : s.currentIndex = some i → s.docs = s.tabs.map Tab.doc ∧ s.Coherent) :
    (s.setCurrentIndex (some i)).docs = s.tabs.map Tab.doc ∧
    (s.setCurrentIndex (some i)).Coherent := by
  by_cases hcurrent : s.currentIndex = some i
  · rw [State.setCurrentIndex_self hcurrent]
    exact hshown hcurrent
  · obtain ⟨htabs, hdocs, hcoherent⟩ :=
      State.shown_setCurrentIndex (.inl hloaded) hplain hi hcurrent
    rw [hloaded] at htabs
    rw [hdocs, htabs]
    exact ⟨rfl, hcoherent⟩

/-- What is left of the documents is stored with the rows that are left. -/
theorem State.stored_eraseIdx {index : ℕ} (hcurrent : s.currentIndex = some index) :
    (s.tabs.eraseIdx index).map Tab.doc = s.docs.eraseIdx index := by
  rw [State.docs, hcurrent, modifyAt, List.eraseIdx_modify_of_eq, List.eraseIdx_map]

theorem State.docs_of_ne {i : ℕ} (hi : s.currentIndex ≠ some i) :
    s.docs[i]? = (s.tabAt (some i)).map Tab.doc := by
  unfold State.docs modifyAt
  cases hc : s.currentIndex with
  | none => exact List.getElem?_map ..
  | some c =>
      have hne : c ≠ i := fun heq => hi (heq ▸ hc)
      dsimp only
      rw [List.getElem?_modify_ne _ _ hne, List.getElem?_map]
      rfl

/-- The document on screen is the current one. -/
theorem State.Coherent.currentDoc (h : s.Coherent) (htabs : s.tabs ≠ []) :
    s.currentDoc = some ⟨s.docPath, s.editor⟩ := by
  obtain ⟨t, ht, hpath⟩ := h htabs
  cases hc : s.currentIndex with
  | none =>
      rw [State.currentTab, hc] at ht
      nomatch ht
  | some c =>
      rw [State.currentTab, hc] at ht
      have hrow : s.tabs[c]? = some t := ht
      rw [State.currentDoc, State.docs, hc, modifyAt, Option.bind_some, List.getElem?_modify_eq,
        List.getElem?_map, hrow, hpath]
      rfl

theorem State.Coherent.eq_of_currentDoc (h : s.Coherent) {d : Doc} (hd : s.currentDoc = some d) :
    d = ⟨s.docPath, s.editor⟩ := by
  refine Option.some.inj (hd.symm.trans (h.currentDoc fun hnil => ?_))
  have hdocs : s.docs = [] := List.length_eq_zero_iff.mp (by rw [State.length_docs, hnil]; rfl)
  obtain ⟨c, -, hc⟩ := Option.bind_eq_some_iff.mp hd
  rw [hdocs] at hc
  nomatch hc

/-- A flush over a row that holds the same text. -/
theorem State.stored_flush_of_eq {index : Option ℕ}
    (h : ∀ t, s.tabAt index = some t → t.savedContent = s.editor) :
    (s.flushEditorToModel index).tabs.map Tab.doc = s.tabs.map Tab.doc := by
  rw [State.flushEditorToModel, State.tabs_setTab, map_modifyAt (d := Tab.doc)
    (g := Doc.withText s.editor) fun _ => rfl]
  refine modifyAt_eq_self fun i d hi hd => ?_
  rw [List.getElem?_map] at hd
  obtain ⟨t, ht, rfl⟩ := Option.map_eq_some_iff.mp hd
  rw [Doc.withText, ← h t (by rw [hi]; exact ht)]
  rfl

/-- The rows while the tab bar selects another index. -/
theorem State.stored_setCurrentIndex (s : State) (index : Option ℕ) :
    (s.setCurrentIndex index).tabs = s.tabs ∨
      s.currentIndex ≠ index ∧
        (s.setCurrentIndex index).tabs = (s.flushEditorToModel s.loadedTabIndex).tabs := by
  unfold State.setCurrentIndex State.onCurrentIndexChanged
  split_ifs with hcurrent hloaded
  · exact .inl rfl
  · exact .inl rfl
  · refine .inr ⟨hcurrent, ?_⟩
    unfold State.loadEditorFromCurrent
    split <;> rfl

/-- The window once the row is gone and the tab bar has selected an index. -/
def State.erased (s : State) (index : ℕ) (selected : Option ℕ) : State :=
  { s with tabs := s.tabs.eraseIdx index }.setCurrentIndex selected

variable {index : ℕ} {selected : Option ℕ}

/-- The documents that are left are stored with the rows that are left. -/
theorem State.Removable.stored (hremovable : s.Removable index selected) (h : s.Placed)
    (hcoherent : s.Coherent) (htabs : s.tabs ≠ []) (hcurrent : s.currentIndex = some index) :
    (s.erased index selected).tabs.map Tab.doc = s.docs.eraseIdx index := by
  rcases State.stored_setCurrentIndex { s with tabs := s.tabs.eraseIdx index } selected with
    heq | ⟨hselected, heq⟩
  · rw [State.erased, heq]
    exact State.stored_eraseIdx hcurrent
  · rw [State.erased, heq, ← State.stored_eraseIdx hcurrent]
    refine State.stored_flush_of_eq fun t ht => ?_
    rcases h.loaded with hl | hl
    · rw [show State.loadedTabIndex { s with tabs := s.tabs.eraseIdx index } = none from hl] at ht
      nomatch ht
    · -- the flush hits the row that took the index
      rw [show State.loadedTabIndex { s with tabs := s.tabs.eraseIdx index } = some index from
        hl.trans hcurrent] at ht
      have hnext : s.tabAt (some (index + 1)) = some t :=
        (List.getElem?_eraseIdx_of_ge (Nat.le_refl index)).symm.trans ht
      have hdoc : s.docs[index + 1]? = some t.doc := by
        rw [State.docs_of_ne (by rw [hcurrent]; simp), hnext]
        rfl
      have hshown : s.docs[index]? = some ⟨s.docPath, s.editor⟩ := by
        rw [← hcoherent.currentDoc htabs, State.currentDoc, hcurrent]
        rfl
      unfold State.Removable at hremovable
      rw [hdoc, hshown] at hremovable
      dsimp only at hremovable
      rw [if_neg fun heq => hselected (hcurrent.trans heq.symm)] at hremovable
      rcases hremovable with ⟨-, hnone⟩ | hsame
      · rw [hl, hcurrent] at hnone
        nomatch hnone
      · exact (Option.some.inj hsame).symm

/-- The tab bar has selected the index of the row that is shown in the end. -/
theorem State.Removable.shown (hremovable : s.Removable index selected) (h : s.Placed)
    (hplain : s.Plain) (hcoherent : s.Coherent) (hcurrent : s.currentIndex = some index)
    (hi : index < s.tabs.length)
    (hleft : s.tabs.eraseIdx index ≠ [])
    (hselected : selected = some (min index ((s.tabs.eraseIdx index).length - 1))) :
    (s.erased index selected).docs = (s.erased index selected).tabs.map Tab.doc ∧
      (s.erased index selected).Coherent := by
  have hlength := List.length_eraseIdx_of_lt hi
  have hpos := List.length_pos_of_ne_nil hleft
  by_cases hsame : selected = some index
  · -- no signal: the next row is shown already
    have herased : s.erased index selected = { s with tabs := s.tabs.eraseIdx index } :=
      State.setCurrentIndex_self (hcurrent.trans hsame.symm)
    have hmin := Option.some.inj (hsame.symm.trans hselected)
    obtain ⟨next, hnext⟩ := State.tabAt_of_lt (s := s) (i := index + 1) (by omega)
    have hrow : State.currentTab { s with tabs := s.tabs.eraseIdx index } = some next := by
      rw [State.currentTab, show State.currentIndex { s with tabs := s.tabs.eraseIdx index } =
        some index from hcurrent]
      exact (List.getElem?_eraseIdx_of_ge (Nat.le_refl index)).trans hnext
    have hdoc : s.docs[index + 1]? = some next.doc := by
      rw [State.docs_of_ne (by rw [hcurrent]; simp), hnext]
      rfl
    have hshown : s.docs[index]? = some ⟨s.docPath, s.editor⟩ := by
      rw [← hcoherent.currentDoc (List.ne_nil_of_length_pos (by omega)), State.currentDoc, hcurrent]
      rfl
    unfold State.Removable at hremovable
    rw [hdoc, hshown] at hremovable
    dsimp only at hremovable
    rw [if_pos hsame] at hremovable
    obtain ⟨hpath, htext⟩ := Doc.mk.inj (Option.some.inj hremovable)
    rw [herased]
    refine ⟨State.docs_of_stored fun t ht => ?_, fun _ => ⟨next, hrow, hpath⟩⟩
    obtain rfl := Option.some.inj (hrow.symm.trans ht)
    exact htext
  · -- the signal came and has shown the row
    have hne : s.currentIndex ≠ some (min index ((s.tabs.eraseIdx index).length - 1)) := by
      rw [hcurrent, ← hselected]
      exact fun heq => hsame heq.symm
    have hlt : min index ((s.tabs.eraseIdx index).length - 1) < (s.tabs.eraseIdx index).length := by
      omega
    rw [State.erased, hselected]
    exact (State.shown_setCurrentIndex (s := { s with tabs := s.tabs.eraseIdx index }) h.loaded
      (hplain.eraseIdx index) hlt hne).2

/-- A blank tab takes the place of the only one. -/
theorem docs_newTab_of_erased {u : State} (hplain : u.Plain) (htabs : u.tabs = [])
    (hloaded : u.loadedTabIndex = none)
    (hshown : u.currentIndex = some 0 → u.editor = "" ∧ u.docPath = "") :
    (u.newTab "" "").docs = [blank] ∧ (u.newTab "" "").Coherent := by
  have hrows : (u.appendTab "" "").tabs = [u.freshTab "" ""] := by
    rw [State.appendTab, htabs]
    rfl
  have hlength : u.tabs.length = 0 := by rw [htabs]; rfl
  unfold State.newTab
  rw [hlength]
  have hbring := State.docs_bringUp (s := u.appendTab "" "") (i := 0) hloaded
    (hplain.appendTab "" rfl) (by rw [hrows]; exact Nat.zero_lt_one) fun hzero => ?_
  · rw [hrows] at hbring
    exact hbring
  · have hrow : (u.appendTab "" "").currentTab = some (u.freshTab "" "") := by
      rw [State.currentTab, hzero, State.tabAt, hrows]
      rfl
    obtain ⟨heditor, hpath⟩ := hshown hzero
    refine ⟨State.docs_of_stored fun t ht => ?_, fun _ => ⟨_, hrow, hpath⟩⟩
    obtain rfl := Option.some.inj (hrow.symm.trans ht)
    exact heditor

/-- **Closing** a tab closes its document. -/
theorem docs_removeTabImmediately (h : s.Placed) (hplain : s.Plain) (hcoherent : s.Coherent)
    (hcurrent : s.currentIndex = some index) (hi : index < s.tabs.length)
    (hremovable : s.Removable index selected) :
    (s.removeTabImmediately index selected).docs = closed s.docs index ∧
      (s.removeTabImmediately index selected).Coherent := by
  have htabs : s.tabs ≠ [] := List.ne_nil_of_length_pos (by omega)
  have hstored := hremovable.stored h hcoherent htabs hcurrent
  have hlength : (s.erased index selected).tabs.length = (s.tabs.eraseIdx index).length :=
    State.length_setCurrentIndex ..
  have hindex : (s.erased index selected).currentIndex = selected :=
    State.currentIndex_setCurrentIndex ..
  have herased : (s.erased index selected).Plain := (hplain.eraseIdx index).setCurrentIndex selected
  have hunloaded : State.Plain { s.erased index selected with loadedTabIndex := none } :=
    ⟨herased.editor, herased.rows⟩
  have hnil : s.docs.eraseIdx index = [] ↔ (s.erased index selected).tabs = [] := by
    rw [← hstored, List.map_eq_nil_iff]
  unfold State.removeTabImmediately
  rw [if_neg htabs]
  change (State.docs (if (s.erased index selected).tabs = [] then _ else _)) = _ ∧
    State.Coherent (if (s.erased index selected).tabs = [] then _ else _)
  unfold closed
  split
  · next hempty =>
      rw [if_pos (hnil.mpr hempty)]
      refine docs_newTab_of_erased (u := { s.erased index selected with loadedTabIndex := none })
        hunloaded hempty rfl fun hzero => ?_
      -- no signal: the tab bar still selects the only tab
      have hone : s.tabs.length = 1 := by
        rw [hempty, List.length_eraseIdx_of_lt hi] at hlength
        have : 0 = s.tabs.length - 1 := hlength
        omega
      obtain rfl : index = 0 := by omega
      have hsame : selected = some 0 := hindex.symm.trans hzero
      have herased : s.erased 0 selected = { s with tabs := s.tabs.eraseIdx 0 } :=
        State.setCurrentIndex_self (hcurrent.trans hsame.symm)
      have hlast : s.docs[0 + 1]? = none :=
        List.getElem?_eq_none (by rw [State.length_docs]; omega)
      unfold State.Removable at hremovable
      rw [hlast] at hremovable
      have hblank := hremovable hone hsame
      have hshown : s.docs[0]? = some ⟨s.docPath, s.editor⟩ := by
        rw [← hcoherent.currentDoc htabs, State.currentDoc, hcurrent]
        rfl
      obtain ⟨hpath, htext⟩ := Doc.mk.inj (Option.some.inj (hshown.symm.trans hblank))
      rw [herased]
      exact ⟨htext, hpath⟩
  · next hleft =>
      rw [if_neg fun heq => hleft (hnil.mp heq), ← hstored]
      have hpos := List.length_pos_of_ne_nil hleft
      refine State.docs_bringUp (s := { s.erased index selected with loadedTabIndex := none }) rfl
        hunloaded ?_ fun heq => ?_
      · exact Nat.lt_of_le_of_lt (Nat.min_le_right ..) (Nat.sub_lt hpos Nat.zero_lt_one)
      · refine hremovable.shown h hplain hcoherent hcurrent hi ?_ ?_
        · exact List.ne_nil_of_length_pos (hlength ▸ hpos)
        · rw [← hlength]
          exact hindex.symm.trans heq

end Removing

/-! ## Adding a row -/

section Adding

variable {s : State}

theorem modify_concat {α : Type*} {l : List α} {c : ℕ} (hlt : c < l.length) (f : α → α) (a : α) :
    (l ++ [a]).modify c f = l.modify c f ++ [a] := by
  refine List.ext_getElem? fun j => ?_
  rw [List.getElem?_modify]
  by_cases hj : j < l.length
  · rw [List.getElem?_append_left hj, List.getElem?_append_left (by rwa [List.length_modify]),
      List.getElem?_modify]
  · have hne : c ≠ j := fun heq => hj (heq ▸ hlt)
    have hle : l.length ≤ j := Nat.le_of_not_lt hj
    rw [List.getElem?_append_right hle, List.getElem?_append_right (by rwa [List.length_modify]),
      List.length_modify]
    simp only [if_neg hne]
    exact Option.map_id' ..

theorem State.docs_appendTab {c : ℕ} (hc : s.currentIndex = some c) (hlt : c < s.tabs.length)
    (path content : String) : (s.appendTab path content).docs = s.docs ++ [⟨path, content⟩] := by
  unfold State.docs modifyAt
  rw [show (s.appendTab path content).currentIndex = some c from hc, hc]
  dsimp only
  change List.modify (List.map Tab.doc (s.tabs ++ [s.freshTab path content])) c _ = _
  rw [List.map_append]
  exact modify_concat (by rwa [List.length_map]) ..

/-- **Opening** in a tab of its own adds a document. -/
theorem docs_newTab (h : s.Placed) (hplain : s.Plain) {path content : String}
    (hcontent : toPlainText content = content) (hopens : s.OpensOwn path content) :
    (s.newTab path content).docs = s.docs ++ [⟨path, content⟩] ∧
    (s.newTab path content).Coherent := by
  obtain ⟨c, hc, hlt⟩ := h.current
  unfold State.OpensOwn at hopens
  by_cases htabs : s.tabs = []
  · rw [if_pos htabs] at hopens
    rw [State.newTab_of_nil h htabs]
    have hrows : (s.appendTab path content).tabs = [s.freshTab path content] := by
      rw [State.appendTab, htabs]
      rfl
    have hrow : (s.appendTab path content).currentTab = some (s.freshTab path content) := by
      rw [htabs] at hlt
      obtain rfl : c = 0 := Nat.lt_one_iff.mp hlt
      rw [State.currentTab, show (s.appendTab path content).currentIndex = some 0 from hc,
        State.tabAt, hrows]
      rfl
    have hdocs : s.docs = [] := List.length_eq_zero_iff.mp (by rw [State.length_docs, htabs]; rfl)
    refine ⟨?_, fun _ => ⟨_, hrow, hopens.2⟩⟩
    rw [State.docs_of_stored, hrows, hdocs]
    · rfl
    · intro t ht
      obtain rfl := Option.some.inj (hrow.symm.trans ht)
      exact hopens.1
  · rw [if_neg htabs] at hopens
    have hpos := List.length_pos_of_ne_nil htabs
    have hclt : c < s.tabs.length := by omega
    have hleaves : (s.appendTab path content).LeavesTruly := by
      intro hloaded t ht
      refine hopens hloaded t ?_
      rw [State.currentTab, hc, ← State.tabAt_appendTab_of_ne (Nat.ne_of_lt hclt) path content]
      rw [State.currentTab, show (s.appendTab path content).currentIndex = some c from hc] at ht
      exact ht
    have hne : s.currentIndex ≠ some s.tabs.length := by
      rw [hc]
      exact fun heq => Nat.ne_of_lt hclt (Option.some.inj heq)
    have hlast : s.tabs.length < (s.appendTab path content).tabs.length := by
      rw [State.appendTab, List.length_append]
      exact Nat.lt_succ_self _
    rw [← State.docs_appendTab hc hclt]
    obtain ⟨hrows, hdocs, hcoherent⟩ :=
      State.shown_setCurrentIndex (s := s.appendTab path content) h.loaded
        (hplain.appendTab path hcontent) hlast hne
    refine ⟨?_, hcoherent⟩
    rw [State.newTab, hdocs, hrows]
    exact State.stored_of_leavesTruly (s := s.appendTab path content) h.loaded hleaves

end Adding

/-! ## Changing the current document -/

section Changing

variable {s s' : State} {f : Tab → Tab}

/-- The current row and the editor are set together. -/
theorem docs_of_setTab (g : Doc → Doc) (htabs : s'.tabs = (s.setTab s.currentIndex f).tabs)
    (hindex : s'.currentIndex = s.currentIndex)
    (hdoc : ∀ t, (f t).doc.withText s'.editor = g (t.doc.withText s.editor)) :
    s'.docs = modifyAt s.docs s.currentIndex g := by
  unfold State.docs
  rw [htabs, hindex, State.tabs_setTab]
  cases s.currentIndex with
  | none => rfl
  | some c =>
      refine List.ext_getElem? fun j => ?_
      simp only [modifyAt, List.getElem?_map, List.getElem?_modify]
      cases s.tabs[j]? with
      | none => rfl
      | some t =>
          simp only [Option.map_eq_map, Option.map_some]
          split_ifs
          · rw [hdoc]
          · rfl

theorem docs_of_setTab_self (htabs : s'.tabs = (s.setTab s.currentIndex f).tabs)
    (hindex : s'.currentIndex = s.currentIndex)
    (hdoc : ∀ t, (f t).doc.withText s'.editor = t.doc.withText s.editor) : s'.docs = s.docs :=
  (docs_of_setTab id htabs hindex hdoc).trans (modifyAt_eq_self fun _ _ _ _ => rfl)

theorem State.Coherent.setTab (h : s.Coherent) (htabs : s'.tabs = (s.setTab s.currentIndex f).tabs)
    (hindex : s'.currentIndex = s.currentIndex)
    (hpath : ∀ t, s.docPath = t.filePath → s'.docPath = (f t).filePath) : s'.Coherent := by
  intro hne
  have hlength := congrArg List.length htabs
  rw [State.length_setTab] at hlength
  obtain ⟨t, ht, heq⟩ := h (List.ne_nil_of_length_pos (hlength ▸ List.length_pos_of_ne_nil hne))
  exact ⟨f t, by rw [State.currentTab_of_setTab htabs hindex, ht]; rfl, hpath t heq⟩

end Changing

end NiraOS.Notepad
