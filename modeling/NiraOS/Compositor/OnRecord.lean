import NiraOS.Compositor.KeyboardFocus

/-!
# The windows on record

What `WindowManagerDBus` has of a window should be what the window is (`Truthful`).  Three handlers
write a record, each a part of it:

* `createObject`: the title and the app id, of a window that is neither minimised nor focused;
* `updateWindowMetadata`: the title and the app id.  A window that looks like the shell before it
  has content is passed over there, for `onHasContentChanged` will take it off the record, and it
  may keep an older title if another shell comes first;
* `updateWindowState`: both flags at once.  `reportState` has them from the chrome; `updateFocus`
  has one of them from the chrome that it finds in `__windowMap`, the other is what the focus has
  come to.

A change of the focus writes the flags of two windows and nothing else that is seen here
(`Refocused`), so that `Records` is proved of each handler but for the focus that it gives away.
-/

namespace NiraOS.Compositor.Windows

/-! ## What should be on record -/

def Chrome.title (ch : Chrome) : String := (ch.toplevel.map Toplevel.title).getD ""

def Chrome.appId (ch : Chrome) : String := (ch.toplevel.map Toplevel.appId).getD ""

/-- A window that is there. -/
def Chrome.Live (ch : Chrome) : Prop := ch.isShell = false ∧ ch.destroyed = false

structure State.OnRecord (s : State) (c : ℕ) (ch : Chrome) (record : WindowRecord) : Prop where
  named : isShellSurface ch.toplevel = false → record.title = ch.title ∧ record.appId = ch.appId
  minimized : record.minimized = ch.windowMinimized
  focused : record.focused = decide (s.activeFocusSurface = some c)

/-- **The registry tells the truth** of the windows that are there, and has no others. -/
structure Truthful (s : State) : Prop where
  distinct : s.registry.listWindowIds.Nodup
  once : ∀ c c' ch ch', s.chromes c = some ch → s.chromes c' = some ch' → ch.Live → ch'.Live →
    ch.windowId = ch'.windowId → c = c'
  sound : ∀ id record, s.registry.lookup id = some record →
    ∃ c ch, s.chromes c = some ch ∧ ch.Live ∧ ch.windowId = id ∧ s.OnRecord c ch record
  complete : ∀ c ch, s.chromes c = some ch → ch.Live →
    ∃ record, s.registry.lookup ch.windowId = some record ∧ s.OnRecord c ch record

/-! ## What is kept of a window -/

section Windows

variable (windowMap : List (String × ℕ)) (registry : Registry) (c : ℕ) (ch : Chrome)

structure Named : Prop where
  identified : ch.windowId ≠ ""
  mapped : windowMap.lookup ch.windowId = some c
  named : ∀ record, registry.lookup ch.windowId = some record → isShellSurface ch.toplevel = false →
    record.title = ch.title ∧ record.appId = ch.appId
  visible : ch.visible = !ch.windowMinimized

structure Described : Prop extends Named windowMap registry c ch where
  minimized : ∀ record, registry.lookup ch.windowId = some record →
    record.minimized = ch.windowMinimized

end Windows

structure State.Records (s : State) : Prop where
  distinct : (Assoc.keys s.registry).Nodup
  windows : ∀ c ch, s.chromes c = some ch → ch.isShell = false →
    Described s.windowMap s.registry c ch

section Described

variable {windowMap windowMap' : List (String × ℕ)} {registry registry' : Registry} {c d : ℕ}
    {ch other : Chrome}

theorem Described.congr (h : Described windowMap registry c ch)
    (hmap : windowMap'.lookup ch.windowId = windowMap.lookup ch.windowId)
    (hregistry : registry'.lookup ch.windowId = registry.lookup ch.windowId) :
    Described windowMap' registry' c ch where
  identified := h.identified
  mapped := hmap.trans h.mapped
  named record hrecord := h.named record (hregistry.symm.trans hrecord)
  visible := h.visible
  minimized record hrecord := h.minimized record (hregistry.symm.trans hrecord)

/-- `__windowMap` keeps the ids apart. -/
theorem Named.windowId_ne (h : Named windowMap registry c ch)
    (hother : Named windowMap registry' d other)
    (hne : d ≠ c) : other.windowId ≠ ch.windowId := by
  intro heq
  have hmapped := hother.mapped
  rw [heq, h.mapped] at hmapped
  exact hne (Option.some.inj hmapped).symm

/-- Nothing is on record of a window that has gone. -/
theorem Named.of_unregistered (h : Named windowMap registry c ch)
    (hnone : registry'.lookup ch.windowId = none) :
    Described windowMap registry' c ch where
  identified := h.identified
  mapped := h.mapped
  named record hrecord := by
    rw [hnone] at hrecord
    cases hrecord
  visible := h.visible
  minimized record hrecord := by
    rw [hnone] at hrecord
    cases hrecord

end Described

theorem State.chromes_setChrome_same (s : State) (c : ℕ) (ch : Chrome) :
    (s.setChrome c ch).chromes c = some ch :=
  Function.update_self ..

theorem State.chromes_setChrome_of_ne (s : State) {c d : ℕ} (ch : Chrome) (hd : d ≠ c) :
    (s.setChrome c ch).chromes d = s.chromes d :=
  Function.update_of_ne hd ..

/-! ## The focus changes -/

/-- What a change of the focus may do to what is seen here. -/
structure Refocused (s s' : State) : Prop where
  chromes : ∀ c, ∃ b, s'.chromes c = (s.chromes c).map fun ch => { ch with isLocalFocus := b }
  windowMap : s'.windowMap = s.windowMap
  distinct : (Assoc.keys s.registry).Nodup → (Assoc.keys s'.registry).Nodup
  records : ∀ id record', s'.registry.lookup id = some record' →
    ∃ record, s.registry.lookup id = some record ∧
    record'.title = record.title ∧ record'.appId = record.appId ∧
    (record'.minimized = record.minimized ∨ ∃ c, s.windowMap.lookup id = some c ∧
      record'.minimized = ((s.chromes c).map Chrome.windowMinimized).getD false)

section Refocused

variable {s s' s'' : State} {c : ℕ} {ch : Chrome}

theorem Refocused.refl (s : State) : Refocused s s where
  chromes c := by
    cases s.chromes c with
    | none => exact ⟨false, rfl⟩
    | some ch => exact ⟨ch.isLocalFocus, rfl⟩
  windowMap := rfl
  distinct h := h
  records _ record h := ⟨record, h, rfl, rfl, Or.inl rfl⟩

theorem Refocused.minimized (h : Refocused s s') (c : ℕ) :
    (s'.chromes c).map Chrome.windowMinimized = (s.chromes c).map Chrome.windowMinimized := by
  obtain ⟨b, hb⟩ := h.chromes c
  rw [hb, Option.map_map]
  rfl

theorem Refocused.trans (h : Refocused s s') (h' : Refocused s' s'') : Refocused s s'' where
  chromes c := by
    obtain ⟨b, hb⟩ := h.chromes c
    obtain ⟨b', hb'⟩ := h'.chromes c
    refine ⟨b', ?_⟩
    rw [hb', hb, Option.map_map]
    rfl
  windowMap := h'.windowMap.trans h.windowMap
  distinct hnodup := h'.distinct (h.distinct hnodup)
  records id record'' hrecord := by
    obtain ⟨record', hrecord', htitle', happId', hminimized'⟩ := h'.records id record'' hrecord
    obtain ⟨record, hrecord, htitle, happId, hminimized⟩ := h.records id record' hrecord'
    refine ⟨record, hrecord, htitle'.trans htitle, happId'.trans happId, ?_⟩
    rcases hminimized' with hsame | ⟨c, hc, hchrome⟩
    · rw [hsame]
      exact hminimized
    · right
      refine ⟨c, h.windowMap ▸ hc, ?_⟩
      rw [hchrome, h.minimized]

theorem refocused_updateFocus (s : State) (id : String) (focused : Bool) :
    Refocused s (s.updateFocus id focused) := by
  unfold State.updateFocus
  split
  · exact .refl s
  · next c hc =>
      refine ⟨(Refocused.refl s).chromes, rfl, fun h => Registry.nodup_updateWindowState h .., ?_⟩
      intro other record' hrecord'
      rw [Registry.lookup_updateWindowState_eq_map] at hrecord'
      split_ifs at hrecord' with hother
      · obtain ⟨record, hrecord, rfl⟩ := Option.map_eq_some_iff.mp hrecord'
        exact ⟨record, hrecord, rfl, rfl, Or.inr ⟨c, hother ▸ hc, rfl⟩⟩
      · exact ⟨record', hrecord', rfl, rfl, Or.inl rfl⟩

theorem refocused_onActiveFocusSurfaceChanged (s : State) (surface : Option ℕ) :
    Refocused s (s.onActiveFocusSurfaceChanged surface) := by
  have hrefocus : Refocused s (s.refocus surface) := by
    refine ⟨fun c => ?_, rfl, id, fun _ record h => ⟨record, h, rfl, rfl, Or.inl rfl⟩⟩
    change ∃ b, (s.chromes c).map _ = _
    cases s.chromes c with
    | none => exact ⟨false, rfl⟩
    | some ch => exact ⟨decide (surface = ch.surface c), rfl⟩
  unfold State.onActiveFocusSurfaceChanged
  cases surface with
  | none => exact hrefocus
  | some focused =>
      dsimp only
      split_ifs
      · exact hrefocus
      · have hboth := (hrefocus.trans (refocused_updateFocus _ s.lastFocusedWinId false)).trans
          (refocused_updateFocus _ ((s.surfaceMap.lookup focused).getD "") true)
        exact ⟨hboth.chromes, hboth.windowMap, hboth.distinct, hboth.records⟩

theorem refocused_setKeyboardFocus (s : State) (surface : Option ℕ) :
    Refocused s (s.setKeyboardFocus surface) := by
  unfold State.setKeyboardFocus
  split_ifs
  · exact .refl s
  · exact refocused_onActiveFocusSurfaceChanged s surface

theorem refocused_takeFocus (s : State) (c : ℕ) : Refocused s (s.takeFocus c) := by
  unfold State.takeFocus
  split
  · exact .refl s
  · split_ifs
    · exact .refl s
    · exact refocused_setKeyboardFocus s _

theorem refocused_focusShell (s : State) : Refocused s s.focusShell := by
  unfold State.focusShell
  split
  · exact .refl s
  · exact refocused_takeFocus s _

theorem refocused_configured (s s' : State) : Refocused s' (s.configured s') := by
  unfold State.configured
  split_ifs
  · exact .refl s'
  · exact refocused_focusShell s'

theorem Refocused.named (h : Refocused s s') (b : Bool) (hch : Named s.windowMap s.registry c ch) :
    Named s'.windowMap s'.registry c { ch with isLocalFocus := b } where
  identified := hch.identified
  mapped := by
    rw [h.windowMap]
    exact hch.mapped
  named record' hrecord' hplain := by
    obtain ⟨record, hrecord, htitle, happId, -⟩ := h.records _ record' hrecord'
    rw [htitle, happId]
    exact hch.named record hrecord hplain
  visible := hch.visible

theorem Refocused.described (h : Refocused s s') (b : Bool) (hchrome : s.chromes c = some ch)
    (hch : Described s.windowMap s.registry c ch) :
    Described s'.windowMap s'.registry c { ch with isLocalFocus := b } where
  toNamed := h.named b hch.toNamed
  minimized record' hrecord' := by
    obtain ⟨record, hrecord, -, -, hminimized⟩ := h.records _ record' hrecord'
    rcases hminimized with hsame | ⟨d, hd, hself⟩
    · exact hsame.trans (hch.minimized record hrecord)
    · obtain rfl : d = c := Option.some.inj (hd.symm.trans hch.mapped)
      rw [hself, hchrome]
      rfl

theorem Refocused.exists_chrome (h : Refocused s s') {c : ℕ} {ch' : Chrome}
    (hch' : s'.chromes c = some ch') :
    ∃ ch b, s.chromes c = some ch ∧ ch' = { ch with isLocalFocus := b } := by
  obtain ⟨b, hb⟩ := h.chromes c
  rw [hb] at hch'
  obtain ⟨ch, hch, heq⟩ := Option.map_eq_some_iff.mp hch'
  exact ⟨ch, b, hch, heq.symm⟩

theorem Refocused.kept (h : Refocused s s') (hs : s.Records) : s'.Records where
  distinct := h.distinct hs.distinct
  windows c ch' hch' hwindow := by
    obtain ⟨ch, b, hch, rfl⟩ := h.exists_chrome hch'
    exact h.described b hch (hs.windows c ch hch hwindow)

end Refocused

/-! ## The handlers -/

section Kept

variable {s : State} {c : ℕ} {ch ch' : Chrome}

theorem records_setChrome (h : s.Records)
    (hself : ch'.isShell = false → Described s.windowMap s.registry c ch') :
    (s.setChrome c ch').Records where
  distinct := h.distinct
  windows d other hother hwindow := by
    change Function.update s.chromes c (some ch') d = some other at hother
    by_cases hd : d = c
    · subst hd
      rw [Function.update_self] at hother
      obtain rfl := Option.some.inj hother
      exact hself hwindow
    · rw [Function.update_of_ne hd] at hother
      exact h.windows d other hother hwindow

/-- **A report** sets right what is on record of the flags of one window. -/
theorem records_reportState (hdistinct : (Assoc.keys s.registry).Nodup)
    (hself : ∀ ch, s.chromes c = some ch → ch.isShell = false → Named s.windowMap s.registry c ch)
    (hshell : ∀ ch, s.chromes c = some ch → ch.isShell = true → ch.windowId = "")
    (hothers : ∀ d other, d ≠ c → s.chromes d = some other → other.isShell = false →
      Described s.windowMap s.registry d other) : (s.reportState c).Records := by
  unfold State.reportState
  split
  · next hnone =>
      refine ⟨hdistinct, fun d other hother hwindow => hothers d other ?_ hother hwindow⟩
      rintro rfl
      rw [hnone] at hother
      cases hother
  · next ch hch =>
      split_ifs with hid
      · refine ⟨hdistinct, fun d other hother hwindow => ?_⟩
        by_cases hd : d = c
        · subst hd
          obtain rfl := Option.some.inj (hch.symm.trans hother)
          exact absurd hid (hself ch hch hwindow).identified
        · exact hothers d other hd hother hwindow
      · have hlive : ch.isShell = false := Bool.eq_false_iff.mpr fun h => hid (hshell ch hch h)
        have hnamed := hself ch hch hlive
        refine ⟨Registry.nodup_updateWindowState hdistinct .., fun d other hother hwindow => ?_⟩
        by_cases hd : d = c
        · subst hd
          obtain rfl := Option.some.inj (hch.symm.trans hother)
          have hrecords : ∀ record', (s.registry.updateWindowState ch.windowId ch.windowMinimized
              ch.isLocalFocus).1.lookup ch.windowId = some record' → ∃ record,
              s.registry.lookup ch.windowId = some record ∧
                record' = ⟨record.title, record.appId, ch.windowMinimized, ch.isLocalFocus⟩ := by
            intro record' hrecord'
            rw [Registry.lookup_updateWindowState_eq_map, if_pos rfl] at hrecord'
            obtain ⟨record, hrecord, heq⟩ := Option.map_eq_some_iff.mp hrecord'
            exact ⟨record, hrecord, heq.symm⟩
          refine ⟨⟨hnamed.identified, hnamed.mapped, ?_, hnamed.visible⟩, ?_⟩
          · intro record' hrecord' hplain
            obtain ⟨record, hrecord, rfl⟩ := hrecords record' hrecord'
            exact hnamed.named record hrecord hplain
          · intro record' hrecord'
            obtain ⟨record, -, rfl⟩ := hrecords record' hrecord'
            rfl
        · have hother' := hothers d other hd hother hwindow
          refine hother'.congr rfl ?_
          rw [Registry.lookup_updateWindowState_eq_map]
          exact if_neg (hnamed.windowId_ne hother'.toNamed hd)

theorem records_assignMinimized (h : s.Records) (hch : s.chromes c = some ch)
    (minimized : Bool) : (s.assignMinimized c ch minimized).Records := by
  -- the chrome is changed, and the focus may have gone to the shell
  have hreport : ∀ u, Refocused
      (s.setChrome c { ch with windowMinimized := minimized, visible := !minimized }) u →
      ch.isShell = false → (u.reportState c).Records := by
    intro u hu hwindow
    have hdescribed := h.windows c ch hch hwindow
    apply records_reportState (hu.distinct h.distinct)
    · intro ch' hch' _
      obtain ⟨chrome, b, hchrome, rfl⟩ := hu.exists_chrome hch'
      obtain rfl := Option.some.inj ((State.chromes_setChrome_same ..).symm.trans hchrome)
      exact hu.named b ⟨hdescribed.identified, hdescribed.mapped, hdescribed.named, rfl⟩
    · intro ch' hch' hshell
      obtain ⟨chrome, b, hchrome, rfl⟩ := hu.exists_chrome hch'
      obtain rfl := Option.some.inj ((State.chromes_setChrome_same ..).symm.trans hchrome)
      cases hwindow.symm.trans hshell
    · intro d other' hd hother' hother
      obtain ⟨other, b, hchrome, rfl⟩ := hu.exists_chrome hother'
      have hold : s.chromes d = some other :=
        (State.chromes_setChrome_of_ne s _ hd).symm.trans hchrome
      exact hu.described b hchrome (h.windows d other hold hother)
  unfold State.assignMinimized
  dsimp only
  split_ifs with hsame hshell
  · exact h
  · exact records_setChrome h fun hwindow => absurd hshell (by simpa using hwindow)
  · exact hreport _ (refocused_focusShell _) (Bool.eq_false_iff.mpr hshell)
  · exact hreport _ (.refl _) (Bool.eq_false_iff.mpr hshell)

theorem chromes_reportState (s : State) (c : ℕ) : (s.reportState c).chromes = s.chromes := by
  unfold State.reportState
  split
  · rfl
  · split_ifs <;> rfl

theorem minimized_assignMinimized (hch : s.chromes c = some ch) (minimized : Bool) (d : ℕ) :
    ((s.assignMinimized c ch minimized).chromes d).map Chrome.windowMinimized =
      if d = c then some minimized else (s.chromes d).map Chrome.windowMinimized := by
  have hset : ∀ ch' : Chrome, ch'.windowMinimized = minimized →
      ((s.setChrome c ch').chromes d).map Chrome.windowMinimized =
        if d = c then some minimized else (s.chromes d).map Chrome.windowMinimized := by
    intro ch' hch'
    change (Function.update s.chromes c (some ch') d).map _ = _
    split_ifs with hd
    · rw [hd, Function.update_self, Option.map_some, hch']
    · rw [Function.update_of_ne hd]
  unfold State.assignMinimized
  by_cases hsame : ch.windowMinimized = minimized
  · rw [if_pos hsame]
    split_ifs with hd
    · rw [hd, hch, Option.map_some, hsame]
    · rfl
  rw [if_neg hsame]
  by_cases hshell : ch.isShell = true
  · rw [if_pos hshell]
    exact hset _ rfl
  rw [if_neg hshell, chromes_reportState]
  cases minimized with
  | true => exact ((refocused_focusShell _).minimized d).trans (hset _ rfl)
  | false => exact hset _ rfl

theorem records_activate (h : s.Records) (id : String) : (s.activate id).Records := by
  unfold State.activate
  split
  · exact h
  · next c ch hof =>
      have hch := chromes_of_chromeOf hof
      have hassigned := records_assignMinimized h hch false
      dsimp only
      split
      · exact hassigned
      · next ch' hch' =>
          have hflag := minimized_assignMinimized hch false c
          rw [hch', if_pos rfl] at hflag
          refine (refocused_takeFocus _ c).kept (records_setChrome hassigned fun hwindow => ?_)
          have hdescribed := hassigned.windows c ch' hch' hwindow
          exact ⟨⟨hdescribed.identified, hdescribed.mapped, hdescribed.named,
            by rw [Option.some.inj hflag]; rfl⟩, hdescribed.minimized⟩

theorem records_minimize (h : s.Records) (id : String) : (s.minimize id).Records := by
  unfold State.minimize
  split
  · exact h
  · next c ch hof => exact records_assignMinimized h (chromes_of_chromeOf hof) true

/-- A window comes under an id that no window has. -/
theorem records_createWindow (ht : s.tracking.Invariant) (h : s.Records)
    (hnext : s.nextChrome < 2 ^ 32)
    (toplevel : Option Toplevel) : (s.createObject toplevel false).Records where
  distinct := Assoc.nodup_insert h.distinct ..
  windows d other hother hwindow := by
    change Function.update s.chromes s.nextChrome (some { Chrome.new toplevel false with
      windowId := windowIdAfter s.windowIdCounter }) d = some other at hother
    by_cases hd : d = s.nextChrome
    · subst hd
      rw [Function.update_self] at hother
      obtain rfl := Option.some.inj hother
      have hrecords : ∀ record, (Assoc.insert s.registry (windowIdAfter s.windowIdCounter)
          ⟨(toplevel.map Toplevel.title).getD "", (toplevel.map Toplevel.appId).getD "", false,
            false⟩).lookup
            (windowIdAfter s.windowIdCounter) = some record →
          record = ⟨(toplevel.map Toplevel.title).getD "", (toplevel.map Toplevel.appId).getD "",
            false, false⟩ := by
        intro record hrecord
        rw [Assoc.lookup_insert, if_pos rfl] at hrecord
        exact (Option.some.inj hrecord).symm
      refine ⟨⟨?_, ?_, ?_, rfl⟩, ?_⟩
      · have hkept := kept_createWindow ht hnext toplevel
        exact hkept.windowId_ne_empty (face_of_chrome (Function.update_self ..)) rfl
      · exact (Assoc.lookup_insert ..).trans (if_pos rfl)
      · intro record hrecord _
        rw [hrecords record hrecord]
        exact ⟨rfl, rfl⟩
      · intro record hrecord
        rw [hrecords record hrecord]
        rfl
    · rw [Function.update_of_ne hd] at hother
      have hne := (ht.fresh hnext).1 d other.face (face_of_chrome hother) hwindow
      exact (h.windows d other hother hwindow).congr ((Assoc.lookup_insert ..).trans (if_neg hne))
        ((Assoc.lookup_insert ..).trans (if_neg hne))

theorem records_adoptToplevel (ht : s.tracking.Invariant) (h : s.Records)
    (hnext : s.nextChrome < 2 ^ 32)
    (toplevel : Toplevel) : (s.adoptToplevel toplevel).Records := by
  unfold State.adoptToplevel
  split_ifs
  · split
    · exact h
    · have hset : (s.setChrome s.nextChrome (Chrome.new (some toplevel) true)).Records :=
        records_setChrome h fun hwindow => nomatch hwindow
      exact ⟨hset.distinct, hset.windows⟩
  · exact records_createWindow ht h hnext _

/-- The windows that stay when one is taken off the record. -/
theorem described_erase (hothers : ∀ d other, d ≠ c → s.chromes d = some other →
      other.isShell = false →
      Described s.windowMap s.registry d other) (hself : Named s.windowMap s.registry c ch) {d : ℕ}
      {other : Chrome}
    (hd : d ≠ c) (hother : s.chromes d = some other) (hwindow : other.isShell = false) :
    Described (Assoc.erase s.windowMap ch.windowId) (Assoc.erase s.registry ch.windowId) d other ∧
      Described s.windowMap (Assoc.erase s.registry ch.windowId) d other := by
  have hdescribed := hothers d other hd hother hwindow
  have hne := hself.windowId_ne hdescribed.toNamed hd
  have hregistry : (Assoc.erase s.registry ch.windowId).lookup other.windowId =
      s.registry.lookup other.windowId :=
    (Assoc.lookup_erase ..).trans (if_neg hne)
  exact ⟨hdescribed.congr ((Assoc.lookup_erase ..).trans (if_neg hne)) hregistry,
    hdescribed.congr rfl hregistry⟩

theorem records_promoteToShell (h : s.Records) (hch : s.chromes c = some ch)
    (hwindow : ch.isShell = false)
    (toplevel : Option Toplevel) :
    ((s.setChrome c { ch with toplevel := toplevel }).promoteToShell c { ch with
      toplevel := toplevel }).Records := by
  have hself := (h.windows c ch hch hwindow).toNamed
  unfold State.promoteToShell
  rw [if_neg hself.identified]
  refine ⟨Assoc.nodup_erase h.distinct _, fun d other hother hlive => ?_⟩
  change Function.update (Function.update s.chromes c _) c _ d = some other at hother
  by_cases hd : d = c
  · subst hd
    rw [Function.update_self] at hother
    obtain rfl := Option.some.inj hother
    cases hlive
  · rw [Function.update_of_ne hd, Function.update_of_ne hd] at hother
    exact (described_erase (fun d other _ => h.windows d other) hself hd hother hlive).1

/-- **The title** of a window is put on record, unless it looks like the shell. -/
theorem records_metadata (h : s.Records) (hch : s.chromes c = some ch) {toplevel : Option Toplevel}
    (htoplevel : toplevel = none → ch.toplevel = none) :
    ((s.setChrome c { ch with toplevel := toplevel }).handleToplevelMetadataChanged c
      { ch with toplevel := toplevel }).Records := by
  have hset : (ch.isShell = false → isShellSurface toplevel = false → ch.toplevel = toplevel) →
      (s.setChrome c { ch with toplevel := toplevel }).Records := by
    intro hsame
    apply records_setChrome h
    intro hwindow
    have hdescribed := h.windows c ch hch hwindow
    refine ⟨⟨hdescribed.identified, hdescribed.mapped, ?_, hdescribed.visible⟩,
      hdescribed.minimized⟩
    intro record hrecord hplain
    obtain rfl := hsame hwindow hplain
    exact hdescribed.named record hrecord hplain
  unfold State.handleToplevelMetadataChanged
  cases toplevel with
  | none => exact hset fun _ _ => htoplevel rfl
  | some toplevel =>
      dsimp only
      split_ifs with hshell hfound hcontent hid
      · exact hset fun hwindow => absurd hshell (by simpa using hwindow)
      · exact records_promoteToShell h hch (Bool.eq_false_iff.mpr hshell) _
      · exact hset fun _ hplain => absurd hplain (by simp [hfound.2])
      · exact hset fun hwindow => absurd hid (h.windows c ch hch hwindow).identified
      · have hself := h.windows c ch hch (Bool.eq_false_iff.mpr hshell)
        refine ⟨?_, fun d other hother hwindow => ?_⟩
        · change (Assoc.keys (Assoc.modify ..)).Nodup
          rw [Assoc.keys_modify]
          exact h.distinct
        · change Function.update s.chromes c _ d = some other at hother
          by_cases hd : d = c
          · subst hd
            rw [Function.update_self] at hother
            obtain rfl := Option.some.inj hother
            have hrecords : ∀ record', (s.registry.updateWindowMetadata ch.windowId toplevel.title
                toplevel.appId).1.lookup ch.windowId = some record' → ∃ record,
                s.registry.lookup ch.windowId = some record ∧
                  record' = { record with title := toplevel.title, appId := toplevel.appId } := by
              intro record' hrecord'
              rw [Registry.updateWindowMetadata, Assoc.lookup_modify, if_pos rfl] at hrecord'
              obtain ⟨record, hrecord, heq⟩ := Option.map_eq_some_iff.mp hrecord'
              exact ⟨record, hrecord, heq.symm⟩
            refine ⟨⟨hself.identified, hself.mapped, ?_, hself.visible⟩, ?_⟩
            · intro record' hrecord' _
              obtain ⟨record, -, rfl⟩ := hrecords record' hrecord'
              exact ⟨rfl, rfl⟩
            · intro record' hrecord'
              obtain ⟨record, hrecord, rfl⟩ := hrecords record' hrecord'
              exact hself.minimized record hrecord
          · rw [Function.update_of_ne hd] at hother
            have hother' := h.windows d other hother hwindow
            exact hother'.congr rfl
              ((Assoc.lookup_modify ..).trans (if_neg (hself.windowId_ne hother'.toNamed hd)))

theorem State.setChrome_self (hch : s.chromes c = some ch) : s.setChrome c ch = s := by
  rw [State.setChrome, ← hch, Function.update_eq_self]

theorem records_onHasContentChanged (h : s.Records) (hch : s.chromes c = some ch) :
    (s.onHasContentChanged c ch).Records := by
  unfold State.onHasContentChanged
  split_ifs with hpromote
  · have hpromoted := records_promoteToShell h hch hpromote.2.2.1 ch.toplevel
    rwa [State.setChrome_self hch] at hpromoted
  · exact h

theorem records_onSurfaceDestroyed (h : s.Records) (hch : s.chromes c = some ch) (cleared : Bool) :
    (s.onSurfaceDestroyed c ch cleared).Records := by
  unfold State.onSurfaceDestroyed
  by_cases hregistered : ch.isShell = false ∧ ch.windowId ≠ ""
  · rw [if_pos hregistered]
    have hself := (h.windows c ch hch hregistered.1).toNamed
    have hnone : (Assoc.erase s.registry ch.windowId).lookup ch.windowId = none :=
      (Assoc.lookup_erase ..).trans (if_pos rfl)
    have hgone := hself.of_unregistered hnone
    refine ⟨Assoc.nodup_erase h.distinct _, fun d other hother hwindow => ?_⟩
    change Function.update s.chromes c _ d = some other at hother
    by_cases hd : d = c
    · subst hd
      rw [Function.update_self] at hother
      obtain rfl := Option.some.inj hother
      exact ⟨⟨hgone.identified, hgone.mapped, hgone.named, hgone.visible⟩, hgone.minimized⟩
    · rw [Function.update_of_ne hd] at hother
      exact (described_erase (fun d other _ => h.windows d other) hself hd hother hwindow).2
  · rw [if_neg hregistered]
    apply records_setChrome h
    intro hwindow
    have hself := h.windows c ch hch hwindow
    exact absurd ⟨hwindow, hself.identified⟩ hregistered

theorem records_delete (h : s.Records) : (s.delete c).Records where
  distinct := h.distinct
  windows d other hother hwindow := by
    change Function.update s.chromes c none d = some other at hother
    by_cases hd : d = c
    · subst hd
      rw [Function.update_self] at hother
      cases hother
    · rw [Function.update_of_ne hd] at hother
      exact h.windows d other hother hwindow

/-- **Each step** keeps the records right. -/
theorem records_step {s' : State} {e : Event} (ht : s.tracking.Invariant) (h : s.Records)
    (hfocusing : Focusing s e)
    (hstep : desktop.step s e = some s') : s'.Records := by
  cases e with
  | toplevelCreated toplevel =>
      obtain rfl := Option.some.inj hstep
      exact (refocused_configured s _).kept (records_adoptToplevel ht h hfocusing toplevel)
  | wlShellSurfaceCreated =>
      obtain rfl := Option.some.inj hstep
      exact records_createWindow ht h hfocusing none
  | metadataChanged c toplevel =>
      obtain ⟨t, hinner, rfl⟩ := Option.map_eq_some_iff.mp hstep
      obtain ⟨ch, hch, hinner⟩ := Option.bind_eq_some_iff.mp hinner
      split_ifs at hinner
      obtain rfl := Option.some.inj hinner
      exact (refocused_configured s _).kept (records_metadata h hch nofun)
  | reconcile c =>
      obtain ⟨t, hinner, rfl⟩ := Option.map_eq_some_iff.mp hstep
      obtain ⟨ch, hch, hinner⟩ := Option.bind_eq_some_iff.mp hinner
      obtain rfl := Option.some.inj hinner
      have hhandled : ((s.setChrome c ch).handleToplevelMetadataChanged c ch).Records :=
        records_metadata h hch id
      rw [State.setChrome_self hch] at hhandled
      exact (refocused_configured s _).kept hhandled
  | hasContentChanged c hasContent =>
      obtain ⟨ch, hch, hstep⟩ := Option.bind_eq_some_iff.mp hstep
      have hset : (s.setChrome c { ch with hasContent := hasContent }).Records :=
        records_setChrome h fun hwindow =>
        have hself := h.windows c ch hch hwindow
        ⟨⟨hself.identified, hself.mapped, hself.named, hself.visible⟩, hself.minimized⟩
      have hshown : ∀ {u : State}, u.Records →
          u.withChrome c (fun ch => some (u.configured (u.onHasContentChanged c ch))) = some s' →
          s'.Records := by
        intro u hu hstep
        obtain ⟨chrome, hchrome, hstep⟩ := Option.bind_eq_some_iff.mp hstep
        obtain rfl := Option.some.inj hstep
        exact (refocused_configured u _).kept (records_onHasContentChanged hu hchrome)
      split_ifs at hstep
      · exact hshown ((refocused_takeFocus _ c).kept hset) hstep
      · exact hshown hset hstep
  | activateRequested id =>
      obtain rfl := Option.some.inj hstep
      exact records_activate h id
  | minimizeRequested id =>
      obtain rfl := Option.some.inj hstep
      exact records_minimize h id
  | minimizeClicked c =>
      obtain ⟨ch, hch, hstep⟩ := Option.bind_eq_some_iff.mp hstep
      split_ifs at hstep
      obtain rfl := Option.some.inj hstep
      exact records_assignMinimized h hch true
  | keyboardFocusChanged surface =>
      cases surface with
      | none =>
          obtain rfl := Option.some.inj hstep
          exact (refocused_setKeyboardFocus s none).kept h
      | some c =>
          obtain ⟨ch, hch, hstep⟩ := Option.bind_eq_some_iff.mp hstep
          split_ifs at hstep
          obtain rfl := Option.some.inj hstep
          exact (refocused_setKeyboardFocus s (some c)).kept h
  | surfaceDestroyed c cleared =>
      obtain ⟨ch, hch, hstep⟩ := Option.bind_eq_some_iff.mp hstep
      split_ifs at hstep
      obtain rfl := Option.some.inj hstep
      exact records_onSurfaceDestroyed h hch cleared
  | deleted c =>
      obtain ⟨ch, hch, hstep⟩ := Option.bind_eq_some_iff.mp hstep
      split_ifs at hstep
      obtain rfl := Option.some.inj hstep
      exact records_delete h

end Kept

/-! ## Runs -/

section Runs

variable {s : State} {c : ℕ} {ch : Chrome}

theorem recorded_of_focusing (h : desktop.ReachableWhere Focusing s) :
    s.tracking.Invariant ∧ s.Records := by
  refine h.invariant (I := fun s => s.tracking.Invariant ∧ s.Records) ?_ ?_
  · rintro _ rfl
    exact ⟨tracking_empty, List.nodup_nil, fun _ _ => nofun⟩
  · intro s e s' _ hs hfocusing hstep
    exact ⟨kept_step hs.1 hfocusing hstep, records_step hs.1 hs.2 hfocusing hstep⟩

theorem onRecord (ht : s.tracking.Invariant) (h : s.Records) (hch : s.chromes c = some ch)
    (hlive : ch.Live)
    {record : WindowRecord} (hrecord : s.registry.lookup ch.windowId = some record) :
    s.OnRecord c ch record := by
  have hself := h.windows c ch hch hlive.1
  have hfocused := (ht.sound c ch.face (face_of_chrome hch)).focused hlive.1 hlive.2
  refine ⟨hself.named record hrecord, hself.minimized record hrecord, ?_⟩
  exact Option.some.inj ((congrArg (Option.map WindowRecord.focused) hrecord).symm.trans hfocused)

theorem truthful_of_records (ht : s.tracking.Invariant) (hs : s.Records) : Truthful s := by
  have hwindow : ∀ {c ch}, s.chromes c = some ch → ch.Live →
      (s.registry.lookup ch.windowId).map WindowRecord.focused =
      some (decide (s.activeFocusSurface = some c)) :=
    fun hch hlive => (ht.sound _ _ (face_of_chrome hch)).focused hlive.1 hlive.2
  refine ⟨hs.distinct, ?_, ?_, ?_⟩
  · intro c c' ch ch' hch hch' hlive hlive' hid
    exact ht.once (face_of_chrome hch) (face_of_chrome hch') hlive.1 hlive'.1 hid
  · intro id record hrecord
    have hregistered : s.tracking.focused id ≠ none := by
      change (s.registry.lookup id).map WindowRecord.focused ≠ none
      rw [hrecord]
      nofun
    obtain ⟨c, f, hf, hshell, hgone, rfl⟩ := ht.registered id hregistered
    obtain ⟨ch, hch, rfl⟩ := Option.map_eq_some_iff.mp hf
    exact ⟨c, ch, hch, ⟨hshell, hgone⟩, rfl, onRecord ht hs hch ⟨hshell, hgone⟩ hrecord⟩
  · intro c ch hch hlive
    obtain ⟨record, hrecord, -⟩ := Option.map_eq_some_iff.mp (hwindow hch hlive)
    exact ⟨record, hrecord, onRecord ht hs hch hlive hrecord⟩

/-- **What is on record is so**, and everything that is there is on record. -/
theorem truthful_of_focusing (h : desktop.ReachableWhere Focusing s) : Truthful s := by
  obtain ⟨ht, hs⟩ := recorded_of_focusing h
  exact truthful_of_records ht hs

/-- Two windows come; one has the focus and is renamed, the other is minimised. -/
def renamingRun : List Event :=
  [.toplevelCreated ⟨"files", "Home"⟩, .toplevelCreated ⟨"notepad", "Untitled"⟩,
    .keyboardFocusChanged (some 0),
    .metadataChanged 0 ⟨"files", "Music"⟩, .minimizeRequested "win-2"]

theorem truthful_renamingRun :
    ∃ s, Truthful s ∧ s.registry = [("win-2", ⟨"Untitled", "notepad", true, false⟩),
      ("win-1", ⟨"Music", "files", false, true⟩)] := by
  have hrun : (desktop.runWhere Focusing .empty renamingRun).any (fun s =>
      s.registry = [("win-2", ⟨"Untitled", "notepad", true, false⟩),
        ("win-1", ⟨"Music", "files", false, true⟩)]) = true := by
    decide +kernel
  obtain ⟨s, hs, htest⟩ := Transition.System.exists_reachableWhere_of_run rfl hrun
  exact ⟨s, truthful_of_focusing hs, of_decide_eq_true htest⟩

end Runs

end NiraOS.Compositor.Windows
