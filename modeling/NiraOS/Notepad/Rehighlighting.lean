import NiraOS.Lib.PathText
import NiraOS.Lib.Rescan
import NiraOS.Lib.Transition
import NiraOS.Notepad.Highlighter

/-!
# The highlighter over a history of edits

The editor of the notepad with its highlighter (`apps/notepad/qml/Main.qml`,
`apps/notepad/src/main.cpp`) and what `QSyntaxHighlighter` does: after a change it highlights the
lines that have changed, and those after them as long as states change; `rehighlight` does all
lines, and after `setDocument` it comes later. A line whose state `highlightBlock` does not set
keeps the one it had.

So what is shown depends on more than the text and the language:

```text
a line                            keeps
whose block comment is deleted    the state it had with the comment
of a language without any         the state of the language before
of a file without a language      all of the language before
```
-/

namespace NiraOS.Notepad.Highlighting

open PathText (fileNameOf splitSuffix)
open Rescan (Cell Clean CleanRescan coldAll rescan visitAll)

@[irreducible] def languageForFile (path : String) : String :=
  let suffix := Text.toLowercase (splitSuffix (fileNameOf path)).2
  if suffix = "cpp" ∨ suffix = "cxx" ∨ suffix = "cc" then "cpp"
  else if suffix = "h" ∨ suffix = "hpp" then "cpp"
  else if suffix = "c" then "c"
  else if suffix = "rs" then "rust"
  else if suffix = "py" then "python"
  else if suffix = "qml" then "qml"
  else if suffix = "js" ∨ suffix = "mjs" then "js"
  else if suffix = "json" then "json"
  else if suffix = "sh" ∨ suffix = "bash" then "sh"
  else ""

/-- What the regular expressions match; none of them matches in an empty line. -/
structure Matcher where
  globalMatch : Pattern → Line → List (ℕ × ℕ)
  globalMatch_nil : ∀ p, globalMatch p [] = []

/-- A line of the document, with its state and the formats it was given last. -/
abbrev Block := Cell Line ℤ (List SetFormat)

/-- A new line. -/
def plain (text : Line) : Block := ⟨text, -1, []⟩

structure Editor where
  blocks : List Block
  /-- `_highlighter`. -/
  highlighter : Option Config
  rehighlightPending : Bool
  /-- `docLanguage`. -/
  language : String

def Editor.start : Editor := ⟨[plain []], none, false, ""⟩

def Editor.lines (s : Editor) : List Line := s.blocks.map Cell.text

section Model

variable (m : Matcher) (s : Editor)

def scanLine (c : Config) (previousBlockState : ℤ) (text : Line) : Option ℤ × List SetFormat :=
  let h := highlightBlock m.globalMatch c previousBlockState text
  (h.state, h.formats)

/-- The lines after a change. -/
def Editor.changed (before inserted after : List Block) : List Block :=
  match s.highlighter with
  | none => before ++ inserted ++ after
  | some c =>
      if s.rehighlightPending then before ++ inserted ++ after
      else rescan (scanLine m c) (-1) before inserted after

/-- `editor.text = text`. -/
def Editor.setText (lines : List Line) : Editor :=
  if lines = s.lines then s else { s with blocks := s.changed m [] (lines.map plain) [] }

def Editor.rehighlight (c : Config) : Editor :=
  { s with blocks := visitAll (scanLine m c) (-1) s.blocks, rehighlightPending := false }

/-- `reconfigure`, of a highlighter with a configuration. -/
def Editor.reconfigure (c : Config) (language : String) : Editor :=
  { s with highlighter := some (setLanguage c language) }.rehighlight m (setLanguage c language)

/-- `createHighlighter`; an empty document is not highlighted later. -/
def Editor.createHighlighter (language : String) : Editor :=
  { s with highlighter := some (setLanguage .empty language), rehighlightPending := s.lines ≠ [[]] }

def Editor.attachHighlighter (language : String) : Editor :=
  if language = "" then s
  else
    match s.highlighter with
    | some c => s.reconfigure m c language
    | none => s.createHighlighter language

/-- `docLanguage` is set, and the highlighter with it. -/
def Editor.setLanguageOf (path : String) : Editor :=
  { s with language := languageForFile path }.attachHighlighter m (languageForFile path)

end Model

inductive Event
  /-- Some lines of the text become others, which are new or keep the state of a line that they come
  from. -/
  | edit (before removed : ℕ) (inserted : List (Line × ℤ))
  /-- `loadEditorFromCurrent`, of a tab with a file and a text. -/
  | load (path : String) (lines : List Line)
  | saveCurrentAs (path : String)
  /-- The highlighting after `setDocument`. -/
  | delayedRehighlight

def insertedBlocks (inserted : List (Line × ℤ)) : List Block := inserted.map fun i => ⟨i.1, i.2, []⟩

/-- What an edit may be. -/
def Editor.Edits (s : Editor) (before removed : ℕ) (inserted : List (Line × ℤ)) : Prop :=
  0 < removed ∧ before + removed ≤ s.blocks.length ∧ inserted ≠ [] ∧
    ∀ i ∈ inserted, i.2 = -1 ∨ i.2 ∈ ((s.blocks.drop before).take removed).map Cell.state

instance (s : Editor) (before removed : ℕ) (inserted : List (Line × ℤ)) :
    Decidable (s.Edits before removed inserted) :=
  inferInstanceAs (Decidable (_ ∧ _))

def notepad (m : Matcher) : Transition.System Editor Event where
  init s := s = .start
  step s
    | .edit before removed inserted =>
        if s.Edits before removed inserted then
          some { s with
            blocks := s.changed m (s.blocks.take before) (insertedBlocks inserted)
              (s.blocks.drop (before + removed)) }
        else none
    | .load path lines =>
        if lines = [] then none else some ((s.setText m lines).setLanguageOf m path)
    | .saveCurrentAs path => some (s.setLanguageOf m path)
    | .delayedRehighlight =>
        match s.highlighter with
        | some c => if s.rehighlightPending then some (s.rehighlight m c) else none
        | none => none

/-! ## What the text and the language make -/

section Definitions

variable (m : Matcher) (s : Editor)

/-- The rules and the comment markers in use. -/
def Editor.config : Config := s.highlighter.getD .empty

/-- Those of a language. -/
def configOf (language : String) : Config :=
  if language = "" then .empty else setLanguage .empty language

/-- The highlighter may take a language on: there is one at all, and no line keeps a state where
that language sets none. -/
def Editor.Attaches (language : String) : Prop :=
  match s.highlighter with
  | none => True
  | some c => language ≠ "" ∧ Clean (scanLine m (setLanguage c language)) (-1) (-1) s.blocks

/-- No line that is highlighted keeps a state where a fresh one would have none, and none that is
not highlighted would come out otherwise. -/
def Fits : Event → Prop
  | .edit before removed inserted =>
      match s.highlighter with
      | none => True
      | some c =>
          s.rehighlightPending = true ∨
            CleanRescan (scanLine m c) (-1) (-1) (s.blocks.take before) (insertedBlocks inserted)
              (s.blocks.drop (before + removed))
  | .load path lines => (s.setText m lines).Attaches m (languageForFile path)
  | .saveCurrentAs path => s.Attaches m (languageForFile path)
  | .delayedRehighlight => True

instance (language : String) : Decidable (s.Attaches m language) := by
  unfold Editor.Attaches
  cases s.highlighter <;> infer_instance

instance (e : Event) : Decidable (Fits m s e) := by
  cases e with
  | edit n k new =>
      unfold Fits
      cases s.highlighter <;> infer_instance
  | load path lines => exact inferInstanceAs (Decidable (Editor.Attaches _ _ _))
  | saveCurrentAs path => exact inferInstanceAs (Decidable (Editor.Attaches _ _ _))
  | delayedRehighlight => exact inferInstanceAs (Decidable True)

/-- All is as if the text had just been opened. -/
structure AsOpened : Prop where
  config : s.config = configOf s.language
  blocks : s.blocks = coldAll (scanLine m s.config) (-1) (-1) s.lines

structure Inv : Prop where
  named : ∃ path, s.language = languageForFile path
  lines : s.lines ≠ []
  config : s.config = configOf s.language
  /-- There is a highlighter once there was a language. -/
  unnamed : s.highlighter = none ↔ s.language = ""
  waits : s.rehighlightPending = true → s.highlighter ≠ none ∧ s.blocks = s.lines.map plain
  blocks : s.rehighlightPending = false → s.blocks = coldAll (scanLine m s.config) (-1) (-1) s.lines

end Definitions

/-! ## Languages -/

section Languages

variable {m : Matcher} {c : Config} {lang path : String} {l : Language}

/-- The languages of files. -/
def fileLanguages : List String := ["cpp", "c", "rust", "python", "qml", "js", "json", "sh", ""]

theorem languageForFile_mem (path : String) : languageForFile path ∈ fileLanguages := by
  unfold languageForFile
  dsimp only
  generalize Text.toLowercase (splitSuffix (fileNameOf path)).2 = suffix
  split_ifs <;> decide

theorem languageOf_languageForFile (h : languageForFile path ≠ "") :
    ∃ l, languageOf (Text.toLowercase (languageForFile path)) = some l := by
  have hknown : ∀ lang ∈ fileLanguages, lang ≠ "" →
      (languageOf (Text.toLowercase lang)).isSome = true := by
    decide
  exact Option.isSome_iff_exists.mp (hknown _ (languageForFile_mem path) h)

theorem languageForFile_nil : languageForFile "" = "" := by
  decide +kernel

/-- A language of a file replaces all of the configuration. -/
theorem setLanguage_languageForFile (h : languageForFile path ≠ "") :
    setLanguage c (languageForFile path) = configOf (languageForFile path) := by
  obtain ⟨l, hl⟩ := languageOf_languageForFile h
  rw [configOf, if_neg h, setLanguage, setLanguage, hl]

theorem configOf_ne_empty (hnamed : ∃ path, lang = languageForFile path) (h : lang ≠ "") :
    configOf lang ≠ .empty := by
  obtain ⟨path, hpath⟩ := hnamed
  rw [hpath] at h ⊢
  obtain ⟨l, hl⟩ := languageOf_languageForFile h
  rw [configOf, if_neg h, setLanguage, hl]
  intro heq
  have hrules : rulesOf l.keywords = [] := congrArg Config.rules heq
  exact absurd hrules (List.append_ne_nil_of_right_ne_nil _ (List.cons_ne_nil _ _))

theorem lineComments_languageOf (h : languageOf lang = some l) :
    ∀ lc ∈ l.lineComments, lc ≠ "" := by
  unfold languageOf at h
  split_ifs at h
  all_goals
    obtain rfl := Option.some.inj h
    decide

theorem lineComments_configOf (h : languageForFile path ≠ "") :
    ∀ lc ∈ (configOf (languageForFile path)).lineComments, lc ≠ "" := by
  obtain ⟨l, hl⟩ := languageOf_languageForFile h
  rw [configOf, if_neg h, setLanguage, hl]
  exact lineComments_languageOf hl

theorem indexOf_nil {pattern : String} (h : pattern ≠ "") :
    Occurrences.indexOf ([] : Line) pattern.toList 0 = none := by
  have hpattern : pattern.toList ≠ [] := fun hnil => h (String.toList_eq_nil_iff.mp hnil)
  exact (if_pos (Nat.le_refl _)).trans (if_neg hpattern)

/-- What there is to know of the language of a file. -/
theorem configOf_known (hnamed : ∃ path, lang = languageForFile path) (h : lang ≠ "") :
    (∀ c, setLanguage c lang = configOf lang) ∧ ∀ lc ∈ (configOf lang).lineComments, lc ≠ "" := by
  obtain ⟨path, hpath⟩ := hnamed
  rw [hpath] at h ⊢
  constructor
  · intro c
    exact setLanguage_languageForFile h
  · exact lineComments_configOf h

/-- An empty line is left as it is. -/
theorem scanLine_nil (h : ∀ lc ∈ c.lineComments, lc ≠ "") : scanLine m c (-1) [] = (none, []) := by
  have hrules : ruleFormats m.globalMatch c [] = [] := by
    simp [ruleFormats, m.globalMatch_nil]
  have hcomment : lineComment c [] = none := by
    rw [lineComment, List.findSome?_eq_none_iff]
    intro lc hlc
    exact indexOf_nil (h lc hlc)
  rw [scanLine, highlightBlock, hrules, hcomment]
  dsimp only
  by_cases hblocks : c.blockStart = ""
  · rw [if_pos hblocks]
  · rw [if_neg hblocks, if_pos (by decide), indexOf_nil hblocks]

theorem coldAll_empty (prev : ℤ) (lines : List Line) :
    coldAll (scanLine m .empty) (-1) prev lines = lines.map plain := by
  induction lines generalizing prev with
  | nil => rfl
  | cons text rest ih =>
      rw [coldAll, ih]
      rfl

end Languages

/-! ## The steps -/

section Steps

variable {m : Matcher} {s s' : Editor} {e : Event} {c : Config} {path : String}
  {blocks before removed inserted after : List Block} {lines : List Line}

/-- The lines are new. -/
def AllPlain (blocks : List Block) : Prop := ∀ b ∈ blocks, b = plain b.text

theorem allPlain_iff : AllPlain blocks ↔ blocks = (blocks.map Cell.text).map plain := by
  rw [List.map_map]
  constructor
  · intro h
    exact (List.map_id blocks).symm.trans (List.map_congr_left h)
  · intro h b hb
    rw [h] at hb
    obtain ⟨b', -, rfl⟩ := List.mem_map.mp hb
    rfl

theorem AllPlain.clean (h : AllPlain blocks) (prev : ℤ) :
    Clean (scanLine m c) (-1) prev blocks := by
  apply Rescan.clean_of_fresh
  intro b hb
  rw [h b hb]
  rfl

theorem allPlain_map_plain : AllPlain (lines.map plain) := by
  intro b hb
  obtain ⟨text, -, rfl⟩ := List.mem_map.mp hb
  rfl

theorem lines_changed :
    (s.changed m before inserted after).map Cell.text =
      before.map Cell.text ++ inserted.map Cell.text ++ after.map Cell.text := by
  unfold Editor.changed
  split
  · simp
  · split_ifs
    · simp
    · exact Rescan.map_text_rescan

theorem changed_plainly (h : s.highlighter = none ∨ s.rehighlightPending = true) :
    s.changed m before inserted after = before ++ inserted ++ after := by
  unfold Editor.changed
  cases hs : s.highlighter with
  | none => rfl
  | some c => exact if_pos (h.resolve_left (hs ▸ nofun))

theorem changed_highlighted (hs : s.highlighter = some c)
    (hpending : s.rehighlightPending = false) :
    s.changed m before inserted after = rescan (scanLine m c) (-1) before inserted after := by
  unfold Editor.changed
  rw [hs, hpending]
  rfl

theorem Inv.allPlain (h : Inv m s) (hnone : s.highlighter = none ∨ s.rehighlightPending = true) :
    AllPlain s.blocks := by
  rw [allPlain_iff]
  by_cases hpending : s.rehighlightPending = true
  · exact (h.waits hpending).2
  · have hnone := hnone.resolve_right hpending
    have hconfig : s.config = .empty := by
      rw [Editor.config, hnone]
      rfl
    have hblocks := h.blocks (Bool.eq_false_iff.mpr hpending)
    rw [hconfig, coldAll_empty] at hblocks
    exact hblocks

/-- **Some lines change.** -/
theorem Inv.changed (h : Inv m s) (hblocks : s.blocks = before ++ removed ++ after)
    (hne : inserted ≠ [])
    (hinserted : AllPlain s.blocks → AllPlain inserted)
    (hclean : ∀ c, s.highlighter = some c → s.rehighlightPending = false →
      CleanRescan (scanLine m c) (-1) (-1) before inserted after) :
    Inv m { s with blocks := s.changed m before inserted after } := by
  have hplain : AllPlain s.blocks → AllPlain (before ++ inserted ++ after) := by
    intro hall b hb
    rcases List.mem_append.mp hb with hb | hb
    · rcases List.mem_append.mp hb with hb | hb
      · exact hall b (by simp [hblocks, hb])
      · exact hinserted hall b hb
    · exact hall b (by simp [hblocks, hb])
  refine ⟨h.named, ?_, h.config, h.unnamed, fun hpending => ?_, fun hpending => ?_⟩
  · rw [Editor.lines, lines_changed]
    simp [hne]
  · have hwaits := h.waits hpending
    have hwaiting : s.highlighter = none ∨ s.rehighlightPending = true := .inr hpending
    refine ⟨hwaits.1, allPlain_iff.mp ?_⟩
    show AllPlain (s.changed m before inserted after)
    rw [changed_plainly hwaiting]
    exact hplain (h.allPlain hwaiting)
  · show s.changed m before inserted after =
      coldAll (scanLine m s.config) (-1) (-1) ((s.changed m before inserted after).map Cell.text)
    cases hs : s.highlighter with
    | none =>
        have hconfig : s.config = .empty := by
          rw [Editor.config, hs]
          rfl
        rw [hconfig, coldAll_empty, changed_plainly (.inl hs)]
        exact allPlain_iff.mp (hplain (h.allPlain (.inl hs)))
    | some c =>
        have hconfig : s.config = c := by
          rw [Editor.config, hs]
          rfl
        have hcold := h.blocks hpending
        rw [hconfig, Editor.lines, hblocks] at hcold
        rw [hconfig, lines_changed, changed_highlighted hs hpending]
        exact (Rescan.rescan_eq_iff hcold).mpr (hclean c hs hpending)

theorem blocks_split (n k : ℕ) :
    s.blocks = s.blocks.take n ++ (s.blocks.drop n).take k ++ s.blocks.drop (n + k) := by
  rw [← List.drop_drop, List.append_assoc, List.take_append_drop, List.take_append_drop]

theorem Inv.edit {n k : ℕ} {new : List (Line × ℤ)} (h : Inv m s) (hedits : s.Edits n k new)
    (hfits : Fits m s (.edit n k new)) :
    Inv m { s with
      blocks := s.changed m (s.blocks.take n) (insertedBlocks new) (s.blocks.drop (n + k)) } := by
  obtain ⟨hremoved, hlength, hne, hkept⟩ := hedits
  refine h.changed (blocks_split n k) (by simpa [insertedBlocks] using hne) (fun hall b hb => ?_)
    (fun c hs hpending => ?_)
  · obtain ⟨i, hi, rfl⟩ := List.mem_map.mp hb
    -- a line that is not new comes from one without a state
    have hstate : i.2 = -1 := by
      rcases hkept i hi with hnew | hold
      · exact hnew
      · obtain ⟨b, hb, hstate⟩ := List.mem_map.mp hold
        rw [← hstate, hall b (List.mem_of_mem_drop (List.mem_of_mem_take hb))]
        rfl
    rw [plain, hstate]
  · rw [Fits, hs] at hfits
    exact hfits.resolve_left (by simp [hpending])

theorem Inv.setText (h : Inv m s) (hne : lines ≠ []) : Inv m (s.setText m lines) := by
  unfold Editor.setText
  split_ifs with hsame
  · exact h
  · have hsplit : s.blocks = [] ++ s.blocks ++ [] := by
      simp
    refine h.changed hsplit (by simpa using hne) (fun _ => allPlain_map_plain) (fun c _ _ => ?_)
    exact ⟨allPlain_map_plain.clean _, trivial⟩

theorem lines_rehighlight : (s.rehighlight m c).lines = s.lines := Rescan.map_text_visitAll

/-- **All lines are highlighted** with the configuration of the language. -/
theorem inv_rehighlight (hnamed : ∃ path, s.language = languageForFile path) (hlines : s.lines ≠ [])
    (hconfig : s.config = configOf s.language) (hlanguage : s.language ≠ "")
    (hs : s.highlighter = some c)
    (hclean : Clean (scanLine m c) (-1) (-1) s.blocks) : Inv m (s.rehighlight m c) := by
  have hsome : s.highlighter ≠ none := hs ▸ nofun
  have hc : s.config = c := by
    rw [Editor.config, hs]
    rfl
  refine ⟨hnamed, ?_, hconfig, iff_of_false hsome hlanguage, (fun hpending => nomatch hpending),
    fun _ => ?_⟩
  · rwa [lines_rehighlight]
  · rw [lines_rehighlight]
    show visitAll (scanLine m c) (-1) s.blocks = coldAll (scanLine m s.config) (-1) (-1) s.lines
    rw [hc]
    exact Rescan.visitAll_eq_iff.mpr hclean

/-- **A highlighter is made** for a language. -/
theorem inv_createHighlighter {lang : String} (hnamed : ∃ path, lang = languageForFile path)
    (hlanguage : lang ≠ "")
    (hlines : s.lines ≠ []) (hplain : AllPlain s.blocks) :
    Inv m ({ s with language := lang }.createHighlighter lang) := by
  obtain ⟨hconfig, hcomments⟩ := configOf_known hnamed hlanguage
  have hblocks : s.blocks = s.lines.map plain := allPlain_iff.mp hplain
  refine ⟨hnamed, hlines, hconfig .empty, iff_of_false nofun hlanguage, fun _ => ⟨nofun, hblocks⟩,
    fun hpending => ?_⟩
  have hempty : s.lines = [[]] := not_not.mp (of_decide_eq_false hpending)
  show s.blocks = coldAll (scanLine m (setLanguage .empty lang)) (-1) (-1) s.lines
  rw [hblocks, hconfig, hempty, coldAll, coldAll, Rescan.cold, scanLine_nil hcomments]
  rfl

/-- **A language is attached.** -/
theorem Inv.attach {lang : String} (h : Inv m s) (hnamed : ∃ path, lang = languageForFile path)
    (hattaches : s.Attaches m lang) :
    Inv m ({ s with language := lang }.attachHighlighter m lang) := by
  obtain ⟨blocks, highlighter, pending, language⟩ := s
  unfold Editor.attachHighlighter
  by_cases hlanguage : lang = ""
  · rw [if_pos hlanguage]
    cases highlighter with
    | some c => exact absurd hlanguage hattaches.1
    | none =>
        have hunnamed : language = lang := (h.unnamed.mp rfl).trans hlanguage.symm
        rw [hunnamed] at h
        exact h
  · rw [if_neg hlanguage]
    cases highlighter with
    | none => exact inv_createHighlighter hnamed hlanguage h.lines (h.allPlain (.inl rfl))
    | some c =>
        obtain ⟨hconfig, -⟩ := configOf_known hnamed hlanguage
        exact inv_rehighlight hnamed h.lines (hconfig c) hlanguage rfl hattaches.2

theorem Inv.step (h : Inv m s) (hfits : Fits m s e) (hstep : (notepad m).step s e = some s') :
    Inv m s' := by
  cases e with
  | edit n k new =>
      obtain ⟨hedits, hs'⟩ := Option.ite_none_right_eq_some.mp hstep
      obtain rfl := Option.some.inj hs'
      exact h.edit hedits hfits
  | load path lines =>
      obtain ⟨hlines, hs'⟩ := Option.ite_none_left_eq_some.mp hstep
      obtain rfl := Option.some.inj hs'
      exact (h.setText hlines).attach ⟨path, rfl⟩ hfits
  | saveCurrentAs path =>
      obtain rfl := Option.some.inj hstep
      exact h.attach ⟨path, rfl⟩ hfits
  | delayedRehighlight =>
      obtain ⟨blocks, highlighter, pending, language⟩ := s
      cases highlighter with
      | none => nomatch hstep
      | some c =>
          obtain ⟨hpending, hs'⟩ := Option.ite_none_right_eq_some.mp hstep
          obtain rfl := Option.some.inj hs'
          have hlanguage : language ≠ "" := fun hnone => nomatch h.unnamed.mpr hnone
          exact inv_rehighlight h.named h.lines h.config hlanguage rfl
            ((h.allPlain (.inr hpending)).clean _)

theorem inv_start : Inv m .start where
  named := ⟨"", languageForFile_nil.symm⟩
  lines := List.cons_ne_nil _ _
  config := rfl
  unnamed := iff_of_true rfl rfl
  waits hpending := nomatch hpending
  blocks _ := rfl

theorem inv_of_fits (h : (notepad m).ReachableWhere (Fits m) s) : Inv m s :=
  h.invariant (fun _ hs => hs ▸ inv_start) fun _ _ _ _ hs hfits hstep => hs.step hfits hstep

theorem Inv.asOpened (h : Inv m s) (hsettled : s.rehighlightPending = false) : AsOpened m s :=
  ⟨h.config, h.blocks hsettled⟩

/-! ## Steps that do not fit -/

theorem not_asOpened_edit {n k : ℕ} {new : List (Line × ℤ)} (h : Inv m s)
    (hfits : ¬ Fits m s (.edit n k new)) :
    ¬ AsOpened m { s with
      blocks := s.changed m (s.blocks.take n) (insertedBlocks new) (s.blocks.drop (n + k)) } := by
  intro hopened
  cases hs : s.highlighter with
  | none =>
      rw [Fits, hs] at hfits
      exact hfits trivial
  | some c =>
      rw [Fits, hs] at hfits
      obtain ⟨hpending, hclean⟩ := not_or.mp hfits
      have hpending := Bool.eq_false_iff.mpr hpending
      have hconfig : s.config = c := by
        rw [Editor.config, hs]
        rfl
      have hcold := h.blocks hpending
      rw [hconfig, Editor.lines, blocks_split n k] at hcold
      have hblocks : s.changed m (s.blocks.take n) (insertedBlocks new) (s.blocks.drop (n + k)) =
          coldAll (scanLine m s.config) (-1) (-1)
            ((s.changed m (s.blocks.take n) (insertedBlocks new) (s.blocks.drop (n + k))).map
              Cell.text) :=
        hopened.blocks
      rw [lines_changed, changed_highlighted hs hpending, hconfig,
        Rescan.rescan_eq_iff hcold] at hblocks
      exact hclean hblocks

theorem not_asOpened_attach {lang : String} (h : Inv m s) (hattaches : ¬ s.Attaches m lang) :
    ¬ AsOpened m ({ s with language := lang }.attachHighlighter m lang) := by
  intro hopened
  obtain ⟨blocks, highlighter, pending, language⟩ := s
  cases highlighter with
  | none => exact hattaches trivial
  | some c =>
      unfold Editor.attachHighlighter at hopened
      by_cases hlanguage : lang = ""
      · rw [if_pos hlanguage] at hopened
        have hold : c = configOf language := h.config
        have hnew : c = configOf lang := hopened.config
        have hnone : language ≠ "" := fun hnone => nomatch h.unnamed.mpr hnone
        rw [hold, hlanguage] at hnew
        exact configOf_ne_empty h.named hnone hnew
      · rw [if_neg hlanguage] at hopened
        refine hattaches ⟨hlanguage, ?_⟩
        have hblocks : visitAll (scanLine m (setLanguage c lang)) (-1) blocks =
            coldAll (scanLine m (setLanguage c lang)) (-1) (-1)
              ((visitAll (scanLine m (setLanguage c lang)) (-1) blocks).map Cell.text) :=
                hopened.blocks
        rw [Rescan.map_text_visitAll, Rescan.visitAll_eq_iff] at hblocks
        exact hblocks

theorem not_asOpened_of_not_fits (h : Inv m s) (hfits : ¬ Fits m s e)
    (hstep : (notepad m).step s e = some s') :
    ¬ AsOpened m s' := by
  cases e with
  | edit n k new =>
      obtain ⟨-, hs'⟩ := Option.ite_none_right_eq_some.mp hstep
      obtain rfl := Option.some.inj hs'
      exact not_asOpened_edit h hfits
  | load path lines =>
      obtain ⟨hlines, hs'⟩ := Option.ite_none_left_eq_some.mp hstep
      obtain rfl := Option.some.inj hs'
      exact not_asOpened_attach (h.setText hlines) hfits
  | saveCurrentAs path =>
      obtain rfl := Option.some.inj hstep
      exact not_asOpened_attach h hfits
  | delayedRehighlight => exact absurd trivial hfits

/-! ## Opening a file -/

theorem lines_setText : (s.setText m lines).lines = lines := by
  unfold Editor.setText
  split_ifs with hsame
  · exact hsame.symm
  · show (s.changed m [] (lines.map plain) []).map Cell.text = lines
    rw [lines_changed, List.map_map]
    simp [Function.comp_def, plain]

theorem highlighter_setText : (s.setText m lines).highlighter = s.highlighter := by
  unfold Editor.setText
  split_ifs <;> rfl

theorem lines_attachHighlighter (lang : String) : (s.attachHighlighter m lang).lines = s.lines := by
  unfold Editor.attachHighlighter
  split_ifs
  · rfl
  · split
    · exact lines_rehighlight
    · rfl

theorem language_attachHighlighter (lang : String) :
    (s.attachHighlighter m lang).language = s.language := by
  unfold Editor.attachHighlighter
  split_ifs
  · rfl
  · split <;> rfl

theorem attaches_of_none (h : s.highlighter = none) (lang : String) : s.Attaches m lang := by
  unfold Editor.Attaches
  rw [h]
  trivial

/-- The text and the language after a step, whether it fits or not. -/
theorem named_step (h : Inv m s) (hstep : (notepad m).step s e = some s') :
    (∃ path, s'.language = languageForFile path) ∧ s'.lines ≠ [] := by
  cases e with
  | edit n k new =>
      obtain ⟨hedits, hs'⟩ := Option.ite_none_right_eq_some.mp hstep
      obtain rfl := Option.some.inj hs'
      refine ⟨h.named, ?_⟩
      show (s.changed m (s.blocks.take n) (insertedBlocks new) (s.blocks.drop (n + k))).map
        Cell.text ≠ []
      rw [lines_changed]
      simp [insertedBlocks, hedits.2.2.1]
  | load path lines =>
      obtain ⟨hlines, hs'⟩ := Option.ite_none_left_eq_some.mp hstep
      obtain rfl := Option.some.inj hs'
      refine ⟨⟨path, language_attachHighlighter _⟩, ?_⟩
      have hsame : ((s.setText m lines).setLanguageOf m path).lines = lines :=
        (lines_attachHighlighter _).trans lines_setText
      rwa [hsame]
  | saveCurrentAs path =>
      obtain rfl := Option.some.inj hstep
      refine ⟨⟨path, language_attachHighlighter _⟩, ?_⟩
      have hsame : (s.setLanguageOf m path).lines = s.lines := lines_attachHighlighter _
      rw [hsame]
      exact h.lines
  | delayedRehighlight =>
      obtain ⟨blocks, highlighter, pending, language⟩ := s
      cases highlighter with
      | none => nomatch hstep
      | some c =>
          obtain ⟨-, hs'⟩ := Option.ite_none_right_eq_some.mp hstep
          obtain rfl := Option.some.inj hs'
          refine ⟨h.named, ?_⟩
          rw [lines_rehighlight]
          exact h.lines

/-- A state that waits to be highlighted is highlighted. -/
theorem exists_settled (h : (notepad m).ReachableWhere (Fits m) s) :
    ∃ s', (notepad m).ReachableWhere (Fits m) s' ∧ s'.rehighlightPending = false ∧
      s'.lines = s.lines ∧
      s'.language = s.language := by
  cases hpending : s.rehighlightPending with
  | false => exact ⟨s, h, hpending, rfl, rfl⟩
  | true =>
      obtain ⟨c, hc⟩ := Option.ne_none_iff_exists'.mp ((inv_of_fits h).waits hpending).1
      have hdelayed : (notepad m).step s .delayedRehighlight = some (s.rehighlight m c) := by
        show (match s.highlighter with
          | some c => if s.rehighlightPending then some (s.rehighlight m c) else none
          | none => none) = _
        rw [hc, hpending]
        rfl
      have hfits : Fits m s .delayedRehighlight := trivial
      exact ⟨s.rehighlight m c, h.step hfits hdelayed, rfl, lines_rehighlight, rfl⟩

/-- Every text with the language of a file can be opened. -/
theorem exists_opened (m : Matcher) (path : String) (hlines : lines ≠ []) :
    ∃ s, (notepad m).ReachableWhere (Fits m) s ∧ s.rehighlightPending = false ∧ s.lines = lines ∧
      s.language = languageForFile path := by
  have hload : (notepad m).step .start (.load path lines) =
      some ((Editor.start.setText m lines).setLanguageOf m path) :=
    if_neg hlines
  have hfits : Fits m .start (.load path lines) := attaches_of_none highlighter_setText _
  have hreach := (Transition.System.ReachableWhere.init rfl).step hfits hload
  have hsame : ((Editor.start.setText m lines).setLanguageOf m path).lines = lines :=
    (lines_attachHighlighter _).trans lines_setText
  have hlanguage : ((Editor.start.setText m lines).setLanguageOf m path).language =
      languageForFile path :=
    language_attachHighlighter _
  obtain ⟨s, hs, hsettled, hlines', hlanguage'⟩ := exists_settled hreach
  exact ⟨s, hs, hsettled, hlines'.trans hsame, hlanguage'.trans hlanguage⟩

end Steps

/-- **What is highlighted depends on the text and the language** alone after histories whose steps
all fit; after a step that does not, the same text would be highlighted otherwise if it had been
opened. -/
theorem same_of_fits (m : Matcher) (s : Editor) (h : (notepad m).ReachableWhere (Fits m) s) :
    (∀ s₂, (notepad m).ReachableWhere (Fits m) s₂ → s.rehighlightPending = false →
      s₂.rehighlightPending = false →
        s.lines = s₂.lines → s.language = s₂.language →
        s.config = s₂.config ∧ s.blocks = s₂.blocks) ∧
      ∀ e s', (notepad m).step s e = some s' → ¬ Fits m s e →
        ∃ s₂, (notepad m).ReachableWhere (Fits m) s₂ ∧ s₂.rehighlightPending = false ∧
        s₂.lines = s'.lines ∧
          s₂.language = s'.language ∧ ¬ (s₂.config = s'.config ∧ s₂.blocks = s'.blocks) := by
  have hinv := inv_of_fits h
  constructor
  · intro s₂ h₂ hsettled hsettled₂ hlines hlanguage
    have hopened := hinv.asOpened hsettled
    have hopened₂ := (inv_of_fits h₂).asOpened hsettled₂
    have hconfig : s.config = s₂.config := by
      rw [hopened.config, hopened₂.config, hlanguage]
    refine ⟨hconfig, ?_⟩
    rw [hopened.blocks, hopened₂.blocks, hconfig, hlines]
  · intro e s' hstep hfits
    have hnot := not_asOpened_of_not_fits hinv hfits hstep
    obtain ⟨hnamed, hlines⟩ := named_step hinv hstep
    obtain ⟨path, hpath⟩ := hnamed
    obtain ⟨s₂, h₂, hsettled₂, hlines₂, hlanguage₂⟩ := exists_opened m path hlines
    have hopened₂ := (inv_of_fits h₂).asOpened hsettled₂
    refine ⟨s₂, h₂, hsettled₂, hlines₂, hlanguage₂.trans hpath.symm, fun hsame => hnot ⟨?_, ?_⟩⟩
    · rw [← hsame.1, hopened₂.config, hlanguage₂, hpath]
    · rw [← hsame.1, ← hsame.2, ← hlines₂]
      exact hopened₂.blocks

/-- Lines without anything that a rule matches. -/
def plainMatcher : Matcher := ⟨fun _ _ => [], fun _ => rfl⟩

/-- A line is changed in a file of C++. -/
def changedLine : List Event :=
  [.load "/home/nira/a.cpp" ["int x;".toList], .delayedRehighlight,
    .edit 0 1 [("/* x */".toList, -1)]]

/-- The text is there from the beginning. -/
def openedLine : List Event := [.load "/home/nira/a.cpp" ["/* x */".toList], .delayedRehighlight]

theorem same_changedLine :
    ∃ s s₂ : Editor, s.lines = ["/* x */".toList] ∧ s₂.lines = ["/* x */".toList] ∧
      s.config = s₂.config ∧ s.blocks = s₂.blocks := by
  have hrun : ((notepad plainMatcher).runWhere (Fits plainMatcher) .start changedLine).any (fun s =>
      s.rehighlightPending = false ∧ s.lines = ["/* x */".toList] ∧ s.language = "cpp") = true := by
    decide +kernel
  have hrun₂ : ((notepad plainMatcher).runWhere (Fits plainMatcher) .start openedLine).any (fun s =>
      s.rehighlightPending = false ∧ s.lines = ["/* x */".toList] ∧ s.language = "cpp") = true := by
    decide +kernel
  obtain ⟨s, hs, htest⟩ := Transition.System.exists_reachableWhere_of_run rfl hrun
  obtain ⟨s₂, hs₂, htest₂⟩ := Transition.System.exists_reachableWhere_of_run rfl hrun₂
  obtain ⟨hsettled, hlines, hlanguage⟩ := of_decide_eq_true htest
  obtain ⟨hsettled₂, hlines₂, hlanguage₂⟩ := of_decide_eq_true htest₂
  have hsame :=
    (same_of_fits plainMatcher s hs).1 s₂ hs₂ hsettled hsettled₂ (hlines.trans hlines₂.symm)
    (hlanguage.trans hlanguage₂.symm)
  exact ⟨s, s₂, hlines, hlines₂, hsame.1, hsame.2⟩

/-- A comment is opened over two lines, and its star deleted again. -/
def closedAgain : List Event :=
  [.load "/home/nira/a.cpp" ["/* x".toList, "y".toList], .delayedRehighlight,
    .edit 0 1 [("/ x".toList, 1)]]

/-- The text that is left. -/
def openedClosed : List Event :=
  [.load "/home/nira/a.cpp" ["/ x".toList, "y".toList], .delayedRehighlight]

/-- The second line stays a comment. -/
theorem not_same_closedAgain :
    ∃ s s₂ : Editor, (notepad plainMatcher).Reachable s ∧ (notepad plainMatcher).Reachable s₂ ∧
      s.rehighlightPending = false ∧ s₂.rehighlightPending = false ∧ s.lines = s₂.lines ∧
      s.language = s₂.language ∧
        s.blocks.map Cell.output ≠ s₂.blocks.map Cell.output := by
  have hrun : ((notepad plainMatcher).run .start closedAgain).any (fun s =>
      s.rehighlightPending = false ∧ s.lines = ["/ x".toList, "y".toList] ∧ s.language = "cpp" ∧
        s.blocks.map Cell.output = [[], [⟨0, 1, .comment⟩]]) = true := by
    decide +kernel
  have hrun₂ : ((notepad plainMatcher).run .start openedClosed).any (fun s =>
      s.rehighlightPending = false ∧ s.lines = ["/ x".toList, "y".toList] ∧ s.language = "cpp" ∧
        s.blocks.map Cell.output = [[], []]) = true := by
    decide +kernel
  obtain ⟨s, hs, htest⟩ := Transition.System.exists_reachable_of_run rfl hrun
  obtain ⟨s₂, hs₂, htest₂⟩ := Transition.System.exists_reachable_of_run rfl hrun₂
  obtain ⟨hsettled, hlines, hlanguage, hformats⟩ := of_decide_eq_true htest
  obtain ⟨hsettled₂, hlines₂, hlanguage₂, hformats₂⟩ := of_decide_eq_true htest₂
  refine ⟨s, s₂, hs, hs₂, hsettled, hsettled₂, hlines.trans hlines₂.symm,
    hlanguage.trans hlanguage₂.symm, ?_⟩
  rw [hformats, hformats₂]
  decide

end NiraOS.Notepad.Highlighting
