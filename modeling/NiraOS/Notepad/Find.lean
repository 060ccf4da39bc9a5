import NiraOS.Lib.WrapAround
import Mathlib.Logic.Function.Iterate

/-!
# Finding the next occurrence

`findNext` (`apps/notepad/qml/Main.qml`).  It searches a lower-case copy of the text for a
lower-case copy of the query, from one place after the cursor on and then from the beginning, and
selects what lies in the text where it has found something in the copy.

What should be selected is the next place where the text says what the query says, up to case
(`Occurrence`), from the end of the selection on (`Right`).  A call goes wrong if

* an occurrence begins right at the cursor, where the search does not look, and is not the only one;
* the copy is not as long as the text, so that its places are others;
* the occurrence is not as long as the query.

`Met` says of a text, a query and a selection that none of this is so.  All calls are right if and
only if it holds of the first selection and of all that are due after it (`Due`): each time the next
occurrence in the length of the query.
-/

namespace NiraOS.Notepad.Find

open Occurrences WrapAround

variable {α : Type*}

/-! ## The editor -/

/-- A text area, as far as searches use it. -/
structure Editor (α : Type*) where
  text : List α
  selectionStart : ℕ
  selectionEnd : ℕ
  cursorPosition : ℕ
  ordered : selectionStart ≤ selectionEnd
  selectionEnd_le : selectionEnd ≤ text.length
  /-- The cursor is at one end of the selection. -/
  cursor_eq : cursorPosition = selectionStart ∨ cursorPosition = selectionEnd

/-- `select`.  A range that is not in the text is not selected. -/
def Editor.select (e : Editor α) (start stop : ℕ) : Editor α :=
  if h : max start stop ≤ e.text.length then
    { text := e.text
      selectionStart := min start stop
      selectionEnd := max start stop
      cursorPosition := stop
      ordered := by omega
      selectionEnd_le := h
      cursor_eq := by omega }
  else e

def Editor.selectedText (e : Editor α) : List α :=
  (e.text.drop e.selectionStart).take (e.selectionEnd - e.selectionStart)

/-- How texts are made lower-case.  Every letter has some lower-case text. -/
structure Casing (α : Type*) where
  toLowerCase : List α → List α
  ne_nil : ∀ text, text ≠ [] → toLowerCase text ≠ []

/-! ## The code -/

section Code

variable [DecidableEq α] (casing : Casing α) (findText : List α)

/-- `indexOf`.  A start behind the end is the end. -/
def indexOf (text pattern : List α) (start : ℕ) : Option ℕ :=
  Occurrences.indexOf text pattern (min start text.length)

/-- The range that `findNext` selects. -/
def target (e : Editor α) : Option (ℕ × ℕ) :=
  let hay := casing.toLowerCase e.text
  let needle := casing.toLowerCase findText
  let start := e.cursorPosition + 1
  let idx := match indexOf hay needle start with
    | some i => some i
    | none => indexOf hay needle 0
  idx.map fun i => (i, i + findText.length)

def findNext (e : Editor α) : Editor α :=
  if findText = [] then e
  else
    match target casing findText e with
    | none => e
    | some range => e.select range.1 range.2

end Code

/-! ## What should be found -/

section Specification

variable (casing : Casing α) (query : List α)

/-- From `a` to `b` the text is the query, up to case. -/
structure Occurrence (text : List α) (a b : ℕ) : Prop where
  le : a ≤ b
  le_length : b ≤ text.length
  lower_eq : casing.toLowerCase ((text.drop a).take (b - a)) = casing.toLowerCase query

def Begins (text : List α) (a : ℕ) : Prop := ∃ b, Occurrence casing query text a b

/-- Where the copy shows the query. -/
def Shown (text : List α) (i : ℕ) : Prop :=
  OccursAt (casing.toLowerCase text) (casing.toLowerCase query) i

instance [DecidableEq α] {text : List α} {i : ℕ} : Decidable (Shown casing query text i) :=
  inferInstanceAs (Decidable (OccursAt _ _ _))

variable (e : Editor α)

/-- A call selects the occurrence that is next after the selection, and nothing if there is none. -/
def Right [DecidableEq α] : Prop :=
  (∃ a, Begins casing query e.text a) ∧
      IsNext (Begins casing query e.text) e.selectionEnd (findNext casing query e).selectionStart ∧
      Occurrence casing query e.text (findNext casing query e).selectionStart
        (findNext casing query e).selectionEnd ∨
    (∀ a, ¬ Begins casing query e.text a) ∧ findNext casing query e = e

/-- A search of the copy from behind the cursor meets nothing that could be selected. -/
def Idle : Prop :=
  ∀ i, IsNext (Shown casing query e.text) (e.cursorPosition + 1) i →
    e.text.length < i + query.length

/-- What a search of the copy from behind the cursor meets is the next occurrence; or it meets
nothing, and nothing needs to be selected. -/
def Met : Prop :=
  (∃ a, IsNext (Begins casing query e.text) e.selectionEnd a ∧
      (IsNext (Shown casing query e.text) (e.cursorPosition + 1) a ∧
          Occurrence casing query e.text a (a + query.length) ∨
        Idle casing query e ∧ a = e.selectionStart ∧
          Occurrence casing query e.text a e.selectionEnd)) ∨
    (∀ a, ¬ Begins casing query e.text a) ∧
      ∀ i, IsNext (Shown casing query e.text) (e.cursorPosition + 1) i →
        e.select i (i + query.length) = e

/-- The selections that are due from the first one on: from each the next occurrence. -/
inductive Due : Editor α → Prop
  | start : Due e
  | next {e' : Editor α} {a : ℕ} (h : Due e') (hidle : ¬ Idle casing query e')
      (ha : IsNext (Begins casing query e'.text) e'.selectionEnd a) :
      Due (e'.select a (a + query.length))

end Specification

/-! ## One call -/

section OneCall

variable [DecidableEq α] {casing : Casing α} {query : List α} {e : Editor α}

/-- For a pattern that is not empty it does not matter how far behind the end a search begins. -/
theorem indexOf_eq {text pattern : List α} {start : ℕ} (hpattern : pattern ≠ []) :
    indexOf text pattern start = Occurrences.indexOf text pattern start := by
  unfold indexOf
  by_cases hle : start ≤ text.length
  · rw [Nat.min_eq_left hle]
  · have hend : ¬ OccursAt text pattern text.length := by
      intro h
      have hlength := h.add_length_le
      exact hpattern (List.eq_nil_of_length_eq_zero (by omega))
    rw [Nat.min_eq_right (by omega), indexOf_length hend, indexOf_of_length_lt (by omega)]

theorem target_eq (hquery : query ≠ []) :
    target casing query e =
      (search (casing.toLowerCase e.text) (casing.toLowerCase query) (e.cursorPosition + 1)).map
        fun i => (i, i + query.length) := by
  have hneedle := casing.ne_nil query hquery
  have hindexOf : ∀ start, indexOf (casing.toLowerCase e.text) (casing.toLowerCase query) start =
      Occurrences.indexOf (casing.toLowerCase e.text) (casing.toLowerCase query) start :=
        fun _ => indexOf_eq hneedle
  unfold target search
  cases h : Occurrences.indexOf (casing.toLowerCase e.text) (casing.toLowerCase query)
    (e.cursorPosition + 1) with
  | none => simp only [hindexOf, h]
  | some i => simp only [hindexOf, h]

theorem target_eq_none_iff (hquery : query ≠ []) :
    target casing query e = none ↔ ∀ i, ¬ Shown casing query e.text i := by
  rw [target_eq hquery, Option.map_eq_none_iff, search_eq_none_iff]
  rfl

theorem target_eq_some_iff (hquery : query ≠ []) {a b : ℕ} :
    target casing query e = some (a, b) ↔
      IsNext (Shown casing query e.text) (e.cursorPosition + 1) a ∧ b = a + query.length := by
  rw [target_eq hquery, Option.map_eq_some_iff]
  constructor
  · intro h
    obtain ⟨i, hi, hpair⟩ := h
    obtain ⟨rfl, rfl⟩ := Prod.mk.inj hpair
    exact ⟨search_eq_some_iff.mp hi, rfl⟩
  · intro h
    exact ⟨a, search_eq_some_iff.mpr h.1, by rw [h.2]⟩

/-- What the search meets is selected, if it lies in the text. -/
theorem findNext_of_isNext (hquery : query ≠ []) {i : ℕ}
    (hi : IsNext (Shown casing query e.text) (e.cursorPosition + 1) i) :
    findNext casing query e = e.select i (i + query.length) := by
  rw [findNext, if_neg hquery, (target_eq_some_iff hquery).mpr ⟨hi, rfl⟩]

omit [DecidableEq α] in
theorem select_of_lt {start stop : ℕ} (h : e.text.length < max start stop) :
    e.select start stop = e :=
  dif_neg (Nat.not_le.mpr h)

omit [DecidableEq α] in
theorem select_of_le {a n : ℕ} (h : a + n ≤ e.text.length) :
    (e.select a (a + n)).text = e.text ∧ (e.select a (a + n)).selectionStart = a ∧
      (e.select a (a + n)).selectionEnd = a + n ∧ (e.select a (a + n)).cursorPosition = a + n := by
  have hmax : max a (a + n) ≤ e.text.length := by omega
  rw [Editor.select, dif_pos hmax]
  exact ⟨rfl, Nat.min_eq_left (Nat.le_add_right a n), Nat.max_eq_right (Nat.le_add_right a n), rfl⟩

/-- A call that meets nothing in the text leaves the selection. -/
theorem findNext_of_idle (hquery : query ≠ []) (hidle : Idle casing query e) :
    findNext casing query e = e := by
  by_cases hnone : ∀ i, ¬ Shown casing query e.text i
  · rw [findNext, if_neg hquery, (target_eq_none_iff hquery).mpr hnone]
  · push Not at hnone
    obtain ⟨i, hi⟩ := exists_isNext (x := e.cursorPosition + 1) hnone
    rw [findNext_of_isNext hquery hi]
    apply select_of_lt
    have hout := hidle i hi
    omega

omit [DecidableEq α] in
theorem exists_of_not_idle (hidle : ¬ Idle casing query e) :
    ∃ i, IsNext (Shown casing query e.text) (e.cursorPosition + 1) i ∧
      i + query.length ≤ e.text.length := by
  unfold Idle at hidle
  push Not at hidle
  exact hidle

/-- **One call** is right exactly if the condition is met. -/
theorem right_iff (hquery : query ≠ []) : Right casing query e ↔ Met casing query e := by
  by_cases hidle : Idle casing query e
  · -- the selection stays
    have hstays := findNext_of_idle hquery hidle
    unfold Right Met
    rw [hstays]
    constructor
    · intro h
      rcases h with ⟨-, hnext, hoccurrence⟩ | ⟨hnone, -⟩
      · exact Or.inl ⟨_, hnext, Or.inr ⟨hidle, rfl, hoccurrence⟩⟩
      · refine Or.inr ⟨hnone, fun i hi => ?_⟩
        rw [← findNext_of_isNext hquery hi, hstays]
    · intro h
      rcases h with ⟨a, hnext, ⟨hshown, hoccurrence⟩ | ⟨-, rfl, hoccurrence⟩⟩ | ⟨hnone, -⟩
      · have hle := hoccurrence.le_length
        have hout := hidle a hshown
        omega
      · exact Or.inl ⟨⟨_, hnext.mem⟩, hnext, hoccurrence⟩
      · exact Or.inr ⟨hnone, rfl⟩
  · obtain ⟨i, hi, hle⟩ := exists_of_not_idle hidle
    have hselect := findNext_of_isNext hquery hi
    obtain ⟨-, hstart, hstop, -⟩ := select_of_le hle
    unfold Right Met
    rw [hselect, hstart, hstop]
    constructor
    · intro h
      rcases h with ⟨-, hnext, hoccurrence⟩ | ⟨hnone, hsame⟩
      · exact Or.inl ⟨i, hnext, Or.inl ⟨hi, hoccurrence⟩⟩
      · refine Or.inr ⟨hnone, fun j hj => ?_⟩
        rw [hj.unique hi, hsame]
    · intro h
      rcases h with ⟨a, hnext, ⟨hshown, hoccurrence⟩ | ⟨hno, -⟩⟩ | ⟨hnone, hsame⟩
      · obtain rfl := hshown.unique hi
        exact Or.inl ⟨⟨a, hnext.mem⟩, hnext, hoccurrence⟩
      · exact absurd hno hidle
      · exact Or.inr ⟨hnone, hsame i hi⟩

end OneCall

/-! ## Repeated calls -/

section Repeated

variable [DecidableEq α] {casing : Casing α} {query : List α} {e e' : Editor α}

/-- As long as the condition is met, a call leads to what is due. -/
theorem due_findNext (hquery : query ≠ []) (hdue : Due casing query e e')
    (hmet : Met casing query e') : Due casing query e (findNext casing query e') := by
  by_cases hidle : Idle casing query e'
  · rw [findNext_of_idle hquery hidle]
    exact hdue
  · rcases hmet with ⟨a, hnext, ⟨hshown, -⟩ | ⟨hno, -⟩⟩ | ⟨-, hsame⟩
    · rw [findNext_of_isNext hquery hshown]
      exact hdue.next hidle hnext
    · exact absurd hno hidle
    · obtain ⟨i, hi, -⟩ := exists_of_not_idle hidle
      rw [findNext_of_isNext hquery hi, hsame i hi]
      exact hdue

/-- As long as all calls are right, what is due is selected by one of them. -/
theorem exists_iterate_of_due (hquery : query ≠ [])
    (h : ∀ n, Right casing query ((findNext casing query)^[n] e)) (hdue : Due casing query e e') :
    ∃ n, (findNext casing query)^[n] e = e' := by
  induction hdue with
  | start => exact ⟨0, rfl⟩
  | next hdue hidle hnext ih =>
      obtain ⟨n, rfl⟩ := ih
      refine ⟨n + 1, ?_⟩
      rw [Function.iterate_succ_apply']
      rcases (right_iff hquery).mp (h n) with ⟨a, hnext', ⟨hshown, -⟩ | ⟨hno, -⟩⟩ | ⟨hnone, -⟩
      · rw [hnext.unique hnext']
        exact findNext_of_isNext hquery hshown
      · exact absurd hno hidle
      · exact absurd hnext.mem (hnone _)

end Repeated

/-- **Repeated calls** are all right exactly if the condition is met by the first selection and by
all that are due after it. -/
theorem right_iterate_iff [DecidableEq α] (casing : Casing α) {query : List α} (hquery : query ≠ [])
    (e : Editor α) :
    (∀ n, Right casing query ((findNext casing query)^[n] e)) ↔
      ∀ e', Due casing query e e' → Met casing query e' := by
  constructor
  · intro h e' hdue
    obtain ⟨n, rfl⟩ := exists_iterate_of_due hquery h hdue
    exact (right_iff hquery).mp (h n)
  · intro h n
    have hdue : ∀ n, Due casing query e ((findNext casing query)^[n] e) := by
      intro n
      induction n with
      | zero => exact .start
      | succ n ih =>
          rw [Function.iterate_succ_apply']
          exact due_findNext hquery ih (h _ ih)
    exact (right_iff hquery).mpr (h _ (hdue n))

/-! ## Letter by letter

Where every letter has one letter for its lower case, the copy shows what the text says, and the
only thing that goes wrong is an occurrence at the cursor. -/

section Letterwise

variable {casing : Casing α} {query text : List α} {f : α → α} {a b : ℕ}

/-- The copy shows the query where it occurs in the text, in its own length. -/
def Aligned (casing : Casing α) (query text : List α) : Prop :=
  ∀ a, Shown casing query text a ↔ Occurrence casing query text a (a + query.length)

theorem Occurrence.length_eq (hlower : ∀ s, casing.toLowerCase s = s.map f)
    (h : Occurrence casing query text a b) :
    b = a + query.length := by
  have hlength := congrArg List.length h.lower_eq
  rw [hlower, hlower, List.length_map, List.length_map, List.length_take,
    List.length_drop] at hlength
  have := h.le
  have := h.le_length
  omega

theorem begins_iff (hlower : ∀ s, casing.toLowerCase s = s.map f) :
    Begins casing query text a ↔ Occurrence casing query text a (a + query.length) := by
  constructor
  · intro h
    obtain ⟨b, hb⟩ := h
    rwa [← hb.length_eq hlower]
  · exact fun h => ⟨_, h⟩

theorem aligned_of_letterwise (hlower : ∀ s, casing.toLowerCase s = s.map f) :
    Aligned casing query text := by
  intro a
  have hslice : (text.drop a).take (a + query.length - a) = (text.drop a).take query.length := by
    rw [Nat.add_sub_cancel_left]
  unfold Shown
  rw [hlower, hlower]
  constructor
  · intro h
    have hle := h.add_length_le
    rw [List.length_map, List.length_map] at hle
    refine ⟨Nat.le_add_right _ _, hle, ?_⟩
    have htake := List.prefix_iff_eq_take.mp h.2
    rw [List.length_map, ← List.map_drop, ← List.map_take] at htake
    rw [hslice, hlower, hlower, htake]
  · intro h
    have hle := h.le_length
    refine ⟨?_, ?_⟩
    · rw [List.length_map]
      omega
    · have heq := h.lower_eq
      rw [hslice, hlower, hlower] at heq
      rw [← heq, ← List.map_drop]
      exact (List.take_prefix _ _).map f

variable {e : Editor α}

/-- Letter by letter a search that finds something selects it. -/
theorem not_idle_of_letterwise (hlower : ∀ s, casing.toLowerCase s = s.map f)
    (hbegins : Begins casing query e.text a) : ¬ Idle casing query e := by
  intro hidle
  have halign : Aligned casing query e.text := aligned_of_letterwise hlower
  obtain ⟨i, hi⟩ := exists_isNext (x := e.cursorPosition + 1)
    ⟨a, (halign a).mpr ((begins_iff hlower).mp hbegins)⟩
  have hout := hidle i hi
  have hle := ((halign i).mp hi.mem).le_length
  omega

/-- **Letter by letter**, a call is right unless an occurrence that is not the only one begins at
the cursor. -/
theorem met_iff_of_letterwise (hlower : ∀ s, casing.toLowerCase s = s.map f)
    (hcursor : e.cursorPosition = e.selectionEnd) :
    Met casing query e ↔
      (Begins casing query e.text e.cursorPosition →
        ∀ a, Begins casing query e.text a → a = e.cursorPosition) := by
  have hshown : Shown casing query e.text = Begins casing query e.text := by
    funext a
    exact propext ((aligned_of_letterwise hlower a).trans (begins_iff hlower).symm)
  unfold Met
  rw [hshown, ← hcursor]
  constructor
  · intro h hbegins
    rcases h with ⟨a, hnext, ⟨hsucc, -⟩ | ⟨hidle, -⟩⟩ | ⟨hnone, -⟩
    · exact (isNext_succ_iff hnext).mp hsucc hbegins
    · exact absurd hidle (not_idle_of_letterwise hlower hbegins)
    · exact absurd hbegins (hnone _)
  · intro h
    by_cases hnone : ∀ a, ¬ Begins casing query e.text a
    · exact Or.inr ⟨hnone, fun i hi => absurd hi.mem (hnone i)⟩
    · push Not at hnone
      obtain ⟨a, ha⟩ := exists_isNext (x := e.cursorPosition) hnone
      exact Or.inl ⟨a, ha, Or.inl ⟨(isNext_succ_iff ha).mpr h, (begins_iff hlower).mp ha.mem⟩⟩

/-- The selection ends at the cursor, and no occurrence begins there. -/
structure Free (casing : Casing α) (query : List α) (e : Editor α) : Prop where
  cursor : e.cursorPosition = e.selectionEnd
  not_begins : ¬ Begins casing query e.text e.cursorPosition

variable [DecidableEq α]

theorem text_findNext : (findNext casing query e).text = e.text := by
  unfold findNext
  split
  · rfl
  · split
    · rfl
    · unfold Editor.select
      split <;> rfl

omit [DecidableEq α] in
/-- In a text where no occurrence follows another at once, no selection that is due ends at one. -/
theorem Free.due {e' : Editor α} (hlower : ∀ s, casing.toLowerCase s = s.map f)
    (h : Free casing query e)
    (hapart : ∀ a, Begins casing query e.text a → ¬ Begins casing query e.text (a + query.length))
    (hdue : Due casing query e e') : e'.text = e.text ∧ Free casing query e' := by
  induction hdue with
  | start => exact ⟨rfl, h⟩
  | @next e' a hdue hidle hnext ih =>
      obtain ⟨htext, -⟩ := ih
      have hle := ((begins_iff hlower).mp hnext.mem).le_length
      obtain ⟨hselect, -, hstop, hcursor⟩ := select_of_le hle
      refine ⟨hselect.trans htext, hcursor.trans hstop.symm, ?_⟩
      rw [hcursor, hselect, htext]
      apply hapart
      rw [← htext]
      exact hnext.mem

omit [DecidableEq α] in
/-- In such a text searches that begin off all occurrences are right. -/
theorem met_of_due (hlower : ∀ s, casing.toLowerCase s = s.map f) (h : Free casing query e)
    (hapart : ∀ a, Begins casing query e.text a → ¬ Begins casing query e.text (a + query.length)) :
    ∀ e', Due casing query e e' → Met casing query e' := by
  intro e' hdue
  obtain ⟨-, hfree⟩ := h.due hlower hapart hdue
  exact (met_iff_of_letterwise hlower hfree.cursor).mpr fun hbegins =>
    absurd hbegins hfree.not_begins

end Letterwise

/-! ## Two texts -/

section Texts

def ascii : Casing Char := ⟨List.map Char.toLower, fun _ h hnil => h (List.map_eq_nil_iff.mp hnil)⟩

/-- A text with the cursor after `n` letters of it. -/
def opened (text : String) (n : ℕ) (h : n ≤ text.toList.length) : Editor Char where
  text := text.toList
  selectionStart := n
  selectionEnd := n
  cursorPosition := n
  ordered := Nat.le_refl n
  selectionEnd_le := h
  cursor_eq := .inl rfl

theorem begins_ascii_iff {query text : List Char} {a : ℕ} :
    Begins ascii query text a ↔ Shown ascii query text a :=
  (begins_iff fun _ => rfl).trans (aligned_of_letterwise (fun _ => rfl) a).symm

def twoWords : Editor Char := opened "ab AB" 1 (by decide)

theorem right_twoWords :
    Right ascii "ab".toList twoWords ∧
      (findNext ascii "ab".toList twoWords).selectionStart = 3 ∧
      Right ascii "ab".toList (findNext ascii "ab".toList twoWords) ∧
      (findNext ascii "ab".toList (findNext ascii "ab".toList twoWords)).selectionStart = 0 := by
  have hfree : Free ascii "ab".toList twoWords :=
    ⟨rfl, fun h => absurd (begins_ascii_iff.mp h) (by decide)⟩
  have hplaces : ∀ a ≤ 5, Shown ascii "ab".toList twoWords.text a →
      ¬ Shown ascii "ab".toList twoWords.text (a + 2) := by
    decide
  have hmet := met_of_due (fun _ => rfl) hfree fun a ha hnext =>
    hplaces a (begins_ascii_iff.mp ha).1 (begins_ascii_iff.mp ha) (begins_ascii_iff.mp hnext)
  have hne : "ab".toList ≠ [] := by decide
  have hright := (right_iterate_iff ascii hne twoWords).mpr hmet
  exact ⟨hright 0, by decide, hright 1, by decide⟩

/-- An occurrence at the cursor, and one that follows it at once. -/
def adjacent : Editor Char := opened "abab" 0 (by decide)

theorem not_right_adjacent :
    ¬ ∀ n, Right ascii "ab".toList ((findNext ascii "ab".toList)^[n] adjacent) := by
  intro h
  have hbegins : Begins ascii "ab".toList adjacent.text 0 := begins_ascii_iff.mpr (by decide)
  have hselected : (findNext ascii "ab".toList adjacent).selectionStart = 2 := by decide
  rcases h 0 with ⟨-, hnext, -⟩ | ⟨hnone, -⟩
  · rw [Function.iterate_zero_apply, hselected] at hnext
    exact hnext.first 0 hbegins (Or.inr ⟨by decide, Or.inl (Nat.le_refl 0)⟩)
  · exact hnone 0 hbegins

end Texts

end NiraOS.Notepad.Find
