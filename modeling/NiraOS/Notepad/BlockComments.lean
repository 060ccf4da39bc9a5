import NiraOS.Lib.Runs
import NiraOS.Notepad.Highlighter

/-!
# Block comments over several lines

Whether a line ends in a block comment, as the highlighter has it and as the language does.  The
highlighter looks for a line comment first, and leaves the line with it, wherever that stands:

```text
line                     the language        the highlighter
/* x // y                in a comment        sets no state
// /* x                  in no comment       sets no state
/* x                     in a comment        in a comment
*/ x // y, in one        in no comment       sets no state
```
-/

namespace NiraOS.Notepad.Highlighting

open Occurrences (indexFrom indexOf OccursAt)

/-! ## The language -/

/-- The comments of one line, which begins in a block comment or not. -/
def lexLine : Bool → Line → Bool
  | inside, [] => inside
  | inside, [_] => inside
  | true, c :: d :: rest =>
      if c = '*' ∧ d = '/' then lexLine false rest else lexLine true (d :: rest)
  | false, c :: d :: rest =>
      if c = '/' ∧ d = '/' then false
      else if c = '/' ∧ d = '*' then lexLine true rest
      else lexLine false (d :: rest)

/-- Whether some lines end in a block comment. -/
def insideAfter (lines : List Line) : Bool := lines.foldl lexLine false

/-! ## The highlighter -/

section States

variable (globalMatch : Pattern → Line → List (ℕ × ℕ)) (c : Config)

/-- The state of a line that had none, once it was highlighted. -/
def endState (previousBlockState : ℤ) (text : Line) : ℤ :=
  (highlightBlock globalMatch c previousBlockState text).state.getD (-1)

/-- The state of the last of some lines that are highlighted afresh. -/
def stateAfter (lines : List Line) : ℤ := lines.foldl (endState globalMatch c) (-1)

end States

def slashes : Line := ['/', '/']

/-- A language with the comments of C. -/
def LikeC (language : String) : Prop :=
  Text.toLowercase language ∈ ["cpp", "c", "h", "cxx", "hpp", "cc", "qml", "js", "javascript"]

/-- What the rules of such a language leave to the comments. -/
structure CComments (c : Config) : Prop where
  lineComments : c.lineComments = ["//"]
  blockStart : c.blockStart = "/*"
  blockEnd : c.blockEnd = "*/"

theorem cComments_setLanguage {language : String} (h : LikeC language) (c : Config) :
    CComments (setLanguage c language) := by
  unfold setLanguage
  unfold LikeC at h
  simp only [List.mem_cons, List.not_mem_nil, or_false] at h
  rcases h with h | h | h | h | h | h | h | h | h <;> rw [h] <;> exact ⟨rfl, rfl, rfl⟩

/-! ## Searching in a line -/

section Searching

variable {text : Line} {c d : Char} {rest : Line} {i : ℕ}

theorem pair_prefix_iff {a b : Char} : [a, b] <+: c :: d :: rest ↔ c = a ∧ d = b := by
  rw [List.cons_prefix_cons, List.cons_prefix_cons]
  simp [eq_comm]

theorem indexFrom_nil_pair {a b : Char} : indexFrom [a, b] i [] = none := rfl

theorem indexFrom_single {a b : Char} : indexFrom [a, b] i [c] = none := by
  rw [Occurrences.indexFrom_cons, indexFrom_nil_pair]
  intro h
  nomatch (List.cons_prefix_cons.mp h).2.length_le

/-- What follows an occurrence, from the rest of a line. -/
theorem drop_past {j : ℕ} (h : i + 1 ≤ j) :
    (c :: rest).drop (j - i + 2) = rest.drop (j - (i + 1) + 2) := by
  have hlength : j - i + 2 = j - (i + 1) + 2 + 1 := by omega
  rw [hlength, List.drop_succ_cons]

/-- A block comment ends with its first terminator. -/
theorem lexLine_true (text : Line) (i : ℕ) :
    lexLine true text =
      match indexFrom ['*', '/'] i text with
      | none => true
      | some j => lexLine false (text.drop (j - i + 2)) := by
  induction text generalizing i with
  | nil => rfl
  | cons c rest ih =>
      cases rest with
      | nil =>
          rw [indexFrom_single]
          rfl
      | cons d rest =>
          rw [lexLine]
          by_cases hend : c = '*' ∧ d = '/'
          · rw [if_pos hend, Occurrences.indexFrom_prefix (pair_prefix_iff.mpr hend)]
            dsimp only
            rw [Nat.sub_self]
            rfl
          · rw [if_neg hend,
              Occurrences.indexFrom_cons fun hpair => hend (pair_prefix_iff.mp hpair), ih (i + 1)]
            cases hfound : indexFrom ['*', '/'] (i + 1) (d :: rest) with
            | none => rfl
            | some j =>
                exact congrArg (lexLine false) (drop_past (Occurrences.le_of_indexFrom hfound)).symm

/-- Where there is no line comment, the first opener begins a block comment. -/
theorem lexLine_false (text : Line) (i : ℕ) (h : ¬ slashes <:+: text) :
    lexLine false text =
      match indexFrom ['/', '*'] i text with
      | none => false
      | some j => lexLine true (text.drop (j - i + 2)) := by
  induction text generalizing i with
  | nil => rfl
  | cons c rest ih =>
      cases rest with
      | nil =>
          rw [indexFrom_single]
          rfl
      | cons d rest =>
          have hslashes : ¬ (c = '/' ∧ d = '/') :=
            fun hpair => h (pair_prefix_iff.mpr hpair).isInfix
          rw [lexLine, if_neg hslashes]
          by_cases hopen : c = '/' ∧ d = '*'
          · rw [if_pos hopen, Occurrences.indexFrom_prefix (pair_prefix_iff.mpr hopen)]
            dsimp only
            rw [Nat.sub_self]
            rfl
          · rw [if_neg hopen, Occurrences.indexFrom_cons fun hpair =>
              hopen (pair_prefix_iff.mp hpair),
              ih (i + 1) fun hrest => h (hrest.trans (List.suffix_cons _ _).isInfix)]
            cases hfound : indexFrom ['/', '*'] (i + 1) (d :: rest) with
            | none => rfl
            | some j =>
                exact congrArg (lexLine true) (drop_past (Occurrences.le_of_indexFrom hfound)).symm

theorem lexLine_true_drop {start : ℕ} (h : start ≤ text.length) :
    lexLine true (text.drop start) =
      match indexOf text ['*', '/'] start with
      | none => true
      | some j => lexLine false (text.drop (j + 2)) := by
  rw [lexLine_true _ start, indexOf, if_pos h]
  cases hfound : indexFrom ['*', '/'] start (text.drop start) with
  | none => rfl
  | some j =>
      have hle := Occurrences.le_of_indexFrom hfound
      have hplace : start + (j - start + 2) = j + 2 := by omega
      dsimp only
      rw [List.drop_drop, hplace]

theorem lexLine_false_drop {start : ℕ} (h : start ≤ text.length) (hslashes : ¬ slashes <:+: text) :
    lexLine false (text.drop start) =
      match indexOf text ['/', '*'] start with
      | none => false
      | some j => lexLine true (text.drop (j + 2)) := by
  rw [lexLine_false _ start fun hrest => hslashes (hrest.trans (List.drop_suffix _ _).isInfix),
    indexOf, if_pos h]
  cases hfound : indexFrom ['/', '*'] start (text.drop start) with
  | none => rfl
  | some j =>
      have hle := Occurrences.le_of_indexFrom hfound
      have hplace : start + (j - start + 2) = j + 2 := by omega
      dsimp only
      rw [List.drop_drop, hplace]

theorem not_occursAt_length {a b : Char} : ¬ OccursAt text [a, b] text.length := by
  intro h
  have hle : text.length + 2 ≤ text.length := h.add_length_le
  omega

end Searching

/-! ## One line -/

section OneLine

variable {globalMatch : Pattern → Line → List (ℕ × ℕ)} {config : Config} {prev : ℤ} {text : Line}

/-- Where the text of a block comment begins: at once in a line that begins in one. -/
def bodyStart (prev : ℤ) (start : ℕ) : ℕ := if prev = 1 ∧ start = 0 then 0 else start + 2

theorem le_bodyStart {start : ℕ} : start ≤ bodyStart prev start := by
  unfold bodyStart
  split_ifs <;> omega

/-- **The loop** ends in a block comment exactly if the language does. -/
theorem state_blockLoop (hconfig : CComments config) (hslashes : ¬ slashes <:+: text)
    {turns start : ℕ} {h : Highlighted}
    (hbody : bodyStart prev start ≤ text.length) (hturns : text.length + 1 - start ≤ turns) :
    (blockLoop config prev text turns start h).state.getD (-1) = 1 ↔
      lexLine true (text.drop (bodyStart prev start)) = true := by
  have hstart : config.blockStart.toList = ['/', '*'] := hconfig.blockStart ▸ rfl
  have hend : config.blockEnd.toList = ['*', '/'] := hconfig.blockEnd ▸ rfl
  have hstartLength : config.blockStart.length = 2 := hconfig.blockStart ▸ rfl
  have hendLength : config.blockEnd.length = 2 := hconfig.blockEnd ▸ rfl
  induction turns generalizing start h with
  | zero =>
      have hle : start ≤ bodyStart prev start := le_bodyStart
      omega
  | succ turns ih =>
      have hfirst : start ≤ bodyStart prev start := le_bodyStart
      have hfound : (if prev = 1 ∧ start = 0 then indexOf text config.blockEnd.toList 0
          else indexOf text config.blockEnd.toList (start + config.blockStart.length)) =
          indexOf text ['*', '/'] (bodyStart prev start) := by
        rw [hend, hstartLength, bodyStart]
        split_ifs <;> rfl
      rw [blockLoop, hfound, lexLine_true_drop hbody, hstart, hendLength]
      cases hcase : indexOf text ['*', '/'] (bodyStart prev start) with
      | none =>
          have hrest : start + (text.length - start) = text.length := by omega
          dsimp only
          rw [hrest, Occurrences.indexOf_length not_occursAt_length]
          exact iff_of_true rfl rfl
      | some ending =>
          obtain ⟨hle, hoccurs, -⟩ := Occurrences.indexOf_eq_some_iff.mp hcase
          have hinText : ending + 2 ≤ text.length := hoccurs.add_length_le
          have hrest : start + (ending + 2 - start) = ending + 2 := by omega
          dsimp only
          rw [hrest, lexLine_false_drop hinText hslashes]
          cases hnext : indexOf text ['/', '*'] (ending + 2) with
          | none => exact iff_of_false nofun nofun
          | some start' =>
              obtain ⟨hle', hoccurs', -⟩ := Occurrences.indexOf_eq_some_iff.mp hnext
              have hinText' : start' + 2 ≤ text.length := hoccurs'.add_length_le
              have hbody' : bodyStart prev start' = start' + 2 := if_neg fun hzero => by omega
              dsimp only
              rw [← hbody']
              exact ih (hbody' ▸ hinText') (by omega)

theorem lineComment_eq_none_iff (hconfig : CComments config) :
    lineComment config text = none ↔ ¬ slashes <:+: text := by
  have hchars : "//".toList = slashes := rfl
  have hfirst : lineComment config text = indexOf text slashes 0 := by
    rw [lineComment, hconfig.lineComments, List.findSome?_cons, List.findSome?_nil, hchars]
    cases indexOf text slashes 0 <;> rfl
  rw [hfirst, Occurrences.indexOf_eq_none_iff, Occurrences.isInfix_iff, not_exists]
  exact ⟨fun h i => h i (Nat.zero_le i), fun h i _ => h i⟩

/-- **A line without two slashes** ends in the state that the language has. -/
theorem endState_of_not_slashes (hconfig : CComments config) {inside : Bool}
    (hprev : prev = 1 ↔ inside = true)
    (hslashes : ¬ slashes <:+: text) :
    endState globalMatch config prev text = 1 ↔ lexLine inside text = true := by
  have hopener : config.blockStart.toList = ['/', '*'] := hconfig.blockStart ▸ rfl
  have hblocks : config.blockStart ≠ "" := hconfig.blockStart ▸ nofun
  rw [endState, highlightBlock, (lineComment_eq_none_iff hconfig).mpr hslashes]
  dsimp only
  rw [if_neg hblocks]
  cases inside with
  | true =>
      have hone : prev = 1 := hprev.mpr rfl
      have hbody : bodyStart prev 0 = 0 := if_pos ⟨hone, rfl⟩
      rw [if_neg (not_not.mpr hone)]
      dsimp only
      have hinText : bodyStart prev 0 ≤ text.length := by
        rw [hbody]
        exact Nat.zero_le _
      rw [state_blockLoop hconfig hslashes hinText (Nat.sub_le _ _), hbody, List.drop_zero]
  | false =>
      have hother : prev ≠ 1 := fun hone => nomatch hprev.mp hone
      have hlex := lexLine_false_drop (Nat.zero_le text.length) hslashes
      rw [List.drop_zero] at hlex
      rw [if_pos hother, hopener, hlex]
      cases hfound : indexOf text ['/', '*'] 0 with
      | none => exact iff_of_false nofun nofun
      | some start =>
          obtain ⟨-, hoccurs, -⟩ := Occurrences.indexOf_eq_some_iff.mp hfound
          have hinText : start + 2 ≤ text.length := hoccurs.add_length_le
          have hbody : bodyStart prev start = start + 2 := if_neg fun hfirst => hother hfirst.1
          dsimp only
          rw [state_blockLoop hconfig hslashes (hbody ▸ hinText) (Nat.sub_le _ _), hbody]

/-- **A line with two slashes** keeps the state of a line that had none. -/
theorem endState_of_slashes (hconfig : CComments config) (hslashes : slashes <:+: text) :
    endState globalMatch config prev text = -1 := by
  obtain ⟨idx, hidx⟩ : ∃ idx, lineComment config text = some idx := by
    rw [← Option.ne_none_iff_exists']
    exact fun hnone => (lineComment_eq_none_iff hconfig).mp hnone hslashes
  rw [endState, highlightBlock, hidx]
  rfl

/-- **One line.** -/
theorem endState_iff (hconfig : CComments config) {inside : Bool}
    (hprev : prev = 1 ↔ inside = true) :
    (endState globalMatch config prev text = 1 ↔ lexLine inside text = true) ↔
      ¬ (slashes <:+: text ∧ lexLine inside text = true) := by
  by_cases hslashes : slashes <:+: text
  · rw [endState_of_slashes hconfig hslashes, and_iff_right hslashes]
    constructor
    · intro h hinside
      nomatch h.mpr hinside
    · intro h
      exact iff_of_false nofun h
  · exact iff_of_true (endState_of_not_slashes hconfig hprev hslashes) fun h => hslashes h.1

end OneLine

@[simp] theorem insideAfter_concat (past : List Line) (line : Line) :
    insideAfter (past ++ [line]) = lexLine (insideAfter past) line :=
  List.foldl_concat ..

@[simp] theorem stateAfter_concat (globalMatch : Pattern → Line → List (ℕ × ℕ)) (config : Config)
    (past : List Line) (line : Line) :
    stateAfter globalMatch config (past ++ [line]) =
      endState globalMatch config (stateAfter globalMatch config past) line :=
  List.foldl_concat ..

/-- **The highlighter keeps track of block comments** exactly if no line that has two slashes ends
in one. -/
theorem stateAfter_iff (globalMatch : Pattern → Line → List (ℕ × ℕ)) (config : Config)
    (language : String)
    (h : LikeC language) (lines : List Line) :
    (∀ past, past <+: lines →
        (stateAfter globalMatch (setLanguage config language) past = 1 ↔ insideAfter past = true)) ↔
      ∀ past line, past ++ [line] <+: lines →
        ¬ (slashes <:+: line ∧ insideAfter (past ++ [line]) = true) := by
  have hconfig := cComments_setLanguage h config
  -- both of them, line by line
  let step : ℤ × Bool → Line → ℤ × Bool := fun s line =>
    (endState globalMatch (setLanguage config language) s.1 line, lexLine s.2 line)
  have hboth : ∀ past, past.foldl step (-1, false) =
      (stateAfter globalMatch (setLanguage config language) past, insideAfter past) := by
    intro past
    induction past using List.reverseRecOn with
    | nil => rfl
    | append_singleton past line ih =>
        rw [List.foldl_concat, ih, stateAfter_concat, insideAfter_concat]
  have hrun := @Runs.forall_prefix_iff _ _ step (-1, false) (fun s => s.1 = 1 ↔ s.2 = true)
    (fun s line => ¬ (slashes <:+: line ∧ lexLine s.2 line = true)) (iff_of_false nofun nofun)
    (fun s line hs => endState_iff hconfig hs) lines
  simp only [hboth] at hrun
  simp only [insideAfter_concat]
  exact hrun

/-- A comment over two lines. -/
def twoLines : List Line := ["int x; /* a".toList, "b */ int y;".toList]

theorem stateAfter_twoLines :
    (stateAfter (fun _ _ => []) (setLanguage .empty "cpp") (twoLines.take 1) = 1 ↔
        insideAfter (twoLines.take 1) = true) ∧
      (stateAfter (fun _ _ => []) (setLanguage .empty "cpp") twoLines = 1 ↔
        insideAfter twoLines = true) := by
  have hlike : LikeC "cpp" := by
    unfold LikeC
    decide
  have hplain : ∀ line ∈ twoLines, ¬ slashes <:+: line := by
    decide +kernel
  have hagree :=
    (stateAfter_iff (fun _ _ => []) .empty "cpp" hlike twoLines).mpr fun past line hpast h =>
    hplain line (hpast.subset (List.mem_append_right _ (List.mem_singleton_self _))) h.1
  exact ⟨hagree _ (List.take_prefix 1 twoLines), hagree _ (List.prefix_refl twoLines)⟩

/-- A comment that begins on a line with two slashes. -/
def slashesInComment : List Line := ["/* a // b".toList]

theorem not_stateAfter_slashes :
    ¬ (stateAfter (fun _ _ => []) (setLanguage .empty "cpp") slashesInComment = 1 ↔
      insideAfter slashesInComment = true) := by
  decide +kernel

end NiraOS.Notepad.Highlighting
