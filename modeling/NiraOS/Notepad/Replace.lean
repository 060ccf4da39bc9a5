import NiraOS.Notepad.Find
import NiraOS.Lib.Splicing

/-!
# Replacing what is found

`replaceOne` and `replaceAll` (`apps/notepad/qml/Main.qml`).  Each has a notion of its own of what
there is to replace:

```text
findNext     the query in the lower-case copy
replaceOne   the selected text, if it is the query letter by letter
replaceAll   the query letter by letter, from left to right
```

`replaced` is the text in which what `findNext` takes for the query is replaced, from left to right.
All of it is by `replaceAll`, whatever the replacement, if and only if the query is found in the
same places letter by letter (`replace_iff`).

A call of `replaceOne` replaces what is selected and selects what comes next.  So the call that is
made before the first occurrence replaces nothing, and one call per occurrence is one too few
wherever there is an occurrence (`agreesOne_iff`).  Each call after the first replaces one, from
left to right, as long as `findNext` skips none.
-/

namespace NiraOS.Notepad.Find

open Occurrences WrapAround Splicing

variable {α : Type*}

/-! ## The code -/

/-- `remove(selectionStart, selectionEnd)`.  The cursor was at one end of the selection. -/
def Editor.removeSelection (e : Editor α) : Editor α where
  text := e.text.take e.selectionStart ++ e.text.drop e.selectionEnd
  selectionStart := e.selectionStart
  selectionEnd := e.selectionStart
  cursorPosition := e.selectionStart
  ordered := Nat.le_refl _
  selectionEnd_le := by
    have := e.ordered
    have := e.selectionEnd_le
    rw [List.length_append, List.length_take]
    omega
  cursor_eq := .inl rfl

/-- `insert`.  What is at or behind the position goes along. -/
def Editor.insert (e : Editor α) (position : ℕ) (inserted : List α) : Editor α :=
  let moved (n : ℕ) : ℕ := if n < position then n else n + inserted.length
  if h : position ≤ e.text.length then
    { text := e.text.take position ++ (inserted ++ e.text.drop position)
      selectionStart := moved e.selectionStart
      selectionEnd := moved e.selectionEnd
      cursorPosition := moved e.cursorPosition
      ordered := by
        have := e.ordered
        dsimp only [moved]
        split <;> split <;> omega
      selectionEnd_le := by
        have := e.selectionEnd_le
        rw [List.length_append, List.length_append, List.length_take, List.length_drop]
        dsimp only [moved]
        split <;> omega
      cursor_eq := by
        rcases e.cursor_eq with h | h <;> rw [h]
        · exact .inl rfl
        · exact .inr rfl }
  else e

section Code

variable [DecidableEq α]

/-- The pieces of a text between separators, but for the first `skip` letters. -/
def splitFrom (separator : List α) : (skip : ℕ) → List α → List (List α)
  | _, [] => [[]]
  | skip + 1, _ :: rest => splitFrom separator skip rest
  | 0, c :: rest =>
      if separator <+: c :: rest then [] :: splitFrom separator (separator.length - 1) rest
      else (splitFrom separator 0 rest).modifyHead (c :: ·)

/-- `split`, by a separator that is not empty. -/
def split (text separator : List α) : List (List α) := splitFrom separator 0 text

variable (casing : Casing α) (findText replaceText : List α)

def replaceOne (e : Editor α) : Editor α :=
  if findText = [] then e
  else
    let e :=
      if e.selectedText = findText then
        let e := e.removeSelection
        e.insert e.cursorPosition replaceText
      else e
    findNext casing findText e

/-- The text after `replaceAll`. -/
def replaceAll (text : List α) : List α :=
  if findText = [] then text else replaceText.intercalate (split text findText)

end Code

/-! ## What should be replaced -/

section Specification

variable [DecidableEq α] (casing : Casing α) (query replacement text : List α)

/-- What `findNext` takes for the query: a range of the text. -/
def Found (i : ℕ) : Prop := Shown casing query text i ∧ i + query.length ≤ text.length

instance {i : ℕ} : Decidable (Found casing query text i) := inferInstanceAs (Decidable (_ ∧ _))

/-- Where it is found, from left to right and without overlaps. -/
def places : List ℕ := greedy (fun i => Found casing query text i) query.length 0 0 text.length

/-- Where the query is found letter by letter. -/
def literalPlaces : List ℕ := greedy (fun i => OccursAt text query i) query.length 0 0 text.length

/-- The text in which the first `n` of them are replaced. -/
def replacedFirst (n : ℕ) : List α :=
  replaceAt text query.length replacement 0 ((places casing query text).take n)

/-- The text in which all of them are. -/
def replaced : List α := replaceAt text query.length replacement 0 (places casing query text)

/-- All at once, whatever the replacement. -/
def AgreesAll : Prop :=
  ∀ replacement, replaceAll query replacement text = replaced casing query replacement text

/-- The editor has the text, and what is selected ends before the first place. -/
structure StartedBefore (e : Editor α) : Prop where
  text_eq : e.text = text
  before : ∀ p ∈ (places casing query text).head?, e.selectionEnd ≤ p

/-- One call per place replaces all of them, if the replacement does not contain the query. -/
def AgreesOne : Prop :=
  ∀ replacement e, ¬ query <:+: replacement → StartedBefore casing query text e →
    ((replaceOne casing query replacement)^[(places casing query text).length] e).text =
      replaced casing query replacement text

end Specification

/-! ## All at once -/

section ReplaceAll

variable {casing : Casing α} {query replacement text : List α} {i : ℕ}

theorem Found.lt (hquery : query ≠ []) (h : Found casing query text i) : i < text.length := by
  have := List.length_pos_of_ne_nil hquery
  have := h.2
  omega

theorem lt_of_occursAt (hquery : query ≠ []) (h : OccursAt text query i) : i < text.length := by
  have := List.length_pos_of_ne_nil hquery
  have := h.add_length_le
  omega

theorem intercalate_modifyHead {separator : List α} {c : α} {pieces : List (List α)}
    (h : pieces ≠ []) :
    separator.intercalate (pieces.modifyHead (c :: ·)) = c :: separator.intercalate pieces := by
  cases pieces with
  | nil => exact absurd rfl h
  | cons piece pieces => exact List.intercalate_cons_cons_left

variable [DecidableEq α]

theorem isGreedy_places (casing : Casing α) (text : List α) (hquery : query ≠ []) :
    IsGreedy (Found casing query text) query.length 0 (places casing query text) :=
  isGreedy_scan (List.length_pos_of_ne_nil hquery) (fun _ => decide_eq_true_iff) fun _ hj =>
    hj.lt hquery

theorem isGreedy_literalPlaces (text : List α) (hquery : query ≠ []) :
    IsGreedy (OccursAt text query) query.length 0 (literalPlaces query text) :=
  isGreedy_scan (List.length_pos_of_ne_nil hquery) (fun _ => decide_eq_true_iff) fun _ hj =>
    lt_of_occursAt hquery hj

theorem splitFrom_ne_nil (separator : List α) (skip : ℕ) (rest : List α) :
    splitFrom separator skip rest ≠ [] := by
  induction rest generalizing skip with
  | nil => cases skip <;> exact List.cons_ne_nil _ _
  | cons c rest ih =>
      cases skip with
      | succ skip => exact ih skip
      | zero =>
          rw [splitFrom]
          split
          · exact List.cons_ne_nil _ _
          · exact fun hnil => ih 0 (List.modifyHead_eq_nil_iff.mp hnil)

/-- Splitting and joining replaces what a scan takes. -/
theorem intercalate_splitFrom (hquery : query ≠ []) {n : ℕ} (i skip : ℕ)
    (hn : text.length = i + n) :
    replacement.intercalate (splitFrom query skip (text.drop i)) =
      replaceAt text query.length replacement (i + skip)
        (greedy (fun i => OccursAt text query i) query.length skip i n) := by
  have hpos := List.length_pos_of_ne_nil hquery
  induction n generalizing skip i with
  | zero =>
      rw [List.drop_eq_nil_of_le (by omega), greedy, replaceAt, List.drop_eq_nil_of_le (by omega)]
      cases skip <;> exact List.intercalate_singleton
  | succ n ih =>
      have hdrop := List.drop_eq_getElem_cons (l := text) (i := i) (by omega)
      have hn' : text.length = i + 1 + n := by omega
      cases skip with
      | succ skip =>
          rw [hdrop, splitFrom, greedy, ih (i + 1) skip hn', Nat.add_right_comm, Nat.add_assoc]
      | zero =>
          by_cases hoccurs : OccursAt text query i
          · have hprefix : query <+: text[i] :: text.drop (i + 1) := hdrop ▸ hoccurs.2
            have hnext : i + 1 + (query.length - 1) = i + query.length := by omega
            rw [hdrop, splitFrom, if_pos hprefix, greedy,
              if_pos (decide_eq_true hoccurs), replaceAt,
              List.intercalate_cons_of_ne_nil (splitFrom_ne_nil _ _ _), ih (i + 1) _ hn', hnext]
            simp only [Nat.add_zero, Nat.sub_self, List.take_zero, List.nil_append]
          · have hprefix : ¬ query <+: text[i] :: text.drop (i + 1) := fun h =>
              hoccurs ⟨by omega, hdrop ▸ h⟩
            have hgreedy : IsGreedy (OccursAt text query) query.length (i + 1 + 0)
                (greedy (fun i => OccursAt text query i) query.length 0 (i + 1) n) :=
              isGreedy_greedy hpos (fun _ => decide_eq_true_iff) fun j hj => by
                have := lt_of_occursAt hquery hj
                omega
            have hkeep : replaceAt text query.length replacement i
                  (greedy (fun i => OccursAt text query i) query.length 0 (i + 1) n) =
                text[i] :: replaceAt text query.length replacement (i + 1)
                  (greedy (fun i => OccursAt text query i) query.length 0 (i + 1) n) := by
              rw [replaceAt_eq_append (Nat.le_succ i) hgreedy.head_le, hdrop,
                Nat.succ_sub (Nat.le_refl i), Nat.sub_self]
              rfl
            rw [greedy, if_neg (by rwa [decide_eq_true_iff]), Nat.add_zero, hkeep, hdrop, splitFrom,
              if_neg hprefix, intercalate_modifyHead (splitFrom_ne_nil _ _ _), ih (i + 1) 0 hn']

theorem replaceAll_eq (hquery : query ≠ []) :
    replaceAll query replacement text =
      replaceAt text query.length replacement 0 (literalPlaces query text) := by
  rw [replaceAll, if_neg hquery]
  exact intercalate_splitFrom hquery 0 0 (Nat.zero_add _).symm

/-- **All at once** the query is replaced where it is found, if it is found there letter by letter
and not elsewhere. -/
theorem agreesAll_iff [Nontrivial α] (hquery : query ≠ []) :
    AgreesAll casing query text ↔ literalPlaces query text = places casing query text := by
  unfold AgreesAll
  simp only [replaceAll_eq hquery, replaced]
  constructor
  · intro h
    exact eq_of_replaceAt_eq (fun j hj => lt_of_occursAt hquery hj) (fun j hj => Found.lt hquery hj)
      (isGreedy_literalPlaces text hquery) (isGreedy_places casing text hquery) h
  · intro h replacement
    rw [h]

end ReplaceAll

/-! ## One after the other -/

section ReplaceOne

/-- Up to the cursor a text is done; then comes what it was from `i` on. -/
structure Ready (text done : List α) (i : ℕ) (e : Editor α) : Prop where
  text_eq : e.text = done ++ text.drop i
  cursor : e.cursorPosition = done.length

/-- And the query is selected that begins at `p` in the text. -/
structure Holding (query text done : List α) (i p : ℕ) (e : Editor α) : Prop where
  text_eq : e.text = done ++ text.drop i
  start : e.selectionStart = done.length + (p - i)
  stop : e.selectionEnd = done.length + (p - i) + query.length

variable {casing : Casing α} {query replacement text done : List α} {i p : ℕ} {ps : List ℕ}
    {e : Editor α}

/-- Whether the query occurs at a place depends on what follows only. -/
theorem occurrence_append_iff (hi : i ≤ text.length) (n : ℕ) :
    Occurrence casing query (done ++ text.drop i) (done.length + n)
      (done.length + n + query.length) ↔
      Occurrence casing query text (i + n) (i + n + query.length) := by
  have hdrop : (done ++ text.drop i).drop (done.length + n) = text.drop (i + n) := by
    rw [List.drop_length_add_append, List.drop_drop]
  have hlength : (done ++ text.drop i).length = done.length + (text.length - i) := by
    rw [List.length_append, List.length_drop]
  constructor
  · intro h
    obtain ⟨-, hle, heq⟩ := h
    rw [hlength] at hle
    rw [hdrop, Nat.add_sub_cancel_left] at heq
    exact ⟨Nat.le_add_right _ _, by omega, by rwa [Nat.add_sub_cancel_left]⟩
  · intro h
    obtain ⟨-, hle, heq⟩ := h
    rw [Nat.add_sub_cancel_left] at heq
    exact ⟨Nat.le_add_right _ _, by rw [hlength]; omega, by rwa [hdrop, Nat.add_sub_cancel_left]⟩

theorem Aligned.found_iff (h : Aligned casing query text) :
    Found casing query text i ↔ Occurrence casing query text i (i + query.length) :=
  ⟨fun hfound => (h i).mp hfound.1, fun hoccurrence =>
    ⟨(h i).mpr hoccurrence, hoccurrence.le_length⟩⟩

variable [DecidableEq α]

/-- The search finds the next place, unless it begins at the cursor. -/
theorem holding_of_ready (hquery : query ≠ []) (halign : Aligned casing query text)
    (halign' : Aligned casing query e.text) (h : Ready text done i e) (hi : i ≤ text.length)
    (hgreedy : IsGreedy (Found casing query text) query.length i (p :: ps)) (hp : i < p) :
    Holding query text done i p (findNext casing query e) := by
  obtain ⟨-, hfound, hfirst, -⟩ := hgreedy
  have hshown : ∀ n, Shown casing query e.text (done.length + n) ↔
      Found casing query text (i + n) := by
    intro n
    rw [halign', h.text_eq, occurrence_append_iff hi, halign.found_iff]
  have hplace : Shown casing query e.text (done.length + (p - i)) := by
    rwa [hshown, Nat.add_sub_cancel' (Nat.le_of_lt hp)]
  have hnext : IsNext (Shown casing query e.text) (e.cursorPosition + 1)
      (done.length + (p - i)) := by
    rw [h.cursor]
    refine isNext_of_le hplace (by omega) fun j hj hlt hshows => ?_
    obtain ⟨n, rfl⟩ := Nat.exists_eq_add_of_le (show done.length ≤ j by omega)
    exact hfirst (i + n) (by omega) (by omega) ((hshown n).mp hshows)
  have hrange := ((halign' _).mp hplace).le_length
  have hselect : findNext casing query e =
      e.select (done.length + (p - i)) (done.length + (p - i) + query.length) := by
    rw [findNext, if_neg hquery, (target_eq_some_iff hquery).mpr ⟨hnext, rfl⟩]
  have hmax : max (done.length + (p - i)) (done.length + (p - i) + query.length) ≤
      e.text.length := by
    omega
  rw [hselect, Editor.select, dif_pos hmax]
  exact ⟨h.text_eq, Nat.min_eq_left (Nat.le_add_right _ _), Nat.max_eq_right (Nat.le_add_right _ _)⟩

omit [DecidableEq α] in
/-- What `remove` and `insert` leave: the new text in place of the selection, and the cursor behind
it. -/
theorem insert_removeSelection (e : Editor α) (replacement : List α) :
    (e.removeSelection.insert e.removeSelection.cursorPosition replacement).text =
        e.text.take e.selectionStart ++ (replacement ++ e.text.drop e.selectionEnd) ∧
      (e.removeSelection.insert e.removeSelection.cursorPosition replacement).cursorPosition =
        e.selectionStart + replacement.length := by
  have hcursor : e.removeSelection.cursorPosition = e.selectionStart := rfl
  have htext : e.removeSelection.text =
      e.text.take e.selectionStart ++ e.text.drop e.selectionEnd := rfl
  have hlength : (e.text.take e.selectionStart).length = e.selectionStart := by
    have := e.ordered
    have := e.selectionEnd_le
    rw [List.length_take]
    omega
  have hle : e.selectionStart ≤ e.removeSelection.text.length := by
    rw [htext, List.length_append, hlength]
    omega
  rw [hcursor, Editor.insert, dif_pos hle]
  constructor
  · show e.removeSelection.text.take _ ++ (replacement ++ e.removeSelection.text.drop _) = _
    rw [htext, List.take_left' hlength, List.drop_left' hlength]
  · show (if _ < _ then _ else _) = _
    rw [hcursor, if_neg (Nat.lt_irrefl _)]

/-- A selected query is replaced, and the search goes on behind the replacement. -/
theorem Holding.replaceOne (casing : Casing α) (replacement : List α) (hquery : query ≠ [])
    (h : Holding query text done i p e)
    (hliteral : OccursAt text query p) (hip : i ≤ p) :
    ∃ e', Ready text (done ++ ((text.drop i).take (p - i) ++ replacement)) (p + query.length) e' ∧
      replaceOne casing query replacement e = findNext casing query e' := by
  have hlength := hliteral.add_length_le
  have hstart : e.text.drop e.selectionStart = text.drop p := by
    rw [h.text_eq, h.start, List.drop_length_add_append, List.drop_drop, Nat.add_sub_cancel' hip]
  have hstop : e.text.drop e.selectionEnd = text.drop (p + query.length) := by
    rw [h.stop, ← h.start, ← List.drop_drop, hstart, List.drop_drop]
  have htake : e.text.take e.selectionStart = done ++ (text.drop i).take (p - i) := by
    rw [h.text_eq, h.start, List.take_length_add_append]
  have hselected : e.selectedText = query := by
    rw [Editor.selectedText, hstart, h.stop, h.start, Nat.add_sub_cancel_left]
    exact (List.prefix_iff_eq_take.mp hliteral.2).symm
  refine ⟨e.removeSelection.insert e.removeSelection.cursorPosition replacement, ?_, ?_⟩
  · obtain ⟨htext, hcursor⟩ := insert_removeSelection e replacement
    constructor
    · rw [htext, htake, hstop]
      simp only [List.append_assoc]
    · rw [hcursor, h.start, List.length_append, List.length_append, List.length_take,
        List.length_drop]
      omega
  · rw [Find.replaceOne, if_neg hquery, if_pos hselected]

/-- **One after the other** the places that are left are replaced, if each is the query letter by
letter, none begins at the cursor, and the copies of the texts in between are aligned. -/
theorem text_iterate (hquery : query ≠ []) (halign : Aligned casing query text)
    (h : Ready text done i e)
    (hi : i ≤ text.length) (hgreedy : IsGreedy (Found casing query text) query.length i ps)
    (hliteral : ∀ p ∈ ps, OccursAt text query p) (hspaced : Spaced query.length i ps)
    (haligned : ∀ n < ps.length,
      Aligned casing query (done ++ replaceAt text query.length replacement i (ps.take n)))
    {n : ℕ} (hn : n ≤ ps.length) :
    ((replaceOne casing query replacement)^[n] (findNext casing query e)).text =
      done ++ replaceAt text query.length replacement i (ps.take n) := by
  induction ps generalizing done i e n with
  | nil =>
      obtain rfl := Nat.le_zero.mp hn
      rw [Function.iterate_zero_apply, text_findNext]
      exact h.text_eq
  | cons p ps ih =>
      cases n with
      | zero =>
          rw [Function.iterate_zero_apply, text_findNext]
          exact h.text_eq
      | succ n =>
          have hoccurs := hliteral p List.mem_cons_self
          have hp : i < p := hspaced.1
          have halign' : Aligned casing query e.text := by
            rw [h.text_eq]
            exact haligned 0 (Nat.succ_pos _)
          have hholding := holding_of_ready hquery halign halign' h hi hgreedy hp
          obtain ⟨e', hready, hreplace⟩ := hholding.replaceOne casing replacement hquery hoccurs
            (Nat.le_of_lt hp)
          have hstep : ∀ m,
            done ++ replaceAt text query.length replacement i ((p :: ps).take (m + 1)) =
              done ++ ((text.drop i).take (p - i) ++ replacement) ++
                replaceAt text query.length replacement (p + query.length) (ps.take m) := by
            intro m
            rw [List.take_succ_cons, replaceAt, List.append_assoc, List.append_assoc]
          rw [Function.iterate_succ_apply, hreplace, hstep]
          refine ih hready hoccurs.add_length_le hgreedy.2.2.2 (fun q hq =>
            hliteral q (List.mem_cons_of_mem p hq))
            hspaced.2 (fun m hm => ?_) (Nat.le_of_succ_le_succ hn)
          rw [← hstep]
          exact haligned (m + 1) (Nat.succ_lt_succ hm)

theorem replaceOne_of_ne (h : e.selectedText ≠ query) :
    replaceOne casing query replacement e = findNext casing query e := by
  rw [replaceOne, if_neg h, findNext]
  split_ifs <;> rfl

omit [DecidableEq α] in
/-- Before the first place the query is not selected. -/
theorem selectedText_ne (hgreedy : IsGreedy (OccursAt e.text query) query.length 0 ps)
    (hspaced : Spaced query.length e.cursorPosition ps) : e.selectedText ≠ query := by
  intro hselected
  have hordered := e.ordered
  have hoccurs : OccursAt e.text query e.selectionStart :=
    ⟨Nat.le_trans hordered e.selectionEnd_le, hselected ▸ List.take_prefix _ _⟩
  cases ps with
  | nil => exact hgreedy _ (Nat.zero_le _) hoccurs
  | cons p ps =>
      have hfirst : p ≤ e.selectionStart := by
        by_contra hlt
        exact hgreedy.2.2.1 _ (Nat.zero_le _) (Nat.lt_of_not_le hlt) hoccurs
      have hcursor := hspaced.1
      rcases e.cursor_eq with h | h <;> omega

/-- The first call only finds; each of the others replaces one. -/
theorem text_replaceOne_iterate (hquery : query ≠ [])
    (hliteral : ∀ p ∈ places casing query text, OccursAt text query p)
    (htext : e.text = text) (hselected : e.selectedText ≠ query)
    (hspaced : Spaced query.length e.cursorPosition (places casing query text))
    (haligned : ∀ n < (places casing query text).length,
      Aligned casing query (replacedFirst casing query replacement text n))
    {n : ℕ} (hn : n ≤ (places casing query text).length) :
    ((replaceOne casing query replacement)^[n + 1] e).text =
      replacedFirst casing query replacement text n := by
  have hgreedy := isGreedy_places casing text hquery
  rw [Function.iterate_succ_apply, replaceOne_of_ne hselected]
  unfold replacedFirst at haligned ⊢
  cases hplaces : places casing query text with
  | nil =>
      rw [hplaces] at hn
      obtain rfl := Nat.le_zero.mp hn
      rw [Function.iterate_zero_apply, text_findNext]
      exact htext
  | cons p ps =>
      rw [hplaces] at hgreedy hliteral hspaced haligned hn
      have hcursor : ∀ q ∈ (p :: ps).head?, e.cursorPosition ≤ q := fun q hq =>
        Option.some.inj hq ▸ Nat.le_of_lt hspaced.1
      have hle : e.cursorPosition ≤ text.length := by
        have := (hliteral p List.mem_cons_self).1
        have := hspaced.1
        omega
      -- up to the cursor there is nothing to replace
      have hkeep : ∀ m, replaceAt text query.length replacement 0 ((p :: ps).take m) =
          text.take e.cursorPosition ++
            replaceAt text query.length replacement e.cursorPosition ((p :: ps).take m) := by
        intro m
        rw [replaceAt_eq_append (Nat.zero_le e.cursorPosition)]
        · rfl
        · cases m with
          | zero => exact fun _ hq => nomatch hq
          | succ m => exact hcursor
      have halign : Aligned casing query text := haligned 0 (Nat.succ_pos _)
      have hready : Ready text (text.take e.cursorPosition) e.cursorPosition e := by
        refine ⟨by rw [htext, List.take_append_drop], ?_⟩
        rw [List.length_take, Nat.min_eq_left hle]
      rw [hkeep]
      refine text_iterate hquery halign hready hle (hgreedy.of_le (Nat.zero_le _) hcursor) hliteral
        hspaced ?_ hn
      intro m hm
      rw [← hkeep]
      exact haligned m hm

end ReplaceOne

/-! ## One call per place -/

section OnePerPlace

variable [DecidableEq α] {casing : Casing α} {query text : List α} {e : Editor α}

/-- A call takes out the query once, if at all. -/
theorem length_replaceOne_nil (casing : Casing α) (query : List α) (e : Editor α) :
    e.text.length ≤ (replaceOne casing query [] e).text.length + query.length := by
  unfold replaceOne
  split_ifs with hnil hselected
  · exact Nat.le_add_right _ _
  · obtain ⟨htext, -⟩ := insert_removeSelection e ([] : List α)
    have hordered := e.ordered
    have hend := e.selectionEnd_le
    have hlength := congrArg List.length hselected
    rw [Editor.selectedText, List.length_take, List.length_drop] at hlength
    rw [text_findNext, htext, List.nil_append, List.length_append, List.length_take,
      List.length_drop]
    omega
  · rw [text_findNext]
    exact Nat.le_add_right _ _

theorem length_iterate_nil (casing : Casing α) (query : List α) (n : ℕ) (e : Editor α) :
    e.text.length ≤ ((replaceOne casing query [])^[n] e).text.length + n * query.length := by
  induction n generalizing e with
  | zero => exact Nat.le_add_right _ _
  | succ n ih =>
      have hone := length_replaceOne_nil casing query e
      have hrest := ih (replaceOne casing query [] e)
      rw [Function.iterate_succ_apply, Nat.succ_mul]
      omega

/-- A text with nothing selected and the cursor at its beginning. -/
def atStart (text : List α) : Editor α where
  text := text
  selectionStart := 0
  selectionEnd := 0
  cursorPosition := 0
  ordered := Nat.le_refl 0
  selectionEnd_le := Nat.zero_le _
  cursor_eq := Or.inl rfl

/-- **One call per place** is one too few, unless there is none. -/
theorem agreesOne_iff (hquery : query ≠ []) :
    AgreesOne casing query text ↔ places casing query text = [] := by
  constructor
  · intro h
    by_contra hne
    have hpos := List.length_pos_of_ne_nil hquery
    have hnot : ¬ query <:+: [] := fun hinfix => hquery (List.infix_nil.mp hinfix)
    have hagree := h [] (atStart text) hnot ⟨rfl, fun _ _ => Nat.zero_le _⟩
    obtain ⟨n, hn⟩ := Nat.exists_eq_succ_of_ne_zero (mt List.length_eq_zero_iff.mp hne)
    have hreplaced : (replaced casing query [] text).length + (n + 1) * query.length =
        text.length := by
      have hlength := length_replaceAt_nil (isGreedy_places casing text hquery) (Nat.zero_le _)
        fun _ hfound => hfound.2
      rw [hn] at hlength
      exact hlength
    -- the first call finds and replaces nothing
    have hselected : (atStart text).selectedText ≠ query := by
      show (text.drop 0).take 0 ≠ query
      rw [List.take_zero]
      exact hquery.symm
    have hrest := length_iterate_nil casing query n (findNext casing query (atStart text))
    rw [hn, Function.iterate_succ_apply, replaceOne_of_ne hselected] at hagree
    rw [hagree, text_findNext] at hrest
    rw [Nat.succ_mul] at hreplaced
    have htext : (atStart text).text.length = text.length := rfl
    omega
  · intro hnone replacement e _ hstarted
    unfold replaced
    rw [hnone]
    exact hstarted.text_eq

end OnePerPlace

/-- **Replacing agrees with finding**: all at once exactly where the query is found letter by
letter; one after the other, with one call per place, exactly where it is not found at all.  With
one call more all are replaced, where the query is found letter by letter and no place follows
another at once. -/
theorem replace_iff [DecidableEq α] [Nontrivial α] (casing : Casing α) (query : List α)
    (hquery : query ≠ []) (text : List α) :
    (AgreesAll casing query text ↔ literalPlaces query text = places casing query text) ∧
      (AgreesOne casing query text ↔ places casing query text = []) ∧
      (literalPlaces query text = places casing query text →
        ∀ (replacement : List α) (e : Editor α), e.text = text →
          Spaced query.length e.cursorPosition (places casing query text) →
          (∀ n < (places casing query text).length,
            Aligned casing query (replacedFirst casing query replacement text n)) →
          ∀ n ≤ (places casing query text).length,
            ((replaceOne casing query replacement)^[n + 1] e).text =
              replacedFirst casing query replacement text n) := by
  refine ⟨agreesAll_iff hquery, agreesOne_iff hquery, ?_⟩
  intro hsame replacement e htext hspaced haligned n hn
  have hgreedy := isGreedy_literalPlaces text hquery
  rw [hsame] at hgreedy
  have hselected : e.selectedText ≠ query := selectedText_ne (htext ▸ hgreedy) hspaced
  exact text_replaceOne_iterate hquery hgreedy.forall_mem htext hselected hspaced haligned hn

section Texts

instance nontrivialChar : Nontrivial Char := ⟨'a', 'b', by decide⟩

def twoPlaces : Editor Char := opened "xab ab" 0 (by decide)

theorem replace_twoPlaces :
    replaceAll "ab".toList "c".toList twoPlaces.text =
        replaced ascii "ab".toList "c".toList twoPlaces.text ∧
      ¬ AgreesOne ascii "ab".toList twoPlaces.text ∧
      ((replaceOne ascii "ab".toList "c".toList)^[3] twoPlaces).text = "xc c".toList := by
  obtain ⟨hall, hone, hmore⟩ := replace_iff ascii "ab".toList (by decide) twoPlaces.text
  have hsame : literalPlaces "ab".toList twoPlaces.text =
      places ascii "ab".toList twoPlaces.text := by
    decide
  have hlast := hmore hsame "c".toList twoPlaces rfl (by decide)
    (fun _ _ => aligned_of_letterwise fun _ => rfl) 2 (by decide)
  exact ⟨hall.mpr hsame "c".toList, mt hone.mp (by decide), hlast.trans (by decide)⟩

/-- A capital letter is found, but not replaced with the others. -/
def capital : Editor Char := opened " Foo" 0 (by decide)

/-- Two calls for two places leave one of them. -/
theorem not_replace_capital :
    ¬ AgreesAll ascii "foo".toList capital.text ∧ ¬ AgreesOne ascii "ab".toList twoPlaces.text := by
  constructor
  · intro h
    exact absurd (h "bar".toList) (by decide)
  · intro h
    have hbefore : StartedBefore ascii "ab".toList twoPlaces.text twoPlaces :=
      ⟨rfl, fun _ _ => Nat.zero_le _⟩
    exact absurd (h "c".toList twoPlaces (by decide) hbefore) (by decide)

end Texts

end NiraOS.Notepad.Find
