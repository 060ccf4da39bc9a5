import Mathlib.Data.List.Basic
import Mathlib.Tactic.Common

/-!
# Words with quotes

Words are set apart by blanks, but not between quotes, which are no part of a word; a word may be
quoted in part, and two quotes with nothing between them are a word without characters.

`words_kept_iff` says when some characters of a text can be left out so that the words stay: they
are blanks outside quotes, and no two words become one.
-/

namespace Words

variable {α : Type*}

/-- What has been read: the words, the one that is begun, and whether a quote is open. -/
structure Reader (α : Type*) where
  done : List (List α)
  word : Option (List α)
  quoted : Bool

namespace Reader

def start : Reader α := ⟨[], none, false⟩

/-- The word that is begun ends. -/
def flush (s : Reader α) : Reader α := ⟨s.done ++ s.word.toList, none, s.quoted⟩

/-- The words, if nothing follows. -/
def all (s : Reader α) : List (List α) := s.done ++ s.word.toList

section Step

variable [DecidableEq α] (quote : α) (blank : α → Bool)

def step (s : Reader α) (c : α) : Reader α :=
  if c = quote then { s with word := some (s.word.getD []), quoted := !s.quoted }
  else if !s.quoted && blank c then s.flush
  else { s with word := some (s.word.getD [] ++ [c]) }

variable {quote : α} {blank : α → Bool} {s : Reader α} {c : α}

@[simp] theorem step_quote (s : Reader α) :
    s.step quote blank quote = { s with word := some (s.word.getD []), quoted := !s.quoted } :=
  if_pos rfl

theorem step_blank (hquote : c ≠ quote) (hquoted : s.quoted = false) (hblank : blank c = true) :
    s.step quote blank c = s.flush := by
  simp [step, hquote, hquoted, hblank]

theorem step_char (hquote : c ≠ quote) (hchar : ¬ (s.quoted = false ∧ blank c = true)) :
    s.step quote blank c = { s with word := some (s.word.getD [] ++ [c]) } := by
  have hcond : (!s.quoted && blank c) = false := by
    cases hquoted : s.quoted <;> cases hblank : blank c <;> simp_all
  rw [step, if_neg hquote, hcond, if_neg Bool.false_ne_true]

end Step

variable {s : Reader α}

@[simp] theorem all_flush (s : Reader α) : s.flush.all = s.all := List.append_nil _

@[simp] theorem done_flush (s : Reader α) : s.flush.done = s.all := rfl

@[simp] theorem quoted_flush (s : Reader α) : s.flush.quoted = s.quoted := rfl

theorem flush_of_none (h : s.word = none) : s.flush = s := by
  cases s
  simp_all [flush]

end Reader

section Words

variable [DecidableEq α] (quote : α) (blank : α → Bool)

def words (chars : List α) : List (List α) := (chars.foldl (Reader.step quote blank) .start).all

/-- The characters that are kept. -/
def kept (marked : List (α × Bool)) : List α := (marked.filter Prod.snd).map Prod.fst

/-- What is left out is a blank between words, and stays one if it is needed. -/
def Harmless (s : Reader α) : List (α × Bool) → Prop
  | [] => True
  | (c, true) :: rest => Harmless (s.step quote blank c) rest
  | (c, false) :: rest =>
      s.quoted = false ∧ blank c = true ∧
        (s.word = none ∨ ∀ d ∈ (kept rest).head?, d ≠ quote ∧ blank d = true) ∧
        Harmless s.flush rest

instance decidableHarmless (s : Reader α) :
    (marked : List (α × Bool)) → Decidable (Harmless quote blank s marked)
  | [] => inferInstanceAs (Decidable True)
  | (c, true) :: rest => decidableHarmless (s.step quote blank c) rest
  | (_, false) :: rest =>
      have := decidableHarmless s.flush rest
      inferInstanceAs (Decidable (_ ∧ _ ∧ (_ ∨ _) ∧ _))

end Words

/-! ## What a character adds -/

section Counting

variable [DecidableEq α] {quote : α} {blank : α → Bool} {s s' : Reader α} {c : α} {n : ℕ}

theorem quoted_step (s : Reader α) (hquote : c ≠ quote) :
    (s.step quote blank c).quoted = s.quoted := by
  rw [Reader.step, if_neg hquote]
  split_ifs <;> simp

theorem quoted_step_eq (h : s.quoted = s'.quoted) (c : α) :
    (s.step quote blank c).quoted = (s'.step quote blank c).quoted := by
  by_cases hquote : c = quote
  · simp [hquote, h]
  · rw [quoted_step s hquote, quoted_step s' hquote, h]

/-- The characters of the words. -/
theorem flatten_step (s : Reader α) (c : α) :
    (s.step quote blank c).all.flatten =
      s.all.flatten ++ if c = quote ∨ s.quoted = false ∧ blank c = true then [] else [c] := by
  have hword : s.all.flatten = s.done.flatten ++ s.word.getD [] := by
    cases hs : s.word <;> simp [Reader.all, hs]
  by_cases hquote : c = quote
  · rw [if_pos (.inl hquote), hquote, Reader.step_quote, hword]
    simp [Reader.all]
  · by_cases hblank : s.quoted = false ∧ blank c = true
    · rw [if_pos (.inr hblank), Reader.step_blank hquote hblank.1 hblank.2, Reader.all_flush,
        List.append_nil]
    · rw [if_neg (not_or.mpr ⟨hquote, hblank⟩), Reader.step_char hquote hblank, hword]
      simp [Reader.all]

theorem length_flatten_step (hquoted : s.quoted = s'.quoted)
    (h : s.all.flatten.length + n ≤ s'.all.flatten.length) (c : α) :
    (s.step quote blank c).all.flatten.length + n ≤ (s'.step quote blank c).all.flatten.length := by
  rw [flatten_step, flatten_step, hquoted]
  simp only [List.length_append]
  omega

/-- So many words more, and as many more with those that are begun. -/
structure Ahead (n : ℕ) (s s' : Reader α) : Prop where
  quoted : s.quoted = s'.quoted
  done : s.done.length + n ≤ s'.done.length
  all : s.all.length + n ≤ s'.all.length

theorem length_all_char (h : c = quote ∨ ¬ (s.quoted = false ∧ blank c = true)) :
    (s.step quote blank c).done = s.done ∧
    (s.step quote blank c).all.length = s.done.length + 1 := by
  by_cases hquote : c = quote
  · rw [hquote, Reader.step_quote]
    simp [Reader.all]
  · rw [Reader.step_char hquote (h.resolve_left hquote)]
    simp [Reader.all]

/-- A character of a word, or a quote: what counts are the words before. -/
theorem Ahead.char (hquoted : s.quoted = s'.quoted) (hdone : s.done.length + n ≤ s'.done.length)
    (h : c = quote ∨ ¬ (s.quoted = false ∧ blank c = true)) :
    Ahead n (s.step quote blank c) (s'.step quote blank c) := by
  obtain ⟨hdone₁, hall₁⟩ := length_all_char h
  obtain ⟨hdone₂, hall₂⟩ := length_all_char (s := s') (hquoted ▸ h)
  refine ⟨quoted_step_eq hquoted c, ?_, ?_⟩
  · rw [hdone₁, hdone₂]
    exact hdone
  · rw [hall₁, hall₂]
    omega

theorem Ahead.step (h : Ahead n s s') (c : α) :
    Ahead n (s.step quote blank c) (s'.step quote blank c) := by
  by_cases hchar : c = quote ∨ ¬ (s.quoted = false ∧ blank c = true)
  · exact .char h.quoted h.done hchar
  · obtain ⟨hquote, hblank⟩ := not_or.mp hchar
    obtain ⟨hquoted, hblank⟩ := not_not.mp hblank
    rw [Reader.step_blank hquote hquoted hblank,
      Reader.step_blank hquote (h.quoted ▸ hquoted) hblank]
    exact ⟨by simp [h.quoted], by simpa using h.all, by simpa using h.all⟩

theorem length_step (s : Reader α) (c : α) :
    s.done.length ≤ (s.step quote blank c).done.length ∧
    s.all.length ≤ (s.step quote blank c).all.length := by
  have hword : s.word.toList.length ≤ 1 := by cases s.word <;> simp
  have hall : s.all.length = s.done.length + s.word.toList.length := List.length_append
  by_cases hchar : c = quote ∨ ¬ (s.quoted = false ∧ blank c = true)
  · obtain ⟨hdone', hall'⟩ := length_all_char hchar
    rw [hdone', hall']
    omega
  · obtain ⟨hquote, hblank⟩ := not_or.mp hchar
    obtain ⟨hquoted, hblank⟩ := not_not.mp hblank
    rw [Reader.step_blank hquote hquoted hblank, Reader.done_flush, Reader.all_flush]
    omega

/-- A character that only the second reads, and that is no quote. -/
theorem Ahead.skip (h : Ahead n s s') (hquote : c ≠ quote) : Ahead n s (s'.step quote blank c) := by
  refine ⟨h.quoted.trans (quoted_step s' hquote).symm, ?_, ?_⟩
  · exact Nat.le_trans h.done (length_step s' c).1
  · exact Nat.le_trans h.all (length_step s' c).2

end Counting

/-! ## Leaving characters out -/

section Kept

variable [DecidableEq α] {quote : α} {blank : α → Bool} {s s' : Reader α} {c : α} {n : ℕ}
    {marked : List (α × Bool)}

/-- A quote is not left out. -/
def KeepsQuotes (quote : α) (marked : List (α × Bool)) : Prop :=
  ∀ m ∈ marked, m.2 = false → m.1 ≠ quote

omit [DecidableEq α] in
@[simp] theorem kept_true (c : α) (marked : List (α × Bool)) :
    kept ((c, true) :: marked) = c :: kept marked := rfl

omit [DecidableEq α] in
@[simp] theorem kept_false (c : α) (marked : List (α × Bool)) :
    kept ((c, false) :: marked) = kept marked := rfl

theorem Ahead.all_foldl (hkeeps : KeepsQuotes quote marked) (h : Ahead n s s') :
    ((kept marked).foldl (Reader.step quote blank) s).all.length + n ≤
      ((marked.map Prod.fst).foldl (Reader.step quote blank) s').all.length := by
  induction marked generalizing s s' with
  | nil => exact h.all
  | cons m marked ih =>
      have hrest : KeepsQuotes quote marked := fun m hm => hkeeps m (List.mem_cons_of_mem _ hm)
      obtain ⟨c, keep⟩ := m
      cases keep with
      | true => exact ih hrest (h.step c)
      | false => exact ih hrest (h.skip (hkeeps _ (List.mem_cons_self ..) rfl))

/-- Two words become one: the second reader has ended a word, and the next character is not a blank.
-/
theorem length_lt_of_join {d : α} (hkeeps : KeepsQuotes quote marked) (h : Ahead 0 s s')
    (hdone : s.done.length + 1 ≤ s'.done.length) (hhead : (kept marked).head? = some d)
    (hd : d = quote ∨ ¬ (s.quoted = false ∧ blank d = true)) :
    ((kept marked).foldl (Reader.step quote blank) s).all.length + 1 ≤
      ((marked.map Prod.fst).foldl (Reader.step quote blank) s').all.length := by
  induction marked generalizing s' with
  | nil => nomatch hhead
  | cons m marked ih =>
      have hrest : KeepsQuotes quote marked := fun m hm => hkeeps m (List.mem_cons_of_mem _ hm)
      obtain ⟨c, keep⟩ := m
      cases keep with
      | true =>
          obtain rfl := Option.some.inj hhead
          have hnext : Ahead 1 (s.step quote blank c) (s'.step quote blank c) :=
            .char h.quoted hdone hd
          rw [kept_true, List.map_cons, List.foldl_cons, List.foldl_cons]
          exact hnext.all_foldl hrest
      | false =>
          have hquote := hkeeps _ (List.mem_cons_self ..) rfl
          exact ih hrest (h.skip hquote) (Nat.le_trans hdone (length_step s' c).1) hhead

theorem length_flatten_foldl (hkeeps : KeepsQuotes quote marked) (hquoted : s.quoted = s'.quoted)
    (h : s.all.flatten.length + n ≤ s'.all.flatten.length) :
    ((kept marked).foldl (Reader.step quote blank) s).all.flatten.length + n ≤
      ((marked.map Prod.fst).foldl (Reader.step quote blank) s').all.flatten.length := by
  induction marked generalizing s s' with
  | nil => exact h
  | cons m marked ih =>
      have hrest : KeepsQuotes quote marked := fun m hm => hkeeps m (List.mem_cons_of_mem _ hm)
      obtain ⟨c, keep⟩ := m
      cases keep with
      | true => exact ih hrest (quoted_step_eq hquoted c) (length_flatten_step hquoted h c)
      | false =>
          have hquote := hkeeps _ (List.mem_cons_self ..) rfl
          refine ih hrest (hquoted.trans (quoted_step s' hquote).symm) ?_
          rw [flatten_step, List.length_append]
          omega

/-- A blank ends a word that is begun, and changes nothing else. -/
theorem all_foldl_flush {chars : List α} (hquoted : s.quoted = false)
    (hhead : ∀ d ∈ chars.head?, d ≠ quote ∧ blank d = true) :
    (chars.foldl (Reader.step quote blank) s.flush).all =
      (chars.foldl (Reader.step quote blank) s).all := by
  cases chars with
  | nil => exact Reader.all_flush s
  | cons d chars =>
      obtain ⟨hquote, hblank⟩ := hhead d rfl
      rw [List.foldl_cons, List.foldl_cons, Reader.step_blank hquote hquoted hblank,
        Reader.step_blank hquote (s.quoted_flush.trans hquoted) hblank, Reader.flush_of_none rfl]

theorem all_kept_iff (hkeeps : KeepsQuotes quote marked) (s : Reader α) :
    ((kept marked).foldl (Reader.step quote blank) s).all =
      ((marked.map Prod.fst).foldl (Reader.step quote blank) s).all ↔
        Harmless quote blank s marked := by
  induction marked generalizing s with
  | nil => exact iff_of_true rfl trivial
  | cons m marked ih =>
      have hrest : KeepsQuotes quote marked := fun m hm => hkeeps m (List.mem_cons_of_mem _ hm)
      obtain ⟨c, keep⟩ := m
      cases keep with
      | true => exact ih hrest (s.step quote blank c)
      | false =>
          have hquote := hkeeps _ (List.mem_cons_self ..) rfl
          rw [kept_false, List.map_cons, List.foldl_cons]
          by_cases hblank : s.quoted = false ∧ blank c = true
          · rw [Reader.step_blank hquote hblank.1 hblank.2]
            by_cases hjoin : s.word = none ∨ ∀ d ∈ (kept marked).head?, d ≠ quote ∧ blank d = true
            · have hsame : ((kept marked).foldl (Reader.step quote blank) s.flush).all =
                  ((kept marked).foldl (Reader.step quote blank) s).all := by
                rcases hjoin with hnone | hhead
                · rw [Reader.flush_of_none hnone]
                · exact all_foldl_flush hblank.1 hhead
              rw [← hsame, ih hrest]
              exact ⟨fun h => ⟨hblank.1, hblank.2, hjoin, h⟩, fun h => h.2.2.2⟩
            · refine iff_of_false (fun heq => ?_) fun h => hjoin h.2.2.1
              obtain ⟨hsome, hhead⟩ := not_or.mp hjoin
              simp only [not_forall] at hhead
              obtain ⟨d, hhead, hd⟩ := hhead
              obtain ⟨w, hw⟩ := Option.ne_none_iff_exists'.mp hsome
              have hall : s.all.length = s.done.length + 1 := by simp [Reader.all, hw]
              have hahead : Ahead 0 s s.flush := ⟨rfl, by simp [hall], by simp⟩
              have hchar : d = quote ∨ ¬ (s.quoted = false ∧ blank d = true) := by
                by_contra hno
                exact hd ⟨fun h => hno (.inl h), (not_not.mp fun h => hno (.inr h)).2⟩
              have hlt := length_lt_of_join hrest hahead (by simp [hall]) hhead hchar
              rw [heq] at hlt
              omega
          · refine iff_of_false (fun heq => ?_) fun h => hblank ⟨h.1, h.2.1⟩
            dsimp only at heq
            have hmore : s.all.flatten.length + 1 ≤ (s.step quote blank c).all.flatten.length := by
              rw [flatten_step, if_neg (not_or.mpr ⟨hquote, hblank⟩)]
              simp
            have hlt : ((kept marked).foldl (Reader.step quote blank) s).all.flatten.length + 1 ≤
                ((marked.map Prod.fst).foldl (Reader.step quote blank)
                  (s.step quote blank c)).all.flatten.length :=
              length_flatten_foldl hrest (quoted_step s hquote).symm hmore
            rw [heq] at hlt
            omega

/-- **What may be left out**: the words stay if and only if only blanks between words are. -/
theorem words_kept_iff (hkeeps : KeepsQuotes quote marked) :
    words quote blank (kept marked) = words quote blank (marked.map Prod.fst) ↔
      Harmless quote blank .start marked :=
  all_kept_iff hkeeps .start

end Kept

end Words
