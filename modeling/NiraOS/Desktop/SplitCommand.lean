import NiraOS.Lib.Text
import NiraOS.Lib.Words

/-!
# Splitting a command

`QProcess::splitCommand`: arguments are set apart by blanks, but not between double quotes; three
quotes in a row are a quote.  An argument with nothing in it is dropped, quoted or not.  Without
three quotes in a row, the arguments are the words that are not empty (`split_of_not_tripled`).
-/

namespace NiraOS.Desktop

/-- What is known behind a character. -/
structure Splitter where
  args : List (List Char)
  tmp : List Char
  quoteCount : ℕ
  inQuote : Bool
  deriving DecidableEq

def Splitter.start : Splitter := ⟨[], [], 0, false⟩

/-- The argument that is read is complete, if there is one. -/
def Splitter.flush (s : Splitter) : List (List Char) :=
  if s.tmp = [] then s.args else s.args ++ [s.tmp]

/-- The loop, for one character. -/
def Splitter.step (s : Splitter) (c : Char) : Splitter :=
  if c = '"' then
    if s.quoteCount = 2 then { s with tmp := s.tmp ++ [c], quoteCount := 0 }
    else { s with quoteCount := s.quoteCount + 1 }
  else
    let inQuote := if s.quoteCount = 1 then !s.inQuote else s.inQuote
    if !inQuote && Text.isWhitespace c then ⟨s.flush, [], 0, inQuote⟩
      else ⟨s.args, s.tmp ++ [c], 0, inQuote⟩

def split (command : List Char) : List (List Char) := (command.foldl Splitter.step .start).flush

def splitCommand (command : String) : List String := (split command.toList).map String.ofList

example : splitCommand "a \"b  c\"d \"\" \"\"\"" = ["a", "b  cd", "\""] := by decide

/-- Three quotes in a row, with so many just read. -/
def tripled : ℕ → List Char → Bool
  | _, [] => false
  | count, c :: rest => if c = '"' then count = 2 || tripled (count + 1) rest else tripled 0 rest

section Agreement

open Words (Reader)

/-- The step of a reader of words. -/
abbrev read : Reader Char → Char → Reader Char := Reader.step '"' Text.isWhitespace

/-- The splitter is where the reader of words is. -/
structure Follows (s : Splitter) (r : Reader Char) : Prop where
  args : s.args = r.done.filter (· ≠ [])
  tmp : s.tmp = r.word.getD []
  quoted : r.quoted = if s.quoteCount = 1 then !s.inQuote else s.inQuote
  count : s.quoteCount ≤ 2

variable {s : Splitter} {r : Reader Char} {c : Char} {command : List Char}

theorem Follows.flush (h : Follows s r) : s.flush = r.all.filter (· ≠ []) := by
  unfold Splitter.flush Reader.all
  rw [h.args, h.tmp, List.filter_append]
  cases r.word with
  | none => simp
  | some w => by_cases hw : w = [] <;> simp [hw]

theorem Follows.quote (h : Follows s r) (hcount : s.quoteCount ≠ 2) :
    Follows (s.step '"') (read r '"') := by
  have hstep : s.step '"' = { s with quoteCount := s.quoteCount + 1 } :=
    by simp [Splitter.step, hcount]
  rw [hstep, read, Reader.step_quote]
  have hle := h.count
  have hquoted := h.quoted
  refine ⟨h.args, h.tmp, ?_, ?_⟩
  · rcases Nat.lt_or_ge s.quoteCount 1 with hzero | hone
    · have : s.quoteCount = 0 := by omega
      simp_all
    · have : s.quoteCount = 1 := by omega
      simp_all
  · dsimp only
    omega

theorem Follows.char (h : Follows s r) (hquote : c ≠ '"') :
    Follows (s.step c) (read r c) ∧ (s.step c).quoteCount = 0 := by
  have hinQuote : (if s.quoteCount = 1 then !s.inQuote else s.inQuote) = r.quoted := h.quoted.symm
  unfold Splitter.step
  rw [if_neg hquote, hinQuote]
  dsimp only
  by_cases hblank : r.quoted = false ∧ Text.isWhitespace c = true
  · rw [read, Reader.step_blank hquote hblank.1 hblank.2, hblank.1, hblank.2]
    exact ⟨⟨h.flush, rfl, by simp [hblank.1], by simp⟩, rfl⟩
  · have hcond : (!r.quoted && Text.isWhitespace c) = false := by
      cases hquoted : r.quoted <;> cases hwhite : Text.isWhitespace c <;> simp_all
    rw [read, Reader.step_char hquote hblank, hcond, if_neg Bool.false_ne_true]
    exact ⟨⟨h.args, by simp [h.tmp], by simp, by simp⟩, rfl⟩

theorem Follows.foldl (h : Follows s r) (htripled : tripled s.quoteCount command = false) :
    Follows (command.foldl Splitter.step s) (command.foldl read r) := by
  induction command generalizing s r with
  | nil => exact h
  | cons c command ih =>
      rw [tripled] at htripled
      by_cases hquote : c = '"'
      · rw [if_pos hquote, Bool.or_eq_false_iff, decide_eq_false_iff_not] at htripled
        have hstep := h.quote htripled.1
        have hcount : (s.step '"').quoteCount = s.quoteCount + 1 :=
          by simp [Splitter.step, htripled.1]
        rw [hquote]
        exact ih hstep (hcount ▸ htripled.2)
      · rw [if_neg hquote] at htripled
        obtain ⟨hstep, hcount⟩ := h.char hquote
        exact ih hstep (hcount ▸ htripled)

theorem split_of_not_tripled (h : tripled 0 command = false) :
    split command = (Words.words '"' Text.isWhitespace command).filter (· ≠ []) :=
  (Follows.foldl ⟨rfl, rfl, rfl, Nat.zero_le 2⟩ h).flush

/-- What is read stays. -/
theorem flatten_flush_step (s : Splitter) (c : Char) :
    (s.step c).flush.flatten = s.flush.flatten ∨
    (s.step c).flush.flatten = s.flush.flatten ++ [c] := by
  have hflush (args : List (List Char)) (tmp : List Char) (count : ℕ) (inQuote : Bool) :
      (Splitter.flush ⟨args, tmp, count, inQuote⟩).flatten = args.flatten ++ tmp := by
    unfold Splitter.flush
    by_cases htmp : tmp = [] <;> simp [htmp]
  unfold Splitter.step
  dsimp only
  split_ifs <;> simp [hflush]

theorem mem_flatten_foldl (hmem : '"' ∈ s.flush.flatten) :
    '"' ∈ (command.foldl Splitter.step s).flush.flatten := by
  induction command generalizing s with
  | nil => exact hmem
  | cons c command ih =>
      refine ih ?_
      rcases flatten_flush_step s c with heq | heq <;> simp [heq, hmem]

/-- Three quotes in a row are a quote in an argument. -/
theorem mem_split_of_tripled (htripled : tripled s.quoteCount command = true)
    (hcount : s.quoteCount ≤ 2) :
    '"' ∈ (command.foldl Splitter.step s).flush.flatten := by
  induction command generalizing s with
  | nil => nomatch htripled
  | cons c command ih =>
      rw [tripled] at htripled
      rw [List.foldl_cons]
      by_cases hquote : c = '"'
      · by_cases htwo : s.quoteCount = 2
        · apply mem_flatten_foldl
          simp [Splitter.step, hquote, htwo, Splitter.flush]
        · have hnext : (s.step c).quoteCount = s.quoteCount + 1 :=
            by simp [Splitter.step, hquote, htwo]
          rw [if_pos hquote, decide_eq_false htwo, Bool.false_or] at htripled
          exact ih (hnext ▸ htripled) (by omega)
      · have hnext : (s.step c).quoteCount = 0 := by
          unfold Splitter.step
          rw [if_neg hquote]
          dsimp only
          split_ifs <;> rfl
        rw [if_neg hquote] at htripled
        exact ih (hnext ▸ htripled) (by omega)

/-- A quote is no part of a word. -/
theorem not_mem_words {blank : Char → Bool} (h : '"' ∉ r.all.flatten) :
    '"' ∉ (command.foldl (Reader.step '"' blank) r).all.flatten := by
  induction command generalizing r with
  | nil => exact h
  | cons c command ih =>
      refine ih ?_
      rw [Words.flatten_step]
      by_cases hquote : c = '"'
      · simpa [hquote] using h
      · split_ifs
        · simpa using h
        · simp only [List.mem_append, List.mem_singleton, not_or]
          exact ⟨h, Ne.symm hquote⟩

end Agreement

end NiraOS.Desktop
