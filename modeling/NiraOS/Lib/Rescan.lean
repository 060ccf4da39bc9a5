import Mathlib.Data.List.Basic
import Mathlib.Tactic.Common

/-!
# Scanning again what has changed

A text is scanned cell by cell.  A scan gets the state of the cell before; it makes an output, and
it may set the state of its cell, which else keeps the one it had.  After a change the cells that
have changed are scanned again, and those after them as long as states change.

The result is that of a scan from the beginning (`coldAll`) exactly if no cell keeps a state that a
fresh one would not have, and nothing changes for the first cell that is not scanned again.
-/

namespace Rescan

variable {α σ ω : Type*}

structure Cell (α σ ω : Type*) where
  text : α
  state : σ
  output : ω
  deriving DecidableEq

section Definitions

variable (scan : σ → α → Option σ × ω)

def visit (prev : σ) (c : Cell α σ ω) : Cell α σ ω :=
  { c with state := (scan prev c.text).1.getD c.state, output := (scan prev c.text).2 }

def visitAll : σ → List (Cell α σ ω) → List (Cell α σ ω)
  | _, [] => []
  | prev, c :: rest => visit scan prev c :: visitAll (visit scan prev c).state rest

/-- The cells after one that has changed its state or not. -/
def follow [DecidableEq σ] : σ → Bool → List (Cell α σ ω) → List (Cell α σ ω)
  | _, _, [] => []
  | _, false, c :: rest => c :: rest
  | prev, true, c :: rest =>
      visit scan prev c ::
        follow (visit scan prev c).state ((visit scan prev c).state ≠ c.state) rest

/-- The state of the last cell, or the one before. -/
def lastState : σ → List (Cell α σ ω) → σ
  | prev, [] => prev
  | _, c :: rest => lastState c.state rest

variable (fresh : σ)

/-- The scan of a cell that has no state yet. -/
def cold (prev : σ) (text : α) : Cell α σ ω :=
  ⟨text, (scan prev text).1.getD fresh, (scan prev text).2⟩

def coldAll : σ → List α → List (Cell α σ ω)
  | _, [] => []
  | prev, text :: rest => cold scan fresh prev text ::
      coldAll (cold scan fresh prev text).state rest

/-- The state that a cell keeps is the one of a fresh cell. -/
def CleanCell (prev : σ) (c : Cell α σ ω) : Prop := (scan prev c.text).1 = none → c.state = fresh

def Clean : σ → List (Cell α σ ω) → Prop
  | _, [] => True
  | prev, c :: rest => CleanCell scan fresh prev c ∧ Clean (visit scan prev c).state rest

/-- The same for the cells after one that has changed its state or not; the first that is not
scanned again would come out as it is. -/
def CleanFollow [DecidableEq σ] : σ → Bool → List (Cell α σ ω) → Prop
  | _, _, [] => True
  | prev, false, c :: _ => cold scan fresh prev c.text = c
  | prev, true, c :: rest =>
      CleanCell scan fresh prev c ∧
        CleanFollow (visit scan prev c).state ((visit scan prev c).state ≠ c.state) rest

section Rescan

variable [DecidableEq σ] (start : σ) (before inserted after : List (Cell α σ ω))

/-- Some cells have changed, or are new, between others. -/
def rescan : List (Cell α σ ω) :=
  let prev := lastState start before
  let visited := visitAll scan prev inserted
  before ++ visited ++ follow scan (lastState prev visited)
    (lastState prev visited ≠ lastState prev inserted) after

def CleanRescan : Prop :=
  let prev := lastState start before
  let state := lastState prev (visitAll scan prev inserted)
  Clean scan fresh prev inserted ∧
    CleanFollow scan fresh state (state ≠ lastState prev inserted) after

end Rescan

variable [DecidableEq α] [DecidableEq σ] [DecidableEq ω]

instance (prev : σ) (c : Cell α σ ω) : Decidable (CleanCell scan fresh prev c) :=
  inferInstanceAs (Decidable (_ → _))

instance decidableClean : ∀ prev (cells : List (Cell α σ ω)),
    Decidable (Clean scan fresh prev cells)
  | _, [] => isTrue trivial
  | prev, c :: rest =>
      have := decidableClean (visit scan prev c).state rest
      inferInstanceAs (Decidable (_ ∧ _))

instance decidableCleanFollow :
    ∀ prev force (cells : List (Cell α σ ω)), Decidable (CleanFollow scan fresh prev force cells)
  | _, _, [] => isTrue (by unfold CleanFollow; trivial)
  | prev, false, c :: _ => inferInstanceAs (Decidable (cold scan fresh prev c.text = c))
  | prev, true, c :: rest =>
      have :=
        decidableCleanFollow (visit scan prev c).state ((visit scan prev c).state ≠ c.state) rest
      inferInstanceAs (Decidable (_ ∧ _))

instance (start : σ) (before inserted after : List (Cell α σ ω)) :
    Decidable (CleanRescan scan fresh start before inserted after) :=
  inferInstanceAs (Decidable (_ ∧ _))

end Definitions

/-! ## Scanning all cells -/

section All

variable {scan : σ → α → Option σ × ω} {fresh prev old : σ} {c : Cell α σ ω}
    {cells before after : List (Cell α σ ω)}
  {texts more : List α}

@[simp] theorem text_visit : (visit scan prev c).text = c.text := rfl

@[simp] theorem length_coldAll : (coldAll scan fresh prev texts).length = texts.length := by
  induction texts generalizing prev with
  | nil => rfl
  | cons text rest ih => simp [coldAll, ih]

@[simp] theorem length_visitAll : (visitAll scan prev cells).length = cells.length := by
  induction cells generalizing prev with
  | nil => rfl
  | cons c rest ih => simp [visitAll, ih]

@[simp] theorem map_text_coldAll : (coldAll scan fresh prev texts).map Cell.text = texts := by
  induction texts generalizing prev with
  | nil => rfl
  | cons text rest ih => simp [coldAll, cold, ih]

@[simp] theorem map_text_visitAll :
    (visitAll scan prev cells).map Cell.text = cells.map Cell.text := by
  induction cells generalizing prev with
  | nil => rfl
  | cons c rest ih => simp [visitAll, ih]

theorem coldAll_append :
    coldAll scan fresh prev (texts ++ more) =
      coldAll scan fresh prev texts ++
        coldAll scan fresh (lastState prev (coldAll scan fresh prev texts)) more := by
  induction texts generalizing prev with
  | nil => rfl
  | cons text rest ih => simp [coldAll, lastState, ih]

theorem visit_eq_cold_iff :
    visit scan prev c = cold scan fresh prev c.text ↔ CleanCell scan fresh prev c := by
  unfold visit cold CleanCell
  cases hscan : (scan prev c.text).1 with
  | none => simp
  | some state => simp

/-- **All cells** come out as in a scan from the beginning exactly if they are clean. -/
theorem visitAll_eq_iff :
    visitAll scan prev cells = coldAll scan fresh prev (cells.map Cell.text) ↔
      Clean scan fresh prev cells := by
  induction cells generalizing prev with
  | nil => exact iff_of_true rfl trivial
  | cons c rest ih =>
      rw [visitAll, List.map_cons, coldAll, Clean, List.cons.injEq, visit_eq_cold_iff]
      apply and_congr_right
      intro hclean
      rw [← visit_eq_cold_iff.mpr hclean]
      exact ih

/-- Cells without a state are clean. -/
theorem clean_of_fresh (h : ∀ c ∈ cells, c.state = fresh) : Clean scan fresh prev cells := by
  induction cells generalizing prev with
  | nil => trivial
  | cons c rest ih =>
      refine ⟨fun _ => h c (List.mem_cons_self ..), ih fun d hd => ?_⟩
      exact h d (List.mem_cons_of_mem _ hd)

end All

/-! ## Scanning on -/

section On

variable [DecidableEq σ] {scan : σ → α → Option σ × ω} {fresh prev old start : σ} {force : Bool}
  {cells before removed inserted after : List (Cell α σ ω)}

@[simp] theorem map_text_follow :
    (follow scan prev force cells).map Cell.text = cells.map Cell.text := by
  induction cells generalizing prev force with
  | nil => cases force <;> rfl
  | cons c rest ih =>
      cases force with
      | false => rfl
      | true => simp [follow, ih]

theorem map_text_rescan :
    (rescan scan start before inserted after).map Cell.text =
      before.map Cell.text ++ inserted.map Cell.text ++ after.map Cell.text := by
  simp [rescan]

/-- **The cells after a change**, which were as in a scan from the beginning. -/
theorem follow_eq_iff (h : cells = coldAll scan fresh old (cells.map Cell.text)) :
    follow scan prev force cells = coldAll scan fresh prev (cells.map Cell.text) ↔
      CleanFollow scan fresh prev force cells := by
  induction cells generalizing prev old force with
  | nil => cases force <;> exact iff_of_true rfl trivial
  | cons c rest ih =>
      rw [List.map_cons, coldAll, List.cons.injEq] at h
      obtain ⟨hc, hrest⟩ := h
      rw [← hc] at hrest
      rw [List.map_cons, coldAll]
      cases force with
      | false =>
          rw [follow, CleanFollow, List.cons.injEq]
          constructor
          · intro heq
            exact heq.1.symm
          · intro heq
            rw [heq]
            exact ⟨rfl, hrest⟩
      | true =>
          rw [follow, CleanFollow, List.cons.injEq, visit_eq_cold_iff]
          apply and_congr_right
          intro hclean
          rw [← visit_eq_cold_iff.mpr hclean]
          exact ih hrest

/-- **After a change** all is as in a scan from the beginning exactly if what is scanned is clean.
-/
theorem rescan_eq_iff
    (h : before ++ removed ++ after =
      coldAll scan fresh start ((before ++ removed ++ after).map Cell.text)) :
    rescan scan start before inserted after =
        coldAll scan fresh start
        (before.map Cell.text ++ inserted.map Cell.text ++ after.map Cell.text) ↔
      CleanRescan scan fresh start before inserted after := by
  rw [List.append_assoc, List.map_append, List.map_append, coldAll_append, coldAll_append] at h
  obtain ⟨hbefore, hrest⟩ := List.append_inj h (by simp)
  rw [← hbefore] at hrest
  obtain ⟨hremoved, hafter⟩ := List.append_inj hrest (by simp)
  rw [← hremoved] at hafter
  unfold rescan CleanRescan
  dsimp only
  rw [List.append_assoc, List.append_assoc, coldAll_append, ← hbefore, List.append_cancel_left_eq,
    coldAll_append]
  constructor
  · intro heq
    obtain ⟨hvisited, hfollowed⟩ :=
      List.append_inj heq (by rw [length_visitAll, length_coldAll, List.length_map])
    rw [← hvisited, follow_eq_iff hafter] at hfollowed
    exact ⟨visitAll_eq_iff.mp hvisited, hfollowed⟩
  · intro hclean
    have hvisited := visitAll_eq_iff.mpr hclean.1
    rw [← hvisited, (follow_eq_iff hafter).mpr hclean.2]

end On

end Rescan
