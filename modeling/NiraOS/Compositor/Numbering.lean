import NiraOS.Compositor.Windows
import NiraOS.Lib.Decimal

/-!
# The chromes and the ids of the windows

A chrome is made once and keeps its place.  It is of a window, and bears the id that the counter
gave it, or it is the shell.  As long as the counter has not come round, the ids of the windows are
distinct (`Numbered`): a window that comes gets a new one, and one that goes, or is promoted to the
shell, takes its own away.
-/

namespace NiraOS.Compositor.Windows

/-- What a chrome is. -/
structure Slot where
  isShell : Bool
  windowId : String
  destroyed : Bool

def Chrome.slot (ch : Chrome) : Slot := ⟨ch.isShell, ch.windowId, ch.destroyed⟩

/-! ## Ids -/

/-- The id of the window that is registered after `n` others. -/
def nthId (n : ℕ) : String := windowIdAfter ((n : ℤ).bmod (2 ^ 32))

theorem nthId_ne_empty (n : ℕ) : nthId n ≠ "" := by
  intro h
  have hlength := congrArg String.length h
  rw [nthId, windowIdAfter, String.length_append] at hlength
  change 4 + _ = 0 at hlength
  omega

/-- As many ids as the counter has values are distinct. -/
theorem nthId_injOn {m n : ℕ} (hm : m < 2 ^ 32) (hn : n < 2 ^ 32) (h : nthId m = nthId n) :
    m = n := by
  have hchars := congrArg String.toList h
  rw [nthId, nthId, windowIdAfter, windowIdAfter, String.toList_append,
    String.toList_append] at hchars
  have hrepr :=
    Decimal.repr_int_injective (String.toList_injective (List.append_cancel_left hchars))
  have hbmod : (m : ℤ).bmod (2 ^ 32) = (n : ℤ).bmod (2 ^ 32) := by omega
  have hmod : (m : ℤ) % (2 ^ 32 : ℕ) = (n : ℤ) % (2 ^ 32 : ℕ) := by
    rw [← Int.bmod_emod, hbmod, Int.bmod_emod]
  omega

theorem counter_succ (n : ℕ) :
    ((n : ℤ).bmod (2 ^ 32) + 1).bmod (2 ^ 32) = ((n + 1 : ℕ) : ℤ).bmod (2 ^ 32) := by
  rw [Int.bmod_add_bmod, Int.natCast_succ]

/-! ## The numbering -/

/-- The chromes after `n` windows were registered: the ids are of these, and each is of one window.
-/
structure Numbered (slots : ℕ → Option Slot) (next : ℕ) (counter : ℤ) (n : ℕ) : Prop where
  unborn : ∀ c, next ≤ c → slots c = none
  le_next : n ≤ next
  counter : counter = (n : ℤ).bmod (2 ^ 32)
  named : ∀ c slot, slots c = some slot → slot.isShell = false → ∃ m < n, slot.windowId = nthId m
  once : ∀ c c' slot slot', slots c = some slot → slots c' = some slot' → slot.isShell = false →
    slot'.isShell = false → slot.windowId = slot'.windowId → c = c'

section Numbered

variable {slots slots' : ℕ → Option Slot} {next next' : ℕ} {counter : ℤ} {n c : ℕ} {slot : Slot}

theorem numbered_zero : Numbered (fun _ => none) 0 0 0 where
  unborn _ _ := rfl
  le_next := Nat.le_refl 0
  counter := rfl
  named _ _ hslot := by cases hslot
  once _ _ _ _ hslot := by cases hslot

theorem Numbered.lt_next (h : Numbered slots next counter n) (hslot : slots c = some slot) :
    c < next := by
  by_contra hc
  have hnone := h.unborn c (Nat.le_of_not_lt hc)
  rw [hslot] at hnone
  cases hnone

theorem Numbered.windowId_ne_empty (h : Numbered slots next counter n) (hslot : slots c = some slot)
    (hwindow : slot.isShell = false) : slot.windowId ≠ "" := by
  obtain ⟨m, -, hid⟩ := h.named c slot hslot hwindow
  rw [hid]
  exact nthId_ne_empty m

/-- The next id is none of the earlier ones. -/
theorem Numbered.nthId_ne (h : Numbered slots next counter n) (hnext : next < 2 ^ 32) {m : ℕ}
    (hm : m < n) : nthId m ≠ windowIdAfter counter := by
  have hle := h.le_next
  have hnew : windowIdAfter counter = nthId n := by rw [h.counter, nthId]
  rw [hnew]
  intro heq
  have hsame := nthId_injOn (by omega) (by omega) heq
  omega

theorem Numbered.fresh (h : Numbered slots next counter n) (hnext : next < 2 ^ 32)
    (hslot : slots c = some slot) (hwindow : slot.isShell = false) :
    slot.windowId ≠ windowIdAfter counter := by
  obtain ⟨m, hm, hid⟩ := h.named c slot hslot hwindow
  rw [hid]
  exact h.nthId_ne hnext hm

/-- **A new window** gets a new id. -/
theorem Numbered.addWindow (h : Numbered slots next counter n) (hnext : next < 2 ^ 32) :
    Numbered (Function.update slots next (some ⟨false, windowIdAfter counter, false⟩)) (next + 1)
      ((counter + 1).bmod (2 ^ 32)) (n + 1) := by
  have hcases : ∀ d slot, Function.update slots
    next (some ⟨false, windowIdAfter counter, false⟩) d =
      some slot → d = next ∧ slot.windowId = windowIdAfter counter ∨
        d ≠ next ∧ slots d = some slot := by
    intro d slot hslot
    by_cases hd : d = next
    · rw [hd, Function.update_self] at hslot
      obtain rfl := Option.some.inj hslot
      exact Or.inl ⟨hd, rfl⟩
    · rw [Function.update_of_ne hd] at hslot
      exact Or.inr ⟨hd, hslot⟩
  constructor
  · intro d hd
    rw [Function.update_of_ne (by omega)]
    exact h.unborn d (by omega)
  · exact Nat.succ_le_succ h.le_next
  · rw [h.counter, counter_succ]
  · intro d slot hslot hwindow
    rcases hcases d slot hslot with ⟨-, hid⟩ | ⟨-, hold⟩
    · exact ⟨n, Nat.lt_succ_self n, by rw [hid, h.counter, nthId]⟩
    · obtain ⟨m, hm, hid⟩ := h.named d slot hold hwindow
      exact ⟨m, Nat.lt_succ_of_lt hm, hid⟩
  · intro d d' slot slot' hslot hslot' hwindow hwindow' hid
    rcases hcases d slot hslot with ⟨hd, hnew⟩ | ⟨-, hold⟩ <;>
      rcases hcases d' slot' hslot' with ⟨hd', hnew'⟩ | ⟨-, hold'⟩
    · exact hd.trans hd'.symm
    · exact absurd (hid.symm.trans hnew) (h.fresh hnext hold' hwindow')
    · exact absurd (hid.trans hnew') (h.fresh hnext hold hwindow)
    · exact h.once d d' slot slot' hold hold' hwindow hwindow' hid

/-- **No window comes**: those that are left are as they were. -/
theorem Numbered.of_windows (h : Numbered slots next counter n) (hnext : next ≤ next')
    (hunborn : ∀ c, next' ≤ c → slots' c = none)
    (hwindows : ∀ c slot, slots' c = some slot → slot.isShell = false →
      ∃ old, slots c = some old ∧ old.isShell = false ∧ slot.windowId = old.windowId) :
    Numbered slots' next' counter n := by
  constructor
  · exact hunborn
  · exact h.le_next.trans hnext
  · exact h.counter
  · intro c slot hslot hwindow
    obtain ⟨old, hold, hwindow', hid⟩ := hwindows c slot hslot hwindow
    rw [hid]
    exact h.named c old hold hwindow'
  · intro c c' slot slot' hslot hslot' hwindow hwindow' hid
    obtain ⟨old, hold, holdwindow, holdid⟩ := hwindows c slot hslot hwindow
    obtain ⟨old', hold', holdwindow', holdid'⟩ := hwindows c' slot' hslot' hwindow'
    exact h.once c c' old old' hold hold' holdwindow holdwindow'
      (holdid.symm.trans (hid.trans holdid'))

theorem Numbered.addShell (h : Numbered slots next counter n) (hshell : slot.isShell = true) :
    Numbered (Function.update slots next (some slot)) (next + 1) counter n := by
  apply h.of_windows (Nat.le_succ next)
  · intro c hc
    rw [Function.update_of_ne (by omega)]
    exact h.unborn c (by omega)
  · intro c slot' hslot' hwindow
    by_cases hc : c = next
    · rw [hc, Function.update_self] at hslot'
      obtain rfl := Option.some.inj hslot'
      rw [hshell] at hwindow
      cases hwindow
    · rw [Function.update_of_ne hc] at hslot'
      exact ⟨slot', hslot', hwindow, rfl⟩

/-- **One chrome changes**, or goes; if it is of a window then, it was of that window before. -/
theorem Numbered.update (h : Numbered slots next counter n) (hslot : slots c = some slot)
    {new : Option Slot} (hnew : ∀ slot' ∈ new, slot'.isShell = false →
      slot.isShell = false ∧ slot'.windowId = slot.windowId) :
    Numbered (Function.update slots c new) next counter n := by
  apply h.of_windows (Nat.le_refl next)
  · intro d hd
    have hdc : d ≠ c := (Nat.lt_of_lt_of_le (h.lt_next hslot) hd).ne'
    rw [Function.update_of_ne hdc]
    exact h.unborn d hd
  · intro d slot' hslot' hwindow
    by_cases hd : d = c
    · rw [hd, Function.update_self] at hslot'
      obtain ⟨hold, hid⟩ := hnew slot' hslot' hwindow
      exact ⟨slot, hd ▸ hslot, hold, hid⟩
    · rw [Function.update_of_ne hd] at hslot'
      exact ⟨slot', hslot', hwindow, rfl⟩

end Numbered

end NiraOS.Compositor.Windows
