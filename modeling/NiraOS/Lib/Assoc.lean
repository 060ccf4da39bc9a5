import Mathlib.Data.List.Basic
import Mathlib.Data.List.Nodup
import Mathlib.Logic.Function.Basic

/-!
# Maps as lists of entries

`lookup` finds the first entry of a key.  The operations below keep every key to one
entry, and what they do is what they do to lookups.
-/

namespace Assoc

variable {α β : Type*} [DecidableEq α] {l : List (α × β)} {key other : α}

def keys (l : List (α × β)) : List α := l.map Prod.fst

def erase (l : List (α × β)) (key : α) : List (α × β) := l.filter fun entry => entry.1 != key

def insert (l : List (α × β)) (key : α) (value : β) : List (α × β) := (key, value) :: erase l key

/-- Change the value of the first entry of a key. -/
def modify (key : α) (f : β → β) : List (α × β) → List (α × β)
  | [] => []
  | entry :: l => if entry.1 = key then (key, f entry.2) :: l else entry :: modify key f l

/-! ## Lookups -/

theorem lookup_cons (key : α) (value : β) (l : List (α × β)) (other : α) :
    ((key, value) :: l).lookup other = if other = key then some value else l.lookup other := by
  rw [List.lookup_cons]
  split_ifs with h
  · simp [h]
  · rw [show (other == key) = false by simpa using h]

theorem lookup_erase (l : List (α × β)) (key other : α) :
    (erase l key).lookup other = if other = key then none else l.lookup other := by
  induction l with
  | nil => simp [erase]
  | cons entry l ih =>
      obtain ⟨name, value⟩ := entry
      rw [erase] at ih
      by_cases hname : name = key
      · rw [erase, List.filter_cons_of_neg (by simpa using hname), ih, lookup_cons, hname]
        split_ifs <;> rfl
      · rw [erase, List.filter_cons_of_pos (by simpa using hname), lookup_cons, lookup_cons, ih]
        split_ifs with hother hkey
        · exact absurd (hother.symm.trans hkey) hname
        · rfl
        · rfl
        · rfl

/-- Inserting changes the value of its key only. -/
theorem lookup_insert (l : List (α × β)) (key : α) (value : β) (other : α) :
    (insert l key value).lookup other = if other = key then some value else l.lookup other := by
  rw [insert, lookup_cons, lookup_erase]
  split_ifs <;> rfl

/-! What is read of all lookups changes at one key. -/

section Reading

variable {γ : Type*}

theorem read_erase (read : Option β → γ) (l : List (α × β)) (key : α) :
    (fun other => read ((erase l key).lookup other)) =
      Function.update (fun other => read (l.lookup other)) key (read none) := by
  funext other
  rw [lookup_erase]
  by_cases hother : other = key
  · rw [if_pos hother, hother, Function.update_self]
  · rw [if_neg hother, Function.update_of_ne hother]

theorem read_insert (read : Option β → γ) (l : List (α × β)) (key : α) (value : β) :
    (fun other => read ((insert l key value).lookup other)) =
      Function.update (fun other => read (l.lookup other)) key (read (some value)) := by
  funext other
  rw [lookup_insert]
  by_cases hother : other = key
  · rw [if_pos hother, hother, Function.update_self]
  · rw [if_neg hother, Function.update_of_ne hother]

end Reading

theorem lookup_modify (l : List (α × β)) (key : α) (f : β → β) (other : α) :
    (modify key f l).lookup other =
      if other = key then (l.lookup other).map f else l.lookup other := by
  induction l with
  | nil => simp [modify]
  | cons entry l ih =>
      obtain ⟨name, value⟩ := entry
      rw [modify]
      by_cases hname : name = key
      · rw [if_pos hname, lookup_cons, lookup_cons, hname]
        split_ifs <;> rfl
      · rw [if_neg hname, lookup_cons, lookup_cons, ih]
        split_ifs with hother hkey
        · exact absurd (hother.symm.trans hkey) hname
        · rfl
        · rfl
        · rfl

theorem lookup_append_singleton (l : List (α × β)) (key : α) (value : β) (other : α)
    (h : l.lookup key = none) :
    (l ++ [(key, value)]).lookup other = if other = key then some value else l.lookup other := by
  rw [List.lookup_append, lookup_cons, List.lookup_nil]
  split_ifs with hother
  · rw [hother, h]
    rfl
  · exact Option.or_none

/-! ## Keys -/

theorem lookup_ne_none : l.lookup key ≠ none ↔ key ∈ keys l := by
  rw [Ne, List.lookup_eq_none_iff]
  simp only [keys, List.mem_map, bne_iff_ne, ne_eq, not_forall, not_not]
  exact ⟨fun ⟨entry, hmem, heq⟩ => ⟨entry, hmem, heq.symm⟩, fun ⟨entry, hmem, heq⟩ =>
    ⟨entry, hmem, heq.symm⟩⟩

/-- With one entry a key, the entries are the lookups. -/
theorem mem_iff_lookup (h : (keys l).Nodup) {value : β} :
    (key, value) ∈ l ↔ l.lookup key = some value := by
  induction l with
  | nil => simp
  | cons entry l ih =>
      obtain ⟨name, value'⟩ := entry
      rw [keys, List.map_cons, List.nodup_cons] at h
      rw [lookup_cons, List.mem_cons, ih h.2]
      by_cases hkey : key = name
      · subst hkey
        have hnone : l.lookup key = none := by
          by_contra hne
          exact h.1 (lookup_ne_none.mp hne)
        simp [hnone, eq_comm]
      · simp [hkey]

theorem keys_erase (l : List (α × β)) (key : α) :
    keys (erase l key) = (keys l).filter (· != key) := by
  rw [keys, keys, erase, List.filter_map]
  rfl

theorem nodup_insert (h : (keys l).Nodup) (key : α) (value : β) :
    (keys (insert l key value)).Nodup := by
  rw [insert, keys, List.map_cons, ← keys, keys_erase, List.nodup_cons]
  exact ⟨by simp, h.filter _⟩

theorem nodup_erase (h : (keys l).Nodup) (key : α) : (keys (erase l key)).Nodup := by
  rw [keys_erase]
  exact h.filter _

/-- With one entry a key, removing the first entry of a key removes the key. -/
theorem eraseP_eq_erase (h : (keys l).Nodup) (key : α) :
    l.eraseP (fun entry => entry.1 = key) = erase l key := by
  induction l with
  | nil => rfl
  | cons entry l ih =>
      rw [keys, List.map_cons, List.nodup_cons] at h
      by_cases hkey : entry.1 = key
      · have hnot : key ∉ keys l := hkey ▸ h.1
        rw [List.eraseP_cons_of_pos (by simpa using hkey), erase,
          List.filter_cons_of_neg (by simpa using hkey), List.filter_eq_self.mpr]
        intro other hother
        rw [bne_iff_ne]
        rintro rfl
        exact hnot (List.mem_map_of_mem hother)
      · rw [List.eraseP_cons_of_neg (by simpa using hkey), erase,
          List.filter_cons_of_pos (by simpa using hkey), ← erase, ih h.2]

theorem keys_modify (l : List (α × β)) (key : α) (f : β → β) : keys (modify key f l) = keys l := by
  induction l with
  | nil => rfl
  | cons entry l ih =>
      rw [modify]
      split_ifs with h
      · simp [keys, h]
      · simp only [keys, List.map_cons] at ih ⊢
        rw [ih]

theorem nodup_append_singleton (h : (keys l).Nodup) (hkey : l.lookup key = none) (value : β) :
    (keys (l ++ [(key, value)])).Nodup := by
  have hnot : key ∉ keys l := fun hmem => lookup_ne_none.mpr hmem hkey
  rw [keys, List.map_append, List.nodup_append]
  refine ⟨h, List.nodup_singleton _, fun a ha b hb => ?_⟩
  rw [List.map_singleton, List.mem_singleton] at hb
  rintro rfl
  rw [hb] at ha
  exact hnot ha

end Assoc
