import NiraOS.Lib.Recency
import Mathlib.Data.List.Induction

/-!
# The recent files of the notepad

`recentFiles`, `addRecentFile` and `clearRecentFiles` of `FileDialogHelper`
(`apps/notepad/src/main.cpp`), on what the settings hold under `Notepad/recentFiles`.
-/

namespace NiraOS.Notepad.RecentFiles

/-- What the settings hold under `Notepad/recentFiles`, if anything. -/
abbrev Settings := Option (List String)

section Operations

variable (s : Settings)

def recentFiles : List String := s.getD []

/-- `while (list.size() > 10) list.removeLast();`, for a list of at most the given length. -/
def removeSurplus : ℕ → List String → List String
  | 0, list => list
  | n + 1, list => if list.length > 10 then removeSurplus n list.dropLast else list

def addRecentFile (path : String) : Settings :=
  if path = "" then s
  else
    let list := recentFiles s
    let list := list.filter (· ≠ path)
    let list := path :: list
    some (removeSurplus list.length list)

def clearRecentFiles (_ : Settings) : Settings := none

end Operations

inductive Call
  | addRecentFile (path : String)
  | clearRecentFiles

def Call.run (s : Settings) : Call → Settings
  | .addRecentFile path => RecentFiles.addRecentFile s path
  | .clearRecentFiles => RecentFiles.clearRecentFiles s

/-- What the settings hold after some calls, when they held nothing before. -/
def run (calls : List Call) : Settings := calls.foldl Call.run none

def Call.added (paths : List String) : Call → List String
  | .addRecentFile path => if path = "" then paths else paths ++ [path]
  | .clearRecentFiles => []

/-- The paths that were added since the list was cleared, the last at the end. -/
def added (calls : List Call) : List String := calls.foldl Call.added []

section Lemmas

variable {s : Settings} {path : String}

theorem removeSurplus_eq {n : ℕ} {list : List String} (h : list.length ≤ n) :
    removeSurplus n list = list.take 10 := by
  induction n generalizing list with
  | zero =>
      obtain rfl := List.eq_nil_of_length_eq_zero (Nat.le_zero.mp h)
      rfl
  | succ n ih =>
      unfold removeSurplus
      split_ifs with hsurplus
      · rw [ih (by rw [List.length_dropLast]; omega), List.dropLast_eq_take, List.take_take,
          Nat.min_eq_left (by omega)]
      · exact (List.take_of_length_le (by omega)).symm

theorem recentFiles_addRecentFile (h : path ≠ "") :
    recentFiles (addRecentFile s path) = (Recency.touch path (recentFiles s)).take 10 := by
  rw [addRecentFile, if_neg h]
  exact removeSurplus_eq (Nat.le_refl _)

end Lemmas

/-- **The recent files** are the ten most recent of the paths that were added since the list was
cleared. -/
theorem recentFiles_run (calls : List Call) :
    ∃ list, Recency.Recent (added calls) list ∧ recentFiles (run calls) = list.take 10 := by
  induction calls using List.reverseRecOn with
  | nil => exact ⟨[], Recency.Recent.nil, rfl⟩
  | append_singleton calls call ih =>
      obtain ⟨list, hrecent, hlist⟩ := ih
      have hrun : run (calls ++ [call]) = call.run (run calls) := List.foldl_concat ..
      have hadded : added (calls ++ [call]) = call.added (added calls) := List.foldl_concat ..
      rw [hrun, hadded]
      cases call with
      | clearRecentFiles => exact ⟨[], Recency.Recent.nil, rfl⟩
      | addRecentFile path =>
          by_cases hpath : path = ""
          · refine ⟨list, ?_, ?_⟩
            · rwa [Call.added, if_pos hpath]
            · rw [Call.run, addRecentFile, if_pos hpath, hlist]
          · refine ⟨Recency.touch path list, ?_, ?_⟩
            · rw [Call.added, if_neg hpath]
              exact hrecent.touch path
            · rw [Call.run, recentFiles_addRecentFile hpath, hlist,
                Recency.take_touch hrecent.nodup]

end NiraOS.Notepad.RecentFiles
