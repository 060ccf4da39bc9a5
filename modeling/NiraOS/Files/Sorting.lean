import NiraOS.Files.FileView
import NiraOS.Lib.StrictWeak

/-!
# The order of the file list

The comparison of `FileModel::sortEntries` for every sort column and sort order, those outside of
the known ones included: any order but 0 is descending, and for any other column all entries of a
group are alike.  The comparison of texts is one of Qt, of which it is only used that it is a
three-way comparison.
-/

namespace NiraOS.Files.View

/-! ## What a sorted list is -/

section Definitions

/-- A sort order as a number; `Qt::AscendingOrder` is 0. -/
def SortOrder.ofInt (order : ℤ) : SortOrder := if order = 0 then .ascending else .descending

def FileEntry.IsDirectory (e : FileEntry) : Prop := e.fileType = "directory"

variable (qt : Qt)

/-- The chosen key of `a` is not after that of `b`. -/
def KeyLE (column : ℤ) (a b : FileEntry) : Prop :=
  match column with
  | 0 => (qt.compare a.fileName b.fileName).isLE = true
  | 1 => a.fileSize ≤ b.fileSize
  | 2 => qt.compare a.mimeType b.mimeType = .lt ∨
      qt.compare a.mimeType b.mimeType = .eq ∧ (qt.compare a.fileName b.fileName).isLE = true
  | 3 => a.lastModified ≤ b.lastModified
  | _ => True

structure InOrder (column : ℤ) (order : SortOrder) (rows : List FileEntry) : Prop where
  directoriesFirst : rows.Pairwise fun a b => b.IsDirectory → a.IsDirectory
  keyed : rows.Pairwise fun a b => (a.IsDirectory ↔ b.IsDirectory) →
    match order with
    | .ascending => KeyLE qt column a b
    | .descending => KeyLE qt column b a

end Definitions

/-! ## The comparison -/

section Comparison

variable {α β : Type*} {qt : Qt} {column : ℤ} {order : SortOrder} {a b : FileEntry}

theorem transCmp_on (f : α → β) (cmp : β → β → Ordering) [Std.TransCmp cmp] :
    Std.TransCmp fun a b => cmp (f a) (f b) where
  eq_swap := Std.OrientedCmp.eq_swap
  isLE_trans := Std.TransCmp.isLE_trans

variable (qt column) in
/-- `cmp` of the comparison. -/
def keyCompare (a b : FileEntry) : Ordering :=
  match column with
  | 0 => qt.compare a.fileName b.fileName
  | 1 => Ord.compare a.fileSize b.fileSize
  | 2 => (qt.compare a.mimeType b.mimeType).then (qt.compare a.fileName b.fileName)
  | 3 => Ord.compare a.lastModified b.lastModified
  | _ => .eq

theorem transCmp_keyCompare [Std.TransCmp qt.compare] : Std.TransCmp (keyCompare qt column) := by
  have hname : Std.TransCmp fun a b : FileEntry => qt.compare a.fileName b.fileName :=
    transCmp_on FileEntry.fileName qt.compare
  have htype : Std.TransCmp fun a b : FileEntry => qt.compare a.mimeType b.mimeType :=
    transCmp_on FileEntry.mimeType qt.compare
  have hsize : Std.TransCmp fun a b : FileEntry => Ord.compare a.fileSize b.fileSize :=
    transCmp_on FileEntry.fileSize Ord.compare
  have hdate : Std.TransCmp fun a b : FileEntry => Ord.compare a.lastModified b.lastModified :=
    transCmp_on FileEntry.lastModified Ord.compare
  have hnone : Std.TransCmp fun _ _ : FileEntry => Ordering.eq :=
    { eq_swap := rfl, isLE_trans := fun _ _ => rfl }
  unfold keyCompare
  split
  · exact hname
  · exact hsize
  · exact inferInstanceAs (Std.TransCmp (compareLex _ _))
  · exact hdate
  · exact hnone

variable (qt column order) in
/-- The key in the direction of the order. -/
def directed (a b : FileEntry) : Ordering :=
  match order with
  | .ascending => keyCompare qt column a b
  | .descending => keyCompare qt column b a

variable (qt column order) in
/-- The group first, and in it the key. -/
def fullCompare : FileEntry → FileEntry → Ordering :=
  compareLex (compareOn fun e => decide (e.fileType ≠ "directory")) (directed qt column order)

theorem transCmp_directed [Std.TransCmp qt.compare] : Std.TransCmp (directed qt column order) := by
  have hkey : Std.TransCmp (keyCompare qt column) := transCmp_keyCompare
  cases order with
  | ascending => exact hkey
  | descending => exact @Std.TransCmp.opposite _ (keyCompare qt column) hkey

theorem transCmp_fullCompare [Std.TransCmp qt.compare] :
    Std.TransCmp (fullCompare qt column order) := by
  have hdirected : Std.TransCmp (directed qt column order) := transCmp_directed
  exact inferInstanceAs (Std.TransCmp (compareLex _ _))

theorem sortsBefore_same [Std.TransCmp qt.compare] (h : a.IsDirectory ↔ b.IsDirectory) :
    sortsBefore qt column order a b = true ↔ directed qt column order a b = .lt := by
  have hkey : Std.TransCmp (keyCompare qt column) := transCmp_keyCompare
  have hbody : sortsBefore qt column order a b =
      match order with
      | .ascending => decide (keyCompare qt column a b = .lt)
      | .descending => decide (keyCompare qt column a b = .gt) := by
    unfold FileEntry.IsDirectory at h
    unfold sortsBefore
    rw [if_neg fun hab => hab.2 (h.mp hab.1), if_neg fun hab => hab.1 (h.mpr hab.2)]
    rfl
  rw [hbody]
  cases order with
  | ascending => exact decide_eq_true_iff
  | descending => exact decide_eq_true_iff.trans Std.OrientedCmp.gt_iff_lt

theorem sortsBefore_iff [Std.TransCmp qt.compare] :
    sortsBefore qt column order a b = true ↔ fullCompare qt column order a b = .lt := by
  have hfull : fullCompare qt column order a b =
      (compare (decide (a.fileType ≠ "directory")) (decide (b.fileType ≠ "directory"))).then
        (directed qt column order a b) := rfl
  by_cases ha : a.fileType = "directory"
  · by_cases hb : b.fileType = "directory"
    · rw [hfull, sortsBefore_same (iff_of_true ha hb), ha, hb]
      rfl
    · have hbefore : sortsBefore qt column order a b = true := if_pos ⟨ha, hb⟩
      have hgroup : compare (decide (a.fileType ≠ "directory"))
          (decide (b.fileType ≠ "directory")) = .lt := by
        rw [decide_eq_false (not_not.mpr ha), decide_eq_true hb]
        rfl
      rw [hbefore, hfull, hgroup]
      exact iff_of_true rfl rfl
  · by_cases hb : b.fileType = "directory"
    · have hafter : sortsBefore qt column order a b = false := by
        unfold sortsBefore
        rw [if_neg fun hab => ha hab.1, if_pos ⟨ha, hb⟩]
      have hgroup : compare (decide (a.fileType ≠ "directory"))
          (decide (b.fileType ≠ "directory")) = .gt := by
        rw [decide_eq_true ha, decide_eq_false (not_not.mpr hb)]
        rfl
      rw [hafter, hfull, hgroup]
      exact iff_of_false nofun nofun
    · rw [hfull, sortsBefore_same (iff_of_false ha hb), decide_eq_true ha, decide_eq_true hb]
      rfl

/-- **The comparison** is one that a sort may use. -/
theorem strictWeak_sortsBefore [Std.TransCmp qt.compare] :
    StrictWeak (sortsBefore qt column order) := by
  have hfull : Std.TransCmp (fullCompare qt column order) := transCmp_fullCompare
  exact StrictWeak.of_cmp fun _ _ => sortsBefore_iff

theorem keyLE_iff : KeyLE qt column a b ↔ (keyCompare qt column a b).isLE = true := by
  unfold KeyLE keyCompare
  split
  · rfl
  · exact Int.isLE_compare.symm
  · cases qt.compare a.mimeType b.mimeType <;> simp [Ordering.then]
  · exact Int.isLE_compare.symm
  · exact iff_of_true trivial rfl

end Comparison

/-! ## Sorted lists -/

section Sorted

variable {qt : Qt} {column : ℤ} {order : SortOrder} {rows sorted : List FileEntry}

theorem inOrder_of_sorts [Std.TransCmp qt.compare] (h : Sorts qt column order rows sorted) :
    InOrder qt column order sorted := by
  refine ⟨h.2.imp fun {a b} hba hb => ?_, h.2.imp fun {a b} hba hsame => ?_⟩
  · by_contra ha
    have hbefore : sortsBefore qt column order b a = true := if_pos ⟨hb, ha⟩
    nomatch hbefore.symm.trans hba
  · have hdirected : Std.TransCmp (directed qt column order) := transCmp_directed
    have hle : (directed qt column order a b).isLE = true := by
      by_contra hnot
      have hlt : directed qt column order b a = .lt := Std.OrientedCmp.lt_of_not_isLE hnot
      rw [← sortsBefore_same hsame.symm, hba] at hlt
      nomatch hlt
    cases order with
    | ascending => exact keyLE_iff.mpr hle
    | descending => exact keyLE_iff.mpr hle

end Sorted

/-- **The file list is sorted** for every setting: the comparison is one that a sort may use, and
what it leaves is the same entries, the directories first and each group by its key. -/
theorem sorts_correct (qt : Qt) [Std.TransCmp qt.compare] (column order : ℤ)
    (rows : List FileEntry) :
    StrictWeak (sortsBefore qt column (.ofInt order)) ∧
    (∃ sorted, Sorts qt column (.ofInt order) rows sorted) ∧
      ∀ sorted, Sorts qt column (.ofInt order) rows sorted →
        sorted.Perm rows ∧ InOrder qt column (.ofInt order) sorted :=
  ⟨strictWeak_sortsBefore, strictWeak_sortsBefore.exists_sorted rows,
    fun _ h => ⟨h.1, inOrder_of_sorts h⟩⟩

/-- Texts are compared by their letters, capital or not. -/
def foldingQt : Qt where
  compare a b :=
    Ord.compare (a.toList.map fun c => c.toLower.toNat) (b.toList.map fun c => c.toLower.toNat)
  toLower text := text.toLower

def sample (name : String) (type : String) (size : ℤ) : FileEntry :=
  ⟨name, "/d/" ++ name, size, type, "text/plain", 0, false⟩

/-- A directory stays in front of the files, which go from the largest to the smallest. -/
theorem sorts_sample :
    Sorts foldingQt 1 (.ofInt 1) [sample "b" "file" 2, sample "A" "file" 5,
      sample "c" "directory" 3]
        [sample "c" "directory" 3, sample "A" "file" 5, sample "b" "file" 2] ∧
      InOrder foldingQt 1 (.ofInt 1)
        [sample "c" "directory" 3, sample "A" "file" 5, sample "b" "file" 2] := by
  have hcompare : Std.TransCmp foldingQt.compare :=
    transCmp_on (fun text : String => text.toList.map fun c => c.toLower.toNat) Ord.compare
  have hsorts : Sorts foldingQt 1 (.ofInt 1)
      [sample "b" "file" 2, sample "A" "file" 5, sample "c" "directory" 3]
      [sample "c" "directory" 3, sample "A" "file" 5, sample "b" "file" 2] := by
    decide +kernel
  exact ⟨hsorts, ((sorts_correct foldingQt 1 1 _).2.2 _ hsorts).2⟩

end NiraOS.Files.View
